import Remon.Pod.Flush
import Remon.Remote.Fetch

/-! # Swapping is transparent

One pod, the files of the swap directory and the entries that the memory nodes hold for it. The
invariant names the page `m` that all copies stand for and says where its bytes are. A swapped
page is only restored up to the inside of its free tail, so `m` changes on the way back, but
never on a byte of a live allocation.
-/

namespace Remon
open Function Lib Heap Fault List

namespace Pod

variable {L : Layout} {p : Pod} {live : Set ℕ}

/-- The page of `p` carries the live bytes: it is a small-block page on which they belong to
blocks in use that nobody has freed, or a page of a huge block. -/
inductive Carries (L : Layout) (live : Set ℕ) (p : Pod) : Prop
  | small {h : AbsHeap L} (hp : p.Small h) (hl : ∀ a ∈ live, ∃ q n, h.Alloc q n ∧
      q ∉ p.freeBuffer ∧ q ≤ a ∧ a + 16 < q + n)
  | huge (hi : p.heap.inited = false) (hb : p.freeBuffer = [])
      (hl : ∀ a ∈ live, L.payloadStart ≤ a ∧ a < L.payloadEnd)

def refill (L : Layout) (t : ℕ) (m : Mem) : Mem :=
  restore L (m.zero L.payloadStart L.payloadSize) t (swapImage L m t)

theorem Small.getTailOffset_eq {h : AbsHeap L} (hp : p.Small h) :
    p.getTailOffset L = h.tailFree := by
  rw [getTailOffset, isForSmallAllocations, hp.rep.inited, if_pos rfl,
    getTailFreeBlock_eq hp.rep.spells]

theorem Small.setMem {h : AbsHeap L} {m : Mem} (hp : p.Small h) (hm : Spells m h) :
    (p.setMem m).Small h :=
  ⟨⟨hp.rep.inited, hp.rep.unlocked, hm⟩, hp.idle, hp.nodup, hp.pending⟩

theorem getTailOffset_huge (hi : p.heap.inited = false) : p.getTailOffset L = L.payloadSize := by
  rw [getTailOffset, isForSmallAllocations, hi]
  rfl

namespace Carries

theorem tail_le (hc : p.Carries L live) :
    p.getTailOffset L = L.payloadSize ∨ p.getTailOffset L + 32 ≤ L.payloadSize := by
  cases hc with
  | @small h hp hl =>
    rw [hp.getTailOffset_eq]
    exact h.tailFree_le
  | huge hi hb hl => exact .inl (getTailOffset_huge hi)

/-- Every live byte is stored. -/
theorem stored (hc : p.Carries L live) {a : ℕ} (ha : a ∈ live) :
    (L.payloadStart ≤ a ∧ a < L.payloadEnd) ∧ (p.getTailOffset L ≠ L.payloadSize →
      a < L.payloadStart + p.getTailOffset L + 16 ∨ L.payloadEnd ≤ a + 16) := by
  cases hc with
  | @small h hp hl =>
    obtain ⟨q, n, hq, -, h1, h2⟩ := hl a ha
    have hu : h.InUse a := ⟨q, n, hq, h1, h2⟩
    rw [hp.getTailOffset_eq]
    exact ⟨hu.inPage, h.stored (.inr (.inr (.inr (.inl hu))))⟩
  | huge hi hb hl => exact ⟨hl a ha, fun hne => absurd (getTailOffset_huge hi) hne⟩

theorem restore_live (hc : p.Carries L live) {a : ℕ} (ha : a ∈ live) (b : Mem) :
    restore L b (p.getTailOffset L) (swapImage L p.mem (p.getTailOffset L)) a = p.mem a :=
  restore_apply hc.tail_le (hc.stored ha).1 (hc.stored ha).2

theorem setMem_small {h : AbsHeap L} {m : Mem} (hp : p.Small h) (hm : Spells m h)
    (hl : ∀ a ∈ live, ∃ q n, h.Alloc q n ∧ q ∉ p.freeBuffer ∧ q ≤ a ∧ a + 16 < q + n) :
    (p.setMem m).Carries L live ∧ (p.setMem m).getTailOffset L = p.getTailOffset L := by
  rw [(hp.setMem hm).getTailOffset_eq, hp.getTailOffset_eq]
  exact ⟨.small (hp.setMem hm) hl, rfl⟩

theorem setMem_huge {m : Mem} (hi : p.heap.inited = false) (hb : p.freeBuffer = [])
    (hl : ∀ a ∈ live, L.payloadStart ≤ a ∧ a < L.payloadEnd) :
    (p.setMem m).Carries L live ∧ (p.setMem m).getTailOffset L = p.getTailOffset L := by
  rw [getTailOffset_huge hi, getTailOffset_huge (p := p.setMem m) hi]
  exact ⟨.huge hi hb hl, rfl⟩

/-- The page that comes back carries the same bytes. -/
theorem refill (hc : p.Carries L live) :
    (p.setMem (refill L (p.getTailOffset L) p.mem)).Carries L live ∧
      (p.setMem (Pod.refill L (p.getTailOffset L) p.mem)).getTailOffset L = p.getTailOffset L := by
  cases hc with
  | @small h hp hl =>
    have he : Pod.refill L (p.getTailOffset L) p.mem = reload L p.mem := by
      rw [Pod.refill, reload, hp.getTailOffset_eq, getTailFreeBlock_eq hp.rep.spells]
    rw [he]
    exact setMem_small hp (reload_spells hp.rep.spells) hl
  | huge hi hb hl => exact setMem_huge hi hb hl

/-- A flush returns, keeps the live bytes and leaves a free tail free. -/
theorem flush (hc : p.Carries L live) :
    ∃ s, p.flushFreeBuffer L = .ok { p with heap := s, freeBuffer := [] } ∧
      ({ p with heap := s, freeBuffer := [] } : Pod).Carries L live ∧
      (∀ a ∈ live, s.mem a = p.mem a) ∧
      (p.getTailOffset L ≠ L.payloadSize →
        ({ p with heap := s, freeBuffer := [] } : Pod).getTailOffset L ≠ L.payloadSize) := by
  cases hc with
  | @small h hp hl =>
    obtain ⟨s, hs, hr, hframe⟩ := flushFreeBuffer_ok hp
    have hp' : ({ p with heap := s, freeBuffer := [] } : Pod).Small (h.freeAll p.freeBuffer) :=
      ⟨hr, hp.idle, nodup_nil, by simp⟩
    have hl' : ∀ a ∈ live, ∃ q n, (h.freeAll p.freeBuffer).Alloc q n ∧ q ≤ a ∧ a + 16 < q + n := by
      intro a ha
      obtain ⟨q, n, hq, hnb, h12⟩ := hl a ha
      exact ⟨q, n, (AbsHeap.alloc_freeAll hp.nodup hp.pending).mpr ⟨hq, hnb⟩, h12⟩
    refine ⟨s, hs, .small hp' ?_, fun a ha => hframe a (hl' a ha), ?_⟩
    · intro a ha
      obtain ⟨q, n, hq, h12⟩ := hl' a ha
      exact ⟨q, n, hq, by simp, h12⟩
    · rw [hp.getTailOffset_eq, hp'.getTailOffset_eq]
      exact AbsHeap.tailFree_freeAll hp.nodup hp.pending
  | huge hi hb hl =>
    have he : ({ p with heap := p.heap, freeBuffer := [] } : Pod) = p := by
      rw [← hb]
    refine ⟨p.heap, ?_, .huge hi rfl hl, fun a _ => rfl, fun hne =>
      absurd (getTailOffset_huge hi) hne⟩
    rw [he, flushFreeBuffer, hb]
    simp

/-- A store to a live byte. -/
theorem write (hc : p.Carries L live) {a : ℕ} (ha : a ∈ live) (v : UInt8) :
    (p.setMem (p.mem.set a v)).Carries L live ∧
      (p.setMem (p.mem.set a v)).getTailOffset L = p.getTailOffset L := by
  cases hc with
  | @small h hp hl =>
    obtain ⟨q, n, hq, -, h1, h2⟩ := hl a ha
    exact setMem_small hp (hp.rep.spells.set ⟨q, n, hq, h1, h2⟩ v) hl
  | huge hi hb hl => exact setMem_huge hi hb hl

theorem congr {q : Pod} (hc : p.Carries L live) (hh : q.heap = p.heap)
    (hb : q.freeBuffer = p.freeBuffer) (hf : q.isFlushing = p.isFlushing) : q.Carries L live := by
  cases hc with
  | small hp hl =>
    exact .small ⟨hh ▸ hp.rep, hf ▸ hp.idle, hb ▸ hp.nodup, hb ▸ hp.pending⟩ (hb ▸ hl)
  | huge hi hb' hl => exact .huge (hh ▸ hi) (hb ▸ hb') hl

/-- A page that is restored and then flushed. -/
theorem home {m : Mem} {q : Pod} (hc : (p.setMem m).Carries L live)
    (hh : q.heap = { p.heap with mem := Pod.refill L ((p.setMem m).getTailOffset L) m })
    (hb : q.freeBuffer = p.freeBuffer) (hf : q.isFlushing = p.isFlushing) :
    ∃ s, q.flushFreeBuffer L = .ok { q with heap := s, freeBuffer := [] } ∧
      ({ q with heap := s, freeBuffer := [] } : Pod).Carries L live ∧
      (∀ a ∈ live, s.mem a = m a) ∧
      ((p.setMem m).getTailOffset L ≠ L.payloadSize →
        ({ q with heap := s, freeBuffer := [] } : Pod).getTailOffset L ≠ L.payloadSize) := by
  obtain ⟨hr, ht⟩ := hc.refill
  have hq : q.getTailOffset L = (p.setMem m).getTailOffset L := by
    rw [← ht, getTailOffset, getTailOffset, isForSmallAllocations, isForSmallAllocations, mem, hh]
    rfl
  obtain ⟨s, hs, hcs, hmem, htail⟩ := (hr.congr hh hb hf : q.Carries L live).flush
  refine ⟨s, hs, hcs, ?_, fun hne => htail (hq ▸ hne)⟩
  intro a ha
  rw [hmem a ha, mem, hh]
  exact hc.restore_live ha _

end Carries

end Pod

/-! ## The world of one pod -/

/-- A pod, the swap directory, the entry of each memory node for it and the last byte the
application wrote at each address. -/
structure World where
  pod : Pod
  files : Files
  node : ℕ → Option (List UInt8)
  written : ℕ → UInt8

def storeEntry (node : ℕ → Option (List UInt8)) (client : ℕ) (payload : List UInt8) :
    ℕ → Option (List UInt8) :=
  if (node client).isSome then node else update node client (some payload)

def eraseEntry (node : ℕ → Option (List UInt8)) (client : ℕ) : ℕ → Option (List UInt8) :=
  update node client none

def TailBuffer.bytes : TailBuffer → List UInt8
  | .owned bytes => bytes
  | _ => []

namespace World

variable (L : Layout) (path : String) (live : Set ℕ)

/-- The page that a pod stands for: its memory, its swap file, or the entry of its node
followed by the kept tail. -/
def content (w : World) : Mem :=
  match w.pod.state with
  | .init | .local_ | .localPinned => w.pod.mem
  | .disk | .diskCache => restore L ⟨fun _ => 0⟩ w.pod.sentOffset ((w.files path).getD [])
  | .remote | .remoteCache => restore L ⟨fun _ => 0⟩ w.pod.sentOffset
      (((w.pod.landlordClient.bind w.node).getD []) ++ w.pod.debugTail.bytes)

/-- The transitions, each from the state it is meant for, with nodes that answer in full,
and the stores of the application to live bytes of a resident page. -/
inductive Step : World → World → Prop
  | localToDisk {w : World} (hs : w.pod.state = .local_) :
      Step w { w with
        files := (w.pod.localToDisk L w.files path).1
        pod := (w.pod.localToDisk L w.files path).2 }
  | localToRemote {w : World} {client sent : ℕ} {c : SaveScript} {q : Pod}
      (hs : w.pod.state = .local_)
      (h : w.pod.bundleSavePodToRemote L client c = .ok (true, q, sent))
      (hk : w.pod.Acknowledged L c sent) :
      Step w { w with
        pod := q
        node := storeEntry w.node client (w.pod.mem.bytes L.payloadStart sent) }
  | diskToDiskCache {w : World} {q : Pod} (hs : w.pod.state = .disk)
      (h : w.pod.diskToDiskCache L w.files = .ok q) : Step w { w with pod := q }
  | remoteToRemoteCache {w : World} {client : ℕ} {d : Delivery} {q : Pod}
      (hs : w.pod.state = .remote) (hl : w.pod.landlordClient = some client)
      (hd : w.node client = some d.bytes) (h : w.pod.remoteToRemoteCache L d = .ok q) :
      Step w { w with pod := q }
  | diskCacheToDisk {w : World} (hs : w.pod.state = .diskCache) :
      Step w { w with pod := w.pod.diskCacheToDisk L }
  | remoteCacheToRemote {w : World} (hs : w.pod.state = .remoteCache) :
      Step w { w with pod := w.pod.remoteCacheToRemote L }
  | diskToLocalPinned {w : World} {files : Files} {q : Pod} (hs : w.pod.state = .disk)
      (h : w.pod.diskToLocalPinned L w.files = .ok (files, q)) :
      Step w { w with files := files, pod := q }
  | diskCacheToLocalPinned {w : World} {files : Files} {q : Pod} (hs : w.pod.state = .diskCache)
      (h : w.pod.diskCacheToLocalPinned L w.files = .ok (files, q)) :
      Step w { w with files := files, pod := q }
  | remoteToLocalPinned {w : World} {client : ℕ} {d : Delivery} {q : Pod}
      (hs : w.pod.state = .remote) (hl : w.pod.landlordClient = some client)
      (hd : w.node client = some d.bytes) (h : w.pod.remoteToLocalPinned L d = .ok q) :
      Step w { w with pod := q, node := eraseEntry w.node client }
  | remoteCacheToLocalPinned {w : World} {client : ℕ} {reply : Option (List UInt8)} {q : Pod}
      (hs : w.pod.state = .remoteCache) (hl : w.pod.landlordClient = some client)
      (h : w.pod.remoteCacheToLocalPinned L reply = .ok q) :
      Step w { w with pod := q, node := eraseEntry w.node client }
  | localToLocalPinned {w : World} (hs : w.pod.state = .local_) :
      Step w { w with pod := w.pod.localToLocalPinned }
  | localPinnedToLocal {w : World} (hs : w.pod.state = .localPinned) :
      Step w { w with pod := w.pod.localPinnedToLocal }
  | write {w : World} {a : ℕ} (v : UInt8) (hs : w.pod.state = .local_ ∨ w.pod.state = .localPinned)
      (ha : a ∈ live) :
      Step w { w with
        pod := w.pod.setMem (w.pod.mem.set a v)
        written := update w.written a v }

def tail (w : World) (m : Mem) : ℕ := (w.pod.setMem m).getTailOffset L

/-- Where the bytes of the page `m` are. -/
inductive Stands (w : World) (m : Mem) : Prop
  | resident (hs : w.pod.state = .local_ ∨ w.pod.state = .localPinned) (hm : w.pod.mem = m)
      (hp : w.pod.prot = .readWrite) (hf : w.files path = none)
      (hl : w.pod.landlordClient = none) (hn : ∀ c, w.node c = none)
  | disk (hs : w.pod.state = .disk ∧ w.pod.mem = m.zero L.payloadStart L.payloadSize ∨
        w.pod.state = .diskCache ∧ w.pod.mem = Pod.refill L (w.tail L m) m)
      (hp : w.pod.swapPath = path) (hf : w.files path = some (swapImage L m (w.tail L m)))
      (ht : w.pod.sentOffset = w.tail L m)
      (hl : w.pod.landlordClient = none) (hn : ∀ c, w.node c = none)
  | remote {client : ℕ} (hs : w.pod.state = .remote ∧
          w.pod.mem = m.zero L.payloadStart L.payloadSize ∨
        w.pod.state = .remoteCache ∧ w.pod.mem = Pod.refill L (w.tail L m) m)
      (hf : w.files path = none) (ht : w.pod.sentOffset = w.tail L m)
      (hl : w.pod.landlordClient = some client)
      (hn : w.node = update (fun _ => none) client
        (some (m.bytes L.payloadStart (w.tail L m))))
      (hd : w.tail L m ≠ L.payloadSize → w.pod.debugTail = .owned
        (m.bytes (L.payloadStart + w.tail L m) dsize ++ m.bytes (L.payloadEnd - dsize) dsize))

/-- The invariant; its last part is kept by pods that start without a tail buffer. -/
structure Inv (fresh : Prop) (w : World) (m : Mem) : Prop where
  carries : (w.pod.setMem m).Carries L live
  last : ∀ a ∈ live, m a = w.written a
  stands : w.Stands L path m
  tracked : fresh → (w.pod.debugTail = .null ∨ w.tail L m ≠ L.payloadSize) ∧
    (w.pod.landlordClient.isSome → w.pod.debugTail ≠ .deleted)

variable {L path live} {fresh : Prop} {w w' : World} {m : Mem}

theorem tail_congr (h : w'.pod.heap.inited = w.pod.heap.inited) : w'.tail L m = w.tail L m := by
  change (if w'.pod.heap.inited then getTailFreeBlock L m else L.payloadSize) =
    if w.pod.heap.inited then getTailFreeBlock L m else L.payloadSize
  rw [h]

theorem eraseEntry_update {client c : ℕ} {x : Option (List UInt8)} :
    eraseEntry (update (fun _ => none) client x) client c = none := by
  rw [eraseEntry, update_idem, update_eq_self]

def bufferAfter (L : Layout) (w : World) (m : Mem) (isCache : Bool) : TailBuffer :=
  if w.tail L m ≠ L.payloadSize ∧ isCache = false then .deleted else w.pod.debugTail

theorem zero_refill {t : ℕ} (ht : t = L.payloadSize ∨ t + 32 ≤ L.payloadSize) :
    (Pod.refill L t m).zero L.payloadStart L.payloadSize =
      m.zero L.payloadStart L.payloadSize := by
  have hend : L.payloadEnd = L.payloadStart + L.payloadSize := rfl
  refine Mem.ext (funext fun a => ?_)
  by_cases ha : L.payloadStart ≤ a ∧ a < L.payloadStart + L.payloadSize
  · rw [Mem.zero_apply_of_mem ha.1 ha.2, Mem.zero_apply_of_mem ha.1 ha.2]
  · rw [Mem.zero_apply_of_outside (by omega), Pod.refill, restore_apply_of_outside ht (by omega)]

namespace Stands

variable (hst : w.Stands L path m)
include hst

theorem of_resident (hs : w.pod.state = .local_ ∨ w.pod.state = .localPinned) :
    w.pod.mem = m ∧ w.pod.prot = .readWrite ∧ w.files path = none ∧
      w.pod.landlordClient = none ∧ ∀ c, w.node c = none := by
  cases hst with
  | resident _ hm hp hf hl hn => exact ⟨hm, hp, hf, hl, hn⟩
  | disk hs' => rcases hs with hs | hs <;> simp [hs] at hs'
  | remote hs' => rcases hs with hs | hs <;> simp [hs] at hs'

/-- What is known of a pod on disk. -/
theorem of_disk (hs : w.pod.state = .disk ∨ w.pod.state = .diskCache) :
    (w.pod.state = .disk → w.pod.mem = m.zero L.payloadStart L.payloadSize) ∧
    (w.pod.state = .diskCache → w.pod.mem = Pod.refill L (w.tail L m) m) ∧
    w.pod.swapPath = path ∧ w.files path = some (swapImage L m (w.tail L m)) ∧
    w.pod.sentOffset = w.tail L m ∧ w.pod.landlordClient = none ∧ ∀ c, w.node c = none := by
  cases hst with
  | resident hs' => rcases hs with hs | hs <;> simp [hs] at hs'
  | disk hs' hp hf ht hl hn =>
    refine ⟨?_, ?_, hp, hf, ht, hl, hn⟩
    · intro he
      simpa [he] using hs'
    · intro he
      simpa [he] using hs'
  | remote hs' => rcases hs with hs | hs <;> simp [hs] at hs'

/-- What is known of a pod at a node. -/
theorem of_remote (hs : w.pod.state = .remote ∨ w.pod.state = .remoteCache) :
    ∃ client, (w.pod.state = .remote → w.pod.mem = m.zero L.payloadStart L.payloadSize) ∧
    (w.pod.state = .remoteCache → w.pod.mem = Pod.refill L (w.tail L m) m) ∧
    w.files path = none ∧ w.pod.sentOffset = w.tail L m ∧ w.pod.landlordClient = some client ∧
    w.node = update (fun _ => none) client (some (m.bytes L.payloadStart (w.tail L m))) ∧
    (w.tail L m ≠ L.payloadSize → w.pod.debugTail = .owned
      (m.bytes (L.payloadStart + w.tail L m) dsize ++ m.bytes (L.payloadEnd - dsize) dsize)) := by
  cases hst with
  | resident hs' => rcases hs with hs | hs <;> simp [hs] at hs'
  | disk hs' => rcases hs with hs | hs <;> simp [hs] at hs'
  | @remote client hs' hf ht hl hn hd =>
    refine ⟨client, ?_, ?_, hf, ht, hl, hn, hd⟩
    · intro he
      simpa [he] using hs'
    · intro he
      simpa [he] using hs'

/-! ### Leaving memory -/

theorem localToDisk (hs : w.pod.state = .local_) : World.Stands L path { w with
    files := (w.pod.localToDisk L w.files path).1
    pod := (w.pod.localToDisk L w.files path).2 } m := by
  obtain ⟨rfl, -, hf, hl, hn⟩ := hst.of_resident (.inl hs)
  exact .disk (.inl ⟨rfl, rfl⟩) rfl (update_self _ _ _) rfl hl hn

theorem localToRemote {client sent : ℕ} {c : SaveScript} (hs : w.pod.state = .local_)
    (hk : w.pod.Acknowledged L c sent) : World.Stands L path { w with
      pod := ({ w.pod.recordSent L (w.pod.getTailOffset L) with prot := .none }).localToRemote L
        client
      node := storeEntry w.node client (w.pod.mem.bytes L.payloadStart sent) } m := by
  obtain ⟨rfl, -, hf, hl, hn⟩ := hst.of_resident (.inl hs)
  have hnode : storeEntry w.node client (w.pod.mem.bytes L.payloadStart sent) =
      update (fun _ => none) client
        (some (w.pod.mem.bytes L.payloadStart (w.tail L w.pod.mem))) := by
    rw [storeEntry, hn client, hk.2.1, funext hn]
    rfl
  exact .remote (.inl ⟨rfl, rfl⟩) hf rfl rfl hnode Pod.recordSent_debugTail_part

/-! ### Filling and dropping a cache -/

theorem diskToDiskCache {q : Pod} (hs : w.pod.state = .disk)
    (h : w.pod.diskToDiskCache L w.files = .ok q) :
    q = { w.pod.setMem (Pod.refill L (w.tail L m) m) with state := .diskCache } ∧
      World.Stands L path { w with pod := q } m := by
  obtain ⟨hm, -, hp, hf, ht, hl, hn⟩ := hst.of_disk (.inl hs)
  rw [Pod.diskToDiskCache, hp, hf, hm hs, ht] at h
  cases h
  exact ⟨rfl, .disk (.inr ⟨rfl, rfl⟩) hp hf ht hl hn⟩

theorem diskCacheToDisk (ht : w.tail L m = L.payloadSize ∨ w.tail L m + 32 ≤ L.payloadSize)
    (hs : w.pod.state = .diskCache) :
    World.Stands L path { w with pod := w.pod.diskCacheToDisk L } m := by
  obtain ⟨-, hm, hp, hf, hsent, hl, hn⟩ := hst.of_disk (.inr hs)
  refine .disk (.inl ⟨rfl, ?_⟩) hp hf hsent hl hn
  change w.pod.mem.zero L.payloadStart L.payloadSize = _
  rw [hm hs, zero_refill ht]

/-- A complete fetch refills the page. -/
theorem getPodFromRemote {client : ℕ} {d : Delivery} (hs : w.pod.state = .remote)
    (hl : w.pod.landlordClient = some client) (hd : w.node client = some d.bytes) (isCache : Bool) :
    w.pod.getPodFromRemote L d isCache = .ok { w.pod.setMem (Pod.refill L (w.tail L m) m) with
      debugTail := w.bufferAfter L m isCache } := by
  obtain ⟨client', hm, -, -, ht, hl', hn, hown⟩ := hst.of_remote (.inl hs)
  obtain rfl : client' = client := Option.some.inj (hl'.symm.trans hl)
  have hb : m.bytes L.payloadStart (w.tail L m) = d.bytes := by
    rw [hn, update_self] at hd
    exact Option.some.inj hd
  have hlen : d.bytes.length = w.pod.sentOffset := by
    rw [← hb, Mem.bytes_length, ht]
  have hown' : w.pod.sentOffset = L.payloadSize ∨ w.pod.debugTail = .owned
      (m.bytes (L.payloadStart + w.pod.sentOffset) dsize ++
        m.bytes (L.payloadEnd - dsize) dsize) := by
    rw [ht]
    exact (eq_or_ne _ _).imp id hown
  have hfetch := Pod.getPodFromRemote_complete hlen.ge hown' isCache
  rw [take_of_length_le hlen.le, ← hb, ← ht, Pod.fetched_swapImage, hm hs] at hfetch
  rw [hfetch, ht]
  rfl

theorem remoteToRemoteCache {client : ℕ} {d : Delivery} {q : Pod} (hs : w.pod.state = .remote)
    (hl : w.pod.landlordClient = some client) (hd : w.node client = some d.bytes)
    (h : w.pod.remoteToRemoteCache L d = .ok q) :
    q = { w.pod.setMem (Pod.refill L (w.tail L m) m) with state := .remoteCache } ∧
      World.Stands L path { w with pod := q } m := by
  rw [Pod.remoteToRemoteCache, hl] at h
  simp only [hst.getPodFromRemote hs hl hd, ok_bind, pure_eq] at h
  obtain ⟨client', -, -, hf, ht, hl', hn, hown⟩ := hst.of_remote (.inl hs)
  cases h
  have htail : w.bufferAfter L m true = w.pod.debugTail := if_neg (by simp)
  simp only [htail]
  exact ⟨rfl, .remote (.inr ⟨rfl, rfl⟩) hf ht hl' hn hown⟩

theorem remoteCacheToRemote (ht : w.tail L m = L.payloadSize ∨ w.tail L m + 32 ≤ L.payloadSize)
    (hs : w.pod.state = .remoteCache) :
    World.Stands L path { w with pod := w.pod.remoteCacheToRemote L } m := by
  obtain ⟨client, -, hm, hf, hsent, hl, hn, hown⟩ := hst.of_remote (.inr hs)
  refine .remote (.inl ⟨rfl, ?_⟩) hf hsent hl hn hown
  change w.pod.mem.zero L.payloadStart L.payloadSize = _
  rw [hm hs, zero_refill ht]

/-! ### Coming home

Each transition makes the page readable and writable and then flushes the buffered frees. -/

theorem diskToLocalPinned_eq (hs : w.pod.state = .disk) : w.pod.diskToLocalPinned L w.files =
    (({ w.pod.setMem (Pod.refill L (w.tail L m) m) with
      swapPath := "", prot := .readWrite }).flushFreeBuffer L >>=
      fun p => .ok (update w.files path none, { p with state := .localPinned })) := by
  obtain ⟨hm, -, hp, hf, ht, -⟩ := hst.of_disk (.inl hs)
  rw [Pod.diskToLocalPinned, hp, hf]
  simp only [hm hs, ht, Pod.setMem, hp]
  rfl

theorem diskCacheToLocalPinned_eq (hs : w.pod.state = .diskCache) :
    w.pod.diskCacheToLocalPinned L w.files =
    (({ w.pod.setMem (Pod.refill L (w.tail L m) m) with
      swapPath := "", prot := .readWrite }).flushFreeBuffer L >>=
      fun p => .ok (update w.files path none, { p with state := .localPinned })) := by
  obtain ⟨-, hm, hp, -⟩ := hst.of_disk (.inr hs)
  rw [← hm hs, Pod.diskCacheToLocalPinned, hp]
  rfl

theorem remoteToLocalPinned_eq {client : ℕ} {d : Delivery} (hs : w.pod.state = .remote)
    (hl : w.pod.landlordClient = some client) (hd : w.node client = some d.bytes) :
    w.pod.remoteToLocalPinned L d =
    (({ w.pod.setMem (Pod.refill L (w.tail L m) m) with
      debugTail := w.bufferAfter L m false, landlordClient := none,
      prot := .readWrite }).flushFreeBuffer L >>=
      fun p => .ok { p with state := .localPinned }) := by
  rw [Pod.remoteToLocalPinned, Pod.fetchPod, hl]
  simp only [hst.getPodFromRemote hs hl hd, ok_bind, pure_eq]

theorem remoteCacheToLocalPinned_eq {client : ℕ} {reply : Option (List UInt8)}
    (hs : w.pod.state = .remoteCache) (hl : w.pod.landlordClient = some client)
    (hd : w.pod.debugTail ≠ .deleted) (hr : ∀ e, replyCode reply ≠ some (.error e)) :
    w.pod.remoteCacheToLocalPinned L reply =
    (({ w.pod.setMem (Pod.refill L (w.tail L m) m) with
      debugTail := if w.pod.debugTail = .null then .null else .deleted, landlordClient := none,
      prot := .readWrite } : Pod).flushFreeBuffer L >>=
      fun p => .ok { p with state := .localPinned }) := by
  obtain ⟨client', -, hm, -⟩ := hst.of_remote (.inr hs)
  have hfree : w.pod.freePodInRemote reply =
      .ok { w.pod with debugTail := if w.pod.debugTail = .null then .null else .deleted } := by
    rw [Pod.freePodInRemote_eq hd]
    rcases hc : replyCode reply with _ | ⟨_ | _⟩
    · rfl
    · exact absurd hc (hr _)
    · rfl
  rw [← hm hs, Pod.remoteCacheToLocalPinned, hl]
  simp only [hfree, ok_bind]
  rfl

omit hst in
theorem of_remoteCacheToLocalPinned {client : ℕ} {reply : Option (List UInt8)} {q : Pod}
    (hl : w.pod.landlordClient = some client)
    (h : w.pod.remoteCacheToLocalPinned L reply = .ok q) :
    w.pod.debugTail ≠ .deleted ∧ ∀ e, replyCode reply ≠ some (.error e) := by
  have hd : w.pod.debugTail ≠ .deleted := by
    intro hd
    simp [Pod.remoteCacheToLocalPinned, hl, Pod.freePodInRemote_deleted hd] at h
  refine ⟨hd, ?_⟩
  intro e he
  simp [Pod.remoteCacheToLocalPinned, hl, Pod.freePodInRemote_eq hd, he] at h

end Stands

namespace Inv

variable (hi : w.Inv L path live fresh m)
include hi

/-- A transition that moves or drops a copy and leaves the page itself alone. -/
theorem move (hh : w'.pod.heap.inited = w.pod.heap.inited)
    (hk : w'.pod.heap.locked = w.pod.heap.locked) (hb : w'.pod.freeBuffer = w.pod.freeBuffer)
    (hf : w'.pod.isFlushing = w.pod.isFlushing) (hw : w'.written = w.written)
    (hst : w'.Stands L path m)
    (htr : fresh → (w'.pod.debugTail = .null ∨ w.tail L m ≠ L.payloadSize) ∧
      (w'.pod.landlordClient.isSome → w'.pod.debugTail ≠ .deleted)) :
    w'.Inv L path live fresh m where
  carries := by
    refine hi.carries.congr ?_ hb hf
    simp only [Pod.setMem, hh, hk]
  last := hw ▸ hi.last
  stands := hst
  tracked := by
    rw [tail_congr hh]
    exact htr

/-- A transition that ends with the page in memory and its buffered frees flushed. -/
theorem home {q : Pod} (hh : q.heap = { w.pod.heap with mem := Pod.refill L (w.tail L m) m })
    (hb : q.freeBuffer = w.pod.freeBuffer) (hf : q.isFlushing = w.pod.isFlushing) :
    ∃ s, q.flushFreeBuffer L = .ok { q with heap := s, freeBuffer := [] } ∧
      ∀ files node, files path = none → (∀ c, node c = none) → q.prot = .readWrite →
        q.landlordClient = none →
        (fresh → q.debugTail = .null ∨ w.tail L m ≠ L.payloadSize) →
        World.Inv L path live fresh ⟨{ q with heap := s, freeBuffer := [], state := .localPinned },
          files, node, w.written⟩ s.mem := by
  obtain ⟨s, hs, hc, hmem, htail⟩ := hi.carries.home hh hb hf
  refine ⟨s, hs, ?_⟩
  intro files node hfiles hnode hp hl htr
  refine ⟨hc.congr rfl rfl rfl, fun a ha => (hmem a ha).trans (hi.last a ha),
    .resident (.inr rfl) rfl hp hfiles hl hnode, ?_⟩
  intro hfr
  refine ⟨(htr hfr).imp id htail, ?_⟩
  intro hsome
  change q.landlordClient.isSome = true at hsome
  rw [hl] at hsome
  cases hsome

/-! ### Leaving memory -/

theorem localToDisk (hs : w.pod.state = .local_) :
    World.Inv L path live fresh { w with
      files := (w.pod.localToDisk L w.files path).1
      pod := (w.pod.localToDisk L w.files path).2 } m :=
  hi.move rfl rfl rfl rfl rfl (hi.stands.localToDisk hs) hi.tracked

theorem localToRemote {client sent : ℕ} {c : SaveScript} {q : Pod} (hs : w.pod.state = .local_)
    (h : w.pod.bundleSavePodToRemote L client c = .ok (true, q, sent))
    (hk : w.pod.Acknowledged L c sent) :
    World.Inv L path live fresh { w with
      pod := q
      node := storeEntry w.node client (w.pod.mem.bytes L.payloadStart sent) } m := by
  obtain rfl := Pod.bundleSavePodToRemote_acknowledged h hk
  refine hi.move rfl rfl rfl rfl rfl (hi.stands.localToRemote hs hk) ?_
  intro hfr
  obtain ⟨rfl, -⟩ := hi.stands.of_resident (.inl hs)
  have htr := (hi.tracked hfr).1
  by_cases ht : w.tail L w.pod.mem = L.payloadSize
  · have hnull := (Pod.recordSent_debugTail_full ht).trans (htr.resolve_right (not_not.mpr ht))
    exact ⟨.inl hnull, fun _ hdel => nomatch hnull.symm.trans hdel⟩
  · have hown := Pod.recordSent_debugTail_part (p := w.pod) ht
    exact ⟨.inr ht, fun _ hdel => nomatch hown.symm.trans hdel⟩

/-! ### Filling and dropping a cache -/

theorem diskToDiskCache {q : Pod} (hs : w.pod.state = .disk)
    (h : w.pod.diskToDiskCache L w.files = .ok q) :
    World.Inv L path live fresh { w with pod := q } m := by
  obtain ⟨rfl, hst⟩ := hi.stands.diskToDiskCache hs h
  exact hi.move rfl rfl rfl rfl rfl hst hi.tracked

theorem diskCacheToDisk (hs : w.pod.state = .diskCache) :
    World.Inv L path live fresh { w with pod := w.pod.diskCacheToDisk L } m :=
  hi.move rfl rfl rfl rfl rfl (hi.stands.diskCacheToDisk hi.carries.tail_le hs) hi.tracked

theorem remoteToRemoteCache {client : ℕ} {d : Delivery} {q : Pod} (hs : w.pod.state = .remote)
    (hl : w.pod.landlordClient = some client) (hd : w.node client = some d.bytes)
    (h : w.pod.remoteToRemoteCache L d = .ok q) :
    World.Inv L path live fresh { w with pod := q } m := by
  obtain ⟨rfl, hst⟩ := hi.stands.remoteToRemoteCache hs hl hd h
  exact hi.move rfl rfl rfl rfl rfl hst hi.tracked

theorem remoteCacheToRemote (hs : w.pod.state = .remoteCache) :
    World.Inv L path live fresh { w with pod := w.pod.remoteCacheToRemote L } m :=
  hi.move rfl rfl rfl rfl rfl (hi.stands.remoteCacheToRemote hi.carries.tail_le hs) hi.tracked

/-! ### Coming home -/

theorem diskToLocalPinned (hs : w.pod.state = .disk) :
    ∃ files q m', w.pod.diskToLocalPinned L w.files = .ok (files, q) ∧
      World.Inv L path live fresh { w with files := files, pod := q } m' := by
  obtain ⟨-, -, -, -, -, hl, hn⟩ := hi.stands.of_disk (.inl hs)
  obtain ⟨s, hfl, hinv⟩ := hi.home (q := { w.pod.setMem (Pod.refill L (w.tail L m) m) with
    swapPath := "", prot := .readWrite }) rfl rfl rfl
  refine ⟨_, _, _, ?_, hinv (update w.files path none) w.node
    (update_self _ _ _) hn rfl hl (fun hfr => (hi.tracked hfr).1)⟩
  rw [hi.stands.diskToLocalPinned_eq hs, hfl]
  rfl

theorem diskCacheToLocalPinned (hs : w.pod.state = .diskCache) :
    ∃ files q m', w.pod.diskCacheToLocalPinned L w.files = .ok (files, q) ∧
      World.Inv L path live fresh { w with files := files, pod := q } m' := by
  obtain ⟨-, -, -, -, -, hl, hn⟩ := hi.stands.of_disk (.inr hs)
  obtain ⟨s, hfl, hinv⟩ := hi.home (q := { w.pod.setMem (Pod.refill L (w.tail L m) m) with
    swapPath := "", prot := .readWrite }) rfl rfl rfl
  refine ⟨_, _, _, ?_, hinv (update w.files path none) w.node
    (update_self _ _ _) hn rfl hl (fun hfr => (hi.tracked hfr).1)⟩
  rw [hi.stands.diskCacheToLocalPinned_eq hs, hfl]
  rfl

theorem remoteToLocalPinned {client : ℕ} {d : Delivery} (hs : w.pod.state = .remote)
    (hl : w.pod.landlordClient = some client) (hd : w.node client = some d.bytes) :
    ∃ q m', w.pod.remoteToLocalPinned L d = .ok q ∧
      World.Inv L path live fresh { w with pod := q, node := eraseEntry w.node client } m' := by
  obtain ⟨client', -, -, hf, -, hl', hn, -⟩ := hi.stands.of_remote (.inl hs)
  obtain rfl : client' = client := Option.some.inj (hl'.symm.trans hl)
  obtain ⟨s, hfl, hinv⟩ := hi.home (q := { w.pod.setMem (Pod.refill L (w.tail L m) m) with
    debugTail := w.bufferAfter L m false
    landlordClient := none
    prot := .readWrite }) rfl rfl rfl
  refine ⟨_, _, ?_, hinv w.files (eraseEntry w.node client') hf ?_ rfl rfl ?_⟩
  · rw [hi.stands.remoteToLocalPinned_eq hs hl hd, hfl]
    rfl
  · intro c
    rw [hn, eraseEntry_update]
  · intro hfr
    by_cases hfull : w.tail L m = L.payloadSize
    · simpa [bufferAfter, hfull] using (hi.tracked hfr).1
    · exact .inr hfull

theorem remoteCacheToLocalPinned {client : ℕ} {reply : Option (List UInt8)}
    (hs : w.pod.state = .remoteCache) (hl : w.pod.landlordClient = some client)
    (hd : w.pod.debugTail ≠ .deleted) (hr : ∀ e, replyCode reply ≠ some (.error e)) :
    ∃ q m', w.pod.remoteCacheToLocalPinned L reply = .ok q ∧
      World.Inv L path live fresh { w with pod := q, node := eraseEntry w.node client } m' := by
  obtain ⟨client', -, -, hf, -, hl', hn, -⟩ := hi.stands.of_remote (.inr hs)
  obtain rfl : client' = client := Option.some.inj (hl'.symm.trans hl)
  obtain ⟨s, hfl, hinv⟩ := hi.home (q := { w.pod.setMem (Pod.refill L (w.tail L m) m) with
    debugTail := if w.pod.debugTail = .null then .null else .deleted
    landlordClient := none
    prot := .readWrite }) rfl rfl rfl
  refine ⟨_, _, ?_, hinv w.files (eraseEntry w.node client') hf ?_ rfl rfl ?_⟩
  · rw [hi.stands.remoteCacheToLocalPinned_eq hs hl hd hr, hfl]
    rfl
  · intro c
    rw [hn, eraseEntry_update]
  · intro hfr
    refine (hi.tracked hfr).1.imp ?_ id
    intro hnull
    exact if_pos hnull

/-! ### In memory -/

theorem pin {st : PodState} (hs : w.pod.state = .local_ ∨ w.pod.state = .localPinned)
    (hst : st = .local_ ∨ st = .localPinned) :
    World.Inv L path live fresh { w with pod := { w.pod with state := st } } m := by
  obtain ⟨hm, hp, hf, hl, hn⟩ := hi.stands.of_resident hs
  exact hi.move rfl rfl rfl rfl rfl (.resident hst hm hp hf hl hn) hi.tracked

theorem write {a : ℕ} (v : UInt8) (hs : w.pod.state = .local_ ∨ w.pod.state = .localPinned)
    (ha : a ∈ live) : World.Inv L path live fresh { w with
      pod := w.pod.setMem (w.pod.mem.set a v)
      written := update w.written a v } (w.pod.mem.set a v) := by
  obtain ⟨rfl, hp, hf, hl, hn⟩ := hi.stands.of_resident hs
  obtain ⟨hc, ht⟩ := Pod.Carries.write (p := w.pod) hi.carries ha v
  refine ⟨hc, ?_, .resident hs rfl hp hf hl hn, ?_⟩
  · intro b hb
    by_cases hab : b = a
    · subst hab
      simp [Mem.set]
    · rw [Mem.set_apply_of_ne hab, hi.last b hb]
      exact (update_of_ne hab _ _).symm
  · intro hfr
    refine ⟨(hi.tracked hfr).1.imp id ?_, (hi.tracked hfr).2⟩
    intro hne
    exact ne_of_eq_of_ne ht hne

/-- Every step keeps the invariant. -/
theorem step (hs : Step L path live w w') : ∃ m', w'.Inv L path live fresh m' := by
  cases hs with
  | localToDisk hs => exact ⟨m, hi.localToDisk hs⟩
  | localToRemote hs h hk => exact ⟨m, hi.localToRemote hs h hk⟩
  | diskToDiskCache hs h => exact ⟨m, hi.diskToDiskCache hs h⟩
  | remoteToRemoteCache hs hl hd h => exact ⟨m, hi.remoteToRemoteCache hs hl hd h⟩
  | diskCacheToDisk hs => exact ⟨m, hi.diskCacheToDisk hs⟩
  | remoteCacheToRemote hs => exact ⟨m, hi.remoteCacheToRemote hs⟩
  | diskToLocalPinned hs h =>
    obtain ⟨files, q, m', hq, hinv⟩ := hi.diskToLocalPinned hs
    cases h.symm.trans hq
    exact ⟨m', hinv⟩
  | diskCacheToLocalPinned hs h =>
    obtain ⟨files, q, m', hq, hinv⟩ := hi.diskCacheToLocalPinned hs
    cases h.symm.trans hq
    exact ⟨m', hinv⟩
  | remoteToLocalPinned hs hl hd h =>
    obtain ⟨q, m', hq, hinv⟩ := hi.remoteToLocalPinned hs hl hd
    cases h.symm.trans hq
    exact ⟨m', hinv⟩
  | @remoteCacheToLocalPinned _ reply _ hs hl h =>
    obtain ⟨hd, hr⟩ := Stands.of_remoteCacheToLocalPinned hl h
    obtain ⟨q, m', hq, hinv⟩ := hi.remoteCacheToLocalPinned hs hl hd hr
    cases h.symm.trans hq
    exact ⟨m', hinv⟩
  | localToLocalPinned hs =>
    rw [Pod.localToLocalPinned, if_pos hs]
    exact ⟨m, hi.pin (.inl hs) (.inr rfl)⟩
  | localPinnedToLocal hs =>
    rw [Pod.localPinnedToLocal, if_pos hs]
    exact ⟨m, hi.pin (.inr hs) (.inl rfl)⟩
  | write v hs ha => exact ⟨_, hi.write v hs ha⟩

theorem run (hr : Relation.ReflTransGen (Step L path live) w w') :
    ∃ m', w'.Inv L path live fresh m' := by
  induction hr with
  | refl => exact ⟨m, hi⟩
  | tail _ hs ih =>
    obtain ⟨m', hi'⟩ := ih
    exact hi'.step hs

/-! ### What the invariant says -/

omit hi in
theorem restore_entry {b : Mem} {t : ℕ} {tail : List UInt8}
    (ht : t ≠ L.payloadSize → tail = m.bytes (L.payloadStart + t) dsize ++
      m.bytes (L.payloadEnd - dsize) dsize) :
    restore L b t (m.bytes L.payloadStart t ++ tail) = restore L b t (swapImage L m t) := by
  by_cases hfull : t = L.payloadSize
  · subst hfull
    have h1 : (m.bytes L.payloadStart L.payloadSize ++ tail).take L.payloadSize =
        (swapImage L m L.payloadSize).take L.payloadSize := by
      rw [swapImage, take_left' (Mem.bytes_length _ _ _),
        take_left' (Mem.bytes_length _ _ _)]
    simp only [restore, h1, ne_eq, not_true_eq_false, if_false]
  · rw [ht hfull, swapImage, if_pos hfull]

/-- The content of a pod is right at every live byte. -/
theorem content_eq {a : ℕ} (ha : a ∈ live) : w.content L path a = w.written a := by
  rw [← hi.last a ha]
  cases hi.stands with
  | resident hs hm =>
    rw [content, ← hm]
    rcases hs with hs | hs <;> rw [hs]
  | disk hs hp hf ht =>
    have hc : w.content L path = restore L ⟨fun _ => 0⟩ w.pod.sentOffset
      ((w.files path).getD []) := by
      rw [content]
      rcases hs with ⟨hs, -⟩ | ⟨hs, -⟩ <;> rw [hs]
    rw [hc, hf, ht]
    exact hi.carries.restore_live ha _
  | @remote client hs hf ht hl hn hd =>
    have hc : w.content L path = restore L ⟨fun _ => 0⟩ w.pod.sentOffset
        (((w.pod.landlordClient.bind w.node).getD []) ++ w.pod.debugTail.bytes) := by
      rw [content]
      rcases hs with ⟨hs, -⟩ | ⟨hs, -⟩ <;> rw [hs]
    have hnode : (w.pod.landlordClient.bind w.node).getD [] =
        m.bytes L.payloadStart (w.tail L m) := by
      rw [hl, Option.bind_some, hn, update_self, Option.getD_some]
    rw [hc, hnode, ht, restore_entry (m := m)]
    · exact hi.carries.restore_live ha _
    · intro hne
      rw [hd hne]
      rfl

end Inv

variable (L path live)

/-- A pod in memory with its page, nothing of it elsewhere, and the bytes that an application
may use on it: all of a huge page, or on a small-block page the payload of every block that
is held and not yet freed. -/
structure Opens (w : World) : Prop where
  state : w.pod.state = .local_
  prot : w.pod.prot = .readWrite
  landlord : w.pod.landlordClient = none
  noFile : w.files path = none
  noEntry : ∀ c, w.node c = none
  page : (w.pod.heap.inited = false ∧ w.pod.freeBuffer = [] ∧
      live = {a | L.payloadStart ≤ a ∧ a < L.payloadEnd}) ∨
    ∃ held, Session.Reachable L ⟨w.pod.heap, held⟩ ∧ w.pod.isFlushing = false ∧
      w.pod.freeBuffer.Nodup ∧ w.pod.freeBuffer ⊆ held ∧
      live = {a | ∃ bp ∈ held, bp ∉ w.pod.freeBuffer ∧ bp ≤ a ∧
        a + 16 < bp + getBlockSize w.pod.mem bp}
  written : ∀ a ∈ live, w.pod.mem a = w.written a

/-- Every transition out of the present state returns. -/
def Proceeds (w : World) : Prop :=
  match w.pod.state with
  | .disk => (∃ r, w.pod.diskToLocalPinned L w.files = .ok r) ∧
      ∃ r, w.pod.diskToDiskCache L w.files = .ok r
  | .diskCache => ∃ r, w.pod.diskCacheToLocalPinned L w.files = .ok r
  | .remote => ∀ d : Delivery, w.pod.landlordClient.bind w.node = some d.bytes →
      (∃ r, w.pod.remoteToLocalPinned L d = .ok r) ∧ ∃ r, w.pod.remoteToRemoteCache L d = .ok r
  | .remoteCache => ∃ r, w.pod.remoteCacheToLocalPinned L (some (wireText .freePodOk)) = .ok r
  | _ => True

variable {L path live}

theorem Opens.inv (ho : w.Opens L path live) :
    w.Inv L path live (w.pod.debugTail = .null) w.pod.mem where
  carries := by
    refine Pod.Carries.congr (p := w.pod) ?_ rfl rfl rfl
    rcases ho.page with ⟨hin, hb, rfl⟩ | ⟨held, hr, hfl, hnd, hsub, rfl⟩
    · exact .huge hin hb (fun a ha => ha)
    · obtain ⟨h, hh⟩ := hr.holds
      refine .small ⟨hh.rep, hfl, hnd, ?_⟩ ?_
      · intro q hq
        exact h.isLive_iff.mpr ((hh.live q).mp (hsub hq))
      · rintro a ⟨bp, hbp, hnb, h1, h2⟩
        obtain ⟨n, hn⟩ := (hh.live bp).mp hbp
        rw [hh.rep.getBlockSize_eq hn] at h2
        exact ⟨bp, n, hn, hnb, h1, h2⟩
  last := ho.written
  stands := .resident (.inl ho.state) rfl ho.prot ho.noFile ho.landlord ho.noEntry
  tracked hnull := by
    refine ⟨.inl hnull, ?_⟩
    rw [ho.landlord]
    intro hc
    cases hc

theorem Inv.proceeds (hi : w.Inv L path live fresh m) (hfr : fresh) : w.Proceeds L := by
  rw [Proceeds]
  cases hs : w.pod.state with
  | init => trivial
  | local_ => trivial
  | localPinned => trivial
  | disk =>
    obtain ⟨files, q, m', hq, -⟩ := hi.diskToLocalPinned hs
    obtain ⟨-, -, hp, hf, -⟩ := hi.stands.of_disk (.inl hs)
    refine ⟨⟨_, hq⟩, ?_⟩
    rw [Pod.diskToDiskCache, hp, hf]
    exact ⟨_, rfl⟩
  | diskCache =>
    obtain ⟨files, q, m', hq, -⟩ := hi.diskCacheToLocalPinned hs
    exact ⟨_, hq⟩
  | remote =>
    intro d hd
    obtain ⟨client, -, -, -, -, hl, -⟩ := hi.stands.of_remote (.inl hs)
    rw [hl, Option.bind_some] at hd
    obtain ⟨q, m', hq, -⟩ := hi.remoteToLocalPinned hs hl hd
    refine ⟨⟨q, hq⟩, ?_⟩
    rw [Pod.remoteToRemoteCache, hl]
    simp only [hi.stands.getPodFromRemote hs hl hd, ok_bind]
    exact ⟨_, rfl⟩
  | remoteCache =>
    obtain ⟨client, -, -, -, -, hl, -⟩ := hi.stands.of_remote (.inr hs)
    have hd := (hi.tracked hfr).2 (by rw [hl]; rfl)
    have hr : ∀ e, replyCode (some (wireText .freePodOk)) ≠ some (.error e) := by
      intro e he
      cases he
    obtain ⟨q, m', hq, -⟩ := hi.remoteCacheToLocalPinned hs hl hd hr
    exact ⟨q, hq⟩

/-- Along every run of transitions and stores, the content of the pod at every live byte is
what the application last wrote there, exactly one of memory, swap file and node holds the
page, and in memory the page can be read and written. When the run starts without a tail buffer, no
transition ever gets stuck. -/
theorem swap_transparent (ho : w.Opens L path live)
    (hr : Relation.ReflTransGen (Step L path live) w w') :
    (∀ a ∈ live, w'.content L path a = w'.written a) ∧
    ((w'.files path).isSome ↔ w'.pod.state = .disk ∨ w'.pod.state = .diskCache) ∧
    (w'.pod.landlordClient.isSome ↔ w'.pod.state = .remote ∨ w'.pod.state = .remoteCache) ∧
    (∀ c, (w'.node c).isSome ↔ w'.pod.landlordClient = some c) ∧
    (w'.pod.state = .local_ ∨ w'.pod.state = .localPinned → w'.pod.prot = .readWrite) ∧
    (w.pod.debugTail = .null → w'.Proceeds L) := by
  obtain ⟨m, hi⟩ := ho.inv.run hr
  refine ⟨fun a ha => hi.content_eq ha, ?_, ?_, ?_, fun hs => (hi.stands.of_resident hs).2.1,
    hi.proceeds⟩
  · cases hi.stands with
    | resident hs hm hp hf => rcases hs with hs | hs <;> simp [hf, hs]
    | disk hs hp hf => rcases hs with ⟨hs, -⟩ | ⟨hs, -⟩ <;> simp [hf, hs]
    | remote hs hf => rcases hs with ⟨hs, -⟩ | ⟨hs, -⟩ <;> simp [hf, hs]
  · cases hi.stands with
    | resident hs hm hp hf hl => rcases hs with hs | hs <;> simp [hl, hs]
    | disk hs hp hf ht hl => rcases hs with ⟨hs, -⟩ | ⟨hs, -⟩ <;> simp [hl, hs]
    | remote hs hf ht hl => rcases hs with ⟨hs, -⟩ | ⟨hs, -⟩ <;> simp [hl, hs]
  · intro c
    cases hi.stands with
    | resident hs hm hp hf hl hn => simp [hl, hn c]
    | disk hs hp hf ht hl hn => simp [hl, hn c]
    | @remote client hs hf ht hl hn =>
      rw [hl, hn]
      by_cases hc : c = client
      · simp [hc]
      · simp [update_of_ne hc, Ne.symm hc]

def sample : World := ⟨Pod.samplePod, fun _ => none, fun _ => none, Pod.samplePod.mem⟩

def sampleLive : Set ℕ := {a | ∃ bp ∈ [4112], bp ∉ sample.pod.freeBuffer ∧ bp ≤ a ∧
  a + 16 < bp + getBlockSize sample.pod.mem bp}

theorem sample_opens : sample.Opens Session.sampleLayout "swap" sampleLive where
  state := rfl
  prot := rfl
  landlord := rfl
  noFile := rfl
  noEntry _ := rfl
  page := .inr ⟨[4112], Session.sample_reachable, rfl, nodup_nil, nil_subset _, rfl⟩
  written _ _ := rfl

/-- A byte is written, the page goes to disk, and the file still has the byte. -/
theorem swap_transparent_sample :
    ∃ w, Relation.ReflTransGen (Step Session.sampleLayout "swap" sampleLive) sample w ∧
      w.pod.state = .disk ∧ w.content Session.sampleLayout "swap" 4112 = 9 := by
  have hsize : getBlockSize sample.pod.mem 4112 = 64 := by
    decide +kernel
  have hmem : 4112 ∈ sampleLive :=
    ⟨4112, by simp, by simp [sample, Pod.samplePod], le_rfl, by omega⟩
  have hwrite : Step Session.sampleLayout "swap" sampleLive sample _ := .write 9 (.inl rfl) hmem
  have hrun := (Relation.ReflTransGen.single hwrite).tail (.localToDisk rfl)
  refine ⟨_, hrun, rfl, ((swap_transparent sample_opens hrun).1 4112 hmem).trans ?_⟩
  change update sample.written 4112 9 4112 = 9
  exact update_self _ _ _

end World

end Remon
