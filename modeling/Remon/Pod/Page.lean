import Remon.Pod.Models
import Remon.Pod.Swap

/-! # The heap of a page on the move

Wherever the page of a pod is, the pod stands for one heap. Moving the page keeps the heap;
when it comes back into memory the buffered frees are released from it.
-/

namespace Remon
open Function Lib Heap

variable {L : Layout} {path : String} {b : Prop} {h : AbsHeap L}

/-- The ways in which the release of a page at its node stops. -/
def Unreleased (e : Fault) : Prop := e = .uncaught ∨ e = .undefined

namespace Pod

/-- The pods agree in everything but the place of the page and its bytes. -/
structure Alike (p q : Pod) : Prop where
  inited : q.heap.inited = p.heap.inited
  locked : q.heap.locked = p.heap.locked
  isFlushing : q.isFlushing = p.isFlushing
  freeBuffer : q.freeBuffer = p.freeBuffer
  rank : q.rank = p.rank
  oldRank : q.oldRank = p.oldRank

/-- The pod `q` is `p` with its page brought into memory. -/
structure Home (p q : Pod) : Prop where
  state : q.state = .localPinned
  inited : q.heap.inited = p.heap.inited
  freeBuffer : q.freeBuffer = []
  rank : q.rank = p.rank
  oldRank : q.oldRank = p.oldRank

variable {p : Pod} {m : Mem}

theorem Models.alike {q : Pod} (hp : (p.setMem m).Models b h) (ha : p.Alike q) :
    (q.setMem m).Models b h := by
  refine hp.congr ?_ ha.freeBuffer ha.isFlushing
  simp only [setMem, ha.inited, ha.locked]

theorem Models.tail_le (hp : (p.setMem m).Models b h) :
    (p.setMem m).getTailOffset L = L.payloadSize ∨
      (p.setMem m).getTailOffset L + 32 ≤ L.payloadSize := by
  rw [getTailOffset, isForSmallAllocations]
  rcases hp.page with ⟨hin, hs⟩ | ⟨hin, -⟩
  · rw [if_pos hin, getTailFreeBlock_eq hs]
    exact h.tailFree_le
  · rw [hin]
    exact .inl rfl

/-- The page that comes back stands for the same heap. -/
theorem Models.refill (hp : (p.setMem m).Models b h) :
    (p.setMem (Pod.refill L ((p.setMem m).getTailOffset L) m)).Models b h := by
  refine ⟨?_, hp.locked, hp.idle, hp.nodup, hp.pending⟩
  rcases hp.page with ⟨hin, hs⟩ | ⟨hin, rfl⟩
  · have hm : Spells m h := hs
    have ht : (p.setMem m).getTailOffset L = getTailFreeBlock L m := if_pos hin
    have hr : Spells (Pod.refill L ((p.setMem m).getTailOffset L) m) h := by
      rw [ht, Pod.refill]
      exact reload_spells hm
    exact .inl ⟨hin, hr⟩
  · exact .inr ⟨hin, rfl⟩

end Pod

namespace World

variable (L path b)

/-- The page was not used yet, or it is where `Stands` says. -/
inductive Kept (w : World) (m : Mem) : Prop
  | init (hs : w.pod.state = .init) (hin : w.pod.heap.inited = false) (hf : w.files path = none)
      (hl : w.pod.landlordClient = none) (hn : ∀ c, w.node c = none)
  | stands (hst : w.Stands L path m)

/-- The page of the pod, wherever it is, stands for `h`. -/
def Models (w : World) (h : AbsHeap L) : Prop :=
  ∃ m, (w.pod.setMem m).Models b h ∧ w.Kept L path m

variable {L path b} {w : World} {m : Mem}

theorem Kept.resident (hk : w.Kept L path m)
    (hs : w.pod.state = .local_ ∨ w.pod.state = .localPinned) : w.Stands L path m := by
  cases hk with
  | init hi => rcases hs with hs | hs <;> simp [hi] at hs
  | stands hst => exact hst

theorem Kept.swapped (hk : w.Kept L path m) (hs : w.pod.state ≠ .init) : w.Stands L path m := by
  cases hk with
  | init hi => exact absurd hi hs
  | stands hst => exact hst

/-- A pod in memory stands for a heap exactly if its own page does. -/
theorem models_resident (hs : w.pod.state = .local_ ∨ w.pod.state = .localPinned) :
    w.Models L path b h ↔ w.pod.Models b h ∧ w.pod.prot = .readWrite ∧ w.files path = none ∧
      w.pod.landlordClient = none ∧ ∀ c, w.node c = none := by
  constructor
  · rintro ⟨m, hm, hk⟩
    obtain ⟨rfl, hrest⟩ := (hk.resident hs).of_resident hs
    exact ⟨hm, hrest⟩
  · rintro ⟨hm, hp, hf, hl, hn⟩
    exact ⟨w.pod.mem, hm, .stands (.resident hs rfl hp hf hl hn)⟩

/-- A pod that was not used yet, and one whose memory was given back. -/
theorem models_init (hs : w.pod.state = .init) :
    w.Models L path b h ↔ w.pod.Models b h ∧ w.pod.heap.inited = false ∧ w.files path = none ∧
      w.pod.landlordClient = none ∧ ∀ c, w.node c = none := by
  constructor
  · rintro ⟨m, hm, hk⟩
    cases hk with
    | init _ hin hf hl hn =>
      refine ⟨⟨.inr ⟨hin, ?_⟩, hm.locked, hm.idle, hm.nodup, hm.pending⟩, hin, hf, hl, hn⟩
      exact (hm.page.resolve_left (fun hc => nomatch hin.symm.trans hc.1)).2
    | stands hst =>
      cases hst with
      | resident hs' => simp [hs] at hs'
      | disk hs' => simp [hs] at hs'
      | remote hs' => simp [hs] at hs'
  · rintro ⟨hm, hin, hf, hl, hn⟩
    exact ⟨w.pod.mem, hm, .init hs hin hf hl hn⟩

namespace Models

variable (hw : w.Models L path b h)
include hw

/-- Only the pod, its own file and the entries for it matter. -/
theorem frame {w' : World} (hp : w'.pod = w.pod) (hf : w'.files path = w.files path)
    (hn : w'.node = w.node) : w'.Models L path b h := by
  obtain ⟨pod, files, node, written⟩ := w
  obtain ⟨pod', files', node', written'⟩ := w'
  obtain rfl : pod' = pod := hp
  obtain rfl : node' = node := hn
  obtain ⟨m, hm, hk⟩ := hw
  refine ⟨m, hm, ?_⟩
  cases hk with
  | init hs hin hf' hl hn => exact .init hs hin (hf.trans hf') hl hn
  | stands hst =>
    refine .stands ?_
    cases hst with
    | resident hs hm hp hf' hl hn => exact .resident hs hm hp (hf.trans hf') hl hn
    | disk hs hp hf' ht hl hn => exact .disk hs hp (hf.trans hf') ht hl hn
    | remote hs hf' ht hl hn hd => exact .remote hs (hf.trans hf') ht hl hn hd

/-- What is known of the pod without its page. -/
theorem buffer : w.pod.isFlushing = false ∧ w.pod.freeBuffer.Nodup ∧
    ∀ q ∈ w.pod.freeBuffer, h.isLive q = true := by
  obtain ⟨m, hm, -⟩ := hw
  exact ⟨hm.idle, hm.nodup, hm.pending⟩

/-- A pod without an allocator stands for one free block. -/
theorem of_not_inited (hin : w.pod.heap.inited = false) : h = .fresh L ∧ w.pod.freeBuffer = [] := by
  obtain ⟨m, hm, -⟩ := hw
  exact ⟨(hm.page.resolve_left (fun hc => nomatch hin.symm.trans hc.1)).2,
    hm.freeBuffer_eq_nil hin⟩

/-- A free is noted down, wherever the page is. -/
theorem note {a : ℕ} (ha : h.isLive a = true) (hn : a ∉ w.pod.freeBuffer) :
    World.Models L path b { w with
      pod := { w.pod with freeBuffer := w.pod.freeBuffer ++ [a] } } h := by
  obtain ⟨m, hm, hk⟩ := hw
  refine ⟨m, hm.note ha hn, ?_⟩
  cases hk with
  | init hs hin hf hl hn => exact .init hs hin hf hl hn
  | stands hst =>
    refine .stands ?_
    cases hst with
    | resident hs hm hp hf hl hn => exact .resident hs hm hp hf hl hn
    | disk hs hp hf ht hl hn => exact .disk hs hp hf ht hl hn
    | remote hs hf ht hl hn hd => exact .remote hs hf ht hl hn hd

/-- The page is moved or one of its copies dropped. -/
theorem move {w' : World} (hs : w.pod.state ≠ .init) (ha : w.pod.Alike w'.pod)
    (hst : ∀ m, w.Stands L path m →
      (w.tail L m = L.payloadSize ∨ w.tail L m + 32 ≤ L.payloadSize) → w'.Stands L path m) :
    w'.Models L path b h := by
  obtain ⟨m, hm, hk⟩ := hw
  exact ⟨m, hm.alike ha, .stands (hst m (hk.swapped hs) hm.tail_le)⟩

theorem localToDisk (hs : w.pod.state = .local_) : World.Models L path b { w with
    files := (w.pod.localToDisk L w.files path).1
    pod := (w.pod.localToDisk L w.files path).2 } h :=
  hw.move (by simp [hs]) ⟨rfl, rfl, rfl, rfl, rfl, rfl⟩ (fun _ hst _ => hst.localToDisk hs)

theorem localToRemote {client sent : ℕ} {c : SaveScript} {q : Pod} (hs : w.pod.state = .local_)
    (h' : w.pod.bundleSavePodToRemote L client c = .ok (true, q, sent))
    (hk : w.pod.Acknowledged L c sent) :
    q.state = .remote ∧ q.prot = .none ∧ w.pod.Alike q ∧ World.Models L path b { w with
      pod := q
      node := storeEntry w.node client (w.pod.mem.bytes L.payloadStart sent) } h := by
  obtain rfl := Pod.bundleSavePodToRemote_acknowledged h' hk
  exact ⟨rfl, rfl, ⟨rfl, rfl, rfl, rfl, rfl, rfl⟩,
    hw.move (by simp [hs]) ⟨rfl, rfl, rfl, rfl, rfl, rfl⟩
    (fun _ hst _ => hst.localToRemote hs hk)⟩

theorem diskToDiskCache (hs : w.pod.state = .disk) :
    ∃ q, w.pod.diskToDiskCache L w.files = .ok q ∧ q.state = .diskCache ∧ q.prot = w.pod.prot ∧
      w.pod.Alike q ∧ World.Models L path b { w with pod := q } h := by
  have ⟨m, _, hk⟩ := hw
  have hst := hk.swapped (by simp [hs])
  obtain ⟨-, -, hp, hf, -⟩ := hst.of_disk (.inl hs)
  have hq : w.pod.diskToDiskCache L w.files = .ok { w.pod.setMem (restore L w.pod.mem
      w.pod.sentOffset (swapImage L m (w.tail L m))) with state := .diskCache } := by
    rw [Pod.diskToDiskCache, hp, hf]
  refine ⟨_, hq, rfl, rfl, ⟨rfl, rfl, rfl, rfl, rfl, rfl⟩, ?_⟩
  exact hw.move (by simp [hs]) ⟨rfl, rfl, rfl, rfl, rfl, rfl⟩
    (fun m' hst' _ => (hst'.diskToDiskCache hs hq).2)

theorem diskCacheToDisk (hs : w.pod.state = .diskCache) :
    World.Models L path b { w with pod := w.pod.diskCacheToDisk L } h :=
  hw.move (by simp [hs]) ⟨rfl, rfl, rfl, rfl, rfl, rfl⟩ (fun _ hst ht => hst.diskCacheToDisk ht hs)

theorem remoteToRemoteCache {client : ℕ} {d : Delivery} (hs : w.pod.state = .remote)
    (hl : w.pod.landlordClient = some client) (hd : w.node client = some d.bytes) :
    ∃ q, w.pod.remoteToRemoteCache L d = .ok q ∧ q.state = .remoteCache ∧ q.prot = w.pod.prot ∧
      w.pod.Alike q ∧ World.Models L path b { w with pod := q } h := by
  have ⟨m, _, hk⟩ := hw
  have hst := hk.swapped (by simp [hs])
  have hq : ∃ q, w.pod.remoteToRemoteCache L d = .ok q := by
    rw [Pod.remoteToRemoteCache, hl]
    simp only [hst.getPodFromRemote hs hl hd, Fault.ok_bind]
    exact ⟨_, rfl⟩
  obtain ⟨q, hq⟩ := hq
  obtain ⟨rfl, -⟩ := hst.remoteToRemoteCache hs hl hd hq
  refine ⟨_, hq, rfl, rfl, ⟨rfl, rfl, rfl, rfl, rfl, rfl⟩, ?_⟩
  exact hw.move (by simp [hs]) ⟨rfl, rfl, rfl, rfl, rfl, rfl⟩
    (fun m' hst' _ => (hst'.remoteToRemoteCache hs hl hd hq).2)

theorem remoteCacheToRemote (hs : w.pod.state = .remoteCache) :
    World.Models L path b { w with pod := w.pod.remoteCacheToRemote L } h :=
  hw.move (by simp [hs]) ⟨rfl, rfl, rfl, rfl, rfl, rfl⟩
    (fun _ hst ht => hst.remoteCacheToRemote ht hs)

/-! ### Pages that are not in use -/

theorem initToLocal (hs : w.pod.state = .init) :
    World.Models L path b { w with pod := w.pod.initToLocal } h := by
  obtain ⟨hm, -, hf, hl, hn⟩ := (models_init hs).mp hw
  exact (models_resident (.inl rfl)).mpr ⟨hm.congr rfl rfl rfl, rfl, hf, hl, hn⟩

theorem initToLocalPinned (hs : w.pod.state = .init) :
    World.Models L path b { w with pod := w.pod.initToLocalPinned } h := by
  obtain ⟨hm, -, hf, hl, hn⟩ := (models_init hs).mp hw
  exact (models_resident (.inr rfl)).mpr ⟨hm.congr rfl rfl rfl, rfl, hf, hl, hn⟩

theorem localToInit (hs : w.pod.state = .local_) (he : h = .fresh L) :
    World.Models L path b { w with pod := w.pod.localToInit L } h := by
  obtain ⟨hm, -, hf, hl, hn⟩ := (models_resident (.inl hs)).mp hw
  exact (models_init rfl).mpr ⟨hm.localToInit he, rfl, hf, hl, hn⟩

/-- The page is pinned or no longer pinned. -/
theorem pin {q : Pod} (hs : w.pod.state = .local_ ∨ w.pod.state = .localPinned)
    (hq : q.state = .local_ ∨ q.state = .localPinned) (hh : q.heap = w.pod.heap)
    (hb : q.freeBuffer = w.pod.freeBuffer) (hi : q.isFlushing = w.pod.isFlushing)
    (hp : q.prot = w.pod.prot) (hl : q.landlordClient = w.pod.landlordClient) :
    World.Models L path b { w with pod := q } h := by
  obtain ⟨hm, hp', hf, hl', hn⟩ := (models_resident hs).mp hw
  exact (models_resident hq).mpr ⟨hm.congr hh hb hi, hp.trans hp', hf, hl.trans hl', hn⟩

/-- A pod on disk without an allocator loses its file. -/
theorem diskToInit (hs : w.pod.state = .disk) (hin : w.pod.heap.inited = false) :
    (w.pod.diskToInit L w.files).1 = update w.files path none ∧
    World.Models L path b { w with
      files := (w.pod.diskToInit L w.files).1
      pod := (w.pod.diskToInit L w.files).2 } h := by
  have ⟨m, hm, hk⟩ := hw
  obtain ⟨-, -, hp, -, -, hl, hn⟩ := (hk.swapped (by simp [hs])).of_disk (.inl hs)
  have hfiles : (w.pod.diskToInit L w.files).1 = update w.files path none := by
    rw [← hp]
    rfl
  refine ⟨hfiles, (models_init rfl).mpr ⟨?_, rfl, ?_, hl, hn⟩⟩
  · exact ⟨.inr ⟨rfl, (hw.of_not_inited hin).1⟩, hm.locked, hm.idle, hm.nodup, hm.pending⟩
  · change (w.pod.diskToInit L w.files).1 path = none
    rw [hfiles, update_self]

omit hw in
/-- A release at the node changes nothing but the tail buffer. -/
theorem freePodInRemote_ok {p : Pod} {reply : Option (List UInt8)} :
    Yields Unreleased (p.freePodInRemote reply) (fun q => ∃ t, q = { p with debugTail := t }) := by
  by_cases hd : p.debugTail = .deleted
  · rw [Pod.freePodInRemote_deleted hd]
    exact .inr rfl
  · rw [Pod.freePodInRemote_eq hd]
    split
    next e he => exact .inl (replyCode_error he)
    next => exact ⟨_, rfl⟩

/-- A pod at a node without an allocator gives up its entry. -/
theorem remoteToInit {client : ℕ} {reply : Option (List UInt8)} (hs : w.pod.state = .remote)
    (hin : w.pod.heap.inited = false) (hl : w.pod.landlordClient = some client) :
    Yields Unreleased (w.pod.remoteToInit L reply) (fun q => q.state = .init ∧
      q.rank = w.pod.rank ∧ q.oldRank = w.pod.oldRank ∧
      World.Models L path b { w with pod := q, node := eraseEntry w.node client } h) := by
  have ⟨m, hm, hk⟩ := hw
  obtain ⟨client', -, -, hf, -, hl', hn, -⟩ := (hk.swapped (by simp [hs])).of_remote (.inl hs)
  obtain rfl : client' = client := Option.some.inj (hl'.symm.trans hl)
  simp only [Pod.remoteToInit, hl]
  refine freePodInRemote_ok.bind ?_
  rintro _ ⟨t, rfl⟩
  refine ⟨rfl, rfl, rfl, (models_init rfl).mpr ⟨?_, rfl, hf, rfl, ?_⟩⟩
  · exact ⟨.inr ⟨rfl, (hw.of_not_inited hin).1⟩, hm.locked, hm.idle, hm.nodup, hm.pending⟩
  · intro c
    change eraseEntry w.node client' c = none
    rw [hn, eraseEntry_update]

/-! ### Coming home -/

omit hw in
/-- The flush at the end of each of these transitions. -/
theorem home (path : String) {p q : Pod} (hp : (p.setMem m).Models b h)
    (hh : q.heap = { p.heap with mem := Pod.refill L ((p.setMem m).getTailOffset L) m })
    (hb : q.freeBuffer = p.freeBuffer) (hf : q.isFlushing = p.isFlushing) (hr : q.rank = p.rank)
    (ho : q.oldRank = p.oldRank) (hprot : q.prot = .readWrite) (hl : q.landlordClient = none) :
    Yields (Stuck b) (q.flushFreeBuffer L) (fun r => p.Home { r with state := .localPinned } ∧
      ∀ files node written, files path = none → (∀ c, node c = none) →
        World.Models L path b ⟨{ r with state := .localPinned }, files, node, written⟩
          (h.freeAll p.freeBuffer)) := by
  have hq : q.Models b h := hp.refill.congr hh hb hf
  refine hq.flushFreeBuffer.mono ?_
  rintro _ ⟨s, rfl, hin, hs⟩
  have hin' : s.inited = p.heap.inited := by
    rw [hin, hh]
  refine ⟨⟨rfl, hin', rfl, hr, ho⟩, ?_⟩
  intro files node written hfiles hnode
  refine (models_resident (.inr rfl)).mpr ⟨?_, hprot, hfiles, hl, hnode⟩
  rw [← hb]
  exact hs.congr rfl rfl rfl

theorem diskToLocalPinned (hs : w.pod.state = .disk) :
    Yields (Stuck b) (w.pod.diskToLocalPinned L w.files) (fun r =>
      r.1 = update w.files path none ∧ w.pod.Home r.2 ∧
      World.Models L path b { w with files := r.1, pod := r.2 } (h.freeAll w.pod.freeBuffer)) := by
  obtain ⟨m, hm, hk⟩ := hw
  have hst := hk.swapped (by simp [hs])
  obtain ⟨-, -, -, -, -, hl, hn⟩ := hst.of_disk (.inl hs)
  rw [hst.diskToLocalPinned_eq hs]
  refine (home path (q := { w.pod.setMem (Pod.refill L (w.tail L m) m) with
    swapPath := "", prot := .readWrite }) hm rfl rfl rfl rfl rfl rfl hl).bind ?_
  rintro r ⟨hhome, hmod⟩
  exact ⟨rfl, hhome, hmod _ _ _ (update_self _ _ _) hn⟩

theorem diskCacheToLocalPinned (hs : w.pod.state = .diskCache) :
    Yields (Stuck b) (w.pod.diskCacheToLocalPinned L w.files) (fun r =>
      r.1 = update w.files path none ∧ w.pod.Home r.2 ∧
      World.Models L path b { w with files := r.1, pod := r.2 } (h.freeAll w.pod.freeBuffer)) := by
  obtain ⟨m, hm, hk⟩ := hw
  have hst := hk.swapped (by simp [hs])
  obtain ⟨-, -, -, -, -, hl, hn⟩ := hst.of_disk (.inr hs)
  rw [hst.diskCacheToLocalPinned_eq hs]
  refine (home path (q := { w.pod.setMem (Pod.refill L (w.tail L m) m) with
    swapPath := "", prot := .readWrite }) hm rfl rfl rfl rfl rfl rfl hl).bind ?_
  rintro r ⟨hhome, hmod⟩
  exact ⟨rfl, hhome, hmod _ _ _ (update_self _ _ _) hn⟩

theorem remoteToLocalPinned {client : ℕ} {d : Delivery} (hs : w.pod.state = .remote)
    (hl : w.pod.landlordClient = some client) (hd : w.node client = some d.bytes) :
    Yields (Stuck b) (w.pod.remoteToLocalPinned L d) (fun q => w.pod.Home q ∧
      World.Models L path b { w with pod := q, node := eraseEntry w.node client }
        (h.freeAll w.pod.freeBuffer)) := by
  obtain ⟨m, hm, hk⟩ := hw
  have hst := hk.swapped (by simp [hs])
  obtain ⟨client', -, -, hf, -, hl', hn, -⟩ := hst.of_remote (.inl hs)
  obtain rfl : client' = client := Option.some.inj (hl'.symm.trans hl)
  rw [hst.remoteToLocalPinned_eq hs hl hd]
  refine (home path (q := { w.pod.setMem (Pod.refill L (w.tail L m) m) with
    debugTail := w.bufferAfter L m false, landlordClient := none, prot := .readWrite })
    hm rfl rfl rfl rfl rfl rfl rfl).bind ?_
  rintro r ⟨hhome, hmod⟩
  refine ⟨hhome, hmod _ _ _ hf ?_⟩
  intro c
  rw [hn, eraseEntry_update]

/-- Here the call may stop while it frees the copy at the node. -/
theorem remoteCacheToLocalPinned_reply {client : ℕ} {reply : Option (List UInt8)}
    (hs : w.pod.state = .remoteCache) (hl : w.pod.landlordClient = some client) :
    Yields (fun e => Stuck b e ∨ w.pod.freePodInRemote reply = .error e)
      (w.pod.remoteCacheToLocalPinned L reply) (fun q => w.pod.Home q ∧
        World.Models L path b { w with pod := q, node := eraseEntry w.node client }
          (h.freeAll w.pod.freeBuffer)) := by
  obtain ⟨m, hm, hk⟩ := hw
  have hst := hk.swapped (by simp [hs])
  obtain ⟨client', -, hmem, hf, -, hl', hn, -⟩ := hst.of_remote (.inr hs)
  obtain rfl : client' = client := Option.some.inj (hl'.symm.trans hl)
  simp only [Pod.remoteCacheToLocalPinned, hl]
  refine (freePodInRemote_ok.own_error.weaken (fun e he => .inr he)).bind ?_
  rintro _ ⟨t, rfl⟩
  have hheap : w.pod.heap = { w.pod.heap with
      mem := Pod.refill L ((w.pod.setMem m).getTailOffset L) m } := by
    have hmem' : w.pod.mem = Pod.refill L ((w.pod.setMem m).getTailOffset L) m := hmem hs
    rw [← hmem']
  refine Yields.weaken (fun e he => .inl he) ((home path (q := { w.pod with
    debugTail := t, landlordClient := none, prot := .readWrite }) hm hheap rfl rfl rfl rfl rfl
    rfl).bind ?_)
  rintro r ⟨hhome, hmod⟩
  refine ⟨hhome, hmod _ _ _ hf ?_⟩
  intro c
  rw [hn, eraseEntry_update]

/-- It stops for a reply that is no number, or for a tail that is gone. -/
theorem remoteCacheToLocalPinned {client : ℕ} {reply : Option (List UInt8)}
    (hs : w.pod.state = .remoteCache) (hl : w.pod.landlordClient = some client) :
    Yields (fun e => Stuck b e ∨ Unreleased e) (w.pod.remoteCacheToLocalPinned L reply)
      (fun q => w.pod.Home q ∧
        World.Models L path b { w with pod := q, node := eraseEntry w.node client }
          (h.freeAll w.pod.freeBuffer)) :=
  (hw.remoteCacheToLocalPinned_reply hs hl).weaken
    (fun _ he => he.imp_right freePodInRemote_ok.permitted)

end Models

end World

end Remon
