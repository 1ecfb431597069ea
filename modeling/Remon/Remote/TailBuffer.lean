import Remon.Pod.Flush
import Remon.Remote.Fetch

/-! # Who owns the tail buffer

A save that leaves out the free tail of a page keeps the tags of that tail in a buffer of the
pod. A fetch deletes the buffer when it was needed, a release at the node deletes it in any
case, and nothing ever clears the pointer. The machine remembers the pod as it was at its last
save.
-/

namespace Remon
open Lib Heap

def TailBuffer.IsOwned (b : TailBuffer) : Prop := ∃ bytes, b = .owned bytes

instance {b : TailBuffer} : Decidable b.IsOwned :=
  match b with
  | .null => isFalse (by rintro ⟨_, h⟩; cases h)
  | .owned bytes => isTrue ⟨bytes, rfl⟩
  | .deleted => isFalse (by rintro ⟨_, h⟩; cases h)

def tailTags (L : Layout) (m : Mem) (tailOffset : ℕ) : List UInt8 :=
  m.bytes (L.payloadStart + tailOffset) dsize ++ m.bytes (L.payloadEnd - dsize) dsize

/-- A pod and, as a ghost, the pod as it was when it was last given to a node. -/
structure Tailed where
  pod : Pod
  saved : Pod

inductive TailOp where
  /-- Whatever happens to the pod while no node has its page. -/
  | elsewhere (q : Pod)
  | savePodToRemote (client : ℕ) (c : SaveScript)
  | remoteToLocalPinned (d : Delivery)
  | remoteToRemoteCache (d : Delivery)
  | remoteCacheToRemote
  | remoteCacheToLocalPinned (reply : Option (List UInt8))
  | remoteToInit (reply : Option (List UInt8))

namespace Tailed

variable (L : Layout)

def step (t : Tailed) : TailOp → Except Fault Tailed
  | .elsewhere q => .ok { t with pod := q }
  | .savePodToRemote client c => do
    let (_, q, _) ← t.pod.bundleSavePodToRemote L client c
    return ⟨q, t.pod⟩
  | .remoteToLocalPinned d => do
    let q ← t.pod.remoteToLocalPinned L d
    return { t with pod := q }
  | .remoteToRemoteCache d => do
    let q ← t.pod.remoteToRemoteCache L d
    return { t with pod := q }
  | .remoteCacheToRemote => .ok { t with pod := t.pod.remoteCacheToRemote L }
  | .remoteCacheToLocalPinned reply => do
    let q ← t.pod.remoteCacheToLocalPinned L reply
    return { t with pod := q }
  | .remoteToInit reply => do
    let q ← t.pod.remoteToInit L reply
    return { t with pod := q }

/-- A pod is saved while no node has it and fetched or freed while one has. Only the
client code touches the buffer. -/
def Legal (t : Tailed) : TailOp → Prop
  | .elsewhere q => t.pod.landlordClient = none ∧ q.landlordClient = none ∧
      q.debugTail = t.pod.debugTail
  | .savePodToRemote _ _ => t.pod.landlordClient = none
  | _ => t.pod.landlordClient ≠ none

/-- The runs from a new pod, all of whose steps meet `ok`. -/
inductive Run (ok : Tailed → TailOp → Prop) : Tailed → Prop
  | start {p : Pod} (hl : p.landlordClient = none) (hb : p.debugTail = .null) : Run ok ⟨p, p⟩
  | next {t t' : Tailed} {op : TailOp} (h : Run ok t) (hl : t.Legal op) (hok : ok t op)
      (hs : t.step L op = .ok t') : Run ok t'

/-- What the operation may rely on: a buffer about to be replaced is no longer owned, a
buffer about to be read is the one of the last save, and a buffer about to be deleted has
not been deleted before. -/
def Owns (t : Tailed) : TailOp → Prop
  | .savePodToRemote _ _ => ¬ t.pod.debugTail.IsOwned
  | .remoteToLocalPinned _ | .remoteToRemoteCache _ =>
      t.pod.sentOffset = t.saved.getTailOffset L ∧
      (t.pod.sentOffset ≠ L.payloadSize →
        t.pod.debugTail = .owned (tailTags L t.saved.mem (t.saved.getTailOffset L)))
  | .remoteCacheToLocalPinned _ | .remoteToInit _ => t.pod.debugTail ≠ .deleted
  | _ => True

/-- Saves are all or nothing, or break off during the transfer, and a fetch to memory gets
all its bytes. -/
def Served (t : Tailed) : TailOp → Prop
  | .savePodToRemote _ c => t.pod.SaveDialogue L c ∨ Answered c.firstReply .savePodOK ∧
      (sendPayload c.sends (t.pod.getTailOffset L) 0 (t.pod.getTailOffset L)).1 = false
  | .remoteToLocalPinned d => t.pod.sentOffset ≤ d.bytes.length
  | _ => True

def Cleared (t : Tailed) : TailOp → Prop
  | .remoteCacheToLocalPinned _ | .remoteToInit _ =>
      t.pod.sentOffset ≠ L.payloadSize ∨ t.pod.debugTail = .null
  | _ => True

def Tidy (t : Tailed) (op : TailOp) : Prop := t.Served L op ∧ t.Cleared L op

/-- A pod at a node owns a buffer exactly when its page was not sent as a whole, and a pod
at home owns none. -/
structure Inv (t : Tailed) : Prop where
  home : t.pod.landlordClient = none → ¬ t.pod.debugTail.IsOwned
  sent : t.pod.landlordClient ≠ none → t.pod.sentOffset = t.saved.getTailOffset L
  whole : t.pod.sentOffset = L.payloadSize → ¬ t.pod.debugTail.IsOwned
  tail : t.pod.landlordClient ≠ none → t.pod.sentOffset ≠ L.payloadSize →
    t.pod.debugTail = .owned (tailTags L t.saved.mem (t.saved.getTailOffset L))

end Tailed

namespace Pod

variable {L : Layout} {p : Pod} {c : SaveScript}

theorem tail_bundleSavePodToRemote (client : ℕ) (hd : p.SaveDialogue L c ∨
      Answered c.firstReply .savePodOK ∧
        (sendPayload c.sends (p.getTailOffset L) 0 (p.getTailOffset L)).1 = false) :
    Yields (fun _ => True) (p.bundleSavePodToRemote L client c) (fun r =>
      r.2.1.landlordClient = p.landlordClient ∧ r.2.1.debugTail = p.debugTail ∨
      r.2.1 = ({ p.recordSent L (p.getTailOffset L) with prot := .none }).localToRemote L
        client) := by
  rcases hd with hd | ⟨hok, hcut⟩
  · rcases hd.cases with hr | hr | ⟨q, hr, hack⟩
    · rw [bundleSavePodToRemote, hr]
      exact .inl ⟨rfl, rfl⟩
    · rw [bundleSavePodToRemote, hr]
      trivial
    · have hb : p.bundleSavePodToRemote L client c =
          .ok (true, q.localToRemote L client, p.getTailOffset L) := by
        rw [bundleSavePodToRemote, hr]
        rfl
      exact .of_ok hb (.inr (bundleSavePodToRemote_acknowledged hb hack))
  · rw [bundleSavePodToRemote, savePodToRemote_accepted hok, highSpeedSendPod_eq, hcut]
    exact .inl ⟨rfl, rfl⟩

theorem tail_remoteToLocalPinned {d : Delivery} {tail : List UInt8}
    (h : p.sentOffset ≤ d.bytes.length)
    (ht : p.sentOffset = L.payloadSize ∨ p.debugTail = .owned tail) :
    Yields (fun _ => True) (p.remoteToLocalPinned L d) (fun q => q.landlordClient = none ∧
      q.debugTail = if p.sentOffset ≠ L.payloadSize then .deleted else p.debugTail) := by
  rw [remoteToLocalPinned]
  refine Yields.bind (P := fun q : Pod => q.landlordClient = none ∧
    q.debugTail = if p.sentOffset ≠ L.payloadSize then .deleted else p.debugTail) ?_ ?_
  · rw [fetchPod]
    cases p.landlordClient with
    | none => trivial
    | some client =>
      dsimp only
      rw [getPodFromRemote_complete h ht]
      simp
  · intro q hq
    refine (flushFreeBuffer_frame L q).bind ?_
    rintro r ⟨s, l, rfl⟩
    exact hq

theorem tail_remoteToRemoteCache {d : Delivery} {tail : List UInt8}
    (ht : p.sentOffset = L.payloadSize ∨ p.debugTail = .owned tail) :
    Yields (fun _ => True) (p.remoteToRemoteCache L d) (fun q =>
      q.landlordClient = p.landlordClient ∧ q.debugTail = p.debugTail ∧
      q.sentOffset = p.sentOffset) := by
  rw [remoteToRemoteCache]
  cases hl : p.landlordClient with
  | none => trivial
  | some client =>
    dsimp only
    by_cases h : p.sentOffset ≤ d.bytes.length
    · rw [getPodFromRemote_complete h ht]
      simp [setMem, hl]
    · cases he : d.ending with
      | stalled =>
        rw [getPodFromRemote_waits ⟨by omega, he⟩]
        trivial
      | broken =>
        rw [getPodFromRemote_broken (by omega) he]
        exact ⟨hl, rfl, rfl⟩

theorem tail_freePodInRemote (reply : Option (List UInt8)) :
    Yields (fun _ => True) (p.freePodInRemote reply) (fun q => ¬ q.debugTail.IsOwned) := by
  by_cases hd : p.debugTail = .deleted
  · rw [freePodInRemote_deleted hd]
    trivial
  · rw [freePodInRemote_eq hd]
    cases replyCode reply with
    | none => rintro ⟨b, hb⟩; dsimp only at hb; split at hb <;> cases hb
    | some r =>
      cases r with
      | error e => trivial
      | ok code => rintro ⟨b, hb⟩; dsimp only at hb; split at hb <;> cases hb

theorem tail_remoteCacheToLocalPinned (reply : Option (List UInt8)) :
    Yields (fun _ => True) (p.remoteCacheToLocalPinned L reply) (fun q =>
      q.landlordClient = none ∧ ¬ q.debugTail.IsOwned) := by
  rw [remoteCacheToLocalPinned]
  cases p.landlordClient with
  | none => trivial
  | some client =>
    refine (tail_freePodInRemote reply).bind fun q hq => ?_
    refine Yields.bind (flushFreeBuffer_frame L _) ?_
    rintro r ⟨s, l, rfl⟩
    exact ⟨rfl, hq⟩

theorem tail_remoteToInit (reply : Option (List UInt8)) :
    Yields (fun _ => True) (p.remoteToInit L reply) (fun q =>
      q.landlordClient = none ∧ ¬ q.debugTail.IsOwned) := by
  rw [remoteToInit]
  cases p.landlordClient with
  | none => trivial
  | some client => exact (tail_freePodInRemote reply).bind fun q hq => ⟨rfl, hq⟩

end Pod

namespace Tailed

variable {L : Layout} {t t' : Tailed} {op : TailOp}

theorem Inv.of_home (hl : t.pod.landlordClient = none) (hb : ¬ t.pod.debugTail.IsOwned) :
    t.Inv L where
  home _ := hb
  sent h := absurd hl h
  whole _ := hb
  tail h := absurd hl h

/-- The buffer that a fetch reads, whatever it needs of it. -/
theorem Inv.needed (hi : t.Inv L) (hl : t.pod.landlordClient ≠ none) :
    t.pod.sentOffset = L.payloadSize ∨
      t.pod.debugTail = .owned (tailTags L t.saved.mem (t.saved.getTailOffset L)) := by
  by_cases h : t.pod.sentOffset = L.payloadSize
  · exact .inl h
  · exact .inr (hi.tail hl h)

/-- The record of the save is all that the invariant reads of a pod at a node. -/
theorem Inv.congr {q : Pod} (hi : t.Inv L) (hl : q.landlordClient = t.pod.landlordClient)
    (hb : q.debugTail = t.pod.debugTail) (hs : q.sentOffset = t.pod.sentOffset) :
    Inv L { t with pod := q } where
  home h := hb ▸ hi.home (hl ▸ h)
  sent h := hs ▸ hi.sent (hl ▸ h)
  whole h := hb ▸ hi.whole (hs ▸ h)
  tail h ho := hb ▸ hi.tail (hl ▸ h) (hs ▸ ho)

theorem Inv.of_saved {p : Pod} (hb : ¬ p.debugTail.IsOwned) (client : ℕ) :
    Inv L ⟨({ p.recordSent L (p.getTailOffset L) with prot := .none }).localToRemote L client,
      p⟩ where
  home h := by cases h
  sent _ := rfl
  whole h := by
    have hfull : p.getTailOffset L = L.payloadSize := h
    change ¬ (p.recordSent L (p.getTailOffset L)).debugTail.IsOwned
    rwa [Pod.recordSent_debugTail_full hfull]
  tail _ h := Pod.recordSent_debugTail_part h

theorem Inv.step (hi : t.Inv L) (hl : t.Legal op) (hok : t.Served L op)
    (hs : t.step L op = .ok t') : t'.Inv L := by
  suffices Yields (fun _ => True) (t.step L op) (Inv L) from this.result hs
  cases op with
  | elsewhere q =>
    obtain ⟨h1, h2, h3⟩ := hl
    exact .of_home h2 (h3 ▸ hi.home h1)
  | savePodToRemote client c =>
    refine (Pod.tail_bundleSavePodToRemote client hok).bind ?_
    rintro ⟨b, q, sent⟩ (⟨h1, h2⟩ | rfl)
    · exact .of_home (h1.trans hl) (h2 ▸ hi.home hl)
    · exact .of_saved (hi.home hl) client
  | remoteToLocalPinned d =>
    refine (Pod.tail_remoteToLocalPinned hok (hi.needed hl)).bind ?_
    rintro q ⟨h1, h2⟩
    refine .of_home h1 ?_
    rw [h2]
    split
    · rintro ⟨b, hb⟩
      cases hb
    · rename_i h
      exact hi.whole (not_not.mp h)
  | remoteToRemoteCache d =>
    refine (Pod.tail_remoteToRemoteCache (hi.needed hl)).bind ?_
    rintro q ⟨h1, h2, h3⟩
    exact hi.congr h1 h2 h3
  | remoteCacheToRemote => exact hi.congr rfl rfl rfl
  | remoteCacheToLocalPinned reply =>
    exact (Pod.tail_remoteCacheToLocalPinned reply).bind fun q hq => .of_home hq.1 hq.2
  | remoteToInit reply =>
    exact (Pod.tail_remoteToInit reply).bind fun q hq => .of_home hq.1 hq.2

theorem Run.inv (h : Run L (Served L) t) : t.Inv L := by
  induction h with
  | start hl hb =>
    refine .of_home hl ?_
    rintro ⟨b, hb'⟩
    cases hb.symm.trans hb'
  | next _ hl hok hs ih => exact ih.step hl hok hs

theorem Run.mono {ok ok' : Tailed → TailOp → Prop} (hm : ∀ t op, ok t op → ok' t op)
    (h : Run L ok t) : Run L ok' t := by
  induction h with
  | start hl hb => exact .start hl hb
  | next _ hl hok hs ih => exact ih.next hl (hm _ _ hok) hs

/-- Along every run of tidy operations each one finds the buffer as it needs it: nothing is
deleted twice, a fetch reads what its save wrote, and no owned buffer is replaced. -/
theorem tail_buffer_owned (h : Run L (Tidy L) t) (hl : t.Legal op) (hok : t.Tidy L op) :
    t.Owns L op := by
  have hi := (h.mono fun _ _ hok => hok.1).inv
  have hkept : t.pod.landlordClient ≠ none →
      (t.pod.sentOffset ≠ L.payloadSize ∨ t.pod.debugTail = .null) →
      t.pod.debugTail ≠ .deleted := by
    rintro hl (hn | hn) hd
    · cases hd.symm.trans (hi.tail hl hn)
    · cases hd.symm.trans hn
  cases op with
  | elsewhere q => trivial
  | savePodToRemote client c => exact hi.home hl
  | remoteToLocalPinned d => exact ⟨hi.sent hl, hi.tail hl⟩
  | remoteToRemoteCache d => exact ⟨hi.sent hl, hi.tail hl⟩
  | remoteCacheToRemote => trivial
  | remoteCacheToLocalPinned reply => exact hkept hl hok.2
  | remoteToInit reply => exact hkept hl hok.2

/-- What a step leaves, for steps that return. -/
def after (L : Layout) (t : Tailed) (op : TailOp) : Tailed := (t.step L op).toOption.getD t

theorem Run.after {ok : Tailed → TailOp → Prop} (h : Run L ok t) (op : TailOp) (hl : t.Legal op)
    (hok : ok t op) (hs : (t.step L op).toOption.isSome = true) : Run L ok (t.after L op) := by
  refine h.next hl hok ?_
  rw [Tailed.after]
  cases hr : t.step L op with
  | error e =>
    rw [hr] at hs
    cases hs
  | ok r => rfl

/-- The peer takes the whole payload and confirms it. -/
def sampleScript : SaveScript := ⟨some [55], fun _ => some 4096, some [57]⟩

/-- The sample pod is saved without its free tail. -/
def sampleAway : Tailed :=
  after Session.sampleLayout ⟨Pod.samplePod, Pod.samplePod⟩ (.savePodToRemote 0 sampleScript)

theorem sampleAway_run {ok : Tailed → TailOp → Prop}
    (hok : ok ⟨Pod.samplePod, Pod.samplePod⟩ (.savePodToRemote 0 sampleScript)) :
    Run Session.sampleLayout ok sampleAway :=
  Run.after (.start rfl rfl) _ rfl hok (by decide)

theorem sampleScript_served {t : Tailed} {client : ℕ}
    (hs : (sendPayload sampleScript.sends (t.pod.getTailOffset Session.sampleLayout) 0
      (t.pod.getTailOffset Session.sampleLayout)).1 = true) :
    t.Served Session.sampleLayout (.savePodToRemote client sampleScript) :=
  .inl (.saved rfl hs rfl)

theorem sampleAway_landlord : sampleAway.pod.landlordClient ≠ none := by
  decide

theorem tail_buffer_owned_sample :
    sampleAway.Owns Session.sampleLayout (.remoteToInit (some [49, 54])) :=
  tail_buffer_owned (sampleAway_run ⟨sampleScript_served (by decide), trivial⟩)
    sampleAway_landlord ⟨trivial, .inl (by decide)⟩

def sampleBack : Tailed :=
  sampleAway.after Session.sampleLayout (.remoteToLocalPinned
    ⟨Pod.samplePod.mem.bytes 4096 80, fun _ => 80, .stalled⟩)

def sampleFull : Tailed :=
  sampleBack.after Session.sampleLayout (.elsewhere { sampleBack.pod with
    state := .local_
    heap := ((Heap.malloc Session.sampleLayout sampleBack.pod.heap 4000).toOption.getD
      (0, sampleBack.pod.heap)).2 })

def sampleStale : Tailed :=
  sampleFull.after Session.sampleLayout (.savePodToRemote 0 sampleScript)

theorem sampleStale_run : Run Session.sampleLayout (Served Session.sampleLayout) sampleStale := by
  have haway : Run Session.sampleLayout (Served Session.sampleLayout) sampleAway :=
    sampleAway_run (sampleScript_served (by decide))
  have hback : Run Session.sampleLayout (Served Session.sampleLayout) sampleBack := by
    refine haway.after _ sampleAway_landlord ?_ (by decide)
    change sampleAway.pod.sentOffset ≤ _
    decide
  have hfull : Run Session.sampleLayout (Served Session.sampleLayout) sampleFull := by
    refine hback.after _ ⟨?_, ?_, rfl⟩ trivial rfl <;> decide
  refine hfull.after _ ?_ (sampleScript_served ?_) ?_
  · change sampleFull.pod.landlordClient = none
    decide
  · decide
  · decide

def sampleRejected : Tailed :=
  after Session.sampleLayout ⟨Pod.samplePod, Pod.samplePod⟩
    (.savePodToRemote 0 ⟨some [55], fun _ => some 4096, some [56]⟩)

/-- All peers behave: the page goes to a node once with a free tail and once without, and
when it is given up there, the buffer of the first save is deleted a second time. And when
a node takes a page but answers with an error, the next save forgets the buffer. -/
theorem tail_buffer_deleted_twice :
    (Run Session.sampleLayout (Served Session.sampleLayout) sampleStale ∧
      sampleStale.pod.landlordClient ≠ none ∧ sampleStale.pod.debugTail = .deleted ∧
      ∀ reply, sampleStale.step Session.sampleLayout (.remoteToInit reply) = .error .undefined ∧
        sampleStale.step Session.sampleLayout (.remoteCacheToLocalPinned reply) =
          .error .undefined) ∧
    Run Session.sampleLayout (fun _ _ => True) sampleRejected ∧
      sampleRejected.pod.landlordClient = none ∧ sampleRejected.pod.debugTail.IsOwned ∧
      sampleRejected.Legal (.savePodToRemote 0 sampleScript) ∧
      ¬ sampleRejected.Owns Session.sampleLayout (.savePodToRemote 0 sampleScript) := by
  have hl : sampleStale.pod.landlordClient = some 0 := by
    decide
  have hd : sampleStale.pod.debugTail = .deleted := by
    decide
  have hnone : sampleRejected.pod.landlordClient = none := by
    decide
  have howned : sampleRejected.pod.debugTail.IsOwned := by
    decide
  refine ⟨⟨sampleStale_run, by simp [hl], hd, ?_⟩, ?_, hnone, howned, hnone, not_not.mpr howned⟩
  · intro reply
    constructor
    · simp only [step, Pod.remoteToInit, hl, Pod.freePodInRemote_deleted hd]
      rfl
    · simp only [step, Pod.remoteCacheToLocalPinned, hl, Pod.freePodInRemote_deleted hd]
      rfl
  · exact Run.after (.start rfl rfl) _ rfl trivial (by decide)

end Tailed

end Remon
