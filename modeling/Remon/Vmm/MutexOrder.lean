import Remon.Lib.LockOrder
import Remon.Vmm.PodMutex

/-! # Waiting for the mutexes of the pods and for `LRULock`

An operation waits for the mutex of a pod while it has no mutex, and for `LRULock` while it has
at most mutexes of pods; under `LRULock` the mutex of a pod is only tried. The fault that
`adjustPodList` takes while it reads a rank is part of `allocate`.
-/

namespace Remon.Vmm.Entry
open Lib LockProg Relation

/-- A run that does not come to a place without the mutex, nor to the one that keeps `LRULock`. -/
def Returns (p : Place) : Prop := Avoids p ∧ p ≠ .invalidIter

theorem Returns.avoids (p : Place) (h : Returns p) : Avoids p := h.1

theorem rank_lt_of_waits {ok : Place → Prop} (H : Set Mutex) (l : Mutex)
    (h : (rules ok).waits H l) : ∀ k ∈ H, rank k < rank l := h

theorem rank_le_one (l : Mutex) : rank l ≤ 1 := by
  cases l with
  | pod i => exact Nat.zero_le 1
  | lru => exact le_refl 1

theorem wellFounded_rank : WellFounded fun k l : Mutex => rank l < rank k := by
  apply Subrelation.wf _ (measure fun l => 1 - rank l).wf
  intro k l h
  have hk := rank_le_one k
  show 1 - rank k < 1 - rank l
  omega

/-- What an operation has at its end. -/
def Nothing (H : Set Mutex) : Prop := H = ∅

theorem nothing_empty : Nothing ∅ := rfl

theorem orderly_of_returns {T : Type} [DecidableEq T] {R : Region}
    {w₀ w : Threads T Mutex Data Change Place} (hstart : w₀.AtRest)
    (hrun : Threads.Run (IsCall R) Returns w₀ w) :
    w.Orderly (rules Returns) Nothing := by
  apply Threads.Run.orderly _ hrun (hstart.orderly nothing_empty)
  rintro p ⟨c, rfl⟩
  exact safe_op R Returns.avoids nothing_empty (fun h => absurd rfl h.2) c

/-- In every interleaving of the entry points and the loops that comes to none of these places, no
ring of threads waits for mutexes of pods and `LRULock`, and a thread that waits for one does so,
over a chain of holders, for a thread in progress that waits for none. -/
theorem no_ring_of_waiting_threads {T : Type} [DecidableEq T] {R : Region}
    {w₀ w : Threads T Mutex Data Change Place} (hstart : w₀.AtRest)
    (hrun : Threads.Run (IsCall R) Returns w₀ w) :
    (∀ t, ¬ TransGen w.WaitsFor t t) ∧
      ∀ t u, w.WaitsFor t u →
        ∃ v, TransGen w.WaitsFor t v ∧ w.prog v ≠ .ret () ∧ ∀ v', ¬ w.WaitsFor v v' := by
  have horderly := orderly_of_returns hstart hrun
  constructor
  · exact fun t => horderly.no_ring rank_lt_of_waits
  · exact fun t u ht =>
      horderly.chain_to_holder rank_lt_of_waits (fun _ h => h) wellFounded_rank ht

/-- Two threads fault on the page of pod 0. The second waits for the first, which has the mutex
and waits for nobody. -/
theorem no_ring_of_waiting_threads_sample : ∃ w,
    Threads.Run (IsCall sampleRegion) Returns sampleStart w ∧ w.WaitsFor false true ∧
      ∃ v, TransGen w.WaitsFor false v ∧ w.prog v ≠ .ret () ∧ ∀ v', ¬ w.WaitsFor v v' := by
  have h : Threads.Run (IsCall sampleRegion) Returns sampleStart _ :=
    .next .refl (.start true rfl (fun _ => by simp [sampleStart]) ⟨.fault 4100, rfl⟩)
  have h := h.next (.start false rfl (fun _ => by simp [sampleStart]) ⟨.fault 4100, rfl⟩)
  have h := h.next (.step true .read trivial)
  have h := h.next (.step true (.lock rfl) trivial)
  have h := h.next (.step false .read trivial)
  have hchain := (no_ring_of_waiting_threads sampleStart_atRest h).2 false true
  have hwait := hchain ⟨Mutex.pod 0, ⟨_, rfl⟩, rfl⟩
  exact ⟨_, h, ⟨Mutex.pod 0, ⟨_, rfl⟩, rfl⟩, hwait⟩

end Remon.Vmm.Entry
