import Mathlib.Logic.Relation
import Mathlib.Order.WellFounded
import Remon.Lib.LockLogic

/-! # Locks that are taken in order

Every lock has a rank, and an operation waits only for locks of a higher rank than all that it
holds; it may try any lock.
-/

namespace Remon.Lib.LockProg.Threads

variable {L D C P T : Type} {w : Threads T L D C P} {t u : T} {l k : L}

/-- The next step of `t` is to take the lock `l`. -/
def Wants (w : Threads T L D C P) (t : T) (l : L) : Prop := ∃ next, w.prog t = .lock l next

/-- `t` waits for a lock that `u` holds. -/
def WaitsFor (w : Threads T L D C P) (t u : T) : Prop :=
  ∃ l, w.Wants t l ∧ w.shared.owner l = some u

section Ranks

variable {R : Type} [Preorder R] {rank : L → R} {E : Set L → Prop} {B : Discipline L D P}
  (hrank : ∀ H l, B.waits H l → ∀ k ∈ H, rank k < rank l)

theorem Orderly.in_progress (h : w.Orderly B E) (hE : ∀ H, E H → H = ∅)
    (hl : w.shared.owner l = some u) : w.prog u ≠ .ret () := by
  intro hp
  have hu := h u
  rw [hp] at hu
  exact Set.eq_empty_iff_forall_notMem.mp (hE _ (hu _ .refl)) l hl

include hrank

/-- The holder of a lock wants only locks above that one. -/
theorem Orderly.rank_lt (h : w.Orderly B E) (hl : w.shared.owner l = some u)
    (hk : w.Wants u k) : rank l < rank k := by
  obtain ⟨next, hp⟩ := hk
  have hu := h u
  rw [hp] at hu
  exact hrank _ _ hu.1 l hl

/-- The ranks of the locks rise along a chain of waiting operations. -/
theorem Orderly.rank_lt_of_chain (h : w.Orderly B E) (hc : Relation.TransGen w.WaitsFor t u)
    (hl : w.Wants t l) (hk : w.Wants u k) : rank l < rank k := by
  have hsame : ∀ l', w.Wants t l' → l' = l := by
    rintro l' ⟨next', hp'⟩
    obtain ⟨next, hp⟩ := hl
    cases hp.symm.trans hp'
    rfl
  induction hc generalizing k with
  | single hstep =>
    obtain ⟨l', hl', ho⟩ := hstep
    rw [← hsame l' hl']
    exact h.rank_lt hrank ho hk
  | tail _ hstep ih =>
    obtain ⟨l', hl', ho⟩ := hstep
    exact (ih hl').trans (h.rank_lt hrank ho hk)

theorem Orderly.no_ring (h : w.Orderly B E) : ¬ Relation.TransGen w.WaitsFor t t := by
  intro hc
  obtain ⟨u, ⟨l, hl, -⟩, -⟩ := Relation.TransGen.head'_iff.mp hc
  exact lt_irrefl _ (h.rank_lt_of_chain hrank hc hl hl)

theorem Orderly.chain_to_holder (h : w.Orderly B E) (hE : ∀ H, E H → H = ∅)
    (hwf : WellFounded fun k l : L => rank l < rank k) (ht : w.WaitsFor t u) :
    ∃ v, Relation.TransGen w.WaitsFor t v ∧ w.prog v ≠ .ret () ∧ ∀ v', ¬ w.WaitsFor v v' := by
  obtain ⟨l, hl, ho⟩ := ht
  -- the induction goes up the ranks
  induction l using hwf.induction generalizing t u with
  | h l ih =>
    have hfirst : Relation.TransGen w.WaitsFor t u := .single ⟨l, hl, ho⟩
    by_cases hwait : ∃ u', w.WaitsFor u u'
    · obtain ⟨u', k, hk, ho'⟩ := hwait
      obtain ⟨v, hchain, hv⟩ := ih k (h.rank_lt hrank ho hk) hk ho'
      exact ⟨v, hfirst.trans hchain, hv⟩
    · exact ⟨u, hfirst, h.in_progress hE ho, not_exists.mp hwait⟩

end Ranks

end Remon.Lib.LockProg.Threads
