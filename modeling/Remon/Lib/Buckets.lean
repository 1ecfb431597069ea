import Remon.Lib.OrdMap

/-! # Maps of buckets

A map whose values are finite sets, each a list without repetitions. An element is filed
under a key, whose bucket is made when there is none, and taken out again, which removes the
bucket when nothing is left in it.
-/

namespace Remon.Lib.OrdMap
open Function List

def lastBelow {α : Type*} (m : OrdMap α) : ℕ → Option ℕ
  | 0 => none
  | n + 1 => if (m.get n).isSome then some n else lastBelow m n

def lastKey {α : Type*} (m : OrdMap α) : Option ℕ := m.lastBelow m.bound

theorem le_lastBelow {α : Type*} {m : OrdMap α} {n k : ℕ} (hk : k < n) (hm : m.get k ≠ none) :
    ∃ j, m.lastBelow n = some j ∧ k ≤ j := by
  induction n with
  | zero => omega
  | succ n ih =>
    rw [lastBelow]
    by_cases hn : (m.get n).isSome = true
    · rw [if_pos hn]
      exact ⟨n, rfl, Nat.le_of_lt_succ hk⟩
    · rw [if_neg hn]
      apply ih
      have hne : k ≠ n := by
        rintro rfl
        exact hn (Option.isSome_iff_ne_none.mpr hm)
      omega

theorem get_lastBelow {α : Type*} {m : OrdMap α} {n k : ℕ} (h : m.lastBelow n = some k) :
    m.get k ≠ none := by
  induction n with
  | zero => cases h
  | succ n ih =>
    rw [lastBelow] at h
    split at h
    · next hn =>
      rw [← Option.some.inj h]
      exact Option.isSome_iff_ne_none.mp hn
    · exact ih h

theorem le_lastKey {α : Type*} {m : OrdMap α} {k : ℕ} (hm : m.get k ≠ none) :
    ∃ j, m.lastKey = some j ∧ k ≤ j :=
  le_lastBelow (m.lt_bound k hm) hm

theorem get_lastKey {α : Type*} {m : OrdMap α} {k : ℕ} (h : m.lastKey = some k) :
    m.get k ≠ none :=
  get_lastBelow h

variable {α : Type*} (m : OrdMap (List α)) {k j : ℕ} {x y : α}

/-- The element `x` is in the bucket of `k`. -/
def Holds (k : ℕ) (x : α) : Prop := ∃ l, m.get k = some l ∧ x ∈ l

/-- Every bucket has an element and none has one twice. -/
def Tidy : Prop := ∀ k l, m.get k = some l → l ≠ [] ∧ l.Nodup

theorem Tidy.empty : (OrdMap.empty : OrdMap (List α)).Tidy := by
  intro k l h
  cases h

theorem not_holds_empty : ¬ (OrdMap.empty : OrdMap (List α)).Holds k x := by
  rintro ⟨l, h, -⟩
  cases h

variable [DecidableEq α]

def file (k : ℕ) (x : α) : OrdMap (List α) := m.insert k (((m.get k).getD []).insert x)

/-- Take `x` out of the bucket of `k`. -/
def unfile (k : ℕ) (x : α) : OrdMap (List α) :=
  match m.get k with
  | none => m
  | some l => if (l.erase x).isEmpty then m.erase k else m.insert k (l.erase x)

variable {m}

theorem holds_file : (m.file k x).Holds j y ↔ m.Holds j y ∨ j = k ∧ y = x := by
  by_cases hj : j = k
  · subst hj
    simp only [Holds, file, get_insert, update_self, Option.some.injEq, exists_eq_left',
      mem_insert_iff, true_and]
    cases hm : m.get j with
    | none => simp
    | some l =>
      simp only [Option.getD_some, Option.some.injEq, exists_eq_left']
      exact or_comm
  · simp [Holds, file, hj]

theorem Tidy.file (h : m.Tidy) : (m.file k x).Tidy := by
  intro j l hl
  by_cases hj : j = k
  · subst hj
    simp only [OrdMap.file, get_insert, update_self, Option.some.injEq] at hl
    subst hl
    refine ⟨ne_nil_of_mem mem_insert_self, List.Nodup.insert ?_⟩
    cases hm : m.get j with
    | none => exact nodup_nil
    | some l => exact (h j l hm).2
  · simp only [OrdMap.file, get_insert, update_of_ne hj] at hl
    exact h j l hl

theorem holds_unfile (h : m.Tidy) :
    (m.unfile k x).Holds j y ↔ m.Holds j y ∧ ¬ (j = k ∧ y = x) := by
  rw [unfile]
  cases hm : m.get k with
  | none =>
    refine ⟨fun hj => ⟨hj, ?_⟩, fun hj => hj.1⟩
    rintro ⟨rfl, rfl⟩
    obtain ⟨l, hl, -⟩ := hj
    rw [hm] at hl
    cases hl
  | some l =>
    have hn := (h k l hm).2
    dsimp only
    by_cases hj : j = k
    · subst hj
      have hold : m.Holds j y ↔ y ∈ l := by
        simp [Holds, hm]
      rw [hold]
      split
      · next he =>
        have hnone : ∀ z, z ∈ l → z = x := by
          intro z hz
          by_contra hne
          have hmem := (mem_erase_of_ne hne).mpr hz
          rw [isEmpty_iff.mp he] at hmem
          cases hmem
        simp only [Holds, get_erase, update_self, reduceCtorEq, false_and, exists_const,
          true_and, false_iff, not_and, not_not]
        exact hnone y
      · simp only [Holds, get_insert, update_self, Option.some.injEq, exists_eq_left',
          hn.mem_erase_iff, true_and]
        exact and_comm
    · split <;> simp [Holds, hj]

theorem Tidy.unfile (h : m.Tidy) : (m.unfile k x).Tidy := by
  rw [OrdMap.unfile]
  cases hm : m.get k with
  | none => exact h
  | some l =>
    intro j l' hl
    dsimp only at hl
    by_cases hj : j = k
    · subst hj
      split at hl
      · simp at hl
      · next he =>
        simp only [get_insert, update_self, Option.some.injEq] at hl
        subst hl
        exact ⟨fun hnil => he (by rw [hnil]; rfl), (h j l hm).2.erase x⟩
    · split at hl
      · exact h j l' (by simpa [update_of_ne hj] using hl)
      · exact h j l' (by simpa [update_of_ne hj] using hl)

end Remon.Lib.OrdMap
