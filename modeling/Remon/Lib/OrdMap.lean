import Mathlib.Tactic

/-! # Ordered finite maps with natural keys

A map is a partial function together with a bound above all of its keys, so that
the first key from some point on can be searched for. The two rules for a search
say what it finds and when it finds nothing.
-/

namespace Remon.Lib
open Function List

structure OrdMap (α : Type*) where
  get : ℕ → Option α
  bound : ℕ
  lt_bound : ∀ k, get k ≠ none → k < bound

namespace OrdMap

variable {α : Type*}

def empty : OrdMap α where
  get _ := none
  bound := 0
  lt_bound _ h := absurd rfl h

/-- Add the key or replace its value. -/
def insert (m : OrdMap α) (k : ℕ) (v : α) : OrdMap α where
  get := update m.get k (some v)
  bound := max m.bound (k + 1)
  lt_bound := by
    intro j hj
    by_cases h : j = k
    · omega
    · rw [update_of_ne h] at hj
      have := m.lt_bound j hj
      omega

def erase (m : OrdMap α) (k : ℕ) : OrdMap α where
  get := update m.get k none
  bound := m.bound
  lt_bound := by
    intro j hj
    by_cases h : j = k
    · exact absurd (by rw [h, update_self]) hj
    · rw [update_of_ne h] at hj
      exact m.lt_bound j hj

def lowerBound (m : OrdMap α) (k : ℕ) : Option ℕ :=
  (List.range' k (m.bound - k)).find? (fun j => (m.get j).isSome)

variable (m : OrdMap α)

@[simp] theorem get_insert (k : ℕ) (v : α) :
    (m.insert k v).get = update m.get k (some v) := rfl

@[simp] theorem get_erase (k : ℕ) : (m.erase k).get = update m.get k none := rfl

theorem lowerBound_eq_some {k j : ℕ} : m.lowerBound k = some j ↔
    k ≤ j ∧ m.get j ≠ none ∧ ∀ i, k ≤ i → i < j → m.get i = none := by
  rw [lowerBound, List.find?_range'_eq_some]
  constructor
  · rintro ⟨hj, hm, hlt⟩
    refine ⟨(mem_range'_1.mp hm).1, by simpa [Option.isSome_iff_ne_none] using hj, ?_⟩
    intro i hi hij
    simpa using hlt i hi hij
  · rintro ⟨hk, hj, hlt⟩
    have hb := m.lt_bound j hj
    refine ⟨by simpa [Option.isSome_iff_ne_none] using hj, mem_range'_1.mpr ⟨hk, by omega⟩, ?_⟩
    intro i hi hij
    simp [hlt i hi hij]

theorem lowerBound_eq_none {k : ℕ} : m.lowerBound k = none ↔ ∀ j, k ≤ j → m.get j = none := by
  rw [lowerBound, List.find?_eq_none]
  constructor
  · intro h j hj
    by_contra hne
    have hb := m.lt_bound j hne
    exact h j (mem_range'_1.mpr ⟨hj, by omega⟩) (Option.isSome_iff_ne_none.mpr hne)
  · intro h j hj
    simp [h j (mem_range'_1.mp hj).1]

end OrdMap

end Remon.Lib
