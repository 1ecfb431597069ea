import Mathlib.Tactic

/-! # Rings of slots

The entries of a growing list are put into a ring of `n` slots one after another, each over the
entry `n` places before it. As long as at most `n` entries from number `r` on are in the list,
each of them is still in its slot.
-/

namespace Remon.Lib.Ring

variable {α : Type*} {n r a b : ℕ} {slots : ℕ → α} {xs : List α} {x : α}

/-- Slots of entries that are less than a round apart differ. -/
theorem mod_eq_iff (hab : a ≤ b) (hlt : b < a + n) : a % n = b % n ↔ a = b := by
  refine ⟨?_, fun h => by rw [h]⟩
  intro h
  have hdvd : n ∣ b - a := (Nat.modEq_iff_dvd' hab).mp h
  have hzero : b - a = 0 := Nat.eq_zero_of_dvd_of_lt hdvd (by omega)
  omega

def Keeps (n : ℕ) (slots : ℕ → α) (xs : List α) (r : ℕ) : Prop :=
  ∀ k y, r ≤ k → xs[k]? = some y → slots (k % n) = y

theorem Keeps.nil : Keeps n slots [] r := by
  intro k y _ hy
  simp at hy

/-- The slot of the next entry is not one of those that are kept. -/
theorem Keeps.store (h : Keeps n slots xs r) (hroom : xs.length < r + n) (x : α) :
    Keeps n (Function.update slots (xs.length % n) x) xs r := by
  intro k y hk hy
  have hlt : k < xs.length := (List.getElem?_eq_some_iff.mp hy).1
  rw [Function.update_of_ne, h k y hk hy]
  intro hc
  have := (mod_eq_iff hlt.le (by omega)).mp hc
  omega

theorem Keeps.push (h : Keeps n slots xs r) (hx : slots (xs.length % n) = x) :
    Keeps n slots (xs ++ [x]) r := by
  intro k y hk hy
  rcases lt_trichotomy k xs.length with hlt | rfl | hgt
  · rw [List.getElem?_append_left hlt] at hy
    exact h k y hk hy
  · rw [List.getElem?_concat_length] at hy
    rw [hx, Option.some.inj hy]
  · rw [List.getElem?_eq_none (by simp; omega)] at hy
    cases hy

theorem Keeps.mono (h : Keeps n slots xs r) {r' : ℕ} (hr : r ≤ r') : Keeps n slots xs r' :=
  fun k y hk hy => h k y (hr.trans hk) hy

end Remon.Lib.Ring
