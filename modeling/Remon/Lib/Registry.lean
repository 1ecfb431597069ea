import Mathlib.Data.Nat.Notation
import Mathlib.Logic.Function.Basic
import Mathlib.Tactic.SplitIfs

/-! # Tables that make their entries

The first lookup of a key makes an object for it, and every later lookup finds that object. The
objects are numbered in the order in which they are made, so no two keys share one.
-/

namespace Remon.Lib
open Function

structure Registry (K : Type) where
  entry : K → Option ℕ
  /-- how many objects there are -/
  made : ℕ
  below : ∀ k v, entry k = some v → v < made
  inj : ∀ k k' v, entry k = some v → entry k' = some v → k = k'

namespace Registry

variable {K : Type}

theorem below_none (_ : K) (v : ℕ) (h : (none : Option ℕ) = some v) : v < 0 := by cases h

theorem inj_none (k k' : K) (v : ℕ) (h : (none : Option ℕ) = some v)
    (_ : (none : Option ℕ) = some v) : k = k' := by cases h

def empty : Registry K := ⟨fun _ => none, 0, below_none, inj_none⟩

variable [DecidableEq K] (r : Registry K) {k k' : K} {v : ℕ}

theorem insert_below (k k' : K) (v : ℕ) (h : update r.entry k (some r.made) k' = some v) :
    v < r.made + 1 := by
  rw [update_apply] at h
  split_ifs at h
  · rw [← Option.some.inj h]
    exact Nat.lt_succ_self _
  · exact Nat.lt_succ_of_lt (r.below k' v h)

theorem insert_inj (k k₁ k₂ : K) (v : ℕ) (h₁ : update r.entry k (some r.made) k₁ = some v)
    (h₂ : update r.entry k (some r.made) k₂ = some v) : k₁ = k₂ := by
  -- the number of the new object is above those of the others
  have hnew : ∀ k', r.entry k' ≠ some r.made :=
    fun k' h => Nat.lt_irrefl _ (r.below k' r.made h)
  rw [update_apply] at h₁ h₂
  split_ifs at h₁ h₂ with hk₁ hk₂ hk₂
  · rw [hk₁, hk₂]
  · exact absurd (h₂.trans h₁.symm) (hnew k₂)
  · exact absurd (h₁.trans h₂.symm) (hnew k₁)
  · exact r.inj k₁ k₂ v h₁ h₂

/-- An object for the key `k`. -/
def insert (k : K) : Registry K where
  entry := update r.entry k (some r.made)
  made := r.made + 1
  below := r.insert_below k
  inj := r.insert_inj k

/-- The object for the key, which is made if there is none. -/
def get (k : K) : ℕ × Registry K :=
  match r.entry k with
  | some v => (v, r)
  | none => (r.made, r.insert k)

variable {r}

theorem get_entry : (r.get k).2.entry k = some (r.get k).1 := by
  unfold get
  split
  · assumption
  · exact update_self k _ _

/-- The objects of the other keys stay. -/
theorem entry_get (h : r.entry k' = some v) : (r.get k).2.entry k' = some v := by
  unfold get
  split
  · exact h
  · next hnone =>
    have hne : k' ≠ k := by
      rintro rfl
      rw [hnone] at h
      cases h
    exact (update_of_ne hne _ _).trans h

end Registry

end Remon.Lib
