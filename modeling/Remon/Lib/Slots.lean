import Mathlib.Tactic

/-! # Tables with numbered slots

A table is a list of slots, some of which are free; all slots past its end are free. A new
entry goes to the lowest free slot.
-/

namespace Remon.Lib.Slots

variable {α : Type*}

def lookup (l : List (Option α)) (n : ℕ) : Option α := l[n]?.join

def put : List (Option α) → ℕ → Option α → List (Option α)
  | [], 0, x => [x]
  | [], n + 1, x => none :: put [] n x
  | _ :: l, 0, x => x :: l
  | y :: l, n + 1, x => y :: put l n x

def lowestFree : List (Option α) → ℕ
  | [] => 0
  | none :: _ => 0
  | some _ :: l => lowestFree l + 1

@[simp] theorem lookup_nil (n : ℕ) : lookup ([] : List (Option α)) n = none := rfl

@[simp] theorem lookup_cons_zero (x : Option α) (l : List (Option α)) : lookup (x :: l) 0 = x := rfl

@[simp] theorem lookup_cons_succ (x : Option α) (l : List (Option α)) (n : ℕ) :
    lookup (x :: l) (n + 1) = lookup l n := rfl

theorem lookup_put (l : List (Option α)) (n : ℕ) (x : Option α) :
    lookup (put l n x) = Function.update (lookup l) n x := by
  funext m
  induction l generalizing n m with
  | nil =>
    induction n generalizing m with
    | zero => cases m <;> simp [put]
    | succ n ih =>
      cases m with
      | zero => simp [put]
      | succ m => simpa [put, Function.update_apply] using ih m
  | cons y l ih =>
    cases n with
    | zero => cases m <;> simp [put]
    | succ n =>
      cases m with
      | zero => simp [put]
      | succ m => simpa [put, Function.update_apply] using ih n m

theorem lookup_lowestFree (l : List (Option α)) : lookup l (lowestFree l) = none := by
  induction l with
  | nil => rfl
  | cons x l ih =>
    cases x with
    | none => rfl
    | some x => exact ih

end Remon.Lib.Slots
