import Mathlib.Tactic

/-! # Computations that may stop

A triple for computations in `Except`: the value that is returned has a property, and an
error is one of those that are permitted. With no permitted error the computation returns.
-/

namespace Remon.Lib

universe u v

variable {ε : Type u} {α β : Type v} {E : ε → Prop}

/-- The computation returns a value with `Q` or stops with an error in `E`. -/
def Yields (E : ε → Prop) (x : Except ε α) (Q : α → Prop) : Prop :=
  match x with
  | .ok a => Q a
  | .error e => E e

namespace Yields

variable {x : Except ε α} {f : α → Except ε β} {P Q : α → Prop} {R : β → Prop}
  {a : α} {e : ε}

@[simp] theorem ok_iff : Yields E (.ok a) Q ↔ Q a := Iff.rfl

theorem of_ok (h : x = .ok a) (ha : Q a) : Yields E x Q := by
  rw [h]
  exact ha

theorem bind (hx : Yields E x P) (hf : ∀ a, P a → Yields E (f a) R) : Yields E (x >>= f) R := by
  cases x with
  | ok a => exact hf a hx
  | error e => exact hx

theorem mono (hx : Yields E x P) (h : ∀ a, P a → Q a) : Yields E x Q := by
  cases x with
  | ok a => exact h a hx
  | error e => exact hx

/-- More errors may be permitted. -/
theorem weaken {E' : ε → Prop} (hE : ∀ e, E e → E' e) (hx : Yields E x Q) : Yields E' x Q := by
  cases x with
  | ok a => exact hx
  | error e => exact hE e hx

/-- What is known of a value that was returned. -/
theorem result (hx : Yields E x Q) (h : x = .ok a) : Q a := by
  rw [h] at hx
  exact hx

/-- The error of a computation that stopped is a permitted one. -/
theorem permitted (hx : Yields E x Q) (h : x = .error e) : E e := by
  rw [h] at hx
  exact hx

theorem own_error (hx : Yields E x Q) : Yields (fun e => x = .error e) x Q := by
  cases x with
  | ok a => exact hx
  | error e => exact rfl

/-- More may be known of a value from how it came about. -/
theorem of_run (hx : Yields E x P) (h : ∀ a, x = .ok a → P a → Q a) : Yields E x Q := by
  cases x with
  | ok a => exact h a rfl hx
  | error e => exact hx

/-- The next step may use how its value came about. -/
theorem then_run (h : ∀ a, x = .ok a → Yields (fun _ => True) (f a) R) :
    Yields (fun _ => True) (x >>= f) R := by
  cases x with
  | ok a => exact h a rfl
  | error e => trivial

/-- With no permitted error the computation returns. -/
theorem returns (hx : Yields (fun _ => False) x Q) : ∃ a, x = .ok a ∧ Q a := by
  cases x with
  | ok a => exact ⟨a, rfl, hx⟩
  | error e => exact hx.elim

/-- A loop over a list, with an invariant that knows what is left of the list. -/
theorem foldlM {g : α → β → Except ε α} {I : List β → α → Prop} {l : List β}
    (hg : ∀ b l a, I (b :: l) a → Yields E (g a b) (I l)) (ha : I l a) :
    Yields E (l.foldlM g a) (I []) := by
  induction l generalizing a with
  | nil => exact ha
  | cons b l ih =>
    rw [List.foldlM_cons]
    exact (hg b l a ha).bind (fun a' ha' => ih ha')

end Yields

end Remon.Lib
