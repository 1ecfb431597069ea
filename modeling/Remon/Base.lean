import Mathlib.Tactic

/-! # Shared constants and the ways a call can fail to return -/

namespace Remon

/-- Word, double word and quadruple word, in bytes. -/
abbrev wsize : ℕ := 8
abbrev dsize : ℕ := 16
abbrev qsize : ℕ := 32
abbrev overhead : ℕ := dsize

/-- Ways in which a call of the program ends without returning to its caller. -/
inductive Fault where
  /-- `exit` with this code -/
  | exit (code : ℤ)
  /-- the calling thread locks a mutex that it holds already -/
  | deadlock
  /-- a loop ran past its bound -/
  | spin
  /-- an exception that nobody catches -/
  | uncaught
  /-- a read from a peer that sends nothing more and keeps the connection -/
  | blocked
  /-- a failed assertion -/
  | abort
  /-- an access that the language leaves undefined -/
  | undefined
  deriving DecidableEq, Repr

namespace Fault

variable {α β : Type}

@[simp] theorem ok_bind (x : α) (f : α → Except Fault β) : (Except.ok x >>= f) = f x := rfl

@[simp] theorem error_bind (e : Fault) (f : α → Except Fault β) :
    (Except.error e >>= f) = Except.error e := rfl

@[simp] theorem pure_eq (x : α) : (pure x : Except Fault α) = Except.ok x := rfl

@[simp] theorem throw_eq (e : Fault) : (throw e : Except Fault α) = Except.error e := rfl

/-- Both halves of a computation that returned did so. -/
theorem of_bind_ok {x : Except Fault α} {f : α → Except Fault β} {r : β}
    (h : (x >>= f) = .ok r) : ∃ a, x = .ok a ∧ f a = .ok r := by
  cases x with
  | error e => cases h
  | ok a => exact ⟨a, rfl, h⟩

/-- A call whose first result can be read off has returned. -/
theorem exists_ok {x : Except Fault (α × β)} {a : α} (h : x.toOption.map Prod.fst = some a) :
    ∃ b, x = .ok (a, b) := by
  cases x with
  | error e => cases h
  | ok r =>
    cases h
    exact ⟨r.2, rfl⟩

end Fault

end Remon
