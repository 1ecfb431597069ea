import Mathlib.Logic.Function.Basic

/-! # Operations that take locks

An operation is a tree of primitive steps: it takes and releases locks, reads shared data, and
makes changes, each of which has a beginning and an end and belongs to one lock. A step whose
outcome is not modelled may have any outcome. Operations interleave step by step. Releasing a
lock makes it free, whoever holds it. `pass` marks a place of the code, so that a run can be
said not to come there.
-/

namespace Remon.Lib
open Function

/-- Operations over locks `L`, data `D`, kinds of change `C` and places `P`, with result `α`. -/
inductive LockProg (L D C P : Type) (α : Type) : Type 1
  | ret (a : α)
  | lock (l : L) (next : LockProg L D C P α)
  | tryLock (l : L) (next : Bool → LockProg L D C P α)
  | unlock (l : L) (next : LockProg L D C P α)
  | read {β : Type} (q : D → β) (next : β → LockProg L D C P α)
  | choose {β : Type} (next : β → LockProg L D C P α)
  | enter (l : L) (c : C) (next : LockProg L D C P α)
  | leave (l : L) (c : C) (f : D → D) (next : LockProg L D C P α)
  | pass (l : L) (p : P) (next : LockProg L D C P α)

namespace LockProg

variable {L D C P T : Type} {α β : Type}

protected def bind : LockProg L D C P α → (α → LockProg L D C P β) → LockProg L D C P β
  | .ret a, f => f a
  | .lock l next, f => .lock l (next.bind f)
  | .tryLock l next, f => .tryLock l fun b => (next b).bind f
  | .unlock l next, f => .unlock l (next.bind f)
  | .read q next, f => .read q fun b => (next b).bind f
  | .choose next, f => .choose fun b => (next b).bind f
  | .enter l c next, f => .enter l c (next.bind f)
  | .leave l c g next, f => .leave l c g (next.bind f)
  | .pass l p next, f => .pass l p (next.bind f)

instance : Monad (LockProg L D C P) where
  pure := .ret
  bind := .bind

theorem bind_bind {γ : Type} (x : LockProg L D C P α) (f : α → LockProg L D C P β)
    (g : β → LockProg L D C P γ) : x >>= f >>= g = x >>= fun a => f a >>= g := by
  change (x.bind f).bind g = x.bind fun a => (f a).bind g
  induction x with
  | ret a => rfl
  | _ => simp only [LockProg.bind, *]

def acquire (l : L) : LockProg L D C P Unit := .lock l (.ret ())

def attempt (l : L) : LockProg L D C P Bool := .tryLock l .ret

def release (l : L) : LockProg L D C P Unit := .unlock l (.ret ())

def get (q : D → β) : LockProg L D C P β := .read q .ret

def any (β : Type) : LockProg L D C P β := .choose .ret

def change (l : L) (c : C) (f : D → D) : LockProg L D C P Unit :=
  .enter l c (.leave l c f (.ret ()))

def mark (l : L) (p : P) : LockProg L D C P Unit := .pass l p (.ret ())

/-! ## Steps -/

/-- What an operation does in one step. A flag tells whether it holds the lock then. -/
inductive Event (L C P : Type) where
  | lock (l : L)
  | busy (l : L)
  | unlock (l : L) (holds : Bool)
  | enter (l : L) (c : C) (holds : Bool)
  | leave (l : L) (c : C) (holds : Bool)
  | pass (l : L) (p : P) (holds : Bool)
  | quiet
  deriving DecidableEq

/-- The locks with their holders, and the data. -/
structure Shared (T L D : Type) where
  owner : L → Option T
  data : D

variable [DecidableEq L] [DecidableEq T]

namespace Shared

variable (sh : Shared T L D)

def take (t : T) (l : L) : Shared T L D := { sh with owner := update sh.owner l (some t) }

def free (l : L) : Shared T L D := { sh with owner := update sh.owner l none }

def edit (f : D → D) : Shared T L D := { sh with data := f sh.data }

def holds (t : T) (l : L) : Bool := decide (sh.owner l = some t)

variable {sh} {t : T} {l k : L} {f : D → D}

section

omit [DecidableEq T]

@[simp] theorem take_data : (sh.take t l).data = sh.data := rfl

@[simp] theorem take_owner_self : (sh.take t l).owner l = some t := update_self l _ _

@[simp] theorem take_owner_of_ne (h : k ≠ l) : (sh.take t l).owner k = sh.owner k :=
  update_of_ne h _ _

@[simp] theorem free_data : (sh.free l).data = sh.data := rfl

@[simp] theorem free_owner_self : (sh.free l).owner l = none := update_self l _ _

@[simp] theorem free_owner_of_ne (h : k ≠ l) : (sh.free l).owner k = sh.owner k :=
  update_of_ne h _ _

omit [DecidableEq L]

@[simp] theorem edit_data : (sh.edit f).data = f sh.data := rfl

@[simp] theorem edit_owner : (sh.edit f).owner = sh.owner := rfl

end

omit [DecidableEq L] in
@[simp] theorem holds_edit : (sh.edit f).holds t l = sh.holds t l := rfl

@[simp] theorem holds_take_self : (sh.take t l).holds t l = true := by simp [holds]

@[simp] theorem holds_take_of_ne (h : k ≠ l) : (sh.take t l).holds t k = sh.holds t k := by
  simp [holds, h]

@[simp] theorem holds_free_self : (sh.free l).holds t l = false := by simp [holds]

@[simp] theorem holds_free_of_ne (h : k ≠ l) : (sh.free l).holds t k = sh.holds t k := by
  simp [holds, h]

end Shared

/-- One step of operation `t`. -/
inductive Step (t : T) :
    LockProg L D C P α → Shared T L D → Event L C P → LockProg L D C P α → Shared T L D → Prop
  | lock {l next sh} (h : sh.owner l = none) : Step t (.lock l next) sh (.lock l) next (sh.take t l)
  | tryLock {l next sh} (h : sh.owner l = none) :
      Step t (.tryLock l next) sh (.lock l) (next true) (sh.take t l)
  | busy {l next sh} (h : sh.owner l ≠ none) :
      Step t (.tryLock l next) sh (.busy l) (next false) sh
  | unlock {l next sh} : Step t (.unlock l next) sh (.unlock l (sh.holds t l)) next (sh.free l)
  | read {γ : Type} {q : D → γ} {next sh} : Step t (.read q next) sh .quiet (next (q sh.data)) sh
  | choose {γ : Type} {next : γ → _} {sh} (b : γ) : Step t (.choose next) sh .quiet (next b) sh
  | enter {l c next sh} : Step t (.enter l c next) sh (.enter l c (sh.holds t l)) next sh
  | leave {l c f next sh} :
      Step t (.leave l c f next) sh (.leave l c (sh.holds t l)) next (sh.edit f)
  | pass {l p next sh} : Step t (.pass l p next) sh (.pass l p (sh.holds t l)) next sh

/-! ## One operation by itself -/

/-- Operation `t` by itself, from its start to its result, with all that it does. -/
inductive Ends (t : T) :
    LockProg L D C P α → Shared T L D → List (Event L C P) → α → Shared T L D → Prop
  | ret {a sh} : Ends t (.ret a) sh [] a sh
  | step {p sh e p' sh' log a sh''} (h : Step t p sh e p' sh') (hs : Ends t p' sh' log a sh'') :
      Ends t p sh (e :: log) a sh''

section Ends

variable {t : T} {sh sh' : Shared T L D} {log : List (Event L C P)}

theorem ends_pure {a b : α} :
    Ends t (pure a : LockProg L D C P α) sh log b sh' ↔ log = [] ∧ b = a ∧ sh' = sh := by
  constructor
  · intro h
    cases h with
    | ret => exact ⟨rfl, rfl, rfl⟩
    | step h _ => cases h
  · rintro ⟨rfl, rfl, rfl⟩
    exact .ret

/-- The steps of `x` are steps of `x >>= f`. -/
theorem Step.bind {x x' : LockProg L D C P α} {e} (f : α → LockProg L D C P β)
    (h : Step t x sh e x' sh') : Step t (x >>= f) sh e (x' >>= f) sh' := by
  cases h with
  | lock h => exact .lock h
  | tryLock h => exact .tryLock h
  | busy h => exact .busy h
  | unlock => exact .unlock
  | read => exact .read
  | choose b => exact .choose b
  | enter => exact .enter
  | leave => exact .leave
  | pass => exact .pass

theorem Step.of_bind {x : LockProg L D C P α} {f : α → LockProg L D C P β} {e p}
    (h : Step t (x >>= f) sh e p sh') :
    (∃ a, x = .ret a) ∨ ∃ x', p = x' >>= f ∧ Step t x sh e x' sh' := by
  cases x with
  | ret a => exact .inl ⟨a, rfl⟩
  | lock => cases h with | lock h => exact .inr ⟨_, rfl, .lock h⟩
  | tryLock =>
    cases h with
    | tryLock h => exact .inr ⟨_, rfl, .tryLock h⟩
    | busy h => exact .inr ⟨_, rfl, .busy h⟩
  | unlock => cases h with | unlock => exact .inr ⟨_, rfl, .unlock⟩
  | read => cases h with | read => exact .inr ⟨_, rfl, .read⟩
  | choose => cases h with | choose b => exact .inr ⟨_, rfl, .choose b⟩
  | enter => cases h with | enter => exact .inr ⟨_, rfl, .enter⟩
  | leave => cases h with | leave => exact .inr ⟨_, rfl, .leave⟩
  | pass => cases h with | pass => exact .inr ⟨_, rfl, .pass⟩

theorem Ends.append {x : LockProg L D C P α} {f : α → LockProg L D C P β} {log₁ log₂} {a b}
    {sh₁ sh₂ : Shared T L D} (hx : Ends t x sh log₁ a sh₁) (hf : Ends t (f a) sh₁ log₂ b sh₂) :
    Ends t (x >>= f) sh (log₁ ++ log₂) b sh₂ := by
  induction hx with
  | ret => exact hf
  | step h _ ih => exact .step (h.bind f) (ih hf)

theorem ends_bind {x : LockProg L D C P α} {f : α → LockProg L D C P β} {b : β} :
    Ends t (x >>= f) sh log b sh' ↔
      ∃ log₁ a sh₁ log₂, log = log₁ ++ log₂ ∧ Ends t x sh log₁ a sh₁ ∧
        Ends t (f a) sh₁ log₂ b sh' := by
  constructor
  · generalize hp : x >>= f = p
    intro h
    induction h generalizing x with
    | ret =>
      cases x with
      | ret a =>
        refine ⟨[], a, _, [], rfl, .ret, ?_⟩
        rw [show f a = _ from hp]
        exact .ret
      | _ => cases hp
    | step hstep hs ih =>
      subst hp
      rcases hstep.of_bind with ⟨a, rfl⟩ | ⟨x', rfl, hx'⟩
      · exact ⟨[], a, _, _, rfl, .ret, .step hstep hs⟩
      · obtain ⟨log₁, a, sh₁, log₂, rfl, hx, hf⟩ := ih rfl
        exact ⟨_, a, sh₁, log₂, rfl, .step hx' hx, hf⟩
  · rintro ⟨log₁, a, sh₁, log₂, rfl, hx, hf⟩
    exact hx.append hf

theorem ends_acquire {l : L} {u : Unit} :
    Ends t (acquire l : LockProg L D C P Unit) sh log u sh' ↔
      sh.owner l = none ∧ log = [.lock l] ∧ sh' = sh.take t l := by
  constructor
  · intro h
    cases h with
    | step hs h =>
      cases hs with
      | lock hl =>
        obtain ⟨rfl, -, rfl⟩ := ends_pure.mp h
        exact ⟨hl, rfl, rfl⟩
  · rintro ⟨hl, rfl, rfl⟩
    exact .step (.lock hl) .ret

theorem ends_attempt {l : L} {b : Bool} :
    Ends t (attempt l : LockProg L D C P Bool) sh log b sh' ↔
      (sh.owner l = none ∧ log = [.lock l] ∧ b = true ∧ sh' = sh.take t l) ∨
        (sh.owner l ≠ none ∧ log = [.busy l] ∧ b = false ∧ sh' = sh) := by
  constructor
  · intro h
    cases h with
    | step hs h =>
      cases hs with
      | tryLock hl =>
        obtain ⟨rfl, rfl, rfl⟩ := ends_pure.mp h
        exact .inl ⟨hl, rfl, rfl, rfl⟩
      | busy hl =>
        obtain ⟨rfl, rfl, rfl⟩ := ends_pure.mp h
        exact .inr ⟨hl, rfl, rfl, rfl⟩
  · rintro (⟨hl, rfl, rfl, rfl⟩ | ⟨hl, rfl, rfl, rfl⟩)
    · exact .step (.tryLock hl) .ret
    · exact .step (.busy hl) .ret

theorem ends_release {l : L} {u : Unit} :
    Ends t (release l : LockProg L D C P Unit) sh log u sh' ↔
      log = [.unlock l (sh.holds t l)] ∧ sh' = sh.free l := by
  constructor
  · intro h
    cases h with
    | step hs h =>
      cases hs
      obtain ⟨rfl, -, rfl⟩ := ends_pure.mp h
      exact ⟨rfl, rfl⟩
  · rintro ⟨rfl, rfl⟩
    exact .step .unlock .ret

theorem ends_get {q : D → β} {b : β} :
    Ends t (get q : LockProg L D C P β) sh log b sh' ↔
      log = [.quiet] ∧ b = q sh.data ∧ sh' = sh := by
  constructor
  · intro h
    cases h with
    | step hs h =>
      cases hs
      obtain ⟨rfl, rfl, rfl⟩ := ends_pure.mp h
      exact ⟨rfl, rfl, rfl⟩
  · rintro ⟨rfl, rfl, rfl⟩
    exact .step .read .ret

theorem ends_any {b : β} :
    Ends t (any β : LockProg L D C P β) sh log b sh' ↔ log = [.quiet] ∧ sh' = sh := by
  constructor
  · intro h
    cases h with
    | step hs h =>
      cases hs
      obtain ⟨rfl, rfl, rfl⟩ := ends_pure.mp h
      exact ⟨rfl, rfl⟩
  · rintro ⟨rfl, rfl⟩
    exact .step (.choose b) .ret

theorem ends_change {l : L} {c : C} {f : D → D} {u : Unit} :
    Ends t (change l c f : LockProg L D C P Unit) sh log u sh' ↔
      log = [.enter l c (sh.holds t l), .leave l c (sh.holds t l)] ∧ sh' = sh.edit f := by
  constructor
  · intro h
    cases h with
    | step hs h =>
      cases hs
      cases h with
      | step hs h =>
        cases hs
        obtain ⟨rfl, -, rfl⟩ := ends_pure.mp h
        exact ⟨rfl, rfl⟩
  · rintro ⟨rfl, rfl⟩
    exact .step .enter (.step .leave .ret)

theorem ends_mark {l : L} {p : P} {u : Unit} :
    Ends t (mark l p : LockProg L D C P Unit) sh log u sh' ↔
      log = [.pass l p (sh.holds t l)] ∧ sh' = sh := by
  constructor
  · intro h
    cases h with
    | step hs h =>
      cases hs
      obtain ⟨rfl, -, rfl⟩ := ends_pure.mp h
      exact ⟨rfl, rfl⟩
  · rintro ⟨rfl, rfl⟩
    exact .step .pass .ret

end Ends

end LockProg

end Remon.Lib
