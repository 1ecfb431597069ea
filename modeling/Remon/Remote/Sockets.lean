import Remon.Base
import Remon.Lib.Slots

/-! # Who owns a descriptor

The workers of a memory node and the connection objects of a compute node use their sockets by
number. The numbers of one process are handed out lowest first. `safeSend` and `safeRead` close
the descriptor when they fail; the worker loop closes it when it is left, and a connection
object when it is destroyed. A handler or a call of a connection object is the sequence of its
`safeSend` and `safeRead` calls.
-/

namespace Remon.Sockets
open Function Lib.Slots List

/-- A sequence of calls of `safeSend` and `safeRead` and the value returned at its end. -/
inductive Io where
  | ret (code : ℤ)
  | send (next : Bool → Io)
  | read (next : Bool → Io)

/-! ## The handlers of the server -/

def recvPieces : ℕ → Io
  | 0 => .send fun _ => .ret 0
  | n + 1 => .read fun ok => if ok then recvPieces n else .ret (-1)

def sendPodPayload : ℕ → Io
  | 0 => .ret 0
  | n + 1 => .send fun ok => if ok then sendPodPayload n else .ret 0

def replyOnly : Io := .send fun _ => .ret 0

def getMaxPodsHandler : Io := replyOnly

def savePodHandler (context ramFull argsOk : Bool) (pieces : ℕ) : Io :=
  if !context then .ret (-1)
  else if ramFull then replyOnly
  else if !argsOk then .ret (-1)
  else .send fun _ => recvPieces pieces

def payloadReply (context found : Bool) (pieces : ℕ) : Io :=
  if !context then .ret (-1) else if !found then replyOnly else sendPodPayload pieces

def getPodHandler (context found : Bool) (pieces : ℕ) : Io := payloadReply context found pieces

def getPodCacheHandler (context found : Bool) (pieces : ℕ) : Io := payloadReply context found pieces

def freePodHandler (context : Bool) : Io := if !context then .ret (-1) else replyOnly

def contextInitHandler (argsOk : Bool) : Io := if !argsOk then .ret (-1) else replyOnly

def contextRegisterHandler (argsOk : Bool) : Io := if !argsOk then .ret (-1) else replyOnly

/-- A command as `functionHandler` sees it, with what decides the branches of its handler. -/
inductive Command where
  | empty
  | unknown
  | getMaxPods
  | savePod (context ramFull argsOk : Bool) (pieces : ℕ)
  | getPod (context found : Bool) (pieces : ℕ)
  | getPodCache (context found : Bool) (pieces : ℕ)
  | freePod (context : Bool)
  | contextInit (argsOk : Bool)
  | contextRegister (argsOk : Bool)

def functionHandler : Command → Io
  | .empty => .ret (-1)
  | .unknown => .ret 0
  | .getMaxPods => getMaxPodsHandler
  | .savePod context ramFull argsOk pieces => savePodHandler context ramFull argsOk pieces
  | .getPod context found pieces => getPodHandler context found pieces
  | .getPodCache context found pieces => getPodCacheHandler context found pieces
  | .freePod context => freePodHandler context
  | .contextInit argsOk => contextInitHandler argsOk
  | .contextRegister argsOk => contextRegisterHandler argsOk

/-! ## The calls of a connection object -/

def requestReply : Io := .send fun _ => .read fun _ => .ret 0

def highSpeedSendPod : ℕ → Io
  | 0 => .read fun _ => .ret 0
  | n + 1 => .send fun ok => if ok then highSpeedSendPod n else .ret 0

/-- A read that failed leaves an empty reply, which is not accepted. -/
def savePodToRemote (accepted : Bool) (pieces : ℕ) : Io :=
  .send fun _ => .read fun ok => if ok && accepted then highSpeedSendPod pieces else .ret 0

def readPieces : ℕ → Io
  | 0 => .ret 0
  | n + 1 => .read fun ok => if ok then readPieces n else .ret 0

def getPodFromRemote (pieces : ℕ) : Io := .send fun _ => readPieces pieces

def freePodInRemote : Io := requestReply

def initContext : Io := requestReply

def registerContext : Io := requestReply

def getMaxAvailablePods : Io := requestReply

inductive Call where
  | savePodToRemote (accepted : Bool) (pieces : ℕ)
  | getPodFromRemote (pieces : ℕ)
  | freePodInRemote
  | initContext
  | registerContext
  | getMaxAvailablePods

def Call.io : Call → Io
  | .savePodToRemote accepted pieces => Sockets.savePodToRemote accepted pieces
  | .getPodFromRemote pieces => Sockets.getPodFromRemote pieces
  | .freePodInRemote => Sockets.freePodInRemote
  | .initContext => Sockets.initContext
  | .registerContext => Sockets.registerContext
  | .getMaxAvailablePods => Sockets.getMaxAvailablePods

/-! ## A process -/

/-- What a descriptor belongs to: a worker or connection object, or something else that the
process keeps open. -/
inductive Holder where
  | system
  | actor (a : ℕ)
  deriving DecidableEq, Repr

/-- A worker: `loop`, `handling`, `invalid`, `closing`. A connection object: `ready`,
`calling`. Each knows its descriptor by number. -/
inductive Actor where
  | unborn
  | loop (fd : ℕ)
  | handling (fd : ℕ) (rest : Io)
  | invalid (fd : ℕ)
  | closing (fd : ℕ)
  | ready (fd : ℕ)
  | calling (fd : ℕ) (rest : Io)
  | gone

def Actor.fd : Actor → Option ℕ
  | .loop fd => some fd
  | .handling fd _ => some fd
  | .invalid fd => some fd
  | .closing fd => some fd
  | .ready fd => some fd
  | .calling fd _ => some fd
  | .unborn => none
  | .gone => none

/-- A send on, read from or close of a number, and what it belonged to at that moment. -/
structure Use where
  actor : ℕ
  fd : ℕ
  owner : Option Holder
  deriving DecidableEq, Repr

structure State where
  fds : List (Option Holder)
  actors : ℕ → Actor
  /-- The flag of the server and whether its main loop waits in `accept`. -/
  running : Bool
  accepting : Bool
  uses : List Use

inductive Act where
  /-- the main loop tests its condition -/
  | check
  | accept
  | connect
  /-- the worker loop finds the flag cleared -/
  | stop
  /-- `recv` of the worker loop returned nothing -/
  | hangUp
  | command (c : Command)
  | io (ok : Bool)
  | finish
  | sendInvalid (ok : Bool)
  | close
  | call (c : Call)
  | destroy

namespace State

variable (s : State) (a : ℕ)

def setActor (x : Actor) : State := { s with actors := update s.actors a x }

def use (fd : ℕ) : State := { s with uses := ⟨a, fd, lookup s.fds fd⟩ :: s.uses }

def closeFd (fd : ℕ) : State := { s.use a fd with fds := put s.fds fd none }

def openFd (h : Holder) : ℕ × State :=
  (lowestFree s.fds, { s with fds := put s.fds (lowestFree s.fds) (some h) })

def safeCall (fd : ℕ) (ok : Bool) : Option State :=
  if ok then if lookup s.fds fd = none then none else some (s.use a fd)
  else some ((s.use a fd).closeFd a fd)

/-- One step of actor `a`; `none` when it is not possible. A failed `safeSend` of a handler
also clears the flag of the server. A connection object opens a socket when its base is
constructed and another one to connect; the first is never used or closed. -/
def step : Act → Option State
  | .check => if s.accepting then none else if s.running then some { s with accepting := true }
    else none
  | .accept =>
    match s.actors a with
    | .unborn =>
      if s.accepting then
        let (fd, s') := s.openFd (.actor a)
        some { s'.setActor a (.loop fd) with accepting := false }
      else none
    | _ => none
  | .connect =>
    match s.actors a with
    | .unborn =>
      let (_, s') := s.openFd .system
      let (fd, s') := s'.openFd (.actor a)
      some (s'.setActor a (.ready fd))
    | _ => none
  | .stop =>
    match s.actors a with
    | .loop fd => if s.running then none else some (s.setActor a (.closing fd))
    | _ => none
  | .hangUp =>
    match s.actors a with
    | .loop fd => some ((s.use a fd).setActor a (.closing fd))
    | _ => none
  | .command c =>
    match s.actors a with
    | .loop fd =>
      if lookup s.fds fd = none then none
      else some ((s.use a fd).setActor a (.handling fd (functionHandler c)))
    | _ => none
  | .io ok =>
    match s.actors a with
    | .handling fd (.send next) =>
      (s.safeCall a fd ok).map fun s' =>
        { s'.setActor a (.handling fd (next ok)) with running := s'.running && ok }
    | .handling fd (.read next) =>
      (s.safeCall a fd ok).map fun s' => s'.setActor a (.handling fd (next ok))
    | .calling fd (.send next) =>
      (s.safeCall a fd ok).map fun s' => s'.setActor a (.calling fd (next ok))
    | .calling fd (.read next) =>
      (s.safeCall a fd ok).map fun s' => s'.setActor a (.calling fd (next ok))
    | _ => none
  | .finish =>
    match s.actors a with
    | .handling fd (.ret code) =>
      some (s.setActor a (if code = -1 then .invalid fd else .loop fd))
    | .calling fd (.ret _) => some (s.setActor a (.ready fd))
    | _ => none
  | .sendInvalid ok =>
    match s.actors a with
    | .invalid fd =>
      if ok && lookup s.fds fd = none then none
      else some ((s.use a fd).setActor a (if ok then .loop fd else .closing fd))
    | _ => none
  | .close =>
    match s.actors a with
    | .closing fd => some ((s.closeFd a fd).setActor a .gone)
    | _ => none
  | .call c =>
    match s.actors a with
    | .ready fd => some (s.setActor a (.calling fd c.io))
    | _ => none
  | .destroy =>
    match s.actors a with
    | .ready fd => some ((s.closeFd a fd).setActor a .gone)
    | _ => none

/-- A process with these descriptors open for other purposes. -/
def init (fds : List (Option Holder)) : State := ⟨fds, fun _ => .unborn, true, false, []⟩

inductive Reachable : State → Prop
  | init (fds : List (Option Holder)) : Reachable (init fds)
  | step {s s' : State} (hs : Reachable s) (a : ℕ) (x : Act) (run : s.step a x = some s') :
      Reachable s'

def Stores (fd : ℕ) : Prop := ∃ b, (s.actors b).fd = some fd

def opened : Act → List ℕ
  | .accept => [lowestFree s.fds]
  | .connect => [lowestFree s.fds, lowestFree (s.openFd .system).2.fds]
  | _ => []

/-- The runs in which a number is handed out only when nobody has it for its descriptor any
more. -/
inductive Careful : State → Prop
  | init (fds : List (Option Holder)) : Careful (init fds)
  | step {s s' : State} (hs : Careful s) (a : ℕ) (x : Act)
      (hx : ∀ fd ∈ s.opened x, ¬ s.Stores fd) (run : s.step a x = some s') : Careful s'

/-- The runs in which no `safeSend` and no `safeRead` fails. -/
inductive Sound : State → Prop
  | init (fds : List (Option Holder)) : Sound (init fds)
  | step {s s' : State} (hs : Sound s) (a : ℕ) (x : Act) (hx : ∀ ok, x = .io ok → ok = true)
      (run : s.step a x = some s') : Sound s'

def Own (mayFail : Prop) (a : ℕ) (owner : Option Holder) : Prop :=
  owner = some (.actor a) ∨ (mayFail ∧ owner = none)

/-- No number that somebody has for its descriptor belongs to another, now or when it was
used. -/
structure Inv (mayFail : Prop) (s : State) : Prop where
  owned : ∀ a fd, (s.actors a).fd = some fd → Own mayFail a (lookup s.fds fd)
  used : ∀ u ∈ s.uses, Own mayFail u.actor u.owner

variable {s a} {s' : State} {fd : ℕ} {mayFail : Prop}

theorem Own.of_some {b : ℕ} {owner : Option Holder} (h : Own mayFail a owner)
    (hb : owner = some (.actor b)) : b = a := by
  rcases h with h | ⟨-, h⟩
  · rw [hb, Option.some.injEq, Holder.actor.injEq] at h
    exact h
  · rw [hb] at h
    cases h

theorem inv_init (fds : List (Option Holder)) : Inv mayFail (init fds) :=
  ⟨by simp [init, Actor.fd], by simp [init]⟩

theorem Inv.use (h : Inv mayFail s) (hfd : (s.actors a).fd = some fd) :
    Inv mayFail (s.use a fd) := by
  refine ⟨h.owned, ?_⟩
  intro u hu
  rcases mem_cons.mp hu with rfl | hu
  · exact h.owned a fd hfd
  · exact h.used u hu

theorem Inv.setActor (h : Inv mayFail s) {x : Actor}
    (hx : ∀ fd, x.fd = some fd → (s.actors a).fd = some fd) : Inv mayFail (s.setActor a x) := by
  refine ⟨?_, h.used⟩
  intro b n hb
  change (update s.actors a x b).fd = some n at hb
  by_cases hba : b = a
  · rw [hba, update_self] at hb
    rw [hba]
    exact h.owned a n (hx n hb)
  · rw [update_of_ne hba] at hb
    exact h.owned b n hb

theorem Inv.closeFd (h : Inv mayFail s) (hfd : (s.actors a).fd = some fd) {x : Actor}
    (hx : ∀ n, x.fd = some n → n = fd ∧ mayFail) :
    Inv mayFail ((s.closeFd a fd).setActor a x) := by
  refine ⟨?_, (h.use hfd).used⟩
  intro b n hb
  change (update s.actors a x b).fd = some n at hb
  change Own mayFail b (lookup (put s.fds fd none) n)
  rw [lookup_put]
  by_cases hba : b = a
  · rw [hba, update_self] at hb
    obtain ⟨rfl, hf⟩ := hx n hb
    rw [update_self]
    exact .inr ⟨hf, rfl⟩
  · rw [update_of_ne hba] at hb
    have hn := h.owned b n hb
    by_cases he : n = fd
    · subst he
      rw [update_self]
      refine .inr ⟨?_, rfl⟩
      rcases hn with hn | hn
      · exact absurd ((h.owned a n hfd).of_some hn) hba
      · exact hn.1
    · rwa [update_of_ne he]

theorem Inv.openFd (h : Inv mayFail s) (x : Holder) (hs : ¬ s.Stores (lowestFree s.fds)) :
    Inv mayFail (s.openFd x).2 := by
  refine ⟨?_, h.used⟩
  intro b n hb
  change Own mayFail b (lookup (put s.fds (lowestFree s.fds) (some x)) n)
  rw [lookup_put, update_of_ne ?_]
  · exact h.owned b n hb
  · rintro rfl
    exact hs ⟨b, hb⟩

theorem Inv.opened (h : Inv mayFail s) {x : Actor} (hx : x.fd = some (lowestFree s.fds))
    (hs : ¬ s.Stores (lowestFree s.fds)) : Inv mayFail ((s.openFd (.actor a)).2.setActor a x) := by
  refine ⟨?_, h.used⟩
  intro b n hb
  change (update s.actors a x b).fd = some n at hb
  by_cases hba : b = a
  · rw [hba, update_self, hx, Option.some.injEq] at hb
    change Own mayFail b (lookup (put s.fds (lowestFree s.fds) (some (.actor a))) n)
    rw [← hb, lookup_put, update_self, hba]
    exact .inl rfl
  · rw [update_of_ne hba] at hb
    exact (h.openFd (.actor a) hs).owned b n hb

theorem Inv.safeCall (h : Inv mayFail s) (hfd : (s.actors a).fd = some fd) {ok : Bool}
    (hok : ok = false → mayFail) (run : s.safeCall a fd ok = some s') {x : Actor}
    (hx : x.fd = some fd) : Inv mayFail (s'.setActor a x) := by
  cases ok with
  | true =>
    simp only [State.safeCall, if_true] at run
    split at run
    · cases run
    · cases run
      apply (h.use hfd).setActor
      intro n hn
      rw [hx] at hn
      exact hfd.trans hn
  | false =>
    simp only [State.safeCall] at run
    cases run
    apply (h.use hfd).closeFd hfd
    intro n hn
    rw [hx, Option.some.injEq] at hn
    exact ⟨hn.symm, hok rfl⟩

theorem inv_step {x : Act} (h : Inv mayFail s) (hfail : x = .io false → mayFail)
    (hopen : ∀ fd ∈ s.opened x, ¬ s.Stores fd) (run : s.step a x = some s') : Inv mayFail s' := by
  cases x with
  | check =>
    simp only [step] at run
    split at run
    · cases run
    · split at run <;> cases run
      exact ⟨h.owned, h.used⟩
  | accept =>
    simp only [step] at run
    split at run
    next =>
      split at run <;> cases run
      have := h.opened (a := a) (x := .loop (lowestFree s.fds)) rfl (hopen _ (by simp [opened]))
      exact ⟨this.owned, this.used⟩
    next => cases run
  | connect =>
    simp only [step] at run
    split at run
    next =>
      cases run
      exact (h.openFd .system (hopen _ (by simp [State.opened]))).opened rfl
        (hopen _ (by simp [State.opened]))
    next => cases run
  | stop =>
    simp only [step] at run
    split at run
    next fd hw =>
      split at run <;> cases run
      exact h.setActor (by simp [hw, Actor.fd])
    next => cases run
  | hangUp =>
    simp only [step] at run
    split at run
    next fd hw =>
      cases run
      exact (h.use (by simp [hw, Actor.fd])).setActor (by simp [use, hw, Actor.fd])
    next => cases run
  | command c =>
    simp only [step] at run
    split at run
    next fd hw =>
      split at run <;> cases run
      exact (h.use (by simp [hw, Actor.fd])).setActor (by simp [use, hw, Actor.fd])
    next => cases run
  | io ok =>
    have hok : ok = false → mayFail := fun he => hfail (he ▸ rfl)
    simp only [step] at run
    split at run
    next fd next hw =>
      obtain ⟨u, hu, rfl⟩ := Option.map_eq_some_iff.mp run
      have := h.safeCall (by simp [hw, Actor.fd]) hok hu (x := .handling fd (next ok)) rfl
      exact ⟨this.owned, this.used⟩
    next fd next hw =>
      obtain ⟨u, hu, rfl⟩ := Option.map_eq_some_iff.mp run
      exact h.safeCall (by simp [hw, Actor.fd]) hok hu rfl
    next fd next hw =>
      obtain ⟨u, hu, rfl⟩ := Option.map_eq_some_iff.mp run
      exact h.safeCall (by simp [hw, Actor.fd]) hok hu rfl
    next fd next hw =>
      obtain ⟨u, hu, rfl⟩ := Option.map_eq_some_iff.mp run
      exact h.safeCall (by simp [hw, Actor.fd]) hok hu rfl
    next => cases run
  | finish =>
    simp only [step] at run
    split at run
    next fd code hw =>
      cases run
      apply h.setActor
      split <;> simp [hw, Actor.fd]
    next fd code hw => cases run; exact h.setActor (by simp [hw, Actor.fd])
    next => cases run
  | sendInvalid ok =>
    simp only [step] at run
    split at run
    next fd hw =>
      split at run <;> cases run
      apply (h.use (by simp [hw, Actor.fd])).setActor
      cases ok <;> simp [use, hw, Actor.fd]
    next => cases run
  | close | destroy =>
    simp only [step] at run
    split at run
    next fd hw => cases run; exact h.closeFd (by simp [hw, Actor.fd]) (by simp [Actor.fd])
    next => cases run
  | call c =>
    simp only [step] at run
    split at run
    next fd hw => cases run; exact h.setActor (by simp [hw, Actor.fd])
    next => cases run

theorem inv_careful (hs : Careful s) : Inv True s := by
  induction hs with
  | init fds => exact inv_init fds
  | step _ a x hx run ih => exact inv_step ih (fun _ => trivial) hx run

theorem Inv.lookup_ne (h : Inv False s) (hs : s.Stores fd) : lookup s.fds fd ≠ none := by
  obtain ⟨b, hb⟩ := hs
  rcases h.owned b fd hb with ho | ⟨hf, -⟩
  · simp [ho]
  · exact hf.elim

theorem Inv.not_stores_opened (h : Inv False s) (x : Act) : ∀ fd ∈ s.opened x, ¬ s.Stores fd := by
  have hlow : ¬ s.Stores (lowestFree s.fds) := fun hs => h.lookup_ne hs (lookup_lowestFree _)
  intro fd hfd
  cases x with
  | accept =>
    rw [mem_singleton.mp hfd]
    exact hlow
  | connect =>
    rcases mem_cons.mp hfd with rfl | hfd
    · exact hlow
    · rw [mem_singleton.mp hfd]
      have := h.openFd .system hlow
      exact fun hs => this.lookup_ne hs (lookup_lowestFree _)
  | _ => cases hfd

theorem inv_sound (hs : Sound s) : Inv False s := by
  induction hs with
  | init fds => exact inv_init fds
  | step _ a x hx run ih =>
    refine inv_step ih (fun he => ?_) (ih.not_stores_opened x) run
    cases hx false he

/-- If a number is handed out only when no worker and no connection object has it for its
descriptor any more, nobody uses a descriptor of another; if no call of `safeSend` and
`safeRead` fails, nobody uses a descriptor that was closed either. -/
theorem socket_ownership (s : State) :
    (Careful s → ∀ u ∈ s.uses, ∀ h, u.owner = some h → h = .actor u.actor) ∧
    (Sound s → ∀ u ∈ s.uses, u.owner = some (.actor u.actor)) := by
  constructor
  · intro hs u hu h hh
    rcases (inv_careful hs).used u hu with ho | ⟨-, ho⟩
    · rw [hh, Option.some.injEq] at ho
      exact ho
    · rw [hh] at ho
      cases ho
  · intro hs u hu
    rcases (inv_sound hs).used u hu with ho | ⟨hf, -⟩
    · exact ho
    · exact hf.elim

def run (s : State) : List (ℕ × Act) → Option State
  | [] => some s
  | (a, x) :: l => (s.step a x).bind fun s' => run s' l

theorem reachable_run (l : List (ℕ × Act)) {s s' : State} (hs : Reachable s)
    (h : s.run l = some s') : Reachable s' := by
  induction l generalizing s with
  | nil =>
    cases h
    exact hs
  | cons y l ih =>
    obtain ⟨u, hu, hrun⟩ := Option.bind_eq_some_iff.mp h
    exact ih (.step hs y.1 y.2 hu) hrun

def fourOpen : List (Option Holder) := List.replicate 4 (some .system)

/-- Worker 0 receives a pod and closes its connection. -/
def servedState : State :=
  (run (init fourOpen) [(0, .check), (0, .accept), (0, .command (.savePod true false true 1)),
    (0, .io true), (0, .io true), (0, .io true), (0, .finish), (0, .hangUp), (0, .close)]).getD
      (init fourOpen)

theorem servedState_sound : Sound servedState := by
  have h1 := (Sound.init fourOpen).step 0 .check (by simp) rfl
  have h2 := h1.step 0 .accept (by simp) rfl
  have h3 := h2.step 0 (.command (.savePod true false true 1)) (by simp) rfl
  have h4 := h3.step 0 (.io true) (by simp) rfl
  have h5 := h4.step 0 (.io true) (by simp) rfl
  have h6 := h5.step 0 (.io true) (by simp) rfl
  have h7 := h6.step 0 .finish (by simp) rfl
  have h8 := h7.step 0 .hangUp (by simp) rfl
  exact h8.step 0 .close (by simp) rfl

/-- Worker 0 sends, has a failed read and closes the connection again; nobody else connects. -/
def aloneState : State :=
  (run (init fourOpen) [(0, .check), (0, .accept), (0, .command (.savePod true false true 1)),
    (0, .io true), (0, .io false), (0, .finish), (0, .sendInvalid false), (0, .close)]).getD
      (init fourOpen)

theorem aloneState_careful : Careful aloneState := by
  have h1 := (Careful.init fourOpen).step 0 .check (by simp [opened]) rfl
  have h2 := h1.step 0 .accept (by simp [opened, Stores, init, Actor.fd]) rfl
  have h3 := h2.step 0 (.command (.savePod true false true 1)) (by simp [opened]) rfl
  have h4 := h3.step 0 (.io true) (by simp [opened]) rfl
  have h5 := h4.step 0 (.io false) (by simp [opened]) rfl
  have h6 := h5.step 0 .finish (by simp [opened]) rfl
  have h7 := h6.step 0 (.sendInvalid false) (by simp [opened]) rfl
  exact h7.step 0 .close (by simp [opened]) rfl

theorem socket_ownership_sample : Sound servedState ∧ servedState.uses.length = 6 ∧
    (∀ u ∈ servedState.uses, u.owner = some (.actor u.actor)) ∧ Careful aloneState ∧
    aloneState.uses.head? = some ⟨0, 4, none⟩ ∧
    ∀ u ∈ aloneState.uses, ∀ h, u.owner = some h → h = .actor u.actor :=
  ⟨servedState_sound, rfl, (socket_ownership _).2 servedState_sound, aloneState_careful, rfl,
    (socket_ownership _).1 aloneState_careful⟩

def workerMixUp : List (ℕ × Act) :=
  [(0, .check), (0, .accept), (0, .command (.savePod true false true 1)), (0, .io true),
    (0, .io false), (1, .check), (1, .accept), (0, .finish), (0, .sendInvalid true), (0, .hangUp),
    (0, .close)]

def clientMixUp : List (ℕ × Act) :=
  [(0, .connect), (1, .connect), (0, .call (.getPodFromRemote 1)), (0, .io true), (0, .io false),
    (1, .call (.getPodFromRemote 1)), (1, .io true), (1, .io false), (1, .finish), (2, .connect),
    (1, .call .freePodInRemote), (1, .io true)]

def workerMixUpState : State := (run (init fourOpen) workerMixUp).getD (init fourOpen)

def clientMixUpState : State := (run (init fourOpen) clientMixUp).getD (init fourOpen)

/-- A worker answers on, reads from and closes the connection of another worker, and a
connection object sends its request on the connection of another one. -/
theorem foreign_descriptor_used : Reachable workerMixUpState ∧
    workerMixUpState.uses.take 3 =
      [⟨0, 4, some (.actor 1)⟩, ⟨0, 4, some (.actor 1)⟩, ⟨0, 4, some (.actor 1)⟩] ∧
    Reachable clientMixUpState ∧ clientMixUpState.uses.head? = some ⟨1, 7, some (.actor 2)⟩ :=
  ⟨reachable_run workerMixUp (.init fourOpen) rfl, rfl,
    reachable_run clientMixUp (.init fourOpen) rfl, rfl⟩

end State

end Remon.Sockets
