import Remon.Base

/-! # The pod store of a memory node

The handlers of one tenant, cut at their locks. A request waits at a worker until
its handler takes the lock of `tenantPods`; a payload is received and sent
outside the lock, piece by piece, from or to the `tenantPod` object the handler
holds a pointer to. The tenant asks about a key only after it has the complete
answer to its previous request about that key. Using a deleted object or a dead
iterator crashes the server.
-/

namespace Remon.Node
open Function

/-- What a worker is doing. `expected` is what the tenant may rely on to get. -/
inductive Worker where
  | idle
  | saveRequest (key : String) (payload : List UInt8)
  | receiving (key : String) (pod : ℕ) (payload : List UInt8) (got : ℕ)
  | getRequest (key : String) (isCache : Bool) (expected : Option (List UInt8))
  | sending (key : String) (pod : ℕ) (isCache : Bool) (expected : Option (List UInt8))
      (sent : List UInt8)
  | erasing (key : String) (pod : ℕ)
  | freeRequest (key : String)
  deriving DecidableEq, Repr

/-- A complete answer to a request for a pod; `none` is the error reply. -/
structure Answer where
  key : String
  expected : Option (List UInt8)
  reply : Option (List UInt8)
  deriving DecidableEq, Repr

structure Server where
  tenantPods : String → Option ℕ
  /-- The payloads of the `tenantPod` objects that are not deleted. -/
  payloads : ℕ → Option (List UInt8)
  nextPod : ℕ
  workers : ℕ → Worker
  /-- The tenant waits for an answer about the key. -/
  waiting : String → Bool
  /-- Payload of the last acknowledged save, until the tenant asks for it or frees it. -/
  saved : String → Option (List UInt8)
  answers : List Answer
  crashed : Bool

/-- Requests of the tenant and steps of the handlers. -/
inductive Act where
  | save (key : String) (payload : List UInt8)
  | get (key : String) (isCache : Bool)
  | free (key : String)
  | refuse
  | insert
  | receive (n : ℕ)
  | done
  | lookup
  | send (n : ℕ)
  | finish
  | erase
  | release
  | fail
  deriving DecidableEq, Repr

def filled (payload : List UInt8) (got : ℕ) : List UInt8 :=
  payload.take got ++ List.replicate (payload.length - got) 0

namespace Server

def empty : Server where
  tenantPods _ := none
  payloads _ := none
  nextPod := 0
  workers _ := .idle
  waiting _ := false
  saved _ := none
  answers := []
  crashed := false

variable (s : Server) (w : ℕ)

def setWorker (x : Worker) : Server := { s with workers := update s.workers w x }

def request (key : String) (x : Worker) : Server :=
  { s.setWorker w x with waiting := update s.waiting key true }

/-- The handler of worker `w` has sent its whole answer and goes on with `x`. -/
def reply (key : String) (x : Worker) : Server :=
  { s.setWorker w x with waiting := update s.waiting key false }

def crash : Server := { s with crashed := true }

/-- Delete the object `pod` and its entry under `key`. -/
def remove (key : String) (pod : ℕ) : Server :=
  { s with
    tenantPods := update s.tenantPods key none
    payloads := update s.payloads pod none }

/-- One step; `none` when it is not possible. The insertion does not replace an entry, and
the entry of a fetch is erased after its payload was sent. -/
def step : Act → Option Server
  | .save key payload =>
    if s.workers w = .idle ∧ s.waiting key = false then
      some (s.request w key (.saveRequest key payload))
    else none
  | .get key isCache =>
    if s.workers w = .idle ∧ s.waiting key = false then
      let s' := s.request w key (.getRequest key isCache (s.saved key))
      some { s' with saved := if isCache then s.saved else update s.saved key none }
    else none
  | .free key =>
    if s.workers w = .idle ∧ s.waiting key = false then
      some { s.request w key (.freeRequest key) with saved := update s.saved key none }
    else none
  | .refuse =>
    match s.workers w with
    | .saveRequest key _ => some (s.reply w key .idle)
    | _ => none
  | .insert =>
    match s.workers w with
    | .saveRequest key payload =>
      some { s.setWorker w (.receiving key s.nextPod payload 0) with
        payloads := update s.payloads s.nextPod (some (filled payload 0))
        nextPod := s.nextPod + 1
        tenantPods := if s.tenantPods key = none
          then update s.tenantPods key (some s.nextPod) else s.tenantPods }
    | _ => none
  | .receive n =>
    match s.workers w with
    | .receiving key pod payload got =>
      if 0 < n ∧ got + n ≤ payload.length then
        if s.payloads pod = none then some s.crash
        else some { s.setWorker w (.receiving key pod payload (got + n)) with
          payloads := update s.payloads pod (some (filled payload (got + n))) }
      else none
    | _ => none
  | .done =>
    match s.workers w with
    | .receiving key _ payload got =>
      if got = payload.length then
        some { s.reply w key .idle with saved := update s.saved key (some payload) }
      else none
    | _ => none
  | .lookup =>
    match s.workers w with
    | .getRequest key isCache expected =>
      match s.tenantPods key with
      | none => some { s.reply w key .idle with answers := ⟨key, expected, none⟩ :: s.answers }
      | some pod => some (s.setWorker w (.sending key pod isCache expected []))
    | _ => none
  | .send n =>
    match s.workers w with
    | .sending key pod isCache expected sent =>
      match s.payloads pod with
      | none => some s.crash
      | some bytes =>
        if 0 < n ∧ sent.length + n ≤ bytes.length then
          some (s.setWorker w
            (.sending key pod isCache expected (sent ++ (bytes.drop sent.length).take n)))
        else none
    | _ => none
  | .finish =>
    match s.workers w with
    | .sending key pod isCache expected sent =>
      match s.payloads pod with
      | none => some s.crash
      | some bytes =>
        if sent.length = bytes.length then
          some { s.reply w key (if isCache then .idle else .erasing key pod) with
            answers := ⟨key, expected, some sent⟩ :: s.answers }
        else none
    | _ => none
  | .erase =>
    match s.workers w with
    | .erasing key pod =>
      if s.tenantPods key = some pod ∧ s.payloads pod ≠ none then
        some ((s.remove key pod).setWorker w .idle)
      else some s.crash
    | _ => none
  | .release =>
    match s.workers w with
    | .freeRequest key =>
      match s.tenantPods key with
      | none => some (s.reply w key .idle)
      | some pod => some ((s.remove key pod).reply w key .idle)
    | _ => none
  | .fail =>
    match s.workers w with
    | .receiving .. => some (s.setWorker w .idle)
    | .sending .. => some (s.setWorker w .idle)
    | _ => none

/-- A sequence of steps, each by the worker it names. -/
def run (s : Server) : List (ℕ × Act) → Option Server
  | [] => some s
  | (w, a) :: l => (s.step w a).bind (fun s' => run s' l)

end Server

end Remon.Node
