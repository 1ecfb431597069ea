import Remon.Remote.Wire

/-! # Requests and replies on a byte stream

A client issues requests on one connection and the server answers them. Both sides send
whole messages, but what a `recv` returns is any non-empty part of the bytes under way,
from their beginning and up to the size asked for. The server reads a command with one
`recv` and takes what it got for the whole command; so does the client with a reply. A
payload is read with as many calls as it takes. Some commands are sent in a buffer of
fixed size that is filled up with zeros and others are not.
-/

namespace Remon.Framing
open Function

def number (f : RemoteFunction) : ℕ := f.ctorIdx

inductive Request where
  | savePod (i : ℕ) (payload : List UInt8)
  | getPod (isCache : Bool) (i : ℕ)
  | freePod (i : ℕ)
  | contextInit
  | contextRegister (key : ℕ)
  deriving DecidableEq, Repr

/-- What `functionHandler` calls: the handler and the words it gets. -/
structure Dispatch where
  function : RemoteFunction
  args : List (List UInt8)
  deriving DecidableEq, Repr

namespace Request

def function : Request → RemoteFunction
  | .savePod .. => .savePodInit
  | .getPod isCache _ => if isCache then .getPodCacheInit else .getPodInit
  | .freePod _ => .freePodInit
  | .contextInit => .contextInit
  | .contextRegister _ => .contextRegister

def numbers : Request → List ℕ
  | .savePod i payload => [i, payload.length]
  | .getPod _ i => [i]
  | .freePod i => [i]
  | .contextInit => []
  | .contextRegister key => [key]

def dispatch (r : Request) : Dispatch :=
  ⟨r.function, decimal (number r.function) :: r.numbers.map decimal⟩

def text (r : Request) : List UInt8 := words r.dispatch.args

/-- A save and a free are sent in the whole buffer, the others as they are. -/
def wire (r : Request) : List UInt8 :=
  match r with
  | .savePod .. => padded remonBufferSize r.text
  | .freePod _ => padded remonBufferSize r.text
  | _ => r.text

/-- Indices and sizes are `size_t`, a key is an `int`, and a payload is not empty. -/
def Fits : Request → Prop
  | .savePod i payload => i < 2 ^ 64 ∧ 0 < payload.length ∧ payload.length < 2 ^ 63
  | .getPod _ i => i < 2 ^ 64
  | .freePod i => i < 2 ^ 64
  | .contextInit => True
  | .contextRegister key => key < 2 ^ 31

end Request

/-! ## The two sides -/

inductive Client where
  | idle
  /-- a save was requested -/
  | awaitOk (i : ℕ) (payload : List UInt8)
  /-- the payload was sent -/
  | awaitDone (i : ℕ)
  | fetching (isCache : Bool) (i left : ℕ) (got : List UInt8)
  | awaitFree (i : ℕ)
  | awaitKey
  | awaitRegister
  deriving DecidableEq, Repr

inductive Server where
  | command
  | receiving (key : List UInt8) (size : ℕ) (got : List UInt8)
  deriving DecidableEq, Repr

/-- What the server does not get from the connection. -/
structure Env where
  ramFull : Bool
  tid : Fin (2 ^ 31)
  maxRamInGB : ℕ
  deriving DecidableEq, Repr

/-- The connection, both sides of it and what each has seen. -/
structure Link where
  toServer : List UInt8
  toClient : List UInt8
  client : Client
  server : Server
  /-- The pods that the client left with the server, and their sizes. -/
  remote : ℕ → Bool
  sentOffset : ℕ → ℕ
  store : List UInt8 → Option (List UInt8)
  issued : List Request
  dispatched : List Dispatch
  shipped : List (List UInt8 × List UInt8)
  saved : List (List UInt8 × List UInt8)
  served : List (List UInt8)
  fetched : List (List UInt8)
  replies : List ℤ
  parsed : List ℤ
  fault : Option Fault

namespace Link

def init : Link where
  toServer := []
  toClient := []
  client := .idle
  server := .command
  remote _ := false
  sentOffset _ := 0
  store _ := none
  issued := []
  dispatched := []
  shipped := []
  saved := []
  served := []
  fetched := []
  replies := []
  parsed := []
  fault := none

variable (s : Link)

def fail (e : Fault) : Link := { s with fault := some e }

/-- Send a function number and further numbers to the client. -/
def reply (f : RemoteFunction) (rest : List ℕ) : Link :=
  { s with
    toClient := s.toClient ++ words (decimal (number f) :: rest.map decimal)
    replies := s.replies ++ [f.code] }

def CanRecv (bytes : List UInt8) (limit n : ℕ) : Prop := 1 ≤ n ∧ n ≤ limit ∧ n ≤ bytes.length

instance (bytes : List UInt8) (limit n : ℕ) : Decidable (CanRecv bytes limit n) :=
  inferInstanceAs (Decidable (_ ∧ _ ∧ _))

theorem not_canRecv_nil (limit n : ℕ) : ¬ CanRecv [] limit n := by
  rintro ⟨h1, -, h2⟩
  rw [List.length_nil] at h2
  omega

/-! ### The server -/

inductive Outcome where
  /-- the handler returned -1 -/
  | invalid
  | unhandled
  | run (d : Dispatch)
  deriving DecidableEq, Repr

def handled : List RemoteFunction :=
  [.getMaxPodsInit, .savePodInit, .getPodInit, .getPodCacheInit, .freePodInit, .contextInit,
    .contextRegister]

def functionHandler (str : List UInt8) : Except Fault Outcome :=
  if str = [] then .ok .invalid
  else match tokenizeString str with
    | [] => .error .undefined
    | w :: ws => do
      let switchType ← stoi w
      match handled.find? (fun f => f.code = switchType) with
      | some f => return .run ⟨f, w :: ws⟩
      | none => return .unhandled

def savePodHandler (args : List (List UInt8)) (env : Env) : Link :=
  if env.ramFull then s.reply .savePodErr []
  else match args with
    | [_, key, size] =>
      match stol size with
      | .error e => s.fail e
      | .ok flexPageSize =>
        { s.reply .savePodOK [] with server := .receiving key flexPageSize.toNat [] }
    | _ => s.reply .invalid []

/-- The entry is erased when its payload was sent, unless it is only cached. -/
def getPodHandler (args : List (List UInt8)) (isCache : Bool) : Link :=
  match args[1]? with
  | none => s.fail .undefined
  | some key =>
    match s.store key with
    | none => s.reply (if isCache then .getPodCacheErr else .getPodErr) []
    | some bytes =>
      { s with
        toClient := s.toClient ++ bytes
        served := s.served ++ [bytes]
        store := if isCache then s.store else update s.store key none }

def freePodHandler (args : List (List UInt8)) : Link :=
  match args[1]? with
  | none => s.fail .undefined
  | some key => { s with store := update s.store key none }.reply .freePodOk []

def contextInitHandler (args : List (List UInt8)) (env : Env) : Link :=
  if args.length ≠ 1 then s.reply .invalid [] else s.reply .contextInitOk [env.tid.val]

def contextRegisterHandler (args : List (List UInt8)) : Link :=
  match args with
  | [_, key] =>
    match stoi key with
    | .error e => s.fail e
    | .ok _ => s.reply .contextRegisterOk []
  | _ => s.reply .invalid []

def serve (d : Dispatch) (env : Env) : Link :=
  let s := { s with dispatched := s.dispatched ++ [d] }
  match d.function with
  | .getMaxPodsInit => s.reply .getMaxPodsOK [env.maxRamInGB]
  | .savePodInit => s.savePodHandler d.args env
  | .getPodInit => s.getPodHandler d.args false
  | .getPodCacheInit => s.getPodHandler d.args true
  | .freePodInit => s.freePodHandler d.args
  | .contextInit => s.contextInitHandler d.args env
  | .contextRegister => s.contextRegisterHandler d.args
  | _ => s

/-- The worker loop reads a command and calls its handler. -/
def recvCommand (n : ℕ) (env : Env) : Option Link :=
  match s.server with
  | .command =>
    if CanRecv s.toServer remonBufferSize n then
      let str := cString (s.toServer.take n)
      let s := { s with toServer := s.toServer.drop n }
      match functionHandler str with
      | .error e => some (s.fail e)
      | .ok .invalid => some (s.reply .invalid [])
      | .ok .unhandled => some s
      | .ok (.run d) => some (s.serve d env)
    else none
  | _ => none

def recvPayload (n : ℕ) : Option Link :=
  match s.server with
  | .receiving key size got =>
    if CanRecv s.toServer (min (size - got.length) ioRate) n then
      some { s with
        toServer := s.toServer.drop n
        server := .receiving key size (got ++ s.toServer.take n) }
    else none
  | _ => none

/-- The whole payload is there. The insertion did not replace an entry. -/
def finishSave : Option Link :=
  match s.server with
  | .receiving key size got =>
    if got.length = size then
      some ({ s with
        server := .command
        saved := s.saved ++ [(key, got)]
        store := if s.store key = none then update s.store key (some got)
          else s.store }.reply .savePodDONE [])
    else none
  | _ => none

/-! ### The client -/

def phaseOf : Request → Client
  | .savePod i payload => .awaitOk i payload
  | .getPod isCache i =>
    if s.sentOffset i = 0 then .idle else .fetching isCache i (s.sentOffset i) []
  | .freePod i => .awaitFree i
  | .contextInit => .awaitKey
  | .contextRegister _ => .awaitRegister

def Issuable : Request → Prop
  | .savePod i _ => s.remote i = false
  | .getPod _ i => s.remote i = true
  | _ => True

def issue (r : Request) : Link :=
  { s with
    toServer := s.toServer ++ r.wire
    issued := s.issued ++ [r]
    client := s.phaseOf r }

def setRemote (i : ℕ) (b : Bool) : Link := { s with remote := update s.remote i b }

def toIdle : Link := { s with client := .idle }

def parse (code : ℤ) : Link := { s with parsed := s.parsed ++ [code] }

/-- The reply to a save request; only an explicit error makes the save fail here. -/
def savePodToRemote (i : ℕ) (payload : List UInt8) (code : ℤ) : Link :=
  if code = RemoteFunction.savePodOK.code then
    { s with
      toServer := s.toServer ++ payload
      shipped := s.shipped ++ [(decimal i, payload)]
      sentOffset := update s.sentOffset i payload.length
      client := .awaitDone i }
  else if code = RemoteFunction.savePodErr.code then s.toIdle
  else (s.setRemote i true).toIdle

def highSpeedSendPod (i : ℕ) (code : ℤ) : Link :=
  if code = RemoteFunction.savePodErr.code then s.toIdle else (s.setRemote i true).toIdle

def gotReply (code : ℤ) : Link :=
  match s.client with
  | .awaitOk i payload => (s.parse code).savePodToRemote i payload code
  | .awaitDone i => (s.parse code).highSpeedSendPod i code
  | .awaitFree i => ((s.parse code).setRemote i false).toIdle
  | _ => (s.parse code).toIdle

def badReply : Link :=
  match s.client with
  | .awaitFree i => (s.setRemote i false).toIdle
  | _ => s.toIdle

def replyWords : Client → Option ℕ
  | .awaitOk .. => some 1
  | .awaitDone _ => some 1
  | .awaitFree _ => some 1
  | .awaitKey => some 2
  | .awaitRegister => some 1
  | _ => none

def readReply (n : ℕ) : Option Link :=
  match replyWords s.client with
  | some k =>
    if CanRecv s.toClient remonBufferSize n then
      let s' := { s with toClient := s.toClient.drop n }
      match tokenizeString (cString (s.toClient.take n)) with
      | [] => some s'.badReply
      | w :: ws =>
        if ws.length + 1 = k then
          match stoi w with
          | .error e => some (s'.fail e)
          | .ok code => some (s'.gotReply code)
        else some s'.badReply
    else none
  | none => none

def readPayload (n : ℕ) : Option Link :=
  match s.client with
  | .fetching isCache i left got =>
    if CanRecv s.toClient (min left ioRate) n then
      let got := got ++ s.toClient.take n
      let s := { s with toClient := s.toClient.drop n }
      if left = n then
        some { s with
          client := .idle
          fetched := s.fetched ++ [got]
          remote := if isCache then s.remote else update s.remote i false }
      else some { s with client := .fetching isCache i (left - n) got }
    else none
  | _ => none

/-! ### Runs -/

inductive Act where
  | recvCommand (n : ℕ) (env : Env)
  | recvPayload (n : ℕ)
  | finishSave
  | readReply (n : ℕ)
  | readPayload (n : ℕ)

def act : Act → Option Link
  | .recvCommand n env => s.recvCommand n env
  | .recvPayload n => s.recvPayload n
  | .finishSave => s.finishSave
  | .readReply n => s.readReply n
  | .readPayload n => s.readPayload n

inductive Reachable : Link → Prop
  | init : Reachable init
  | issue {s : Link} (hs : Reachable s) (r : Request) (hc : s.client = .idle) (hf : r.Fits)
      (hr : s.Issuable r) : Reachable (s.issue r)
  | act {s s' : Link} (hs : Reachable s) (a : Act) (hf : s.fault = none)
      (run : s.act a = some s') : Reachable s'

/-- A `recv` for a command or a reply returns all that was sent. -/
def Whole : Act → Prop
  | .recvCommand n _ => n = s.toServer.length
  | .readReply n => n = s.toClient.length
  | _ => True

/-- The runs in which commands and replies are received whole; payloads come in any pieces. -/
inductive WholeRun : Link → Prop
  | init : WholeRun init
  | issue {s : Link} (hs : WholeRun s) (r : Request) (hc : s.client = .idle) (hf : r.Fits)
      (hr : s.Issuable r) : WholeRun (s.issue r)
  | act {s s' : Link} (hs : WholeRun s) (a : Act) (hw : s.Whole a) (hf : s.fault = none)
      (run : s.act a = some s') : WholeRun s'

end Link

end Remon.Framing
