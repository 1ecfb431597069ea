import Remon.Pod.Pod

/-! # The client side of the memory-node protocol

A connection is described by what the calls on its socket return: the text of
each reply, the outcome of each send of payload and, for a fetch, the bytes
that arrive and how the stream ends. Replies are read into a cleared buffer and
parsed as the source does, so a failed read is an empty text.
-/

namespace Remon
open Lib Heap

inductive RemoteFunction where
  | invalid
  | pidFdRegisterInit
  | pidFdRegisterInProgress
  | pidFdRegisterOK
  | getMaxPodsInit
  | getMaxPodsOK
  | savePodInit
  | savePodOK
  | savePodErr
  | savePodDONE
  | getPodInit
  | getPodOK
  | getPodReady
  | getPodErr
  | getPodDONE
  | freePodInit
  | freePodOk
  | contextInit
  | contextInitOk
  | contextRegister
  | contextRegisterOk
  | getPodCacheInit
  | getPodCacheOK
  | getPodCacheReady
  | getPodCacheErr
  | getPodCacheDONE
  deriving DecidableEq, Repr

def RemoteFunction.code (f : RemoteFunction) : ℤ := f.ctorIdx

abbrev remonBufferSize : ℕ := 1024

abbrev ioRate : ℕ := 40960000

/-! ## Replies -/

def isSpace (c : UInt8) : Bool := c = 32 || (9 ≤ c && c ≤ 13)

def isDigit (c : UInt8) : Bool := 48 ≤ c && c ≤ 57

def tokenizeString (s : List UInt8) : List (List UInt8) :=
  (s.splitOnP isSpace).filter (fun t => !t.isEmpty)

def replyText (reply : Option (List UInt8)) : List UInt8 :=
  ((reply.getD []).take remonBufferSize).takeWhile (· ≠ 0)

def signOf : List UInt8 → Bool × List UInt8
  | 45 :: s => (true, s)
  | 43 :: s => (false, s)
  | s => (false, s)

/-- The number that a text starts with. An exception is thrown when there is no digit
or the number does not fit in an `int`. -/
def stoi (s : List UInt8) : Except Fault ℤ :=
  let (neg, s) := signOf (s.dropWhile isSpace)
  let digits := s.takeWhile isDigit
  let n : ℤ := digits.foldl (fun acc d => acc * 10 + (d.toNat - 48 : ℤ)) 0
  let v := if neg then -n else n
  if digits.isEmpty then .error .uncaught
  else if v < -2 ^ 31 ∨ 2 ^ 31 ≤ v then .error .uncaught
  else .ok v

/-! ## Saving a pod -/

/-- What the socket and the peer do during one save: the two replies and the outcome of
each send, which is the number of bytes taken or a failure. -/
structure SaveScript where
  firstReply : Option (List UInt8)
  sends : ℕ → Option ℕ
  secondReply : Option (List UInt8)

/-- Send `left` bytes, starting with the `k`-th call; whether all went out and how many did. -/
def sendPayload (sends : ℕ → Option ℕ) : ℕ → ℕ → ℕ → Bool × ℕ
  | 0, _, left => (left = 0, 0)
  | fuel + 1, k, left =>
    if left = 0 then (true, 0)
    else match sends k with
      | none => (false, 0)
      | some n =>
        let sentBytes := max 1 (min n (min left ioRate))
        let (ok, sent) := sendPayload sends fuel (k + 1) (left - sentBytes)
        (ok, sentBytes + sent)

namespace Pod

variable (L : Layout)

/-- Also gives the number of payload bytes handed to the socket. -/
def highSpeedSendPod (p : Pod) (c : SaveScript) (tailOffset : ℕ) : Except Fault (Bool × Pod × ℕ) :=
  let (ok, sent) := sendPayload c.sends tailOffset 0 tailOffset
  if !ok then .ok (false, p, sent)
  else
    let p := if tailOffset ≠ L.payloadSize then
        { p with debugTail := .owned (p.mem.bytes (L.payloadStart + tailOffset) dsize ++
          p.mem.bytes (L.payloadEnd - dsize) dsize) }
      else p
    let p := { p with sentOffset := tailOffset }
    match tokenizeString (replyText c.secondReply) with
    | [reply] => do
      let code ← stoi reply
      if code = RemoteFunction.savePodErr.code then return (false, p, sent)
      if code = RemoteFunction.savePodDONE.code then return (true, p, sent)
      return (true, p, sent)
    | _ => .ok (false, p, sent)

/-- The first reply decides; only an explicit error makes the save fail there. -/
def savePodToRemote (p : Pod) (c : SaveScript) : Except Fault (Bool × Pod × ℕ) :=
  let tailOffset := p.getTailOffset L
  match tokenizeString (replyText c.firstReply) with
  | [reply] => do
    let code ← stoi reply
    if code = RemoteFunction.savePodOK.code then
      let (ok, p, sent) ←
        ({ p with state := .remote, prot := .read }).highSpeedSendPod L c tailOffset
      if !ok then return (false, { p with prot := .readWrite }, sent)
      return (true, { p with prot := .none }, sent)
    if code = RemoteFunction.savePodErr.code then return (false, p, 0)
    return (true, p, 0)
  | _ => .ok (false, p, 0)

def localToRemote (p : Pod) (client : ℕ) : Pod :=
  { p.releaseMemory L with state := .remote, landlordClient := some client }

/-- Save through the connection bundle `client`; the memory is released on success. -/
def bundleSavePodToRemote (p : Pod) (client : ℕ) (c : SaveScript) :
    Except Fault (Bool × Pod × ℕ) := do
  let (ok, p, sent) ← p.savePodToRemote L c
  if ok then return (true, p.localToRemote L client, sent)
  return (false, p, sent)

end Pod

/-! ## Fetching a pod -/

/-- How a stream goes on after its last byte. -/
inductive StreamEnd where
  | stalled
  | broken
  deriving DecidableEq, Repr

/-- The bytes that arrive after a request, the size of each piece and the end. -/
structure Delivery where
  bytes : List UInt8
  pieces : ℕ → ℕ
  ending : StreamEnd

/-- Receive `left` bytes to the addresses from `curr` on; `false` when the read fails. -/
def recvPayload (d : Delivery) : ℕ → ℕ → ℕ → ℕ → List UInt8 → Mem → Except Fault (Bool × Mem)
  | 0, _, _, left, _, m => .ok (left = 0, m)
  | fuel + 1, k, curr, left, stream, m =>
    if left = 0 then .ok (true, m)
    else if stream.isEmpty then
      match d.ending with
      | .stalled => .error .blocked
      | .broken => .ok (false, m)
    else
      let readSize := max 1 (min (d.pieces k) (min (min left ioRate) stream.length))
      recvPayload d fuel (k + 1) (curr + readSize) (left - readSize) (stream.drop readSize)
        (m.blit curr (stream.take readSize))

namespace Pod

variable (L : Layout)

/-- A failed read returns like a complete transfer does, with nothing said to the caller. -/
def getPodFromRemote (p : Pod) (d : Delivery) (isCache : Bool) : Except Fault Pod := do
  let (complete, m) ← recvPayload d p.sentOffset 0 L.payloadStart p.sentOffset d.bytes p.mem
  if !complete then return p.setMem m
  if p.sentOffset ≠ L.payloadSize then
    match p.debugTail with
    | .owned tail =>
      let m := m.blit (L.payloadStart + p.sentOffset) (tail.take dsize)
      let m := m.blit (L.payloadEnd - dsize) ((tail.drop dsize).take dsize)
      return { p.setMem m with debugTail := if isCache then p.debugTail else .deleted }
    | _ => throw .undefined
  return p.setMem m

def deleteTail (p : Pod) : Except Fault Pod :=
  match p.debugTail with
  | .null => .ok p
  | .owned _ => .ok { p with debugTail := .deleted }
  | .deleted => .error .undefined

def freePodInRemote (p : Pod) (reply : Option (List UInt8)) : Except Fault Pod := do
  let p ← p.deleteTail
  match tokenizeString (replyText reply) with
  | [reply] =>
    let _ ← stoi reply
    return p
  | _ => return p

/-- The pod right before the buffered frees are handed to its allocator. -/
def fetchPod (p : Pod) (d : Delivery) : Except Fault Pod :=
  match p.landlordClient with
  | none => .error .undefined
  | some _ => do
    let p ← p.getPodFromRemote L d false
    return { p with landlordClient := none, prot := .readWrite }

def remoteToLocalPinned (p : Pod) (d : Delivery) : Except Fault Pod := do
  let p ← p.fetchPod L d
  let p ← p.flushFreeBuffer L
  return { p with state := .localPinned }

def remoteToRemoteCache (p : Pod) (d : Delivery) : Except Fault Pod :=
  match p.landlordClient with
  | none => .error .undefined
  | some _ => do
    let p ← p.getPodFromRemote L d true
    return { p with state := .remoteCache }

def remoteCacheToLocalPinned (p : Pod) (reply : Option (List UInt8)) : Except Fault Pod :=
  match p.landlordClient with
  | none => .error .undefined
  | some _ => do
    let p ← p.freePodInRemote reply
    let p ← ({ p with landlordClient := none, prot := .readWrite }).flushFreeBuffer L
    return { p with state := .localPinned }

def remoteCacheToRemote (p : Pod) : Pod := { p.releaseMemory L with state := .remote }

def remoteToInit (p : Pod) (reply : Option (List UInt8)) : Except Fault Pod :=
  match p.landlordClient with
  | none => .error .undefined
  | some _ => do
    let p ← p.freePodInRemote reply
    let p := ({ p with state := .init }).releaseMemory L
    return { p with landlordClient := none, heap := { p.heap with inited := false } }

end Pod

end Remon
