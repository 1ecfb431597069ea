import Remon.Lib.Buckets
import Remon.Pod.Pod

/-! # Lists of pods for small allocations

A segregated page list keeps the pods of one thread and one size class. `rankMap` files them
under the size of their largest free block, largest first; the pod that served the last
request is tried before the map is looked at, and its rank is brought up to date only when it
fails. A set is a list without repetitions. What a call cannot decide itself is an argument:
the order in which sets are walked, which pods can be locked, and how often the lock of the
last pod was found taken. An access to a page that is not mapped for it traps.
-/

namespace Remon
open Lib Heap

def maxFreeBuffSize : ℕ := 1024

/-- The errors that a list reports without stopping. -/
inductive SplReport where
  | noEntryForOldRank (i oldRank newRank : ℕ)
  deriving DecidableEq, Repr

structure SegregatedPageList where
  rankMap : OrdMap (List ℕ)
  localFreeBuffer : List ℕ
  lastAllocatedPod : Option ℕ
  reports : List SplReport

def SegregatedPageList.new : SegregatedPageList := ⟨.empty, [], none, []⟩

/-- The outcomes that depend on the surroundings of a call. -/
structure Choice where
  arrange : List ℕ → List ℕ
  perm : ∀ l, (arrange l).Perm l
  tryLock : ℕ → Bool
  retries : ℕ

namespace Pod

variable (L : PageSpan)

def readsPage (p : Pod) : Bool := !p.heap.inited || decide (freeHead L p.mem ≠ 0)

def addToFreeBufferReturnIfFull (p : Pod) (addr : ℕ) : Bool × Pod :=
  let p := { p with freeBuffer := p.freeBuffer ++ [addr] }
  (decide (p.freeBuffer.length ≥ maxFreeBuffSize), p)

end Pod

/-- One list, the pods, and for each pod the flushes of its free buffer so far: the protection
of the page and the pointers that went to the allocator. -/
structure SplState extends SegregatedPageList where
  pods : ℕ → Pod
  flushes : ℕ → List (Prot × List ℕ)

namespace SplState

variable (L : ℕ → PageSpan) (s : SplState)

def setPod (i : ℕ) (p : Pod) : SplState := { s with pods := Function.update s.pods i p }

def setMap (m : OrdMap (List ℕ)) : SplState := { s with rankMap := m }

def setLast (i : Option ℕ) : SplState := { s with lastAllocatedPod := i }

/-! ## Calls on one pod -/

def podMalloc (i size : ℕ) : Except Fault (ℕ × SplState) := do
  let (ptr, p) ← (s.pods i).podMalloc (L i) size
  return (ptr, s.setPod i p)

def updateRank (i : ℕ) : Except Fault (Bool × SplState) := do
  if (s.pods i).prot ≠ .readWrite ∧ (s.pods i).readsPage (L i) = true then throw .undefined
  let (updated, p) ← (s.pods i).updateRank (L i)
  return (updated, s.setPod i p)

def flushFreeBuffer (i : ℕ) : Except Fault SplState := do
  if (s.pods i).prot ≠ .readWrite ∧ (s.pods i).freeBuffer ≠ [] then throw .undefined
  let p ← (s.pods i).flushFreeBuffer (L i)
  return { s.setPod i p with
    flushes := Function.update s.flushes i
      (((s.pods i).prot, (s.pods i).freeBuffer) :: s.flushes i) }

/-! ## Buckets -/

/-- The key that `begin()` of the map gives. For an empty map that is the end node, where the
size of the map is read instead. -/
def beginKey : ℕ := s.rankMap.lastKey.getD 0

def refile (oldRank i : ℕ) : SplState :=
  let m := s.rankMap.unfile oldRank i
  s.setMap (if (s.pods i).state = .local_ then m.file (s.pods i).rank i else m)

def removePod (i : ℕ) : Except Fault (Bool × SplState) := do
  if s.lastAllocatedPod = some i then return (false, s)
  let (_, s) ← s.updateRank L i
  match s.rankMap.get (s.pods i).rank with
  | none => throw (.exit (-1))
  | some _ => return (true, s.setMap (s.rankMap.unfile (s.pods i).rank i))

def addPodFromSwappedState (i : ℕ) : Except Fault SplState := do
  let (_, s) ← s.updateRank L i
  return s.setMap (s.rankMap.file (s.pods i).rank i)

def benchSwappedPage (i : ℕ) : Except Fault (Bool × SplState) := s.removePod L i

def unbenchSwappedPage (i : ℕ) : Except Fault SplState := s.addPodFromSwappedState L i

def adjustPodList (i : ℕ) : Except Fault SplState := do
  let oldRank := (s.pods i).rank
  let (updated, s) ← s.updateRank L i
  if updated then
    match s.rankMap.get oldRank with
    | none =>
      return ({ s with
        reports := .noEntryForOldRank i oldRank (s.pods i).rank :: s.reports }).refile oldRank i
    | some _ => return s.refile oldRank i
  else return s

def flushOnePage (i : ℕ) : Except Fault SplState := do
  let oldRank := (s.pods i).rank
  let s ← s.flushFreeBuffer L i
  let (updated, s) ← s.updateRank L i
  if updated then
    match s.rankMap.get oldRank with
    | none => throw (.exit (-1))
    | some _ => return s.refile oldRank i
  else return s

/-! ## Allocation -/

/-- The request to the last pod, once its lock was taken after `retries` failures. -/
def tryAllocateWithPreviousPod (size retries : ℕ) : Except Fault (ℕ × SplState) :=
  match s.lastAllocatedPod with
  | none => .ok (0, s)
  | some i =>
    let s := if (s.pods i).state = .init then s.setPod i (s.pods i).initToLocal else s
    if (s.pods i).state ≠ .local_ then .ok (0, s)
    else do
      let (result, s) ← s.podMalloc L i size
      return (if retries > 100 then 0 else result, s)

/-- The pods of a bucket in turn; the first that has room serves the request and moves to the
bucket of its new rank. -/
def allocateOfAList (size key : ℕ) (tryLock : ℕ → Bool) :
    List ℕ → SplState → Except Fault (ℕ × SplState)
  | [], s => .ok (0, s)
  | i :: listOfPods, s =>
    if tryLock i then do
      let (ptr, s) ← s.podMalloc L i size
      if ptr ≠ 0 then
        let (updated, s) ← (s.setLast (some i)).updateRank L i
        if updated then
          return (ptr, s.setMap ((s.rankMap.file (s.pods i).rank i).unfile key i))
        else return (ptr, s)
      else allocateOfAList size key tryLock listOfPods s
    else allocateOfAList size key tryLock listOfPods s

def clearOne (tryLock : ℕ → Bool) (s : SplState) (i : ℕ) : Except Fault SplState :=
  if tryLock i = true ∧ (s.pods i).state = .local_ ∧ (s.pods i).freeBuffer ≠ [] then
    s.flushOnePage L i
  else .ok s

def clearLocalFreeBuffer (c : Choice) : Except Fault SplState := do
  let s ← (c.arrange s.localFreeBuffer).foldlM (clearOne L c.tryLock) s
  return { s with localFreeBuffer := s.localFreeBuffer.filter (fun i => !c.tryLock i) }

/-- The list gives up its last pod, which failed to serve a request. -/
def dismissLast : Except Fault SplState :=
  match s.lastAllocatedPod with
  | none => .ok s
  | some i => do
    let s ← s.adjustPodList L i
    return s.setLast none

/-- The request to the first bucket, if that has room. -/
def allocateFirst (size : ℕ) (c : Choice) : Except Fault (ℕ × SplState) :=
  if s.beginKey < size then .ok (0, s)
  else allocateOfAList L size s.beginKey c.tryLock
    (c.arrange ((s.rankMap.get s.beginKey).getD [])) s

/-- The null pointer is `0`. -/
def allocate (size : ℕ) (c : Choice) : Except Fault (ℕ × SplState) := do
  let (result, s) ← s.tryAllocateWithPreviousPod L size c.retries
  if result ≠ 0 then return (result, s)
  let s ← s.dismissLast L
  if s.beginKey < size then
    if s.localFreeBuffer.isEmpty then return (0, s)
    let s ← s.clearLocalFreeBuffer L c
    s.allocateFirst L size c
  else s.allocateFirst L size c

def addPodAndAllocate (newPod size : ℕ) : Except Fault (ℕ × SplState) := do
  let p ← (s.pods newPod).heapInit (L newPod)
  let (allocatedPtr, s) ← (s.setPod newPod p).podMalloc L newPod size
  let (_, s) ← s.updateRank L newPod
  return (allocatedPtr, (s.setMap (s.rankMap.file (s.pods newPod).rank newPod)).setLast
    (some newPod))

/-! ## Release -/

/-- Whether the caller has to bring the page into memory. -/
def free (i addr : ℕ) : Except Fault (Bool × SplState) :=
  let (full, p) := (s.pods i).addToFreeBufferReturnIfFull addr
  let s := s.setPod i p
  if p.state = .disk ∨ p.state = .remote then .ok (full, s)
  else if full then do
    let s ← s.flushOnePage L i
    return (false, s)
  else .ok (false, { s with localFreeBuffer := s.localFreeBuffer.insert i })

/-! ## Trimming -/

def members (c : Choice) : List ℕ :=
  (List.range s.rankMap.bound).reverse.flatMap (fun k => c.arrange ((s.rankMap.get k).getD []))

/-- Whether the memory of pod `i` can be dropped. -/
def trimmable (tryLock : ℕ → Bool) (i : ℕ) : Bool :=
  tryLock i && decide ((s.pods i).state = .local_) && (s.pods i).isEmpty (L i)

def trimOne (tryLock : ℕ → Bool) (s : SplState) (i : ℕ) : Except Fault SplState :=
  if s.trimmable L tryLock i then do
    let p ← (s.pods i).dropMemoryStayLocal (L i) false
    return s.setPod i p
  else .ok s

def trim (c : Choice) (tryLock : ℕ → Bool) : Except Fault SplState :=
  ((s.members c).filter (s.trimmable L c.tryLock)).foldlM (trimOne L tryLock) s

end SplState

end Remon
