import Remon.Heap.SwapImage

/-! # Pods and the disk side of their life cycle

A pod is one page of managed memory with the allocator of that page, the list
of buffered frees and the record of where the page lives. Its bytes belong to a
memory file whose truncation clears them; the mapping of the page has its own
protection. A file of the swap directory is its list of bytes. Reading past the
end of a file leaves the destination as it is.
-/

namespace Remon
open Function Lib Heap

inductive PodState where
  | init
  | local_
  | localPinned
  | disk
  | remote
  | diskCache
  | remoteCache
  deriving DecidableEq, Repr

/-- Protection of the mapping of a page. -/
inductive Prot where
  | none
  | read
  | readWrite
  deriving DecidableEq, Repr

/-- The buffer behind `debugTail`: none yet, owned by the pod, or already deleted. -/
inductive TailBuffer where
  | null
  | owned (bytes : List UInt8)
  | deleted
  deriving DecidableEq, Repr

structure Pod where
  state : PodState
  index : ℕ
  heap : Heap.State
  prot : Prot
  swapPath : String
  landlordClient : Option ℕ
  sentOffset : ℕ
  debugTail : TailBuffer
  freeBuffer : List ℕ
  isFlushing : Bool
  rank : ℕ
  oldRank : ℕ

abbrev Files := String → Option (List UInt8)

namespace Pod

variable (L : PageSpan)

abbrev mem (p : Pod) : Mem := p.heap.mem

def setMem (p : Pod) (m : Mem) : Pod := { p with heap := { p.heap with mem := m } }

def releaseMemory (p : Pod) : Pod := p.setMem (p.mem.zero L.payloadStart L.payloadSize)

def isForSmallAllocations (p : Pod) : Bool := p.heap.inited

def getTailOffset (p : Pod) : ℕ :=
  if p.isForSmallAllocations then getTailFreeBlock L p.mem else L.payloadSize

def isEmpty (p : Pod) : Bool := p.isForSmallAllocations && Heap.isEmpty L p.mem

def podMalloc (p : Pod) (requestedSize : ℕ) : Except Fault (ℕ × Pod) :=
  if p.state ≠ .local_ then .ok (0, p)
  else do
    let (ptr, heap) ← Heap.malloc L p.heap requestedSize
    return (ptr, { p with heap := heap })

def podFreeNoLock (p : Pod) (addr : ℕ) : Except Fault Pod := do
  let heap ← Heap.free L p.heap addr
  return { p with heap := heap }

def maxAllocatableSize (p : Pod) : Except Fault (ℕ × Pod) := do
  let (size, heap) ← Heap.maxAllocatableSize L p.heap
  return (size, { p with heap := heap })

def updateRank (p : Pod) : Except Fault (Bool × Pod) := do
  let (rank, p) ← p.maxAllocatableSize L
  return (decide (rank ≠ p.oldRank), { p with rank := rank, oldRank := rank })

def heapInit (p : Pod) : Except Fault Pod := do
  let heap ← Heap.heapInit L p.heap
  return { p with heap := heap }

def heapInitForce (p : Pod) : Except Fault Pod :=
  { p with heap := { p.heap with inited := false } }.heapInit L

/-- Hand the buffered frees to the allocator, oldest first. -/
def flushFreeBuffer (p : Pod) : Except Fault Pod :=
  if p.isFlushing then .ok p
  else if p.freeBuffer.isEmpty then .ok p
  else do
    let p ← p.freeBuffer.foldlM (podFreeNoLock L) p
    return { p with freeBuffer := [] }

/-! ## Transitions -/

def initToLocal (p : Pod) : Pod := { p with state := .local_, prot := .readWrite }

def initToLocalPinned (p : Pod) : Pod := { p with state := .localPinned, prot := .readWrite }

def localToInit (p : Pod) : Pod :=
  let p := ({ p with state := .init }).releaseMemory L
  { p with swapPath := "", heap := { p.heap with inited := false } }

def localToLocalPinned (p : Pod) : Pod :=
  if p.state = .local_ then { p with state := .localPinned } else p

def localPinnedToLocal (p : Pod) : Pod :=
  if p.state = .localPinned then { p with state := .local_ } else p

def dropMemoryStayLocal (p : Pod) (isHuge : Bool) : Except Fault Pod :=
  let p := p.releaseMemory L
  if isHuge then .ok p else p.heapInitForce L

/-- A state other than local is logged and otherwise ignored. -/
def localToDisk (files : Files) (p : Pod) (path : String) : Files × Pod :=
  let tailOffset := p.getTailOffset L
  let files := update files path (some (swapImage L p.mem tailOffset))
  let p := { p with state := .disk, sentOffset := tailOffset, prot := .none }
  (files, { p.releaseMemory L with swapPath := path })

def diskToLocalPinned (files : Files) (p : Pod) : Except Fault (Files × Pod) :=
  match files p.swapPath with
  | none => .error (.exit 1)
  | some file => do
    let p := p.setMem (restore L p.mem p.sentOffset file)
    let files := update files p.swapPath none
    let p ← ({ p with swapPath := "", prot := .readWrite }).flushFreeBuffer L
    return (files, { p with state := .localPinned })

def diskToInit (files : Files) (p : Pod) : Files × Pod :=
  let files := update files p.swapPath none
  let p := ({ p with state := .init }).releaseMemory L
  (files, { p with swapPath := "", heap := { p.heap with inited := false } })

def diskToDiskCache (files : Files) (p : Pod) : Except Fault Pod :=
  match files p.swapPath with
  | none => .error (.exit 1)
  | some file =>
    .ok { p.setMem (restore L p.mem p.sentOffset file) with state := .diskCache }

def diskCacheToLocalPinned (files : Files) (p : Pod) : Except Fault (Files × Pod) := do
  let files := update files p.swapPath none
  let p ← ({ p with swapPath := "", prot := .readWrite }).flushFreeBuffer L
  return (files, { p with state := .localPinned })

def diskCacheToDisk (p : Pod) : Pod := { p.releaseMemory L with state := .disk }

end Pod

end Remon
