import Mathlib.Data.Setoid.Basic
import Remon.Lib.LockProg
import Remon.Spl.SegregatedPageList

/-! # The entry points and the loops of the manager as operations on mutexes

The mutexes are those of the pods and `LRULock`; the data is what decides which of them is
taken: the states of the pods, their free buffers and the list of evictable pods. A question
to a heap, to a list of pods or to an arena may have any answer. The locks of the lists, the
arenas and the buffers only add waiting and are left out. What a detached thread does belongs
to the operation that started it. A round of a loop is an operation.
-/

namespace Remon.Vmm.Entry
open Function Lib

inductive Mutex where
  | pod (i : ℕ)
  | lru
  deriving DecidableEq

inductive Transition where
  | initToLocal
  | initToLocalPinned
  | localToInit
  | localToLocalPinned
  | localToDisk
  | localToRemote
  | localPinnedToLocal
  | diskToInit
  | diskToLocalPinned
  | diskToDiskCache
  | diskCacheToLocalPinned
  | diskCacheToDisk
  | remoteToInit
  | remoteToLocalPinned
  | remoteToRemoteCache
  | remoteCacheToLocalPinned
  | remoteCacheToRemote
  | dropMemoryStayLocal
  deriving DecidableEq

/-- The kinds of change. The calls of `activatePod` and `toInit` count as changes. -/
inductive Change where
  | transition (tr : Transition)
  | activatePod
  | toInit
  | freeBuffer
  | heap
  | lruList
  deriving DecidableEq

/-- Places of the code. -/
inductive Place where
  /-- `addToFreeBufferReturnIfFull` finds the buffer full. -/
  | bufferFull
  /-- `remonForceSwap` starts `asyncSwapOutPod`, after `removePodFromLRU` returned `ret`. -/
  | swapOut (ret : ℤ)
  /-- The loop of `remonPromoteRangeAsync` comes to a pod. -/
  | promoteRange
  /-- The loop of `remonForceUnmapAsync` comes to a pod. -/
  | forceUnmap
  /-- `removePodFromLRU` returns with `LRULock`. -/
  | invalidIter
  deriving DecidableEq

structure Data where
  state : ℕ → PodState
  freeBuffer : ℕ → List ℕ
  lruList : List ℕ
  lruIterIsValid : ℕ → Bool

def guards : Mutex → Setoid Data
  | .pod i => Setoid.ker fun d => (d.state i, d.freeBuffer i)
  | .lru => Setoid.ker fun d => (d.lruList, d.lruIterIsValid)

abbrev Op := LockProg Mutex Data Change Place

/-- The managed region. -/
structure Region where
  base : ℕ
  pageSize : ℕ

namespace Region

variable (R : Region)

def getResponsiblePod (addr : ℕ) : ℕ := (addr - R.base) / R.pageSize

def payload (i : ℕ) : ℕ := R.base + i * R.pageSize

def podsBetween (lo hi : ℕ) : List ℕ :=
  List.range' (R.getResponsiblePod lo) (R.getResponsiblePod hi + 1 - R.getResponsiblePod lo)

end Region

/-! ## Pods -/

def lock (i : ℕ) : Op Unit := .acquire (.pod i)

def tryLock (i : ℕ) : Op Bool := .attempt (.pod i)

def unlock (i : ℕ) : Op Unit := .release (.pod i)

/-- `body` under the mutex of pod `i`. -/
def locked {α : Type} (i : ℕ) (body : Op α) : Op α := do
  lock i
  let a ← body
  unlock i
  return a

/-- `body` under the mutex of pod `i`, if that is free. -/
def ifLocked (i : ℕ) (body : Op Unit) : Op Unit := do
  if ← tryLock i then
    body
    unlock i
  else
    return ()

def getState (i : ℕ) : Op PodState := .get (·.state i)

namespace Transition

/-- The state after the transition. -/
def target : Transition → PodState → PodState
  | initToLocal, _ => .local_
  | initToLocalPinned, _ => .localPinned
  | localToInit, _ => .init
  | localToLocalPinned, s => if s = .local_ then .localPinned else s
  | localToDisk, _ => .disk
  | localToRemote, _ => .remote
  | localPinnedToLocal, s => if s = .localPinned then .local_ else s
  | diskToInit, _ => .init
  | diskToLocalPinned, _ => .localPinned
  | diskToDiskCache, _ => .diskCache
  | diskCacheToLocalPinned, _ => .localPinned
  | diskCacheToDisk, _ => .disk
  | remoteToInit, _ => .init
  | remoteToLocalPinned, _ => .localPinned
  | remoteToRemoteCache, _ => .remoteCache
  | remoteCacheToLocalPinned, _ => .localPinned
  | remoteCacheToRemote, _ => .remote
  | dropMemoryStayLocal, s => s

/-- The transitions that bring a page in empty its free buffer. -/
def flushes : Transition → Bool
  | diskToLocalPinned | diskCacheToLocalPinned => true
  | remoteToLocalPinned | remoteCacheToLocalPinned => true
  | _ => false

def apply (tr : Transition) (i : ℕ) (d : Data) : Data :=
  { d with
    state := update d.state i (tr.target (d.state i))
    freeBuffer := update d.freeBuffer i (if tr.flushes then [] else d.freeBuffer i) }

end Transition

def transition (tr : Transition) (i : ℕ) : Op Unit :=
  .change (.pod i) (.transition tr) (tr.apply i)

/-- A question to the heap of pod `i` or to the lists it is in. -/
def ask (_ : ℕ) : Op Bool := .any Bool

def isForSmallAllocations (i : ℕ) : Op Bool := ask i

def isEmpty (i : ℕ) : Op Bool := ask i

def isFree (i : ℕ) : Op Bool := ask i

def benchSwappedPage (i : ℕ) : Op Bool := ask i

def editHeap (i : ℕ) : Op Unit := .change (.pod i) .heap id

def heapInit (i : ℕ) : Op Unit := editHeap i

/-- Whether a block was found. -/
def podMalloc (i : ℕ) : Op Bool := do
  if (← getState i) ≠ .local_ then
    return false
  else
    editHeap i
    ask i

def Data.setBuffer (i : ℕ) (f : List ℕ → List ℕ) (d : Data) : Data :=
  { d with freeBuffer := update d.freeBuffer i (f (d.freeBuffer i)) }

def flushFreeBuffer (i : ℕ) : Op Unit := do
  if (← .get (·.freeBuffer i)) = [] then
    return ()
  else
    .change (.pod i) .heap (Data.setBuffer i fun _ => [])

/-- A full buffer gives the mutex of the pod away. -/
def addToFreeBufferReturnIfFull (i addr : ℕ) : Op Bool := do
  .change (.pod i) .freeBuffer (Data.setBuffer i (· ++ [addr]))
  if (← .get (·.freeBuffer i)).length ≥ maxFreeBuffSize then
    .mark (.pod i) .bufferFull
    unlock i
    return true
  else
    return false

def toInit (i : ℕ) : Op Unit := do
  .change (.pod i) .toInit id
  match ← getState i with
  | .local_ => transition .localToInit i
  | .disk => transition .diskToInit i
  | .remote => transition .remoteToInit i
  | _ => return ()

/-! ## The list of evictable pods -/

namespace Data

variable (i : ℕ) (d : Data)

def others : List ℕ := if d.lruIterIsValid i then d.lruList.erase i else d.lruList

def toFront : Data :=
  { d with
    lruList := i :: d.others i
    lruIterIsValid := update d.lruIterIsValid i true }

def toBack : Data :=
  { d with
    lruList := d.others i ++ [i]
    lruIterIsValid := update d.lruIterIsValid i true }

def popBack : Data :=
  { d with
    lruList := d.lruList.dropLast
    lruIterIsValid := update d.lruIterIsValid i false }

def erase : Data :=
  { d with
    lruList := d.lruList.erase i
    lruIterIsValid := update d.lruIterIsValid i false }

end Data

def moveInLRUList (there : Data → Bool) (f : Data → Data) : Op ℤ := do
  .acquire .lru
  if ← .get there then
    .release .lru
    return 0
  else
    .change .lru .lruList f
    .release .lru
    return 1

def updateLRUList (i : ℕ) : Op ℤ :=
  moveInLRUList (fun d => d.lruList.head? == some i) (Data.toFront i)

def tailPodInLRUList (i : ℕ) : Op ℤ :=
  moveInLRUList (fun d => d.lruList.getLast? == some i) (Data.toBack i)

def getFromLRUList : Op (Option ℕ) := do
  .acquire .lru
  match ← .get (·.lruList.getLast?) with
  | none =>
    .release .lru
    return none
  | some result =>
    if ← tryLock result then
      .change .lru .lruList (Data.popBack result)
      .release .lru
      return some result
    else
      .release .lru
      return none

def removePodFromLRU (i : ℕ) : Op ℤ := do
  .acquire .lru
  if (← .get (·.lruList)) = [] then
    .release .lru
    return -1
  else if ← tryLock i then
    if (← .get (·.lruIterIsValid i)) = false then
      -- LRULock is not released here
      unlock i
      .mark .lru .invalidIter
      return -1
    else
      .change .lru .lruList (Data.erase i)
      .release .lru
      return 1
  else
    .release .lru
    return 0

/-! ## Bringing pages in -/

/-- The page is brought in from where it is. -/
def bringIn (i : ℕ) : Op Unit := do
  match ← getState i with
  | .local_ => pure ()
  | .localPinned => pure ()
  | .init => transition .initToLocal i
  | .disk =>
    transition .diskToLocalPinned i
    transition .localPinnedToLocal i
  | .diskCache =>
    transition .diskCacheToLocalPinned i
    transition .localPinnedToLocal i
  | .remoteCache =>
    transition .remoteCacheToLocalPinned i
    transition .localPinnedToLocal i
  | .remote =>
    transition .remoteToLocalPinned i
    transition .localPinnedToLocal i

def activatePod (i : ℕ) : Op Bool := do
  .change (.pod i) .activatePod id
  bringIn i
  let _ ← updateLRUList i
  return true

/-- The state is looked at before the mutex is taken. -/
def activateAddress (R : Region) (addr : ℕ) : Op Unit := do
  let i := R.getResponsiblePod addr
  if (← getState i) = .local_ then
    return ()
  else
    locked i do let _ ← activatePod i

def remonPromotePod (i : ℕ) : Op ℤ := do
  lock i
  let state ← getState i
  if state = .remote ∨ state = .disk then
    let _ ← activatePod i
    unlock i
    return 2
  else
    let ret ← updateLRUList i
    unlock i
    return ret

def remonPromote (R : Region) (addr : ℕ) : Op ℤ := remonPromotePod (R.getResponsiblePod addr)

/-- No mutex is taken. -/
def remonPromoteRange (R : Region) (lo hi : ℕ) : Op Unit :=
  if lo ≥ hi then return ()
  else (R.podsBetween lo hi).forM fun i => do
    .mark (.pod i) .promoteRange
    let _ ← activatePod i

def remonActivateSync (R : Region) (addr : ℕ) : Op ℤ := do
  let i := R.getResponsiblePod addr
  lock i
  let state ← getState i
  if state = .local_ ∨ state = .localPinned then
    let _ ← updateLRUList i
    unlock i
    return 0
  else
    let result ← activatePod i
    unlock i
    return if result then 1 else -1

def prefetchPod (i : ℕ) : Op Unit := do
  match ← getState i with
  | .disk =>
    transition .diskToDiskCache i
    let _ ← updateLRUList i
  | .remote =>
    transition .remoteToRemoteCache i
    let _ ← updateLRUList i
  | .init =>
    transition .initToLocal i
    let _ ← updateLRUList i
  | _ => return ()

/-- The pods of a known prefetch, or the next ones of a huge block; of those, the cached ones
are left out. -/
def prefetch (known : Bool) : Op Unit := do
  let taskCombo ← .any (List ℕ)
  taskCombo.forM fun i => do
    let state ← getState i
    if known = false ∧ (state = .diskCache ∨ state = .remoteCache) then
      return ()
    else
      ifLocked i (prefetchPod i)

/-! ## Sending pages away -/

/-- Whether a node has the page. -/
def remoteSwap (i : ℕ) : Op Bool := do
  if ← ask i then
    transition .localToRemote i
    return true
  else
    return false

def swapToDisk (i : ℕ) : Op Unit := transition .localToDisk i

def evictPod (i : ℕ) : Op Unit := do
  if (← getState i) ≠ .local_ then
    unlock i
  else if ← remoteSwap i then
    return ()
  else
    swapToDisk i

def sendAway (i : ℕ) : Op Unit := do
  match ← getState i with
  | .local_ =>
    if ← isForSmallAllocations i then
      let reallyRemovedFromSpl ← benchSwappedPage i
      flushFreeBuffer i
      if ← isEmpty i then
        transition .localToInit i
      else if reallyRemovedFromSpl then
        evictPod i
      else
        let _ ← activatePod i
    else if ← isFree i then
      transition .localToInit i
    else
      evictPod i
  | .diskCache => transition .diskCacheToDisk i
  | .remoteCache => transition .remoteCacheToRemote i
  | _ => return ()

def pickPodToEvict : Op Unit := do
  match ← getFromLRUList with
  | none => return ()
  | some i =>
    sendAway i
    unlock i

def swapOut (i : ℕ) : Op Unit := do
  if (← getState i) = .local_ then
    if ← isForSmallAllocations i then
      let _ ← benchSwappedPage i
      evictPod i
    else
      evictPod i
  else
    return ()

def asyncSwapOutPod (i : ℕ) : Op Unit := do
  swapOut i
  unlock i

/-- The result is tested for negativity only. -/
def remonForceSwap (R : Region) (addr : ℕ) : Op ℤ := do
  let i := R.getResponsiblePod addr
  let ret ← removePodFromLRU i
  if ret < 0 then
    return -1
  else
    .mark (.pod i) (.swapOut ret)
    asyncSwapOutPod i
    return 0

def remonDemote (R : Region) (addr : ℕ) : Op ℤ := do
  let i := R.getResponsiblePod addr
  lock i
  let state ← getState i
  if state = .remote ∨ state = .disk then
    unlock i
    return 0
  else
    let ret ← tailPodInLRUList i
    unlock i
    return ret

def remonDemoteRange (R : Region) (lo hi : ℕ) (exclude : Option ℕ) : Op Unit :=
  if lo ≥ hi then return ()
  else (R.podsBetween lo hi).forM fun i => do
    if exclude.map R.getResponsiblePod = some i then
      return ()
    else
      let _ ← remonDemote R (R.payload i)

/-- No mutex is taken. -/
def remonForceUnmap (R : Region) (lo hi : ℕ) (exclude : Option ℕ) : Op Unit :=
  if lo ≥ hi then return ()
  else (R.podsBetween lo hi).forM fun i => do
    if exclude.map R.getResponsiblePod = some i then
      return ()
    else
      .mark (.pod i) .forceUnmap
      toInit i

def remon_cleanup_evicted (R : Region) (addr : ℕ) : Op Unit := do
  let i := R.getResponsiblePod addr
  locked i do
    let state ← getState i
    if state ≠ .local_ ∧ state ≠ .init then
      toInit i

/-! ## Lists of small pods -/

def flushOnePage (i : ℕ) : Op Unit := flushFreeBuffer i

/-- Whether the caller has to bring the page in. -/
def free (i addr : ℕ) : Op Bool := do
  let state ← getState i
  let full ← addToFreeBufferReturnIfFull i addr
  if state = .disk ∨ state = .remote then
    return full
  else if full then
    flushOnePage i
    return false
  else
    return false

def spinning {α : Type} : Op α := do
  let e ← .any Empty
  e.elim

/-- `tries` more rounds of the loop, after `count` of them. -/
def previousPodLoop (i : ℕ) : (tries count : ℕ) → Op Bool
  | 0, _ => spinning
  | tries + 1, count => do
    if ← tryLock i then
      let state ← getState i
      if state ≠ .local_ ∧ state ≠ .init then
        unlock i
        return false
      else
        (if state = .init then transition .initToLocal i else pure ())
        let result ← podMalloc i
        unlock i
        return result && decide (count ≤ 100)
    else
      previousPodLoop i tries (count + 1)

/-- Whether the pod had a block. -/
def tryAllocateWithPreviousPod : Option ℕ → Op Bool
  | none => return false
  | some i => do
    let tries ← .any ℕ
    previousPodLoop i tries 0

def clearLocalFreeBuffer (localFreeBuffer : List ℕ) : Op Unit :=
  localFreeBuffer.forM fun i => ifLocked i do
    if (← getState i) = .local_ ∧ (← .get (·.freeBuffer i)).length > 0 then
      flushOnePage i

/-- The pod that had a block. -/
def allocateOfAList : List ℕ → Op (Option ℕ)
  | [] => return none
  | i :: rest => do
    if ← tryLock i then
      if ← podMalloc i then
        unlock i
        return some i
      else
        unlock i
        allocateOfAList rest
    else
      allocateOfAList rest

/-- The rank is read from the page without its mutex. A page that is away is brought in by the
handler of the fault. -/
def adjustPodList (R : Region) (i : ℕ) : Op Unit := do
  if ← ask i then
    activateAddress R (R.payload i)
  else
    return ()

def allocate (R : Region) : Op (Option ℕ) := do
  let lastAllocatedPod ← .any (Option ℕ)
  if ← tryAllocateWithPreviousPod lastAllocatedPod then
    return lastAllocatedPod
  else
    lastAllocatedPod.forM (adjustPodList R)
    let localFreeBuffer ← .any (List ℕ)
    clearLocalFreeBuffer localFreeBuffer
    let listOfPods ← .any (List ℕ)
    allocateOfAList listOfPods

def addPodAndAllocate (i : ℕ) : Op Bool := do
  heapInit i
  podMalloc i

/-- The locks are tried once to collect the pods and once to drop their memory. -/
def trim : Op Unit := do
  let pods ← .any (List ℕ)
  pods.forM fun i => ifLocked i do
    let _ ← getState i
    let _ ← isEmpty i
  let toRemove ← .any (List ℕ)
  toRemove.forM fun i => ifLocked i do
    if (← getState i) = .local_ ∧ (← isEmpty i) then
      transition .dropMemoryStayLocal i

/-! ## Runs of pages -/

/-- The pages of a block that is free. -/
def trimFreeBlock (pages : List ℕ) : Op Unit :=
  pages.forM fun i => ifLocked i do
    if (← getState i) = .local_ then
      transition .dropMemoryStayLocal i

/-- The mutexes are taken to set the flags of the pages. -/
def hugeFree (pages : List ℕ) : Op Unit :=
  pages.forM fun i => locked i (pure ())

def hugeMalloc : Op Unit := do
  let pages ← .any (List ℕ)
  pages.forM fun i => locked i do
    if (← getState i) ≠ .local_ then
      let _ ← activatePod i
      let _ ← updateLRUList i

/-! ## The buffer of pages -/

/-- The page is made ready for the buffer. -/
def pin (i : ℕ) : Op Unit := do
  match ← getState i with
  | .init => transition .initToLocalPinned i
  | .local_ => transition .localToLocalPinned i
  | .disk =>
    transition .diskToInit i
    transition .initToLocalPinned i
  | .remote =>
    transition .remoteToInit i
    transition .initToLocalPinned i
  | .diskCache => transition .diskCacheToLocalPinned i
  | .remoteCache => transition .remoteCacheToLocalPinned i
  | .localPinned => return ()

/-- The pages that the arenas hand out, up to one whose mutex is free. -/
def addPodToBuffer : List ℕ → Op Unit
  | [] => spinning
  | i :: rest => do
    if ← tryLock i then
      pin i
      unlock i
    else
      addPodToBuffer rest

/-- The pod stays locked. -/
def getBufferedPod : Op (Option ℕ) := do
  let i ← .any ℕ
  lock i
  if (← getState i) = .localPinned then
    transition .localPinnedToLocal i
    return some i
  else
    unlock i
    return none

/-! ## The interface -/

def remonMalloc (R : Region) (size : ℕ) : Op Unit := do
  if size > R.pageSize - qsize then
    hugeMalloc
  else
    match ← allocate R with
    | some i => locked i do let _ ← updateLRUList i
    | none =>
      match ← getBufferedPod with
      | none => return ()
      | some i =>
        heapInit i
        if ← addPodAndAllocate i then
          let _ ← updateLRUList i
          unlock i
        else
          unlock i

def remonFree (R : Region) (addr : ℕ) : Op Unit := do
  let i := R.getResponsiblePod addr
  if R.payload i = addr then
    let pages ← .any (List ℕ)
    hugeFree pages
  else
    lock i
    if ← free i addr then
      let _ ← activatePod i
      unlock i
    else
      unlock i

/-- The calls of the interface, the faults and the rounds of the loops. -/
inductive Call where
  | remonMalloc (size : ℕ)
  | remonFree (addr : ℕ)
  | fault (addr : ℕ)
  | remonPromote (addr : ℕ)
  | remonPromoteRange (lo hi : ℕ)
  | remonDemote (addr : ℕ)
  | remonDemoteRange (lo hi : ℕ) (exclude : Option ℕ)
  | remonForceSwap (addr : ℕ)
  | remonForceUnmap (lo hi : ℕ) (exclude : Option ℕ)
  | remonActivateSync (addr : ℕ)
  | remon_cleanup_evicted (addr : ℕ)
  | evict
  | prefetch (known : Bool)
  | trim
  | trimFreeBlock (pages : List ℕ)
  | addPodToBuffer (pages : List ℕ)

/-- The operation without its result. -/
def Call.op (R : Region) : Call → Op Unit
  | .remonMalloc size => Entry.remonMalloc R size
  | .remonFree addr => Entry.remonFree R addr
  | .fault addr => activateAddress R addr
  | .remonPromote addr => do let _ ← Entry.remonPromote R addr
  | .remonPromoteRange lo hi => Entry.remonPromoteRange R lo hi
  | .remonDemote addr => do let _ ← Entry.remonDemote R addr
  | .remonDemoteRange lo hi exclude => Entry.remonDemoteRange R lo hi exclude
  | .remonForceSwap addr => do let _ ← Entry.remonForceSwap R addr
  | .remonForceUnmap lo hi exclude => Entry.remonForceUnmap R lo hi exclude
  | .remonActivateSync addr => do let _ ← Entry.remonActivateSync R addr
  | .remon_cleanup_evicted addr => Entry.remon_cleanup_evicted R addr
  | .evict => pickPodToEvict
  | .prefetch known => Entry.prefetch known
  | .trim => Entry.trim
  | .trimFreeBlock pages => Entry.trimFreeBlock pages
  | .addPodToBuffer pages => Entry.addPodToBuffer pages

/-- Pods of 4096 bytes from address 4096 on. -/
def sampleRegion : Region := ⟨4096, 4096⟩

end Remon.Vmm.Entry
