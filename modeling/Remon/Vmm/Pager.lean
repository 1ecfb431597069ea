import Remon.Pod.Page
import Remon.Spl.Calls

/-! # Pods, lists and the places where pages are kept

The pods of the manager, the segregated page lists of all threads, the swap directory and the
memory nodes. A list is a number, one for each thread and size class. Every function here runs
with the locks that it needs; which pod the evictor takes, the replies of the memory nodes and
whether the page of a huge block was freed are arguments.
-/

namespace Remon
open Function Lib Heap

structure Pager where
  pods : ℕ → Pod
  flushes : ℕ → List (Prot × List ℕ)
  lists : ℕ → SegregatedPageList
  /-- the list of a pod; none for the pointer `0xDEADBEEF` -/
  splPushdown : ℕ → Option ℕ
  files : Files
  /-- the entries that the memory nodes hold for each pod -/
  nodes : ℕ → ℕ → Option (List UInt8)

/-- What a memory node sends when a page is fetched, and its reply when the page is freed. -/
structure Fetch where
  delivery : Delivery
  reply : Option (List UInt8)

namespace Pod

/-- A pod as it is constructed. -/
def new (i : ℕ) : Pod where
  state := .init
  index := i
  heap := ⟨⟨fun _ => 0⟩, false, false⟩
  prot := .none
  swapPath := ""
  landlordClient := none
  sentOffset := 0
  debugTail := .null
  freeBuffer := []
  isFlushing := false
  rank := 2 ^ 64 - 1
  oldRank := 2 ^ 64 - 1

end Pod

/-- The swap file of a pod. -/
def swapFile (swapDir : String) (i : ℕ) : String := swapDir ++ "/" ++ toString i

namespace Pager

def new : Pager where
  pods := Pod.new
  flushes := fun _ => []
  lists := fun _ => .new
  splPushdown := fun _ => none
  files := fun _ => none
  nodes := fun _ _ => none

variable (L : ℕ → Layout) (path : ℕ → String) (g : Pager)

def setPod (i : ℕ) (p : Pod) : Pager := { g with pods := update g.pods i p }

/-- The list `l` with the pods. -/
def spl (l : ℕ) : SplState := ⟨g.lists l, g.pods, g.flushes⟩

def putSpl (l : ℕ) (s : SplState) : Pager :=
  { g with
    lists := update g.lists l s.toSegregatedPageList
    pods := s.pods
    flushes := s.flushes }

/-! ## Small allocations -/

def allocate (l size : ℕ) (c : Choice) : Except Fault (ℕ × Pager) := do
  let (ptr, s) ← (g.spl l).allocate L size c
  return (ptr, g.putSpl l s)

/-- The second half of a request: the list gets the pod from the buffer. -/
def addPodAndAllocate (l i size : ℕ) : Except Fault (ℕ × Pager) := do
  let p ← (g.pods i).localPinnedToLocal.heapInit (L i)
  let g := { g.setPod i p with splPushdown := update g.splPushdown i (some l) }
  let (ptr, s) ← (g.spl l).addPodAndAllocate L i size
  return (ptr, g.putSpl l s)

def free (i addr : ℕ) : Except Fault (Bool × Pager) :=
  match g.splPushdown i with
  | none => .error .undefined
  | some l => do
    let (full, s) ← (g.spl l).free L i addr
    return (full, g.putSpl l s)

def trim (l : ℕ) (c : Choice) (tryLock : ℕ → Bool) : Except Fault Pager := do
  let s ← (g.spl l).trim L c tryLock
  return g.putSpl l s

def benchSwappedPage (i : ℕ) : Except Fault (Bool × Pager) :=
  match g.splPushdown i with
  | none => .error .undefined
  | some l => do
    let (removed, s) ← (g.spl l).benchSwappedPage L i
    return (removed, g.putSpl l s)

def unbenchSwappedPage (i : ℕ) : Except Fault Pager :=
  match g.splPushdown i with
  | none => .error .undefined
  | some l => do
    let s ← (g.spl l).unbenchSwappedPage L i
    return g.putSpl l s

/-- A flush outside of the lists. -/
def flushFreeBuffer (i : ℕ) : Except Fault Pager := do
  let s ← (g.spl 0).flushFreeBuffer L i
  return { g with pods := s.pods, flushes := s.flushes }

/-! ## Bringing a page in -/

/-- The pod is in memory again and its buffered frees were flushed. -/
def arrive (i : ℕ) (p : Pod) : Except Fault Pager := do
  let g := { g.setPod i p with
    flushes := update g.flushes i ((p.prot, (g.pods i).freeBuffer) :: g.flushes i) }
  let g ← if p.isForSmallAllocations then g.unbenchSwappedPage L i else .ok g
  return g.setPod i (g.pods i).localPinnedToLocal

/-- The node of the pod gives up its entry. -/
def eraseNode (i : ℕ) : Pager :=
  match (g.pods i).landlordClient with
  | none => g
  | some client => { g with nodes := update g.nodes i (eraseEntry (g.nodes i) client) }

def activatePod (i : ℕ) (f : Fetch) : Except Fault Pager :=
  match (g.pods i).state with
  | .local_ | .localPinned => .ok g
  | .init => .ok (g.setPod i (g.pods i).initToLocal)
  | .disk => do
    let (files, p) ← (g.pods i).diskToLocalPinned (L i) g.files
    { g with files := files }.arrive L i p
  | .diskCache => do
    let (files, p) ← (g.pods i).diskCacheToLocalPinned (L i) g.files
    { g with files := files }.arrive L i p
  | .remoteCache => do
    let p ← (g.pods i).remoteCacheToLocalPinned (L i) f.reply
    (g.eraseNode i).arrive L i p
  | .remote => do
    let p ← (g.pods i).remoteToLocalPinned (L i) f.delivery
    (g.eraseNode i).arrive L i p

def prefetchPod (i : ℕ) (f : Fetch) : Except Fault Pager :=
  match (g.pods i).state with
  | .disk => do
    let p ← (g.pods i).diskToDiskCache (L i) g.files
    return g.setPod i p
  | .remote => do
    let p ← (g.pods i).remoteToRemoteCache (L i) f.delivery
    return g.setPod i p
  | .init => .ok (g.setPod i (g.pods i).initToLocal)
  | .local_ | .localPinned | .diskCache | .remoteCache => .ok g

/-! ## Swapping a page out -/

/-- The connections in the order in which they are tried. -/
def remoteSwap (i : ℕ) : List (ℕ × SaveScript) → Pager → Except Fault (Bool × Pager)
  | [], g => .ok (false, g)
  | (client, c) :: localCopy, g => do
    let (ok, p, sent) ← (g.pods i).bundleSavePodToRemote (L i) client c
    if ok then
      return (true, { g.setPod i p with
        nodes := update g.nodes i
          (storeEntry (g.nodes i) client ((g.pods i).mem.bytes (L i).payloadStart sent)) })
    else remoteSwap i localCopy (g.setPod i p)

def swapToDisk (i : ℕ) : Pager :=
  let (files, p) := (g.pods i).localToDisk (L i) g.files (path i)
  { g.setPod i p with files := files }

def evictPod (i : ℕ) (localCopy : List (ℕ × SaveScript)) : Except Fault Pager :=
  if (g.pods i).state ≠ .local_ then .ok g
  else do
    let (swapped, g) ← remoteSwap L i localCopy g
    return if swapped then g else g.swapToDisk L path i

/-- What `pickPodToEvict` does before it calls `evictPod`, and whether it does. -/
def beforeEvict (i : ℕ) (isFree : Bool) : Except Fault (Bool × Pager) :=
  match (g.pods i).state with
  | .local_ =>
    if (g.pods i).isForSmallAllocations then do
      let (reallyRemovedFromSpl, g) ← g.benchSwappedPage L i
      let g ← g.flushFreeBuffer L i
      if (g.pods i).isEmpty (L i) then return (false, g.setPod i ((g.pods i).localToInit (L i)))
      return (reallyRemovedFromSpl, g)
    else if isFree then .ok (false, g.setPod i ((g.pods i).localToInit (L i)))
    else .ok (true, g)
  | .diskCache => .ok (false, g.setPod i ((g.pods i).diskCacheToDisk (L i)))
  | .remoteCache => .ok (false, g.setPod i ((g.pods i).remoteCacheToRemote (L i)))
  | .localPinned | .init | .disk | .remote => .ok (false, g)

/-- The pod `i` was at the end of the LRU list. A pod that its list kept is activated, which
does nothing to a local pod but move it to the front. -/
def pickPodToEvict (i : ℕ) (isFree : Bool) (localCopy : List (ℕ × SaveScript)) :
    Except Fault Pager := do
  let (swap, g) ← g.beforeEvict L i isFree
  if swap then g.evictPod L path i localCopy else return g

/-- What `asyncSwapOutPod` does before it calls `evictPod`, and whether it does. -/
def beforeForceSwap (i : ℕ) : Except Fault (Bool × Pager) :=
  if (g.pods i).state = .local_ then
    if (g.pods i).isForSmallAllocations then do
      let (_, g) ← g.benchSwappedPage L i
      return (true, g)
    else .ok (true, g)
  else .ok (false, g)

def asyncSwapOutPod (i : ℕ) (localCopy : List (ℕ × SaveScript)) : Except Fault Pager := do
  let (swap, g) ← g.beforeForceSwap L i
  if swap then g.evictPod L path i localCopy else return g

/-! ## Pages for the buffer -/

/-- A page that the arena has given out is pinned for the buffer. -/
def addPodToBuffer (i : ℕ) (f : Fetch) : Except Fault Pager :=
  match (g.pods i).state with
  | .init => .ok (g.setPod i (g.pods i).initToLocalPinned)
  | .local_ => .ok (g.setPod i (g.pods i).localToLocalPinned)
  | .disk =>
    let (files, p) := (g.pods i).diskToInit (L i) g.files
    .ok { g.setPod i p.initToLocalPinned with files := files }
  | .remote => do
    let p ← (g.pods i).remoteToInit (L i) f.reply
    return (g.eraseNode i).setPod i p.initToLocalPinned
  | .diskCache => do
    let (files, p) ← (g.pods i).diskCacheToLocalPinned (L i) g.files
    return { g.setPod i p with files := files }
  | .remoteCache => do
    let p ← (g.pods i).remoteCacheToLocalPinned (L i) f.reply
    return (g.eraseNode i).setPod i p
  | .localPinned => .ok g

/-! ## Pages of free blocks and writes -/

/-- What `trimFreeBlock` does to a page that it could lock. -/
def trimFreePage (i : ℕ) : Except Fault Pager :=
  if (g.pods i).state = .local_ then do
    let p ← (g.pods i).dropMemoryStayLocal (L i) true
    return g.setPod i p
  else .ok g

def store (i addr : ℕ) (v : UInt8) : Except Fault Pager :=
  if (g.pods i).prot ≠ .readWrite then .error .undefined
  else .ok (g.setPod i ((g.pods i).setMem ((g.pods i).mem.set addr v)))

end Pager

end Remon
