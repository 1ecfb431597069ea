import Remon.Base
import Remon.Lib.Bytes
import Remon.Lib.CInt

/-! # The free-list allocator inside a pod

Headers, footers and list pointers are words of the page itself; the variable
`freeHead` is a word outside it whose address stands in the first block's
predecessor field. The page, that word and the user data therefore share one
byte memory here, and every macro reads and writes it as the source does.
The size of the one block of a new page is an `int`; pages of at most `2^31`
bytes have smaller blocks, for which the `int` conversions of the source are
the identity. A mutex that is already held stops the caller.
-/

namespace Remon.Heap
open Lib

/-- Where the page and the `freeHead` variable of one allocator lie. -/
structure PageSpan where
  payloadStart : ℕ
  payloadSize : ℕ
  freeHeadAddr : ℕ
  size_pos : 0 < payloadSize
  size_page : payloadSize % 4096 = 0
  start_pos : 0 < payloadStart
  start_page : payloadStart % 4096 = 0
  end_lt : payloadStart + payloadSize < 2 ^ 64
  freeHead_pos : 0 < freeHeadAddr
  freeHead_lt : freeHeadAddr < 2 ^ 64
  freeHead_outside : freeHeadAddr + 8 ≤ payloadStart ∨ payloadStart + payloadSize ≤ freeHeadAddr

namespace PageSpan

variable (L : PageSpan)

def payloadEnd : ℕ := L.payloadStart + L.payloadSize

def maxIntraPodSize : ℕ := L.payloadSize - qsize

def blockSize : ℤ :=
  let largestSize := toInt L.maxIntraPodSize
  toInt (toSize largestSize + overhead)

end PageSpan

/-- A page whose blocks have sizes that are `int`s. -/
structure Layout extends PageSpan where
  size_le : payloadSize ≤ 2 ^ 31

instance : Coe Layout PageSpan := ⟨Layout.toPageSpan⟩

instance : Coe (ℕ → Layout) (ℕ → PageSpan) := ⟨fun L i => (L i).toPageSpan⟩

/-! ## The macros -/

def hdrp (bp : ℕ) : ℕ := bp - wsize

def getSize (m : Mem) (p : ℕ) : ℕ := m.get p - m.get p % dsize

def getAlloc (m : Mem) (p : ℕ) : ℕ := m.get p % 2

def getBlockSize (m : Mem) (bp : ℕ) : ℕ := getSize m (hdrp bp)

def ftrp (m : Mem) (bp : ℕ) : ℕ := bp + getSize m (hdrp bp) - dsize

def nextBlkp (m : Mem) (bp : ℕ) : ℕ := bp + getBlockSize m bp

def nextFree (bp : ℕ) : ℕ := bp

def prevFree (bp : ℕ) : ℕ := bp + wsize

/-- The macro substitutes the text of its value argument twice, so `val` is read
again from the memory that already has the new header. -/
def setBlockSize (m : Mem) (bp : ℕ) (val : Mem → ℕ) : Mem :=
  let m := m.put (hdrp bp) (val m)
  m.put (ftrp m bp) (val m)

def setAlloc (m : Mem) (bp : ℕ) : Mem :=
  let m := m.put (hdrp bp) (m.get (hdrp bp) ||| 1)
  m.put (ftrp m bp) (m.get (hdrp bp))

def setFree (m : Mem) (bp : ℕ) : Mem :=
  let m := m.put (hdrp bp) (m.get (hdrp bp) - m.get (hdrp bp) % 2)
  m.put (ftrp m bp) (m.get (hdrp bp))

/-! ## The allocator -/

/-- Memory, the `inited` flag and whether the allocator's mutex is held. -/
structure State where
  mem : Mem
  inited : Bool
  locked : Bool

variable (L : PageSpan)

def freeHead (m : Mem) : ℕ := m.get L.freeHeadAddr

def insertAtFreeHead (m : Mem) (bp : ℕ) : Except Fault Mem := do
  let m := m.put (nextFree bp) (freeHead L m)
  let m := if freeHead L m ≠ 0 then m.put (prevFree (freeHead L m)) bp else m
  let m := m.put L.freeHeadAddr bp
  let m := m.put (prevFree bp) L.freeHeadAddr
  if freeHead L m = 0 then throw (.exit (-2))
  return m

def popFreeBlockOut (m : Mem) (bp : ℕ) : Mem :=
  let prev := m.get (prevFree bp)
  let next := m.get (nextFree bp)
  let m := if prev ≠ 0 then m.put (nextFree prev) next else m
  if next ≠ 0 then m.put (prevFree next) prev else m

/-- The block pointers to the right of `currBp` up to the first block in use. -/
def collectRight (m : Mem) : ℕ → ℕ → Except Fault (ℕ × List ℕ)
  | 0, _ => .error .spin
  | fuel + 1, currBp =>
    let nextBp := nextBlkp m currBp
    if nextBp ≥ L.payloadEnd then .ok (0, [])
    else if getAlloc m (hdrp nextBp) ≠ 0 then .ok (0, [])
    else do
      let (freeSize, bps) ← collectRight m fuel nextBp
      return (getBlockSize m nextBp + freeSize, nextBp :: bps)

def rightCoalescing (m : Mem) (rootBp : ℕ) : Except Fault Mem :=
  if rootBp < L.payloadStart ∨ rootBp ≥ L.payloadEnd then .ok m
  else do
    let (freeSize, bpsToRemove) ← collectRight L m L.payloadSize rootBp
    let m := if freeSize ≠ 0 then
        setFree (setBlockSize m rootBp (fun m => freeSize + getBlockSize m rootBp)) rootBp
      else m
    return bpsToRemove.foldl popFreeBlockOut m

def coalescing (m : Mem) (bp : ℕ) : Except Fault Mem := do
  let m ← rightCoalescing L m bp
  if freeHead L m = 0 then throw (.exit (-2))
  return m

def heapInit (s : State) : Except Fault State :=
  if s.inited then .ok s
  -- the footer of a block of negative size is a word before the page
  else if L.blockSize < 0 then .error .undefined
  else
    let blockPointer := L.payloadStart + dsize
    let m := s.mem.put L.payloadStart 1
    let m := setBlockSize m blockPointer (fun _ => L.blockSize.toNat)
    let m := setFree m blockPointer
    let m := m.put L.freeHeadAddr blockPointer
    let m := m.put (L.payloadEnd - wsize) 1
    let m := m.put (prevFree blockPointer) L.freeHeadAddr
    let m := m.put (nextFree blockPointer) 0
    if freeHead L m = 0 then .error (.exit (-2))
    else .ok { s with mem := m, inited := true }

/-- Take the free block `curr` of `currBlockSize` bytes out of the list, cut `asize`
bytes off it and give the rest back. -/
def takeBlock (m : Mem) (curr currBlockSize asize : ℕ) : Except Fault Mem := do
  let m := popFreeBlockOut m curr
  let residualSize := currBlockSize - asize
  let (asize, residualSize) :=
    if residualSize < qsize then (currBlockSize, 0) else (asize, residualSize)
  let m := setBlockSize m curr (fun _ => asize)
  let m := setAlloc m curr
  if getAlloc m (hdrp curr) = 0 then throw (.exit (-2))
  if residualSize ≠ 0 then
    let newFreeSegment := nextBlkp m curr
    let m := setBlockSize m newFreeSegment (fun _ => residualSize)
    let m := setFree m newFreeSegment
    insertAtFreeHead L m newFreeSegment
  else return m

def findFit (m : Mem) (asize : ℕ) : ℕ → ℕ → Except Fault (Option ℕ)
  | 0, _ => .error .spin
  | fuel + 1, curr =>
    if getBlockSize m curr ≥ asize then .ok (some curr)
    else if m.get (nextFree curr) = 0 then .ok none
    else findFit m asize fuel (m.get (nextFree curr))

/-- The null pointer is `0`. The two early returns leave the mutex locked. -/
def malloc (s : State) (requestedSize : ℕ) : Except Fault (ℕ × State) := do
  if s.locked then throw .deadlock
  let s ← heapInit L { s with locked := true }
  if requestedSize = 0 then return (0, s)
  if requestedSize > L.maxIntraPodSize then return (0, s)
  let oldFreeHead := freeHead L s.mem
  let found ← if oldFreeHead ≠ 0 then findFit s.mem requestedSize L.payloadSize oldFreeHead
    else pure none
  match found with
  | some curr =>
    let m ← takeBlock L s.mem curr (getBlockSize s.mem curr) requestedSize
    return (curr, { s with mem := m, locked := false })
  | none =>
    let s := { s with locked := false }
    if freeHead L s.mem = 0 ∧ oldFreeHead ≠ 0 then throw (.exit (-2))
    return (0, s)

def free (s : State) (addr : ℕ) : Except Fault State := do
  if s.locked then throw .deadlock
  let m := setFree s.mem addr
  let m ← insertAtFreeHead L m addr
  let m ← coalescing L m addr
  if freeHead L m = 0 then throw (.exit (-2))
  return { s with mem := m }

def maxOnList (m : Mem) : ℕ → ℕ → ℕ → Except Fault ℕ
  | 0, _, _ => .error .spin
  | fuel + 1, curr, maxSize =>
    let maxSize := if getBlockSize m curr > maxSize then getBlockSize m curr else maxSize
    if m.get (nextFree curr) = 0 then .ok maxSize
    else maxOnList m fuel (m.get (nextFree curr)) maxSize

def maxAllocatableSize (s : State) : Except Fault (ℕ × State) := do
  let s ← heapInit L s
  if freeHead L s.mem = 0 then return (0, s)
  let size ← maxOnList s.mem L.payloadSize (freeHead L s.mem) 0
  return (size, s)

def isEmpty (m : Mem) : Bool :=
  freeHead L m ≠ 0 && getBlockSize m (freeHead L m) = L.payloadSize - dsize

/-- Offset of the last block when that block is free, else the page size. -/
def getTailFreeBlock (m : Mem) : ℕ :=
  let footerLocation := L.payloadEnd - dsize
  if getAlloc m footerLocation = 0 then
    footerLocation - (getSize m footerLocation - dsize) - L.payloadStart
  else L.payloadSize

/-- The complaints of the self check. -/
inductive CheckError where
  | exceededLimit
  | missMatchBlocks
  | missMatchFreeBlocks
  deriving DecidableEq, Repr

def sumFreeList (m : Mem) : ℕ → ℕ → ℕ → Except Fault ℕ
  | 0, _, _ => .error .spin
  | fuel + 1, curr, freeListFreeSize =>
    if m.get (nextFree curr) = 0 then .ok (freeListFreeSize + getBlockSize m curr)
    else sumFreeList m fuel (m.get (nextFree curr)) (freeListFreeSize + getBlockSize m curr)

def sumBlocks (m : Mem) : ℕ → ℕ → ℕ → ℕ → Except Fault (ℕ × ℕ × List CheckError)
  | 0, _, _, _ => .error .spin
  | fuel + 1, curr, freeBlockSizeSum, allocatedBlockSizeSum =>
    let size := getBlockSize m curr
    let inUse := getAlloc m (hdrp curr) ≠ 0
    let freeBlockSizeSum := if inUse then freeBlockSizeSum else freeBlockSizeSum + size
    let allocatedBlockSizeSum := if inUse then allocatedBlockSizeSum + size
      else allocatedBlockSizeSum
    let next := nextBlkp m curr
    if next > L.payloadEnd then .ok (freeBlockSizeSum, allocatedBlockSizeSum, [.exceededLimit])
    else if next = L.payloadEnd then .ok (freeBlockSizeSum, allocatedBlockSizeSum, [])
    else if next = 0 then .ok (freeBlockSizeSum, allocatedBlockSizeSum, [])
    else sumBlocks m fuel next freeBlockSizeSum allocatedBlockSizeSum

def debugPrint (m : Mem) : Except Fault (List CheckError) := do
  let freeListFreeSize ←
    if freeHead L m ≠ 0 then sumFreeList m L.payloadSize (freeHead L m) 0 else pure 0
  let (freeBlockSizeSum, allocatedBlockSizeSum, errs) ←
    sumBlocks L m L.payloadSize (L.payloadStart + dsize) 0 0
  return errs ++
    (if freeBlockSizeSum + allocatedBlockSizeSum ≠ L.payloadSize - overhead
      then [.missMatchBlocks] else []) ++
    (if freeListFreeSize ≠ freeBlockSizeSum then [.missMatchFreeBlocks] else [])

end Remon.Heap
