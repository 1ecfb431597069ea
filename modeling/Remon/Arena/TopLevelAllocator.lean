import Remon.Base
import Remon.Lib.OrdMap

/-! # The page-run allocator of one arena

Pages are handed out in runs. The first and the last page of a run carry its
length and whether it is free; free runs of one length form a doubly linked list
through their first pages, and `hugePodMap` has the head of each list. The pod
object of a page is created when it is first needed, and a pointer to it is its
index here. Using a pod that was not created, or an entry past the end of the
map, is undefined.
-/

namespace Remon.Arena
open Lib

/-- The field `headPod`: the first pod of a huge block or one of the marks of the source. -/
inductive HeadPod where
  | null
  | deadBeef
  | buffered
  | pod (i : ℕ)
  deriving DecidableEq, Repr

/-- The part of a pod that the arena uses. -/
structure PageTag where
  prev : Option ℕ
  next : Option ℕ
  globalSize : ℕ
  isFree : Bool
  headPod : HeadPod
  deriving DecidableEq, Repr

def PageTag.new : PageTag := ⟨none, none, 0, true, .null⟩

/-- The pages `first` to `last` among the `podsSize` pages of all arenas. A pod keeps its index as
an `int`. -/
structure Region where
  first : ℕ
  last : ℕ
  podsSize : ℕ
  le : first ≤ last
  lt : last < podsSize
  indexed : podsSize ≤ 2 ^ 31

def Region.podCount (R : Region) : ℕ := R.last + 1 - R.first

/-- The error messages of the allocator. -/
inductive Report where
  | cannotFindSizeClass
  | middleOfGroup
  | sizeZero
  | nextHeaderNull
  deriving DecidableEq, Repr

structure State where
  pods : ℕ → Option PageTag
  hugePodMap : OrdMap ℕ
  reports : List Report

namespace State

variable (a : State)

def getPod (i : ℕ) : Except Fault PageTag :=
  match a.pods i with
  | none => .error .undefined
  | some t => .ok t

def put (i : ℕ) (t : PageTag) : State := { a with pods := Function.update a.pods i (some t) }

def modify (i : ℕ) (f : PageTag → PageTag) : Except Fault State := do
  let t ← a.getPod i
  return a.put i (f t)

def setNext (i : ℕ) (x : Option ℕ) : Except Fault State :=
  a.modify i (fun t => { t with next := x })

def setPrev (i : ℕ) (x : Option ℕ) : Except Fault State :=
  a.modify i (fun t => { t with prev := x })

def setTag (i n : ℕ) (free : Bool) : Except Fault State :=
  a.modify i (fun t => { t with globalSize := n, isFree := free })

def setMap (m : OrdMap ℕ) : State := { a with hugePodMap := m }

def report (r : Report) : State := { a with reports := r :: a.reports }

def mapForPodI (i : ℕ) : State := if a.pods i = none then a.put i .new else a

def setFreeOnFooter (i : ℕ) : Except Fault State := do
  let t ← a.getPod i
  if t.isFree = false ∨ t.globalSize = 0 then throw .abort
  let footerI := i + t.globalSize - 1
  (a.mapForPodI footerI).setTag footerI t.globalSize true

def hugePodMapAddEntry (i : ℕ) : Except Fault State := do
  let t ← a.getPod i
  match a.hugePodMap.get t.globalSize with
  | none =>
    let a := a.setMap (a.hugePodMap.insert t.globalSize i)
    let a ← a.setPrev i none
    let a ← a.setNext i none
    a.setFreeOnFooter i
  | some freeHeadPod =>
    let a ← a.setNext i (some freeHeadPod)
    let a ← a.setPrev freeHeadPod (some i)
    let a ← a.setPrev i none
    let a := a.setMap (a.hugePodMap.insert t.globalSize i)
    a.setFreeOnFooter i

def setPrevOf (i : Option ℕ) (x : Option ℕ) : Except Fault State :=
  match i with
  | none => .ok a
  | some i => a.setPrev i x

def setNextOf (i : Option ℕ) (x : Option ℕ) : Except Fault State :=
  match i with
  | none => .ok a
  | some i => a.setNext i x

def hugePodMapRemoveEntry (i : ℕ) : Except Fault State := do
  let t ← a.getPod i
  match a.hugePodMap.get t.globalSize with
  | none => return a.report .cannotFindSizeClass
  | some freeHeadPod =>
    if freeHeadPod ≠ i then
      let a ← a.setNextOf t.prev t.next
      a.setPrevOf t.next t.prev
    else
      match t.next with
      | none =>
        if t.prev ≠ none then throw .abort
        return a.setMap (a.hugePodMap.erase t.globalSize)
      | some next =>
        let a := a.setMap (a.hugePodMap.insert t.globalSize next)
        let a ← a.setPrev next none
        a.setNext i none

/-- The constructor: the whole region is one free block. -/
def initGlobalFreePodList (R : Region) : Except Fault State := do
  let a := (a.mapForPodI R.first).mapForPodI R.last
  let a ← a.modify R.first (fun t =>
    { t with globalSize := R.podCount, prev := none, next := none, isFree := true })
  let a ← a.setTag R.last R.podCount true
  a.hugePodMapAddEntry R.first

/-! ## Allocation -/

def findBlock (n : ℕ) : ℕ → Option ℕ → Except Fault (Option ℕ)
  | 0, _ => .error .spin
  | _ + 1, none => .ok none
  | fuel + 1, some i => do
    let t ← a.getPod i
    if t.globalSize ≥ n then return some i
    findBlock n fuel t.next

def unlinkBlock (freeHeadPod currPod : ℕ) : Except Fault (Option ℕ × State) := do
  let t ← a.getPod currPod
  let a ← if freeHeadPod = currPod then a.setPrevOf t.next none else .ok a
  let a ← a.setNextOf t.prev t.next
  let a ← a.setPrevOf t.next t.prev
  return (if freeHeadPod = currPod then t.next else some freeHeadPod, a)

def setFooter (i n : ℕ) (free : Bool) : Except Fault State :=
  if n > 1 then (a.mapForPodI (i + n - 1)).setTag (i + n - 1) n free else .ok a

def addResidual (residualI residualSize : ℕ) : Except Fault State := do
  let a ← (a.mapForPodI residualI).setTag residualI residualSize true
  let a ← a.setFooter residualI residualSize true
  a.hugePodMapAddEntry residualI

/-- Cut `n` pages off the block at `currPod`, which is on the list of `sizeClass`. -/
def takeBlock (sizeClass freeHeadPod currPod n : ℕ) : Except Fault State := do
  let (freeHeadPod, a) ← a.unlinkBlock freeHeadPod currPod
  let t ← a.getPod currPod
  let residualSize := t.globalSize - n
  let a ← a.setTag currPod n false
  let a ← a.setFooter currPod n false
  let a := a.setMap (match freeHeadPod with
    | none => a.hugePodMap.erase sizeClass
    | some h => a.hugePodMap.insert sizeClass h)
  if residualSize > 0 then a.addResidual (currPod + n) residualSize else return a

/-- `none` is the null pointer. -/
def allocateNPages (R : Region) (n : ℕ) : Except Fault (Option ℕ × State) := do
  if n = 0 then return (none, a)
  match a.hugePodMap.lowerBound n with
  | none => throw .undefined
  | some sizeClass =>
    match a.hugePodMap.get sizeClass with
    | none => throw .undefined
    | some freeHeadPod =>
      match ← a.findBlock n (R.podsSize + 1) (some freeHeadPod) with
      | none => return (none, a)
      | some currPod =>
        let a ← a.takeBlock sizeClass freeHeadPod currPod n
        return (some currPod, a)

/-! ## Release -/

/-- Remove the free blocks to the right of `currI` from their lists; their pages are added
to `freedSize`. -/
def collectRight (R : Region) : ℕ → State → ℕ → ℕ → Except Fault (ℕ × State)
  | 0, _, _, _ => .error .spin
  | fuel + 1, a, currI, freedSize => do
    let t ← a.getPod currI
    let nextHeaderI := currI + t.globalSize
    if nextHeaderI > R.last then return (freedSize, a)
    let a := if t.globalSize = 0 then a.report .sizeZero else a
    if nextHeaderI ≥ R.podsSize then return (freedSize, a)
    match a.pods nextHeaderI with
    | none => return (freedSize, a.report .nextHeaderNull)
    | some nextHeader =>
      if nextHeader.isFree then
        let a ← a.hugePodMapRemoveEntry nextHeaderI
        collectRight R fuel a nextHeaderI (freedSize + nextHeader.globalSize)
      else return (freedSize, a)

def coalescingOnePodRight (R : Region) (i : ℕ) : Except Fault State := do
  let t ← a.getPod i
  let a := if t.headPod ≠ .deadBeef ∧ t.headPod ≠ .pod i then a.report .middleOfGroup else a
  let (freedSize, a) ← collectRight R (R.podsSize + 1) a i 0
  if freedSize = 0 then return a
  let t ← a.getPod i
  let newSize := freedSize + t.globalSize
  let a ← a.setTag i newSize true
  if newSize > 1 then a.setTag (i + newSize - 1) newSize true else return a

def markFree (a : State) (i : ℕ) : Except Fault State :=
  a.modify i (fun t => { t with headPod := .deadBeef, isFree := true })

def hugeFree (R : Region) (i : ℕ) : Except Fault State := do
  let t ← a.getPod i
  let a := if t.headPod ≠ .null ∧ t.headPod ≠ .pod i then a.report .middleOfGroup else a
  let a ← a.coalescingOnePodRight R i
  let a ← (List.range' i t.globalSize).foldlM markFree a
  let a ← a.modify i (fun t => { t with isFree := true })
  a.hugePodMapAddEntry i

end State

end Remon.Arena
