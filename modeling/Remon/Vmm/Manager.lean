import Remon.Arena.Bundle
import Remon.Arena.PageCount
import Remon.Arena.Pages
import Remon.Spl.SmallRequests
import Remon.Vmm.ListRuns

/-! # The memory manager

Arenas, buffers, lists and pages together. Small requests go to the list of the thread and then
to a page from its buffer; large ones get a run of pages from an arena and prepare them one
after another. Every section under the lock of a pod, of a list or of an arena is one command;
the commands of all threads come in any order. An arena touches the pods of its own region only,
so the tags of the pods are kept with their arenas.
-/

namespace Remon
open Lib Heap

/-- The sizes of the manager and the place of its pages. Without a hint the kernel maps below
`2 ^ 47`. -/
structure Setup extends Arena.Bundle.Config where
  base : ℕ
  pageSize : ℕ
  L : ℕ → Layout
  arena : localPodCount ≤ podsSize
  size : ∀ i, (L i).payloadSize = pageSize
  start : ∀ i, i < podsSize → (L i).payloadStart = base + i * pageSize
  mapped : base + podsSize * pageSize ≤ 2 ^ 47

namespace Setup

variable (c : Setup)

theorem maxArena_pos : 0 < c.maxArena := Nat.div_pos c.arena c.pos

theorem arena_end {k : ℕ} (hk : k < c.maxArena) :
    k * c.localPodCount + c.localPodCount ≤ c.podsSize := by
  rw [← Nat.succ_mul]
  exact (Nat.mul_le_mul_right _ hk).trans (Nat.div_mul_le_self _ _)

def regionAt (k : ℕ) (hk : k < c.maxArena) : Arena.Region where
  first := k * c.localPodCount
  last := k * c.localPodCount + c.localPodCount - 1
  podsSize := c.podsSize
  le := by
    have := c.pos
    omega
  lt := by
    have := c.pos
    have := c.arena_end hk
    omega
  indexed := c.indexed

/-- The pages of arena `k`. There are `maxArena` arenas, and no use is made of another `k`. -/
def region (k : ℕ) : Arena.Region :=
  c.regionAt (min k (c.maxArena - 1))
    ((Nat.min_le_right _ _).trans_lt (Nat.sub_lt c.maxArena_pos Nat.one_pos))

def getResponsiblePod (addr : ℕ) : ℕ := (addr - c.base) / c.pageSize

def numPageNeeded (size : ℕ) : ℕ := Arena.ceilPages c.pageSize size

end Setup

/-- A call of `hugeMalloc` that got the block of `pages` pages at `head`; `next` is the page that
its loop comes to next. -/
structure HugeCall where
  head : ℕ
  pages : ℕ
  size : ℕ
  next : ℕ
  deriving DecidableEq, Repr

def HugeCall.block (x : HugeCall) : ℕ × ℕ := (x.head, x.pages)

/-- The arenas and the blocks that they handed out. -/
structure Holdings where
  arenas : ℕ → Arena.Session
  arenaCount : ℕ
  /-- the calls that have returned and whose block was not freed -/
  huge : List HugeCall
  /-- the calls that are in their loop -/
  setting : List HugeCall
  /-- all pages that went to the buffers -/
  small : List ℕ

namespace Holdings

variable (c : Setup) (d : Holdings)

/-- Pod 0 is created at once. -/
def new : Holdings where
  arenas := fun _ => ⟨.start fun i => if i = 0 then some .new else none, []⟩
  arenaCount := 0
  huge := []
  setting := []
  small := []

def arenaOf (i : ℕ) : Arena.Session := d.arenas (i / c.localPodCount)

/-- The fields of a pod that the arena uses. -/
def tagOf (i : ℕ) : Option Arena.PageTag := (d.arenaOf c i).arena.pods i

def setArena (k : ℕ) (a : Arena.Session) : Holdings :=
  { d with arenas := Function.update d.arenas k a }

def callAt (p : ℕ) : Option HugeCall := d.setting.find? (fun x => x.head = p)

def addNewRegionCore : Except Fault Holdings := do
  let a ← (d.arenas d.arenaCount).arena.initGlobalFreePodList (c.region d.arenaCount)
  return { d.setArena d.arenaCount ⟨a, []⟩ with arenaCount := d.arenaCount + 1 }

/-- The call gets its block from arena `k`. -/
def hugeMalloc (k size : ℕ) : Except Fault Holdings := do
  let a := d.arenas k
  let (ptr, b) ← a.arena.allocateNPages (c.region k) (c.numPageNeeded size)
  match ptr with
  | none => return d.setArena k ⟨b, a.live⟩
  | some p => return { d.setArena k ⟨b, (p, c.numPageNeeded size) :: a.live⟩ with
      setting := ⟨p, c.numPageNeeded size, size, p⟩ :: d.setting }

/-- The arena of pod `p` after a write to the tag of pod `i`. -/
def setTag (p i : ℕ) (f : Arena.PageTag → Arena.PageTag) : Except Fault Holdings := do
  let b ← (d.arenaOf c p).arena.modify i f
  return d.setArena (p / c.localPodCount) ⟨b, (d.arenaOf c p).live⟩

def enterPage (x : HugeCall) : Except Fault Holdings :=
  (d.setArena (x.head / c.localPodCount) ⟨(d.arenaOf c x.head).arena.mapForPodI x.next,
    (d.arenaOf c x.head).live⟩).setTag c x.head x.next fun t => { t with headPod := .pod x.head }

def leavePage (x : HugeCall) : Except Fault Holdings := do
  let d ← d.setTag c x.head x.next fun t => { t with isFree := false }
  return { d with setting := { x with next := x.next + 1 } :: d.setting.erase x }

def hugeReturn (x : HugeCall) : Holdings :=
  { d with huge := x :: d.huge, setting := d.setting.erase x }

def crossOwnershipHugeFree (i : ℕ) : Except Fault Holdings := do
  let a := d.arenaOf c i
  let t ← a.arena.getPod i
  let b ← a.arena.hugeFree (c.region (i / c.localPodCount)) i
  return { d.setArena (i / c.localPodCount) ⟨b, a.live.erase (i, t.globalSize)⟩ with
    huge := d.huge.filter (fun x => x.head ≠ i) }

/-- A page for a buffer, from arena `k`; the caller uses it without a test. -/
def allocatePage (k : ℕ) : Except Fault (ℕ × Holdings) := do
  let a := d.arenas k
  let (ptr, b) ← a.arena.allocateNPages (c.region k) 1
  match ptr with
  | none => throw .undefined
  | some i => return (i, { d.setArena k ⟨b, (i, 1) :: a.live⟩ with small := i :: d.small })

end Holdings

structure Manager extends Session, Holdings where
  /-- the size that the caller asked for, for a pod and a pointer to a small block in it -/
  asked : ℕ → ℕ → ℕ
  /-- the size that the thread of a list asked for last -/
  request : ℕ → ℕ
  /-- the pages on their way into a buffer -/
  fetched : List ℕ
  /-- the pages in the buffers -/
  buffered : List ℕ

inductive Cmd where
  | addNewRegionCore
  /-- a small request goes to the list `l` -/
  | remonMalloc (l size : ℕ) (c : Choice)
  /-- the list had no room, and the request is served by pod `i` from the buffer -/
  | getBufferedPod (l i : ℕ)
  | hugeMalloc (k size : ℕ)
  /-- the next round of the loop for the block at `p` -/
  | hugePage (p : ℕ) (f : Fetch)
  | hugeReturn (p : ℕ)
  | remonFree (addr : ℕ)
  /-- a fault, or a release that found the buffer of its page full -/
  | activatePod (i : ℕ) (f : Fetch)
  /-- a prefetcher locked page `i` -/
  | prefetchPod (i : ℕ) (f : Fetch)
  /-- `addPodToBuffer` gets a page from arena `k` -/
  | allocatePage (k : ℕ)
  /-- `addPodToBuffer` tries to lock the page that it got; if it fails, it gets another one -/
  | addPodToBuffer (i : ℕ) (tryLock : Bool) (f : Fetch)
  | pickPodToEvict (i : ℕ) (localCopy : List (ℕ × SaveScript))
  | trim (l : ℕ) (c : Choice) (tryLock : ℕ → Bool)
  /-- `trimFreeBlock` of arena `k` locked page `i` -/
  | trimFreePage (k i : ℕ)
  | store (i addr : ℕ) (v : UInt8)

namespace Manager

variable (c : Setup) (path : ℕ → String) (m : Manager)

def new : Manager where
  toSession := .new
  toHoldings := .new
  asked := fun _ _ => 0
  request := fun _ => 0
  fetched := []
  buffered := []

/-- The sizes asked for after the session `t`, in which a request of `size` bytes was served. -/
def noteAsked (t : Session) (size : ℕ) : ℕ → ℕ → ℕ := fun i addr =>
  if ∃ x ∈ t.live.take (t.live.length - m.live.length), x.pod = i ∧ x.ptr = addr then size
  else m.asked i addr

/-- An operation of the session alone. -/
def call (op : Op) : Except Fault Manager := do
  let t ← m.toSession.step c.L path op
  return { m with toSession := t }

def enterLocal (i : ℕ) (f : Fetch) : Except Fault Session :=
  if (m.pods i).state ≠ .local_ then m.toSession.step c.L path (.activatePod i f)
  else .ok m.toSession

def step : Cmd → Except Fault Manager
  | .addNewRegionCore => do
    let d ← m.toHoldings.addNewRegionCore c
    return { m with toHoldings := d }
  | .remonMalloc l size ch => do
    let t ← m.toSession.step c.L path (.allocate l (computeAsize size) ch)
    return { m with
      toSession := t
      asked := m.noteAsked t size
      request := Function.update m.request l size }
  | .getBufferedPod l i => do
    let t ← m.toSession.step c.L path (.addPodAndAllocate l i)
    return { m with
      toSession := t
      asked := m.noteAsked t (m.request l)
      buffered := m.buffered.erase i }
  | .hugeMalloc k size => do
    let d ← m.toHoldings.hugeMalloc c k size
    return { m with toHoldings := d }
  | .hugePage p f =>
    match m.callAt p with
    | none => .error .undefined
    | some x => do
      let d ← m.toHoldings.enterPage c x
      let t ← m.enterLocal c path x.next f
      let d ← d.leavePage c x
      return { m with toSession := t, toHoldings := d }
  | .hugeReturn p =>
    match m.callAt p with
    | none => .error .undefined
    | some x => .ok { m with toHoldings := m.toHoldings.hugeReturn x }
  | .remonFree addr =>
    let i := c.getResponsiblePod addr
    if (c.L i).payloadStart = addr then do
      let d ← m.toHoldings.crossOwnershipHugeFree c i
      return { m with toHoldings := d }
    else m.call c path (.free i addr)
  | .activatePod i f => m.call c path (.activatePod i f)
  | .prefetchPod i f => m.call c path (.prefetchPod i f)
  | .allocatePage k => do
    let (i, d) ← m.toHoldings.allocatePage c k
    return { m with toHoldings := d, fetched := i :: m.fetched }
  | .addPodToBuffer i tryLock f =>
    if tryLock then do
      let d ← m.toHoldings.setTag c i i fun t => { t with headPod := .buffered }
      let t ← m.toSession.step c.L path (.addPodToBuffer i f)
      return { m with
        toSession := t
        toHoldings := d
        fetched := m.fetched.erase i
        buffered := i :: m.buffered }
    else .ok { m with fetched := m.fetched.erase i }
  | .pickPodToEvict i localCopy =>
    match m.tagOf c i with
    | none => .error .undefined
    | some tag => m.call c path (.pickPodToEvict i tag.isFree localCopy)
  | .trim l ch tryLock => m.call c path (.trim l ch tryLock)
  | .trimFreePage _ i => m.call c path (.trimFreePage i)
  | .store i addr v => m.call c path (.store i addr v)

def InUse (i : ℕ) : Prop :=
  (∃ x ∈ m.live, x.pod = i) ∨ (m.pods i).freeBuffer ≠ [] ∨
    ∃ x ∈ m.huge, Arena.Covers x.block i

/-- What the threads, the users and the memory nodes promise. The tests that stand between two
sections of a function are here as well: an arena is made while there is room for it, the loop
of `hugeMalloc` ends with its block, `trim` comes to the pages of free blocks, and a prefetcher
to pages that follow one of a huge block and carry no mark of the lists. -/
def Legal : Cmd → Prop
  | .addNewRegionCore => m.arenaCount < c.maxArena
  | .remonMalloc l size _ => isSmall c.pageSize size = true ∧ m.wanting l = none
  | .getBufferedPod l i => m.wanting l ≠ none ∧ i ∈ m.buffered
  | .hugeMalloc k size =>
    isSmall c.pageSize size = false ∧ k < m.arenaCount ∧ c.numPageNeeded size < 2 ^ 31
  | .hugePage p f => ∃ x, m.callAt p = some x ∧ m.Honest x.next f ∧
      ∃ t, m.tagOf c p = some t ∧ x.next < p + t.globalSize
  | .hugeReturn p => ∃ x, m.callAt p = some x ∧
      ∃ t, m.tagOf c p = some t ∧ ¬ x.next < p + t.globalSize
  | .remonFree addr => (∃ x ∈ m.live, x.ptr = addr) ∨
      ∃ x ∈ m.huge, (c.L x.head).payloadStart = addr
  | .activatePod i f => m.Honest i f ∧ m.InUse i
  | .prefetchPod i f => m.Honest i f ∧ m.splPushdown i = none
  | .allocatePage k => k < m.arenaCount
  | .addPodToBuffer i _ _ => i ∈ m.fetched
  | .pickPodToEvict i localCopy => ∀ t, m.tagOf c i = some t →
      m.toSession.Legal c.L (.pickPodToEvict i t.isFree localCopy)
  | .trim _ _ _ => True
  | .trimFreePage k i => k < m.arenaCount ∧ ∃ l, (m.arenas k).arena.trim (c.region k) = .ok l ∧
      ∃ x ∈ l, Arena.Covers x i ∧ (m.arenas k).arena.Made i
  | .store i addr v => m.toSession.Legal c.L (.store i addr v)

/-- The managers that legal commands lead to, if each of them also is as `ok` says. -/
inductive Run (ok : Manager → Cmd → Prop) : Manager → Prop
  | start : Run ok new
  | step {m m' : Manager} {cmd : Cmd} (hm : Run ok m) (hlegal : m.Legal c cmd)
      (hok : ok m cmd) (run : m.step c path cmd = .ok m') : Run ok m'

end Manager

end Remon
