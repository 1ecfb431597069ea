import Remon.Lib.CInt
import Remon.Lib.Yields
import Remon.Buffer.PodBoundedBuffer

/-! # Start of the manager

The sizes of the region, of the arenas and of the buffers follow from three numbers of the
configuration by divisions that round down. A page size is accepted if it is a multiple of 4096,
which 0 is, and nothing compares it with the region or with the buffers. Divisions, remainders
and accesses to the vector of pods are checked here, so that a start that returns made none that
is undefined. The index that a pod keeps of itself is an `int`, from which the arenas compute where
the footer of a block and the rest of a block are.
-/

namespace Remon.Vmm.Startup
open Lib Buffer Fault

abbrev gb : ℕ := 1073741824
abbrev m1 : ℕ := 1048576
abbrev k4 : ℕ := 4096
abbrev buffPod : ℕ := 64
abbrev defaultPageSize : ℕ := 851968

def divideBy {β : Type} (b : ℕ) (f : ℕ → β) : Except Fault β :=
  if b = 0 then .error .undefined else .ok (f b)

theorem divideBy_ok {β : Type} {b : ℕ} (f : ℕ → β) (hb : 0 < b) : divideBy b f = .ok (f b) :=
  if_neg hb.ne'

def index (size i : ℕ) : Except Fault Unit := if i < size then .ok () else .error .undefined

theorem index_ok {size i : ℕ} (hi : i < size) : index size i = .ok () := if_pos hi

/-- Which mappings the kernel grants, and for how many pointers a vector gets memory. The kernel
refuses a mapping of no bytes, and a vector has less than `2 ^ 63` bytes. -/
structure Host where
  mmap : ℕ → Bool
  room : ℕ → Bool
  mmap_zero : mmap 0 = false
  room_lt : ∀ n, room n = true → n < 2 ^ 60

def Host.reserve (e : Host) (n : ℕ) : Except Fault Unit :=
  if e.room n then .ok () else .error .uncaught

structure Config where
  maxVmInGB : ℕ
  pageSize : ℕ
  topLevelArena : ℕ
  deriving DecidableEq, Repr

/-- What `config::config` stores. The page size and the number of arenas are read into a
`size_t`, and a text that is no number leaves 0 there; the default stays if the page size is
rejected. -/
def Config.load (maxVmInGB proposedPageSize topLevelArena : ℕ) : Config where
  maxVmInGB := maxVmInGB
  pageSize := if proposedPageSize % k4 ≠ 0 then defaultPageSize else proposedPageSize
  topLevelArena := topLevelArena

def Config.vmSize (c : Config) : Except Fault ℕ :=
  if c.maxVmInGB * gb < 2 ^ 64 then .ok (c.maxVmInGB * gb) else .error .undefined

def initVm (e : Host) (c : Config) : Except Fault (ℕ × ℕ) := do
  let vmSize ← c.vmSize
  let podCount ← divideBy c.pageSize (vmSize / ·)
  let podCountGlobal := podCount * c.topLevelArena % 2 ^ 64
  let vmSizeGlobal := vmSize * c.topLevelArena % 2 ^ 64
  if e.mmap vmSizeGlobal then return (podCount, podCountGlobal) else throw (.exit (-1))

def initPods (e : Host) (podCountGlobal : ℕ) : Except Fault Unit := do
  e.reserve podCountGlobal
  index podCountGlobal 0

def topLevelAllocatorBundle (e : Host) (podsSize podCount : ℕ) : Except Fault ℕ := do
  let maxArena ← divideBy podCount (podsSize / ·)
  e.reserve maxArena
  return maxArena

/-- The sizes that the manager works with. -/
structure Sizes where
  podCount : ℕ
  podsSize : ℕ
  maxArena : ℕ
  bufferNormalizedSize : ℕ
  deriving DecidableEq, Repr

/-- The constructor `remon_vmm::remon_vmm` as far as it computes sizes. -/
def start (e : Host) (c : Config) : Except Fault Sizes := do
  let (podCount, podsSize) ← initVm e c
  initPods e podsSize
  let maxArena ← topLevelAllocatorBundle e podsSize podCount
  let bufferNormalizedSize ← divideBy c.pageSize (buffPod * m1 / ·)
  return ⟨podCount, podsSize, maxArena, bufferNormalizedSize⟩

def setFreeOnFooter (s : Sizes) (i n : ℕ) : Except Fault Unit :=
  index s.podsSize (toSize (toInt i + n - 1))

/-- A new arena creates its first and its last pod and enters them as a free block. -/
def addNewRegionCore (s : Sizes) (lastAllocated : ℕ) : Except Fault Unit := do
  index s.podsSize lastAllocated
  index s.podsSize (lastAllocated + s.podCount - 1)
  setFreeOnFooter s lastAllocated s.podCount

/-- `allocateNPages(1)` takes pod `i` from a free block of `n` pods and enters the rest. The sum of
the index and the argument is one of `int`s. -/
def allocatePage (s : Sizes) (i n : ℕ) : Except Fault Unit :=
  let residualSize := n - 1
  if residualSize > 0 then
    if toInt i + 1 = 2 ^ 31 then throw .undefined
    else do
      let residualI := toSize (toInt i + 1)
      index s.podsSize residualI
      if residualSize > 1 then index s.podsSize (toSize (toInt residualI + residualSize - 1))
      setFreeOnFooter s residualI residualSize
  else return ()

/-! The remainders that a buffer of `n` slots computes. -/

section Remainders

variable (n : ℕ) (q : State ℕ)

/-- The mutex that a side chooses. -/
def partitionOf (t : Side) : Except Fault ℕ := divideBy n (q.index t % ·)

def nextIndex (t : Side) : Except Fault ℕ := divideBy n ((q.index t + 1) % ·)

def boundedBufferIsFull : Except Fault Bool := divideBy n q.boundedBufferIsFull

def getBufferSize : Except Fault ℕ := divideBy n q.getBufferSize

end Remainders

/-- Nothing that the arenas and the buffers do with these sizes is undefined, and a new buffer
takes a pod. The pods of an arena are handed out one after the other. -/
structure Sizes.Usable (s : Sizes) : Prop where
  regions : ∀ k < s.maxArena, addNewRegionCore s (k * s.podCount) = .ok ()
  pages : ∀ k < s.maxArena, ∀ j < s.podCount,
    allocatePage s (k * s.podCount + j) (s.podCount - j) = .ok ()
  room : 2 ≤ s.bufferNormalizedSize
  accepts : boundedBufferIsFull s.bufferNormalizedSize (.init 0) = .ok false
  partition : ∀ q t, partitionOf s.bufferNormalizedSize q t =
    .ok (q.index t % s.bufferNormalizedSize)
  next : ∀ q t, nextIndex s.bufferNormalizedSize q t =
    .ok ((q.index t + 1) % s.bufferNormalizedSize)
  full : ∀ q, boundedBufferIsFull s.bufferNormalizedSize q =
    .ok (q.boundedBufferIsFull s.bufferNormalizedSize)
  size : ∀ q, getBufferSize s.bufferNormalizedSize q =
    .ok (q.getBufferSize s.bufferNormalizedSize)

section Pods

variable {s : Sizes}

/-- The footer of a block that begins below `2 ^ 31` is where it should be. -/
theorem setFreeOnFooter_ok {i n : ℕ} (hi : i < 2 ^ 31) (hn : 0 < n) (hend : i + n ≤ s.podsSize)
    (hsize : s.podsSize < 2 ^ 64) : setFreeOnFooter s i n = .ok () := by
  have hsum : toInt i + n - 1 = ((i + n - 1 : ℕ) : ℤ) := by
    rw [toInt_of_lt hi]
    omega
  rw [setFreeOnFooter, hsum, toSize_natCast (by omega)]
  exact index_ok (by omega)

theorem setFreeOnFooter_error {n : ℕ} (hn : n ≤ 2 ^ 31) (hpos : 0 < n)
    (hsize : s.podsSize < 2 ^ 60) : setFreeOnFooter s (2 ^ 31) n = .error .undefined := by
  rw [setFreeOnFooter, toInt_of_le le_rfl (by decide)]
  refine if_neg ?_
  have hback := toSize_of_neg (n := ((2 ^ 31 : ℕ) : ℤ) - 2 ^ 32 + n - 1) (by omega) (by omega)
  omega

theorem addNewRegionCore_ok {i : ℕ} (hi : i < 2 ^ 31) (hcount : 0 < s.podCount)
    (hend : i + s.podCount ≤ s.podsSize) (hsize : s.podsSize < 2 ^ 64) :
    addNewRegionCore s i = .ok () := by
  rw [addNewRegionCore, index_ok (by omega), ok_bind, index_ok (by omega), ok_bind]
  exact setFreeOnFooter_ok hi hcount hend hsize

theorem allocatePage_ok {i n : ℕ} (hn : 0 < n) (hi : i + n ≤ 2 ^ 31) (hend : i + n ≤ s.podsSize)
    (hsize : s.podsSize < 2 ^ 64) : allocatePage s i n = .ok () := by
  by_cases hrest : n - 1 > 0
  · have hint : toInt i + 1 = ((i + 1 : ℕ) : ℤ) := by
      rw [toInt_of_lt (by omega)]
      rfl
    have hnext : toSize (toInt i + 1) = i + 1 := by
      rw [hint]
      exact toSize_natCast (by omega)
    have hne : ¬ toInt i + 1 = 2 ^ 31 := by omega
    have hfoot := setFreeOnFooter_ok (s := s) (i := i + 1) (n := n - 1) (by omega) hrest
      (by omega) hsize
    rw [allocatePage, if_pos hrest, if_neg hne, hnext]
    dsimp only
    rw [index_ok (by omega), ok_bind]
    split
    · rw [show index s.podsSize (toSize (toInt (i + 1) + (n - 1 : ℕ) - 1)) = .ok () from hfoot,
        ok_bind, hfoot]
    · exact hfoot
  · rw [allocatePage, if_neg hrest]
    rfl

/-- The pods of all arenas have an index that is an `int`. -/
theorem regions_and_pages_iff (hcount : 0 < s.podCount)
    (hmax : s.maxArena * s.podCount ≤ s.podsSize) (hsize : s.podsSize < 2 ^ 60) :
    ((∀ k < s.maxArena, addNewRegionCore s (k * s.podCount) = .ok ()) ∧
      ∀ k < s.maxArena, ∀ j < s.podCount,
        allocatePage s (k * s.podCount + j) (s.podCount - j) = .ok ()) ↔
      s.maxArena * s.podCount ≤ 2 ^ 31 := by
  constructor
  · rintro ⟨hregions, hpages⟩
    by_contra hlarge
    rw [not_le] at hlarge
    -- the arena of the last pod whose index is an `int`
    set k := (2 ^ 31 - 1) / s.podCount with hk
    set j := (2 ^ 31 - 1) % s.podCount with hj
    have hdiv : k * s.podCount + j = 2 ^ 31 - 1 := Nat.div_add_mod' _ _
    have hjlt : j < s.podCount := Nat.mod_lt _ hcount
    have hkmax : k < s.maxArena := by
      by_contra hle
      have := Nat.mul_le_mul_right s.podCount (not_lt.mp hle)
      omega
    by_cases hlast : j + 1 = s.podCount
    · -- the next arena begins at `2 ^ 31`
      have hstart : (k + 1) * s.podCount = 2 ^ 31 := by
        rw [Nat.succ_mul]
        omega
      have hkmax' : k + 1 < s.maxArena := by
        by_contra hle
        have := Nat.mul_le_mul_right s.podCount (not_lt.mp hle)
        omega
      have hle : s.podCount ≤ 2 ^ 31 := by
        rw [← hstart, Nat.succ_mul]
        exact Nat.le_add_left _ _
      have hrun := hregions (k + 1) hkmax'
      rw [hstart] at hrun
      obtain ⟨-, -, hrun⟩ := of_bind_ok hrun
      obtain ⟨-, -, hrun⟩ := of_bind_ok hrun
      rw [setFreeOnFooter_error hle hcount hsize] at hrun
      cases hrun
    · have hrun := hpages k hkmax j hjlt
      have hover : toInt (2 ^ 31 - 1) + 1 = 2 ^ 31 := by decide
      rw [hdiv, allocatePage, if_pos (by omega), if_pos hover] at hrun
      cases hrun
  · intro hsmall
    have hend : ∀ k < s.maxArena, k * s.podCount + s.podCount ≤ s.maxArena * s.podCount := by
      intro k hk
      rw [← Nat.succ_mul]
      exact Nat.mul_le_mul_right _ hk
    refine ⟨fun k hk => ?_, fun k hk j hj => ?_⟩
    · have := hend k hk
      exact addNewRegionCore_ok (by omega) hcount (by omega) (by omega)
    · have := hend k hk
      exact allocatePage_ok (by omega) (by omega) (by omega) (by omega)

theorem Sizes.usable_iff (hcount : 0 < s.podCount) (hmax : s.maxArena * s.podCount ≤ s.podsSize)
    (hsize : s.podsSize < 2 ^ 60) :
    s.Usable ↔ s.maxArena * s.podCount ≤ 2 ^ 31 ∧ 2 ≤ s.bufferNormalizedSize := by
  have hpods := regions_and_pages_iff hcount hmax hsize
  constructor
  · exact fun hu => ⟨hpods.mp ⟨hu.regions, hu.pages⟩, hu.room⟩
  · rintro ⟨hsmall, hroom⟩
    have hpos : 0 < s.bufferNormalizedSize := by omega
    have hone : (0 + 1) % s.bufferNormalizedSize ≠ 0 := by
      rw [Nat.mod_eq_of_lt (by omega)]
      decide
    constructor
    case regions => exact (hpods.mpr hsmall).1
    case pages => exact (hpods.mpr hsmall).2
    case room => exact hroom
    case accepts =>
      rw [boundedBufferIsFull, divideBy_ok _ hpos]
      exact congrArg _ (decide_eq_false hone)
    case partition => exact fun q t => divideBy_ok _ hpos
    case next => exact fun q t => divideBy_ok _ hpos
    case full => exact fun q => divideBy_ok _ hpos
    case size => exact fun q => divideBy_ok _ hpos

end Pods

/-! ## Usable configurations -/

namespace Config

variable (c : Config)

def podCount : ℕ := c.maxVmInGB * gb / c.pageSize

def podsSize : ℕ := c.podCount * c.topLevelArena % 2 ^ 64

def maxArena : ℕ := c.podsSize / c.podCount

def sizes : Sizes := ⟨c.podCount, c.podsSize, c.maxArena, buffPod * m1 / c.pageSize⟩

/-- The host ends the start when it refuses memory, and otherwise the sizes are usable. -/
def Works : Prop :=
  ∀ e : Host, Yields (fun err => err = .exit (-1) ∨ err = .uncaught) (start e c) Sizes.Usable

/-- The region has a size. If it is not empty, and the vector of its pods can be made, then there is
a pod, the indices of the pods are `int`s, and a buffer has two slots. -/
def Sound : Prop :=
  c.maxVmInGB * gb < 2 ^ 64 ∧ 0 < c.pageSize ∧
    (c.maxVmInGB * gb * c.topLevelArena % 2 ^ 64 ≠ 0 → c.podsSize < 2 ^ 60 →
      0 < c.podsSize ∧ c.maxArena * c.podCount ≤ 2 ^ 31 ∧ c.pageSize ≤ 32 * m1)

instance : Decidable c.Sound := by
  unfold Sound
  infer_instance

end Config

variable {c : Config}

theorem two_le_slots_iff {p : ℕ} (hp : 0 < p) : 2 ≤ buffPod * m1 / p ↔ p ≤ 32 * m1 := by
  rw [Nat.le_div_iff_mul_le hp]
  unfold buffPod m1
  omega

theorem podCount_pos (hpods : 0 < c.podsSize) : 0 < c.podCount := by
  refine Nat.pos_of_ne_zero fun hzero => hpods.ne' ?_
  rw [Config.podsSize, hzero, Nat.zero_mul, Nat.zero_mod]

/-- What the start does with what the host grants. -/
theorem start_eq (e : Host) (hrange : c.maxVmInGB * gb < 2 ^ 64) (hpage : 0 < c.pageSize) :
    start e c =
      if e.mmap (c.maxVmInGB * gb * c.topLevelArena % 2 ^ 64) = false then .error (.exit (-1))
      else if e.room c.podsSize = false then .error .uncaught
      else if c.podsSize = 0 then .error .undefined
      else if e.room c.maxArena = false then .error .uncaught
      else .ok c.sizes := by
  have hsize : c.vmSize = .ok (c.maxVmInGB * gb) := if_pos hrange
  have hvm : initVm e c = if e.mmap (c.maxVmInGB * gb * c.topLevelArena % 2 ^ 64) = true then
      .ok (c.podCount, c.podsSize) else .error (.exit (-1)) := by
    rw [initVm, hsize, ok_bind, divideBy_ok _ hpage]
    rfl
  rw [start, hvm]
  cases e.mmap (c.maxVmInGB * gb * c.topLevelArena % 2 ^ 64) with
  | false => rfl
  | true =>
    rw [if_pos rfl, if_neg (by simp), ok_bind]
    dsimp only
    rw [initPods, Host.reserve]
    cases e.room c.podsSize with
    | false => rfl
    | true =>
      rw [if_pos rfl, if_neg (by simp), ok_bind, index]
      by_cases hpods : c.podsSize = 0
      · rw [if_neg (by omega), if_pos hpods]
        rfl
      · rw [if_pos (by omega), if_neg hpods, ok_bind, topLevelAllocatorBundle,
          divideBy_ok _ (podCount_pos (Nat.pos_of_ne_zero hpods)), ok_bind, Host.reserve]
        change (if e.room c.maxArena = true then _ else _) >>= _ >>= _ = _
        cases e.room c.maxArena with
        | false => rfl
        | true =>
          rw [if_pos rfl, if_neg (by simp)]
          simp only [ok_bind, divideBy_ok _ hpage, pure_eq]
          rfl

/-- A host that refuses nothing but the empty mapping and vectors that cannot be. -/
def lavishHost : Host :=
  ⟨fun n => decide (n ≠ 0), fun n => decide (n < 2 ^ 60), rfl, fun _ h => of_decide_eq_true h⟩

theorem maxArena_mul_le : c.sizes.maxArena * c.sizes.podCount ≤ c.sizes.podsSize :=
  Nat.div_mul_le_self _ _

theorem Config.Sound.works (hs : c.Sound) : c.Works := by
  obtain ⟨hrange, hpage, hrest⟩ := hs
  intro e
  rw [start_eq e hrange hpage]
  split_ifs with hmap hroom hzero hroom'
  · exact .inl rfl
  · exact .inr rfl
  · refine (hrest ?_ ?_).1.ne' hzero |>.elim
    · rintro hz
      rw [hz] at hmap
      exact hmap e.mmap_zero
    · exact e.room_lt _ (by simpa using hroom)
  · exact .inr rfl
  · have hlt := e.room_lt _ (by simpa using hroom)
    have hne : c.maxVmInGB * gb * c.topLevelArena % 2 ^ 64 ≠ 0 := by
      intro hz
      rw [hz] at hmap
      exact hmap e.mmap_zero
    obtain ⟨hpods, hsmall, hlarge⟩ := hrest hne hlt
    exact (Sizes.usable_iff (podCount_pos hpods) maxArena_mul_le hlt).mpr
      ⟨hsmall, (two_le_slots_iff hpage).mpr hlarge⟩

theorem Config.Works.sound (hw : c.Works) : c.Sound := by
  have hrun := hw lavishHost
  have hrange : c.maxVmInGB * gb < 2 ^ 64 := by
    by_contra hlarge
    have hsize : c.vmSize = .error .undefined := if_neg hlarge
    rw [start, initVm, hsize] at hrun
    rcases hrun with hc | hc <;> cases hc
  have hpage : 0 < c.pageSize := by
    refine Nat.pos_of_ne_zero fun hzero => ?_
    have hsize : c.vmSize = .ok (c.maxVmInGB * gb) := if_pos hrange
    rw [start, initVm, hsize, ok_bind, hzero] at hrun
    rcases hrun with hc | hc <;> cases hc
  refine ⟨hrange, hpage, ?_⟩
  intro hmap hroom
  have hroom' : c.maxArena < 2 ^ 60 := (Nat.div_le_self _ _).trans_lt hroom
  have hgrant : lavishHost.mmap (c.maxVmInGB * gb * c.topLevelArena % 2 ^ 64) ≠ false ∧
      lavishHost.room c.podsSize ≠ false ∧ lavishHost.room c.maxArena ≠ false :=
    ⟨by rw [show lavishHost.mmap _ = true from decide_eq_true hmap]; simp,
      by rw [show lavishHost.room _ = true from decide_eq_true hroom]; simp,
      by rw [show lavishHost.room _ = true from decide_eq_true hroom']; simp⟩
  rw [start_eq _ hrange hpage, if_neg hgrant.1, if_neg hgrant.2.1] at hrun
  by_cases hzero : c.podsSize = 0
  · rw [if_pos hzero] at hrun
    rcases hrun with hc | hc <;> cases hc
  · have hpods := Nat.pos_of_ne_zero hzero
    rw [if_neg hzero, if_neg hgrant.2.2] at hrun
    obtain ⟨hsmall, hslots⟩ :=
      (Sizes.usable_iff (podCount_pos hpods) maxArena_mul_le hroom).mp hrun
    exact ⟨hpods, hsmall, (two_le_slots_iff hpage).mp hslots⟩

/-- A configuration that is accepted is usable exactly if the sizes that follow from it are in
range. -/
theorem accepted_config_usable (vm proposed arenas : ℕ) :
    (Config.load vm proposed arenas).Works ↔ (Config.load vm proposed arenas).Sound :=
  ⟨Config.Works.sound, Config.Sound.works⟩

/-- The default page size with 64 GiB and 8 arenas, and a product of sizes that wraps to one
arena. -/
example : (Config.load 64 851968 8).Works ∧ (Config.load 1024 4096 (2 ^ 36 + 1)).Works :=
  ⟨Config.Sound.works (by decide), Config.Sound.works (by decide)⟩

/-- Accepted configurations that are not usable. With a region of 1 GiB and one arena, a page of 0
bytes, which is also what a text that is no number gives, is a division by zero; pages of 2 GiB
leave an empty vector whose first pod is created; with pages of 128 MiB the buffers have no slot to
take remainders by, and with pages of 64 MiB their one slot is full from the start. With two arenas
of 8 TiB and pages of 4096 bytes the second arena begins at pod `2 ^ 31`, whose index is a negative
`int`. -/
theorem accepted_config_unusable :
    (∀ n ∈ [0, 2 ^ 31, 2 ^ 27, 2 ^ 26], (Config.load 1 n 1).pageSize = n ∧
      ¬ (Config.load 1 n 1).Works) ∧
    start lavishHost (Config.load 1 0 1) = .error .undefined ∧
    start lavishHost (Config.load 1 (2 ^ 31) 1) = .error .undefined ∧
    start lavishHost (Config.load 1 (2 ^ 27) 1) = .ok ⟨8, 8, 1, 0⟩ ∧
    partitionOf 0 (.init 0) .producer = .error .undefined ∧
    start lavishHost (Config.load 1 (2 ^ 26) 1) = .ok ⟨16, 16, 1, 1⟩ ∧
    boundedBufferIsFull 1 (.init 0) = .ok true ∧
    ¬ (Config.load 8192 4096 2).Works ∧
    start lavishHost (Config.load 8192 4096 2) = .ok ⟨2 ^ 31, 2 ^ 32, 2, 16384⟩ ∧
    addNewRegionCore ⟨2 ^ 31, 2 ^ 32, 2, 16384⟩ (2 ^ 31) = .error .undefined := by
  refine ⟨?_, ?_, ?_, ?_, rfl, ?_, rfl, ?_, ?_, ?_⟩
  · have hsound : ∀ n ∈ [0, 2 ^ 31, 2 ^ 27, 2 ^ 26], (Config.load 1 n 1).pageSize = n ∧
        ¬ (Config.load 1 n 1).Sound := by decide
    exact fun n hn => ⟨(hsound n hn).1, fun hw => (hsound n hn).2 hw.sound⟩
  · decide +kernel
  · decide +kernel
  · decide +kernel
  · decide +kernel
  · exact fun hw => absurd hw.sound (by decide)
  · decide +kernel
  · decide +kernel

end Remon.Vmm.Startup
