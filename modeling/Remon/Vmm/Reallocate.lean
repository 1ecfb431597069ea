import Remon.Vmm.SerialCalls

/-! # Reallocation

`Allocator::ReallocateData` of the database asks for a new block, copies the old size to it and
frees the old block. It looks neither at whether it got a block nor at whether the block is as
long as what it copies.
-/

namespace Remon
open Function Lib Heap Fault List

namespace Session

variable {L : ℕ → Layout} {path : ℕ → String} {s s' : Session} {l : ℕ} {x : Grant}

theorem grant_last {ptr size : ℕ} (hx : (s.grant l ptr size).live = x :: s.live) :
    ((s.grant l ptr size).lists l).lastAllocatedPod = some x.pod := by
  unfold grant at hx ⊢
  split at hx
  · exact absurd hx.symm (cons_ne_self x s.live)
  · next i hi =>
    obtain ⟨rfl, -⟩ := List.cons.inj hx
    exact hi

theorem allocate_last {size : ℕ} {c : Choice} (run : s.step L path (.allocate l size c) = .ok s')
    (hx : s'.live = x :: s.live) : (s'.lists l).lastAllocatedPod = some x.pod := by
  obtain ⟨⟨ptr, g⟩, -, hs'⟩ := of_bind_ok run
  obtain rfl := Except.ok.inj hs'
  by_cases hp : ptr = 0
  · rw [if_pos hp] at hx
    exact absurd hx.symm (cons_ne_self x s.live)
  · rw [if_neg hp] at hx ⊢
    exact grant_last (s := { s with toPager := g }) hx

theorem addPodAndAllocate_last {i : ℕ} (run : s.step L path (.addPodAndAllocate l i) = .ok s')
    (hx : s'.live = x :: s.live) : (s'.lists l).lastAllocatedPod = some x.pod := by
  simp only [step] at run
  split at run
  · cases run
  · obtain ⟨⟨ptr, g⟩, -, hs'⟩ := of_bind_ok run
    obtain rfl := Except.ok.inj hs'
    dsimp only at hx ⊢
    by_cases hp : ptr = 0
    · rw [if_pos hp] at hx
      exact absurd hx.symm (cons_ne_self x s.live)
    · rw [if_neg hp] at hx ⊢
      exact grant_last (s := { s with
        toPager := g, wanting := update s.wanting l none }) hx

theorem allocate_refused {size : ℕ} {c : Choice} (hsize : ∀ i, (L i).maxIntraPodSize < size)
    (run : s.step L path (.allocate l size c) = .ok s') :
    s'.live = s.live ∧ s'.wanting = update s.wanting l (some size) := by
  obtain ⟨⟨ptr, g⟩, hrun, hs'⟩ := of_bind_ok run
  obtain rfl := Except.ok.inj hs'
  obtain ⟨⟨ptr', t⟩, ht, hptr⟩ := of_bind_ok hrun
  cases hptr
  obtain rfl : ptr = 0 := (SplState.allocate_oversized hsize).result ht
  exact ⟨rfl, rfl⟩

theorem addPodAndAllocate_refused {i size : ℕ} (hsize : ∀ i, (L i).maxIntraPodSize < size)
    (hw : s.wanting l = some size) (run : s.step L path (.addPodAndAllocate l i) = .ok s') :
    s'.live = s.live := by
  simp only [step, hw] at run
  obtain ⟨⟨ptr, g⟩, hrun, hs'⟩ := of_bind_ok run
  obtain rfl := Except.ok.inj hs'
  obtain ⟨p, -, hrun⟩ := of_bind_ok hrun
  obtain ⟨⟨ptr', t⟩, ht, hptr⟩ := of_bind_ok hrun
  cases hptr
  obtain rfl : ptr = 0 := (SplState.addPodAndAllocate_oversized hsize).result ht
  rfl

end Session

theorem Pager.free_local {L : ℕ → Layout} {g g' : Pager} {i x : ℕ} {full : Bool}
    (hs : (g.pods i).state = .local_) (run : g.free L i x = .ok (full, g')) : full = false := by
  rw [Pager.free] at run
  split at run
  · cases run
  · next l _ =>
    obtain ⟨⟨full', t⟩, ht, hfull⟩ := of_bind_ok run
    cases hfull
    unfold SplState.free Pod.addToFreeBufferReturnIfFull at ht
    have hs' : ((g.spl l).pods i).state = .local_ := hs
    simp only [hs', reduceCtorEq, or_self, if_false] at ht
    split at ht
    · obtain ⟨u, -, hu⟩ := of_bind_ok ht
      cases hu
      rfl
    · cases ht
      rfl

namespace Manager

variable {c : Setup} {path : ℕ → String} {net : Manager → ℕ → Fetch} {m m' : Manager}
  {h h' : ∀ i, AbsHeap (c.L i)} {a i l size : ℕ} {r : ℕ × ℕ} {x : Grant} {z : HugeCall}

/-! ## Blocks and their room -/

namespace Inv

variable {b : Prop} (hm : m.Inv c path b h)
include hm

/-- No two blocks begin at the same address. -/
theorem starts_nodup : ((m.allocations c).map Prod.fst).Nodup := by
  have hd := hm.holdings
  rw [allocations, map_append, map_map, map_map, nodup_append']
  refine ⟨?_, ?_, ?_⟩
  · have hkeys := pairwise_map.mp hm.session.apart
    refine pairwise_map.mpr (hkeys.imp_of_mem ?_)
    intro x y hx hy hne hc
    have hptr : x.ptr = y.ptr := hc
    refine hne (Prod.ext ?_ hptr)
    rw [← (hm.responsible hx).1, ← (hm.responsible hy).1, hptr]
  · have hnd := hd.nodup
    rw [Holdings.blocks, map_append, append_assoc] at hnd
    have hblocks := pairwise_map.mp (nodup_append'.mp hnd).1
    refine pairwise_map.mpr (hblocks.imp_of_mem ?_)
    intro y z hy hz hne hc
    have hstart : (c.L y.head).payloadStart = (c.L z.head).payloadStart := hc
    have hhead : y.head = z.head := by
      rw [← hm.responsible_head (mem_append_left _ hy),
        ← hm.responsible_head (mem_append_left _ hz), hstart]
    have hz' := Holdings.block_mem (mem_append_left m.setting hz)
    refine hne (hd.apart (Holdings.block_mem (mem_append_left m.setting hy)) hz'
      (i := z.head) ?_ (hd.covers_self hz'))
    rw [← hhead]
    exact hd.covers_self (Holdings.block_mem (mem_append_left m.setting hy))
  · intro p hp hp'
    obtain ⟨x, hx, rfl⟩ := mem_map.mp hp
    obtain ⟨z, hz, hzx⟩ := mem_map.mp hp'
    have hstart : (c.L z.head).payloadStart = x.ptr := hzx
    obtain ⟨hpod, hne⟩ := hm.responsible hx
    have hhead := hm.responsible_head (mem_append_left m.setting hz)
    rw [hstart, hpod] at hhead
    rw [← hhead] at hstart
    exact hne hstart

theorem local_of_last (hx : x ∈ m.live) (hl : (m.lists l).lastAllocatedPod = some x.pod) :
    (m.pods x.pod).state = .local_ := by
  obtain ⟨n, -, hq, -⟩ := hm.block_of_live hx
  rcases ((hm.session.pager.lists l).last x.pod hl).2 with hr | ⟨-, -, hin⟩
  · exact hr.2.1
  · have hmade := (hm.session.pager.of_live ((h x.pod).isLive_iff.mpr ⟨n, hq⟩)).1
    exact absurd (hmade.symm.trans hin) (by simp)

theorem local_of_resident (hx : x ∈ m.live) (hres : m.Resident x.pod) :
    (m.pods x.pod).state = .local_ := by
  obtain ⟨n, -, hq, -⟩ := hm.block_of_live hx
  obtain ⟨hin, k, hk⟩ := hm.session.pager.of_live ((h x.pod).isLive_iff.mpr ⟨n, hq⟩)
  rcases hres with hs | hs | hs
  · exact absurd (hin.symm.trans (hm.session.pager.inited_of_init hs)) (by simp)
  · exact hs
  · exact absurd hs (hm.session.pager.pinned x.pod k hk)

theorem room_small (hx : x ∈ m.live) (hs : (m.pods x.pod).state = .local_) :
    ∃ n, AbsHeap.Cut x.size n ∧ (m.cell h x.pod).Held x.ptr n ∧
      m.room c x.ptr = n - overhead := by
  obtain ⟨n, hn, hheld⟩ := hm.session.held x hx
  refine ⟨n, hn, hheld, ?_⟩
  obtain ⟨hpod, hne⟩ := hm.responsible hx
  have hmod := ((World.models_resident (.inl hs)).mp (hm.session.pager.pages x.pod)).1
  have hsize : getBlockSize (m.pods x.pod).mem x.ptr = n := by
    rcases hmod.page with ⟨-, hsp⟩ | ⟨-, hfresh⟩
    · exact (hsp.edges.read hheld.1).1
    · have hq : (h x.pod).Alloc x.ptr n := hheld.1
      rw [hfresh] at hq
      exact absurd hq (AbsHeap.not_alloc_fresh _ _)
  rw [room, hpod, if_neg hne, hsize]

theorem room_huge (hz : z ∈ m.huge) : m.room c (hugeBytes c z).1 = (hugeBytes c z).2 := by
  have hblock := Holdings.block_mem (mem_append_left m.setting hz)
  have hhead := hm.responsible_head (mem_append_left m.setting hz)
  obtain ⟨t, ht⟩ := Option.ne_none_iff_exists'.mp
    (hm.created (.inr ⟨z, hz, hm.holdings.covers_self hblock⟩))
  have ht : m.tagOf c z.head = some t := ht
  have hsize : t.globalSize = z.pages := hm.holdings.globalSize hblock ht
  rw [hugeBytes, room, hhead, if_pos rfl, ht]
  dsimp only
  rw [hsize]

theorem ptr_ne_zero (hx : x ∈ m.live) : x.ptr ≠ 0 := by
  obtain ⟨n, -, ha, -⟩ := hm.session.held x hx
  obtain ⟨hlow, -⟩ := (h x.pod).sized.placed ha
  have := (c.L x.pod).start_pos
  omega

/-- The bytes of a block can be reached if its pages can. -/
theorem reaches (hr : r ∈ m.allocations c) (h1 : r.1 ≤ a) (h2 : a < r.1 + r.2)
    (hf : m.Fetchable (c.getResponsiblePod a)) : m.Reaches c h a := by
  obtain ⟨-, hlow, hhigh⟩ := hm.allocations_placed r hr
  refine ⟨⟨hlow.trans h1, h2.trans_le hhigh⟩, hm.guarded hr h1 h2, ?_, hf⟩
  rcases hm.owner hr h1 h2 with ⟨x, hx, -, hpod⟩ | ⟨z, hz, -, hcov⟩
  · exact .inl ⟨x, hx, hpod⟩
  · exact .inr ⟨z, hz, hcov⟩

theorem reaches_small (hx : x ∈ m.live) (hs : (m.pods x.pod).state = .local_) (h1 : x.ptr ≤ a)
    (h2 : a < x.ptr + m.room c x.ptr) : m.Reaches c h a := by
  obtain ⟨n, -, hheld, hroom⟩ := hm.room_small hx hs
  have hblock := hm.page_of_live hx
  have hspans := hm.spans_alloc hblock hheld.1
  rw [hroom] at h2
  unfold overhead dsize at h2
  have hlt : a < x.ptr + n := by omega
  obtain ⟨hlow, hhigh⟩ := hspans.inside hm.holdings hblock
  obtain ⟨hle, hgt⟩ := hspans.covers h1 hlt
  have hpod : x.pod = c.getResponsiblePod a := le_antisymm hle (Nat.lt_succ_iff.mp hgt)
  refine ⟨⟨hlow.trans h1, hlt.trans_le hhigh⟩, ?_, .inl ⟨x, hx, hpod⟩, ?_⟩
  · rw [← hpod]
    exact .inl ⟨x.ptr, n, hheld, h1, by omega⟩
  · rw [← hpod]
    exact .of_state hs (by simp)

theorem apart_small (hx : x ∈ m.live) (hs : (m.pods x.pod).state = .local_)
    (hr : r ∈ m.allocations c) (hne : r.1 ≠ x.ptr) : Apart r (x.ptr, m.room c x.ptr) := by
  obtain ⟨n, -, hheld, hroom⟩ := hm.room_small hx hs
  obtain ⟨k, hk⟩ := hm.listed_of_live hx
  have hsmall := hm.homes.listed x.pod k hk
  have hwhole : Apart r (x.ptr, n) := by
    rcases mem_append.mp hr with hr | hr
    · obtain ⟨y, hy, rfl⟩ := mem_map.mp hr
      exact hm.small_apart hsmall hheld.1 hy (fun _ => hne)
    · obtain ⟨z, hz, rfl⟩ := mem_map.mp hr
      exact hm.huge_apart hsmall hheld.1 hz
  rw [hroom]
  exact hwhole.shrink (Nat.sub_le _ _)

end Inv

/-! ## Requests -/

theorem newPtr_cons (hlive : m'.live = x :: m.live) : m.newPtr m' = x.ptr := by
  simp [newPtr, hlive]

theorem newPtr_sublist (hlive : m'.live.Sublist m.live) : m.newPtr m' = 0 := by
  rw [newPtr, Nat.sub_eq_zero_of_le hlive.length_le, take_zero]

variable (c) in
/-- The thread is not in another call, its buffer has the page that it waits for, its arena was
made, and the number of pages that it may ask for is an `int`. -/
structure Admits (m : Manager) (q : Caller) (size : ℕ) : Prop where
  idle : m.wanting q.list = none
  newPod : isSmall c.pageSize size = true → q.newPod ∈ m.buffered
  arena : q.arena < m.arenaCount
  pages : isSmall c.pageSize size = false → c.numPageNeeded size < 2 ^ 31

variable (c) in
/-- There is a block for the request: a small one fits a page, and a huge one finds a run of pages
in the arena of the thread, all of which can be brought in. -/
def Provides (m : Manager) (q : Caller) (size : ℕ) : Prop :=
  if isSmall c.pageSize size = true then size + 48 ≤ c.pageSize
  else ∃ p, (m.arenas q.arena).arena.nextRun (c.numPageNeeded size) = some p ∧
    ∀ i, Arena.Covers (p, c.numPageNeeded size) i → m.Fetchable i

/-- The bytes between header and footer of a small block of the size that is asked for, and the
pages of a huge one. -/
def capacity (c : Setup) (size : ℕ) : ℕ :=
  if isSmall c.pageSize size = true then computeAsize size - overhead
  else c.numPageNeeded size * c.pageSize

/-- A rest of 16 bytes is not split from a small block. -/
def slack (c : Setup) (size : ℕ) : ℕ :=
  if isSmall c.pageSize size = true then 16 else 0

variable (c path) in
/-- A request of `size` bytes got the block at `addr`, and the other blocks are as they were. -/
structure Obtains (m : Manager) (size addr : ℕ) (m' : Manager) (h' : ∀ i, AbsHeap (c.L i)) :
    Prop where
  inv : m'.Inv c path False h'
  carries : Carries c path (fun _ => False) m m'
  block : ∃ n, (m'.allocations c).Perm ((addr, n) :: m.allocations c) ∧ size ≤ n ∧
    n ≤ m'.room c addr
  room : capacity c size ≤ m'.room c addr ∧ m'.room c addr ≤ capacity c size + slack c size
  reaches : ∀ a, addr ≤ a → a < addr + m'.room c addr → m'.Reaches c h' a
  apart : ∀ r ∈ m'.allocations c, r.1 ≠ addr → Apart r (addr, m'.room c addr)

namespace Inv

variable (hm' : m'.Inv c path False h')
include hm'

theorem obtains_small (hsmall : isSmall c.pageSize size = true)
    (hc : Carries c path (fun _ => False) m m') (hlive : m'.live = x :: m.live)
    (hhuge : m'.huge = m.huge) (hlast : (m'.lists l).lastAllocatedPod = some x.pod)
    (hsize : x.size = computeAsize size) : Obtains c path m size x.ptr m' h' := by
  have hx : x ∈ m'.live := by
    rw [hlive]
    exact mem_cons_self
  have hs := hm'.local_of_last hx hlast
  obtain ⟨n, ⟨hlow, hhigh⟩, -, hroom⟩ := hm'.room_small hx hs
  have hle := le_computeAsize size
  refine ⟨hm', hc, ⟨x.size - overhead, ?_, ?_, ?_⟩, ?_, ?_, ?_⟩
  · rw [allocations, hlive, hhuge]
    exact .refl _
  · omega
  · rw [hroom]
    exact Nat.sub_le_sub_right hlow _
  · rw [hroom, capacity, slack, if_pos hsmall, if_pos hsmall]
    omega
  · exact fun a h1 h2 => hm'.reaches_small hx hs h1 h2
  · exact fun r hr hne => hm'.apart_small hx hs hr hne

theorem obtains_huge (hlarge : isSmall c.pageSize size = false)
    (hc : Carries c path (fun _ => False) m m') (hlive : m'.live = m.live)
    (hhuge : m'.huge = z :: m.huge) (hsize : z.size = size)
    (hfetch : ∀ i, Arena.Covers z.block i → m'.Fetchable i) :
    Obtains c path m size (hugeBytes c z).1 m' h' := by
  have hz : z ∈ m'.huge := by
    rw [hhuge]
    exact mem_cons_self
  have hmem : hugeBytes c z ∈ m'.allocations c :=
    mem_append_right _ (mem_map_of_mem hz)
  have hpages := (hm'.holdings.calls z (mem_append_left _ hz)).pages
  refine ⟨hm', hc, ⟨(hugeBytes c z).2, ?_, ?_, (hm'.room_huge hz).ge⟩, ?_, ?_, ?_⟩
  · rw [allocations, hlive, hhuge]
    exact perm_middle
  · rw [← hsize]
    exact hm'.huge_room hz
  · rw [hm'.room_huge hz, capacity, slack, if_neg (by simp [hlarge]), if_neg (by simp [hlarge]),
      hugeBytes, hpages, hsize]
    exact ⟨le_rfl, le_rfl⟩
  · intro a h1 h2
    rw [hm'.room_huge hz] at h2
    exact hm'.reaches hmem h1 h2 (hfetch _ ((hm'.spans_huge hz).covers h1 h2))
  · intro r hr hne
    rw [hm'.room_huge hz]
    have : Std.Symm Apart := ⟨fun _ _ hrs => hrs.symm⟩
    exact hm'.allocations_apart.forall hr hmem (fun hc => hne (congrArg Prod.fst hc))

end Inv

/-! ### Huge requests -/

section Huge

variable {p n : ℕ} (hinj : Injective path) (hnet : Answers c path net)

theorem Inv.call_tag {b : Prop} (hm : m.Inv c path b h) (hz : m.callAt p = some z) :
    ∃ t, m.tagOf c p = some t ∧ t.globalSize = z.pages := by
  obtain ⟨hmem, hhead⟩ := Holdings.mem_of_callAt hz
  cases ht : m.tagOf c p with
  | none =>
    have hheader := hm.holdings.header (Holdings.block_mem (mem_append_right m.huge hmem))
    rw [← hhead] at ht
    have ht : (m.arenaOf c z.block.1).arena.pods z.block.1 = none := ht
    simp [Arena.State.tag, ht] at hheader
  | some t => exact ⟨t, rfl, (hm.next_covered hz ht).2.2⟩

theorem arenaOf_setArena {d : Holdings} {b : Arena.Session} :
    (d.setArena (p / c.localPodCount) b).arenaOf c p = b :=
  update_self _ _ _

theorem setTag_returns {d : Holdings} {f : Arena.PageTag → Arena.PageTag}
    (hmade : (d.arenaOf c p).arena.Made i) :
    ∃ d', d.setTag c p i f = .ok d' ∧ (d'.arenaOf c p).arena.Made i := by
  refine ⟨d.setArena (p / c.localPodCount)
    ⟨(d.arenaOf c p).arena.adjust i f, (d.arenaOf c p).live⟩, ?_, ?_⟩
  · rw [Holdings.setTag, Arena.State.modify_eq hmade]
    rfl
  · rw [arenaOf_setArena]
    exact Arena.State.made_adjust.mpr hmade

theorem page_returns (d : Holdings) (z : HugeCall) :
    ∃ d₁ d₂, d.enterPage c z = .ok d₁ ∧ d₁.leavePage c z = .ok d₂ := by
  have hmade : ((d.setArena (z.head / c.localPodCount)
      ⟨(d.arenaOf c z.head).arena.mapForPodI z.next, (d.arenaOf c z.head).live⟩).arenaOf c
        z.head).arena.Made z.next := by
    rw [arenaOf_setArena]
    exact Arena.State.made_mapForPodI.mpr (.inl rfl)
  obtain ⟨d₁, henter, hmade₁⟩ := setTag_returns (c := c)
    (f := fun t => { t with headPod := .pod z.head }) hmade
  obtain ⟨d₂, hleave, -⟩ := setTag_returns (c := c) (f := fun t => { t with isFree := false })
    hmade₁
  exact ⟨d₁, { d₂ with setting := { z with next := z.next + 1 } :: d₂.setting.erase z }, henter,
    by rw [Holdings.leavePage, hleave]; rfl⟩

include hinj hnet in
theorem Inv.hugePage_returns (hm : m.Inv c path False h) (hz : m.callAt p = some z)
    (hfetch : m.Fetchable z.next) :
    ∃ m', m.step c path (.hugePage p (net m z.next)) = .ok m' := by
  obtain ⟨d₁, d₂, henter, hleave⟩ := page_returns (c := c) m.toHoldings z
  have hlocal : ∃ t, m.enterLocal c path z.next (net m z.next) = .ok t := by
    rw [enterLocal]
    split
    · obtain ⟨hhonest, hreply⟩ := hnet m h z.next hm
      obtain ⟨g, hrun, -⟩ := hm.session.pager.activatePod_returns hinj hhonest hfetch hreply
      exact ⟨_, by rw [Session.step, hrun]; rfl⟩
    · exact ⟨_, rfl⟩
  obtain ⟨t, ht⟩ := hlocal
  refine ⟨{ m with toSession := t, toHoldings := d₂ }, ?_⟩
  simp only [Manager.step, hz, henter, ht, hleave, ok_bind, pure_eq]

theorem fetchable_of_hugePage {f : Fetch} (hz : m.callAt p = some z)
    (run : m.step c path (.hugePage p f) = .ok m') : m.Fetchable z.next := by
  simp only [step, hz] at run
  obtain ⟨d, -, run⟩ := of_bind_ok run
  obtain ⟨t, ht, -⟩ := of_bind_ok run
  rw [enterLocal] at ht
  split at ht
  · obtain ⟨g, hrun, -⟩ := of_bind_ok ht
    exact Pager.fetchable_of_activatePod hrun
  · next hs => exact .of_state (not_not.mp hs) (by simp)

include hinj hnet in
theorem Inv.hugePage (hm : m.Inv c path False h) (hz : m.callAt p = some z)
    (hlt : z.next < z.head + z.pages)
    (run : m.step c path (.hugePage p (net m z.next)) = .ok m') :
    ∃ h', m'.Inv c path False h' ∧ Carries c path (fun _ => False) m m' ∧ m'.live = m.live ∧
      m'.huge = m.huge ∧ m'.callAt p = some { z with next := z.next + 1 } := by
  have hhead := (Holdings.mem_of_callAt hz).2
  obtain ⟨t, ht, hsize⟩ := hm.call_tag hz
  have hlegal : m.Legal c (.hugePage p (net m z.next)) :=
    ⟨z, hz, (hnet m h z.next hm).1, t, ht, by omega⟩
  obtain ⟨h', hm', hcarry⟩ := hm.carry hinj run hlegal trivial trivial (by simp)
  exact ⟨h', hm', hcarry, hugePage_frame hz run⟩

include hinj hnet in
/-- The loop of `hugeMalloc` comes to its end exactly if all its pages can be brought in. -/
theorem Inv.hugePages (hm : m.Inv c path False h) (hz : m.callAt p = some z)
    (hlen : z.next + n ≤ z.head + z.pages)
    (hfetch : ∀ i, z.next ≤ i → i < z.next + n → m.Fetchable i) :
    ∃ m' h', Manager.hugePages c path net p n m = .ok m' ∧ m'.Inv c path False h' ∧
      Carries c path (fun _ => False) m m' ∧ m'.live = m.live ∧ m'.huge = m.huge ∧
      m'.callAt p = some { z with next := z.next + n } := by
  induction n generalizing m z h with
  | zero => exact ⟨m, h, rfl, hm, .refl _ _, rfl, rfl, hz⟩
  | succ n ih =>
    obtain ⟨m₁, hstep⟩ := hm.hugePage_returns hinj hnet hz (hfetch z.next le_rfl (by omega))
    obtain ⟨h₁, hm₁, hcarry, hlive, hhuge, hcall⟩ :=
      hm.hugePage hinj hnet hz (by omega) hstep
    obtain ⟨m', h', hrun, hm', hcarry', hlive', hhuge', hcall'⟩ := ih hm₁ hcall
      (by dsimp only; omega) fun i h1 h2 => (hcarry.fetchable i).mpr
        (hfetch i (by dsimp only at h1; omega) (by dsimp only at h2; omega))
    refine ⟨m', h', ?_, hm', hcarry.trans hcarry', hlive'.trans hlive, hhuge'.trans hhuge, ?_⟩
    · simp only [Manager.hugePages, hz, hstep, ok_bind, hrun]
    · rw [hcall', Nat.add_assoc, Nat.add_comm 1 n]

include hinj hnet in
theorem Inv.fetchable_of_hugePages (hm : m.Inv c path False h) (hz : m.callAt p = some z)
    (hlen : z.next + n ≤ z.head + z.pages)
    (run : Manager.hugePages c path net p n m = .ok m') :
    ∀ i, z.next ≤ i → i < z.next + n → m.Fetchable i := by
  induction n generalizing m z h with
  | zero => exact fun i h1 h2 => absurd h2 (Nat.not_lt.mpr h1)
  | succ n ih =>
    simp only [Manager.hugePages, hz] at run
    obtain ⟨m₁, hstep, run⟩ := of_bind_ok run
    obtain ⟨h₁, hm₁, hcarry, -, -, hcall⟩ := hm.hugePage hinj hnet hz (by omega) hstep
    intro i h1 h2
    by_cases hi : i = z.next
    · rw [hi]
      exact fetchable_of_hugePage hz hstep
    · exact (hcarry.fetchable i).mp
        (ih hm₁ hcall (by dsimp only; omega) run i (by dsimp only; omega) (by dsimp only; omega))

include hinj in
/-- The call whose loop has come to its end returns the block. -/
theorem Inv.hugeReturn (hm : m.Inv c path False h) (hz : m.callAt p = some z)
    (hnext : z.next = z.head + z.pages) :
    ∃ m' h', m.step c path (.hugeReturn p) = .ok m' ∧ m'.Inv c path False h' ∧
      Carries c path (fun _ => False) m m' ∧ m'.live = m.live ∧ m'.huge = z :: m.huge := by
  have hlegal : m.Legal c (.hugeReturn p) := by
    obtain ⟨t, ht, hsize⟩ := hm.call_tag hz
    have hhead := (Holdings.mem_of_callAt hz).2
    refine ⟨z, hz, t, ht, ?_⟩
    omega
  have run : m.step c path (.hugeReturn p) =
      .ok { m with toHoldings := m.toHoldings.hugeReturn z } := by
    simp only [Manager.step, hz]
  obtain ⟨h', hm', hcarry⟩ := hm.carry hinj run hlegal trivial trivial (by simp)
  exact ⟨_, h', run, hm', hcarry, rfl, rfl⟩

theorem hugeMalloc_loop (net : Manager → ℕ → Fetch) {k : ℕ} {m₁ : Manager}
    {h₁ : ∀ i, AbsHeap (c.L i)} (hm₁ : m₁.Inv c path False h₁)
    (hset : m₁.setting = ⟨p, c.numPageNeeded size, size, p⟩ :: m.setting)
    (hstep : m.step c path (.hugeMalloc k size) = .ok m₁) :
    m₁.callAt p = some ⟨p, c.numPageNeeded size, size, p⟩ ∧
    m.hugeMalloc c path net k size = (do
      let m' ← Manager.hugePages c path net p (c.numPageNeeded size) m₁
      let m' ← m'.step c path (.hugeReturn p)
      return ((c.L p).payloadStart, m')) := by
  have htake : m₁.setting.take (m₁.setting.length - m.setting.length) =
      [⟨p, c.numPageNeeded size, size, p⟩] := by
    simp [hset]
  have hcall : m₁.callAt p = some ⟨p, c.numPageNeeded size, size, p⟩ := by
    rw [Holdings.callAt, hset]
    exact List.find?_cons_of_pos (by simp)
  obtain ⟨t, ht, hsize⟩ := hm₁.call_tag hcall
  refine ⟨hcall, ?_⟩
  simp only [Manager.hugeMalloc, hstep, ok_bind, htake, ht, hsize]

include hinj hnet in
/-- A run of pages that can be brought in is handed out. -/
theorem Inv.hugeMalloc {k : ℕ} (hm : m.Inv c path False h)
    (hlegal : m.Legal c (.hugeMalloc k size))
    (hnext : (m.arenas k).arena.nextRun (c.numPageNeeded size) = some p)
    (hfetch : ∀ i, Arena.Covers (p, c.numPageNeeded size) i → m.Fetchable i) :
    ∃ addr m' h', m.hugeMalloc c path net k size = .ok (addr, m') ∧ addr ≠ 0 ∧
      Obtains c path m size addr m' h' := by
  obtain ⟨ha, hs⟩ := hm.holdings.arenas k hlegal.2.1
  obtain ⟨b, hrun⟩ :=
    (Arena.allocateNPages_iff hs.shows (Setup.numPageNeeded_pos hlegal.1)).mpr hnext
  have hstep : ∃ m₁, m.step c path (.hugeMalloc k size) = .ok m₁ ∧
      m₁.setting = ⟨p, c.numPageNeeded size, size, p⟩ :: m.setting :=
    ⟨{ m with toHoldings := { m.setArena k ⟨b, (p, c.numPageNeeded size) ::
      (m.arenas k).live⟩ with setting := ⟨p, c.numPageNeeded size, size, p⟩ :: m.setting } },
      by simp only [Manager.step, Holdings.hugeMalloc, hrun, ok_bind, pure_eq], rfl⟩
  obtain ⟨m₁, hstep, hset⟩ := hstep
  obtain ⟨h₁, hm₁, hcarry₁⟩ := hm.carry hinj hstep hlegal trivial trivial (by simp)
  obtain ⟨hlive₁, hhuge₁, -⟩ := hugeMalloc_frame hstep
  obtain ⟨hcall, heq⟩ := hugeMalloc_loop net hm₁ hset hstep
  have hfetch₁ : ∀ i, p ≤ i → i < p + c.numPageNeeded size → m₁.Fetchable i :=
    fun i h1 h2 => (hcarry₁.fetchable i).mpr (hfetch i ⟨h1, h2⟩)
  obtain ⟨m₂, h₂, hloop, hm₂, hcarry₂, hlive₂, hhuge₂, hcall₂⟩ :=
    hm₁.hugePages hinj hnet hcall le_rfl hfetch₁
  obtain ⟨m₃, h₃, hret, hm₃, hcarry₃, hlive₃, hhuge₃⟩ := hm₂.hugeReturn hinj hcall₂ rfl
  set z : HugeCall := ⟨p, c.numPageNeeded size, size, p + c.numPageNeeded size⟩
  refine ⟨_, m₃, h₃, ?_, (c.L p).start_pos.ne', hm₃.obtains_huge (z := z) hlegal.1
    ((hcarry₁.trans hcarry₂).trans hcarry₃) (hlive₃.trans (hlive₂.trans hlive₁)) ?_ rfl ?_⟩
  · simp only [heq, hloop, hret, ok_bind, pure_eq]
  · rw [hhuge₃, hhuge₂, hhuge₁]
  · exact fun i hi => ((hcarry₂.trans hcarry₃).fetchable i).mpr (hfetch₁ i hi.1 hi.2)

include hinj hnet in
theorem Inv.nextRun_of_hugeMalloc {k addr : ℕ} (hm : m.Inv c path False h)
    (hlegal : m.Legal c (.hugeMalloc k size)) (haddr : addr ≠ 0)
    (run : m.hugeMalloc c path net k size = .ok (addr, m')) :
    ∃ p, (m.arenas k).arena.nextRun (c.numPageNeeded size) = some p ∧
      ∀ i, Arena.Covers (p, c.numPageNeeded size) i → m.Fetchable i := by
  obtain ⟨m₁, hstep, run₁⟩ := of_bind_ok run
  obtain ⟨-, -, hset | ⟨p, b, hset, hrun⟩⟩ := hugeMalloc_frame hstep
  · rw [hset, Nat.sub_self, take_zero] at run₁
    obtain ⟨rfl, -⟩ := Prod.mk.inj (Except.ok.inj run₁)
    exact absurd rfl haddr
  · obtain ⟨ha, hs⟩ := hm.holdings.arenas k hlegal.2.1
    obtain ⟨h₁, hm₁, hcarry⟩ := hm.carry hinj hstep hlegal trivial trivial (by simp)
    obtain ⟨hcall, heq⟩ := hugeMalloc_loop net hm₁ hset hstep
    rw [heq] at run
    obtain ⟨m₂, hloop, -⟩ := of_bind_ok run
    refine ⟨p, (Arena.allocateNPages_iff hs.shows (Setup.numPageNeeded_pos hlegal.1)).mp
      ⟨b, hrun⟩, ?_⟩
    intro i hi
    exact (hcarry.fetchable i).mp
      (hm₁.fetchable_of_hugePages hinj hnet hcall le_rfl hloop i hi.1 hi.2)

end Huge

/-! ### Small requests -/

/-- Commands that leave the blocks as they are may come before the one that gets the block. -/
theorem Obtains.after {addr : ℕ} {m₁ : Manager} (ho : Obtains c path m₁ size addr m' h')
    (hc : Carries c path (fun _ => False) m m₁) (ha : m₁.allocations c = m.allocations c) :
    Obtains c path m size addr m' h' where
  inv := ho.inv
  carries := hc.trans ho.carries
  block := by
    rw [← ha]
    exact ho.block
  room := ho.room
  reaches := ho.reaches
  apart := ho.apart

/-- The list of the thread serves the request, or leaves the thread waiting for a page. -/
theorem Inv.listMalloc (ch : Choice) (hinj : Injective path)
    (hm : m.Inv c path False h) (hsmall : isSmall c.pageSize size = true)
    (hfits : size + 48 ≤ c.pageSize) (hidle : m.wanting l = none) :
    ∃ m' h', m.step c path (.remonMalloc l size ch) = .ok m' ∧ m'.Inv c path False h' ∧
      ((m'.wanting l = none ∧ m.newPtr m' ≠ 0 ∧ Obtains c path m size (m.newPtr m') m' h') ∨
        (m'.wanting l = some (computeAsize size) ∧ m'.allocations c = m.allocations c ∧
          Carries c path (fun _ => False) m m')) := by
  have hsized : Sized c False (.remonMalloc l size ch) :=
    fun hlt => absurd hfits (Nat.not_le.mpr hlt)
  have hlegal : m.Legal c (.remonMalloc l size ch) := ⟨hsmall, hidle⟩
  obtain ⟨hleg, hcalls, hsized'⟩ := hm.legal_op hlegal hsized rfl
  have hyields := hm.session.step hinj hleg hsized' (hcalls.orderly hm.made)
  have hnever : ∀ e, ¬ Session.Fails False m.toSession e (.allocate l (computeAsize size) ch) :=
    fun _ he => he.2
  obtain ⟨t, hmoves, -⟩ := (hyields.weaken hnever).returns
  obtain ⟨m', run, rfl⟩ : ∃ m', m.step c path (.remonMalloc l size ch) = .ok m' ∧
      m'.toSession = t := by
    simp only [Manager.step, hmoves, ok_bind, pure_eq]
    exact ⟨_, rfl, rfl⟩
  obtain ⟨h', hm', hcarry⟩ := hm.carry hinj run hlegal hsized trivial (by simp)
  have hhuge := huge_remonMalloc run
  refine ⟨m', h', run, hm', ?_⟩
  rcases hm.session.allocate_outcome hleg hsized' hmoves with
    ⟨hw, hlive⟩ | ⟨hw, i, ptr, -, hlive⟩
  · refine .inr ⟨?_, ?_, hcarry⟩
    · rw [hw, update_self]
    · rw [allocations, allocations, hlive, hhuge]
  · have hptr : ptr ≠ 0 := hm'.ptr_ne_zero (x := ⟨i, ptr, computeAsize size⟩)
      (by rw [hlive]; exact mem_cons_self)
    refine .inl ⟨(congrFun hw l).trans hidle, ?_⟩
    rw [newPtr_cons hlive]
    exact ⟨hptr, hm'.obtains_small hsmall hcarry hlive hhuge
      (Session.allocate_last hmoves hlive) rfl⟩

/-- A page from the buffer serves the request that waits for it. -/
theorem Inv.pageMalloc (hinj : Injective path) (hm : m.Inv c path False h)
    (hsmall : isSmall c.pageSize size = true) (hfits : size + 48 ≤ c.pageSize)
    (hwant : m.wanting l = some (computeAsize size)) (hi : i ∈ m.buffered) :
    ∃ m' h', m.step c path (.getBufferedPod l i) = .ok m' ∧ m.newPtr m' ≠ 0 ∧
      Obtains c path m size (m.newPtr m') m' h' := by
  have hlegal : m.Legal c (.getBufferedPod l i) := ⟨by simp [hwant], hi⟩
  obtain ⟨-, hn, hpinned⟩ := hm.homes.buffered i hi
  have hroom : computeAsize size ≤ (c.L i).maxIntraPodSize := by
    refine computeAsize_le ?_
    rw [c.size i]
    exact hfits
  obtain ⟨g, hrun, -⟩ := hm.session.pager.addPodAndAllocate_serves (l := l) hn hpinned
    ⟨computeAsize size, (asize_computeAsize size).1, (asize_computeAsize size).2, hroom⟩
  obtain ⟨hlast, hasize, hb⟩ := hm.session.waits l _ hwant
  obtain ⟨h₁, -, hjoined, -⟩ :=
    (hm.session.pager.addPodAndAllocate hn hpinned hlast hasize hb).result hrun
  have hlast' : (g.lists l).lastAllocatedPod = some i := hjoined.last
  have hne : (c.L i).firstBlock ≠ 0 := by
    have := (c.L i).start_pos
    unfold PageSpan.firstBlock
    omega
  obtain ⟨m', run, hlive⟩ : ∃ m', m.step c path (.getBufferedPod l i) = .ok m' ∧
      m'.live = ⟨i, (c.L i).firstBlock, computeAsize size⟩ :: m.live := by
    simp only [Manager.step, Session.step, hwant, hrun, ok_bind, pure_eq, if_neg hne,
      Session.grant, hlast']
    exact ⟨_, rfl, rfl⟩
  obtain ⟨h', hm', hcarry⟩ := hm.carry hinj run hlegal trivial trivial (by simp)
  have hmoves : m.toSession.step c.L path (.addPodAndAllocate l i) = .ok m'.toSession :=
    (step_cases run).1
  refine ⟨m', h', run, ?_⟩
  rw [newPtr_cons hlive]
  exact ⟨hne, hm'.obtains_small hsmall hcarry hlive (huge_getBufferedPod run)
    (Session.addPodAndAllocate_last hmoves hlive) rfl⟩

theorem Inv.smallMalloc {q : Caller} (hinj : Injective path)
    (hm : m.Inv c path False h) (hq : m.Admits c q size) (hsmall : isSmall c.pageSize size = true)
    (hfits : size + 48 ≤ c.pageSize) :
    ∃ addr m' h', m.remonMalloc c path net q size = .ok (addr, m') ∧ addr ≠ 0 ∧
      Obtains c path m size addr m' h' := by
  obtain ⟨m₁, h₁, hstep, hm₁, ⟨hw, hptr, hob⟩ | ⟨hw, hsame, hcarry⟩⟩ :=
    hm.listMalloc q.choice hinj hsmall hfits hq.idle
  · refine ⟨_, m₁, h₁, ?_, hptr, hob⟩
    rw [Manager.remonMalloc, if_neg (by simp [hsmall]), hstep, ok_bind, if_pos hw]
    rfl
  · have hbuffered : q.newPod ∈ m₁.buffered := by
      rw [(step_cases hstep).2.2.2.2]
      exact hq.newPod hsmall
    obtain ⟨m₂, h₂, hstep₂, hptr, hob⟩ := hm₁.pageMalloc hinj hsmall hfits hw hbuffered
    refine ⟨_, m₂, h₂, ?_, hptr, hob.after hcarry hsame⟩
    rw [Manager.remonMalloc, if_neg (by simp [hsmall]), hstep, ok_bind,
      if_neg (by simp [hw]), hstep₂]
    rfl

theorem remonMalloc_oversized {q : Caller} {addr : ℕ} (hsmall : isSmall c.pageSize size = true)
    (hsize : c.pageSize < size + 48) (run : m.remonMalloc c path net q size = .ok (addr, m')) :
    addr = 0 := by
  have hlarge : ∀ i, (c.L i).maxIntraPodSize < computeAsize size := by
    intro i
    refine lt_computeAsize ?_
    rw [c.size i]
    exact hsize
  rw [remonMalloc, if_neg (by simp [hsmall])] at run
  obtain ⟨m₁, hstep, run⟩ := of_bind_ok run
  have hmoves : m.toSession.step c.L path (.allocate q.list (computeAsize size) q.choice) =
    .ok m₁.toSession := (step_cases hstep).1
  obtain ⟨hlive, hwaits⟩ := Session.allocate_refused hlarge hmoves
  have hw : m₁.wanting q.list = some (computeAsize size) := by
    rw [hwaits, update_self]
  rw [if_neg (by simp [hw])] at run
  obtain ⟨m₂, hstep₂, run⟩ := of_bind_ok run
  obtain ⟨rfl, -⟩ := Prod.mk.inj (Except.ok.inj run)
  have hmoves₂ : m₁.toSession.step c.L path (.addPodAndAllocate q.list q.newPod) =
    .ok m₂.toSession := (step_cases hstep₂).1
  exact newPtr_sublist (by rw [Session.addPodAndAllocate_refused hlarge hw hmoves₂])

section Request

variable {q : Caller} (hinj : Injective path) (hnet : Answers c path net)
  (hm : m.Inv c path False h) (hq : m.Admits c q size)
include hinj hnet hm hq

theorem Inv.remonMalloc (hprov : m.Provides c q size) :
    ∃ addr m' h', m.remonMalloc c path net q size = .ok (addr, m') ∧ addr ≠ 0 ∧
      Obtains c path m size addr m' h' := by
  by_cases hsmall : isSmall c.pageSize size = true
  · rw [Provides, if_pos hsmall] at hprov
    exact hm.smallMalloc hinj hq hsmall hprov
  · rw [Provides, if_neg hsmall] at hprov
    obtain ⟨p, hnext, hfetch⟩ := hprov
    rw [Bool.not_eq_true] at hsmall
    rw [Manager.remonMalloc, if_pos hsmall]
    exact hm.hugeMalloc hinj hnet ⟨hsmall, hq.arena, hq.pages hsmall⟩ hnext hfetch

theorem Inv.provides_of_remonMalloc {addr : ℕ} (haddr : addr ≠ 0)
    (run : m.remonMalloc c path net q size = .ok (addr, m')) : m.Provides c q size := by
  by_cases hsmall : isSmall c.pageSize size = true
  · rw [Provides, if_pos hsmall]
    by_contra hsize
    exact haddr (remonMalloc_oversized hsmall (Nat.not_le.mp hsize) run)
  · rw [Provides, if_neg hsmall]
    rw [Bool.not_eq_true] at hsmall
    rw [Manager.remonMalloc, if_pos hsmall] at run
    exact hm.nextRun_of_hugeMalloc hinj hnet ⟨hsmall, hq.arena, hq.pages hsmall⟩ haddr run

end Request

namespace Obtains

variable {addr : ℕ} (ho : Obtains c path m size addr m' h') (hr : r ∈ m.allocations c)
include ho hr

theorem kept : r ∈ m'.allocations c := ho.carries.kept r hr not_false

theorem ne_start : r.1 ≠ addr := by
  obtain ⟨n, hperm, -⟩ := ho.block
  have hnd := (hperm.map Prod.fst).nodup_iff.mp ho.inv.starts_nodup
  intro hc
  exact (nodup_cons.mp hnd).1 (mem_map.mpr ⟨r, hr, hc⟩)

theorem apart_old {k : ℕ} (hk : k ≤ m'.room c addr) : Apart r (addr, k) :=
  (ho.apart r (ho.kept hr) (ho.ne_start hr)).shrink hk

theorem reaches_old (h1 : r.1 ≤ a) (h2 : a < r.1 + r.2)
    (hf : m'.Fetchable (c.getResponsiblePod a)) : m'.Reaches c h' a :=
  ho.inv.reaches (ho.kept hr) h1 h2 hf

end Obtains

/-! ## Releases -/

variable (net) in
/-- The release of a block whose page is in memory takes nothing from the other blocks. -/
theorem Inv.remonFree (hinj : Injective path) (hm : m.Inv c path False h)
    (hr : r ∈ m.allocations c) (hres : m.Resident (c.getResponsiblePod r.1)) :
    ∃ m' h', m.remonFree c path net r.1 = .ok m' ∧ m'.Inv c path False h' ∧
      Carries c path (· = r.1) m m' := by
  have hserving : Serving (.remonFree r.1) := trivial
  have hserve : ∀ m', m.step c path (.remonFree r.1) = .ok m' → m.Legal c (.remonFree r.1) →
      ∃ h', m'.Inv c path False h' ∧ Carries c path (· = r.1) m m' := by
    intro m' hstep hlegal
    obtain ⟨h', hm', hcarry⟩ := hm.serve hinj hserving hlegal trivial hstep
    exact ⟨h', hm', hcarry.mono fun x hx => (Cmd.remonFree.inj hx).symm⟩
  rcases mem_append.mp hr with hr | hr
  · obtain ⟨x, hx, rfl⟩ := mem_map.mp hr
    obtain ⟨hpod, hne⟩ := hm.responsible hx
    change m.Resident (c.getResponsiblePod x.ptr) at hres
    rw [hpod] at hres
    have hs := hm.local_of_resident hx hres
    have hroomy : m.Roomy x.pod := by
      rintro (hc | hc)
      · exact absurd (hs.symm.trans hc) (by simp)
      · exact absurd (hs.symm.trans hc) (by simp)
    have hyields : Yields (fun _ => False) (m.call c path (.free x.pod x.ptr))
        (fun m' => m'.freed = (x.pod, x.ptr) :: m.freed) := by
      refine (hm.free_small_returns hinj hx).weaken ?_
      rintro e (⟨-, hb⟩ | ⟨-, hfull⟩)
      · exact hb
      · exact hfull hroomy
    obtain ⟨m', hcall, -⟩ := hyields.returns
    have hstep : m.step c path (.remonFree x.ptr) = .ok m' := (hm.step_free_small hx).trans hcall
    obtain ⟨h', hm', hcarry⟩ := hserve m' hstep (.inl ⟨x, hx, rfl⟩)
    refine ⟨m', h', ?_, hm', hcarry⟩
    obtain ⟨t, ht, -⟩ := of_bind_ok hcall
    obtain ⟨⟨full, g⟩, hfree, -⟩ := of_bind_ok ht
    obtain rfl := Pager.free_local hs hfree
    change m.remonFree c path net x.ptr = .ok m'
    rw [Manager.remonFree, hpod, if_neg hne, hfree, hstep]
    rfl
  · obtain ⟨z, hz, rfl⟩ := mem_map.mp hr
    obtain ⟨d, -, hstep⟩ := hm.step_free_huge hz
    obtain ⟨h', hm', hcarry⟩ := hserve _ hstep (.inr ⟨z, hz, rfl⟩)
    refine ⟨_, h', ?_, hm', hcarry⟩
    have hhead := hm.responsible_head (mem_append_left m.setting hz)
    rw [← hstep, hugeBytes, Manager.remonFree, hhead, if_pos rfl]

/-! ## Reallocation -/

/-- The bound `MAXIMUM_ALLOC_SIZE`, 2^48. -/
def maximumAllocSize : ℕ := 281474976710656

section Reallocation

variable (c : Setup) (path : ℕ → String) (net : Manager → ℕ → Fetch) (m : Manager)
  (q : Caller) (pointer oldSize size : ℕ)

/-- The branch of `ReallocateData` that uses the manager. A size out of range is answered with an
exception. -/
def reallocateData : Except Fault (ℕ × Manager) :=
  if pointer = 0 then .ok (0, m)
  else if size ≥ maximumAllocSize then .error .uncaught
  else do
    let (newAddr, m') ← m.remonMalloc c path net q size
    let m' ← memcpy c path net newAddr pointer oldSize m'
    let m' ← m'.remonFree c path net pointer
    return (newAddr, m')

def Intact (m' : Manager) : Prop :=
  ∃ n, (pointer, n) ∈ m'.allocations c ∧ oldSize ≤ n ∧
    ∀ j, j < oldSize → m'.byte c path (pointer + j) = m.byte c path (pointer + j)

/-- The bytes moved to the block at `newAddr`, which the request found in the state `m₁`, and
nothing else was written. -/
structure Moved (newAddr : ℕ) (m₁ m' : Manager) : Prop where
  /-- the copy writes bytes of the new block, so none of another one and no word of a heap -/
  confined : ∀ a, newAddr ≤ a → a < newAddr + oldSize → a < newAddr + m₁.room c newAddr
  block : ∃ n, (newAddr, n) ∈ m'.allocations c ∧ size ≤ n
  data : ∀ j, j < min oldSize size → m'.byte c path (newAddr + j) = m.byte c path (pointer + j)
  others : ∀ r ∈ m.allocations c, r.1 ≠ pointer → r ∈ m'.allocations c ∧
    ∀ a, r.1 ≤ a → a < r.1 + r.2 → m'.byte c path a = m.byte c path a
  /-- headers, footers and list words are those of heaps in order -/
  heaps : ∃ h, m'.Inv c path False h

/-- What the database relies on: the call returns, with the bytes in a new block, or without one
and with the old block as it was. -/
def Reallocates : Prop :=
  ∃ newAddr m₁ m', m.remonMalloc c path net q size = .ok (newAddr, m₁) ∧
    m.reallocateData c path net q pointer oldSize size = .ok (newAddr, m') ∧
    (newAddr = 0 → m.Intact c path pointer oldSize m') ∧
    (newAddr ≠ 0 → m.Moved c path pointer oldSize size newAddr m₁ m')

end Reallocation

theorem null_outside : 0 < c.base ∨ c.base + c.podsSize * c.pageSize ≤ 0 := by
  rcases Nat.eq_zero_or_pos c.podsSize with hz | hpos
  · rcases Nat.eq_zero_or_pos c.base with hb | hb
    · refine .inr ?_
      rw [hz, hb, Nat.zero_mul]
    · exact .inl hb
  · have hstart := c.start 0 hpos
    have := (c.L 0).start_pos
    refine .inl ?_
    omega

theorem Inv.start_ne_zero {b : Prop} (hm : m.Inv c path b h) (hr : r ∈ m.allocations c)
    (hpos : 0 < r.2) : r.1 ≠ 0 := by
  obtain ⟨-, hlow, hhigh⟩ := hm.allocations_placed r hr
  have hnull := null_outside (c := c)
  omega

theorem memcpy_null {src n : ℕ} (hn : 0 < n) : memcpy c path net 0 src n m ≠ .ok m' := by
  induction n generalizing m' with
  | zero => exact absurd hn (Nat.lt_irrefl 0)
  | succ n ih =>
    intro run
    obtain ⟨m₁, hrun, hbyte⟩ := of_bind_ok run
    rcases Nat.eq_zero_or_pos n with rfl | hpos
    · obtain ⟨m₂, -, hbyte⟩ := of_bind_ok hbyte
      obtain ⟨m₃, hnull, -⟩ := of_bind_ok hbyte
      rw [Nat.add_zero, access, if_pos (null_outside.imp_right .inl)] at hnull
      cases hnull
    · exact ih hpos hrun

theorem copies_of_reallocateData {q : Caller} {pointer oldSize newAddr : ℕ} {m₁ : Manager}
    (hpointer : pointer ≠ 0) (hsize : size < maximumAllocSize)
    (run : m.remonMalloc c path net q size = .ok (newAddr, m₁))
    (hcall : m.reallocateData c path net q pointer oldSize size = .ok (a, m')) :
    ∃ m₂, memcpy c path net newAddr pointer oldSize m₁ = .ok m₂ := by
  rw [reallocateData, if_neg hpointer, if_neg (Nat.not_le.mpr hsize), run, ok_bind] at hcall
  obtain ⟨m₂, hcopy, -⟩ := of_bind_ok hcall
  exact ⟨m₂, hcopy⟩

section Copies

variable {q : Caller} {pointer oldSize n newAddr : ℕ} {m₁ : Manager} {h₁ : ∀ i, AbsHeap (c.L i)}
  (hob : Obtains c path m size newAddr m₁ h₁) (hptr : (pointer, n) ∈ m.allocations c)
  (hle : oldSize ≤ n) (hroom : oldSize ≤ m₁.room c newAddr)

include hob hptr hle in
theorem Obtains.source (j : ℕ) (hj : j < oldSize)
    (hf : m₁.Fetchable (c.getResponsiblePod (pointer + j))) : m₁.Reaches c h₁ (pointer + j) :=
  hob.reaches_old hptr (Nat.le_add_right _ _) (Nat.add_lt_add_left (hj.trans_le hle) _) hf

include hob hroom in
theorem Obtains.target (j : ℕ) (hj : j < oldSize) : m₁.Reaches c h₁ (newAddr + j) :=
  hob.reaches _ (Nat.le_add_right _ _) (Nat.add_lt_add_left (hj.trans_le hroom) _)

include hob hptr hle hroom in
theorem Obtains.ranges_apart : Apart (pointer, oldSize) (newAddr, oldSize) :=
  ((hob.apart_old hptr hroom).symm.shrink hle).symm

include hob hptr hle hroom in
/-- What a call does that gets a block with room. -/
theorem Obtains.moved (hinj : Injective path) (hnet : Answers c path net)
    (hpointer : pointer ≠ 0) (hold : 0 < oldSize) (hsize : size < maximumAllocSize)
    (hfetch : ∀ a, pointer ≤ a → a < pointer + oldSize → m.Fetchable (c.getResponsiblePod a))
    (run : m.remonMalloc c path net q size = .ok (newAddr, m₁)) :
    ∃ m', m.reallocateData c path net q pointer oldSize size = .ok (newAddr, m') ∧
      m.Moved c path pointer oldSize size newAddr m₁ m' := by
  obtain ⟨k, hperm, hsizek, -⟩ := hob.block
  have hsrc : ∀ j, j < oldSize → m₁.Reaches c h₁ (pointer + j) := fun j hj =>
    hob.source hptr hle j hj ((hob.carries.fetchable _).mpr
      (hfetch _ (Nat.le_add_right _ _) (Nat.add_lt_add_left hj _)))
  have hdst := hob.target hroom
  obtain ⟨m₂, h₂, hcopy, hpass, hres, hbytes⟩ :=
    hob.inv.memcpy hinj hnet hsrc hdst (hob.ranges_apart hptr hle hroom)
  have hsame := hpass.allocations
  have hheld : (pointer, n) ∈ m₂.allocations c := hsame ▸ hob.kept hptr
  obtain ⟨m₃, h₃, hfree, hm₃, hcarry⟩ := hpass.inv.remonFree net hinj hheld (hres hold)
  have hne : newAddr ≠ pointer := (hob.ne_start hptr).symm
  have hblock : (newAddr, k) ∈ m₂.allocations c := by
    rw [hsame]
    exact hperm.mem_iff.mpr mem_cons_self
  refine ⟨m₃, ?_, ⟨fun a _ h2 => h2.trans_le (Nat.add_le_add_left hroom _), ?_, ?_, ?_, h₃, hm₃⟩⟩
  · rw [reallocateData, if_neg hpointer, if_neg (Nat.not_le.mpr hsize), run]
    simp only [ok_bind, hcopy, hfree, pure_eq]
  · exact ⟨k, hcarry.kept _ hblock hne, hsizek⟩
  · intro j hj
    obtain ⟨hj1, hj2⟩ := lt_min_iff.mp hj
    rw [hcarry.bytes _ hblock hne _ (Nat.le_add_right _ _) (by dsimp only; omega),
      hbytes _ (hdst j hj1).guarded, if_pos ⟨Nat.le_add_right _ _, by omega⟩,
      Nat.add_sub_cancel_left]
    exact hob.carries.bytes _ hptr not_false _ (Nat.le_add_right _ _) (by dsimp only; omega)
  · intro r hr hne
    have hr₂ : r ∈ m₂.allocations c := hsame ▸ hob.kept hr
    refine ⟨hcarry.kept r hr₂ hne, ?_⟩
    intro a h1 h2
    have hout := (hob.apart_old hr hroom).outside h1 h2
    rw [hcarry.bytes r hr₂ hne a h1 h2, hbytes a (hob.inv.guarded (hob.kept hr) h1 h2),
      if_neg hout]
    exact hob.carries.bytes r hr not_false a h1 h2

end Copies

/-- In every run with small requests that fit a page, a reallocation keeps the data if there is a
block for the request, the request is for as much as is copied, and the pages of the old block can
be brought in; and otherwise it does not, but for the 16 bytes that a small block may have beyond
its size. A block that the request gets has room for the new size, so the second condition concerns
requests that shrink. -/
theorem reallocation_preserves {swapDir : String} {q : Caller} {pointer oldSize n : ℕ}
    (hnet : Answers c (swapFile swapDir) net)
    (hm : Run c (swapFile swapDir) (fun _ cmd => Sized c False cmd) m)
    (hq : m.Admits c q size) (hptr : (pointer, n) ∈ m.allocations c) (hold : 0 < oldSize)
    (hle : oldSize ≤ n) (hsize : size < maximumAllocSize) :
    (m.Provides c q size ∧ oldSize ≤ capacity c size ∧
      (∀ a, pointer ≤ a → a < pointer + oldSize → m.Fetchable (c.getResponsiblePod a)) →
        m.Reallocates c (swapFile swapDir) net q pointer oldSize size) ∧
    (m.Reallocates c (swapFile swapDir) net q pointer oldSize size →
      m.Provides c q size ∧ oldSize ≤ capacity c size + slack c size ∧
        ∀ a, pointer ≤ a → a < pointer + oldSize → m.Fetchable (c.getResponsiblePod a)) ∧
    ∀ newAddr m₁, m.remonMalloc c (swapFile swapDir) net q size = .ok (newAddr, m₁) →
      newAddr ≠ 0 → size ≤ m₁.room c newAddr := by
  have hinj := swapFile_injective swapDir
  obtain ⟨h, hinv⟩ := hm.inv (b := False) hinj (fun _ _ hs => hs)
  have hpointer : pointer ≠ 0 := hinv.start_ne_zero hptr (hold.trans_le hle)
  -- a request that returns a block is one that has a block, and the block is the one it gets
  have hobtains : ∀ newAddr m₁, m.remonMalloc c (swapFile swapDir) net q size =
      .ok (newAddr, m₁) → newAddr ≠ 0 → m.Provides c q size ∧
        ∃ h₁, Obtains c (swapFile swapDir) m size newAddr m₁ h₁ := by
    intro newAddr m₁ hrun haddr
    have hprov := hinv.provides_of_remonMalloc hinj hnet hq haddr hrun
    obtain ⟨addr, m', h', hrun', -, hob⟩ := hinv.remonMalloc hinj hnet hq hprov
    obtain ⟨rfl, rfl⟩ := Prod.mk.inj (Except.ok.inj (hrun.symm.trans hrun'))
    exact ⟨hprov, h', hob⟩
  refine ⟨?_, ?_, ?_⟩
  · rintro ⟨hprov, hcap, hfetch⟩
    obtain ⟨newAddr, m₁, h₁, hrun, haddr, hob⟩ := hinv.remonMalloc hinj hnet hq hprov
    obtain ⟨m', hcall, hmoved⟩ := hob.moved hptr hle (hcap.trans hob.room.1) hinj hnet hpointer
      hold hsize hfetch hrun
    exact ⟨newAddr, m₁, m', hrun, hcall, fun hc => absurd hc haddr, fun _ => hmoved⟩
  · rintro ⟨newAddr, m₁, m', hrun, hcall, -, hmoved⟩
    obtain ⟨m₂, hcopy⟩ := copies_of_reallocateData hpointer hsize hrun hcall
    -- a copy to the null pointer would have to return
    have haddr : newAddr ≠ 0 := by
      rintro rfl
      exact memcpy_null hold hcopy
    have hroom : oldSize ≤ m₁.room c newAddr := by
      have hlast := (hmoved haddr).confined (newAddr + (oldSize - 1)) (by omega) (by omega)
      omega
    obtain ⟨hprov, h₁, hob⟩ := hobtains newAddr m₁ hrun haddr
    refine ⟨hprov, hroom.trans hob.room.2, ?_⟩
    intro a h1 h2
    obtain ⟨j, rfl⟩ := Nat.exists_eq_add_of_le h1
    exact (hob.carries.fetchable _).mp (hob.inv.fetchable_of_memcpy hinj hnet
      (hob.source hptr hle) (hob.target hroom) (hob.ranges_apart hptr hle hroom) hcopy j
      (Nat.lt_of_add_lt_add_left h2))
  · intro newAddr m₁ hrun haddr
    obtain ⟨-, h₁, hob⟩ := hobtains newAddr m₁ hrun haddr
    obtain ⟨k, -, hk, hroom⟩ := hob.block
    exact hk.trans hroom

/-! ## A page with neighbours -/

def sampleCaller (l : ℕ) : Caller := ⟨l, Session.sampleChoice, 2, 0⟩

theorem sampleCaller_admitted (hw : m.wanting l = none) (hb : 2 ∈ m.buffered)
    (ha : 0 < m.arenaCount) (hsmall : isSmall sampleFill.pageSize size = true) :
    m.Admits sampleFill (sampleCaller l) size :=
  ⟨hw, fun _ => hb, ha, fun hc => absurd (hsmall.symm.trans hc) (by simp)⟩

def sampleReady : Manager :=
  (sampleHeld.after sampleFill (swapFile "swap") (.allocatePage 0)).after sampleFill
    (swapFile "swap") (.addPodToBuffer 2 true Session.sampleFetch)

/-- The first block of 2000 bytes is to have 1999. They go to page 1. -/
theorem reallocation_preserves_sample :
    Run sampleFill (swapFile "swap") (fun _ cmd => Sized sampleFill False cmd) sampleReady ∧
    (sampleReady.pods 0).state = .disk ∧ (4112, 2000) ∈ sampleReady.allocations sampleFill ∧
    sampleReady.Reallocates sampleFill (swapFile "swap") answer (sampleCaller 0) 4112 2000
      1999 := by
  have hrun : Run sampleFill (swapFile "swap") (fun _ cmd => Sized sampleFill False cmd)
      sampleReady := by
    have h1 := (sampleHeld_run.mono fun _ _ hok => hok.2).after (.allocatePage 0)
      (by decide +kernel : (0 : ℕ) < _) trivial (by decide +kernel)
    have hfetched : 2 ∈ (sampleHeld.after sampleFill (swapFile "swap")
      (.allocatePage 0)).fetched := by decide +kernel
    exact h1.after (.addPodToBuffer 2 true Session.sampleFetch) hfetched trivial
      (by decide +kernel)
  have hdisk : (sampleReady.pods 0).state = .disk := by decide +kernel
  have hptr : (4112, 2000) ∈ sampleReady.allocations sampleFill := by decide +kernel
  have hfetch : ∀ a, 4112 ≤ a → a < 4112 + 2000 →
      sampleReady.Fetchable (sampleFill.getResponsiblePod a) := by
    intro a h1 h2
    have hpage : sampleFill.getResponsiblePod a = 0 := by
      change (a - 4096) / 4096 = 0
      omega
    rw [hpage]
    exact .of_state hdisk (by simp)
  have hq : sampleReady.Admits sampleFill (sampleCaller 0) 1999 :=
    sampleCaller_admitted (by decide +kernel) (by decide +kernel) (by decide +kernel) (by decide)
  have hserves : sampleReady.Provides sampleFill (sampleCaller 0) 1999 := by
    rw [Provides, if_pos (by decide)]
    decide
  exact ⟨hrun, hdisk, hptr, (reallocation_preserves answer_answers hrun hq hptr (by decide)
    (by decide) (by decide)).1 ⟨hserves, by decide, hfetch⟩⟩

def sampleBuffer : Manager :=
  (((sampleFilled.after sampleFill (swapFile "swap") (.allocatePage 0)).after sampleFill
    (swapFile "swap") (.addPodToBuffer 1 true Session.sampleFetch)).after sampleFill
    (swapFile "swap") (.allocatePage 0)).after sampleFill (swapFile "swap")
    (.addPodToBuffer 2 true Session.sampleFetch)

def sampleNeighbours : Manager :=
  (((((((sampleBuffer.after sampleFill (swapFile "swap")
    (.remonMalloc 0 16 Session.sampleChoice)).after sampleFill (swapFile "swap")
    (.getBufferedPod 0 0)).after sampleFill (swapFile "swap")
    (.remonMalloc 0 16 Session.sampleChoice)).after sampleFill (swapFile "swap")
    (.remonMalloc 1 40 Session.sampleChoice)).after sampleFill (swapFile "swap")
    (.getBufferedPod 1 1)).after sampleFill (swapFile "swap")
    (.store 1 8240 7)).after sampleFill (swapFile "swap")
    (.remonFree 4112)).after sampleFill (swapFile "swap") (.pickPodToEvict 0 [])

theorem sampleBuffer_run :
    Run sampleFill (swapFile "swap") (fun _ cmd => Sized sampleFill False cmd) sampleBuffer := by
  have htaken : Run sampleFill (swapFile "swap") (fun _ cmd => Sized sampleFill False cmd)
    sampleTaken := sampleTaken_run trivial trivial
  have h0 := htaken.after (.addPodToBuffer 0 true Session.sampleFetch)
    (by decide : 0 ∈ sampleTaken.fetched) trivial (by decide)
  have h1 := h0.after (.allocatePage 0) (by decide : (0 : ℕ) < _) trivial (by decide)
  have h2 := h1.after (.addPodToBuffer 1 true Session.sampleFetch)
    (by decide : 1 ∈ (sampleFilled.after sampleFill (swapFile "swap") (.allocatePage 0)).fetched)
    trivial (by decide)
  have h3 := h2.after (.allocatePage 0) (by decide : (0 : ℕ) < _) trivial (by decide)
  exact h3.after (.addPodToBuffer 2 true Session.sampleFetch)
    (by decide : 2 ∈ (((sampleFilled.after sampleFill (swapFile "swap") (.allocatePage 0)).after
      sampleFill (swapFile "swap") (.addPodToBuffer 1 true Session.sampleFetch)).after sampleFill
      (swapFile "swap") (.allocatePage 0)).fetched) trivial (by decide)

theorem sampleNeighbours_run :
    Run sampleFill (swapFile "swap") (fun _ cmd => Sized sampleFill False cmd)
      sampleNeighbours := by
  have h1 := sampleBuffer_run.after (.remonMalloc 0 16 Session.sampleChoice)
    ⟨by decide, by decide⟩ (sampleFill_sized (by decide)) (by decide)
  have h2 := h1.after (.getBufferedPod 0 0) ⟨by decide, by decide⟩ trivial
    (by decide)
  have h3 := h2.after (.remonMalloc 0 16 Session.sampleChoice)
    ⟨by decide, by decide⟩ (sampleFill_sized (by decide)) (by decide)
  have h4 := h3.after (.remonMalloc 1 40 Session.sampleChoice)
    ⟨by decide, by decide⟩ (sampleFill_sized (by decide)) (by decide)
  have h5 := h4.after (.getBufferedPod 1 1) ⟨by decide, by decide⟩ trivial (by decide)
  have h6 := h5.after (.store 1 8240 7) (.inr ⟨by decide, ⟨1, 8208, 64⟩,
    by decide, rfl, by decide, by decide⟩) trivial (by decide)
  have h7 := h6.after (.remonFree 4112) (.inl ⟨⟨0, 4112, 32⟩, by decide, rfl⟩) trivial
    (by decide)
  exact h7.after _ legal_evict trivial (by decide)

/-- The block of 40 bytes is to have 16, and gets the place of the first one. The copy of 40 bytes
goes on through the footer of the new block and the header of its neighbour to the neighbour's
bytes. A request for 4050 bytes is small and fits no page, and ends in a copy to the null
pointer. -/
theorem reallocation_overwrites :
    Run sampleFill (swapFile "swap") (fun _ cmd => Sized sampleFill False cmd)
      sampleNeighbours ∧
    sampleNeighbours.Admits sampleFill (sampleCaller 0) 16 ∧
    sampleNeighbours.allocations sampleFill = [(8208, 48), (4144, 16)] ∧
    (∃ m', sampleNeighbours.reallocateData sampleFill (swapFile "swap") answer (sampleCaller 0)
      8208 40 16 = .ok (4112, m') ∧
      sampleNeighbours.byte sampleFill (swapFile "swap") 4144 = 0 ∧
      m'.byte sampleFill (swapFile "swap") 4144 = 7 ∧
      getBlockSize (sampleNeighbours.pods 0).mem 4144 = 32 ∧
      getBlockSize (m'.pods 0).mem 4144 = 0) ∧
    ¬ sampleNeighbours.Reallocates sampleFill (swapFile "swap") answer (sampleCaller 0)
      8208 40 16 ∧
    sampleNeighbours.Admits sampleFill (sampleCaller 2) 4050 ∧
    (∃ m₁, sampleNeighbours.remonMalloc sampleFill (swapFile "swap") answer (sampleCaller 2) 4050 =
      .ok (0, m₁)) ∧
    ∀ r, sampleNeighbours.reallocateData sampleFill (swapFile "swap") answer (sampleCaller 2)
      8208 40 4050 ≠ .ok r := by
  have hadmits : sampleNeighbours.Admits sampleFill (sampleCaller 0) 16 :=
    sampleCaller_admitted (by decide +kernel) (by decide +kernel) (by decide +kernel) (by decide)
  have hadmits' : sampleNeighbours.Admits sampleFill (sampleCaller 2) 4050 :=
    sampleCaller_admitted (by decide +kernel) (by decide +kernel) (by decide +kernel) (by decide)
  have halloc : sampleNeighbours.allocations sampleFill = [(8208, 48), (4144, 16)] := by
    decide +kernel
  obtain ⟨m', hcall⟩ := exists_ok (x := sampleNeighbours.reallocateData sampleFill
    (swapFile "swap") answer (sampleCaller 0) 8208 40 16) (a := 4112) (by decide +kernel)
  have hafter : ((sampleNeighbours.reallocateData sampleFill (swapFile "swap") answer
      (sampleCaller 0) 8208 40 16).toOption.map fun r => (r.2.byte sampleFill (swapFile "swap")
        4144, getBlockSize (r.2.pods 0).mem 4144)) = some (7, 0) := by decide +kernel
  rw [hcall] at hafter
  obtain ⟨hbyte, hheader⟩ := Prod.mk.inj (Option.some.inj hafter)
  have hbefore : sampleNeighbours.byte sampleFill (swapFile "swap") 4144 = 0 := by
    decide +kernel
  have hnull := exists_ok (x := sampleNeighbours.remonMalloc sampleFill (swapFile "swap")
    answer (sampleCaller 2) 4050) (a := 0) (by decide +kernel)
  refine ⟨sampleNeighbours_run, hadmits, halloc, ⟨m', hcall, hbefore, hbyte,
    by decide +kernel, hheader⟩, ?_, hadmits', hnull, ?_⟩
  · rintro ⟨newAddr, m₁, m₂, -, hok, -, hmoved⟩
    obtain ⟨rfl, rfl⟩ := Prod.mk.inj (Except.ok.inj (hcall.symm.trans hok))
    have hneighbour : (4144, 16) ∈ sampleNeighbours.allocations sampleFill := by
      rw [halloc]
      simp
    have hsame := ((hmoved (by decide)).others _ hneighbour (by decide)).2 4144 (by decide)
      (by decide)
    rw [hbyte, hbefore] at hsame
    exact absurd hsame (by decide)
  · obtain ⟨m₁, hm₁⟩ := hnull
    rintro ⟨newAddr, m₂⟩ hok
    obtain ⟨m₃, hcopy⟩ := copies_of_reallocateData (by decide) (by decide) hm₁ hok
    exact memcpy_null (by decide) hcopy

end Manager

end Remon
