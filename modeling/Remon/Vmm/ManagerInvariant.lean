import Remon.Vmm.Manager

/-! # The invariant of the memory manager

The blocks that the arenas handed out are the huge blocks and the pages of the lists and
buffers, and no page is in two of them. A page has a list only if it went through a buffer, and
the pages of a block whose call has returned are marked as used.
-/

namespace Remon
open Function Lib Heap Fault List

/-! ## Arenas and blocks -/

namespace Setup

variable {c : Setup} {k i : ℕ}

theorem region_first (hk : k < c.maxArena) : (c.region k).first = k * c.localPodCount := by
  change min k (c.maxArena - 1) * _ = _
  rw [Nat.min_eq_left (Nat.le_sub_one_of_lt hk)]

theorem region_end (hk : k < c.maxArena) :
    (c.region k).last + 1 = k * c.localPodCount + c.localPodCount := by
  have := c.pos
  change min k (c.maxArena - 1) * c.localPodCount + c.localPodCount - 1 + 1 = _
  rw [Nat.min_eq_left (Nat.le_sub_one_of_lt hk)]
  omega

theorem div_of_region (hk : k < c.maxArena) (h1 : (c.region k).first ≤ i)
    (h2 : i < (c.region k).last + 1) : i / c.localPodCount = k := by
  rw [region_first hk] at h1
  rw [region_end hk] at h2
  refine Nat.div_eq_of_lt_le h1 ?_
  rw [Nat.succ_mul]
  exact h2

theorem pageSize_pos : 0 < c.pageSize := by
  have h := (c.L 0).size_pos
  rwa [c.size] at h

theorem numPageNeeded_pos {size : ℕ} (h : isSmall c.pageSize size = false) :
    0 < c.numPageNeeded size := by
  refine Double.ceilDiv_pos ?_ pageSize_pos
  simp only [isSmall, Bool.not_eq_false', decide_eq_true_eq] at h
  omega

end Setup

namespace Holdings

variable {c : Setup} {d d' : Holdings} {i k p : ℕ} {a : Arena.Session} {x y : ℕ × ℕ}

/-- The blocks that are in use. -/
def blocks (d : Holdings) : List (ℕ × ℕ) :=
  (d.huge ++ d.setting).map HugeCall.block ++ d.small.map (fun i => (i, 1))

/-- The call asked for its block, and its loop has marked the pages before `next` as used. -/
structure Marked (c : Setup) (d : Holdings) (x : HugeCall) : Prop where
  low : x.head ≤ x.next
  high : x.next ≤ x.head + x.pages
  large : isSmall c.pageSize x.size = false
  pages : x.pages = c.numPageNeeded x.size
  used : ∀ i, x.head ≤ i → i < x.next → ∃ t, d.tagOf c i = some t ∧ t.isFree = false

/-- Every arena is in order, and the blocks in use are distinct blocks of their arenas. -/
structure Inv (c : Setup) (d : Holdings) : Prop where
  arenas : ∀ k, k < d.arenaCount → ∃ h : Arena.AbsArena (c.region k), (d.arenas k).Inv h
  fresh : ∀ k, d.arenaCount ≤ k → d.arenas k = new.arenas k
  count : d.arenaCount ≤ c.maxArena
  nodup : d.blocks.Nodup
  given : ∀ x ∈ d.blocks, x.1 / c.localPodCount < d.arenaCount ∧ x ∈ (d.arenaOf c x.1).live
  calls : ∀ x ∈ d.huge ++ d.setting, d.Marked c x
  done : ∀ x ∈ d.huge, x.next = x.head + x.pages

theorem inv_new : Inv c new := by
  refine ⟨fun k hk => absurd hk (Nat.not_lt_zero k), fun k _ => rfl, Nat.zero_le _,
    nodup_nil, ?_, ?_, ?_⟩
  · exact fun x hx => absurd hx not_mem_nil
  · exact fun x hx => absurd hx not_mem_nil
  · exact fun x hx => absurd hx not_mem_nil

theorem block_mem {z : HugeCall} (hz : z ∈ d.huge ++ d.setting) : z.block ∈ d.blocks :=
  mem_append_left _ (mem_map_of_mem hz)

theorem page_mem (hi : i ∈ d.small) : (i, 1) ∈ d.blocks :=
  mem_append_right _ (mem_map_of_mem hi)

theorem tagOf_setArena_self (hk : i / c.localPodCount = k) :
    (d.setArena k a).tagOf c i = a.arena.pods i := by
  rw [tagOf, arenaOf, hk]
  exact congrArg (fun s : Arena.Session => s.arena.pods i) (update_self ..)

theorem tagOf_setArena_of_ne (hk : i / c.localPodCount ≠ k) :
    (d.setArena k a).tagOf c i = d.tagOf c i :=
  congrArg (fun s : Arena.Session => s.arena.pods i) (update_of_ne hk ..)

theorem mem_of_callAt {z : HugeCall} (hz : d.callAt p = some z) : z ∈ d.setting ∧ z.head = p := by
  refine ⟨mem_of_find?_eq_some hz, ?_⟩
  simpa using List.find?_some hz

namespace Inv

variable (hd : d.Inv c)
include hd

theorem lt_maxArena (hk : k < d.arenaCount) : k < c.maxArena := hk.trans_le hd.count

theorem arena (hx : x ∈ d.blocks) :
    ∃ h : Arena.AbsArena (c.region (x.1 / c.localPodCount)), (d.arenaOf c x.1).Inv h :=
  hd.arenas _ (hd.given x hx).1

/-- The pages of a block are in one arena. -/
theorem same_arena (hx : x ∈ d.blocks) (hi : Arena.Covers x i) :
    i / c.localPodCount = x.1 / c.localPodCount := by
  obtain ⟨h, hs⟩ := hd.arena hx
  obtain ⟨h1, h2, -⟩ := hs.bounds (hd.given x hx).2
  exact Setup.div_of_region (hd.lt_maxArena (hd.given x hx).1) (h1.trans hi.1) (hi.2.trans_le h2)

theorem apart (hx : x ∈ d.blocks) (hy : y ∈ d.blocks) (hxi : Arena.Covers x i)
    (hyi : Arena.Covers y i) : x = y := by
  obtain ⟨h, hs⟩ := hd.arena hx
  have hlive := (hd.given y hy).2
  rw [arenaOf, ← hd.same_arena hy hyi, hd.same_arena hx hxi] at hlive
  exact hs.apart (hd.given x hx).2 hlive hxi hyi

theorem lt_podsSize (hx : x ∈ d.blocks) (hi : Arena.Covers x i) : i < c.podsSize := by
  have hk := (hd.given x hx).1
  rw [← hd.same_arena hx hi] at hk
  have hcount := hk.trans_le hd.count
  have hmul : (i / c.localPodCount + 1) * c.localPodCount ≤ c.podsSize :=
    (Nat.mul_le_mul_right _ hcount).trans (Nat.div_mul_le_self _ _)
  have hlt := Nat.lt_mul_div_succ i c.pos
  rw [Nat.mul_comm] at hlt
  exact hlt.trans_le hmul

theorem not_small_of_huge {z : HugeCall} (hz : z ∈ d.huge ++ d.setting)
    (hi : Arena.Covers z.block i) : i ∉ d.small := by
  intro hs
  have hself : Arena.Covers (i, 1) i := ⟨le_rfl, Nat.lt_succ_self i⟩
  have heq := hd.apart (block_mem hz) (page_mem hs) hi hself
  have hnd := hd.nodup
  rw [blocks, nodup_append'] at hnd
  refine hnd.2.2 (mem_map_of_mem hz) ?_
  rw [heq]
  exact mem_map_of_mem hs

theorem not_covers_of_free {h : Arena.AbsArena (c.region k)} (hlt : k < d.arenaCount)
    (hk : (d.arenas k).Inv h) (hfree : h.FreePage i) (hx : x ∈ d.blocks) : ¬ Arena.Covers x i := by
  intro hi
  obtain ⟨q, n, hq, h1, h2⟩ := hfree
  obtain ⟨hq1, hq2, -⟩ := h.bounds hq
  have hdiv : i / c.localPodCount = k :=
    Setup.div_of_region (hd.lt_maxArena hlt) (hq1.trans h1) (lt_of_lt_of_le h2 hq2)
  have hlive := (hd.given x hx).2
  rw [arenaOf, ← hd.same_arena hx hi, hdiv] at hlive
  exact hk.not_freePage hlive hi ⟨q, n, hq, h1, h2⟩

/-! ### Changes of one arena -/

/-- Arena `k` changes, and with it the blocks. -/
theorem change (hk : k < d.arenaCount) (harenas : d'.arenas = update d.arenas k a)
    (hcount : d'.arenaCount = d.arenaCount) (ha : ∃ h : Arena.AbsArena (c.region k), a.Inv h)
    (hnodup : d'.blocks.Nodup)
    (hgiven : ∀ x ∈ d'.blocks, x ∈ d.blocks ∧ x.1 / c.localPodCount ≠ k ∨
      x.1 / c.localPodCount = k ∧ x ∈ a.live)
    (hcalls : ∀ x ∈ d'.huge ++ d'.setting, d'.Marked c x)
    (hdone : ∀ x ∈ d'.huge, x.next = x.head + x.pages) : d'.Inv c := by
  refine ⟨?_, ?_, hcount ▸ hd.count, hnodup, ?_, hcalls, hdone⟩
  · intro j hj
    rw [harenas]
    by_cases hjk : j = k
    · subst hjk
      rw [update_self]
      exact ha
    · rw [update_of_ne hjk]
      exact hd.arenas j (hcount ▸ hj)
  · intro j hj
    rw [hcount] at hj
    rw [harenas, update_of_ne (by omega)]
    exact hd.fresh j hj
  · intro x hx
    rw [arenaOf, harenas, hcount]
    rcases hgiven x hx with ⟨hold, hne⟩ | ⟨hself, hlive⟩
    · rw [update_of_ne hne]
      exact hd.given x hold
    · rw [hself, update_self]
      exact ⟨hk, hlive⟩

theorem tagOf_frame (harenas : d'.arenas = update d.arenas k a) (hx : x ∈ d.blocks)
    (hi : Arena.Covers x i)
    (hsame : x.1 / c.localPodCount = k → a.arena.pods i = (d.arenas k).arena.pods i) :
    d'.tagOf c i = d.tagOf c i := by
  rw [tagOf, tagOf, arenaOf, arenaOf, harenas]
  by_cases hk : x.1 / c.localPodCount = k
  · rw [hd.same_arena hx hi, hk, update_self]
    exact hsame hk
  · rw [hd.same_arena hx hi, update_of_ne hk]

theorem marked_frame {z : HugeCall} (harenas : d'.arenas = update d.arenas k a)
    (hz : z ∈ d.huge ++ d.setting)
    (hsame : ∀ i, Arena.Covers z.block i → z.head / c.localPodCount = k →
      a.arena.pods i = (d.arenas k).arena.pods i) : d'.Marked c z := by
  have hm := hd.calls z hz
  refine ⟨hm.low, hm.high, hm.large, hm.pages, ?_⟩
  intro i h1 h2
  have hi : Arena.Covers z.block i := ⟨h1, h2.trans_le hm.high⟩
  rw [hd.tagOf_frame harenas (block_mem hz) hi (hsame i hi)]
  exact hm.used i h1 h2

theorem live_of_div (hx : x ∈ d.blocks) (hk : x.1 / c.localPodCount = k) :
    x ∈ (d.arenas k).live := by
  have h := (hd.given x hx).2
  rwa [arenaOf, hk] at h

theorem addNewRegionCore (hroom : d.arenaCount < c.maxArena)
    (run : d.addNewRegionCore c = .ok d') : d'.Inv c := by
  simp only [Holdings.addNewRegionCore, hd.fresh d.arenaCount le_rfl] at run
  obtain ⟨a, hrun, hd'⟩ := of_bind_ok run
  cases hd'
  have hne : ∀ x ∈ d.blocks, x.1 / c.localPodCount ≠ d.arenaCount := fun x hx =>
    (hd.given x hx).1.ne
  refine ⟨?_, ?_, hroom, hd.nodup, ?_, ?_, hd.done⟩
  · intro j hj
    change ∃ h : Arena.AbsArena (c.region j), (update d.arenas d.arenaCount _ j).Inv h
    rcases (Nat.lt_succ_iff_lt_or_eq.mp hj) with hj | rfl
    · rw [update_of_ne hj.ne]
      exact hd.arenas j hj
    · rw [update_self]
      exact ⟨_, Arena.Session.inv_init hrun⟩
  · intro j hj
    have hjne : j ≠ d.arenaCount := by
      have : d.arenaCount + 1 ≤ j := hj
      omega
    change update d.arenas d.arenaCount _ j = _
    rw [update_of_ne hjne]
    exact hd.fresh j (Nat.le_of_succ_le hj)
  · intro x hx
    obtain ⟨h1, h2⟩ := hd.given x hx
    refine ⟨h1.trans (Nat.lt_succ_self _), ?_⟩
    change x ∈ (update d.arenas d.arenaCount _ (x.1 / c.localPodCount)).live
    rw [update_of_ne (hne x hx)]
    exact h2
  · intro z hz
    refine hd.marked_frame rfl hz ?_
    exact fun i _ hk => absurd hk (hne z.block (block_mem hz))

/-- A new block of arena `k`, for a call or for a buffer. -/
theorem hand {n : ℕ} {b : Arena.State} (d' : Holdings) (hk : k < d.arenaCount) (hn : 0 < n)
    (run : (d.arenas k).arena.allocateNPages (c.region k) n = .ok (some p, b))
    (harenas : d'.arenas = update d.arenas k ⟨b, (p, n) :: (d.arenas k).live⟩)
    (hcount : d'.arenaCount = d.arenaCount) (hblocks : d'.blocks.Perm ((p, n) :: d.blocks))
    (hcalls : ∀ x ∈ d'.huge ++ d'.setting, x ∈ d.huge ++ d.setting ∨ d'.Marked c x)
    (hhuge : d'.huge = d.huge) : d'.Inv c ∧ (p, n) ∉ d.blocks := by
  obtain ⟨h, hs⟩ := hd.arenas k hk
  obtain ⟨⟨h', hs'⟩, hnew, hsame⟩ := hs.allocateNPages hn run
  obtain ⟨hp1, hp2, -⟩ := hs'.bounds (mem_cons_self ..)
  have hdiv : p / c.localPodCount = k := Setup.div_of_region (hd.lt_maxArena hk) hp1 (by omega)
  have hfresh : (p, n) ∉ d.blocks := fun hc => hnew (hd.live_of_div hc hdiv)
  refine ⟨hd.change hk harenas hcount ⟨h', hs'⟩ ?_ ?_ ?_ (hhuge ▸ hd.done), hfresh⟩
  · exact hblocks.nodup_iff.mpr (nodup_cons.mpr ⟨hfresh, hd.nodup⟩)
  · intro x hx
    rcases mem_cons.mp (hblocks.mem_iff.mp hx) with rfl | hx
    · exact .inr ⟨hdiv, mem_cons_self ..⟩
    · by_cases hxk : x.1 / c.localPodCount = k
      · exact .inr ⟨hxk, mem_cons_of_mem _ (hd.live_of_div hx hxk)⟩
      · exact .inl ⟨hx, hxk⟩
  · intro z hz
    rcases hcalls z hz with hz | hz
    · refine hd.marked_frame harenas hz fun i hi hzk => ?_
      exact hsame z.block (hd.live_of_div (block_mem hz) hzk) i hi
    · exact hz

theorem allocateNPages_some {n : ℕ} {ptr : Option ℕ} {b : Arena.State} (hk : k < d.arenaCount)
    (hn : 0 < n) (run : (d.arenas k).arena.allocateNPages (c.region k) n = .ok (ptr, b)) :
    ∃ p, ptr = some p := by
  obtain ⟨h, hs⟩ := hd.arenas k hk
  by_cases hserve : h.CanServe n
  · obtain ⟨q, m, hq, hm⟩ := hserve
    obtain ⟨p, _, _, hrun, -⟩ := Arena.allocateNPages_ok hs.shows hn hq hm
    cases hrun.symm.trans run
    exact ⟨p, rfl⟩
  · rw [Arena.allocateNPages_exhausted hs.shows hn hserve] at run
    cases run

theorem hugeMalloc {size : ℕ} (hk : k < d.arenaCount) (hlarge : isSmall c.pageSize size = false)
    (run : d.hugeMalloc c k size = .ok d') : d'.Inv c ∧ d'.small = d.small := by
  have hn := Setup.numPageNeeded_pos hlarge
  obtain ⟨⟨ptr, b⟩, hrun, hrest⟩ := of_bind_ok run
  obtain ⟨p, rfl⟩ := hd.allocateNPages_some hk hn hrun
  set z : HugeCall := ⟨p, c.numPageNeeded size, size, p⟩ with hz
  have hd' : { d.setArena k ⟨b, z.block :: (d.arenas k).live⟩ with setting := z :: d.setting } =
      d' :=
    Except.ok.inj hrest
  have hperm : (d.huge ++ z :: d.setting).Perm (z :: (d.huge ++ d.setting)) := perm_middle
  have hmarked : d'.Marked c z :=
    ⟨le_rfl, Nat.le_add_right _ _, hlarge, rfl, fun i h1 h2 => absurd h2 (Nat.not_lt.mpr h1)⟩
  refine ⟨(hd.hand d' hk hn hrun ?_ ?_ ?_ ?_ ?_).1, ?_⟩ <;> rw [← hd']
  · rfl
  · rfl
  · exact (hperm.map HugeCall.block).append_right _
  · intro x hx
    rcases mem_cons.mp (hperm.mem_iff.mp hx) with rfl | hx
    · exact .inr (hd' ▸ hmarked)
    · exact .inl hx
  · rfl
  · rfl

theorem allocatePage (hk : k < d.arenaCount) (run : d.allocatePage c k = .ok (i, d')) :
    d'.Inv c ∧ d'.small = i :: d.small ∧ i ∉ d.small := by
  obtain ⟨⟨ptr, b⟩, hrun, hrest⟩ := of_bind_ok run
  obtain ⟨p, rfl⟩ := hd.allocateNPages_some hk Nat.one_pos hrun
  obtain ⟨rfl, hd'⟩ := Prod.mk.inj (Except.ok.inj hrest)
  have hinv : d'.Inv c ∧ (p, 1) ∉ d.blocks := by
    refine hd.hand d' hk Nat.one_pos hrun ?_ ?_ ?_ ?_ ?_ <;> rw [← hd']
    · rfl
    · rfl
    · exact perm_middle
    · exact fun x hx => .inl hx
    · rfl
  refine ⟨hinv.1, ?_, fun hc => hinv.2 (page_mem hc)⟩
  rw [← hd']

theorem hugeReturn {z : HugeCall} (hz : z ∈ d.setting) (hend : z.next = z.head + z.pages) :
    (d.hugeReturn z).Inv c := by
  have hcalls : (z :: d.huge ++ d.setting.erase z).Perm (d.huge ++ d.setting) :=
    (perm_middle.symm).trans ((perm_cons_erase hz).symm.append_left _)
  have hblocks : (d.hugeReturn z).blocks.Perm d.blocks := (hcalls.map _).append_right _
  refine ⟨hd.arenas, hd.fresh, hd.count, hblocks.nodup_iff.mpr hd.nodup, ?_, ?_, ?_⟩
  · exact fun x hx => hd.given x (hblocks.mem_iff.mp hx)
  · intro x hx
    have hm := hd.calls x (hcalls.mem_iff.mp hx)
    exact ⟨hm.low, hm.high, hm.large, hm.pages, hm.used⟩
  · intro x hx
    rcases mem_cons.mp hx with rfl | hx
    · exact hend
    · exact hd.done x hx

/-- The arena of a block changes nothing but the tag of one of its pages. -/
theorem retag {b : Arena.State} (d' : Holdings) (hx : x ∈ d.blocks)
    (hs : ∃ h : Arena.AbsArena (c.region (x.1 / c.localPodCount)), Arena.Session.Inv
      ⟨b, (d.arenaOf c x.1).live⟩ h)
    (harenas : d'.arenas = update d.arenas (x.1 / c.localPodCount)
      ⟨b, (d.arenaOf c x.1).live⟩)
    (hcount : d'.arenaCount = d.arenaCount) (hblocks : d'.blocks.Perm d.blocks)
    (hcalls : ∀ z ∈ d'.huge ++ d'.setting, d'.Marked c z)
    (hdone : d'.huge = d.huge) : d'.Inv c := by
  refine hd.change (hd.given x hx).1 harenas hcount hs (hblocks.nodup_iff.mpr hd.nodup) ?_ hcalls
    (hdone ▸ hd.done)
  intro y hy
  rw [hblocks.mem_iff] at hy
  by_cases hk : y.1 / c.localPodCount = x.1 / c.localPodCount
  · exact .inr ⟨hk, hd.live_of_div hy hk⟩
  · exact .inl ⟨hy, hk⟩

omit hd in
/-- A round of the loop changes two fields of one tag and counts the page. -/
theorem page_cases {z : HugeCall} {d₁ : Holdings} (henter : d.enterPage c z = .ok d₁)
    (hleave : d₁.leavePage c z = .ok d') :
    ∃ a b, ((d.arenaOf c z.head).arena.mapForPodI z.next).modify z.next
        (fun t => { t with headPod := .pod z.head }) = .ok a ∧
      a.modify z.next (fun t => { t with isFree := false }) = .ok b ∧
      d' = { d.setArena (z.head / c.localPodCount) ⟨b, (d.arenaOf c z.head).live⟩ with
        setting := { z with next := z.next + 1 } :: d.setting.erase z } := by
  obtain ⟨a, hhead, hd₁⟩ := of_bind_ok henter
  obtain rfl := Except.ok.inj hd₁
  obtain ⟨_, htag, hd'⟩ := of_bind_ok hleave
  obtain ⟨b, hused, hset⟩ := of_bind_ok htag
  obtain rfl := Except.ok.inj hset
  obtain rfl := Except.ok.inj hd'
  simp only [arenaOf, setArena, update_self, update_idem] at hhead hused ⊢
  exact ⟨a, b, hhead, hused, rfl⟩

/-- A round of the loop marks one more page. -/
theorem page {z : HugeCall} {d₁ : Holdings} (hz : z ∈ d.setting) (hlt : z.next < z.head + z.pages)
    (henter : d.enterPage c z = .ok d₁) (hleave : d₁.leavePage c z = .ok d') :
    d'.Inv c ∧ d'.small = d.small := by
  have hcall : z ∈ d.huge ++ d.setting := mem_append_right _ hz
  have hm := hd.calls z hcall
  obtain ⟨h, hs⟩ := hd.arena (block_mem hcall)
  obtain ⟨hk, hlive⟩ := hd.given _ (block_mem hcall)
  have hin : Arena.Covers z.block z.next := ⟨hm.low, hlt⟩
  obtain ⟨a', b, hhead, hused, hd'⟩ := page_cases henter hleave
  obtain ⟨hs', hother, t, ht, hfree⟩ := hs.setPage hlive hin hhead hused
  set z' : HugeCall := { z with next := z.next + 1 } with hz'
  have harenas : d'.arenas = update d.arenas (z.head / c.localPodCount)
      ⟨b, (d.arenaOf c z.head).live⟩ := by
    rw [hd']
    rfl
  have hsplit : (d.huge ++ d.setting).Perm (z :: (d.huge ++ d.setting.erase z)) :=
    ((perm_cons_erase hz).append_left _).trans perm_middle
  have hcalls : (d'.huge ++ d'.setting).Perm (z' :: (d.huge ++ d.setting.erase z)) := by
    rw [hd']
    exact perm_middle
  have hblocks : d'.blocks.Perm d.blocks := by
    have hmap := (hcalls.map HugeCall.block).trans (hsplit.map HugeCall.block).symm
    have hsmall : d'.small = d.small := by rw [hd']; rfl
    rw [blocks, blocks, hsmall]
    exact hmap.append_right _
  -- the tags of every block but that of `z` stay, and of this one only that of the page changes
  have htags : ∀ i, i ≠ z.next → ∀ y ∈ d.huge ++ d.setting, Arena.Covers y.block i →
      d'.tagOf c i = d.tagOf c i := by
    intro i hi y hy hyi
    exact hd.tagOf_frame harenas (block_mem hy) hyi (fun _ => hother i hi)
  have hself : d'.tagOf c z.next = some t := by
    rw [tagOf, arenaOf, harenas, hd.same_arena (block_mem hcall) hin]
    change (update d.arenas (z.head / c.localPodCount) _
      (z.head / c.localPodCount)).arena.pods z.next = some t
    rw [update_self]
    exact ht
  refine ⟨hd.retag d' (block_mem hcall) hs' harenas ?_ hblocks ?_ ?_, ?_⟩
  · rw [hd']
    rfl
  · intro y hy
    rcases mem_cons.mp (hcalls.mem_iff.mp hy) with rfl | hy
    · refine ⟨hm.low.trans (Nat.le_succ _), hlt, hm.large, hm.pages, ?_⟩
      intro i h1 h2
      by_cases hi : i = z.next
      · exact ⟨t, hi ▸ hself, hfree⟩
      · have hlt' : i < z.next := lt_of_le_of_ne (Nat.lt_succ_iff.mp h2) hi
        rw [htags i hi z hcall ⟨h1, hlt'.trans hlt⟩]
        exact hm.used i h1 hlt'
    · have hy' := hsplit.mem_iff.mpr (mem_cons_of_mem z hy)
      have hmy := hd.calls y hy'
      refine ⟨hmy.low, hmy.high, hmy.large, hmy.pages, ?_⟩
      intro i h1 h2
      by_cases hi : i = z.next
      · exact ⟨t, hi ▸ hself, hfree⟩
      · rw [htags i hi y hy' ⟨h1, h2.trans_le hmy.high⟩]
        exact hmy.used i h1 h2
  · rw [hd']
    rfl
  · rw [hd']
    rfl

theorem setHead {v : Arena.HeadPod} (hx : x ∈ d.blocks)
    (run : d.setTag c x.1 i (fun t => { t with headPod := v }) = .ok d') :
    d'.Inv c ∧ d'.huge = d.huge ∧ d'.setting = d.setting ∧ d'.small = d.small := by
  obtain ⟨h, hs⟩ := hd.arena hx
  obtain ⟨b, hmod, hd'⟩ := of_bind_ok run
  obtain rfl := Except.ok.inj hd'
  have hs' := Arena.Session.inv_step hs (.setHeadPod i v hmod)
  refine ⟨hd.retag _ hx hs' rfl rfl (.refl _) ?_ rfl, rfl, rfl, rfl⟩
  intro z hz
  have hm := hd.calls z hz
  refine ⟨hm.low, hm.high, hm.large, hm.pages, ?_⟩
  intro j h1 h2
  obtain ⟨t, ht, hfree⟩ := hm.used j h1 h2
  have hkeep : (b.pods j).map Arena.PageTag.isFree =
      ((d.arenaOf c x.1).arena.pods j).map Arena.PageTag.isFree := by
    rw [Arena.Session.modify_ok hmod]
    exact congrFun (Arena.State.adjust_field_of_keeps (f := fun t => { t with headPod := v })
      (Option.map Arena.PageTag.isFree) (fun _ => rfl)) j
  by_cases hk : j / c.localPodCount = x.1 / c.localPodCount
  · rw [tagOf, arenaOf, hk] at ht
    rw [arenaOf, ht, Option.map_some, Option.map_eq_some_iff] at hkeep
    obtain ⟨t', ht', hfree'⟩ := hkeep
    exact ⟨t', (tagOf_setArena_self hk).trans ht', hfree'.trans hfree⟩
  · exact ⟨t, (tagOf_setArena_of_ne hk).trans ht, hfree⟩

/-- The tag of the first page of a block has its length. -/
theorem header (hx : x ∈ d.blocks) : (d.arenaOf c x.1).arena.tag x.1 = some (x.2, false) := by
  obtain ⟨h, hs⟩ := hd.arena hx
  exact hs.header (hd.given x hx).2

theorem globalSize {t : Arena.PageTag} (hx : x ∈ d.blocks) (ht : d.tagOf c x.1 = some t) :
    t.globalSize = x.2 := by
  have h := hd.header hx
  rw [tagOf] at ht
  simp only [Arena.State.tag, ht, Option.map_some, Option.some.injEq, Prod.mk.injEq] at h
  exact h.1

/-- The first page of a block belongs to it. -/
theorem covers_self (hx : x ∈ d.blocks) : Arena.Covers x x.1 := by
  obtain ⟨h, hs⟩ := hd.arena hx
  exact ⟨le_rfl, Nat.lt_add_of_pos_right (hs.bounds (hd.given x hx).2).2.2⟩

theorem not_mem_of_freed {z : HugeCall} (hz : z ∈ d.huge)
    (hhuge : d'.huge = d.huge.filter (fun x => x.head ≠ z.head)) (hsetting : d'.setting = d.setting)
    (hsmall : d'.small = d.small) : z.block ∉ d'.blocks := by
  have hnd := hd.nodup
  rw [blocks, map_append, append_assoc, nodup_append'] at hnd
  rw [blocks, hhuge, hsetting, hsmall, map_append, append_assoc, mem_append]
  rintro (hc | hc)
  · obtain ⟨y, hy, hyz⟩ := mem_map.mp hc
    have hne := of_decide_eq_true (mem_filter.mp hy).2
    exact hne (congrArg Prod.fst hyz)
  · exact hnd.2.2 (mem_map_of_mem hz) hc

theorem hugeFree_cases {z : HugeCall} (hz : z ∈ d.huge)
    (run : d.crossOwnershipHugeFree c z.head = .ok d') :
    ∃ t b, (d.arenaOf c z.head).arena.getPod z.head = .ok t ∧ t.globalSize = z.pages ∧
      (d.arenaOf c z.head).arena.hugeFree (c.region (z.head / c.localPodCount)) z.head = .ok b ∧
      d' = { d.setArena (z.head / c.localPodCount)
        ⟨b, (d.arenaOf c z.head).live.erase z.block⟩ with
        huge := d.huge.filter (fun x => x.head ≠ z.head) } := by
  obtain ⟨t, ht, hd'⟩ := of_bind_ok run
  obtain ⟨b, hfree, hd'⟩ := of_bind_ok hd'
  obtain ⟨t', ht', hsize, -⟩ :=
    Arena.State.getPod_of_tag (hd.header (block_mem (mem_append_left d.setting hz)))
  obtain rfl : t' = t := Except.ok.inj (ht'.symm.trans ht)
  refine ⟨t', b, ht, hsize, hfree, ?_⟩
  rw [← Except.ok.inj hd', hsize]
  rfl

theorem crossOwnershipHugeFree {z : HugeCall} (hz : z ∈ d.huge)
    (run : d.crossOwnershipHugeFree c z.head = .ok d') :
    d'.Inv c ∧ d'.huge = d.huge.filter (fun x => x.head ≠ z.head) ∧ d'.setting = d.setting ∧
      d'.small = d.small := by
  have hcall : z ∈ d.huge ++ d.setting := mem_append_left _ hz
  have hblock := block_mem hcall
  obtain ⟨h, hs⟩ := hd.arena hblock
  obtain ⟨hk, hlive⟩ := hd.given _ hblock
  obtain ⟨t, b, -, -, hfree, hd'⟩ := hd.hugeFree_cases hz run
  obtain ⟨hs', hsame⟩ := hs.hugeFree hlive hfree
  have hhuge : d'.huge = d.huge.filter (fun x => x.head ≠ z.head) := by rw [hd']
  have hsetting : d'.setting = d.setting := by rw [hd']; rfl
  have hsmall : d'.small = d.small := by rw [hd']; rfl
  have hsub : (d'.huge ++ d'.setting).Sublist (d.huge ++ d.setting) := by
    rw [hhuge, hsetting]
    exact filter_sublist.append_right _
  have hblocks : d'.blocks.Sublist d.blocks := by
    rw [blocks, blocks, hsmall]
    exact (hsub.map _).append_right _
  have hgone := hd.not_mem_of_freed hz hhuge hsetting hsmall
  have harenas : d'.arenas = update d.arenas (z.head / c.localPodCount)
      ⟨b, (d.arenaOf c z.head).live.erase z.block⟩ := by
    rw [hd']
    rfl
  refine ⟨hd.change hk harenas ?_ hs' (hd.nodup.sublist hblocks) ?_ ?_ ?_, hhuge, hsetting,
    hsmall⟩
  · rw [hd']
    rfl
  · intro x hx
    have hold := hblocks.subset hx
    have hne : x ≠ z.block := fun hc => hgone (hc ▸ hx)
    by_cases hxk : x.1 / c.localPodCount = z.head / c.localPodCount
    · exact .inr ⟨hxk, (mem_erase_of_ne hne).mpr (hd.live_of_div hold hxk)⟩
    · exact .inl ⟨hold, hxk⟩
  · intro y hy
    have hold := hsub.subset hy
    have hne : y.block ≠ z.block := fun hc => hgone (hc ▸ block_mem hy)
    refine hd.marked_frame harenas hold fun i hi hyk => ?_
    exact hsame y.block (hd.live_of_div (block_mem hold) hyk) hne i hi
  · intro y hy
    rw [hhuge] at hy
    exact hd.done y (mem_filter.mp hy).1

end Inv

end Holdings

/-! ## Lists and buffers -/

namespace Session

variable {L : ℕ → Layout} {path : ℕ → String} {b : Prop} {s s' : Session}
  {h h' : ∀ i, AbsHeap (L i)} {op : Op} {i : ℕ}

/-- A page gets its list when it leaves the buffer, and at no other time. -/
theorem home_step (ha : s.After L path b h op s' h') (hne : ∀ l, op ≠ .addPodAndAllocate l i) :
    s'.splPushdown i = s.splPushdown i := by
  have hdid := ha.did
  cases op with
  | allocate l size c => exact congrFun hdid.home i
  | addPodAndAllocate l j =>
    have hj : i ≠ j := by
      rintro rfl
      exact hne l rfl
    rw [hdid.home, update_of_ne hj]
  | free j a =>
    obtain ⟨l, -, hcall, -⟩ := hdid
    exact congrFun hcall.home i
  | trim l c tryLock => exact congrFun hdid.home i
  | pickPodToEvict j isFree localCopy => exact congrFun hdid.1.home i
  | asyncSwapOutPod j localCopy => exact congrFun hdid.1.home i
  | activatePod j f => exact congrFun hdid.1.home i
  | prefetchPod j f => exact congrFun hdid.1.home i
  | addPodToBuffer j f => exact congrFun hdid.1.home i
  | trimFreePage j => exact congrFun hdid.1.home i
  | store j a v => exact congrFun hdid.1.home i

theorem pinned_onePod {g' : Pager} {j : ℕ} (ho : Pager.OnePod j s.toPager h g' h')
    (hp : (s.pods i).state = .localPinned)
    (hself : i = j → (g'.pods i).state = .localPinned) : (g'.pods i).state = .localPinned := by
  by_cases hj : i = j
  · exact hself hj
  · rw [ho.pods_of_ne hj]
    exact hp

theorem pinned_evicted {g g' : Pager} (he : Pager.Evicted g g' i)
    (hp : (g.pods i).state = .localPinned) : (g'.pods i).state = .localPinned := by
  cases he with
  | idle _ heq => rw [heq, hp]
  | dropped hs => rcases hs with hs | hs <;> simp [hp] at hs
  | kept hs => simp [hp] at hs
  | out hs => simp [hp] at hs

/-- A page in a buffer stays there until a list takes it. -/
theorem pinned_step (ha : s.After L path b h op s' h') (hn : s.splPushdown i = none)
    (hp : (s.pods i).state = .localPinned) (hne : ∀ l, op ≠ .addPodAndAllocate l i) :
    (s'.pods i).state = .localPinned := by
  have hdid := ha.did
  have hloose : ∀ l, ¬ s.Of l i := fun l hl => nomatch hn.symm.trans hl
  have hcell : ∀ {g : Pager} {l : ℕ}, Pager.Called b l g h s'.toPager h' →
      g.splPushdown = s.splPushdown → (s'.pods i).state = (g.pods i).state := by
    intro g l hc hhome
    have hnot : ¬ g.Of l i := by
      rw [Pager.Of, hhome]
      exact hloose l
    exact congrArg (fun x : Cell (L i) => x.pod.state) (hc.others i hnot)
  cases op with
  | allocate l size c => exact (hcell hdid rfl).trans hp
  | addPodAndAllocate l j =>
    have hj : i ≠ j := by
      rintro rfl
      exact hne l rfl
    have heq := congrArg (fun x : Cell (L i) => x.pod.state) (hdid.others i hj (hloose l))
    exact heq.trans hp
  | free j a =>
    obtain ⟨l, hl, hcall, -⟩ := hdid
    have hj : i ≠ j := by
      rintro rfl
      exact hloose l hl
    refine (hcell hcall rfl).trans ?_
    rw [Pager.pods_note_of_ne hj]
    exact hp
  | trim l c tryLock => exact (hcell hdid rfl).trans hp
  | pickPodToEvict j isFree localCopy | asyncSwapOutPod j localCopy =>
    refine pinned_onePod hdid.1 hp ?_
    rintro rfl
    exact pinned_evicted hdid.2 hp
  | activatePod j f =>
    refine pinned_onePod hdid.1 hp ?_
    rintro rfl
    cases hdid.2 with
    | idle _ heq => rw [heq, hp]
    | mapped hs => simp [hp] at hs
    | back hs => exact absurd hp hs.2.2
  | prefetchPod j f =>
    refine pinned_onePod hdid.1 hp ?_
    rintro rfl
    cases hdid.2 with
    | idle _ heq => rw [heq, hp]
    | mapped hs => simp [hp] at hs
    | cached hs => rcases hs with hs | hs <;> simp [hp] at hs
  | addPodToBuffer j f =>
    refine pinned_onePod hdid.1 hp ?_
    rintro rfl
    exact hdid.2.1
  | trimFreePage j | store j a v =>
    refine pinned_onePod hdid.1 hp ?_
    rintro rfl
    exact hdid.2.state.trans hp

end Session

namespace Manager

variable {c : Setup} {path : ℕ → String} {b : Prop} {m m' : Manager} {cmd : Cmd} {op : Op}
  {h h' : ∀ i, AbsHeap (c.L i)} {i : ℕ}

variable (c) in
/-- The operation of the session that a command calls. -/
def opOf (m : Manager) : Cmd → Option Op
  | .addNewRegionCore => none
  | .remonMalloc l size ch => some (.allocate l (computeAsize size) ch)
  | .getBufferedPod l i => some (.addPodAndAllocate l i)
  | .hugeMalloc _ _ => none
  | .hugePage p f =>
    match m.callAt p with
    | none => none
    | some x =>
      if (m.pods x.next).state ≠ .local_ then some (.activatePod x.next f) else none
  | .hugeReturn _ => none
  | .remonFree addr =>
    if (c.L (c.getResponsiblePod addr)).payloadStart = addr then none
    else some (.free (c.getResponsiblePod addr) addr)
  | .activatePod i f => some (.activatePod i f)
  | .prefetchPod i f => some (.prefetchPod i f)
  | .allocatePage _ => none
  | .addPodToBuffer i tryLock f => if tryLock then some (.addPodToBuffer i f) else none
  | .pickPodToEvict i localCopy =>
    (m.tagOf c i).map (fun t => .pickPodToEvict i t.isFree localCopy)
  | .trim l ch tryLock => some (.trim l ch tryLock)
  | .trimFreePage _ i => some (.trimFreePage i)
  | .store i addr v => some (.store i addr v)

variable (c path) in
/-- What a command does to the session. -/
def Moves (m : Manager) (t : Session) : Option Op → Prop
  | none => t = m.toSession
  | some op => m.toSession.step c.L path op = .ok t

theorem toHoldings_call (run : m.call c path op = .ok m') : m'.toHoldings = m.toHoldings := by
  obtain ⟨t, -, hm'⟩ := of_bind_ok run
  obtain rfl := Except.ok.inj hm'
  rfl

def Notes (m m' : Manager) : Cmd → Prop
  | .remonMalloc l size _ => m'.asked = m.noteAsked m'.toSession size ∧
      m'.request = update m.request l size ∧
      m'.fetched = m.fetched ∧ m'.buffered = m.buffered
  | .getBufferedPod l i => m'.asked = m.noteAsked m'.toSession (m.request l) ∧
      m'.request = m.request ∧ m'.fetched = m.fetched ∧ m'.buffered = m.buffered.erase i
  | .allocatePage _ => m'.asked = m.asked ∧ m'.request = m.request ∧
      ∃ i, m'.fetched = i :: m.fetched ∧ m'.buffered = m.buffered
  | .addPodToBuffer i tryLock _ => m'.asked = m.asked ∧ m'.request = m.request ∧
      m'.fetched = m.fetched.erase i ∧
      m'.buffered = if tryLock then i :: m.buffered else m.buffered
  | _ => m'.asked = m.asked ∧ m'.request = m.request ∧
      m'.fetched = m.fetched ∧ m'.buffered = m.buffered

theorem call_cases (run : m.call c path op = .ok m') :
    m.Moves c path m'.toSession (some op) ∧ m'.asked = m.asked ∧ m'.request = m.request ∧
      m'.fetched = m.fetched ∧ m'.buffered = m.buffered := by
  obtain ⟨t, ht, hm'⟩ := of_bind_ok run
  obtain rfl := Except.ok.inj hm'
  exact ⟨ht, rfl, rfl, rfl, rfl⟩

/-- What a command that returned did, but for the arenas. -/
theorem step_cases (run : m.step c path cmd = .ok m') :
    m.Moves c path m'.toSession (m.opOf c cmd) ∧ m.Notes m' cmd := by
  cases cmd with
  | addNewRegionCore | hugeMalloc k size =>
    obtain ⟨d, -, hm'⟩ := of_bind_ok run
    obtain rfl := Except.ok.inj hm'
    exact ⟨rfl, rfl, rfl, rfl, rfl⟩
  | remonMalloc l size ch | getBufferedPod l i =>
    obtain ⟨t, ht, hm'⟩ := of_bind_ok run
    obtain rfl := Except.ok.inj hm'
    exact ⟨ht, rfl, rfl, rfl, rfl⟩
  | hugePage p f =>
    simp only [step, opOf] at run ⊢
    cases hx : m.callAt p with
    | none => simp [hx] at run
    | some x =>
      simp only [hx] at run ⊢
      obtain ⟨d, -, run⟩ := of_bind_ok run
      obtain ⟨t, ht, run⟩ := of_bind_ok run
      obtain ⟨d', -, hm'⟩ := of_bind_ok run
      obtain rfl := Except.ok.inj hm'
      rw [enterLocal] at ht
      by_cases hs : (m.pods x.next).state ≠ .local_
      · rw [if_pos hs] at ht ⊢
        exact ⟨ht, rfl, rfl, rfl, rfl⟩
      · rw [if_neg hs] at ht ⊢
        exact ⟨(Except.ok.inj ht).symm, rfl, rfl, rfl, rfl⟩
  | hugeReturn p =>
    simp only [step, opOf] at run ⊢
    cases hx : m.callAt p with
    | none => simp [hx] at run
    | some x =>
      simp only [hx, Except.ok.injEq] at run
      subst run
      exact ⟨rfl, rfl, rfl, rfl, rfl⟩
  | remonFree addr =>
    simp only [step, opOf] at run ⊢
    by_cases hp : (c.L (c.getResponsiblePod addr)).payloadStart = addr
    · rw [if_pos hp] at run ⊢
      obtain ⟨d, -, hm'⟩ := of_bind_ok run
      obtain rfl := Except.ok.inj hm'
      exact ⟨rfl, rfl, rfl, rfl, rfl⟩
    · rw [if_neg hp] at run ⊢
      exact call_cases run
  | activatePod i f => exact call_cases run
  | prefetchPod i f => exact call_cases run
  | allocatePage k =>
    obtain ⟨⟨i, d⟩, -, hm'⟩ := of_bind_ok run
    obtain rfl := Except.ok.inj hm'
    exact ⟨rfl, rfl, rfl, i, rfl, rfl⟩
  | addPodToBuffer i tryLock f =>
    cases tryLock with
    | true =>
      obtain ⟨d, -, run⟩ := of_bind_ok run
      obtain ⟨t, ht, hm'⟩ := of_bind_ok run
      obtain rfl := Except.ok.inj hm'
      exact ⟨ht, rfl, rfl, rfl, rfl⟩
    | false =>
      obtain rfl := Except.ok.inj run
      exact ⟨rfl, rfl, rfl, rfl, rfl⟩
  | pickPodToEvict i localCopy =>
    simp only [step, opOf] at run ⊢
    cases ht : m.tagOf c i with
    | none => simp [ht] at run
    | some t =>
      simp only [ht] at run
      exact call_cases run
  | trim l ch tryLock => exact call_cases run
  | trimFreePage k i => exact call_cases run
  | store i addr v => exact call_cases run

/-- Pages with a list went through a buffer; the pages on their way to a buffer and in one have
no list yet. -/
structure Homes (m : Manager) : Prop where
  listed : ∀ i l, m.Of l i → i ∈ m.small
  fetched : ∀ i ∈ m.fetched, i ∈ m.small ∧ m.splPushdown i = none
  buffered : ∀ i ∈ m.buffered, i ∈ m.small ∧ m.splPushdown i = none ∧
    (m.pods i).state = .localPinned
  nodup : (m.fetched ++ m.buffered).Nodup

/-- What a command leaves of the pages that wait. -/
structure Stays (m m' : Manager) (cmd : Cmd) : Prop where
  listed : ∀ i l, m'.Of l i → i ∈ m'.small
  fetched : ∀ i ∈ m.fetched, (∀ l, cmd ≠ .getBufferedPod l i) →
    i ∈ m'.small ∧ m'.splPushdown i = none
  buffered : ∀ i ∈ m.buffered, (∀ l, cmd ≠ .getBufferedPod l i) →
    i ∈ m'.small ∧ m'.splPushdown i = none ∧ (m'.pods i).state = .localPinned

variable (c path b) in
structure Inv (m : Manager) (h : ∀ i, AbsHeap (c.L i)) : Prop where
  session : m.toSession.Inv c.L path b h
  made : m.toSession.Made
  holdings : m.toHoldings.Inv c
  homes : m.Homes

theorem inv_new (hL : ∀ i, h i = .fresh (c.L i)) : Inv c path b new h := by
  refine ⟨Session.inv_new hL, ?_, Holdings.inv_new, ?_, ?_, ?_, nodup_nil⟩
  · exact fun i l hl => nomatch hl
  · exact fun i l hl => nomatch hl
  · exact fun i hi => absurd hi not_mem_nil
  · exact fun i hi => absurd hi not_mem_nil

variable (c) in
/-- What a command does to the arenas: nothing, or one of their operations on a block that it may
be used on. -/
inductive HoldingsDid (m m' : Manager) : Cmd → Prop
  | same {cmd : Cmd} (heq : m'.toHoldings = m.toHoldings)
      (hne : ∀ i f, cmd ≠ .addPodToBuffer i true f) : HoldingsDid m m' cmd
  | addNewRegionCore (hroom : m.arenaCount < c.maxArena)
      (hrun : m.toHoldings.addNewRegionCore c = .ok m'.toHoldings) :
      HoldingsDid m m' .addNewRegionCore
  | hugeMalloc {k size : ℕ} (hk : k < m.arenaCount) (hlarge : isSmall c.pageSize size = false)
      (hrun : m.toHoldings.hugeMalloc c k size = .ok m'.toHoldings) :
      HoldingsDid m m' (.hugeMalloc k size)
  | hugePage {z : HugeCall} {d : Holdings} {f : Fetch} (hz : z ∈ m.setting)
      (hlt : z.next < z.head + z.pages) (henter : m.toHoldings.enterPage c z = .ok d)
      (hleave : d.leavePage c z = .ok m'.toHoldings) : HoldingsDid m m' (.hugePage z.head f)
  | hugeReturn {z : HugeCall} (hz : z ∈ m.setting) (hend : z.next = z.head + z.pages)
      (heq : m'.toHoldings = m.toHoldings.hugeReturn z) : HoldingsDid m m' (.hugeReturn z.head)
  | hugeFree {z : HugeCall} {addr : ℕ} (hz : z ∈ m.huge)
      (hrun : m.toHoldings.crossOwnershipHugeFree c z.head = .ok m'.toHoldings) :
      HoldingsDid m m' (.remonFree addr)
  | allocatePage {k i : ℕ} (hk : k < m.arenaCount)
      (hrun : m.toHoldings.allocatePage c k = .ok (i, m'.toHoldings))
      (hfetched : m'.fetched = i :: m.fetched) : HoldingsDid m m' (.allocatePage k)
  | addPodToBuffer {i : ℕ} {f : Fetch} (hi : i ∈ m.fetched)
      (htag : m.toHoldings.setTag c i i (fun t => { t with headPod := .buffered }) =
        .ok m'.toHoldings) : HoldingsDid m m' (.addPodToBuffer i true f)

variable (c) in
/-- Requests that are too large for a page are made only if `b`. -/
def Sized (b : Prop) : Cmd → Prop
  | .remonMalloc _ size _ => c.pageSize < size + 48 → b
  | _ => True

theorem sized_true (cmd : Cmd) : Sized c True cmd := by
  cases cmd <;> simp [Sized]

namespace Inv

variable (hm : m.Inv c path b h)
include hm

/-- A page without a list has no block of the small allocator and no free in its buffer. -/
theorem listed_of_live {x : Grant} (hx : x ∈ m.live) : ∃ l, m.Of l x.pod := by
  obtain ⟨n, -, ha, -⟩ := hm.session.held x hx
  exact (hm.session.pager.of_live ((h x.pod).isLive_iff.mpr ⟨n, ha⟩)).2

theorem inUse_calls (hu : m.InUse i) (hl : m.splPushdown i ≠ none) :
    (m.pods i).state ≠ .init := by
  intro hs
  have hin := hm.session.pager.inited_of_init hs
  obtain ⟨hfresh, hbuf⟩ := (hm.session.pager.pages i).of_not_inited hin
  rcases hu with ⟨x, hx, rfl⟩ | hne | ⟨z, hz, hzi⟩
  · obtain ⟨n, -, ha, -⟩ := hm.session.held x hx
    have hlive := (hm.session.pager.of_live ((h x.pod).isLive_iff.mpr ⟨n, ha⟩)).1
    rw [hin] at hlive
    cases hlive
  · exact hne hbuf
  · obtain ⟨l, hl⟩ := Option.ne_none_iff_exists'.mp hl
    exact hm.holdings.not_small_of_huge (mem_append_left _ hz) hzi (hm.homes.listed i l hl)

/-- The pages of a huge block have no list. -/
theorem unlisted_of_huge {z : HugeCall} (hz : z ∈ m.huge ++ m.setting)
    (hi : Arena.Covers z.block i) : m.splPushdown i = none := by
  cases hl : m.splPushdown i with
  | none => rfl
  | some l => exact absurd (hm.homes.listed i l hl) (hm.holdings.not_small_of_huge hz hi)

theorem next_covered {z : HugeCall} {p : ℕ} {t : Arena.PageTag} (hz : m.callAt p = some z)
    (ht : m.tagOf c p = some t) : z ∈ m.setting ∧ z.head = p ∧ t.globalSize = z.pages := by
  obtain ⟨hmem, rfl⟩ := Holdings.mem_of_callAt hz
  exact ⟨hmem, rfl, hm.holdings.globalSize (Holdings.block_mem (mem_append_right _ hmem)) ht⟩

/-- The address of a small block leads to its page and is not the start of it. -/
theorem responsible {x : Grant} (hx : x ∈ m.live) : c.getResponsiblePod x.ptr = x.pod ∧
    (c.L x.pod).payloadStart ≠ x.ptr := by
  obtain ⟨l, hl⟩ := hm.listed_of_live hx
  have hsmall := hm.homes.listed x.pod l hl
  have hlt := hm.holdings.lt_podsSize (Holdings.page_mem hsmall) ⟨le_rfl, Nat.lt_succ_self _⟩
  obtain ⟨n, -, ha, -⟩ := hm.session.held x hx
  obtain ⟨h1, h2, h3, -⟩ := (h x.pod).sized.placed ha
  have hstart := c.start x.pod hlt
  have hsize := c.size x.pod
  unfold PageSpan.payloadEnd at h2
  rw [hstart, hsize] at h2
  rw [hstart] at h1
  dsimp only at h2 h3
  refine ⟨?_, by omega⟩
  refine Nat.div_eq_of_lt_le (by omega) ?_
  rw [Nat.succ_mul]
  omega

/-- The address of a huge block leads to its first page. -/
theorem responsible_head {z : HugeCall} (hz : z ∈ m.huge ++ m.setting) :
    c.getResponsiblePod (c.L z.head).payloadStart = z.head := by
  have hblock := Holdings.block_mem hz
  obtain ⟨k, hs⟩ := hm.holdings.arena hblock
  obtain ⟨-, -, hpos⟩ := hs.bounds (hm.holdings.given _ hblock).2
  have hlt := hm.holdings.lt_podsSize hblock ⟨le_rfl, Nat.lt_add_of_pos_right hpos⟩
  rw [c.start z.head hlt, Setup.getResponsiblePod, Nat.add_sub_cancel_left]
  exact Nat.mul_div_cancel _ Setup.pageSize_pos

theorem unlisted_of_trimmed {k : ℕ} (hlegal : m.Legal c (.trimFreePage k i)) :
    m.splPushdown i = none ∧ ∀ x ∈ m.blocks, ¬ Arena.Covers x i := by
  obtain ⟨hk, l, hrun, x, hx, hi, -⟩ := hlegal
  obtain ⟨hh, hs⟩ := hm.holdings.arenas k hk
  obtain ⟨l', hrun', hfree⟩ := Arena.trim_ok hs.shows
  obtain rfl : l' = l := Except.ok.inj (hrun'.symm.trans hrun)
  have hnot : ∀ y ∈ m.blocks, ¬ Arena.Covers y i := fun y hy =>
    hm.holdings.not_covers_of_free hk hs (hfree x hx i hi) hy
  refine ⟨?_, hnot⟩
  cases hl : m.splPushdown i with
  | none => rfl
  | some l =>
    have hsmall := hm.homes.listed i l hl
    exact absurd ⟨le_rfl, Nat.lt_succ_self i⟩ (hnot (i, 1) (Holdings.page_mem hsmall))

/-- The operation of a legal command is legal, and it swaps out in order. -/
theorem legal_op (hlegal : m.Legal c cmd) (hb : Sized c b cmd) (hop : m.opOf c cmd = some op) :
    m.toSession.Legal c.L op ∧ m.toSession.Calls op ∧ Session.Sized c.L b op := by
  cases cmd with
  | addNewRegionCore => cases hop
  | remonMalloc l size ch =>
    obtain rfl := Option.some.inj hop
    refine ⟨⟨asize_computeAsize size, hlegal.2⟩, trivial, fun i hi => hb ?_⟩
    rw [← Nat.not_le, ← c.size i]
    exact fun hle => absurd (computeAsize_le hle) (Nat.not_le.mpr hi)
  | getBufferedPod l i =>
    obtain rfl := Option.some.inj hop
    obtain ⟨-, hn, hp⟩ := hm.homes.buffered i hlegal.2
    exact ⟨⟨hlegal.1, hn, hp⟩, trivial, trivial⟩
  | hugeMalloc k size => cases hop
  | hugePage p f =>
    obtain ⟨z, hz, hhonest, t, ht, hlt⟩ := hlegal
    simp only [opOf, hz] at hop
    by_cases hs : (m.pods z.next).state ≠ .local_
    · rw [if_pos hs] at hop
      obtain rfl := Option.some.inj hop
      obtain ⟨hmem, rfl, hsize⟩ := hm.next_covered hz ht
      rw [hsize] at hlt
      have hcall : z ∈ m.huge ++ m.setting := mem_append_right _ hmem
      have hn := hm.unlisted_of_huge hcall ⟨(hm.holdings.calls z hcall).low, hlt⟩
      exact ⟨hhonest, fun hl => absurd hn hl, trivial⟩
    · rw [if_neg hs] at hop
      cases hop
  | hugeReturn p => cases hop
  | remonFree addr =>
    simp only [opOf] at hop
    by_cases hp : (c.L (c.getResponsiblePod addr)).payloadStart = addr
    · rw [if_pos hp] at hop
      cases hop
    · rw [if_neg hp] at hop
      obtain rfl := Option.some.inj hop
      refine ⟨?_, trivial, trivial⟩
      rcases hlegal with ⟨x, hx, rfl⟩ | ⟨z, hz, hstart⟩
      · rw [(hm.responsible hx).1]
        exact ⟨x.size, hx⟩
      · refine absurd ?_ hp
        rw [← hstart, hm.responsible_head (mem_append_left _ hz)]
  | activatePod i f =>
    obtain rfl := Option.some.inj hop
    exact ⟨hlegal.1, hm.inUse_calls hlegal.2, trivial⟩
  | prefetchPod i f =>
    obtain rfl := Option.some.inj hop
    exact ⟨hlegal.1, fun hl => absurd hlegal.2 hl, trivial⟩
  | allocatePage k => cases hop
  | addPodToBuffer i tryLock f =>
    simp only [opOf] at hop
    split at hop
    · obtain rfl := Option.some.inj hop
      exact ⟨(hm.homes.fetched i hlegal).2, trivial, trivial⟩
    · cases hop
  | pickPodToEvict i localCopy =>
    obtain ⟨t, ht, rfl⟩ := Option.map_eq_some_iff.mp hop
    exact ⟨hlegal t ht, trivial, trivial⟩
  | trim l ch tryLock =>
    obtain rfl := Option.some.inj hop
    exact ⟨trivial, trivial, trivial⟩
  | trimFreePage k i =>
    obtain rfl := Option.some.inj hop
    exact ⟨(hm.unlisted_of_trimmed hlegal).1, trivial, trivial⟩
  | store i addr v =>
    obtain rfl := Option.some.inj hop
    exact ⟨hlegal, trivial, trivial⟩

theorem head_of_start {addr : ℕ} (hlegal : m.Legal c (.remonFree addr))
    (hp : (c.L (c.getResponsiblePod addr)).payloadStart = addr) :
    ∃ z ∈ m.huge, z.head = c.getResponsiblePod addr := by
  rcases hlegal with ⟨x, hx, rfl⟩ | ⟨z, hz, rfl⟩
  · obtain ⟨hpod, hne⟩ := hm.responsible hx
    rw [hpod] at hp
    exact absurd hp hne
  · exact ⟨z, hz, (hm.responsible_head (mem_append_left _ hz)).symm⟩

/-- What a legal command that returns has done to the arenas. -/
theorem holdings_did (hlegal : m.Legal c cmd) (run : m.step c path cmd = .ok m') :
    HoldingsDid c m m' cmd := by
  cases cmd with
  | addNewRegionCore =>
    obtain ⟨d, hrun, hm'⟩ := of_bind_ok run
    obtain rfl := Except.ok.inj hm'
    exact .addNewRegionCore hlegal hrun
  | remonMalloc l size ch | getBufferedPod l i =>
    obtain ⟨t, -, hm'⟩ := of_bind_ok run
    obtain rfl := Except.ok.inj hm'
    exact .same rfl (by simp)
  | hugeMalloc k size =>
    obtain ⟨d, hrun, hm'⟩ := of_bind_ok run
    obtain rfl := Except.ok.inj hm'
    exact .hugeMalloc hlegal.2.1 hlegal.1 hrun
  | hugePage p f =>
    obtain ⟨z, hz, -, t, ht, hlt⟩ := hlegal
    obtain ⟨hmem, rfl, hsize⟩ := hm.next_covered hz ht
    rw [hsize] at hlt
    simp only [Manager.step, hz] at run
    obtain ⟨d, henter, run⟩ := of_bind_ok run
    obtain ⟨t, -, run⟩ := of_bind_ok run
    obtain ⟨d', hleave, hm'⟩ := of_bind_ok run
    obtain rfl := Except.ok.inj hm'
    exact .hugePage hmem hlt henter hleave
  | hugeReturn p =>
    obtain ⟨z, hz, t, ht, hlt⟩ := hlegal
    obtain ⟨hmem, rfl, hsize⟩ := hm.next_covered hz ht
    rw [hsize] at hlt
    simp only [Manager.step, hz, Except.ok.injEq] at run
    subst run
    have hhigh := (hm.holdings.calls z (mem_append_right _ hmem)).high
    exact .hugeReturn hmem (le_antisymm hhigh (Nat.not_lt.mp hlt)) rfl
  | remonFree addr =>
    simp only [Manager.step] at run
    by_cases hp : (c.L (c.getResponsiblePod addr)).payloadStart = addr
    · rw [if_pos hp] at run
      obtain ⟨z, hz, hhead⟩ := hm.head_of_start hlegal hp
      rw [← hhead] at run
      obtain ⟨d, hrun, hm'⟩ := of_bind_ok run
      obtain rfl := Except.ok.inj hm'
      exact .hugeFree hz hrun
    · rw [if_neg hp] at run
      exact .same (toHoldings_call run) (by simp)
  | allocatePage k =>
    obtain ⟨⟨i, d⟩, hrun, hm'⟩ := of_bind_ok run
    obtain rfl := Except.ok.inj hm'
    exact .allocatePage hlegal hrun rfl
  | addPodToBuffer i tryLock f =>
    simp only [Manager.step] at run
    by_cases hl : tryLock = true
    · rw [if_pos hl] at run
      obtain ⟨d, htag, run⟩ := of_bind_ok run
      obtain ⟨t, -, hm'⟩ := of_bind_ok run
      obtain rfl := Except.ok.inj hm'
      rw [hl]
      exact .addPodToBuffer hlegal htag
    · rw [if_neg hl] at run
      obtain rfl := Except.ok.inj run
      exact .same rfl (by simp [hl])
  | pickPodToEvict i localCopy =>
    simp only [Manager.step] at run
    cases ht : m.tagOf c i with
    | none => simp [ht] at run
    | some t =>
      simp only [ht] at run
      exact .same (toHoldings_call run) (by simp)
  | activatePod i f => exact .same (toHoldings_call run) (by simp)
  | prefetchPod i f => exact .same (toHoldings_call run) (by simp)
  | trim l ch tryLock => exact .same (toHoldings_call run) (by simp)
  | trimFreePage k i => exact .same (toHoldings_call run) (by simp)
  | store i addr v => exact .same (toHoldings_call run) (by simp)

/-- The blocks stay in order. Only `allocatePage` adds a page for the buffers, a new one. -/
theorem holdings_step (hlegal : m.Legal c cmd) (run : m.step c path cmd = .ok m') :
    m'.toHoldings.Inv c ∧ (m'.small = m.small ∨ ∃ k i, cmd = .allocatePage k ∧
      m'.small = i :: m.small ∧ i ∉ m.small ∧ m'.fetched = i :: m.fetched) := by
  have hd := hm.holdings
  cases hm.holdings_did hlegal run with
  | same heq =>
    rw [heq]
    exact ⟨hd, .inl rfl⟩
  | addNewRegionCore hroom hrun =>
    refine ⟨hd.addNewRegionCore hroom hrun, .inl ?_⟩
    obtain ⟨a, -, hd'⟩ := of_bind_ok hrun
    rw [← Except.ok.inj hd']
    rfl
  | hugeMalloc hk hlarge hrun =>
    obtain ⟨hinv, hsmall⟩ := hd.hugeMalloc hk hlarge hrun
    exact ⟨hinv, .inl hsmall⟩
  | hugePage hz hlt henter hleave =>
    obtain ⟨hinv, hsmall⟩ := hd.page hz hlt henter hleave
    exact ⟨hinv, .inl hsmall⟩
  | hugeReturn hz hend heq =>
    rw [heq]
    exact ⟨hd.hugeReturn hz hend, .inl rfl⟩
  | hugeFree hz hrun =>
    obtain ⟨hinv, -, -, hsmall⟩ := hd.crossOwnershipHugeFree hz hrun
    exact ⟨hinv, .inl hsmall⟩
  | @allocatePage k i hk hrun hfetched =>
    obtain ⟨hinv, hsmall, hnew⟩ := hd.allocatePage hk hrun
    exact ⟨hinv, .inr ⟨k, i, rfl, hsmall, hnew, hfetched⟩⟩
  | @addPodToBuffer i f hi htag =>
    obtain ⟨hinv, -, -, hsmall⟩ :=
      hd.setHead (x := (i, 1)) (Holdings.page_mem (hm.homes.fetched i hi).1) htag
    exact ⟨hinv, .inl hsmall⟩

/-- What a command does to the session, in terms of the pods. -/
theorem session_step (hinj : Injective path) (hlegal : m.Legal c cmd)
    (hb : Sized c b cmd) (run : m.step c path cmd = .ok m') :
    ∃ h', m'.toSession.Inv c.L path b h' ∧ m'.toSession.Made ∧ match m.opOf c cmd with
      | none => m'.toSession = m.toSession ∧ h' = h
      | some op => m.toSession.After c.L path b h op m'.toSession h' := by
  have hmoves := (step_cases run).1
  cases hop : m.opOf c cmd with
  | none =>
    rw [hop] at hmoves
    have heq : m'.toSession = m.toSession := hmoves
    refine ⟨h, ?_, ?_, heq, rfl⟩
    · rw [heq]
      exact hm.session
    · rw [heq]
      exact hm.made
  | some op =>
    rw [hop] at hmoves
    obtain ⟨hleg, hcalls, hsized⟩ := hm.legal_op hlegal hb hop
    have hstep := hm.session.step hinj hleg hsized (hcalls.orderly hm.made)
    obtain ⟨h', ha⟩ := hstep.result hmoves
    exact ⟨h', ha.inv, Session.made_step hm.made ha hcalls, ha⟩

end Inv

/-- The pages in the hands of the buffers after a command. -/
theorem waiting_step (run : m.step c path cmd = .ok m') :
    (∃ l i, cmd = .getBufferedPod l i ∧ m'.fetched = m.fetched ∧
      m'.buffered = m.buffered.erase i) ∨
    (∃ k i, cmd = .allocatePage k ∧ m'.fetched = i :: m.fetched ∧ m'.buffered = m.buffered) ∨
    (∃ i tryLock f, cmd = .addPodToBuffer i tryLock f ∧ m'.fetched = m.fetched.erase i ∧
      m'.buffered = if tryLock then i :: m.buffered else m.buffered) ∨
    (∀ l i, cmd ≠ .getBufferedPod l i) ∧ (∀ k, cmd ≠ .allocatePage k) ∧
      m'.fetched = m.fetched ∧ m'.buffered = m.buffered := by
  have hnotes := (step_cases run).2
  cases cmd with
  | getBufferedPod l i => exact .inl ⟨l, i, rfl, hnotes.2.2⟩
  | allocatePage k =>
    obtain ⟨-, -, i, hi⟩ := hnotes
    exact .inr (.inl ⟨k, i, rfl, hi⟩)
  | addPodToBuffer i tryLock f => exact .inr (.inr (.inl ⟨i, tryLock, f, rfl, hnotes.2.2⟩))
  | _ => exact .inr (.inr (.inr ⟨by simp, by simp, hnotes.2.2⟩))

/-- Requests to a list come from `remonMalloc`, and pages for one from `getBufferedPod`. -/
theorem opOf_request (hop : m.opOf c cmd = some op) :
    (∀ l size ch, op = .allocate l size ch → ∃ n, cmd = .remonMalloc l n ch) ∧
    ∀ l i, op = .addPodAndAllocate l i → cmd = .getBufferedPod l i := by
  cases cmd with
  | remonMalloc k n ch =>
    obtain rfl := Option.some.inj hop
    refine ⟨?_, by simp⟩
    rintro l size ch' hc
    obtain ⟨rfl, -, rfl⟩ := Op.allocate.inj hc
    exact ⟨n, rfl⟩
  | getBufferedPod k j =>
    obtain rfl := Option.some.inj hop
    refine ⟨by simp, ?_⟩
    rintro l i hc
    obtain ⟨rfl, rfl⟩ := Op.addPodAndAllocate.inj hc
    rfl
  | hugePage p f =>
    simp only [opOf] at hop
    split at hop
    · cases hop
    · split at hop
      · obtain rfl := Option.some.inj hop
        simp
      · cases hop
  | remonFree addr =>
    simp only [opOf] at hop
    split at hop
    · cases hop
    · obtain rfl := Option.some.inj hop
      simp
  | addPodToBuffer j tryLock f =>
    simp only [opOf] at hop
    split at hop
    · obtain rfl := Option.some.inj hop
      simp
    · cases hop
  | pickPodToEvict j localCopy =>
    obtain ⟨t, -, rfl⟩ := Option.map_eq_some_iff.mp hop
    simp
  | addNewRegionCore => cases hop
  | hugeMalloc k size => cases hop
  | hugeReturn p => cases hop
  | allocatePage k => cases hop
  | _ =>
    obtain rfl := Option.some.inj hop
    simp

namespace Inv

variable (hm : m.Inv c path b h)
include hm

/-- A page gets its list when a list takes it from a buffer. -/
theorem home_step (hinj : Injective path) (hlegal : m.Legal c cmd) (hb : Sized c b cmd)
    (run : m.step c path cmd = .ok m') (hne : ∀ l, cmd ≠ .getBufferedPod l i) :
    m'.splPushdown i = m.splPushdown i ∧
      (m.splPushdown i = none → (m.pods i).state = .localPinned →
        (m'.pods i).state = .localPinned) := by
  obtain ⟨h', -, -, hcase⟩ := hm.session_step hinj hlegal hb run
  cases hop : m.opOf c cmd with
  | none =>
    simp only [hop] at hcase
    rw [hcase.1]
    exact ⟨rfl, fun _ hp => hp⟩
  | some op =>
    simp only [hop] at hcase
    have hne' : ∀ l, op ≠ .addPodAndAllocate l i := by
      rintro l rfl
      exact hne l ((opOf_request hop).2 l i rfl)
    exact ⟨Session.home_step hcase hne', fun hn hp => Session.pinned_step hcase hn hp hne'⟩

theorem stays_step (hinj : Injective path) (hlegal : m.Legal c cmd) (hb : Sized c b cmd)
    (run : m.step c path cmd = .ok m') : m.Stays m' cmd := by
  have hh := hm.homes
  obtain ⟨-, hsmall⟩ := hm.holdings_step hlegal run
  have hmono : ∀ i, i ∈ m.small → i ∈ m'.small := by
    intro i hi
    rcases hsmall with heq | ⟨k, j, -, heq, -⟩
    · rwa [heq]
    · rw [heq]
      exact mem_cons_of_mem _ hi
  have hhome := fun i (hne : ∀ l, cmd ≠ .getBufferedPod l i) =>
    hm.home_step hinj hlegal hb run hne
  refine ⟨?_, ?_, ?_⟩
  · intro i l hl
    by_cases hne : ∀ k, cmd ≠ .getBufferedPod k i
    · rw [Pager.Of, (hhome i hne).1] at hl
      exact hmono i (hh.listed i l hl)
    · push Not at hne
      obtain ⟨k, rfl⟩ := hne
      exact hmono i (hh.buffered i hlegal.2).1
  · intro i hi hne
    obtain ⟨h1, h2⟩ := hh.fetched i hi
    exact ⟨hmono i h1, (hhome i hne).1.trans h2⟩
  · intro i hi hne
    obtain ⟨h1, h2, h3⟩ := hh.buffered i hi
    exact ⟨hmono i h1, (hhome i hne).1.trans h2, (hhome i hne).2 h2 h3⟩

theorem homes_getBufferedPod {l j : ℕ} (hs : m.Stays m' (.getBufferedPod l j))
    (hj : j ∈ m.buffered) (hf : m'.fetched = m.fetched) (hbuf : m'.buffered = m.buffered.erase j) :
    m'.Homes := by
  have hnd := nodup_append'.mp hm.homes.nodup
  refine ⟨hs.listed, ?_, ?_, ?_⟩
  · intro i hi
    rw [hf] at hi
    refine hs.fetched i hi ?_
    rintro l' hc
    obtain ⟨-, rfl⟩ := Cmd.getBufferedPod.inj hc
    exact hnd.2.2 hi hj
  · intro i hi
    rw [hbuf, hnd.2.1.mem_erase_iff] at hi
    refine hs.buffered i hi.2 ?_
    rintro l' hc
    exact hi.1 (Cmd.getBufferedPod.inj hc).2.symm
  · rw [hf, hbuf]
    exact hm.homes.nodup.sublist (erase_sublist.append_left _)

theorem homes_allocatePage {k j : ℕ} (hs : m.Stays m' (.allocatePage k)) (hnew : j ∉ m.small)
    (hsmall : j ∈ m'.small) (hloose : m'.splPushdown j = none) (hf : m'.fetched = j :: m.fetched)
    (hbuf : m'.buffered = m.buffered) : m'.Homes := by
  refine ⟨hs.listed, ?_, ?_, ?_⟩
  · intro i hi
    rw [hf] at hi
    rcases mem_cons.mp hi with rfl | hi
    · exact ⟨hsmall, hloose⟩
    · exact hs.fetched i hi (by simp)
  · intro i hi
    rw [hbuf] at hi
    exact hs.buffered i hi (by simp)
  · rw [hf, hbuf, cons_append, nodup_cons]
    refine ⟨?_, hm.homes.nodup⟩
    intro hc
    rcases mem_append.mp hc with hc | hc
    · exact hnew (hm.homes.fetched j hc).1
    · exact hnew (hm.homes.buffered j hc).1

theorem homes_addPodToBuffer {j : ℕ} {tryLock : Bool} {f : Fetch}
    (hs : m.Stays m' (.addPodToBuffer j tryLock f)) (hj : j ∈ m.fetched)
    (hpinned : tryLock = true → (m'.pods j).state = .localPinned)
    (hf : m'.fetched = m.fetched.erase j)
    (hbuf : m'.buffered = if tryLock then j :: m.buffered else m.buffered) : m'.Homes := by
  refine ⟨hs.listed, ?_, ?_, ?_⟩
  · intro i hi
    rw [hf] at hi
    exact hs.fetched i (mem_of_mem_erase hi) (by simp)
  · intro i hi
    rw [hbuf] at hi
    by_cases hl : tryLock = true
    · rw [if_pos hl] at hi
      rcases mem_cons.mp hi with rfl | hi
      · obtain ⟨h1, h2⟩ := hs.fetched i hj (by simp)
        exact ⟨h1, h2, hpinned hl⟩
      · exact hs.buffered i hi (by simp)
    · rw [if_neg hl] at hi
      exact hs.buffered i hi (by simp)
  · rw [hf, hbuf]
    by_cases hl : tryLock = true
    · rw [if_pos hl]
      have hperm : (m.fetched.erase j ++ j :: m.buffered).Perm (m.fetched ++ m.buffered) :=
        perm_middle.trans ((perm_cons_erase hj).symm.append_right _)
      exact hperm.nodup_iff.mpr hm.homes.nodup
    · rw [if_neg hl]
      exact hm.homes.nodup.sublist (erase_sublist.append_right _)

theorem homes_step (hinj : Injective path) (hlegal : m.Legal c cmd) (hb : Sized c b cmd)
    (run : m.step c path cmd = .ok m') : m'.Homes := by
  have hs := hm.stays_step hinj hlegal hb run
  rcases waiting_step run with ⟨l, j, rfl, hf, hbuf⟩ | ⟨k, j, rfl, hf, hbuf⟩ |
    ⟨j, tryLock, f, rfl, hf, hbuf⟩ | ⟨hne, -, hf, hbuf⟩
  · exact hm.homes_getBufferedPod hs hlegal.2 hf hbuf
  · obtain ⟨⟨i, d⟩, hrun, hm'⟩ := of_bind_ok run
    obtain ⟨-, hcons, hnew⟩ := hm.holdings.allocatePage hlegal hrun
    have hm' := Except.ok.inj hm'
    obtain rfl : i = j := by
      rw [← hm'] at hf
      exact (List.cons.inj hf).1
    refine hm.homes_allocatePage hs hnew ?_ ?_ hf hbuf
    · rw [← hm']
      exact hcons ▸ mem_cons_self ..
    · -- the new page was in no list
      rw [← hm']
      cases hl : m.splPushdown i with
      | none => rfl
      | some l => exact absurd (hm.homes.listed i l hl) hnew
  · refine hm.homes_addPodToBuffer hs hlegal ?_ hf hbuf
    rintro rfl
    obtain ⟨h', -, -, hcase⟩ := hm.session_step hinj hlegal hb run
    exact hcase.did.2.1
  · refine ⟨hs.listed, ?_, ?_, ?_⟩
    · intro i hi
      rw [hf] at hi
      exact hs.fetched i hi (fun l => hne l i)
    · intro i hi
      rw [hbuf] at hi
      exact hs.buffered i hi (fun l => hne l i)
    · rw [hf, hbuf]
      exact hm.homes.nodup

/-- Every legal command keeps the invariant. -/
theorem step (hinj : Injective path) (hlegal : m.Legal c cmd) (hb : Sized c b cmd)
    (run : m.step c path cmd = .ok m') : ∃ h', m'.Inv c path b h' ∧ match m.opOf c cmd with
      | none => m'.toSession = m.toSession ∧ h' = h
      | some op => m.toSession.After c.L path b h op m'.toSession h' := by
  obtain ⟨h', hs, hmade, hcase⟩ := hm.session_step hinj hlegal hb run
  exact ⟨h', ⟨hs, hmade, (hm.holdings_step hlegal run).1, hm.homes_step hinj hlegal hb run⟩, hcase⟩

end Inv

/-- The invariant holds in every run. -/
theorem Run.inv {ok : Manager → Cmd → Prop} (hinj : Injective path)
    (hok : ∀ m cmd, ok m cmd → Sized c b cmd) (hm : Run c path ok m) : ∃ h, m.Inv c path b h := by
  induction hm with
  | start => exact ⟨fun i => .fresh (c.L i), inv_new (fun _ => rfl)⟩
  | step _ hlegal hstep run ih =>
    obtain ⟨h, hi⟩ := ih
    obtain ⟨h', hi', -⟩ := hi.step hinj hlegal (hok _ _ hstep) run
    exact ⟨h', hi'⟩

theorem Run.mono {ok ok' : Manager → Cmd → Prop} (hok : ∀ m cmd, ok m cmd → ok' m cmd)
    (hm : Run c path ok m) : Run c path ok' m := by
  induction hm with
  | start => exact .start
  | step _ hlegal hstep run ih => exact .step ih hlegal (hok _ _ hstep) run

/-! ## Runs on given pages -/

variable (c path) in
/-- What a command that returns leaves. -/
def after (m : Manager) (cmd : Cmd) : Manager :=
  match m.step c path cmd with
  | .ok m' => m'
  | .error _ => m

theorem step_after (hrun : (m.step c path cmd).isOk = true) :
    m.step c path cmd = .ok (m.after c path cmd) := by
  rw [after]
  cases hr : m.step c path cmd with
  | ok m' => rfl
  | error e => simp [hr, Except.isOk, Except.toBool] at hrun

theorem Run.after {ok : Manager → Cmd → Prop} (hm : Run c path ok m) (cmd : Cmd)
    (hlegal : m.Legal c cmd) (hok : ok m cmd) (hrun : (m.step c path cmd).isOk = true) :
    Run c path ok (m.after c path cmd) :=
  .step hm hlegal hok (step_after hrun)

def gridPage (i : ℕ) : Layout where
  payloadStart := 4096 * (i % 2 ^ 30 + 1)
  payloadSize := 4096
  freeHeadAddr := 2 ^ 43
  size_pos := Heap.Session.sampleLayout.size_pos
  size_page := Heap.Session.sampleLayout.size_page
  size_le := Heap.Session.sampleLayout.size_le
  start_pos := by omega
  start_page := by omega
  end_lt := by omega
  freeHead_pos := by decide
  freeHead_lt := by decide
  freeHead_outside := by omega

/-- A manager of `podsSize` such pages. -/
def grid (podsSize localPodCount : ℕ) (hpos : 0 < localPodCount) (hsize : podsSize ≤ 2 ^ 30)
    (harena : localPodCount ≤ podsSize) : Setup where
  podsSize := podsSize
  localPodCount := localPodCount
  pos := hpos
  indexed := hsize.trans (by decide)
  arena := harena
  base := 4096
  pageSize := 4096
  L := gridPage
  size := fun _ => rfl
  start := by
    intro i hi
    change 4096 * (i % 2 ^ 30 + 1) = _
    rw [Nat.mod_eq_of_lt (by omega)]
    omega
  mapped := by omega

theorem two_le_grid : 2 ≤ 2 ^ 30 := by decide

theorem four_pos_grid : 0 < 4 := by decide

theorem four_le_grid : 4 ≤ 2 ^ 30 := by decide

theorem two_le_four_grid : 2 ≤ 4 := by decide

theorem four_le_four_grid : 4 ≤ 4 := le_rfl

end Manager

end Remon
