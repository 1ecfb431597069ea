import Remon.Arena.HeadPods
import Remon.Vmm.FaultWait
import Remon.Vmm.ManagerInvariant

/-! # The pages that are prefetched

A fault in a huge block brings in the pages that follow it. The walk compares the marks of the
pages with the mark of the page that faulted and has no other knowledge of the block. It reads
the mark of the page behind the block as well, and the pod of that page does not exist if the
block ends with its arena and the next arena was not made.
-/

namespace Remon
open Function Lib Heap Fault List

/-! ## The marks in a run -/

namespace Holdings

variable {c : Setup} {d d' : Holdings} {i j k : ℕ} {a : Arena.Session}

variable (c) in
/-- The mark of a page. -/
def headOf (d : Holdings) (i : ℕ) : Arena.HeadPod := (d.arenaOf c i).arena.headOf i

theorem headOf_of_tag {t : Arena.PageTag} (ht : d.tagOf c i = some t) :
    d.headOf c i = t.headPod :=
  Arena.State.headOf_of_pods ht

variable (c) in
/-- The pages that a call has prepared carry its mark, and a page with the mark of a call belongs
to its block. -/
structure Heads (d : Holdings) : Prop where
  own : ∀ x ∈ d.huge ++ d.setting, ∀ j, x.head ≤ j → j < x.next → d.headOf c j = .pod x.head
  only : ∀ j p, d.headOf c j = .pod p →
    ∃ x ∈ d.huge ++ d.setting, x.head = p ∧ Arena.Covers x.block j

theorem heads_new : Heads c new := by
  refine ⟨fun x hx => absurd hx not_mem_nil, ?_⟩
  intro j p hj
  exfalso
  change ((if j = 0 then some Arena.PageTag.new else none).map Arena.PageTag.headPod).getD .null =
    .pod p at hj
  split at hj <;> cases hj

theorem headOf_update_self (harenas : d'.arenas = update d.arenas k a)
    (hj : j / c.localPodCount = k) : d'.headOf c j = a.arena.headOf j := by
  rw [headOf, arenaOf, harenas, hj, update_self]

theorem headOf_update_of_ne (harenas : d'.arenas = update d.arenas k a)
    (hj : j / c.localPodCount ≠ k) : d'.headOf c j = d.headOf c j := by
  rw [headOf, arenaOf, harenas, update_of_ne hj]
  rfl

theorem headOf_update (harenas : d'.arenas = update d.arenas k a)
    (ha : a.arena.headOf = (d.arenas k).arena.headOf) : d'.headOf c = d.headOf c := by
  funext j
  by_cases hj : j / c.localPodCount = k
  · rw [headOf_update_self harenas hj, ha, headOf, arenaOf, hj]
  · exact headOf_update_of_ne harenas hj

theorem headOf_update_mark {v : Arena.HeadPod}
    (harenas : d'.arenas = update d.arenas k a) (hi : i / c.localPodCount = k)
    (ha : a.arena.headOf = update (d.arenas k).arena.headOf i v) :
    d'.headOf c = update (d.headOf c) i v := by
  funext j
  by_cases hj : j / c.localPodCount = k
  · rw [headOf_update_self harenas hj, ha]
    by_cases hji : j = i
    · rw [hji, update_self, update_self]
    · rw [update_of_ne hji, update_of_ne hji, headOf, arenaOf, hj]
  · have hji : j ≠ i := fun hc => hj (hc ▸ hi)
    rw [headOf_update_of_ne harenas hj, update_of_ne hji]

theorem headOf_addNewRegionCore (run : d.addNewRegionCore c = .ok d') :
    d'.headOf c = d.headOf c ∧ d'.huge ++ d'.setting = d.huge ++ d.setting := by
  obtain ⟨a, hrun, hd'⟩ := of_bind_ok run
  have hd' := Except.ok.inj hd'
  refine ⟨headOf_update (k := d.arenaCount) (a := ⟨a, []⟩) ?_ ?_, ?_⟩
  · rw [← hd']
    rfl
  · exact Arena.State.keepsHeads_initGlobalFreePodList.result hrun
  · rw [← hd']
    rfl

theorem headOf_hugeMalloc {size : ℕ} (run : d.hugeMalloc c k size = .ok d') :
    d'.headOf c = d.headOf c := by
  obtain ⟨⟨ptr, b⟩, hrun, hd'⟩ := of_bind_ok run
  have hheads := Arena.State.allocateNPages_heads hrun
  cases ptr with
  | none =>
    have hd' := Except.ok.inj hd'
    refine headOf_update (k := k) (a := ⟨b, (d.arenas k).live⟩) ?_ hheads
    rw [← hd']
    rfl
  | some p =>
    have hd' := Except.ok.inj hd'
    refine headOf_update (k := k)
      (a := ⟨b, (p, c.numPageNeeded size) :: (d.arenas k).live⟩) ?_ hheads
    rw [← hd']
    rfl

theorem headOf_allocatePage (run : d.allocatePage c k = .ok (i, d')) :
    d'.headOf c = d.headOf c ∧ d'.huge ++ d'.setting = d.huge ++ d.setting := by
  obtain ⟨⟨ptr, b⟩, hrun, hd'⟩ := of_bind_ok run
  have hheads := Arena.State.allocateNPages_heads hrun
  cases ptr with
  | none => cases hd'
  | some p =>
    obtain ⟨rfl, heq⟩ := Prod.mk.inj (Except.ok.inj hd')
    refine ⟨headOf_update (k := k) (a := ⟨b, (p, 1) :: (d.arenas k).live⟩) ?_ hheads, ?_⟩
    · rw [← heq]
      rfl
    · rw [← heq]
      rfl

/-- A round of the loop of `hugeMalloc` marks the page that it comes to. -/
theorem headOf_page {z : HugeCall} {d₁ : Holdings} (hd : d.Inv c) (hz : z ∈ d.setting)
    (hlt : z.next < z.head + z.pages) (henter : d.enterPage c z = .ok d₁)
    (hleave : d₁.leavePage c z = .ok d') :
    d'.headOf c = update (d.headOf c) z.next (.pod z.head) ∧ d'.huge = d.huge ∧
      d'.setting = { z with next := z.next + 1 } :: d.setting.erase z := by
  have hcall : z ∈ d.huge ++ d.setting := mem_append_right _ hz
  have hin : Arena.Covers z.block z.next := ⟨(hd.calls z hcall).low, hlt⟩
  obtain ⟨a', b, hhead, hused, hd'⟩ := Inv.page_cases henter hleave
  have harenas : d'.arenas = update d.arenas (z.head / c.localPodCount)
      ⟨b, (d.arenaOf c z.head).live⟩ := by
    rw [hd']
    rfl
  have hkeep : b.headOf = a'.headOf :=
    (Arena.State.keepsHeads_modify (f := fun t => { t with isFree := false })
      (fun _ => rfl)).result hused
  have hmark : b.headOf = update (d.arenas (z.head / c.localPodCount)).arena.headOf z.next
      (.pod z.head) := by
    rw [hkeep, Arena.State.setHeadPod_heads hhead, Arena.State.headOf_mapForPodI]
    rfl
  refine ⟨headOf_update_mark harenas (hd.same_arena (block_mem hcall) hin) hmark, ?_, ?_⟩
  · rw [hd']
    rfl
  · rw [hd']

theorem headOf_setHeadPod {v : Arena.HeadPod}
    (run : d.setTag c i i (fun t => { t with headPod := v }) = .ok d') :
    d'.headOf c = update (d.headOf c) i v ∧
      d'.huge ++ d'.setting = d.huge ++ d.setting := by
  obtain ⟨b, hmod, hd'⟩ := of_bind_ok run
  obtain rfl := Except.ok.inj hd'
  exact ⟨headOf_update_mark rfl rfl (Arena.State.setHeadPod_heads hmod), rfl⟩

theorem headOf_hugeFree {z : HugeCall} (hd : d.Inv c) (hz : z ∈ d.huge)
    (run : d.crossOwnershipHugeFree c z.head = .ok d') (j : ℕ) :
    d'.headOf c j = if Arena.Covers z.block j then .deadBeef else d.headOf c j := by
  have hblock := block_mem (mem_append_left d.setting hz)
  obtain ⟨t, b, ht, hsize, hfree, hd'⟩ := hd.hugeFree_cases hz run
  have harenas : d'.arenas = update d.arenas (z.head / c.localPodCount)
      ⟨b, (d.arenaOf c z.head).live.erase z.block⟩ := by
    rw [hd']
    rfl
  by_cases hj : j / c.localPodCount = z.head / c.localPodCount
  · have hold : d.headOf c j = (d.arenaOf c z.head).arena.headOf j := by
      rw [headOf, arenaOf, arenaOf, hj]
    rw [headOf_update_self harenas hj, Arena.State.hugeFree_heads ht hfree, hsize, hold]
    rfl
  · rw [headOf_update_of_ne harenas hj, if_neg fun hc => hj (hd.same_arena hblock hc)]

namespace Heads

variable (hh : d.Heads c)
include hh

/-- Calls may be added that have prepared nothing. -/
theorem same (hheads : d'.headOf c = d.headOf c)
    (hmem : ∀ x ∈ d'.huge ++ d'.setting, x ∈ d.huge ++ d.setting ∨ x.next ≤ x.head)
    (hold : ∀ x ∈ d.huge ++ d.setting, x ∈ d'.huge ++ d'.setting) : d'.Heads c := by
  constructor
  · intro x hx j h1 h2
    rw [hheads]
    rcases hmem x hx with hx | hle
    · exact hh.own x hx j h1 h2
    · omega
  · intro j p hj
    rw [hheads] at hj
    obtain ⟨x, hx, hp⟩ := hh.only j p hj
    exact ⟨x, hold x hx, hp⟩

theorem of_eq (hheads : d'.headOf c = d.headOf c ∧ d'.huge ++ d'.setting = d.huge ++ d.setting) :
    d'.Heads c :=
  hh.same hheads.1 (fun _ hx => .inl (hheads.2 ▸ hx)) (fun _ hx => hheads.2 ▸ hx)

theorem hugeMalloc {size : ℕ} (run : d.hugeMalloc c k size = .ok d') : d'.Heads c := by
  have hheads := headOf_hugeMalloc run
  obtain ⟨⟨ptr, b⟩, -, hd'⟩ := of_bind_ok run
  cases ptr with
  | none =>
    have hd' := Except.ok.inj hd'
    exact hh.of_eq ⟨hheads, by rw [← hd']; rfl⟩
  | some p =>
    have hd' := Except.ok.inj hd'
    refine hh.same hheads ?_ ?_
    · intro x hx
      rw [← hd'] at hx
      rcases mem_append.mp hx with hx | hx
      · exact .inl (mem_append_left _ hx)
      · rcases mem_cons.mp hx with rfl | hx
        · exact .inr le_rfl
        · exact .inl (mem_append_right _ hx)
    · intro x hx
      rw [← hd']
      rcases mem_append.mp hx with hx | hx
      · exact mem_append_left _ hx
      · exact mem_append_right _ (mem_cons_of_mem _ hx)

theorem hugeReturn {z : HugeCall} (hz : z ∈ d.setting) : (d.hugeReturn z).Heads c := by
  have hperm : ((d.hugeReturn z).huge ++ (d.hugeReturn z).setting).Perm (d.huge ++ d.setting) :=
    perm_middle.symm.trans ((perm_cons_erase hz).symm.append_left _)
  exact hh.same rfl (fun x hx => .inl (hperm.mem_iff.mp hx)) (fun x hx => hperm.mem_iff.mpr hx)

theorem page {z : HugeCall} {d₁ : Holdings} (hd : d.Inv c) (hz : z ∈ d.setting)
    (hlt : z.next < z.head + z.pages) (henter : d.enterPage c z = .ok d₁)
    (hleave : d₁.leavePage c z = .ok d') : d'.Heads c := by
  have hcall : z ∈ d.huge ++ d.setting := mem_append_right _ hz
  have hin : Arena.Covers z.block z.next := ⟨(hd.calls z hcall).low, hlt⟩
  obtain ⟨hheads, hhuge, hsetting⟩ := headOf_page hd hz hlt henter hleave
  have hsplit : (d.huge ++ d.setting).Perm (z :: (d.huge ++ d.setting.erase z)) :=
    ((perm_cons_erase hz).append_left _).trans perm_middle
  have hcalls : (d'.huge ++ d'.setting).Perm
      ({ z with next := z.next + 1 } :: (d.huge ++ d.setting.erase z)) := by
    rw [hhuge, hsetting]
    exact perm_middle
  constructor
  · intro y hy j h1 h2
    rw [hheads]
    rcases mem_cons.mp (hcalls.mem_iff.mp hy) with rfl | hy
    · by_cases hj : j = z.next
      · rw [hj, update_self]
      · rw [update_of_ne hj]
        exact hh.own z hcall j h1 (lt_of_le_of_ne (Nat.lt_succ_iff.mp h2) hj)
    · have hy' := hsplit.mem_iff.mpr (mem_cons_of_mem z hy)
      by_cases hj : j = z.next
      · -- a page of two blocks: they are the same one
        have hyj : Arena.Covers y.block j := ⟨h1, h2.trans_le (hd.calls y hy').high⟩
        have hblock := hd.apart (block_mem hy') (block_mem hcall) hyj (hj ▸ hin)
        rw [hj, update_self]
        exact congrArg Arena.HeadPod.pod (congrArg Prod.fst hblock).symm
      · rw [update_of_ne hj]
        exact hh.own y hy' j h1 h2
  · intro j p hj
    rw [hheads] at hj
    by_cases hjz : j = z.next
    · rw [hjz, update_self] at hj
      refine ⟨{ z with next := z.next + 1 }, hcalls.mem_iff.mpr (mem_cons_self ..),
        Arena.HeadPod.pod.inj hj, ?_⟩
      rw [hjz]
      exact hin
    · rw [update_of_ne hjz] at hj
      obtain ⟨y, hy, hp, hyj⟩ := hh.only j p hj
      rcases mem_cons.mp (hsplit.mem_iff.mp hy) with rfl | hy
      · exact ⟨_, hcalls.mem_iff.mpr (mem_cons_self ..), hp, hyj⟩
      · exact ⟨y, hcalls.mem_iff.mpr (mem_cons_of_mem _ hy), hp, hyj⟩

theorem setBuffered (hd : d.Inv c) (hi : i ∈ d.small)
    (run : d.setTag c i i (fun t => { t with headPod := .buffered }) = .ok d') : d'.Heads c := by
  obtain ⟨hheads, hcalls⟩ := headOf_setHeadPod run
  constructor
  · intro x hx j h1 h2
    rw [hcalls] at hx
    have hcov : Arena.Covers x.block j := ⟨h1, h2.trans_le (hd.calls x hx).high⟩
    have hne : j ≠ i := fun hc => hd.not_small_of_huge hx hcov (hc ▸ hi)
    rw [hheads, update_of_ne hne]
    exact hh.own x hx j h1 h2
  · intro j p hj
    rw [hcalls]
    rw [hheads] at hj
    by_cases hji : j = i
    · rw [hji, update_self] at hj
      cases hj
    · rw [update_of_ne hji] at hj
      exact hh.only j p hj

theorem crossOwnershipHugeFree {z : HugeCall} (hd : d.Inv c) (hz : z ∈ d.huge)
    (run : d.crossOwnershipHugeFree c z.head = .ok d') : d'.Heads c := by
  have hblock := block_mem (mem_append_left d.setting hz)
  obtain ⟨-, hhuge, hsetting, hsmall⟩ := hd.crossOwnershipHugeFree hz run
  have hheads := headOf_hugeFree hd hz run
  have hgone := hd.not_mem_of_freed hz hhuge hsetting hsmall
  have hsub : ∀ x ∈ d'.huge ++ d'.setting, x ∈ d.huge ++ d.setting := by
    rw [hhuge, hsetting]
    exact (filter_sublist.append_right _).subset
  constructor
  · intro x hx j h1 h2
    have hold := hsub x hx
    have hcov : Arena.Covers x.block j := ⟨h1, h2.trans_le (hd.calls x hold).high⟩
    rw [hheads, if_neg]
    · exact hh.own x hold j h1 h2
    · intro hc
      exact hgone (hd.apart hblock (block_mem hold) hc hcov ▸ block_mem hx)
  · intro j p hj
    rw [hheads] at hj
    split at hj
    case isTrue => cases hj
    case isFalse hno =>
      obtain ⟨x, hx, hp, hcov⟩ := hh.only j p hj
      refine ⟨x, ?_, hp, hcov⟩
      have hne : x.head ≠ z.head := by
        intro hc
        have hxz : Arena.Covers x.block z.head := hc ▸ hd.covers_self (block_mem hx)
        have heq := hd.apart (block_mem hx) hblock hxz (hd.covers_self hblock)
        exact hno (heq ▸ hcov)
      rw [hhuge, hsetting]
      rcases mem_append.mp hx with hx | hx
      · exact mem_append_left _ (mem_filter.mpr ⟨hx, decide_eq_true hne⟩)
      · exact mem_append_right _ hx

end Heads

end Holdings

namespace Manager

variable {c : Setup} {path : ℕ → String} {b : Prop} {m m' : Manager} {cmd : Cmd} {i j : ℕ}
  {h : ∀ i, AbsHeap (c.L i)}

theorem heads_step (hm : m.Inv c path b h) (hh : m.toHoldings.Heads c) (hlegal : m.Legal c cmd)
    (run : m.step c path cmd = .ok m') : m'.toHoldings.Heads c := by
  cases hm.holdings_did hlegal run with
  | same heq => exact heq ▸ hh
  | addNewRegionCore _ hrun => exact hh.of_eq (Holdings.headOf_addNewRegionCore hrun)
  | hugeMalloc _ _ hrun => exact hh.hugeMalloc hrun
  | hugePage hz hlt henter hleave => exact hh.page hm.holdings hz hlt henter hleave
  | hugeReturn hz _ heq => exact heq ▸ hh.hugeReturn hz
  | hugeFree hz hrun => exact hh.crossOwnershipHugeFree hm.holdings hz hrun
  | allocatePage _ hrun => exact hh.of_eq (Holdings.headOf_allocatePage hrun)
  | addPodToBuffer hi htag => exact hh.setBuffered hm.holdings (hm.homes.fetched _ hi).1 htag

theorem Run.heads {ok : Manager → Cmd → Prop} (hinj : Injective path)
    (hm : Run c path ok m) : m.toHoldings.Heads c := by
  induction hm with
  | start => exact Holdings.heads_new
  | step hrun hlegal _ run ih =>
    obtain ⟨h, hi⟩ := hrun.inv (b := True) hinj (fun _ cmd _ => sized_true cmd)
    exact heads_step hi ih hlegal run

/-! ## The walk -/

variable (c) in
/-- The loop of `prefetch` at page `currI`, while it may take `rest` more pages. The mark is read
before the count is tested. -/
def walk (m : Manager) (head : Arena.HeadPod) : ℕ → ℕ → Except Fault (List ℕ)
  | 0, currI =>
    if currI < c.podsSize then
      match m.tagOf c currI with
      | none => .error .undefined
      | some _ => .ok []
    else .ok []
  | rest + 1, currI =>
    if currI < c.podsSize then
      match m.tagOf c currI with
      | none => .error .undefined
      | some t =>
        if t.headPod ≠ head then .ok []
        else do
          let l ← walk m head rest (currI + 1)
          return currI :: l
    else .ok []

variable (c) in
/-- The pages that `prefetch` considers for the page `poi`. -/
def taskCombo (m : Manager) (poi : ℕ) : Except Fault (List ℕ) :=
  if (m.pods poi).isForSmallAllocations then .ok []
  else
    match m.tagOf c poi with
    | none => .error .undefined
    | some t => m.walk c t.headPod (Vmm.Faults.maxPrefetch - 1) (poi + Vmm.Faults.prefetchDelay)

variable (c path) in
def prefetchTask (tryLock : ℕ → Bool) (fetch : ℕ → Fetch) (m : Manager) (i : ℕ) :
    Except Fault Manager :=
  if (m.pods i).state = .diskCache ∨ (m.pods i).state = .remoteCache then .ok m
  else if tryLock i then m.step c path (.prefetchPod i (fetch i))
  else .ok m

variable (c path) in
/-- `prefetch(POI, 0)`. -/
def prefetch (tryLock : ℕ → Bool) (fetch : ℕ → Fetch) (m : Manager) (poi : ℕ) :
    Except Fault Manager := do
  let taskCombo ← m.taskCombo c poi
  taskCombo.foldlM (prefetchTask c path tryLock fetch) m

/-- The walk ends at `stop`, if the pages before it have the mark and that page, if it is read,
has another one. -/
theorem walk_eq {p stop rest currI : ℕ} (hstop : stop ≤ c.podsSize)
    (hown : ∀ j, currI ≤ j → j < stop → ∃ t, m.tagOf c j = some t ∧ t.headPod = .pod p)
    (hend : currI + rest < stop ∨ c.podsSize ≤ stop ∨
      ∃ t, m.tagOf c stop = some t ∧ t.headPod ≠ .pod p) (hle : currI ≤ stop) :
    m.walk c (.pod p) rest currI = .ok (List.range' currI (min rest (stop - currI))) := by
  induction rest generalizing currI with
  | zero =>
    rw [Nat.zero_min, List.range'_zero, walk]
    split
    case isFalse => rfl
    case isTrue hlt =>
      have hmade : ∃ t, m.tagOf c currI = some t := by
        rcases Nat.lt_or_eq_of_le hle with h1 | rfl
        · obtain ⟨t, ht, -⟩ := hown currI le_rfl h1
          exact ⟨t, ht⟩
        · rcases hend with h1 | h1 | ⟨t, ht, -⟩
          · omega
          · omega
          · exact ⟨t, ht⟩
      obtain ⟨t, ht⟩ := hmade
      rw [ht]
  | succ rest ih =>
    rw [walk]
    rcases Nat.lt_or_eq_of_le hle with h1 | rfl
    · obtain ⟨t, ht, hp⟩ := hown currI le_rfl h1
      have hnext := ih (fun j hj => hown j (by omega)) (by
        rcases hend with h2 | h2
        · exact .inl (by omega)
        · exact .inr h2) h1
      have hmin : min (rest + 1) (stop - currI) = min rest (stop - (currI + 1)) + 1 := by omega
      rw [if_pos (h1.trans_le hstop), ht]
      dsimp only
      rw [if_neg (not_not.mpr hp), hnext, ok_bind, hmin, List.range'_succ]
      rfl
    · rw [Nat.sub_self, Nat.min_zero, List.range'_zero]
      split
      case isFalse => rfl
      case isTrue hlt =>
        rcases hend with h1 | h1 | ⟨t, ht, hp⟩
        · omega
        · omega
        · rw [ht]
          exact if_pos hp

theorem walk_unmade {p stop rest currI : ℕ} (hstop : stop < c.podsSize)
    (hown : ∀ j, currI ≤ j → j < stop → ∃ t, m.tagOf c j = some t ∧ t.headPod = .pod p)
    (hnone : m.tagOf c stop = none) (hle : currI ≤ stop) (hnear : stop ≤ currI + rest) :
    m.walk c (.pod p) rest currI = .error .undefined := by
  induction rest generalizing currI with
  | zero =>
    obtain rfl : currI = stop := by omega
    rw [walk, if_pos hstop, hnone]
  | succ rest ih =>
    rw [walk, if_pos (hle.trans_lt hstop)]
    rcases Nat.lt_or_eq_of_le hle with h1 | rfl
    · obtain ⟨t, ht, hp⟩ := hown currI le_rfl h1
      have hnext := ih (fun j hj => hown j (by omega)) h1 (by omega)
      rw [ht]
      dsimp only
      rw [if_neg (not_not.mpr hp), hnext, error_bind]
    · rw [hnone]

end Manager

namespace Arena

theorem Shows.made_of_boundary {R : Region} {a : State} {h : AbsArena R} {e : ℕ} (hs : Shows a h)
    (h1 : R.first ≤ e) (h2 : e ≤ R.last)
    (hcut : e = R.first ∨ ∃ p n, h.Alloc p n ∧ p + n = e) : a.Made e := by
  have hfill := h.fill
  have hle := R.le
  unfold Region.podCount at hfill
  obtain ⟨q, d, hq, hqe, heq⟩ := exists_place_covering h1 (by omega : e < R.first + total h.blocks)
  have hstart : q = e := by
    rcases hcut with rfl | ⟨p, n, hp, rfl⟩
    · exact le_antisymm hqe (h.bounds hq).1
    · rcases place_disjoint hp hq with ⟨rfl, rfl⟩ | hc | hc
      · dsimp only at heq
        omega
      · dsimp only at hc
        omega
      · have := (h.bounds hp).2.2
        dsimp only at this
        omega
  rw [← hstart]
  exact State.made_of_tag (hs.tagged q d hq).1

end Arena

namespace Manager

variable {c : Setup} {path : ℕ → String} {m m' : Manager} {i j : ℕ} {x : HugeCall}

/-- The page behind a block exists if its arena does. -/
theorem made_behind {d : Holdings} (hd : d.Inv c) (hx : x ∈ d.huge ++ d.setting)
    (harena : (x.head + x.pages) / c.localPodCount < d.arenaCount) :
    ∃ t, d.tagOf c (x.head + x.pages) = some t := by
  have hblock := Holdings.block_mem hx
  obtain ⟨h, hs⟩ := hd.arena hblock
  have hlive := (hd.given _ hblock).2
  obtain ⟨hlow, hhigh, -⟩ := hs.bounds hlive
  obtain ⟨k, hk⟩ : ∃ k, k = (x.head + x.pages) / c.localPodCount := ⟨_, rfl⟩
  rw [← hk] at harena
  obtain ⟨h', hs'⟩ := hd.arenas k harena
  have hpos := c.pos
  have hdiv := Nat.div_add_mod (x.head + x.pages) c.localPodCount
  have hmod := Nat.mod_lt (x.head + x.pages) hpos
  rw [← hk, Nat.mul_comm] at hdiv
  have hend : (c.region k).last + 1 = k * c.localPodCount + c.localPodCount :=
    Setup.region_end (hd.lt_maxArena harena)
  have hfirst : (c.region k).first = k * c.localPodCount :=
    Setup.region_first (hd.lt_maxArena harena)
  have hmade : (d.arenas k).arena.Made (x.head + x.pages) := by
    refine hs'.shows.made_of_boundary (by omega) (by omega) ?_
    by_cases hsame : x.head / c.localPodCount = k
    · right
      have hlive' : x.block ∈ (d.arenas k).live := by
        rw [← hsame]
        exact hlive
      exact ⟨x.head, x.pages, (hs'.live _ _).mp hlive', rfl⟩
    · -- the block ends with its arena
      left
      have hend' : (c.region (x.head / c.localPodCount)).last + 1 =
        x.head / c.localPodCount * c.localPodCount + c.localPodCount :=
        Setup.region_end (hd.lt_maxArena (hd.given _ hblock).1)
      have hle : x.head / c.localPodCount ≤ k := by
        rw [hk]
        exact Nat.div_le_div_right (Nat.le_add_right _ _)
      have hmul : (x.head / c.localPodCount + 1) * c.localPodCount ≤ k * c.localPodCount :=
        Nat.mul_le_mul_right _ (by omega)
      rw [Nat.add_mul, Nat.one_mul] at hmul
      change x.head + x.pages ≤ (c.region (x.head / c.localPodCount)).last + 1 at hhigh
      omega
  obtain ⟨t, ht⟩ := Option.ne_none_iff_exists'.mp hmade
  refine ⟨t, ?_⟩
  rw [Holdings.tagOf, Holdings.arenaOf, ← hk]
  exact ht

theorem head_behind {d : Holdings} (hd : d.Inv c) (hh : d.Heads c) (hx : x ∈ d.huge ++ d.setting) :
    d.headOf c (x.head + x.pages) ≠ .pod x.head := by
  intro hc
  obtain ⟨y, hy, hyx, hcov⟩ := hh.only _ _ hc
  have hyhead : Arena.Covers y.block x.head := hyx ▸ hd.covers_self (Holdings.block_mem hy)
  have heq := hd.apart (Holdings.block_mem hy) (Holdings.block_mem hx) hyhead
    (hd.covers_self (Holdings.block_mem hx))
  rw [heq] at hcov
  exact absurd hcov.2 (Nat.lt_irrefl _)

theorem unmade_behind {d : Holdings} {e : ℕ} (hd : d.Inv c) (hpos : 0 < e)
    (harena : d.arenaCount ≤ e / c.localPodCount) : d.tagOf c e = none := by
  rw [Holdings.tagOf, Holdings.arenaOf, hd.fresh _ harena]
  exact if_neg hpos.ne'

variable (c) in
/-- The walk from page `i` does not come to the page behind the block, or the block is followed by
the end of all pods or by a page of an arena that was made. -/
def Bounded (m : Manager) (x : HugeCall) (i : ℕ) : Prop :=
  i + Vmm.Faults.maxPrefetch < x.head + x.pages ∨ c.podsSize ≤ x.head + x.pages ∨
    (x.head + x.pages) / c.localPodCount < m.arenaCount

section Walk

variable {b : Prop} {h : ∀ i, AbsHeap (c.L i)} (hm : m.Inv c path b h) (hx : x ∈ m.huge)
include hm hx

/-- The pages of a block carry its mark. -/
theorem Inv.own (hh : m.toHoldings.Heads c) (h1 : x.head ≤ j) (h2 : j < x.head + x.pages) :
    ∃ t, m.tagOf c j = some t ∧ t.headPod = .pod x.head := by
  have hcall : x ∈ m.huge ++ m.setting := mem_append_left _ hx
  have hnext : j < x.next := (hm.holdings.done x hx).symm ▸ h2
  obtain ⟨t, ht, -⟩ := (hm.holdings.calls x hcall).used j h1 hnext
  exact ⟨t, ht, (Holdings.headOf_of_tag ht).symm.trans (hh.own x hcall j h1 hnext)⟩

theorem Inv.taskCombo_eq_walk (hh : m.toHoldings.Heads c) (hi : Arena.Covers x.block i) :
    m.taskCombo c i = m.walk c (.pod x.head) (Vmm.Faults.maxPrefetch - 1) (i + 1) := by
  have hcall : x ∈ m.huge ++ m.setting := mem_append_left _ hx
  have hsmall : (m.pods i).isForSmallAllocations = false :=
    (hm.session.pager.unlisted i (hm.unlisted_of_huge hcall hi)).1
  obtain ⟨t, ht, hp⟩ := hm.own hx hh hi.1 hi.2
  rw [taskCombo, hsmall, ht]
  dsimp only
  rw [hp]
  rfl

theorem Inv.taskCombo_eq (hh : m.toHoldings.Heads c) (hi : Arena.Covers x.block i)
    (hend : m.Bounded c x i) :
    m.taskCombo c i = .ok (List.range' (i + 1)
      (min (Vmm.Faults.maxPrefetch - 1) (x.head + x.pages - (i + 1)))) := by
  have hcall : x ∈ m.huge ++ m.setting := mem_append_left _ hx
  have hd := hm.holdings
  obtain ⟨hi1, hi2⟩ := hi
  change x.head ≤ i at hi1
  change i < x.head + x.pages at hi2
  have hlast : x.head + x.pages ≤ c.podsSize := by
    have := hd.lt_podsSize (Holdings.block_mem hcall) (i := x.head + x.pages - 1)
      ⟨by change x.head ≤ _; omega, by change _ < x.head + x.pages; omega⟩
    omega
  rw [hm.taskCombo_eq_walk hx hh ⟨hi1, hi2⟩]
  refine walk_eq hlast (fun j hj => hm.own hx hh (by omega)) ?_ hi2
  unfold Vmm.Faults.maxPrefetch
  unfold Bounded Vmm.Faults.maxPrefetch at hend
  rcases hend with hfar | hfull | harena
  · exact .inl (by omega)
  · exact .inr (.inl hfull)
  · obtain ⟨u, hu⟩ := made_behind hd hcall harena
    refine .inr (.inr ⟨u, hu, ?_⟩)
    rw [← Holdings.headOf_of_tag hu]
    exact head_behind hd hh hcall

theorem Inv.taskCombo_unmade (hh : m.toHoldings.Heads c) (hi : Arena.Covers x.block i)
    (hend : ¬ m.Bounded c x i) : m.taskCombo c i = .error .undefined := by
  obtain ⟨hi1, hi2⟩ := hi
  change x.head ≤ i at hi1
  change i < x.head + x.pages at hi2
  rw [hm.taskCombo_eq_walk hx hh ⟨hi1, hi2⟩]
  unfold Bounded Vmm.Faults.maxPrefetch at hend
  simp only [not_or, not_lt, not_le] at hend
  obtain ⟨hnear, hlast, harena⟩ := hend
  refine walk_unmade hlast (fun j hj => hm.own hx hh (by omega)) ?_ hi2 ?_
  · exact unmade_behind hm.holdings (by omega) harena
  · unfold Vmm.Faults.maxPrefetch
    omega

end Walk

/-! ## The pages that change -/

theorem prefetchPod_setPod {L : ℕ → Layout} {g g' : Pager} {f : Fetch}
    (run : g.prefetchPod L i f = .ok g') : ∃ p, g' = g.setPod i p := by
  have hself : g = g.setPod i (g.pods i) := by
    rw [Pager.setPod, update_eq_self]
  rw [Pager.prefetchPod] at run
  cases hs : (g.pods i).state <;> simp only [hs] at run
  case init => exact ⟨_, (Except.ok.inj run).symm⟩
  case disk =>
    obtain ⟨p, -, hg'⟩ := of_bind_ok run
    exact ⟨p, (Except.ok.inj hg').symm⟩
  case remote =>
    obtain ⟨p, -, hg'⟩ := of_bind_ok run
    exact ⟨p, (Except.ok.inj hg').symm⟩
  all_goals exact ⟨_, (Except.ok.inj run).symm.trans hself⟩

theorem prefetchTask_ok {ok : Manager → Cmd → Prop} (tryLock : ℕ → Bool) (fetch : ℕ → Fetch)
    (hinj : Injective path) (hok : ∀ m cmd, ok m cmd) (hm : Run c path ok m)
    (hn : m.splPushdown i = none) (hf : m.Honest i (fetch i)) :
    ∃ m', m.prefetchTask c path tryLock fetch i = .ok m' ∧ Run c path ok m' ∧
      m'.toHoldings = m.toHoldings ∧ m'.splPushdown = m.splPushdown ∧ m'.nodes = m.nodes ∧
      ∀ j, j ≠ i → m'.pods j = m.pods j := by
  obtain ⟨h, hi⟩ := hm.inv (b := True) hinj (fun _ cmd _ => sized_true cmd)
  rw [prefetchTask]
  split
  · exact ⟨m, rfl, hm, rfl, rfl, rfl, fun _ _ => rfl⟩
  · split
    · obtain ⟨g, hg, -⟩ := hi.session.pager.prefetchPod hf
      have hrun : m.step c path (.prefetchPod i (fetch i)) =
          .ok { m with toSession := { m.toSession with toPager := g } } := by
        simp only [Manager.step, call, Session.step, hg, ok_bind, pure_eq]
      have hlegal : m.Legal c (.prefetchPod i (fetch i)) := ⟨hf, hn⟩
      refine ⟨_, hrun, .step hm hlegal (hok _ _) hrun, rfl, ?_⟩
      obtain ⟨p, rfl⟩ := prefetchPod_setPod hg
      exact ⟨rfl, rfl, fun j hj => update_of_ne hj _ _⟩
    · exact ⟨m, rfl, hm, rfl, rfl, rfl, fun _ _ => rfl⟩

theorem prefetchTasks_ok {ok : Manager → Cmd → Prop} (tryLock : ℕ → Bool) (fetch : ℕ → Fetch)
    {l : List ℕ} (hinj : Injective path) (hok : ∀ m cmd, ok m cmd)
    (hm : Run c path ok m) (hnd : l.Nodup)
    (hl : ∀ j ∈ l, m.splPushdown j = none ∧ m.Honest j (fetch j)) :
    ∃ m', l.foldlM (prefetchTask c path tryLock fetch) m = .ok m' ∧ Run c path ok m' ∧
      m'.toHoldings = m.toHoldings ∧ ∀ j, j ∉ l → m'.pods j = m.pods j := by
  induction l generalizing m with
  | nil => exact ⟨m, rfl, hm, rfl, fun _ _ => rfl⟩
  | cons i l ih =>
    obtain ⟨hni, hnd⟩ := nodup_cons.mp hnd
    obtain ⟨hn, hf⟩ := hl i (mem_cons_self ..)
    obtain ⟨m₁, hrun, hm₁, hhold, hhome, hnodes, hsame⟩ :=
      prefetchTask_ok tryLock fetch hinj hok hm hn hf
    have hl' : ∀ j ∈ l, m₁.splPushdown j = none ∧ m₁.Honest j (fetch j) := by
      intro j hj
      obtain ⟨h1, h2⟩ := hl j (mem_cons_of_mem _ hj)
      have hne : j ≠ i := fun hc => hni (hc ▸ hj)
      refine ⟨by rw [hhome, h1], ?_⟩
      intro client hclient
      rw [hsame j hne] at hclient
      rw [hnodes]
      exact h2 client hclient
    obtain ⟨m₂, hrun₂, hm₂, hhold₂, hsame₂⟩ := ih hm₁ hnd hl'
    refine ⟨m₂, ?_, hm₂, hhold₂.trans hhold, ?_⟩
    · rw [foldlM_cons, hrun, ok_bind, hrun₂]
    · intro j hj
      obtain ⟨hne, hj⟩ := not_or.mp (fun hc => hj (mem_cons.mpr hc))
      rw [hsame₂ j hj, hsame j hne]

variable (c path) in
/-- For page `i` of the block `x`, `prefetch` considers the next pages of the block and no others,
seven at most, and only these change. -/
def PrefetchesInside (tryLock : ℕ → Bool) (fetch : ℕ → Fetch) (m : Manager) (x : HugeCall)
    (i : ℕ) : Prop :=
  m.taskCombo c i = .ok (List.range' (i + 1)
    (min (Vmm.Faults.maxPrefetch - 1) (x.head + x.pages - (i + 1)))) ∧
  ∃ m', m.prefetch c path tryLock fetch i = .ok m' ∧ Run c path (fun _ _ => True) m' ∧
    m'.toHoldings = m.toHoldings ∧
    ∀ j, ¬ (i < j ∧ Arena.Covers x.block j) → m'.pods j = m.pods j

/-- A fault in a huge block makes `prefetch` stay inside the block if and only if the walk does not
come to the page behind the block or the pod of that page exists. -/
theorem prefetch_inside_block {swapDir : String} (tryLock : ℕ → Bool) (fetch : ℕ → Fetch)
    (hm : Run c (swapFile swapDir) (fun _ _ => True) m) (hx : x ∈ m.huge)
    (hi : Arena.Covers x.block i) (hfetch : ∀ j, Arena.Covers x.block j → m.Honest j (fetch j)) :
    PrefetchesInside c (swapFile swapDir) tryLock fetch m x i ↔ m.Bounded c x i := by
  have hinj := swapFile_injective swapDir
  obtain ⟨h, hinv⟩ := hm.inv (b := True) hinj (fun _ cmd _ => sized_true cmd)
  constructor
  · rintro ⟨hcombo, -⟩
    by_contra hend
    rw [hinv.taskCombo_unmade hx (hm.heads hinj) hi hend] at hcombo
    cases hcombo
  · intro hend
    have hcombo := hinv.taskCombo_eq hx (hm.heads hinj) hi hend
    have hcall : x ∈ m.huge ++ m.setting := mem_append_left _ hx
    have hcov : ∀ j ∈ List.range' (i + 1)
        (min (Vmm.Faults.maxPrefetch - 1) (x.head + x.pages - (i + 1))),
        i < j ∧ Arena.Covers x.block j := by
      intro j hj
      obtain ⟨h1, h2⟩ := mem_range'_1.mp hj
      have hi1 : x.head ≤ i := hi.1
      refine ⟨h1, ?_, ?_⟩
      · change x.head ≤ j
        omega
      · change j < x.head + x.pages
        omega
    obtain ⟨m', hrun, hm', hhold, hsame⟩ := prefetchTasks_ok tryLock fetch
      hinj (fun _ _ => trivial) hm nodup_range' (fun j hj =>
        ⟨hinv.unlisted_of_huge hcall (hcov j hj).2, hfetch j (hcov j hj).2⟩)
    refine ⟨hcombo, m', ?_, hm', hhold, ?_⟩
    · rw [prefetch, hcombo, ok_bind, hrun]
    · intro j hj
      exact hsame j fun hc => hj (hcov j hc)

/-! ## Blocks in the middle and at the end of an arena -/

section Samples

variable (c)

def sampleGiven : Manager :=
  (new.after c (swapFile "swap") .addNewRegionCore).after c (swapFile "swap") (.hugeMalloc 0 8192)

def sampleFirst : Manager :=
  (sampleGiven c).after c (swapFile "swap") (.hugePage 0 Session.sampleFetch)

def sampleBoth : Manager :=
  (sampleFirst c).after c (swapFile "swap") (.hugePage 0 Session.sampleFetch)

def sampleBlock : Manager := (sampleBoth c).after c (swapFile "swap") (.hugeReturn 0)

variable {c} in
theorem legal_hugePage {m : Manager} {x : HugeCall} {p n : ℕ} {f : Fetch}
    (hcall : m.callAt p = some x) (hnone : (m.pods x.next).landlordClient = none)
    (hsize : (m.tagOf c p).map (fun t => t.globalSize) = some n) (hlt : x.next < p + n) :
    m.Legal c (.hugePage p f) := by
  obtain ⟨t, ht, rfl⟩ := Option.map_eq_some_iff.mp hsize
  exact ⟨x, hcall, Pager.honest_of_none hnone, t, ht, hlt⟩

variable {c} in
theorem legal_hugeReturn {m : Manager} {x : HugeCall} {p n : ℕ} (hcall : m.callAt p = some x)
    (hsize : (m.tagOf c p).map (fun t => t.globalSize) = some n) (hle : p + n ≤ x.next) :
    m.Legal c (.hugeReturn p) := by
  obtain ⟨t, ht, rfl⟩ := Option.map_eq_some_iff.mp hsize
  exact ⟨x, hcall, t, ht, Nat.not_lt.mpr hle⟩

/-- The commands that lead to `sampleBlock` are legal and return. -/
def Serves : Prop :=
  (new.arenaCount < c.maxArena ∧ (new.step c (swapFile "swap") .addNewRegionCore).isOk = true) ∧
  (isSmall c.pageSize 8192 = false ∧
    0 < (new.after c (swapFile "swap") .addNewRegionCore).arenaCount ∧
    c.numPageNeeded 8192 < 2 ^ 31 ∧
    ((new.after c (swapFile "swap") .addNewRegionCore).step c (swapFile "swap")
      (.hugeMalloc 0 8192)).isOk = true) ∧
  ((sampleGiven c).callAt 0 = some ⟨0, 2, 8192, 0⟩ ∧
    ((sampleGiven c).pods 0).landlordClient = none ∧
    ((sampleGiven c).tagOf c 0).map (fun t => t.globalSize) = some 2 ∧
    ((sampleGiven c).step c (swapFile "swap") (.hugePage 0 Session.sampleFetch)).isOk = true) ∧
  ((sampleFirst c).callAt 0 = some ⟨0, 2, 8192, 1⟩ ∧
    ((sampleFirst c).pods 1).landlordClient = none ∧
    ((sampleFirst c).tagOf c 0).map (fun t => t.globalSize) = some 2 ∧
    ((sampleFirst c).step c (swapFile "swap") (.hugePage 0 Session.sampleFetch)).isOk = true) ∧
  (sampleBoth c).callAt 0 = some ⟨0, 2, 8192, 2⟩ ∧
    ((sampleBoth c).tagOf c 0).map (fun t => t.globalSize) = some 2 ∧
    ((sampleBoth c).step c (swapFile "swap") (.hugeReturn 0)).isOk = true

instance : Decidable (Serves c) := inferInstanceAs (Decidable (_ ∧ _))

variable {c}

theorem Serves.run (h : Serves c) :
    Run c (swapFile "swap") (fun _ _ => True) (sampleBlock c) := by
  obtain ⟨⟨hroom, hok0⟩, ⟨hlarge, hcount, hpages, hok1⟩, ⟨hcall1, hnone1, hsize1, hok2⟩,
    ⟨hcall2, hnone2, hsize2, hok3⟩, hcall3, hsize3, hok4⟩ := h
  have h0 : Run c (swapFile "swap") (fun _ _ => True) new := .start
  have h1 := h0.after .addNewRegionCore hroom trivial hok0
  have h2 := h1.after (.hugeMalloc 0 8192) ⟨hlarge, hcount, hpages⟩ trivial hok1
  have h3 := h2.after (.hugePage 0 Session.sampleFetch)
    (legal_hugePage hcall1 hnone1 hsize1 (by decide)) trivial hok2
  have h4 := h3.after (.hugePage 0 Session.sampleFetch)
    (legal_hugePage hcall2 hnone2 hsize2 (by decide)) trivial hok3
  exact h4.after (.hugeReturn 0) (legal_hugeReturn hcall3 hsize3 (by decide)) trivial hok4

end Samples

/-- The block is followed by free pages of its arena. -/
def sampleInside : Setup := grid 4 4 four_pos_grid four_le_grid four_le_four_grid

theorem prefetch_inside_block_sample :
    Run sampleInside (swapFile "swap") (fun _ _ => True) (sampleBlock sampleInside) ∧
    (sampleBlock sampleInside).taskCombo sampleInside 0 = .ok [1] ∧
    ∃ m', (sampleBlock sampleInside).prefetch sampleInside (swapFile "swap") (fun _ => true)
      (fun _ => Session.sampleFetch) 0 = .ok m' := by
  have hrun : Run sampleInside (swapFile "swap") (fun _ _ => True) (sampleBlock sampleInside) :=
    Serves.run (by decide +kernel)
  have hx : (⟨0, 2, 8192, 2⟩ : HugeCall) ∈ (sampleBlock sampleInside).huge := by decide +kernel
  have hhonest : ∀ j, Arena.Covers (0, 2) j →
      (sampleBlock sampleInside).Honest j Session.sampleFetch := by
    rintro j ⟨-, hj⟩
    change j < 0 + 2 at hj
    apply Pager.honest_of_none
    interval_cases j
    · decide +kernel
    · decide +kernel
  obtain ⟨hcombo, m', hpre, -⟩ := (prefetch_inside_block (i := 0) (fun _ => true)
    (fun _ => Session.sampleFetch) hrun hx ⟨by decide, by decide⟩ hhonest).mpr
    (.inr (.inr (by decide +kernel)))
  exact ⟨hrun, hcombo, m', hpre⟩

def sampleAtEnd : Setup := grid 4 2 Nat.two_pos four_le_grid two_le_four_grid

/-- A fault in either page of the block makes `prefetch` use the pod of the next arena, which
does not exist. -/
theorem prefetch_past_arena :
    Run sampleAtEnd (swapFile "swap") (fun _ _ => True) (sampleBlock sampleAtEnd) ∧
    (⟨0, 2, 8192, 2⟩ : HugeCall) ∈ (sampleBlock sampleAtEnd).huge ∧
    (sampleBlock sampleAtEnd).tagOf sampleAtEnd 2 = none ∧
    ∀ i ∈ [0, 1], (sampleBlock sampleAtEnd).taskCombo sampleAtEnd i = .error .undefined := by
  refine ⟨Serves.run (by decide +kernel), by decide +kernel, by decide +kernel, ?_⟩
  decide +kernel

end Manager

end Remon
