import Remon.Vmm.PagerInvariant

/-! # Pages that move

Eviction, activation, prefetching and forced swaps keep the invariant of the pager as long as
no page is swapped out while it is the last pod of its list. Memory nodes keep to the save
protocol here: every dialogue is one on which a save is all or nothing.
-/

namespace Remon
open Function Lib Heap Fault

variable {L : ℕ → Layout} {path : ℕ → String} {b : Prop}

namespace Pager

variable {g g' t : Pager} {h : ∀ i, AbsHeap (L i)} {i l : ℕ} {hp : AbsHeap (L i)}

/-! ## Swapping out -/

/-- The page of pod `i` left the memory. -/
structure SwappedOut (L : ℕ → Layout) (path : ℕ → String) (b : Prop) (i : ℕ) (hp : AbsHeap (L i))
    (g : Pager) (q : Pod) (g' : Pager) : Prop where
  swaps : Swaps path i q g g'
  lists : g'.lists = g.lists
  flushes : g'.flushes = g.flushes
  state : q.state = .disk ∨ q.state = .remote
  prot : q.prot = .none
  alike : (g.pods i).Alike q
  page : World.Models (L i) (path i) b ⟨q, g'.files, g'.nodes i, fun _ => 0⟩ hp

/-- With nodes that keep to the protocol a page is saved at one of them or stays as it is. -/
theorem remoteSwap_ok {localCopy : List (ℕ × SaveScript)}
    (hw : (g.world i).Models (L i) (path i) b hp) (hs : (g.pods i).state = .local_)
    (hd : ∀ x ∈ localCopy, (g.pods i).SaveDialogue (L i) x.2) :
    Yields (· = .uncaught) (remoteSwap L i localCopy g) (fun r => r = (false, g) ∨
      r.1 = true ∧ ∃ q, SwappedOut L path b i hp g q r.2) := by
  induction localCopy with
  | nil => exact .inl rfl
  | cons x localCopy ih =>
    obtain ⟨client, c⟩ := x
    obtain ⟨hx, hd⟩ := List.forall_mem_cons.mp hd
    rw [remoteSwap]
    rcases hx.cases with hr | hr | ⟨q, hr, hack⟩
    · have hb : (g.pods i).bundleSavePodToRemote (L i) client c = .ok (false, g.pods i, 0) := by
        rw [Pod.bundleSavePodToRemote, hr]
        rfl
      rw [hb, ok_bind]
      have hself : g.setPod i (g.pods i) = g := by
        rw [setPod, update_eq_self]
      simp only [Bool.false_eq_true, if_false, hself]
      exact ih hd
    · have hb : (g.pods i).bundleSavePodToRemote (L i) client c = .error .uncaught := by
        rw [Pod.bundleSavePodToRemote, hr]
        rfl
      rw [hb]
      rfl
    · have hb : (g.pods i).bundleSavePodToRemote (L i) client c =
          .ok (true, q.localToRemote (L i) client, (g.pods i).getTailOffset (L i)) := by
        rw [Pod.bundleSavePodToRemote, hr]
        rfl
      rw [hb, ok_bind]
      obtain ⟨hst, hprot, halike, hmod⟩ := hw.localToRemote hs hb hack
      refine .inr ⟨rfl, q.localToRemote (L i) client, ⟨?_, rfl, rfl, .inr hst, hprot, halike, ?_⟩⟩
      · exact ⟨rfl, rfl, fun _ _ => rfl, fun _ _ => rfl, fun j hj => update_of_ne hj _ _⟩
      · exact hmod.frame rfl rfl (update_self _ _ _)

theorem evictPod_ok (hinj : Injective path) {localCopy : List (ℕ × SaveScript)}
    (hw : (g.world i).Models (L i) (path i) b hp) (hs : (g.pods i).state = .local_)
    (hd : ∀ x ∈ localCopy, (g.pods i).SaveDialogue (L i) x.2) :
    Yields (· = .uncaught) (g.evictPod L path i localCopy)
      (fun g' => ∃ q, SwappedOut L path b i hp g q g') := by
  rw [evictPod, if_neg (not_not.mpr hs)]
  refine (remoteSwap_ok hw hs hd).bind ?_
  rintro ⟨swapped, g'⟩ (hr | ⟨hr, hq⟩)
  · obtain ⟨rfl, rfl⟩ := Prod.mk.inj hr
    refine ⟨((g'.pods i).localToDisk (L i) g'.files (path i)).2, ?_, rfl, rfl, .inl rfl, rfl,
      ⟨rfl, rfl, rfl, rfl, rfl, rfl⟩, (hw.localToDisk hs).frame rfl rfl rfl⟩
    refine ⟨rfl, rfl, fun _ _ => rfl, ?_, fun _ _ => rfl⟩
    intro j hj
    exact update_of_ne (hinj.ne hj) _ _
  · obtain rfl : swapped = true := hr
    exact hq

/-! ## Eviction -/

/-- The buffered frees of pod `i` went to its allocator. -/
structure Flushed (L : ℕ → Layout) (path : ℕ → String) (b : Prop) (i : ℕ) (hp : AbsHeap (L i))
    (g : Pager) (q : Pod) (g' : Pager) : Prop where
  swaps : Swaps path i q g g'
  lists : g'.lists = g.lists
  files : g'.files = g.files
  nodes : g'.nodes = g.nodes
  log : g'.flushes i = (.readWrite, (g.pods i).freeBuffer) :: g.flushes i
  models : q.Models b (hp.freeAll (g.pods i).freeBuffer)
  state : q.state = .local_
  prot : q.prot = .readWrite
  landlord : q.landlordClient = (g.pods i).landlordClient
  freeBuffer : q.freeBuffer = []
  rank : q.rank = (g.pods i).rank
  oldRank : q.oldRank = (g.pods i).oldRank
  inited : q.heap.inited = (g.pods i).heap.inited

theorem flushFreeBuffer_ok (path : ℕ → String) (hm : (g.pods i).Models b hp)
    (hs : (g.pods i).state = .local_)
    (hprot : (g.pods i).prot = .readWrite) :
    Yields (Stuck b) (g.flushFreeBuffer L i) (fun g' => ∃ q, Flushed L path b i hp g q g') := by
  have hok := SplState.flushFreeBuffer_ok (s := g.spl 0) (i := i) (b := b)
    (h := update (fun j => .fresh (L j)) i hp)
    (by rw [SplState.cell, update_self]; exact ⟨hm, hs, hprot⟩)
  rw [update_self] at hok
  rw [flushFreeBuffer]
  refine hok.bind ?_
  rintro s ⟨q, hpods, hfl, -, hmod, hst, hpr, hland, hnil, hrank, hold, hin⟩
  refine ⟨q, ⟨hpods, rfl, ?_, fun _ _ => rfl, fun _ _ => rfl⟩, rfl, rfl, rfl, ?_, hmod, hst, hpr,
    hland, hnil, hrank, hold, hin⟩
  · intro j hj
    change s.flushes j = g.flushes j
    rw [hfl, update_of_ne hj]
    rfl
  · change s.flushes i = _
    rw [hfl, update_self, ← hprot]
    rfl

/-- What may have happened to a pod that the evictor took from the LRU list. -/
inductive Evicted (g g' : Pager) (i : ℕ) : Prop
  /-- the pod was neither in memory nor cached, or it was pinned -/
  | idle (hs : (g.pods i).state ≠ .local_) (hp : g'.pods i = g.pods i)
      (hf : g'.Filed i ↔ g.Filed i)
  /-- the memory of a cached pod was released -/
  | dropped (hs : (g.pods i).state = .diskCache ∧ (g'.pods i).state = .disk ∨
      (g.pods i).state = .remoteCache ∧ (g'.pods i).state = .remote)
      (hin : (g'.pods i).heap.inited = (g.pods i).heap.inited) (hf : ¬ g'.Filed i)
  /-- the last pod of a list stays in its bucket -/
  | kept (hs : (g.pods i).state = .local_) (hl : g.IsLast i) (hf : g'.Filed i)
      (hs' : (g'.pods i).state = .local_ ∧ (g'.pods i).heap.inited = true ∨
        (g'.pods i).state = .init)
  /-- the page was swapped out or given back -/
  | out (hs : (g.pods i).state = .local_) (hl : ¬ g.IsLast i) (hf : ¬ g'.Filed i)
      (hs' : ((g'.pods i).state = .disk ∨ (g'.pods i).state = .remote) ∧
          (g'.pods i).heap.inited = (g.pods i).heap.inited ∨ (g'.pods i).state = .init)

def AfterEvict (L : ℕ → Layout) (path : ℕ → String) (b : Prop) (i : ℕ) (g : Pager)
    (h : ∀ i, AbsHeap (L i)) (g' : Pager) : Prop :=
  ∃ h', Inv L path b g' h' ∧ OnePod i g h g' h' ∧ Evicted g g' i

def MayLeave (L : ℕ → Layout) (path : ℕ → String) (b : Prop) (i : ℕ) (g : Pager)
    (h : ∀ i, AbsHeap (L i)) (g' : Pager) : Prop :=
  ∃ hp : AbsHeap (L i), (g'.world i).Models (L i) (path i) b hp ∧ (g'.pods i).state = .local_ ∧
    ∀ q g'', SwappedOut L path b i hp g' q g'' → AfterEvict L path b i g h g''

def AfterBefore (L : ℕ → Layout) (path : ℕ → String) (b : Prop) (i : ℕ) (g : Pager)
    (h : ∀ i, AbsHeap (L i)) (r : Bool × Pager) : Prop :=
  r.1 = false ∧ AfterEvict L path b i g h r.2 ∨ r.1 = true ∧ MayLeave L path b i g h r.2

theorem putSpl_spl : g.putSpl l (g.spl l) = g := by
  simp [putSpl, spl]

/-- The page of a pod in memory. -/
theorem Inv.resident (hg : Inv L path b g h) (hs : (g.pods i).state = .local_) :
    (g.cell h i).Resident b ∧ g.files (path i) = none ∧ (g.pods i).landlordClient = none ∧
      ∀ c, g.nodes i c = none := by
  obtain ⟨hm, hprot, hrest⟩ := (World.models_resident (.inl hs)).mp (hg.pages i)
  exact ⟨⟨hm, hs, hprot⟩, hrest⟩

/-- A rank is up to date with the copy of it. -/
theorem Inv.synced (hg : Inv L path b g h) (i : ℕ) : (g.pods i).oldRank = (g.pods i).rank := by
  cases hl : g.splPushdown i with
  | none => exact (hg.unlisted i hl).2
  | some l => exact (hg.lists l).synced i hl

theorem Flushed.keeps {q r : Pod} {f : List (Prot × List ℕ)} (hq : Flushed L path b i (h i) g q g')
    (hm : (g.pods i).Models b (h i)) (hr : r.freeBuffer = []) (hf : f = g'.flushes i) :
    (g.cell h i).Retains ⟨r, (h i).freeAll (g.pods i).freeBuffer, f⟩ :=
  .flush hm.nodup hm.pending rfl hr (hf.trans hq.log)

/-- The page of a pod that was flushed. -/
theorem Flushed.page {q : Pod} (hq : Flushed L path b i hp g q g')
    (hfile : g.files (path i) = none) (hland : (g.pods i).landlordClient = none)
    (hnode : ∀ c, g.nodes i c = none) :
    World.Models (L i) (path i) b ⟨q, g'.files, g'.nodes i, fun _ => 0⟩
      (hp.freeAll (g.pods i).freeBuffer) :=
  (World.models_resident (.inl hq.state)).mpr ⟨hq.models, hq.prot, by rw [hq.files]; exact hfile,
    hq.landlord.trans hland, by rw [hq.nodes]; exact hnode⟩

/-- The last pod of a list is flushed and stays where it is. -/
theorem Inv.evictLast (hg : Inv L path b g h) (hl : g.Of l i)
    (hlast : (g.lists l).lastAllocatedPod = some i) (hs : (g.pods i).state = .local_)
    (hin : (g.pods i).heap.inited = true) :
    Yields (Stuck b) (do
      let (removed, g) ← g.benchSwappedPage L i
      let g ← g.flushFreeBuffer L i
      if (g.pods i).isEmpty (L i) then return (false, g.setPod i ((g.pods i).localToInit (L i)))
      return (removed, g)) (AfterBefore L path b i g h) := by
  obtain ⟨hres, hfile, hland, hnode⟩ := hg.resident hs
  have hf := (hg.lists l).listed i hl hs hin
  have hbench : g.benchSwappedPage L i = .ok (false, g) := by
    have hl' : g.splPushdown i = some l := hl
    have hrm : (g.spl l).removePod L i = .ok (false, g.spl l) := SplState.removePod_last hlast
    simp only [benchSwappedPage, hl', SplState.benchSwappedPage, hrm, ok_bind, putSpl_spl]
    rfl
  rw [hbench, ok_bind]
  refine (flushFreeBuffer_ok path hres.1 hs hres.2.2).bind ?_
  rintro g₁ ⟨q, hq⟩
  have hqi : g₁.pods i = q := by
    rw [hq.swaps.pods, update_self]
  have hsync : q.oldRank = q.rank := by
    rw [hq.oldRank, hq.rank, hg.synced]
  have hlisted : g.splPushdown i ≠ none := by simp [show g.splPushdown i = some l from hl]
  have hpage := hq.page hfile hland hnode
  rw [hqi]
  by_cases he : q.isEmpty (L i) = true
  · rw [if_pos he]
    have hfresh := (hq.models.of_isEmpty he).1
    have hfits : Fits L path b i g h (q.localToInit (L i)) ((h i).freeAll (g.pods i).freeBuffer)
        (g₁.setPod i (q.localToInit (L i))) := by
      refine ⟨hq.swaps.trans (.setPod _), hpage.localToInit hq.state hfresh,
        hq.keeps hres.1 hq.freeBuffer rfl, fun _ => rfl, hsync, fun ha => absurd rfl ha.1⟩
    obtain ⟨hinv, hone⟩ := hg.stay hl hf hfits hq.lists hq.rank
      (.inr ⟨hq.models.localToInit hfresh, rfl, rfl⟩) (fun hc => absurd hlast hc)
      (fun _ hc => absurd hq.freeBuffer hc)
    refine .inl ⟨rfl, _, hinv, hone, .kept hs ⟨l, hl, hlast⟩ ?_ (.inr ?_)⟩
    · exact (filed_congr hq.lists hfits.swaps.home i).mpr ⟨l, hl, hf⟩
    · rw [hfits.swaps.pods, update_self]
      rfl
  · rw [if_neg he]
    have hfits : Fits L path b i g h q ((h i).freeAll (g.pods i).freeBuffer) g₁ :=
      ⟨hq.swaps, hpage, hq.keeps hres.1 hq.freeBuffer rfl, fun hc => absurd hc hlisted, hsync,
        fun ha => absurd hq.state ha.2.1⟩
    obtain ⟨hinv, hone⟩ := hg.stay hl hf hfits hq.lists hq.rank
      (.inl ⟨hq.models, hq.state, hq.prot⟩) (fun hc => absurd hlast hc)
      (fun _ hc => absurd hq.freeBuffer hc)
    refine .inl ⟨rfl, _, hinv, hone, .kept hs ⟨l, hl, hlast⟩ ?_ (.inl ?_)⟩
    · exact (filed_congr hq.lists hfits.swaps.home i).mpr ⟨l, hl, hf⟩
    · rw [hqi]
      exact ⟨hq.state, hq.inited.trans hin⟩

/-- The list gives up pod `i`. -/
theorem Inv.bench (hg : Inv L path b g h) (hl : g.Of l i)
    (hne : (g.lists l).lastAllocatedPod ≠ some i) (hf : (g.spl l).Filed i) :
    ∃ q, g.benchSwappedPage L i =
        .ok (true, (g.setMap l ((g.lists l).rankMap.unfile (g.pods i).rank i)).setPod i q) ∧
      SplState.Reranked b (h i) (g.pods i) q ∧ q.rank = (g.pods i).rank := by
  have hl' : g.splPushdown i = some l := hl
  obtain ⟨q, hrun, hq, hrank⟩ := (hg.lists l).removePod hf hne
  refine ⟨q, ?_, hq, hrank⟩
  simp only [benchSwappedPage, hl', SplState.benchSwappedPage, hrun, ok_bind]
  rfl

/-- A pod of a list that is not its last one is flushed and swapped out, or given back. -/
theorem Inv.evictOther (hg : Inv L path b g h) (hl : g.Of l i)
    (hne : (g.lists l).lastAllocatedPod ≠ some i) (hs : (g.pods i).state = .local_)
    (hin : (g.pods i).heap.inited = true) :
    Yields (Stuck b) (do
      let (removed, g) ← g.benchSwappedPage L i
      let g ← g.flushFreeBuffer L i
      if (g.pods i).isEmpty (L i) then return (false, g.setPod i ((g.pods i).localToInit (L i)))
      return (removed, g)) (AfterBefore L path b i g h) := by
  obtain ⟨hres, hfile, hland, hnode⟩ := hg.resident hs
  have hf := (hg.lists l).listed i hl hs hin
  have hnl : ¬ g.IsLast i := by
    rintro ⟨k, hk, hc⟩
    obtain rfl : k = l := Option.some.inj (hk.symm.trans hl)
    exact hne hc
  obtain ⟨p, hbench, hp, hrank⟩ := hg.bench hl hne hf
  rw [hbench, ok_bind]
  set g₀ := (g.setMap l ((g.lists l).rankMap.unfile (g.pods i).rank i)).setPod i p with hg₀
  have hpi : g₀.pods i = p := update_self _ _ _
  have hstate : p.state = .local_ := hp.state.trans hs
  refine (flushFreeBuffer_ok path (g := g₀) (by rw [hpi]; exact hp.models)
    (by rw [hpi]; exact hstate) (by rw [hpi]; exact hp.prot.trans hres.2.2)).bind ?_
  rintro g₁ ⟨q, hq⟩
  have hqi : g₁.pods i = q := by
    rw [hq.swaps.pods, update_self]
  have hsw₀ : Swaps path i p g g₀ :=
    ⟨rfl, rfl, fun _ _ => rfl, fun _ _ => rfl, fun _ _ => rfl⟩
  have hsw := hsw₀.trans hq.swaps
  have hsync : q.oldRank = q.rank := by
    rw [hq.oldRank, hq.rank, hpi, hp.oldRank]
  have hlisted : g.splPushdown i ≠ none := by simp [show g.splPushdown i = some l from hl]
  have hpage := hq.page hfile (by rw [hpi]; exact hp.landlord.trans hland) hnode
  have hkeeps : ∀ r : Pod, r.freeBuffer = [] →
      (g.cell h i).Retains ⟨r, (h i).freeAll (g₀.pods i).freeBuffer, g₁.flushes i⟩ := by
    intro r hr
    refine .trans (d := g₀.cell h i) (.of_same rfl ?_ rfl)
      (hq.keeps (by rw [hpi]; exact hp.models) hr rfl)
    rw [cell, hpi]
    exact hp.freeBuffer
  rw [hqi]
  by_cases he : q.isEmpty (L i) = true
  · rw [if_pos he]
    have hfresh := (hq.models.of_isEmpty he).1
    have hfits : Fits L path b i g h (q.localToInit (L i)) ((h i).freeAll (g₀.pods i).freeBuffer)
        (g₁.setPod i (q.localToInit (L i))) :=
      ⟨hsw.trans (.setPod _), hpage.localToInit hq.state hfresh, hkeeps _ hq.freeBuffer,
        fun _ => rfl, hsync, fun ha => absurd rfl ha.1⟩
    obtain ⟨hinv, hone, hnf⟩ := hg.leave hl hne hfits hq.lists (fun _ => rfl)
      (fun hc => PodState.noConfusion hc)
    refine .inl ⟨rfl, _, hinv, hone, .out hs hnl hnf (.inr ?_)⟩
    rw [hfits.swaps.pods, update_self]
    rfl
  · rw [if_neg he]
    refine .inr ⟨rfl, _, hpage.frame hqi rfl rfl, by rw [hqi]; exact hq.state, ?_⟩
    intro r g₂ hr
    have halike := hr.alike
    rw [hqi] at halike
    have hnotlocal : r.state ≠ .local_ ∧ r.state ≠ .localPinned := by
      rcases hr.state with hs | hs <;> simp [hs]
    have hfits : Fits L path b i g h r ((h i).freeAll (g₀.pods i).freeBuffer) g₂ := by
      refine ⟨hsw.trans hr.swaps, hr.page, ?_, fun hc => absurd hc hlisted, ?_, fun _ => hr.prot⟩
      · rw [hr.flushes]
        exact hkeeps r (halike.freeBuffer.trans hq.freeBuffer)
      · rw [halike.oldRank, halike.rank, hsync]
    obtain ⟨hinv, hone, hnf⟩ := hg.leave hl hne hfits (hr.lists.trans hq.lists)
      (fun hc => absurd hc hnotlocal.1) hnotlocal.2
    refine ⟨_, hinv, hone, .out hs hnl hnf (.inl ?_)⟩
    rw [hfits.swaps.pods, update_self, halike.inited, hq.inited, hpi, hp.inited]
    exact ⟨hr.state, hin.symm⟩

theorem Inv.listed_of_inited (hg : Inv L path b g h) (hin : (g.pods i).heap.inited = true) :
    ∃ l, g.Of l i := by
  cases hl : g.splPushdown i with
  | none => exact nomatch hin.symm.trans (hg.unlisted i hl).1
  | some l => exact ⟨l, hl⟩

theorem Inv.not_filed_of_blank (hg : Inv L path b g h) (hin : (g.pods i).heap.inited = false)
    (hnl : ¬ g.IsLast i) : ¬ g.Filed i := by
  rintro ⟨l, hl, hf⟩
  have hne : (g.spl l).lastAllocatedPod ≠ some i := fun hc => hnl ⟨l, hl, hc⟩
  have hin' : (g.pods i).heap.inited = true := ((hg.lists l).ranked i hf hne).2.1
  rw [hin] at hin'
  cases hin'

theorem Inv.not_filed_of_away (hg : Inv L path b g h) (ha : Away (g.pods i)) : ¬ g.Filed i := by
  rintro ⟨l, -, hf⟩
  exact ((hg.lists l).filed_state hf).elim ha.2.1 ha.1

theorem Inv.giveBack (hg : Inv L path b g h) (hs : (g.pods i).state = .local_)
    (hin : (g.pods i).heap.inited = false) (hnl : ¬ g.IsLast i) :
    AfterEvict L path b i g h (g.setPod i ((g.pods i).localToInit (L i))) := by
  have hnf := hg.not_filed_of_blank hin hnl
  have hfits : Fits L path b i g h ((g.pods i).localToInit (L i)) (h i)
      (g.setPod i ((g.pods i).localToInit (L i))) :=
    ⟨.setPod _, (hg.pages i).localToInit hs ((hg.pages i).of_not_inited hin).1,
      .of_same rfl rfl rfl, fun _ => rfl, hg.synced i, fun ha => absurd rfl ha.1⟩
  obtain ⟨hinv, hone⟩ := hg.aside hnf hfits rfl (fun _ => rfl) (fun _ _ hc => nomatch hc)
  refine ⟨_, hinv, hone, .out hs hnl ?_ (.inr ?_)⟩
  · exact fun hc => hnf ((filed_congr rfl hfits.swaps.home i).mp hc)
  · rw [hfits.swaps.pods, update_self]
    rfl

theorem Inv.mayLeave (hg : Inv L path b g h) (hs : (g.pods i).state = .local_)
    (hin : (g.pods i).heap.inited = false) (hnl : ¬ g.IsLast i) : MayLeave L path b i g h g := by
  have hnf := hg.not_filed_of_blank hin hnl
  refine ⟨h i, hg.pages i, hs, ?_⟩
  intro r g₂ hr
  have hnotlocal : r.state ≠ .local_ ∧ r.state ≠ .localPinned := by
    rcases hr.state with hs | hs <;> simp [hs]
  have hfits : Fits L path b i g h r (h i) g₂ := by
    refine ⟨hr.swaps, hr.page, .of_same rfl hr.alike.freeBuffer ?_,
      fun _ => hr.alike.inited.trans hin, ?_, fun _ => hr.prot⟩
    · exact congrFun hr.flushes i
    · rw [hr.alike.oldRank, hr.alike.rank, hg.synced]
  obtain ⟨hinv, hone⟩ := hg.aside hnf hfits hr.lists (fun hc => absurd hc hnotlocal.1)
    (fun _ _ => hnotlocal.2)
  refine ⟨_, hinv, hone, .out hs hnl ?_ (.inl ?_)⟩
  · exact fun hc => hnf ((filed_congr hr.lists hfits.swaps.home i).mp hc)
  · rw [hfits.swaps.pods, update_self]
    exact ⟨hr.state, hr.alike.inited⟩

theorem Inv.moveAway {q : Pod} (hg : Inv L path b g h) (ha : Away (g.pods i)) (hq : Away q)
    (halike : (g.pods i).Alike q) (hprot : q.prot = (g.pods i).prot)
    (hpage : World.Models (L i) (path i) b ⟨q, g.files, g.nodes i, fun _ => 0⟩ (h i)) :
    Inv L path b (g.setPod i q) h ∧ OnePod i g h (g.setPod i q) h ∧ ¬ (g.setPod i q).Filed i := by
  have hnf := hg.not_filed_of_away ha
  have hfits : Fits L path b i g h q (h i) (g.setPod i q) := by
    refine ⟨.setPod q, hpage, .of_same rfl halike.freeBuffer rfl, ?_, ?_, ?_⟩
    · intro hn
      rw [halike.inited]
      exact (hg.unlisted i hn).1
    · rw [halike.oldRank, halike.rank, hg.synced]
    · exact fun _ => hprot.trans (hg.unmapped i ha)
  obtain ⟨hinv, hone⟩ := hg.aside hnf hfits rfl (fun hc => absurd hc hq.2.1) (fun _ _ => hq.2.2)
  rw [update_eq_self] at hinv hone
  exact ⟨hinv, hone, fun hc => hnf ((filed_congr rfl rfl i).mp hc)⟩

theorem Inv.beforeEvict (hg : Inv L path b g h) (isFree : Bool)
    (horder : (g.pods i).state = .local_ → (g.pods i).heap.inited = false → ¬ g.IsLast i) :
    Yields (Stuck b) (g.beforeEvict L i isFree) (AfterBefore L path b i g h) := by
  have hidle : (g.pods i).state ≠ .local_ → AfterBefore L path b i g h (false, g) := fun hs =>
    .inl ⟨rfl, h, hg, .refl, .idle hs rfl Iff.rfl⟩
  cases hs : (g.pods i).state with
  | local_ =>
    simp only [Pager.beforeEvict, hs]
    by_cases hin : (g.pods i).isForSmallAllocations = true
    · rw [if_pos hin]
      obtain ⟨l, hl⟩ := hg.listed_of_inited hin
      by_cases hlast : (g.lists l).lastAllocatedPod = some i
      · exact hg.evictLast hl hlast hs hin
      · exact hg.evictOther hl hlast hs hin
    · rw [if_neg hin]
      rw [Bool.not_eq_true] at hin
      have hnl := horder hs hin
      cases isFree with
      | true => exact .inl ⟨rfl, hg.giveBack hs hin hnl⟩
      | false => exact .inr ⟨rfl, hg.mayLeave hs hin hnl⟩
  | diskCache =>
    simp only [Pager.beforeEvict, hs]
    obtain ⟨hinv, hone, hnf⟩ := hg.moveAway (i := i) (q := (g.pods i).diskCacheToDisk (L i))
      (by simp [Away, hs]) (by simp [Away, Pod.diskCacheToDisk]) ⟨rfl, rfl, rfl, rfl, rfl, rfl⟩ rfl
      ((hg.pages i).diskCacheToDisk hs)
    have hi : (g.setPod i ((g.pods i).diskCacheToDisk (L i))).pods i =
        (g.pods i).diskCacheToDisk (L i) := update_self _ _ _
    exact .inl ⟨rfl, h, hinv, hone, .dropped (.inl ⟨hs, congrArg Pod.state hi⟩)
      (congrArg (·.heap.inited) hi) hnf⟩
  | remoteCache =>
    simp only [Pager.beforeEvict, hs]
    obtain ⟨hinv, hone, hnf⟩ := hg.moveAway (i := i) (q := (g.pods i).remoteCacheToRemote (L i))
      (by simp [Away, hs]) (by simp [Away, Pod.remoteCacheToRemote]) ⟨rfl, rfl, rfl, rfl, rfl, rfl⟩
      rfl ((hg.pages i).remoteCacheToRemote hs)
    have hi : (g.setPod i ((g.pods i).remoteCacheToRemote (L i))).pods i =
        (g.pods i).remoteCacheToRemote (L i) := update_self _ _ _
    exact .inl ⟨rfl, h, hinv, hone, .dropped (.inr ⟨hs, congrArg Pod.state hi⟩)
      (congrArg (·.heap.inited) hi) hnf⟩
  | init | localPinned | disk | remote =>
    simp only [Pager.beforeEvict, hs]
    exact hidle (by simp [hs])

def Breaks (b : Prop) (e : Fault) : Prop := Stuck b e ∨ e = .uncaught

def Dialogues (L : ℕ → Layout) (i : ℕ) (localCopy : List (ℕ × SaveScript))
    (r : Except Fault (Bool × Pager)) : Prop :=
  ∀ g', r = .ok (true, g') → ∀ x ∈ localCopy, (g'.pods i).SaveDialogue (L i) x.2

theorem evict_bind (hinj : Injective path) {x : Except Fault (Bool × Pager)}
    {localCopy : List (ℕ × SaveScript)} (hx : Yields (Stuck b) x (AfterBefore L path b i g h))
    (hd : Dialogues L i localCopy x) :
    Yields (Breaks b) (do
      let (swap, g) ← x
      if swap then g.evictPod L path i localCopy else return g) (AfterEvict L path b i g h) := by
  cases x with
  | error e => exact .inl hx
  | ok r =>
    obtain ⟨swap, g₁⟩ := r
    rcases hx with ⟨hswap, hafter⟩ | ⟨hswap, hp, hw, hs, hafter⟩
    · obtain rfl : swap = false := hswap
      exact hafter
    · obtain rfl : swap = true := hswap
      refine ((evictPod_ok hinj hw hs (hd g₁ rfl)).mono ?_).weaken (fun e he => .inr he)
      rintro g₂ ⟨q, hq⟩
      exact hafter q g₂ hq

theorem Inv.pickPodToEvict (hinj : Injective path) (hg : Inv L path b g h) {isFree : Bool}
    {localCopy : List (ℕ × SaveScript)}
    (horder : (g.pods i).state = .local_ → (g.pods i).heap.inited = false → ¬ g.IsLast i)
    (hd : Dialogues L i localCopy (g.beforeEvict L i isFree)) :
    Yields (Breaks b) (g.pickPodToEvict L path i isFree localCopy) (AfterEvict L path b i g h) :=
  evict_bind hinj (hg.beforeEvict isFree horder) hd

/-! ## Forced swaps -/

/-- A pod that its list gave up may be swapped out. -/
theorem Inv.mayLeave_benched {p : Pod} (hg : Inv L path b g h) (hl : g.Of l i)
    (hne : (g.lists l).lastAllocatedPod ≠ some i) (hs : (g.pods i).state = .local_)
    (hin : (g.pods i).heap.inited = true)
    (hp : SplState.Reranked b (h i) (g.pods i) p) :
    MayLeave L path b i g h
      ((g.setMap l ((g.lists l).rankMap.unfile (g.pods i).rank i)).setPod i p) := by
  obtain ⟨hres, hfile, hland, hnode⟩ := hg.resident hs
  have hnl : ¬ g.IsLast i := by
    rintro ⟨k, hk, hc⟩
    obtain rfl : k = l := Option.some.inj (hk.symm.trans hl)
    exact hne hc
  set g₀ := (g.setMap l ((g.lists l).rankMap.unfile (g.pods i).rank i)).setPod i p with hg₀
  have hpi : g₀.pods i = p := update_self _ _ _
  have hst : p.state = .local_ := hp.state.trans hs
  have hsw : Swaps path i p g g₀ := ⟨rfl, rfl, fun _ _ => rfl, fun _ _ => rfl, fun _ _ => rfl⟩
  have hpage : World.Models (L i) (path i) b ⟨p, g₀.files, g₀.nodes i, fun _ => 0⟩ (h i) :=
    (World.models_resident (.inl hst)).mpr
      ⟨hp.models, hp.prot.trans hres.2.2, hfile, hp.landlord.trans hland, hnode⟩
  refine ⟨h i, hpage.frame hpi rfl rfl, by rw [hpi]; exact hst, ?_⟩
  intro r g₂ hr
  have halike := hr.alike
  rw [hpi] at halike
  have hnotlocal : r.state ≠ .local_ ∧ r.state ≠ .localPinned := by
    rcases hr.state with hs | hs <;> simp [hs]
  have hfits : Fits L path b i g h r (h i) g₂ := by
    refine ⟨hsw.trans hr.swaps, hr.page, .of_same rfl ?_ (congrFun hr.flushes i),
      ?_, ?_, fun _ => hr.prot⟩
    · exact halike.freeBuffer.trans hp.freeBuffer
    · exact fun hc => nomatch hc.symm.trans hl
    · rw [halike.oldRank, halike.rank, hp.oldRank]
  obtain ⟨hinv, hone, hnf⟩ := hg.leave hl hne hfits hr.lists (fun hc => absurd hc hnotlocal.1)
    hnotlocal.2
  refine ⟨_, hinv, hone, .out hs hnl hnf (.inl ?_)⟩
  rw [hfits.swaps.pods, update_self, halike.inited, hp.inited]
  exact ⟨hr.state, hin.symm⟩

/-- A pod that is not the last one of its list is swapped out with its frees still buffered. -/
theorem Inv.beforeForceSwap (hg : Inv L path b g h)
    (horder : (g.pods i).state = .local_ → ¬ g.IsLast i) :
    Yields (Stuck b) (g.beforeForceSwap L i) (AfterBefore L path b i g h) := by
  by_cases hs : (g.pods i).state = .local_
  · have hnl := horder hs
    rw [Pager.beforeForceSwap, if_pos hs]
    by_cases hin : (g.pods i).isForSmallAllocations = true
    · rw [if_pos hin]
      obtain ⟨l, hl⟩ := hg.listed_of_inited hin
      have hne : (g.lists l).lastAllocatedPod ≠ some i := fun hc => hnl ⟨l, hl, hc⟩
      obtain ⟨p, hbench, hp, hrank⟩ := hg.bench hl hne ((hg.lists l).listed i hl hs hin)
      rw [hbench, ok_bind]
      exact .inr ⟨rfl, hg.mayLeave_benched hl hne hs hin hp⟩
    · rw [if_neg hin]
      rw [Bool.not_eq_true] at hin
      exact .inr ⟨rfl, hg.mayLeave hs hin hnl⟩
  · rw [Pager.beforeForceSwap, if_neg hs]
    exact .inl ⟨rfl, h, hg, .refl, .idle hs rfl Iff.rfl⟩

theorem Inv.asyncSwapOutPod (hinj : Injective path) (hg : Inv L path b g h)
    {localCopy : List (ℕ × SaveScript)} (horder : (g.pods i).state = .local_ → ¬ g.IsLast i)
    (hd : Dialogues L i localCopy (g.beforeForceSwap L i)) :
    Yields (Breaks b) (g.asyncSwapOutPod L path i localCopy) (AfterEvict L path b i g h) :=
  evict_bind hinj (hg.beforeForceSwap horder) hd

/-! ## Bringing pages in -/

/-- What may have happened to a pod that was activated. -/
inductive Activated (g g' : Pager) (i : ℕ) : Prop
  | idle (hs : (g.pods i).state = .local_ ∨ (g.pods i).state = .localPinned)
      (hp : g'.pods i = g.pods i) (hf : g'.Filed i ↔ g.Filed i)
  /-- a page that is new or was given back gets memory -/
  | mapped (hs : (g.pods i).state = .init) (hs' : (g'.pods i).state = .local_)
      (hin : (g'.pods i).heap.inited = false) (hf : g'.Filed i ↔ g.Filed i)
  /-- a page comes back, and into its list if it has one -/
  | back (hs : Away (g.pods i)) (hs' : (g'.pods i).state = .local_)
      (hin : (g'.pods i).heap.inited = (g.pods i).heap.inited)
      (hf : g'.Filed i ↔ (g.pods i).heap.inited = true)

def AfterActivate (L : ℕ → Layout) (path : ℕ → String) (b : Prop) (i : ℕ) (g : Pager)
    (h : ∀ i, AbsHeap (L i)) (g' : Pager) : Prop :=
  ∃ h', Inv L path b g' h' ∧ OnePod i g h g' h' ∧ Activated g g' i

/-- A page that is new or was given back. -/
theorem Inv.initToLocal (hg : Inv L path b g h) (hs : (g.pods i).state = .init) :
    AfterActivate L path b i g h (g.setPod i (g.pods i).initToLocal) := by
  have hin := hg.inited_of_init hs
  have hfits : Fits L path b i g h (g.pods i).initToLocal (h i)
      (g.setPod i (g.pods i).initToLocal) :=
    ⟨.setPod _, (hg.pages i).initToLocal hs, .of_same rfl rfl rfl, fun _ => hin,
      hg.synced i, fun ha => absurd rfl ha.2.1⟩
  have hpi : (g.setPod i (g.pods i).initToLocal).pods i = (g.pods i).initToLocal :=
    update_self _ _ _
  have hact : Activated g (g.setPod i (g.pods i).initToLocal) i := by
    refine .mapped hs ?_ ?_ (filed_congr rfl rfl i)
    · rw [hpi]
      rfl
    · rw [hpi]
      exact hin
  by_cases hf : g.Filed i
  · obtain ⟨l, hl, hfl⟩ := hf
    have hlast : (g.lists l).lastAllocatedPod = some i := by
      by_contra hne
      have hc : (g.pods i).heap.inited = true := ((hg.lists l).ranked i hfl hne).2.1
      rw [hin] at hc
      cases hc
    obtain ⟨hm, -, -⟩ := (World.models_init hs).mp (hg.pages i)
    obtain ⟨hinv, hone⟩ := hg.stay hl hfl hfits rfl rfl (.inl ⟨hm.congr rfl rfl rfl, rfl, rfl⟩)
      (fun hc => absurd hlast hc) (fun _ hc => absurd ((hg.pages i).of_not_inited hin).2 hc)
    exact ⟨_, hinv, hone, hact⟩
  · obtain ⟨hinv, hone⟩ := hg.aside hf hfits rfl (fun _ => hin) (fun _ _ hc => nomatch hc)
    exact ⟨_, hinv, hone, hact⟩

/-- The page of pod `i`, which was away, is in memory as `p` and was flushed. -/
structure CameHome (L : ℕ → Layout) (path : ℕ → String) (b : Prop) (i : ℕ) (g : Pager)
    (h : ∀ i, AbsHeap (L i)) (p : Pod) (g' : Pager) : Prop where
  pods : g'.pods = g.pods
  lists : g'.lists = g.lists
  home : g'.splPushdown = g.splPushdown
  flushes : g'.flushes = g.flushes
  files : ∀ j, j ≠ i → g'.files (path j) = g.files (path j)
  nodes : ∀ j, j ≠ i → g'.nodes j = g.nodes j
  pod : (g.pods i).Home p
  page : World.Models (L i) (path i) b ⟨p, g'.files, g'.nodes i, fun _ => 0⟩
    ((h i).freeAll (g.pods i).freeBuffer)

theorem Inv.arrive {p : Pod} (hg : Inv L path b g h) (ha : Away (g.pods i))
    (hc : CameHome L path b i g h p g') :
    Yields (Stuck b) (g'.arrive L i p) (AfterActivate L path b i g h) := by
  have hnf := hg.not_filed_of_away ha
  obtain ⟨hm, hprot, hfile, hland, hnode⟩ := (World.models_resident (.inr hc.pod.state)).mp hc.page
  obtain ⟨-, hnodup, hpending⟩ := (hg.pages i).buffer
  rw [Pager.arrive, hc.pods, hc.flushes]
  set g₁ : Pager := { g'.setPod i p with
    flushes := update g.flushes i
      ((p.prot, (g.pods i).freeBuffer) :: g.flushes i) } with hg₁
  have hpi : g₁.pods i = p := update_self _ _ _
  have hsw : Swaps path i p g g₁ := by
    refine ⟨?_, hc.home, fun j hj => update_of_ne hj _ _, hc.files, hc.nodes⟩
    change update g'.pods i p = _
    rw [hc.pods]
  have hlog : g₁.flushes i = (.readWrite, (g.pods i).freeBuffer) :: g.flushes i := by
    change update g.flushes i _ i = _
    rw [update_self, ← hprot]
  have hkeeps : ∀ r : Pod, r.freeBuffer = [] → (g.cell h i).Retains
      ⟨r, (h i).freeAll (g.pods i).freeBuffer, g₁.flushes i⟩ :=
    fun r hr => .flush hnodup hpending rfl hr hlog
  by_cases hin : p.isForSmallAllocations = true
  · rw [if_pos hin]
    have hin' : (g.pods i).heap.inited = true := hc.pod.inited.symm.trans hin
    obtain ⟨l, hl⟩ := hg.listed_of_inited hin'
    have hl₁ : g₁.splPushdown i = some l := by
      rw [hsw.home]
      exact hl
    have hpi' : (g₁.spl l).pods i = p := hpi
    obtain ⟨q, hrun, hq⟩ := SplState.addPodFromSwappedState_ok (s := g₁.spl l) (L := L) (i := i)
      (b := b) (x := (h i).freeAll (g.pods i).freeBuffer) (by rw [hpi']; exact hm)
      (by rw [hpi']; exact hprot)
    rw [hpi'] at hq
    have hqs : q.state = .localPinned := hq.state.trans hc.pod.state
    simp only [unbenchSwappedPage, hl₁, SplState.unbenchSwappedPage, hrun, ok_bind,
      pure_eq]
    set g₂ := g₁.putSpl l (((g₁.spl l).setPod i q).setMap ((g₁.spl l).rankMap.file q.rank i))
      with hg₂
    have hqi : g₂.pods i = q := update_self _ _ _
    have hqr : q.localPinnedToLocal = { q with state := .local_ } := if_pos hqs
    rw [hqi, hqr]
    set r : Pod := { q with state := .local_ } with hr
    have hrb : r.freeBuffer = [] := hq.freeBuffer.trans hc.pod.freeBuffer
    have hres : Cell.Resident b ⟨r, (h i).freeAll (g.pods i).freeBuffer,
      (g₂.setPod i r).flushes i⟩ :=
      ⟨hq.models.congr rfl rfl rfl, rfl, hq.prot.trans hprot⟩
    have hsw₂ : Swaps path i r g (g₂.setPod i r) := by
      refine hsw.trans (.trans (p := q) ?_ (.setPod r))
      exact ⟨rfl, rfl, fun _ _ => rfl, fun _ _ => rfl, fun _ _ => rfl⟩
    have hfits : Fits L path b i g h r ((h i).freeAll (g.pods i).freeBuffer) (g₂.setPod i r) := by
      refine ⟨hsw₂, ?_, hkeeps r hrb, ?_, hq.oldRank, fun ha => absurd rfl ha.2.1⟩
      · exact (World.models_resident (.inl rfl)).mpr
          ⟨hres.1, hres.2.2, hfile, hq.landlord.trans hland, hnode⟩
      · exact fun hn => nomatch hn.symm.trans hl
    have hlists : (g₂.setPod i r).lists =
        (g.setMap l ((g.lists l).rankMap.file r.rank i)).lists := by
      change update g'.lists l { g'.lists l with
        rankMap := (g'.lists l).rankMap.file q.rank i } = _
      rw [hc.lists]
      rfl
    obtain ⟨hinv, hone, hfl⟩ := hg.join hl hnf hfits hlists hres hq.inited hq.rank hrb
    have hri : (g₂.setPod i r).pods i = r := update_self _ _ _
    refine ⟨_, hinv, hone, .back ha ?_ ?_ (iff_of_true hfl hin')⟩
    · rw [hri]
    · rw [hri, hin']
      exact hq.inited
  · rw [if_neg hin]
    simp only [ok_bind, hpi]
    rw [Bool.not_eq_true] at hin
    have hin' : (g.pods i).heap.inited = false := hc.pod.inited.symm.trans hin
    have hpr : p.localPinnedToLocal = { p with state := .local_ } := if_pos hc.pod.state
    rw [hpr]
    set r : Pod := { p with state := .local_ } with hr
    have hfits : Fits L path b i g h r ((h i).freeAll (g.pods i).freeBuffer) (g₁.setPod i r) := by
      refine ⟨hsw.trans (.setPod r), ?_, hkeeps r hc.pod.freeBuffer, fun _ => hin, ?_,
        fun ha => absurd rfl ha.2.1⟩
      · exact (World.models_resident (.inl rfl)).mpr
          ⟨hm.congr rfl rfl rfl, hprot, hfile, hland, hnode⟩
      · change p.oldRank = p.rank
        rw [hc.pod.oldRank, hc.pod.rank, hg.synced]
    obtain ⟨hinv, hone⟩ := hg.aside hnf hfits hc.lists (fun _ => hin) (fun _ _ hc => nomatch hc)
    have hri : (g₁.setPod i r).pods i = r := update_self _ _ _
    refine ⟨_, hinv, hone, .back ha ?_ ?_ (iff_of_false ?_ (by simp [hin']))⟩
    · rw [hri]
    · rw [hri, hin']
      exact hin
    · exact fun hf => hnf ((filed_congr hc.lists hfits.swaps.home i).mp hf)

/-- A page at a node has a landlord. -/
theorem Sound.landlord (hg : Sound L path b g h)
    (hs : (g.pods i).state = .remote ∨ (g.pods i).state = .remoteCache) :
    ∃ client, (g.pods i).landlordClient = some client := by
  obtain ⟨m, -, hk⟩ := hg.pages i
  have hne : (g.pods i).state ≠ .init := by
    rcases hs with hs | hs <;> simp [hs]
  obtain ⟨client, -, -, -, -, hl, -⟩ := (hk.swapped hne).of_remote hs
  exact ⟨client, hl⟩

/-- The node sends what it holds for the pod. -/
def Honest (g : Pager) (i : ℕ) (f : Fetch) : Prop :=
  ∀ client, (g.pods i).landlordClient = some client → g.nodes i client = some f.delivery.bytes

theorem honest_of_none {f : Fetch} (hn : (g.pods i).landlordClient = none) : g.Honest i f := by
  intro client hc
  rw [hn] at hc
  cases hc

theorem eraseNode_eq {client : ℕ} (hl : (g.pods i).landlordClient = some client) :
    g.eraseNode i = { g with
      nodes := update g.nodes i (eraseEntry (g.nodes i) client) } := by
  simp only [eraseNode, hl]

/-- An activation stops only while it frees the copy of a prefetched page at its node. -/
theorem Inv.activatePod_reply (hinj : Injective path) (hg : Inv L path b g h) {f : Fetch}
    (hf : g.Honest i f) :
    Yields (fun e => Stuck b e ∨ (g.pods i).state = .remoteCache ∧
        (g.pods i).freePodInRemote f.reply = .error e)
      (g.activatePod L i f) (AfterActivate L path b i g h) := by
  have hfiles : ∀ x : Option (List UInt8), ∀ j, j ≠ i →
      update g.files (path i) x (path j) = g.files (path j) := by
    intro x j hj
    exact update_of_ne (hinj.ne hj) _ _
  cases hs : (g.pods i).state with
  | local_ =>
    simp only [Pager.activatePod, hs]
    exact ⟨h, hg, .refl, .idle (.inl hs) rfl Iff.rfl⟩
  | localPinned =>
    simp only [Pager.activatePod, hs]
    exact ⟨h, hg, .refl, .idle (.inr hs) rfl Iff.rfl⟩
  | init =>
    simp only [Pager.activatePod, hs]
    exact hg.initToLocal hs
  | disk =>
    simp only [Pager.activatePod, hs]
    refine Yields.weaken (fun _ => Or.inl) (((hg.pages i).diskToLocalPinned hs).bind ?_)
    rintro ⟨files, p⟩ ⟨hfs, hhome, hpage⟩
    obtain rfl : files = update g.files (path i) none := hfs
    refine hg.arrive (by simp [Away, hs]) ⟨rfl, rfl, rfl, rfl, hfiles none, fun _ _ => rfl,
      hhome, ?_⟩
    exact hpage.frame rfl rfl rfl
  | diskCache =>
    simp only [Pager.activatePod, hs]
    refine Yields.weaken (fun _ => Or.inl) (((hg.pages i).diskCacheToLocalPinned hs).bind ?_)
    rintro ⟨files, p⟩ ⟨hfs, hhome, hpage⟩
    obtain rfl : files = update g.files (path i) none := hfs
    refine hg.arrive (by simp [Away, hs]) ⟨rfl, rfl, rfl, rfl, hfiles none, fun _ _ => rfl,
      hhome, ?_⟩
    exact hpage.frame rfl rfl rfl
  | remote =>
    simp only [Pager.activatePod, hs]
    obtain ⟨client, hl⟩ := hg.landlord (.inl hs)
    refine Yields.weaken (fun _ => Or.inl)
      (((hg.pages i).remoteToLocalPinned hs hl (hf client hl)).bind ?_)
    rintro p ⟨hhome, hpage⟩
    rw [eraseNode_eq hl]
    refine hg.arrive (by simp [Away, hs]) ⟨rfl, rfl, rfl, rfl, fun _ _ => rfl,
      fun j hj => update_of_ne hj _ _, hhome, ?_⟩
    exact hpage.frame rfl rfl (update_self _ _ _)
  | remoteCache =>
    simp only [Pager.activatePod, hs]
    obtain ⟨client, hl⟩ := hg.landlord (.inr hs)
    refine (((hg.pages i).remoteCacheToLocalPinned_reply hs hl).weaken
      (fun _ he => he.imp_right (⟨trivial, ·⟩))).bind ?_
    rintro p ⟨hhome, hpage⟩
    rw [eraseNode_eq hl]
    refine Yields.weaken (fun _ => Or.inl) (hg.arrive (by simp [Away, hs]) ⟨rfl, rfl, rfl, rfl,
      fun _ _ => rfl, fun j hj => update_of_ne hj _ _, hhome, ?_⟩)
    exact hpage.frame rfl rfl (update_self _ _ _)

theorem Inv.activatePod (hinj : Injective path) (hg : Inv L path b g h) {f : Fetch}
    (hf : g.Honest i f) :
    Yields (fun e => Breaks b e ∨ e = .undefined ∧ (g.pods i).state = .remoteCache)
      (g.activatePod L i f) (AfterActivate L path b i g h) := by
  refine (hg.activatePod_reply hinj hf).weaken ?_
  rintro e (he | ⟨hs, he⟩)
  · exact .inl (.inl he)
  · rcases World.Models.freePodInRemote_ok.permitted he with he | he
    · exact .inl (.inr he)
    · exact .inr ⟨he, hs⟩

/-- What may have happened to a pod that was prefetched. -/
inductive Prefetched (g g' : Pager) (i : ℕ) : Prop
  | idle (hs : (g.pods i).state ≠ .init ∧ (g.pods i).state ≠ .disk ∧ (g.pods i).state ≠ .remote)
      (hp : g'.pods i = g.pods i) (hf : g'.Filed i ↔ g.Filed i)
  | mapped (hs : (g.pods i).state = .init) (hs' : (g'.pods i).state = .local_)
      (hin : (g'.pods i).heap.inited = false) (hf : g'.Filed i ↔ g.Filed i)
  /-- a copy of the page is in memory -/
  | cached (hs : (g.pods i).state = .disk ∧ (g'.pods i).state = .diskCache ∨
        (g.pods i).state = .remote ∧ (g'.pods i).state = .remoteCache)
      (hin : (g'.pods i).heap.inited = (g.pods i).heap.inited) (hf : ¬ g'.Filed i)

theorem Inv.prefetchPod (hg : Inv L path b g h) {f : Fetch} (hf : g.Honest i f) :
    ∃ g', g.prefetchPod L i f = .ok g' ∧
      ∃ h', Inv L path b g' h' ∧ OnePod i g h g' h' ∧ Prefetched g g' i := by
  have hidle : (g.pods i).state ≠ .init ∧ (g.pods i).state ≠ .disk ∧ (g.pods i).state ≠ .remote →
      ∃ h', Inv L path b g h' ∧ OnePod i g h g h' ∧ Prefetched g g i :=
    fun hs => ⟨h, hg, .refl, .idle hs rfl Iff.rfl⟩
  have hset : ∀ q : Pod, (g.setPod i q).pods i = q := fun q => update_self _ _ _
  cases hs : (g.pods i).state with
  | init =>
    obtain ⟨h', hinv, hone, hact⟩ := hg.initToLocal hs
    have hin : (g.pods i).heap.inited = false := hg.inited_of_init hs
    refine ⟨_, by simp only [Pager.prefetchPod, hs], h', hinv, hone,
      .mapped hs ?_ ?_ (filed_congr rfl rfl i)⟩
    · rw [hset]
      rfl
    · rw [hset]
      exact hin
  | disk =>
    obtain ⟨q, hrun, hqs, hprot, halike, hpage⟩ := (hg.pages i).diskToDiskCache hs
    have hrun' : (g.pods i).diskToDiskCache (L i) g.files = .ok q := hrun
    obtain ⟨hinv, hone, hnf⟩ := hg.moveAway (by simp [Away, hs]) (by simp [Away, hqs]) halike hprot
      hpage
    refine ⟨g.setPod i q, ?_, h, hinv, hone, .cached (.inl ⟨hs, ?_⟩) ?_ hnf⟩
    · simp only [Pager.prefetchPod, hs, hrun', ok_bind, pure_eq]
    · rw [hset, hqs]
    · rw [hset]
      exact halike.inited
  | remote =>
    obtain ⟨client, hl⟩ := hg.landlord (.inl hs)
    obtain ⟨q, hrun, hqs, hprot, halike, hpage⟩ :=
      (hg.pages i).remoteToRemoteCache hs hl (hf client hl)
    have hrun' : (g.pods i).remoteToRemoteCache (L i) f.delivery = .ok q := hrun
    obtain ⟨hinv, hone, hnf⟩ := hg.moveAway (by simp [Away, hs]) (by simp [Away, hqs]) halike hprot
      hpage
    refine ⟨g.setPod i q, ?_, h, hinv, hone, .cached (.inr ⟨hs, ?_⟩) ?_ hnf⟩
    · simp only [Pager.prefetchPod, hs, hrun', ok_bind, pure_eq]
    · rw [hset, hqs]
    · rw [hset]
      exact halike.inited
  | local_ | localPinned | diskCache | remoteCache =>
    exact ⟨g, by simp only [Pager.prefetchPod, hs], hidle (by simp [hs])⟩

/-! ## Pods without a list -/

theorem not_filed_of_unlisted (hn : g.splPushdown i = none) : ¬ g.Filed i := by
  rintro ⟨l, hl, -⟩
  exact nomatch hn.symm.trans hl

/-- A pod without a list changes. -/
theorem Inv.loose {q : Pod} (hg : Inv L path b g h) (hn : g.splPushdown i = none)
    (hsw : Swaps path i q g t) (hlists : t.lists = g.lists) (hflushes : t.flushes i = g.flushes i)
    (hpage : World.Models (L i) (path i) b ⟨q, t.files, t.nodes i, fun _ => 0⟩ (h i))
    (hin : q.heap.inited = false) (hsync : q.oldRank = q.rank) (hprot : Away q → q.prot = .none) :
    Inv L path b t h ∧ OnePod i g h t h := by
  have hnil : (g.pods i).freeBuffer = [] := ((hg.pages i).of_not_inited (hg.unlisted i hn).1).2
  have hfits : Fits L path b i g h q (h i) t := by
    refine ⟨hsw, hpage, .of_same rfl ?_ hflushes, fun _ => hin, hsync, hprot⟩
    exact (hpage.of_not_inited hin).2.trans hnil.symm
  have hboth := hg.aside (not_filed_of_unlisted hn) hfits hlists (fun _ => hin)
    (fun l hl => nomatch hn.symm.trans hl)
  rwa [update_eq_self] at hboth

/-- A page that the arena gave out is pinned. -/
theorem Inv.addPodToBuffer (hinj : Injective path) (hg : Inv L path b g h)
    (hn : g.splPushdown i = none) {f : Fetch} :
    Yields (fun e => Stuck b e ∨ Unreleased e) (g.addPodToBuffer L i f)
      (fun g' => Inv L path b g' h ∧ OnePod i g h g' h ∧
        (g'.pods i).state = .localPinned) := by
  obtain ⟨hin, hsync⟩ := hg.unlisted i hn
  have hnil : (g.pods i).freeBuffer = [] := ((hg.pages i).of_not_inited hin).2
  have hset : ∀ q : Pod, (g.setPod i q).pods i = q := fun q => update_self _ _ _
  have hfiles : ∀ j, j ≠ i →
      update g.files (path i) none (path j) = g.files (path j) := by
    intro j hj
    exact update_of_ne (hinj.ne hj) _ _
  cases hs : (g.pods i).state with
  | init =>
    simp only [Pager.addPodToBuffer, hs]
    obtain ⟨hinv, hone⟩ := hg.loose hn (.setPod _) rfl rfl ((hg.pages i).initToLocalPinned hs) hin
      hsync (fun ha => absurd rfl ha.2.2)
    refine ⟨hinv, hone, ?_⟩
    rw [hset]
    rfl
  | local_ =>
    simp only [Pager.addPodToBuffer, hs]
    have hq : (g.pods i).localToLocalPinned = { g.pods i with state := .localPinned } := if_pos hs
    rw [hq]
    obtain ⟨hinv, hone⟩ := hg.loose hn (.setPod { g.pods i with state := .localPinned }) rfl rfl
      ((hg.pages i).pin (.inl hs) (.inr rfl) rfl rfl rfl rfl rfl) hin hsync
      (fun ha => absurd rfl ha.2.2)
    refine ⟨hinv, hone, ?_⟩
    rw [hset]
  | localPinned =>
    simp only [Pager.addPodToBuffer, hs]
    exact ⟨hg, .refl, hs⟩
  | disk =>
    simp only [Pager.addPodToBuffer, hs]
    obtain ⟨hfs, hpage⟩ := (hg.pages i).diskToInit hs hin
    have hpage' := World.Models.initToLocalPinned hpage rfl
    set q := (g.pods i).diskToInit (L i) g.files with hq
    have hfs' : q.1 = update g.files (path i) none := hfs
    have hsw : Swaps path i q.2.initToLocalPinned g
        { g.setPod i q.2.initToLocalPinned with files := q.1 } := by
      refine ⟨rfl, rfl, fun _ _ => rfl, ?_, fun _ _ => rfl⟩
      intro j hj
      change q.1 (path j) = _
      rw [hfs']
      exact hfiles j hj
    obtain ⟨hinv, hone⟩ := hg.loose hn hsw rfl rfl (hpage'.frame rfl rfl rfl) rfl hsync
      (fun ha => absurd rfl ha.2.2)
    refine ⟨hinv, hone, ?_⟩
    rw [show ({ g.setPod i q.2.initToLocalPinned with files := q.1 } : Pager).pods i =
      q.2.initToLocalPinned from hset _]
    rfl
  | diskCache =>
    simp only [Pager.addPodToBuffer, hs]
    refine Yields.weaken (fun e he => .inl he) (((hg.pages i).diskCacheToLocalPinned hs).bind ?_)
    rintro ⟨files, q⟩ ⟨hfs, hhome, hpage⟩
    obtain rfl : files = update g.files (path i) none := hfs
    have hbuf : (g.world i).pod.freeBuffer = [] := hnil
    rw [hbuf] at hpage
    obtain ⟨hinv, hone⟩ := hg.loose (t := { g.setPod i q with
        files := update g.files (path i) none }) hn
      ⟨rfl, rfl, fun _ _ => rfl, hfiles, fun _ _ => rfl⟩ rfl rfl (hpage.frame rfl rfl rfl)
      (hhome.inited.trans hin) (by rw [hhome.oldRank, hhome.rank]; exact hsync)
      (fun ha => absurd hhome.state ha.2.2)
    refine ⟨hinv, hone, ?_⟩
    exact (congrArg Pod.state (hset q)).trans hhome.state
  | remote =>
    simp only [Pager.addPodToBuffer, hs]
    obtain ⟨client, hl⟩ := hg.landlord (.inl hs)
    refine Yields.weaken (fun e he => .inr he) (((hg.pages i).remoteToInit hs hin hl).bind ?_)
    rintro q ⟨hqs, hrank, hold, hpage⟩
    have hpage' := World.Models.initToLocalPinned hpage hqs
    have hqin : q.heap.inited = false := ((World.models_init hqs).mp hpage).2.1
    rw [eraseNode_eq hl]
    obtain ⟨hinv, hone⟩ := hg.loose (q := q.initToLocalPinned) (t := { g with
        nodes := update g.nodes i (eraseEntry (g.nodes i) client)
        pods := update g.pods i q.initToLocalPinned }) hn
      ⟨rfl, rfl, fun _ _ => rfl, fun _ _ => rfl, fun j hj => update_of_ne hj _ _⟩ rfl rfl
      (hpage'.frame rfl rfl (update_self _ _ _)) hqin (by
        change q.oldRank = q.rank
        rw [hold, hrank]
        exact hsync)
      (fun ha => absurd rfl ha.2.2)
    exact ⟨hinv, hone, congrArg Pod.state (hset q.initToLocalPinned)⟩
  | remoteCache =>
    simp only [Pager.addPodToBuffer, hs]
    obtain ⟨client, hl⟩ := hg.landlord (.inr hs)
    refine ((hg.pages i).remoteCacheToLocalPinned hs hl).bind ?_
    rintro q ⟨hhome, hpage⟩
    have hbuf : (g.world i).pod.freeBuffer = [] := hnil
    rw [hbuf] at hpage
    rw [eraseNode_eq hl]
    obtain ⟨hinv, hone⟩ := hg.loose (q := q) (t := { g with
        nodes := update g.nodes i (eraseEntry (g.nodes i) client)
        pods := update g.pods i q }) hn
      ⟨rfl, rfl, fun _ _ => rfl, fun _ _ => rfl, fun j hj => update_of_ne hj _ _⟩ rfl rfl
      (hpage.frame rfl rfl (update_self _ _ _)) (hhome.inited.trans hin)
      (by rw [hhome.oldRank, hhome.rank]; exact hsync) (fun ha => absurd hhome.state ha.2.2)
    exact ⟨hinv, hone, (congrArg Pod.state (hset q)).trans hhome.state⟩

/-- A page without an allocator may hold anything. -/
theorem Inv.scribble {m : Mem} (hg : Inv L path b g h) (hn : g.splPushdown i = none)
    (hs : (g.pods i).state = .local_ ∨ (g.pods i).state = .localPinned) :
    Inv L path b (g.setPod i ((g.pods i).setMem m)) h ∧
      OnePod i g h (g.setPod i ((g.pods i).setMem m)) h := by
  obtain ⟨hin, hsync⟩ := hg.unlisted i hn
  obtain ⟨hm, hprot, hrest⟩ := (World.models_resident hs).mp (hg.pages i)
  have hm' : ((g.pods i).setMem m).Models b (h i) :=
    ⟨.inr ⟨hin, ((hg.pages i).of_not_inited hin).1⟩, hm.locked, hm.idle, hm.nodup, hm.pending⟩
  refine hg.loose hn (.setPod _) rfl rfl ?_ hin hsync ?_
  · exact (World.models_resident hs).mpr ⟨hm', hprot, hrest⟩
  · intro ha
    exact hs.elim (fun hc => absurd hc ha.2.1) (fun hc => absurd hc ha.2.2)

theorem Inv.trimFreePage (hg : Inv L path b g h) (hn : g.splPushdown i = none) :
    ∃ g', g.trimFreePage L i = .ok g' ∧ Inv L path b g' h ∧ OnePod i g h g' h ∧
      (g'.pods i).state = (g.pods i).state ∧
      (g'.pods i).heap.inited = (g.pods i).heap.inited := by
  by_cases hs : (g.pods i).state = .local_
  · obtain ⟨hinv, hone⟩ := hg.scribble
      (m := (g.pods i).mem.zero (L i).payloadStart (L i).payloadSize)
      hn (.inl hs)
    set p := (g.pods i).setMem ((g.pods i).mem.zero (L i).payloadStart (L i).payloadSize) with hp
    have hi : (g.setPod i p).pods i = p := update_self _ _ _
    refine ⟨g.setPod i p, ?_, hinv, hone, ?_, ?_⟩
    · rw [Pager.trimFreePage, if_pos hs]
      rfl
    · rw [hi]
      rfl
    · rw [hi]
      rfl
  · exact ⟨g, if_neg hs, hg, .refl, rfl, rfl⟩

/-- A byte of a block in use is written. -/
theorem Inv.store {a : ℕ} {v : UInt8} (hg : Inv L path b g h) (hu : (h i).InUse a)
    (hs : (g.pods i).state = .local_) :
    Inv L path b (g.setPod i ((g.pods i).setMem ((g.pods i).mem.set a v))) h ∧
      OnePod i g h (g.setPod i ((g.pods i).setMem ((g.pods i).mem.set a v))) h := by
  have ⟨q, n, hq, _⟩ := hu
  obtain ⟨hin, l, hl⟩ := hg.of_live ((h i).isLive_iff.mpr ⟨n, hq⟩)
  obtain ⟨hm, hprot, hrest⟩ := (World.models_resident (.inl hs)).mp (hg.pages i)
  have hspells : Spells (g.pods i).mem (h i) := by
    rcases hm.page with ⟨-, hp⟩ | ⟨hc, -⟩
    · exact hp
    · exact nomatch hin.symm.trans hc
  set p := (g.pods i).setMem ((g.pods i).mem.set a v) with hp
  have hm' : p.Models b (h i) :=
    ⟨.inl ⟨hin, hspells.set hu v⟩, hm.locked, hm.idle, hm.nodup, hm.pending⟩
  have hres : Cell.Resident b ⟨p, h i, g.flushes i⟩ := ⟨hm', hs, hprot⟩
  have hfits : Fits L path b i g h p (h i) (g.setPod i p) := by
    refine ⟨.setPod p, (World.models_resident (.inl hs)).mpr ⟨hm', hprot, hrest⟩,
      .of_same rfl rfl rfl, fun hn => (hg.unlisted i hn).1, hg.synced i, ?_⟩
    exact fun ha => absurd hs ha.2.1
  have hfiled := (hg.lists l).listed i hl hs hin
  have hboth := hg.stay hl hfiled hfits rfl rfl (.inl hres)
    (fun hne => ⟨hres, hin, ((hg.lists l).ranked i hfiled hne).2.2⟩) ((hg.lists l).noted i hl)
  rwa [update_eq_self] at hboth

end Pager

end Remon
