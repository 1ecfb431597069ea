import Remon.Vmm.Session

/-! # The lists over whole runs

The calls of the lists together with eviction and activation keep every list in order. With
forced swaps this is so as long as no page is swapped out while it is the last pod of its list;
a forced swap of the last pod leaves a page in the list that is not in memory.
-/

namespace Remon
open Function Lib Heap

variable {L : ℕ → Layout} {path : ℕ → String} {b : Prop}

namespace Pager

variable {g g' : Pager} {h h' : ∀ i, AbsHeap (L i)} {i j l : ℕ}

/-- A pod is in at most one bucket of all lists, under its rank. -/
theorem Inv.holds {k : ℕ} (hg : Inv L path b g h) (hk : (g.lists l).rankMap.Holds k i) :
    g.Of l i ∧ k = (g.pods i).rank :=
  ⟨((hg.lists l).keyed k i hk).2, ((hg.lists l).keyed k i hk).1.symm⟩

theorem Inv.holds_iff {k : ℕ} (hg : Inv L path b g h) (hl : g.Of l i) (hf : g.Filed i) :
    (g.lists l).rankMap.Holds k i ↔ k = (g.pods i).rank := by
  refine ⟨fun hk => (hg.holds hk).2, ?_⟩
  rintro rfl
  exact (hg.lists l).filed_rank ((filed_iff_spl hl).mp hf)

/-- A pod in a bucket is in memory and can be used, or it is the last one and was given back. -/
theorem Inv.filed_resident (hg : Inv L path b g h) (hf : g.Filed i) :
    (g.pods i).state = .local_ ∧ (g.pods i).prot = .readWrite ∨
      (g.pods i).state = .init ∧ g.IsLast i := by
  obtain ⟨l, hl, hf⟩ := hf
  by_cases hlast : (g.lists l).lastAllocatedPod = some i
  · rcases ((hg.lists l).last i hlast).2 with hr | hr
    · exact .inl hr.2
    · exact .inr ⟨hr.2.1, l, hl, hlast⟩
  · exact .inl ((hg.lists l).ranked i hf hlast).1.2

/-- A pod with a list has an allocator, except after it was given back. -/
def Made (g : Pager) : Prop :=
  ∀ i l, g.Of l i → (g.pods i).state ≠ .init → (g.pods i).heap.inited = true

theorem Made.note (hm : Made g) {a : ℕ} : Made (g.note i a) := by
  intro j l hl
  by_cases hj : j = i
  · subst hj
    rw [pods_note_self]
    exact hm j l hl
  · rw [pods_note_of_ne hj]
    exact hm j l hl

/-- The calls of a list only make allocators. -/
theorem Made.evolves (hm : g.Of l i → (g.pods i).state ≠ .init → (g.pods i).heap.inited = true)
    (he : (g.cell h i).Evolves b (g'.cell h' i)) (hl : g.Of l i) (hs : (g'.pods i).state ≠ .init) :
    (g'.pods i).heap.inited = true := by
  rcases he.made with heq | hin
  · have hp : g'.pods i = g.pods i := congrArg Cell.pod heq
    rw [hp] at hs ⊢
    exact hm hl hs
  · exact hin

theorem Made.called (hm : Made g) (hc : Called b l g h g' h') : Made g' := by
  intro i k hk
  rw [Of, hc.home] at hk
  exact Made.evolves (hm i k) (hc.cells i) hk

theorem Made.joined (hm : Made g) (hc : Joined b l i g h g' h') : Made g' := by
  intro j k hk hs
  by_cases hj : j = i
  · rw [hj]
    exact hc.inited
  · rw [Of, hc.home, update_of_ne hj] at hk
    exact Made.evolves (hm j k) (hc.cells j hj) hk hs

/-- One pod changes. -/
theorem Made.onePod (hm : Made g) (ho : OnePod i g h g' h')
    (hi : ∀ l, g.Of l i → (g'.pods i).state ≠ .init → (g'.pods i).heap.inited = true) :
    Made g' := by
  intro j k hk
  rw [Of, ho.home] at hk
  by_cases hj : j = i
  · subst hj
    exact hi k hk
  · rw [ho.pods_of_ne hj]
    exact hm j k hk

theorem Made.evicted (hm : Made g) (ho : OnePod i g h g' h') (he : Evicted g g' i) : Made g' := by
  refine hm.onePod ho fun l hl hs => ?_
  cases he with
  | idle _ hp =>
    rw [hp] at hs ⊢
    exact hm i l hl hs
  | dropped hd hin =>
    rw [hin]
    refine hm i l hl ?_
    rcases hd with hd | hd <;> simp [hd.1]
  | kept _ _ _ hs' => exact (hs'.resolve_right hs).2
  | out hlocal _ _ hs' =>
    rw [(hs'.resolve_right hs).2]
    exact hm i l hl (by simp [hlocal])

theorem Made.activated (hm : Made g) (ho : OnePod i g h g' h') (ha : Activated g g' i)
    (hne : g.splPushdown i ≠ none → (g.pods i).state ≠ .init) : Made g' := by
  refine hm.onePod ho fun l hl hs => ?_
  have hlisted : g.splPushdown i ≠ none := by
    rw [hl]
    simp
  cases ha with
  | idle _ hp =>
    rw [hp] at hs ⊢
    exact hm i l hl hs
  | mapped hi => exact absurd hi (hne hlisted)
  | back _ _ hin =>
    rw [hin]
    exact hm i l hl (hne hlisted)

theorem Made.prefetched (hm : Made g) (ho : OnePod i g h g' h') (hp : Prefetched g g' i)
    (hne : g.splPushdown i ≠ none → (g.pods i).state ≠ .init) : Made g' := by
  refine hm.onePod ho fun l hl hs => ?_
  have hlisted : g.splPushdown i ≠ none := by
    rw [hl]
    simp
  cases hp with
  | idle _ hp =>
    rw [hp] at hs ⊢
    exact hm i l hl hs
  | mapped hi => exact absurd hi (hne hlisted)
  | cached _ hin =>
    rw [hin]
    exact hm i l hl (hne hlisted)

end Pager

namespace Session

variable {s s' : Session} {h h' : ∀ i, AbsHeap (L i)} {op : Op} {i l : ℕ}

/-! ## Eviction and activation -/

/-- The calls of the lists, and of the others those that swap pages out by age and bring pages
with a list back that were swapped out. -/
def Calls (s : Session) : Op → Prop
  | .asyncSwapOutPod _ _ => False
  | .activatePod i _ => s.splPushdown i ≠ none → (s.pods i).state ≠ .init
  | .prefetchPod i _ => s.splPushdown i ≠ none → (s.pods i).state ≠ .init
  | _ => True

/-- Then the evictor never sees a last pod without its allocator. -/
theorem Calls.orderly (hm : s.Made) (hc : s.Calls op) : s.Orderly op := by
  cases op with
  | pickPodToEvict i isFree localCopy =>
    rintro hs hin ⟨l, hl, -⟩
    have := hm i l hl (by simp [hs])
    rw [hin] at this
    cases this
  | asyncSwapOutPod i localCopy => exact hc.elim
  | _ => trivial

def Aside (s : Session) : Prop := ∀ i, s.benched i = true → (∃ l, s.Of l i) ∧ ¬ s.Filed i

theorem made_touched {g' : Pager} (hm : s.Made) (ho : Pager.OnePod i s.toPager h g' h')
    (ht : Touched s.toPager g' i) : g'.Made := by
  refine hm.onePod ho fun l hl hs => ?_
  rw [ht.inited]
  rw [ht.state] at hs
  exact hm i l hl hs

theorem made_step (hm : s.Made) (ha : s.After L path b h op s' h') (hc : s.Calls op) :
    s'.Made := by
  have hdid := ha.did
  cases op with
  | allocate l size c => exact hm.called hdid
  | addPodAndAllocate l i => exact hm.joined hdid
  | free i a =>
    obtain ⟨l, -, hcall, -⟩ := hdid
    exact hm.note.called hcall
  | trim l c tryLock => exact hm.called hdid
  | pickPodToEvict i isFree localCopy => exact hm.evicted hdid.1 hdid.2
  | asyncSwapOutPod i localCopy => exact hc.elim
  | activatePod i f => exact hm.activated hdid.1 hdid.2 hc
  | prefetchPod i f => exact hm.prefetched hdid.1 hdid.2 hc
  | addPodToBuffer i f =>
    refine hm.onePod hdid.1 fun l hl => ?_
    exact nomatch hdid.2.2.symm.trans hl
  | trimFreePage i => exact made_touched hm hdid.1 hdid.2
  | store i a v => exact made_touched hm hdid.1 hdid.2

/-- One pod changes, and it is benched now only if it is in no bucket. -/
theorem Aside.onePod {g' : Pager} {x : ℕ → Bool} (ha : s.Aside)
    (ho : Pager.OnePod i s.toPager h g' h') (hx : ∀ j, j ≠ i → x j = s.benched j)
    (hi : x i = true → (∃ l, s.Of l i) ∧ ¬ g'.Filed i) (j : ℕ) (hj : x j = true) :
    (∃ l, g'.Of l j) ∧ ¬ g'.Filed j := by
  simp only [Pager.Of, ho.home]
  by_cases he : j = i
  · subst he
    exact hi hj
  · rw [hx j he] at hj
    rw [ho.filed j he]
    exact ha j hj

theorem benches_iff : s.benches i = true ↔ ∃ l, s.Of l i ∧ (s.pods i).state = .local_ ∧
    (s.pods i).heap.inited = true ∧ (s.lists l).lastAllocatedPod ≠ some i := by
  rw [benches]
  cases hl : s.splPushdown i with
  | none => simp [Pager.Of, hl]
  | some l => simp [Pager.Of, hl, and_assoc]

theorem bench_benched_of_ne {c x : Bool} {j : ℕ} (hj : j ≠ i) :
    (s.bench c i x).benched j = s.benched j := by
  rw [bench]
  split
  · exact update_of_ne hj _ _
  · rfl

theorem aside_evicted {g' : Pager} (hs : s.Inv L path b h) (hside : s.Aside)
    (ho : Pager.OnePod i s.toPager h g' h') (he : Pager.Evicted s.toPager g' i) (j : ℕ)
    (hj : (s.bench (s.benches i) i true).benched j = true) : (∃ l, g'.Of l j) ∧ ¬ g'.Filed j := by
  refine hside.onePod ho (fun j hj => bench_benched_of_ne hj) ?_ j hj
  intro hb
  by_cases hbench : s.benches i = true
  · obtain ⟨l, hl, hlocal, -, hne⟩ := benches_iff.mp hbench
    refine ⟨⟨l, hl⟩, ?_⟩
    cases he with
    | idle hc => exact absurd hlocal hc
    | dropped hc => rcases hc with hc | hc <;> simp [hlocal] at hc
    | kept _ hlast =>
      obtain ⟨k, hk, hlast⟩ := hlast
      obtain rfl : k = l := Option.some.inj (hk.symm.trans hl)
      exact absurd hlast hne
    | out _ _ hf => exact hf
  · rw [bench, if_neg hbench] at hb
    obtain ⟨hl, hf⟩ := hside i hb
    refine ⟨hl, ?_⟩
    cases he with
    | idle _ _ hiff => rwa [hiff]
    | dropped _ _ hf' => exact hf'
    | kept _ hlast => exact absurd (hs.pager.filed_of_isLast hlast) hf
    | out _ _ hf' => exact hf'

theorem unbenches_of_away (ha : Pager.Away (s.pods i)) :
    s.unbenches i = (s.pods i).heap.inited := by
  rw [unbenches]
  obtain ⟨h1, h2, h3⟩ := ha
  cases hs : (s.pods i).state <;> simp_all

theorem aside_activated {g' : Pager} (hside : s.Aside)
    (ho : Pager.OnePod i s.toPager h g' h') (ha : Pager.Activated s.toPager g' i) (j : ℕ)
    (hj : (s.bench (s.unbenches i) i false).benched j = true) :
    (∃ l, g'.Of l j) ∧ ¬ g'.Filed j := by
  refine hside.onePod ho (fun j hj => bench_benched_of_ne hj) ?_ j hj
  intro hb
  by_cases hun : s.unbenches i = true
  · rw [bench, if_pos hun] at hb
    simp at hb
  · rw [bench, if_neg hun] at hb
    obtain ⟨hl, hf⟩ := hside i hb
    refine ⟨hl, ?_⟩
    cases ha with
    | idle _ _ hiff => rwa [hiff]
    | mapped _ _ _ hiff => rwa [hiff]
    | back haway _ _ hiff =>
      rw [unbenches_of_away haway] at hun
      rwa [hiff]

/-- A call of the list `l` files no pod that was not filed. -/
theorem Aside.called {g g' : Pager} (ha : s.Aside) (hg : ∀ j, g.Filed j ↔ s.Filed j)
    (hhome : g.splPushdown = s.splPushdown) (hc : Pager.Called b l g h g' h') (j : ℕ)
    (hj : s.benched j = true) : (∃ l, g'.Of l j) ∧ ¬ g'.Filed j := by
  rw [hc.filed, hg]
  simp only [Pager.Of, hc.home, hhome]
  exact ha j hj

theorem Aside.touched {g' : Pager} (hside : s.Aside) (ho : Pager.OnePod i s.toPager h g' h')
    (ht : Touched s.toPager g' i) (j : ℕ) (hj : s.benched j = true) :
    (∃ l, g'.Of l j) ∧ ¬ g'.Filed j := by
  refine hside.onePod ho (fun _ _ => rfl) ?_ j hj
  rw [ht.filed]
  exact hside i

theorem aside_step (hs : s.Inv L path b h) (hside : s.Aside) (hlegal : s.Legal L op)
    (ha : s.After L path b h op s' h') : s'.Aside := by
  intro j hj
  rw [ha.benched] at hj
  have hdid := ha.did
  cases op with
  | allocate l size c => exact hside.called (fun _ => Iff.rfl) rfl hdid j hj
  | addPodAndAllocate l i =>
    obtain ⟨⟨k, hk⟩, hf⟩ := hside j hj
    have hji : j ≠ i := by
      rintro rfl
      exact nomatch hlegal.2.1.symm.trans hk
    refine ⟨⟨k, ?_⟩, ?_⟩
    · rw [Pager.Of, hdid.home, update_of_ne hji]
      exact hk
    · rw [hdid.filed]
      exact fun hc => hc.elim hf hji
  | free i a =>
    obtain ⟨l, -, hcall, -⟩ := hdid
    exact hside.called (g := s.note i a) (Pager.filed_congr rfl rfl) rfl hcall j hj
  | trim l c tryLock => exact hside.called (fun _ => Iff.rfl) rfl hdid j hj
  | pickPodToEvict i isFree localCopy => exact aside_evicted hs hside hdid.1 hdid.2 j hj
  | asyncSwapOutPod i localCopy => exact aside_evicted hs hside hdid.1 hdid.2 j hj
  | activatePod i f => exact aside_activated hside hdid.1 hdid.2 j hj
  | prefetchPod i f =>
    refine hside.onePod hdid.1 (fun _ _ => rfl) ?_ j hj
    intro hb
    obtain ⟨hl, hf⟩ := hside i hb
    refine ⟨hl, ?_⟩
    cases hdid.2 with
    | idle _ _ hiff => rwa [hiff]
    | mapped _ _ _ hiff => rwa [hiff]
    | cached _ _ hf' => exact hf'
  | addPodToBuffer i f =>
    refine hside.onePod hdid.1 (fun _ _ => rfl) ?_ j hj
    intro hb
    obtain ⟨⟨k, hk⟩, -⟩ := hside i hb
    exact nomatch hdid.2.2.symm.trans hk
  | trimFreePage i => exact hside.touched hdid.1 hdid.2 j hj
  | store i a v => exact hside.touched hdid.1 hdid.2 j hj

theorem sized_true : Sized L True op := by
  cases op <;> simp [Sized]

/-- What every run of these calls keeps. -/
theorem Run.calls {ok : Session → Op → Prop} (hinj : Injective path)
    (hok : ∀ s op, ok s op → s.Calls op ∧ Sized L b op) (hs : Run L path ok s) :
    (∃ h, s.Inv L path b h) ∧ s.Made ∧ s.Aside := by
  induction hs with
  | start =>
    refine ⟨⟨fun i => .fresh (L i), inv_new (fun _ => rfl)⟩, ?_, ?_⟩
    · exact fun i l hl => nomatch hl
    · exact fun i hi => nomatch hi
  | step _ hlegal hstep run ih =>
    obtain ⟨⟨h, hi⟩, hmade, haside⟩ := ih
    obtain ⟨hcalls, hsized⟩ := hok _ _ hstep
    obtain ⟨h', ha⟩ := (hi.step hinj hlegal hsized (hcalls.orderly hmade)).result run
    exact ⟨⟨h', ha.inv⟩, made_step hmade ha hcalls, aside_step hi haside hlegal ha⟩

theorem Fails.ne_exit {e : Fault} (he : s.Fails b e op) : e ≠ .exit (-1) := by
  rintro rfl
  cases op <;> simp [Fails, Stuck] at he

/-- Every list stays in order: a pod of the list that is in memory and not benched is in one
bucket, that of its rank; no bucket is empty; a benched pod is in none; the rank of a pod in a
bucket is what its heap can serve, except for the last pod; and the branches that report or
exit are not taken. -/
theorem lists_in_order {swapDir : String} (hs : Run L (swapFile swapDir) Calls s) :
    (∀ i l, s.Of l i → (s.pods i).state = .local_ → s.benched i = false →
      ∀ l' k, (s.lists l').rankMap.Holds k i ↔ l' = l ∧ k = (s.pods i).rank) ∧
    (∀ l k listOfPods, (s.lists l).rankMap.get k = some listOfPods →
      listOfPods ≠ [] ∧ listOfPods.Nodup) ∧
    (∀ i, s.benched i = true → ∀ l k, ¬ (s.lists l).rankMap.Holds k i) ∧
    (∀ l k i, (s.lists l).rankMap.Holds k i → (s.lists l).lastAllocatedPod ≠ some i →
      ∃ p, (s.pods i).maxAllocatableSize (L i) = .ok ((s.pods i).rank, p)) ∧
    (∀ l, (s.lists l).reports = []) ∧
    ∀ op, s.Legal L op → s.Calls op → s.step L (swapFile swapDir) op ≠ .error (.exit (-1)) := by
  have hinj := swapFile_injective swapDir
  obtain ⟨⟨h, hi⟩, hmade, haside⟩ := hs.calls hinj (fun _ _ hc => ⟨hc, sized_true⟩)
  have hg := hi.pager
  refine ⟨?_, fun l => (hg.lists l).tidy, ?_, ?_, fun l => (hg.lists l).silent, ?_⟩
  · intro i l hl hst _ l' k
    have hf : s.Filed i := ⟨l, hl, (hg.lists l).listed i hl hst (hmade i l hl (by simp [hst]))⟩
    constructor
    · intro hk
      obtain ⟨hl', hrank⟩ := hg.holds hk
      exact ⟨Option.some.inj (hl'.symm.trans hl), hrank⟩
    · rintro ⟨rfl, hk⟩
      exact (hg.holds_iff hl hf).mpr hk
  · intro i hb l k hk
    exact (haside i hb).2 ⟨l, (hg.holds hk).1, k, hk⟩
  · intro l k i hk hne
    obtain ⟨hres, -, hrank⟩ := (hg.lists l).ranked i ⟨k, hk⟩ hne
    have hm : (s.pods i).Models True (h i) := hres.1
    obtain ⟨m, hmax, -⟩ := hm.maxAllocatableSize
    have hrank' : (s.pods i).rank = (h i).maxSize := hrank
    exact ⟨_, by rw [hrank', hmax]⟩
  · intro op hlegal hcalls herr
    have hy := hi.step hinj hlegal sized_true (hcalls.orderly hmade)
    exact (hy.permitted herr).ne_exit rfl

theorem lists_in_order_sample : Run samplePages (swapFile "swap") Calls sampleServed ∧
    ∀ l k, (sampleServed.lists l).rankMap.Holds k 0 ↔ l = 0 ∧ k = 4016 := by
  have hs := sampleServed_run Calls (fun _ => ⟨trivial, trivial, trivial⟩)
  refine ⟨hs, ?_⟩
  have hrank : (sampleServed.pods 0).rank = 4016 := by decide
  rw [← hrank]
  have hl : sampleServed.splPushdown 0 = some 0 := by decide
  exact (lists_in_order hs).1 0 0 hl (by decide) (by decide)

/-! ## Forced swaps -/

/-- If no page is swapped out while it is the last pod of its list, then no pod on disk or at a
node is in a bucket or last, no pod is in two buckets, and a request never touches a page that
is not in memory: it returns, or it finds the allocator of a page locked for good. -/
theorem swapped_pods_invisible {swapDir : String} (hs : Run L (swapFile swapDir) Orderly s) :
    (∀ i, (s.pods i).state = .disk ∨ (s.pods i).state = .remote → ∀ l,
      (∀ k, ¬ (s.lists l).rankMap.Holds k i) ∧ (s.lists l).lastAllocatedPod ≠ some i) ∧
    (∀ i l l' k k', (s.lists l).rankMap.Holds k i → (s.lists l').rankMap.Holds k' i →
      l = l' ∧ k = k') ∧
    (∀ i l k, (s.lists l).rankMap.Holds k i → (s.lists l).lastAllocatedPod ≠ some i →
      (s.pods i).state = .local_ ∧ (s.pods i).prot = .readWrite) ∧
    ∀ l size c, s.Legal L (.allocate l size c) → ∀ e,
      s.step L (swapFile swapDir) (.allocate l size c) = .error e → e = .deadlock := by
  have hinj := swapFile_injective swapDir
  obtain ⟨h, hi⟩ := hs.inv (b := True) hinj (fun _ _ hok => ⟨hok, sized_true⟩)
  have hg := hi.pager
  refine ⟨?_, ?_, ?_, ?_⟩
  · intro i hst l
    have hnf : ∀ k, ¬ (s.lists l).rankMap.Holds k i := by
      intro k hk
      rcases hg.filed_resident ⟨l, (hg.holds hk).1, k, hk⟩ with hr | hr
      · rcases hst with hst | hst <;> simp [hst] at hr
      · rcases hst with hst | hst <;> simp [hst] at hr
    refine ⟨hnf, ?_⟩
    intro hlast
    obtain ⟨k, hk⟩ := ((hg.lists l).last i hlast).1
    exact hnf k hk
  · intro i l l' k k' hk hk'
    obtain ⟨hl, rfl⟩ := hg.holds hk
    obtain ⟨hl', rfl⟩ := hg.holds hk'
    exact ⟨Option.some.inj (hl.symm.trans hl'), rfl⟩
  · intro i l k hk hne
    exact ((hg.lists l).ranked i ⟨k, hk⟩ hne).1.2
  · intro l size c hlegal e herr
    exact ((hi.step hinj hlegal (fun _ _ => trivial) trivial).permitted herr).1

def sampleForced : Session :=
  sampleServed.next samplePages (swapFile "swap") (.asyncSwapOutPod 0 [])

theorem swapped_pods_invisible_sample : Run samplePages (swapFile "swap") Orderly sampleServed ∧
    ∀ e, sampleServed.step samplePages (swapFile "swap") (.allocate 0 64 sampleChoice) = .error e →
      e = .deadlock := by
  have hs := sampleServed_run Orderly (fun _ => ⟨trivial, trivial, trivial⟩)
  exact ⟨hs, (swapped_pods_invisible hs).2.2.2 0 64 sampleChoice
    ⟨⟨by decide, by decide⟩, by decide⟩⟩

/-- The page is on disk and still the last pod of its list, and the next request touches it. -/
theorem forced_swap_visible : Run samplePages (swapFile "swap") (fun _ _ => True) sampleForced ∧
    (sampleForced.pods 0).state = .disk ∧ (sampleForced.lists 0).rankMap.Holds 4016 0 ∧
    (sampleForced.lists 0).lastAllocatedPod = some 0 ∧
    sampleForced.Legal samplePages (.allocate 0 64 sampleChoice) ∧
    ∃ e, sampleForced.step samplePages (swapFile "swap") (.allocate 0 64 sampleChoice) = .error e ∧
      e ≠ .deadlock := by
  have hs := sampleServed_run (fun _ _ => True) (fun _ => ⟨trivial, trivial, trivial⟩)
  have hf : Run samplePages (swapFile "swap") (fun _ _ => True) sampleForced :=
    hs.next (o := .asyncSwapOutPod 0 []) (fun _ _ _ hx => absurd hx List.not_mem_nil) trivial
      (by decide)
  refine ⟨hf, by decide, ⟨[0], by decide, by decide⟩, by decide,
    ⟨⟨by decide, by decide⟩, by decide⟩, ?_⟩
  have herr : sampleForced.fault samplePages (swapFile "swap") (.allocate 0 64 sampleChoice) =
      some .undefined := by decide
  exact ⟨.undefined, fault_eq_some.mp herr, by simp⟩

end Session

end Remon
