import Remon.Vmm.BufferFiller

/-! # Pages of the small allocator that can be used again

A page of a list is in a bucket, or it is swapped out and comes back into its bucket with the
first access to one of its blocks. The evictor breaks this with a page that is empty: it takes
the page out of its list, clears it and gives it to nobody.
-/

namespace Remon
open Lib Heap

variable {L : ℕ → Layout} {path : ℕ → String} {b : Prop}

namespace Pager

variable {g g' : Pager} {h h' : ∀ i, AbsHeap (L i)} {live live' : List Grant} {i j l : ℕ}

/-- The page is in a bucket, or it is swapped out with a block that is held or whose free waits. -/
def InReach (g : Pager) (live : List Grant) (i : ℕ) : Prop :=
  g.Filed i ∨ ((g.pods i).state = .disk ∨ (g.pods i).state = .remote) ∧
    ((g.pods i).freeBuffer ≠ [] ∨ ∃ x ∈ live, x.pod = i)

theorem InReach.congr (hr : g.InReach live j) (hp : g'.pods j = g.pods j)
    (hf : g'.Filed j ↔ g.Filed j) (hlive : ∀ x ∈ live, x ∈ live') : g'.InReach live' j := by
  rcases hr with hr | ⟨hs, hr⟩
  · exact .inl (hf.mpr hr)
  · rw [InReach, hp]
    refine .inr ⟨hs, hr.imp id ?_⟩
    rintro ⟨x, hx, hxj⟩
    exact ⟨x, hlive x hx, hxj⟩

/-- The calls of a list leave the pages alone that are swapped out. -/
theorem InReach.evolves (hr : g.InReach live i) (he : (g.cell h i).Evolves b (g'.cell h' i))
    (hf : g.Filed i → g'.Filed i) (hlive : ∀ x ∈ live, x ∈ live') : g'.InReach live' i := by
  rcases hr with hr | ⟨hs, hr⟩
  · exact .inl (hf hr)
  · have hp : g'.pods i = g.pods i := by
      rcases he.ready with heq | ⟨hready, -⟩
      · exact congrArg Cell.pod heq
      · have hst : (g.pods i).state = .local_ ∨ (g.pods i).state = .init :=
          hready.imp (fun hx => hx.2.1) (fun hx => hx.2.1)
        rcases hs with hs | hs <;> simp [hs] at hst
    rw [InReach, hp]
    refine .inr ⟨hs, hr.imp id ?_⟩
    rintro ⟨x, hx, hxi⟩
    exact ⟨x, hlive x hx, hxi⟩

/-- A free that is noted down leaves the page in use. -/
theorem InReach.note {a : ℕ} (hr : g.InReach live j)
    (hlive : ∀ x ∈ live, x.pod ≠ i → x ∈ live') : (g.note i a).InReach live' j := by
  have hf : (g.note i a).Filed j ↔ g.Filed j := filed_congr rfl rfl j
  rcases hr with hr | ⟨hs, hr⟩
  · exact .inl (hf.mpr hr)
  · by_cases hj : j = i
    · subst hj
      rw [InReach, pods_note_self]
      exact .inr ⟨hs, .inl (by simp)⟩
    · rw [InReach, pods_note_of_ne hj]
      refine .inr ⟨hs, hr.imp id ?_⟩
      rintro ⟨x, hx, rfl⟩
      exact ⟨x, hlive x hx hj, rfl⟩

theorem InReach.onePod (hr : ∀ j l, g.Of l j → g.InReach live j) (ho : OnePod i g h g' h')
    (hlive : ∀ x ∈ live, x ∈ live') (hi : ∀ l, g.Of l i → g'.InReach live' i) (hl : g'.Of l j) :
    g'.InReach live' j := by
  rw [Of, ho.home] at hl
  by_cases hj : j = i
  · subst hj
    exact hi l hl
  · exact (hr j l hl).congr (ho.pods_of_ne hj) (ho.filed j hj) hlive

end Pager

namespace Session

variable {s s' : Session} {h h' : ∀ i, AbsHeap (L i)} {op : Op} {i l : ℕ}

def Needed (s : Session) : Op → Prop
  | .pickPodToEvict i _ _ => (s.pods i).state = .local_ → (∃ l, s.Of l i) → ¬ s.IsLast i →
      ∃ x ∈ s.live, x.pod = i
  | .asyncSwapOutPod i _ => (s.pods i).state = .local_ → (∃ l, s.Of l i) → ¬ s.IsLast i →
      ∃ x ∈ s.live, x.pod = i
  | .prefetchPod i _ => s.splPushdown i = none
  | _ => True

theorem inReach_evicted (hs : s.Inv L path b h) (hs' : s'.Inv L path b h')
    (he : Pager.Evicted s.toPager s'.toPager i)
    (hneed : (s.pods i).state = .local_ → (∃ l, s.Of l i) → ¬ s.IsLast i → ∃ x ∈ s.live, x.pod = i)
    (hlive : ∀ x ∈ s.live, x ∈ s'.live) (hl : s.Of l i) (hr : s.InReach s.live i) :
    s'.InReach s'.live i := by
  cases he with
  | idle _ hp hf => exact hr.congr hp hf hlive
  | dropped hc =>
    -- a page with a list is never cached
    exfalso
    rcases hr with hr | ⟨hst, -⟩
    · rcases hs.pager.filed_resident hr with hres | hres <;> rcases hc with hc | hc <;>
        simp [hc] at hres
    · rcases hst with hst | hst <;> rcases hc with hc | hc <;> simp [hst] at hc
  | kept _ _ hf => exact .inl hf
  | out hlocal hnl _ hst =>
    obtain ⟨y, hy, rfl⟩ := hneed hlocal ⟨l, hl⟩ hnl
    have hy' := hlive y hy
    rcases hst with ⟨hst, -⟩ | hinit
    · exact .inr ⟨hst, .inr ⟨y, hy', rfl⟩⟩
    · -- a page that was given back has no allocator, so no block on it is held
      obtain ⟨n, -, ha, -⟩ := hs'.held y hy'
      have hin := (hs'.pager.of_live ((h' y.pod).isLive_iff.mpr ⟨n, ha⟩)).1
      exact nomatch (hs'.pager.inited_of_init hinit).symm.trans hin

theorem inReach_activated (hmade : s.Made) (ha : Pager.Activated s.toPager s'.toPager i)
    (hlive : ∀ x ∈ s.live, x ∈ s'.live) (hl : s.Of l i) (hr : s.InReach s.live i) :
    s'.InReach s'.live i := by
  cases ha with
  | idle _ hp hf => exact hr.congr hp hf hlive
  | mapped hs _ _ hf =>
    refine .inl (hf.mpr (hr.resolve_right ?_))
    rintro ⟨hst, -⟩
    rcases hst with hst | hst <;> simp [hs] at hst
  | back haway _ _ hf => exact .inl (hf.mpr (hmade i l hl haway.1))

theorem inReach_step (hs : s.Inv L path b h) (hmade : s.Made) (hlegal : s.Legal L op)
    (hneed : s.Needed op) (ha : s.After L path b h op s' h')
    (hr : ∀ i l, s.Of l i → s.InReach s.live i) (j k : ℕ) (hk : s'.Of k j) :
    s'.InReach s'.live j := by
  have hdid := ha.did
  have hlive : (∀ i a, op ≠ .free i a) → ∀ x ∈ s.live, x ∈ s'.live := fun hne x hx =>
    (ha.live x hx).resolve_right (hne _ _)
  cases op with
  | allocate l size c | trim l c tryLock =>
    rw [Pager.Of, hdid.home] at hk
    exact (hr j k hk).evolves (hdid.cells j) (hdid.filed j).mpr (hlive (by simp))
  | addPodAndAllocate l i =>
    rw [Pager.Of, hdid.home] at hk
    by_cases hj : j = i
    · exact .inl ((hdid.filed j).mpr (.inr hj))
    · rw [Function.update_of_ne hj] at hk
      exact (hr j k hk).evolves (hdid.cells j hj) (fun hf => (hdid.filed j).mpr (.inl hf))
        (hlive (by simp))
  | free i a =>
    obtain ⟨l, hl, hcall, -⟩ := hdid
    rw [Pager.Of, hcall.home] at hk
    have hnote : (s.note i a).InReach s'.live j := by
      refine (hr j k hk).note ?_
      intro x hx hne
      refine (ha.live x hx).resolve_right ?_
      intro hc
      exact hne (Op.free.inj hc).1.symm
    exact hnote.evolves (hcall.cells j) (hcall.filed j).mpr (fun _ hx => hx)
  | pickPodToEvict i isFree localCopy | asyncSwapOutPod i localCopy =>
    exact Pager.InReach.onePod hr hdid.1 (hlive (by simp)) (fun l hl =>
      inReach_evicted hs ha.inv hdid.2 hneed (hlive (by simp)) hl (hr i l hl)) hk
  | activatePod i f =>
    exact Pager.InReach.onePod hr hdid.1 (hlive (by simp)) (fun l hl =>
      inReach_activated hmade hdid.2 (hlive (by simp)) hl (hr i l hl)) hk
  | prefetchPod i f =>
    refine Pager.InReach.onePod hr hdid.1 (hlive (by simp)) (fun l hl => ?_) hk
    exact absurd (hneed.symm.trans hl) (by simp)
  | addPodToBuffer i f =>
    refine Pager.InReach.onePod hr hdid.1 (hlive (by simp)) (fun l hl => ?_) hk
    exact absurd (hdid.2.2.symm.trans hl) (by simp)
  | trimFreePage i =>
    refine Pager.InReach.onePod hr hdid.1 (hlive (by simp)) (fun l hl => ?_) hk
    exact absurd (hlegal.symm.trans hl) (by simp)
  | store i a v =>
    refine Pager.InReach.onePod hr hdid.1 (hlive (by simp)) (fun l hl => ?_) hk
    refine .inl (hdid.2.filed.mpr ((hr i l hl).resolve_right ?_))
    rintro ⟨hst, -⟩
    have hmem : (s.pods i).state = .local_ ∨ (s.pods i).state = .localPinned :=
      hlegal.elim And.left (fun hc => .inl hc.1)
    rcases hst with hst | hst <;> simp [hst] at hmem

end Session

namespace Manager

variable {c : Setup} {m m' : Manager} {cmd : Cmd} {i : ℕ} {h : ∀ i, AbsHeap (c.L i)}

/-- The filler can lock the pages that it is given, and a page that the evictor takes out of its
list has a block that is held. -/
def Frugal (m : Manager) : Cmd → Prop
  | .addPodToBuffer _ tryLock _ => tryLock = true
  | .pickPodToEvict i _ => (m.pods i).state = .local_ → (∃ l, m.Of l i) → ¬ m.IsLast i →
      ∃ x ∈ m.live, x.pod = i
  | _ => True

theorem Frugal.locks (hf : m.Frugal cmd) : Locks cmd := by
  cases cmd with
  | addPodToBuffer i tryLock f => exact hf
  | _ => trivial

/-- The operation of a command meets the condition of the lists. -/
theorem Frugal.needed {op : Op} (hf : m.Frugal cmd) (hlegal : m.Legal c cmd)
    (hop : m.opOf c cmd = some op) : m.toSession.Needed op := by
  cases cmd with
  | pickPodToEvict i localCopy =>
    obtain ⟨t, -, rfl⟩ := Option.map_eq_some_iff.mp hop
    exact hf
  | prefetchPod i f =>
    cases hop
    exact hlegal.2
  | hugePage p f =>
    simp only [opOf] at hop
    split at hop
    · cases hop
    · split at hop
      · cases hop
        trivial
      · cases hop
  | remonFree addr =>
    simp only [opOf] at hop
    split at hop
    · cases hop
    · cases hop
      trivial
  | addPodToBuffer i tryLock f =>
    simp only [opOf] at hop
    split at hop
    · cases hop
      trivial
    · cases hop
  | addNewRegionCore => cases hop
  | hugeMalloc k size => cases hop
  | hugeReturn p => cases hop
  | allocatePage k => cases hop
  | remonMalloc l size ch => cases hop; trivial
  | getBufferedPod l i => cases hop; trivial
  | activatePod i f => cases hop; trivial
  | trim l ch tryLock => cases hop; trivial
  | trimFreePage k i => cases hop; trivial
  | store i addr v => cases hop; trivial

theorem Run.inReach (hinj : Function.Injective path) (hm : Run c path Frugal m) :
    ∀ i l, m.Of l i → m.InReach m.live i := by
  induction hm with
  | start => exact fun i l hl => nomatch hl
  | @step m m' cmd hm hlegal hok run ih =>
    obtain ⟨h, hinv⟩ := hm.inv (b := True) hinj (fun _ cmd _ => sized_true cmd)
    obtain ⟨h', -, hcase⟩ := hinv.step hinj hlegal (sized_true cmd) run
    cases hop : m.opOf c cmd with
    | none =>
      simp only [hop] at hcase
      rw [hcase.1]
      exact ih
    | some op =>
      simp only [hop] at hcase
      obtain ⟨hleg, -⟩ := hinv.legal_op hlegal (sized_true cmd) hop
      exact Session.inReach_step hinv.session hinv.made hleg (hok.needed hlegal hop) hcase ih

/-- While the filler can lock its pages and the evictor takes no page out of its list that has no
block in use, every page of the small allocator is on its way to a buffer, in one, in a bucket of
its list, or swapped out with a block that is held or whose free waits. A page of a list that was
given back is in its bucket, and a page that is swapped out comes back into its bucket when it is
activated. -/
theorem eviction_loses_no_page {swapDir : String} (hm : Run c (swapFile swapDir) Frugal m) :
    (∀ i ∈ m.small, i ∈ m.fetched ∨ i ∈ m.buffered ∨ m.InReach m.live i) ∧
    (∀ i l, m.Of l i → (m.pods i).state = .init → m.Filed i) ∧
    ∀ i l f, m.Of l i → (m.pods i).state = .disk ∨ (m.pods i).state = .remote → m.Honest i f →
      m.Legal c (.activatePod i f) ∧
      Yields (fun e => Stuck True e ∨ e = .uncaught)
        (m.step c (swapFile swapDir) (.activatePod i f)) (fun m' => m'.Filed i) := by
  have hinj := swapFile_injective swapDir
  obtain ⟨h, hinv⟩ := hm.inv (b := True) hinj (fun _ cmd _ => sized_true cmd)
  have hreach := hm.inReach hinj
  refine ⟨?_, ?_, ?_⟩
  · intro i hi
    cases (hm.mono fun _ _ hok => hok.locks).placed hinj i hi with
    | fetched hf => exact .inl hf
    | buffered hb => exact .inr (.inl hb)
    | listed hl => exact .inr (.inr (hreach i _ hl))
  · intro i l hl hs
    refine (hreach i l hl).resolve_right ?_
    rintro ⟨hst, -⟩
    rcases hst with hst | hst <;> simp [hs] at hst
  · intro i l f hl hs hf
    have haway : Pager.Away (m.pods i) := by
      rcases hs with hs | hs <;> simp [Pager.Away, hs]
    have huse : m.InUse i := by
      rcases hreach i l hl with hfiled | ⟨-, hbusy⟩
      · rcases hinv.session.pager.filed_resident hfiled with hr | hr <;>
          rcases hs with hs | hs <;> simp [hs] at hr
      · exact hbusy.elim (fun hb => .inr (.inl hb)) .inl
    refine ⟨⟨hf, huse⟩, ?_⟩
    have hcalls : m.toSession.Calls (.activatePod i f) := fun _ => haway.1
    have hleg : m.toSession.Legal c.L (.activatePod i f) := hf
    have hstep := hinv.session.step hinj hleg trivial (hcalls.orderly hinv.made)
    refine (hstep.weaken ?_).bind ?_
    · rintro e (he | he | ⟨-, he⟩)
      · exact .inl he
      · exact .inr he
      · rcases hs with hs | hs <;> simp [hs] at he
    · rintro t ⟨h', ha⟩
      have hback := ha.did.2
      cases hback with
      | idle hc => rcases hs with hs | hs <;> simp [hs] at hc
      | mapped hc => exact absurd hc haway.1
      | back _ _ _ hfiled => exact hfiled.mpr (hinv.made i l hl haway.1)

/-! ## Pages with and without blocks -/

def sampleFullPage : Manager :=
  ((sampleFilled.after sampleFill (swapFile "swap")
    (.remonMalloc 0 2000 Session.sampleChoice)).after sampleFill (swapFile "swap")
    (.getBufferedPod 0 0)).after sampleFill (swapFile "swap")
    (.remonMalloc 0 2000 Session.sampleChoice)

/-- A third one went to page 1. -/
def sampleTwoPages : Manager :=
  (((sampleFullPage.after sampleFill (swapFile "swap") (.allocatePage 0)).after
    sampleFill (swapFile "swap") (.addPodToBuffer 1 true Session.sampleFetch)).after
    sampleFill (swapFile "swap") (.remonMalloc 0 2000 Session.sampleChoice)).after
    sampleFill (swapFile "swap") (.getBufferedPod 0 1)

def sampleHeld : Manager :=
  sampleTwoPages.after sampleFill (swapFile "swap") (.pickPodToEvict 0 [])

def sampleLost : Manager :=
  ((sampleTwoPages.after sampleFill (swapFile "swap") (.remonFree 6128)).after
    sampleFill (swapFile "swap") (.remonFree 4112)).after
    sampleFill (swapFile "swap") (.pickPodToEvict 0 [])

/-- Nothing is promised for a page that no node is asked to take. -/
theorem legal_evict : m.Legal c (.pickPodToEvict i []) := by
  intro t _ g _ x hx
  cases hx

def Plain (m : Manager) (cmd : Cmd) : Prop := m.Frugal cmd ∧ Sized sampleFill False cmd

theorem sampleFill_sized {l size : ℕ} {ch : Choice} (h : size + 48 ≤ 4096) :
    Sized sampleFill False (.remonMalloc l size ch) :=
  fun hc => absurd h (Nat.not_le.mpr hc)

theorem sampleFullPage_run : Run sampleFill (swapFile "swap") Plain sampleFullPage := by
  have htaken : Run sampleFill (swapFile "swap") Plain sampleTaken :=
    sampleTaken_run ⟨trivial, trivial⟩ ⟨trivial, trivial⟩
  have h0 := htaken.after (.addPodToBuffer 0 true Session.sampleFetch)
    (by decide : 0 ∈ sampleTaken.fetched) ⟨rfl, trivial⟩ (by decide +kernel)
  have h1 := h0.after (.remonMalloc 0 2000 Session.sampleChoice)
    ⟨by decide, by decide +kernel⟩ ⟨trivial, sampleFill_sized (by decide)⟩ (by decide +kernel)
  have h2 := h1.after (.getBufferedPod 0 0) ⟨by decide +kernel, by decide +kernel⟩
    ⟨trivial, trivial⟩ (by decide +kernel)
  exact h2.after (.remonMalloc 0 2000 Session.sampleChoice) ⟨by decide, by decide +kernel⟩
    ⟨trivial, sampleFill_sized (by decide)⟩ (by decide +kernel)

theorem sampleTwoPages_run : Run sampleFill (swapFile "swap") Plain sampleTwoPages := by
  have h1 := sampleFullPage_run.after (.allocatePage 0) (by decide +kernel : (0 : ℕ) < _)
    ⟨trivial, trivial⟩ (by decide +kernel)
  have hfetched : 1 ∈ (sampleFullPage.after sampleFill (swapFile "swap")
      (.allocatePage 0)).fetched := by decide +kernel
  have h2 := h1.after (.addPodToBuffer 1 true Session.sampleFetch) hfetched ⟨rfl, trivial⟩
    (by decide +kernel)
  have h3 := h2.after (.remonMalloc 0 2000 Session.sampleChoice)
    ⟨by decide, by decide +kernel⟩ ⟨trivial, sampleFill_sized (by decide)⟩ (by decide +kernel)
  exact h3.after (.getBufferedPod 0 1) ⟨by decide +kernel, by decide +kernel⟩
    ⟨trivial, trivial⟩ (by decide +kernel)

theorem sampleHeld_run : Run sampleFill (swapFile "swap") Plain sampleHeld := by
  refine sampleTwoPages_run.after (.pickPodToEvict 0 []) legal_evict ⟨?_, trivial⟩
    (by decide +kernel)
  exact fun _ _ _ => ⟨⟨0, 4112, 2016⟩, by decide +kernel, rfl⟩

theorem eviction_loses_no_page_sample :
    Run sampleFill (swapFile "swap") Frugal sampleHeld ∧ (sampleHeld.pods 0).state = .disk ∧
    0 ∈ sampleHeld.small ∧ sampleHeld.InReach sampleHeld.live 0 := by
  have hheld : Run sampleFill (swapFile "swap") Frugal sampleHeld :=
    sampleHeld_run.mono fun _ _ hok => hok.1
  have hsmall : 0 ∈ sampleHeld.small := by decide +kernel
  refine ⟨hheld, by decide +kernel, hsmall, ?_⟩
  rcases (eviction_loses_no_page hheld).1 0 hsmall with hf | hb | hr
  · exact absurd hf (by decide +kernel)
  · exact absurd hb (by decide +kernel)
  · exact hr

/-- The page that the evictor found empty is allocated in its arena, but it is on no way to a
buffer, in no buffer, in no bucket, and has no block. -/
theorem eviction_loses_page :
    Run sampleFill (swapFile "swap") (fun _ _ => True) sampleLost ∧ 0 ∈ sampleLost.small ∧
    (0, 1) ∈ (sampleLost.arenas 0).live ∧
    (sampleLost.tagOf sampleFill 0).map (fun t => t.isFree) = some false ∧
    sampleLost.fetched = [] ∧ sampleLost.buffered = [] ∧ (sampleLost.pods 0).state = .init ∧
    ¬ sampleLost.InReach sampleLost.live 0 := by
  have hrun : Run sampleFill (swapFile "swap") (fun _ _ => True) sampleLost := by
    have hpages := sampleTwoPages_run.mono fun _ _ _ => trivial
    have hsecond := hpages.after (.remonFree 6128)
      (.inl ⟨⟨0, 6128, 2016⟩, by decide +kernel, rfl⟩) trivial (by decide +kernel)
    have hfirst := hsecond.after (.remonFree 4112)
      (.inl ⟨⟨0, 4112, 2016⟩, by decide +kernel, rfl⟩) trivial (by decide +kernel)
    exact hfirst.after (.pickPodToEvict 0 []) legal_evict trivial (by decide +kernel)
  have hinit : (sampleLost.pods 0).state = .init := by decide +kernel
  refine ⟨hrun, by decide +kernel, by decide +kernel, by decide +kernel, by decide +kernel,
    by decide +kernel, hinit, ?_⟩
  obtain ⟨h, hinv⟩ := hrun.inv (b := True) (swapFile_injective "swap")
    (fun _ cmd _ => sized_true cmd)
  rintro (hfiled | ⟨hst, -⟩)
  · rcases hinv.session.pager.filed_resident hfiled with ⟨hs, -⟩ | ⟨-, l, hl, hlast⟩
    · rw [hinit] at hs
      cases hs
    · have hhome : sampleLost.splPushdown 0 = some 0 := by decide +kernel
      obtain rfl : 0 = l := Option.some.inj (hhome.symm.trans hl)
      have hother : (sampleLost.lists 0).lastAllocatedPod = some 1 := by decide +kernel
      exact nomatch hother.symm.trans hlast
  · rcases hst with hst | hst <;> simp [hinit] at hst

end Manager

end Remon
