import Remon.Vmm.Contents

/-! # The bytes of pages that move

An eviction flushes and saves the page, a prefetcher fetches a copy, and the lists clear empty
pages. A byte of a block that is held, and a byte of a page without a list that is not marked as
free, reads after all of these as it did before.
-/

namespace Remon
open Function Lib Heap Fault

variable {L : ℕ → Layout} {path : ℕ → String}

theorem Pod.updateRank_frame {L : Layout} {p q : Pod} {x : Bool} (hin : p.heap.inited = true)
    (hrun : p.updateRank L = .ok (x, q)) : ∃ r, q = { p with rank := r, oldRank := r } := by
  obtain ⟨⟨rank, r⟩, hr, hrun⟩ := of_bind_ok hrun
  cases hrun
  obtain ⟨⟨size, t⟩, ht, hr⟩ := of_bind_ok hr
  cases hr
  obtain ⟨u, hu, ht⟩ := of_bind_ok ht
  rw [Heap.heapInit, if_pos hin] at hu
  cases hu
  split at ht
  · cases ht
    exact ⟨_, rfl⟩
  · obtain ⟨k, -, ht⟩ := of_bind_ok ht
    cases ht
    exact ⟨_, rfl⟩

namespace World

variable {L : Layout} {path : String} {h : AbsHeap L} {w w' : World}

theorem Models.content_step (hw : w.Models L path False h) (hs : w.pod.state ≠ .init)
    (hstep : ∀ v, Step L path (w.owned h) { w with written := v } { w' with written := v }) :
    ∀ a ∈ w.owned h, w'.content L path a = w.content L path a := by
  intro a ha
  obtain ⟨m, hi⟩ := hw.inv hs
  obtain ⟨m', hi'⟩ := hi.step (hstep _)
  have hbefore : w.content L path a = m a := hi.content_eq ha
  have hafter : w'.content L path a = m a := hi'.content_eq ha
  rw [hafter, hbefore]

end World

namespace Pager

variable {g g' g₁ : Pager} {h : ∀ i, AbsHeap (L i)} {i j a : ℕ}

/-- Nothing but the page of pod `i` is touched. -/
structure Only (path : ℕ → String) (i : ℕ) (g g' : Pager) : Prop where
  pods : ∀ j, j ≠ i → g'.pods j = g.pods j
  files : ∀ j, j ≠ i → g'.files (path j) = g.files (path j)
  nodes : ∀ j, j ≠ i → g'.nodes j = g.nodes j

namespace Only

theorem refl (g : Pager) : Only path i g g := ⟨fun _ _ => rfl, fun _ _ => rfl, fun _ _ => rfl⟩

theorem trans {g'' : Pager} (h₁ : Only path i g g') (h₂ : Only path i g' g'') :
    Only path i g g'' where
  pods j hj := (h₂.pods j hj).trans (h₁.pods j hj)
  files j hj := (h₂.files j hj).trans (h₁.files j hj)
  nodes j hj := (h₂.nodes j hj).trans (h₁.nodes j hj)

theorem setPod (p : Pod) : Only path i g (g.setPod i p) :=
  ⟨fun _ hj => update_of_ne hj _ _, fun _ _ => rfl, fun _ _ => rfl⟩

theorem of_swaps {q : Pod} (hs : Swaps path i q g g') : Only path i g g' := by
  refine ⟨?_, hs.files, hs.nodes⟩
  intro j hj
  rw [hs.pods, update_of_ne hj]

theorem byteAt (ho : Only path i g g') (hj : j ≠ i) :
    g'.byteAt L path j a = g.byteAt L path j a :=
  byteAt_congr (ho.pods j hj) (ho.files j hj) (ho.nodes j hj)

end Only

variable (L path) in
def Has (g : Pager) (i a : ℕ) : Prop :=
  ∃ hp : AbsHeap (L i), (g.world i).Models (L i) (path i) False hp ∧ a ∈ (g.world i).owned hp

theorem Inv.has (hg : Inv L path False g h) (ha : g.Guarded h i a) : g.Has L path i a := by
  refine ⟨h i, hg.pages i, ?_⟩
  rcases ha with ⟨q, n, hq, h12⟩ | ⟨hn, hin⟩
  · exact .inl ⟨q, n, hq.1, hq.2, h12⟩
  · exact .inr ⟨(hg.unlisted i hn).1, hin⟩

/-- A transition of the page keeps the byte. -/
theorem Has.move (hh : g.Has L path i a) (hs : (g.pods i).state ≠ .init)
    (hstep : ∀ live v, World.Step (L i) (path i) live { g.world i with written := v }
      { g'.world i with written := v }) :
    g'.byteAt L path i a = g.byteAt L path i a := by
  obtain ⟨hp, hw, ha⟩ := hh
  exact hw.content_step hs (hstep _) a ha

theorem pods_setPod_self (p : Pod) : (g.setPod i p).pods i = p := update_self _ _ _

theorem world_setPod_self (p : Pod) :
    (g.setPod i p).world i = ⟨p, g.files, g.nodes i, fun _ => 0⟩ := by
  rw [world, pods_setPod_self]
  rfl

/-! ## Pages in memory -/

theorem has_small (hs : (g.pods i).state = .local_) (hin : (g.pods i).heap.inited = true) :
    g.Has L path i a ↔ (g.pods i).Guards False (L i) {a} ∧ (g.pods i).prot = .readWrite ∧
      g.files (path i) = none ∧ (g.pods i).landlordClient = none ∧ ∀ c, g.nodes i c = none := by
  have hres : ∀ hp, (g.world i).Models (L i) (path i) False hp ↔ _ :=
    fun hp => World.models_resident (w := g.world i) (.inl hs)
  constructor
  · rintro ⟨hp, hw, ha⟩
    obtain ⟨hm, hrest⟩ := (hres hp).mp hw
    refine ⟨⟨hp, hm, ?_⟩, hrest⟩
    rintro x rfl
    rcases ha with ha | ⟨hc, -⟩
    · exact ha
    · exact absurd (hin.symm.trans hc) (by simp)
  · rintro ⟨⟨hp, hm, ha⟩, hrest⟩
    exact ⟨hp, (hres hp).mpr ⟨hm, hrest⟩, .inl (ha a rfl)⟩

/-- The list gives the page up; its bytes stay where they are. -/
theorem benchSwappedPage_frame {removed : Bool} (hin : (g.pods i).heap.inited = true)
    (hrun : g.benchSwappedPage L i = .ok (removed, g')) :
    g'.files = g.files ∧ g'.nodes = g.nodes ∧ (∀ j, j ≠ i → g'.pods j = g.pods j) ∧
      ∃ r r', g'.pods i = { g.pods i with rank := r, oldRank := r' } := by
  rw [Pager.benchSwappedPage] at hrun
  split at hrun
  · cases hrun
  obtain ⟨⟨x, s⟩, hs, hrun⟩ := of_bind_ok hrun
  cases hrun
  refine ⟨rfl, rfl, ?_⟩
  change (∀ j, j ≠ i → s.pods j = g.pods j) ∧ ∃ r r', s.pods i = _
  rw [SplState.benchSwappedPage, SplState.removePod] at hs
  split at hs
  · cases hs
    exact ⟨fun _ _ => rfl, _, _, rfl⟩
  · obtain ⟨⟨y, t⟩, ht, hs⟩ := of_bind_ok hs
    rw [SplState.updateRank] at ht
    split at ht
    · cases ht
    obtain ⟨⟨z, q⟩, hq, ht⟩ := of_bind_ok ht
    cases ht
    have hq' : (g.pods i).updateRank (L i) = .ok (y, q) := hq
    obtain ⟨r, rfl⟩ := Pod.updateRank_frame hin hq'
    have hpods : s.pods = update g.pods i { g.pods i with rank := r, oldRank := r } := by
      dsimp only at hs
      split at hs
      · cases hs
      · cases hs
        rfl
    rw [hpods]
    exact ⟨fun j hj => update_of_ne hj _ _, r, r, update_self _ _ _⟩

theorem Has.benchSwappedPage {removed : Bool} (hh : g.Has L path i a)
    (hs : (g.pods i).state = .local_) (hin : (g.pods i).heap.inited = true)
    (hrun : g.benchSwappedPage L i = .ok (removed, g')) :
    g'.Has L path i a ∧ (g'.pods i).state = .local_ ∧ (g'.pods i).heap.inited = true ∧
      (g'.pods i).mem = (g.pods i).mem := by
  obtain ⟨hf, hn, -, r, r', hp⟩ := benchSwappedPage_frame hin hrun
  have hs' : (g'.pods i).state = .local_ := by rw [hp, hs]
  have hin' : (g'.pods i).heap.inited = true := by rw [hp, hin]
  obtain ⟨⟨x, hm, ha⟩, hrest⟩ := (has_small hs hin).mp hh
  refine ⟨(has_small hs' hin').mpr ?_, hs', hin', by rw [hp]⟩
  rw [hf, hn, hp]
  exact ⟨⟨x, hm.congr rfl rfl rfl, ha⟩, hrest⟩

theorem flushFreeBuffer_frame (hrun : g.flushFreeBuffer L i = .ok g') :
    g'.files = g.files ∧ g'.nodes = g.nodes ∧ (∀ j, j ≠ i → g'.pods j = g.pods j) ∧
      (g.pods i).flushFreeBuffer (L i) = .ok (g'.pods i) := by
  rw [Pager.flushFreeBuffer] at hrun
  obtain ⟨s, hs, hrun⟩ := of_bind_ok hrun
  cases hrun
  rw [SplState.flushFreeBuffer] at hs
  split at hs
  · cases hs
  obtain ⟨q, hq, hs⟩ := of_bind_ok hs
  cases hs
  refine ⟨rfl, rfl, fun j hj => update_of_ne hj _ _, ?_⟩
  exact hq.trans (congrArg Except.ok (update_self i q g.pods).symm)

theorem Has.flushFreeBuffer (hh : g.Has L path i a) (hs : (g.pods i).state = .local_)
    (hin : (g.pods i).heap.inited = true) (hrun : g.flushFreeBuffer L i = .ok g') :
    g'.Has L path i a ∧ (g'.pods i).state = .local_ ∧ (g'.pods i).heap.inited = true ∧
      (g'.pods i).mem a = (g.pods i).mem a := by
  obtain ⟨hf, hn, -, hq⟩ := flushFreeBuffer_frame hrun
  obtain ⟨hg, hrest⟩ := (has_small hs hin).mp hh
  obtain ⟨hg', hmem⟩ := Pod.spares_flushFreeBuffer hq hg
  obtain ⟨x, hm, ha⟩ := hg'
  obtain ⟨t, l, hframe⟩ := (Pod.flushFreeBuffer_frame (L i) (g.pods i)).result hq
  have hs' : (g'.pods i).state = .local_ := by rw [hframe, hs]
  -- a page with a block in use has its allocator
  have hin' : (g'.pods i).heap.inited = true := by
    rcases hm.page with hc | ⟨-, rfl⟩
    · exact hc.1
    · obtain ⟨q, n, hq, -⟩ := ha a rfl
      exact absurd hq (AbsHeap.not_alloc_fresh q n)
  refine ⟨(has_small hs' hin').mpr ⟨⟨x, hm, ha⟩, ?_⟩, hs', hin', hmem a rfl⟩
  rw [hf, hn, hframe]
  exact hrest

theorem Has.not_isEmpty (hh : g.Has L path i a) (hs : (g.pods i).state = .local_)
    (hin : (g.pods i).heap.inited = true) : (g.pods i).isEmpty (L i) = false := by
  obtain ⟨⟨x, hm, ha⟩, -⟩ := (has_small hs hin).mp hh
  rw [← Bool.not_eq_true]
  intro he
  obtain ⟨q, n, hq, -⟩ := ha a rfl
  rw [(hm.of_isEmpty he).1] at hq
  exact AbsHeap.not_alloc_fresh q n hq

/-! ## Saving a page -/

/-- With nodes that keep to the protocol the page is saved at one of them or stays. -/
theorem remoteSwap_cases {localCopy : List (ℕ × SaveScript)} {r : Bool × Pager}
    (hd : ∀ x ∈ localCopy, (g.pods i).SaveDialogue (L i) x.2)
    (hrun : remoteSwap L i localCopy g = .ok r) :
    r = (false, g) ∨ ∃ client c q sent,
      (g.pods i).bundleSavePodToRemote (L i) client c = .ok (true, q, sent) ∧
      (g.pods i).Acknowledged (L i) c sent ∧ r = (true, { g.setPod i q with
        nodes := update g.nodes i
          (storeEntry (g.nodes i) client ((g.pods i).mem.bytes (L i).payloadStart sent)) }) := by
  induction localCopy with
  | nil =>
    cases hrun
    exact .inl rfl
  | cons x localCopy ih =>
    obtain ⟨client, c⟩ := x
    obtain ⟨hx, hd⟩ := List.forall_mem_cons.mp hd
    obtain ⟨⟨ok, p, sent⟩, hb, hrun⟩ := of_bind_ok hrun
    have hb' := hb
    rw [Pod.bundleSavePodToRemote] at hb'
    rcases hx.cases with hr | hr | ⟨q, hr, hack⟩
    · rw [hr] at hb'
      cases hb'
      have hself : g.setPod i (g.pods i) = g := by
        rw [setPod, update_eq_self]
      dsimp only at hrun
      rw [hself] at hrun
      exact ih hd hrun
    · rw [hr] at hb'
      cases hb'
    · rw [hr] at hb'
      cases hb'
      cases hrun
      exact .inr ⟨client, c, _, _, hb, hack, rfl⟩

theorem Has.evictPod {localCopy : List (ℕ × SaveScript)} (hh : g.Has L path i a)
    (hs : (g.pods i).state = .local_)
    (hd : ∀ x ∈ localCopy, (g.pods i).SaveDialogue (L i) x.2)
    (hrun : g.evictPod L path i localCopy = .ok g') :
    g'.byteAt L path i a = g.byteAt L path i a := by
  have hne : (g.pods i).state ≠ .init := by simp [hs]
  rw [Pager.evictPod, if_neg (not_not.mpr hs)] at hrun
  obtain ⟨⟨swapped, g₁⟩, hswap, hrun⟩ := of_bind_ok hrun
  rcases remoteSwap_cases hd hswap with hr | ⟨client, c, q, sent, hb, hack, hr⟩
  · cases hr
    cases hrun
    refine hh.move hne fun live v => ?_
    have hstep : World.Step (L i) (path i) live { g.world i with written := v } _ :=
      .localToDisk hs
    have hw : ({ (g.swapToDisk L path i).world i with written := v } : World) = _ :=
      congrArg (fun p => (⟨p, _, g.nodes i, v⟩ : World)) (update_self i _ g.pods)
    exact hw ▸ hstep
  · cases hr
    cases hrun
    refine hh.move hne fun live v => ?_
    have hstep : World.Step (L i) (path i) live { g.world i with written := v } _ :=
      .localToRemote hs hb hack
    simp only [world, if_true, setPod, update_self] at hstep ⊢
    exact hstep

theorem evictPod_only (hinj : Injective path) {localCopy : List (ℕ × SaveScript)}
    {hp : AbsHeap (L i)} (hw : (g.world i).Models (L i) (path i) False hp)
    (hs : (g.pods i).state = .local_)
    (hd : ∀ x ∈ localCopy, (g.pods i).SaveDialogue (L i) x.2)
    (hrun : g.evictPod L path i localCopy = .ok g') : Only path i g g' := by
  obtain ⟨q, hq⟩ := (evictPod_ok hinj hw hs hd).result hrun
  exact .of_swaps hq.swaps

/-! ## Evictions -/

/-- What comes before the page is saved: either the byte is still in use in memory, or the page
went nowhere. A page without an allocator that is marked as free is given up. -/
theorem Inv.beforeEvict_bytes {isFree swap : Bool} (hg : Inv L path False g h)
    (hrun : g.beforeEvict L i isFree = .ok (swap, g')) :
    Only path i g g' ∧ ∀ a, g.Guarded h i a → (g.splPushdown i = none → isFree = false) →
      g'.byteAt L path i a = g.byteAt L path i a ∧
        (swap = true → g'.Has L path i a ∧ (g'.pods i).state = .local_) := by
  cases hs : (g.pods i).state with
  | local_ =>
    simp only [Pager.beforeEvict, hs] at hrun
    split at hrun
    · next hin =>
      have hin : (g.pods i).heap.inited = true := hin
      obtain ⟨⟨removed, g₁⟩, hbench, hrun⟩ := of_bind_ok hrun
      obtain ⟨g₂, hflush, hrun⟩ := of_bind_ok hrun
      obtain ⟨hf₁, hn₁, hp₁, -⟩ := benchSwappedPage_frame hin hbench
      obtain ⟨hf₂, hn₂, hp₂, -⟩ := flushFreeBuffer_frame hflush
      have honly : Only path i g g₂ :=
        ⟨fun j hj => (hp₂ j hj).trans (hp₁ j hj), fun j _ => by rw [hf₂, hf₁],
          fun j _ => by rw [hn₂, hn₁]⟩
      have hkeep : ∀ a, g.Guarded h i a → g₂.Has L path i a ∧ (g₂.pods i).state = .local_ ∧
          (g₂.pods i).heap.inited = true ∧ g₂.byteAt L path i a = g.byteAt L path i a := by
        intro a ha
        obtain ⟨hh₁, hs₁, hin₁, hm₁⟩ := (hg.has ha).benchSwappedPage hs hin hbench
        obtain ⟨hh₂, hs₂, hin₂, hm₂⟩ := hh₁.flushFreeBuffer hs₁ hin₁ hflush
        refine ⟨hh₂, hs₂, hin₂, ?_⟩
        rw [byteAt_resident (.inr (.inl hs₂)), byteAt_resident (.inr (.inl hs)), hm₂, hm₁]
      split at hrun
      · next he =>
        cases hrun
        refine ⟨honly.trans (.setPod _), fun a ha _ => ?_⟩
        obtain ⟨hh, hs₂, hin₂, -⟩ := hkeep a ha
        exact absurd (he.symm.trans (hh.not_isEmpty hs₂ hin₂)) (by simp)
      · cases hrun
        refine ⟨honly, fun a ha _ => ?_⟩
        obtain ⟨hh, hs₂, -, hb⟩ := hkeep a ha
        exact ⟨hb, fun _ => ⟨hh, hs₂⟩⟩
    · next hin =>
      split at hrun
      · next hfree =>
        cases hrun
        refine ⟨.setPod _, fun a ha hmark => ?_⟩
        -- without an allocator the page has no list, and then it is not marked
        rcases ha with ⟨q, n, hq, -⟩ | ⟨hn, -⟩
        · exact absurd (hg.of_live ((h i).isLive_iff.mpr ⟨n, hq.1⟩)).1 hin
        · exact absurd (hfree.symm.trans (hmark hn)) (by simp)
      · cases hrun
        exact ⟨.refl g, fun a ha _ => ⟨rfl, fun _ => ⟨hg.has ha, hs⟩⟩⟩
  | diskCache =>
    simp only [Pager.beforeEvict, hs] at hrun
    cases hrun
    refine ⟨.setPod _, fun a ha _ => ⟨?_, fun hc => absurd hc (by simp)⟩⟩
    refine (hg.has ha).move (by simp [hs]) fun live v => ?_
    rw [world_setPod_self]
    exact World.Step.diskCacheToDisk (w := { g.world i with written := v }) hs
  | remoteCache =>
    simp only [Pager.beforeEvict, hs] at hrun
    cases hrun
    refine ⟨.setPod _, fun a ha _ => ⟨?_, fun hc => absurd hc (by simp)⟩⟩
    refine (hg.has ha).move (by simp [hs]) fun live v => ?_
    rw [world_setPod_self]
    exact World.Step.remoteCacheToRemote (w := { g.world i with written := v }) hs
  | _ =>
    simp only [Pager.beforeEvict, hs] at hrun
    cases hrun
    exact ⟨.refl g, fun a _ _ => ⟨rfl, fun hc => absurd hc (by simp)⟩⟩

theorem Inv.pickPodToEvict_bytes (hinj : Injective path) (hg : Inv L path False g h)
    {isFree : Bool} {localCopy : List (ℕ × SaveScript)}
    (horder : (g.pods i).state = .local_ → (g.pods i).heap.inited = false → ¬ g.IsLast i)
    (hd : Dialogues L i localCopy (g.beforeEvict L i isFree))
    (hrun : g.pickPodToEvict L path i isFree localCopy = .ok g') (ha : g.Guarded h j a)
    (hmark : j = i → g.splPushdown i = none → isFree = false) :
    g'.byteAt L path j a = g.byteAt L path j a := by
  obtain ⟨⟨swap, g₁⟩, hx, hrun⟩ := of_bind_ok hrun
  obtain ⟨honly, hkeep⟩ := hg.beforeEvict_bytes hx
  cases swap with
  | true =>
    rcases (hg.beforeEvict isFree horder).result hx with ⟨hc, -⟩ | ⟨-, hp, hw, hs, -⟩
    · cases hc
    by_cases hj : j = i
    · subst hj
      obtain ⟨hb, hh⟩ := hkeep a ha (hmark rfl)
      exact ((hh rfl).1.evictPod hs (hd g₁ hx) hrun).trans hb
    · exact (honly.trans (evictPod_only hinj hw hs (hd g₁ hx) hrun)).byteAt hj
  | false =>
    cases hrun
    by_cases hj : j = i
    · subst hj
      exact (hkeep a ha (hmark rfl)).1
    · exact honly.byteAt hj

/-! ## Copies and cleared pages -/

theorem Inv.prefetchPod_bytes {f : Fetch} (hg : Inv L path False g h) (hf : g.Honest i f)
    (hrun : g.prefetchPod L i f = .ok g') (ha : g.Guarded h j a) :
    g'.byteAt L path j a = g.byteAt L path j a := by
  -- only the page of pod `i` is touched, so that it is the page to look at
  have hpage : ∀ p : Pod, g' = g.setPod i p → (j = i → (g.setPod i p).byteAt L path i a =
      g.byteAt L path i a) → g'.byteAt L path j a = g.byteAt L path j a := by
    rintro p rfl hsame
    by_cases hj : j = i
    · rw [hj]
      exact hsame hj
    · exact (Only.setPod p).byteAt hj
  cases hs : (g.pods i).state with
  | disk =>
    simp only [Pager.prefetchPod, hs] at hrun
    obtain ⟨p, hp, hrun⟩ := of_bind_ok hrun
    cases hrun
    refine hpage p rfl fun hj => (hg.has (hj ▸ ha)).move (by simp [hs]) fun live v => ?_
    rw [world_setPod_self]
    exact World.Step.diskToDiskCache (w := { g.world i with written := v }) hs hp
  | remote =>
    simp only [Pager.prefetchPod, hs] at hrun
    obtain ⟨p, hp, hrun⟩ := of_bind_ok hrun
    cases hrun
    obtain ⟨client, hl⟩ := hg.landlord (.inl hs)
    refine hpage p rfl fun hj => (hg.has (hj ▸ ha)).move (by simp [hs]) fun live v => ?_
    rw [world_setPod_self]
    exact World.Step.remoteToRemoteCache (w := { g.world i with written := v }) hs hl
      (hf client hl) hp
  | init =>
    simp only [Pager.prefetchPod, hs] at hrun
    cases hrun
    refine hpage _ rfl fun _ => ?_
    rw [byteAt_resident (.inr (.inl (by rw [pods_setPod_self]; rfl))), byteAt_resident (.inl hs),
      pods_setPod_self]
    rfl
  | _ =>
    simp only [Pager.prefetchPod, hs] at hrun
    cases hrun
    rfl

theorem Called.trim_bytes {l : ℕ} {c : Choice} {tryLock : ℕ → Bool}
    {h' : ∀ i, AbsHeap (L i)} (hc : Called False l g h g' h')
    (hrun : g.trim L l c tryLock = .ok g') (ha : g.Guarded h i a) :
    g'.byteAt L path i a = g.byteAt L path i a := by
  obtain ⟨s, hs, hrun⟩ := of_bind_ok hrun
  cases hrun
  have hsp : SplState.Spares False L (fun i => {x | (g.cell h i).Owns x}) (g.spl l) s :=
    SplState.Spares.trim.result hs
  exact hc.bytes rfl rfl (hsp i) ha

/-! ## Pages for the buffers and for the arenas -/

theorem Inv.addPodToBuffer_only {f : Fetch} (hinj : Injective path)
    (hg : Inv L path False g h) (hn : g.splPushdown i = none)
    (hrun : g.addPodToBuffer L i f = .ok g') : Only path i g g' := by
  have hin := (hg.unlisted i hn).1
  have hfiles : ∀ (p : Pod) (files : Files), files = update g.files (path i) none →
      Only path i g { g.setPod i p with files := files } := by
    rintro p _ rfl
    refine ⟨fun j hj => update_of_ne hj _ _, ?_, fun _ _ => rfl⟩
    exact fun j hj => update_of_ne (hinj.ne hj) _ _
  have hnodes : ∀ p : Pod, Only path i g ((g.eraseNode i).setPod i p) := by
    intro p
    have herase : Only path i g (g.eraseNode i) := by
      unfold eraseNode
      split
      · exact .refl g
      · exact ⟨fun _ _ => rfl, fun _ _ => rfl, fun j hj => update_of_ne hj _ _⟩
    exact herase.trans (.setPod p)
  cases hs : (g.pods i).state with
  | init | local_ =>
    simp only [Pager.addPodToBuffer, hs] at hrun
    cases hrun
    exact .setPod _
  | localPinned =>
    simp only [Pager.addPodToBuffer, hs] at hrun
    cases hrun
    exact .refl g
  | disk =>
    simp only [Pager.addPodToBuffer, hs] at hrun
    cases hrun
    exact hfiles _ _ ((hg.pages i).diskToInit hs hin).1
  | diskCache =>
    simp only [Pager.addPodToBuffer, hs] at hrun
    obtain ⟨⟨files, p⟩, hp, hrun⟩ := of_bind_ok hrun
    cases hrun
    exact hfiles _ _ (((hg.pages i).diskCacheToLocalPinned hs).result hp).1
  | remote | remoteCache =>
    simp only [Pager.addPodToBuffer, hs] at hrun
    obtain ⟨p, -, hrun⟩ := of_bind_ok hrun
    cases hrun
    exact hnodes _

theorem trimFreePage_only (hrun : g.trimFreePage L i = .ok g') : Only path i g g' := by
  rw [Pager.trimFreePage] at hrun
  split at hrun
  · obtain ⟨p, -, hrun⟩ := of_bind_ok hrun
    cases hrun
    exact .setPod _
  · cases hrun
    exact .refl g

theorem store_bytes {x : ℕ} {v : UInt8} (hs : g.Resident i) (hrun : g.store i x v = .ok g') :
    g'.byteAt L path j a = if j = i ∧ a = x then v else g.byteAt L path j a := by
  rw [Pager.store] at hrun
  split at hrun
  · cases hrun
  · cases hrun
    exact byteAt_store hs

end Pager

namespace Session

variable {s s' : Session} {h h' : ∀ i, AbsHeap (L i)} {op : Op} {i a : ℕ}

/-- The part of a step that the pager does. -/
theorem pager_of_step {x : Except Fault Pager} {f : Pager → Session}
    (run : (x >>= fun g => pure (f g)) = .ok s') (hf : ∀ g, (f g).toPager = g) :
    x = .ok s'.toPager := by
  obtain ⟨g, hg, hs'⟩ := of_bind_ok run
  rw [hg, ← Except.ok.inj hs', hf]

def Spared (s : Session) (h : ∀ i, AbsHeap (L i)) (i a : ℕ) : Op → Prop
  | .addPodAndAllocate _ j => i ≠ j
  | .free j x => (s.note j x).Guarded h i a
  | .pickPodToEvict j isFree _ => i = j → s.splPushdown j = none → isFree = false
  | .addPodToBuffer j _ => i ≠ j
  | .trimFreePage j => i ≠ j
  | .store j x _ => ¬ (i = j ∧ a = x)
  -- no command of the manager forces a swap
  | .asyncSwapOutPod _ _ => False
  | _ => True

/-- An operation leaves the guarded bytes as they are, wherever it moves their pages. -/
theorem Inv.byteAt_step (hinj : Injective path) (hs : s.Inv L path False h)
    (hlegal : s.Legal L op) (hb : Sized L False op) (hok : s.Orderly op)
    (ha : s.After L path False h op s' h') (run : s.step L path op = .ok s')
    (hg : s.Guarded h i a) (hsp : s.Spared h i a op) :
    s'.byteAt L path i a = s.byteAt L path i a := by
  have hdid := ha.did
  cases op with
  | allocate l size c => exact hs.bytes_step hinj hlegal hb ha run hg trivial
  | addPodAndAllocate l j => exact hs.bytes_step hinj hlegal hb ha run hg hsp
  | free j x => exact hs.bytes_step hinj hlegal hb ha run hg hsp
  | activatePod j f => exact hs.bytes_step hinj hlegal hb ha run hg trivial
  | trim l c tryLock =>
    exact Pager.Called.trim_bytes hdid (pager_of_step run fun _ => rfl) hg
  | pickPodToEvict j isFree localCopy =>
    exact hs.pager.pickPodToEvict_bytes hinj hok hlegal (pager_of_step run fun _ => rfl) hg hsp
  | asyncSwapOutPod => exact hsp.elim
  | prefetchPod j f =>
    exact hs.pager.prefetchPod_bytes hlegal (pager_of_step run fun _ => rfl) hg
  | addPodToBuffer j f =>
    exact (hs.pager.addPodToBuffer_only hinj hlegal (pager_of_step run fun _ => rfl)).byteAt hsp
  | trimFreePage j =>
    exact (Pager.trimFreePage_only (pager_of_step run fun _ => rfl)).byteAt hsp
  | store j x v =>
    have hres : s.Resident j := .inr (hlegal.elim And.left fun hc => .inl hc.1)
    exact (Pager.store_bytes hres (pager_of_step run fun _ => rfl)).trans (if_neg hsp)

end Session

end Remon
