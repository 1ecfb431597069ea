import Remon.Heap.Rank
import Remon.Lib.Coalesced
import Remon.Pod.Flush

/-! # When a page is found empty again

`free` joins the freed block with the free blocks to its right only. As long as every block is
freed while the block to its left is in use, the page has no two adjacent free blocks, so its
tiling is determined by the blocks in use: a page without any is one free block.
-/

namespace Remon
open Lib Heap List

namespace Heap

def prevAlloc (m : Mem) (bp : ℕ) : ℕ := getAlloc m (bp - dsize)

variable {L : Layout} {m : Mem} {h h' : AbsHeap L}

theorem Edges.prevAlloc_ne_zero {l₁ l₂ : List Block} (he : Edges L m (l₁ ++ l₂)) :
    prevAlloc m (L.firstBlock + total l₁) ≠ 0 ↔ ∀ x ∈ l₁.getLast?, x.free = false := by
  rcases eq_nil_or_concat' l₁ with rfl | ⟨l, x, rfl⟩
  · have hword : prevAlloc m (L.firstBlock + total []) = 1 := by
      simp [prevAlloc, getAlloc, PageSpan.firstBlock, dsize, he.prologue]
    rw [hword]
    simp
  · have hm : (L.firstBlock + total l, x) ∈ place L.firstBlock (l ++ [x] ++ l₂) := by
      simpa using mem_place_split L.firstBlock l x l₂
    have hfoot : m.get (L.firstBlock + total l + x.size - 16) = tag x := (he.tags _ hm).2
    have haddr : L.firstBlock + total (l ++ [x]) = L.firstBlock + total l + x.size := by
      simp [Nat.add_assoc]
    rw [prevAlloc, getAlloc, haddr, dsize, hfoot, tag_alloc (he.sized.placed hm).2.2.2]
    cases hx : x.free <;> simp [hx]

namespace AbsHeap

theorem coalesced_malloc (hc : Coalesced h.blocks) (a : Request L) :
    Coalesced (h.malloc a).2.blocks := by
  rw [malloc]
  cases hff : h.firstFit a.size with
  | none => exact hc
  | some p =>
    obtain ⟨hp, hle⟩ := firstFit_some hff
    obtain ⟨l₁, b, l₂, he, rfl, hf, -⟩ := h.split_of_mem hp
    have hpos := h.sized.pos
    rw [he] at hc hpos
    dsimp only
    rw [(take_eq hp hle).1, he, carve_split (fun x hx => hpos x (by simp [hx]))]
    exact hc.carved hf

theorem coalesced_free {p : ℕ} (hs : Spells m h) (hc : Coalesced h.blocks)
    (hp : h.isLive p = true) : Coalesced (h.free p).blocks ↔ prevAlloc m p ≠ 0 := by
  have hedges := hs.edges
  have hpos := h.sized.pos
  rw [(free_eq hp).1]
  obtain ⟨l₁, n, l₂, he, rfl, -⟩ := h.split_of_isLive hp
  rw [he] at hc hpos hedges ⊢
  rw [release_split (fun x hx => hpos x (by simp [hx])), coalesced_released hc,
    hedges.prevAlloc_ne_zero]

theorem blocks_eq_of_coalesced (hc : Coalesced h.blocks) (hc' : Coalesced h'.blocks)
    (ha : ∀ p n, h.Alloc p n ↔ h'.Alloc p n) : h.blocks = h'.blocks := by
  have hfill := h.sized.fill
  have hfill' := h'.sized.fill
  exact hc.unique hc' h.sized.pos h'.sized.pos (by omega) (fun p n => (ha p n).mp)
    (fun p n => (ha p n).mpr)

end AbsHeap

/-! ## Runs that free from the right -/

namespace Session

variable {σ σ' : Session}

def RightFirst (σ σ' : Session) : Prop :=
  ∀ bp ∈ σ.live, bp ∉ σ'.live → prevAlloc σ.heap.mem bp ≠ 0

theorem rightFirst_of_subset (hsub : σ.live ⊆ σ'.live) : RightFirst σ σ' := by
  intro bp hbp hnot
  exact absurd (hsub hbp) hnot

/-- From a page without adjacent free blocks a step leads to another one exactly if the block
it frees has a left neighbour in use. -/
theorem coalesced_step (hσ : σ.Holds h) (hc : Coalesced h.blocks) (hs : Step L σ σ') :
    ∃ h' : AbsHeap L, σ'.Holds h' ∧ (Coalesced h'.blocks ↔ RightFirst σ σ') := by
  cases hs with
  | malloc ha hm =>
    obtain ⟨p, s', hm', hh, -⟩ := hσ.malloc ha.request
    obtain ⟨rfl, rfl⟩ := Prod.mk.inj (Except.ok.inj (hm.symm.trans hm'))
    refine ⟨_, hh, iff_of_true (AbsHeap.coalesced_malloc hc _) (rightFirst_of_subset ?_)⟩
    dsimp only
    split
    · exact List.Subset.refl _
    · exact subset_cons_self _ _
  | @free bp s' hbp hf =>
    obtain ⟨s', hf', hh⟩ := hσ.free hbp
    obtain rfl := Except.ok.inj (hf.symm.trans hf')
    refine ⟨_, hh, ?_⟩
    have hlive : h.isLive bp = true := h.isLive_iff.mpr ((hσ.live bp).mp hbp)
    rw [AbsHeap.coalesced_free hσ.rep.spells hc hlive]
    exact (forall_removed_erase (P := fun bp => prevAlloc σ.heap.mem bp ≠ 0) hσ.nodup hbp).symm
  | write v hbp hi hi' =>
    exact ⟨h, hσ.write v hbp hi hi', iff_of_true hc (rightFirst_of_subset (List.Subset.refl _))⟩

variable (L) in
/-- The states of the runs that free every block while the block to its left is in use. -/
inductive RightFirstRun : Session → Prop
  | init {m : Mem} {s : State} (hs : heapInit L ⟨m, false, false⟩ = .ok s) : RightFirstRun ⟨s, []⟩
  | step {σ σ' : Session} (hσ : RightFirstRun σ) (hs : Step L σ σ') (hright : RightFirst σ σ') :
      RightFirstRun σ'

theorem RightFirstRun.coalesced (hσ : RightFirstRun L σ) :
    ∃ h : AbsHeap L, σ.Holds h ∧ Coalesced h.blocks := by
  induction hσ with
  | init hs => exact ⟨AbsHeap.fresh L, holds_init hs, coalesced_singleton _⟩
  | step _ hs hright ih =>
    obtain ⟨h, hh, hc⟩ := ih
    obtain ⟨h', hh', hc'⟩ := coalesced_step hh hc hs
    exact ⟨h', hh', hc'.mpr hright⟩

theorem Holds.blocks_fresh (hσ : σ.Holds h) (hc : Coalesced h.blocks) (hl : σ.live = []) :
    h.blocks = (AbsHeap.fresh L).blocks := by
  refine AbsHeap.blocks_eq_of_coalesced hc (coalesced_singleton _) ?_
  intro p n
  refine iff_of_false (fun ha => ?_) (AbsHeap.not_alloc_fresh p n)
  have hm := (hσ.live p).mpr ⟨n, ha⟩
  simp [hl] at hm

end Session

/-- Each of the frees, made one after the other, finds the block to its left in use. -/
def freesRight (L : Layout) : State → List ℕ → Bool
  | _, [] => true
  | s, bp :: bps => prevAlloc s.mem bp ≠ 0 &&
    match free L s bp with
    | .ok s' => freesRight L s' bps
    | .error _ => true

theorem coalesced_freeAll {s : State} {bps : List ℕ} (hr : Rep s h) (hc : Coalesced h.blocks)
    (hnd : bps.Nodup) (hl : ∀ q ∈ bps, h.isLive q = true) (hright : freesRight L s bps = true) :
    Coalesced (h.freeAll bps).blocks := by
  induction bps generalizing s h with
  | nil => exact hc
  | cons q bps ih =>
    obtain ⟨hq, hnd⟩ := nodup_cons.mp hnd
    obtain ⟨hlq, hl⟩ := forall_mem_cons.mp hl
    obtain ⟨s', hf, hr', -⟩ := free_ok hr hlq
    rw [freesRight, hf, Bool.and_eq_true, decide_eq_true_eq] at hright
    have hl' : ∀ r ∈ bps, (h.free q).isLive r = true := by
      intro r hr
      exact AbsHeap.isLive_free hlq (hl r hr) (fun he => hq (he ▸ hr))
    exact ih hr' ((AbsHeap.coalesced_free hr.spells hc hlq).mpr hright.1) hnd hl' hright.2

end Heap

namespace Pod

variable {L : Layout} {h : AbsHeap L} {p : Pod}

theorem flush_right (hr : Rep p.heap h) (hc : Coalesced h.blocks) (hidle : p.isFlushing = false)
    (hnd : p.freeBuffer.Nodup) (hl : ∀ x ∈ p.freeBuffer, h.isLive x = true)
    (hright : freesRight L p.heap p.freeBuffer = true) :
    ∃ q, p.flushFreeBuffer L = .ok q ∧ Rep q.heap (h.freeAll p.freeBuffer) ∧
      Coalesced (h.freeAll p.freeBuffer).blocks := by
  obtain ⟨s, hs, hr', -⟩ := flushFreeBuffer_ok ⟨hr, hidle, hnd, hl⟩
  exact ⟨_, hs, hr', coalesced_freeAll hr hc hnd hl hright⟩

theorem answers_eq {q q' : Pod} {x x' : AbsHeap L} (hr : Rep q.heap x) (hr' : Rep q'.heap x')
    (hb : x.blocks = x'.blocks) : q.isEmpty L = q'.isEmpty L ∧
      ∃ v, q.maxAllocatableSize L = .ok (v, q) ∧ q'.maxAllocatableSize L = .ok (v, q') := by
  refine ⟨?_, largestFree x.blocks, ?_, ?_⟩
  · rw [Pod.isEmpty, Pod.isEmpty, isForSmallAllocations, isForSmallAllocations, hr.inited,
      hr'.inited, isEmpty_eq hr.spells, isEmpty_eq hr'.spells, AbsHeap.isEmpty, AbsHeap.isEmpty, hb]
  · rw [Pod.maxAllocatableSize, hr.maxAllocatableSize]
    rfl
  · rw [Pod.maxAllocatableSize, hr'.maxAllocatableSize, hb]
    rfl

/-- In every run that frees from the right a page without blocks in use is found empty and its
rank is that of a new page. If the buffered frees of a pod reach the allocator from the right
in two orders, the page is found empty after both or after neither, with the same rank. -/
theorem emptied_page_recognised {σ : Heap.Session} (hσ : Session.RightFirstRun L σ) :
    (σ.live = [] → Heap.isEmpty L σ.heap.mem = true ∧
      ∀ m s₀, Heap.heapInit L ⟨m, false, false⟩ = .ok s₀ → ∃ v,
        Heap.maxAllocatableSize L s₀ = .ok (v, s₀) ∧
        Heap.maxAllocatableSize L σ.heap = .ok (v, σ.heap)) ∧
    ∀ (p : Pod) (bps : List ℕ), p.heap = σ.heap → p.isFlushing = false →
      p.freeBuffer.Nodup → (∀ x ∈ p.freeBuffer, x ∈ σ.live) → bps.Perm p.freeBuffer →
      freesRight L σ.heap p.freeBuffer = true → freesRight L σ.heap bps = true →
      ∃ q q', p.flushFreeBuffer L = .ok q ∧
        ({ p with freeBuffer := bps } : Pod).flushFreeBuffer L = .ok q' ∧
        q.isEmpty L = q'.isEmpty L ∧
        ∃ v, q.maxAllocatableSize L = .ok (v, q) ∧ q'.maxAllocatableSize L = .ok (v, q') := by
  obtain ⟨h, hh, hc⟩ := hσ.coalesced
  constructor
  · intro hl
    have hb := hh.blocks_fresh hc hl
    refine ⟨?_, ?_⟩
    · rw [Heap.isEmpty_eq hh.rep.spells, AbsHeap.isEmpty, hb]
      simp [AbsHeap.fresh]
    · intro m s₀ hinit
      refine ⟨largestFree h.blocks, ?_, hh.rep.maxAllocatableSize⟩
      rw [hb]
      exact (Session.holds_init hinit).rep.maxAllocatableSize
  · intro p bps hheap hidle hnd hlive hperm hright hright'
    have hr : Rep p.heap h := by
      rw [hheap]
      exact hh.rep
    have hl : ∀ x ∈ p.freeBuffer, h.isLive x = true := by
      intro x hx
      exact h.isLive_iff.mpr ((hh.live x).mp (hlive x hx))
    have hl' : ∀ x ∈ bps, h.isLive x = true := by
      intro x hx
      exact hl x (hperm.mem_iff.mp hx)
    rw [← hheap] at hright hright'
    obtain ⟨q, hrun, hq, hcq⟩ := flush_right hr hc hidle hnd hl hright
    obtain ⟨q', hrun', hq', hcq'⟩ := flush_right (p := { p with freeBuffer := bps }) hr hc hidle
      (hperm.nodup_iff.mpr hnd) hl' hright'
    refine ⟨q, q', hrun, hrun', answers_eq hq hq' (AbsHeap.blocks_eq_of_coalesced hcq hcq' ?_)⟩
    intro a n
    rw [AbsHeap.alloc_freeAll hnd hl, AbsHeap.alloc_freeAll (hperm.nodup_iff.mpr hnd) hl',
      hperm.mem_iff]

/-- A page with two blocks of 64 bytes in use, at 4112 and at 4176. -/
def sampleTwo : Heap.State :=
  ((Heap.malloc Session.sampleLayout Session.sampleHeap 64).toOption.getD
    (0, Session.sampleHeap)).2

def sampleFree (s : Heap.State) (bp : ℕ) : Heap.State :=
  (Heap.free Session.sampleLayout s bp).toOption.getD s

theorem sampleFree_run {s : Heap.State} {bp : ℕ}
    (h : (Heap.free Session.sampleLayout s bp).toOption.isSome = true) :
    Heap.free Session.sampleLayout s bp = .ok (sampleFree s bp) := by
  unfold sampleFree
  cases hf : Heap.free Session.sampleLayout s bp with
  | error e =>
    rw [hf] at h
    cases h
  | ok t => rfl

theorem sampleTwo_step : Session.Step Session.sampleLayout ⟨Session.sampleHeap, [4112]⟩
    ⟨sampleTwo, [4176, 4112]⟩ := by
  have hp : (Heap.malloc Session.sampleLayout Session.sampleHeap 64).toOption.map Prod.fst =
      some 4176 := by decide
  obtain ⟨s, hs⟩ := Fault.exists_ok hp
  have hm : Heap.malloc Session.sampleLayout Session.sampleHeap 64 = .ok (4176, sampleTwo) := by
    rw [sampleTwo, hs]
    rfl
  have ha : LegalSize Session.sampleLayout 64 := ⟨by decide, by decide, by decide⟩
  have hstep : Session.Step Session.sampleLayout ⟨Session.sampleHeap, [4112]⟩
      ⟨sampleTwo, if 4176 = 0 then [4112] else [4176, 4112]⟩ := .malloc ha hm
  exact hstep

theorem emptied_page_recognised_sample :
    Session.RightFirstRun Session.sampleLayout ⟨sampleFree (sampleFree sampleTwo 4176) 4112, []⟩ ∧
    Heap.isEmpty Session.sampleLayout (sampleFree (sampleFree sampleTwo 4176) 4112).mem = true := by
  have h1 : Session.RightFirstRun Session.sampleLayout ⟨Session.sampleHeap, [4112]⟩ :=
    .step (.init Session.sampleStart_run) Session.sampleHeap_step
      (Session.rightFirst_of_subset (by simp))
  have h2 : Session.RightFirstRun Session.sampleLayout ⟨sampleTwo, [4176, 4112]⟩ :=
    .step h1 sampleTwo_step (Session.rightFirst_of_subset (by simp))
  have h3 : Session.RightFirstRun Session.sampleLayout ⟨sampleFree sampleTwo 4176, [4112]⟩ := by
    refine .step h2 (.free (by simp) (sampleFree_run (by decide))) ?_
    have hleft : prevAlloc sampleTwo.mem 4176 ≠ 0 := by decide
    intro bp hbp hnot
    simp only [mem_cons, not_mem_nil, or_false] at hbp hnot
    rw [hbp.resolve_right hnot]
    exact hleft
  have h4 : Session.RightFirstRun Session.sampleLayout
      ⟨sampleFree (sampleFree sampleTwo 4176) 4112, []⟩ := by
    refine .step h3 (.free (by simp) (sampleFree_run (by decide))) ?_
    have hleft : prevAlloc (sampleFree sampleTwo 4176).mem 4112 ≠ 0 := by decide
    intro bp hbp _
    rw [mem_singleton.mp hbp]
    exact hleft
  exact ⟨h4, ((emptied_page_recognised h4).1 rfl).1⟩

/-- A pod with this page and these buffered frees. -/
def sampleBuffered (bps : List ℕ) : Pod :=
  ⟨.local_, 0, sampleTwo, .readWrite, "", none, 0, .null, bps, false, 0, 0⟩

/-- Two blocks are freed from the left. No block is in use, but the page is not found empty and
its rank is not that of a new page; a flush of the two frees gives this or the right answer,
depending on their order. -/
theorem left_frees_hide_emptiness :
    Session.Reachable Session.sampleLayout ⟨sampleFree (sampleFree sampleTwo 4112) 4176, []⟩ ∧
    Heap.isEmpty Session.sampleLayout (sampleFree (sampleFree sampleTwo 4112) 4176).mem = false ∧
    (Heap.maxAllocatableSize Session.sampleLayout
      (sampleFree (sampleFree sampleTwo 4112) 4176)).toOption.map Prod.fst = some 4016 ∧
    (Heap.maxAllocatableSize Session.sampleLayout Session.sampleStart).toOption.map Prod.fst =
      some 4080 ∧
    ((sampleBuffered [4112, 4176]).flushFreeBuffer Session.sampleLayout).toOption.map
      (Pod.isEmpty Session.sampleLayout) = some false ∧
    ((sampleBuffered [4176, 4112]).flushFreeBuffer Session.sampleLayout).toOption.map
      (Pod.isEmpty Session.sampleLayout) = some true := by
  have h2 : Session.Reachable Session.sampleLayout ⟨sampleTwo, [4176, 4112]⟩ :=
    .step Session.sample_reachable sampleTwo_step
  have h3 : Session.Reachable Session.sampleLayout ⟨sampleFree sampleTwo 4112, [4176]⟩ :=
    .step h2 (.free (by simp) (sampleFree_run (by decide)))
  have h4 : Session.Reachable Session.sampleLayout
      ⟨sampleFree (sampleFree sampleTwo 4112) 4176, []⟩ :=
    .step h3 (.free (by simp) (sampleFree_run (by decide)))
  exact ⟨h4, by decide, by decide, by decide, by decide,
    by decide⟩

end Pod

end Remon
