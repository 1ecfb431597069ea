import Remon.Vmm.PrefetchWalk

/-! # Pages that are thrown away

The evictor clears a page without saving it when the allocator of the page is empty after its
buffered frees were flushed, or when the page has no allocator and its tag says that it is free.
The lists clear empty pages, and the arenas pages of free blocks. A list that has cleared some
of its pages and not yet the others is a list that could lock fewer pages, so every moment of a
walk is a state of a run.
-/

namespace Remon
open Lib Heap Fault List

namespace Manager

variable {c : Setup} {path : ℕ → String} {b : Prop} {m m' : Manager}
  {h : ∀ i, AbsHeap (c.L i)} {i : ℕ}

/-- Page `i` has no byte of a block that a caller holds, and no free waits in its buffer. -/
structure Unused (m : Manager) (g : Pager) (i : ℕ) : Prop where
  small : ∀ x ∈ m.live, x.pod ≠ i
  huge : ∀ z ∈ m.huge, ¬ Arena.Covers z.block i
  pending : (g.pods i).freeBuffer = []

namespace Inv

variable (hm : m.Inv c path b h)
include hm

theorem not_live_of_fresh (hf : h i = .fresh (c.L i)) : ∀ x ∈ m.live, x.pod ≠ i := by
  rintro x hx rfl
  obtain ⟨n, -, ha, -⟩ := hm.session.held x hx
  rw [Pager.cell, hf] at ha
  exact AbsHeap.not_alloc_fresh _ _ ha

theorem used_of_huge {z : HugeCall} {t : Arena.PageTag} (hz : z ∈ m.huge)
    (hi : Arena.Covers z.block i) (ht : m.tagOf c i = some t) : t.isFree = false := by
  have hmarked := hm.holdings.calls z (mem_append_left _ hz)
  have hlt : i < z.next := by
    rw [hm.holdings.done z hz]
    exact hi.2
  obtain ⟨t', ht', hfree⟩ := hmarked.used i hi.1 hlt
  rwa [Option.some.inj (ht.symm.trans ht')]

theorem not_covers_of_inited (hin : (m.pods i).heap.inited = true) :
    ∀ z ∈ m.huge, ¬ Arena.Covers z.block i := by
  intro z hz hi
  have hn := hm.unlisted_of_huge (mem_append_left _ hz) hi
  rw [(hm.session.pager.unlisted i hn).1] at hin
  cases hin

theorem not_init_of_huge {z : HugeCall} {t : Arena.PageTag} {localCopy : List (ℕ × SaveScript)}
    {g : Pager} (hinj : Function.Injective path) (hz : z ∈ m.huge) (hi : Arena.Covers z.block i)
    (hs : (m.pods i).state = .local_) (ht : m.tagOf c i = some t)
    (hlegal : m.toSession.Legal c.L (.pickPodToEvict i t.isFree localCopy))
    (run : m.toPager.pickPodToEvict c.L path i t.isFree localCopy = .ok g) :
    (g.pods i).state ≠ .init := by
  have hin : (m.pods i).isForSmallAllocations = false := by
    by_contra hc
    exact hm.not_covers_of_inited (by simpa [Pod.isForSmallAllocations] using hc) z hz hi
  -- without an allocator only the tag speaks for the page
  have hbefore : m.toPager.beforeEvict c.L i t.isFree = .ok (true, m.toPager) := by
    simp [Pager.beforeEvict, hs, hin, hm.used_of_huge hz hi ht]
  rw [Pager.pickPodToEvict, hbefore] at run
  obtain ⟨q, hout⟩ := (Pager.evictPod_ok hinj (hm.session.pager.pages i) hs
    (hlegal m.toPager hbefore)).result run
  rw [hout.swaps.pods, Function.update_self]
  rcases hout.state with hq | hq <;> simp [hq]

theorem unused_of_evicted {localCopy : List (ℕ × SaveScript)} (hinj : Function.Injective path)
    (hlegal : m.Legal c (.pickPodToEvict i localCopy))
    (run : m.step c path (.pickPodToEvict i localCopy) = .ok m')
    (hs : (m.pods i).state = .local_) (hs' : (m'.pods i).state = .init) :
    m.Unused m'.toPager i := by
  obtain ⟨h', hinv, -⟩ := hm.step hinj hlegal trivial run
  have hin := hinv.session.pager.inited_of_init hs'
  obtain ⟨hfresh, hnil⟩ := (hinv.session.pager.pages i).of_not_inited hin
  simp only [Manager.step] at run
  split at run
  · cases run
  next t ht =>
  obtain ⟨s, hstep, hm'⟩ := of_bind_ok run
  obtain rfl := Except.ok.inj hm'
  obtain ⟨g, hpick, hs₁⟩ := of_bind_ok hstep
  obtain rfl := Except.ok.inj hs₁
  refine ⟨hinv.not_live_of_fresh hfresh, fun z hz hi => ?_, hnil⟩
  exact hm.not_init_of_huge hinj hz hi hs ht (hlegal t ht) hpick hs'

theorem unused_of_isEmpty (hs : (m.pods i).state = .local_)
    (he : (m.pods i).isEmpty (c.L i) = true) :
    m.Unused m.toPager i ∧ h i = .fresh (c.L i) := by
  obtain ⟨hmodels, -⟩ := (World.models_resident (.inl hs)).mp (hm.session.pager.pages i)
  obtain ⟨hfresh, hnil⟩ := hmodels.of_isEmpty he
  have hin : (m.pods i).heap.inited = true := (Bool.and_eq_true_iff.mp he).1
  exact ⟨⟨hm.not_live_of_fresh hfresh, hm.not_covers_of_inited hin, hnil⟩, hfresh⟩

theorem unused_of_trimmed {k : ℕ} (hlegal : m.Legal c (.trimFreePage k i)) :
    m.Unused m.toPager i := by
  obtain ⟨hn, hnot⟩ := hm.unlisted_of_trimmed hlegal
  have hin := (hm.session.pager.unlisted i hn).1
  obtain ⟨hfresh, hnil⟩ := (hm.session.pager.pages i).of_not_inited hin
  refine ⟨hm.not_live_of_fresh hfresh, fun z hz => ?_, hnil⟩
  exact hnot z.block (Holdings.block_mem (mem_append_left _ hz))

end Inv

/-- In every run, a page that the evictor gives back, a list clears or an arena clears is unused at
that moment. An empty page in memory stands for a heap without an allocated block, and the pages
of huge blocks whose calls have returned are not marked as free. -/
theorem discarded_pages_unused {swapDir : String} {ok : Manager → Cmd → Prop}
    (hm : Run c (swapFile swapDir) ok m) (i : ℕ) :
    (∀ localCopy m', m.Legal c (.pickPodToEvict i localCopy) →
      m.step c (swapFile swapDir) (.pickPodToEvict i localCopy) = .ok m' →
      (m.pods i).state = .local_ → (m'.pods i).state = .init → m.Unused m'.toPager i) ∧
    (∀ l tryLock, (m.spl l).trimmable c.L tryLock i = true → m.Unused m.toPager i) ∧
    (∀ k, m.Legal c (.trimFreePage k i) → m.Unused m.toPager i) ∧
    (∃ h, m.Inv c (swapFile swapDir) True h ∧ ((m.pods i).state = .local_ →
      (m.pods i).isEmpty (c.L i) = true → ∀ q n, ¬ (h i).Alloc q n)) ∧
    ∀ z ∈ m.huge, Arena.Covers z.block i → ∀ t, m.tagOf c i = some t → t.isFree = false := by
  have hinj := swapFile_injective swapDir
  obtain ⟨h, hi⟩ := hm.inv (b := True) hinj (fun _ cmd _ => sized_true cmd)
  refine ⟨fun localCopy m' => hi.unused_of_evicted hinj, ?_, fun k => hi.unused_of_trimmed,
    ⟨h, hi, ?_⟩, fun z hz hzi t => hi.used_of_huge hz hzi⟩
  · intro l tryLock ht
    simp only [SplState.trimmable, Bool.and_eq_true, decide_eq_true_eq] at ht
    exact (hi.unused_of_isEmpty ht.1.2 ht.2).1
  · intro hs he q n
    rw [(hi.unused_of_isEmpty hs he).2]
    exact AbsHeap.not_alloc_fresh q n

def sampleFreedBlock : Manager :=
  (sampleBlock sampleInside).after sampleInside (swapFile "swap") (.remonFree 4096)

/-- The evictor then throws the page away. -/
theorem discarded_pages_unused_sample :
    Run sampleInside (swapFile "swap") (fun _ _ => True) sampleFreedBlock ∧
    ∃ m', sampleFreedBlock.step sampleInside (swapFile "swap") (.pickPodToEvict 0 []) = .ok m' ∧
      (m'.pods 0).state = .init ∧ sampleFreedBlock.Unused m'.toPager 0 := by
  have hrun : Run sampleInside (swapFile "swap") (fun _ _ => True) sampleFreedBlock := by
    refine Run.after (Serves.run (by decide +kernel)) _
      (.inr ⟨⟨0, 2, 8192, 2⟩, by decide +kernel, rfl⟩) trivial (by decide +kernel)
  have hlegal : sampleFreedBlock.Legal sampleInside (.pickPodToEvict 0 []) := by
    rintro t ht g - x hx
    cases hx
  have hevict : sampleFreedBlock.step sampleInside (swapFile "swap") (.pickPodToEvict 0 []) =
      .ok _ := step_after (by decide +kernel)
  have hinit : ((sampleFreedBlock.after sampleInside (swapFile "swap")
      (.pickPodToEvict 0 [])).pods 0).state = .init := by decide +kernel
  exact ⟨hrun, _, hevict, hinit, (discarded_pages_unused hrun 0).1 [] _ hlegal hevict
    (by decide +kernel) hinit⟩

end Manager

end Remon
