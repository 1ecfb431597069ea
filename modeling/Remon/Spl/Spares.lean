import Remon.Spl.Calls

/-! # The bytes of the callers

The calls of a list make, flush and search the allocators of its pages. None of them writes to a
byte of a block that is in use and was not freed. One lemma says so for each thing that is done to
a pod; a call of the list is a sequence of them.
-/

namespace Remon
open Lib Heap Fault

variable {b : Prop}

namespace Heap

variable {L : Layout} {h : AbsHeap L} {s t : State}

theorem Page.heapInit_frame (hs : Page s h) (hrun : Heap.heapInit L s = .ok t) :
    ∀ a, h.InUse a → t.mem a = s.mem a := by
  intro a ha
  rcases hs with ⟨hin, -⟩ | ⟨-, rfl⟩
  · rw [Heap.heapInit, if_pos hin] at hrun
    cases hrun
    rfl
  · obtain ⟨q, n, hq, -⟩ := ha
    exact absurd hq (AbsHeap.not_alloc_fresh q n)

theorem Page.malloc_frame {size ptr : ℕ} (hs : Page s h) (hz : Asize size)
    (hrun : malloc L s size = .ok (ptr, t)) : ∀ a, h.InUse a → t.mem a = s.mem a := by
  intro a ha
  cases hl : s.locked with
  | true =>
    rw [malloc_locked hl] at hrun
    cases hrun
  | false =>
    obtain ⟨m, hm, hsp⟩ := hs.heapInit
    have hinit : m a = s.mem a := hs.heapInit_frame hm a ha
    rw [← hinit]
    rw [malloc_eq_inited hl hm] at hrun
    by_cases hov : L.maxIntraPodSize < size
    · rw [malloc_outside (.inr hov)] at hrun
      cases hrun
      rfl
    · obtain ⟨t', ht', -, hframe⟩ := malloc_ok hsp.rep ⟨size, hz.1, hz.2, not_lt.mp hov⟩
      cases hrun.symm.trans ht'
      exact hframe a ha

theorem Page.maxAllocatableSize_frame {size : ℕ} (hs : Page s h)
    (hrun : maxAllocatableSize L s = .ok (size, t)) : ∀ a, h.InUse a → t.mem a = s.mem a := by
  obtain ⟨u, hu, hrun⟩ := of_bind_ok hrun
  have htu : t = u := by
    split at hrun
    · cases hrun
      rfl
    · obtain ⟨k, -, hrun⟩ := of_bind_ok hrun
      cases hrun
      rfl
  rw [htu]
  exact hs.heapInit_frame hu

end Heap

namespace Pod

variable {L : Layout} {live : Set ℕ} {p q r : Pod}

def Guards (b : Prop) (L : Layout) (live : Set ℕ) (p : Pod) : Prop :=
  ∃ h : AbsHeap L, p.Models b h ∧
    ∀ a ∈ live, ∃ x n, h.Alloc x n ∧ x ∉ p.freeBuffer ∧ x ≤ a ∧ a + 16 < x + n

def Spares (b : Prop) (L : Layout) (live : Set ℕ) (p q : Pod) : Prop :=
  p.Guards b L live → q.Guards b L live ∧ ∀ a ∈ live, q.mem a = p.mem a

theorem Spares.refl (p : Pod) : Spares b L live p p := fun hp => ⟨hp, fun _ _ => rfl⟩

theorem Spares.trans (hpq : Spares b L live p q) (hqr : Spares b L live q r) :
    Spares b L live p r := by
  intro hp
  obtain ⟨hq, h1⟩ := hpq hp
  obtain ⟨hr, h2⟩ := hqr hq
  exact ⟨hr, fun a ha => (h2 a ha).trans (h1 a ha)⟩

/-- Only the heap and the buffered frees matter. -/
theorem Spares.of_same (hh : q.heap = p.heap) (hb : q.freeBuffer = p.freeBuffer)
    (hf : q.isFlushing = p.isFlushing) : Spares b L live p q := by
  rintro ⟨h, hm, hl⟩
  refine ⟨⟨h, hm.congr hh hb hf, ?_⟩, ?_⟩
  · rw [hb]
    exact hl
  · intro a _
    rw [mem, mem, hh]

theorem Spares.of_heap {h h' : AbsHeap L} (hm' : q.Models b h')
    (hb : q.freeBuffer = p.freeBuffer) (ha : ∀ x n, h.Alloc x n → h'.Alloc x n)
    (hmem : ∀ a, h.InUse a → q.mem a = p.mem a)
    (hl : ∀ a ∈ live, ∃ x n, h.Alloc x n ∧ x ∉ p.freeBuffer ∧ x ≤ a ∧ a + 16 < x + n) :
    q.Guards b L live ∧ ∀ a ∈ live, q.mem a = p.mem a := by
  refine ⟨⟨h', hm', ?_⟩, ?_⟩
  · intro a hmem'
    obtain ⟨x, n, hx, hn, h12⟩ := hl a hmem'
    exact ⟨x, n, ha x n hx, hb ▸ hn, h12⟩
  · intro a hmem'
    obtain ⟨x, n, hx, -, h12⟩ := hl a hmem'
    exact hmem a ⟨x, n, hx, h12⟩

theorem spares_updateRank {x : Bool} (hrun : p.updateRank L = .ok (x, q)) :
    Spares b L live p q := by
  rintro ⟨h, hm, hl⟩
  obtain ⟨m, hq, hm'⟩ := hm.updateRank
  obtain ⟨⟨rank, p'⟩, hmax, hrun'⟩ := of_bind_ok hrun
  obtain ⟨⟨size, t⟩, ht, hp'⟩ := of_bind_ok hmax
  cases hp'
  cases hrun'
  have hheap : t = ⟨m, true, p.heap.locked⟩ :=
    congrArg (fun r => Pod.heap r.2) (Except.ok.inj (hrun.symm.trans hq))
  have hkeep : ∀ x n, h.Alloc x n → h.Alloc x n := fun _ _ hx => hx
  refine Spares.of_heap ?_ rfl hkeep ?_ hl
  · exact hm'.congr hheap rfl rfl
  · exact hm.page.maxAllocatableSize_frame ht

theorem spares_podMalloc {size ptr : ℕ} (hz : Asize size) (hb : L.maxIntraPodSize < size → b)
    (hrun : p.podMalloc L size = .ok (ptr, q)) : Spares b L live p q := by
  by_cases hst : p.state = .local_
  · rintro ⟨h, hm, hl⟩
    obtain ⟨s, h', hq, -, hm', hcase⟩ := (hm.podMalloc hst hz hb).result hrun
    have hq' : q = { p with heap := s } := hq
    have hkeep : ∀ x n, h.Alloc x n → h'.Alloc x n := by
      rcases hcase with ⟨-, rfl⟩ | ⟨-, -, k, -, ha⟩
      · exact fun _ _ hx => hx
      · exact fun x n hx => (ha x n).mpr (.inl hx)
    refine Spares.of_heap hm' (by rw [hq']) hkeep ?_ hl
    rw [Pod.podMalloc, if_neg (not_not.mpr hst)] at hrun
    obtain ⟨⟨ptr', t⟩, ht, hrun⟩ := of_bind_ok hrun
    cases hrun
    exact hm.page.malloc_frame hz ht
  · rw [Pod.podMalloc, if_pos hst] at hrun
    cases hrun
    exact .refl p

theorem spares_flushFreeBuffer (hrun : p.flushFreeBuffer L = .ok q) : Spares b L live p q := by
  rintro ⟨h, hm, hl⟩
  obtain ⟨s, hq, -, hm'⟩ := hm.flushFreeBuffer.result hrun
  have hkept : ∀ a ∈ live, ∃ x n, (h.freeAll p.freeBuffer).Alloc x n ∧ x ≤ a ∧ a + 16 < x + n := by
    intro a ha
    obtain ⟨x, n, hx, hn, h12⟩ := hl a ha
    exact ⟨x, n, (AbsHeap.alloc_freeAll hm.nodup hm.pending).mpr ⟨hx, hn⟩, h12⟩
  refine ⟨⟨_, hm', ?_⟩, ?_⟩
  · intro a ha
    obtain ⟨x, n, hx, h12⟩ := hkept a ha
    exact ⟨x, n, hx, by simp [hq], h12⟩
  · intro a ha
    by_cases hbuf : p.freeBuffer = []
    · have hsame : p.flushFreeBuffer L = .ok p := by
        simp [Pod.flushFreeBuffer, hm.idle, hbuf]
      rw [Except.ok.inj (hrun.symm.trans hsame)]
    · have hin : p.heap.inited = true := by
        rw [← Bool.not_eq_false]
        exact fun hin => hbuf (hm.freeBuffer_eq_nil hin)
      have hsp : Spells p.mem h := (hm.page.resolve_right (by simp [hin])).2
      have hlock : p.heap.locked = false := by
        rw [← Bool.not_eq_true]
        intro hlock
        rw [hm.flushFreeBuffer_locked hbuf hlock] at hrun
        cases hrun
      obtain ⟨t, ht, -, hframe⟩ :=
        Pod.flushFreeBuffer_ok ⟨⟨hin, hlock, hsp⟩, hm.idle, hm.nodup, hm.pending⟩
      rw [Except.ok.inj (hrun.symm.trans ht)]
      exact hframe a (hkept a ha)

end Pod

namespace SplState

variable {L : ℕ → Layout} {live : ℕ → Set ℕ} {s t : SplState} {i size : ℕ}

def Spares (b : Prop) (L : ℕ → Layout) (live : ℕ → Set ℕ) (s t : SplState) : Prop :=
  ∀ j, Pod.Spares b (L j) (live j) (s.pods j) (t.pods j)

namespace Spares

theorem refl (s : SplState) : Spares b L live s s := fun _ => .refl _

variable (h : Spares b L live s t)
include h

theorem setPod {p : Pod} (hp : Pod.Spares b (L i) (live i) (t.pods i) p) :
    Spares b L live s (t.setPod i p) := by
  intro j
  by_cases hj : j = i
  · subst hj
    have hset : (t.setPod j p).pods j = p := Function.update_self _ _ _
    rw [hset]
    exact (h j).trans hp
  · have hset : (t.setPod i p).pods j = t.pods j := Function.update_of_ne hj _ _
    rw [hset]
    exact h j

theorem podMalloc (hz : Asize size) (hb : ∀ i, (L i).maxIntraPodSize < size → b) :
    Yields (fun _ => True) (t.podMalloc L i size) (fun r => Spares b L live s r.2) := by
  unfold SplState.podMalloc
  refine Yields.then_run ?_
  rintro ⟨ptr, q⟩ hq
  exact h.setPod (Pod.spares_podMalloc hz (hb i) hq)

theorem updateRank :
    Yields (fun _ => True) (t.updateRank L i) (fun r => Spares b L live s r.2) := by
  unfold SplState.updateRank
  split
  · trivial
  refine Yields.then_run ?_
  rintro ⟨x, q⟩ hq
  exact h.setPod (Pod.spares_updateRank hq)

theorem flushFreeBuffer :
    Yields (fun _ => True) (t.flushFreeBuffer L i) (Spares b L live s) := by
  unfold SplState.flushFreeBuffer
  split
  · trivial
  refine Yields.then_run ?_
  intro q hq
  exact h.setPod (Pod.spares_flushFreeBuffer hq)

theorem flushOnePage : Yields (fun _ => True) (t.flushOnePage L i) (Spares b L live s) := by
  unfold SplState.flushOnePage
  refine h.flushFreeBuffer.bind fun t₁ h₁ => h₁.updateRank.bind fun r h₂ => ?_
  dsimp only
  split
  · split
    · trivial
    · exact h₂
  · exact h₂

theorem adjustPodList : Yields (fun _ => True) (t.adjustPodList L i) (Spares b L live s) := by
  unfold SplState.adjustPodList
  refine h.updateRank.bind fun r hr => ?_
  dsimp only
  split
  · split <;> exact hr
  · exact hr

theorem dismissLast : Yields (fun _ => True) (t.dismissLast L) (Spares b L live s) := by
  unfold SplState.dismissLast
  split
  · exact h
  · exact h.adjustPodList.bind fun u hu => hu

/-! ### Requests -/

theorem tryAllocateWithPreviousPod {retries : ℕ} (hz : Asize size)
    (hb : ∀ i, (L i).maxIntraPodSize < size → b) :
    Yields (fun _ => True) (t.tryAllocateWithPreviousPod L size retries)
      (fun r => Spares b L live s r.2) := by
  unfold SplState.tryAllocateWithPreviousPod
  split
  · exact h
  · next j _ =>
    have hwake : Spares b L live s
        (if (t.pods j).state = .init then t.setPod j (t.pods j).initToLocal else t) := by
      split
      · exact h.setPod (.of_same rfl rfl rfl)
      · exact h
    dsimp only
    generalize (if (t.pods j).state = .init then t.setPod j (t.pods j).initToLocal else t) = u
      at hwake ⊢
    split
    · exact hwake
    · exact (hwake.podMalloc hz hb).bind fun r hr => hr

theorem allocateOfAList {key : ℕ} {tryLock : ℕ → Bool} {listOfPods : List ℕ} (hz : Asize size)
    (hb : ∀ i, (L i).maxIntraPodSize < size → b) :
    Yields (fun _ => True) (SplState.allocateOfAList L size key tryLock listOfPods t)
      (fun r => Spares b L live s r.2) := by
  induction listOfPods generalizing t with
  | nil => exact h
  | cons j listOfPods ih =>
    rw [SplState.allocateOfAList]
    split
    · refine (h.podMalloc hz hb).bind fun r hr => ?_
      dsimp only
      split
      · refine Spares.updateRank (t := r.2.setLast (some j)) hr |>.bind fun u hu => ?_
        split <;> exact hu
      · exact ih hr
    · exact ih h

theorem clearOne {tryLock : ℕ → Bool} :
    Yields (fun _ => True) (SplState.clearOne L tryLock t i) (Spares b L live s) := by
  unfold SplState.clearOne
  split
  · exact h.flushOnePage
  · exact h

theorem clearLocalFreeBuffer {c : Choice} :
    Yields (fun _ => True) (t.clearLocalFreeBuffer L c) (Spares b L live s) := by
  unfold SplState.clearLocalFreeBuffer
  have hloop := Yields.foldlM (E := fun _ => True) (g := SplState.clearOne L c.tryLock)
    (I := fun _ u => Spares b L live s u) (l := c.arrange t.localFreeBuffer)
    (fun j l u hu => hu.clearOne) h
  exact hloop.bind fun u hu => hu

theorem allocateFirst {c : Choice} (hz : Asize size)
    (hb : ∀ i, (L i).maxIntraPodSize < size → b) :
    Yields (fun _ => True) (t.allocateFirst L size c) (fun r => Spares b L live s r.2) := by
  unfold SplState.allocateFirst
  split
  · exact h
  · exact h.allocateOfAList hz hb

omit h in
theorem allocate {c : Choice} (hz : Asize size) (hb : ∀ i, (L i).maxIntraPodSize < size → b) :
    Yields (fun _ => True) (s.allocate L size c) (fun r => Spares b L live s r.2) := by
  unfold SplState.allocate
  have hs : Spares b L live s s := .refl s
  refine (hs.tryAllocateWithPreviousPod hz hb).bind fun r hr => ?_
  dsimp only
  split
  · exact hr
  · refine hr.dismissLast.bind fun t ht => ?_
    split
    · split
      · exact ht
      · exact ht.clearLocalFreeBuffer.bind fun u hu => hu.allocateFirst hz hb
    · exact ht.allocateFirst hz hb

/-! ### Releases -/

omit h in
/-- After the free was noted down. -/
theorem free {a : ℕ} : Yields (fun _ => True) (s.free L i a) (fun r => Spares b L live
    (s.setPod i { s.pods i with freeBuffer := (s.pods i).freeBuffer ++ [a] }) r.2) := by
  unfold SplState.free Pod.addToFreeBufferReturnIfFull
  dsimp only
  split
  · exact .refl _
  split
  · exact (refl _).flushOnePage.bind fun t ht => ht
  · exact fun j => .refl _

/-! ### Cleared pages -/

/-- An empty page has no block in use. -/
theorem trimOne {tryLock : ℕ → Bool} :
    Yields (fun _ => True) (SplState.trimOne L tryLock t i) (Spares b L live s) := by
  unfold SplState.trimOne
  split
  · next ht =>
    have he : (t.pods i).isEmpty (L i) = true := (Bool.and_eq_true_iff.mp ht).2
    refine Yields.then_run ?_
    intro p hp
    refine h.setPod ?_
    rintro ⟨x, hm, hl⟩
    have hfresh := (hm.of_isEmpty he).1
    have hdead : ∀ a, a ∉ live i := by
      intro a ha
      obtain ⟨q, n, hq, -⟩ := hl a ha
      rw [hfresh] at hq
      exact AbsHeap.not_alloc_fresh q n hq
    obtain ⟨m, hrun, hm'⟩ := hm.dropMemoryStayLocal hfresh
    rw [Except.ok.inj (hp.symm.trans hrun)]
    exact ⟨⟨x, hm', fun a ha => absurd ha (hdead a)⟩, fun a ha => absurd ha (hdead a)⟩
  · exact h

omit h in
theorem trim {c : Choice} {tryLock : ℕ → Bool} :
    Yields (fun _ => True) (s.trim L c tryLock) (Spares b L live s) := by
  unfold SplState.trim
  exact Yields.foldlM (I := fun _ u => Spares b L live s u) (fun j l u hu => hu.trimOne) (.refl s)

end Spares

end SplState

end Remon
