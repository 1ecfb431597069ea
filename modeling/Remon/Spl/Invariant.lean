import Remon.Pod.Models
import Remon.Spl.SegregatedPageList

/-! # The invariant of a segregated page list

A pod that is filed is filed once, under its rank; the rank is the size of its largest free
block, except that the rank of the last pod may lag behind. Each call changes pods one at a
time, so there is one lemma for the list when one pod changes, and for the pods one account of
what may happen to them.
-/

namespace Remon
open Function Lib Heap List

variable {L : ℕ → Layout} {b : Prop}

/-! ## What happens to a pod -/

/-- A pod, the heap it stands for and its flushes so far. -/
structure Cell (L : Layout) where
  pod : Pod
  heap : AbsHeap L
  flushes : List (Prot × List ℕ)

namespace Cell

variable {L : Layout}

def Resident (b : Prop) (c : Cell L) : Prop :=
  c.pod.Models b c.heap ∧ c.pod.state = .local_ ∧ c.pod.prot = .readWrite

def Ready (b : Prop) (c : Cell L) : Prop :=
  c.Resident b ∨ c.pod.Models b c.heap ∧ c.pod.state = .init ∧ c.pod.heap.inited = false

def Held (c : Cell L) (q n : ℕ) : Prop := c.heap.Alloc q n ∧ q ∉ c.pod.freeBuffer

def released (c : Cell L) : List ℕ := c.flushes.flatMap Prod.snd

/-- What is never lost: every block that is held stays held, every buffered free stays in the
buffer or goes to the allocator, and that only while the page can be written. -/
structure Keeps (c c' : Cell L) : Prop where
  held : ∀ q n, c.Held q n → c'.Held q n
  ledger : ∀ q, c'.pod.freeBuffer.count q + c'.released.count q =
    c.pod.freeBuffer.count q + c.released.count q
  buffer : c'.pod.freeBuffer = c.pod.freeBuffer ∨ c'.pod.freeBuffer = []
  mapped : ∀ x ∈ c'.flushes, x ∈ c.flushes ∨ x.1 = .readWrite

theorem Keeps.refl (c : Cell L) : c.Keeps c :=
  ⟨fun _ _ hq => hq, fun _ => rfl, .inl rfl, fun _ hx => .inl hx⟩

theorem Keeps.trans {c d c'' : Cell L} (h : c.Keeps d) (h' : d.Keeps c'') : c.Keeps c'' where
  held q n hq := h'.held q n (h.held q n hq)
  ledger q := (h'.ledger q).trans (h.ledger q)
  buffer := by
    rcases h'.buffer with hb | hb
    · rw [hb]
      exact h.buffer
    · exact .inr hb
  mapped x hx := by
    rcases h'.mapped x hx with hx | hx
    · exact h.mapped x hx
    · exact .inr hx

/-- A step that leaves the buffer and the flushes alone. -/
theorem Keeps.of_same {c c' : Cell L} (ha : ∀ q n, c.heap.Alloc q n → c'.heap.Alloc q n)
    (hb : c'.pod.freeBuffer = c.pod.freeBuffer) (hf : c'.flushes = c.flushes) : c.Keeps c' where
  held q n hq := ⟨ha q n hq.1, hb ▸ hq.2⟩
  ledger q := by
    rw [released, released, hb, hf]
  buffer := .inl hb
  mapped x hx := .inl (hf ▸ hx)

/-- The buffered frees go to the allocator while the page can be written. -/
theorem Keeps.flush {c c' : Cell L} (hnodup : c.pod.freeBuffer.Nodup)
    (hpending : ∀ q ∈ c.pod.freeBuffer, c.heap.isLive q = true)
    (hh : c'.heap = c.heap.freeAll c.pod.freeBuffer) (hb : c'.pod.freeBuffer = [])
    (hf : c'.flushes = (.readWrite, c.pod.freeBuffer) :: c.flushes) : c.Keeps c' where
  held x n hx := by
    refine ⟨?_, by simp [hb]⟩
    rw [hh]
    exact (AbsHeap.alloc_freeAll hnodup hpending).mpr hx
  ledger x := by
    simp only [released, hf, flatMap_cons, count_append, hb, count_nil, Nat.zero_add]
  buffer := .inr hb
  mapped x hx := by
    rw [hf] at hx
    rcases mem_cons.mp hx with rfl | hx
    · exact .inr rfl
    · exact .inl hx

/-- Nothing is lost, and nothing is held that was not held before. -/
structure Retains (c c' : Cell L) : Prop extends c.Keeps c' where
  spares : ∀ q n, c'.Held q n → c.Held q n

theorem Retains.refl (c : Cell L) : c.Retains c := ⟨.refl c, fun _ _ hq => hq⟩

theorem Retains.trans {c d c'' : Cell L} (h : c.Retains d) (h' : d.Retains c'') : c.Retains c'' :=
  ⟨h.toKeeps.trans h'.toKeeps, fun q n hq => h.spares q n (h'.spares q n hq)⟩

theorem Retains.of_same {c c' : Cell L} (hh : c'.heap = c.heap)
    (hb : c'.pod.freeBuffer = c.pod.freeBuffer) (hf : c'.flushes = c.flushes) : c.Retains c' where
  toKeeps := .of_same (fun _ _ hq => hh ▸ hq) hb hf
  spares _ _ hq := ⟨hh ▸ hq.1, hb ▸ hq.2⟩

theorem held_of_flushed {c c' : Cell L} (hnodup : c.pod.freeBuffer.Nodup)
    (hpending : ∀ q ∈ c.pod.freeBuffer, c.heap.isLive q = true)
    (hh : c'.heap = c.heap.freeAll c.pod.freeBuffer) {q n : ℕ} (hq : c'.Held q n) : c.Held q n := by
  have halloc := hq.1
  rw [hh] at halloc
  exact (AbsHeap.alloc_freeAll hnodup hpending).mp halloc

theorem Retains.flush {c c' : Cell L} (hnodup : c.pod.freeBuffer.Nodup)
    (hpending : ∀ q ∈ c.pod.freeBuffer, c.heap.isLive q = true)
    (hh : c'.heap = c.heap.freeAll c.pod.freeBuffer) (hb : c'.pod.freeBuffer = [])
    (hf : c'.flushes = (.readWrite, c.pod.freeBuffer) :: c.flushes) : c.Retains c' :=
  ⟨.flush hnodup hpending hh hb hf, fun _ _ hq => held_of_flushed hnodup hpending hh hq⟩

/-- What the calls of a list do to a pod: they work on pages in memory and lose nothing. -/
structure Evolves (b : Prop) (c c' : Cell L) : Prop extends c.Keeps c' where
  ready : c' = c ∨ c.Ready b ∧ c'.Ready b
  landlord : c'.pod.landlordClient = c.pod.landlordClient
  state : c'.pod.state = c.pod.state ∨ c.pod.state = .init ∧ c'.pod.state = .local_
  made : c' = c ∨ c'.pod.heap.inited = true

theorem Evolves.refl (c : Cell L) : c.Evolves b c :=
  ⟨.refl c, .inl rfl, rfl, .inl rfl, .inl rfl⟩

theorem Evolves.trans {c c' c'' : Cell L} (h : c.Evolves b c') (h' : c'.Evolves b c'') :
    c.Evolves b c'' := by
  refine ⟨h.toKeeps.trans h'.toKeeps, ?_, h'.landlord.trans h.landlord, ?_, ?_⟩
  · rcases h'.ready with rfl | ⟨-, hr''⟩
    · exact h.ready
    · rcases h.ready with rfl | ⟨hr, -⟩
      · exact h'.ready
      · exact .inr ⟨hr, hr''⟩
  · rcases h.state with hs | ⟨hi, hl⟩
    · rw [← hs]
      exact h'.state
    · refine .inr ⟨hi, ?_⟩
      rcases h'.state with hs' | ⟨hi', -⟩
      · exact hs'.trans hl
      · rw [hl] at hi'
        cases hi'
  · rcases h'.made with rfl | hin
    · exact h.made
    · exact .inr hin

/-- A step that leaves the blocks, the buffer and the flushes alone. -/
theorem Evolves.of_same {c c' : Cell L} (hr : c.Ready b) (hr' : c'.Ready b)
    (hl : c'.pod.landlordClient = c.pod.landlordClient)
    (hs : c'.pod.state = c.pod.state ∨ c.pod.state = .init ∧ c'.pod.state = .local_)
    (ha : ∀ q n, c.heap.Alloc q n → c'.heap.Alloc q n)
    (hb : c'.pod.freeBuffer = c.pod.freeBuffer) (hf : c'.flushes = c.flushes)
    (hin : c'.pod.heap.inited = true) : c.Evolves b c' :=
  ⟨.of_same ha hb hf, .inr ⟨hr, hr'⟩, hl, hs, .inr hin⟩

/-- The buffered frees go to the allocator. -/
theorem Evolves.flush {p : Pod} {h : AbsHeap L} {f : List (Prot × List ℕ)} {q : Pod}
    (hr : Resident b ⟨p, h, f⟩)
    (hr' : Resident b ⟨q, h.freeAll p.freeBuffer, (p.prot, p.freeBuffer) :: f⟩)
    (hl : q.landlordClient = p.landlordClient) (hb : q.freeBuffer = [])
    (hin : q.heap.inited = true) :
    Evolves b ⟨p, h, f⟩ ⟨q, h.freeAll p.freeBuffer, (p.prot, p.freeBuffer) :: f⟩ := by
  refine ⟨?_, .inr ⟨.inl hr, .inl hr'⟩, hl, .inl (hr'.2.1.trans hr.2.1.symm), .inr hin⟩
  have hp : p.prot = .readWrite := hr.2.2
  rw [hp]
  exact .flush hr.1.nodup hr.1.pending rfl hb rfl

end Cell

namespace SplState

def cell (s : SplState) (h : ∀ i, AbsHeap (L i)) (i : ℕ) : Cell (L i) :=
  ⟨s.pods i, h i, s.flushes i⟩

/-- Pod by pod, `s'` comes from `s`, and only pods in `M` change. -/
def Changes (b : Prop) (M : ℕ → Prop) (s : SplState) (h : ∀ i, AbsHeap (L i)) (s' : SplState)
    (h' : ∀ i, AbsHeap (L i)) : Prop :=
  ∀ i, (s.cell h i).Evolves b (s'.cell h' i) ∧ (¬ M i → s'.cell h' i = s.cell h i)

variable {M : ℕ → Prop} {s s' s'' t : SplState} {h h' h'' : ∀ i, AbsHeap (L i)} {i : ℕ}

theorem Changes.refl : Changes b M s h s h := fun _ => ⟨.refl _, fun _ => rfl⟩

theorem Changes.trans (hc : Changes b M s h s' h') (hc' : Changes b M s' h' s'' h'') :
    Changes b M s h s'' h'' := by
  intro i
  refine ⟨(hc i).1.trans (hc' i).1, ?_⟩
  intro hi
  rw [(hc' i).2 hi, (hc i).2 hi]

/-- Only the pods and their flushes matter. -/
theorem Changes.congr (hc : Changes b M s h s' h') (hp : s''.pods = s'.pods)
    (hf : s''.flushes = s'.flushes) : Changes b M s h s'' h' := by
  intro i
  have he : s''.cell h' i = s'.cell h' i := by
    rw [cell, cell, hp, hf]
  rw [he]
  exact hc i

/-- One pod changes. -/
theorem Changes.one {p : Pod} {hp : AbsHeap (L i)} {f : List (Prot × List ℕ)} (hM : M i)
    (hpods : s'.pods = update s.pods i p)
    (hflushes : s'.flushes = update s.flushes i f)
    (he : (s.cell h i).Evolves b ⟨p, hp, f⟩) :
    Changes b M s h s' (update h i hp) := by
  intro j
  by_cases hj : j = i
  · subst hj
    refine ⟨?_, fun hn => absurd hM hn⟩
    rw [show s'.cell (update h j hp) j = ⟨p, hp, f⟩ by simp [cell, hpods, hflushes]]
    exact he
  · have hsame : s'.cell (update h i hp) j = s.cell h j := by
      simp [cell, hpods, hflushes, hj]
    rw [hsame]
    exact ⟨.refl _, fun _ => rfl⟩

/-- The blocks that are held after a call were held before it, but for the one that it returned.
The null pointer stands for a call that returned none. -/
def Stocks (ptr : ℕ) (s : SplState) (h : ∀ i, AbsHeap (L i)) (s' : SplState)
    (h' : ∀ i, AbsHeap (L i)) : Prop :=
  ∀ i q n, (s'.cell h' i).Held q n →
    (s.cell h i).Held q n ∨ ptr ≠ 0 ∧ q = ptr ∧ s'.lastAllocatedPod = some i

theorem Stocks.refl : Stocks 0 s h s h := fun _ _ _ hq => .inl hq

theorem Stocks.trans {ptr : ℕ} (hs : Stocks 0 s h s' h') (hs' : Stocks ptr s' h' s'' h'') :
    Stocks ptr s h s'' h'' := by
  intro i q n hq
  rcases hs' i q n hq with hq | hq
  · exact .inl ((hs i q n hq).resolve_right (fun hc => hc.1 rfl))
  · exact .inr hq

theorem Stocks.congr {ptr : ℕ} (hs : Stocks ptr s h s' h') (hp : s''.pods = s'.pods)
    (hl : s''.lastAllocatedPod = s'.lastAllocatedPod) : Stocks ptr s h s'' h' := by
  intro i q n hq
  rw [hl]
  refine hs i q n ?_
  rw [Cell.Held, cell, hp] at hq
  exact hq

/-- One pod changes. -/
theorem Stocks.one {ptr : ℕ} {p : Pod} {x : AbsHeap (L i)}
    (hpods : s'.pods = update s.pods i p)
    (hi : ∀ q n, x.Alloc q n → q ∉ p.freeBuffer →
      (s.cell h i).Held q n ∨ ptr ≠ 0 ∧ q = ptr ∧ s'.lastAllocatedPod = some i) :
    Stocks ptr s h s' (update h i x) := by
  intro j q n hq
  by_cases hj : j = i
  · subst hj
    rw [Cell.Held, cell, hpods, update_self, update_self] at hq
    exact hi q n hq.1 hq.2
  · rw [Cell.Held, cell, hpods, update_of_ne hj, update_of_ne hj] at hq
    exact .inl hq

/-- One pod changes and keeps its heap and its buffer. -/
theorem Stocks.same {p : Pod} (hpods : s'.pods = update s.pods i p)
    (hbuf : p.freeBuffer = (s.pods i).freeBuffer) : Stocks 0 s h s' h := by
  have hheld : ∀ q n, (h i).Alloc q n → q ∉ p.freeBuffer → (s.cell h i).Held q n ∨
      (0 : ℕ) ≠ 0 ∧ q = 0 ∧ s'.lastAllocatedPod = some i :=
    fun q n ha hq => .inl ⟨ha, hbuf ▸ hq⟩
  have hone := Stocks.one hpods hheld
  rwa [update_eq_self] at hone

/-! ## The buckets -/

/-- The pod `i` is in a bucket. -/
def Filed (s : SplState) (i : ℕ) : Prop := ∃ k, s.rankMap.Holds k i

/-- The list manages the pods in `M`, which stand for the heaps `h`. -/
structure Inv (b : Prop) (M : ℕ → Prop) (s : SplState) (h : ∀ i, AbsHeap (L i)) : Prop where
  tidy : s.rankMap.Tidy
  keyed : ∀ k i, s.rankMap.Holds k i → (s.pods i).rank = k ∧ M i
  synced : ∀ i, M i → (s.pods i).oldRank = (s.pods i).rank
  ranked : ∀ i, s.Filed i → s.lastAllocatedPod ≠ some i →
    (s.cell h i).Resident b ∧ (s.pods i).heap.inited = true ∧ (s.pods i).rank = (h i).maxSize
  last : ∀ i, s.lastAllocatedPod = some i → s.Filed i ∧ (s.cell h i).Ready b
  listed : ∀ i, M i → (s.pods i).state = .local_ → (s.pods i).heap.inited = true → s.Filed i
  noted : ∀ i, M i → (s.pods i).state = .local_ → (s.pods i).freeBuffer ≠ [] →
    i ∈ s.localFreeBuffer
  blank : ∀ i, M i → (s.pods i).heap.inited = false → (s.pods i).freeBuffer = []
  buffered : ∀ i ∈ s.localFreeBuffer, M i
  silent : s.reports = []

/-- A pod that nobody has filed stays so. -/
theorem holds_outside (hf : ¬ s.Filed i) {k j : ℕ} :
    s.rankMap.Holds k j ↔ s.rankMap.Holds k j ∧ j ≠ i := by
  refine ⟨fun hk => ⟨hk, ?_⟩, And.left⟩
  rintro rfl
  exact hf ⟨k, hk⟩

/-- A pod that moves from bucket to bucket stays filed, and so do the others. -/
theorem filed_iff_of_moved {r : ℕ} (hf : s.Filed i)
    (hholds : ∀ k j, s'.rankMap.Holds k j ↔ s.rankMap.Holds k j ∧ j ≠ i ∨ k = r ∧ j = i) (j : ℕ) :
    s'.Filed j ↔ s.Filed j := by
  by_cases hj : j = i
  · subst hj
    exact iff_of_true ⟨r, (hholds r j).mpr (.inr ⟨rfl, rfl⟩)⟩ hf
  · refine exists_congr fun k => ?_
    rw [hholds]
    simp [hj]

namespace Inv

variable (hi : s.Inv b M h)
include hi

theorem filed_mem (hf : s.Filed i) : M i := by
  obtain ⟨k, hk⟩ := hf
  exact (hi.keyed k i hk).2

theorem filed_rank (hf : s.Filed i) : s.rankMap.Holds (s.pods i).rank i := by
  obtain ⟨k, hk⟩ := hf
  rw [(hi.keyed k i hk).1]
  exact hk

/-- The bucket of a filed pod is there. -/
theorem get_rank (hf : s.Filed i) : ∃ l, s.rankMap.get (s.pods i).rank = some l := by
  obtain ⟨l, hl, -⟩ := hi.filed_rank hf
  exact ⟨l, hl⟩

/-- Every filed pod can be used. -/
theorem ready (hf : s.Filed i) : (s.cell h i).Ready b := by
  by_cases hl : s.lastAllocatedPod = some i
  · exact (hi.last i hl).2
  · exact .inl (hi.ranked i hf hl).1

/-- One pod changes, and where it is filed, last or buffered. -/
protected theorem update {p : Pod} {hp : AbsHeap (L i)} (hpods : s'.pods = update s.pods i p)
    (htidy : s'.rankMap.Tidy)
    (hothers : ∀ k j, j ≠ i → (s'.rankMap.Holds k j ↔ s.rankMap.Holds k j))
    (hkeyed : ∀ k, s'.rankMap.Holds k i → p.rank = k ∧ M i) (hsynced : M i → p.oldRank = p.rank)
    (hlastne : ∀ j, j ≠ i → (s'.lastAllocatedPod = some j ↔ s.lastAllocatedPod = some j))
    (hranked : s'.Filed i → s'.lastAllocatedPod ≠ some i →
      Cell.Resident b ⟨p, hp, s'.flushes i⟩ ∧ p.heap.inited = true ∧ p.rank = hp.maxSize)
    (hlast : s'.lastAllocatedPod = some i → s'.Filed i ∧ Cell.Ready b ⟨p, hp, s'.flushes i⟩)
    (hlisted : M i → p.state = .local_ → p.heap.inited = true → s'.Filed i)
    (hnoted : M i → p.state = .local_ → p.freeBuffer ≠ [] → i ∈ s'.localFreeBuffer)
    (hblank : M i → p.heap.inited = false → p.freeBuffer = [])
    (hbuffer : ∀ j, j ≠ i → (j ∈ s'.localFreeBuffer ↔ j ∈ s.localFreeBuffer))
    (hbuffered : i ∈ s'.localFreeBuffer → M i) (hsilent : s'.reports = []) :
    s'.Inv b M (update h i hp) := by
  have hpi : s'.pods i = p := by
    rw [hpods, update_self]
  have hpj : ∀ j, j ≠ i → s'.pods j = s.pods j := by
    intro j hj
    rw [hpods, update_of_ne hj]
  have hci : s'.cell (update h i hp) i = ⟨p, hp, s'.flushes i⟩ := by
    rw [cell, hpi, update_self]
  have hres : ∀ j, j ≠ i → ((s'.cell (update h i hp) j).Resident b ↔
      (s.cell h j).Resident b) := by
    intro j hj
    rw [cell, cell, update_of_ne hj, hpj j hj]
    exact Iff.rfl
  have hrdy : ∀ j, j ≠ i → ((s'.cell (update h i hp) j).Ready b ↔
      (s.cell h j).Ready b) := by
    intro j hj
    rw [cell, cell, update_of_ne hj, hpj j hj]
    exact Iff.rfl
  have hfiled : ∀ j, j ≠ i → (s'.Filed j ↔ s.Filed j) := by
    intro j hj
    exact exists_congr fun k => hothers k j hj
  refine ⟨htidy, ?_, ?_, ?_, ?_, ?_, ?_, ?_, ?_, hsilent⟩
  · intro k j hk
    by_cases hj : j = i
    · subst hj
      rw [hpi]
      exact hkeyed k hk
    · rw [hpj j hj]
      exact hi.keyed k j ((hothers k j hj).mp hk)
  · intro j hM
    by_cases hj : j = i
    · subst hj
      rw [hpi]
      exact hsynced hM
    · rw [hpj j hj]
      exact hi.synced j hM
  · intro j hf hl
    by_cases hj : j = i
    · subst hj
      rw [hci, hpi, update_self]
      exact hranked hf hl
    · rw [hres j hj, hpj j hj, update_of_ne hj]
      exact hi.ranked j ((hfiled j hj).mp hf) (fun hc => hl ((hlastne j hj).mpr hc))
  · intro j hl
    by_cases hj : j = i
    · subst hj
      rw [hci]
      exact hlast hl
    · rw [hfiled j hj, hrdy j hj]
      exact hi.last j ((hlastne j hj).mp hl)
  · intro j hM
    by_cases hj : j = i
    · subst hj
      rw [hpi]
      exact hlisted hM
    · rw [hpj j hj, hfiled j hj]
      exact hi.listed j hM
  · intro j hM
    by_cases hj : j = i
    · subst hj
      rw [hpi]
      exact hnoted hM
    · rw [hpj j hj, hbuffer j hj]
      exact hi.noted j hM
  · intro j hM
    by_cases hj : j = i
    · subst hj
      rw [hpi]
      exact hblank hM
    · rw [hpj j hj]
      exact hi.blank j hM
  · intro j hj
    by_cases he : j = i
    · subst he
      exact hbuffered hj
    · exact hi.buffered j ((hbuffer j he).mp hj)

/-- A filed pod gets a new rank and moves to its bucket. -/
theorem rerank {p : Pod} {x : AbsHeap (L i)} (hM : M i)
    (hpods : t.pods = update s.pods i p) (htidy : t.rankMap.Tidy)
    (hholds : ∀ k j, t.rankMap.Holds k j ↔ s.rankMap.Holds k j ∧ j ≠ i ∨ k = p.rank ∧ j = i)
    (hres : Cell.Resident b ⟨p, x, t.flushes i⟩) (hin : p.heap.inited = true)
    (hrank : p.rank = x.maxSize) (hold : p.oldRank = p.rank)
    (hlast : ∀ j, j ≠ i → (t.lastAllocatedPod = some j ↔ s.lastAllocatedPod = some j))
    (hnoted : p.freeBuffer ≠ [] → i ∈ t.localFreeBuffer)
    (hbuffer : ∀ j, j ∈ t.localFreeBuffer ↔ j ∈ s.localFreeBuffer) (hsilent : t.reports = []) :
    t.Inv b M (update h i x) := by
  have hf : t.Filed i := ⟨p.rank, (hholds _ _).mpr (.inr ⟨rfl, rfl⟩)⟩
  refine hi.update hpods htidy ?_ ?_ (fun _ => hold) hlast (fun _ _ => ⟨hres, hin, hrank⟩)
    (fun _ => ⟨hf, .inl hres⟩) (fun _ _ _ => hf) (fun _ _ => hnoted) ?_ (fun j _ => hbuffer j)
    (fun _ => hM) hsilent
  · intro k j hj
    rw [hholds]
    simp [hj]
  · intro k hk
    rcases (hholds k i).mp hk with ⟨-, hne⟩ | ⟨rfl, -⟩
    · exact absurd rfl hne
    · exact ⟨rfl, hM⟩
  · intro _ hc
    rw [hin] at hc
    cases hc

/-- A filed pod changes and stays where it is. -/
theorem touch {p : Pod} {x : AbsHeap (L i)} (hf : s.Filed i)
    (hpods : t.pods = update s.pods i p) (hmap : t.rankMap = s.rankMap)
    (hlast : t.lastAllocatedPod = s.lastAllocatedPod) (hrank : p.rank = (s.pods i).rank)
    (hold : p.oldRank = (s.pods i).oldRank) (hready : Cell.Ready b ⟨p, x, t.flushes i⟩)
    (hranked : s.lastAllocatedPod ≠ some i →
      Cell.Resident b ⟨p, x, t.flushes i⟩ ∧ p.heap.inited = true ∧ p.rank = x.maxSize)
    (hnoted : p.state = .local_ → p.freeBuffer ≠ [] → i ∈ t.localFreeBuffer)
    (hbuffer : ∀ j, j ≠ i → (j ∈ t.localFreeBuffer ↔ j ∈ s.localFreeBuffer))
    (hsilent : t.reports = s.reports) : t.Inv b M (update h i x) := by
  have hM := hi.filed_mem hf
  have hf' : t.Filed i := by
    rw [Filed, hmap]
    exact hf
  refine hi.update hpods (hmap ▸ hi.tidy) ?_ ?_ ?_ ?_ ?_ (fun _ => ⟨hf', hready⟩) (fun _ _ _ => hf')
    (fun _ => hnoted) ?_ hbuffer (fun _ => hM) (hsilent.trans hi.silent)
  · intro k j _
    rw [hmap]
  · intro k hk
    rw [hmap] at hk
    exact ⟨hrank.trans (hi.keyed k i hk).1, hM⟩
  · intro _
    rw [hold, hrank, hi.synced i hM]
  · intro j _
    rw [hlast]
  · intro _ hl
    rw [hlast] at hl
    exact hranked hl
  · intro _ hin
    rcases hready with hr | hr
    · exact hr.1.freeBuffer_eq_nil hin
    · exact hr.1.freeBuffer_eq_nil hin

/-- A pod leaves the buckets or stays outside of them. -/
theorem aside {p : Pod} {x : AbsHeap (L i)} (hpods : t.pods = update s.pods i p)
    (htidy : t.rankMap.Tidy)
    (hholds : ∀ k j, t.rankMap.Holds k j ↔ s.rankMap.Holds k j ∧ j ≠ i)
    (hlast : t.lastAllocatedPod = s.lastAllocatedPod) (hne : s.lastAllocatedPod ≠ some i)
    (hsynced : M i → p.oldRank = p.rank)
    (haway : M i → p.state = .local_ → p.heap.inited = false)
    (hblank : M i → p.heap.inited = false → p.freeBuffer = [])
    (hbuffer : ∀ j, j ≠ i → (j ∈ t.localFreeBuffer ↔ j ∈ s.localFreeBuffer))
    (hbuffered : i ∈ t.localFreeBuffer → M i) (hsilent : t.reports = s.reports) :
    t.Inv b M (update h i x) := by
  have hf' : ¬ t.Filed i := by
    rintro ⟨k, hk⟩
    exact ((hholds k i).mp hk).2 rfl
  refine hi.update hpods htidy ?_ (fun k hk => absurd ⟨k, hk⟩ hf') hsynced ?_
    (fun hc => absurd hc hf') (fun hc => absurd (hlast ▸ hc) hne) ?_ ?_ hblank hbuffer hbuffered
    (hsilent.trans hi.silent)
  · intro k j hj
    rw [hholds]
    simp [hj]
  · intro j _
    rw [hlast]
  · intro hM hs hin
    rw [haway hM hs] at hin
    cases hin
  · intro hM hs hb
    exact absurd (hblank hM (haway hM hs)) hb

theorem holds_leave {k j : ℕ} :
    (s.rankMap.unfile (s.pods i).rank i).Holds k j ↔ s.rankMap.Holds k j ∧ j ≠ i := by
  rw [OrdMap.holds_unfile hi.tidy]
  refine and_congr_right ?_
  intro hk
  constructor
  · rintro hne rfl
    exact hne ⟨(hi.keyed k j hk).1.symm, rfl⟩
  · rintro hne ⟨-, rfl⟩
    exact hne rfl

theorem holds_move {r k j : ℕ} : ((s.rankMap.unfile (s.pods i).rank i).file r i).Holds k j ↔
    s.rankMap.Holds k j ∧ j ≠ i ∨ k = r ∧ j = i := by
  rw [OrdMap.holds_file, hi.holds_leave]

theorem holds_stay (hf : s.Filed i) {k j : ℕ} :
    s.rankMap.Holds k j ↔ s.rankMap.Holds k j ∧ j ≠ i ∨ k = (s.pods i).rank ∧ j = i := by
  by_cases hj : j = i
  · subst hj
    refine ⟨fun hk => .inr ⟨(hi.keyed k j hk).1.symm, rfl⟩, ?_⟩
    rintro (⟨-, hne⟩ | ⟨rfl, -⟩)
    · exact absurd rfl hne
    · exact hi.filed_rank hf
  · simp [hj]

end Inv

/-! ## Ranks -/

/-- The pod `q` is `p` after its rank was brought up to date. -/
structure Reranked {L : Layout} (b : Prop) (h : AbsHeap L) (p q : Pod) : Prop where
  models : q.Models b h
  inited : q.heap.inited = true
  rank : q.rank = h.maxSize
  oldRank : q.oldRank = q.rank
  state : q.state = p.state
  prot : q.prot = p.prot
  landlord : q.landlordClient = p.landlordClient
  freeBuffer : q.freeBuffer = p.freeBuffer

/-- The search for the largest free block on a page that can be used. -/
theorem updateRank_ok (hm : (s.pods i).Models b (h i)) (hp : (s.pods i).prot = .readWrite) :
    ∃ q, s.updateRank L i = .ok (decide (q.rank ≠ (s.pods i).oldRank), s.setPod i q) ∧
      Reranked b (h i) (s.pods i) q := by
  obtain ⟨m, hrun, hmod⟩ := hm.updateRank
  refine ⟨_, ?_, hmod, rfl, rfl, rfl, rfl, rfl, rfl, rfl⟩
  rw [updateRank, if_neg (by simp [hp]), hrun]
  rfl

/-- The pod becomes `q` and moves to the bucket of its rank. -/
def moved (s : SplState) (i : ℕ) (q : Pod) : SplState :=
  (s.setPod i q).setMap (if q.rank ≠ (s.pods i).rank then
    (s.rankMap.unfile (s.pods i).rank i).file q.rank i else s.rankMap)

theorem Inv.holds_moved {t : SplState} {q : Pod} (hi : s.Inv b M h) (hf : s.Filed i)
    (hmap : t.rankMap = s.rankMap) (hrank : (t.pods i).rank = (s.pods i).rank) :
    (t.moved i q).rankMap.Tidy ∧ ∀ k j, (t.moved i q).rankMap.Holds k j ↔
      s.rankMap.Holds k j ∧ j ≠ i ∨ k = q.rank ∧ j = i := by
  rw [moved, hmap, hrank]
  by_cases hne : q.rank = (s.pods i).rank
  · rw [if_neg (not_not.mpr hne)]
    refine ⟨hi.tidy, fun k j => ?_⟩
    rw [hne]
    exact hi.holds_stay hf
  · rw [if_pos hne]
    exact ⟨hi.tidy.unfile.file, fun k j => hi.holds_move⟩

theorem refile_ok {q : Pod} (hq : q.state = .local_) (fail : Except Fault SplState)
    (hget : ∃ l, s.rankMap.get (s.pods i).rank = some l) :
    (if decide (q.rank ≠ (s.pods i).rank) = true then
      match (s.setPod i q).rankMap.get (s.pods i).rank with
      | none => fail
      | some _ => pure ((s.setPod i q).refile (s.pods i).rank i)
    else pure (s.setPod i q)) = Except.ok (s.moved i q) := by
  obtain ⟨l, hl⟩ := hget
  have hget' : (s.setPod i q).rankMap.get (s.pods i).rank = some l := hl
  have hqi : (s.setPod i q).pods i = q := update_self _ _ _
  simp only [hget', refile, moved, hqi, if_pos hq, decide_eq_true_eq]
  split <;> rfl

theorem adjustPodList_ok (hr : (s.cell h i).Resident b)
    (hsync : (s.pods i).oldRank = (s.pods i).rank)
    (hget : ∃ l, s.rankMap.get (s.pods i).rank = some l) :
    ∃ q, s.adjustPodList L i = .ok (s.moved i q) ∧ Reranked b (h i) (s.pods i) q := by
  obtain ⟨q, hrun, hq⟩ := updateRank_ok (h := h) hr.1 hr.2.2
  refine ⟨q, ?_, hq⟩
  rw [adjustPodList, hrun, hsync]
  exact refile_ok (hq.state.trans hr.2.1) _ hget

/-- The free buffer of a page that can be used. -/
theorem flushFreeBuffer_ok (hr : (s.cell h i).Resident b) :
    Yields (Stuck b) (s.flushFreeBuffer L i) (fun s' => ∃ q, s'.pods = update s.pods i q ∧
      s'.flushes = update s.flushes i
        (((s.pods i).prot, (s.pods i).freeBuffer) :: s.flushes i) ∧
      s'.toSegregatedPageList = s.toSegregatedPageList ∧
      q.Models b ((h i).freeAll (s.pods i).freeBuffer) ∧ q.state = .local_ ∧ q.prot = .readWrite ∧
      q.landlordClient = (s.pods i).landlordClient ∧ q.freeBuffer = [] ∧
      q.rank = (s.pods i).rank ∧ q.oldRank = (s.pods i).oldRank ∧
      q.heap.inited = (s.pods i).heap.inited) := by
  have hprot : (s.pods i).prot = .readWrite := hr.2.2
  rw [flushFreeBuffer, if_neg (by simp [hprot])]
  refine (hr.1.flushFreeBuffer).bind ?_
  rintro _ ⟨t, rfl, hin, hmod⟩
  exact ⟨_, rfl, rfl, rfl, hmod, hr.2.1, hprot, rfl, rfl, rfl, rfl, hin⟩

theorem flushOnePage_ok (hr : (s.cell h i).Resident b)
    (hsync : (s.pods i).oldRank = (s.pods i).rank)
    (hget : ∃ l, s.rankMap.get (s.pods i).rank = some l) :
    Yields (Stuck b) (s.flushOnePage L i) (fun s' => ∃ (p q : Pod) (t : SplState),
      s' = t.moved i q ∧
      t.pods = update s.pods i p ∧
      t.flushes = update s.flushes i
        (((s.pods i).prot, (s.pods i).freeBuffer) :: s.flushes i) ∧
      t.toSegregatedPageList = s.toSegregatedPageList ∧ p.rank = (s.pods i).rank ∧
      p.state = .local_ ∧ p.prot = .readWrite ∧
      p.landlordClient = (s.pods i).landlordClient ∧ p.freeBuffer = [] ∧
      Reranked b ((h i).freeAll (s.pods i).freeBuffer) p q) := by
  rw [flushOnePage]
  refine (flushFreeBuffer_ok hr).bind ?_
  rintro t ⟨p, hpods, hfl, hspl, hmod, hst, hprot, hland, hbuf, hrank, hold, -⟩
  have hpi : t.pods i = p := by
    rw [hpods, update_self]
  obtain ⟨q, hrun, hq⟩ := updateRank_ok (s := t) (i := i) (b := b)
    (h := update h i ((h i).freeAll (s.pods i).freeBuffer))
    (by rw [hpi, update_self]; exact hmod) (by rw [hpi]; exact hprot)
  rw [hpi, update_self] at hq
  have hrk : (s.pods i).rank = (t.pods i).rank := by
    rw [hpi, hrank]
  have hget' : ∃ l, t.rankMap.get (t.pods i).rank = some l := by
    rw [hspl, ← hrk]
    exact hget
  have hold' : (t.pods i).oldRank = (t.pods i).rank := by
    rw [hpi, hold, hsync, hrank]
  rw [hrun, hrk, hold']
  refine .of_ok (refile_ok (hq.state.trans hst) _ hget') ?_
  exact ⟨p, q, t, rfl, hpods, hfl, hspl, hrk ▸ hrank, hst, hprot, hland, hbuf, hq⟩

end SplState

end Remon
