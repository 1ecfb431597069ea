import Remon.Pod.Flush
import Remon.Lib.Yields

/-! # The heap that a pod stands for

A pod without an initialised allocator stands for one free block, since every use of its
allocator begins by making it. A request that is larger than the page can serve returns with
the mutex of the allocator held. Where `b` says that there may have been such a request, a
later call may wait for that mutex forever; apart from this every operation returns.
-/

namespace Remon
open Lib Heap Fault List

variable {L : Layout} {h : AbsHeap L} {b : Prop}

namespace Heap.AbsHeap

/-- A request of `size` bytes gets `n` of them: a rest that is too small for a block of its own is
not cut off. -/
def Cut (size n : ℕ) : Prop := size ≤ n ∧ n ≤ size + 16

/-- The heap `h'` has one more block than `h`, cut for `size` bytes at `ptr`. -/
def Took (h h' : AbsHeap L) (size ptr : ℕ) : Prop :=
  h.isLive ptr = false ∧ ∃ n, Cut size n ∧ ∀ q k, h'.Alloc q k ↔ h.Alloc q k ∨ q = ptr ∧ k = n

theorem Took.isLive {h' : AbsHeap L} {size ptr q : ℕ} (ht : h.Took h' size ptr)
    (hq : h.isLive q = true) : h'.isLive q = true := by
  obtain ⟨-, n, -, ha⟩ := ht
  obtain ⟨k, hk⟩ := h.isLive_iff.mp hq
  exact h'.isLive_iff.mpr ⟨k, (ha q k).mpr (.inl hk)⟩

theorem malloc_cases (h : AbsHeap L) (a : Request L) :
    h.malloc a = (none, h) ∨ ∃ p h', h.malloc a = (some p, h') ∧ p ∈ h.freeList ∧
      h.Took h' a.size p := by
  rw [malloc]
  cases hff : h.firstFit a.size with
  | none => exact .inl rfl
  | some p =>
    obtain ⟨hp, hle⟩ := firstFit_some hff
    refine .inr ⟨p, h.take a p, rfl, hp, ?_, h.takenSize a.size p, ?_, ?_⟩
    · rw [← Bool.not_eq_true]
      exact not_isLive_of_mem h hp
    · rcases (take_block hp hle).2 with hsz | hsz
      · exact ⟨hsz.ge, by omega⟩
      · exact ⟨by omega, hsz.le⟩
    · exact fun q k => alloc_take hp hle

theorem eq_fresh_of_isEmpty (he : h.isEmpty = true) : h = fresh L := by
  obtain ⟨blocks, freeList, sized, nodup, hmem⟩ := h
  obtain rfl : blocks = [⟨L.payloadSize - 16, true⟩] := by
    simpa [isEmpty] using he
  have hone : ∀ p, p ∈ freeList ↔ p = L.firstBlock := by
    intro p
    rw [hmem p, mem_freeStarts]
    simp [place]
  have hlist : freeList = [L.firstBlock] := by
    cases freeList with
    | nil => simpa using (hone L.firstBlock).mpr rfl
    | cons x l =>
      obtain rfl : x = L.firstBlock := (hone x).mp (by simp)
      cases l with
      | nil => rfl
      | cons y l =>
        obtain rfl : y = L.firstBlock := (hone y).mp (by simp)
        simp at nodup
  subst hlist
  rfl

end Heap.AbsHeap

namespace Heap

def Page (s : State) (h : AbsHeap L) : Prop :=
  s.inited = true ∧ Spells s.mem h ∨ s.inited = false ∧ h = .fresh L

theorem Page.heapInit {s : State} (hs : Page s h) :
    ∃ m, heapInit L s = .ok ⟨m, true, s.locked⟩ ∧ Spells m h := by
  rcases hs with ⟨hin, hm⟩ | ⟨hin, rfl⟩
  · refine ⟨s.mem, ?_, hm⟩
    rw [Heap.heapInit, if_pos hin, ← hin]
  · obtain ⟨s', hs', hin', hlk, hm⟩ := heapInit_fresh (L := L) hin
    refine ⟨s'.mem, ?_, hm⟩
    rw [hs', ← hin', ← hlk]

theorem heapInit_locked (s : State) (x : Bool) :
    heapInit L { s with locked := x } = (heapInit L s).map (fun t => { t with locked := x }) := by
  rw [heapInit, heapInit]
  dsimp only
  by_cases hin : s.inited = true
  · rw [if_pos hin, if_pos hin]
    rfl
  · rw [if_neg hin, if_neg hin]
    by_cases hneg : L.blockSize < 0
    · rw [if_pos hneg, if_pos hneg]
      rfl
    · rw [if_neg hneg, if_neg hneg]
      split <;> rfl

/-- A request on an unlocked allocator first makes its heap. -/
theorem malloc_eq_inited {s : State} {m : Mem} {size : ℕ} (hl : s.locked = false)
    (hi : heapInit L s = .ok ⟨m, true, s.locked⟩) :
    malloc L s size = malloc L ⟨m, true, false⟩ size := by
  have hi' : heapInit L { s with locked := true } = .ok ⟨m, true, true⟩ := by
    rw [heapInit_locked, hi]
    rfl
  have hm : heapInit L ⟨m, true, true⟩ = .ok ⟨m, true, true⟩ := if_pos rfl
  simp only [malloc, hi', hm, hl, Bool.false_eq_true, if_false, ok_bind]

/-- The early returns leave the mutex held. -/
theorem malloc_outside {L : PageSpan} {m : Mem} {size : ℕ}
    (h : size = 0 ∨ L.maxIntraPodSize < size) :
    malloc L ⟨m, true, false⟩ size = .ok (0, ⟨m, true, true⟩) := by
  simp only [malloc, heapInit, Bool.false_eq_true, if_false, if_true, ok_bind, pure_eq]
  rcases h with rfl | h
  · rw [if_pos rfl]
  · rw [if_neg (Nat.ne_zero_of_lt h), if_pos h]

theorem malloc_locked {s : State} {size : ℕ} (hl : s.locked = true) :
    malloc L s size = .error .deadlock := by
  rw [malloc, if_pos hl]
  rfl

theorem free_locked {s : State} {addr : ℕ} (hl : s.locked = true) :
    free L s addr = .error .deadlock := by
  rw [free, if_pos hl]
  rfl

end Heap

/-- The way in which a call on a stuck allocator stops. -/
def Stuck (b : Prop) (e : Fault) : Prop := e = .deadlock ∧ b

/-- The sizes that `computeAsize` gives. -/
def Asize (size : ℕ) : Prop := 32 ≤ size ∧ size % 16 = 0

namespace Pod

/-- The page of the pod stands for `h`; the frees it has buffered are of distinct blocks in use. -/
structure Models (b : Prop) (p : Pod) (h : AbsHeap L) : Prop where
  page : Page p.heap h
  locked : p.heap.locked = true → b
  idle : p.isFlushing = false
  nodup : p.freeBuffer.Nodup
  pending : ∀ q ∈ p.freeBuffer, h.isLive q = true

variable {p q : Pod}

namespace Models

variable (hp : p.Models b h)
include hp

/-- Only the heap and the buffered frees matter. -/
theorem congr (hh : q.heap = p.heap) (hb : q.freeBuffer = p.freeBuffer)
    (hf : q.isFlushing = p.isFlushing) : q.Models b h :=
  ⟨hh ▸ hp.page, hh ▸ hp.locked, hf ▸ hp.idle, hb ▸ hp.nodup, hb ▸ hp.pending⟩

/-- A pod without an allocator has no free buffered. -/
theorem freeBuffer_eq_nil (hin : p.heap.inited = false) : p.freeBuffer = [] := by
  rcases hp.page with ⟨hin', -⟩ | ⟨-, rfl⟩
  · rw [hin] at hin'
    cases hin'
  · rw [eq_nil_iff_forall_not_mem]
    intro a ha
    obtain ⟨n, hn⟩ := (AbsHeap.fresh L).isLive_iff.mp (hp.pending a ha)
    exact AbsHeap.not_alloc_fresh a n hn

theorem heapInit : ∃ m, p.heapInit L = .ok { p with heap := ⟨m, true, p.heap.locked⟩ } ∧
    ({ p with heap := ⟨m, true, p.heap.locked⟩ } : Pod).Models b h := by
  obtain ⟨m, hm, hs⟩ := hp.page.heapInit
  refine ⟨m, ?_, .inl ⟨rfl, hs⟩, hp.locked, hp.idle, hp.nodup, hp.pending⟩
  rw [Pod.heapInit, hm]
  rfl

/-- The rank becomes the size of the largest free block. -/
theorem maxAllocatableSize : ∃ m, p.maxAllocatableSize L =
      .ok (h.maxSize, { p with heap := ⟨m, true, p.heap.locked⟩ }) ∧ Spells m h := by
  obtain ⟨m, hm, hs⟩ := hp.page.heapInit
  refine ⟨m, ?_, hs⟩
  have hmax := maxAllocatableSize_ok (s := ⟨m, true, p.heap.locked⟩) rfl hs
  have hsize : Heap.maxAllocatableSize L p.heap = .ok (h.maxSize, ⟨m, true, p.heap.locked⟩) := by
    rw [← hmax]
    simp only [Heap.maxAllocatableSize, hm, ok_bind]
    simp only [Heap.heapInit, if_true, ok_bind]
  rw [Pod.maxAllocatableSize, hsize]
  rfl

theorem updateRank : ∃ m, p.updateRank L = .ok (decide (h.maxSize ≠ p.oldRank),
      { p with heap := ⟨m, true, p.heap.locked⟩, rank := h.maxSize, oldRank := h.maxSize }) ∧
    ({ p with heap := ⟨m, true, p.heap.locked⟩, rank := h.maxSize, oldRank := h.maxSize } :
      Pod).Models b h := by
  obtain ⟨m, hsize, hs⟩ := hp.maxAllocatableSize
  refine ⟨m, ?_, .inl ⟨rfl, hs⟩, hp.locked, hp.idle, hp.nodup, hp.pending⟩
  rw [Pod.updateRank, hsize]
  rfl

theorem isEmpty_eq : p.isEmpty L = (p.heap.inited && h.isEmpty) := by
  rw [Pod.isEmpty, isForSmallAllocations]
  rcases hp.page with ⟨hin, hm⟩ | ⟨hin, -⟩
  · rw [Heap.isEmpty_eq hm]
  · rw [hin, Bool.false_and, Bool.false_and]

/-- A pod that is found empty has no block in use and no free buffered. -/
theorem of_isEmpty (he : p.isEmpty L = true) : h = .fresh L ∧ p.freeBuffer = [] := by
  rw [hp.isEmpty_eq, Bool.and_eq_true] at he
  refine ⟨AbsHeap.eq_fresh_of_isEmpty he.2, ?_⟩
  rw [eq_nil_iff_forall_not_mem]
  intro a ha
  obtain ⟨n, hn⟩ := h.isLive_iff.mp (hp.pending a ha)
  exact AbsHeap.isEmpty_not_alloc he.2 a n hn

/-- The page is thrown away and made anew. -/
theorem dropMemoryStayLocal (he : h = .fresh L) : ∃ m, p.dropMemoryStayLocal L false =
      .ok { p with heap := ⟨m, true, p.heap.locked⟩ } ∧
    ({ p with heap := ⟨m, true, p.heap.locked⟩ } : Pod).Models b h := by
  subst he
  have hr : ({ p.releaseMemory L with heap := { (p.releaseMemory L).heap with inited := false } } :
      Pod).Models b (AbsHeap.fresh L) :=
    ⟨.inr ⟨rfl, rfl⟩, hp.locked, hp.idle, hp.nodup, hp.pending⟩
  exact hr.heapInit

/-- The pod as it is when its memory was given back. -/
theorem localToInit (he : h = .fresh L) : (p.localToInit L).Models b h :=
  ⟨.inr ⟨rfl, he⟩, hp.locked, hp.idle, hp.nodup, hp.pending⟩

/-- A free is noted down. -/
theorem note {a : ℕ} (ha : h.isLive a = true) (hn : a ∉ p.freeBuffer) :
    ({ p with freeBuffer := p.freeBuffer ++ [a] } : Pod).Models b h := by
  refine ⟨hp.page, hp.locked, hp.idle, ?_, ?_⟩
  · exact nodup_append.mpr ⟨hp.nodup, nodup_singleton a, by
      rintro x hx y hy rfl
      exact hn (mem_singleton.mp hy ▸ hx)⟩
  · intro x hx
    rcases mem_append.mp hx with hx | hx
    · exact hp.pending x hx
    · rw [mem_singleton.mp hx]
      exact ha

theorem flushFreeBuffer_locked (hb : p.freeBuffer ≠ []) (hl : p.heap.locked = true) :
    p.flushFreeBuffer L = .error .deadlock := by
  cases hc : p.freeBuffer with
  | nil => exact absurd hc hb
  | cons x l =>
    simp [Pod.flushFreeBuffer, hp.idle, hc, foldlM_cons, podFreeNoLock, free_locked hl]

/-- A flush releases what is buffered. -/
theorem flushFreeBuffer : Yields (Stuck b) (p.flushFreeBuffer L) (fun q => ∃ s,
    q = { p with heap := s, freeBuffer := [] } ∧ s.inited = p.heap.inited ∧
      q.Models b (h.freeAll p.freeBuffer)) := by
  by_cases hb : p.freeBuffer = []
  · have he : p.flushFreeBuffer L = .ok p := by
      simp [Pod.flushFreeBuffer, hp.idle, hb]
    refine .of_ok he ⟨p.heap, ?_, rfl, ?_⟩
    · rw [← hb]
    · rw [hb]
      exact hp
  · have hin : p.heap.inited = true := by
      rw [← Bool.not_eq_false]
      exact fun hin => hb (hp.freeBuffer_eq_nil hin)
    have hsp : Spells p.mem h := (hp.page.resolve_right (by simp [hin])).2
    cases hl : p.heap.locked with
    | true =>
      rw [hp.flushFreeBuffer_locked hb hl]
      exact ⟨rfl, hp.locked hl⟩
    | false =>
      obtain ⟨s, hs, hr, -⟩ := flushFreeBuffer_ok ⟨⟨hin, hl, hsp⟩, hp.idle, hp.nodup, hp.pending⟩
      refine .of_ok hs ⟨s, rfl, hr.inited.trans hin.symm, .inl ⟨hr.inited, hr.spells⟩, ?_, hp.idle,
        nodup_nil, by simp⟩
      change s.locked = true → b
      rw [hr.unlocked]
      exact fun hc => absurd hc Bool.false_ne_true

/-- On an unlocked allocator a request that fits a page is first fit on the heap. -/
theorem podMalloc_unlocked (hst : p.state = .local_) (hl : p.heap.locked = false) (a : Request L) :
    ∃ s, p.podMalloc L a.size = .ok ((h.malloc a).1.getD 0, { p with heap := s }) ∧
      s.inited = true ∧ ({ p with heap := s } : Pod).Models b (h.malloc a).2 := by
  obtain ⟨m, hm, hs⟩ := hp.page.heapInit
  obtain ⟨s, hs', hr, -⟩ := malloc_ok hs.rep a
  refine ⟨s, ?_, hr.inited, .inl ⟨hr.inited, hr.spells⟩, ?_, hp.idle, hp.nodup, ?_⟩
  · rw [Pod.podMalloc, if_neg (not_not.mpr hst), malloc_eq_inited hl hm, hs']
    rfl
  · change s.locked = true → b
    rw [hr.unlocked]
    exact fun hc => absurd hc Bool.false_ne_true
  · intro x hx
    rcases h.malloc_cases a with hno | ⟨y, h', hyes, -, ht⟩
    · rw [hno]
      exact hp.pending x hx
    · rw [hyes]
      exact ht.isLive (hp.pending x hx)

/-- A request is refused and nothing changes, or it takes a block. -/
theorem podMalloc (hst : p.state = .local_) {size : ℕ} (hz : Asize size)
    (hb : L.maxIntraPodSize < size → b) :
    Yields (Stuck b) (p.podMalloc L size) (fun r => ∃ s h', r.2 = { p with heap := s } ∧
      s.inited = true ∧ r.2.Models b h' ∧ (r.1 = 0 ∧ h' = h ∨ r.1 ≠ 0 ∧ h.Took h' size r.1)) := by
  cases hl : p.heap.locked with
  | true =>
    have he : p.podMalloc L size = .error .deadlock := by
      rw [Pod.podMalloc, if_neg (not_not.mpr hst), malloc_locked hl]
      rfl
    rw [he]
    exact ⟨rfl, hp.locked hl⟩
  | false =>
    obtain ⟨m, hm, hs⟩ := hp.page.heapInit
    by_cases hov : L.maxIntraPodSize < size
    · rw [Pod.podMalloc, if_neg (not_not.mpr hst), malloc_eq_inited hl hm,
        malloc_outside (.inr hov)]
      exact ⟨_, h, rfl, rfl, ⟨.inl ⟨rfl, hs⟩, fun _ => hb hov, hp.idle, hp.nodup, hp.pending⟩,
        .inl ⟨rfl, rfl⟩⟩
    · obtain ⟨s, hrun, hin, hmod⟩ :=
        hp.podMalloc_unlocked hst hl ⟨size, hz.1, hz.2, not_lt.mp hov⟩
      refine .of_ok hrun ?_
      rcases h.malloc_cases ⟨size, hz.1, hz.2, not_lt.mp hov⟩ with hno | ⟨x, h', hyes, hx, ht⟩
      · rw [hno] at hmod ⊢
        exact ⟨s, h, rfl, hin, hmod, .inl ⟨rfl, rfl⟩⟩
      · rw [hyes] at hmod ⊢
        exact ⟨s, h', rfl, hin, hmod, .inr ⟨hs.ne_zero hx, ht⟩⟩

end Models

end Pod

end Remon
