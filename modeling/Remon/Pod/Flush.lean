import Remon.Lib.Yields
import Remon.Pod.Pod

/-! # Buffered frees

A free of a block on a page that is not resident is only noted down. The note is
legal while the block is in use and noted once; flushing then releases exactly
the noted blocks and touches no byte of any other.
-/

namespace Remon
open Lib Heap List

variable {L : Layout} {h : AbsHeap L}

namespace Heap.AbsHeap

def freeAll (h : AbsHeap L) (bps : List ℕ) : AbsHeap L := bps.foldl free h

theorem freeAll_cons (h : AbsHeap L) (bp : ℕ) (bps : List ℕ) :
    h.freeAll (bp :: bps) = (h.free bp).freeAll bps := rfl

theorem isLive_free {p q : ℕ} (hp : h.isLive p = true) (hq : h.isLive q = true) (hne : q ≠ p) :
    (h.free p).isLive q = true := by
  obtain ⟨n, hn⟩ := h.isLive_iff.mp hq
  exact (h.free p).isLive_iff.mpr ⟨n, (alloc_free hp).mpr ⟨hn, hne⟩⟩

theorem alloc_freeAll {bps : List ℕ} (hnd : bps.Nodup) (hl : ∀ p ∈ bps, h.isLive p = true)
    {q n : ℕ} : (h.freeAll bps).Alloc q n ↔ h.Alloc q n ∧ q ∉ bps := by
  induction bps generalizing h with
  | nil => simp [freeAll]
  | cons p bps ih =>
    obtain ⟨hp, hnd⟩ := nodup_cons.mp hnd
    have hlp := hl p (by simp)
    have hl' : ∀ r ∈ bps, (h.free p).isLive r = true := by
      intro r hr
      exact isLive_free hlp (hl r (by simp [hr])) (fun he => hp (he ▸ hr))
    rw [freeAll_cons, ih hnd hl', alloc_free hlp, mem_cons]
    tauto

/-- The page is full to its end exactly when its last block is in use. -/
theorem tailFree_eq_size_iff :
    h.tailFree = L.payloadSize ↔ ∃ q n, h.Alloc q n ∧ q + n = L.payloadEnd := by
  have hend : L.payloadEnd = L.payloadStart + L.payloadSize := rfl
  constructor
  · intro ht
    have hfill := h.sized.fill
    have hge := L.size_ge
    rw [tailFree] at ht
    rcases eq_nil_or_concat' h.blocks with hb | ⟨l, b, hb⟩
    · rw [hb, total_nil] at hfill
      omega
    · have hm := mem_place_split L.firstBlock l b []
      rw [hb, total_append, total_cons, total_nil] at hfill
      rw [hb, List.getLast?_concat] at ht
      have hpos := h.sized.pos b (by simp [hb])
      obtain ⟨n, f⟩ := b
      cases f with
      | true =>
        simp only [if_true] at ht
        dsimp only at hpos
        omega
      | false =>
        refine ⟨_, n, by rw [Alloc, hb]; exact hm, ?_⟩
        simp only [PageSpan.firstBlock] at hfill ⊢
        omega
  · rintro ⟨q, n, hq, he⟩
    rcases h.tailFree_cases with ht | ⟨b, hb, hf, ht⟩
    · exact ht
    · have hqs := h.sized.placed hq
      have hbs := h.sized.placed hb
      dsimp only at hqs
      rcases place_disjoint hq hb with ⟨-, rfl⟩ | hd | hd
      · simp at hf
      · dsimp only at hd
        omega
      · omega

theorem tailFree_freeAll {bps : List ℕ} (hnd : bps.Nodup) (hl : ∀ p ∈ bps, h.isLive p = true)
    (ht : h.tailFree ≠ L.payloadSize) : (h.freeAll bps).tailFree ≠ L.payloadSize := by
  intro hc
  obtain ⟨q, n, hq, he⟩ := tailFree_eq_size_iff.mp hc
  exact ht (tailFree_eq_size_iff.mpr ⟨q, n, ((alloc_freeAll hnd hl).mp hq).1, he⟩)

end Heap.AbsHeap

namespace Pod

/-- The page of a pod is the image of `h`, and the frees it has buffered are of distinct
blocks in use. -/
structure Small (p : Pod) (h : AbsHeap L) : Prop where
  rep : Rep p.heap h
  idle : p.isFlushing = false
  nodup : p.freeBuffer.Nodup
  pending : ∀ q ∈ p.freeBuffer, h.isLive q = true

variable {p : Pod}

theorem foldlM_podFreeNoLock {bps : List ℕ} (hr : Rep p.heap h) (hnd : bps.Nodup)
    (hl : ∀ q ∈ bps, h.isLive q = true) :
    ∃ s, bps.foldlM (podFreeNoLock L) p = .ok { p with heap := s } ∧ Rep s (h.freeAll bps) ∧
      ∀ i, (h.freeAll bps).InUse i → s.mem i = p.mem i := by
  induction bps generalizing p h with
  | nil => exact ⟨p.heap, rfl, hr, fun i _ => rfl⟩
  | cons q bps ih =>
    obtain ⟨hq, hnd⟩ := nodup_cons.mp hnd
    have hlq := hl q (by simp)
    have hl' : ∀ r ∈ bps, (h.free q).isLive r = true := by
      intro r hr
      exact AbsHeap.isLive_free hlq (hl r (by simp [hr])) (fun he => hq (he ▸ hr))
    obtain ⟨s₁, hf, hr₁, hframe₁⟩ := free_ok hr hlq
    obtain ⟨s, hs, hrs, hframe⟩ := ih (p := { p with heap := s₁ }) hr₁ hnd hl'
    refine ⟨s, ?_, hrs, ?_⟩
    · rw [foldlM_cons, podFreeNoLock, hf]
      exact hs
    · intro i hi
      rw [hframe i hi]
      obtain ⟨r, n, hrn, h1, h2⟩ := hi
      exact hframe₁ i ⟨r, n, ((AbsHeap.alloc_freeAll hnd hl').mp hrn).1, h1, h2⟩

/-- Whatever the buffer holds, a flush works on the heap of the page and on the buffer only. -/
theorem flushFreeBuffer_frame (L : Layout) (p : Pod) :
    Yields (fun _ => True) (p.flushFreeBuffer L)
      (fun q => ∃ s l, q = { p with heap := s, freeBuffer := l }) := by
  unfold flushFreeBuffer
  split
  · exact ⟨_, _, rfl⟩
  split
  · exact ⟨_, _, rfl⟩
  refine Yields.bind (P := fun q : Pod => ∃ s, q = { p with heap := s }) ?_ ?_
  · refine Yields.foldlM (I := fun _ (q : Pod) => ∃ s, q = { p with heap := s }) ?_ ⟨_, rfl⟩
    rintro a l q ⟨s, rfl⟩
    unfold podFreeNoLock
    cases Heap.free L s a with
    | error e => trivial
    | ok t => exact ⟨t, rfl⟩
  · rintro q ⟨s, rfl⟩
    exact ⟨s, [], rfl⟩

/-- A flush empties the buffer and releases what was in it. -/
theorem flushFreeBuffer_ok (hp : p.Small h) :
    ∃ s, p.flushFreeBuffer L = .ok { p with heap := s, freeBuffer := [] } ∧
      Rep s (h.freeAll p.freeBuffer) ∧
      ∀ i, (h.freeAll p.freeBuffer).InUse i → s.mem i = p.mem i := by
  obtain ⟨s, hs, hr, hframe⟩ := foldlM_podFreeNoLock hp.rep hp.nodup hp.pending
  refine ⟨s, ?_, hr, hframe⟩
  rw [flushFreeBuffer, if_neg (by simp [hp.idle])]
  cases hb : p.freeBuffer with
  | nil =>
    rw [hb] at hs
    obtain rfl : p.heap = s := by
      injection hs with hs
      exact congrArg Pod.heap hs
    rw [if_pos isEmpty_nil, ← hb]
  | cons q bps =>
    rw [hb] at hs
    simp [hs]

end Pod

end Remon
