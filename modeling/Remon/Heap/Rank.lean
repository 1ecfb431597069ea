import Remon.Heap.Sessions

/-! # The rank of a page and the requests it can serve

`maxAllocatableSize` walks the free list for the largest block, `malloc` for the first
one that is large enough. On every page of the invariant the first number says what the
second walk finds, and it is the largest size among the free blocks of the tiling.
-/

namespace Remon.Heap
open Lib

/-- Size of the largest free block of a tiling, `0` when there is none. -/
def largestFree (bs : List Block) : ℕ := ((bs.filter Block.free).map Block.size).foldl max 0

theorem lt_foldl_max {l : List ℕ} {a x : ℕ} : a < l.foldl max x ↔ a < x ∨ ∃ y ∈ l, a < y := by
  induction l generalizing x with
  | nil => simp
  | cons y l ih =>
    rw [List.foldl_cons, ih, lt_max_iff]
    simp [or_assoc]

theorem le_largestFree {bs : List Block} {a : ℕ} (ha : 0 < a) :
    a ≤ largestFree bs ↔ ∃ b ∈ bs, b.free = true ∧ a ≤ b.size := by
  obtain ⟨a, rfl⟩ := Nat.exists_eq_add_of_lt ha
  rw [Nat.zero_add, Nat.add_one_le_iff, largestFree, lt_foldl_max]
  simp [and_assoc]

theorem largestFree_eq_zero {bs : List Block} (hpos : ∀ b ∈ bs, 0 < b.size) :
    largestFree bs = 0 ↔ ∀ b ∈ bs, b.free = false := by
  have hiff : 1 ≤ largestFree bs ↔ ∃ b ∈ bs, b.free = true ∧ 1 ≤ b.size :=
    le_largestFree Nat.one_pos
  constructor
  · intro hz b hb
    by_contra hf
    have hle := hiff.mpr ⟨b, hb, by simpa using hf, hpos b hb⟩
    omega
  · intro hall
    by_contra hne
    obtain ⟨b, hb, hf, -⟩ := hiff.mp (Nat.one_le_iff_ne_zero.mpr hne)
    rw [hall b hb] at hf
    cases hf

variable {L : Layout} {h : AbsHeap L} {s : State}

theorem AbsHeap.maxSize_eq (h : AbsHeap L) : h.maxSize = largestFree h.blocks :=
  (freeList_sizes h).foldl_eq 0

theorem AbsHeap.firstFit_isSome {a : ℕ} (ha : 0 < a) :
    (h.firstFit a).isSome = true ↔ a ≤ h.maxSize := by
  obtain ⟨a, rfl⟩ := Nat.exists_eq_add_of_lt ha
  rw [firstFit, List.find?_isSome, maxSize, Nat.zero_add, Nat.add_one_le_iff, lt_foldl_max]
  simp

theorem Rep.malloc_ne_zero (hr : Rep s h) (a : Request L) :
    (h.malloc a).1.getD 0 ≠ 0 ↔ a.size ≤ h.maxSize := by
  have hpos : 0 < a.size := lt_of_lt_of_le (by decide) a.ge
  rw [← AbsHeap.firstFit_isSome hpos, AbsHeap.malloc]
  cases hff : h.firstFit a.size with
  | none => simp
  | some p => simpa using hr.spells.ne_zero (firstFit_some hff).1

theorem Rep.maxAllocatableSize (hr : Rep s h) :
    maxAllocatableSize L s = .ok (largestFree h.blocks, s) := by
  rw [← h.maxSize_eq]
  exact maxAllocatableSize_ok hr.inited hr.spells

end Remon.Heap
