import Remon.Heap.Refinement

/-! # What the allocator reports about its page

The queries read the same words as the operations do. On the image of an
abstract heap each of them is a function of that heap.
-/

namespace Remon.Heap
open Lib Fault List

variable {L : Layout} {m : Mem} {h : AbsHeap L}

namespace AbsHeap

def maxSize (h : AbsHeap L) : ℕ := (h.freeList.map h.sizeAt).foldl max 0

/-- One free block covers the page. -/
def isEmpty (h : AbsHeap L) : Bool := h.blocks = [⟨L.payloadSize - 16, true⟩]

/-- Offset of the last block if it is free, else the size of the page. -/
def tailFree (h : AbsHeap L) : ℕ :=
  match h.blocks.getLast? with
  | some b => if b.free then L.payloadSize - b.size else L.payloadSize
  | none => L.payloadSize

theorem isEmpty_not_alloc (he : h.isEmpty = true) (p n : ℕ) : ¬ h.Alloc p n := by
  have hb : h.blocks = [⟨L.payloadSize - 16, true⟩] := by
    simpa [isEmpty] using he
  simp [Alloc, hb]

theorem isEmpty_of_size {p : ℕ} (hp : p ∈ h.freeList) (hs : h.sizeAt p = L.payloadSize - 16) :
    h.isEmpty = true := by
  obtain ⟨l₁, b, l₂, he, -, hf, hsz⟩ := h.split_of_mem hp
  have hfill := h.sized.fill
  have hge := L.size_ge
  have hsmall : ∀ c ∈ l₁ ++ l₂, total (l₁ ++ l₂) = 0 → False := by
    intro c hc ht
    obtain ⟨r₁, r₂, hr⟩ := append_of_mem hc
    have h1 := h.sized.pos c (by
      rw [he]
      rcases mem_append.mp hc with hc | hc
      · simp [hc]
      · simp [hc])
    rw [hr, total_append, total_cons] at ht
    omega
  have hz : total (l₁ ++ l₂) = 0 := by
    rw [he] at hfill
    simp only [total_append, total_cons] at hfill ⊢
    omega
  have hnil : l₁ ++ l₂ = [] := by
    rw [eq_nil_iff_forall_not_mem]
    intro c hc
    exact hsmall c hc hz
  obtain ⟨rfl, rfl⟩ := append_eq_nil_iff.mp hnil
  obtain ⟨n, f⟩ := b
  dsimp only at hf hsz
  simp only [isEmpty, he, nil_append, decide_eq_true_eq, ← hs, hsz, hf]

end AbsHeap

/-- A loop along the free list that folds the sizes of the blocks. -/
theorem Spells.fold_eq (hi : Spells m h) (loop : ℕ → ℕ → ℕ → Except Fault ℕ) (f : ℕ → ℕ → ℕ)
    (hs : ∀ fuel x acc, loop (fuel + 1) x acc =
      if m.get (nextFree x) = 0 then .ok (f acc (getBlockSize m x))
      else loop fuel (m.get (nextFree x)) (f acc (getBlockSize m x)))
    {fuel x acc : ℕ} {l₁ l₂ : List ℕ} (he : h.freeList = l₁ ++ x :: l₂) (hf : l₂.length < fuel) :
    loop fuel x acc = .ok (((x :: l₂).map h.sizeAt).foldl f acc) := by
  induction l₂ generalizing l₁ x acc fuel with
  | nil =>
    obtain ⟨fuel, rfl⟩ : ∃ k, fuel = k + 1 := ⟨fuel - 1, by simp at hf; omega⟩
    simp [hs, hi.getBlockSize_eq (show x ∈ h.freeList by simp [he]), hi.next_eq he]
  | cons y l₂ ih =>
    obtain ⟨fuel, rfl⟩ : ∃ k, fuel = k + 1 := ⟨fuel - 1, by simp at hf; omega⟩
    have hy : y ≠ 0 := hi.ne_zero (by simp [he])
    rw [hs, hi.getBlockSize_eq (show x ∈ h.freeList by simp [he]), hi.next_eq he, headD_cons,
      if_neg hy, ih (show h.freeList = (l₁ ++ [x]) ++ y :: l₂ by simp [he]) (by simpa using hf)]
    rfl

theorem maxAllocatableSize_ok {s : State} (hin : s.inited = true) (hi : Spells s.mem h) :
    maxAllocatableSize L s = .ok (h.maxSize, s) := by
  have hlen := h.freeList_length_lt
  simp only [maxAllocatableSize, heapInit, hin, if_true, ok_bind, pure_eq,
    hi.freeHead_eq, AbsHeap.maxSize]
  cases hl : h.freeList with
  | nil => simp
  | cons x l₂ =>
    have hx : x ≠ 0 := hi.ne_zero (by simp [hl])
    rw [hl, length_cons] at hlen
    have hmax : ∀ acc n : ℕ, (if n > acc then n else acc) = max acc n := by
      intro acc n
      split <;> omega
    rw [headD_cons, if_neg hx, hi.fold_eq (maxOnList s.mem) max
      (fun _ _ _ => by rw [maxOnList, hmax])
      (show h.freeList = [] ++ x :: l₂ by simp [hl]) (by omega)]
    rfl

theorem isEmpty_eq (hi : Spells m h) : isEmpty L m = h.isEmpty := by
  have hge := L.size_ge
  rw [isEmpty, hi.freeHead_eq]
  cases hl : h.freeList with
  | nil =>
    have hb : h.blocks ≠ [⟨L.payloadSize - 16, true⟩] := by
      intro hb
      have hm := (h.mem_freeList L.firstBlock).mpr (by
        rw [hb, freeStarts_cons]
        simp)
      simp [hl] at hm
    simp [AbsHeap.isEmpty, hb]
  | cons x l₂ =>
    have hx : x ∈ h.freeList := by simp [hl]
    have hx0 := hi.ne_zero hx
    rw [headD_cons, hi.getBlockSize_eq hx]
    simp only [ne_eq, hx0, not_false_eq_true, decide_true, Bool.true_and, dsize]
    by_cases hs : h.sizeAt x = L.payloadSize - 16
    · rw [AbsHeap.isEmpty_of_size hx hs]
      simp [hs]
    · have hne : ¬ h.isEmpty = true := by
        intro hc
        have hb : h.blocks = [⟨L.payloadSize - 16, true⟩] := by
          simpa [AbsHeap.isEmpty] using hc
        have hm := (h.mem_freeList x).mp hx
        rw [hb, mem_freeStarts] at hm
        obtain ⟨b, hb', -⟩ := hm
        rw [h.sizeAt_of_mem (by rw [hb]; exact hb')] at hs
        simp only [mem_place_cons, not_mem_place_nil, or_false, Prod.mk.injEq] at hb'
        rw [hb'.2] at hs
        exact hs rfl
      simp [hs, hne]

theorem getTailFreeBlock_eq (hi : Spells m h) : getTailFreeBlock L m = h.tailFree := by
  have hge := L.size_ge
  have hne : h.blocks ≠ [] := by
    intro hb
    have := h.sized.fill
    rw [hb] at this
    simp at this
    omega
  obtain ⟨l, b, hb⟩ := (eq_nil_or_concat' h.blocks).resolve_left hne
  have hplace : (L.firstBlock + total l, b) ∈ place L.firstBlock h.blocks := by
    rw [hb]
    exact mem_place_split _ _ _ _
  have hpl := h.sized.placed hplace
  have hfill := h.sized.fill
  rw [hb, total_append, total_cons, total_nil] at hfill
  have hfoot : m.get (L.payloadEnd - 16) = tag b := by
    rw [← (hi.edges.tags _ hplace).2]
    congr 1
    simp only [PageSpan.payloadEnd, PageSpan.firstBlock]
    omega
  rw [getTailFreeBlock, getAlloc, dsize, hfoot, tag_alloc hpl.2.2.2, getSize_of_get hfoot,
    tag_size hpl.2.2.2, AbsHeap.tailFree, hb, List.getLast?_concat]
  simp only [PageSpan.payloadEnd] at hpl ⊢
  by_cases hf : b.free = true
  · simp only [hf, if_true]
    omega
  · simp [hf]

/-! ## The self check -/

def totalOf (f : Bool) (bs : List Block) : ℕ := total (bs.filter (fun b => b.free == f))

theorem totalOf_cons (f : Bool) (b : Block) (bs : List Block) :
    totalOf f (b :: bs) = (if b.free == f then b.size else 0) + totalOf f bs := by
  rw [totalOf, filter_cons]
  split <;> simp [totalOf]

theorem totalOf_add (bs : List Block) : totalOf true bs + totalOf false bs = total bs := by
  induction bs with
  | nil => rfl
  | cons b bs ih =>
    rw [totalOf_cons, totalOf_cons, total_cons]
    cases b.free <;> simp <;> omega

theorem sumBlocks_eq {bs l₁ l₂ : List Block} {b : Block} (he : Edges L m bs)
    (hb : bs = l₁ ++ b :: l₂) {fuel f a : ℕ} (hf : l₂.length < fuel) :
    sumBlocks L m fuel (L.firstBlock + total l₁) f a =
      .ok (f + totalOf true (b :: l₂), a + totalOf false (b :: l₂), []) := by
  induction l₂ generalizing l₁ b f a fuel with
  | nil =>
    obtain ⟨fuel, rfl⟩ : ∃ k, fuel = k + 1 := ⟨fuel - 1, by omega⟩
    obtain ⟨hs, hal⟩ := he.read (hb ▸ mem_place_split L.firstBlock l₁ b [])
    have hfill := he.sized.fill
    rw [hb, total_append, total_cons, total_nil] at hfill
    have hend : L.firstBlock + total l₁ + b.size = L.payloadEnd := by
      simp only [PageSpan.firstBlock, PageSpan.payloadEnd]
      omega
    simp only [sumBlocks, nextBlkp, hs, hal, hend, totalOf_cons]
    cases b.free <;> simp [totalOf]
  | cons c l₂ ih =>
    obtain ⟨fuel, rfl⟩ : ∃ k, fuel = k + 1 := ⟨fuel - 1, by omega⟩
    obtain ⟨hs, hal⟩ := he.read (hb ▸ mem_place_split L.firstBlock l₁ b (c :: l₂))
    have hb' : bs = (l₁ ++ [b]) ++ c :: l₂ := by
      simp [hb]
    have hc := he.sized.placed (hb' ▸ mem_place_split L.firstBlock (l₁ ++ [b]) c l₂)
    have hnext : L.firstBlock + total (l₁ ++ [b]) = L.firstBlock + total l₁ + b.size := by
      simp [Nat.add_assoc]
    rw [hnext] at hc
    simp only [sumBlocks, nextBlkp, hs, hal,
      show ¬ L.firstBlock + total l₁ + b.size > L.payloadEnd by omega,
      show ¬ L.firstBlock + total l₁ + b.size = L.payloadEnd by omega,
      show ¬ L.firstBlock + total l₁ + b.size = 0 by omega, if_false]
    rw [← hnext, ih hb' (by simpa using hf), totalOf_cons true b, totalOf_cons false b]
    cases b.free <;> simp [Nat.add_assoc]

theorem freeList_perm (h : AbsHeap L) : h.freeList.Perm (freeStarts L.firstBlock h.blocks) := by
  refine (perm_ext_iff_of_nodup h.nodup ?_).mpr h.mem_freeList
  exact (place_nodup h.sized.pos).sublist (filter_sublist.map _)

/-- The sizes on the free list are those of the free blocks. -/
theorem freeList_sizes (h : AbsHeap L) :
    (h.freeList.map h.sizeAt).Perm ((h.blocks.filter Block.free).map Block.size) := by
  refine ((freeList_perm h).map h.sizeAt).trans (List.Perm.of_eq ?_)
  have hgen : ∀ l₂ l₁ : List Block, h.blocks = l₁ ++ l₂ →
      (freeStarts (L.firstBlock + total l₁) l₂).map h.sizeAt =
        (l₂.filter Block.free).map Block.size := by
    intro l₂
    induction l₂ with
    | nil =>
      intro l₁ _
      rfl
    | cons b l₂ ih =>
      intro l₁ hb
      have hs := h.sizeAt_of_mem (hb ▸ mem_place_split L.firstBlock l₁ b l₂)
      have hrec := ih (l₁ ++ [b]) (by simp [hb])
      rw [total_append, total_cons, total_nil, Nat.add_zero, ← Nat.add_assoc] at hrec
      rw [freeStarts_cons, filter_cons]
      cases b.free <;> simp [hs, hrec]
  exact hgen h.blocks [] rfl

theorem freeList_sum (h : AbsHeap L) :
    (h.freeList.map h.sizeAt).sum = totalOf true h.blocks := by
  rw [(freeList_sizes h).sum_eq, totalOf, total]
  simp

/-- The self check has nothing to report. -/
theorem debugPrint_eq (hi : Spells m h) : debugPrint L m = .ok [] := by
  have hge := L.size_ge
  have hfill := h.sized.fill
  have hblen := h.sized.length_lt
  have hne : h.blocks ≠ [] := by
    intro hb
    rw [hb] at hfill
    simp at hfill
    omega
  obtain ⟨b, l₂, hb⟩ := exists_cons_of_ne_nil hne
  have hblocks : sumBlocks L m L.payloadSize (L.payloadStart + dsize) 0 0 =
      .ok (totalOf true h.blocks, totalOf false h.blocks, []) := by
    have hlen : l₂.length < L.payloadSize := by
      rw [hb, length_cons] at hblen
      omega
    have hs := sumBlocks_eq hi.edges (show h.blocks = [] ++ b :: l₂ from hb) hlen (f := 0) (a := 0)
    rw [← hb, Nat.zero_add, Nat.zero_add] at hs
    exact hs
  have hlist : (if freeHead L m ≠ 0 then sumFreeList m L.payloadSize (freeHead L m) 0
      else pure 0) = .ok (totalOf true h.blocks) := by
    have hlen := h.freeList_length_lt
    rw [hi.freeHead_eq, ← freeList_sum h]
    cases hl : h.freeList with
    | nil => rfl
    | cons x xs =>
      have hx : x ≠ 0 := hi.ne_zero (by simp [hl])
      rw [hl, length_cons] at hlen
      rw [headD_cons, if_pos hx, hi.fold_eq (sumFreeList m) (· + ·) (fun _ _ _ => rfl)
        (show h.freeList = [] ++ x :: xs by simp [hl]) (by omega), sum_eq_foldl]
  have hsum := totalOf_add h.blocks
  have hall : totalOf true h.blocks + totalOf false h.blocks = L.payloadSize - overhead := by
    simp only [overhead, dsize]
    omega
  by_cases hz : freeHead L m = 0
  · simp only [hz, ne_eq, not_true_eq_false, if_false, pure_eq, Except.ok.injEq] at hlist
    rw [← hlist, Nat.zero_add] at hall
    simp [debugPrint, hz, hblocks, hall, ← hlist]
  · simp only [ne_eq, hz, not_false_eq_true, if_true] at hlist
    simp [debugPrint, hz, hblocks, hall, hlist]

end Remon.Heap
