import Remon.Heap.Allocator
import Remon.Lib.Tiling

/-! # The heap a page stands for

An abstract heap is the list of blocks of the page and the order of its free
list. The fields carry what every page keeps: the blocks have legal sizes and
fill the page, and the free list names each free block once. `malloc` takes the
first block of the free list that fits; `free` joins the freed block with the
free blocks to its right and puts it in front.
-/

namespace Remon.Heap
open Lib List

def PageSpan.firstBlock (L : PageSpan) : ℕ := L.payloadStart + 16

/-- Blocks of the sizes the allocator produces, which together fill the page. -/
structure Sized (L : Layout) (bs : List Block) : Prop where
  fill : total bs + 16 = L.payloadSize
  size : ∀ b ∈ bs, 32 ≤ b.size ∧ b.size % 16 = 0

structure AbsHeap (L : Layout) where
  blocks : List Block
  freeList : List ℕ
  sized : Sized L blocks
  nodup : freeList.Nodup
  mem_freeList : ∀ p, p ∈ freeList ↔ p ∈ freeStarts L.firstBlock blocks

/-- The sizes that callers round their requests to. -/
structure Request (L : Layout) where
  size : ℕ
  ge : 32 ≤ size
  aligned : size % 16 = 0
  le : size ≤ L.maxIntraPodSize

variable {L : Layout} {bs : List Block}

theorem PageSpan.size_ge (L : PageSpan) : 4096 ≤ L.payloadSize := by
  have h1 := L.size_pos
  have h2 := L.size_page
  omega

theorem Sized.pos (h : Sized L bs) : ∀ b ∈ bs, 0 < b.size := by
  intro b hb
  have := (h.size b hb).1
  omega

theorem Sized.placed (h : Sized L bs) {p : ℕ} {b : Block} (hq : (p, b) ∈ place L.firstBlock bs) :
    L.payloadStart + 16 ≤ p ∧ p + b.size ≤ L.payloadEnd ∧ 32 ≤ b.size ∧ b.size % 16 = 0 := by
  have hb := place_bounds hq
  have hs := h.size b (block_mem_of_mem_place hq)
  have hf := h.fill
  simp only [PageSpan.firstBlock, PageSpan.payloadEnd] at hb ⊢
  omega

theorem Sized.apart (h : Sized L bs) {p q : ℕ} {b c : Block} (hp : (p, b) ∈ place L.firstBlock bs)
    (hq : (q, c) ∈ place L.firstBlock bs) (hne : p ≠ q) : p + 16 ≤ q ∨ q + 16 ≤ p := by
  have h1 := h.placed hp
  have h2 := h.placed hq
  rcases place_disjoint hp hq with ⟨he, -⟩ | hd | hd
  · exact absurd he hne
  · omega
  · omega

namespace AbsHeap

/-- The whole page as one free block. -/
def fresh (L : Layout) : AbsHeap L where
  blocks := [⟨L.payloadSize - 16, true⟩]
  freeList := [L.firstBlock]
  sized := by
    have h1 := L.size_ge
    have h2 := L.size_page
    refine ⟨by simp; omega, ?_⟩
    intro b hb
    rw [mem_singleton.mp hb]
    dsimp only
    omega
  nodup := by simp
  mem_freeList p := by simp [freeStarts, place]

/-- The block at `p` is in use and has size `n`. -/
def Alloc (h : AbsHeap L) (p n : ℕ) : Prop := (p, ⟨n, false⟩) ∈ place L.firstBlock h.blocks

theorem not_alloc_fresh (p n : ℕ) : ¬ (fresh L).Alloc p n := by simp [Alloc, fresh]

def sizeAt (h : AbsHeap L) (p : ℕ) : ℕ := ((blockAt L.firstBlock h.blocks p).map Block.size).getD 0

def isLive (h : AbsHeap L) (p : ℕ) : Bool :=
  (blockAt L.firstBlock h.blocks p).any (fun b => !b.free)

def firstFit (h : AbsHeap L) (a : ℕ) : Option ℕ := h.freeList.find? (fun p => a ≤ h.sizeAt p)

variable (h : AbsHeap L)

theorem sizeAt_of_mem {p : ℕ} {b : Block} (hb : (p, b) ∈ place L.firstBlock h.blocks) :
    h.sizeAt p = b.size := by
  simp [sizeAt, (blockAt_eq_some h.sized.pos).mpr hb]

theorem isLive_iff {p : ℕ} : h.isLive p = true ↔ ∃ n, h.Alloc p n := by
  constructor
  · intro hl
    cases hb : blockAt L.firstBlock h.blocks p with
    | none => simp [isLive, hb] at hl
    | some b =>
      have hf : b.free = false := by simpa [isLive, hb] using hl
      have hm := (blockAt_eq_some h.sized.pos).mp hb
      obtain ⟨n, f⟩ := b
      exact ⟨n, by rw [Alloc, ← hf]; exact hm⟩
  · rintro ⟨n, hn⟩
    simp [isLive, (blockAt_eq_some h.sized.pos).mpr hn]

/-- A member of the free list splits the blocks at its position. -/
theorem split_of_mem {p : ℕ} (hp : p ∈ h.freeList) :
    ∃ l₁ b l₂, h.blocks = l₁ ++ b :: l₂ ∧ p = L.firstBlock + total l₁ ∧ b.free = true ∧
      h.sizeAt p = b.size := by
  obtain ⟨b, hb, hf⟩ := mem_freeStarts.mp ((h.mem_freeList p).mp hp)
  obtain ⟨l₁, l₂, he, hpe⟩ := exists_split_of_mem hb
  exact ⟨l₁, b, l₂, he, hpe, hf, h.sizeAt_of_mem hb⟩

/-! ## Allocation -/

theorem sized_pieces {l₁ l₂ : List Block} {b : Block} {a : ℕ} (hs : Sized L (l₁ ++ b :: l₂))
    (ha : 32 ≤ a) (hm : a % 16 = 0) (hle : a ≤ b.size) : Sized L (l₁ ++ pieces b a 32 ++ l₂) := by
  have hb := hs.size b (by simp)
  refine ⟨?_, ?_⟩
  · have hf := hs.fill
    simp only [total_append, total_cons, total_pieces 32 hle] at hf ⊢
    omega
  · intro c hc
    simp only [mem_append] at hc
    rcases hc with (hc | hc) | hc
    · exact hs.size c (by simp [hc])
    · unfold pieces at hc
      split at hc
      · rw [mem_singleton.mp hc]
        exact hb
      · simp only [mem_cons, not_mem_nil, or_false] at hc
        rcases hc with rfl | rfl
        · exact ⟨ha, hm⟩
        · dsimp only
          omega
    · exact hs.size c (by simp [hc])

/-- What is left of a free block goes back in front of the list. -/
def rest (h : AbsHeap L) (a p : ℕ) : List ℕ :=
  if h.sizeAt p - a < 32 then [] else [p + a]

theorem mem_rest_append {a p q : ℕ} (hp : p ∈ h.freeList) (ha : 32 ≤ a) (hle : a ≤ h.sizeAt p) :
    q ∈ h.rest a p ++ h.freeList.erase p ↔
      q ∈ freeStarts L.firstBlock (carve a 32 p L.firstBlock h.blocks) := by
  obtain ⟨l₁, b, l₂, he, rfl, hf, hsz⟩ := h.split_of_mem hp
  have hpos := h.sized.pos
  rw [he] at hpos
  have hb := hpos b (by simp)
  rw [hsz] at hle
  rw [he, carve_split (fun x hx => hpos x (by simp [hx])), mem_freeStarts_replace,
    total_pieces 32 hle, mem_append, h.nodup.mem_erase_iff, h.mem_freeList, he,
    append_cons, mem_freeStarts_replace]
  have h1 : q ∈ freeStarts L.firstBlock l₁ → q ≠ L.firstBlock + total l₁ := fun hq =>
    (freeStarts_bounds (fun x hx => hpos x (by simp [hx])) hq).2.ne
  have h2 : q ∈ freeStarts (L.firstBlock + total l₁ + b.size) l₂ →
      q ≠ L.firstBlock + total l₁ := fun hq => by
    have := (freeStarts_bounds (fun x hx => hpos x (by simp [hx])) hq).1
    omega
  have hp' : freeStarts (L.firstBlock + total l₁) [b] = [L.firstBlock + total l₁] := by
    rw [freeStarts_cons, hf]
    simp [freeStarts, place]
  have hr : q ∈ h.rest a (L.firstBlock + total l₁) ↔
      q ∈ freeStarts (L.firstBlock + total l₁) (pieces b a 32) := by
    unfold rest pieces
    rw [hsz]
    split
    · simp [freeStarts, place]
    · simp [freeStarts, place]
  rw [hr, hp', total_cons, total_nil, Nat.add_zero, mem_singleton]
  constructor
  · rintro (hq | ⟨hne, hq | hq | hq⟩)
    · exact .inr (.inl hq)
    · exact .inl hq
    · exact absurd hq hne
    · exact .inr (.inr hq)
  · rintro (hq | hq | hq)
    · exact .inr ⟨h1 hq, .inl hq⟩
    · exact .inl hq
    · exact .inr ⟨h2 hq, .inr (.inr hq)⟩

theorem not_mem_of_mem_rest {a p q : ℕ} (hp : p ∈ h.freeList) (ha : 32 ≤ a)
    (hle : a ≤ h.sizeAt p) (hq : q ∈ h.rest a p) : q ∉ h.freeList := by
  intro hm
  obtain ⟨l₁, b, l₂, he, rfl, hf, hsz⟩ := h.split_of_mem hp
  obtain ⟨c, hc, -⟩ := mem_freeStarts.mp ((h.mem_freeList q).mp hm)
  have hb : (L.firstBlock + total l₁, b) ∈ place L.firstBlock h.blocks := by
    rw [he]
    exact mem_place_split _ _ _ _
  have hcs := h.sized.placed hc
  unfold rest at hq
  split at hq
  · simp at hq
  · rw [mem_singleton.mp hq] at hc
    rcases place_disjoint hb hc with ⟨h1, -⟩ | h1 | h1 <;> omega

/-- Cut `a` bytes off the free block at `p`. -/
def take (h : AbsHeap L) (a : Request L) (p : ℕ) : AbsHeap L :=
  if hp : p ∈ h.freeList ∧ a.size ≤ h.sizeAt p then
    { blocks := carve a.size 32 p L.firstBlock h.blocks
      freeList := h.rest a.size p ++ h.freeList.erase p
      sized := by
        obtain ⟨l₁, b, l₂, he, rfl, hf, hsz⟩ := h.split_of_mem hp.1
        have hs := h.sized
        rw [he] at hs ⊢
        rw [carve_split (fun x hx => hs.pos x (by simp [hx]))]
        exact sized_pieces hs a.ge a.aligned (hsz ▸ hp.2)
      nodup := by
        refine nodup_append.mpr ⟨?_, h.nodup.erase p, ?_⟩
        · unfold rest
          split <;> simp
        · intro q hq r hr he
          exact h.not_mem_of_mem_rest hp.1 a.ge hp.2 (he ▸ hq) (mem_of_mem_erase hr)
      mem_freeList := fun q => h.mem_rest_append hp.1 a.ge hp.2 }
  else h

/-- First fit along the free list; `none` when no free block is large enough. -/
def malloc (h : AbsHeap L) (a : Request L) : Option ℕ × AbsHeap L :=
  match h.firstFit a.size with
  | none => (none, h)
  | some p => (some p, h.take a p)

/-! ## Release -/

theorem sized_release {l₁ l₂ : List Block} {b : Block} (hs : Sized L (l₁ ++ b :: l₂)) :
    Sized L (l₁ ++
      ⟨b.size + total (l₂.takeWhile Block.free), true⟩ :: l₂.dropWhile Block.free) := by
  have hb := hs.size b (by simp)
  have htot := congrArg total (takeWhile_append_dropWhile (p := Block.free) (l := l₂))
  have hmod : ∀ bs : List Block, (∀ c ∈ bs, c.size % 16 = 0) → total bs % 16 = 0 := by
    intro bs hbs
    induction bs with
    | nil => rfl
    | cons c bs ih =>
      have h1 := hbs c (by simp)
      have h2 := ih (fun d hd => hbs d (by simp [hd]))
      rw [total_cons]
      omega
  have htw : total (l₂.takeWhile Block.free) % 16 = 0 := by
    apply hmod
    intro c hc
    exact (hs.size c (by simp [takeWhile_subset _ hc])).2
  refine ⟨?_, ?_⟩
  · have hf := hs.fill
    simp only [total_append, total_cons] at hf htot ⊢
    omega
  · intro c hc
    simp only [mem_append, mem_cons] at hc
    rcases hc with hc | rfl | hc
    · exact hs.size c (by simp [hc])
    · dsimp only
      omega
    · exact hs.size c (by simp [dropWhile_subset _ hc])

theorem not_isLive_of_mem {p : ℕ} (hp : p ∈ h.freeList) : ¬ h.isLive p = true := by
  intro hl
  obtain ⟨n, hn⟩ := h.isLive_iff.mp hl
  obtain ⟨b, hb, hf⟩ := mem_freeStarts.mp ((h.mem_freeList p).mp hp)
  rw [← place_unique h.sized.pos hn hb] at hf
  simp at hf

theorem split_of_isLive {p : ℕ} (hp : h.isLive p = true) :
    ∃ l₁ n l₂, h.blocks = l₁ ++ ⟨n, false⟩ :: l₂ ∧ p = L.firstBlock + total l₁ ∧ h.Alloc p n := by
  obtain ⟨n, hn⟩ := h.isLive_iff.mp hp
  obtain ⟨l₁, l₂, he, hpe⟩ := exists_split_of_mem hn
  exact ⟨l₁, n, l₂, he, hpe, hn⟩

theorem mem_release {p q : ℕ} (hp : h.isLive p = true) :
    q ∈ p :: h.freeList.diff (absorbed p L.firstBlock h.blocks) ↔
      q ∈ freeStarts L.firstBlock (release p L.firstBlock h.blocks) := by
  obtain ⟨l₁, n, l₂, he, rfl, -⟩ := h.split_of_isLive hp
  have hpos := h.sized.pos
  rw [he] at hpos
  have hp₁ : ∀ x ∈ l₁, 0 < x.size := fun x hx => hpos x (by simp [hx])
  rw [mem_cons, h.nodup.mem_sdiff_iff, h.mem_freeList, he, release_split hp₁,
    absorbed_split hp₁, mem_freeStarts_released hpos]

/-- Free the block at `p`. -/
def free (h : AbsHeap L) (p : ℕ) : AbsHeap L :=
  if hp : h.isLive p = true then
    { blocks := release p L.firstBlock h.blocks
      freeList := p :: h.freeList.diff (absorbed p L.firstBlock h.blocks)
      sized := by
        obtain ⟨l₁, n, l₂, he, rfl, -⟩ := h.split_of_isLive hp
        have hs := h.sized
        rw [he] at hs ⊢
        rw [release_split (fun x hx => hs.pos x (by simp [hx]))]
        exact sized_release hs
      nodup := by
        refine nodup_cons.mpr ⟨?_, h.nodup.sublist (diff_sublist _ _)⟩
        intro hm
        exact h.not_isLive_of_mem (diff_subset _ _ hm) hp
      mem_freeList := fun q => h.mem_release hp }
  else h

/-! ## Blocks in use -/

def takenSize (h : AbsHeap L) (a p : ℕ) : ℕ := if h.sizeAt p - a < 32 then h.sizeAt p else a

variable {h}

theorem take_eq {a : Request L} {p : ℕ} (hp : p ∈ h.freeList) (hle : a.size ≤ h.sizeAt p) :
    (h.take a p).blocks = carve a.size 32 p L.firstBlock h.blocks ∧
      (h.take a p).freeList = h.rest a.size p ++ h.freeList.erase p := by
  rw [take, dif_pos ⟨hp, hle⟩]
  exact ⟨rfl, rfl⟩

theorem free_eq {p : ℕ} (hp : h.isLive p = true) :
    (h.free p).blocks = release p L.firstBlock h.blocks ∧
      (h.free p).freeList = p :: h.freeList.diff (absorbed p L.firstBlock h.blocks) := by
  rw [free, dif_pos hp]
  exact ⟨rfl, rfl⟩

/-- An allocation adds one block in use and touches no other. -/
theorem alloc_take {a : Request L} {p q n : ℕ} (hp : p ∈ h.freeList) (hle : a.size ≤ h.sizeAt p) :
    (h.take a p).Alloc q n ↔ h.Alloc q n ∨ (q = p ∧ n = h.takenSize a.size p) := by
  rw [Alloc, Alloc, (take_eq hp hle).1]
  obtain ⟨l₁, b, l₂, he, rfl, hf, hsz⟩ := h.split_of_mem hp
  have hpos := h.sized.pos
  rw [hsz] at hle
  rw [he] at hpos ⊢
  rw [carve_split (fun x hx => hpos x (by simp [hx])), append_cons, mem_place_append,
    mem_place_append, mem_place_append, mem_place_append]
  simp only [total_append, total_cons, total_nil, total_pieces 32 hle, Nat.add_zero,
    mem_place_cons, not_mem_place_nil, or_false, takenSize, hsz]
  have hb : (q, (⟨n, false⟩ : Block)) ≠ (L.firstBlock + total l₁, b) := by
    rintro he
    rw [← (Prod.mk.inj he).2] at hf
    simp at hf
  have hp : (q, (⟨n, false⟩ : Block)) ∈ place (L.firstBlock + total l₁) (pieces b a.size 32) ↔
      q = L.firstBlock + total l₁ ∧ n = if b.size - a.size < 32 then b.size else a.size := by
    unfold pieces
    split <;> simp
  rw [hp]
  rw [or_iff_left hb]
  exact or_right_comm

/-- Releasing a block takes it, and no other, out of use. -/
theorem alloc_free {p q n : ℕ} (hp : h.isLive p = true) :
    (h.free p).Alloc q n ↔ h.Alloc q n ∧ q ≠ p := by
  rw [Alloc, Alloc, (free_eq hp).1]
  obtain ⟨l₁, k, l₂, he, rfl, hk⟩ := h.split_of_isLive hp
  have hpos := h.sized.pos
  rw [he] at hpos ⊢
  rw [release_split (fun x hx => hpos x (by simp [hx]))]
  exact mem_place_released hpos

/-! ## One free block -/

theorem sizeAt_fresh : (fresh L).sizeAt L.firstBlock = L.payloadSize - 16 :=
  sizeAt_of_mem _ (b := ⟨L.payloadSize - 16, true⟩) (by simp [fresh])

theorem malloc_only {a : Request L} {p : ℕ} (hl : h.freeList = [p]) (hle : a.size ≤ h.sizeAt p) :
    h.malloc a = (some p, h.take a p) := by
  rw [malloc, firstFit, hl, List.find?_singleton, if_pos (by simpa using hle)]

theorem malloc_fresh (a : Request L) :
    (fresh L).malloc a = (some L.firstBlock, (fresh L).take a L.firstBlock) := by
  refine malloc_only rfl ?_
  have hle := a.le
  rw [sizeAt_fresh]
  simp only [PageSpan.maxIntraPodSize, qsize] at hle
  omega

/-- What is left of the only free block is the only one again. -/
theorem take_only {a : Request L} {p : ℕ} (hl : h.freeList = [p]) (hle : a.size + 32 ≤ h.sizeAt p) :
    (h.take a p).freeList = [p + a.size] ∧
      (h.take a p).sizeAt (p + a.size) = h.sizeAt p - a.size := by
  have hp : p ∈ h.freeList := by simp [hl]
  obtain ⟨hb, hf⟩ := take_eq hp (show a.size ≤ h.sizeAt p by omega)
  refine ⟨?_, ?_⟩
  · rw [hf, rest, if_neg (by omega), hl]
    simp
  · obtain ⟨l₁, b, l₂, he, rfl, -, hsz⟩ := h.split_of_mem hp
    have hpos := h.sized.pos
    rw [hsz] at hle ⊢
    rw [he] at hpos
    refine sizeAt_of_mem (b := ⟨b.size - a.size, true⟩) _ ?_
    rw [hb, he, carve_split (fun x hx => hpos x (by simp [hx])), pieces, if_neg (by omega)]
    simp [mem_place_append]

/-- As many blocks as there are pointers to blocks in use fit into the page. -/
theorem blocks_fit {ptrs : List ℕ} (hn : ptrs.Nodup) (ha : ∀ p ∈ ptrs, h.isLive p = true) :
    32 * ptrs.length + 16 ≤ L.payloadSize := by
  have hlen : ptrs.length ≤ h.blocks.length := by
    rw [← place_length L.firstBlock h.blocks, ← length_map (f := Prod.fst)]
    refine hn.length_le_of_subset ?_
    intro p hp
    obtain ⟨n, hp⟩ := h.isLive_iff.mp (ha p hp)
    exact mem_map_of_mem (f := Prod.fst) hp
  have htotal : ∀ bs : List Block, (∀ b ∈ bs, 32 ≤ b.size) → 32 * bs.length ≤ total bs := by
    intro bs hbs
    induction bs with
    | nil => simp
    | cons b bs ih =>
      obtain ⟨hb, hbs⟩ := forall_mem_cons.mp hbs
      have := ih hbs
      rw [length_cons, total_cons]
      omega
  have := htotal h.blocks (fun b hb => (h.sized.size b hb).1)
  have := h.sized.fill
  omega

end AbsHeap

end Remon.Heap
