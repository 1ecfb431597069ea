import Remon.Heap.Abstract
import Remon.Lib.Links

/-! # Reading a heap page as a tiling and a free list

`Image L m bs xs` states that the words of the memory spell the blocks `bs`
and the free list `xs`. The allocator edits such an image in three ways: a node
leaves the list, a node enters it at the head, and the tags of some consecutive
blocks are redrawn. Each edit is one theorem here.
-/

namespace Remon.Heap
open Lib List

/-- Header and footer word of a block. -/
def tag (b : Block) : ℕ := b.size + if b.free then 0 else 1

def Tags (m : Mem) (s : ℕ) (bs : List Block) : Prop :=
  ∀ q ∈ place s bs, m.get (q.1 - 8) = tag q.2 ∧ m.get (q.1 + q.2.size - 16) = tag q.2

structure Edges (L : Layout) (m : Mem) (bs : List Block) : Prop where
  sized : Sized L bs
  prologue : m.get L.payloadStart = 1
  epilogue : m.get (L.payloadEnd - 8) = 1
  tags : Tags m L.firstBlock bs

def Spot (L : Layout) (bs : List Block) (x : ℕ) : Prop :=
  (L.payloadStart + 16 ≤ x ∧ x + 32 ≤ L.payloadEnd) ∧
    ∀ q ∈ place L.firstBlock bs, (q.1 ≤ x ∨ x + 24 ≤ q.1) ∧
      (q.1 + q.2.size ≤ x + 8 ∨ x + 32 ≤ q.1 + q.2.size)

abbrev FreeList (L : Layout) (m : Mem) (xs : List ℕ) : Prop :=
  LinkedList m.get (fun x => m.get (x + 8)) 0 L.freeHeadAddr xs

/-- Link words at different members do not overlap either. -/
structure Nodes (L : Layout) (bs : List Block) (xs : List ℕ) : Prop where
  spot : ∀ x ∈ xs, Spot L bs x
  apart : ∀ x ∈ xs, ∀ y ∈ xs, x ≠ y → x + 16 ≤ y ∨ y + 16 ≤ x

structure Image (L : Layout) (m : Mem) (bs : List Block) (xs : List ℕ) : Prop where
  edges : Edges L m bs
  links : FreeList L m xs
  nodes : Nodes L bs xs

/-- The byte at `a` belongs to a boundary word of a block. -/
def InTags (s : ℕ) (bs : List Block) (a : ℕ) : Prop :=
  ∃ q ∈ place s bs, (q.1 ≤ a + 8 ∧ a < q.1) ∨
    (q.1 + q.2.size ≤ a + 16 ∧ a + 8 < q.1 + q.2.size)

def InLinks (L : Layout) (xs : List ℕ) (a : ℕ) : Prop :=
  (L.freeHeadAddr ≤ a ∧ a < L.freeHeadAddr + 8) ∨ ∃ x ∈ xs, x ≤ a ∧ a < x + 16

def InFence (L : Layout) (a : ℕ) : Prop :=
  (L.payloadStart ≤ a ∧ a < L.payloadStart + 8) ∨ (L.payloadEnd ≤ a + 8 ∧ a < L.payloadEnd)

variable {L : Layout} {m m' : Mem} {bs bs' : List Block} {xs : List ℕ}

/-- Every block of the tiling has room for the two link words. -/
theorem Sized.spot (h : Sized L bs) {p : ℕ} {b : Block} (hq : (p, b) ∈ place L.firstBlock bs) :
    Spot L bs p := by
  have hp := h.placed hq
  refine ⟨by omega, ?_⟩
  rintro ⟨r, c⟩ hc
  have hr := h.placed hc
  have hd := place_disjoint hq hc
  dsimp only
  rcases hd with ⟨rfl, rfl⟩ | hd | hd <;> omega

/-- A position keeps its room when consecutive blocks become one. -/
theorem Spot.merge {l₁ mid l₂ : List Block} {f : Bool} {x : ℕ} (hne : mid ≠ [])
    (h : Spot L (l₁ ++ mid ++ l₂) x) : Spot L (l₁ ++ [⟨total mid, f⟩] ++ l₂) x := by
  refine ⟨h.1, ?_⟩
  intro q hq
  rw [mem_place_append, mem_place_append] at hq
  rcases hq with (hq | hq) | hq
  · exact h.2 q (mem_place_append.mpr (.inl (mem_place_append.mpr (.inl hq))))
  · simp only [mem_place_cons, not_mem_place_nil, or_false] at hq
    subst hq
    constructor
    · obtain ⟨b, r, rfl⟩ := exists_cons_of_ne_nil hne
      exact (h.2 (L.firstBlock + total l₁, b) (by simp [mem_place_append])).1
    · obtain ⟨r, c, rfl⟩ := eq_nil_or_concat' mid |>.resolve_left hne
      have hc := (h.2 (L.firstBlock + total l₁ + total r, c) (by simp [mem_place_append])).2
      simp only [total_append, total_cons, total_nil] at hc ⊢
      omega
  · apply h.2 q
    rw [mem_place_append]
    simp only [total_append, total_cons, total_nil, Nat.add_zero] at hq ⊢
    exact .inr hq

theorem Sized.inPage (h : Sized L bs) {a : ℕ} (ha : InTags L.firstBlock bs a) :
    L.payloadStart + 8 ≤ a ∧ a + 8 < L.payloadEnd := by
  obtain ⟨⟨p, b⟩, hq, hc⟩ := ha
  have hp := h.placed hq
  dsimp only at hc
  omega

/-! ## Frames -/

theorem Tags.congr {s : ℕ} (h : Tags m s bs)
    (he : ∀ q ∈ place s bs, ∀ a, (q.1 - 8 ≤ a ∧ a < q.1 - 8 + 8) ∨
      (q.1 + q.2.size - 16 ≤ a ∧ a < q.1 + q.2.size - 16 + 8) → m' a = m a) :
    Tags m' s bs := by
  intro q hq
  obtain ⟨h1, h2⟩ := h q hq
  constructor
  · rw [← h1]
    exact Mem.get_congr (fun a ha ha' => he q hq a (.inl ⟨ha, ha'⟩))
  · rw [← h2]
    exact Mem.get_congr (fun a ha ha' => he q hq a (.inr ⟨ha, ha'⟩))

theorem Edges.congr (h : Edges L m bs)
    (he : ∀ a, InFence L a ∨ InTags L.firstBlock bs a → m' a = m a) :
    Edges L m' bs := by
  have hge := L.size_ge
  refine ⟨h.sized, ?_, ?_, h.tags.congr ?_⟩
  · rw [← h.prologue]
    exact Mem.get_congr (fun a ha ha' => he a (.inl (.inl ⟨ha, ha'⟩)))
  · rw [← h.epilogue]
    apply Mem.get_congr
    intro a ha ha'
    refine he a (.inl (.inr ?_))
    simp only [PageSpan.payloadEnd] at *
    omega
  · rintro ⟨p, b⟩ hq a ha
    have hp := h.sized.placed hq
    dsimp only at ha
    exact he a (.inr ⟨(p, b), hq, by dsimp only; omega⟩)

theorem FreeList.congr (h : FreeList L m xs) (he : ∀ a, InLinks L xs a → m' a = m a) :
    FreeList L m' xs := by
  refine LinkedList.congr h ?_ ?_
  · intro x hx
    apply Mem.get_congr
    intro a ha ha'
    rcases mem_cons.mp hx with rfl | hx
    · exact he a (.inl ⟨ha, ha'⟩)
    · exact he a (.inr ⟨x, hx, ha, by omega⟩)
  · intro x hx
    exact Mem.get_congr (fun a ha ha' => he a (.inr ⟨x, hx, by omega, by omega⟩))

/-- An image is unchanged when all the bytes it reads are. -/
theorem Image.congr (h : Image L m bs xs)
    (he : ∀ a, InFence L a ∨ InTags L.firstBlock bs a ∨ InLinks L xs a → m' a = m a) :
    Image L m' bs xs :=
  ⟨h.edges.congr (fun a ha => he a (by tauto)), h.links.congr (fun a ha => he a (by tauto)),
    h.nodes⟩

/-- Boundary words survive a store to `freeHead` or to a link word. -/
theorem Edges.put (h : Edges L m bs) {u v : ℕ}
    (hu : u = L.freeHeadAddr ∨ ∃ x, Spot L bs x ∧ (u = x ∨ u = x + 8)) :
    Edges L (m.put u v) bs := by
  apply h.congr
  intro a ha
  apply Mem.put_apply_of_outside
  have hout := L.freeHead_outside
  have hend : L.payloadEnd = L.payloadStart + L.payloadSize := rfl
  have hge := L.size_ge
  rcases ha with ha | ha
  · unfold InFence at ha
    rcases hu with rfl | ⟨x, ⟨hx, -⟩, hu⟩ <;> omega
  · have hin := h.sized.inPage ha
    rcases hu with rfl | ⟨x, ⟨hx, hsep⟩, hu⟩
    · omega
    · obtain ⟨q, hq, hc⟩ := ha
      have := hsep q hq
      omega

/-! ## The list edits -/

theorem Nodes.word_apart (h : Nodes L bs xs) {u w : ℕ} (hu : u ∈ L.freeHeadAddr :: xs)
    (hw : w ∈ xs) : (u ≠ w → u + 8 ≤ w ∨ w + 8 ≤ u) ∧ (u + 8 ≤ w + 8 ∨ w + 16 ≤ u) := by
  have hout := L.freeHead_outside
  have hend : L.payloadEnd = L.payloadStart + L.payloadSize := rfl
  have hx := (h.spot w hw).1
  rcases mem_cons.mp hu with rfl | hu
  · omega
  · by_cases hne : u = w
    · omega
    · have := h.apart u hu w hw hne
      omega

section LinkWords

variable (h : Nodes L bs xs) {m₀ : Mem} {u v w : ℕ}
include h

theorem Nodes.get_put_next (hu : u ∈ L.freeHeadAddr :: xs) (hw : w ∈ L.freeHeadAddr :: xs)
    (hne : w ≠ u) : (m₀.put u v).get w = m₀.get w := by
  apply Mem.get_put_of_disjoint
  rcases mem_cons.mp hw with rfl | hw
  · rcases mem_cons.mp hu with rfl | hu
    · exact absurd rfl hne
    · exact (h.word_apart (by simp) hu).1 hne
  · have := (h.word_apart hu hw).1 (Ne.symm hne)
    omega

theorem Nodes.get_put_next_prev (hu : u ∈ L.freeHeadAddr :: xs) (hw : w ∈ xs) :
    (m₀.put u v).get (w + 8) = m₀.get (w + 8) := by
  apply Mem.get_put_of_disjoint
  have := (h.word_apart hu hw).2
  omega

theorem Nodes.get_put_prev_next (hu : u ∈ xs) (hw : w ∈ L.freeHeadAddr :: xs) :
    (m₀.put (u + 8) v).get w = m₀.get w := by
  apply Mem.get_put_of_disjoint
  have := (h.word_apart hw hu).2
  omega

theorem Nodes.get_put_prev (hu : u ∈ xs) (hw : w ∈ xs) (hne : w ≠ u) :
    (m₀.put (u + 8) v).get (w + 8) = m₀.get (w + 8) := by
  apply Mem.get_put_of_disjoint
  have := h.apart w hw u hu hne
  omega

theorem Nodes.anchor_lt (hu : u ∈ L.freeHeadAddr :: xs) : 0 < u ∧ u < 2 ^ 64 := by
  rcases mem_cons.mp hu with rfl | hu
  · exact ⟨L.freeHead_pos, L.freeHead_lt⟩
  · have hx := (h.spot u hu).1
    have hend : L.payloadEnd < 2 ^ 64 := L.end_lt
    omega

theorem Nodes.edges_put_next (he : Edges L m₀ bs) (hu : u ∈ L.freeHeadAddr :: xs) :
    Edges L (m₀.put u v) bs := by
  apply he.put
  rcases mem_cons.mp hu with rfl | hu
  · exact .inl rfl
  · exact .inr ⟨u, h.spot u hu, .inl rfl⟩

theorem Nodes.edges_put_prev (he : Edges L m₀ bs) (hu : u ∈ xs) :
    Edges L (m₀.put (u + 8) v) bs :=
  he.put (.inr ⟨u, h.spot u hu, .inr rfl⟩)

end LinkWords

theorem Nodes.mono {ys : List ℕ} (h : Nodes L bs xs) (hs : ∀ y ∈ ys, y ∈ xs) : Nodes L bs ys :=
  ⟨fun y hy => h.spot y (hs y hy), fun x hx y hy => h.apart x (hs x hx) y (hs y hy)⟩

theorem popFreeBlockOut_eq {x prev next : ℕ} (hp : m.get (x + 8) = prev) (hn : m.get x = next)
    (h0 : prev ≠ 0) : popFreeBlockOut m x =
      if next ≠ 0 then (m.put prev next).put (next + 8) prev else m.put prev next := by
  simp [popFreeBlockOut, prevFree, nextFree, hp, hn, h0]

/-- Taking a block out of the list leaves every boundary word alone. -/
theorem popFreeBlockOut_image {x : ℕ} (h : Image L m bs xs) (hx : x ∈ xs) :
    Image L (popFreeBlockOut m x) bs (xs.erase x) := by
  obtain ⟨l₁, l₂, rfl⟩ := append_of_mem hx
  have hnd : (l₁ ++ x :: l₂).Nodup := (nodup_cons.mp h.links.2.1).2
  have hx₁ : x ∉ l₁ := fun hm => (nodup_append.mp hnd).2.2 x hm x (by simp) rfl
  have her : (l₁ ++ x :: l₂).erase x = l₁ ++ l₂ := by
    rw [erase_append_right _ hx₁, erase_cons_head]
  have hsub : ∀ w ∈ l₁ ++ l₂, w ∈ l₁ ++ x :: l₂ := fun w hw =>
    ((append_sublist_append_left l₁).mpr (sublist_cons_self x l₂)).subset hw
  obtain ⟨hpv, hnx⟩ := h.links.fields
  have hleft {w : ℕ} := h.links.ne_getLast (w := w)
  obtain ⟨prev, hprev⟩ : ∃ prev, (L.freeHeadAddr :: l₁).getLast (by simp) = prev := ⟨_, rfl⟩
  have hmem : prev ∈ L.freeHeadAddr :: (l₁ ++ x :: l₂) := by
    rw [← hprev]
    exact mem_append_left (x :: l₂) (getLast_mem _)
  have hpos := h.nodes.anchor_lt hmem
  rw [hprev] at hpv hleft
  rw [her, popFreeBlockOut_eq hpv hnx hpos.1.ne']
  refine ⟨?_, ?_, h.nodes.mono hsub⟩
  · cases l₂ with
    | nil => exact h.nodes.edges_put_next h.edges hmem
    | cons z l₂ =>
      have hz : z ≠ 0 := fun he => h.links.2.2 (by simp [← he])
      rw [if_pos (by simpa using hz)]
      exact h.nodes.edges_put_prev (h.nodes.edges_put_next h.edges hmem) (by simp)
  · cases l₂ with
    | nil =>
      refine h.links.remove ?_ (fun z hz => by simp at hz) ?_ ?_
      · rw [hprev]
        exact Mem.get_put_self m (by norm_num)
      · intro w hw
        exact h.nodes.get_put_next hmem (hleft hw).1 (hleft hw).2
      · intro w hw
        exact h.nodes.get_put_next_prev hmem (hsub w (by simpa using hw))
    | cons z l₂ =>
      have hz : z ∈ l₁ ++ x :: z :: l₂ := by simp
      have hz₀ : z ≠ 0 := fun he => h.links.2.2 (by simp [← he])
      rw [if_pos (by simpa using hz₀)]
      simp only [headD_cons]
      refine h.links.remove ?_ ?_ ?_ ?_
      · rw [hprev, h.nodes.get_put_prev_next hz hmem]
        exact Mem.get_put_self m (h.nodes.anchor_lt (mem_cons_of_mem _ hz)).2
      · intro y hy
        obtain rfl : z = y := by simpa using hy
        rw [hprev]
        exact Mem.get_put_self _ hpos.2
      · intro w hw
        rw [h.nodes.get_put_prev_next hz (hleft hw).1]
        exact h.nodes.get_put_next hmem (hleft hw).1 (hleft hw).2
      · intro w hw
        have hw' : w ∈ l₁ ++ z :: l₂ :=
          ((append_sublist_append_left l₁).mpr (sublist_cons_self z l₂)).subset hw
        rw [h.nodes.get_put_prev hz (hsub w hw') (h.links.ne_next hw)]
        exact h.nodes.get_put_next_prev hmem (hsub w hw')

theorem popFreeBlockOut_frame {x a : ℕ} (h : Image L m bs xs) (hx : x ∈ xs)
    (ha : ¬ InLinks L xs a) : popFreeBlockOut m x a = m a := by
  obtain ⟨l₁, l₂, rfl⟩ := append_of_mem hx
  obtain ⟨hpv, hnx⟩ := h.links.fields
  have hmem : m.get (x + 8) ∈ L.freeHeadAddr :: (l₁ ++ x :: l₂) := by
    rw [hpv]
    exact mem_append_left (x :: l₂) (getLast_mem _)
  have hprev : a < m.get (x + 8) ∨ m.get (x + 8) + 8 ≤ a := by
    rcases mem_cons.mp hmem with he | hm
    · have := mt Or.inl ha
      omega
    · have := mt (fun hc => Or.inr ⟨_, hm, hc⟩) ha
      omega
  rw [popFreeBlockOut_eq rfl hnx (h.nodes.anchor_lt hmem).1.ne']
  cases l₂ with
  | nil => exact Mem.put_apply_of_outside hprev
  | cons z l₂ =>
    have hz : z ∈ l₁ ++ x :: z :: l₂ := by simp
    have hz0 := h.nodes.anchor_lt (mem_cons_of_mem _ hz)
    have hza := mt (fun hc => Or.inr ⟨z, hz, hc⟩) ha
    rw [headD_cons, if_pos hz0.1.ne', Mem.put_apply_of_outside (by omega)]
    exact Mem.put_apply_of_outside hprev

/-- A block enters the list in front of all others. -/
theorem insertAtFreeHead_image {x : ℕ} (h : Image L m bs xs) (hs : Spot L bs x) (hx : x ∉ xs)
    (hap : ∀ y ∈ xs, x + 16 ≤ y ∨ y + 16 ≤ x) :
    ∃ m', insertAtFreeHead L m x = .ok m' ∧ Image L m' bs (x :: xs) ∧
      ∀ a, ¬ InLinks L (x :: xs) a → m' a = m a := by
  have hn : Nodes L bs (x :: xs) := by
    refine ⟨?_, ?_⟩
    · intro y hy
      rcases mem_cons.mp hy with rfl | hy
      · exact hs
      · exact h.nodes.spot y hy
    · intro y hy z hz hne
      rcases mem_cons.mp hy with rfl | hy'
      · exact hap z ((mem_cons.mp hz).resolve_left (Ne.symm hne))
      · rcases mem_cons.mp hz with rfl | hz'
        · exact (hap y hy').symm
        · exact h.nodes.apart y hy' z hz' hne
  have hxm : x ∈ L.freeHeadAddr :: x :: xs := by simp
  have hsm : L.freeHeadAddr ∈ L.freeHeadAddr :: x :: xs := by simp
  have hxs : x ≠ L.freeHeadAddr := by
    have h1 := hs.1
    have h2 := L.freeHead_outside
    simp only [PageSpan.payloadEnd] at h1
    omega
  have hx0 := hn.anchor_lt hxm
  have hs0 := hn.anchor_lt hsm
  have hhead : m.get L.freeHeadAddr = xs.headD 0 := h.links.head
  have hfh : (m.put x (xs.headD 0)).get L.freeHeadAddr = xs.headD 0 := by
    rw [hn.get_put_next hxm hsm hxs.symm, hhead]
  -- the old first member learns its new predecessor, if there is one
  obtain ⟨m₂, hm₂, hedge, hnext, hprev, hkeep, hkeep', hframe⟩ : ∃ m₂ : Mem,
      (if xs.headD 0 ≠ 0 then (m.put x (xs.headD 0)).put (xs.headD 0 + 8) x
        else m.put x (xs.headD 0)) = m₂ ∧ Edges L m₂ bs ∧ m₂.get x = xs.headD 0 ∧
      (∀ z, xs.head? = some z → m₂.get (z + 8) = x) ∧ (∀ w ∈ xs, m₂.get w = m.get w) ∧
      (∀ w ∈ xs.tail, m₂.get (w + 8) = m.get (w + 8)) ∧
      ∀ a, ¬ InLinks L (x :: xs) a → m₂ a = m a := by
    have hne : ∀ w ∈ xs, w ≠ x := fun w hw he => hx (he ▸ hw)
    cases xs with
    | nil =>
      refine ⟨_, if_neg (by simp), hn.edges_put_next h.edges hxm, ?_, by simp, by simp, by simp, ?_⟩
      · exact Mem.get_put_self m (by norm_num)
      · intro a ha
        apply Mem.put_apply_of_outside
        have := mt (fun hc => Or.inr ⟨x, by simp, hc⟩) ha
        omega
    | cons z xs =>
      have hz : z ∈ x :: z :: xs := by simp
      have hz0 := hn.anchor_lt (mem_cons_of_mem _ hz)
      simp only [headD_cons]
      refine ⟨_, if_pos hz0.1.ne', hn.edges_put_prev (hn.edges_put_next h.edges hxm) hz,
        ?_, ?_, ?_, ?_, ?_⟩
      · rw [hn.get_put_prev_next hz hxm]
        exact Mem.get_put_self m hz0.2
      · intro y hy
        obtain rfl : z = y := by simpa using hy
        exact Mem.get_put_self _ hx0.2
      · intro w hw
        have hw' : w ∈ L.freeHeadAddr :: x :: z :: xs := by
          exact mem_cons_of_mem _ (mem_cons_of_mem _ hw)
        rw [hn.get_put_prev_next hz hw', hn.get_put_next hxm hw' (hne w hw)]
      · intro w hw
        have hw' : w ∈ x :: z :: xs := by
          exact mem_cons_of_mem _ (mem_cons_of_mem _ hw)
        have hwz : w ≠ z := by
          rintro rfl
          exact (nodup_cons.mp (nodup_cons.mp h.links.2.1).2).1 hw
        rw [hn.get_put_prev hz hw' hwz, hn.get_put_next_prev hxm hw']
      · intro a ha
        have h1 := mt (fun hc => Or.inr ⟨x, by simp, hc⟩) ha
        have h2 := mt (fun hc => Or.inr ⟨z, by simp, hc⟩) ha
        rw [Mem.put_apply_of_outside (by omega), Mem.put_apply_of_outside (by omega)]
  simp only [insertAtFreeHead, freeHead, nextFree, prevFree, wsize, hhead, hfh, hm₂]
  have hxx : x ∈ x :: xs := by simp
  have hfin : ((m₂.put L.freeHeadAddr x).put (x + 8) L.freeHeadAddr).get L.freeHeadAddr = x := by
    rw [hn.get_put_prev_next hxx hsm]
    exact Mem.get_put_self m₂ hx0.2
  rw [hfin, if_neg hx0.1.ne']
  refine ⟨_, rfl, ⟨?_, ?_, hn⟩, ?_⟩
  · exact hn.edges_put_prev (hn.edges_put_next hedge hsm) hxx
  · have hmem : ∀ w ∈ xs, w ∈ L.freeHeadAddr :: x :: xs := fun w hw => by simp [hw]
    refine h.links.push ?_ hx0.1.ne' hfin ?_ ?_ ?_ ?_ ?_
    · simp only [mem_cons, not_or]
      exact ⟨hxs, hx⟩
    · exact Mem.get_put_self _ hs0.2
    · rw [hn.get_put_prev_next hxx hxm, hn.get_put_next hsm hxm hxs, hnext]
    · intro z hz
      have hzm : z ∈ xs := mem_of_mem_head? hz
      have hzx : z ≠ x := fun he => hx (he ▸ hzm)
      rw [hn.get_put_prev hxx (mem_cons_of_mem _ hzm) hzx,
        hn.get_put_next_prev hsm (mem_cons_of_mem _ hzm), hprev z hz]
    · intro w hw
      have hwf : w ≠ L.freeHeadAddr := by
        rintro rfl
        exact (nodup_cons.mp h.links.2.1).1 hw
      rw [hn.get_put_prev_next hxx (hmem w hw), hn.get_put_next hsm (hmem w hw) hwf, hkeep w hw]
    · intro w hw
      have hwm : w ∈ xs := mem_of_mem_tail hw
      have hwx : w ≠ x := fun he => hx (he ▸ hwm)
      rw [hn.get_put_prev hxx (mem_cons_of_mem _ hwm) hwx,
        hn.get_put_next_prev hsm (mem_cons_of_mem _ hwm), hkeep' w hw]
  · intro a ha
    have h1 := mt (fun hc => Or.inr ⟨x, by simp, hc⟩) ha
    have h2 := mt Or.inl ha
    rw [Mem.put_apply_of_outside (by omega), Mem.put_apply_of_outside (by omega), hframe a ha]

/-! ## Redrawing tags -/

def retag (m : Mem) (bp n v : ℕ) : Mem := (m.put (bp - 8) v).put (bp + n - 16) v

theorem retag_frame {bp v a : ℕ} {b : Block} (hb : 16 ≤ bp) (hn : 32 ≤ b.size)
    (ha : ¬ InTags bp [b] a) : retag m bp b.size v a = m a := by
  simp only [InTags, mem_place_cons, not_mem_place_nil, or_false, exists_eq_left, not_or] at ha
  rw [retag, Mem.put_apply_of_outside (by omega), Mem.put_apply_of_outside (by omega)]

theorem retag_get {bp n v : ℕ} (hb : 16 ≤ bp) (hn : 32 ≤ n) (hv : v < 2 ^ 64) :
    (retag m bp n v).get (bp - 8) = v ∧ (retag m bp n v).get (bp + n - 16) = v := by
  constructor
  · rw [retag, Mem.get_put_of_disjoint _ (by omega)]
    exact Mem.get_put_self m hv
  · exact Mem.get_put_self _ hv

theorem retag_retag {bp n v w : ℕ} (hb : 16 ≤ bp) (hn : 32 ≤ n) :
    retag (retag m bp n v) bp n w = retag m bp n w := by
  simp only [retag]
  rw [Mem.put_comm _ v w (by omega), Mem.put_put_self, Mem.put_put_self]

theorem or_one {n : ℕ} (h : n % 2 = 0) : n ||| 1 = n + 1 := by
  obtain ⟨k, rfl⟩ : ∃ k, n = 2 ^ 1 * k := ⟨n / 2, by omega⟩
  exact (Nat.two_pow_add_eq_or_of_lt (by norm_num) k).symm

theorem getSize_of_get {p w : ℕ} (h : m.get p = w) : getSize m p = w - w % 16 := by
  simp only [getSize, h, dsize]

theorem setBlockSize_eq {bp n : ℕ} (hm : n % 16 = 0)
    (hv : n < 2 ^ 64) : setBlockSize m bp (fun _ => n) = retag m bp n n := by
  have hh : (m.put (bp - 8) n).get (bp - 8) = n := Mem.get_put_self m hv
  simp only [setBlockSize, ftrp, hdrp, wsize, dsize, retag, getSize_of_get hh, hm, Nat.sub_zero]

theorem setAlloc_eq {bp n : ℕ} (hm : n % 16 = 0)
    (hv : n + 1 < 2 ^ 64) (hh : m.get (bp - 8) = n) : setAlloc m bp = retag m bp n (n + 1) := by
  have h1 : (m.put (bp - 8) (n + 1)).get (bp - 8) = n + 1 := Mem.get_put_self m hv
  have h2 : n + 1 - (n + 1) % 16 = n := by omega
  simp only [setAlloc, ftrp, hdrp, wsize, dsize, retag, hh, or_one (show n % 2 = 0 by omega),
    getSize_of_get h1, h1, h2]

/-- `SET_FREE` on a block whose header is `n`, with or without the allocation bit. -/
theorem setFree_eq {bp n : ℕ} (hm : n % 16 = 0) (hv : n < 2 ^ 64)
    (hh : m.get (bp - 8) = n ∨ m.get (bp - 8) = n + 1) : setFree m bp = retag m bp n n := by
  have h0 : m.get (bp - 8) - m.get (bp - 8) % 2 = n := by omega
  have h1 : (m.put (bp - 8) n).get (bp - 8) = n := Mem.get_put_self m hv
  simp only [setFree, ftrp, hdrp, wsize, dsize, retag, h0, getSize_of_get h1, h1, hm, Nat.sub_zero]

theorem tags_nil {s : ℕ} : Tags m s [] := by
  simp [Tags]

theorem tags_cons {s : ℕ} {b : Block} : Tags m s (b :: bs) ↔
    (m.get (s - 8) = tag b ∧ m.get (s + b.size - 16) = tag b) ∧ Tags m (s + b.size) bs := by
  simp [Tags]

theorem inTags_cons {s a : ℕ} {b : Block} : InTags s (b :: bs) a ↔
    InTags s [b] a ∨ InTags (s + b.size) bs a := by
  simp [InTags]

theorem inTags_append {s a : ℕ} {l₁ l₂ : List Block} : InTags s (l₁ ++ l₂) a ↔
    InTags s l₁ a ∨ InTags (s + total l₁) l₂ a := by
  simp only [InTags, mem_place_append, or_and_right, exists_or]

theorem inTags_bounds {s a : ℕ} (hsz : ∀ b ∈ bs, 32 ≤ b.size) (ha : InTags s bs a) :
    s ≤ a + 8 ∧ a + 8 < s + total bs := by
  obtain ⟨q, hq, ha⟩ := ha
  have hb := place_bounds hq
  have hz := hsz q.2 (block_mem_of_mem_place hq)
  omega

def draw (m : Mem) (p : ℕ) (bs : List Block) : Mem :=
  (place p bs).foldl (fun m q => retag m q.1 q.2.size (tag q.2)) m

theorem draw_nil {p : ℕ} : draw m p [] = m := by
  rw [draw, place, foldl_nil]

theorem draw_cons {p : ℕ} {b : Block} :
    draw m p (b :: bs) = draw (retag m p b.size (tag b)) (p + b.size) bs := by
  rw [draw, place, foldl_cons, draw]

theorem draw_frame {p a : ℕ} (hp : 16 ≤ p) (hsz : ∀ b ∈ bs, 32 ≤ b.size)
    (ha : ¬ InTags p bs a) : draw m p bs a = m a := by
  induction bs generalizing m p with
  | nil => rw [draw_nil]
  | cons b bs ih =>
    obtain ⟨h1, h2⟩ := not_or.mp (mt inTags_cons.mpr ha)
    rw [draw_cons, ih (by omega) (fun c hc => hsz c (by simp [hc])) h2]
    exact retag_frame hp (hsz b (by simp)) h1

theorem draw_tags {p : ℕ} (hp : 16 ≤ p) (hsz : ∀ b ∈ bs, 32 ≤ b.size)
    (hv : ∀ b ∈ bs, tag b < 2 ^ 64) : Tags (draw m p bs) p bs := by
  induction bs generalizing m p with
  | nil => exact tags_nil
  | cons b bs ih =>
    have hb := hsz b (by simp)
    have hsz' : ∀ c ∈ bs, 32 ≤ c.size := fun c hc => hsz c (by simp [hc])
    obtain ⟨h1, h2⟩ := retag_get (m := m) hp hb (hv b (by simp))
    have hkeep : ∀ w, w + 16 ≤ p + b.size →
        (draw m p (b :: bs)).get w = (retag m p b.size (tag b)).get w := by
      intro w hw
      rw [draw_cons]
      apply Mem.get_congr
      intro a ha ha'
      apply draw_frame (by omega) hsz'
      intro hc
      have := inTags_bounds hsz' hc
      omega
    rw [tags_cons, hkeep _ (by omega), hkeep _ (by omega)]
    refine ⟨⟨h1, h2⟩, ?_⟩
    rw [draw_cons]
    exact ih (by omega) hsz' (fun c hc => hv c (by simp [hc]))

/-- Tags of the blocks to the left and to the right survive when the bytes of the
middle part change and the middle part is tagged anew. -/
theorem Tags.replace {s : ℕ} {l₁ l₂ mid mid' : List Block} (hs : 16 ≤ s)
    (h : Tags m s (l₁ ++ mid ++ l₂)) (hsz : ∀ b ∈ l₁ ++ l₂, 32 ≤ b.size)
    (htot : total mid' = total mid) (hmid : Tags m' (s + total l₁) mid')
    (hf : ∀ a, a + 8 < s + total l₁ ∨ s + total l₁ + total mid ≤ a + 8 → m' a = m a) :
    Tags m' s (l₁ ++ mid' ++ l₂) := by
  intro q hq
  rw [mem_place_append, mem_place_append] at hq
  rcases hq with (hq | hq) | hq
  · have hb := place_bounds hq
    have hz := hsz q.2 (by simp [block_mem_of_mem_place hq])
    have ht : Tags m s l₁ := fun r hr => h r (by simp [mem_place_append, hr])
    refine (ht.congr ?_) q hq
    intro r hr a ha
    have hb := place_bounds hr
    have hz := hsz r.2 (by simp [block_mem_of_mem_place hr])
    exact hf a (.inl (by omega))
  · exact hmid q hq
  · rw [total_append, htot] at hq
    have ht : Tags m (s + (total l₁ + total mid)) l₂ := fun r hr =>
      h r (by rw [mem_place_append, total_append]; exact .inr hr)
    refine (ht.congr ?_) q hq
    intro r hr a ha
    have hb := place_bounds hr
    have hz := hsz r.2 (by simp [block_mem_of_mem_place hr])
    exact hf a (.inr (by omega))

theorem Sized.tag_lt (hs : Sized L bs) {b : Block} (hb : b ∈ bs) : tag b < 2 ^ 64 := by
  obtain ⟨l₁, l₂, rfl⟩ := append_of_mem hb
  have h1 := hs.fill
  have h2 := L.size_le
  have h3 : (if b.free then 0 else 1) ≤ 1 := by
    split <;> simp
  simp only [total_append, total_cons] at h1
  rw [tag]
  omega

/-- Some consecutive blocks give way to others: their tags are drawn and nothing
else is touched. -/
theorem Image.retile {l₁ l₂ mid mid' : List Block} (h : Image L m (l₁ ++ mid ++ l₂) xs)
    (hs : Sized L (l₁ ++ mid' ++ l₂)) (htot : total mid' = total mid)
    (hx : ∀ x ∈ xs, Spot L (l₁ ++ mid' ++ l₂) x) :
    Image L (draw m (L.firstBlock + total l₁) mid') (l₁ ++ mid' ++ l₂) xs := by
  have hge := L.size_ge
  have hend : L.payloadEnd = L.payloadStart + L.payloadSize := rfl
  have hout := L.freeHead_outside
  have hsz : ∀ b ∈ l₁ ++ mid' ++ l₂, 32 ≤ b.size := fun b hb => (hs.size b hb).1
  have hp : 16 ≤ L.firstBlock + total l₁ := by
    simp only [PageSpan.firstBlock]
    omega
  have hmid : ∀ b ∈ mid', 32 ≤ b.size := fun b hb => hsz b (by simp [hb])
  have he' : ∀ a, ¬ InTags L.firstBlock (l₁ ++ mid' ++ l₂) a →
      draw m (L.firstBlock + total l₁) mid' a = m a := by
    intro a ha
    apply draw_frame hp hmid
    intro hc
    exact ha (inTags_append.mpr (.inl (inTags_append.mpr (.inr hc))))
  have ht : Tags (draw m (L.firstBlock + total l₁) mid') L.firstBlock (l₁ ++ mid' ++ l₂) := by
    refine h.edges.tags.replace (by simp [PageSpan.firstBlock]) ?_ htot
      (draw_tags hp hmid (fun b hb => hs.tag_lt (by simp [hb]))) ?_
    · intro b hb
      rcases mem_append.mp hb with hb | hb
      · exact hsz b (by simp [hb])
      · exact hsz b (by simp [hb])
    · intro a ha
      apply draw_frame hp hmid
      intro hc
      have := inTags_bounds hmid hc
      omega
  refine ⟨⟨hs, ?_, ?_, ht⟩, h.links.congr ?_, hx, h.nodes.apart⟩
  · rw [← h.edges.prologue]
    apply Mem.get_congr
    intro a ha ha'
    refine he' a (fun hc => ?_)
    have := hs.inPage hc
    omega
  · rw [← h.edges.epilogue]
    apply Mem.get_congr
    intro a ha ha'
    refine he' a (fun hc => ?_)
    have := hs.inPage hc
    omega
  · intro a ha
    refine he' a (fun hc => ?_)
    have hin := hs.inPage hc
    rcases ha with ha | ⟨x, hxm, ha⟩
    · omega
    · obtain ⟨q, hq, hc⟩ := hc
      have := (hx x hxm).2 q hq
      omega

end Remon.Heap
