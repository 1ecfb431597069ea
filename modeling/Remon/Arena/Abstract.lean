import Remon.Arena.TopLevelAllocator
import Remon.Lib.Tiling

/-! # The page runs an arena stands for

An abstract arena is the tiling of the region by blocks together with the free
blocks of each length in list order. The fields carry what every arena keeps: the
blocks are not empty and fill the region, and the list of length `s` names each
free block of that length once. `take` cuts pages off the first block of a list
and `free` joins a block with the free blocks to its right.
-/

namespace Remon.Arena
open Function Lib List

def without (L : ℕ → List ℕ) (ps : List ℕ) (s : ℕ) : List ℕ := (L s).filter (fun i => i ∉ ps)

def pushFront (L : ℕ → List ℕ) (n p : ℕ) : ℕ → List ℕ := update L n (p :: L n)

theorem mem_without {L : ℕ → List ℕ} {ps : List ℕ} {s i : ℕ} :
    i ∈ without L ps s ↔ i ∈ L s ∧ i ∉ ps := by
  simp [without]

theorem mem_pushFront {L : ℕ → List ℕ} {n p s i : ℕ} :
    i ∈ pushFront L n p s ↔ s = n ∧ i = p ∨ i ∈ L s := by
  by_cases h : s = n
  · subst h
    simp [pushFront]
  · simp [pushFront, h]

theorem without_nil (L : ℕ → List ℕ) : without L [] = L := by
  ext s : 1
  simp [without]

theorem without_cons (L : ℕ → List ℕ) (p : ℕ) (ps : List ℕ) :
    without L (p :: ps) = without (without L [p]) ps := by
  ext s : 1
  simp only [without, filter_filter]
  apply filter_congr
  intro i _
  simp [Bool.and_comm]

structure AbsArena (R : Region) where
  blocks : List Block
  lists : ℕ → List ℕ
  fill : total blocks = R.podCount
  pos : ∀ b ∈ blocks, 0 < b.size
  nodup : ∀ s, (lists s).Nodup
  mem_lists : ∀ s p, p ∈ lists s ↔ (p, ⟨s, true⟩) ∈ place R.first blocks

variable {R : Region}

theorem Region.podCount_pos (R : Region) : 0 < R.podCount := by
  have := R.le
  unfold Region.podCount
  omega

namespace AbsArena

/-- The whole region as one free block. -/
def fresh (R : Region) : AbsArena R where
  blocks := [⟨R.podCount, true⟩]
  lists := pushFront (fun _ => []) R.podCount R.first
  fill := by simp
  pos b hb := by
    rw [mem_singleton.mp hb]
    exact R.podCount_pos
  nodup s := by
    by_cases h : s = R.podCount <;> simp [pushFront, h]
  mem_lists s p := by
    rw [mem_pushFront]
    simp [and_comm]

/-- The block of `n` pages at `p` is in use. -/
def Alloc (h : AbsArena R) (p n : ℕ) : Prop := (p, ⟨n, false⟩) ∈ place R.first h.blocks

/-- Page `i` belongs to a free block. -/
def FreePage (h : AbsArena R) (i : ℕ) : Prop :=
  ∃ p n, (p, ⟨n, true⟩) ∈ place R.first h.blocks ∧ p ≤ i ∧ i < p + n

variable (h : AbsArena R)

theorem bounds {p : ℕ} {b : Block} (hb : (p, b) ∈ place R.first h.blocks) :
    R.first ≤ p ∧ p + b.size ≤ R.last + 1 ∧ 0 < b.size := by
  have h1 := place_bounds hb
  have h2 := h.fill
  have h3 := R.le
  unfold Region.podCount at h2
  exact ⟨h1.1, by omega, h.pos b (block_mem_of_mem_place hb)⟩

theorem unique {p : ℕ} {b c : Block} (hb : (p, b) ∈ place R.first h.blocks)
    (hc : (p, c) ∈ place R.first h.blocks) : b = c :=
  place_unique h.pos hb hc

theorem not_mem_of_alloc {p n : ℕ} (hp : h.Alloc p n) (s : ℕ) : p ∉ h.lists s := by
  intro hm
  have := h.unique hp ((h.mem_lists s p).mp hm)
  simp at this

/-! ## Allocation -/

def listsAfter (L : ℕ → List ℕ) (p m n : ℕ) : ℕ → List ℕ :=
  if n < m then pushFront (without L [p]) (m - n) (p + n) else without L [p]

theorem mem_listsAfter {L : ℕ → List ℕ} {p m n s q : ℕ} :
    q ∈ listsAfter L p m n s ↔ (n < m ∧ s = m - n ∧ q = p + n) ∨ q ∈ L s ∧ q ≠ p := by
  unfold listsAfter
  split
  · rename_i hlt
    simp [mem_pushFront, mem_without, hlt]
  · rename_i hlt
    simp [mem_without, hlt]

theorem mem_carve {p m n q : ℕ} {c : Block} (hp : p ∈ h.lists m) (hle : n ≤ m) :
    (q, c) ∈ place R.first (carve n 1 p R.first h.blocks) ↔
      (q, c) ∈ place R.first h.blocks ∧ q ≠ p ∨ (q, c) ∈ place p (pieces ⟨m, true⟩ n 1) := by
  have hb := (h.mem_lists m p).mp hp
  have hm := (h.bounds hb).2.2
  dsimp only at hm
  obtain ⟨l₁, l₂, he, hpe⟩ := exists_split_of_mem hb
  have hpos := h.pos
  rw [he] at hpos
  have hmid : l₁ ++ ⟨m, true⟩ :: l₂ = l₁ ++ [⟨m, true⟩] ++ l₂ := append_cons _ _ _
  rw [he, hpe, carve_split (fun x hx => hpos x (by simp [hx])), hmid,
    mem_place_replaced (hmid ▸ hpos) (by rw [total_pieces 1 hle]; simp), ← hmid, ← he, ← hpe]
  refine or_congr_left (and_congr_right fun hq => ?_)
  simp only [total_cons, total_nil, Nat.add_zero]
  constructor
  · omega
  · intro hne
    have hc := (h.bounds hq).2.2
    rcases place_disjoint hq hb with ⟨h1, -⟩ | h1 | h1
    · exact absurd h1 hne
    · omega
    · exact .inr h1

theorem mem_pieces {p m n q : ℕ} {c : Block} (hle : n ≤ m) :
    (q, c) ∈ place p (pieces ⟨m, true⟩ n 1) ↔
      (q = p ∧ c = ⟨n, false⟩) ∨ n < m ∧ q = p + n ∧ c = ⟨m - n, true⟩ := by
  unfold pieces
  split
  · rename_i hlt
    have he : m = n := by
      dsimp only at hlt
      omega
    simp [he]
  · rename_i hlt
    have hl : n < m := by
      dsimp only at hlt
      omega
    simp [hl]

/-- Cut `n` pages off the free block of `m` pages at `p`. -/
def take (h : AbsArena R) (p m n : ℕ) : AbsArena R :=
  if hp : p ∈ h.lists m ∧ 0 < n ∧ n ≤ m then
    { blocks := carve n 1 p R.first h.blocks
      lists := listsAfter h.lists p m n
      fill := by
        obtain ⟨l₁, l₂, he, rfl⟩ := exists_split_of_mem ((h.mem_lists m p).mp hp.1)
        have hpos := h.pos
        have hf := h.fill
        rw [he] at hpos hf ⊢
        rw [carve_split (fun x hx => hpos x (by simp [hx]))]
        simp only [total_append, total_cons, total_pieces (b := ⟨m, true⟩) 1 hp.2.2] at hf ⊢
        omega
      pos := by
        obtain ⟨l₁, l₂, he, rfl⟩ := exists_split_of_mem ((h.mem_lists m p).mp hp.1)
        have hpos := h.pos
        rw [he] at hpos ⊢
        rw [carve_split (fun x hx => hpos x (by simp [hx]))]
        intro b hb
        simp only [mem_append, pieces] at hb
        rcases hb with (hb | hb) | hb
        · exact hpos b (by simp [hb])
        · split at hb
          · rw [mem_singleton.mp hb]
            exact hpos ⟨m, true⟩ (by simp)
          · simp only [mem_cons, not_mem_nil, or_false] at hb
            rcases hb with rfl | rfl
            · exact hp.2.1
            · dsimp only at *
              omega
        · exact hpos b (by simp [hb])
      nodup := by
        intro s
        have hw : (without h.lists [p] s).Nodup := (h.nodup s).filter _
        unfold listsAfter
        split
        · by_cases hs : s = m - n
          · rw [pushFront, hs, update_self]
            refine nodup_cons.mpr ⟨?_, hs ▸ hw⟩
            intro hm
            have h1 := (h.mem_lists _ _).mp (mem_without.mp hm).1
            have h2 := (h.mem_lists m p).mp hp.1
            have h3 := (h.bounds h1).2.2
            rcases place_disjoint h1 h2 with ⟨h4, -⟩ | h4 | h4 <;> dsimp only at h3 h4 <;> omega
          · rw [pushFront, update_of_ne hs]
            exact hw
        · exact hw
      mem_lists := by
        intro s q
        rw [h.mem_carve hp.1 hp.2.2, mem_pieces hp.2.2, mem_listsAfter, h.mem_lists]
        simp only [Block.mk.injEq, Bool.true_eq_false, and_false, and_true, false_or]
        tauto }
  else h

variable {h}

theorem take_eq {p m n : ℕ} (hp : p ∈ h.lists m) (hn : 0 < n) (hle : n ≤ m) :
    (h.take p m n).blocks = carve n 1 p R.first h.blocks ∧
      (h.take p m n).lists = listsAfter h.lists p m n := by
  rw [take, dif_pos ⟨hp, hn, hle⟩]
  exact ⟨rfl, rfl⟩

theorem mem_take {p m n q : ℕ} {c : Block} (hp : p ∈ h.lists m) (hn : 0 < n) (hle : n ≤ m) :
    (q, c) ∈ place R.first (h.take p m n).blocks ↔
      (q, c) ∈ place R.first h.blocks ∧ q ≠ p ∨
        (q = p ∧ c = ⟨n, false⟩) ∨ n < m ∧ q = p + n ∧ c = ⟨m - n, true⟩ := by
  rw [(take_eq hp hn hle).1, h.mem_carve hp hle, mem_pieces hle]

/-- An allocation adds one block in use and touches no other. -/
theorem alloc_take {p m n q k : ℕ} (hp : p ∈ h.lists m) (hn : 0 < n) (hle : n ≤ m) :
    (h.take p m n).Alloc q k ↔ h.Alloc q k ∨ q = p ∧ k = n := by
  rw [Alloc, Alloc, mem_take hp hn hle]
  simp only [Block.mk.injEq, Bool.false_eq_true, and_false, and_true, or_false]
  refine or_congr_left (and_iff_left_of_imp ?_)
  rintro hq rfl
  exact h.not_mem_of_alloc hq m hp

/-! ## Release -/

theorem split_of_alloc {p n : ℕ} (hp : h.Alloc p n) :
    ∃ l₁ l₂, h.blocks = l₁ ++ ⟨n, false⟩ :: l₂ ∧ p = R.first + total l₁ ∧
      (∀ x ∈ l₁, 0 < x.size) ∧ ∀ x ∈ l₁ ++ ⟨n, false⟩ :: l₂, 0 < x.size := by
  obtain ⟨l₁, l₂, he, hpe⟩ := exists_split_of_mem hp
  have hpos := h.pos
  rw [he] at hpos
  exact ⟨l₁, l₂, he, hpe, fun x hx => hpos x (by simp [hx]), hpos⟩

def freedSize (h : AbsArena R) (p : ℕ) : ℕ :=
  ((blockAt R.first (release p R.first h.blocks) p).map Block.size).getD 0

theorem total_release {l₁ l₂ : List Block} {n : ℕ} :
    total (l₁ ++ ⟨n + total (l₂.takeWhile Block.free), true⟩ :: l₂.dropWhile Block.free) =
      total (l₁ ++ ⟨n, false⟩ :: l₂) := by
  have ht := congrArg total (takeWhile_append_dropWhile (p := Block.free) (l := l₂))
  simp only [total_append, total_cons] at ht ⊢
  omega

theorem pos_release {l₁ l₂ : List Block} {n : ℕ} (hpos : ∀ x ∈ l₁ ++ ⟨n, false⟩ :: l₂, 0 < x.size) :
    ∀ x ∈ l₁ ++ ⟨n + total (l₂.takeWhile Block.free), true⟩ :: l₂.dropWhile Block.free,
      0 < x.size := by
  have hn : 0 < n := hpos ⟨n, false⟩ (by simp)
  intro x hx
  simp only [mem_append, mem_cons] at hx
  rcases hx with hx | rfl | hx
  · exact hpos x (by simp [hx])
  · exact Nat.add_pos_left hn _
  · exact hpos x (by simp [dropWhile_subset _ hx])

theorem freedSize_split {l₁ l₂ : List Block} {n : ℕ} (he : h.blocks = l₁ ++ ⟨n, false⟩ :: l₂) :
    h.freedSize (R.first + total l₁) = n + total (l₂.takeWhile Block.free) := by
  have hpos := h.pos
  rw [he] at hpos
  rw [freedSize, he, release_split (fun x hx => hpos x (by simp [hx])),
    (blockAt_eq_some (pos_release hpos)).mpr (mem_place_split _ _ _ _)]
  rfl

/-- Free the block at `p`. -/
def free (h : AbsArena R) (p n : ℕ) (hp : h.Alloc p n) : AbsArena R where
  blocks := release p R.first h.blocks
  lists := pushFront (without h.lists (absorbed p R.first h.blocks)) (h.freedSize p) p
  fill := by
    obtain ⟨l₁, l₂, he, rfl, hl, -⟩ := split_of_alloc hp
    rw [he, release_split hl, total_release, ← he, h.fill]
  pos := by
    obtain ⟨l₁, l₂, he, rfl, hl, hpos⟩ := split_of_alloc hp
    rw [he, release_split hl]
    exact pos_release hpos
  nodup := by
    intro s
    have hw : (without h.lists (absorbed p R.first h.blocks) s).Nodup := (h.nodup s).filter _
    by_cases hs : s = h.freedSize p
    · rw [pushFront, hs, update_self]
      refine nodup_cons.mpr ⟨?_, hs ▸ hw⟩
      intro hm
      exact h.not_mem_of_alloc hp _ (mem_without.mp hm).1
    · rw [pushFront, update_of_ne hs]
      exact hw
  mem_lists := by
    intro s q
    rw [mem_pushFront, mem_without, h.mem_lists]
    obtain ⟨l₁, l₂, he, rfl, hl, hpos⟩ := split_of_alloc hp
    rw [freedSize_split he, he, release_split hl, absorbed_split hl, mem_place_released_free hpos]
    tauto

/-- Releasing a block takes it, and no other, out of use. -/
theorem alloc_free {p n q k : ℕ} (hp : h.Alloc p n) :
    (h.free p n hp).Alloc q k ↔ h.Alloc q k ∧ q ≠ p := by
  rw [Alloc, Alloc]
  change _ ∈ place R.first (release p R.first h.blocks) ↔ _
  obtain ⟨l₁, l₂, he, rfl, hl, hpos⟩ := split_of_alloc hp
  rw [he, release_split hl]
  exact mem_place_released hpos

end AbsArena

end Remon.Arena
