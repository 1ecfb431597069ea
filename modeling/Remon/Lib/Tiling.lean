import Mathlib.Data.List.TakeWhile
import Mathlib.Tactic

/-! # Tilings of an interval by blocks

An interval is cut into consecutive blocks, each free or in use. The list of
blocks determines the position of each. `carve` cuts an allocation off the
front of a block and `release` frees a block and joins it with the run of free
blocks to its right; both keep the total and every block elsewhere.
-/

namespace Remon.Lib
open List

structure Block where
  size : ℕ
  free : Bool
  deriving DecidableEq, Repr

def total (bs : List Block) : ℕ := (bs.map Block.size).sum

/-- The blocks with their positions, the first one at `s`. -/
def place (s : ℕ) : List Block → List (ℕ × Block)
  | [] => []
  | b :: bs => (s, b) :: place (s + b.size) bs

@[simp] theorem total_nil : total [] = 0 := rfl

@[simp] theorem total_cons (b : Block) (bs : List Block) : total (b :: bs) = b.size + total bs := by
  simp [total]

@[simp] theorem total_append (l₁ l₂ : List Block) : total (l₁ ++ l₂) = total l₁ + total l₂ := by
  simp [total]

theorem place_length (s : ℕ) (bs : List Block) : (place s bs).length = bs.length := by
  induction bs generalizing s with
  | nil => rfl
  | cons b bs ih => simp [place, ih]

theorem place_append (s : ℕ) (l₁ l₂ : List Block) :
    place s (l₁ ++ l₂) = place s l₁ ++ place (s + total l₁) l₂ := by
  induction l₁ generalizing s with
  | nil => simp [place]
  | cons b l₁ ih => simp [place, ih, Nat.add_assoc]

theorem mem_place_append {s : ℕ} {l₁ l₂ : List Block} {q : ℕ × Block} :
    q ∈ place s (l₁ ++ l₂) ↔ q ∈ place s l₁ ∨ q ∈ place (s + total l₁) l₂ := by
  rw [place_append, mem_append]

@[simp] theorem mem_place_cons {s : ℕ} {b : Block} {bs : List Block} {q : ℕ × Block} :
    q ∈ place s (b :: bs) ↔ q = (s, b) ∨ q ∈ place (s + b.size) bs := by
  simp [place]

@[simp] theorem not_mem_place_nil {s : ℕ} {q : ℕ × Block} : q ∉ place s [] := by
  simp [place]

/-- A placed block splits the list of blocks at its position. -/
theorem exists_split_of_mem {s p : ℕ} {b : Block} {bs : List Block} (h : (p, b) ∈ place s bs) :
    ∃ l₁ l₂, bs = l₁ ++ b :: l₂ ∧ p = s + total l₁ := by
  induction bs generalizing s with
  | nil => simp at h
  | cons c bs ih =>
    rcases mem_place_cons.mp h with he | hm
    · obtain ⟨rfl, rfl⟩ := Prod.mk.inj he
      exact ⟨[], bs, rfl, by simp⟩
    · obtain ⟨l₁, l₂, rfl, rfl⟩ := ih hm
      exact ⟨c :: l₁, l₂, rfl, by simp [Nat.add_assoc]⟩

theorem mem_place_split (s : ℕ) (l₁ : List Block) (b : Block) (l₂ : List Block) :
    (s + total l₁, b) ∈ place s (l₁ ++ b :: l₂) := by
  rw [mem_place_append]
  simp

theorem block_mem_of_mem_place {s p : ℕ} {b : Block} {bs : List Block}
    (h : (p, b) ∈ place s bs) : b ∈ bs := by
  obtain ⟨l₁, l₂, rfl, -⟩ := exists_split_of_mem h
  simp

theorem place_bounds {s p : ℕ} {b : Block} {bs : List Block} (h : (p, b) ∈ place s bs) :
    s ≤ p ∧ p + b.size ≤ s + total bs := by
  obtain ⟨l₁, l₂, rfl, rfl⟩ := exists_split_of_mem h
  simp only [total_append, total_cons]
  omega

theorem place_mod {k s p : ℕ} {b : Block} {bs : List Block} (hk : ∀ b ∈ bs, b.size % k = 0)
    (hp : (p, b) ∈ place s bs) : p % k = s % k := by
  induction bs generalizing s with
  | nil => simp [place] at hp
  | cons c bs ih =>
    rw [place, mem_cons, Prod.mk.injEq] at hp
    rcases hp with ⟨rfl, -⟩ | hp
    · rfl
    · rw [ih (fun b hb => hk b (mem_cons_of_mem _ hb)) hp, Nat.add_mod,
        hk c (mem_cons_self ..), Nat.add_zero, Nat.mod_mod]

/-- Two placed blocks are the same one or do not overlap. -/
theorem place_disjoint {s p q : ℕ} {b c : Block} {bs : List Block}
    (hb : (p, b) ∈ place s bs) (hc : (q, c) ∈ place s bs) :
    (p = q ∧ b = c) ∨ p + b.size ≤ q ∨ q + c.size ≤ p := by
  induction bs generalizing s with
  | nil => simp at hb
  | cons d bs ih =>
    rcases mem_place_cons.mp hb with h1 | h1 <;> rcases mem_place_cons.mp hc with h2 | h2
    · obtain ⟨rfl, rfl⟩ := Prod.mk.inj h1
      obtain ⟨rfl, rfl⟩ := Prod.mk.inj h2
      exact .inl ⟨rfl, rfl⟩
    · obtain ⟨rfl, rfl⟩ := Prod.mk.inj h1
      exact .inr (.inl (place_bounds h2).1)
    · obtain ⟨rfl, rfl⟩ := Prod.mk.inj h2
      exact .inr (.inr (place_bounds h1).1)
    · exact ih h1 h2

/-- Blocks of positive size are determined by their position. -/
theorem place_unique {s p : ℕ} {b c : Block} {bs : List Block} (hpos : ∀ x ∈ bs, 0 < x.size)
    (hb : (p, b) ∈ place s bs) (hc : (p, c) ∈ place s bs) : b = c := by
  have h1 := hpos b (block_mem_of_mem_place hb)
  have h2 := hpos c (block_mem_of_mem_place hc)
  rcases place_disjoint hb hc with h | h | h
  · exact h.2
  · omega
  · omega

theorem place_nodup {s : ℕ} {bs : List Block} (hpos : ∀ x ∈ bs, 0 < x.size) :
    ((place s bs).map Prod.fst).Nodup := by
  induction bs generalizing s with
  | nil => simp [place]
  | cons b bs ih =>
    have hb := hpos b (by simp)
    refine nodup_cons.mpr ⟨?_, ih (fun x hx => hpos x (by simp [hx]))⟩
    intro hm
    obtain ⟨q, hq, he⟩ := mem_map.mp hm
    have := (place_bounds hq).1
    dsimp only at he
    omega

theorem length_le_total {bs : List Block} (hpos : ∀ x ∈ bs, 0 < x.size) :
    bs.length ≤ total bs := by
  induction bs with
  | nil => simp
  | cons b bs ih =>
    have h1 := hpos b (by simp)
    have h2 := ih (fun x hx => hpos x (by simp [hx]))
    rw [total_cons, length_cons]
    omega

theorem exists_last_place {s : ℕ} {bs : List Block} (h : bs ≠ []) :
    ∃ x d, (x, d) ∈ place s bs ∧ x + d.size = s + total bs := by
  induction bs using List.reverseRecOn with
  | nil => exact absurd rfl h
  | append_singleton bs d =>
    refine ⟨s + total bs, d, mem_place_split s bs d [], ?_⟩
    simp [Nat.add_assoc]

/-- Every position of the interval lies in a block. -/
theorem exists_place_covering {s i : ℕ} {bs : List Block} (h : s ≤ i) (h' : i < s + total bs) :
    ∃ x d, (x, d) ∈ place s bs ∧ x ≤ i ∧ i < x + d.size := by
  induction bs generalizing s with
  | nil =>
    rw [total_nil] at h'
    omega
  | cons b bs ih =>
    rw [total_cons] at h'
    by_cases hi : i < s + b.size
    · exact ⟨s, b, by simp, h, hi⟩
    · obtain ⟨x, d, hx, hxi⟩ := ih (s := s + b.size) (by omega) (by omega)
      exact ⟨x, d, by simp [hx], hxi⟩

/-- When consecutive blocks are replaced by others of the same total length, the blocks
elsewhere stay where they are. -/
theorem mem_place_replaced {s q : ℕ} {c : Block} {l₁ l₂ mid mid' : List Block}
    (hpos : ∀ x ∈ l₁ ++ mid ++ l₂, 0 < x.size) (ht : total mid' = total mid) :
    (q, c) ∈ place s (l₁ ++ mid' ++ l₂) ↔
      (q, c) ∈ place s (l₁ ++ mid ++ l₂) ∧ (q < s + total l₁ ∨ s + total l₁ + total mid ≤ q) ∨
        (q, c) ∈ place (s + total l₁) mid' := by
  have h1 : (q, c) ∈ place s l₁ → q < s + total l₁ := by
    intro hq
    have hb := place_bounds hq
    have hc := hpos c (by simp [block_mem_of_mem_place hq])
    omega
  have h2 : (q, c) ∈ place (s + total l₁) mid →
      s + total l₁ ≤ q ∧ q < s + total l₁ + total mid := by
    intro hq
    have hb := place_bounds hq
    have hc := hpos c (by simp [block_mem_of_mem_place hq])
    omega
  have h3 : (q, c) ∈ place (s + (total l₁ + total mid)) l₂ → s + total l₁ + total mid ≤ q := by
    intro hq
    have hb := place_bounds hq
    omega
  simp only [mem_place_append, total_append, ht]
  constructor
  · rintro ((h | h) | h)
    · exact .inl ⟨.inl (.inl h), .inl (h1 h)⟩
    · exact .inr h
    · exact .inl ⟨.inr h, .inr (h3 h)⟩
  · rintro (⟨(h | h) | h, hq⟩ | h)
    · exact .inl (.inl h)
    · have := h2 h
      omega
    · exact .inr h
    · exact .inl (.inr h)

def freeStarts (s : ℕ) (bs : List Block) : List ℕ :=
  ((place s bs).filter (fun q => q.2.free)).map Prod.fst

theorem mem_freeStarts {s p : ℕ} {bs : List Block} :
    p ∈ freeStarts s bs ↔ ∃ b, (p, b) ∈ place s bs ∧ b.free = true := by
  simp [freeStarts]

theorem freeStarts_append (s : ℕ) (l₁ l₂ : List Block) :
    freeStarts s (l₁ ++ l₂) = freeStarts s l₁ ++ freeStarts (s + total l₁) l₂ := by
  simp [freeStarts, place_append]

theorem freeStarts_cons (s : ℕ) (b : Block) (bs : List Block) :
    freeStarts s (b :: bs) = (if b.free then [s] else []) ++ freeStarts (s + b.size) bs := by
  cases h : b.free <;> simp [freeStarts, place, h]

theorem mem_freeStarts_replace {s q : ℕ} {l₁ l₂ mid : List Block} :
    q ∈ freeStarts s (l₁ ++ mid ++ l₂) ↔ q ∈ freeStarts s l₁ ∨
      q ∈ freeStarts (s + total l₁) mid ∨ q ∈ freeStarts (s + total l₁ + total mid) l₂ := by
  rw [freeStarts_append, freeStarts_append, mem_append, mem_append, total_append,
    or_assoc, Nat.add_assoc]

theorem freeStarts_bounds {s q : ℕ} {bs : List Block} (hpos : ∀ b ∈ bs, 0 < b.size)
    (hq : q ∈ freeStarts s bs) : s ≤ q ∧ q < s + total bs := by
  obtain ⟨b, hb, -⟩ := mem_freeStarts.mp hq
  have h1 := place_bounds hb
  have h2 := hpos b (block_mem_of_mem_place hb)
  omega

def blockAt (s : ℕ) (bs : List Block) (p : ℕ) : Option Block :=
  ((place s bs).find? (fun q => q.1 = p)).map Prod.snd

theorem blockAt_eq_some {s p : ℕ} {b : Block} {bs : List Block} (hpos : ∀ x ∈ bs, 0 < x.size) :
    blockAt s bs p = some b ↔ (p, b) ∈ place s bs := by
  constructor
  · intro h
    obtain ⟨⟨q, c⟩, hf, rfl⟩ := Option.map_eq_some_iff.mp h
    have hq : q = p := by simpa using List.find?_some hf
    exact hq ▸ mem_of_find?_eq_some hf
  · intro h
    have hs : ((place s bs).find? (fun q => q.1 = p)).isSome := by
      rw [List.find?_isSome]
      exact ⟨(p, b), h, by simp⟩
    obtain ⟨⟨q, c⟩, hf⟩ := Option.isSome_iff_exists.mp hs
    have hq : q = p := by simpa using List.find?_some hf
    subst hq
    rw [blockAt, hf, place_unique hpos h (mem_of_find?_eq_some hf)]
    rfl

/-- The pieces left when `n` is cut off a block; a rest shorter than `k` stays with it. -/
def pieces (b : Block) (n k : ℕ) : List Block :=
  if b.size - n < k then [⟨b.size, false⟩] else [⟨n, false⟩, ⟨b.size - n, true⟩]

theorem total_pieces {b : Block} {n : ℕ} (k : ℕ) (h : n ≤ b.size) :
    total (pieces b n k) = b.size := by
  unfold pieces
  split <;> simp
  omega

def carve (n k p : ℕ) : ℕ → List Block → List Block
  | _, [] => []
  | s, b :: bs => if s = p then pieces b n k ++ bs else b :: carve n k p (s + b.size) bs

theorem carve_split {s n k : ℕ} {l₁ l₂ : List Block} {b : Block} (hpos : ∀ x ∈ l₁, 0 < x.size) :
    carve n k (s + total l₁) s (l₁ ++ b :: l₂) = l₁ ++ pieces b n k ++ l₂ := by
  induction l₁ generalizing s with
  | nil => simp [carve]
  | cons c l₁ ih =>
    have hc : 0 < c.size := hpos c (by simp)
    have he : s + total (c :: l₁) = (s + c.size) + total l₁ := by simp [Nat.add_assoc]
    rw [cons_append, carve, if_neg (by rw [he]; omega), he,
      ih (fun x hx => hpos x (by simp [hx]))]
    simp

/-- Free the block at `p` and join it with the free blocks that follow it. -/
def release (p : ℕ) : ℕ → List Block → List Block
  | _, [] => []
  | s, b :: bs =>
    if s = p then ⟨b.size + total (bs.takeWhile Block.free), true⟩ :: bs.dropWhile Block.free
    else b :: release p (s + b.size) bs

theorem release_split {s : ℕ} {l₁ l₂ : List Block} {b : Block} (hpos : ∀ x ∈ l₁, 0 < x.size) :
    release (s + total l₁) s (l₁ ++ b :: l₂) =
      l₁ ++ ⟨b.size + total (l₂.takeWhile Block.free), true⟩ :: l₂.dropWhile Block.free := by
  induction l₁ generalizing s with
  | nil => simp [release]
  | cons c l₁ ih =>
    have hc : 0 < c.size := hpos c (by simp)
    have he : s + total (c :: l₁) = (s + c.size) + total l₁ := by simp [Nat.add_assoc]
    rw [cons_append, release, if_neg (by rw [he]; omega), he,
      ih (fun x hx => hpos x (by simp [hx]))]
    simp

def absorbed (p : ℕ) : ℕ → List Block → List ℕ
  | _, [] => []
  | s, b :: bs =>
    if s = p then (place (s + b.size) (bs.takeWhile Block.free)).map Prod.fst
    else absorbed p (s + b.size) bs

theorem absorbed_split {s : ℕ} {l₁ l₂ : List Block} {b : Block} (hpos : ∀ x ∈ l₁, 0 < x.size) :
    absorbed (s + total l₁) s (l₁ ++ b :: l₂) =
      (place (s + total l₁ + b.size) (l₂.takeWhile Block.free)).map Prod.fst := by
  induction l₁ generalizing s with
  | nil => simp [absorbed]
  | cons c l₁ ih =>
    have hc : 0 < c.size := hpos c (by simp)
    have he : s + total (c :: l₁) = (s + c.size) + total l₁ := by simp [Nat.add_assoc]
    rw [cons_append, absorbed, if_neg (by rw [he]; omega), he,
      ih (fun x hx => hpos x (by simp [hx]))]

theorem mem_place_release_iff {s q n : ℕ} {c : Block} {l₁ l₂ : List Block}
    (hpos : ∀ x ∈ l₁ ++ ⟨n, false⟩ :: l₂, 0 < x.size) :
    (q, c) ∈ place s (l₁ ++ ⟨n + total (l₂.takeWhile Block.free), true⟩ ::
        l₂.dropWhile Block.free) ↔
      (q, c) ∈ place s (l₁ ++ ⟨n, false⟩ :: l₂) ∧
        (q < s + total l₁ ∨ s + total l₁ + (n + total (l₂.takeWhile Block.free)) ≤ q) ∨
      q = s + total l₁ ∧ c = ⟨n + total (l₂.takeWhile Block.free), true⟩ := by
  have he : l₁ ++ ⟨n, false⟩ :: l₂ = l₁ ++ ⟨n, false⟩ :: l₂.takeWhile Block.free ++
      l₂.dropWhile Block.free := by
    rw [append_assoc, cons_append, takeWhile_append_dropWhile]
  rw [he] at hpos ⊢
  rw [append_cons, mem_place_replaced hpos (by simp)]
  simp

theorem mem_absorbed_iff {s q n : ℕ} {c : Block} {l₁ l₂ : List Block}
    (hpos : ∀ x ∈ l₁ ++ ⟨n, false⟩ :: l₂, 0 < x.size)
    (hq : (q, c) ∈ place s (l₁ ++ ⟨n, false⟩ :: l₂)) (hne : q ≠ s + total l₁) :
    (q, c) ∈ place (s + total l₁ + n) (l₂.takeWhile Block.free) ↔
      ¬ (q < s + total l₁ ∨ s + total l₁ + (n + total (l₂.takeWhile Block.free)) ≤ q) := by
  have hcp := hpos c (block_mem_of_mem_place hq)
  constructor
  · intro hm
    have hb := place_bounds hm
    omega
  · intro hb
    rw [← takeWhile_append_dropWhile (p := Block.free) (l := l₂), mem_place_append,
      mem_place_cons, mem_place_append] at hq
    rcases hq with hq | hq | hq | hq
    · have := place_bounds hq
      omega
    · exact absurd (Prod.mk.inj hq).1 hne
    · exact hq
    · have := place_bounds hq
      dsimp only at this
      omega

/-- The free blocks after a release are the enlarged one and those not absorbed. -/
theorem mem_place_released_free {s q n k : ℕ} {l₁ l₂ : List Block}
    (hpos : ∀ x ∈ l₁ ++ ⟨n, false⟩ :: l₂, 0 < x.size) :
    (q, ⟨k, true⟩) ∈ place s (l₁ ++ ⟨n + total (l₂.takeWhile Block.free), true⟩ ::
        l₂.dropWhile Block.free) ↔
      (q, ⟨k, true⟩) ∈ place s (l₁ ++ ⟨n, false⟩ :: l₂) ∧
        q ∉ (place (s + total l₁ + n) (l₂.takeWhile Block.free)).map Prod.fst ∨
      q = s + total l₁ ∧ k = n + total (l₂.takeWhile Block.free) := by
  rw [mem_place_release_iff hpos]
  simp only [Block.mk.injEq, and_true]
  refine or_congr_left (and_congr_right fun hq => ?_)
  have hne : q ≠ s + total l₁ := by
    intro he
    have := place_unique hpos hq (he ▸ mem_place_split s l₁ ⟨n, false⟩ l₂)
    simp at this
  rw [← not_iff_not, ← mem_absorbed_iff hpos hq hne, not_not]
  constructor
  · intro hm
    exact mem_map.mpr ⟨_, hm, rfl⟩
  · intro hm
    obtain ⟨⟨r, d⟩, hd, he⟩ := mem_map.mp hm
    dsimp only at he
    subst he
    have hd' : (r, d) ∈ place s (l₁ ++ ⟨n, false⟩ :: l₂) := by
      rw [← takeWhile_append_dropWhile (p := Block.free) (l := l₂), mem_place_append,
        mem_place_cons, mem_place_append]
      exact .inr (.inr (.inl hd))
    rw [place_unique hpos hq hd']
    exact hd

/-- Releasing a block frees its position and takes those of the joined blocks away. -/
theorem mem_freeStarts_released {s q n : ℕ} {l₁ l₂ : List Block}
    (hpos : ∀ x ∈ l₁ ++ ⟨n, false⟩ :: l₂, 0 < x.size) :
    q = s + total l₁ ∨ q ∈ freeStarts s (l₁ ++ ⟨n, false⟩ :: l₂) ∧
        q ∉ (place (s + total l₁ + n) (l₂.takeWhile Block.free)).map Prod.fst ↔
      q ∈ freeStarts s (l₁ ++ ⟨n + total (l₂.takeWhile Block.free), true⟩ ::
        l₂.dropWhile Block.free) := by
  have hfree : ∀ bs, q ∈ freeStarts s bs ↔ ∃ k, (q, ⟨k, true⟩) ∈ place s bs := by
    intro bs
    rw [mem_freeStarts]
    constructor
    · rintro ⟨⟨k, f⟩, hb, rfl⟩
      exact ⟨k, hb⟩
    · rintro ⟨k, hb⟩
      exact ⟨⟨k, true⟩, hb, rfl⟩
  rw [hfree, hfree]
  simp only [mem_place_released_free hpos]
  constructor
  · rintro (hq | ⟨⟨k, hk⟩, hq⟩)
    · exact ⟨_, .inr ⟨hq, rfl⟩⟩
    · exact ⟨k, .inl ⟨hk, hq⟩⟩
  · rintro ⟨k, ⟨hk, hq⟩ | ⟨hq, -⟩⟩
    · exact .inr ⟨⟨k, hk⟩, hq⟩
    · exact .inl hq

/-- The blocks in use after a release are the other ones from before. -/
theorem mem_place_released {s q n k : ℕ} {l₁ l₂ : List Block}
    (hpos : ∀ x ∈ l₁ ++ ⟨n, false⟩ :: l₂, 0 < x.size) :
    (q, ⟨k, false⟩) ∈ place s (l₁ ++ ⟨n + total (l₂.takeWhile Block.free), true⟩ ::
        l₂.dropWhile Block.free) ↔
      (q, ⟨k, false⟩) ∈ place s (l₁ ++ ⟨n, false⟩ :: l₂) ∧ q ≠ s + total l₁ := by
  have hn : 0 < n := hpos ⟨n, false⟩ (by simp)
  rw [mem_place_release_iff hpos]
  constructor
  · rintro (⟨hq, hb⟩ | ⟨-, hc⟩)
    · exact ⟨hq, by omega⟩
    · simp at hc
  · rintro ⟨hq, hne⟩
    refine .inl ⟨hq, ?_⟩
    by_contra hb
    have hm := (mem_absorbed_iff hpos hq hne).mpr hb
    simpa using mem_takeWhile_imp (block_mem_of_mem_place hm)

end Remon.Lib
