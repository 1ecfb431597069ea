import Mathlib.Data.List.Chain
import Remon.Lib.Tiling

/-! # Tilings without adjacent free blocks

A tiling is coalesced when no free block follows a free one. Releasing a block keeps this
exactly if the block to the left of the released one is in use, since `release` looks to the
right only.
-/

namespace Remon.Lib
open List

/-- No free block follows a free block. -/
def Coalesced (bs : List Block) : Prop := bs.IsChain (fun b c => b.free = true → c.free = false)

theorem coalesced_singleton (b : Block) : Coalesced [b] := isChain_singleton b

theorem coalesced_cons {b : Block} {bs : List Block} :
    Coalesced (b :: bs) ↔ (∀ c ∈ bs.head?, b.free = true → c.free = false) ∧ Coalesced bs :=
  isChain_cons

theorem coalesced_append {l₁ l₂ : List Block} :
    Coalesced (l₁ ++ l₂) ↔ Coalesced l₁ ∧ Coalesced l₂ ∧
      ∀ b ∈ l₁.getLast?, ∀ c ∈ l₂.head?, b.free = true → c.free = false :=
  isChain_append

/-- Cutting an allocation off a free block leaves no new free neighbours. -/
theorem Coalesced.carved {l₁ l₂ : List Block} {b : Block} {n k : ℕ}
    (h : Coalesced (l₁ ++ b :: l₂)) (hb : b.free = true) :
    Coalesced (l₁ ++ pieces b n k ++ l₂) := by
  obtain ⟨h₁, h₂, -⟩ := coalesced_append.mp h
  obtain ⟨hbc, h₂⟩ := coalesced_cons.mp h₂
  have hhead : ∀ c ∈ (pieces b n k ++ l₂).head?, c.free = false := by
    intro c hc
    unfold pieces at hc
    split at hc
    · simp only [cons_append, List.head?_cons, Option.mem_some_iff] at hc
      rw [← hc]
    · simp only [cons_append, List.head?_cons, Option.mem_some_iff] at hc
      rw [← hc]
  have htail : Coalesced (pieces b n k ++ l₂) := by
    unfold pieces
    split
    · exact coalesced_cons.mpr ⟨by simp, h₂⟩
    · refine coalesced_cons.mpr ⟨by simp, coalesced_cons.mpr ⟨?_, h₂⟩⟩
      intro c hc _
      exact hbc c hc hb
  rw [append_assoc]
  exact coalesced_append.mpr ⟨h₁, htail, fun x _ c hc _ => hhead c hc⟩

/-- A release leaves no adjacent free blocks exactly if the block to the left is in use. -/
theorem coalesced_released {l₁ l₂ : List Block} {b : Block} {n : ℕ}
    (h : Coalesced (l₁ ++ b :: l₂)) :
    Coalesced (l₁ ++ ⟨n, true⟩ :: l₂.dropWhile Block.free) ↔
      ∀ x ∈ l₁.getLast?, x.free = false := by
  obtain ⟨h₁, h₂, -⟩ := coalesced_append.mp h
  have hsuf : Coalesced (l₂.dropWhile Block.free) :=
    List.IsChain.suffix (coalesced_cons.mp h₂).2 (dropWhile_suffix _)
  have hhead : ∀ c ∈ (l₂.dropWhile Block.free).head?, c.free = false := by
    intro c hc
    have hne := List.head?_dropWhile_not Block.free l₂
    rw [Option.mem_def.mp hc] at hne
    simpa using hne
  rw [coalesced_append]
  constructor
  · rintro ⟨-, -, hlast⟩ x hx
    by_contra hf
    have := hlast x hx ⟨n, true⟩ (by simp) (by simpa using hf)
    simp at this
  · intro hx
    refine ⟨h₁, coalesced_cons.mpr ⟨fun c hc _ => hhead c hc, hsuf⟩, ?_⟩
    intro x hm c _ hf
    rw [hx x hm] at hf
    cases hf

/-! ## The blocks in use determine a coalesced tiling -/

def UsedIn (s : ℕ) (bs cs : List Block) : Prop :=
  ∀ p n, (p, ⟨n, false⟩) ∈ place s bs → (p, ⟨n, false⟩) ∈ place s cs

variable {s : ℕ} {b c : Block} {bs cs : List Block}

theorem UsedIn.head_eq (h : UsedIn s (b :: bs) (c :: cs)) (hb : b.free = false)
    (hpos : ∀ x ∈ c :: cs, 0 < x.size) : b = c := by
  obtain ⟨n, f⟩ := b
  dsimp only at hb
  subst hb
  exact place_unique hpos (h s n (by simp)) (by simp)

theorem UsedIn.tail (h : UsedIn s (b :: bs) (b :: cs)) (hpos : ∀ x ∈ b :: bs, 0 < x.size) :
    UsedIn (s + b.size) bs cs := by
  intro p n hp
  have hlt := (place_bounds hp).1
  have hb := hpos b (by simp)
  have hm := h p n (mem_place_cons.mpr (.inr hp))
  rcases mem_place_cons.mp hm with he | hm
  · have := (Prod.mk.inj he).1
    omega
  · exact hm

theorem UsedIn.le_of_free (h : UsedIn s (b :: bs) (c :: cs)) (hco : Coalesced (b :: bs))
    (hb : b.free = true) (hc : c.free = true) (hposb : ∀ x ∈ b :: bs, 0 < x.size)
    (ht : total (b :: bs) = total (c :: cs)) : c.size ≤ b.size := by
  cases bs with
  | nil =>
    simp only [total_cons, total_nil] at ht
    omega
  | cons d bs =>
    have hd : d.free = false := (coalesced_cons.mp hco).1 d (by simp) hb
    have hbs := hposb b (by simp)
    obtain ⟨n, f⟩ := d
    dsimp only at hd
    subst hd
    have hm := h (s + b.size) n (by simp)
    rcases mem_place_cons.mp hm with he | hm
    · rw [← (Prod.mk.inj he).2] at hc
      cases hc
    · have := (place_bounds hm).1
      omega

/-- Two coalesced tilings of one interval with the same blocks in use are equal. -/
theorem Coalesced.unique (hbs : Coalesced bs) (hcs : Coalesced cs)
    (hpb : ∀ x ∈ bs, 0 < x.size) (hpc : ∀ x ∈ cs, 0 < x.size) (ht : total bs = total cs)
    (hbc : UsedIn s bs cs) (hcb : UsedIn s cs bs) : bs = cs := by
  induction bs generalizing s cs with
  | nil =>
    cases cs with
    | nil => rfl
    | cons c cs =>
      have := hpc c (by simp)
      simp only [total_nil, total_cons] at ht
      omega
  | cons b bs ih =>
    cases cs with
    | nil =>
      have := hpb b (by simp)
      simp only [total_nil, total_cons] at ht
      omega
    | cons c cs =>
      have he : b = c := by
        cases hb : b.free with
        | false => exact hbc.head_eq hb hpc
        | true =>
          cases hc : c.free with
          | false => exact (hcb.head_eq hc hpb).symm
          | true =>
            -- the block after a free one is in use, so neither free block ends first
            have h1 := hbc.le_of_free hbs hb hc hpb ht
            have h2 := hcb.le_of_free hcs hc hb hpc ht.symm
            obtain ⟨n, f⟩ := b
            obtain ⟨m, g⟩ := c
            dsimp only at hb hc h1 h2
            rw [hb, hc, Nat.le_antisymm h2 h1]
      subst he
      have ht' : total bs = total cs := by
        simp only [total_cons] at ht
        omega
      rw [ih (coalesced_cons.mp hbs).2 (coalesced_cons.mp hcs).2
        (fun x hx => hpb x (by simp [hx])) (fun x hx => hpc x (by simp [hx])) ht'
        (hbc.tail hpb) (hcb.tail hpc)]

theorem Coalesced.eq_singleton (h : Coalesced bs) (hpos : ∀ x ∈ bs, 0 < x.size)
    (ht : 0 < total bs) (hfree : ∀ p n, (p, ⟨n, false⟩) ∉ place s bs) :
    bs = [⟨total bs, true⟩] := by
  apply h.unique (s := s) (coalesced_singleton _) hpos
  · simpa using ht
  · simp
  · intro p n hp
    exact absurd hp (hfree p n)
  · intro p n hp
    simp at hp

/-! ## What a release removes from a list of live blocks -/

/-- Of a list without repetitions, erasing `y` removes `y` and nothing else. -/
theorem forall_removed_erase {α : Type*} [BEq α] [LawfulBEq α] {l : List α} {y : α}
    {P : α → Prop} (hnd : l.Nodup) (hy : y ∈ l) : (∀ x ∈ l, x ∉ l.erase y → P x) ↔ P y := by
  constructor
  · intro hall
    apply hall y hy
    rw [hnd.mem_erase_iff]
    exact fun hm => hm.1 rfl
  · intro hp x hx hnot
    have he : x = y := by
      by_contra hne
      exact hnot (hnd.mem_erase_iff.mpr ⟨hne, hx⟩)
    rw [he]
    exact hp

end Remon.Lib
