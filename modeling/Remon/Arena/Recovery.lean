import Remon.Arena.Sessions
import Remon.Lib.Coalesced

/-! # When an arena gets its pages back in one piece

`coalescing` joins a freed block with the free blocks to its right. A free block to its left
stays apart, so the order of the frees decides whether the region becomes one block again.
-/

namespace Remon.Arena
open Lib

def State.LeftInUse (R : Region) (a : State) (p : ℕ) : Prop :=
  p = R.first ∨ (a.tag (p - 1)).map Prod.snd = some false

instance (R : Region) (a : State) (p : ℕ) : Decidable (a.LeftInUse R p) :=
  inferInstanceAs (Decidable (_ ∨ _))

variable {R : Region}

theorem Tagged.leftInUse {a : State} {l₁ l₂ : List Block} (ht : Tagged R a (l₁ ++ l₂))
    (hpos : ∀ x ∈ l₁, 0 < x.size) :
    a.LeftInUse R (R.first + total l₁) ↔ ∀ x ∈ l₁.getLast?, x.free = false := by
  unfold State.LeftInUse
  rcases List.eq_nil_or_concat' l₁ with rfl | ⟨l, x, rfl⟩
  · simp
  · have hx := hpos x (by simp)
    have hm := mem_place_split R.first l x l₂
    have htag := (ht _ x (by simpa using hm)).2
    have he : R.first + total (l ++ [x]) = R.first + total l + x.size := by
      simp [Nat.add_assoc]
    have hne : R.first + total l + x.size ≠ R.first := by
      omega
    rw [he, htag]
    simp [hne]

namespace Session

variable {s s' : Session} {h : AbsArena R}

def RightFirst (R : Region) (s s' : Session) : Prop :=
  ∀ b ∈ s.live, b ∉ s'.live → s.arena.LeftInUse R b.1

theorem rightFirst_of_subset (hsub : s.live ⊆ s'.live) : RightFirst R s s' := by
  intro b hb hnot
  exact absurd (hsub hb) hnot

theorem rightFirst_erase {p n : ℕ} (hnd : s.live.Nodup) (hp : (p, n) ∈ s.live)
    (he : s'.live = s.live.erase (p, n)) : RightFirst R s s' ↔ s.arena.LeftInUse R p := by
  unfold RightFirst
  rw [he]
  exact forall_removed_erase hnd hp

/-- From an arena without adjacent free blocks a step leads to another one exactly if the
blocks it gives back have a left neighbour in use. -/
theorem coalesced_step (hs : Inv s h) (hc : Coalesced h.blocks) (hstep : Step R s s') :
    ∃ h' : AbsArena R, Inv s' h' ∧ (Coalesced h'.blocks ↔ RightFirst R s s') := by
  obtain ⟨h', hi, hacts⟩ := step_acts hs hstep
  refine ⟨h', hi, ?_⟩
  generalize hl : s'.live = live' at hacts
  cases hacts with
  | @take p m n hp hn hle =>
    have hb := (h.mem_lists m p).mp hp
    obtain ⟨l₁, l₂, he, rfl⟩ := exists_split_of_mem hb
    have hpos := h.pos
    rw [he] at hc hpos
    rw [(AbsArena.take_eq hp hn hle).1, he, carve_split (fun x hx => hpos x (by simp [hx]))]
    exact iff_of_true (hc.carved rfl) (rightFirst_of_subset (by simp [hl]))
  | @free p n hp ha =>
    obtain ⟨l₁, l₂, he, rfl, hpos, -⟩ := AbsArena.split_of_alloc ha
    have ht := hs.shows.tagged
    rw [he] at hc ht
    rw [rightFirst_erase hs.nodup hp hl, ht.leftInUse hpos]
    change Coalesced (release _ R.first h.blocks) ↔ _
    rw [he, release_split hpos, coalesced_released hc]
  | same => exact iff_of_true hc (rightFirst_of_subset (by simp [hl]))

/-- The sessions of the runs that give every block back while the block to its left is
in use. -/
inductive RightFirstRun (R : Region) : Session → Prop
  | init {pods : ℕ → Option PageTag} {a : State}
      (run : (State.start pods).initGlobalFreePodList R = .ok a) : RightFirstRun R ⟨a, []⟩
  | step {s s' : Session} (hs : RightFirstRun R s) (hstep : Step R s s')
      (hright : RightFirst R s s') : RightFirstRun R s'

theorem RightFirstRun.coalesced (hs : RightFirstRun R s) :
    ∃ h : AbsArena R, Inv s h ∧ Coalesced h.blocks := by
  induction hs with
  | init run => exact ⟨_, inv_init run, coalesced_singleton _⟩
  | step _ hstep hright ih =>
    obtain ⟨h, hi, hc⟩ := ih
    obtain ⟨h', hi', hc'⟩ := coalesced_step hi hc hstep
    exact ⟨h', hi', hc'.mpr hright⟩

theorem Inv.allocate_all (hs : Inv s h) (hb : h.blocks = [⟨R.podCount, true⟩]) :
    ∃ b, s.arena.allocateNPages R R.podCount = .ok (some R.first, b) := by
  have hq : (R.first, (⟨R.podCount, true⟩ : Block)) ∈ place R.first h.blocks := by
    simp [hb]
  obtain ⟨p, m, b, hrun, hp, -⟩ := allocateNPages_ok hs.shows R.podCount_pos hq le_rfl
  have hm := (h.mem_lists m p).mp hp
  rw [hb] at hm
  simp only [mem_place_cons, not_mem_place_nil, or_false, Prod.mk.injEq] at hm
  exact ⟨b, hm.1 ▸ hrun⟩

/-- In every run that frees blocks from the right, no two adjacent blocks of the region are
free. If no block is live the region is one free block again, and a request for all of its
pages is served. -/
theorem arena_recovers (hs : RightFirstRun R s) :
    ∃ bs, TiledBy R s bs ∧ Coalesced bs ∧ (s.live = [] → bs = [⟨R.podCount, true⟩] ∧
      ∃ b, s.arena.allocateNPages R R.podCount = .ok (some R.first, b)) := by
  obtain ⟨h, hi, hc⟩ := hs.coalesced
  refine ⟨h.blocks, hi.tiledBy, hc, ?_⟩
  intro hl
  have hfree : ∀ p n, (p, ⟨n, false⟩) ∉ place R.first h.blocks := by
    intro p n hp
    have := (hi.live p n).mpr hp
    simp [hl] at this
  have hpos : 0 < total h.blocks := by
    rw [h.fill]
    exact R.podCount_pos
  have hb : h.blocks = [⟨R.podCount, true⟩] := by
    rw [← h.fill]
    exact hc.eq_singleton h.pos hpos hfree
  exact ⟨hb, hi.allocate_all hb⟩

def sampleFull : State :=
  ((sampleArena.allocateNPages sampleRegion 2).toOption.getD (none, sampleArena)).2

/-- The full arena after one of its blocks was given back. -/
def sampleFreed (p : ℕ) : State := (sampleFull.hugeFree sampleRegion p).toOption.getD sampleFull

def sampleEmptied (p q : ℕ) : State :=
  ((sampleFreed p).hugeFree sampleRegion q).toOption.getD (sampleFreed p)

theorem sampleFull_step : Step sampleRegion ⟨sampleArena, [(0, 2)]⟩
    ⟨sampleFull, [(2, 2), (0, 2)]⟩ :=
  .allocateNPages Nat.two_pos rfl

theorem arena_recovers_sample : RightFirstRun sampleRegion ⟨sampleEmptied 2 0, []⟩ ∧
    ∃ b, (sampleEmptied 2 0).allocateNPages sampleRegion 4 = .ok (some 0, b) := by
  have hstart : (State.start fun _ => none).initGlobalFreePodList sampleRegion =
    .ok sampleStart := rfl
  have h1 : RightFirstRun sampleRegion ⟨sampleArena, [(0, 2)]⟩ :=
    .step (.init hstart) (.allocateNPages Nat.two_pos rfl) (rightFirst_of_subset (by simp))
  have h2 : RightFirstRun sampleRegion ⟨sampleFull, [(2, 2), (0, 2)]⟩ :=
    .step h1 sampleFull_step (rightFirst_of_subset (by simp))
  have h3 : RightFirstRun sampleRegion ⟨sampleFreed 2, [(0, 2)]⟩ :=
    .step h2 (.hugeFree (n := 2) (p := 2) (by simp) rfl)
      ((rightFirst_erase (p := 2) (n := 2) (by simp) (by simp) rfl).mpr (by decide))
  have h4 : RightFirstRun sampleRegion ⟨sampleEmptied 2 0, []⟩ :=
    .step h3 (.hugeFree (n := 2) (p := 0) (by simp) rfl)
      ((rightFirst_erase (p := 0) (n := 2) (by simp) (by simp) rfl).mpr (by decide))
  obtain ⟨bs, -, -, hall⟩ := arena_recovers h4
  exact ⟨h4, (hall rfl).2⟩

/-- The two blocks of a full arena are given back from the left: nothing is live, both are
free next to each other, and the request for all of the pages finds no size class. -/
theorem left_free_stays_apart : Reachable sampleRegion ⟨sampleEmptied 0 2, []⟩ ∧
    (sampleEmptied 0 2).tag 0 = some (2, true) ∧ (sampleEmptied 0 2).tag 2 = some (2, true) ∧
    (sampleEmptied 0 2).allocateNPages sampleRegion 4 = .error .undefined := by
  have h1 : Reachable sampleRegion ⟨sampleFull, [(2, 2), (0, 2)]⟩ :=
    .step sample_reachable sampleFull_step
  have h2 : Reachable sampleRegion ⟨sampleFreed 0, [(2, 2)]⟩ :=
    .step h1 (.hugeFree (n := 2) (p := 0) (by simp) rfl)
  have h3 : Reachable sampleRegion ⟨sampleEmptied 0 2, []⟩ :=
    .step h2 (.hugeFree (n := 2) (p := 2) (by simp) rfl)
  exact ⟨h3, rfl, rfl, rfl⟩

end Session

end Remon.Arena
