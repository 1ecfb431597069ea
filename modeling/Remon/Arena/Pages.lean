import Remon.Arena.Sessions

/-! # What the owner of a block sees of the arena

Blocks that were handed out do not overlap, and no operation touches the pods of a block but
its own release and the writes of its owner. The walk of `trim` over the tags visits the blocks
of the region and picks the free ones.
-/

namespace Remon.Arena
open Lib Fault List

/-- The page `i` belongs to the block. -/
def Covers (x : ℕ × ℕ) (i : ℕ) : Prop := x.1 ≤ i ∧ i < x.1 + x.2

instance (x : ℕ × ℕ) (i : ℕ) : Decidable (Covers x i) := inferInstanceAs (Decidable (_ ∧ _))

namespace Session

variable {R : Region} {a b : State} {live : List (ℕ × ℕ)} {h : AbsArena R} {p n i : ℕ}

namespace Inv

variable (hs : Inv ⟨a, live⟩ h)
include hs

theorem bounds {x : ℕ × ℕ} (hx : x ∈ live) : R.first ≤ x.1 ∧ x.1 + x.2 ≤ R.last + 1 ∧ 0 < x.2 :=
  h.bounds ((hs.live x.1 x.2).mp hx)

/-- The first page of a block carries its length and is not marked free. -/
theorem header {x : ℕ × ℕ} (hx : x ∈ live) : a.tag x.1 = some (x.2, false) :=
  (hs.shows.tagged x.1 _ ((hs.live x.1 x.2).mp hx)).1

theorem not_freePage {x : ℕ × ℕ} (hx : x ∈ live) (hi : Covers x i) : ¬ h.FreePage i := by
  rintro ⟨q, k, hq, h1, h2⟩
  rcases place_disjoint ((hs.live x.1 x.2).mp hx) hq with ⟨-, hc⟩ | hc | hc
  · simp at hc
  · have := hi.2
    dsimp only at hc
    omega
  · have := hi.1
    dsimp only at hc
    omega

theorem apart {x y : ℕ × ℕ} (hx : x ∈ live) (hy : y ∈ live) (hxi : Covers x i)
    (hyi : Covers y i) : x = y := by
  obtain ⟨hx1, hx2⟩ := hxi
  obtain ⟨hy1, hy2⟩ := hyi
  rcases place_disjoint ((hs.live x.1 x.2).mp hx) ((hs.live y.1 y.2).mp hy) with ⟨h1, h2⟩ | hc | hc
  · rw [Block.mk.injEq] at h2
    exact Prod.ext h1 h2.1
  · dsimp only at hc
    omega
  · dsimp only at hc
    omega

/-- The new block was not in use, and no other block is touched. -/
theorem allocateNPages (hn : 0 < n) (run : a.allocateNPages R n = .ok (some p, b)) :
    (∃ h' : AbsArena R, Inv ⟨b, (p, n) :: live⟩ h') ∧ (p, n) ∉ live ∧
      ∀ x ∈ live, ∀ i, Covers x i → b.pods i = a.pods i := by
  have hstep : Step R ⟨a, live⟩ ⟨b, (p, n) :: live⟩ := .allocateNPages hn run
  obtain ⟨h', hs'⟩ := inv_step hs hstep
  refine ⟨⟨h', hs'⟩, (nodup_cons.mp hs'.nodup).1, ?_⟩
  obtain ⟨q, k, hq, hk⟩ := exists_free_of_ok hs.shows hn run
  obtain ⟨_, _, _, hrun, -, -, -, -, hw, -⟩ := allocateNPages_ok hs.shows hn hq hk
  cases hrun.symm.trans run
  intro x hx i hi
  exact hw.same i (hs.not_freePage hx hi)

/-- A release touches no other block. -/
theorem hugeFree (hp : (p, n) ∈ live) (run : a.hugeFree R p = .ok b) :
    (∃ h' : AbsArena R, Inv ⟨b, live.erase (p, n)⟩ h') ∧
      ∀ x ∈ live, x ≠ (p, n) → ∀ i, Covers x i → b.pods i = a.pods i := by
  have hstep : Step R ⟨a, live⟩ ⟨b, live.erase (p, n)⟩ := .hugeFree hp run
  refine ⟨inv_step hs hstep, ?_⟩
  have ha := (hs.live p n).mp hp
  obtain ⟨_, hrun, -, hw⟩ := hugeFree_ok hs.shows ha (made_of_hugeFree hs.shows ha run)
  cases hrun.symm.trans run
  intro x hx hne i hi
  refine hw.same i ?_
  rintro (hc | hc)
  · exact hne (hs.apart hx hp hi hc)
  · exact hs.not_freePage hx hi hc

theorem setPage {k : ℕ} {x : HeadPod} {a' : State} (hp : (p, k) ∈ live) (hi : Covers (p, k) i)
    (hhead : (a.mapForPodI i).modify i (fun t => { t with headPod := x }) = .ok a')
    (hused : a'.modify i (fun t => { t with isFree := false }) = .ok b) :
    (∃ h' : AbsArena R, Inv ⟨b, live⟩ h') ∧ (∀ j, j ≠ i → b.pods j = a.pods j) ∧
      ∃ t, b.pods i = some t ∧ t.isFree = false := by
  obtain ⟨h₁, hs₁⟩ := inv_step hs (.mapForPodI i)
  obtain ⟨h₂, hs₂⟩ := inv_step hs₁ (.setHeadPod i x hhead)
  obtain ⟨h₃, hs₃⟩ := inv_step hs₂ (.markUsed i hp hi hused)
  refine ⟨⟨h₃, hs₃⟩, ?_, ?_⟩
  · intro j hj
    rw [modify_ok hused, modify_ok hhead, State.adjust_pods_of_ne hj, State.adjust_pods_of_ne hj,
      State.mapForPodI_pods_of_ne hj]
  · have hmade : a'.Made i := by
      rw [modify_ok hhead]
      exact State.made_adjust.mpr (State.made_mapForPodI.mpr (.inl rfl))
    obtain ⟨t, ht, -⟩ := hmade.getPod
    refine ⟨{ t with isFree := false }, ?_, rfl⟩
    rw [modify_ok hused]
    simp [State.adjust, ht]

end Inv

end Session

/-! ## Trimming -/

def freeBlocks (l : List (ℕ × Block)) : List (ℕ × ℕ) :=
  (l.filter (fun x => x.2.free)).map fun x => (x.1, x.2.size)

theorem mem_freeBlocks {l : List (ℕ × Block)} {x : ℕ × ℕ} :
    x ∈ freeBlocks l ↔ (x.1, ⟨x.2, true⟩) ∈ l := by
  rw [freeBlocks, mem_map]
  constructor
  · rintro ⟨⟨p, n, f⟩, hy, rfl⟩
    obtain ⟨hy, rfl⟩ := mem_filter.mp hy
    exact hy
  · intro hx
    exact ⟨_, mem_filter.mpr ⟨hx, rfl⟩, rfl⟩

namespace State

def trimBlocks (a : State) (R : Region) : ℕ → ℕ → Except Fault (List (ℕ × ℕ))
  | 0, _ => .error .spin
  | fuel + 1, podI =>
    if podI < R.last then do
      let header ← a.getPod podI
      let footerI := podI + header.globalSize - 1
      if podI < R.first then throw (.exit (-1))
      if footerI > R.last then throw (.exit (-1))
      let footer ← a.getPod footerI
      let rest ← trimBlocks a R fuel (podI + header.globalSize)
      return if header.isFree && footer.isFree then (podI, header.globalSize) :: rest else rest
    else .ok []

def trim (a : State) (R : Region) : Except Fault (List (ℕ × ℕ)) :=
  a.trimBlocks R (R.podsSize + 1) R.first

def trimWalk (a : State) (R : Region) : ℕ → ℕ → Except Fault (List (ℕ × Block))
  | 0, _ => .error .spin
  | fuel + 1, podI =>
    if podI < R.last then do
      let header ← a.getPod podI
      let footerI := podI + header.globalSize - 1
      if podI < R.first then throw (.exit (-1))
      if footerI > R.last then throw (.exit (-1))
      let footer ← a.getPod footerI
      let rest ← trimWalk a R fuel (podI + header.globalSize)
      return (podI, ⟨header.globalSize, header.isFree && footer.isFree⟩) :: rest
    else .ok []

theorem trimBlocks_of_walk {a : State} {R : Region} {fuel podI : ℕ} {l : List (ℕ × Block)}
    (h : a.trimWalk R fuel podI = .ok l) : a.trimBlocks R fuel podI = .ok (freeBlocks l) := by
  induction fuel generalizing podI l with
  | zero => cases h
  | succ fuel ih =>
    rw [trimWalk] at h
    rw [trimBlocks]
    split at h
    case isFalse hlast =>
      obtain rfl := Except.ok.inj h
      rw [if_neg hlast]
      rfl
    case isTrue hlast =>
      rw [if_pos hlast]
      obtain ⟨header, hh, h⟩ := of_bind_ok h
      rw [hh, ok_bind]
      by_cases h1 : podI < R.first
      · simp [h1] at h
      by_cases h2 : podI + header.globalSize - 1 > R.last
      · simp [h1, h2] at h
      simp only [if_neg h1, if_neg h2] at h ⊢
      obtain ⟨footer, hf, h⟩ := of_bind_ok h
      obtain ⟨rest, hrest, h⟩ := of_bind_ok h
      obtain rfl := Except.ok.inj h
      rw [hf, ok_bind, ih hrest, ok_bind]
      cases hfree : header.isFree && footer.isFree <;> simp [freeBlocks]

end State

variable {R : Region} {a : State}

/-- From the start of a block on, the walk follows the tiling, and it ends before a block that
begins with the last page. -/
theorem trimWalk_ok {bs : List Block} {podI fuel : ℕ}
    (htags : ∀ p c, (p, c) ∈ place podI bs → a.tag p = some (c.size, c.free) ∧
      a.tag (p + c.size - 1) = some (c.size, c.free))
    (hpos : ∀ c ∈ bs, 0 < c.size) (hfirst : R.first ≤ podI) (hend : podI + total bs = R.last + 1)
    (hfuel : bs.length < fuel) :
    a.trimWalk R fuel podI = .ok ((place podI bs).filter (fun x => x.1 < R.last)) := by
  induction bs generalizing podI fuel with
  | nil =>
    obtain ⟨fuel, rfl⟩ := Nat.exists_eq_succ_of_ne_zero (by omega : fuel ≠ 0)
    rw [total_nil] at hend
    rw [State.trimWalk, if_neg (by omega)]
    rfl
  | cons c bs ih =>
    obtain ⟨fuel, rfl⟩ := Nat.exists_eq_succ_of_ne_zero (by omega : fuel ≠ 0)
    rw [total_cons] at hend
    have hc := hpos c (mem_cons_self ..)
    by_cases hlast : podI < R.last
    · obtain ⟨h1, h2⟩ := htags podI c (mem_place_cons.mpr (.inl rfl))
      obtain ⟨t, ht, hts, htf, -, -⟩ := State.getPod_of_tag h1
      obtain ⟨u, hu, -, huf, -, -⟩ := State.getPod_of_tag h2
      have htail : bs.length < fuel := by simpa using hfuel
      have hbegin : R.first ≤ podI + c.size := by omega
      have hrest := ih (fun p d hd => htags p d (mem_place_cons.mpr (.inr hd)))
        (fun d hd => hpos d (mem_cons_of_mem _ hd)) hbegin (by omega) htail
      have hno : ¬ podI < R.first := by omega
      have hno' : ¬ podI + c.size - 1 > R.last := by omega
      simp only [State.trimWalk, if_pos hlast, ht, ok_bind, hts, if_neg hno, if_neg hno',
        hu, hrest, htf, huf, Bool.and_self, pure_eq]
      rw [place, filter_cons_of_pos (by simpa using hlast)]
    · rw [State.trimWalk, if_neg hlast, filter_eq_nil_iff.mpr]
      intro x hx
      have := (place_bounds hx).1
      simpa using (by omega : R.last ≤ x.1)

theorem trimWalk_shows {h : AbsArena R} (hs : Shows a h) :
    a.trimWalk R (R.podsSize + 1) R.first =
      .ok ((place R.first h.blocks).filter (fun x => x.1 < R.last)) := by
  have hfill := h.fill
  have hle := R.le
  have hlt := R.lt
  unfold Region.podCount at hfill
  have hlen : h.blocks.length ≤ total h.blocks := length_le_total h.pos
  exact trimWalk_ok hs.tagged h.pos le_rfl (by omega) (by omega)

theorem trim_ok {h : AbsArena R} (hs : Shows a h) :
    ∃ l, a.trim R = .ok l ∧ ∀ x ∈ l, ∀ i, Covers x i → h.FreePage i := by
  refine ⟨_, State.trimBlocks_of_walk (trimWalk_shows hs), ?_⟩
  intro x hx i hi
  exact ⟨x.1, x.2, mem_of_mem_filter (mem_freeBlocks.mp hx), hi⟩

end Remon.Arena
