import Remon.Arena.Refinement

/-! # Runs of an arena

The users of an arena allocate runs of pages, give them back, create pods, and the owner of a
block writes the `headPod` of its pages and marks them as used. A block can be given back once
the pods of its pages were made, which the loop of `hugeMalloc` does before it returns the
block.
-/

namespace Remon.Arena
open Lib List

/-- The arena and the blocks that were handed out, with their lengths. -/
structure Session where
  arena : State
  live : List (ℕ × ℕ)

/-- A new allocator over the pods that exist already. -/
def State.start (pods : ℕ → Option PageTag) : State := ⟨pods, .empty, []⟩

namespace Session

inductive Step (R : Region) : Session → Session → Prop
  | allocateNPages {a b : State} {live : List (ℕ × ℕ)} {n p : ℕ} (hn : 0 < n)
      (run : a.allocateNPages R n = .ok (some p, b)) : Step R ⟨a, live⟩ ⟨b, (p, n) :: live⟩
  | hugeFree {a b : State} {live : List (ℕ × ℕ)} {n p : ℕ} (hp : (p, n) ∈ live)
      (run : a.hugeFree R p = .ok b) : Step R ⟨a, live⟩ ⟨b, live.erase (p, n)⟩
  | mapForPodI {a : State} {live : List (ℕ × ℕ)} (i : ℕ) : Step R ⟨a, live⟩ ⟨a.mapForPodI i, live⟩
  | setHeadPod {a b : State} {live : List (ℕ × ℕ)} (i : ℕ) (x : HeadPod)
      (run : a.modify i (fun t => { t with headPod := x }) = .ok b) : Step R ⟨a, live⟩ ⟨b, live⟩
  | markUsed {a b : State} {live : List (ℕ × ℕ)} {n p : ℕ} (i : ℕ) (hp : (p, n) ∈ live)
      (hi : p ≤ i ∧ i < p + n) (run : a.modify i (fun t => { t with isFree := false }) = .ok b) :
      Step R ⟨a, live⟩ ⟨b, live⟩

/-- The sessions that the constructor and any sequence of steps lead to. -/
inductive Reachable (R : Region) : Session → Prop
  | init {pods : ℕ → Option PageTag} {a : State}
      (run : (State.start pods).initGlobalFreePodList R = .ok a) : Reachable R ⟨a, []⟩
  | step {s s' : Session} (hs : Reachable R s) (hstep : Step R s s') : Reachable R s'

/-- The arena shows an abstract one whose blocks in use are the live ones. -/
structure Inv {R : Region} (s : Session) (h : AbsArena R) : Prop where
  shows : Shows s.arena h
  live : ∀ p n, (p, n) ∈ s.live ↔ h.Alloc p n
  nodup : s.live.Nodup
  found : .cannotFindSizeClass ∉ s.arena.reports

variable {R : Region} {s s' : Session} {h : AbsArena R}

theorem not_reported {S : Set ℕ} {a b : State} (hw : State.Within S a b)
    (ha : .cannotFindSizeClass ∉ a.reports) : .cannotFindSizeClass ∉ b.reports := by
  intro hb
  rcases hw.reports _ hb with hb | hb
  · exact ha hb
  · cases hb

theorem Inv.of_same_links {a b : State} {live : List (ℕ × ℕ)} (hs : Inv ⟨a, live⟩ h)
    (hm : b.hugePodMap = a.hugePodMap) (hn : b.next = a.next) (hp : b.prev = a.prev)
    (hr : b.reports = a.reports) (hmade : ∀ i, a.Made i → b.Made i)
    (ht : Tagged R b h.blocks) : Inv ⟨b, live⟩ h := by
  refine ⟨⟨ht, hs.shows.lists.congr hm hn hp hmade⟩, hs.live, hs.nodup, ?_⟩
  change .cannotFindSizeClass ∉ b.reports
  rw [hr]
  exact hs.found

/-- What a write to a pod that returned has done. -/
theorem modify_ok {a b : State} {i : ℕ} {f : PageTag → PageTag} (run : a.modify i f = .ok b) :
    b = a.adjust i f := by
  have hi : a.Made i := by
    intro hn
    simp [State.modify, State.getPod, hn] at run
  rw [State.modify_eq hi] at run
  cases run
  rfl

theorem exists_free_of_ok {a b : State} {n p : ℕ} (hs : Shows a h) (hn : 0 < n)
    (run : a.allocateNPages R n = .ok (some p, b)) :
    h.CanServe n := by
  by_contra hno
  rw [allocateNPages_exhausted hs hn hno] at run
  cases run

theorem inv_init {pods : ℕ → Option PageTag} {a : State}
    (run : (State.start pods).initGlobalFreePodList R = .ok a) :
    Inv ⟨a, []⟩ (AbsArena.fresh R) := by
  obtain ⟨b, hb, hbs, hbw⟩ := initGlobalFreePodList_ok (a := State.start pods) (R := R)
    (fun _ => rfl)
  rw [run] at hb
  cases hb
  refine ⟨hbs, ?_, nodup_nil, not_reported hbw (by simp [State.start])⟩
  intro p n
  simp [AbsArena.Alloc, AbsArena.fresh]

theorem tagged_markUsed {a : State} {p n i : ℕ} (hs : Shows a h) (hp : h.Alloc p n)
    (hi : p ≤ i ∧ i < p + n) :
    Tagged R (a.adjust i (fun t => { t with isFree := false })) h.blocks := by
  have key : ∀ q c j, (q, c) ∈ place R.first h.blocks → q ≤ j → j < q + c.size →
      a.tag j = some (c.size, c.free) →
      (a.adjust i (fun t => { t with isFree := false })).tag j = some (c.size, c.free) := by
    intro q c j hq h1 h2 ht
    by_cases hj : j = i
    · subst hj
      have hc : c = ⟨n, false⟩ := by
        rcases place_disjoint hq hp with ⟨-, h3⟩ | h3 | h3
        · exact h3
        · omega
        · dsimp only at h3
          omega
      obtain ⟨t, hpods, -, htt, -, -⟩ := (State.made_of_tag ht).getPod
      rw [ht, Option.some.injEq, Prod.mk.injEq] at htt
      simp [State.tag, State.adjust, hpods, ← htt.1, hc]
    · rw [State.tag, State.adjust_pods_of_ne hj]
      exact ht
  intro q c hq
  have hc := (h.bounds hq).2.2
  obtain ⟨h1, h2⟩ := hs.tagged q c hq
  exact ⟨key q c q hq le_rfl (by omega) h1, key q c _ hq (by omega) (by omega) h2⟩

/-- What a step does to the abstract arena and to the live blocks. -/
inductive Acts (h : AbsArena R) (live : List (ℕ × ℕ)) : AbsArena R → List (ℕ × ℕ) → Prop
  | take {p m n : ℕ} (hp : p ∈ h.lists m) (hn : 0 < n) (hle : n ≤ m) :
      Acts h live (h.take p m n) ((p, n) :: live)
  | free {p n : ℕ} (hp : (p, n) ∈ live) (ha : h.Alloc p n) :
      Acts h live (h.free p n ha) (live.erase (p, n))
  | same : Acts h live h live

theorem step_acts (hs : Inv s h) (hstep : Step R s s') :
    ∃ h' : AbsArena R, Inv s' h' ∧ Acts h s.live h' s'.live := by
  cases hstep with
  | @allocateNPages a b live n p hn run =>
    obtain ⟨q, k, hq, hk⟩ := exists_free_of_ok hs.shows hn run
    obtain ⟨p', m, b', hrun, hp, hle, -, hsh, hw, -⟩ := allocateNPages_ok hs.shows hn hq hk
    rw [run] at hrun
    cases hrun
    refine ⟨h.take p m n, ⟨hsh, ?_, ?_, not_reported hw hs.found⟩, .take hp hn hle⟩
    · intro r j
      rw [AbsArena.alloc_take hp hn hle, ← hs.live]
      simp [or_comm]
    · refine nodup_cons.mpr ⟨?_, hs.nodup⟩
      intro hm
      exact h.not_mem_of_alloc ((hs.live p n).mp hm) m hp
  | @hugeFree a b live n p hp run =>
    have ha := (hs.live p n).mp hp
    obtain ⟨b', hrun, hsh, hw⟩ := hugeFree_ok hs.shows ha (made_of_hugeFree hs.shows ha run)
    rw [run] at hrun
    cases hrun
    refine ⟨h.free p n ha, ⟨hsh, ?_, hs.nodup.erase _, not_reported hw hs.found⟩, .free hp ha⟩
    intro q k
    rw [AbsArena.alloc_free ha, ← hs.live, hs.nodup.mem_erase_iff, and_comm]
    refine and_congr_right fun hq => ?_
    rw [ne_eq, Prod.mk.injEq, not_and_or]
    constructor
    · rintro (hne | hne) rfl
      · exact hne rfl
      · have := h.unique ((hs.live q k).mp hq) ha
        exact hne (by simpa using this)
    · exact .inl
  | @mapForPodI a live i =>
    refine ⟨h, hs.of_same_links (by simp) (by simp) (by simp) (by simp) ?_ ?_, .same⟩
    · exact fun j hj => State.made_mapForPodI.mpr (.inr hj)
    · apply hs.shows.tagged.congr
      intro j hj
      by_cases hji : j = i
      · rw [← hji, State.mapForPodI_of_made hj]
      · rw [State.tag_mapForPodI_of_ne hji]
  | @setHeadPod a b live i x run =>
    obtain rfl := modify_ok run
    refine ⟨h, hs.of_same_links rfl (State.next_adjust (fun _ => rfl))
      (State.prev_adjust (fun _ => rfl)) rfl (fun _ hj => State.made_adjust.mpr hj) ?_, .same⟩
    have ht : (a.adjust i (fun t => { t with headPod := x })).tag = a.tag :=
      State.adjust_field_of_keeps (Option.map _) (fun _ => rfl)
    exact hs.shows.tagged.congr (fun j _ => by rw [ht])
  | @markUsed a b live n p i hp hi run =>
    obtain rfl := modify_ok run
    refine ⟨h, hs.of_same_links rfl (State.next_adjust (fun _ => rfl))
      (State.prev_adjust (fun _ => rfl)) rfl (fun _ hj => State.made_adjust.mpr hj) ?_, .same⟩
    exact tagged_markUsed hs.shows ((hs.live p n).mp hp) hi

theorem inv_step (hs : Inv s h) (hstep : Step R s s') : ∃ h' : AbsArena R, Inv s' h' := by
  obtain ⟨h', hi, -⟩ := step_acts hs hstep
  exact ⟨h', hi⟩

theorem inv_reachable (hs : Reachable R s) : ∃ h : AbsArena R, Inv s h := by
  induction hs with
  | init run => exact ⟨_, inv_init run⟩
  | step _ hstep ih =>
    obtain ⟨h, hi⟩ := ih
    exact inv_step hi hstep

/-! ## The invariant in terms of the pods -/

/-- The pages of the region are tiled by `bs`: both ends of a block carry its length and mark,
the blocks in use are the live ones, and for each length the map has an entry exactly if there
is a free block of that length and the list of that entry has each of them once. -/
structure TiledBy (R : Region) (s : Session) (bs : List Block) : Prop where
  fill : total bs = R.podCount
  pos : ∀ b ∈ bs, 0 < b.size
  tagged : Tagged R s.arena bs
  live : ∀ p n, (p, n) ∈ s.live ↔ (p, ⟨n, false⟩) ∈ place R.first bs
  nodup : s.live.Nodup
  key : ∀ k, s.arena.hugePodMap.get k ≠ none ↔ ∃ p, (p, ⟨k, true⟩) ∈ place R.first bs
  list : ∀ k, ∃ xs, s.arena.Chain k xs ∧ xs.Nodup ∧
    ∀ p, p ∈ xs ↔ (p, ⟨k, true⟩) ∈ place R.first bs

theorem Inv.tiledBy (hs : Inv s h) : TiledBy R s h.blocks := by
  refine ⟨h.fill, h.pos, hs.shows.tagged, hs.live, hs.nodup, ?_, ?_⟩
  · intro k
    rw [hs.shows.map_get, ne_eq, List.head?_eq_none_iff]
    constructor
    · intro hne
      obtain ⟨p, hp⟩ := exists_mem_of_ne_nil _ hne
      exact ⟨p, (h.mem_lists k p).mp hp⟩
    · rintro ⟨p, hp⟩
      exact ne_nil_of_mem ((h.mem_lists k p).mpr hp)
  · exact fun k => ⟨h.lists k, hs.shows.lists.chain k, h.nodup k, h.mem_lists k⟩

/-- What an allocation of `n` pages has to return when the blocks are `bs`: a new block of
exactly `n` pages, cut from a free one of the smallest sufficient length and apart from every
live block. -/
def Serves (R : Region) (s : Session) (bs : List Block) (n : ℕ) : Prop :=
  ∃ p m b, s.arena.allocateNPages R n = .ok (some p, b) ∧
    (p, ⟨m, true⟩) ∈ place R.first bs ∧ n ≤ m ∧
    (∀ q k, (q, ⟨k, true⟩) ∈ place R.first bs → n ≤ k → m ≤ k) ∧
    b.tag p = some (n, false) ∧ b.tag (p + n - 1) = some (n, false) ∧
    ∀ q k, (q, k) ∈ s.live → q + k ≤ p ∨ p + n ≤ q

theorem Inv.serves (hs : Inv s h) {n q k : ℕ} (hn : 0 < n)
    (hq : (q, ⟨k, true⟩) ∈ place R.first h.blocks) (hk : n ≤ k) : Serves R s h.blocks n := by
  obtain ⟨p, m, b, hrun, hp, hle, hmin, hsh, -⟩ := allocateNPages_ok hs.shows hn hq hk
  have hb := (h.mem_lists m p).mp hp
  have ht := hsh.tagged p ⟨n, false⟩ ((AbsArena.mem_take hp hn hle).mpr (.inr (.inl ⟨rfl, rfl⟩)))
  refine ⟨p, m, b, hrun, hb, hle, hmin, ht.1, ht.2, ?_⟩
  intro r j hr
  rcases place_disjoint ((hs.live r j).mp hr) hb with ⟨-, h1⟩ | h1 | h1
  · simp at h1
  · exact .inl h1
  · exact .inr (by dsimp only at h1; omega)

theorem Inv.hugeFree_returns (hs : Inv s h) {p n : ℕ} (hp : (p, n) ∈ s.live)
    (hmade : ∀ i, p ≤ i → i < p + n → s.arena.Made i) : ∃ b, s.arena.hugeFree R p = .ok b := by
  obtain ⟨b, hb, -⟩ := hugeFree_ok hs.shows ((hs.live p n).mp hp) hmade
  exact ⟨b, hb⟩

/-- In every run the region stays tiled, every request that a free block can serve is served,
every live block whose pages exist can be freed, and no size class is missed. -/
theorem page_runs_invariant (hs : Reachable R s) : ∃ bs, TiledBy R s bs ∧
    (∀ n, 0 < n → (∃ q k, (q, ⟨k, true⟩) ∈ place R.first bs ∧ n ≤ k) → Serves R s bs n) ∧
    (∀ p n, (p, n) ∈ s.live → (∀ i, p ≤ i → i < p + n → s.arena.Made i) →
      ∃ b, s.arena.hugeFree R p = .ok b) ∧
    .cannotFindSizeClass ∉ s.arena.reports := by
  obtain ⟨h, hi⟩ := inv_reachable hs
  refine ⟨h.blocks, hi.tiledBy, ?_, ?_, hi.found⟩
  · rintro n hn ⟨q, k, hq, hk⟩
    exact hi.serves hn hq hk
  · exact fun p n hp hmade => hi.hugeFree_returns hp hmade

theorem sampleRegion_indexed : 4 ≤ 2 ^ 31 := by decide

/-- Four pages, none of which has a pod yet. -/
def sampleRegion : Region := ⟨0, 3, 4, Nat.zero_le 3, Nat.lt_succ_self 3, sampleRegion_indexed⟩

def sampleStart : State :=
  ((State.start (fun _ => none)).initGlobalFreePodList sampleRegion).toOption.getD
    (State.start (fun _ => none))

/-- The arena after two pages were allocated. -/
def sampleArena : State :=
  ((sampleStart.allocateNPages sampleRegion 2).toOption.getD (none, sampleStart)).2

theorem sample_reachable : Reachable sampleRegion ⟨sampleArena, [(0, 2)]⟩ :=
  .step (@Reachable.init sampleRegion (fun _ => none) sampleStart rfl)
    (.allocateNPages (n := 2) (p := 0) (by decide) rfl)

theorem page_runs_invariant_sample : Reachable sampleRegion ⟨sampleArena, [(0, 2)]⟩ ∧
    (∃ p b, sampleArena.allocateNPages sampleRegion 1 = .ok (some p, b) ∧ 2 ≤ p) ∧
    ∃ b, sampleArena.hugeFree sampleRegion 0 = .ok b := by
  obtain ⟨bs, ht, hserve, hfree, -⟩ := page_runs_invariant sample_reachable
  refine ⟨sample_reachable, ?_, hfree 0 2 (by simp) ?_⟩
  · have hkey : sampleArena.hugePodMap.get 2 ≠ none := by decide
    obtain ⟨q, hq⟩ := (ht.key 2).mp hkey
    obtain ⟨p, m, b, hrun, -, -, -, -, -, hd⟩ := hserve 1 (by decide) ⟨q, 2, hq, by decide⟩
    refine ⟨p, b, hrun, ?_⟩
    have := hd 0 2 (by simp)
    omega
  · intro i _ hi
    interval_cases i
    · exact State.made_of_tag (v := (2, false)) rfl
    · exact State.made_of_tag (v := (2, false)) rfl

end Session

end Remon.Arena
