import Remon.Arena.Sessions

/-! # What callers get from an arena that is full

The arena looks for the smallest sufficient length among its free runs and follows the entry it
finds without asking whether there is one. The callers are the bundle, which counts the call and
passes the result on, `hugeMalloc`, which tests the result, and the thread that fills the buffer
of single pages, which does not.
-/

namespace Remon.Arena
open Lib Fault List

/-- An arena with the counts of the calls that it served for the bundle. -/
structure Counted where
  arena : State
  huge : ℕ
  small : ℕ

/-- The pages that a request of `size` bytes needs. The source divides in double precision and
rounds up, which is exact for sizes below `2^53`. -/
def numPageNeeded (pageSize size : ℕ) : ℕ := (size + pageSize - 1) / pageSize

def adoptPage (head : ℕ) (a : State) (i : ℕ) : Except Fault State :=
  (a.mapForPodI i).modify i (fun t => { t with headPod := .pod head, isFree := false })

namespace Counted

variable (R : Region) (c : Counted)

/-- The allocation by the bundle, in the arena that it locked. -/
def allocateNPages (size : ℕ) : Except Fault (Option ℕ × Counted) := do
  let (result, a) ← c.arena.allocateNPages R size
  return (result, if size > 1 then ⟨a, c.huge + 1, c.small⟩ else ⟨a, c.huge, c.small + 1⟩)

/-- The pod whose payload is returned. Bringing its pages into memory is not a matter of the
arena. -/
def hugeMalloc (pageSize size : ℕ) : Except Fault (Option ℕ × Counted) := do
  let (result, c) ← c.allocateNPages R (numPageNeeded pageSize size)
  match result with
  | none => return (none, c)
  | some ptr =>
    let t ← c.arena.getPod ptr
    let a ← (List.range' ptr t.globalSize).foldlM (adoptPage ptr) c.arena
    return (some ptr, { c with arena := a })

/-- The loop of `addPodToBuffer`. The list has the outcomes of its attempts to lock the page it was
given; a page that could not be locked is left behind. -/
def addPodToBuffer : List Bool → Counted → Except Fault (ℕ × Counted)
  | [], _ => .error .spin
  | locked :: attempts, c => do
    let (result, c) ← c.allocateNPages R 1
    match result with
    | none => throw .undefined
    | some newPod => if locked then return (newPod, c) else addPodToBuffer attempts c

end Counted

variable {R : Region} {a : State} {h : AbsArena R} {n : ℕ}

theorem AbsArena.freePage_take {p m i : ℕ} (hp : p ∈ h.lists m) (hn : 0 < n) (hle : n ≤ m) :
    (h.take p m n).FreePage i ↔ h.FreePage i ∧ ¬ (p ≤ i ∧ i < p + n) := by
  have hb := (h.mem_lists m p).mp hp
  constructor
  · rintro ⟨q, k, hq, h1, h2⟩
    rcases (mem_take hp hn hle).mp hq with ⟨hq, hne⟩ | ⟨-, hc⟩ | ⟨hlt, rfl, hc⟩
    · refine ⟨⟨q, k, hq, h1, h2⟩, ?_⟩
      rcases place_disjoint hq hb with ⟨he, -⟩ | hd | hd
      · exact absurd he hne
      · dsimp only at hd
        omega
      · dsimp only at hd
        omega
    · cases hc
    · cases hc
      exact ⟨⟨p, m, hb, by omega, by omega⟩, by omega⟩
  · rintro ⟨⟨q, k, hq, h1, h2⟩, hout⟩
    by_cases hqp : q = p
    · subst hqp
      obtain rfl : k = m := by simpa using h.unique hq hb
      exact ⟨q + n, k - n, (mem_take hp hn hle).mpr (.inr (.inr ⟨by omega, rfl, rfl⟩)), by omega,
        by omega⟩
    · exact ⟨q, k, (mem_take hp hn hle).mpr (.inl ⟨hq, hqp⟩), h1, h2⟩

theorem AbsArena.FreePage.canServe {i : ℕ} (hi : h.FreePage i) : h.CanServe 1 := by
  obtain ⟨q, k, hq, -, -⟩ := hi
  exact ⟨q, k, hq, (h.bounds hq).2.2⟩

namespace Counted

variable {c : Counted}

/-- The bundle passes on what the arena gives it. -/
theorem allocateNPages_ok (hs : Shows c.arena h) (hn : 0 < n) (hserve : h.CanServe n) :
    ∃ p m c', c.allocateNPages R n = .ok (some p, c') ∧ p ∈ h.lists m ∧ n ≤ m ∧
      Shows c'.arena (h.take p m n) := by
  obtain ⟨q, k, hq, hk⟩ := hserve
  obtain ⟨p, m, b, hrun, hp, hle, -, hsh, -⟩ := Arena.allocateNPages_ok hs hn hq hk
  refine ⟨p, m, if n > 1 then ⟨b, c.huge + 1, c.small⟩ else ⟨b, c.huge, c.small + 1⟩, ?_, hp,
    hle, ?_⟩
  · rw [allocateNPages, hrun]
    rfl
  · split <;> exact hsh

theorem adoptPage_ok (head i : ℕ) : ∃ b, adoptPage head a i = .ok b :=
  ⟨_, State.modify_eq (State.made_mapForPodI.mpr (.inl rfl)) _⟩

theorem adopt_ok (head : ℕ) (l : List ℕ) : ∃ b, l.foldlM (adoptPage head) a = .ok b := by
  induction l generalizing a with
  | nil => exact ⟨a, rfl⟩
  | cons i l ih =>
    obtain ⟨b, hb⟩ := adoptPage_ok (a := a) head i
    rw [foldlM_cons, hb]
    exact ih

theorem hugeMalloc_ok {pageSize size : ℕ} (hs : Shows c.arena h)
    (hn : 0 < numPageNeeded pageSize size) (hserve : h.CanServe (numPageNeeded pageSize size)) :
    ∃ p c', c.hugeMalloc R pageSize size = .ok (some p, c') := by
  obtain ⟨p, m, c', hrun, hp, hle, hsh⟩ := allocateNPages_ok hs hn hserve
  have hb := (AbsArena.mem_take hp hn hle).mpr (.inr (.inl ⟨rfl, rfl⟩))
  obtain ⟨t, hget, -⟩ := State.getPod_of_tag (hsh.tagged p _ hb).1
  obtain ⟨b, hadopt⟩ := adopt_ok (a := c'.arena) p (List.range' p t.globalSize)
  refine ⟨p, { c' with arena := b }, ?_⟩
  simp only [hugeMalloc, hrun, hget, hadopt, ok_bind, pure_eq]

theorem allocateNPages_exhausted (hs : Shows c.arena h) (hn : 0 < n) (hno : ¬ h.CanServe n) :
    c.allocateNPages R n = .error .undefined := by
  rw [allocateNPages, Arena.allocateNPages_exhausted hs hn hno]
  rfl

/-- Each failed attempt costs one page, so the thread gets its pod if and only if there are more
free pages than failed attempts. -/
theorem addPodToBuffer_iff {attempts : List Bool} (hs : Shows c.arena h)
    (hlock : true ∈ attempts) :
    (∃ p c', c.addPodToBuffer R attempts = .ok (p, c')) ↔
      ∃ pages : Finset ℕ, (∀ i ∈ pages, h.FreePage i) ∧
        (attempts.takeWhile (!·)).length < pages.card := by
  induction attempts generalizing c h with
  | nil => cases hlock
  | cons locked attempts ih =>
    by_cases hserve : h.CanServe 1
    · obtain ⟨p, m, c', hrun, hp, hle, hsh⟩ := allocateNPages_ok hs Nat.one_pos hserve
      have hfree : h.FreePage p :=
        ⟨p, m, (h.mem_lists m p).mp hp, le_rfl, Nat.lt_add_of_pos_right hle⟩
      simp only [addPodToBuffer, hrun, ok_bind]
      cases locked with
      | true => exact ⟨fun _ => ⟨{p}, by simpa using hfree, by simp⟩, fun _ => ⟨p, c', rfl⟩⟩
      | false =>
        have ih := ih hsh (mem_of_ne_of_mem (by simp) hlock)
        simp only [Bool.false_eq_true, if_false, ih, Bool.not_false, takeWhile_cons_of_pos,
          length_cons]
        -- the page that was left behind is the one between the two sets
        constructor
        · rintro ⟨pages, hpages, hcard⟩
          have hrest : ∀ j ∈ pages, h.FreePage j ∧ ¬ (p ≤ j ∧ j < p + 1) := fun j hj =>
            (AbsArena.freePage_take hp Nat.one_pos hle).mp (hpages j hj)
          have hnew : p ∉ pages := fun hc => (hrest p hc).2 ⟨le_rfl, Nat.lt_succ_self p⟩
          refine ⟨insert p pages, ?_, by rw [Finset.card_insert_of_notMem hnew]; omega⟩
          intro j hj
          rcases Finset.mem_insert.mp hj with rfl | hj
          · exact hfree
          · exact (hrest j hj).1
        · rintro ⟨pages, hpages, hcard⟩
          refine ⟨pages.erase p, ?_, ?_⟩
          · intro j hj
            rw [Finset.mem_erase] at hj
            exact (AbsArena.freePage_take hp Nat.one_pos hle).mpr ⟨hpages j hj.2, by omega⟩
          · have hge := Finset.pred_card_le_card_erase (s := pages) (a := p)
            omega
    · have hrun := allocateNPages_exhausted hs Nat.one_pos hserve
      simp only [addPodToBuffer, hrun, error_bind, reduceCtorEq, exists_false, false_iff]
      rintro ⟨pages, hpages, hcard⟩
      obtain ⟨i, hi⟩ : pages.Nonempty := Finset.card_pos.mp (by omega)
      exact hserve (hpages i hi).canServe

end Counted

/-- A result that says whether there is a free run of `n` pages. -/
def AbsArena.Reported (h : AbsArena R) (n : ℕ) (r : Option ℕ) : Prop := r = none ↔ ¬ h.CanServe n

/-- Exhaustion is reported, by the arena, which stays as it is then, by the bundle and by
`hugeMalloc`, if and only if it does not occur: some free run has `n` pages. Otherwise the entry
past the end of the map is read. And the thread that fills the buffer gets a page if and only if
there are more free pages than failed attempts to lock one. -/
theorem page_runs_served (c : Counted) (h : AbsArena R) (hs : Shows c.arena h) {n : ℕ}
    (hn : 0 < n) :
    ((∃ r b, c.arena.allocateNPages R n = .ok (r, b) ∧ h.Reported n r ∧
      (r = none → b = c.arena)) ↔ h.CanServe n) ∧
    ((∃ r c', c.allocateNPages R n = .ok (r, c') ∧ h.Reported n r) ↔ h.CanServe n) ∧
    (∀ pageSize size, numPageNeeded pageSize size = n →
      ((∃ r c', c.hugeMalloc R pageSize size = .ok (r, c') ∧ h.Reported n r) ↔ h.CanServe n)) ∧
    ∀ attempts : List Bool, true ∈ attempts →
      ((∃ p c', c.addPodToBuffer R attempts = .ok (p, c')) ↔
        ∃ pages : Finset ℕ, (∀ i ∈ pages, h.FreePage i) ∧
          (attempts.takeWhile (!·)).length < pages.card) := by
  have hsome : ∀ p, h.CanServe n → h.Reported n (some p) := fun p hserve => by
    simp [AbsArena.Reported, hserve]
  refine ⟨?_, ?_, ?_, fun attempts hlock => Counted.addPodToBuffer_iff hs hlock⟩
  · constructor
    · rintro ⟨r, b, run, -⟩
      by_contra hno
      rw [Arena.allocateNPages_exhausted hs hn hno] at run
      cases run
    · intro hserve
      obtain ⟨q, k, hq, hk⟩ := hserve
      obtain ⟨p, -, b, hrun, -⟩ := allocateNPages_ok hs hn hq hk
      exact ⟨some p, b, hrun, hsome p ⟨q, k, hq, hk⟩, nofun⟩
  · constructor
    · rintro ⟨r, c', run, -⟩
      by_contra hno
      rw [Counted.allocateNPages_exhausted hs hn hno] at run
      cases run
    · intro hserve
      obtain ⟨p, -, c', hrun, -⟩ := c.allocateNPages_ok hs hn hserve
      exact ⟨some p, c', hrun, hsome p hserve⟩
  · rintro pageSize size rfl
    constructor
    · rintro ⟨r, c', run, -⟩
      by_contra hno
      rw [Counted.hugeMalloc, Counted.allocateNPages_exhausted hs hn hno] at run
      cases run
    · intro hserve
      obtain ⟨p, c', hrun⟩ := c.hugeMalloc_ok hs hn hserve
      exact ⟨some p, c', hrun, hsome p hserve⟩

theorem page_runs_served_sample : ∃ (h : AbsArena Session.sampleRegion),
    Shows Session.sampleArena h ∧ h.CanServe 2 ∧
      ∃ r c', (⟨Session.sampleArena, 1, 0⟩ : Counted).hugeMalloc Session.sampleRegion 4096 8000 =
        .ok (r, c') ∧ h.Reported 2 r := by
  obtain ⟨h, hi⟩ := Session.inv_reachable Session.sample_reachable
  have hkey : Session.sampleArena.hugePodMap.get 2 ≠ none := by decide
  obtain ⟨q, hq⟩ := (hi.tiledBy.key 2).mp hkey
  have hserve : h.CanServe 2 := ⟨q, 2, hq, le_rfl⟩
  obtain ⟨-, -, hhuge, -⟩ :=
    page_runs_served ⟨Session.sampleArena, 1, 0⟩ h hi.shows (by decide : 0 < 2)
  exact ⟨h, hi.shows, hserve, (hhuge 4096 8000 (by decide)).mpr hserve⟩

/-- The four pages of the sample region all in use. -/
def fullArena : State :=
  ((Session.sampleArena.allocateNPages Session.sampleRegion 2).toOption.getD
    (none, Session.sampleArena)).2

/-- One more page is asked for: the arena, and with it each of its callers, reads an entry that does
not exist instead of getting a null pointer. -/
theorem full_arena_followed : Session.Reachable Session.sampleRegion ⟨fullArena, [(2, 2), (0, 2)]⟩ ∧
    fullArena.allocateNPages Session.sampleRegion 1 = .error .undefined ∧
    (⟨fullArena, 2, 0⟩ : Counted).allocateNPages Session.sampleRegion 1 = .error .undefined ∧
    (⟨fullArena, 2, 0⟩ : Counted).hugeMalloc Session.sampleRegion 4096 4096 = .error .undefined ∧
    (⟨fullArena, 2, 0⟩ : Counted).addPodToBuffer Session.sampleRegion [true] =
      .error .undefined := by
  refine ⟨?_, rfl, rfl, rfl, rfl⟩
  exact .step Session.sample_reachable (.allocateNPages (n := 2) (p := 2) (by decide) rfl)

end Remon.Arena
