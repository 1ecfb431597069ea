import Remon.Arena.TopLevelAllocator

/-! # The arenas of all threads

Each thread gets an arena from the bundle: its own one, or while the loop mode is on the
first one it can lock. New arenas are cut from the pods one after another. A section under
`muxLock` is one step of a thread, and so is each read of the list of arenas outside of it
and each attempt to lock an arena; steps of the threads interleave in any order.
-/

namespace Remon.Arena.Bundle
open Function

/-- The number of pods and the number of pods of one arena. -/
structure Config where
  podsSize : ℕ
  localPodCount : ℕ
  pos : 0 < localPodCount
  indexed : podsSize ≤ 2 ^ 31

def Config.maxArena (c : Config) : ℕ := c.podsSize / c.localPodCount

/-- The pods that an arena manages. -/
structure Entry where
  first : ℕ
  last : ℕ
  deriving DecidableEq, Repr

/-- Where a thread is in `getTopLevelAllocator`. A loop over the arenas reads the end of the
list once and then visits the arenas below it. -/
inductive Pc where
  | idle
  | entered
  | perThreadGet
  | loopGet
  /-- the loop of a full bundle: arena `i` of `stop` is tried next -/
  | spin (i stop : ℕ)
  | checkEmpty
  | scanStart
  | scan (i stop : ℕ)
  | addNewRegion
  /-- the call returned this arena -/
  | holding (k : ℕ)
  deriving DecidableEq, Repr

def Pc.Below (n : ℕ) : Pc → Prop
  | .spin _ stop => stop ≤ n
  | .scan _ stop => stop ≤ n
  | _ => True

theorem Pc.Below.mono {p : Pc} {m n : ℕ} (h : p.Below m) (hmn : m ≤ n) : p.Below n := by
  cases p with
  | spin i stop => exact le_trans h hmn
  | scan i stop => exact le_trans h hmn
  | _ => trivial

/-- Threads and arenas are numbers; `holder` has the thread that locked an arena. -/
structure State where
  allocatedAllocators : List Entry
  allocatorMap : ℕ → Option ℕ
  lastAllocated : ℕ
  lockLoopOn : Bool
  holder : ℕ → Option ℕ
  pc : ℕ → Pc

namespace State

def init : State := ⟨[], fun _ => none, 0, false, fun _ => none, fun _ => .idle⟩

variable (c : Config) (s : State)

def goto (t : ℕ) (p : Pc) : State := { s with pc := update s.pc t p }

def globalLock (t k : ℕ) : State := { s with holder := update s.holder k (some t) }

/-- The arena goes to the end of the list, locked by the thread that made it. -/
def addNewRegionCore (t : ℕ) : State :=
  { s with
    allocatedAllocators :=
      s.allocatedAllocators ++ [⟨s.lastAllocated, s.lastAllocated + c.localPodCount - 1⟩]
    lastAllocated := s.lastAllocated + c.localPodCount
    holder := update s.holder s.allocatedAllocators.length (some t) }

def size : ℕ := s.allocatedAllocators.length

def perThreadGet (t : ℕ) : Option State :=
  match s.allocatorMap t with
  | none =>
    if s.lastAllocated + c.localPodCount - 1 > c.podsSize then some (s.goto t .loopGet)
    else if s.size = c.maxArena then some (s.goto t .loopGet)
    else
      let s' := s.addNewRegionCore c t
      let s' := { s' with allocatorMap := update s'.allocatorMap t (some s.size) }
      some (s'.goto t (.holding s.size))
  | some k => if s.holder k = none then some ((s.globalLock t k).goto t (.holding k)) else none

def tryArena (t k : ℕ) (next : Pc) : State :=
  if s.holder k = none then (s.globalLock t k).goto t (.holding k) else s.goto t next

def advance (t : ℕ) : Option State :=
  match s.pc t with
  | .idle => some (s.goto t .entered)
  | .entered => some (s.goto t (if s.lockLoopOn then .loopGet else .perThreadGet))
  | .perThreadGet => s.perThreadGet c t
  | .loopGet => some (s.goto t (if s.size = c.maxArena then .spin 0 0 else .checkEmpty))
  | .spin i stop =>
    if i < stop then some (s.tryArena t i (.spin (i + 1) stop))
    else some (s.goto t (.spin 0 s.size))
  | .checkEmpty => some (s.goto t (if s.size = 0 then .addNewRegion else .scanStart))
  | .scanStart => some (s.goto t (.scan 0 s.size))
  | .scan i stop =>
    if i < stop then some (s.tryArena t i (.scan (i + 1) stop)) else some (s.goto t .addNewRegion)
  | .addNewRegion => some ((s.addNewRegionCore c t).goto t (.holding s.size))
  | .holding k => some ({ s with holder := update s.holder k none }.goto t .idle)

/-- The arena that `crossOwnershipHugeFree` gives a pod back to. -/
def ownerOf (i : ℕ) : Option Entry := s.allocatedAllocators[i / c.localPodCount]?

inductive Step (c : Config) : State → State → Prop
  | advance {s s' : State} (t : ℕ) (run : s.advance c t = some s') : Step c s s'
  | flip {s : State} (b : Bool) : Step c s { s with lockLoopOn := b }

inductive Reachable (c : Config) : State → Prop
  | init : Reachable c init
  | step {s s' : State} (hs : Reachable c s) (hstep : Step c s s') : Reachable c s'

/-- The runs in which a thread that is about to add a region outside of `perThreadGet` does so
while there is still room for it. -/
inductive Calm (c : Config) : State → Prop
  | init : Calm c init
  | advance {s s' : State} (hs : Calm c s) (t : ℕ)
      (room : s.pc t = .addNewRegion → s.size < c.maxArena) (run : s.advance c t = some s') :
      Calm c s'
  | flip {s : State} (hs : Calm c s) (b : Bool) : Calm c { s with lockLoopOn := b }

/-! ## What holds in every run -/

/-- The arenas lie one after another from pod 0 on, and an arena that was returned to a thread
is locked by it. -/
structure Inv (c : Config) (s : State) : Prop where
  last : s.lastAllocated = s.size * c.localPodCount
  range : ∀ k e, s.allocatedAllocators[k]? = some e →
    e.first = k * c.localPodCount ∧ e.last + 1 = (k + 1) * c.localPodCount
  held : ∀ t k, s.pc t = .holding k → s.holder k = some t
  made : ∀ k, s.holder k ≠ none → k < s.size
  mapped : ∀ t k, s.allocatorMap t = some k → k < s.size
  below : ∀ t, (s.pc t).Below s.size

variable {c s} {s' : State} {t k : ℕ}

theorem inv_init : Inv c init := by
  refine ⟨?_, ?_, ?_, ?_, ?_, ?_⟩ <;> simp [init, size, Pc.Below]

/-- A thread that goes on to a place where it holds no arena. -/
theorem Inv.goto (h : Inv c s) {p : Pc} (hp : ∀ k, p ≠ .holding k) (hb : p.Below s.size) :
    Inv c (s.goto t p) := by
  refine ⟨h.last, h.range, ?_, h.made, h.mapped, ?_⟩
  · intro u k hu
    change update s.pc t p u = .holding k at hu
    by_cases he : u = t
    · rw [he, update_self] at hu
      exact absurd hu (hp k)
    · rw [update_of_ne he] at hu
      exact h.held u k hu
  · intro u
    change (update s.pc t p u).Below s.size
    by_cases he : u = t
    · rw [he, update_self]
      exact hb
    · rw [update_of_ne he]
      exact h.below u

/-- A thread that locks an arena that nobody holds. -/
theorem Inv.lock (h : Inv c s) (hk : s.holder k = none) (hlt : k < s.size) :
    Inv c ((s.globalLock t k).goto t (.holding k)) := by
  refine ⟨h.last, h.range, ?_, ?_, h.mapped, ?_⟩
  · intro u j hu
    change update s.pc t (.holding k) u = .holding j at hu
    change update s.holder k (some t) j = some u
    by_cases he : u = t
    · rw [he, update_self, Pc.holding.injEq] at hu
      rw [← hu, he, update_self]
    · rw [update_of_ne he] at hu
      have hj := h.held u j hu
      rw [update_of_ne ?_, hj]
      rintro rfl
      simp [hk] at hj
  · intro j hj
    by_cases he : j = k
    · exact he ▸ hlt
    · exact h.made j ((update_of_ne he (some t) s.holder) ▸ hj)
  · intro u
    change (update s.pc t (.holding k) u).Below s.size
    by_cases he : u = t
    · rw [he, update_self]
      trivial
    · rw [update_of_ne he]
      exact h.below u

theorem size_addNewRegionCore : (s.addNewRegionCore c t).size = s.size + 1 := by
  simp [addNewRegionCore, size]

/-- A new arena begins where the last one ends and is locked by the thread that made it. -/
theorem Inv.add (h : Inv c s) : Inv c ((s.addNewRegionCore c t).goto t (.holding s.size)) := by
  have hpos := c.pos
  have hsize : ((s.addNewRegionCore c t).goto t (.holding s.size)).size = s.size + 1 :=
    size_addNewRegionCore (t := t)
  refine ⟨?_, ?_, ?_, ?_, ?_, ?_⟩
  · rw [hsize, Nat.add_mul, one_mul, ← h.last]
    rfl
  · intro k e hk
    change (s.allocatedAllocators ++ [_])[k]? = some e at hk
    rcases Nat.lt_trichotomy k s.size with hlt | rfl | hlt
    · rw [List.getElem?_append_left hlt] at hk
      exact h.range k e hk
    · rw [size, List.getElem?_concat_length] at hk
      cases hk
      rw [Nat.add_mul, one_mul]
      change s.lastAllocated = _ ∧ s.lastAllocated + c.localPodCount - 1 + 1 = _
      have := h.last
      omega
    · rw [List.getElem?_eq_none] at hk
      · cases hk
      · simp only [List.length_append, List.length_singleton]
        exact hlt
  · intro u j hu
    change update s.pc t (.holding s.size) u = .holding j at hu
    change update s.holder s.size (some t) j = some u
    by_cases he : u = t
    · rw [he, update_self, Pc.holding.injEq] at hu
      rw [← hu, he, update_self]
    · rw [update_of_ne he] at hu
      have hj := h.held u j hu
      have hlt := h.made j (by simp [hj])
      rw [update_of_ne hlt.ne, hj]
  · intro j hj
    rw [hsize]
    by_cases he : j = s.size
    · omega
    · have := h.made j ((update_of_ne he (some t) s.holder) ▸ hj)
      omega
  · intro u j hu
    have := h.mapped u j hu
    omega
  · intro u
    rw [hsize]
    change (update s.pc t (.holding s.size) u).Below (s.size + 1)
    by_cases he : u = t
    · rw [he, update_self]
      trivial
    · rw [update_of_ne he]
      exact (h.below u).mono (Nat.le_succ _)

theorem Inv.release (h : Inv c s) (hk : s.pc t = .holding k) :
    Inv c ({ s with holder := update s.holder k none }.goto t .idle) := by
  have hkt := h.held t k hk
  refine ⟨h.last, h.range, ?_, ?_, h.mapped, ?_⟩
  · intro u j hu
    change update s.pc t .idle u = .holding j at hu
    change update s.holder k none j = some u
    by_cases he : u = t
    · rw [he, update_self] at hu
      cases hu
    · rw [update_of_ne he] at hu
      have hj := h.held u j hu
      rw [update_of_ne ?_, hj]
      rintro rfl
      rw [hkt, Option.some.injEq] at hj
      exact he hj.symm
  · intro j hj
    change update s.holder k none j ≠ none at hj
    apply h.made j
    by_cases he : j = k
    · rw [he, hkt]
      simp
    · rwa [update_of_ne he] at hj
  · intro u
    change (update s.pc t .idle u).Below s.size
    by_cases he : u = t
    · rw [he, update_self]
      trivial
    · rw [update_of_ne he]
      exact h.below u

/-- What a step of thread `t` can do. -/
inductive Effect (c : Config) (s : State) (t : ℕ) : State → Prop
  | goto (p : Pc) (hp : ∀ k, p ≠ .holding k) (hb : p.Below s.size) : Effect c s t (s.goto t p)
  | lock (k : ℕ) (hk : s.holder k = none) (hlt : k < s.size) :
      Effect c s t ((s.globalLock t k).goto t (.holding k))
  | add (m : ℕ → Option ℕ) (hm : ∀ u j, m u = some j → j ≤ s.size)
      (hroom : s.pc t = .addNewRegion ∨ s.size ≠ c.maxArena) :
      Effect c s t { (s.addNewRegionCore c t).goto t (.holding s.size) with allocatorMap := m }
  | release (k : ℕ) (hk : s.pc t = .holding k) :
      Effect c s t ({ s with holder := update s.holder k none }.goto t .idle)

theorem tryArena_effect {next : Pc} (hk : k < s.size) (hn : ∀ k, next ≠ .holding k)
    (hb : next.Below s.size) : Effect c s t (s.tryArena t k next) := by
  rw [State.tryArena]
  split
  next hfree => exact .lock k hfree hk
  next => exact .goto next hn hb

theorem Inv.perThreadGet_effect (h : Inv c s) (run : s.perThreadGet c t = some s') :
    Effect c s t s' := by
  cases hm : s.allocatorMap t with
  | none =>
    simp only [State.perThreadGet, hm] at run
    split at run
    · cases run
      exact .goto _ (by simp) trivial
    · split at run
      next => cases run; exact .goto _ (by simp) trivial
      next hroom =>
        cases run
        refine .add _ ?_ (.inr hroom)
        intro u j hu
        change update s.allocatorMap t (some s.size) u = some j at hu
        by_cases he : u = t
        · rw [he, update_self, Option.some.injEq] at hu
          omega
        · rw [update_of_ne he] at hu
          exact (h.mapped u j hu).le
  | some k =>
    simp only [State.perThreadGet, hm] at run
    split at run
    next hfree => cases run; exact .lock k hfree (h.mapped t k hm)
    next => cases run

theorem Inv.effect (h : Inv c s) (run : s.advance c t = some s') : Effect c s t s' := by
  have hb := h.below t
  unfold State.advance at run
  split at run
  next => cases run; exact .goto _ (by simp) trivial
  next => cases run; split <;> exact .goto _ (by simp) trivial
  next => exact h.perThreadGet_effect run
  next => cases run; split <;> exact .goto _ (by simp) (by simp [Pc.Below])
  next i stop hp =>
    rw [hp] at hb
    split at run
    next hi => cases run; exact tryArena_effect (lt_of_lt_of_le hi hb) (by simp) hb
    next => cases run; exact .goto _ (by simp) le_rfl
  next => cases run; split <;> exact .goto _ (by simp) trivial
  next => cases run; exact .goto _ (by simp) le_rfl
  next i stop hp =>
    rw [hp] at hb
    split at run
    next hi => cases run; exact tryArena_effect (lt_of_lt_of_le hi hb) (by simp) hb
    next => cases run; exact .goto _ (by simp) trivial
  next hp => cases run; exact .add _ (fun u j hu => (h.mapped u j hu).le) (.inl hp)
  next k hp => cases run; exact .release k hp

theorem inv_step (h : Inv c s) (hstep : Step c s s') : Inv c s' := by
  cases hstep with
  | advance t run =>
    cases h.effect run with
    | goto p hp hb => exact h.goto hp hb
    | lock k hk hlt => exact h.lock hk hlt
    | add m hm _ =>
      have ha := h.add (t := t)
      refine ⟨ha.last, ha.range, ha.held, ha.made, ?_, ha.below⟩
      intro u j hu
      change j < (s.addNewRegionCore c t).size
      rw [size_addNewRegionCore]
      exact Nat.lt_succ_of_le (hm u j hu)
    | release k hk => exact h.release hk
  | flip b => exact ⟨h.last, h.range, h.held, h.made, h.mapped, h.below⟩

theorem inv_reachable (hs : Reachable c s) : Inv c s := by
  induction hs with
  | init => exact inv_init
  | step _ hstep ih => exact inv_step ih hstep

/-! ## The number of arenas -/

theorem Calm.reachable (hs : Calm c s) : Reachable c s := by
  induction hs with
  | init => exact .init
  | advance _ t _ run ih => exact .step ih (.advance t run)
  | flip _ b ih => exact .step ih (.flip b)

/-- `perThreadGet` looks for room by itself; `addNewRegion` is given some in a calm run. -/
theorem Calm.size_le (hs : Calm c s) : s.size ≤ c.maxArena := by
  induction hs with
  | init => exact Nat.zero_le _
  | flip _ b ih => exact ih
  | @advance s s' hs t room run ih =>
    cases (inv_reachable hs.reachable).effect run with
    | goto p hp hb => exact ih
    | lock k hk hlt => exact ih
    | release k hk => exact ih
    | add m hm hroom =>
      change (s.addNewRegionCore c t).size ≤ c.maxArena
      rw [size_addNewRegionCore]
      rcases hroom with hp | hne
      · exact room hp
      · omega

theorem Inv.last_lt (h : Inv c s) (hsize : s.size ≤ c.maxArena) {e : Entry}
    (he : s.allocatedAllocators[k]? = some e) : e.first ≤ e.last ∧ e.last < c.podsSize := by
  have hpos := c.pos
  obtain ⟨hf, hl⟩ := h.range k e he
  have hk : k + 1 ≤ c.podsSize / c.localPodCount := by
    have := (List.getElem?_eq_some_iff.mp he).1
    exact le_trans this hsize
  have hmul : (k + 1) * c.localPodCount ≤ c.podsSize :=
    (Nat.mul_le_mul_right _ hk).trans (Nat.div_mul_le_self _ _)
  rw [Nat.add_mul, one_mul] at hl hmul
  omega

theorem Inv.ownerOf_eq (h : Inv c s) {e : Entry} (he : s.allocatedAllocators[k]? = some e) {i : ℕ}
    (hi : e.first ≤ i ∧ i ≤ e.last) : s.ownerOf c i = some e := by
  obtain ⟨hf, hl⟩ := h.range k e he
  have hk : i / c.localPodCount = k := by
    apply Nat.div_eq_of_lt_le
    · omega
    · omega
  rw [ownerOf, hk, he]

/-- In a run in which `addNewRegion` always finds room, the arenas are as many as there is room
for, the `k`-th of them has the `k`-th stretch of pods and is a region of the process, a pod of
an arena is given back to that arena, and a thread has locked the arena it was given. -/
theorem arenas_in_range (hs : Calm c s) :
    s.allocatedAllocators.length ≤ c.maxArena ∧
    (∀ k e, s.allocatedAllocators[k]? = some e →
      e.first = k * c.localPodCount ∧ e.last = (k + 1) * c.localPodCount - 1 ∧
      (∃ R : Region, R.first = e.first ∧ R.last = e.last ∧ R.podsSize = c.podsSize) ∧
      ∀ i, e.first ≤ i → i ≤ e.last → s.ownerOf c i = some e) ∧
    ∀ t k, s.pc t = .holding k → s.holder k = some t := by
  have h := inv_reachable hs.reachable
  refine ⟨hs.size_le, ?_, h.held⟩
  intro k e he
  obtain ⟨hf, hl⟩ := h.range k e he
  obtain ⟨hle, hlt⟩ := h.last_lt hs.size_le he
  refine ⟨hf, by omega, ⟨⟨e.first, e.last, c.podsSize, hle, hlt, c.indexed⟩, rfl, rfl, rfl⟩, ?_⟩
  exact fun i h1 h2 => h.ownerOf_eq he ⟨h1, h2⟩

/-- Four pods, two for each arena. -/
def fourPods : Config := ⟨4, 2, by decide, by decide⟩

def runThreads (c : Config) (s : State) : List ℕ → Option State
  | [] => some s
  | t :: ts => (s.advance c t).bind fun s' => runThreads c s' ts

theorem reachable_runThreads (ts : List ℕ) {s s' : State} (hs : Reachable c s)
    (run : runThreads c s ts = some s') : Reachable c s' := by
  induction ts generalizing s with
  | nil =>
    cases run
    exact hs
  | cons t ts ih =>
    obtain ⟨u, hu, hrun⟩ := Option.bind_eq_some_iff.mp run
    exact ih (.step hs (.advance t hu)) hrun

/-- The loop mode is on and thread 0 has made the first arena. -/
def oneArena : State :=
  (runThreads fourPods { init with lockLoopOn := true } [0, 0, 0, 0, 0]).getD init

theorem oneArena_calm : Calm fourPods oneArena := by
  have h0 : Calm fourPods { init with lockLoopOn := true } := .flip .init true
  have h1 := h0.advance 0 (fun _ => by decide) rfl
  have h2 := h1.advance 0 (fun _ => by decide) rfl
  have h3 := h2.advance 0 (fun _ => by decide) rfl
  have h4 := h3.advance 0 (fun _ => by decide) rfl
  exact h4.advance 0 (fun _ => by decide) rfl

theorem arenas_in_range_sample : Calm fourPods oneArena ∧
    oneArena.allocatedAllocators = [⟨0, 1⟩] ∧ oneArena.holder 0 = some 0 ∧
    oneArena.ownerOf fourPods 1 = some ⟨0, 1⟩ :=
  ⟨oneArena_calm, rfl, (arenas_in_range oneArena_calm).2.2 0 0 rfl,
    ((arenas_in_range oneArena_calm).2.1 0 ⟨0, 1⟩ rfl).2.2.2 1 (by decide) (by decide)⟩

def overrunOrder : List ℕ := [1, 1, 1, 1, 1, 1, 1, 2, 2, 2, 2, 2, 2, 2, 1, 2]

def overrun : State := (runThreads fourPods oneArena overrunOrder).getD init

theorem arenas_overrun : Reachable fourPods overrun ∧
    ¬ overrun.allocatedAllocators.length ≤ fourPods.maxArena ∧
    ∃ e, overrun.allocatedAllocators[2]? = some e ∧ fourPods.podsSize ≤ e.first ∧
      overrun.pc 2 = .holding 2 :=
  ⟨reachable_runThreads overrunOrder oneArena_calm.reachable rfl, by decide, ⟨4, 5⟩,
    rfl, by decide, rfl⟩

end State

end Remon.Arena.Bundle
