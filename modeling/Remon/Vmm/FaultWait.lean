import Remon.Pod.Pod
import Remon.Vmm.LruList

/-! # Faults that wait for memory

A thread that touches a page without access locks its pod and waits in `freeLoopSignal` until
the memory use is below the limit. Evictor threads bring the use down: each attempt takes the
pod at the back of `LRUList` if nobody has it locked. Prefetch workers bring the neighbours of a
faulting page in and list them before they are local. A step is a section between two accesses
to a lock, to the list or to the measured memory use, which may change at any time.
-/

namespace Remon.Vmm.Faults
open Function List

/-- The number of pods and the mark of the block that each belongs to. -/
structure Config where
  podsSize : ℕ
  headPod : ℕ → ℕ

def maxPrefetch : ℕ := 8

def prefetchDelay : ℕ := 1

/-- The pods behind `poi` that belong to its block. -/
def Config.taskCombo (c : Config) (poi : ℕ) (isForSmallAllocations : Bool) : List ℕ :=
  if isForSmallAllocations then []
  else
    let currI := poi + prefetchDelay
    (List.range' currI (min (maxPrefetch - 1) (c.podsSize - currI))).takeWhile
      (fun i => c.headPod i = c.headPod poi)

/-- Where a thread is. From `activatePod` on it has the pod locked. -/
inductive Pc where
  | idle
  | lockPod (i : ℕ)
  | activatePod (i : ℕ)
  | freeLoopSignal (i : ℕ)
  | bringHome (i : ℕ)
  | updateLRUList (i : ℕ)
  | unlock (i : ℕ)
  | evict (i : ℕ)
  | prefetch (tasks : List ℕ)
  | prefetchPod (i : ℕ) (tasks : List ℕ)
  | prefetchList (i : ℕ) (tasks : List ℕ)
  | prefetchUnlock (i : ℕ) (tasks : List ℕ)
  deriving DecidableEq, Repr

/-- The pod whose lock a thread has. -/
def Pc.held : Pc → Option ℕ
  | .activatePod i | .freeLoopSignal i | .bringHome i | .updateLRUList i | .unlock i | .evict i
  | .prefetchPod i _ | .prefetchList i _ | .prefetchUnlock i _ => some i
  | .idle | .lockPod _ | .prefetch _ => none

def Pc.plain : Pc → Bool
  | .activatePod _ | .freeLoopSignal _ => false
  | _ => true

/-- What an eviction does with a local page: an empty one is dropped, one that its list does
not let go stays, any other is saved. -/
inductive Outcome where
  | dropped
  | kept
  | saved (remote : Bool)
  deriving DecidableEq, Repr

def Outcome.state : Outcome → PodState
  | .dropped => .init
  | .kept => .local_
  | .saved remote => if remote then .remote else .disk

inductive Act where
  /-- the application touches page `i` -/
  | fault (i : ℕ)
  /-- the next attempt of an evictor -/
  | pickPodToEvict
  /-- a worker takes the first task of the queue -/
  | takeTask (isForSmallAllocations : Bool)
  /-- the thread goes on; the outcome is that of an eviction -/
  | go (o : Outcome)
  /-- the memory use is measured again -/
  | measure (exceeded : Bool)
  | swapModeOn
  deriving DecidableEq, Repr

/-- `owner` has the thread that locked a pod; `ifNeedToSwap` says that the memory use exceeds
the limit. -/
structure State where
  pods : ℕ → PodState
  owner : ℕ → Option ℕ
  lru : LruState
  prefetchTaskQueue : List ℕ
  ifNeedToSwap : Bool
  swapModeOn : Bool
  pc : ℕ → Pc

namespace State

def init (lruIter : ℕ → ℕ) : State :=
  ⟨fun _ => .init, fun _ => none, .new lruIter, [], false, false, fun _ => .idle⟩

variable (c : Config) (s : State)

def goto (t : ℕ) (p : Pc) : State := { s with pc := update s.pc t p }

def setOwner (i : ℕ) (o : Option ℕ) : State := { s with owner := update s.owner i o }

def setState (i : ℕ) (st : PodState) : State := { s with pods := update s.pods i st }

def enqueue (i : ℕ) : State := { s with prefetchTaskQueue := s.prefetchTaskQueue ++ [i] }

def activateAddress (t i : ℕ) : State :=
  if s.pods i = .local_ then s else (s.enqueue i).goto t (.lockPod i)

def homeState : PodState → PodState
  | .localPinned => .localPinned
  | _ => .local_

def bringHome (t i : ℕ) : State :=
  let s' := match s.pods i with
    | .diskCache | .remoteCache => s.enqueue i
    | _ => s
  (s'.setState i (homeState (s.pods i))).goto t (.updateLRUList i)

def listPod (t i : ℕ) (p : Pc) : Option State :=
  match s.lru.updateLRUList (some i) with
  | .ok (_, lru) => some ({ s with lru := lru }.goto t p)
  | .error _ => none

/-- `getFromLRUList` and the lock it takes. -/
def pickPodToEvict (t : ℕ) : Option State :=
  match s.lru.getFromLRUList (fun i => s.owner i = none) with
  | .ok (none, lru) => some { s with lru := lru }
  | .ok (some i, lru) => some (({ s with lru := lru }.setOwner i (some t)).goto t (.evict i))
  | .error _ => none

def evict (t i : ℕ) (o : Outcome) : State :=
  match s.pods i with
  | .local_ => (s.setState i o.state).goto t (if o = .kept then .updateLRUList i else .unlock i)
  | .diskCache => (s.setState i .disk).goto t (.unlock i)
  | .remoteCache => (s.setState i .remote).goto t (.unlock i)
  | _ => s.goto t (.unlock i)

/-- The next task of a worker; a pod that is cached already or locked is skipped. -/
def prefetch (t : ℕ) : List ℕ → State
  | [] => s.goto t .idle
  | i :: tasks =>
    if s.pods i = .diskCache ∨ s.pods i = .remoteCache ∨ s.owner i ≠ none then
      s.goto t (.prefetch tasks)
    else (s.setOwner i (some t)).goto t (.prefetchPod i tasks)

def prefetchPod (t i : ℕ) (tasks : List ℕ) : State :=
  match s.pods i with
  | .disk => (s.setState i .diskCache).goto t (.prefetchList i tasks)
  | .remote => (s.setState i .remoteCache).goto t (.prefetchList i tasks)
  | .init => (s.setState i .local_).goto t (.prefetchList i tasks)
  | _ => s.goto t (.prefetchUnlock i tasks)

/-- The next section of a thread that is not idle; there is none while it waits. -/
def go (t : ℕ) (o : Outcome) : Option State :=
  match s.pc t with
  | .idle => none
  | .lockPod i =>
    if s.owner i = none then some ((s.setOwner i (some t)).goto t (.activatePod i)) else none
  | .activatePod i =>
    some (s.goto t (if s.pods i = .local_ then .bringHome i else .freeLoopSignal i))
  | .freeLoopSignal i =>
    if s.swapModeOn = true ∧ s.ifNeedToSwap = true then none else some (s.goto t (.bringHome i))
  | .bringHome i => some (s.bringHome t i)
  | .updateLRUList i => s.listPod t i (.unlock i)
  | .unlock i => some ((s.setOwner i none).goto t .idle)
  | .evict i => some (s.evict t i o)
  | .prefetch tasks => some (s.prefetch t tasks)
  | .prefetchPod i tasks => some (s.prefetchPod t i tasks)
  | .prefetchList i tasks => s.listPod t i (.prefetchUnlock i tasks)
  | .prefetchUnlock i tasks => some ((s.setOwner i none).goto t (.prefetch tasks))

/-- One step of thread `t`, or of its surroundings. -/
def step (t : ℕ) (a : Act) : Option State :=
  match a with
  | .fault i => if s.pc t = .idle then some (s.activateAddress t i) else none
  | .pickPodToEvict => if s.pc t = .idle ∧ s.ifNeedToSwap = true then s.pickPodToEvict t else none
  | .takeTask isForSmallAllocations =>
    match s.prefetchTaskQueue with
    | [] => none
    | poi :: rest =>
      if s.pc t = .idle then
        some ({ s with prefetchTaskQueue := rest }.goto t
          (.prefetch (c.taskCombo poi isForSmallAllocations)))
      else none
  | .go o => s.go t o
  | .measure exceeded => some { s with ifNeedToSwap := exceeded }
  | .swapModeOn => some { s with swapModeOn := true }

/-- A fault does not lock a pod that is in the list without being local. -/
def careful (t : ℕ) (a : Act) : Bool :=
  match a, s.pc t with
  | .go _, .lockPod i => s.pods i = .local_ ∨ i ∉ s.lru.pods
  | _, _ => true

/-- The pod at the back of the list is locked by a thread that waits for memory. -/
def Stuck : Prop :=
  s.swapModeOn = true ∧ s.ifNeedToSwap = true ∧
    ∃ t i, s.lru.pods.getLast? = some i ∧ s.owner i = some t ∧ s.pc t = .freeLoopSignal i

inductive Reachable : State → Prop
  | init (lruIter : ℕ → ℕ) : Reachable (init lruIter)
  | step {s s' : State} {t : ℕ} {a : Act} (hs : Reachable s) (h : s.step c t a = some s') :
      Reachable s'

/-- The states that runs of careful steps lead to. -/
inductive CarefulRun : State → Prop
  | init (lruIter : ℕ → ℕ) : CarefulRun (init lruIter)
  | step {s s' : State} {t : ℕ} {a : Act} (hs : CarefulRun s) (hc : s.careful t a = true)
      (h : s.step c t a = some s') : CarefulRun s'

/-! ## The invariant -/

/-- The lock of a pod is with the thread that is working on it, and the pod of a waiting thread
is not in the list. -/
structure Inv (s : State) : Prop where
  lru : s.lru.Represents
  free : s.lru.lruLock = false
  owned : ∀ t i, (s.pc t).held = some i → s.owner i = some t
  entering : ∀ t i, s.pc t = .activatePod i → s.pods i = .local_ ∨ i ∉ s.lru.pods
  waiting : ∀ t i, s.pc t = .freeLoopSignal i → i ∉ s.lru.pods

variable {c s} {s' : State} {t i : ℕ} {p : Pc}

theorem inv_init (lruIter : ℕ → ℕ) : (init lruIter).Inv where
  lru := LruState.represents_new lruIter
  free := rfl
  owned _ _ h := nomatch h
  entering _ _ h := nomatch h
  waiting _ _ h := nomatch h

/-- What a section of thread `t` leaves alone: the pods that other threads have locked. -/
def Spares (t : ℕ) (s s' : State) : Prop :=
  ∀ i u, u ≠ t → s.owner i = some u →
    s'.owner i = some u ∧ s'.pods i = s.pods i ∧ (i ∈ s'.lru.pods → i ∈ s.lru.pods)

/-- A section that spares the pods of other threads keeps the invariant if it is in order for
its own thread. -/
theorem Inv.of_spares (hi : s.Inv) (hpc : s'.pc = update s.pc t p)
    (hlru : s'.lru.Represents) (hfree : s'.lru.lruLock = false) (hsp : Spares t s s')
    (hheld : ∀ i, p.held = some i → s'.owner i = some t)
    (hact : ∀ i, p = .activatePod i → s'.pods i = .local_ ∨ i ∉ s'.lru.pods)
    (hwait : ∀ i, p = .freeLoopSignal i → i ∉ s'.lru.pods) : s'.Inv where
  lru := hlru
  free := hfree
  owned u i h := by
    rw [hpc] at h
    by_cases hu : u = t
    · subst hu
      rw [update_self] at h
      exact hheld i h
    · rw [update_of_ne hu] at h
      exact (hsp i u hu (hi.owned u i h)).1
  entering u i h := by
    rw [hpc] at h
    by_cases hu : u = t
    · subst hu
      rw [update_self] at h
      exact hact i h
    · rw [update_of_ne hu] at h
      obtain ⟨-, hst, hmem⟩ := hsp i u hu (hi.owned u i (by rw [h]; rfl))
      rw [hst]
      exact (hi.entering u i h).imp id (fun hn hm => hn (hmem hm))
  waiting u i h := by
    rw [hpc] at h
    by_cases hu : u = t
    · subst hu
      rw [update_self] at h
      exact hwait i h
    · rw [update_of_ne hu] at h
      obtain ⟨-, -, hmem⟩ := hsp i u hu (hi.owned u i (by rw [h]; rfl))
      exact fun hm => hi.waiting u i h (hmem hm)

theorem Inv.of_pod (hi : s.Inv) (hk : ∀ u, s.owner i = some u → u = t)
    (hpc : s'.pc = update s.pc t p) (hlru : s'.lru.Represents)
    (hfree : s'.lru.lruLock = false) (hown : ∀ j, j ≠ i → s'.owner j = s.owner j)
    (hpods : ∀ j, j ≠ i → s'.pods j = s.pods j)
    (hlist : ∀ j, j ≠ i → j ∈ s'.lru.pods → j ∈ s.lru.pods)
    (hheld : ∀ j, p.held = some j → s'.owner j = some t) (hp : p.plain = true) : s'.Inv := by
  refine hi.of_spares hpc hlru hfree ?_ hheld ?_ ?_
  · intro j u hu hj
    have hne : j ≠ i := by
      rintro rfl
      exact hu (hk u hj)
    exact ⟨(hown j hne).trans hj, hpods j hne, hlist j hne⟩
  · rintro j rfl
    cases hp
  · rintro j rfl
    cases hp

/-- A section that only moves the thread on. -/
theorem Inv.goto (hi : s.Inv) (hheld : p.held = none ∨ p.held = (s.pc t).held)
    (hp : p.plain = true) : (s.goto t p).Inv := by
  refine hi.of_spares rfl hi.lru hi.free (fun _ _ _ h => ⟨h, rfl, id⟩) ?_ ?_ ?_
  · intro j hj
    rcases hheld with h | h
    · rw [h] at hj
      cases hj
    · exact hi.owned t j (h ▸ hj)
  · rintro j rfl
    cases hp
  · rintro j rfl
    cases hp

theorem Inv.setState (hi : s.Inv) (hk : (s.pc t).held = some i) (st : PodState)
    (hheld : p.held = some i) (hp : p.plain = true) : ((s.setState i st).goto t p).Inv := by
  have ho := hi.owned t i hk
  refine hi.of_pod (i := i) ?_ rfl hi.lru hi.free (fun _ _ => rfl) ?_ (fun _ _ h => h) ?_ hp
  · intro u hu
    exact Option.some.inj (hu.symm.trans ho)
  · exact fun j hj => update_of_ne hj _ _
  · intro j hj
    rw [hheld] at hj
    cases hj
    exact ho

/-- The thread gives the lock of its pod back. -/
theorem Inv.release (hi : s.Inv) (hk : (s.pc t).held = some i) (hheld : p.held = none)
    (hp : p.plain = true) : ((s.setOwner i none).goto t p).Inv := by
  have ho := hi.owned t i hk
  refine hi.of_pod (i := i) ?_ rfl hi.lru hi.free ?_ (fun _ _ => rfl) (fun _ _ h => h) ?_ hp
  · intro u hu
    exact Option.some.inj (hu.symm.trans ho)
  · exact fun j hj => update_of_ne hj _ _
  · intro j hj
    rw [hheld] at hj
    cases hj

theorem Inv.listPod (hi : s.Inv) (hk : (s.pc t).held = some i) (hheld : p.held = some i)
    (hp : p.plain = true) (h : s.listPod t i p = some s') : s'.Inv := by
  have ho := hi.owned t i hk
  obtain ⟨r, lru, hrun, hrep, hlock, hpods⟩ := LruState.updateLRUList_ok hi.lru hi.free i
  simp only [State.listPod, hrun, Option.some.injEq] at h
  subst h
  refine hi.of_pod (i := i) ?_ rfl hrep hlock (fun _ _ => rfl) (fun _ _ => rfl) ?_ ?_ hp
  · intro u hu
    exact Option.some.inj (hu.symm.trans ho)
  · intro j hj hm
    change j ∈ lru.pods at hm
    rw [hpods, mem_cons] at hm
    exact mem_of_mem_erase (hm.resolve_left hj)
  · intro j hj
    rw [hheld] at hj
    cases hj
    exact ho

/-- An attempt of an evictor returns, with the lock of the pod it found. -/
theorem Inv.pickPodToEvict (hi : s.Inv) (h : s.pickPodToEvict t = some s') : s'.Inv := by
  obtain ⟨r, lru, hrun, hrep, hlock, hpods, htry⟩ :=
    LruState.getFromLRUList_ok hi.lru hi.free (fun i => s.owner i = none)
  simp only [State.pickPodToEvict, hrun] at h
  have hsub : ∀ j, j ∈ lru.pods → j ∈ s.lru.pods := by
    intro j hj
    rw [hpods]
    exact mem_append_left _ hj
  cases r with
  | none =>
    cases h
    exact ⟨hrep, hlock, hi.owned, fun u j hu =>
      (hi.entering u j hu).imp id (fun hn hm => hn (hsub j hm)),
      fun u j hu hm => hi.waiting u j hu (hsub j hm)⟩
  | some i =>
    cases h
    have hnone : s.owner i = none := by
      simpa using htry i rfl
    refine hi.of_pod (i := i) (p := .evict i) ?_ rfl hrep hlock ?_ (fun _ _ => rfl)
      (fun j _ => hsub j) ?_ rfl
    · intro u hu
      rw [hnone] at hu
      cases hu
    · exact fun j hj => update_of_ne hj _ _
    · intro j hj
      cases hj
      exact update_self _ _ _

theorem Inv.lockPod (hi : s.Inv) (hfree : s.owner i = none)
    (hc : s.pods i = .local_ ∨ i ∉ s.lru.pods) :
    ((s.setOwner i (some t)).goto t (.activatePod i)).Inv := by
  refine hi.of_spares rfl hi.lru hi.free ?_ ?_ ?_ (fun j hj => nomatch hj)
  · intro j u _ hj
    have hne : j ≠ i := by
      rintro rfl
      rw [hfree] at hj
      cases hj
    exact ⟨(update_of_ne hne _ _).trans hj, rfl, id⟩
  · intro j hj
    cases hj
    exact update_self _ _ _
  · intro j hj
    cases hj
    exact hc

/-- A call of `activatePod` waits only for a pod that is not local. -/
theorem Inv.activatePod (hi : s.Inv) (hpc : s.pc t = .activatePod i) :
    (s.goto t (if s.pods i = .local_ then .bringHome i else .freeLoopSignal i)).Inv := by
  have ho := hi.owned t i (by rw [hpc]; rfl)
  by_cases hst : s.pods i = .local_
  · rw [if_pos hst]
    exact hi.goto (.inr (by rw [hpc]; rfl)) rfl
  · rw [if_neg hst]
    refine hi.of_spares rfl hi.lru hi.free (fun _ _ _ h => ⟨h, rfl, id⟩) ?_
      (fun j hj => nomatch hj) ?_
    · intro j hj
      cases hj
      exact ho
    · intro j hj
      cases hj
      exact (hi.entering t i hpc).resolve_left hst

theorem Inv.setQueue (hi : s.Inv) (q : List ℕ) : ({ s with prefetchTaskQueue := q } : State).Inv :=
  ⟨hi.lru, hi.free, hi.owned, hi.entering, hi.waiting⟩

theorem Inv.prefetch (hi : s.Inv) {tasks : List ℕ} : (s.prefetch t tasks).Inv := by
  cases tasks with
  | nil => exact hi.goto (.inl rfl) rfl
  | cons i tasks =>
    rw [State.prefetch]
    split
    · exact hi.goto (.inl rfl) rfl
    · next h =>
      push Not at h
      refine hi.of_pod (i := i) (p := .prefetchPod i tasks) ?_ rfl hi.lru hi.free ?_
        (fun _ _ => rfl)
        (fun _ _ h => h) ?_ rfl
      · intro u hu
        rw [h.2.2] at hu
        cases hu
      · exact fun j hj => update_of_ne hj _ _
      · intro j hj
        cases hj
        exact update_self _ _ _

theorem Inv.go {o : Outcome} (hi : s.Inv) (hc : s.careful t (.go o) = true)
    (h : s.go t o = some s') : s'.Inv := by
  have hheld : ∀ {p : Pc}, s.pc t = p → (s.pc t).held = p.held := fun he => congrArg Pc.held he
  rw [State.go] at h
  cases hpc : s.pc t with
  | idle =>
    rw [hpc] at h
    cases h
  | lockPod i =>
    simp only [hpc] at h
    split at h
    · next hfree =>
      cases h
      exact hi.lockPod hfree (by simpa [careful, hpc] using hc)
    · cases h
  | activatePod i =>
    simp only [hpc] at h
    cases h
    exact hi.activatePod hpc
  | freeLoopSignal i =>
    simp only [hpc] at h
    split at h
    · cases h
    · cases h
      exact hi.goto (.inr (hheld hpc).symm) rfl
  | bringHome i =>
    simp only [hpc] at h
    cases h
    rw [State.bringHome]
    split
    · exact (hi.setQueue (s.prefetchTaskQueue ++ [i])).setState (hheld hpc) _ rfl rfl
    · exact (hi.setQueue (s.prefetchTaskQueue ++ [i])).setState (hheld hpc) _ rfl rfl
    · exact hi.setState (hheld hpc) _ rfl rfl
  | updateLRUList i | prefetchList i tasks =>
    simp only [hpc] at h
    exact hi.listPod (hheld hpc) rfl rfl h
  | unlock i | prefetchUnlock i tasks =>
    simp only [hpc] at h
    cases h
    exact hi.release (hheld hpc) rfl rfl
  | evict i =>
    simp only [hpc] at h
    cases h
    rw [State.evict]
    split
    · split
      · exact hi.setState (hheld hpc) _ rfl rfl
      · exact hi.setState (hheld hpc) _ rfl rfl
    · exact hi.setState (hheld hpc) _ rfl rfl
    · exact hi.setState (hheld hpc) _ rfl rfl
    · exact hi.goto (.inr (hheld hpc).symm) rfl
  | prefetch tasks =>
    simp only [hpc] at h
    cases h
    exact hi.prefetch
  | prefetchPod i tasks =>
    simp only [hpc] at h
    cases h
    rw [State.prefetchPod]
    split
    · exact hi.setState (hheld hpc) _ rfl rfl
    · exact hi.setState (hheld hpc) _ rfl rfl
    · exact hi.setState (hheld hpc) _ rfl rfl
    · exact hi.goto (.inr (hheld hpc).symm) rfl

theorem Inv.step {a : Act} (hi : s.Inv) (hc : s.careful t a = true) (h : s.step c t a = some s') :
    s'.Inv := by
  cases a with
  | fault i =>
    simp only [State.step] at h
    split at h
    · cases h
      rw [State.activateAddress]
      split
      · exact hi
      · exact (hi.setQueue (s.prefetchTaskQueue ++ [i])).goto (.inl rfl) rfl
    · cases h
  | pickPodToEvict =>
    simp only [State.step] at h
    split at h
    · exact hi.pickPodToEvict h
    · cases h
  | takeTask isForSmallAllocations =>
    simp only [State.step] at h
    split at h
    · cases h
    · next poi rest _ =>
      split at h
      · cases h
        exact (hi.setQueue rest).goto (.inl rfl) rfl
      · cases h
  | go o => exact hi.go hc h
  | measure exceeded | swapModeOn =>
    cases h
    exact ⟨hi.lru, hi.free, hi.owned, hi.entering, hi.waiting⟩

theorem CarefulRun.inv (hs : CarefulRun c s) : s.Inv := by
  induction hs with
  | init lruIter => exact inv_init lruIter
  | step _ hc h ih => exact ih.step hc h

/-- In every run in which no fault locks a listed pod that is not local, the pod at the back of
the list is never locked by a thread that waits for memory. -/
theorem no_fault_evict_deadlock (hs : CarefulRun c s) : ¬ s.Stuck := by
  rintro ⟨-, -, t, i, hback, -, hpc⟩
  exact hs.inv.waiting t i hpc (mem_of_getLast? hback)

/-! ## Runs on two pages -/

/-- A run of steps that all satisfy `ok`. -/
def run (c : Config) (ok : State → ℕ → Act → Bool) (s : State) : List (ℕ × Act) → Option State
  | [] => some s
  | (t, a) :: l => if ok s t a then (s.step c t a).bind (fun s' => s'.run c ok l) else none

theorem run_cons {ok : State → ℕ → Act → Bool} {t : ℕ} {a : Act} {l : List (ℕ × Act)}
    (h : s.run c ok ((t, a) :: l) = some s') :
    ok s t a = true ∧ ∃ s₁, s.step c t a = some s₁ ∧ s₁.run c ok l = some s' := by
  rw [run] at h
  split at h
  · next hok => exact ⟨hok, Option.bind_eq_some_iff.mp h⟩
  · cases h

theorem reachable_run {l : List (ℕ × Act)} (hs : Reachable c s)
    (h : s.run c (fun _ _ _ => true) l = some s') : Reachable c s' := by
  induction l generalizing s with
  | nil =>
    cases h
    exact hs
  | cons x l ih =>
    obtain ⟨-, s₁, h₁, h⟩ := run_cons h
    exact ih (hs.step h₁) h

theorem carefulRun_run {l : List (ℕ × Act)} (hs : CarefulRun c s)
    (h : s.run c careful l = some s') : CarefulRun c s' := by
  induction l generalizing s with
  | nil =>
    cases h
    exact hs
  | cons x l ih =>
    obtain ⟨hok, s₁, h₁, h⟩ := run_cons h
    exact ih (hs.step hok h₁) h

def sampleConfig : Config := ⟨2, fun _ => 0⟩

def sampleFault (i : ℕ) : List (ℕ × Act) := (0, .fault i) :: List.replicate 6 (0, .go .kept)

def sampleEvict : List (ℕ × Act) :=
  [(1, .pickPodToEvict), (1, .go (.saved false)), (1, .go .kept)]

def samplePrefetch (n : ℕ) : List (ℕ × Act) :=
  (2, .takeTask false) :: List.replicate n (2, .go .kept)

def sampleWait : List (ℕ × Act) :=
  sampleFault 1 ++ [(0, .measure true), (0, .swapModeOn), (0, .fault 0), (0, .go .kept),
    (0, .go .kept)]

theorem no_fault_evict_deadlock_sample :
    ∃ s, (init fun _ => 0).run sampleConfig careful sampleWait =
    some s ∧ s.pc 0 = .freeLoopSignal 0 ∧ s.lru.pods = [1] ∧ ¬ s.Stuck := by
  refine ⟨_, rfl, rfl, rfl, no_fault_evict_deadlock (c := sampleConfig) ?_⟩
  exact carefulRun_run (l := sampleWait) (.init fun _ => 0) rfl

def sampleTrace : List (ℕ × Act) :=
  sampleFault 1 ++ [(0, .measure true), (0, .swapModeOn)] ++ sampleEvict ++ [(0, .measure false)] ++
  sampleFault 0 ++ samplePrefetch 1 ++ samplePrefetch 5 ++ [(0, .measure true)] ++ sampleEvict ++
  [(0, .fault 1), (0, .go .kept), (0, .go .kept)]

/-- The waiting thread has the pod at the back, and every attempt of an evictor finds nothing. -/
theorem fault_evict_deadlock : ∃ s, Reachable sampleConfig s ∧ s.Stuck ∧
    ∀ t, s.pickPodToEvict t = some s := by
  have hrun : ∃ s, (init fun _ => 0).run sampleConfig (fun _ _ _ => true) sampleTrace = some s :=
    ⟨_, rfl⟩
  obtain ⟨s, hs⟩ := hrun
  refine ⟨s, reachable_run (.init _) hs, ?_, ?_⟩
  · cases hs
    exact ⟨rfl, rfl, 0, 1, rfl, rfl, rfl⟩
  · cases hs
    intro t
    rfl

end State

end Remon.Vmm.Faults
