import Remon.Vmm.FaultWait
import Remon.Vmm.MutexOrder
import Remon.Vmm.PageMoves

/-! # The models of the manager agree

How pages come and go is told three times: step by step between two accesses to a mutex, in
sections of a fault that waits for memory, and with the bytes of the pages. A section of a
fault, of an eviction or of a prefetch is a few steps of an entry point, and a call of the pager
changes the states of the pods as the entry point does when it runs by itself.
-/

namespace Remon.Vmm.Entry
open Function Lib LockProg Threads Faults List

variable {T α β : Type} {t : T} {i : ℕ} {st st' : PodState} {sh sh' sh'' : Shared T Mutex Data}

/-! ## Operations by themselves -/

/-- Pod `i` is in state `st` now. -/
structure Puts (i : ℕ) (st : PodState) (sh sh' : Shared T Mutex Data) : Prop where
  owner : sh'.owner = sh.owner
  state : sh'.data.state = update sh.data.state i st
  lruList : sh'.data.lruList = sh.data.lruList
  valid : sh'.data.lruIterIsValid = sh.data.lruIterIsValid

theorem Puts.trans (h : Puts i st sh sh') (h' : Puts i st' sh' sh'') : Puts i st' sh sh'' where
  owner := h'.owner.trans h.owner
  state := by rw [h'.state, h.state, update_idem]
  lruList := h'.lruList.trans h.lruList
  valid := h'.valid.trans h.valid

theorem Puts.self (h : Puts i st sh sh') : sh'.data.state i = st := by
  rw [h.state, update_self]

theorem puts_same (h : sh.data.state i = st) : Puts i st sh sh :=
  ⟨rfl, by rw [← h, update_eq_self], rfl, rfl⟩

/-- The list with pod `i` in front. -/
def Data.listed (i : ℕ) (d : Data) : Data := if d.lruList.head? = some i then d else d.toFront i

theorem edit_listed_of_front (h : sh.data.lruList.head? = some i) :
    sh.edit (Data.listed i) = sh.edit id := by
  simp [Shared.edit, Data.listed, h]

theorem edit_listed_of_not_front (h : sh.data.lruList.head? ≠ some i) :
    sh.edit (Data.listed i) = sh.edit (Data.toFront i) := by
  simp [Shared.edit, Data.listed, h]

theorem free_lru (hfree : sh.owner .lru = none) (g : Data → Data) :
    ((sh.take t .lru).edit g).free .lru = sh.edit g := by
  simp only [Shared.take, Shared.edit, Shared.free, update_idem]
  rw [← hfree, update_eq_self]

variable [DecidableEq T] {ok : Place → Prop} {p p' p'' : Op α}

/-- The program `p` comes to `p'` and leaves pod `i` in state `st`. -/
def Leads (ok : Place → Prop) (t : T) (i : ℕ) (st : PodState) (p : Op α)
    (sh : Shared T Mutex Data) (p' : Op α) : Prop :=
  ∃ sh', Puts i st sh sh' ∧ Steps ok t p sh p' sh'

theorem Leads.trans (h : Leads ok t i st p sh p')
    (h' : ∀ sh', Puts i st sh sh' → Leads ok t i st' p' sh' p'') : Leads ok t i st' p sh p'' := by
  obtain ⟨sh', hputs, hsteps⟩ := h
  obtain ⟨sh'', hputs', hsteps'⟩ := h' sh' hputs
  exact ⟨sh'', hputs.trans hputs', hsteps.trans hsteps'⟩

theorem leads_here (h : sh.data.state i = st) : Leads ok t i st p sh p := ⟨sh, puts_same h, .refl⟩

theorem leads_get {q : Data → β} {f : β → Op α} (h : Leads ok t i st (f (q sh.data)) sh p) :
    Leads ok t i st (.get q >>= f) sh p := by
  obtain ⟨sh', hputs, hsteps⟩ := h
  exact ⟨sh', hputs, .trans (.next .refl .read trivial) hsteps⟩

theorem leads_any {f : β → Op α} (b : β) (h : Leads ok t i st (f b) sh p) :
    Leads ok t i st (.any β >>= f) sh p := by
  obtain ⟨sh', hputs, hsteps⟩ := h
  exact ⟨sh', hputs, .trans (.next .refl (.choose b) trivial) hsteps⟩

theorem leads_change {l : Mutex} {c : Change} {g : Data → Data} {f : Unit → Op α}
    (h : Puts i st sh (sh.edit g)) : Leads ok t i st (.change l c g >>= f) sh (f ()) :=
  ⟨_, h, .next (.next .refl .enter trivial) .leave trivial⟩

theorem leads_transition {tr : Transition} {f : Unit → Op α}
    (h : tr.target (sh.data.state i) = st) : Leads ok t i st (transition tr i >>= f) sh (f ()) :=
  leads_change ⟨rfl, congrArg (update sh.data.state i) h, rfl, rfl⟩

theorem leads_arrive (tr : Transition) {f : Unit → Op α}
    (h : tr.target (sh.data.state i) = .localPinned) :
    Leads ok t i .local_
      (transition tr i >>= fun _ => transition .localPinnedToLocal i >>= f) sh (f ()) := by
  apply (leads_transition h).trans
  intro sh' hputs
  apply leads_transition
  rw [hputs.self]
  rfl

open State (homeState)

theorem leads_bringIn (f : Unit → Op α) :
    Leads ok t i (homeState (sh.data.state i)) (bringIn i >>= f) sh (f ()) := by
  rw [bringIn, getState, bind_bind]
  apply leads_get
  cases hs : sh.data.state i with
  | local_ | localPinned => exact leads_here hs
  | init => exact leads_transition rfl
  | disk =>
    rw [bind_bind]
    exact leads_arrive .diskToLocalPinned rfl
  | diskCache =>
    rw [bind_bind]
    exact leads_arrive .diskCacheToLocalPinned rfl
  | remoteCache =>
    rw [bind_bind]
    exact leads_arrive .remoteCacheToLocalPinned rfl
  | remote =>
    rw [bind_bind]
    exact leads_arrive .remoteToLocalPinned rfl

theorem leads_activatePod (f : Bool → Op α) :
    Leads ok t i (homeState (sh.data.state i)) (activatePod i >>= f) sh
      (updateLRUList i >>= fun _ => f true) := by
  simp only [activatePod, bind_bind]
  apply (leads_change (puts_same rfl)).trans
  intro sh' hputs
  rw [← hputs.self]
  exact leads_bringIn _

/-- The state that a prefetch leads to. -/
def cachedState : PodState → PodState
  | .disk => .diskCache
  | .remote => .remoteCache
  | .init => .local_
  | s => s

/-- The state that an eviction with outcome `o` leads to. -/
def evictedState (o : Outcome) : PodState → PodState
  | .local_ => o.state
  | .diskCache => .disk
  | .remoteCache => .remote
  | s => s

theorem leads_flushFreeBuffer (f : Unit → Op α) :
    Leads ok t i (sh.data.state i) (flushFreeBuffer i >>= f) sh (f ()) := by
  rw [flushFreeBuffer, bind_bind]
  apply leads_get
  split
  · exact leads_here rfl
  · exact leads_change ⟨rfl, (update_eq_self i _).symm, rfl, rfl⟩

theorem leads_evictPod (remote : Bool) (hs : sh.data.state i = .local_) (f : Unit → Op α) :
    Leads ok t i (Outcome.saved remote).state (evictPod i >>= f) sh (f ()) := by
  simp only [evictPod, remoteSwap, ask, swapToDisk, getState, bind_bind]
  apply leads_get
  rw [if_neg (not_not.mpr hs), bind_bind]
  apply leads_any remote
  cases remote <;> exact leads_transition rfl

/-- An eviction that does not keep its pod. -/
theorem leads_sendAway {o : Outcome} (ho : sh.data.state i = .local_ → o ≠ .kept)
    (f : Unit → Op α) :
    Leads ok t i (evictedState o (sh.data.state i)) (sendAway i >>= f) sh (f ()) := by
  rw [sendAway, getState, bind_bind]
  apply leads_get
  cases hs : sh.data.state i with
  | local_ =>
    -- a page that no list has is dropped if it is free
    simp only [isForSmallAllocations, isFree, ask, bind_bind]
    apply leads_any false
    rw [if_neg Bool.false_ne_true, bind_bind]
    cases o with
    | dropped =>
      apply leads_any true
      exact leads_transition rfl
    | kept => exact absurd rfl (ho hs)
    | saved remote =>
      apply leads_any false
      exact leads_evictPod remote hs f
  | diskCache | remoteCache => exact leads_transition rfl
  | _ => exact leads_here hs

/-- An eviction that keeps its pod puts it at the front of the list. -/
theorem leads_sendAway_kept (hs : sh.data.state i = .local_) (f : Unit → Op α) :
    Leads ok t i .local_ (sendAway i >>= f) sh (updateLRUList i >>= fun _ => f ()) := by
  rw [sendAway, getState, bind_bind]
  apply leads_get
  rw [hs]
  simp only [isForSmallAllocations, benchSwappedPage, isEmpty, ask, bind_bind]
  apply leads_any true
  rw [if_pos rfl, bind_bind]
  apply leads_any false
  rw [bind_bind]
  apply (leads_flushFreeBuffer _).trans
  intro sh' hputs
  rw [bind_bind]
  apply leads_any false
  have hlocal := hputs.self.trans hs
  rw [if_neg Bool.false_ne_true, if_neg Bool.false_ne_true, bind_bind,
    ← show homeState (sh'.data.state i) = .local_ by rw [hlocal]; rfl]
  exact leads_activatePod _

theorem leads_prefetchPod (hs : cachedState (sh.data.state i) ≠ sh.data.state i)
    (f : Unit → Op α) :
    Leads ok t i (cachedState (sh.data.state i)) (prefetchPod i >>= f) sh
      (updateLRUList i >>= fun _ => f ()) := by
  rw [prefetchPod, getState, bind_bind]
  apply leads_get
  cases hst : sh.data.state i with
  | disk | remote | init =>
    simp only [bind_bind]
    exact leads_transition rfl
  | _ =>
    rw [hst] at hs
    exact absurd rfl hs

theorem leads_prefetchPod_idle (hs : cachedState (sh.data.state i) = sh.data.state i)
    (f : Unit → Op α) :
    Leads ok t i (sh.data.state i) (prefetchPod i >>= f) sh (f ()) := by
  rw [prefetchPod, getState, bind_bind]
  apply leads_get
  cases hst : sh.data.state i with
  | disk | remote | init =>
    rw [hst] at hs
    cases hs
  | _ => exact leads_here hst

theorem steps_get {q : Data → β} {f : β → Op α} {b : β} (h : q sh.data = b) :
    Steps ok t (.get q >>= f) sh (f b) sh := by
  subst h
  exact .next .refl .read trivial

theorem steps_updateLRUList (hfree : sh.owner .lru = none) (f : ℤ → Op α) :
    ∃ r, Steps ok t (updateLRUList i >>= f) sh (f r) (sh.edit (Data.listed i)) := by
  rw [updateLRUList, moveInLRUList, bind_bind]
  by_cases hfront : sh.data.lruList.head? = some i
  · refine ⟨0, ?_⟩
    rw [edit_listed_of_front hfront, ← free_lru hfree]
    refine .trans (.next .refl (.lock hfree) trivial) ?_
    exact .trans (steps_get (beq_iff_eq.mpr hfront)) (.next .refl .unlock trivial)
  · refine ⟨1, ?_⟩
    rw [edit_listed_of_not_front hfront, ← free_lru hfree]
    refine .trans (.next .refl (.lock hfree) trivial) ?_
    refine .trans (steps_get (beq_eq_false_iff_ne.mpr hfront)) ?_
    exact .next (.next (.next .refl .enter trivial) .leave trivial) .unlock trivial

/-- The evictor takes the pod at the back of the list, if nobody has it locked. -/
theorem steps_pickPodToEvict (hlru : sh.owner .lru = none) (hpod : sh.owner (.pod i) = none)
    (hlast : sh.data.lruList.getLast? = some i) :
    Steps ok t pickPodToEvict sh (sendAway i >>= fun _ => unlock i)
      ((sh.take t (.pod i)).edit (Data.popBack i)) := by
  have hne : Mutex.lru ≠ .pod i := nofun
  have hcomm : (sh.take t .lru).take t (.pod i) = (sh.take t (.pod i)).take t .lru := by
    simp only [Shared.take, update_comm hne.symm]
  rw [← free_lru (by simp [hlru]), ← hcomm, pickPodToEvict, getFromLRUList, bind_bind]
  refine .trans (.next .refl (.lock hlru) trivial) ?_
  refine .trans (steps_get hlast) ?_
  refine .trans (.next .refl (.tryLock (by simp [hpod])) trivial) ?_
  exact .next (.next (.next .refl .enter trivial) .leave trivial) .unlock trivial

/-! ## Faults that wait for memory -/

def prefetchTask (i : ℕ) : Op Unit := do
  let state ← getState i
  if false = false ∧ (state = .diskCache ∨ state = .remoteCache) then
    return ()
  else
    ifLocked i (prefetchPod i)

/-- What the thread has yet to do. The wait for memory is no step of an entry point. -/
def rest : Pc → Op Unit
  | .idle => pure ()
  | .lockPod i => locked i do let _ ← activatePod i
  | .activatePod i | .freeLoopSignal i | .bringHome i => activatePod i >>= fun _ => unlock i
  | .updateLRUList i => updateLRUList i >>= fun _ => unlock i
  | .unlock i => unlock i
  | .evict i => sendAway i >>= fun _ => unlock i
  | .prefetch tasks => tasks.forM prefetchTask
  | .prefetchPod i tasks => prefetchPod i >>= fun _ => unlock i >>= fun _ => tasks.forM prefetchTask
  | .prefetchList i tasks =>
    updateLRUList i >>= fun _ => unlock i >>= fun _ => tasks.forM prefetchTask
  | .prefetchUnlock i tasks => unlock i >>= fun _ => tasks.forM prefetchTask

section Agrees

variable {pods : ℕ → PodState} {owner : ℕ → Option ℕ} {lru lru' : LruState}
variable {sh sh' : Shared ℕ Mutex Data}

/-- The mutexes and the data of the operations are those of the threads. -/
structure Agrees (pods : ℕ → PodState) (owner : ℕ → Option ℕ) (lru : LruState)
    (sh : Shared ℕ Mutex Data) : Prop where
  state : sh.data.state = pods
  lruList : sh.data.lruList = lru.pods
  valid : ∀ j, sh.data.lruIterIsValid j = true ↔ j ∈ lru.pods
  owner : ∀ j, sh.owner (.pod j) = owner j
  lruFree : sh.owner .lru = none
  represents : lru.Represents
  free : lru.lruLock = false

theorem Agrees.puts (h : Agrees pods owner lru sh) (hp : Puts i st sh sh') :
    Agrees (update pods i st) owner lru sh' where
  state := by rw [hp.state, h.state]
  lruList := hp.lruList.trans h.lruList
  valid := by rw [hp.valid]; exact h.valid
  owner := by rw [hp.owner]; exact h.owner
  lruFree := by rw [hp.owner]; exact h.lruFree
  represents := h.represents
  free := h.free

theorem Agrees.setOwner (h : Agrees pods owner lru sh) (o : Option ℕ) :
    Agrees pods (update owner i o) lru { sh with owner := update sh.owner (.pod i) o } where
  state := h.state
  lruList := h.lruList
  valid := h.valid
  owner j := by
    by_cases hj : j = i
    · simp [hj]
    · simp [hj, h.owner]
  lruFree := by simp [h.lruFree]
  represents := h.represents
  free := h.free

theorem Agrees.relist (h : Agrees pods owner lru sh) (hr : lru'.Represents)
    (hfree : lru'.lruLock = false) (g : Data → Data) (hg : (g sh.data).state = sh.data.state)
    (hlist : (g sh.data).lruList = lru'.pods)
    (hvalid : ∀ j, (g sh.data).lruIterIsValid j = true ↔ j ∈ lru'.pods) :
    Agrees pods owner lru' (sh.edit g) :=
  ⟨hg.trans h.state, hlist, hvalid, h.owner, h.lruFree, hr, hfree⟩

theorem Agrees.listed {r : ℤ} (h : Agrees pods owner lru sh)
    (hr : lru.updateLRUList (some i) = .ok (r, lru')) :
    Agrees pods owner lru' (sh.edit (Data.listed i)) := by
  obtain ⟨r', lru'', hrun, hrep, hfree, hpods⟩ := LruState.updateLRUList_ok h.represents h.free i
  cases hr.symm.trans hrun
  have hmem : ∀ j, j ∈ lru'.pods ↔ j = i ∨ j ∈ lru.pods := by
    intro j
    rw [hpods, mem_cons]
    by_cases hj : j = i
    · simp [hj]
    · simp [hj, mem_erase_of_ne hj]
  by_cases hfront : sh.data.lruList.head? = some i
  · rw [edit_listed_of_front hfront]
    rw [h.lruList] at hfront
    have hpods' := hpods.trans (LruState.cons_erase_of_head hfront)
    exact h.relist hrep hfree id rfl (h.lruList.trans hpods'.symm)
      fun j => by rw [hpods']; exact h.valid j
  · rw [edit_listed_of_not_front hfront]
    apply h.relist hrep hfree (Data.toFront i) rfl
    · change i :: sh.data.others i = lru'.pods
      rw [hpods, Data.others, h.lruList]
      split
      · rfl
      · next hv =>
        rw [erase_of_not_mem (mt (h.valid i).mpr hv)]
    · intro j
      rw [hmem]
      by_cases hj : j = i
      · simp [Data.toFront, hj]
      · simp [Data.toFront, hj, h.valid]

end Agrees

/-- No page has memory and no operation is in progress. -/
def atStart : Threads ℕ Mutex Data Change Place :=
  ⟨fun _ => .ret (), fun _ => none, fun _ => .init, fun _ => [], [], fun _ => false⟩

theorem atStart_atRest : atStart.AtRest := ⟨fun _ => rfl, fun _ => rfl⟩

/-- A run of the entry points leads to `w`, which shows the state `s`. -/
structure Sim (R : Region) (s : State) (w : Threads ℕ Mutex Data Change Place) : Prop where
  run : Run (IsCall R) Returns atStart w
  agrees : Agrees s.pods s.owner s.lru w.shared
  prog : ∀ t, w.prog t = rest (s.pc t)

section Sim

variable {R : Region} {w : Threads ℕ Mutex Data Change Place} {s s' : State}
variable {t i : ℕ} {pc₀ pc : Pc} {sh' : Shared ℕ Mutex Data}

variable (R) in
def Shown (s : State) : Prop := ∃ w, Sim R s w

theorem Sim.shown_run (h : Sim R s w)
    (hrun : Run (IsCall R) Returns atStart ⟨update w.prog t (rest pc), sh'⟩)
    (hpc : s'.pc = update s.pc t pc) (ha : Agrees s'.pods s'.owner s'.lru sh') : Shown R s' := by
  refine ⟨_, hrun, ha, fun u => ?_⟩
  rw [hpc]
  by_cases hu : u = t
  · simp [hu]
  · simp [hu, h.prog]

/-- A section in the middle of an entry point. -/
theorem Sim.shown (h : Sim R s w) (hpc₀ : s.pc t = pc₀)
    (hsteps : Steps Returns t (rest pc₀) w.shared (rest pc) sh') (hpc : s'.pc = update s.pc t pc)
    (ha : Agrees s'.pods s'.owner s'.lru sh') : Shown R s' :=
  h.shown_run (h.run.steps (by rwa [h.prog, hpc₀])) hpc ha

/-- The first section of an entry point. Its thread has no mutex, as its last call returned. -/
theorem Sim.shown_call (h : Sim R s w) (hidle : s.pc t = .idle) (c : Call)
    (hsteps : Steps Returns t (c.op R) w.shared (rest pc) sh') (hpc : s'.pc = update s.pc t pc)
    (ha : Agrees s'.pods s'.owner s'.lru sh') : Shown R s' := by
  have hrest : w.prog t = .ret () := by
    rw [h.prog, hidle]
    rfl
  have hnothing := orderly_of_returns atStart_atRest h.run t
  rw [hrest] at hnothing
  have hfree : ∀ l, w.shared.owner l ≠ some t :=
    Set.eq_empty_iff_forall_notMem.mp (hnothing _ .refl)
  have hstart : Steps Returns t (update w.prog t (c.op R) t) w.shared (rest pc) sh' := by
    rwa [update_self]
  have hrun' := (h.run.next (.start t hrest hfree ⟨c, rfl⟩)).steps hstart
  rw [update_idem] at hrun'
  exact h.shown_run hrun' hpc ha

/-- A section that leaves the mutexes and the list alone. -/
theorem Sim.shown_leads (h : Sim R s w) (hpc₀ : s.pc t = pc₀) (pc : Pc)
    (hl : Leads Returns t i st (rest pc₀) w.shared (rest pc)) : Shown R
    ((s.setState i st).goto t pc) := by
  obtain ⟨sh', hputs, hsteps⟩ := hl
  exact h.shown hpc₀ hsteps rfl (h.agrees.puts hputs)

theorem Sim.shown_stay (h : Sim R s w) (hpc₀ : s.pc t = pc₀)
    (hsteps : Steps Returns t (rest pc₀) w.shared (rest pc) w.shared) : Shown R (s.goto t pc) :=
  h.shown hpc₀ hsteps rfl h.agrees

theorem Sim.shown_take (h : Sim R s w) (hpc₀ : s.pc t = pc₀)
    (hsteps : Steps Returns t (rest pc₀) w.shared (rest pc) (w.shared.take t (.pod i))) : Shown R
    ((s.setOwner i (some t)).goto t pc) :=
  h.shown hpc₀ hsteps rfl (h.agrees.setOwner (some t))

theorem Sim.shown_listed (h : Sim R s w) (hpc₀ : s.pc t = pc₀)
    (hrest : rest pc₀ = updateLRUList i >>= fun _ => rest pc) (hs : s.listPod t i pc = some s') :
    Shown R s' := by
  obtain ⟨r, lru, hr, -, -, -⟩ := LruState.updateLRUList_ok h.agrees.represents h.agrees.free i
  simp only [State.listPod, hr, Option.some.injEq] at hs
  subst hs
  obtain ⟨r', hsteps⟩ := steps_updateLRUList h.agrees.lruFree fun _ => rest pc
  rw [← hrest] at hsteps
  exact h.shown hpc₀ hsteps rfl (h.agrees.listed hr)

/-- The mutex of a pod is given back. -/
theorem Sim.shown_release (h : Sim R s w) (hpc₀ : s.pc t = pc₀)
    (hrest : rest pc₀ = unlock i >>= fun _ => rest pc) : Shown R ((s.setOwner i none).goto t pc) :=
    by
  refine h.shown hpc₀ ?_ rfl (h.agrees.setOwner none)
  rw [hrest]
  exact .next .refl .unlock trivial

theorem Sim.shown_pickPodToEvict (h : Sim R s w) (hidle : s.pc t = .idle)
    (hs : s.pickPodToEvict t = some s') : Shown R s' := by
  obtain ⟨r, lru, hget, hrep, hfree, hpods, htry⟩ :=
    LruState.getFromLRUList_ok h.agrees.represents h.agrees.free fun i => s.owner i = none
  simp only [State.pickPodToEvict, hget] at hs
  cases r with
  | none =>
    cases hs
    rw [Option.toList_none, append_nil] at hpods
    have ha := h.agrees.relist hrep hfree id rfl (h.agrees.lruList.trans hpods)
      fun j => by rw [← hpods]; exact h.agrees.valid j
    exact ⟨w, h.run, ha, h.prog⟩
  | some i =>
    cases hs
    have hnone : s.owner i = none := by simpa using htry i rfl
    have hlast : w.shared.data.lruList.getLast? = some i := by
      rw [h.agrees.lruList, hpods]
      simp
    have hsteps : Steps Returns t (Call.evict.op R) w.shared (rest (.evict i)) _ :=
      steps_pickPodToEvict h.agrees.lruFree ((h.agrees.owner i).trans hnone) hlast
    refine h.shown_call hidle .evict hsteps rfl ?_
    apply (h.agrees.setOwner (some t)).relist hrep hfree (Data.popBack i) rfl
    · change w.shared.data.lruList.dropLast = lru.pods
      rw [h.agrees.lruList, hpods]
      simp
    · intro j
      have hnodup := h.agrees.represents.nodup
      have hvalid := h.agrees.valid j
      rw [hpods] at hnodup hvalid
      by_cases hj : j = i
      · rw [hj, show (Data.popBack i w.shared.data).lruIterIsValid i = false from update_self _ _ _]
        simpa using fun hi => (nodup_append.mp hnodup).2.2 i hi i (by simp) rfl
      · simpa [Data.popBack, hj] using hvalid

theorem Sim.state_eq (h : Sim R s w) (i : ℕ) : w.shared.data.state i = s.pods i :=
  congrFun h.agrees.state i

theorem Sim.shown_bringHome (h : Sim R s w) (hpc : s.pc t = .bringHome i) : Shown R
    (s.bringHome t i) := by
  obtain ⟨q, hq⟩ : ∃ q, s.bringHome t i = ({ s with prefetchTaskQueue := q }.setState i
      (homeState (s.pods i))).goto t (.updateLRUList i) := by
    rw [State.bringHome]
    split
    all_goals exact ⟨_, rfl⟩
  rw [hq, ← h.state_eq i]
  have hqueue : Sim R { s with prefetchTaskQueue := q } w := ⟨h.run, h.agrees, h.prog⟩
  exact hqueue.shown_leads hpc (.updateLRUList i) (leads_activatePod _)

theorem evict_eq {o : Outcome} (ho : s.pods i = .local_ → o ≠ .kept) :
    s.evict t i o = (s.setState i (evictedState o (s.pods i))).goto t (.unlock i) := by
  have hself := update_eq_self i s.pods
  cases hs : s.pods i with
  | local_ => simp [State.evict, hs, ho hs, evictedState]
  | diskCache | remoteCache => simp [State.evict, hs, evictedState]
  | _ =>
    rw [hs] at hself
    simp [State.evict, State.setState, hs, evictedState, hself]

theorem Sim.shown_evict (h : Sim R s w) (hpc : s.pc t = .evict i) (o : Outcome) : Shown R
    (s.evict t i o) := by
  by_cases hkept : s.pods i = .local_ ∧ o = .kept
  · have hevict : s.evict t i o = (s.setState i .local_).goto t (.updateLRUList i) := by
      simp [State.evict, hkept, Outcome.state]
    rw [hevict]
    apply h.shown_leads hpc (.updateLRUList i)
    exact leads_sendAway_kept ((h.state_eq i).trans hkept.1) _
  · have ho := not_and.mp hkept
    rw [evict_eq ho, ← h.state_eq i]
    rw [← h.state_eq i] at ho
    exact h.shown_leads hpc (.unlock i) (leads_sendAway ho _)

theorem Sim.shown_prefetch {tasks : List ℕ} (h : Sim R s w) (hpc : s.pc t = .prefetch tasks) : Shown
    R (s.prefetch t tasks) := by
  cases tasks with
  | nil => exact h.shown_stay hpc .refl
  | cons i tasks =>
    have hread : Steps Returns t (rest (.prefetch (i :: tasks))) w.shared
        ((if false = false ∧ (s.pods i = .diskCache ∨ s.pods i = .remoteCache) then pure ()
          else ifLocked i (prefetchPod i)) >>= fun _ => tasks.forM prefetchTask) w.shared := by
      exact steps_get (h.state_eq i)
    rw [State.prefetch]
    by_cases hcached : s.pods i = .diskCache ∨ s.pods i = .remoteCache
    · rw [if_pos ⟨rfl, hcached⟩] at hread
      rw [if_pos (hcached.imp id .inl)]
      exact h.shown_stay hpc hread
    · rw [if_neg fun hc => hcached hc.2] at hread
      by_cases hfree : s.owner i = none
      · rw [if_neg (by tauto)]
        have htake : Steps Returns t
            (ifLocked i (prefetchPod i) >>= fun _ => tasks.forM prefetchTask) w.shared
            ((prefetchPod i >>= fun _ => unlock i) >>= fun _ => tasks.forM prefetchTask)
            (w.shared.take t (.pod i)) :=
          .next .refl (.tryLock ((h.agrees.owner i).trans hfree)) trivial
        rw [bind_bind] at htake
        exact h.shown_take hpc (hread.trans htake)
      · rw [if_pos (.inr (.inr hfree))]
        have hbusy : w.shared.owner (.pod i) ≠ none := by rwa [h.agrees.owner]
        exact h.shown_stay hpc (hread.trans (.next .refl (.busy hbusy) trivial))

theorem Sim.shown_prefetchPod {tasks : List ℕ} (h : Sim R s w) (hpc : s.pc t = .prefetchPod i tasks)
    : Shown R (s.prefetchPod t i tasks) := by
  by_cases hidle : cachedState (s.pods i) = s.pods i
  · have hp : s.prefetchPod t i tasks = s.goto t (.prefetchUnlock i tasks) := by
      cases hst : s.pods i <;> simp_all [State.prefetchPod, cachedState]
    rw [← h.state_eq i] at hidle
    obtain ⟨sh', hputs, hsteps⟩ : Leads Returns t i _ (rest (.prefetchPod i tasks)) w.shared
        (rest (.prefetchUnlock i tasks)) := leads_prefetchPod_idle hidle _
    have ha := h.agrees.puts hputs
    rw [h.state_eq i, update_eq_self] at ha
    rw [hp]
    exact h.shown hpc hsteps rfl ha
  · have hp : s.prefetchPod t i tasks =
        (s.setState i (cachedState (s.pods i))).goto t (.prefetchList i tasks) := by
      cases hst : s.pods i <;> simp_all [State.prefetchPod, cachedState]
    rw [hp, ← h.state_eq i]
    rw [← h.state_eq i] at hidle
    exact h.shown_leads hpc (.prefetchList i tasks) (leads_prefetchPod hidle _)

/-- The next section of a thread. -/
theorem Sim.shown_go {o : Outcome} (h : Sim R s w) (hs : s.go t o = some s') : Shown R s' := by
  rw [State.go] at hs
  cases hpc : s.pc t with
  | idle => simp [hpc] at hs
  | lockPod i =>
    simp only [hpc, Option.ite_none_right_eq_some, Option.some.injEq] at hs
    rw [← hs.2]
    apply h.shown_take hpc
    simp only [rest, locked, bind_bind]
    exact .next .refl (.lock ((h.agrees.owner i).trans hs.1)) trivial
  | activatePod i =>
    rw [hpc] at hs
    cases hs
    split <;> exact h.shown_stay hpc .refl
  | freeLoopSignal i =>
    simp only [hpc, Option.ite_none_left_eq_some, Option.some.injEq] at hs
    rw [← hs.2]
    exact h.shown_stay hpc .refl
  | updateLRUList | prefetchList =>
    rw [hpc] at hs
    exact h.shown_listed hpc rfl hs
  | unlock | prefetchUnlock =>
    rw [hpc] at hs
    cases hs
    exact h.shown_release hpc rfl
  | bringHome =>
    rw [hpc] at hs
    cases hs
    exact h.shown_bringHome hpc
  | evict =>
    rw [hpc] at hs
    cases hs
    exact h.shown_evict hpc o
  | prefetch =>
    rw [hpc] at hs
    cases hs
    exact h.shown_prefetch hpc
  | prefetchPod =>
    rw [hpc] at hs
    cases hs
    exact h.shown_prefetchPod hpc

theorem getResponsiblePod_payload (hR : 0 < R.pageSize) (i : ℕ) :
    R.getResponsiblePod (R.payload i) = i := by
  rw [Region.getResponsiblePod, Region.payload, Nat.add_sub_cancel_left, Nat.mul_div_cancel _ hR]

theorem Sim.shown_step {c : Config} {a : Act} (h : Sim R s w) (hR : 0 < R.pageSize)
    (hs : s.step c t a = some s') : Shown R s' := by
  cases a with
  | fault i =>
    simp only [State.step, Option.ite_none_right_eq_some, Option.some.injEq] at hs
    obtain ⟨hidle, rfl⟩ := hs
    rw [State.activateAddress]
    split
    · exact ⟨w, h⟩
    · next haway =>
      have hsteps : Steps Returns t ((Call.fault (R.payload i)).op R) w.shared (rest (.lockPod i))
          w.shared := by
        rw [Call.op, activateAddress, getResponsiblePod_payload hR]
        refine .trans (steps_get (h.state_eq i)) ?_
        rw [if_neg haway]
        exact .refl
      exact h.shown_call hidle _ hsteps rfl h.agrees
  | pickPodToEvict =>
    simp only [State.step, Option.ite_none_right_eq_some] at hs
    exact h.shown_pickPodToEvict hs.1.1 hs.2
  | takeTask small =>
    rw [State.step] at hs
    split at hs
    · cases hs
    · next poi queue _ =>
      simp only [Option.ite_none_right_eq_some, Option.some.injEq] at hs
      obtain ⟨hidle, rfl⟩ := hs
      have hsteps : Steps Returns t ((Call.prefetch false).op R) w.shared
          (rest (.prefetch (c.taskCombo poi small))) w.shared :=
        .next .refl (.choose _) trivial
      exact h.shown_call hidle _ hsteps rfl h.agrees
  | go o => exact h.shown_go hs
  | measure | swapModeOn =>
    cases hs
    exact ⟨w, h.run, h.agrees, h.prog⟩

end Sim

/-- A run of faults, evictions and prefetches is one of the entry points, which comes to no place
without the mutex. -/
theorem shown_of_reachable {R : Region} (hR : 0 < R.pageSize) {c : Config}
    {s : State} (hs : State.Reachable c s) : Shown R s := by
  induction hs with
  | init lruIter =>
    have ha : Agrees (fun _ => .init) (fun _ => none) (.new lruIter) atStart.shared :=
      ⟨rfl, rfl, fun _ => by simp [atStart, LruState.new, LruState.pods], fun _ => rfl, rfl,
        LruState.represents_new lruIter, rfl⟩
    exact ⟨atStart, .refl, ha, fun _ => rfl⟩
  | step _ hstep ih =>
    obtain ⟨w, hsim⟩ := ih
    exact hsim.shown_step hR hstep

/-! ## Pages with their bytes -/

section Pages

open Heap (Layout AbsHeap)
open Pager (Inv OnePod Dialogues)

variable {L : ℕ → Layout} {path : ℕ → String} {b : Prop} {g g' : Pager} {r : β}
variable {h h' : ∀ i, AbsHeap (L i)} {x : Op β}

def states (g : Pager) (j : ℕ) : PodState := (g.pods j).state

theorem states_of_onePod (hone : OnePod i g h g' h') :
    states g' = update (states g) i (g'.pods i).state := by
  funext j
  by_cases hj : j = i
  · subst hj
    rw [update_self]
    rfl
  · rw [update_of_ne hj]
    exact congrArg (·.pod.state) (hone.others j hj)

/-- The operation `x` by itself takes the states of the pods of `g` to those of `g'`. -/
def Follows (ok : Place → Prop) (t : T) (x : Op β) (r : β) (g g' : Pager) : Prop :=
  ∀ sh : Shared T Mutex Data, sh.data.state = states g → sh.owner .lru = none →
    ∀ (α : Type) (f : β → Op α), ∃ sh', Steps ok t (x >>= f) sh (f r) sh' ∧
      sh'.data.state = states g' ∧ sh'.owner = sh.owner

theorem Follows.of_leads (hone : OnePod i g h g' h')
    (hl : ∀ (sh : Shared T Mutex Data) (α : Type) (f : β → Op α),
      sh.data.state i = (g.pods i).state →
        Leads ok t i (g'.pods i).state (x >>= f) sh (f r)) : Follows ok t x r g g' := by
  intro sh hs _ α f
  obtain ⟨sh', hputs, hsteps⟩ := hl sh α f (congrFun hs i)
  exact ⟨sh', hsteps, by rw [hputs.state, hs, states_of_onePod hone], hputs.owner⟩

theorem Follows.of_listed (hone : OnePod i g h g' h')
    (hl : ∀ (sh : Shared T Mutex Data) (α : Type) (f : β → Op α),
      sh.data.state i = (g.pods i).state →
        Leads ok t i (g'.pods i).state (x >>= f) sh (updateLRUList i >>= fun _ => f r)) :
    Follows ok t x r g g' := by
  intro sh hs hfree α f
  obtain ⟨sh', hputs, hsteps⟩ := hl sh α f (congrFun hs i)
  obtain ⟨_, hlist⟩ := steps_updateLRUList (by rwa [hputs.owner]) fun _ => f r
  refine ⟨_, hsteps.trans hlist, ?_, hputs.owner⟩
  have hsame : (Data.listed i sh'.data).state = sh'.data.state := by
    rw [Data.listed]
    split <;> rfl
  exact hsame.trans (by rw [hputs.state, hs, states_of_onePod hone])

/-- Activation of a page. -/
theorem activatePod_follows {f : Fetch} (hinj : Injective path) (hg : Inv L path b g h)
    (hf : g.Honest i f) (hrun : g.activatePod L i f = .ok g') :
    Follows ok t (activatePod i) true g g' := by
  have hact := hg.activatePod hinj hf
  rw [hrun] at hact
  obtain ⟨h', -, hone, hact⟩ := hact
  have hhome : (g'.pods i).state = homeState (g.pods i).state := by
    cases hact with
    | idle hs hp => rcases hs with hs | hs <;> rw [hp, hs] <;> rfl
    | mapped hs hs' => rw [hs, hs']; rfl
    | back hs hs' =>
      rw [hs']
      cases hst : (g.pods i).state with
      | localPinned => exact absurd hst hs.2.2
      | _ => rfl
  apply Follows.of_listed hone
  intro sh α f hs
  rw [hhome, ← hs]
  exact leads_activatePod f

/-- A prefetch of a page. -/
theorem prefetchPod_follows {f : Fetch} (hg : Inv L path b g h) (hf : g.Honest i f)
    (hrun : g.prefetchPod L i f = .ok g') : Follows ok t (prefetchPod i) () g g' := by
  obtain ⟨g'', hrun', h', -, hone, hact⟩ := hg.prefetchPod hf
  cases hrun.symm.trans hrun'
  have hcached : (g'.pods i).state = cachedState (g.pods i).state := by
    cases hact with
    | idle hs hp =>
      rw [hp]
      cases hst : (g.pods i).state <;> simp_all [cachedState]
    | mapped hs hs' => rw [hs, hs']; rfl
    | cached hs => rcases hs with ⟨hs, hs'⟩ | ⟨hs, hs'⟩ <;> rw [hs, hs'] <;> rfl
  by_cases hidle : cachedState (g.pods i).state = (g.pods i).state
  · apply Follows.of_leads hone
    intro sh α f hs
    rw [hcached, hidle, ← hs]
    rw [← hs] at hidle
    exact leads_prefetchPod_idle hidle f
  · apply Follows.of_listed hone
    intro sh α f hs
    rw [hcached, ← hs]
    rw [← hs] at hidle
    exact leads_prefetchPod hidle f

/-- A page that the evictor took stays where it is or goes where an eviction takes it. -/
theorem state_of_evicted {isFree : Bool} {localCopy : List (ℕ × SaveScript)}
    (hact : Pager.Evicted g g' i) (hrun : g.pickPodToEvict L path i isFree localCopy = .ok g') :
    (g.pods i).state = .local_ ∧ (g'.pods i).state = .local_ ∨
      ∃ o ≠ Outcome.kept, (g'.pods i).state = evictedState o (g.pods i).state := by
  have hdrop : Outcome.dropped ≠ .kept := by simp
  rw [Pager.pickPodToEvict, Pager.beforeEvict] at hrun
  cases hst : (g.pods i).state with
  | local_ =>
    have hdropped : (g'.pods i).state = .init →
        ∃ o ≠ Outcome.kept, (g'.pods i).state = evictedState o .local_ :=
      fun hs => ⟨.dropped, hdrop, hs⟩
    cases hact with
    | idle hs => exact absurd hst hs
    | dropped hs => rcases hs with hs | hs <;> cases hst.symm.trans hs.1
    | kept _ _ _ hs' => exact hs'.imp (fun hs => ⟨rfl, hs.1⟩) hdropped
    | out _ _ _ hs' =>
      rcases hs' with ⟨hs | hs, -⟩ | hs
      · exact .inr ⟨.saved false, by simp, hs⟩
      · exact .inr ⟨.saved true, by simp, hs⟩
      · exact .inr (hdropped hs)
  | diskCache =>
    rw [hst] at hrun
    cases hrun
    exact .inr ⟨.dropped, hdrop, by simp [Pager.setPod, Pod.diskCacheToDisk, evictedState]⟩
  | remoteCache =>
    rw [hst] at hrun
    cases hrun
    exact .inr ⟨.dropped, hdrop, by simp [Pager.setPod, Pod.remoteCacheToRemote, evictedState]⟩
  | _ =>
    rw [hst] at hrun
    cases hrun
    exact .inr ⟨.dropped, hdrop, hst⟩

/-- An eviction of the pod at the back of the list. -/
theorem pickPodToEvict_follows {isFree : Bool} {localCopy : List (ℕ × SaveScript)}
    (hinj : Injective path) (hg : Inv L path b g h)
    (horder : (g.pods i).state = .local_ → (g.pods i).heap.inited = false → ¬ g.IsLast i)
    (hd : Dialogues L i localCopy (g.beforeEvict L i isFree))
    (hrun : g.pickPodToEvict L path i isFree localCopy = .ok g') :
    Follows ok t (sendAway i) () g g' := by
  have hact := hg.pickPodToEvict hinj horder hd
  rw [hrun] at hact
  obtain ⟨h', -, hone, hact⟩ := hact
  rcases state_of_evicted hact hrun with ⟨hs, hs'⟩ | ⟨o, ho, hs'⟩
  · apply Follows.of_listed hone
    intro sh α f hst
    rw [hs']
    exact leads_sendAway_kept (hst.trans hs) f
  · apply Follows.of_leads hone
    intro sh α f hst
    rw [hs', ← hst]
    exact leads_sendAway (fun _ => ho) f

end Pages

end Remon.Vmm.Entry
