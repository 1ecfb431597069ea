import Remon.Buffer.PodBoundedBuffer

/-! # Sleepers of the bounded buffer

A side sleeps after a test that it made under the mutex of its own slot. On an empty ring the
next slot of the two sides is the same, so nothing is stored between the test of the consumer
and its wait. On a full ring the slots differ: the consumers may empty it and send their
notifications between the test of the producer and its wait.
-/

namespace Remon.Buffer
open Function

namespace Pc

variable {α : Type}

/-- The mutex that a side holds. -/
def holds : Pc α → Option ℕ
  | .locked k => some k
  | .waiting k => some k
  | .passed k => some k
  | .moved k _ => some k
  | .updated k => some k
  | .notified k => some k
  | _ => none

def chosen : Pc α → Option ℕ
  | .entered k => some k
  | .locked k => some k
  | .waiting k => some k
  | .asleep k => some k
  | .woken k => some k
  | .passed k => some k
  | .moved k _ => some k
  | _ => none

def isWaiting : Pc α → Bool
  | .waiting _ => true
  | _ => false

def isUpdated : Pc α → Bool
  | .updated _ => true
  | _ => false

theorem isUpdated_iff {p : Pc α} : p.isUpdated = true ↔ ∃ k, p = .updated k := by
  cases p <;> simp [isUpdated]

end Pc

namespace State

variable {α : Type} {n k : ℕ} {s s' : State α} {t u : Side} {x null : α} {p : Pc α}

/-! ## Mutexes -/

def Owned (s : State α) : Prop := ∀ k t, s.bufferLocks k = some t ↔ (s.pc t).holds = some k

def Chosen (n : ℕ) (s : State α) : Prop := ∀ t k, (s.pc t).chosen = some k → k = s.index t % n

theorem notifyAll_eq (s : State α) (t u : Side) : (s.notifyAll t).bufferLocks = s.bufferLocks ∧
    (s.notifyAll t).index = s.index ∧ ((s.notifyAll t).pc u).holds = (s.pc u).holds ∧
    ((s.notifyAll t).pc u).chosen = (s.pc u).chosen := by
  rw [notifyAll]
  split
  · rename_i k hk
    refine ⟨rfl, goto_index, ?_, ?_⟩
    · by_cases hu : u = t
      · rw [hu, goto_pc_self, hk]
        rfl
      · rw [goto_pc_of_ne hu]
    · by_cases hu : u = t
      · rw [hu, goto_pc_self, hk]
        rfl
      · rw [goto_pc_of_ne hu]
  · exact ⟨rfl, rfl, rfl, rfl⟩

/-- A step of one side leaves the index and the mutexes of the other. -/
theorem Effect.other (he : Effect n s t s') (hu : u ≠ t) : (s'.pc u).holds = (s.pc u).holds ∧
    (s'.pc u).chosen = (s.pc u).chosen ∧ s'.index u = s.index u := by
  cases he with
  | access k x hpc | commit k x hpc =>
    cases t <;> cases u <;> first | exact absurd rfl hu | exact ⟨rfl, rfl, rfl⟩
  | notify k hpc =>
    obtain ⟨-, hi, hh, hc⟩ := s.notifyAll_eq t.other u
    rw [goto_pc_of_ne hu, goto_index, hi]
    exact ⟨hh, hc, rfl⟩
  | _ =>
    rw [goto_pc_of_ne hu, goto_index]
    exact ⟨rfl, rfl, by cases u <;> rfl⟩

@[simp] theorem setLock_index {o : Option Side} : (s.setLock k o).index = s.index := by
  funext u
  cases u <;> rfl

theorem access_pc : (s.access k x t).pc t =
    .moved k (if t = .producer then x else s.buffer s.readIndex) := by
  cases t <;> exact goto_pc_self

theorem access_index : (s.access k x t).index = s.index := by
  cases t <;> exact goto_index

/-- A side chooses its mutex at the start and keeps it until it updates its index. -/
theorem Effect.chosen_self (he : Effect n s t s') (hk : (s'.pc t).chosen = some k) :
    s'.index t = s.index t ∧ (k = s.index t % n ∨ (s.pc t).chosen = some k) := by
  cases he with
  | enter hpc =>
    rw [goto_pc_self] at hk
    cases hk
    exact ⟨by rw [goto_index], .inl rfl⟩
  | acquire j hpc hj =>
    rw [goto_pc_self] at hk
    cases hk
    refine ⟨by rw [goto_index, setLock_index], .inr ?_⟩
    rcases hpc with hpc | hpc <;> rw [hpc] <;> rfl
  | access j x hpc =>
    rw [access_pc] at hk
    cases hk
    exact ⟨by rw [access_index], .inr (by rw [hpc]; rfl)⟩
  | commit j x hpc =>
    rw [goto_pc_self] at hk
    cases hk
  | notify j hpc =>
    rw [goto_pc_self] at hk
    cases hk
  | leave j hpc =>
    rw [goto_pc_self] at hk
    cases hk
  | sleep j hpc =>
    rw [goto_pc_self] at hk
    cases hk
    exact ⟨by rw [goto_index, setLock_index], .inr (by rw [hpc]; rfl)⟩
  | wait j hpc | pass j hpc | wake j hpc =>
    rw [goto_pc_self] at hk
    cases hk
    exact ⟨by rw [goto_index], .inr (by rw [hpc]; rfl)⟩

theorem Chosen.step (h : Chosen n s) (he : Effect n s t s') : Chosen n s' := by
  intro u k hk
  by_cases hu : u = t
  · subst hu
    obtain ⟨hi, hc⟩ := he.chosen_self hk
    rw [hi]
    exact hc.elim id (h u k)
  · obtain ⟨-, hc, hi⟩ := he.other hu
    rw [hi]
    exact h u k (hc ▸ hk)

/-- What a step does to the mutexes: it locks a free one, it unlocks the one that the side holds,
or it leaves them alone. -/
theorem Effect.locks (he : Effect n s t s') :
    (∃ k, s.bufferLocks k = none ∧ (s.pc t).holds = none ∧ (s'.pc t).holds = some k ∧
      s'.bufferLocks = update s.bufferLocks k (some t)) ∨
    (∃ k, (s.pc t).holds = some k ∧ (s'.pc t).holds = none ∧
      s'.bufferLocks = update s.bufferLocks k none) ∨
    ((s'.pc t).holds = (s.pc t).holds ∧ s'.bufferLocks = s.bufferLocks) := by
  cases he with
  | acquire k hpc hk =>
    refine .inl ⟨k, hk, ?_, by rw [goto_pc_self]; rfl, rfl⟩
    rcases hpc with hpc | hpc <;> rw [hpc] <;> rfl
  | sleep k hpc | leave k hpc =>
    exact .inr (.inl ⟨k, by rw [hpc]; rfl, by rw [goto_pc_self]; rfl, rfl⟩)
  | access k x hpc => exact .inr (.inr ⟨by rw [access_pc, hpc]; rfl, by cases t <;> rfl⟩)
  | commit k x hpc =>
    exact .inr (.inr ⟨by rw [goto_pc_self, hpc]; rfl, by cases t <;> rfl⟩)
  | notify k hpc =>
    exact .inr (.inr ⟨by rw [goto_pc_self, hpc]; rfl, (s.notifyAll_eq t.other t).1⟩)
  | enter hpc | wait k hpc | pass k hpc | wake k hpc =>
    exact .inr (.inr ⟨by rw [goto_pc_self, hpc]; rfl, rfl⟩)

theorem Owned.step (h : Owned s) (he : Effect n s t s') : Owned s' := by
  have hother : ∀ u, u ≠ t → ((s'.pc u).holds = (s.pc u).holds) := fun u hu => (he.other hu).1
  intro j u
  rcases he.locks with ⟨k, hk, hnone, hsome, hl⟩ | ⟨k, hsome, hnone, hl⟩ | ⟨hsame, hl⟩
  · rw [hl, update_apply]
    by_cases hu : u = t
    · subst hu
      rw [hsome]
      split
      · rename_i hj
        simp [hj]
      · rename_i hj
        rw [h j u, hnone]
        simp [Ne.symm hj]
    · rw [hother u hu, ← h j u]
      split
      · rename_i hj
        rw [hj, hk]
        simp [Ne.symm hu]
      · exact Iff.rfl
  · rw [hl, update_apply]
    by_cases hu : u = t
    · subst hu
      rw [hnone]
      split
      · simp
      · rename_i hj
        rw [h j u, hsome]
        simp [Ne.symm hj]
    · rw [hother u hu, ← h j u]
      split
      · rename_i hj
        rw [hj, (h k t).mpr hsome]
        simp [Ne.symm hu]
      · exact Iff.rfl
  · rw [hl, h j u]
    by_cases hu : u = t
    · rw [hu, hsame]
    · rw [hother u hu]

/-- Two sides never hold one mutex. -/
theorem Owned.unique (h : Owned s) {j : ℕ} (hk : (s.pc t).holds = some k)
    (hj : (s.pc u).holds = some j) (hne : u ≠ t) : j ≠ k := by
  rintro rfl
  have h1 := (h j t).mpr hk
  rw [(h j u).mpr hj] at h1
  exact hne (Option.some.inj h1)

/-- Only the update of an index changes an index. -/
theorem Effect.counts (he : Effect n s t s') :
    (s'.readIndex = s.readIndex ∧ s'.writeIndex = s.writeIndex) ∨
      ∃ k x, s.pc t = .moved k x ∧ s'.pc t = .updated k := by
  cases he with
  | commit k x hpc => exact .inr ⟨k, x, hpc, goto_pc_self⟩
  | access k x hpc => cases t <;> exact .inl ⟨rfl, rfl⟩
  | notify k hpc =>
    have hi := (s.notifyAll_eq t.other t).2.1
    exact .inl ⟨congrFun hi .consumer, congrFun hi .producer⟩
  | _ => exact .inl ⟨rfl, rfl⟩

theorem Effect.waiting_self (he : Effect n s t s') (hk : s'.pc t = .waiting k) :
    s.mustWait n t = true := by
  cases he with
  | wait j hpc hw => exact hw
  | access j x hpc =>
    rw [access_pc] at hk
    cases hk
  | _ =>
    rw [goto_pc_self] at hk
    cases hk

theorem Effect.asleep_self (he : Effect n s t s') (hk : s'.pc t = .asleep k) :
    s.pc t = .waiting k := by
  cases he with
  | sleep j hpc =>
    rw [goto_pc_self] at hk
    cases hk
    exact hpc
  | access j x hpc =>
    rw [access_pc] at hk
    cases hk
  | _ =>
    rw [goto_pc_self] at hk
    cases hk

theorem Effect.pc_other (he : Effect n s t s') (hu : u ≠ t) :
    (∃ j, s'.pc u = .woken j) ∨
      s'.pc u = s.pc u ∧ ((∀ j, s.pc u ≠ .asleep j) ∨ ∀ j, s.pc t ≠ .updated j) := by
  cases he with
  | notify k hpc =>
    rw [goto_pc_of_ne hu, Side.eq_other hu, notifyAll]
    split
    · exact .inl ⟨_, goto_pc_self⟩
    · rename_i hno
      exact .inr ⟨rfl, .inl hno⟩
  | access k x hpc | commit k x hpc =>
    refine .inr ⟨?_, .inr (by rw [hpc]; simp)⟩
    cases t <;> cases u <;> first | exact absurd rfl hu | rfl
  | acquire k hpc hk =>
    refine .inr ⟨goto_pc_of_ne hu, .inr ?_⟩
    rcases hpc with hpc | hpc <;> rw [hpc] <;> simp
  | enter hpc | wait k hpc | pass k hpc | sleep k hpc | wake k hpc | leave k hpc =>
    exact .inr ⟨goto_pc_of_ne hu, .inr (by rw [hpc]; simp)⟩

/-! ## Who sleeps is woken -/

/-- While side `u` sleeps, the indices satisfy `C` or the other side is about to notify. -/
def Guarded (C : ℕ → ℕ → Prop) (u : Side) (s : State α) : Prop :=
  ∀ k, s.pc u = .asleep k → C s.readIndex s.writeIndex ∨ ∃ j, s.pc u.other = .updated j

/-- A sleeper stays guarded if it was when it went to sleep. -/
theorem Guarded.step {C : ℕ → ℕ → Prop} (h : Guarded C u s) (he : Effect n s t s')
    (hsleep : t = u → ∀ k, s.pc u = .waiting k →
      C s.readIndex s.writeIndex ∨ ∃ j, s.pc u.other = .updated j) : Guarded C u s' := by
  intro k hk
  by_cases ht : t = u
  · subst ht
    have hw := he.asleep_self hk
    rcases he.counts with ⟨hr, hwr⟩ | ⟨j, x, hm, -⟩
    · rw [hr, hwr]
      refine (hsleep rfl k hw).imp_right ?_
      rintro ⟨j, hj⟩
      rcases he.pc_other (Side.other_ne t) with ⟨i, hi⟩ | ⟨hsame, -⟩
      · have hheld := (he.other (Side.other_ne t)).1
        rw [hi, hj] at hheld
        cases hheld
      · exact ⟨j, hsame.trans hj⟩
    · rw [hw] at hm
      cases hm
  · have hu : u ≠ t := Ne.symm ht
    obtain rfl : t = u.other := Side.eq_other ht
    rcases he.pc_other hu with ⟨i, hi⟩ | ⟨hsame, hno⟩
    · rw [hi] at hk
      cases hk
    · have hk' : s.pc u = .asleep k := hsame ▸ hk
      rcases he.counts with ⟨hr, hwr⟩ | ⟨j, x, -, hup⟩
      · rw [hr, hwr]
        refine (h k hk').imp_right ?_
        rintro ⟨j, hj⟩
        exact absurd hj (hno.elim (fun hc => absurd hk' (hc k)) (fun hc => hc j))
      · exact .inr ⟨j, hup⟩

/-- The producer does not go to sleep on an empty ring whose last taking was already announced. -/
def timely (s : State α) : Action α → Bool
  | .run .producer _ =>
    !(s.pc .producer).isWaiting || !s.boundedBufferIsEmpty || (s.pc .consumer).isUpdated
  | _ => true

/-- The reasons why somebody is always awake. -/
structure Wakes (n : ℕ) (s : State α) : Prop where
  owned : Owned s
  chosen : Chosen n s
  found : ∀ k, s.pc .consumer = .waiting k → s.readIndex = s.writeIndex
  consumer : Guarded (· = ·) .consumer s
  producer : Guarded (· ≠ ·) .producer s

namespace Wakes

theorem init (null : α) : Wakes n (State.init null) := by
  refine ⟨?_, ?_, ?_, ?_, ?_⟩
  · intro k t
    simp [State.init, Pc.holds]
  · intro t k hk
    cases hk
  · intro k hk
    cases hk
  · intro k hk
    cases hk
  · intro k hk
    cases hk

theorem found_step (h : Wakes n s) (he : Effect n s t s') (hk : s'.pc .consumer = .waiting k) :
    s'.readIndex = s'.writeIndex := by
  by_cases ht : t = .consumer
  · subst ht
    have hw : s.boundedBufferIsEmpty = true := he.waiting_self hk
    rcases he.counts with ⟨hr, hwr⟩ | ⟨j, x, -, hup⟩
    · rw [hr, hwr]
      exact of_decide_eq_true hw
    · rw [hk] at hup
      cases hup
  · rcases he.pc_other (Ne.symm ht) with ⟨i, hi⟩ | ⟨hsame, -⟩
    · rw [hi] at hk
      cases hk
    · have hk' : s.pc .consumer = .waiting k := hsame ▸ hk
      have hempty := h.found k hk'
      rcases he.counts with ⟨hr, hwr⟩ | ⟨j, x, hm, -⟩
      · rw [hr, hwr]
        exact hempty
      · obtain rfl : t = .producer := by cases t with
          | producer => rfl
          | consumer => exact absurd rfl ht
        have hj : j = s.writeIndex % n := h.chosen .producer j (by rw [hm]; rfl)
        have hk2 : k = s.readIndex % n := h.chosen .consumer k (by rw [hk']; rfl)
        have hne : k ≠ j := h.owned.unique (by rw [hm]; rfl) (by rw [hk']; rfl) (Ne.symm ht)
        rw [hj, hk2, hempty] at hne
        exact absurd rfl hne

theorem step (h : Wakes n s) (he : Effect n s t s')
    (hok : ∀ k, s.pc t = .waiting k → ∃ x, timely s (.run t x) = true) : Wakes n s' := by
  refine ⟨h.owned.step he, h.chosen.step he, fun k hk => h.found_step he hk,
    h.consumer.step he ?_, h.producer.step he ?_⟩
  · intro _ k hk
    exact .inl (h.found k hk)
  · rintro rfl k hk
    obtain ⟨x, hx⟩ := hok k hk
    have hw : (s.pc .producer).isWaiting = true := by rw [hk]; rfl
    rw [timely, hw, Bool.not_true, Bool.false_or, Bool.or_eq_true, Bool.not_eq_true'] at hx
    exact hx.imp of_decide_eq_false Pc.isUpdated_iff.mp

end Wakes

/-- In every run in which the producer never goes to sleep on an empty ring after the notification
of the last consumer, the two sides are never both asleep, and a consumer that sleeps while there is
a pod is about to be notified. -/
theorem no_lost_wakeup {n : ℕ} {null : α} {s : State α}
    (hs : Run n null (fun s a => s.timely a = true) s) :
    (∀ j k, ¬ (s.pc .producer = .asleep j ∧ s.pc .consumer = .asleep k)) ∧
    ∀ k, s.pc .consumer = .asleep k → s.boundedBufferIsEmpty = false →
      ∃ j, s.pc .producer = .updated j := by
  have h : Wakes n s := hs.induct (.init null) (fun _ _ _ h he hok => h.step he hok)
  refine ⟨?_, ?_⟩
  · rintro j k ⟨hp, hc⟩
    rcases h.consumer k hc with hempty | ⟨i, hi⟩
    · rcases h.producer j hp with hne | ⟨i, hi⟩
      · exact hne hempty
      · have hi' : s.pc .consumer = .updated i := hi
        rw [hc] at hi'
        cases hi'
    · have hi' : s.pc .producer = .updated i := hi
      rw [hp] at hi'
      cases hi'
  · intro k hc hne
    exact (h.consumer k hc).resolve_left (of_decide_eq_false hne)

def sampleSleeper : State ℕ :=
  ((State.init 0).runAll 2 timely (consume 4 0 ++ produce 5 7)).getD (State.init 0)

theorem sampleSleeper_run : Run 2 0 (fun s a => s.timely a = true) sampleSleeper :=
  Run.init.runAll timely (consume 4 0 ++ produce 5 7) rfl

theorem no_lost_wakeup_sample : Run 2 0 (fun s a => s.timely a = true) sampleSleeper ∧
    sampleSleeper.pc .consumer = .asleep 0 ∧ sampleSleeper.boundedBufferIsEmpty = false ∧
      ∃ j, sampleSleeper.pc .producer = .updated j :=
  ⟨sampleSleeper_run, rfl, rfl, (no_lost_wakeup sampleSleeper_run).2 0 rfl rfl⟩

def lostWakeup : List (Action ℕ) :=
  produce 7 7 ++ produce 3 8 ++ consume 7 0 ++ produce 1 8 ++ consume 4 0

def sampleLost : State ℕ :=
  ((State.init 0).runAll 2 (fun _ _ => true) lostWakeup).getD (State.init 0)

theorem both_asleep : Run 2 0 (fun _ _ => True) sampleLost ∧
    sampleLost.pc .producer = .asleep 1 ∧ sampleLost.pc .consumer = .asleep 1 := by
  have hrun : Run 2 0 (fun _ _ => true = true) sampleLost :=
    Run.init.runAll (fun _ _ => true) lostWakeup rfl
  exact ⟨hrun.mono (fun _ _ _ => trivial), rfl, rfl⟩

end State

end Remon.Buffer
