import Remon.Base
import Remon.Lib.Ring

/-! # The bounded buffer of new pods

One thread puts new pods into a ring of `n` slots, and consumers, which take turns by an outer
lock, take them out. Each side locks the mutex of the slot its own index points at before it
tests whether the ring is full or empty, and keeps that mutex until it is done. The steps of the
two sides interleave in any order, and a wait may end without a notification. The ring has few
slots compared with the range of the indices, so no index overflows.
-/

namespace Remon.Buffer
open Function Lib List

inductive Side where
  | producer
  | consumer
  deriving DecidableEq, Repr

def Side.other : Side → Side
  | .producer => .consumer
  | .consumer => .producer

theorem Side.other_ne (t : Side) : t.other ≠ t := by
  cases t <;> decide

theorem Side.eq_other {t u : Side} (h : u ≠ t) : u = t.other := by
  cases t <;> cases u <;> first | rfl | exact absurd rfl h

/-- Where a side is in `addPodToBuffer` or `getBufferedPodCore`; `k` is the mutex it chose. -/
inductive Pc (α : Type) where
  | outside
  | entered (k : ℕ)
  | locked (k : ℕ)
  /-- the test said that there is nothing to do -/
  | waiting (k : ℕ)
  | asleep (k : ℕ)
  /-- the wait is over but for the mutex -/
  | woken (k : ℕ)
  | passed (k : ℕ)
  /-- the pod was written to or read from its slot -/
  | moved (k : ℕ) (x : α)
  /-- the index was updated -/
  | updated (k : ℕ)
  | notified (k : ℕ)
  deriving DecidableEq, Repr

/-- A pod is a pointer of type `α`. The pods that were put in and taken out are on record from
the update of the index on. -/
structure State (α : Type) where
  buffer : ℕ → α
  readIndex : ℕ
  writeIndex : ℕ
  bufferLocks : ℕ → Option Side
  pc : Side → Pc α
  stored : List α
  taken : List α

namespace State

variable {α : Type}

/-- The slots of a new buffer have null pointers. -/
def init (null : α) : State α :=
  ⟨fun _ => null, 0, 0, fun _ => none, fun _ => .outside, [], []⟩

variable (n : ℕ) (s : State α)

def getBufferSize : ℕ := (((s.writeIndex : ℤ) - s.readIndex + n) % n).toNat

def boundedBufferIsFull : Bool := decide ((s.writeIndex + 1) % n = s.readIndex)

def boundedBufferIsEmpty : Bool := decide (s.readIndex = s.writeIndex)

def index : Side → ℕ
  | .producer => s.writeIndex
  | .consumer => s.readIndex

def mustWait : Side → Bool
  | .producer => s.boundedBufferIsFull n
  | .consumer => s.boundedBufferIsEmpty

def goto (t : Side) (p : Pc α) : State α := { s with pc := update s.pc t p }

def setLock (k : ℕ) (o : Option Side) : State α :=
  { s with bufferLocks := update s.bufferLocks k o }

def acquire (t : Side) (k : ℕ) : Option (State α) :=
  if s.bufferLocks k = none then some ((s.setLock k (some t)).goto t (.locked k)) else none

/-- The access to the slot: the producer writes the new pod `x`, the consumer reads. -/
def access (k : ℕ) (x : α) : Side → State α
  | .producer =>
    { s with buffer := update s.buffer s.writeIndex x }.goto .producer (.moved k x)
  | .consumer => s.goto .consumer (.moved k (s.buffer s.readIndex))

def commit (x : α) : Side → State α
  | .producer => { s with writeIndex := (s.writeIndex + 1) % n, stored := s.stored ++ [x] }
  | .consumer => { s with readIndex := (s.readIndex + 1) % n, taken := s.taken ++ [x] }

def notifyAll (t : Side) : State α :=
  match s.pc t with
  | .asleep k => s.goto t (.woken k)
  | _ => s

/-- The next step of side `t`, if it can take one; `x` is the pod that the producer puts in when it
comes to that. -/
def advance (t : Side) (x : α) : Option (State α) :=
  match s.pc t with
  | .outside => some (s.goto t (.entered (s.index t % n)))
  | .entered k => s.acquire t k
  | .locked k => some (s.goto t (if s.mustWait n t then .waiting k else .passed k))
  | .waiting k => some ((s.setLock k none).goto t (.asleep k))
  | .asleep _ => none
  | .woken k => s.acquire t k
  | .passed k => some (s.access k x t)
  | .moved k y => some ((s.commit n y t).goto t (.updated k))
  | .updated k => some ((s.notifyAll t.other).goto t (.notified k))
  | .notified k => some ((s.setLock k none).goto t .outside)

/-- A step of a side, or a wait that ends by itself. -/
inductive Action (α : Type) where
  | run (t : Side) (x : α)
  | wake (t : Side)

def act : Action α → Option (State α)
  | .run t x => s.advance n t x
  | .wake t =>
    match s.pc t with
    | .asleep k => some (s.goto t (.woken k))
    | _ => none

/-- The states of the runs all of whose actions are admitted by `ok`. -/
inductive Run (n : ℕ) (null : α) (ok : State α → Action α → Prop) : State α → Prop
  | init : Run n null ok (State.init null)
  | step {s s' : State α} (a : Action α) (hs : Run n null ok s) (ha : ok s a)
      (hrun : s.act n a = some s') : Run n null ok s'

/-! ## One step -/

variable {n s} {s' : State α} {t u : Side} {k : ℕ} {x null : α} {p : Pc α} {a : Action α}
  {ok : State α → Action α → Prop}

@[simp] theorem goto_pc_self : (s.goto t p).pc t = p := update_self _ _ _

theorem goto_pc_of_ne (h : u ≠ t) : (s.goto t p).pc u = s.pc u := update_of_ne h _ _

@[simp] theorem goto_index : (s.goto t p).index = s.index := by
  funext u
  cases u <;> rfl

/-- Everything that can happen in one step of side `t`. -/
inductive Effect (n : ℕ) (s : State α) (t : Side) : State α → Prop
  | enter (hpc : s.pc t = .outside) : Effect n s t (s.goto t (.entered (s.index t % n)))
  | acquire (k : ℕ) (hpc : s.pc t = .entered k ∨ s.pc t = .woken k) (hk : s.bufferLocks k = none) :
      Effect n s t ((s.setLock k (some t)).goto t (.locked k))
  | wait (k : ℕ) (hpc : s.pc t = .locked k) (hw : s.mustWait n t = true) :
      Effect n s t (s.goto t (.waiting k))
  | pass (k : ℕ) (hpc : s.pc t = .locked k) (hw : s.mustWait n t = false) :
      Effect n s t (s.goto t (.passed k))
  | sleep (k : ℕ) (hpc : s.pc t = .waiting k) : Effect n s t ((s.setLock k none).goto t (.asleep k))
  | wake (k : ℕ) (hpc : s.pc t = .asleep k) : Effect n s t (s.goto t (.woken k))
  | access (k : ℕ) (x : α) (hpc : s.pc t = .passed k) : Effect n s t (s.access k x t)
  | commit (k : ℕ) (x : α) (hpc : s.pc t = .moved k x) :
      Effect n s t ((s.commit n x t).goto t (.updated k))
  | notify (k : ℕ) (hpc : s.pc t = .updated k) :
      Effect n s t ((s.notifyAll t.other).goto t (.notified k))
  | leave (k : ℕ) (hpc : s.pc t = .notified k) : Effect n s t ((s.setLock k none).goto t .outside)

theorem acquire_effect (hpc : s.pc t = .entered k ∨ s.pc t = .woken k)
    (h : s.acquire t k = some s') : Effect n s t s' := by
  rw [acquire] at h
  split at h
  · rename_i hk
    cases h
    exact .acquire k hpc hk
  · cases h

theorem advance_effect (h : s.advance n t x = some s') : Effect n s t s' := by
  unfold advance at h
  cases hpc : s.pc t with
  | outside => simp only [hpc] at h; cases h; exact .enter hpc
  | entered k => simp only [hpc] at h; exact acquire_effect (.inl hpc) h
  | locked k =>
    simp only [hpc] at h
    cases hw : s.mustWait n t with
    | true => simp only [hw, if_true] at h; cases h; exact .wait k hpc hw
    | false => simp only [hw, Bool.false_eq_true, if_false] at h; cases h; exact .pass k hpc hw
  | waiting k => simp only [hpc] at h; cases h; exact .sleep k hpc
  | asleep k => simp only [hpc] at h; cases h
  | woken k => simp only [hpc] at h; exact acquire_effect (.inr hpc) h
  | passed k => simp only [hpc] at h; cases h; exact .access k x hpc
  | moved k y => simp only [hpc] at h; cases h; exact .commit k y hpc
  | updated k => simp only [hpc] at h; cases h; exact .notify k hpc
  | notified k => simp only [hpc] at h; cases h; exact .leave k hpc

theorem act_effect (h : s.act n a = some s') :
    ∃ t, Effect n s t s' ∧ ∀ k, s.pc t = .waiting k → ∃ x, a = .run t x := by
  cases a with
  | run t x => exact ⟨t, advance_effect h, fun _ _ => ⟨x, rfl⟩⟩
  | wake t =>
    rw [act] at h
    split at h
    · rename_i k hk
      cases h
      refine ⟨t, .wake k hk, ?_⟩
      intro j hj
      rw [hk] at hj
      cases hj
    · cases h

theorem Run.induct {I : State α → Prop} (h0 : I (State.init null))
    (hstep : ∀ s s' t, I s → Effect n s t s' →
      (∀ k, s.pc t = .waiting k → ∃ x, ok s (.run t x)) → I s')
    (hs : Run n null ok s) : I s := by
  induction hs with
  | init => exact h0
  | step a _ ha hrun ih =>
    obtain ⟨t, he, hwait⟩ := act_effect hrun
    refine hstep _ _ t ih he ?_
    intro k hk
    obtain ⟨x, rfl⟩ := hwait k hk
    exact ⟨x, ha⟩

/-! ## First in, first out -/

def Knows (n : ℕ) (s : State α) : Side → Pc α → Prop
  | .producer, .passed _ => s.stored.length + 1 < s.taken.length + n
  | .producer, .moved _ x =>
    s.stored.length + 1 < s.taken.length + n ∧ s.buffer (s.stored.length % n) = x
  | .consumer, .passed _ => s.taken.length < s.stored.length
  | .consumer, .moved _ x => s.stored[s.taken.length]? = some x
  | _, _ => True

/-- More pods in the ring are no harm to the consumer. -/
theorem Knows.consumer (h : Knows n s .consumer p) (hs : s.stored <+: s'.stored)
    (ht : s'.taken = s.taken) : Knows n s' .consumer p := by
  cases p with
  | passed k =>
    have hlt : s.taken.length < s.stored.length := h
    change s'.taken.length < s'.stored.length
    rw [ht]
    exact hlt.trans_le hs.length_le
  | moved k x =>
    have hx : s.stored[s.taken.length]? = some x := h
    obtain ⟨ys, hys⟩ := hs
    change s'.stored[s'.taken.length]? = some x
    rw [ht, ← hys, List.getElem?_append_left (List.getElem?_eq_some_iff.mp hx).1]
    exact hx
  | _ => trivial

/-- Fewer pods in the ring are no harm to the producer. -/
theorem Knows.producer (h : Knows n s .producer p) (hs : s'.stored = s.stored)
    (hb : s'.buffer = s.buffer) (ht : s.taken.length ≤ s'.taken.length) :
    Knows n s' .producer p := by
  cases p with
  | passed k =>
    have hroom : s.stored.length + 1 < s.taken.length + n := h
    change s'.stored.length + 1 < s'.taken.length + n
    rw [hs]
    omega
  | moved k x =>
    obtain ⟨hroom, hx⟩ : s.stored.length + 1 < s.taken.length + n ∧
      s.buffer (s.stored.length % n) = x := h
    refine ⟨?_, ?_⟩
    · rw [hs]
      omega
    · rw [hs, hb]
      exact hx
  | _ => trivial

/-- The indices count the pods, and the pods that were not taken yet are in their slots. -/
structure Fifo (n : ℕ) (s : State α) : Prop where
  write : s.writeIndex = s.stored.length % n
  read : s.readIndex = s.taken.length % n
  taken : s.taken <+: s.stored
  room : s.stored.length < s.taken.length + n
  keeps : Ring.Keeps n s.buffer s.stored s.taken.length
  knows : ∀ t, Knows n s t (s.pc t)

theorem prefix_concat {xs ys : List α} (h : xs <+: ys) (hx : ys[xs.length]? = some x) :
    xs ++ [x] <+: ys := by
  obtain ⟨zs, rfl⟩ := h
  rw [List.getElem?_append_right le_rfl, Nat.sub_self] at hx
  cases zs with
  | nil => cases hx
  | cons z zs =>
    obtain rfl : z = x := by simpa using hx
    exact ⟨zs, by simp⟩

namespace Fifo

theorem init (hn : 0 < n) (null : α) : Fifo n (State.init null) :=
  ⟨(Nat.zero_mod n).symm, (Nat.zero_mod n).symm, prefix_rfl, hn.trans_eq (zero_add n).symm,
    .nil,
    fun t => by cases t <;> trivial⟩

section

variable (h : Fifo n s)
include h

theorem isFull_iff : s.boundedBufferIsFull n = true ↔ s.stored.length + 1 = s.taken.length + n := by
  have hle := h.taken.length_le
  have hroom := h.room
  rw [boundedBufferIsFull, decide_eq_true_iff, h.write, h.read, Nat.mod_add_mod,
    ← Nat.add_mod_right s.taken.length n]
  exact Ring.mod_eq_iff (by omega) (by omega)

theorem isEmpty_iff : s.boundedBufferIsEmpty = true ↔ s.taken.length = s.stored.length := by
  rw [boundedBufferIsEmpty, decide_eq_true_iff, h.write, h.read]
  exact Ring.mod_eq_iff h.taken.length_le h.room

theorem getBufferSize_eq : s.getBufferSize n = s.stored.length - s.taken.length := by
  have hle := h.taken.length_le
  have hroom := h.room
  have hmod : ((s.writeIndex : ℤ) - s.readIndex + n) % n =
    (s.stored.length - s.taken.length : ℤ) := by
    have hw : (s.writeIndex : ℤ) ≡ s.stored.length [ZMOD n] := by
      rw [h.write, Int.natCast_mod]
      exact Int.mod_modEq _ _
    have hr : (s.readIndex : ℤ) ≡ s.taken.length [ZMOD n] := by
      rw [h.read, Int.natCast_mod]
      exact Int.mod_modEq _ _
    rw [Int.add_emod_right, (hw.sub hr).eq]
    exact Int.emod_eq_of_lt (by omega) (by omega)
  rw [getBufferSize, hmod]
  omega

/-- A step that touches no pod and no index. -/
theorem goto {t : Side} {p : Pc α} (hp : Knows n s t p) : Fifo n (s.goto t p) := by
  refine ⟨h.write, h.read, h.taken, h.room, h.keeps, ?_⟩
  intro u
  by_cases hu : u = t
  · rw [hu, goto_pc_self]
    exact hp
  · rw [goto_pc_of_ne hu]
    exact h.knows u

theorem setLock (k : ℕ) (o : Option Side) : Fifo n (s.setLock k o) :=
  ⟨h.write, h.read, h.taken, h.room, h.keeps, h.knows⟩

theorem notifyAll (t : Side) : Fifo n (s.notifyAll t) := by
  rw [State.notifyAll]
  split
  · exact h.goto (by cases t <;> trivial)
  · exact h

/-- The pod that the consumer reads is the next one that was stored. -/
theorem next_eq (hlt : s.taken.length < s.stored.length) :
    s.stored[s.taken.length]? = some (s.buffer s.readIndex) := by
  obtain ⟨y, hy⟩ : ∃ y, s.stored[s.taken.length]? = some y := ⟨_, List.getElem?_eq_getElem hlt⟩
  rw [hy, h.read, h.keeps _ y le_rfl hy]

theorem access (hp : s.pc t = .passed k) (x : α) : Fifo n (s.access k x t) := by
  have hk := h.knows t
  rw [hp] at hk
  cases t with
  | producer =>
    have hroom : s.stored.length + 1 < s.taken.length + n := hk
    have hkeeps := h.keeps.store h.room x
    rw [← h.write] at hkeeps
    have hnew : Fifo n { s with buffer := update s.buffer s.writeIndex x } := by
      refine ⟨h.write, h.read, h.taken, h.room, hkeeps, ?_⟩
      intro u
      cases u with
      | producer =>
        rw [hp]
        exact hroom
      | consumer => exact (h.knows .consumer).consumer prefix_rfl rfl
    refine hnew.goto (t := .producer) ⟨hroom, ?_⟩
    rw [← h.write]
    exact update_self _ _ _
  | consumer => exact h.goto (t := .consumer) (h.next_eq hk)

theorem commit (hp : s.pc t = .moved k x) : Fifo n ((s.commit n x t).goto t (.updated k)) := by
  have hk := h.knows t
  rw [hp] at hk
  cases t with
  | producer =>
    obtain ⟨hroom, hx⟩ := hk
    refine ⟨?_, h.read, h.taken.trans (prefix_append _ _), ?_, h.keeps.push hx, ?_⟩
    · change (s.writeIndex + 1) % n = (s.stored ++ [x]).length % n
      rw [h.write, Nat.mod_add_mod, length_append, length_singleton]
    · change (s.stored ++ [x]).length < s.taken.length + n
      rwa [length_append, length_singleton]
    · intro u
      cases u with
      | producer => trivial
      | consumer => exact (h.knows .consumer).consumer (prefix_append _ _) rfl
  | consumer =>
    have hx : s.stored[s.taken.length]? = some x := hk
    have hlt := (List.getElem?_eq_some_iff.mp hx).1
    refine ⟨h.write, ?_, prefix_concat h.taken hx, ?_, h.keeps.mono ?_, ?_⟩
    · change (s.readIndex + 1) % n = (s.taken ++ [x]).length % n
      rw [h.read, Nat.mod_add_mod, length_append, length_singleton]
    · change s.stored.length < (s.taken ++ [x]).length + n
      have hroom := h.room
      rw [length_append]
      omega
    · exact (prefix_append s.taken [x]).length_le
    · intro u
      cases u with
      | producer => exact (h.knows .producer).producer rfl rfl (prefix_append _ _).length_le
      | consumer => trivial

theorem step (he : Effect n s t s') : Fifo n s' := by
  cases he with
  | enter hpc => exact h.goto (by cases t <;> trivial)
  | acquire k hpc hk => exact (h.setLock k _).goto (by cases t <;> trivial)
  | wait k hpc hw => exact h.goto (by cases t <;> trivial)
  | pass k hpc hw =>
    apply h.goto
    have hle := h.taken.length_le
    have hroom := h.room
    cases t with
    | producer =>
      have hne : ¬ s.stored.length + 1 = s.taken.length + n := by
        rw [← h.isFull_iff, Bool.not_eq_true]
        exact hw
      change s.stored.length + 1 < s.taken.length + n
      omega
    | consumer =>
      have hne : ¬ s.taken.length = s.stored.length := by
        rw [← h.isEmpty_iff, Bool.not_eq_true]
        exact hw
      change s.taken.length < s.stored.length
      omega
  | sleep k hpc => exact (h.setLock k _).goto (by cases t <;> trivial)
  | wake k hpc => exact h.goto (by cases t <;> trivial)
  | access k x hpc => exact h.access hpc x
  | commit k x hpc => exact h.commit hpc
  | notify k hpc => exact (h.notifyAll _).goto (by cases t <;> trivial)
  | leave k hpc => exact (h.setLock k _).goto (by cases t <;> trivial)

end

end Fifo

/-- In every run the pods taken are, in order, the first ones that were stored; every pod that was
stored and not taken is still in its slot, the pod a consumer reads is the next one, and the
producer writes only while a slot is to spare. What `getBufferSize` returns is the number of
stored pods that were not taken, and less than the number of slots. -/
theorem fifo_without_loss {n : ℕ} {null : α} (hn : 2 ≤ n) {s : State α}
    (hs : Run n null (fun _ _ => True) s) :
    s.taken <+: s.stored ∧
    (∀ k x, s.taken.length ≤ k → s.stored[k]? = some x → s.buffer (k % n) = x) ∧
    (∀ k, s.pc .consumer = .passed k → s.stored[s.taken.length]? = some (s.buffer s.readIndex)) ∧
    (∀ k, s.pc .producer = .passed k → ∀ j, s.taken.length ≤ j → j < s.stored.length →
      j % n ≠ s.writeIndex) ∧
    s.getBufferSize n + s.taken.length = s.stored.length ∧ s.getBufferSize n ≤ n - 1 := by
  have h : Fifo n s := hs.induct (.init (by omega) null) (fun _ _ _ h he _ => h.step he)
  have hle := h.taken.length_le
  have hroom := h.room
  refine ⟨h.taken, h.keeps, ?_, ?_, ?_, ?_⟩
  · intro k hk
    have hlt := h.knows .consumer
    rw [hk] at hlt
    exact h.next_eq hlt
  · intro k hk j hj hlt hc
    rw [h.write, Ring.mod_eq_iff hlt.le (by omega)] at hc
    omega
  · rw [h.getBufferSize_eq]
    omega
  · rw [h.getBufferSize_eq]
    omega

def runAll (n : ℕ) (ok : State α → Action α → Bool) (s : State α) :
    List (Action α) → Option (State α)
  | [] => some s
  | a :: as => if ok s a then (s.act n a).bind (fun s => runAll n ok s as) else none

theorem Run.runAll (ok : State α → Action α → Bool) (as : List (Action α))
    (hs : Run n null (fun s a => ok s a = true) s) (hrun : s.runAll n ok as = some s') :
    Run n null (fun s a => ok s a = true) s' := by
  induction as generalizing s with
  | nil =>
    cases hrun
    exact hs
  | cons a as ih =>
    rw [State.runAll] at hrun
    split at hrun
    · rename_i hok
      obtain ⟨u, hu, hrest⟩ := Option.bind_eq_some_iff.mp hrun
      exact ih (.step a hs hok hu) hrest
    · cases hrun

theorem Run.mono {ok' : State α → Action α → Prop} (hok : ∀ s a, ok s a → ok' s a)
    (hs : Run n null ok s) : Run n null ok' s := by
  induction hs with
  | init => exact .init
  | step a _ ha hrun ih => exact .step a ih (hok _ a ha) hrun

def produce (i : ℕ) (x : α) : List (Action α) := List.replicate i (.run .producer x)

def consume (i : ℕ) (x : α) : List (Action α) := List.replicate i (.run .consumer x)

def sampleRing : State ℕ :=
  ((State.init 0).runAll 2 (fun _ _ => true) (produce 7 5 ++ consume 7 0 ++ produce 7 6)).getD
    (State.init 0)

theorem sampleRing_run : Run 2 0 (fun _ _ => True) sampleRing := by
  have hrun : Run 2 0 (fun _ _ => true = true) sampleRing :=
    Run.init.runAll (fun _ _ => true) (produce 7 5 ++ consume 7 0 ++ produce 7 6) rfl
  exact hrun.mono (fun _ _ _ => trivial)

theorem fifo_without_loss_sample : Run 2 0 (fun _ _ => True) sampleRing ∧
    sampleRing.stored = [5, 6] ∧ sampleRing.taken = [5] ∧ sampleRing.taken <+: sampleRing.stored ∧
      sampleRing.getBufferSize 2 ≤ 1 := by
  obtain ⟨hpre, -, -, -, -, hsize⟩ := fifo_without_loss le_rfl sampleRing_run
  exact ⟨sampleRing_run, rfl, rfl, hpre, hsize⟩

end State

end Remon.Buffer
