import Remon.Node.Server

/-! # Many tenants on one memory node

Every connection has a worker with a number `tid`. The numbers of workers that exited
are used again, the last one first. `contextInit` on the main connection of a client
creates a context under the number of that worker, which is the key of the session, and
`contextRegister` maps the number of another worker to a key. A request for pods looks
up the key of its worker, then the context of that key, and uses the context outside of
`contextMutex`. Looking up a context that is not there dereferences the end of the map.
-/

namespace Remon.Node
open Function List

/-- A connection of a client: its main connection has the serial number 0. -/
structure Conn where
  client : ℕ
  serial : ℕ
  deriving DecidableEq, Repr

namespace Tenants

/-- What the handler of a connection is doing; `mapped` is the result of `contextTid` and
`context` the object that the handler has a pointer to. -/
inductive Phase where
  | idle
  | mapping
  | finding (mapped : Option ℕ)
  | serving (context : ℕ)
  deriving DecidableEq, Repr

inductive Worker where
  | unopened
  | active (tid : ℕ) (phase : Phase)
  | closed
  deriving DecidableEq, Repr

inductive Act where
  | accept
  | contextInit
  | contextRegister
  | request
  | contextTid
  | find
  | use (a : Node.Act)
  | finish
  | disconnect
  deriving DecidableEq, Repr

structure State where
  tidSlots : List ℕ
  largestTid : ℕ
  contextsByTid : ℕ → Option ℕ
  workerToContextTid : ℕ → Option ℕ
  /-- The contexts that are not deleted. -/
  stores : ℕ → Option Server
  /-- The client whose request created the context. -/
  creator : ℕ → Option ℕ
  nextContext : ℕ
  workers : Conn → Worker
  /-- The session keys that the clients were given. -/
  keys : ℕ → Option ℕ
  /-- The connections whose registration was acknowledged. -/
  registered : Conn → Bool
  /-- Which client used which context, the latest use first. -/
  uses : List (ℕ × ℕ)
  crashed : Bool

namespace State

def init : State where
  tidSlots := []
  largestTid := 0
  contextsByTid _ := none
  workerToContextTid _ := none
  stores _ := none
  creator _ := none
  nextContext := 0
  workers _ := .unopened
  keys _ := none
  registered _ := false
  uses := []
  crashed := false

variable (s : State) (c : Conn)

def setWorker (x : Worker) : State := { s with workers := update s.workers c x }

def assignTid : ℕ × State :=
  match s.tidSlots with
  | [] => (s.largestTid, { s with largestTid := s.largestTid + 1 })
  | tid :: rest => (tid, { s with tidSlots := rest })

def returnTidToList (tid : ℕ) : State := { s with tidSlots := tid :: s.tidSlots }

/-- A new context; the map keeps the one it has under the number already. -/
def initContext (tid client : ℕ) : State :=
  { s with
    contextsByTid := if s.contextsByTid tid = none
      then update s.contextsByTid tid (some s.nextContext) else s.contextsByTid
    stores := update s.stores s.nextContext (some .empty)
    creator := update s.creator s.nextContext (some client)
    nextContext := s.nextContext + 1 }

def freeHook (tid : ℕ) : State :=
  let s := match s.contextsByTid tid with
    | none => s
    | some o =>
      { s with
        stores := update s.stores o none
        contextsByTid := update s.contextsByTid tid none }
  { s with workerToContextTid := update s.workerToContextTid tid none }.returnTidToList tid

def crash : State := { s with crashed := true }

/-- One step for the connection `c`; `none` when it is not possible. A client opens each of
its connections once, calls `contextInit` once and on its main connection, and uses a worker
connection for requests after it was registered with the key of the client. -/
def step : Act → Option State
  | .accept =>
    match s.workers c with
    | .unopened => some (s.assignTid.2.setWorker c (.active s.assignTid.1 .idle))
    | _ => none
  | .contextInit =>
    match s.workers c with
    | .active tid .idle =>
      if c.serial = 0 ∧ s.keys c.client = none then
        let s' := s.initContext tid c.client
        some { s' with keys := update s'.keys c.client (some tid) }
      else none
    | _ => none
  | .contextRegister =>
    match s.workers c, s.keys c.client with
    | .active tid .idle, some mapTo =>
      if c.serial = 0 then none
      else some { s with
        workerToContextTid := if s.workerToContextTid tid = none
          then update s.workerToContextTid tid (some mapTo) else s.workerToContextTid
        registered := update s.registered c true }
    | _, _ => none
  | .request =>
    match s.workers c with
    | .active tid .idle =>
      if s.registered c then some (s.setWorker c (.active tid .mapping)) else none
    | _ => none
  | .contextTid =>
    match s.workers c with
    | .active tid .mapping =>
      some (s.setWorker c (.active tid (.finding (s.workerToContextTid tid))))
    | _ => none
  | .find =>
    match s.workers c with
    | .active tid (.finding mapped) =>
      match mapped.bind s.contextsByTid with
      | none => some s.crash
      | some o => some (s.setWorker c (.active tid (.serving o)))
    | _ => none
  | .use a =>
    match s.workers c with
    | .active _ (.serving o) =>
      match s.stores o with
      | none => some s.crash
      | some store => (store.step c.serial a).map fun store' =>
          { s with
            stores := update s.stores o (some store')
            uses := (c.client, o) :: s.uses }
    | _ => none
  | .finish =>
    match s.workers c with
    | .active tid (.serving _) => some (s.setWorker c (.active tid .idle))
    | _ => none
  | .disconnect =>
    match s.workers c with
    | .active tid .idle => some ((s.freeHook tid).setWorker c .closed)
    | _ => none

inductive Reachable : State → Prop
  | init : Reachable init
  | step {s s' : State} (hs : Reachable s) (c : Conn) (a : Act) (hc : s.crashed = false)
      (run : s.step c a = some s') : Reachable s'

/-- The connection `c` has a worker. -/
def Active (c : Conn) (tid : ℕ) : Prop := ∃ phase, s.workers c = .active tid phase

/-- A client closes its main connection after all the others, and registers a connection only
while the main one is open. -/
def Orderly (c : Conn) : Act → Prop
  | .disconnect => c.serial = 0 → ∀ d tid, d.client = c.client → s.Active d tid → d = c
  | .contextRegister => ∃ tid, s.Active ⟨c.client, 0⟩ tid
  | _ => True

inductive OrderlyRun : State → Prop
  | init : OrderlyRun init
  | step {s s' : State} (hs : OrderlyRun s) (c : Conn) (a : Act) (hc : s.crashed = false)
      (ho : s.Orderly c a) (run : s.step c a = some s') : OrderlyRun s'

variable {s} {s' : State} {c d : Conn} {t u : ℕ}

theorem Active.unique (h : s.Active c t) (h' : s.Active c u) : t = u := by
  obtain ⟨p, hp⟩ := h
  obtain ⟨q, hq⟩ := h'
  rw [hp, Worker.active.injEq] at hq
  exact hq.1

theorem active_of_workers (h : s'.workers = s.workers) : s'.Active = s.Active := by
  funext c t
  rw [Active, Active, h]

theorem active_setWorker {p q : Phase} (h : s.workers c = .active t p) :
    (s.setWorker c (.active t q)).Active = s.Active := by
  funext d u
  change (∃ phase, update s.workers c (.active t q) d = .active u phase) = _
  by_cases hd : d = c
  · subst hd
    simp [Active, h]
  · rw [update_of_ne hd]
    rfl

theorem unopened_of_setWorker {x : Worker} (h : (s.setWorker c x).workers d = .unopened)
    (hx : x ≠ .unopened) : s.workers d = .unopened := by
  change update s.workers c x d = .unopened at h
  by_cases hd : d = c
  · rw [hd, update_self] at h
    exact absurd h hx
  · rwa [update_of_ne hd] at h

/-! ## Numbers of workers -/

/-- The numbers in use and the free ones are apart and below the next new one. -/
structure Tids (s : State) : Prop where
  nodup : s.tidSlots.Nodup
  slot_lt : ∀ t ∈ s.tidSlots, t < s.largestTid
  active_lt : ∀ c t, s.Active c t → t < s.largestTid
  active_not_slot : ∀ c t, s.Active c t → t ∉ s.tidSlots
  distinct : ∀ c d t, s.Active c t → s.Active d t → c = d

theorem Tids.congr (h : Tids s) (hslots : s'.tidSlots = s.tidSlots)
    (hlargest : s'.largestTid = s.largestTid) (ha : s'.Active = s.Active) : Tids s' := by
  refine ⟨?_, ?_, ?_, ?_, ?_⟩ <;> simp only [hslots, hlargest, ha]
  · exact h.nodup
  · exact h.slot_lt
  · exact h.active_lt
  · exact h.active_not_slot
  · exact h.distinct

/-- The number that is assigned is in no use. -/
theorem Tids.assignTid (h : Tids s) :
    Tids s.assignTid.2 ∧ s.assignTid.1 < s.assignTid.2.largestTid ∧
      s.assignTid.1 ∉ s.assignTid.2.tidSlots ∧ ∀ c, ¬ s.Active c s.assignTid.1 := by
  cases hs : s.tidSlots with
  | nil =>
    have he : s.assignTid = (s.largestTid, { s with largestTid := s.largestTid + 1 }) := by
      simp only [State.assignTid, hs]
    rw [he]
    refine ⟨⟨h.nodup, ?_, ?_, h.active_not_slot, h.distinct⟩, Nat.lt_succ_self _, ?_, ?_⟩
    · exact fun t ht => (h.slot_lt t ht).trans (Nat.lt_succ_self _)
    · exact fun c t ht => (h.active_lt c t ht).trans (Nat.lt_succ_self _)
    · exact fun hm => lt_irrefl _ (h.slot_lt _ hm)
    · exact fun c hc => lt_irrefl _ (h.active_lt c _ hc)
  | cons t rest =>
    have he : s.assignTid = (t, { s with tidSlots := rest }) := by
      simp only [State.assignTid, hs]
    have hn := h.nodup
    have hlt := h.slot_lt
    have hna := h.active_not_slot
    rw [hs] at hn hlt hna
    rw [he]
    refine ⟨⟨hn.of_cons, ?_, h.active_lt, ?_, h.distinct⟩, ?_, ?_, ?_⟩
    · exact fun u hu => hlt u (mem_cons_of_mem _ hu)
    · exact fun c u hu hm => hna c u hu (mem_cons_of_mem _ hm)
    · exact hlt t mem_cons_self
    · exact (nodup_cons.mp hn).1
    · exact fun c hc => hna c t hc mem_cons_self

theorem active_accept (h : s.workers c = .unopened) :
    (s.setWorker c (.active t .idle)).Active d u ↔ (d = c ∧ u = t) ∨ s.Active d u := by
  change (∃ phase, update s.workers c (.active t .idle) d = .active u phase) ↔ _
  by_cases hd : d = c
  · subst hd
    simp [Active, h, eq_comm]
  · rw [update_of_ne hd]
    simp [Active, hd]

theorem active_close :
    (s.setWorker c .closed).Active d u ↔ d ≠ c ∧ s.Active d u := by
  change (∃ phase, update s.workers c .closed d = .active u phase) ↔ _
  by_cases hd : d = c
  · simp [hd]
  · rw [update_of_ne hd]
    simp [Active, hd]

@[simp] theorem assignTid_workers : s.assignTid.2.workers = s.workers := by
  unfold assignTid
  split <;> rfl

theorem Tids.accept (h : Tids s) (hc : s.workers c = .unopened) :
    Tids (s.assignTid.2.setWorker c (.active s.assignTid.1 .idle)) := by
  obtain ⟨ht, hlt, hslot, hfree⟩ := h.assignTid
  have hc' : s.assignTid.2.workers c = .unopened := by rw [assignTid_workers, hc]
  have hact : ∀ d, ¬ s.assignTid.2.Active d s.assignTid.1 := by
    rw [active_of_workers assignTid_workers]
    exact hfree
  refine ⟨ht.nodup, ht.slot_lt, ?_, ?_, ?_⟩
  · intro d u hu
    rcases (active_accept hc').mp hu with ⟨-, rfl⟩ | hu
    · exact hlt
    · exact ht.active_lt d u hu
  · intro d u hu
    rcases (active_accept hc').mp hu with ⟨-, rfl⟩ | hu
    · exact hslot
    · exact ht.active_not_slot d u hu
  · intro d e u hd he
    rcases (active_accept hc').mp hd with ⟨h1, hu⟩ | h1 <;>
      rcases (active_accept hc').mp he with ⟨h2, hu'⟩ | h2
    · rw [h1, h2]
    · exact absurd (hu ▸ h2) (hact e)
    · exact absurd (hu' ▸ h1) (hact d)
    · exact ht.distinct d e u h1 h2

section FreeHook

variable (s t)

theorem freeHook_contexts :
    (s.freeHook t).contextsByTid = update s.contextsByTid t none := by
  unfold freeHook
  split
  next h => exact (h ▸ update_eq_self t s.contextsByTid).symm
  next => rfl

theorem freeHook_stores {o : ℕ} (h : s.contextsByTid t ≠ some o) :
    (s.freeHook t).stores o = s.stores o := by
  unfold freeHook
  split
  next => rfl
  next o' h' =>
    apply update_of_ne
    rintro rfl
    exact h h'

theorem freeHook_rest : ∃ stores contexts, s.freeHook t = { s with
    stores := stores
    contextsByTid := contexts
    workerToContextTid := update s.workerToContextTid t none
    tidSlots := t :: s.tidSlots } := by
  unfold freeHook
  split <;> exact ⟨_, _, rfl⟩

@[simp] theorem freeHook_workers : (s.freeHook t).workers = s.workers := by
  obtain ⟨_, _, he⟩ := freeHook_rest s t
  rw [he]

theorem freeHook_tidSlots : (s.freeHook t).tidSlots = t :: s.tidSlots := by
  obtain ⟨_, _, he⟩ := freeHook_rest s t
  rw [he]

theorem freeHook_largestTid : (s.freeHook t).largestTid = s.largestTid := by
  obtain ⟨_, _, he⟩ := freeHook_rest s t
  rw [he]

end FreeHook

theorem Tids.disconnect (h : Tids s) (hc : s.Active c t) :
    Tids ((s.freeHook t).setWorker c .closed) := by
  have ha : (s.freeHook t).Active = s.Active := active_of_workers (freeHook_workers s t)
  have hslots := freeHook_tidSlots s t
  have hl := freeHook_largestTid s t
  refine ⟨?_, ?_, ?_, ?_, ?_⟩
  · change (s.freeHook t).tidSlots.Nodup
    rw [hslots]
    exact nodup_cons.mpr ⟨h.active_not_slot c t hc, h.nodup⟩
  · change ∀ u ∈ (s.freeHook t).tidSlots, u < (s.freeHook t).largestTid
    rw [hslots, hl]
    intro u hu
    rcases mem_cons.mp hu with rfl | hu
    · exact h.active_lt c u hc
    · exact h.slot_lt u hu
  · intro d u hd
    change u < (s.freeHook t).largestTid
    rw [active_close, ha] at hd
    rw [hl]
    exact h.active_lt d u hd.2
  · intro d u hd
    change u ∉ (s.freeHook t).tidSlots
    rw [active_close, ha] at hd
    rw [hslots, mem_cons, not_or]
    refine ⟨?_, h.active_not_slot d u hd.2⟩
    rintro rfl
    exact hd.1 (h.distinct d c u hd.2 hc)
  · intro d e u hd hu
    rw [active_close, ha] at hd hu
    exact h.distinct d e u hd.2 hu.2

theorem tids_step {a : Act} (h : Tids s) (run : s.step c a = some s') : Tids s' := by
  cases a with
  | accept =>
    cases hw : s.workers c <;> simp only [step, hw] at run <;> cases run
    exact h.accept hw
  | disconnect =>
    simp only [step] at run
    split at run
    next tid hw => cases run; exact h.disconnect ⟨_, hw⟩
    next => cases run
  | contextInit | contextRegister =>
    simp only [step] at run
    split at run
    next => split at run <;> cases run; exact h.congr rfl rfl rfl
    next => cases run
  | request =>
    simp only [step] at run
    split at run
    next tid hw => split at run <;> cases run; exact h.congr rfl rfl (active_setWorker hw)
    next => cases run
  | contextTid =>
    simp only [step] at run
    split at run
    next tid hw => cases run; exact h.congr rfl rfl (active_setWorker hw)
    next => cases run
  | find =>
    simp only [step] at run
    split at run
    next tid mapped hw =>
      split at run <;> cases run
      · exact h.congr rfl rfl rfl
      · exact h.congr rfl rfl (active_setWorker hw)
    next => cases run
  | use a =>
    simp only [step] at run
    split at run
    next =>
      split at run
      next => cases run; exact h.congr rfl rfl rfl
      next =>
        obtain ⟨store, -, rfl⟩ := Option.map_eq_some_iff.mp run
        exact h.congr rfl rfl rfl
    next => cases run
  | finish =>
    simp only [step] at run
    split at run
    next tid o hw => cases run; exact h.congr rfl rfl (active_setWorker hw)
    next => cases run

theorem tids_init : Tids init := by
  refine ⟨?_, ?_, ?_, ?_, ?_⟩ <;> simp [init, Active]

theorem tids_reachable (hs : Reachable s) : Tids s := by
  induction hs with
  | init => exact tids_init
  | step _ c a _ run ih => exact tids_step ih run

/-! ## The sessions of the clients -/

def PhaseOk (s : State) (c : Conn) : Phase → Prop
  | .idle => True
  | .mapping => s.registered c = true
  | .finding mapped => ∃ k, mapped = some k ∧ s.Active ⟨c.client, 0⟩ k ∧ s.keys c.client = some k
  | .serving o => ∃ k, s.Active ⟨c.client, 0⟩ k ∧ s.contextsByTid k = some o

/-- A context stands under the number of the main worker of the client that created it, and a
worker is mapped to the main worker of its client. -/
structure Inv (s : State) : Prop where
  tids : Tids s
  running : s.crashed = false
  context : ∀ t o, s.contextsByTid t = some o →
    ∃ x, s.Active ⟨x, 0⟩ t ∧ s.keys x = some t ∧ s.creator o = some x ∧ s.stores o ≠ none
  key : ∀ x t k, s.Active ⟨x, 0⟩ t → s.keys x = some k → k = t ∧ s.contextsByTid t ≠ none
  mapped : ∀ w k, s.workerToContextTid w = some k →
    ∃ c, s.Active c w ∧ c.serial ≠ 0 ∧ s.Active ⟨c.client, 0⟩ k ∧ s.keys c.client = some k
  known : ∀ c w, s.Active c w → s.registered c = true → s.workerToContextTid w ≠ none
  phase : ∀ c w p, s.workers c = .active w p → s.PhaseOk c p
  uses : ∀ x o, (x, o) ∈ s.uses → s.creator o = some x
  fresh : ∀ o, s.creator o ≠ none → o < s.nextContext
  unkeyed : ∀ x, s.workers ⟨x, 0⟩ = .unopened → s.keys x = none
  unregistered : ∀ c, s.workers c = .unopened → s.registered c = false

theorem inv_init : Inv init := by
  refine ⟨tids_init, ?_, ?_, ?_, ?_, ?_, ?_, ?_, ?_, ?_, ?_⟩ <;> simp [init, Active]

/-- The handler of `c` goes on to a point that its client may rely on. -/
theorem Inv.setPhase {p q : Phase} (h : Inv s) (hc : s.workers c = .active t p)
    (hq : s.PhaseOk c q) : Inv (s.setWorker c (.active t q)) := by
  have ha := active_setWorker (q := q) hc
  refine ⟨h.tids.congr rfl rfl ha, h.running, ?_, ?_, ?_, ?_, ?_, h.uses, h.fresh, ?_, ?_⟩
  · rw [ha]
    exact h.context
  · rw [ha]
    exact h.key
  · rw [ha]
    exact h.mapped
  · rw [ha]
    exact h.known
  · intro d w r hd
    have hok : s.PhaseOk d r := by
      change update s.workers c (.active t q) d = .active w r at hd
      by_cases he : d = c
      · rw [he, update_self, Worker.active.injEq] at hd
        rw [he, ← hd.2]
        exact hq
      · rw [update_of_ne he] at hd
        exact h.phase d w r hd
    cases r with
    | idle => trivial
    | mapping => exact hok
    | finding m =>
      rw [PhaseOk, ha]
      exact hok
    | serving o =>
      rw [PhaseOk, ha]
      exact hok
  · exact fun x hx => h.unkeyed x (unopened_of_setWorker hx nofun)
  · exact fun d hd => h.unregistered d (unopened_of_setWorker hd nofun)

theorem Inv.mapped_of_registered (h : Inv s) (hc : s.Active c t) (hr : s.registered c = true) :
    s.PhaseOk c (.finding (s.workerToContextTid t)) := by
  obtain ⟨k, hk⟩ := Option.ne_none_iff_exists'.mp (h.known c t hc hr)
  obtain ⟨d, hd, -, hmain, hkey⟩ := h.mapped t k hk
  obtain rfl := h.tids.distinct c d t hc hd
  exact ⟨k, hk, hmain, hkey⟩

theorem Inv.context_of_found (h : Inv s) {mapped : Option ℕ} (hf : s.PhaseOk c (.finding mapped)) :
    ∃ o, mapped.bind s.contextsByTid = some o ∧ s.PhaseOk c (.serving o) := by
  obtain ⟨k, rfl, hmain, hkey⟩ := hf
  obtain ⟨o, ho⟩ := Option.ne_none_iff_exists'.mp (h.key _ k k hmain hkey).2
  exact ⟨o, ho, k, hmain, ho⟩

theorem Inv.own_context (h : Inv s) {o : ℕ} (hs : s.PhaseOk c (.serving o)) :
    s.creator o = some c.client ∧ s.stores o ≠ none := by
  obtain ⟨k, hmain, ho⟩ := hs
  obtain ⟨x, hx, -, hcr, hst⟩ := h.context k o ho
  have he := h.tids.distinct _ _ k hmain hx
  rw [Conn.mk.injEq] at he
  rw [he.1]
  exact ⟨hcr, hst⟩

theorem assignTid_rest (s : State) : ∃ slots largest,
    s.assignTid.2 = { s with tidSlots := slots, largestTid := largest } := by
  unfold assignTid
  split <;> exact ⟨_, _, rfl⟩

theorem Inv.accept (h : Inv s) (hc : s.workers c = .unopened) :
    Inv (s.assignTid.2.setWorker c (.active s.assignTid.1 .idle)) := by
  have htids := h.tids.accept hc
  obtain ⟨slots, largest, he⟩ := assignTid_rest s
  rw [he] at htids ⊢
  generalize s.assignTid.1 = t at htids ⊢
  have ha : ∀ d u, ({ s with tidSlots := slots, largestTid := largest }.setWorker c
      (.active t .idle)).Active d u ↔ (d = c ∧ u = t) ∨ s.Active d u :=
    fun d u => active_accept (s := { s with tidSlots := slots, largestTid := largest }) hc
  refine ⟨htids, h.running, ?_, ?_, ?_, ?_, ?_, h.uses, h.fresh, ?_, ?_⟩
  · intro u o ho
    obtain ⟨x, hx, hrest⟩ := h.context u o ho
    exact ⟨x, (ha _ _).mpr (.inr hx), hrest⟩
  · intro x u k hx hk
    rcases (ha _ _).mp hx with ⟨hxc, -⟩ | hx
    · have := h.unkeyed x (hxc ▸ hc)
      rw [show s.keys x = some k from hk] at this
      cases this
    · exact h.key x u k hx hk
  · intro w k hw
    obtain ⟨d, hd, hs, hmain, hkey⟩ := h.mapped w k hw
    exact ⟨d, (ha _ _).mpr (.inr hd), hs, (ha _ _).mpr (.inr hmain), hkey⟩
  · intro d w hd hr
    rcases (ha _ _).mp hd with ⟨rfl, -⟩ | hd
    · have := h.unregistered d hc
      rw [show s.registered d = true from hr] at this
      cases this
    · exact h.known d w hd hr
  · intro d w p hd
    change update s.workers c (.active t .idle) d = .active w p at hd
    by_cases hdc : d = c
    · rw [hdc, update_self, Worker.active.injEq] at hd
      rw [← hd.2]
      trivial
    · rw [update_of_ne hdc] at hd
      have hok := h.phase d w p hd
      cases p with
      | idle => trivial
      | mapping => exact hok
      | finding m =>
        obtain ⟨k, hm, hmain, hkey⟩ := hok
        exact ⟨k, hm, (ha _ _).mpr (.inr hmain), hkey⟩
      | serving o =>
        obtain ⟨k, hmain, ho⟩ := hok
        exact ⟨k, (ha _ _).mpr (.inr hmain), ho⟩
  · exact fun x hx => h.unkeyed x (unopened_of_setWorker hx nofun)
  · exact fun d hd => h.unregistered d (unopened_of_setWorker hd nofun)

/-- A client that has no key yet gets a context of its own. -/
theorem Inv.contextInit {x : ℕ} (h : Inv s) (hc : s.Active ⟨x, 0⟩ t) (hk : s.keys x = none) :
    Inv { s.initContext t x with keys := update s.keys x (some t) } := by
  have hfree : s.contextsByTid t = none := by
    by_contra hne
    obtain ⟨o, ho⟩ := Option.ne_none_iff_exists'.mp hne
    obtain ⟨y, hy, hky, -⟩ := h.context t o ho
    have he := h.tids.distinct _ _ t hc hy
    rw [Conn.mk.injEq] at he
    rw [← he.1, hk] at hky
    cases hky
  have hother : ∀ y k, s.keys y = some k →
      update s.keys x (some t) y = some k := by
    intro y k hy
    rw [update_of_ne ?_, hy]
    rintro rfl
    rw [hk] at hy
    cases hy
  have hctx : ∀ u o, s.contextsByTid u = some o →
      update s.contextsByTid t (some s.nextContext) u = some o := by
    intro u o ho
    rw [update_of_ne ?_, ho]
    rintro rfl
    rw [hfree] at ho
    cases ho
  have hold : ∀ o, s.creator o ≠ none → o ≠ s.nextContext := fun o ho => (h.fresh o ho).ne
  rw [initContext, if_pos hfree]
  refine ⟨h.tids.congr rfl rfl rfl, h.running, ?_, ?_, ?_, h.known, ?_, ?_, ?_, ?_, h.unregistered⟩
  · intro u o ho
    change update s.contextsByTid t (some s.nextContext) u = some o at ho
    by_cases hu : u = t
    · rw [hu, update_self, Option.some.injEq] at ho
      refine ⟨x, hu ▸ hc, ?_, ?_, ?_⟩
      · rw [hu]
        exact update_self x (some t) s.keys
      · rw [← ho]
        exact update_self s.nextContext (some x) s.creator
      · change update s.stores s.nextContext (some .empty) o ≠ none
        rw [← ho, update_self]
        simp
    · rw [update_of_ne hu] at ho
      obtain ⟨y, hy, hky, hcr, hst⟩ := h.context u o ho
      have hne := hold o (by simp [hcr])
      refine ⟨y, hy, hother y u hky, ?_, ?_⟩
      · exact (update_of_ne hne _ _).trans hcr
      · exact fun hn => hst ((update_of_ne hne _ _).symm.trans hn)
  · intro y u k hy hky
    change update s.keys x (some t) y = some k at hky
    change k = u ∧ update s.contextsByTid t (some s.nextContext) u ≠ none
    by_cases hyx : y = x
    · rw [hyx, update_self, Option.some.injEq] at hky
      rw [hyx] at hy
      obtain rfl := hc.unique hy
      rw [update_self]
      exact ⟨hky.symm, by simp⟩
    · rw [update_of_ne hyx] at hky
      obtain ⟨hku, hne⟩ := h.key y u k hy hky
      obtain ⟨o, ho⟩ := Option.ne_none_iff_exists'.mp hne
      exact ⟨hku, by simp [hctx u o ho]⟩
  · intro w k hw
    obtain ⟨d, hd, hs, hmain, hkey⟩ := h.mapped w k hw
    exact ⟨d, hd, hs, hmain, hother _ _ hkey⟩
  · intro d w p hd
    have hok := h.phase d w p hd
    cases p with
    | idle => trivial
    | mapping => exact hok
    | finding m =>
      obtain ⟨k, hm, hmain, hkey⟩ := hok
      exact ⟨k, hm, hmain, hother _ _ hkey⟩
    | serving o =>
      obtain ⟨k, hmain, ho⟩ := hok
      exact ⟨k, hmain, hctx k o ho⟩
  · intro y o hy
    have hcr := h.uses y o hy
    exact (update_of_ne (hold o (by simp [hcr])) _ _).trans hcr
  · intro o ho
    change update s.creator s.nextContext (some x) o ≠ none at ho
    change o < s.nextContext + 1
    by_cases he : o = s.nextContext
    · omega
    · rw [update_of_ne he] at ho
      have := h.fresh o ho
      omega
  · intro y hy
    have hyx : y ≠ x := by
      rintro rfl
      obtain ⟨p, hp⟩ := hc
      rw [show s.workers ⟨y, 0⟩ = .unopened from hy] at hp
      cases hp
    exact (update_of_ne hyx _ _).trans (h.unkeyed y hy)

/-- A worker is mapped to the main worker of its client, which is open. -/
theorem Inv.contextRegister {k m : ℕ} (h : Inv s) (hc : s.Active c t) (hs : c.serial ≠ 0)
    (hk : s.keys c.client = some k) (hmain : s.Active ⟨c.client, 0⟩ m) :
    Inv { s with
      workerToContextTid := if s.workerToContextTid t = none
        then update s.workerToContextTid t (some k) else s.workerToContextTid
      registered := update s.registered c true } := by
  have hkm := (h.key _ m k hmain hk).1
  refine ⟨h.tids.congr rfl rfl rfl, h.running, h.context, h.key, ?_, ?_, ?_, h.uses, h.fresh,
    h.unkeyed, ?_⟩
  · intro w j hw
    dsimp only at hw
    split at hw
    · by_cases hwt : w = t
      · rw [hwt, update_self, Option.some.injEq] at hw
        exact ⟨c, hwt ▸ hc, hs, by rw [← hw, hkm]; exact hmain, hw ▸ hk⟩
      · rw [update_of_ne hwt] at hw
        exact h.mapped w j hw
    · exact h.mapped w j hw
  · intro d w hd hr
    dsimp only at hr ⊢
    split
    next hn =>
      by_cases hwt : w = t
      · rw [hwt, update_self]
        simp
      · rw [update_of_ne hwt]
        by_cases hdc : d = c
        · have hd' : s.Active c w := hdc ▸ hd
          exact absurd (hd'.unique hc) hwt
        · rw [update_of_ne hdc] at hr
          exact h.known d w hd hr
    next hne =>
      by_cases hdc : d = c
      · have hd' : s.Active c w := hdc ▸ hd
        rw [hd'.unique hc]
        exact hne
      · rw [update_of_ne hdc] at hr
        exact h.known d w hd hr
  · intro d w p hd
    have hok := h.phase d w p hd
    cases p with
    | mapping =>
      change update s.registered c true d = true
      by_cases hdc : d = c
      · rw [hdc, update_self]
      · rw [update_of_ne hdc]
        exact hok
    | _ => exact hok
  · intro d hd
    change update s.registered c true d = false
    rw [update_of_ne ?_]
    · exact h.unregistered d hd
    · rintro rfl
      obtain ⟨p, hp⟩ := hc
      rw [show s.workers d = .unopened from hd] at hp
      cases hp

/-- A handler that uses the context of its own client. -/
theorem Inv.use {o : ℕ} {store : Server} (h : Inv s) (hs : s.PhaseOk c (.serving o)) :
    Inv { s with
      stores := update s.stores o (some store)
      uses := (c.client, o) :: s.uses } := by
  refine ⟨h.tids.congr rfl rfl rfl, h.running, ?_, h.key, h.mapped, h.known, h.phase, ?_, h.fresh,
    h.unkeyed,
    h.unregistered⟩
  · intro u o' ho
    obtain ⟨x, hx, hkey, hcr, hst⟩ := h.context u o' ho
    refine ⟨x, hx, hkey, hcr, ?_⟩
    change update s.stores o (some store) o' ≠ none
    by_cases he : o' = o
    · rw [he, update_self]
      simp
    · rwa [update_of_ne he]
  · intro x o' hx
    rcases mem_cons.mp hx with hx | hx
    · rw [Prod.mk.injEq] at hx
      rw [hx.1, hx.2]
      exact (h.own_context hs).1
    · exact h.uses x o' hx

/-- A connection is closed while no handler depends on its worker. -/
theorem Inv.disconnect (h : Inv s) (hc : s.workers c = .active t .idle)
    (hfree : ∀ d u, s.Active d u → d ≠ c → (⟨d.client, 0⟩ : Conn) ≠ c) :
    Inv ((s.freeHook t).setWorker c .closed) := by
  have hact : s.Active c t := ⟨_, hc⟩
  have hne : ∀ d u, s.Active d u → d ≠ c → u ≠ t := by
    rintro d u hd hdc rfl
    exact hdc (h.tids.distinct d c u hd hact)
  have ha : ∀ d u, ((s.freeHook t).setWorker c .closed).Active d u ↔ d ≠ c ∧ s.Active d u := by
    intro d u
    rw [active_close, active_of_workers (freeHook_workers s t)]
  have hctx : ∀ u o, ((s.freeHook t).setWorker c .closed).contextsByTid u = some o ↔
      u ≠ t ∧ s.contextsByTid u = some o := by
    intro u o
    change (s.freeHook t).contextsByTid u = some o ↔ _
    rw [freeHook_contexts]
    by_cases hu : u = t
    · simp [hu]
    · rw [update_of_ne hu]
      simp [hu]
  have hmap : ((s.freeHook t).setWorker c .closed).workerToContextTid =
      update s.workerToContextTid t none := by
    obtain ⟨_, _, he⟩ := freeHook_rest s t
    rw [he]
    rfl
  have hrest : ((s.freeHook t).setWorker c .closed).keys = s.keys ∧
      ((s.freeHook t).setWorker c .closed).creator = s.creator ∧
      ((s.freeHook t).setWorker c .closed).registered = s.registered ∧
      ((s.freeHook t).setWorker c .closed).uses = s.uses ∧
      ((s.freeHook t).setWorker c .closed).nextContext = s.nextContext ∧
      ((s.freeHook t).setWorker c .closed).crashed = s.crashed := by
    obtain ⟨_, _, he⟩ := freeHook_rest s t
    rw [he]
    exact ⟨rfl, rfl, rfl, rfl, rfl, rfl⟩
  obtain ⟨hkeys, hcreator, hreg, huses, hnext, hcrash⟩ := hrest
  refine ⟨h.tids.disconnect hact, by rw [hcrash, h.running], ?_, ?_, ?_, ?_, ?_, ?_, ?_, ?_, ?_⟩
  · intro u o ho
    obtain ⟨hu, ho⟩ := (hctx u o).mp ho
    obtain ⟨x, hx, hkey, hcr, hst⟩ := h.context u o ho
    have hxc : (⟨x, 0⟩ : Conn) ≠ c := by
      rintro rfl
      exact hu (hx.unique hact)
    refine ⟨x, (ha _ _).mpr ⟨hxc, hx⟩, by rw [hkeys, hkey], by rw [hcreator, hcr], ?_⟩
    change (s.freeHook t).stores o ≠ none
    rw [freeHook_stores]
    · exact hst
    · -- the context of another main worker has another creator
      intro ho'
      obtain ⟨y, hy, -, hcr', -⟩ := h.context t o ho'
      rw [hcr, Option.some.injEq] at hcr'
      exact hu (hx.unique (hcr' ▸ hy))
  · intro x u k hx hk
    obtain ⟨hxc, hx⟩ := (ha _ _).mp hx
    rw [hkeys] at hk
    obtain ⟨hku, hn⟩ := h.key x u k hx hk
    obtain ⟨o, ho⟩ := Option.ne_none_iff_exists'.mp hn
    refine ⟨hku, ?_⟩
    rw [(hctx u o).mpr ⟨hne _ u hx hxc, ho⟩]
    simp
  · intro w k hw
    rw [hmap] at hw
    have hwt : w ≠ t := by
      rintro rfl
      simp at hw
    rw [update_of_ne hwt] at hw
    obtain ⟨d, hd, hs, hmain, hkey⟩ := h.mapped w k hw
    have hdc : d ≠ c := by
      rintro rfl
      exact hwt (hd.unique hact)
    exact ⟨d, (ha _ _).mpr ⟨hdc, hd⟩, hs, (ha _ _).mpr ⟨hfree d w hd hdc, hmain⟩,
      by rw [hkeys, hkey]⟩
  · intro d w hd hr
    obtain ⟨hdc, hd⟩ := (ha _ _).mp hd
    rw [hreg] at hr
    rw [hmap, update_of_ne (hne d w hd hdc)]
    exact h.known d w hd hr
  · intro d w p hd
    have hdc : d ≠ c := by
      rintro rfl
      simp [setWorker] at hd
    have hd' : s.workers d = .active w p := by
      rw [setWorker, freeHook_workers] at hd
      exact (update_of_ne hdc _ _).symm.trans hd
    have hmain' : ∀ k, s.Active ⟨d.client, 0⟩ k →
        ((s.freeHook t).setWorker c .closed).Active ⟨d.client, 0⟩ k :=
      fun k hk => (ha _ _).mpr ⟨hfree d w ⟨p, hd'⟩ hdc, hk⟩
    have hok := h.phase d w p hd'
    cases p with
    | idle => trivial
    | mapping =>
      rw [PhaseOk, hreg]
      exact hok
    | finding m =>
      obtain ⟨k, hm, hmain, hkey⟩ := hok
      exact ⟨k, hm, hmain' k hmain, by rw [hkeys, hkey]⟩
    | serving o =>
      obtain ⟨k, hmain, ho⟩ := hok
      have hk : k ≠ t := hne _ k hmain (hfree d w ⟨_, hd'⟩ hdc)
      exact ⟨k, hmain' k hmain, (hctx k o).mpr ⟨hk, ho⟩⟩
  · rw [huses, hcreator]
    exact h.uses
  · rw [hcreator, hnext]
    exact h.fresh
  · intro x hx
    have := unopened_of_setWorker hx nofun
    rw [freeHook_workers] at this
    rw [hkeys]
    exact h.unkeyed x this
  · intro d hd
    have := unopened_of_setWorker hd nofun
    rw [freeHook_workers] at this
    rw [hreg]
    exact h.unregistered d this

/-- The worker of a connection that nobody uses, and the main worker of a client that has no
other, are no main worker of another connection. -/
theorem Orderly.apart (ho : s.Orderly c .disconnect) (hd : s.Active d u) (hdc : d ≠ c) :
    (⟨d.client, 0⟩ : Conn) ≠ c := by
  rintro rfl
  exact hdc (ho rfl d u rfl hd)

theorem inv_step {a : Act} (h : Inv s) (ho : s.Orderly c a) (run : s.step c a = some s') :
    Inv s' := by
  cases a with
  | accept =>
    cases hw : s.workers c <;> simp only [step, hw] at run <;> cases run
    exact h.accept hw
  | contextInit =>
    simp only [step] at run
    split at run
    next tid hw =>
      split at run
      next hg =>
        cases run
        obtain ⟨x, n⟩ := c
        obtain ⟨rfl, hk⟩ := hg
        exact h.contextInit ⟨_, hw⟩ hk
      next => cases run
    next => cases run
  | contextRegister =>
    simp only [step] at run
    split at run
    next tid mapTo hw hk =>
      split at run
      next => cases run
      next hs =>
        cases run
        obtain ⟨m, hm⟩ := ho
        exact h.contextRegister ⟨_, hw⟩ hs hk hm
    next => cases run
  | request =>
    simp only [step] at run
    split at run
    next tid hw =>
      split at run
      next hr => cases run; exact h.setPhase hw hr
      next => cases run
    next => cases run
  | contextTid =>
    simp only [step] at run
    split at run
    next tid hw =>
      cases run
      exact h.setPhase hw (h.mapped_of_registered ⟨_, hw⟩ (h.phase _ _ _ hw))
    next => cases run
  | find =>
    simp only [step] at run
    split at run
    next tid mapped hw =>
      obtain ⟨o, hfound, hok⟩ := h.context_of_found (h.phase _ _ _ hw)
      simp only [hfound] at run
      cases run
      exact h.setPhase hw hok
    next => cases run
  | use a =>
    simp only [step] at run
    split at run
    next tid o hw =>
      have hok := h.phase _ _ _ hw
      obtain ⟨store, hst⟩ := Option.ne_none_iff_exists'.mp (h.own_context hok).2
      simp only [hst, Option.map_eq_some_iff] at run
      obtain ⟨store', -, rfl⟩ := run
      exact h.use hok
    next => cases run
  | finish =>
    simp only [step] at run
    split at run
    next tid o hw => cases run; exact h.setPhase hw trivial
    next => cases run
  | disconnect =>
    simp only [step] at run
    split at run
    next tid hw =>
      cases run
      exact h.disconnect hw (fun d u hd hdc => ho.apart hd hdc)
    next => cases run

theorem inv_orderlyRun (hs : OrderlyRun s) : Inv s := by
  induction hs with
  | init => exact inv_init
  | step _ c a _ ho run ih => exact inv_step ih ho run

/-- A step on a connection leaves the contexts of the other clients alone. -/
theorem Inv.stores_step {a : Act} {o : ℕ} (h : Inv s) (run : s.step c a = some s')
    (hex : s.creator o ≠ none) (hother : s.creator o ≠ some c.client) :
    s'.stores o = s.stores o := by
  cases a with
  | accept =>
    cases hw : s.workers c <;> simp only [step, hw] at run <;> cases run
    obtain ⟨slots, largest, he⟩ := assignTid_rest s
    rw [he]
    rfl
  | contextInit =>
    simp only [step] at run
    split at run
    next =>
      split at run <;> cases run
      exact update_of_ne (h.fresh o hex).ne _ _
    next => cases run
  | contextRegister | request =>
    simp only [step] at run
    split at run
    next => split at run <;> cases run; rfl
    next => cases run
  | contextTid | finish =>
    simp only [step] at run
    split at run <;> cases run
    rfl
  | find =>
    simp only [step] at run
    split at run
    next => split at run <;> cases run <;> rfl
    next => cases run
  | use a =>
    simp only [step] at run
    split at run
    next tid o' hw =>
      split at run
      next => cases run; rfl
      next =>
        obtain ⟨store', -, rfl⟩ := Option.map_eq_some_iff.mp run
        apply update_of_ne
        rintro rfl
        exact hother (h.own_context (h.phase _ _ _ hw)).1
    next => cases run
  | disconnect =>
    simp only [step] at run
    split at run
    next tid hw =>
      cases run
      apply freeHook_stores
      intro ho
      obtain ⟨x, hx, -, hcr, -⟩ := h.context tid o ho
      obtain rfl := h.tids.distinct _ c tid hx ⟨_, hw⟩
      exact hother hcr
    next => cases run

/-- Workers that are active at the same time have different numbers. If every client closes
its main connection last and registers connections only while it is open, no lookup fails,
every context that was used for a client was created by it, and no step for a client changes
a context of another one. -/
theorem tenant_isolation (s : State) :
    (Reachable s → ∀ c d t, s.Active c t → s.Active d t → c = d) ∧
    (OrderlyRun s → s.crashed = false ∧
      (∀ x o, (x, o) ∈ s.uses → s.creator o = some x) ∧
      ∀ c a s', s.step c a = some s' → ∀ o, s.creator o ≠ none →
        s.creator o ≠ some c.client → s'.stores o = s.stores o) := by
  refine ⟨fun hs => (tids_reachable hs).distinct, ?_⟩
  intro hs
  have h := inv_orderlyRun hs
  exact ⟨h.running, h.uses, fun c a s' run o hex hother => h.stores_step run hex hother⟩

/-- The state after the given steps. -/
def run (s : State) : List (Conn × Act) → Option State
  | [] => some s
  | (c, a) :: l => if s.crashed then none else (s.step c a).bind fun s' => run s' l

theorem reachable_run (l : List (Conn × Act)) {s s' : State} (hs : Reachable s)
    (h : s.run l = some s') : Reachable s' := by
  induction l generalizing s with
  | nil =>
    cases h
    exact hs
  | cons x l ih =>
    obtain ⟨c, a⟩ := x
    simp only [run] at h
    split at h
    · cases h
    next hc =>
      obtain ⟨u, hu, hrun⟩ := Option.bind_eq_some_iff.mp h
      exact ih (.step hs c a (by simpa using hc) hu) hrun

def openSession : List (Conn × Act) :=
  [(⟨0, 0⟩, .accept), (⟨0, 0⟩, .contextInit), (⟨0, 1⟩, .accept), (⟨0, 1⟩, .contextRegister)]

def saveRequest : List (Conn × Act) :=
  [(⟨0, 1⟩, .request), (⟨0, 1⟩, .contextTid), (⟨0, 1⟩, .find), (⟨0, 1⟩, .use (.save "3" [7]))]

def savedState : State := (run init (openSession ++ saveRequest)).getD init

theorem savedState_orderly : OrderlyRun savedState := by
  have h1 := OrderlyRun.init.step ⟨0, 0⟩ .accept rfl trivial rfl
  have h2 := h1.step ⟨0, 0⟩ .contextInit rfl trivial rfl
  have h3 := h2.step ⟨0, 1⟩ .accept rfl trivial rfl
  have h4 := h3.step ⟨0, 1⟩ .contextRegister rfl ⟨0, .idle, rfl⟩ rfl
  have h5 := h4.step ⟨0, 1⟩ .request rfl trivial rfl
  have h6 := h5.step ⟨0, 1⟩ .contextTid rfl trivial rfl
  have h7 := h6.step ⟨0, 1⟩ .find rfl trivial rfl
  exact h7.step ⟨0, 1⟩ (.use (.save "3" [7])) rfl trivial rfl

theorem tenant_isolation_sample : OrderlyRun savedState ∧ savedState.uses = [(0, 0)] ∧
    savedState.creator 0 = some 0 :=
  ⟨savedState_orderly, rfl,
    ((tenant_isolation savedState).2 savedState_orderly).2.1 0 0 mem_cons_self⟩

def takeOver : List (Conn × Act) :=
  [(⟨0, 0⟩, .disconnect), (⟨1, 0⟩, .accept), (⟨1, 0⟩, .contextInit)]

def mixedState : State := (run init (openSession ++ takeOver ++ saveRequest)).getD init

def lateRequest : List (Conn × Act) :=
  [(⟨0, 0⟩, .disconnect), (⟨0, 1⟩, .request), (⟨0, 1⟩, .contextTid), (⟨0, 1⟩, .find)]

def lateState : State := (run init (openSession ++ lateRequest)).getD init

/-- Client 0 saves its pod in the context of client 1; without client 1 its request is not
refused but reads past the end of the map. -/
theorem foreign_context_used : Reachable mixedState ∧ (0, 1) ∈ mixedState.uses ∧
    mixedState.creator 1 = some 1 ∧ Reachable lateState ∧ lateState.crashed = true :=
  ⟨reachable_run (openSession ++ takeOver ++ saveRequest) .init rfl, mem_cons_self, rfl,
    reachable_run (openSession ++ lateRequest) .init rfl, rfl⟩

end State

end Tenants

end Remon.Node
