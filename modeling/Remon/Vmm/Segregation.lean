import Remon.Lib.Registry
import Remon.Lib.Traces
import Remon.Vmm.PageReach
import Remon.Vmm.Reallocate

/-! # Who uses which list

A small request goes to the list that its thread has for its size. `SplMux` and `SPLBundle` look
the list up, each under its own mutex, and make it at the first request; between the two and
before the list is asked other threads go on.
-/

namespace Remon
open Function Lib Heap Fault List

/-- Where a thread is in its small request. -/
inductive Stage where
  | idle
  /-- `splGet` returned the bundle `b`. -/
  | bundle (b size : ℕ)
  /-- `getSplBasedOnSize` returned the list `l`. -/
  | list (l size : ℕ)
  /-- The list `l` had no room, and the thread is on its way to the buffer. -/
  | waits (l : ℕ)
  deriving DecidableEq, Repr

/-- The threads in front of the manager. -/
structure Front where
  splMap : Registry ℕ
  /-- the lists of all bundles -/
  exactSizeMap : Registry (ℕ × ℕ)
  stage : ℕ → Stage
  manager : Manager
  /-- the thread that a small block was given to -/
  requester : Grant → ℕ

namespace Front

inductive Act where
  | splGet (t size : ℕ)
  | getSplBasedOnSize (t : ℕ)
  | allocate (t : ℕ) (ch : Choice)
  | getBufferedPod (t i : ℕ)
  /-- what is not a small request -/
  | other (cmd : Cmd)

variable (c : Setup) (path : ℕ → String) (s : Front)

def new : Front := ⟨.empty, .empty, fun _ => .idle, .new, fun _ => 0⟩

/-- The request of thread `t` left the manager `m`. -/
def served (t : ℕ) (m : Manager) (next : Stage) : Front :=
  { s with
    stage := update s.stage t next
    manager := m
    requester := fun x =>
      if x ∈ m.live.take (m.live.length - s.manager.live.length) then t else s.requester x }

def step : Act → Except Fault Front
  | .splGet t size =>
    let (b, r) := s.splMap.get t
    .ok { s with splMap := r, stage := update s.stage t (.bundle b size) }
  | .getSplBasedOnSize t =>
    match s.stage t with
    | .bundle b size =>
      let (l, r) := s.exactSizeMap.get (b, computeAsize size)
      .ok { s with exactSizeMap := r, stage := update s.stage t (.list l size) }
    | _ => .error .undefined
  | .allocate t ch =>
    match s.stage t with
    | .list l size => do
      let m ← s.manager.step c path (.remonMalloc l size ch)
      return s.served t m (if m.wanting l = none then .idle else .waits l)
    | _ => .error .undefined
  | .getBufferedPod t i =>
    match s.stage t with
    | .waits l => do
      let m ← s.manager.step c path (.getBufferedPod l i)
      return s.served t m .idle
    | _ => .error .undefined
  | .other cmd => do
    let m ← s.manager.step c path cmd
    return { s with manager := m }

/-- A thread makes one request at a time. -/
def Legal : Act → Prop
  | .splGet t size => s.stage t = .idle ∧ isSmall c.pageSize size = true
  | .getSplBasedOnSize t => ∃ b size, s.stage t = .bundle b size
  | .allocate t _ => ∃ l size, s.stage t = .list l size
  | .getBufferedPod t i => (∃ l, s.stage t = .waits l) ∧ i ∈ s.manager.buffered
  | .other cmd => s.manager.Legal c cmd ∧ (∀ l size ch, cmd ≠ .remonMalloc l size ch) ∧
      ∀ l i, cmd ≠ .getBufferedPod l i

/-- The states that legal acts of the threads lead to, in any order. -/
inductive Run : Front → Prop
  | start : Run new
  | step {s s' : Front} {act : Act} (hs : Run s) (hlegal : s.Legal c act)
      (run : s.step c path act = .ok s') : Run s'

/-! ## What the tables say -/

/-- The list `l` is that of thread `t` for blocks of `n` bytes. -/
def Route (t n l : ℕ) : Prop :=
  ∃ b, s.splMap.entry t = some b ∧ s.exactSizeMap.entry (b, n) = some l

variable {c path s} {s' : Front} {t t' n n' l : ℕ} {act : Act}

theorem Route.inj (h : s.Route t n l) (h' : s.Route t' n' l) : t = t' ∧ n = n' := by
  obtain ⟨b, hb, hl⟩ := h
  obtain ⟨b', hb', hl'⟩ := h'
  obtain ⟨rfl, rfl⟩ := Prod.mk.inj (s.exactSizeMap.inj _ _ _ hl hl')
  exact ⟨s.splMap.inj _ _ _ hb hb', rfl⟩

/-- A step makes entries and leaves those that are there. -/
structure Grows (s s' : Front) : Prop where
  splMap : ∀ t b, s.splMap.entry t = some b → s'.splMap.entry t = some b
  exactSizeMap : ∀ k l, s.exactSizeMap.entry k = some l → s'.exactSizeMap.entry k = some l

theorem Grows.route (hg : Grows s s') (h : s.Route t n l) : s'.Route t n l := by
  obtain ⟨b, hb, hl⟩ := h
  exact ⟨b, hg.splMap t b hb, hg.exactSizeMap _ l hl⟩

/-- What the stage of a thread says of the tables and of the manager. -/
def Stands (c : Setup) (s : Front) (t : ℕ) : Stage → Prop
  | .idle => True
  | .bundle b size => s.splMap.entry t = some b ∧ isSmall c.pageSize size = true
  | .list l size => s.Route t (computeAsize size) l ∧ isSmall c.pageSize size = true
  | .waits l => ∃ n, s.Route t n l ∧ s.manager.wanting l = some n

variable (c path s) in
structure Inv : Prop where
  manager : Manager.Run c path (fun _ _ => True) s.manager
  stands : ∀ t, s.Stands c t (s.stage t)
  /-- who waits at a list is a thread on its way to the buffer -/
  waiting : ∀ l, s.manager.wanting l ≠ none → ∃ t, s.stage t = .waits l
  /-- the page of a block is on the list of its requester for blocks of its size -/
  routed : ∀ x ∈ s.manager.live,
    ∃ l, s.Route (s.requester x) x.size l ∧ s.manager.splPushdown x.pod = some l

theorem inv_new : Inv c path new := by
  refine ⟨.start, fun t => trivial, fun l hl => absurd rfl hl, ?_⟩
  exact fun x hx => absurd hx not_mem_nil

/-! ## The steps -/

theorem Stands.grows {st : Stage} (hg : Grows s s')
    (hwait : ∀ l n, st = .waits l → s.Route t n l → s'.manager.wanting l = s.manager.wanting l)
    (h : s.Stands c t st) : s'.Stands c t st := by
  cases st with
  | idle => trivial
  | bundle b size => exact ⟨hg.splMap t b h.1, h.2⟩
  | list l size => exact ⟨hg.route h.1, h.2⟩
  | waits l =>
    obtain ⟨n, hroute, hn⟩ := h
    exact ⟨n, hg.route hroute, (hwait l n rfl hroute).trans hn⟩

end Front

/-! ### What a request does to the manager -/

theorem Session.wanting_addPodAndAllocate {L : ℕ → Layout} {path : ℕ → String} {s s' : Session}
    {l i : ℕ} (run : s.step L path (.addPodAndAllocate l i) = .ok s') :
    s'.wanting = update s.wanting l none := by
  simp only [step] at run
  split at run
  · cases run
  · obtain ⟨⟨ptr, g⟩, -, hs'⟩ := of_bind_ok run
    obtain rfl := Except.ok.inj hs'
    dsimp only
    split
    · rfl
    · exact (grant_cases _ l ptr _).1

namespace Manager

variable {c : Setup} {path : ℕ → String} {m m' : Manager} {cmd : Cmd} {b : Prop} {l i : ℕ}
  {h : ∀ i, AbsHeap (c.L i)}

theorem Inv.home_of_last (hm : m.Inv c path b h) (hlast : (m.lists l).lastAllocatedPod = some i) :
    m.splPushdown i = some l :=
  (hm.session.pager.lists l).filed_mem ((hm.session.pager.lists l).last i hlast).1

end Manager

namespace Front

variable {c : Setup} {path : ℕ → String} {s s' : Front} {t t' n l i : ℕ} {act : Act}
  {m : Manager} {cmd : Cmd}

namespace Inv

variable (hs : s.Inv c path)
include hs

theorem wanting_eq_none {size : ℕ} (hstage : s.stage t = .list l size) :
    s.manager.wanting l = none := by
  by_contra hne
  obtain ⟨u, hu⟩ := hs.waiting l hne
  have ht := hs.stands t
  have hu' := hs.stands u
  rw [hstage] at ht
  rw [hu] at hu'
  obtain ⟨n, hroute, -⟩ := hu'
  obtain ⟨rfl, -⟩ := Route.inj ht.1 hroute
  rw [hstage] at hu
  cases hu

theorem home_stays (hinj : Injective path) (hlegal : s.manager.Legal c cmd)
    (run : s.manager.step c path cmd = .ok m) {x : Grant} (hx : x ∈ s.manager.live) :
    m.splPushdown x.pod = s.manager.splPushdown x.pod := by
  obtain ⟨h, hm⟩ := hs.manager.inv (b := True) hinj (fun _ cmd _ => Manager.sized_true cmd)
  refine (hm.home_step hinj hlegal (Manager.sized_true cmd) run ?_).1
  rintro k rfl
  obtain ⟨l, -, hl⟩ := hs.routed x hx
  have hnone := (hm.homes.buffered x.pod hlegal.2).2.1
  rw [hl] at hnone
  cases hnone

/-- A thread looked something up. -/
theorem lookup {next : Stage} (hg : Grows s s') (hm : s'.manager = s.manager)
    (hreq : s'.requester = s.requester) (hstage : s'.stage = update s.stage t next)
    (hnext : s'.Stands c t next) (hnot : ∀ l, s.stage t ≠ .waits l) : s'.Inv c path := by
  refine ⟨hm ▸ hs.manager, fun u => ?_, fun l hl => ?_, fun x hx => ?_⟩
  · rw [hstage]
    by_cases hu : u = t
    · rw [hu, update_self]
      exact hnext
    · rw [update_of_ne hu]
      exact (hs.stands u).grows hg fun _ _ _ _ => by rw [hm]
  · rw [hm] at hl
    obtain ⟨u, hu⟩ := hs.waiting l hl
    have hut : u ≠ t := by
      rintro rfl
      exact hnot l hu
    refine ⟨u, ?_⟩
    rw [hstage, update_of_ne hut, hu]
  · rw [hm] at hx ⊢
    obtain ⟨l, hroute, hl⟩ := hs.routed x hx
    rw [hreq]
    exact ⟨l, hg.route hroute, hl⟩

/-- A request of thread `t` at its list was served or has to wait. -/
theorem request {next : Stage} (hinj : Injective path)
    (hlegal : s.manager.Legal c cmd) (run : s.manager.step c path cmd = .ok m)
    (hnext : (s.served t m next).Stands c t next) (hroute : s.Route t n l)
    (hstage : ∀ k, s.stage t = .waits k → k = l)
    (hothers : ∀ k, k ≠ l → m.wanting k = s.manager.wanting k)
    (hself : m.wanting l ≠ none → next = .waits l)
    (hlive : m.live.Sublist s.manager.live ∨ ∃ y, m.live = y :: s.manager.live ∧ y.size = n ∧
      (m.lists l).lastAllocatedPod = some y.pod) : (s.served t m next).Inv c path := by
  have hrun : Manager.Run c path (fun _ _ => True) m := .step hs.manager hlegal trivial run
  have hg : Grows s (s.served t m next) := ⟨fun _ _ h => h, fun _ _ h => h⟩
  refine ⟨hrun, fun u => ?_, fun k hk => ?_, fun x hx => ?_⟩
  · change (s.served t m next).Stands c u (update s.stage t next u)
    by_cases hu : u = t
    · rw [hu, update_self]
      exact hnext
    · rw [update_of_ne hu]
      refine (hs.stands u).grows hg fun k n' _ hroute' => hothers k ?_
      rintro rfl
      exact hu (Route.inj hroute' hroute).1
  · have hk : m.wanting k ≠ none := hk
    by_cases hkl : k = l
    · subst hkl
      exact ⟨t, (update_self t _ _).trans (hself hk)⟩
    · rw [hothers k hkl] at hk
      obtain ⟨u, hu⟩ := hs.waiting k hk
      have hut : u ≠ t := by
        rintro rfl
        exact hkl (hstage k hu)
      exact ⟨u, (update_of_ne hut _ _).trans hu⟩
  · -- a block that was there before, or the one that the thread got
    have hold : ∀ x ∈ s.manager.live, ∃ l, s.Route (s.requester x) x.size l ∧
        m.splPushdown x.pod = some l := by
      intro x hx
      obtain ⟨l, hroute, hl⟩ := hs.routed x hx
      exact ⟨l, hroute, (hs.home_stays hinj hlegal run hx).trans hl⟩
    have hx : x ∈ m.live := hx
    change ∃ l, s.Route (if x ∈ m.live.take (m.live.length - s.manager.live.length) then t
      else s.requester x) x.size l ∧ m.splPushdown x.pod = some l
    rcases hlive with hsub | ⟨y, heq, rfl, hlast⟩
    · rw [Nat.sub_eq_zero_of_le hsub.length_le, take_zero, if_neg not_mem_nil]
      exact hold x (hsub.subset hx)
    · rw [heq, length_cons, Nat.add_sub_cancel_left, take_succ_cons, take_zero]
      by_cases hxy : x = y
      · obtain ⟨h, hinv⟩ := hrun.inv (b := True) hinj (fun _ cmd _ => Manager.sized_true cmd)
        rw [if_pos (mem_singleton.mpr hxy), hxy]
        exact ⟨l, hroute, hinv.home_of_last hlast⟩
      · rw [if_neg (fun hc => hxy (mem_singleton.mp hc))]
        rw [heq] at hx
        exact hold x ((mem_cons.mp hx).resolve_left hxy)

theorem splGet (hlegal : s.Legal c (.splGet t n)) (run : s.step c path (.splGet t n) = .ok s') :
    s'.Inv c path := by
  obtain rfl := Except.ok.inj run
  refine hs.lookup ⟨fun _ _ h => Registry.entry_get h, fun _ _ h => h⟩ rfl rfl rfl
    ⟨Registry.get_entry, hlegal.2⟩ ?_
  intro l
  rw [hlegal.1]
  simp

theorem getSplBasedOnSize (hlegal : s.Legal c (.getSplBasedOnSize t))
    (run : s.step c path (.getSplBasedOnSize t) = .ok s') : s'.Inv c path := by
  obtain ⟨b, size, hstage⟩ := hlegal
  have ht := hs.stands t
  rw [hstage] at ht
  simp only [step, hstage] at run
  obtain rfl := Except.ok.inj run
  refine hs.lookup ⟨fun _ _ h => h, fun _ _ h => Registry.entry_get h⟩ rfl rfl rfl
    ⟨⟨b, ht.1, Registry.get_entry⟩, ht.2⟩ ?_
  intro l
  rw [hstage]
  simp

theorem allocate {ch : Choice} (hinj : Injective path)
    (hlegal : s.Legal c (.allocate t ch)) (run : s.step c path (.allocate t ch) = .ok s') :
    s'.Inv c path := by
  obtain ⟨l, size, hstage⟩ := hlegal
  have hnone := hs.wanting_eq_none hstage
  obtain ⟨hroute, hsmall⟩ : s.Stands c t (.list l size) := hstage ▸ hs.stands t
  simp only [step, hstage] at run
  obtain ⟨m, hm, hs'⟩ := of_bind_ok run
  obtain rfl := Except.ok.inj hs'
  have hlegal : s.manager.Legal c (.remonMalloc l size ch) := ⟨hsmall, hnone⟩
  have hmoves : s.manager.toSession.step c.L path (.allocate l (computeAsize size) ch) =
    .ok m.toSession := (Manager.step_cases hm).1
  have hnot : ∀ k, s.stage t = .waits k → k = l := by simp [hstage]
  cases Session.granted_step hmoves with
  | still hlive hwaits =>
    have hidle : m.wanting l = none := by rw [hwaits, hnone]
    rw [if_pos hidle]
    exact hs.request hinj hlegal hm trivial hroute hnot (fun k _ => by rw [hwaits])
      (fun hne => absurd hidle hne) (.inl hlive)
  | waits hlive hwaits =>
    have hself : m.wanting l = some (computeAsize size) := by rw [hwaits, update_self]
    rw [if_neg (by simp [hself])]
    refine hs.request hinj hlegal hm ⟨_, hroute, hself⟩ hroute hnot (fun k hk => ?_) (fun _ => rfl)
      (.inl (by rw [hlive]))
    rw [hwaits, update_of_ne hk]
  | allocated hlive hwaits =>
    have hidle : m.wanting l = none := by rw [hwaits, hnone]
    rw [if_pos hidle]
    exact hs.request hinj hlegal hm trivial hroute hnot (fun k _ => by rw [hwaits])
      (fun hne => absurd hidle hne)
      (.inr ⟨_, hlive, rfl, Session.allocate_last hmoves hlive⟩)

theorem getBufferedPod (hinj : Injective path)
    (hlegal : s.Legal c (.getBufferedPod t i))
    (run : s.step c path (.getBufferedPod t i) = .ok s') : s'.Inv c path := by
  obtain ⟨⟨l, hstage⟩, hbuffered⟩ := hlegal
  obtain ⟨n, hroute, hn⟩ : s.Stands c t (.waits l) := hstage ▸ hs.stands t
  simp only [step, hstage] at run
  obtain ⟨m, hm, hs'⟩ := of_bind_ok run
  obtain rfl := Except.ok.inj hs'
  have hlegal : s.manager.Legal c (.getBufferedPod l i) := ⟨by simp [hn], hbuffered⟩
  have hmoves : s.manager.toSession.step c.L path (.addPodAndAllocate l i) = .ok m.toSession :=
    (Manager.step_cases hm).1
  have hwaits := Session.wanting_addPodAndAllocate hmoves
  refine hs.request hinj hlegal hm trivial hroute (by simp [hstage]) (fun k hk => ?_)
    (fun hne => absurd ?_ hne) ?_
  · rw [hwaits, update_of_ne hk]
  · rw [hwaits, update_self]
  · cases Session.granted_step hmoves with
    | still hlive _ => exact .inl hlive
    | unserved hlive _ => exact .inl (by rw [hlive])
    | added hsize hlive _ =>
      obtain rfl := Option.some.inj (hn.symm.trans hsize)
      exact .inr ⟨_, hlive, rfl, Session.addPodAndAllocate_last hmoves hlive⟩

theorem other (hinj : Injective path) (hlegal : s.Legal c (.other cmd))
    (run : s.step c path (.other cmd) = .ok s') : s'.Inv c path := by
  obtain ⟨hlegal, hask, hget⟩ := hlegal
  obtain ⟨m, hm, hs'⟩ := of_bind_ok run
  obtain rfl := Except.ok.inj hs'
  obtain ⟨hwant, hlive⟩ := Manager.still_step hm hask hget
  have hg : Grows s { s with manager := m } := ⟨fun _ _ h => h, fun _ _ h => h⟩
  refine ⟨.step hs.manager hlegal trivial hm, fun u => ?_, fun k hk => ?_, fun x hx => ?_⟩
  · exact (hs.stands u).grows hg fun k n _ _ => congrFun hwant k
  · have hk : m.wanting k ≠ none := hk
    rw [hwant] at hk
    exact hs.waiting k hk
  · obtain ⟨l, hroute, hl⟩ := hs.routed x (hlive x hx)
    exact ⟨l, hroute, (hs.home_stays hinj hlegal hm (hlive x hx)).trans hl⟩

theorem step (hinj : Injective path) (hlegal : s.Legal c act)
    (run : s.step c path act = .ok s') : s'.Inv c path := by
  cases act with
  | splGet t size => exact hs.splGet hlegal run
  | getSplBasedOnSize t => exact hs.getSplBasedOnSize hlegal run
  | allocate t ch => exact hs.allocate hinj hlegal run
  | getBufferedPod t i => exact hs.getBufferedPod hinj hlegal run
  | other cmd => exact hs.other hinj hlegal run

end Inv

/-! ## Runs -/

theorem Run.inv (hinj : Injective path) (hs : Run c path s) : s.Inv c path := by
  induction hs with
  | start => exact inv_new
  | step _ hlegal run ih => exact ih.step hinj hlegal run

variable (c path) in
/-- What an act that returns leaves. -/
def after (s : Front) (act : Act) : Front := orStay s (s.step c path act)

theorem Run.after (hs : Run c path s) (act : Act) (hlegal : s.Legal c act)
    (hrun : (s.step c path act).isOk = true) : Run c path (s.after c path act) :=
  .step hs hlegal (ok_orStay hrun)

/-- In every interleaving of requests and of whatever else the threads do, no thread asks a list
at which another one waits, so that the manager runs as it should, every block is on a page of the
list that its requester has for its size, and the blocks of a page have one size and one
requester. -/
theorem page_of_one_size_and_thread {swapDir : String} (hs : Run c (swapFile swapDir) s) :
    Manager.Run c (swapFile swapDir) (fun _ _ => True) s.manager ∧
      (∀ t l size, s.stage t = .list l size → s.manager.wanting l = none) ∧
      (∀ x ∈ s.manager.live,
        ∃ l, s.Route (s.requester x) x.size l ∧ s.manager.splPushdown x.pod = some l) ∧
      ∀ x ∈ s.manager.live, ∀ y ∈ s.manager.live, x.pod = y.pod →
        x.size = y.size ∧ s.requester x = s.requester y := by
  have hinv := hs.inv (swapFile_injective swapDir)
  refine ⟨hinv.manager, fun t l size => hinv.wanting_eq_none, hinv.routed, ?_⟩
  intro x hx y hy hpod
  obtain ⟨l, hroute, hl⟩ := hinv.routed x hx
  obtain ⟨l', hroute', hl'⟩ := hinv.routed y hy
  rw [hpod, hl'] at hl
  obtain rfl := Option.some.inj hl
  obtain ⟨ht, hn⟩ := Route.inj hroute hroute'
  exact ⟨hn, ht⟩

def sampleGot : Front :=
  [.other .addNewRegionCore, .splGet 7 64, .other (.allocatePage 0), .getSplBasedOnSize 7,
    .other (.addPodToBuffer 0 true Session.sampleFetch), .allocate 7 Session.sampleChoice,
    .getBufferedPod 7 0].foldl (after Manager.sampleFill (swapFile "swap")) new

theorem sampleGot_run : Run Manager.sampleFill (swapFile "swap") sampleGot := by
  have hstart : Run Manager.sampleFill (swapFile "swap") new := .start
  have h1 := hstart.after (.other .addNewRegionCore)
    ⟨(by decide : (0 : ℕ) < _), by simp, by simp⟩ (by decide)
  have h2 := h1.after (.splGet 7 64) ⟨by decide, by decide⟩ (by decide)
  have h3 := h2.after (.other (.allocatePage 0))
    ⟨(by decide : (0 : ℕ) < _), by simp, by simp⟩ (by decide)
  have h4 := h3.after (.getSplBasedOnSize 7) ⟨0, 64, by decide⟩ (by decide)
  have h5 := h4.after (.other (.addPodToBuffer 0 true Session.sampleFetch))
    ⟨(by decide : 0 ∈ Manager.fetched _), by simp, by simp⟩ (by decide)
  have h6 := h5.after (.allocate 7 Session.sampleChoice) ⟨0, 64, by decide⟩ (by decide)
  exact h6.after (.getBufferedPod 7 0) ⟨⟨0, by decide⟩, by decide⟩ (by decide)

theorem page_of_one_size_and_thread_sample :
    ∃ x ∈ sampleGot.manager.live, sampleGot.requester x = 7 ∧
      ∃ l, sampleGot.Route 7 x.size l ∧ sampleGot.manager.splPushdown x.pod = some l := by
  have h := (page_of_one_size_and_thread sampleGot_run).2.2.1
  have hx : (⟨0, 4112, 80⟩ : Grant) ∈ sampleGot.manager.live := by decide
  have hreq : sampleGot.requester ⟨0, 4112, 80⟩ = 7 := by decide
  have hroute := h _ hx
  rw [hreq] at hroute
  exact ⟨_, hx, hreq, hroute⟩

end Front

end Remon
