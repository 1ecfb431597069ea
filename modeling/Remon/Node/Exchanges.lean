import Remon.Node.LatestSave

/-! # Exchanges with a memory node

What the tenant gets for a request while no connection breaks. A worker that has a request works
on it and says at some point that it is done; a fetch then still erases its entry.
-/

namespace Remon.Node
open Function

/-- What the tenant asks about a key. -/
inductive Ask where
  | save (payload : List UInt8)
  | get (isCache : Bool)
  | free
  deriving DecidableEq, Repr

/-- What a worker says when it is done with a request. -/
inductive Reply where
  | savePodErr
  | savePodDONE
  | getPodErr
  | payload (bytes : List UInt8)
  | freePodOk
  deriving DecidableEq, Repr

namespace Ask

/-- The arrival of the request. -/
def act (k : String) : Ask → Act
  | .save payload => .save k payload
  | .get isCache => .get k isCache
  | .free => .free k

/-- What the tenant may count on once it has sent the request, if it was `saved`. -/
def sent (saved : Option (List UInt8)) : Ask → Option (List UInt8)
  | .save _ => saved
  | .get isCache => if isCache then saved else none
  | .free => none

def settled (saved : Option (List UInt8)) : Ask → Reply → Option (List UInt8)
  | .save payload, .savePodDONE => some payload
  | _, _ => saved

def Settles (e : Option (List UInt8)) : Ask → Reply → Prop
  | .save _, .savePodErr => True
  | .save _, .savePodDONE => True
  | .get _, .payload bytes => ∀ p, e = some p → bytes = p
  | .get _, .getPodErr => e = none
  | .free, .freePodOk => True
  | _, _ => False

theorem Settles.of_get {e e' : Option (List UInt8)} {ask : Ask} {r : Reply}
    (h : ask.Settles e r) (hget : ∀ isCache, ask = .get isCache → e = e') : ask.Settles e' r := by
  cases ask with
  | save payload => cases r <;> exact h
  | get isCache =>
    rw [← hget isCache rfl]
    exact h
  | free => cases r <;> exact h

end Ask

namespace Worker

/-- The request that a worker is at, and what the tenant expects to get. -/
def ask : Worker → Option (String × Ask × Option (List UInt8))
  | saveRequest k payload => some (k, .save payload, none)
  | receiving k _ payload _ => some (k, .save payload, none)
  | getRequest k isCache expected => some (k, .get isCache, expected)
  | sending k _ isCache expected _ => some (k, .get isCache, expected)
  | freeRequest k => some (k, .free, none)
  | idle => none
  | erasing _ _ => none

def owes : Worker → Option String
  | receiving k _ _ _ => some k
  | getRequest k false (some _) => some k
  | sending k _ false _ _ => some k
  | erasing k _ => some k
  | freeRequest k => some k
  | _ => none

theorem key_of_owes {x : Worker} {k : String} (h : x.owes = some k) : x.key = some k := by
  unfold owes at h
  split at h
  all_goals first | exact h | cases h

theorem cases_of_owes {x : Worker} {k : String} (h : x.owes = some k) :
    (∃ r, x = .erasing k r) ∨ ∃ ask e, x.ask = some (k, ask, e) := by
  unfold owes at h
  split at h
  all_goals cases h
  all_goals first | exact .inl ⟨_, rfl⟩ | exact .inr ⟨_, _, rfl⟩

end Worker

def Act.isInner : Act → Bool
  | .save _ _ | .get _ _ | .free _ | .fail => false
  | _ => true

namespace Server

variable (s : Server) (w : ℕ)

/-- What the worker says to the tenant with a step. -/
def said : Act → Option (String × Reply)
  | .refuse =>
    match s.workers w with
    | .saveRequest k _ => some (k, .savePodErr)
    | _ => none
  | .done =>
    match s.workers w with
    | .receiving k _ _ _ => some (k, .savePodDONE)
    | _ => none
  | .lookup =>
    match s.workers w with
    | .getRequest k _ _ => if s.tenantPods k = none then some (k, .getPodErr) else none
    | _ => none
  | .finish =>
    match s.workers w with
    | .sending k _ _ _ sent => some (k, .payload sent)
    | _ => none
  | .release =>
    match s.workers w with
    | .freeRequest k => some (k, .freePodOk)
    | _ => none
  | _ => none

def Prompt : Act → Prop
  | .insert | .lookup | .release => ∀ k, (s.workers w).key = some k → s.Quiet k
  | _ => True

/-- What the tenant can tell of a step in which `r` was said. -/
inductive Outcome (s' : Server) : Option (String × Reply) → Prop
  | works (x : Worker) (hx : x.ask = (s.workers w).ask)
      (workers : s'.workers = update s.workers w x) (saved : s'.saved = s.saved) :
      Outcome s' none
  | replies (k : String) (ask : Ask) (e : Option (List UInt8)) (r : Reply) (x : Worker)
      (hask : (s.workers w).ask = some (k, ask, e)) (hx : x.ask = none) (settles : ask.Settles e r)
      (workers : s'.workers = update s.workers w x)
      (saved : s'.saved = update s.saved k (ask.settled (s.saved k) r)) :
      Outcome s' (some (k, r))

/-- An entry is counted on, or a worker is at it. -/
def Clean : Prop :=
  ∀ k r, s.tenantPods k = some r → s.saved k ≠ none ∨ ∃ w, (s.workers w).owes = some k

variable {s w} {s' : Server} {k : String} {a : Act} {x : Worker}

/-! ## Entries that nobody counts on -/

theorem clean_empty : empty.Clean := fun _ _ hr => by cases hr

/-- A worker that owes nothing goes on with `x`. -/
theorem Clean.keep (h : s.Clean) (hw : s'.workers = update s.workers w x)
    (howes : (s.workers w).owes = none ∨ x.owes = (s.workers w).owes)
    (hpods : s'.tenantPods = s.tenantPods) (hsaved : s'.saved = s.saved) : s'.Clean := by
  intro k r hr
  rw [hpods] at hr
  rw [hsaved]
  refine (h k r hr).imp_right ?_
  rintro ⟨w', hw'⟩
  refine ⟨w', ?_⟩
  rw [hw]
  by_cases hww : w' = w
  · subst hww
    rw [update_self]
    rcases howes with hn | he
    · rw [hn] at hw'
      cases hw'
    · exact he.trans hw'
  · rw [update_of_ne hww]
    exact hw'

/-- A worker at the key has taken the entry over, or there is none. -/
theorem Clean.settle (h : s.Clean) (hw : s'.workers = update s.workers w x)
    (hkey : ∀ k', (s.workers w).key = some k' → k' = k)
    (hpods : ∀ k', k' ≠ k → s'.tenantPods k' = s.tenantPods k')
    (hsaved : ∀ k', k' ≠ k → s'.saved k' = s.saved k')
    (hk : s'.tenantPods k = none ∨ s'.saved k ≠ none ∨ x.owes = some k) : s'.Clean := by
  intro k' r hr
  by_cases hne : k' = k
  · subst hne
    rcases hk with hk | hk | hk
    · rw [hk] at hr
      cases hr
    · exact .inl hk
    · exact .inr ⟨w, by rw [hw, update_self]; exact hk⟩
  · rw [hpods k' hne] at hr
    rw [hsaved k' hne]
    refine (h k' r hr).imp_right ?_
    rintro ⟨w', hw'⟩
    have hww : w' ≠ w := by
      rintro rfl
      exact hne (hkey k' (Worker.key_of_owes hw'))
    exact ⟨w', by rw [hw, update_of_ne hww]; exact hw'⟩

/-! ## Requests -/

theorem step_request {ask : Ask} (run : s.step w (ask.act k) = some s') :
    s.workers w = .idle ∧ (s.Clean → s'.Clean) ∧ ∃ x e, x.ask = some (k, ask, e) ∧
      (∀ isCache, ask = .get isCache → e = s.saved k) ∧
      s'.workers = update s.workers w x ∧
      s'.saved = update s.saved k (ask.sent (s.saved k)) := by
  cases ask with
  | save payload =>
    simp only [Ask.act, step] at run
    split_ifs at run with hc
    obtain rfl := Option.some.inj run
    refine ⟨hc.1, fun h => ?_, _, none, rfl, by simp, rfl, (update_eq_self _ _).symm⟩
    exact h.keep rfl (.inl (by rw [hc.1]; rfl)) rfl rfl
  | get isCache =>
    simp only [Ask.act, step] at run
    split_ifs at run with hc hcache
    · obtain rfl := Option.some.inj run
      refine ⟨hc.1, fun h => ?_, _, s.saved k, rfl, fun _ _ => rfl, rfl, ?_⟩
      · exact h.keep rfl (.inl (by rw [hc.1]; rfl)) rfl rfl
      · rw [Ask.sent, if_pos hcache, update_eq_self]
    · obtain rfl := Option.some.inj run
      refine ⟨hc.1, fun h => ?_, _, s.saved k, rfl, fun _ _ => rfl, rfl, ?_⟩
      · obtain rfl : isCache = false := by simpa using hcache
        cases hp : s.saved k with
        | some p =>
          exact h.settle (k := k) rfl (by simp [hc.1, Worker.key]) (fun _ _ => rfl)
            (fun k' hne => update_of_ne hne _ _) (.inr (.inr rfl))
        | none =>
          refine h.keep rfl (.inl (by rw [hc.1]; rfl)) rfl ?_
          change update s.saved k none = s.saved
          rw [← hp, update_eq_self]
      · rw [Ask.sent, if_neg hcache]
  | free =>
    simp only [Ask.act, step] at run
    split_ifs at run with hc
    obtain rfl := Option.some.inj run
    refine ⟨hc.1, fun h => ?_, _, none, rfl, by simp, rfl, rfl⟩
    exact h.settle (k := k) rfl (by simp [hc.1, Worker.key]) (fun _ _ => rfl)
      (fun k' hne => update_of_ne hne _ _) (.inr (.inr rfl))

/-! ## Steps of the handlers -/

theorem Inv.sent_eq (hi : s.Inv) {r : ℕ} {isCache : Bool} {e : Option (List UInt8)}
    {sent bytes : List UInt8} (hw : s.workers w = .sending k r isCache e sent)
    (hr : s.payloads r = some bytes) (hlen : sent.length = bytes.length) :
    ∀ p, e = some p → sent = p := by
  obtain ⟨-, ⟨bytes', hb, hsent, hp⟩, -⟩ := fits_self hi hw rfl
  obtain rfl := Option.some.inj (hr.symm.trans hb)
  intro p he
  rw [← hp p he]
  exact hsent.eq_of_length hlen

theorem step_inner (hi : s.Inv) (hup : s'.crashed = false) (ha : a.isInner = true)
    (run : s.step w a = some s') : Outcome s w s' (s.said w a) ∧ (s.Clean → s'.Clean) := by
  cases a with
  | save | get | free | fail => cases ha
  | refuse =>
    cases hw : s.workers w <;> simp only [step, hw] at run <;> try cases run
    next k payload =>
    have hask : (s.workers w).ask = some (k, .save payload, none) := by rw [hw]; rfl
    simp only [said, hw]
    refine ⟨.replies _ _ _ _ .idle hask rfl trivial rfl (update_eq_self _ _).symm,
      fun h => ?_⟩
    exact h.keep rfl (.inl (by rw [hw]; rfl)) rfl rfl
  | insert =>
    cases hw : s.workers w <;> simp only [step, hw] at run <;> try cases run
    next k payload =>
    refine ⟨.works _ (by rw [hw]; rfl) rfl rfl, fun h => ?_⟩
    refine h.settle (k := k) rfl (by simp [hw, Worker.key]) (fun k' hne => ?_) (fun _ _ => rfl)
      (.inr (.inr rfl))
    dsimp only
    split_ifs
    · exact update_of_ne hne _ _
    · rfl
  | receive n =>
    cases hw : s.workers w <;> simp only [step, hw] at run <;> try cases run
    split_ifs at run
    · obtain rfl := Option.some.inj run
      cases hup
    · obtain rfl := Option.some.inj run
      refine ⟨.works _ (by rw [hw]; rfl) rfl rfl, fun h => ?_⟩
      exact h.keep rfl (.inr (by rw [hw]; rfl)) rfl rfl
  | done =>
    cases hw : s.workers w <;> simp only [step, hw] at run <;> try cases run
    next k r payload got =>
    have hask : (s.workers w).ask = some (k, .save payload, none) := by rw [hw]; rfl
    split_ifs at run
    obtain rfl := Option.some.inj run
    simp only [said, hw]
    refine ⟨.replies _ _ _ _ .idle hask rfl trivial rfl rfl, fun h => ?_⟩
    refine h.settle (k := k) rfl (by simp [hw, Worker.key]) (fun _ _ => rfl)
      (fun k' hne => update_of_ne hne _ _) (.inr (.inl ?_))
    simp
  | lookup =>
    cases hw : s.workers w <;> simp only [step, hw] at run <;> try cases run
    next k isCache e =>
    have hask : (s.workers w).ask = some (k, .get isCache, e) := by rw [hw]; rfl
    have hkey : ∀ k', (s.workers w).key = some k' → k' = k := by simp [hw, Worker.key]
    cases hpod : s.tenantPods k with
    | none =>
      simp only [hpod] at run
      obtain rfl := Option.some.inj run
      simp only [said, hw, hpod, if_true]
      refine ⟨.replies _ _ _ _ .idle hask rfl ?_ rfl (update_eq_self _ _).symm,
        fun h => h.settle rfl hkey (fun _ _ => rfl) (fun _ _ => rfl) (.inl hpod)⟩
      change e = none
      by_contra hne
      obtain ⟨p, hp⟩ := Option.ne_none_iff_exists'.mp hne
      obtain ⟨⟨r, hr, -⟩, -⟩ := (fits_self hi hw rfl).1 p hp
      rw [hpod] at hr
      cases hr
    | some r =>
      simp only [hpod] at run
      obtain rfl := Option.some.inj run
      simp only [said, hw, hpod]
      refine ⟨.works _ (by rw [hw]; rfl) rfl rfl, fun h => ?_⟩
      cases isCache with
      | false => exact h.settle rfl hkey (fun _ _ => rfl) (fun _ _ => rfl) (.inr (.inr rfl))
      | true => exact h.keep rfl (.inl (by rw [hw]; rfl)) rfl rfl
  | send n =>
    cases hw : s.workers w <;> simp only [step, hw] at run <;> try cases run
    next k r isCache e sent =>
    cases hb : s.payloads r with
    | none =>
      simp only [hb] at run
      obtain rfl := Option.some.inj run
      cases hup
    | some bytes =>
      simp only [hb] at run
      split_ifs at run
      obtain rfl := Option.some.inj run
      refine ⟨.works _ (by rw [hw]; rfl) rfl rfl, fun h => h.keep rfl (.inr ?_) rfl rfl⟩
      rw [hw]
      cases isCache <;> rfl
  | finish =>
    cases hw : s.workers w <;> simp only [step, hw] at run <;> try cases run
    next k r isCache e sent =>
    cases hb : s.payloads r with
    | none =>
      simp only [hb] at run
      obtain rfl := Option.some.inj run
      cases hup
    | some bytes =>
      simp only [hb] at run
      have hlen : sent.length = bytes.length := by
        by_contra hne
        rw [if_neg hne] at run
        cases run
      rw [if_pos hlen] at run
      obtain rfl := Option.some.inj run
      simp only [said, hw]
      have hask : (s.workers w).ask = some (k, .get isCache, e) := by rw [hw]; rfl
      have hsent := hi.sent_eq hw hb hlen
      cases isCache with
      | false =>
        exact ⟨.replies _ _ _ _ (.erasing k r) hask rfl hsent rfl (update_eq_self _ _).symm,
          fun h => h.keep rfl (.inr (by rw [hw]; rfl)) rfl rfl⟩
      | true =>
        exact ⟨.replies _ _ _ _ .idle hask rfl hsent rfl (update_eq_self _ _).symm,
          fun h => h.keep rfl (.inl (by rw [hw]; rfl)) rfl rfl⟩
  | erase =>
    cases hw : s.workers w <;> simp only [step, hw] at run <;> try cases run
    next k r =>
    split_ifs at run
    · obtain rfl := Option.some.inj run
      refine ⟨.works .idle (by rw [hw]; rfl) rfl rfl, fun h => ?_⟩
      exact h.settle (k := k) rfl (by simp [hw, Worker.key])
        (fun k' hne => update_of_ne hne _ _) (fun _ _ => rfl)
        (.inl (update_self _ _ _))
    · obtain rfl := Option.some.inj run
      cases hup
  | release =>
    cases hw : s.workers w <;> simp only [step, hw] at run <;> try cases run
    next k =>
    have hask : (s.workers w).ask = some (k, .free, none) := by rw [hw]; rfl
    have hkey : ∀ k', (s.workers w).key = some k' → k' = k := by simp [hw, Worker.key]
    simp only [said, hw]
    cases hpod : s.tenantPods k with
    | none =>
      simp only [hpod] at run
      obtain rfl := Option.some.inj run
      exact ⟨.replies _ _ _ _ .idle hask rfl trivial rfl (update_eq_self _ _).symm,
        fun h => h.settle rfl hkey (fun _ _ => rfl) (fun _ _ => rfl) (.inl hpod)⟩
    | some r =>
      simp only [hpod] at run
      obtain rfl := Option.some.inj run
      refine ⟨.replies _ _ _ _ .idle hask rfl trivial rfl (update_eq_self _ _).symm,
        fun h => ?_⟩
      exact h.settle rfl hkey (fun k' hne => update_of_ne hne _ _) (fun _ _ => rfl)
        (.inl (update_self _ _ _))

/-! ## Calm steps -/

theorem Clean.tenantPods_eq_none (h : s.Clean) (hi : s.Inv) {payload : List UInt8}
    (hw : s.workers w = .saveRequest k payload) (hq : s.Quiet k) (hsaved : s.saved k = none) :
    s.tenantPods k = none := by
  by_contra hne
  obtain ⟨r, hr⟩ := Option.ne_none_iff_exists'.mp hne
  rcases h k r hr with hs | ⟨w', hw'⟩
  · exact hs hsaved
  · -- two workers at one key are the same one
    have hkey := Worker.key_of_owes hw'
    have hself : (s.workers w).key = some k := by rw [hw]; rfl
    obtain rfl : w' = w :=
      (hi.keys k).one w' w hkey hself ((hq w' hkey).trans (hq w hself).symm)
    rw [hw] at hw'
    cases hw'

theorem Clean.calm (h : s.Clean) (hi : s.Inv) (hp : s.Prompt w a)
    (hsave : ∀ k payload, s.workers w = .saveRequest k payload → s.saved k = none) :
    s.Calm w a := by
  cases hw : s.workers w with
  | idle | receiving | sending | erasing => cases a <;> simp [Calm, hw]
  | saveRequest k payload =>
    cases a <;> simp only [Calm, hw]
    have hq : s.Quiet k := hp k (by rw [hw]; rfl)
    exact ⟨h.tenantPods_eq_none hi hw hq (hsave k payload hw), hq⟩
  | getRequest k isCache e | freeRequest k =>
    cases a <;> simp only [Calm, hw]
    exact hp k (by rw [hw]; rfl)

theorem calm_request {ask : Ask} : s.Calm w (ask.act k) := by
  cases ask <;> simp [Calm, Ask.act]

end Server

end Remon.Node
