import Remon.Node.Server

/-! # When a fetch returns the latest save

A fetch erases its entry only after the tenant has the payload, and a save does not replace an
entry. So a save that comes between the two, or a second save without a fetch, is lost.
-/

namespace Remon.Node
open Function List

def Answer.Right (x : Answer) : Prop := ∀ p, x.expected = some p → x.reply = some p

namespace Worker

def key : Worker → Option String
  | idle => none
  | saveRequest k _ => some k
  | receiving k _ _ _ => some k
  | getRequest k _ _ => some k
  | sending k _ _ _ _ => some k
  | erasing k _ => some k
  | freeRequest k => some k

def isErasing : Worker → Bool
  | erasing _ _ => true
  | _ => false

end Worker

namespace Server

variable (s : Server)

def Quiet (k : String) : Prop := ∀ w, (s.workers w).key = some k → (s.workers w).isErasing = false

/-- A step of worker `w` that touches the store does so while its key is quiet, and a save
finds no entry. -/
def Calm (w : ℕ) (a : Act) : Prop :=
  match a, s.workers w with
  | .insert, .saveRequest k _ => s.tenantPods k = none ∧ s.Quiet k
  | .lookup, .getRequest k _ _ => s.Quiet k
  | .release, .freeRequest k => s.Quiet k
  | _, _ => True

/-- The states of the runs that only take calm steps. -/
inductive CalmRun : Server → Prop
  | start : CalmRun empty
  | step {s s' : Server} {w : ℕ} {a : Act} (h : CalmRun s) (hc : s.Calm w a)
      (hs : s.step w a = some s') : CalmRun s'

def Holds (k : String) (p : List UInt8) : Prop :=
  ∃ r, s.tenantPods k = some r ∧ s.payloads r = some p

/-- What is known while a worker is in a given state. -/
def Fits : Worker → Prop
  | .idle => True
  | .saveRequest _ _ => True
  | .receiving k r payload got => s.tenantPods k = some r ∧
      s.payloads r = some (filled payload got) ∧ s.Quiet k ∧ s.saved k = none
  | .getRequest k isCache expected => (∀ p, expected = some p → s.Holds k p ∧ s.Quiet k) ∧
      (isCache = false → s.saved k = none)
  | .sending k r isCache expected sent => s.tenantPods k = some r ∧
      (∃ bytes, s.payloads r = some bytes ∧ sent <+: bytes ∧ ∀ p, expected = some p → bytes = p) ∧
      s.Quiet k ∧ (isCache = false → s.saved k = none)
  | .erasing k r => s.tenantPods k = some r ∧ s.saved k = none
  | .freeRequest k => s.saved k = none

/-- The invariant at one key: at most one request is open and at most one fetch is erasing. -/
structure KeyOk (k : String) : Prop where
  fits : ∀ w, (s.workers w).key = some k → s.Fits (s.workers w)
  one : ∀ w w', (s.workers w).key = some k → (s.workers w').key = some k →
    (s.workers w).isErasing = (s.workers w').isErasing → w = w'
  waits : ∀ w, (s.workers w).key = some k → (s.workers w).isErasing = false → s.waiting k = true
  saved : ∀ p, s.saved k = some p → s.Holds k p ∧ s.Quiet k

structure Inv : Prop where
  up : s.crashed = false
  live : ∀ k r, s.tenantPods k = some r → r < s.nextPod ∧ s.payloads r ≠ none
  inj : ∀ k k' r, s.tenantPods k = some r → s.tenantPods k' = some r → k = k'
  keys : ∀ k, s.KeyOk k
  right : ∀ x ∈ s.answers, x.Right

variable {s} {s' : Server} {k : String} {w : ℕ} {x : Worker}

/-- What is known of a worker depends on its key only. -/
theorem Fits.frame (hx : s.Fits x) (hk : x.key = some k)
    (ht : s'.tenantPods k = s.tenantPods k) (hs : s'.saved k = s.saved k)
    (hp : ∀ r, s.tenantPods k = some r → s'.payloads r = s.payloads r)
    (hq : s.Quiet k → s'.Quiet k) : s'.Fits x := by
  have hh : ∀ p, s.Holds k p → s'.Holds k p := by
    rintro p ⟨r, hr, hrp⟩
    exact ⟨r, ht.trans hr, (hp r hr).trans hrp⟩
  cases x <;> cases hk
  case saveRequest => trivial
  case receiving r payload got =>
    exact ⟨ht.trans hx.1, (hp r hx.1).trans hx.2.1, hq hx.2.2.1, hs.trans hx.2.2.2⟩
  case getRequest isCache expected =>
    exact ⟨fun p he => ⟨hh p (hx.1 p he).1, hq (hx.1 p he).2⟩, fun hc => hs.trans (hx.2 hc)⟩
  case sending r isCache expected sent =>
    obtain ⟨bytes, hb, hrest⟩ := hx.2.1
    exact ⟨ht.trans hx.1, ⟨bytes, (hp r hx.1).trans hb, hrest⟩, hq hx.2.2.1,
      fun hc => hs.trans (hx.2.2.2 hc)⟩
  case erasing r => exact ⟨ht.trans hx.1, hs.trans hx.2⟩
  case freeRequest => exact hs.trans hx

/-- A step on another key. -/
theorem KeyOk.frame (h : s.KeyOk k)
    (hw : ∀ w, (s'.workers w).key = some k ∨ (s.workers w).key = some k →
      s'.workers w = s.workers w)
    (ht : s'.tenantPods k = s.tenantPods k) (hs : s'.saved k = s.saved k)
    (hwt : s'.waiting k = s.waiting k)
    (hp : ∀ r, s.tenantPods k = some r → s'.payloads r = s.payloads r) : s'.KeyOk k := by
  have hkey : ∀ w, (s'.workers w).key = some k → s'.workers w = s.workers w ∧
      (s.workers w).key = some k := by
    intro w hk
    have he := hw w (.inl hk)
    exact ⟨he, he ▸ hk⟩
  have hq : s.Quiet k → s'.Quiet k := by
    intro hq w hk
    obtain ⟨he, hk⟩ := hkey w hk
    rw [he]
    exact hq w hk
  refine ⟨?_, ?_, ?_, ?_⟩
  · intro w hk
    obtain ⟨he, hk⟩ := hkey w hk
    rw [he]
    exact (h.fits w hk).frame hk ht hs hp hq
  · intro w w' hk hk' he
    obtain ⟨h1, hk⟩ := hkey w hk
    obtain ⟨h2, hk'⟩ := hkey w' hk'
    rw [h1, h2] at he
    exact h.one w w' hk hk' he
  · intro w hk he
    obtain ⟨h1, hk⟩ := hkey w hk
    rw [h1] at he
    rw [hwt]
    exact h.waits w hk he
  · intro p hsp
    obtain ⟨⟨r, hr, hrp⟩, hqk⟩ := h.saved p (hs.symm.trans hsp)
    exact ⟨⟨r, ht.trans hr, (hp r hr).trans hrp⟩, hq hqk⟩

theorem workers_self (hw : s'.workers = update s.workers w x) : s'.workers w = x := by
  rw [hw, update_self]

theorem workers_of_ne {w' : ℕ} (hw : s'.workers = update s.workers w x) (hne : w' ≠ w) :
    s'.workers w' = s.workers w' := by
  rw [hw, update_of_ne hne]

/-- A step of worker `w` on the key `k` leaves the other keys alone. -/
theorem Inv.next (hi : s.Inv) (hw : s'.workers = update s.workers w x)
    (hx : x.key = none ∨ x.key = some k)
    (hk : (s.workers w).key = none ∨ (s.workers w).key = some k)
    (hother : ∀ k', k' ≠ k → s'.tenantPods k' = s.tenantPods k' ∧ s'.saved k' = s.saved k' ∧
      s'.waiting k' = s.waiting k' ∧ ∀ r, s.tenantPods k' = some r → s'.payloads r = s.payloads r)
    (hup : s'.crashed = false)
    (hlive : ∀ k r, s'.tenantPods k = some r → r < s'.nextPod ∧ s'.payloads r ≠ none)
    (hinj : ∀ k k' r, s'.tenantPods k = some r → s'.tenantPods k' = some r → k = k')
    (hkey : s'.KeyOk k) (hright : ∀ y ∈ s'.answers, y.Right) : s'.Inv where
  up := hup
  live := hlive
  inj := hinj
  right := hright
  keys k' := by
    by_cases he : k' = k
    · exact he ▸ hkey
    · obtain ⟨ht, hs, hwt, hp⟩ := hother k' he
      refine (hi.keys k').frame ?_ ht hs hwt hp
      intro w' hw'
      by_cases hww : w' = w
      · subst hww
        rw [hw, update_self] at hw'
        rcases hw' with h' | h'
        · rcases hx with hx | hx <;> rw [hx] at h' <;> cases h'
          exact absurd rfl he
        · rcases hk with hk | hk <;> rw [hk] at h' <;> cases h'
          exact absurd rfl he
      · exact workers_of_ne hw hww

/-- A worker with an open request on a quiet key is the only one there. -/
theorem KeyOk.alone (h : s.KeyOk k) (hk : (s.workers w).key = some k) (hq : s.Quiet k) :
    ∀ w', w' ≠ w → (s.workers w').key ≠ some k := by
  intro w' hne hk'
  exact hne (h.one w' w hk' hk ((hq w' hk').trans (hq w hk).symm))

theorem KeyOk.of_alone (hw : s'.workers = update s.workers w x)
    (ha : ∀ w', w' ≠ w → (s.workers w').key ≠ some k) (hfit : s'.Fits x)
    (hwait : x.key = some k → x.isErasing = false → s'.waiting k = true)
    (hsaved : ∀ p, s'.saved k = some p → s'.Holds k p ∧ (x.key = some k → x.isErasing = false)) :
    s'.KeyOk k := by
  have honly : ∀ w', (s'.workers w').key = some k → w' = w := by
    intro w' hk
    by_contra hne
    exact ha w' hne (workers_of_ne hw hne ▸ hk)
  have hself := workers_self hw
  refine ⟨?_, ?_, ?_, ?_⟩
  · intro w' hk
    rw [honly w' hk, hself]
    exact hfit
  · intro w' w'' hk hk' _
    rw [honly w' hk, honly w'' hk']
  · intro w' hk he
    obtain rfl := honly w' hk
    rw [hself] at hk he
    exact hwait hk he
  · intro p hp
    refine ⟨(hsaved p hp).1, ?_⟩
    intro w' hk
    obtain rfl := honly w' hk
    rw [hself] at hk ⊢
    exact (hsaved p hp).2 hk

theorem quiet_of_alone (hw : s'.workers = update s.workers w x)
    (ha : ∀ w', w' ≠ w → (s.workers w').key ≠ some k) (hx : x.isErasing = false) : s'.Quiet k := by
  intro w' hk
  by_cases hne : w' = w
  · rw [hne, hw, update_self, hx]
  · exact absurd (workers_of_ne hw hne ▸ hk) (ha w' hne)

/-! ## Requests of the tenant -/

/-- Only a fetch that is erasing can be at a key when a new request about it arrives. -/
theorem KeyOk.request (h : s.KeyOk k) (hw : s'.workers = update s.workers w x)
    (hwt : s.waiting k = false) (he : x.isErasing = false)
    (ht : s'.tenantPods = s.tenantPods) (hp : s'.payloads = s.payloads)
    (hsk : s'.saved k = s.saved k ∨ s'.saved k = none) (hwt' : s'.waiting k = true)
    (hfit : s'.Fits x) : s'.KeyOk k := by
  have her : ∀ w', (s.workers w').key = some k → (s.workers w').isErasing = true := by
    intro w' hk
    cases hb : (s.workers w').isErasing with
    | true => rfl
    | false => exact absurd (h.waits w' hk hb) (by simp [hwt])
  refine ⟨?_, ?_, fun _ _ _ => hwt', ?_⟩
  · intro w' hk
    by_cases hne : w' = w
    · rw [hne, workers_self hw]
      exact hfit
    · rw [workers_of_ne hw hne] at hk ⊢
      have hf := h.fits w' hk
      have her' := her w' hk
      cases hx' : s.workers w' with
      | erasing k₁ r =>
        rw [hx'] at hf hk
        cases hk
        exact ⟨ht ▸ hf.1, hsk.elim (fun hs => hs.trans hf.2) id⟩
      | _ => simp [hx', Worker.isErasing] at her'
  · intro w₁ w₂ h₁ h₂ heq
    have hmix : ∀ w', w' ≠ w → (s'.workers w').key = some k →
        (s'.workers w').isErasing ≠ (s'.workers w).isErasing := by
      intro w' hne hk
      rw [workers_of_ne hw hne] at hk ⊢
      rw [workers_self hw, her w' hk, he]
      simp
    by_cases hn₁ : w₁ = w
    · by_cases hn₂ : w₂ = w
      · rw [hn₁, hn₂]
      · exact absurd (hn₁ ▸ heq.symm) (hmix w₂ hn₂ h₂)
    · by_cases hn₂ : w₂ = w
      · exact absurd (hn₂ ▸ heq) (hmix w₁ hn₁ h₁)
      · rw [workers_of_ne hw hn₁] at h₁ heq
        rw [workers_of_ne hw hn₂] at h₂ heq
        exact h.one w₁ w₂ h₁ h₂ heq
  · intro p hp'
    have hp' : s.saved k = some p := by
      rcases hsk with hs | hs
      · exact hs.symm.trans hp'
      · exact absurd (hs.symm.trans hp') (by simp)
    obtain ⟨⟨r, hr, hrp⟩, hq⟩ := h.saved p hp'
    refine ⟨⟨r, ht ▸ hr, hp ▸ hrp⟩, ?_⟩
    intro w' hk
    by_cases hne : w' = w
    · rw [hne, workers_self hw, he]
    · rw [workers_of_ne hw hne] at hk ⊢
      exact hq w' hk

theorem quiet_request (hq : s.Quiet k) (hw : s'.workers = update s.workers w x)
    (he : x.isErasing = false) : s'.Quiet k := by
  intro w' hk
  by_cases hne : w' = w
  · rw [hne, workers_self hw, he]
  · rw [workers_of_ne hw hne] at hk ⊢
    exact hq w' hk

theorem Inv.request (hi : s.Inv) (hidle : s.workers w = .idle) (hwt : s.waiting k = false)
    (hw : s'.workers = update s.workers w x)
    (hx : x.key = some k) (he : x.isErasing = false)
    (ht : s'.tenantPods = s.tenantPods) (hp : s'.payloads = s.payloads)
    (hn : s'.nextPod = s.nextPod) (hc : s'.crashed = s.crashed) (ha : s'.answers = s.answers)
    (hwait : s'.waiting = update s.waiting k true)
    (hsv : ∀ k', k' ≠ k → s'.saved k' = s.saved k')
    (hsk : s'.saved k = s.saved k ∨ s'.saved k = none) (hfit : s'.Fits x) : s'.Inv := by
  have hnone : (s.workers w).key = none := by
    rw [hidle]
    rfl
  have hwt' : s'.waiting k = true := by
    rw [hwait, update_self]
  refine hi.next hw (.inr hx) (.inl hnone) ?_ (hc.trans hi.up) ?_ (ht ▸ hi.inj)
    ((hi.keys k).request hw hwt he ht hp hsk hwt' hfit) (ha ▸ hi.right)
  · intro k' hne
    refine ⟨by rw [ht], hsv k' hne, ?_, fun r _ => by rw [hp]⟩
    rw [hwait, update_of_ne hne]
  · rw [ht, hp, hn]
    exact hi.live

/-! ## Steps of the handlers -/

/-- A handler that ends its request and changes nothing else about the key. -/
theorem KeyOk.leave (h : s.KeyOk k) (hw : s'.workers = update s.workers w .idle)
    (hk : (s.workers w).key = some k) (he : (s.workers w).isErasing = false)
    (ht : s'.tenantPods = s.tenantPods) (hp : s'.payloads = s.payloads) (hs : s'.saved = s.saved) :
    s'.KeyOk k := by
  have hkey : ∀ w', (s'.workers w').key = some k → w' ≠ w ∧ s'.workers w' = s.workers w' := by
    intro w' hk'
    have hne : w' ≠ w := by
      rintro rfl
      rw [workers_self hw] at hk'
      cases hk'
    exact ⟨hne, workers_of_ne hw hne⟩
  have hq : s.Quiet k → s'.Quiet k := fun hq => quiet_request hq hw rfl
  refine ⟨?_, ?_, ?_, ?_⟩
  · intro w' hk'
    have heq := (hkey w' hk').2
    rw [heq] at hk' ⊢
    exact (h.fits w' hk').frame hk' (by rw [ht]) (by rw [hs]) (fun r _ => by rw [hp]) hq
  · intro w₁ w₂ h₁ h₂ heq
    have e₁ := (hkey w₁ h₁).2
    have e₂ := (hkey w₂ h₂).2
    rw [e₁] at h₁ heq
    rw [e₂] at h₂ heq
    exact h.one w₁ w₂ h₁ h₂ heq
  · intro w' hk' he'
    obtain ⟨hne, heq⟩ := hkey w' hk'
    rw [heq] at hk' he'
    exact absurd (h.one w' w hk' hk (he'.trans he.symm)) hne
  · intro p hp'
    rw [hs] at hp'
    obtain ⟨⟨r, hr, hrp⟩, hqk⟩ := h.saved p hp'
    exact ⟨⟨r, ht ▸ hr, hp ▸ hrp⟩, hq hqk⟩

/-- The same for the whole server; an answer may be added. -/
theorem Inv.leave (hi : s.Inv) (hw : s'.workers = update s.workers w .idle)
    (hk : (s.workers w).key = some k) (he : (s.workers w).isErasing = false)
    (ht : s'.tenantPods = s.tenantPods) (hp : s'.payloads = s.payloads) (hs : s'.saved = s.saved)
    (hn : s'.nextPod = s.nextPod) (hc : s'.crashed = s.crashed)
    (hwait : ∀ k', k' ≠ k → s'.waiting k' = s.waiting k')
    (ha : ∀ y ∈ s'.answers, y ∈ s.answers ∨ y.Right) : s'.Inv := by
  refine hi.next hw (.inl rfl) (.inr hk) ?_ (hc.trans hi.up) ?_ (ht ▸ hi.inj)
    ((hi.keys k).leave hw hk he ht hp hs) ?_
  · intro k' hne
    exact ⟨by rw [ht], by rw [hs], hwait k' hne, fun r _ => by rw [hp]⟩
  · rw [ht, hp, hn]
    exact hi.live
  · intro y hy
    exact (ha y hy).elim (hi.right y) id

theorem filled_length (payload : List UInt8) : filled payload payload.length = payload := by
  simp [filled]

/-- The insertion of a calm save creates the entry. -/
theorem Inv.insert (hi : s.Inv) {payload : List UInt8} (hw : s.workers w = .saveRequest k payload)
    (ht : s.tenantPods k = none) (hq : s.Quiet k) :
    ({ s.setWorker w (.receiving k s.nextPod payload 0) with
      payloads := update s.payloads s.nextPod (some (filled payload 0))
      nextPod := s.nextPod + 1
      tenantPods := update s.tenantPods k (some s.nextPod) } : Server).Inv := by
  have hk : (s.workers w).key = some k := by
    rw [hw]
    rfl
  have ha := (hi.keys k).alone hk hq
  have hlt : ∀ k' r, k' ≠ k → update s.tenantPods k (some s.nextPod) k' = some r →
      s.tenantPods k' = some r ∧ r < s.nextPod ∧ s.payloads r ≠ none := by
    intro k' r hne hr
    rw [update_of_ne hne] at hr
    exact ⟨hr, hi.live k' r hr⟩
  refine hi.next rfl (.inr rfl) (.inr hk) ?_ hi.up ?_ ?_ (KeyOk.of_alone rfl ha ?_ ?_ ?_) hi.right
  · intro k' hne
    refine ⟨update_of_ne hne _ _, rfl, rfl, ?_⟩
    intro r hr
    exact update_of_ne (hi.live k' r hr).1.ne _ _
  · intro k' r hr
    by_cases hne : k' = k
    · subst hne
      obtain rfl : s.nextPod = r := by
        simpa using hr
      exact ⟨Nat.lt_succ_self _, by simp⟩
    · obtain ⟨-, hlt, hsome⟩ := hlt k' r hne hr
      exact ⟨Nat.lt_succ_of_lt hlt, by simpa [update_of_ne hlt.ne] using hsome⟩
  · intro k₁ k₂ r h₁ h₂
    by_cases hn₁ : k₁ = k
    · by_cases hn₂ : k₂ = k
      · rw [hn₁, hn₂]
      · have hlt := (hlt k₂ r hn₂ h₂).2.1
        rw [hn₁] at h₁
        simp at h₁
        omega
    · have hr₁ := hlt k₁ r hn₁ h₁
      by_cases hn₂ : k₂ = k
      · rw [hn₂] at h₂
        simp at h₂
        omega
      · exact hi.inj k₁ k₂ r hr₁.1 (hlt k₂ r hn₂ h₂).1
  · refine ⟨update_self _ _ _, update_self _ _ _, quiet_of_alone rfl ha rfl, ?_⟩
    cases hs : s.saved k with
    | none => exact hs
    | some p =>
      obtain ⟨⟨r, hr, -⟩, -⟩ := (hi.keys k).saved p hs
      rw [ht] at hr
      cases hr
  · intro _ _
    exact (hi.keys k).waits w hk (by rw [hw]; rfl)
  · intro p hp
    obtain ⟨⟨r, hr, -⟩, -⟩ := (hi.keys k).saved p hp
    rw [ht] at hr
    cases hr

/-- A step of the only worker at a key that keeps the entries as they are. -/
theorem Inv.alone (hi : s.Inv) (hk : (s.workers w).key = some k) (hq : s.Quiet k)
    (hw : s'.workers = update s.workers w x) (hx : x.key = none ∨ x.key = some k)
    (ht : s'.tenantPods = s.tenantPods) (hn : s'.nextPod = s.nextPod) (hc : s'.crashed = s.crashed)
    (hpay : ∀ r, s.tenantPods k ≠ some r → s'.payloads r = s.payloads r)
    (hsome : ∀ r, s.tenantPods k = some r → s'.payloads r ≠ none)
    (hsv : ∀ k', k' ≠ k → s'.saved k' = s.saved k')
    (hwait : ∀ k', k' ≠ k → s'.waiting k' = s.waiting k')
    (ha : ∀ y ∈ s'.answers, y ∈ s.answers ∨ y.Right) (hfit : s'.Fits x)
    (hwt : x.key = some k → x.isErasing = false → s'.waiting k = true)
    (hsaved : ∀ p, s'.saved k = some p → s'.Holds k p ∧ (x.key = some k → x.isErasing = false)) :
    s'.Inv := by
  have hal := (hi.keys k).alone hk hq
  refine hi.next hw hx (.inr hk) ?_ (hc.trans hi.up) ?_ (ht ▸ hi.inj)
    (KeyOk.of_alone hw hal hfit hwt hsaved) ?_
  · intro k' hne
    refine ⟨by rw [ht], hsv k' hne, hwait k' hne, ?_⟩
    intro r hr
    apply hpay
    intro hr'
    exact hne (hi.inj k' k r hr hr')
  · intro k' r hr
    rw [ht] at hr
    rw [hn]
    refine ⟨(hi.live k' r hr).1, ?_⟩
    by_cases hr' : s.tenantPods k = some r
    · exact hsome r hr'
    · rw [hpay r hr']
      exact (hi.live k' r hr).2
  · intro y hy
    exact (ha y hy).elim (hi.right y) id

theorem fits_self (hi : s.Inv) (hw : s.workers w = x) (hk : x.key = some k) : s.Fits x := by
  rw [← hw]
  exact (hi.keys k).fits w (by rw [hw, hk])

theorem waits_self (hi : s.Inv) (hw : s.workers w = x) (hk : x.key = some k)
    (he : x.isErasing = false) : s.waiting k = true :=
  (hi.keys k).waits w (by rw [hw, hk]) (by rw [hw, he])

theorem Inv.receive (hi : s.Inv) {payload : List UInt8} {r got n : ℕ}
    (hw : s.workers w = .receiving k r payload got) :
    s.payloads r ≠ none ∧ ({ s.setWorker w (.receiving k r payload (got + n)) with
      payloads := update s.payloads r (some (filled payload (got + n))) } :
      Server).Inv := by
  obtain ⟨ht, hp, hq, hs⟩ := fits_self hi hw rfl
  have hk : (s.workers w).key = some k := by
    rw [hw]
    rfl
  have hal := (hi.keys k).alone hk hq
  have hwt := waits_self hi hw rfl rfl
  refine ⟨by simp [hp], hi.alone hk hq rfl (.inr rfl) rfl rfl rfl ?_ ?_ (fun _ _ => rfl)
    (fun _ _ => rfl) (fun y hy => .inl hy) ⟨ht, update_self _ _ _, ?_, hs⟩ ?_ ?_⟩
  · intro r' hr'
    apply update_of_ne
    rintro rfl
    exact hr' ht
  · intro r' hr'
    obtain rfl := Option.some.inj (ht.symm.trans hr')
    simp
  · exact quiet_of_alone rfl hal rfl
  · exact fun _ _ => hwt
  · intro p hp
    cases hs.symm.trans hp

theorem Inv.done (hi : s.Inv) {payload : List UInt8} {r : ℕ}
    (hw : s.workers w = .receiving k r payload payload.length) :
    ({ s.reply w k .idle with
      saved := update s.saved k (some payload) } : Server).Inv := by
  obtain ⟨ht, hp, hq, -⟩ := fits_self hi hw rfl
  rw [filled_length] at hp
  have hk : (s.workers w).key = some k := by
    rw [hw]
    rfl
  refine hi.alone hk hq rfl (.inl rfl) rfl rfl rfl (fun _ _ => rfl)
    (fun r' hr' => (hi.live k r' hr').2) (fun k' hne => update_of_ne hne _ _)
    (fun k' hne => update_of_ne hne _ _) (fun y hy => .inl hy) trivial nofun ?_
  intro p hsp
  obtain rfl : payload = p := by
    simpa using hsp
  exact ⟨⟨r, ht, hp⟩, nofun⟩

theorem Inv.lookup_miss (hi : s.Inv) {isCache : Bool} {expected : Option (List UInt8)}
    (hw : s.workers w = .getRequest k isCache expected) (ht : s.tenantPods k = none) :
    ({ s.reply w k .idle with answers := ⟨k, expected, none⟩ :: s.answers } : Server).Inv := by
  refine hi.leave rfl (by rw [hw]; rfl) (by rw [hw]; rfl) rfl rfl rfl rfl rfl
    (fun k' hne => update_of_ne hne _ _) ?_
  intro y hy
  refine (mem_cons.mp hy).symm.imp id ?_
  rintro rfl p hp
  obtain ⟨⟨r, hr, -⟩, -⟩ := (fits_self hi hw rfl).1 p hp
  rw [ht] at hr
  cases hr

theorem Inv.lookup_hit (hi : s.Inv) {isCache : Bool} {expected : Option (List UInt8)} {r : ℕ}
    (hw : s.workers w = .getRequest k isCache expected) (hq : s.Quiet k)
    (ht : s.tenantPods k = some r) : (s.setWorker w (.sending k r isCache expected [])).Inv := by
  have hk : (s.workers w).key = some k := by
    rw [hw]
    rfl
  have hal := (hi.keys k).alone hk hq
  have hfit := fits_self hi hw rfl
  have hwt := waits_self hi hw rfl rfl
  obtain ⟨bytes, hb⟩ := Option.ne_none_iff_exists'.mp (hi.live k r ht).2
  refine hi.alone hk hq rfl (.inr rfl) rfl rfl rfl (fun _ _ => rfl)
    (fun r' hr' => (hi.live k r' hr').2) (fun _ _ => rfl) (fun _ _ => rfl) (fun y hy => .inl hy)
    ⟨ht, ⟨bytes, hb, nil_prefix, ?_⟩, quiet_of_alone rfl hal rfl, hfit.2⟩
    (fun _ _ => hwt) (fun p hp => ⟨((hi.keys k).saved p hp).1, fun _ => rfl⟩)
  intro p hp
  obtain ⟨⟨r', hr', hp'⟩, -⟩ := hfit.1 p hp
  obtain rfl := Option.some.inj (ht.symm.trans hr')
  exact Option.some.inj (hb.symm.trans hp')

theorem Inv.send (hi : s.Inv) {isCache : Bool} {expected : Option (List UInt8)} {r n : ℕ}
    {sent bytes : List UInt8} (hw : s.workers w = .sending k r isCache expected sent)
    (hb : s.payloads r = some bytes) :
    (s.setWorker w (.sending k r isCache expected
      (sent ++ (bytes.drop sent.length).take n))).Inv := by
  obtain ⟨ht, ⟨bytes', hb', hpre, hexp⟩, hq, hs⟩ := fits_self hi hw rfl
  obtain rfl := Option.some.inj (hb'.symm.trans hb)
  have hk : (s.workers w).key = some k := by
    rw [hw]
    rfl
  have hal := (hi.keys k).alone hk hq
  have hwt := waits_self hi hw rfl rfl
  have hpre' : sent ++ (bytes'.drop sent.length).take n <+: bytes' := by
    obtain ⟨rest, rfl⟩ := hpre
    rw [drop_left, prefix_append_right_inj]
    exact take_prefix _ _
  exact hi.alone hk hq rfl (.inr rfl) rfl rfl rfl (fun _ _ => rfl)
    (fun r' hr' => (hi.live k r' hr').2) (fun _ _ => rfl) (fun _ _ => rfl) (fun y hy => .inl hy)
    ⟨ht, ⟨bytes', hb, hpre', hexp⟩, quiet_of_alone rfl hal rfl, hs⟩
    (fun _ _ => hwt) (fun p hp => ⟨((hi.keys k).saved p hp).1, fun _ => rfl⟩)

theorem Inv.finish (hi : s.Inv) {isCache : Bool} {expected : Option (List UInt8)} {r : ℕ}
    {sent bytes : List UInt8} (hw : s.workers w = .sending k r isCache expected sent)
    (hb : s.payloads r = some bytes) (hlen : sent.length = bytes.length) :
    ({ s.reply w k (if isCache then .idle else .erasing k r) with
      answers := ⟨k, expected, some sent⟩ :: s.answers } : Server).Inv := by
  obtain ⟨ht, ⟨bytes', hb', hpre, hexp⟩, hq, hs⟩ := fits_self hi hw rfl
  obtain rfl := Option.some.inj (hb'.symm.trans hb)
  have hk : (s.workers w).key = some k := by
    rw [hw]
    rfl
  have hans : ∀ y ∈ ⟨k, expected, some sent⟩ :: s.answers, y ∈ s.answers ∨ y.Right := by
    intro y hy
    refine (mem_cons.mp hy).symm.imp id ?_
    rintro rfl p hp
    rw [hpre.eq_of_length hlen, hexp p hp]
  cases isCache with
  | true =>
    exact hi.leave rfl hk (by rw [hw]; rfl) rfl rfl rfl rfl rfl
      (fun k' hne => update_of_ne hne _ _) hans
  | false =>
    refine hi.alone hk hq rfl (.inr rfl) rfl rfl rfl (fun _ _ => rfl)
      (fun r' hr' => (hi.live k r' hr').2) (fun _ _ => rfl)
      (fun k' hne => update_of_ne hne _ _) hans ⟨ht, hs rfl⟩ nofun ?_
    intro p hp
    cases (hs rfl).symm.trans hp

/-- Removing the entry of a key leaves the other keys and their pods alone. -/
theorem Inv.removed (hi : s.Inv) {r : ℕ} (ht : s.tenantPods k = some r) :
    (∀ k', k' ≠ k → (s.remove k r).tenantPods k' = s.tenantPods k' ∧
      ∀ r', s.tenantPods k' = some r' → (s.remove k r).payloads r' = s.payloads r') ∧
    (∀ k' r', (s.remove k r).tenantPods k' = some r' →
      s.tenantPods k' = some r' ∧ r' < s.nextPod ∧ (s.remove k r).payloads r' ≠ none) := by
  have hpay : ∀ k' r', k' ≠ k → s.tenantPods k' = some r' →
      (s.remove k r).payloads r' = s.payloads r' := by
    intro k' r' hne hr'
    apply update_of_ne
    rintro rfl
    exact hne (hi.inj k' k _ hr' ht)
  refine ⟨fun k' hne => ⟨update_of_ne hne _ _, fun r' => hpay k' r' hne⟩, ?_⟩
  intro k' r' hr'
  have hne : k' ≠ k := by
    rintro rfl
    simp [remove] at hr'
  have hr : s.tenantPods k' = some r' := by
    simpa [remove, update_of_ne hne] using hr'
  exact ⟨hr, (hi.live k' r' hr).1, by rw [hpay k' r' hne hr]; exact (hi.live k' r' hr).2⟩

/-- An erasure finds its entry; whoever waits at the key has not looked at the store yet. -/
theorem Inv.erase (hi : s.Inv) {r : ℕ} (hw : s.workers w = .erasing k r) :
    (s.tenantPods k = some r ∧ s.payloads r ≠ none) ∧ ((s.remove k r).setWorker w .idle).Inv := by
  obtain ⟨ht, hs⟩ := fits_self hi hw rfl
  have hk : (s.workers w).key = some k := by
    rw [hw]
    rfl
  have her : (s.workers w).isErasing = true := by
    rw [hw]
    rfl
  have hloud : ¬ s.Quiet k := fun hq => absurd (hq w hk) (by simp [her])
  obtain ⟨hother, hlive⟩ := hi.removed ht
  refine ⟨⟨ht, (hi.live k r ht).2⟩, hi.next rfl (.inl rfl) (.inr hk) ?_ hi.up
    (fun k' r' hr' => (hlive k' r' hr').2)
    (fun k₁ k₂ r' h₁ h₂ => hi.inj k₁ k₂ r' (hlive k₁ r' h₁).1 (hlive k₂ r' h₂).1) ?_ hi.right⟩
  · intro k' hne
    exact ⟨(hother k' hne).1, rfl, rfl, (hother k' hne).2⟩
  · have hkey : ∀ w', (((s.remove k r).setWorker w .idle).workers w').key = some k →
        w' ≠ w ∧ ((s.remove k r).setWorker w .idle).workers w' = s.workers w' := by
      intro w' hk'
      have hne : w' ≠ w := by
        rintro rfl
        simp [setWorker, Worker.key] at hk'
      exact ⟨hne, update_of_ne hne _ _⟩
    have hopen : ∀ w', w' ≠ w → (s.workers w').key = some k → (s.workers w').isErasing = false := by
      intro w' hne hk'
      cases hb : (s.workers w').isErasing with
      | false => rfl
      | true => exact absurd ((hi.keys k).one w' w hk' hk (hb.trans her.symm)) hne
    refine ⟨?_, ?_, ?_, ?_⟩
    · intro w' hk'
      obtain ⟨hne, heq⟩ := hkey w' hk'
      rw [heq] at hk' ⊢
      have hf := (hi.keys k).fits w' hk'
      have ho := hopen w' hne hk'
      cases hx : s.workers w' with
      | idle => trivial
      | saveRequest k₁ payload => trivial
      | erasing k₁ r₁ => simp [hx, Worker.isErasing] at ho
      | freeRequest k₁ =>
        rw [hx] at hf
        exact hf
      | receiving k₁ r₁ payload got | sending k₁ r₁ isCache expected sent =>
        rw [hx] at hf hk'
        cases hk'
        exact absurd hf.2.2.1 hloud
      | getRequest k₁ isCache expected =>
        rw [hx] at hf hk'
        cases hk'
        exact ⟨fun p hp => absurd (hf.1 p hp).2 hloud, hf.2⟩
    · intro w₁ w₂ h₁ h₂ heq
      have e₁ := (hkey w₁ h₁).2
      have e₂ := (hkey w₂ h₂).2
      rw [e₁] at h₁ heq
      rw [e₂] at h₂ heq
      exact (hi.keys k).one w₁ w₂ h₁ h₂ heq
    · intro w' hk' he'
      obtain ⟨-, heq⟩ := hkey w' hk'
      rw [heq] at hk' he'
      exact (hi.keys k).waits w' hk' he'
    · intro p hp
      cases hs.symm.trans hp

theorem Inv.release (hi : s.Inv) {r : ℕ} (hw : s.workers w = .freeRequest k) (hq : s.Quiet k)
    (ht : s.tenantPods k = some r) : ((s.remove k r).reply w k .idle).Inv := by
  have hs : s.saved k = none := fits_self hi hw rfl
  have hk : (s.workers w).key = some k := by
    rw [hw]
    rfl
  have hal := (hi.keys k).alone hk hq
  obtain ⟨hother, hlive⟩ := hi.removed ht
  refine hi.next rfl (.inl rfl) (.inr hk) ?_ hi.up (fun k' r' hr' => (hlive k' r' hr').2)
    (fun k₁ k₂ r' h₁ h₂ => hi.inj k₁ k₂ r' (hlive k₁ r' h₁).1 (hlive k₂ r' h₂).1)
    (KeyOk.of_alone (s := s) rfl hal trivial nofun ?_) hi.right
  · intro k' hne
    exact ⟨(hother k' hne).1, rfl, update_of_ne hne _ _, (hother k' hne).2⟩
  · intro p hp
    cases hs.symm.trans hp

/-- Every calm step keeps the invariant. -/
theorem Inv.step (hi : s.Inv) {a : Act} (hc : s.Calm w a) (hs : s.step w a = some s') : s'.Inv := by
  cases a with
  | save key payload =>
    rw [Server.step] at hs
    split at hs
    · cases hs
      rename_i hcond
      exact hi.request hcond.1 hcond.2 rfl rfl rfl rfl rfl rfl rfl rfl rfl (fun _ _ => rfl)
        (.inl rfl) trivial
    · cases hs
  | get key isCache =>
    rw [Server.step] at hs
    split at hs
    · cases hs
      rename_i hcond
      refine hi.request (k := key) hcond.1 hcond.2 rfl rfl rfl rfl rfl rfl rfl rfl rfl ?_ ?_
        ⟨?_, ?_⟩
      · intro k' hne
        cases isCache
        · exact update_of_ne hne _ _
        · rfl
      · cases isCache
        · exact .inr (update_self _ _ _)
        · exact .inl rfl
      · intro p hp
        obtain ⟨hh, hq⟩ := (hi.keys key).saved p hp
        exact ⟨hh, quiet_request hq rfl rfl⟩
      · rintro rfl
        exact update_self _ _ _
    · cases hs
  | free key =>
    rw [Server.step] at hs
    split at hs
    · cases hs
      rename_i hcond
      exact hi.request hcond.1 hcond.2 rfl rfl rfl rfl rfl rfl rfl rfl rfl
        (fun k' hne => update_of_ne hne _ _) (.inr (update_self _ _ _))
        (update_self _ _ _)
    · cases hs
  | refuse =>
    cases hx : s.workers w with
    | saveRequest k payload =>
      simp only [Server.step, hx] at hs
      cases hs
      exact hi.leave rfl (by rw [hx]; rfl) (by rw [hx]; rfl) rfl rfl rfl rfl rfl
        (fun k' hne => update_of_ne hne _ _) (fun y hy => .inl hy)
    | _ => simp [Server.step, hx] at hs
  | insert =>
    cases hx : s.workers w with
    | saveRequest k payload =>
      simp only [Calm, hx] at hc
      simp only [Server.step, hx, hc.1, if_true] at hs
      cases hs
      exact hi.insert hx hc.1 hc.2
    | _ => simp [Server.step, hx] at hs
  | receive n =>
    cases hx : s.workers w with
    | receiving k r payload got =>
      obtain ⟨hne, hinv⟩ := hi.receive (n := n) hx
      simp only [Server.step, hx, hne, if_false] at hs
      split at hs
      · cases hs
        exact hinv
      · cases hs
    | _ => simp [Server.step, hx] at hs
  | done =>
    cases hx : s.workers w with
    | receiving k r payload got =>
      simp only [Server.step, hx] at hs
      split at hs
      · cases hs
        rename_i hgot
        subst hgot
        exact hi.done hx
      · cases hs
    | _ => simp [Server.step, hx] at hs
  | lookup =>
    cases hx : s.workers w with
    | getRequest k isCache expected =>
      simp only [Calm, hx] at hc
      cases ht : s.tenantPods k with
      | none =>
        simp only [Server.step, hx, ht] at hs
        cases hs
        exact hi.lookup_miss hx ht
      | some r =>
        simp only [Server.step, hx, ht] at hs
        cases hs
        exact hi.lookup_hit hx hc ht
    | _ => simp [Server.step, hx] at hs
  | send n =>
    cases hx : s.workers w with
    | sending k r isCache expected sent =>
      obtain ⟨-, ⟨bytes, hb, -⟩, -⟩ := fits_self hi hx rfl
      simp only [Server.step, hx, hb] at hs
      split at hs
      · cases hs
        exact hi.send hx hb
      · cases hs
    | _ => simp [Server.step, hx] at hs
  | finish =>
    cases hx : s.workers w with
    | sending k r isCache expected sent =>
      obtain ⟨-, ⟨bytes, hb, -⟩, -⟩ := fits_self hi hx rfl
      simp only [Server.step, hx, hb] at hs
      split at hs
      · cases hs
        rename_i hlen
        exact hi.finish hx hb hlen
      · cases hs
    | _ => simp [Server.step, hx] at hs
  | erase =>
    cases hx : s.workers w with
    | erasing k r =>
      obtain ⟨hcond, hinv⟩ := hi.erase hx
      simp only [Server.step, hx, hcond, ne_eq, not_false_eq_true, and_self, if_true] at hs
      cases hs
      exact hinv
    | _ => simp [Server.step, hx] at hs
  | release =>
    cases hx : s.workers w with
    | freeRequest k =>
      simp only [Calm, hx] at hc
      cases ht : s.tenantPods k with
      | none =>
        simp only [Server.step, hx, ht] at hs
        cases hs
        exact hi.leave rfl (by rw [hx]; rfl) (by rw [hx]; rfl) rfl rfl rfl rfl rfl
          (fun k' hne => update_of_ne hne _ _) (fun y hy => .inl hy)
      | some r =>
        simp only [Server.step, hx, ht] at hs
        cases hs
        exact hi.release hx hc ht
    | _ => simp [Server.step, hx] at hs
  | fail =>
    cases hx : s.workers w with
    | receiving k r payload got | sending k r isCache expected sent =>
      simp only [Server.step, hx] at hs
      cases hs
      exact hi.leave (k := k) rfl (by rw [hx]; rfl) (by rw [hx]; rfl) rfl rfl rfl rfl rfl
        (fun _ _ => rfl) (fun y hy => .inl hy)
    | _ => simp [Server.step, hx] at hs

theorem empty_inv : empty.Inv where
  up := rfl
  live k r hr := by cases hr
  inj k k' r hr := by cases hr
  keys k := ⟨nofun, nofun, nofun, nofun⟩
  right x hx := by cases hx

theorem CalmRun.inv (h : CalmRun s) : s.Inv := by
  induction h with
  | start => exact empty_inv
  | step _ hc hs ih => exact ih.step hc hs

/-- On calm runs the server does not crash, and every fetch and cache fetch that was issued
after an acknowledged save, with no fetch or free in between, returns its bytes. -/
theorem latest_save_wins (h : CalmRun s) :
    s.crashed = false ∧ ∀ x ∈ s.answers, ∀ p, x.expected = some p → x.reply = some p :=
  ⟨h.inv.up, h.inv.right⟩

theorem quiet_of_idle (h : ∀ n, s.workers (n + 1) = .idle)
    (h0 : (s.workers 0).isErasing = false) : s.Quiet k := by
  intro w hk
  cases w with
  | zero => exact h0
  | succ n =>
    rw [h n] at hk
    cases hk

/-- A page is saved and fetched into a cache. -/
theorem latest_save_wins_sample : ∃ s, CalmRun s ∧ s.crashed = false ∧
    ⟨"3", some [7], some [7]⟩ ∈ s.answers := by
  have h1 : CalmRun _ := .step (w := 0) (a := .save "3" [7]) .start trivial rfl
  have h2 : CalmRun _ := .step (w := 0) (a := .insert) h1
    ⟨rfl, quiet_of_idle (fun _ => rfl) rfl⟩ rfl
  have h3 : CalmRun _ := .step (w := 0) (a := .receive 1) h2 trivial rfl
  have h4 : CalmRun _ := .step (w := 0) (a := .done) h3 trivial rfl
  have h5 : CalmRun _ := .step (w := 0) (a := .get "3" true) h4 trivial rfl
  have h6 : CalmRun _ := .step (w := 0) (a := .lookup) h5 (quiet_of_idle (fun _ => rfl) rfl) rfl
  have h7 : CalmRun _ := .step (w := 0) (a := .send 1) h6 trivial rfl
  have h8 : CalmRun _ := .step (w := 0) (a := .finish) h7 trivial rfl
  exact ⟨_, h8, (latest_save_wins h8).1, mem_cons_self⟩

/-- The tenant fetches a page, saves its new content through another worker before the first
one erases the entry, and asks for it again. -/
def lostSave : List (ℕ × Act) :=
  [(0, .save "3" [7]), (0, .insert), (0, .receive 1), (0, .done),
    (0, .get "3" false), (0, .lookup), (0, .send 1), (0, .finish),
    (1, .save "3" [8]), (1, .insert), (1, .receive 1), (1, .done), (0, .erase),
    (2, .get "3" false), (2, .lookup)]

/-- The second save is acknowledged, and the fetch that follows it gets an error. -/
theorem save_lost : ∃ s, empty.run lostSave = some s ∧
    ∃ x ∈ s.answers, x.expected = some [8] ∧ x.reply = none := by
  have hrun : (empty.run lostSave).map answers =
      some [⟨"3", some [8], none⟩, ⟨"3", some [7], some [7]⟩] := by
    decide +kernel
  obtain ⟨s, hs, ha⟩ := Option.map_eq_some_iff.mp hrun
  exact ⟨s, hs, ⟨"3", some [8], none⟩, by simp [ha], rfl, rfl⟩

end Server

end Remon.Node
