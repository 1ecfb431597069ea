import Remon.Remote.Client

/-! # What a save promises to the compute node

A save that reports success should mean that the peer accepted the pod, took its whole payload
and confirmed it; a save that reports failure should leave the pod local. Any code that the
client does not know counts as consent, and the state is changed before the transfer and never
changed back.
-/

namespace Remon
open Lib Heap Fault

/-- The code of a reply of one word: a number, or the exception its parsing throws. -/
def replyCode (reply : Option (List UInt8)) : Option (Except Fault ℤ) :=
  match tokenizeString (replyText reply) with
  | [t] => some (stoi t)
  | _ => none

theorem replyCode_error {reply : Option (List UInt8)} {e : Fault}
    (h : replyCode reply = some (.error e)) : e = .uncaught := by
  have hstoi : ∀ t, stoi t = .error e → e = .uncaught := by
    intro t ht
    simp only [stoi] at ht
    split_ifs at ht <;> exact (Except.error.inj ht).symm
  rw [replyCode] at h
  split at h
  · exact hstoi _ (Option.some.inj h)
  · cases h

def Answered (reply : Option (List UInt8)) (f : RemoteFunction) : Prop :=
  replyCode reply = some (.ok f.code)

namespace Pod

variable (L : Layout)

def Acknowledged (p : Pod) (c : SaveScript) (sent : ℕ) : Prop :=
  Answered c.firstReply .savePodOK ∧ sent = p.getTailOffset L ∧
    Answered c.secondReply .savePodDONE

def StillLocal (p p' : Pod) : Prop :=
  p'.state = .local_ ∧ p'.prot = .readWrite ∧ p'.mem = p.mem

/-- Both outcomes of a save mean what they say, and the bundle releases the memory
only of a pod whose save was acknowledged. -/
def SaveSafe (p : Pod) (c : SaveScript) : Prop :=
  (∀ ok p' sent, p.savePodToRemote L c = .ok (ok, p', sent) →
    (ok = true → p.Acknowledged L c sent) ∧ (ok = false → p.StillLocal p')) ∧
  ∀ client p' sent, p.bundleSavePodToRemote L client c = .ok (true, p', sent) →
    p.Acknowledged L c sent

/-- The dialogues on which a save is all or nothing: the first reply is no single word,
no number, a refusal, or an acceptance that is followed by a complete payload and
a second reply that confirms it or is no number. -/
inductive SaveDialogue (p : Pod) (c : SaveScript) : Prop
  | noReply (h : replyCode c.firstReply = none)
  | notNumber {e : Fault} (h : replyCode c.firstReply = some (.error e))
  | refused (h : Answered c.firstReply .savePodErr)
  | saved (h : Answered c.firstReply .savePodOK)
      (hs : (sendPayload c.sends (p.getTailOffset L) 0 (p.getTailOffset L)).1 = true)
      (hr : Answered c.secondReply .savePodDONE)
  | crashed {e : Fault} (h : Answered c.firstReply .savePodOK)
      (hs : (sendPayload c.sends (p.getTailOffset L) 0 (p.getTailOffset L)).1 = true)
      (hr : replyCode c.secondReply = some (.error e))

end Pod

theorem sendPayload_sent {sends : ℕ → Option ℕ} {fuel k left : ℕ}
    (h : (sendPayload sends fuel k left).1 = true) : (sendPayload sends fuel k left).2 = left := by
  induction fuel generalizing k left with
  | zero =>
    simp only [sendPayload, decide_eq_true_eq] at h ⊢
    exact h.symm
  | succ fuel ih =>
    rw [sendPayload] at h ⊢
    by_cases hl : left = 0
    · simp [hl]
    · rw [if_neg hl] at h ⊢
      cases hk : sends k with
      | none => simp [hk] at h
      | some n =>
        simp only [hk] at h ⊢
        rw [ih h]
        omega

namespace Pod

variable {L : Layout} {p : Pod} {c : SaveScript}

def recordSent (L : Layout) (p : Pod) (t : ℕ) : Pod :=
  { p with
    debugTail := if t ≠ L.payloadSize then
        .owned (p.mem.bytes (L.payloadStart + t) dsize ++ p.mem.bytes (L.payloadEnd - dsize) dsize)
      else p.debugTail
    sentOffset := t }

theorem recordSent_debugTail_full {t : ℕ} (h : t = L.payloadSize) :
    (p.recordSent L t).debugTail = p.debugTail :=
  if_neg (not_not.mpr h)

theorem recordSent_debugTail_part {t : ℕ} (h : t ≠ L.payloadSize) :
    (p.recordSent L t).debugTail = .owned (p.mem.bytes (L.payloadStart + t) dsize ++
      p.mem.bytes (L.payloadEnd - dsize) dsize) :=
  if_pos h

/-- The second half of a save, by the outcome of its sends and its reply. -/
theorem highSpeedSendPod_eq (t : ℕ) : p.highSpeedSendPod L c t =
    if (sendPayload c.sends t 0 t).1 = true then
      match replyCode c.secondReply with
      | none => .ok (false, p.recordSent L t, t)
      | some (.error e) => .error e
      | some (.ok code) => .ok (decide (code ≠ RemoteFunction.savePodErr.code), p.recordSent L t, t)
    else .ok (false, p, (sendPayload c.sends t 0 t).2) := by
  by_cases hs : (sendPayload c.sends t 0 t).1 = true
  · have hsent := sendPayload_sent hs
    have hp : (if t ≠ L.payloadSize then
        { p with debugTail := .owned (p.mem.bytes (L.payloadStart + t) dsize ++
          p.mem.bytes (L.payloadEnd - dsize) dsize) } else p) =
        { p with debugTail := (p.recordSent L t).debugTail } := by
      by_cases ht : t = L.payloadSize <;> simp [recordSent, ht]
    simp only [highSpeedSendPod, hs, hsent, hp, Bool.not_true, Bool.false_eq_true, if_false,
      if_true, replyCode]
    rcases tokenizeString (replyText c.secondReply) with _ | ⟨reply, _ | ⟨_, _⟩⟩
    · rfl
    · dsimp only
      cases stoi reply with
      | error e => rfl
      | ok code =>
        by_cases he : code = RemoteFunction.savePodErr.code
        · simp [he, recordSent]
        · by_cases hd : code = RemoteFunction.savePodDONE.code <;> simp [he, recordSent]
    · rfl
  · simp only [highSpeedSendPod, hs, Bool.not_false, if_true, Bool.false_eq_true, if_false]

/-- A save, by its first reply. -/
theorem savePodToRemote_eq : p.savePodToRemote L c =
    match replyCode c.firstReply with
    | none => .ok (false, p, 0)
    | some (.error e) => .error e
    | some (.ok code) =>
      if code = RemoteFunction.savePodOK.code then do
        let (ok, q, sent) ← ({ p with state := .remote, prot := .read }).highSpeedSendPod L c
          (p.getTailOffset L)
        .ok (ok, { q with prot := if ok then .none else .readWrite }, sent)
      else .ok (decide (code ≠ RemoteFunction.savePodErr.code), p, 0) := by
  simp only [savePodToRemote, replyCode]
  rcases tokenizeString (replyText c.firstReply) with _ | ⟨reply, _ | ⟨_, _⟩⟩
  · rfl
  · dsimp only
    cases stoi reply with
    | error e => rfl
    | ok code =>
      by_cases hk : code = RemoteFunction.savePodOK.code
      · simp only [hk, if_true, ok_bind]
        cases ({ p with state := .remote, prot := .read }).highSpeedSendPod L c
            (p.getTailOffset L) with
        | error e => rfl
        | ok r =>
          obtain ⟨ok, q, sent⟩ := r
          cases ok <;> rfl
      · simp only [ok_bind, if_neg hk]
        by_cases he : code = RemoteFunction.savePodErr.code <;> simp [he]
  · rfl

theorem codes_ne : RemoteFunction.savePodOK.code ≠ RemoteFunction.savePodErr.code ∧
    RemoteFunction.savePodDONE.code ≠ RemoteFunction.savePodErr.code := by
  decide

theorem savePodToRemote_accepted (hok : Answered c.firstReply .savePodOK) :
    p.savePodToRemote L c =
      (({ p with state := .remote, prot := .read }).highSpeedSendPod L c (p.getTailOffset L) >>=
        fun r => .ok (r.1, { r.2.1 with prot := if r.1 then .none else .readWrite }, r.2.2)) := by
  rw [savePodToRemote_eq, hok]
  simp only [if_true]

/-- What the bundle makes of a pod whose save was acknowledged. -/
theorem bundleSavePodToRemote_acknowledged {q : Pod} {client sent : ℕ}
    (h : p.bundleSavePodToRemote L client c = .ok (true, q, sent)) (hk : p.Acknowledged L c sent) :
    q = ({ p.recordSent L (p.getTailOffset L) with prot := .none }).localToRemote L client := by
  obtain ⟨hok, -, hdone⟩ := hk
  rw [bundleSavePodToRemote, savePodToRemote_accepted hok, highSpeedSendPod_eq] at h
  by_cases hs : (sendPayload c.sends (p.getTailOffset L) 0 (p.getTailOffset L)).1 = true
  · rw [if_pos hs, hdone] at h
    simp only [ne_eq, codes_ne.2, not_false_eq_true, decide_true, ok_bind, if_true] at h
    cases h
    rfl
  · rw [if_neg hs] at h
    simp at h

theorem not_saveSafe_of_failed {q : Pod} {sent : ℕ}
    (hr : p.savePodToRemote L c = .ok (false, q, sent)) (hq : q.state = .remote) :
    ¬ p.SaveSafe L c := by
  intro hs
  have hl := ((hs.1 _ _ _ hr).2 rfl).1
  rw [hq] at hl
  cases hl

theorem SaveSafe.dialogue (hs : p.SaveSafe L c) : p.SaveDialogue L c := by
  cases h1 : replyCode c.firstReply with
  | none => exact .noReply h1
  | some r =>
    cases r with
    | error e => exact .notNumber h1
    | ok code =>
      by_cases hk : code = RemoteFunction.savePodOK.code
      · subst hk
        have hacc := savePodToRemote_accepted (p := p) (L := L) (c := c) h1
        rw [highSpeedSendPod_eq] at hacc
        by_cases hsend : (sendPayload c.sends (p.getTailOffset L) 0 (p.getTailOffset L)).1 = true
        · rw [if_pos hsend] at hacc
          cases h2 : replyCode c.secondReply with
          | none =>
            rw [h2] at hacc
            exact absurd hs (not_saveSafe_of_failed hacc rfl)
          | some r =>
            cases r with
            | error e => exact .crashed h1 hsend h2
            | ok code =>
              rw [h2] at hacc
              by_cases he : code = RemoteFunction.savePodErr.code
              · simp only [he, ne_eq, not_true_eq_false, decide_false, ok_bind] at hacc
                exact absurd hs (not_saveSafe_of_failed hacc rfl)
              · simp only [ne_eq, he, not_false_eq_true, decide_true, ok_bind] at hacc
                exact .saved h1 hsend ((hs.1 _ _ _ hacc).1 rfl).2.2
        · rw [if_neg hsend] at hacc
          exact absurd hs (not_saveSafe_of_failed hacc rfl)
      · by_cases he : code = RemoteFunction.savePodErr.code
        · subst he
          exact .refused h1
        · have htrue : p.savePodToRemote L c = .ok (true, p, 0) := by
            rw [savePodToRemote_eq, h1]
            simp [hk, he]
          have hans := ((hs.1 _ _ _ htrue).1 rfl).1
          rw [Answered, h1] at hans
          exact absurd (Except.ok.inj (Option.some.inj hans)) hk

/-- On a legal dialogue a save ends in one of three ways. -/
theorem SaveDialogue.cases (hd : p.SaveDialogue L c) :
    p.savePodToRemote L c = .ok (false, p, 0) ∨ p.savePodToRemote L c = .error .uncaught ∨
      ∃ q, p.savePodToRemote L c = .ok (true, q, p.getTailOffset L) ∧
        p.Acknowledged L c (p.getTailOffset L) := by
  cases hd with
  | noReply h =>
    rw [savePodToRemote_eq, h]
    exact .inl rfl
  | notNumber h =>
    rw [savePodToRemote_eq, h, replyCode_error h]
    exact .inr (.inl rfl)
  | refused h =>
    rw [savePodToRemote_eq, h]
    simp [codes_ne.1.symm]
  | saved h hs hr =>
    rw [savePodToRemote_accepted h, highSpeedSendPod_eq, if_pos hs, hr]
    simp only [ne_eq, codes_ne.2, not_false_eq_true, decide_true, ok_bind]
    exact .inr (.inr ⟨_, rfl, h, rfl, hr⟩)
  | crashed h hs hr =>
    rw [savePodToRemote_accepted h, highSpeedSendPod_eq, if_pos hs, hr, replyCode_error hr]
    exact .inr (.inl rfl)

/-- For every local pod a save is all or nothing exactly on the dialogues above. -/
theorem saveSafe_iff (hl : p.state = .local_) (hp : p.prot = .readWrite) :
    p.SaveSafe L c ↔ p.SaveDialogue L c := by
  constructor
  · exact SaveSafe.dialogue
  · intro hd
    rcases hd.cases with hr | hr | ⟨q, hr, hack⟩
    · refine ⟨?_, ?_⟩
      · rintro ok p' sent he
        obtain ⟨rfl, rfl, rfl⟩ : false = ok ∧ p = p' ∧ 0 = sent := by
          simpa [hr] using he
        exact ⟨fun hc => absurd hc Bool.false_ne_true, fun _ => ⟨hl, hp, rfl⟩⟩
      · rintro client p' sent he
        simp [bundleSavePodToRemote, hr] at he
    · refine ⟨?_, ?_⟩
      · rintro ok p' sent he
        simp [hr] at he
      · rintro client p' sent he
        simp [bundleSavePodToRemote, hr] at he
    · refine ⟨?_, ?_⟩
      · rintro ok p' sent he
        obtain ⟨rfl, rfl, rfl⟩ : true = ok ∧ q = p' ∧ p.getTailOffset L = sent := by
          simpa [hr] using he
        exact ⟨fun _ => hack, fun hc => absurd hc.symm Bool.false_ne_true⟩
      · rintro client p' sent he
        obtain ⟨-, rfl⟩ : _ ∧ p.getTailOffset L = sent := by
          simpa [bundleSavePodToRemote, hr] using he
        exact hack

/-- A local pod with one block of 64 bytes in use. -/
def samplePod : Pod where
  state := .local_
  index := 3
  heap := Session.sampleHeap
  prot := .readWrite
  swapPath := ""
  landlordClient := none
  sentOffset := 0
  debugTail := .null
  freeBuffer := []
  isFlushing := false
  rank := 0
  oldRank := 0

theorem saveSafe_iff_refused :
    samplePod.SaveSafe Session.sampleLayout ⟨some [56], fun _ => none, none⟩ :=
  (saveSafe_iff rfl rfl).mpr (.refused rfl)

/-- The reply `0` is taken for a save, although the peer accepted nothing. -/
theorem save_unknown_code :
    ¬ samplePod.SaveSafe Session.sampleLayout ⟨some [48], fun _ => none, none⟩ := by
  intro hs
  have hr : samplePod.savePodToRemote Session.sampleLayout ⟨some [48], fun _ => none, none⟩ =
      .ok (true, samplePod, 0) := by
    rfl
  have hc : replyCode (some [48]) = some (.ok 0) := by
    rfl
  have ha := ((hs.1 _ _ _ hr).1 rfl).1
  rw [Answered, hc] at ha
  exact absurd (Except.ok.inj (Option.some.inj ha)) (by decide)

end Pod

end Remon
