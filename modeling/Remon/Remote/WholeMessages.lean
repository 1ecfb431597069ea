import Remon.Remote.Framing

/-! # Commands and replies that are received whole

As long as every `recv` for a command or a reply returns the whole message, client and
server stay in step: what one of them has seen is what the other one has done, but for
the one message that is under way. A payload may come in any pieces.
-/

namespace Remon.Framing
open Function List

namespace Link

variable {s s' : Link} {n : ℕ}

theorem isWord_args (r : Request) : ∀ w ∈ r.dispatch.args, IsWord w := by
  intro w hw
  rcases mem_cons.mp hw with rfl | hw
  · exact isWord_decimal _
  · obtain ⟨n, -, rfl⟩ := mem_map.mp hw
    exact isWord_decimal n

theorem isWord_reply (f : RemoteFunction) (rest : List ℕ) :
    ∀ w ∈ decimal (number f) :: rest.map decimal, IsWord w := by
  intro w hw
  rcases mem_cons.mp hw with rfl | hw
  · exact isWord_decimal _
  · obtain ⟨n, -, rfl⟩ := mem_map.mp hw
    exact isWord_decimal n

theorem wire_eq (r : Request) : ∃ n, r.wire = r.text ++ List.replicate n 0 := by
  unfold Request.wire
  split
  · exact ⟨_, rfl⟩
  · exact ⟨_, rfl⟩
  · exact ⟨0, (append_nil _).symm⟩

theorem cString_wire (r : Request) : cString r.wire = r.text := by
  obtain ⟨n, hn⟩ := wire_eq r
  rw [hn]
  exact cString_eq (fun c hc => ne_zero_of_mem_words (isWord_args r) hc) n

theorem stoi_number (f : RemoteFunction) : stoi (decimal (number f)) = .ok f.code := by
  have h : number f < 2 ^ 31 := by
    cases f <;> decide
  rw [stoi_decimal h]
  rfl

theorem functionHandler_text (r : Request) : functionHandler r.text = .ok (.run r.dispatch) := by
  have hne : r.text ≠ [] := words_ne_nil _ (decimal_ne_nil _)
  have hfind : handled.find? (fun f => f.code = r.function.code) = some r.function := by
    cases r with
    | getPod isCache i => cases isCache <;> rfl
    | _ => rfl
  rw [functionHandler, if_neg hne, Request.text, tokenizeString_words (isWord_args r)]
  simp only [Request.dispatch, stoi_number, Fault.ok_bind, hfind]
  rfl

theorem number_lt (f : RemoteFunction) : number f < 10 ^ 2 := by
  cases f <;> decide

theorem length_args_le {r : Request} (hf : r.Fits) : ∀ w ∈ r.dispatch.args, w.length ≤ 20 := by
  have hword : ∀ n, n < 2 ^ 64 → (decimal n).length ≤ 20 :=
    fun n hn => length_decimal_le (by norm_num) (hn.trans (by norm_num))
  have hcode : (decimal (number r.function)).length ≤ 20 :=
    hword _ ((number_lt _).trans (by norm_num))
  cases r with
  | savePod i p =>
    have h2 := hword p.length (hf.2.2.trans (by norm_num))
    simpa [Request.dispatch, Request.numbers] using ⟨hcode, hword i hf.1, h2⟩
  | getPod isCache i | freePod i =>
    simpa [Request.dispatch, Request.numbers] using ⟨hcode, hword i hf⟩
  | contextInit => simpa [Request.dispatch, Request.numbers] using hcode
  | contextRegister key =>
    have h1 := hword key (lt_trans hf (by norm_num))
    simpa [Request.dispatch, Request.numbers] using ⟨hcode, h1⟩

theorem canRecv_wire {r : Request} (hf : r.Fits) :
    CanRecv r.wire remonBufferSize r.wire.length := by
  have hpos : 0 < r.text.length := length_pos_iff.mpr (words_ne_nil _ (decimal_ne_nil _))
  have hlen : r.dispatch.args.length ≤ 3 := by cases r <;> simp [Request.dispatch, Request.numbers]
  have hle : r.text.length ≤ 63 := (length_words_le (length_args_le hf)).trans (by omega)
  have hbuf : remonBufferSize = 1024 := rfl
  have hwire : r.wire.length = r.text.length ∨ r.wire.length = remonBufferSize := by
    unfold Request.wire padded
    split
    · right
      rw [length_append, length_replicate]
      omega
    · right
      rw [length_append, length_replicate]
      omega
    · exact .inl rfl
  refine ⟨?_, ?_, le_rfl⟩ <;> omega

theorem recvCommand_whole {r : Request} (env : Env) (hs : s.server = .command)
    (hr : s.toServer = r.wire) (hf : r.Fits) : s.recvCommand s.toServer.length env =
      some ({ s with toServer := [] }.serve r.dispatch env) := by
  have hcan := canRecv_wire hf
  rw [← hr] at hcan
  simp only [recvCommand, hs, if_pos hcan, take_length, drop_length]
  rw [hr, cString_wire]
  simp only [functionHandler_text]

def replyBytes (f : RemoteFunction) (rest : List ℕ) : List UInt8 :=
  words (decimal (number f) :: rest.map decimal)

theorem canRecv_reply {f : RemoteFunction} {rest : List ℕ} (hr : ∀ n ∈ rest, n < 2 ^ 31)
    (hlen : rest.length ≤ 1) :
    CanRecv (replyBytes f rest) remonBufferSize (replyBytes f rest).length := by
  have hpos : 0 < (replyBytes f rest).length :=
    length_pos_iff.mpr (words_ne_nil _ (decimal_ne_nil _))
  have hle : (replyBytes f rest).length ≤ (rest.length + 1) * 21 := by
    refine (length_words_le (k := 20) ?_).trans (by simp)
    intro w hw
    rcases mem_cons.mp hw with rfl | hw
    · exact length_decimal_le (by norm_num) ((number_lt f).trans (by norm_num))
    · obtain ⟨n, hn, rfl⟩ := mem_map.mp hw
      exact length_decimal_le (by norm_num) ((hr n hn).trans (by norm_num))
  have hbuf : remonBufferSize = 1024 := rfl
  refine ⟨hpos, ?_, le_rfl⟩
  omega

theorem readReply_whole {f : RemoteFunction} {rest : List ℕ} (hf : s.toClient = replyBytes f rest)
    (hk : replyWords s.client = some (rest.length + 1)) (hr : ∀ n ∈ rest, n < 2 ^ 31)
    (hlen : rest.length ≤ 1) :
    s.readReply s.toClient.length = some ({ s with toClient := [] }.gotReply f.code) := by
  have hc : cString (replyBytes f rest) = replyBytes f rest := by
    have := cString_eq (fun c hc => ne_zero_of_mem_words (isWord_reply f rest) hc) 0
    rwa [replicate_zero, append_nil] at this
  have hcan := canRecv_reply (f := f) hr hlen
  rw [← hf] at hcan
  simp only [readReply, hk, if_pos hcan, take_length, drop_length]
  rw [hf, hc, replyBytes, tokenizeString_words (isWord_reply f rest)]
  simp only [length_map, if_true, stoi_number]

/-! ## Both sides agree -/

/-- What one side has seen is what the other side has done, but for what is under way. -/
structure Logs (s : Link) (ds : List Dispatch) (ps : List (List UInt8 × List UInt8))
    (bs : List (List UInt8)) (codes : List ℤ) : Prop where
  dispatched : s.issued.map Request.dispatch = s.dispatched ++ ds
  saved : s.shipped = s.saved ++ ps
  fetched : s.served = s.fetched ++ bs
  parsed : s.replies = s.parsed ++ codes
  running : s.fault = none

def Stored (s : Link) (busy : Option ℕ) : Prop :=
  ∀ i, busy ≠ some i →
    (s.remote i = true → ∃ b, s.store (decimal i) = some b ∧ b.length = s.sentOffset i ∧
      0 < b.length) ∧ (s.remote i = false → s.store (decimal i) = none)

/-- The points that client and server can be at together. -/
inductive Sync (s : Link) : Prop
  | idle (hc : s.client = .idle) (hs : s.server = .command) (h1 : s.toServer = [])
      (h2 : s.toClient = []) (hl : Logs s [] [] [] []) (hst : Stored s none)
  | sent (r : Request) (hc : s.client = s.phaseOf r) (hs : s.server = .command)
      (h1 : s.toServer = r.wire) (h2 : s.toClient = []) (hl : Logs s [r.dispatch] [] [] [])
      (hst : Stored s none) (hf : r.Fits) (hr : s.Issuable r)
  | accepted (i : ℕ) (p : List UInt8) (hc : s.client = .awaitOk i p)
      (hs : s.server = .receiving (decimal i) p.length []) (h1 : s.toServer = [])
      (h2 : s.toClient = replyBytes .savePodOK [])
      (hl : Logs s [] [] [] [RemoteFunction.savePodOK.code]) (hst : Stored s none)
      (hr : s.remote i = false) (hp : 0 < p.length)
  | shipping (i : ℕ) (p got : List UInt8) (hc : s.client = .awaitDone i)
      (hs : s.server = .receiving (decimal i) p.length got) (h1 : got ++ s.toServer = p)
      (h2 : s.toClient = []) (hl : Logs s [] [(decimal i, p)] [] []) (hst : Stored s none)
      (hr : s.remote i = false) (hp : 0 < p.length) (ho : s.sentOffset i = p.length)
  | saved (i : ℕ) (p : List UInt8) (hc : s.client = .awaitDone i) (hs : s.server = .command)
      (h1 : s.toServer = []) (h2 : s.toClient = replyBytes .savePodDONE [])
      (hl : Logs s [] [] [] [RemoteFunction.savePodDONE.code]) (hst : Stored s (some i))
      (hp : 0 < p.length) (ho : s.sentOffset i = p.length) (hb : s.store (decimal i) = some p)
  | refused (i : ℕ) (p : List UInt8) (hc : s.client = .awaitOk i p) (hs : s.server = .command)
      (h1 : s.toServer = []) (h2 : s.toClient = replyBytes .savePodErr [])
      (hl : Logs s [] [] [] [RemoteFunction.savePodErr.code]) (hst : Stored s none)
  | fetching (isCache : Bool) (i : ℕ) (got bytes : List UInt8)
      (hc : s.client = .fetching isCache i s.toClient.length got) (hs : s.server = .command)
      (h1 : s.toServer = []) (h2 : got ++ s.toClient = bytes) (hne : s.toClient ≠ [])
      (hl : Logs s [] [] [bytes] []) (hst : Stored s (if isCache then none else some i))
      (hb : isCache = false → s.store (decimal i) = none)
  | freed (i : ℕ) (hc : s.client = .awaitFree i) (hs : s.server = .command)
      (h1 : s.toServer = []) (h2 : s.toClient = replyBytes .freePodOk [])
      (hl : Logs s [] [] [] [RemoteFunction.freePodOk.code]) (hst : Stored s (some i))
      (hb : s.store (decimal i) = none)
  | keyed (tid : Fin (2 ^ 31)) (hc : s.client = .awaitKey) (hs : s.server = .command)
      (h1 : s.toServer = []) (h2 : s.toClient = replyBytes .contextInitOk [tid.val])
      (hl : Logs s [] [] [] [RemoteFunction.contextInitOk.code]) (hst : Stored s none)
  | registered (hc : s.client = .awaitRegister) (hs : s.server = .command)
      (h1 : s.toServer = []) (h2 : s.toClient = replyBytes .contextRegisterOk [])
      (hl : Logs s [] [] [] [RemoteFunction.contextRegisterOk.code]) (hst : Stored s none)

theorem sync_init : Sync init := by
  refine .idle rfl rfl rfl rfl ⟨rfl, rfl, rfl, rfl, rfl⟩ ?_
  intro i _
  simp [init]

theorem Stored.fetch_phase {isCache : Bool} {i : ℕ} (h : Stored s none) (hr : s.remote i = true) :
    s.phaseOf (.getPod isCache i) = .fetching isCache i (s.sentOffset i) [] := by
  obtain ⟨b, -, hlen, hpos⟩ := (h i (by simp)).1 hr
  rw [phaseOf, if_neg (by omega)]

theorem Sync.of_idle (h : Sync s) (hc : s.client = .idle) : s.server = .command ∧
    s.toServer = [] ∧ s.toClient = [] ∧ Logs s [] [] [] [] ∧ Stored s none := by
  cases h with
  | idle _ hs h1 h2 hl hst => exact ⟨hs, h1, h2, hl, hst⟩
  | sent r hc' _ _ _ _ hst _ hr =>
    rw [hc] at hc'
    cases r with
    | getPod isCache i =>
      rw [hst.fetch_phase hr] at hc'
      cases hc'
    | _ => cases hc'
  | accepted i p hc' => rw [hc] at hc'; cases hc'
  | shipping i p got hc' => rw [hc] at hc'; cases hc'
  | saved i p hc' => rw [hc] at hc'; cases hc'
  | refused i p hc' => rw [hc] at hc'; cases hc'
  | fetching isCache i got bytes hc' => rw [hc] at hc'; cases hc'
  | freed i hc' => rw [hc] at hc'; cases hc'
  | keyed tid hc' => rw [hc] at hc'; cases hc'
  | registered hc' => rw [hc] at hc'; cases hc'

theorem sync_issue {r : Request} (h : Sync s) (hc : s.client = .idle) (hf : r.Fits)
    (hr : s.Issuable r) : Sync (s.issue r) := by
  obtain ⟨hs, h1, h2, hl, hst⟩ := h.of_idle hc
  refine .sent r rfl hs ?_ h2 ⟨?_, hl.saved, hl.fetched, hl.parsed, hl.running⟩ hst hf ?_
  · rw [issue, h1, nil_append]
  · have := hl.dispatched
    rw [append_nil] at this
    simp [issue, this]
  · cases r <;> exact hr

/-- Logs of a state in which a reply was sent. -/
theorem Logs.reply {t : Link} {r : Request} {code : ℤ} (h : Logs s [r.dispatch] [] [] [])
    (hi : t.issued = s.issued) (hd : t.dispatched = s.dispatched ++ [r.dispatch])
    (hsh : t.shipped = s.shipped) (hsa : t.saved = s.saved) (hse : t.served = s.served)
    (hfe : t.fetched = s.fetched) (hrp : t.replies = s.replies ++ [code])
    (hpa : t.parsed = s.parsed) (hft : t.fault = s.fault) : Logs t [] [] [] [code] := by
  refine ⟨?_, ?_, ?_, ?_, hft.trans h.running⟩
  · rw [hi, hd, append_nil, h.dispatched]
  · rw [hsh, hsa, h.saved]
  · rw [hse, hfe, h.fetched]
  · rw [hrp, hpa, h.parsed, append_nil]

/-- Erasing the entry of one pod is no matter for the others. -/
theorem Stored.erase {t : Link} {i : ℕ} (h : Stored s none) (hr : t.remote = s.remote)
    (ho : t.sentOffset = s.sentOffset) (hst : t.store = update s.store (decimal i) none) :
    Stored t (some i) := by
  intro j hj
  have hne : decimal j ≠ decimal i := fun he => hj (by rw [decimal_injective he])
  rw [hr, ho, hst, update_of_ne hne]
  exact h j (by simp)

theorem sync_recvCommand {env : Env} (h : Sync s)
    (run : s.recvCommand s.toServer.length env = some s') : Sync s' := by
  cases h with
  | sent r hc hs h1 h2 hl hst hf hr =>
    rw [recvCommand_whole env hs h1 hf] at run
    cases run
    cases r with
    | savePod i p =>
      have hstol : stol (decimal p.length) = .ok (p.length : ℤ) := stol_decimal hf.2.2
      simp only [serve, Request.dispatch, Request.function, Request.numbers, map_cons,
        map_nil, savePodHandler]
      split
      next =>
        refine .refused i p hc hs rfl ?_ (hl.reply rfl rfl rfl rfl rfl rfl rfl rfl rfl) hst
        simp [Link.reply, h2, replyBytes]
      next =>
        simp only [hstol, Int.toNat_natCast]
        refine .accepted i p hc rfl rfl ?_ (hl.reply rfl rfl rfl rfl rfl rfl rfl rfl rfl) hst hr
          hf.2.1
        simp [Link.reply, h2, replyBytes]
    | getPod isCache i =>
      obtain ⟨b, hb, hlen, hpos⟩ := (hst i (by simp)).1 hr
      rw [hst.fetch_phase hr] at hc
      have hfetch : ∀ t : Link, t = { s with
          toServer := []
          dispatched := s.dispatched ++ [(Request.getPod isCache i).dispatch]
          toClient := s.toClient ++ b
          served := s.served ++ [b]
          store := if isCache then s.store else update s.store (decimal i) none } →
          Sync t := by
        rintro t rfl
        refine .fetching isCache i [] b ?_ hs rfl ?_ ?_ ⟨?_, hl.saved, ?_, hl.parsed,
          hl.running⟩ ?_ ?_
        · change s.client = .fetching isCache i (s.toClient ++ b).length []
          rw [hc, h2, nil_append, hlen]
        · change [] ++ (s.toClient ++ b) = b
          rw [h2, nil_append, nil_append]
        · change s.toClient ++ b ≠ []
          rw [h2, nil_append]
          exact ne_nil_of_length_pos hpos
        · change s.issued.map Request.dispatch = s.dispatched ++ [_] ++ []
          rw [append_nil, hl.dispatched]
        · change s.served ++ [b] = s.fetched ++ [b]
          rw [hl.fetched, append_nil]
        · cases isCache with
          | false => exact hst.erase rfl rfl rfl
          | true => exact hst
        · rintro rfl
          exact update_self _ _ _
      cases isCache with
      | false | true =>
        apply hfetch
        simp [serve, Request.dispatch, Request.function, Request.numbers, getPodHandler, hb]
    | freePod i =>
      refine .freed i hc hs rfl ?_ (hl.reply rfl rfl rfl rfl rfl rfl rfl rfl rfl)
        (hst.erase rfl rfl rfl) ?_
      · simp [serve, Request.dispatch, Request.function, Request.numbers, freePodHandler,
          Link.reply,
          h2, replyBytes]
      · exact update_self _ _ _
    | contextInit =>
      refine .keyed env.tid hc hs rfl ?_ (hl.reply rfl rfl rfl rfl rfl rfl rfl rfl rfl) hst
      simp [serve, Request.dispatch, Request.function, Request.numbers, contextInitHandler,
        Link.reply, h2, replyBytes]
    | contextRegister key =>
      have hstoi : stoi (decimal key) = .ok (key : ℤ) := stoi_decimal hf
      simp only [serve, Request.dispatch, Request.function, Request.numbers, map_cons,
        map_nil, contextRegisterHandler, hstoi]
      refine .registered hc hs rfl ?_ (hl.reply rfl rfl rfl rfl rfl rfl rfl rfl rfl) hst
      simp [Link.reply, h2, replyBytes]
  | idle _ hs h1 => simp [recvCommand, hs, h1, not_canRecv_nil] at run
  | accepted i p hc hs => simp [recvCommand, hs] at run
  | shipping i p got hc hs => simp [recvCommand, hs] at run
  | saved i p hc hs h1 => simp [recvCommand, hs, h1, not_canRecv_nil] at run
  | refused i p hc hs h1 => simp [recvCommand, hs, h1, not_canRecv_nil] at run
  | fetching isCache i got bytes hc hs h1 => simp [recvCommand, hs, h1, not_canRecv_nil] at run
  | freed i hc hs h1 => simp [recvCommand, hs, h1, not_canRecv_nil] at run
  | keyed tid hc hs h1 => simp [recvCommand, hs, h1, not_canRecv_nil] at run
  | registered hc hs h1 => simp [recvCommand, hs, h1, not_canRecv_nil] at run

theorem sync_recvPayload (h : Sync s) (run : s.recvPayload n = some s') : Sync s' := by
  cases h with
  | shipping i p got hc hs h1 h2 hl hst hr hp ho =>
    simp only [recvPayload, hs] at run
    split at run
    · cases run
      refine .shipping i p (got ++ s.toServer.take n) hc rfl ?_ h2
        ⟨hl.dispatched, hl.saved, hl.fetched, hl.parsed, hl.running⟩ hst hr hp ho
      rw [append_assoc, take_append_drop, h1]
    · cases run
  | accepted i p hc hs h1 => simp [recvPayload, hs, h1, not_canRecv_nil] at run
  | idle _ hs => simp [recvPayload, hs] at run
  | sent r hc hs => simp [recvPayload, hs] at run
  | saved i p hc hs => simp [recvPayload, hs] at run
  | refused i p hc hs => simp [recvPayload, hs] at run
  | fetching isCache i got bytes hc hs => simp [recvPayload, hs] at run
  | freed i hc hs => simp [recvPayload, hs] at run
  | keyed tid hc hs => simp [recvPayload, hs] at run
  | registered hc hs => simp [recvPayload, hs] at run

theorem sync_finishSave (h : Sync s) (run : s.finishSave = some s') : Sync s' := by
  cases h with
  | shipping i p got hc hs h1 h2 hl hst hr hp ho =>
    simp only [finishSave, hs] at run
    split at run
    next hlen =>
      have hnil : s.toServer = [] := by
        have := congrArg List.length h1
        rw [length_append] at this
        exact eq_nil_of_length_eq_zero (by omega)
      rw [hnil, append_nil] at h1
      subst h1
      have hfree := (hst i (by simp)).2 hr
      rw [if_pos hfree] at run
      cases run
      refine .saved i got hc rfl hnil ?_ ⟨?_, ?_, hl.fetched, ?_, hl.running⟩ ?_ hp ho ?_
      · simp [Link.reply, h2, replyBytes]
      · exact hl.dispatched
      · change s.shipped = s.saved ++ [(decimal i, got)] ++ []
        rw [append_nil, hl.saved]
      · change s.replies ++ [_] = s.parsed ++ [_]
        rw [hl.parsed, append_nil]
      · intro j hj
        have hne : decimal j ≠ decimal i := fun he => hj (by rw [decimal_injective he])
        change (s.remote j = true →
          ∃ b, update s.store (decimal i) (some got) (decimal j) =
          some b ∧ b.length = s.sentOffset j ∧ 0 < b.length) ∧ (s.remote j = false →
            update s.store (decimal i) (some got) (decimal j) = none)
        rw [update_of_ne hne]
        exact hst j (by simp)
      · exact update_self _ _ _
    · cases run
  | accepted i p hc hs h1 h2 hl hst hr hp =>
    simp only [finishSave, hs, length_nil] at run
    rw [if_neg (by omega)] at run
    cases run
  | idle _ hs => simp [finishSave, hs] at run
  | sent r hc hs => simp [finishSave, hs] at run
  | saved i p hc hs => simp [finishSave, hs] at run
  | refused i p hc hs => simp [finishSave, hs] at run
  | fetching isCache i got bytes hc hs => simp [finishSave, hs] at run
  | freed i hc hs => simp [finishSave, hs] at run
  | keyed tid hc hs => simp [finishSave, hs] at run
  | registered hc hs => simp [finishSave, hs] at run

/-- Logs of a state in which the pending reply was parsed. -/
theorem Logs.parse {t : Link} {code : ℤ} (h : Logs s [] [] [] [code]) (hi : t.issued = s.issued)
    (hd : t.dispatched = s.dispatched) (hsh : t.shipped = s.shipped) (hsa : t.saved = s.saved)
    (hse : t.served = s.served) (hfe : t.fetched = s.fetched) (hrp : t.replies = s.replies)
    (hpa : t.parsed = s.parsed ++ [code]) (hft : t.fault = s.fault) : Logs t [] [] [] [] := by
  refine ⟨?_, ?_, ?_, ?_, hft.trans h.running⟩
  · rw [hi, hd, h.dispatched]
  · rw [hsh, hsa, h.saved]
  · rw [hse, hfe, h.fetched]
  · rw [hrp, hpa, h.parsed, append_nil]

/-- The busy pod is the client's again or the server's for good. -/
theorem Stored.settle {t : Link} {i : ℕ} {b : Bool} (h : Stored s (some i))
    (hr : t.remote = update s.remote i b) (ho : t.sentOffset = s.sentOffset)
    (hst : t.store = s.store)
    (hb : b = true → ∃ p, s.store (decimal i) = some p ∧ p.length = s.sentOffset i ∧ 0 < p.length)
    (hnb : b = false → s.store (decimal i) = none) : Stored t none := by
  intro j _
  rw [hr, ho, hst]
  by_cases hj : j = i
  · rw [hj, update_self]
    exact ⟨hb, hnb⟩
  · rw [update_of_ne hj]
    exact h j (by simpa using fun he => hj he.symm)

theorem sync_readReply (h : Sync s) (run : s.readReply s.toClient.length = some s') : Sync s' := by
  cases h with
  | accepted i p hc hs h1 h2 hl hst hr hp =>
    rw [readReply_whole h2 (by rw [hc]; rfl) (by simp) (by simp)] at run
    cases run
    simp only [gotReply, hc, savePodToRemote, if_true]
    refine .shipping i p [] rfl hs ?_ rfl ⟨hl.dispatched, ?_, hl.fetched, ?_,
      hl.running⟩ ?_ hr hp ?_
    · simp [Link.parse, h1]
    · change s.shipped ++ [_] = s.saved ++ [_]
      rw [hl.saved, append_nil]
    · change s.replies = s.parsed ++ [_] ++ []
      rw [append_nil, hl.parsed]
    · intro j hj
      refine ⟨fun hrj => ?_, (hst j hj).2⟩
      have hji : j ≠ i := by
        rintro rfl
        rw [show s.remote j = true from hrj] at hr
        cases hr
      change ∃ b, s.store (decimal j) = some b ∧
        b.length = update s.sentOffset i p.length j ∧ 0 < b.length
      rw [update_of_ne hji]
      exact (hst j hj).1 hrj
    · exact update_self _ _ _
  | refused i p hc hs h1 h2 hl hst =>
    rw [readReply_whole h2 (by rw [hc]; rfl) (by simp) (by simp)] at run
    cases run
    have hne : RemoteFunction.savePodErr.code ≠ RemoteFunction.savePodOK.code := by decide
    simp only [gotReply, hc, savePodToRemote, hne, if_false, if_true]
    exact .idle rfl hs h1 rfl (hl.parse rfl rfl rfl rfl rfl rfl rfl rfl rfl) hst
  | saved i p hc hs h1 h2 hl hst hp ho hb =>
    rw [readReply_whole h2 (by rw [hc]; rfl) (by simp) (by simp)] at run
    cases run
    have hne : RemoteFunction.savePodDONE.code ≠ RemoteFunction.savePodErr.code := by decide
    simp only [gotReply, hc, highSpeedSendPod, hne, if_false]
    refine .idle rfl hs h1 rfl (hl.parse rfl rfl rfl rfl rfl rfl rfl rfl rfl) ?_
    exact hst.settle (b := true) rfl rfl rfl (fun _ => ⟨p, hb, ho.symm, hp⟩) (by simp)
  | freed i hc hs h1 h2 hl hst hb =>
    rw [readReply_whole h2 (by rw [hc]; rfl) (by simp) (by simp)] at run
    cases run
    simp only [gotReply, hc]
    refine .idle rfl hs h1 rfl (hl.parse rfl rfl rfl rfl rfl rfl rfl rfl rfl) ?_
    exact hst.settle (b := false) rfl rfl rfl (by simp) (fun _ => hb)
  | keyed tid hc hs h1 h2 hl hst | registered hc hs h1 h2 hl hst =>
    rw [readReply_whole h2 (by rw [hc]; rfl) (by simp) (by simp)] at run
    cases run
    simp only [gotReply, hc]
    exact .idle rfl hs h1 rfl (hl.parse rfl rfl rfl rfl rfl rfl rfl rfl rfl) hst
  | idle hc => simp [readReply, hc, replyWords] at run
  | fetching isCache i got bytes hc => simp [readReply, hc, replyWords] at run
  | shipping i p got hc hs h1 h2 => simp [readReply, hc, replyWords, h2, not_canRecv_nil] at run
  | sent r hc hs h1 h2 =>
    unfold readReply at run
    split at run
    · rw [h2, if_neg (not_canRecv_nil _ _)] at run
      cases run
    · cases run

theorem sync_readPayload (h : Sync s) (run : s.readPayload n = some s') : Sync s' := by
  cases h with
  | fetching isCache i got bytes hc hs h1 h2 hne hl hst hb =>
    simp only [readPayload, hc] at run
    split at run
    next hcan =>
      have hgot : got ++ s.toClient.take n ++ s.toClient.drop n = bytes := by
        rw [append_assoc, take_append_drop, h2]
      split at run
      next hn =>
        cases run
        have hdrop : s.toClient.drop n = [] := by rw [← hn, drop_length]
        rw [hdrop, append_nil] at hgot
        refine .idle rfl hs h1 hdrop ⟨hl.dispatched, hl.saved, ?_, hl.parsed, hl.running⟩ ?_
        · change s.served = s.fetched ++ [got ++ s.toClient.take n] ++ []
          rw [append_nil, hgot, hl.fetched]
        · cases isCache with
          | false => exact hst.settle (b := false) rfl rfl rfl (by simp) (fun _ => hb rfl)
          | true => exact hst
      next hn =>
        cases run
        refine .fetching isCache i (got ++ s.toClient.take n) bytes ?_ hs h1 hgot ?_
          ⟨hl.dispatched, hl.saved, hl.fetched, hl.parsed, hl.running⟩ hst hb
        · rw [length_drop]
        · have := hcan.2.2
          exact ne_nil_of_length_pos (by rw [length_drop]; omega)
    · cases run
  | sent r hc hs h1 h2 =>
    unfold readPayload at run
    split at run
    · rw [h2, if_neg (not_canRecv_nil _ _)] at run
      cases run
    · cases run
  | idle hc => simp [readPayload, hc] at run
  | accepted i p hc => simp [readPayload, hc] at run
  | shipping i p got hc => simp [readPayload, hc] at run
  | saved i p hc => simp [readPayload, hc] at run
  | refused i p hc => simp [readPayload, hc] at run
  | freed i hc => simp [readPayload, hc] at run
  | keyed tid hc => simp [readPayload, hc] at run
  | registered hc => simp [readPayload, hc] at run

theorem sync_wholeRun (hs : WholeRun s) : Sync s := by
  induction hs with
  | init => exact sync_init
  | issue _ r hc hf hr ih => exact sync_issue ih hc hf hr
  | act _ a hw _ run ih =>
    cases a with
    | recvCommand n env =>
      obtain rfl : n = _ := hw
      exact sync_recvCommand ih run
    | recvPayload n => exact sync_recvPayload ih run
    | finishSave => exact sync_finishSave ih run
    | readReply n =>
      obtain rfl : n = _ := hw
      exact sync_readReply ih run
    | readPayload n => exact sync_readPayload ih run

/-- While the client waits, one of the two sides can go on. -/
theorem Sync.progress (h : Sync s) (hidle : s.client ≠ .idle) :
    ∃ a s', s.Whole a ∧ s.act a = some s' := by
  have hreply : ∀ {f : RemoteFunction} {rest : List ℕ}, s.toClient = replyBytes f rest →
      replyWords s.client = some (rest.length + 1) → (∀ n ∈ rest, n < 2 ^ 31) →
      rest.length ≤ 1 → ∃ a s', s.Whole a ∧ s.act a = some s' :=
    fun h2 hk hr hlen => ⟨.readReply s.toClient.length, _, rfl, readReply_whole h2 hk hr hlen⟩
  cases h with
  | idle hc => exact absurd hc hidle
  | sent r hc hs h1 h2 hl hst hf hr =>
    exact ⟨.recvCommand s.toServer.length ⟨false, 0, 0⟩, _, rfl, recvCommand_whole _ hs h1 hf⟩
  | accepted i p hc hs h1 h2 => exact hreply h2 (by rw [hc]; rfl) (by simp) (by simp)
  | saved i p hc hs h1 h2 => exact hreply h2 (by rw [hc]; rfl) (by simp) (by simp)
  | refused i p hc hs h1 h2 => exact hreply h2 (by rw [hc]; rfl) (by simp) (by simp)
  | freed i hc hs h1 h2 => exact hreply h2 (by rw [hc]; rfl) (by simp) (by simp)
  | keyed tid hc hs h1 h2 => exact hreply h2 (by rw [hc]; rfl) (by simp) (by simp)
  | registered hc hs h1 h2 => exact hreply h2 (by rw [hc]; rfl) (by simp) (by simp)
  | shipping i p got hc hs h1 h2 hl hst hr hp ho =>
    have hlen := congrArg List.length h1
    rw [length_append] at hlen
    by_cases hnil : s.toServer = []
    · rw [hnil, length_nil] at hlen
      refine ⟨.finishSave, ?_⟩
      simp only [act, finishSave, hs]
      rw [if_pos (by omega)]
      exact ⟨_, trivial, rfl⟩
    · have hpos := length_pos_iff.mpr hnil
      have hcan : CanRecv s.toServer (min (p.length - got.length) ioRate) 1 :=
        ⟨le_rfl, le_min (by omega) (by decide), hpos⟩
      refine ⟨.recvPayload 1, ?_⟩
      simp only [act, recvPayload, hs, if_pos hcan]
      exact ⟨_, trivial, rfl⟩
  | fetching isCache i got bytes hc hs h1 h2 hne hl hst hb =>
    have hpos := length_pos_iff.mpr hne
    have hcan : CanRecv s.toClient (min s.toClient.length ioRate) 1 :=
      ⟨le_rfl, le_min hpos (by decide), hpos⟩
    refine ⟨.readPayload 1, ?_⟩
    simp only [act, readPayload, hc, if_pos hcan]
    split
    · exact ⟨_, trivial, rfl⟩
    · exact ⟨_, trivial, rfl⟩

/-- What has been seen is the beginning of what was done. -/
structure Faithful (s : Link) : Prop where
  dispatched : s.dispatched <+: s.issued.map Request.dispatch
  saved : s.saved <+: s.shipped
  parsed : s.parsed <+: s.replies
  fetched : s.fetched <+: s.served
  running : s.fault = none

theorem Logs.faithful {ds : List Dispatch} {ps : List (List UInt8 × List UInt8)}
    {bs : List (List UInt8)} {codes : List ℤ} (h : Logs s ds ps bs codes) : Faithful s :=
  ⟨⟨ds, h.dispatched.symm⟩, ⟨ps, h.saved.symm⟩, ⟨codes, h.parsed.symm⟩, ⟨bs, h.fetched.symm⟩,
    h.running⟩

theorem Sync.faithful (h : Sync s) : Faithful s := by
  cases h with
  | idle _ _ _ _ hl => exact hl.faithful
  | sent _ _ _ _ _ hl => exact hl.faithful
  | accepted _ _ _ _ _ _ hl => exact hl.faithful
  | shipping _ _ _ _ _ _ _ hl => exact hl.faithful
  | saved _ _ _ _ _ _ hl => exact hl.faithful
  | refused _ _ _ _ _ _ hl => exact hl.faithful
  | fetching _ _ _ _ _ _ _ _ _ hl => exact hl.faithful
  | freed _ _ _ _ _ hl => exact hl.faithful
  | keyed _ _ _ _ _ hl => exact hl.faithful
  | registered _ _ _ _ hl => exact hl.faithful

/-- If commands and replies are received whole, the server calls the handlers of the requests
in their order and with their words, it saves the payloads that were sent, and the client
parses the replies that were sent, however the payloads are split; and the two sides do not
get stuck. -/
theorem framing_of_whole (hs : WholeRun s) : Faithful s ∧
    (s.client = .idle → s.dispatched = s.issued.map Request.dispatch ∧ s.saved = s.shipped ∧
      s.parsed = s.replies ∧ s.fetched = s.served) ∧
    (s.client ≠ .idle → ∃ a s', s.Whole a ∧ s.act a = some s') := by
  have h := sync_wholeRun hs
  refine ⟨h.faithful, ?_, h.progress⟩
  intro hc
  obtain ⟨-, -, -, hl, -⟩ := h.of_idle hc
  refine ⟨?_, ?_, ?_, ?_⟩
  · rw [hl.dispatched, append_nil]
  · rw [hl.saved, append_nil]
  · rw [hl.parsed, append_nil]
  · rw [hl.fetched, append_nil]

/-- The state after the given steps. -/
def run (s : Link) : List Act → Option Link
  | [] => some s
  | a :: l => if s.fault = none then (s.act a).bind fun s' => run s' l else none

theorem reachable_run (l : List Act) {s s' : Link} (hs : Reachable s) (h : s.run l = some s') :
    Reachable s' := by
  induction l generalizing s with
  | nil =>
    cases h
    exact hs
  | cons a l ih =>
    simp only [run] at h
    split at h
    next hf =>
      obtain ⟨u, hu, hrun⟩ := Option.bind_eq_some_iff.mp h
      exact ih (.act hs a hf hu) hrun
    next => cases h

def sampleSave : Request := .savePod 3 (List.replicate 12 7)

def plainEnv : Env := ⟨false, 0, 0⟩

def issuedSave : Link := init.issue sampleSave

theorem sampleSave_fits : sampleSave.Fits := by
  simp [sampleSave, Request.Fits]

/-- The payload of the sample arrives in two pieces. -/
theorem framing_of_whole_sample : ∃ s, WholeRun s ∧ s.client = .idle ∧ s.issued = [sampleSave] ∧
    s.dispatched = [sampleSave.dispatch] ∧ s.saved = [(decimal 3, List.replicate 12 7)] ∧
    s.parsed = [7, 9] := by
  have h0 : WholeRun issuedSave := .issue .init sampleSave rfl sampleSave_fits rfl
  have hwire : issuedSave.toServer = sampleSave.wire := nil_append _
  have hrun := recvCommand_whole (s := issuedSave) plainEnv rfl hwire sampleSave_fits
  have h1 := h0.act (.recvCommand issuedSave.toServer.length plainEnv) rfl rfl hrun
  have h2 := h1.act (.readReply 1) rfl rfl rfl
  have h3 := h2.act (.recvPayload 5) trivial rfl rfl
  have h4 := h3.act (.recvPayload 7) trivial rfl rfl
  have h5 := h4.act .finishSave trivial rfl rfl
  have h6 := h5.act (.readReply 1) rfl rfl rfl
  obtain ⟨hd, hsv, hp, -⟩ := (framing_of_whole h6).2.1 rfl
  exact ⟨_, h6, rfl, rfl, hd, hsv, hp⟩

def splitSave : List Act :=
  [.recvCommand 5 plainEnv, .recvPayload 1, .finishSave, .readReply 2]

def splitState : Link := (issuedSave.run splitSave).getD init

/-- The server takes the save of twelve bytes for one of a single byte, takes the last digit
of the size for that byte, and the client reads both replies as one number. -/
theorem split_command_misread : Reachable splitState ∧
    ¬ splitState.dispatched <+: splitState.issued.map Request.dispatch ∧
    splitState.dispatched = [⟨.savePodInit, [decimal 6, decimal 3, decimal 1]⟩] ∧
    splitState.saved = [(decimal 3, [50])] ∧ splitState.shipped = [] ∧
    splitState.replies = [7, 9] ∧ splitState.parsed = [79] := by
  have hrun : issuedSave.run splitSave = some splitState := by
    have hsome : (issuedSave.run splitSave).isSome = true := by decide +kernel
    obtain ⟨t, ht⟩ := Option.isSome_iff_exists.mp hsome
    rw [splitState, ht]
    rfl
  refine ⟨?_, ?_, ?_, ?_, ?_, ?_, ?_⟩
  · exact reachable_run splitSave (.issue .init sampleSave rfl sampleSave_fits rfl) hrun
  · decide +kernel
  · decide +kernel
  · decide +kernel
  · decide +kernel
  · decide +kernel
  · decide +kernel

end Link

end Remon.Framing
