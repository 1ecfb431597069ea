import Remon.Node.Handlers

/-! # Saves that do not finish

A save enters its pod into the store of the tenant before the first byte of the payload has
come, and it does so only if the key has no entry yet. When the transfer breaks, the entry
stays, and a later save under the same key finds it and changes nothing.
-/

namespace Remon.Node.Handlers.State
open Function Framing Fault List

variable {env : Env} {s s' : State} {tid : ℤ} {pods pods' : Store} {key : List UInt8} {size : ℕ}

/-! ## Transfers -/

def completes (s : State) (size : ℕ) : Bool :=
  s.goesOut 2 && decide (size ≤ s.arriving.length)

/-- The replies that were sent in between. -/
def news (s s' : State) : List RemoteFunction := s'.replies.drop s.replies.length

theorem news_of_append {l : List RemoteFunction} (h : s'.replies = s.replies ++ l) :
    news s s' = l := by
  rw [news, h, drop_left]

theorem reply_replies (f : RemoteFunction) (rest : List ℕ) :
    (s.reply f rest).2.replies = s.replies ++ if s.goesOut 1 then [f] else [] := by
  cases h : s.goesOut 1 with
  | false =>
    rw [reply_of_not_goesOut h, if_neg Bool.false_ne_true, append_nil]
    rfl
  | true =>
    obtain ⟨m, l, k, -, -, hreply⟩ := reply_of_goesOut f rest h
    rw [hreply, if_pos rfl]

theorem done_of_append {l : List RemoteFunction} (h : s'.replies = s.replies ++ l)
    (hl : .savePodDONE ∉ l) :
    .savePodDONE ∈ news s (s'.reply .savePodDONE []).2 ↔ s'.goesOut 1 = true := by
  rw [news_of_append ((reply_replies _ _).trans (by rw [h, append_assoc]))]
  cases s'.goesOut 1 with
  | false => simpa using hl
  | true => simp

theorem arriving_prefix : s.arriving <+: s.incoming.flatten := by
  rw [arriving]
  split
  · obtain ⟨l, hl⟩ := takeWhile_prefix (l := s.incoming) (fun piece => decide (piece ≠ []))
    exact ⟨l.flatten, by rw [← flatten_append, hl]⟩
  · exact nil_prefix

/-! ## The store after a save -/

theorem insertPod_of_some {x : List UInt8} (h : pods key = some x) (bytes : List UInt8) :
    insertPod pods key size bytes = pods := by
  rw [insertPod, h]

theorem insertPod_whole {bytes : List UInt8} (h : pods key = none) (hlen : bytes.length = size) :
    insertPod pods key size bytes = update pods key (some bytes) := by
  rw [insertPod, h, hlen, Nat.sub_self, replicate_zero, append_nil]

theorem insertPod_eq_self (size : ℕ) (bytes : List UInt8) :
    insertPod pods key size bytes = pods ↔ pods key ≠ none := by
  constructor
  · intro h hnone
    have hkey := congrFun h key
    rw [insertPod, hnone] at hkey
    simp at hkey
  · intro h
    obtain ⟨x, hx⟩ := Option.ne_none_iff_exists'.mp h
    exact insertPod_of_some hx bytes

/-- The part of the handler after its checks: what it enters, and when it says that it is done. -/
theorem receivePod_spec (tid : ℤ) (pods : Store) (key : List UInt8) (hsize : 0 < size) : ∃ bytes,
    (s.receivePod tid pods key size).2.contextsByTid (s.contextTid tid) =
      some (insertPod pods key size bytes) ∧
    (.savePodDONE ∈ news s (s.receivePod tid pods key size).2 ↔ s.completes size = true) ∧
    ((s.receivePod tid pods key size).1 = -1 → s.completes size = false) ∧
    (s.completes size = true → bytes = s.arriving.take size) := by
  obtain ⟨hwhole, hbytes, -⟩ :=
    recvPayload_arriving (s := (s.reply .savePodOK []).2) [] (le_refl size)
  obtain ⟨i, o, hframe⟩ := recvPayload_frame (s := (s.reply .savePodOK []).2) size size []
  have hsame := (reply_same (s := s) .savePodOK []).trans
    (recvPayload_same size size [] (s := (s.reply .savePodOK []).2))
  have hrep : (recvPayload size (s.reply .savePodOK []).2 size []).2.2.replies =
      s.replies ++ if s.goesOut 1 then [.savePodOK] else [] := by
    rw [hframe]
    exact reply_replies _ _
  have hown : ∀ p, ((recvPayload size (s.reply .savePodOK []).2 size []).2.2.setPods tid
      p).contextsByTid (s.contextTid tid) = some p := by
    intro p
    rw [setPods, hsame.contextTid_eq]
    exact update_self _ _ _
  have hbytes' : s.completes size = true →
      (s.reply .savePodOK []).2.arriving.take size = s.arriving.take size := by
    intro hc
    rw [completes, Bool.and_eq_true] at hc
    rw [reply_arriving, if_pos (goesOut_one_of_succ hc.1)]
  rw [nil_append] at hbytes
  refine ⟨(s.reply .savePodOK []).2.arriving.take size, ?_⟩
  simp only [receivePod, hwhole, hbytes]
  by_cases hall : size ≤ (s.reply .savePodOK []).2.arriving.length
  · rw [decide_eq_true hall, Bool.not_true, if_neg Bool.false_ne_true]
    have hsent := recvPayload_goesOut (k := 1) [] (le_refl size) hall
    rw [reply_goesOut] at hsent
    have hcomplete : s.completes size = s.goesOut 2 := by
      rw [reply_arriving] at hall
      split at hall
      · rw [completes, decide_eq_true hall, Bool.and_true]
      · exact absurd hall (by simp [hsize.ne'])
    have hzero : (0 : ℤ) ≠ -1 := by decide
    refine ⟨(congrFun (reply_same _ _).1 _).trans (hown _), ?_, fun hc => absurd hc hzero, hbytes'⟩
    rw [hcomplete, ← hsent]
    exact done_of_append hrep (by split <;> simp)
  · rw [decide_eq_false hall, Bool.not_false, if_pos rfl]
    have hcomplete : s.completes size = false := by
      by_contra hc
      rw [Bool.not_eq_false, completes, Bool.and_eq_true, decide_eq_true_iff] at hc
      rw [reply_arriving, if_pos (goesOut_one_of_succ hc.1)] at hall
      exact hall hc.2
    refine ⟨hown _, ?_, fun _ => hcomplete, hbytes'⟩
    have hnews : news s ((recvPayload size (s.reply .savePodOK []).2 size []).2.2.setPods tid
        (insertPod pods key size ((s.reply .savePodOK []).2.arriving.take size))) = _ :=
      news_of_append hrep
    rw [hnews, hcomplete]
    split <;> simp

/-- What a save has to leave behind: without the last reply the store as it was, and with it the
payload that came in under the key of the command. -/
structure Settled (s : State) (pods : Store) (args : List (List UInt8)) (r : ℤ) (s' : State)
    (pods' : Store) : Prop where
  failed : r = -1 → .savePodDONE ∉ news s s'
  kept : .savePodDONE ∉ news s s' → pods' = pods
  stored : .savePodDONE ∈ news s s' → ∃ w key size v bytes, args = [w, key, size] ∧
    stol size = .ok v ∧ bytes.length = v.toNat ∧ bytes <+: s.incoming.flatten ∧
    pods' = update pods key (some bytes)

theorem Settled.of_not_done {args : List (List UInt8)} {r : ℤ} (hno : .savePodDONE ∉ news s s') :
    Settled s pods args r s' pods :=
  ⟨fun _ => hno, fun _ => rfl, fun hc => absurd hc hno⟩

/-- The transfer completes and the key has no entry, or this payload as its entry already; or the
transfer does not complete and the key has an entry. -/
def Clean (s : State) (pods : Store) (key : List UInt8) (size : ℕ) : Prop :=
  if s.completes size then pods key = none ∨ pods key = some (s.arriving.take size)
  else pods key ≠ none

theorem receivePod_settled (tid : ℤ) (pods : Store) (w key : List UInt8) {n : List UInt8} {v : ℤ}
    (hv : stol n = .ok v) (hpos : 0 < v) :
    (∃ pods', (s.receivePod tid pods key v.toNat).2.contextsByTid (s.contextTid tid) = some pods' ∧
      Settled s pods [w, key, n] (s.receivePod tid pods key v.toNat).1
        (s.receivePod tid pods key v.toNat).2 pods') ↔ Clean s pods key v.toNat := by
  obtain ⟨bytes, hown, hdone, hfail, hbytes⟩ :=
    receivePod_spec (s := s) tid pods key (show 0 < v.toNat by omega)
  rw [hown]
  generalize s.receivePod tid pods key v.toNat = x at hdone hfail
  rw [Clean]
  cases hc : s.completes v.toNat with
  | false =>
    have hno : .savePodDONE ∉ news s x.2 := by
      rw [hdone, hc]
      exact Bool.false_ne_true
    rw [if_neg Bool.false_ne_true, ← insertPod_eq_self v.toNat bytes]
    constructor
    · rintro ⟨pods', hpods', hset⟩
      rw [Option.some.inj hpods']
      exact hset.kept hno
    · intro hsame
      exact ⟨pods, congrArg some hsame, .of_not_done hno⟩
  | true =>
    have hyes : .savePodDONE ∈ news s x.2 := hdone.mpr hc
    have hret : x.1 ≠ -1 := fun h => absurd (hc.symm.trans (hfail h)) (by decide)
    have hlen : v.toNat ≤ s.arriving.length := by
      rw [completes, Bool.and_eq_true, decide_eq_true_iff] at hc
      exact hc.2
    have htake : (s.arriving.take v.toNat).length = v.toNat := length_take_of_le hlen
    rw [if_pos rfl, hbytes hc]
    constructor
    · rintro ⟨pods', hpods', hset⟩
      obtain ⟨w', key', n', v', bytes', hargs, hv', hlen', hpre, hupd⟩ := hset.stored hyes
      cases hargs
      cases hv.symm.trans hv'
      by_contra hne
      obtain ⟨hsome, hother⟩ := not_or.mp hne
      rw [(insertPod_eq_self _ _).mpr hsome] at hpods'
      have hkey : pods key = some bytes' := by
        rw [Option.some.inj hpods', hupd]
        exact update_self _ _ _
      have hsame : bytes' = s.arriving.take v.toNat := by
        have hpre' : s.arriving.take v.toNat <+: s.incoming.flatten :=
          ( take_prefix _ _).trans arriving_prefix
        exact (prefix_of_prefix_length_le hpre hpre' (by omega)).eq_of_length (by omega)
      exact hother (hsame ▸ hkey)
    · intro hclean
      refine ⟨_, rfl, fun h => absurd h hret, fun h => absurd hyes h, fun _ =>
        ⟨w, key, n, v, _, rfl, hv, htake, ( take_prefix _ _).trans arriving_prefix, ?_⟩⟩
      rcases hclean with hnone | hsome
      · exact insertPod_whole hnone htake
      · rw [insertPod_of_some hsome, ← hsome, update_eq_self]

/-- A save that returns leaves the store alone unless it tells the client that it is done, and then
has the whole payload under the key, exactly if it is refused or its transfer completes for a new
key, for an entry with the same bytes, or does not complete for a key with an entry. -/
theorem failed_save_unchanged (env : Env) (s : State) (tid : ℤ) (args : List (List UInt8))
    (pods : Store) (hpods : s.contextsByTid (s.contextTid tid) = some pods)
    {r : ℤ} {s' : State} (hrun : s.savePodHandler env args tid = .ok (r, s')) :
    (∃ pods', s'.contextsByTid (s.contextTid tid) = some pods' ∧ Settled s pods args r s' pods') ↔
      env.ramFull = true ∨ ∀ w key size v, args = [w, key, size] → stol size = .ok v →
        Clean s pods key v.toNat := by
  have hfind : s.findContext tid = .ok pods := by
    rw [findContext, hpods]
  rw [savePodHandler, hfind, ok_bind] at hrun
  by_cases hram : env.ramFull = true
  · rw [if_pos hram] at hrun
    cases hrun
    have hno : .savePodDONE ∉ news s (s.reply .savePodErr []).2 := by
      rw [news_of_append (reply_replies .savePodErr [])]
      split <;> simp
    exact iff_of_true ⟨pods, (congrFun (reply_same _ _).1 _).trans hpods, .of_not_done hno⟩
      (.inl hram)
  rw [if_neg hram] at hrun
  rw [or_iff_right hram]
  by_cases hlen : args.length = 3
  · obtain ⟨w, key, size, rfl⟩ := length_eq_three.mp hlen
    have hkey : arg [w, key, size] 1 = .ok key := rfl
    have hsize : arg [w, key, size] 2 = .ok size := rfl
    rw [if_neg (not_not.mpr hlen), hkey, hsize, ok_bind, ok_bind] at hrun
    cases hv : stol size with
    | error e =>
      rw [hv] at hrun
      cases hrun
    | ok v =>
      rw [hv, ok_bind, mapPod] at hrun
      split at hrun
      · rename_i hmap
        have hres : s.receivePod tid pods key v.toNat = (r, s') := Except.ok.inj hrun
        have hset := receivePod_settled (s := s) tid pods w key hv hmap.1
        rw [hres] at hset
        refine hset.trans ⟨fun h w' key' size' v' hargs hv' => ?_, fun h => h w key size v rfl hv⟩
        cases hargs
        cases hv.symm.trans hv'
        exact h
      · cases hrun
  · rw [if_pos hlen] at hrun
    cases hrun
    have hno : .savePodDONE ∉ news s s := by
      rw [news_of_append (append_nil _).symm]
      exact not_mem_nil
    refine iff_of_true ⟨pods, hpods, .of_not_done hno⟩ ?_
    rintro w key size v rfl -
    exact absurd rfl hlen

/-- The server when these pieces of a payload come in on a new connection. -/
def receiving (s : State) (pieces : List (List UInt8)) : State :=
  { s with isOpen := true, incoming := pieces, accepted := [1024, 1024] }

/-- A save of three bytes under the key 5. -/
def sampleSave : List (List UInt8) := [[54], [53], [51]]

def sampleEntry (s : State) : Option (List UInt8) :=
  (s.contextsByTid 0).bind (fun pods => pods [53])

theorem failed_save_unchanged_sample : ∃ s',
    (sampleServer.receiving [[1, 2], [3]]).savePodHandler sampleEnv sampleSave 1 = .ok (0, s') ∧
      ∃ pods', s'.contextsByTid 0 = some pods' ∧ ∃ bytes, bytes.length = 3 ∧
        pods' [53] = some bytes := by
  refine ⟨_, rfl, ?_⟩
  have hclean : ∀ w key size v, sampleSave = [w, key, size] → stol size = .ok v →
      Clean (sampleServer.receiving [[1, 2], [3]]) (fun _ => none) key v.toNat := by
    rintro w key size v hargs hv
    cases hargs
    obtain rfl : (3 : ℤ) = v := Except.ok.inj (hv.symm.trans (by decide)) |>.symm
    rw [Clean, if_pos (by decide)]
    exact .inl rfl
  obtain ⟨pods', hpods, hset⟩ := (failed_save_unchanged sampleEnv
    (sampleServer.receiving [[1, 2], [3]]) 1 sampleSave (fun _ => none) rfl rfl).mpr (.inr hclean)
  obtain ⟨w, key, size, v, bytes, hargs, hv, hlen, -, rfl⟩ := hset.stored (by decide)
  cases hargs
  obtain rfl : (3 : ℤ) = v := Except.ok.inj (hv.symm.trans (by decide)) |>.symm
  exact ⟨_, hpods, bytes, hlen, update_self _ _ _⟩

/-- The connection breaks after two of three bytes: the save returns -1 and the store has a page
with two bytes. A later save under the same key receives its three bytes and says that it is done,
and the store still has the broken page. -/
theorem broken_save_stays : ∃ s' s'',
    (sampleServer.receiving [[1, 2]]).savePodHandler sampleEnv sampleSave 1 = .ok (-1, s') ∧
    sampleEntry sampleServer = none ∧ sampleEntry s' = some [1, 2, 0] ∧
    (s'.receiving [[7, 8, 9]]).savePodHandler sampleEnv sampleSave 1 = .ok (0, s'') ∧
    .savePodDONE ∈ news (s'.receiving [[7, 8, 9]]) s'' ∧ sampleEntry s'' = some [1, 2, 0] :=
  ⟨_, _, rfl, rfl, rfl, rfl, by decide, rfl⟩

end Remon.Node.Handlers.State
