import Remon.Remote.Save

/-! # What a fetch brings back

The reply to a request is an untagged stream: the entry of the memory node, or the short text of
an error code when there is none. The client reads as many bytes as it once sent and goes on in
the same way when the read fails.
-/

namespace Remon
open Lib Heap Fault List

/-- What `recvPayload` does, in one step. -/
theorem recvPayload_eq {d : Delivery} {fuel k curr left : ℕ} {stream : List UInt8} {m : Mem}
    (hf : left ≤ fuel) : recvPayload d fuel k curr left stream m =
      if left ≤ stream.length then .ok (true, m.blit curr (stream.take left))
      else match d.ending with
        | .stalled => .error .blocked
        | .broken => .ok (false, m.blit curr stream) := by
  induction fuel generalizing k curr left stream m with
  | zero =>
    obtain rfl : left = 0 := by omega
    simp [recvPayload, Mem.blit_nil]
  | succ fuel ih =>
    rw [recvPayload]
    by_cases hl : left = 0
    · simp [hl, Mem.blit_nil]
    · rw [if_neg hl]
      cases stream with
      | nil =>
        have hlt : ¬ left ≤ 0 := by omega
        cases d.ending <;> simp [hlt, Mem.blit_nil]
      | cons b s =>
        obtain ⟨r, hr⟩ : ∃ r, r = max 1
          (min (d.pieces k) (min (min left ioRate) (b :: s).length)) :=
          ⟨_, rfl⟩
        have hr₁ : 1 ≤ r := by omega
        have hrl : r ≤ left := by omega
        have hrs : r ≤ (b :: s).length := by
          rw [length_cons] at hr ⊢
          omega
        have hlen : ((b :: s).take r).length = r := length_take_of_le hrs
        have hstep : ∀ t, (m.blit curr ((b :: s).take r)).blit (curr + r) t =
            m.blit curr ((b :: s).take r ++ t) := by
          intro t
          nth_rewrite 2 [← hlen]
          exact Mem.blit_blit m curr _ t
        simp only [isEmpty_cons, Bool.false_eq_true, if_false, ← hr]
        rw [ih (by omega), hstep, hstep, take_append_drop, length_drop,
          ← take_add, Nat.add_sub_cancel' hrl]
        simp only [Nat.sub_le_sub_iff_right hrs]

def wireText (f : RemoteFunction) : List UInt8 :=
  (Nat.toDigits 10 f.ctorIdx).map (fun c => UInt8.ofNat c.toNat)

/-- What arrives from a node that holds `held` for the key: a first part of the entry, or
of the error text when there is none. -/
def NodeSends (held : Option (List UInt8)) (error : RemoteFunction) (d : Delivery) : Prop :=
  d.bytes <+: held.getD (wireText error)

instance {held : Option (List UInt8)} {error : RemoteFunction} {d : Delivery} :
    Decidable (NodeSends held error d) :=
  inferInstanceAs (Decidable (d.bytes <+: held.getD (wireText error)))

namespace Pod

variable (L : Layout)

/-- A pod as a save leaves it: its connection is known, its page is cleared and the
part of the page that was not sent is kept aside. -/
structure AtNode (p : Pod) : Prop where
  state : p.state = .remote
  landlord : p.landlordClient.isSome
  cleared : ∀ a, L.payloadStart ≤ a → a < L.payloadEnd → p.mem a = 0
  sent : p.sentOffset = L.payloadSize ∨
    p.sentOffset + qsize ≤ L.payloadSize ∧ ∃ tail, p.debugTail = .owned tail

def HoldsEntry (held : Option (List UInt8)) (q : Pod) : Prop :=
  held = some (q.mem.bytes L.payloadStart q.sentOffset)

def Untouched (p q : Pod) : Prop := q.state = p.state ∧ q.landlordClient = p.landlordClient

/-- A fetch to memory: the page is the entry when the fetch is over and the buffered frees
are still to come, or the pod is as before. -/
def FetchSafe (p : Pod) (held : Option (List UInt8)) (d : Delivery) : Prop :=
  (∀ q, p.fetchPod L d = .ok q → HoldsEntry L held q ∨ p.Untouched q) ∧
  ∀ q, p.remoteToLocalPinned L d = .ok q →
    (q.state = .localPinned → ∃ r, p.fetchPod L d = .ok r ∧ HoldsEntry L held r) ∧
    (q.state ≠ .localPinned → p.Untouched q)

/-- The same for a fetch that keeps the entry at the node. -/
def CacheSafe (p : Pod) (held : Option (List UInt8)) (d : Delivery) : Prop :=
  ∀ q, p.remoteToRemoteCache L d = .ok q →
    (q.state = .remoteCache → HoldsEntry L held q) ∧ (q.state ≠ .remoteCache → p.Untouched q)

/-- The client still waits for bytes. -/
def Waits (p : Pod) (d : Delivery) : Prop :=
  d.bytes.length < p.sentOffset ∧ d.ending = .stalled

/-- The node has an entry of the size the client asks for, and what did not arrive of it
is zero. -/
def Arrives (p : Pod) (held : Option (List UInt8)) (d : Delivery) : Prop :=
  ∃ e, held = some e ∧ e.length = p.sentOffset ∧ ∀ b ∈ e.drop d.bytes.length, b = 0

variable {L} {p : Pod} {d : Delivery} {held : Option (List UInt8)}

/-- The page after a complete transfer of `l`. -/
def fetched (L : Layout) (p : Pod) (l tail : List UInt8) : Mem :=
  if p.sentOffset ≠ L.payloadSize then
    ((p.mem.blit L.payloadStart l).blit (L.payloadStart + p.sentOffset) (tail.take dsize)).blit
      (L.payloadEnd - dsize) ((tail.drop dsize).take dsize)
  else p.mem.blit L.payloadStart l

theorem getPodFromRemote_waits (h : p.Waits d) (isCache : Bool) :
    p.getPodFromRemote L d isCache = .error .blocked := by
  rw [getPodFromRemote, recvPayload_eq le_rfl, if_neg (by have := h.1; omega), h.2]
  rfl

theorem getPodFromRemote_complete (h : p.sentOffset ≤ d.bytes.length) {tail : List UInt8}
    (ht : p.sentOffset = L.payloadSize ∨ p.debugTail = .owned tail) (isCache : Bool) :
    p.getPodFromRemote L d isCache = .ok { p.setMem (fetched L p (d.bytes.take p.sentOffset) tail)
      with debugTail := if p.sentOffset ≠ L.payloadSize ∧ isCache = false then .deleted
        else p.debugTail } := by
  rw [getPodFromRemote, recvPayload_eq le_rfl, if_pos h]
  by_cases hs : p.sentOffset = L.payloadSize
  · simp [hs, fetched, setMem]
  · have hd := ht.resolve_left hs
    cases isCache <;> simp [hs, hd, fetched, setMem]

theorem getPodFromRemote_broken (h : d.bytes.length < p.sentOffset) (he : d.ending = .broken)
    (isCache : Bool) : p.getPodFromRemote L d isCache =
      .ok (p.setMem (p.mem.blit L.payloadStart d.bytes)) := by
  rw [getPodFromRemote, recvPayload_eq le_rfl, if_neg (by omega), he]
  rfl

theorem fetched_bytes {l tail : List UInt8} (hl : l.length = p.sentOffset)
    (hs : p.sentOffset = L.payloadSize ∨ p.sentOffset + qsize ≤ L.payloadSize) :
    (fetched L p l tail).bytes L.payloadStart p.sentOffset = l := by
  have hb : (p.mem.blit L.payloadStart l).bytes L.payloadStart p.sentOffset = l := by
    rw [Mem.bytes_blit _ hl.le, hl, Nat.sub_self]
    simp [Mem.bytes]
  rw [fetched]
  by_cases h : p.sentOffset = L.payloadSize
  · rw [if_neg (not_not.mpr h), hb]
  · have hs := hs.resolve_left h
    rw [if_pos h]
    refine (Mem.bytes_congr ?_).trans hb
    intro a ha ha'
    have hend : L.payloadEnd = L.payloadStart + L.payloadSize := rfl
    rw [Mem.blit_apply_of_outside (.inl (by simp only [dsize, qsize] at hs ⊢; omega)),
      Mem.blit_apply_of_outside (.inl ha')]

/-- A release at the node deletes the tail buffer, if there is one; it goes wrong only on a
buffer that is already deleted or on a reply that is no number. -/
theorem freePodInRemote_eq (hd : p.debugTail ≠ .deleted) (reply : Option (List UInt8)) :
    p.freePodInRemote reply = match replyCode reply with
      | some (.error e) => .error e
      | _ => .ok { p with debugTail := if p.debugTail = .null then .null else .deleted } := by
  have hp : p.deleteTail =
      .ok { p with debugTail := if p.debugTail = .null then .null else .deleted } := by
    rw [deleteTail]
    cases ht : p.debugTail with
    | null => simp only [if_true, ← ht]
    | owned b => rfl
    | deleted => exact absurd ht hd
  rw [freePodInRemote, hp, ok_bind, replyCode]
  rcases tokenizeString (replyText reply) with _ | ⟨r, _ | ⟨_, _⟩⟩
  · rfl
  · dsimp only
    cases stoi r <;> rfl
  · rfl

theorem freePodInRemote_deleted (hd : p.debugTail = .deleted) (reply : Option (List UInt8)) :
    p.freePodInRemote reply = .error .undefined := by
  rw [freePodInRemote, deleteTail, hd]
  rfl

theorem fetched_swapImage (m : Mem) : fetched L p (m.bytes L.payloadStart p.sentOffset)
      (m.bytes (L.payloadStart + p.sentOffset) dsize ++ m.bytes (L.payloadEnd - dsize) dsize) =
    restore L p.mem p.sentOffset (swapImage L m p.sentOffset) := by
  by_cases h : p.sentOffset = L.payloadSize
  · simp [fetched, restore, h, swapImage, take_of_length_le]
  · obtain ⟨h1, h2, h3⟩ := swapImage_parts (m := m) h
    simp only [fetched, restore, h1, h2, h3, ne_eq, h, not_false_eq_true, if_true]
    rw [take_left' (Mem.bytes_length _ _ _), drop_left' (Mem.bytes_length _ _ _),
      take_of_length_le (by simp)]

/-- Unless the client waits, it goes on with what arrived, and with zeros for the rest. -/
theorem getPodFromRemote_ok (hp : p.AtNode L) (hw : ¬ p.Waits d) (isCache : Bool) :
    ∃ q, p.getPodFromRemote L d isCache = .ok q ∧ p.Untouched q ∧ q.sentOffset = p.sentOffset ∧
      q.mem.bytes L.payloadStart p.sentOffset =
        d.bytes.take p.sentOffset ++ List.replicate (p.sentOffset - d.bytes.length) 0 := by
  by_cases h : p.sentOffset ≤ d.bytes.length
  · obtain ⟨tail, ht⟩ : ∃ tail, p.sentOffset = L.payloadSize ∨ p.debugTail = .owned tail := by
      rcases hp.sent with hs | ⟨-, tail, ht⟩
      · exact ⟨[], .inl hs⟩
      · exact ⟨tail, .inr ht⟩
    refine ⟨_, getPodFromRemote_complete h ht isCache, ⟨rfl, rfl⟩, rfl, ?_⟩
    rw [Nat.sub_eq_zero_of_le h, replicate_zero, append_nil]
    exact fetched_bytes (length_take_of_le h) (hp.sent.imp id And.left)
  · have he : d.ending = .broken := by
      cases hd : d.ending with
      | broken => rfl
      | stalled => exact absurd ⟨by omega, hd⟩ hw
    refine ⟨_, getPodFromRemote_broken (by omega) he isCache, ⟨rfl, rfl⟩, rfl, ?_⟩
    rw [take_of_length_le (by omega)]
    change (p.mem.blit L.payloadStart d.bytes).bytes L.payloadStart p.sentOffset = _
    rw [Mem.bytes_blit _ (by omega)]
    congr 1
    rw [eq_replicate_iff]
    refine ⟨Mem.bytes_length _ _ _, ?_⟩
    intro b hb
    obtain ⟨i, hi, rfl⟩ := mem_map.mp hb
    have hend : L.payloadEnd = L.payloadStart + L.payloadSize := rfl
    have hi := mem_range.mp hi
    have hs : p.sentOffset ≤ L.payloadSize := by
      rcases hp.sent with hs | ⟨hs, -⟩ <;> omega
    exact hp.cleared _ (by omega) (by omega)

theorem entry_iff_arrives {error : RemoteFunction} (hd : NodeSends held error d) :
    held = some (d.bytes.take p.sentOffset ++
      List.replicate (p.sentOffset - d.bytes.length) 0) ↔ p.Arrives held d := by
  constructor
  · intro h
    refine ⟨_, h, ?_, ?_⟩
    · simp only [length_append, length_take, length_replicate]
      omega
    · intro b hb
      rw [drop_append, drop_of_length_le (by simp)] at hb
      exact (mem_replicate.mp (mem_of_mem_drop hb)).2
  · rintro ⟨e, rfl, hl, hz⟩
    obtain ⟨rest, rfl⟩ : d.bytes <+: e := hd
    rw [length_append] at hl
    rw [drop_left] at hz
    rw [take_of_length_le (by omega), ← hl, Nat.add_sub_cancel_left,
      ← eq_replicate_iff.mpr ⟨rfl, hz⟩]

theorem fetchPod_eq (hp : p.AtNode L) : p.fetchPod L d =
    (p.getPodFromRemote L d false >>= fun q =>
      .ok { q with landlordClient := none, prot := .readWrite }) := by
  obtain ⟨client, hc⟩ := Option.isSome_iff_exists.mp hp.landlord
  rw [fetchPod, hc]
  rfl

theorem remoteToRemoteCache_eq (hp : p.AtNode L) : p.remoteToRemoteCache L d =
    (p.getPodFromRemote L d true >>= fun q => .ok { q with state := .remoteCache }) := by
  obtain ⟨client, hc⟩ := Option.isSome_iff_exists.mp hp.landlord
  rw [remoteToRemoteCache, hc]
  rfl

theorem remoteToLocalPinned_cases {q : Pod} (h : p.remoteToLocalPinned L d = .ok q) :
    q.state = .localPinned ∧ ∃ r, p.fetchPod L d = .ok r := by
  rw [remoteToLocalPinned] at h
  cases hf : p.fetchPod L d with
  | error e => simp [hf] at h
  | ok r =>
    rw [hf, ok_bind] at h
    cases hr : r.flushFreeBuffer L with
    | error e => simp [hr] at h
    | ok r' =>
      rw [hr, ok_bind] at h
      cases h
      exact ⟨rfl, r, rfl⟩

theorem fetchSafe_iff_holdsEntry (hp : p.AtNode L) : p.FetchSafe L held d ↔
    ∀ q, p.fetchPod L d = .ok q → HoldsEntry L held q := by
  have hun : ∀ q, p.fetchPod L d = .ok q → ¬ p.Untouched q := by
    intro q hq hu
    rw [fetchPod_eq hp] at hq
    cases hg : p.getPodFromRemote L d false with
    | error e => simp [hg] at hq
    | ok r =>
      rw [hg] at hq
      cases hq
      have hl := hp.landlord
      rw [← hu.2] at hl
      cases hl
  constructor
  · intro h q hq
    exact (h.1 q hq).resolve_right (hun q hq)
  · intro h
    refine ⟨fun q hq => .inl (h q hq), ?_⟩
    intro q hq
    obtain ⟨hs, r, hr⟩ := remoteToLocalPinned_cases hq
    exact ⟨fun _ => ⟨r, hr, h r hr⟩, fun hn => absurd hs hn⟩

theorem cacheSafe_iff_holdsEntry (hp : p.AtNode L) : p.CacheSafe L held d ↔
    ∀ q, p.remoteToRemoteCache L d = .ok q → HoldsEntry L held q := by
  have hs : ∀ q, p.remoteToRemoteCache L d = .ok q → q.state = .remoteCache := by
    intro q hq
    rw [remoteToRemoteCache_eq hp] at hq
    cases hg : p.getPodFromRemote L d true with
    | error e => simp [hg] at hq
    | ok r =>
      rw [hg] at hq
      cases hq
      rfl
  constructor
  · intro h q hq
    exact (h q hq).1 (hs q hq)
  · intro h q hq
    exact ⟨fun _ => h q hq, fun hn => absurd (hs q hq) hn⟩

/-- For every pod at a node and every behaviour of the connection, a fetch and a cache
fetch end with the node's entry in memory, or leave the pod alone, exactly when they
still wait or the entry arrives but for zeros at its end. -/
theorem fetch_safe_iff {d' : Delivery} (hp : p.AtNode L) (hd : NodeSends held .getPodErr d)
    (hd' : NodeSends held .getPodCacheErr d') :
    (p.FetchSafe L held d ↔ p.Waits d ∨ p.Arrives held d) ∧
      (p.CacheSafe L held d' ↔ p.Waits d' ∨ p.Arrives held d') := by
  rw [fetchSafe_iff_holdsEntry hp, cacheSafe_iff_holdsEntry hp, fetchPod_eq hp,
    remoteToRemoteCache_eq hp]
  constructor
  · by_cases hw : p.Waits d
    · simp [getPodFromRemote_waits hw, hw]
    · obtain ⟨q, hq, -, hs, hb⟩ := getPodFromRemote_ok hp hw false
      rw [hq, ok_bind, ← entry_iff_arrives hd, ← hb]
      simp [hw, HoldsEntry, hs]
  · by_cases hw : p.Waits d'
    · simp [getPodFromRemote_waits hw, hw]
    · obtain ⟨q, hq, -, hs, hb⟩ := getPodFromRemote_ok hp hw true
      rw [hq, ok_bind, ← entry_iff_arrives hd', ← hb]
      simp [hw, HoldsEntry, hs]

theorem atNode_localToRemote {t client : ℕ} {prot : Prot}
    (ht : t = L.payloadSize ∨ t + qsize ≤ L.payloadSize) :
    (({ p.recordSent L t with prot := prot }).localToRemote L client).AtNode L where
  state := rfl
  landlord := rfl
  cleared a ha ha' := Mem.zero_apply_of_mem ha ha'
  sent := by
    by_cases h : t = L.payloadSize
    · exact .inl h
    · exact .inr ⟨ht.resolve_left h, _, if_pos h⟩

def sampleAtNode : Pod :=
  ({ samplePod.recordSent Session.sampleLayout 80 with prot := .none }).localToRemote
    Session.sampleLayout 0

theorem sampleAtNode_atNode : sampleAtNode.AtNode Session.sampleLayout :=
  atNode_localToRemote (.inr (by decide))

theorem fetch_safe_iff_complete :
    sampleAtNode.FetchSafe Session.sampleLayout (some (List.replicate 80 7))
      ⟨List.replicate 80 7, fun _ => 13, .stalled⟩ ∧
    sampleAtNode.CacheSafe Session.sampleLayout (some (List.replicate 80 7))
      ⟨List.replicate 50 7, fun _ => 13, .stalled⟩ := by
  have hfetch : NodeSends (some (List.replicate 80 7)) .getPodErr
      ⟨List.replicate 80 7, fun _ => 13, .stalled⟩ := by
    decide +kernel
  have hcache : NodeSends (some (List.replicate 80 7)) .getPodCacheErr
      ⟨List.replicate 50 7, fun _ => 13, .stalled⟩ := by
    decide +kernel
  have hiff := fetch_safe_iff sampleAtNode_atNode hfetch hcache
  refine ⟨hiff.1.mpr (.inr ⟨_, rfl, rfl, ?_⟩), hiff.2.mpr (.inl ⟨?_, rfl⟩)⟩
  · intro b hb
    cases hb
  · decide

/-- The node has no entry and the connection breaks after its error text: the pod ends up
pinned in memory, with the text and zeros for its page. -/
theorem fetch_missing_key : NodeSends none .getPodErr ⟨[49, 51], fun _ => 2, .broken⟩ ∧
    ¬ sampleAtNode.FetchSafe Session.sampleLayout none ⟨[49, 51], fun _ => 2, .broken⟩ := by
  refine ⟨by decide, ?_⟩
  intro hs
  rw [fetchSafe_iff_holdsEntry sampleAtNode_atNode, fetchPod_eq sampleAtNode_atNode] at hs
  obtain ⟨q, hq, -⟩ := getPodFromRemote_ok (d := ⟨[49, 51], fun _ => 2, .broken⟩)
    sampleAtNode_atNode (by rintro ⟨-, h⟩; cases h) false
  rw [hq] at hs
  cases hs _ rfl

end Pod

end Remon
