import Remon.Remote.Framing

/-! # The handlers of a memory node on arbitrary input

One worker of the server reads a command of up to 1024 bytes and calls its handler, which runs
to its end. What each `recv` brings, how many bytes each `send` takes, whether memory is short
and which mappings succeed is part of the state or of the environment. A failed call on the
socket closes it, and a failed `send` also makes the server stop its loops. Reading past the end
of a vector, of a map or of the command buffer is undefined, and an exception that a parser
throws ends the process.
-/

namespace Remon.Node.Handlers
open Function Framing Fault List

/-- The pods of a tenant by their keys. -/
abbrev Store := List UInt8 → Option (List UInt8)

structure Env where
  /-- the answer of `ifNeedToSwap` -/
  ramFull : Bool
  /-- whether a mapping of this many bytes succeeds -/
  mmapOk : ℕ → Bool
  maxRamInGB : ℕ

structure State where
  contextsByTid : ℤ → Option Store
  workerToContextTid : ℤ → Option ℤ
  running : Bool
  isOpen : Bool
  /-- What the next calls of `recv` bring; nothing, or no more entry, is a failure. -/
  incoming : List (List UInt8)
  /-- How many bytes the next calls of `send` take; zero, or no more entry, is a failure. -/
  accepted : List ℕ
  replies : List RemoteFunction
  served : List UInt8

namespace State

variable (env : Env) (s : State)

/-! ## The socket -/

def sendFailed : State := { s with isOpen := false, running := false }

def safeSend (sendSize : ℕ) : Option ℕ × State :=
  match s.isOpen, s.accepted with
  | true, n :: rest =>
    if min n sendSize = 0 then (none, s.sendFailed)
    else (some (min n sendSize), { s with accepted := rest })
  | _, _ => (none, s.sendFailed)

def safeRead (readSize : ℕ) : Option (List UInt8) × State :=
  match s.isOpen, s.incoming with
  | true, piece :: rest =>
    if piece.take readSize = [] then (none, { s with isOpen := false })
    else (some (piece.take readSize), { s with
      incoming := if piece.drop readSize = [] then rest else piece.drop readSize :: rest })
  | _, _ => (none, { s with isOpen := false })

/-- Send a function number and further numbers. -/
def reply (f : RemoteFunction) (rest : List ℕ) : Option ℕ × State :=
  match s.safeSend (words (decimal (number f) :: rest.map decimal)).length with
  | (none, s) => (none, s)
  | (some n, s) => (some n, { s with replies := s.replies ++ [f] })

/-- Read `left` more bytes behind `got`; whether they all came. -/
def recvPayload : ℕ → State → ℕ → List UInt8 → Bool × List UInt8 × State
  | 0, s, left, got => (left = 0, got, s)
  | fuel + 1, s, left, got =>
    if left = 0 then (true, got, s)
    else match s.safeRead (min left ioRate) with
      | (none, s) => (false, got, s)
      | (some piece, s) => recvPayload fuel s (left - piece.length) (got ++ piece)

def sendPodPayload : ℕ → State → List UInt8 → Bool × State
  | 0, s, bytes => (bytes = [], s)
  | fuel + 1, s, bytes =>
    if bytes = [] then (true, s)
    else match s.safeSend (min bytes.length ioRate) with
      | (none, s) => (false, s)
      | (some n, s) => sendPodPayload fuel { s with served := s.served ++ bytes.take n }
        (bytes.drop n)

/-! ## The handlers -/

def contextTid (workerTid : ℤ) : ℤ := (s.workerToContextTid workerTid).getD (-1)

def findContext (workerTid : ℤ) : Except Fault Store :=
  match s.contextsByTid (s.contextTid workerTid) with
  | none => .error .undefined
  | some context => .ok context

def setPods (workerTid : ℤ) (pods : Store) : State :=
  { s with contextsByTid := update s.contextsByTid (s.contextTid workerTid) (some pods) }

def arg (args : List (List UInt8)) (i : ℕ) : Except Fault (List UInt8) :=
  match args[i]? with
  | none => .error .undefined
  | some w => .ok w

def getMaxPodsHandler : ℤ × State := (0, (s.reply .getMaxPodsOK [env.maxRamInGB]).2)

def mapPod (flexPageSize : ℤ) : Except Fault ℕ :=
  if 0 < flexPageSize ∧ env.mmapOk flexPageSize.toNat = true then .ok flexPageSize.toNat
  else .error (.exit (-1))

/-- Enter a pod that has `bytes` in its first part, unless there is an entry. -/
def insertPod (pods : Store) (key : List UInt8) (size : ℕ) (bytes : List UInt8) : Store :=
  match pods key with
  | none => update pods key (some (bytes ++ List.replicate (size - bytes.length) 0))
  | some _ => pods

/-- The part of `savePodHandler` after its checks. The entry is made first and its pod filled
while the payload comes in. -/
def receivePod (workerTid : ℤ) (pods : Store) (key : List UInt8) (size : ℕ) : ℤ × State :=
  let s := (s.reply .savePodOK []).2
  let read := recvPayload size s size []
  let s := read.2.2.setPods workerTid (insertPod pods key size read.2.1)
  if !read.1 then (-1, s)
  else (0, (s.reply .savePodDONE []).2)

def savePodHandler (args : List (List UInt8)) (workerTid : ℤ) : Except Fault (ℤ × State) := do
  let context ← s.findContext workerTid
  if env.ramFull then return (0, (s.reply .savePodErr []).2)
  if args.length ≠ 3 then return (-1, s)
  let key ← arg args 1
  let size ← arg args 2
  let flexPageSize ← stol size
  let size ← mapPod env flexPageSize
  return s.receivePod workerTid context key size

def getPodHandler (args : List (List UInt8)) (workerTid : ℤ) : Except Fault (ℤ × State) := do
  let context ← s.findContext workerTid
  let key ← arg args 1
  match context key with
  | none => return (0, (s.reply .getPodErr []).2)
  | some bytes =>
    match sendPodPayload bytes.length s bytes with
    | (true, s) => return (0, s.setPods workerTid (update context key none))
    | (false, s) => return (0, s)

def getPodCacheHandler (args : List (List UInt8)) (workerTid : ℤ) : Except Fault (ℤ × State) := do
  let context ← s.findContext workerTid
  let key ← arg args 1
  match context key with
  | none => return (0, (s.reply .getPodCacheErr []).2)
  | some bytes => return (0, (sendPodPayload bytes.length s bytes).2)

def freePodHandler (args : List (List UInt8)) (workerTid : ℤ) : Except Fault (ℤ × State) := do
  let context ← s.findContext workerTid
  let key ← arg args 1
  let s := s.setPods workerTid (update context key none)
  return (0, (s.reply .freePodOk []).2)

def initContext (tid : ℤ) : State :=
  match s.contextsByTid tid with
  | none => { s with contextsByTid := update s.contextsByTid tid (some (fun _ => none)) }
  | some _ => s

def contextInitHandler (args : List (List UInt8)) (tid : ℤ) : ℤ × State :=
  if args.length ≠ 1 then (-1, s)
  else (0, ((s.initContext tid).reply .contextInitOk [tid.toNat]).2)

def register (tid mapTo : ℤ) : State :=
  match s.workerToContextTid tid with
  | none => { s with workerToContextTid := update s.workerToContextTid tid (some mapTo) }
  | some _ => s

def contextRegisterHandler (args : List (List UInt8)) (tid : ℤ) : Except Fault (ℤ × State) := do
  if args.length ≠ 2 then return (-1, s)
  let key ← arg args 1
  let mapTo ← stoi key
  return (0, ((s.register tid mapTo).reply .contextRegisterOk []).2)

/-- The switch of `functionHandler`. -/
def serve (d : Dispatch) (tid : ℤ) : Except Fault (ℤ × State) :=
  match d.function with
  | .getMaxPodsInit => .ok (s.getMaxPodsHandler env)
  | .savePodInit => s.savePodHandler env d.args tid
  | .getPodInit => s.getPodHandler d.args tid
  | .getPodCacheInit => s.getPodCacheHandler d.args tid
  | .freePodInit => s.freePodHandler d.args tid
  | .contextInit => .ok (s.contextInitHandler d.args tid)
  | .contextRegister => s.contextRegisterHandler d.args tid
  | _ => .ok (0, s)

def commandText (bytes : List UInt8) : Except Fault (List UInt8) :=
  if bytes.length = remonBufferSize ∧ (0 : UInt8) ∉ bytes then .error .undefined
  else .ok (cString bytes)

/-- What the worker loop does with the bytes of one `recv`. -/
def functionHandler (bytes : List UInt8) (tid : ℤ) : Except Fault (ℤ × State) := do
  let str ← commandText bytes
  match ← Link.functionHandler str with
  | .invalid => return (-1, s)
  | .unhandled => return (0, s)
  | .run d => s.serve env d tid

/-! ## What the socket takes and brings -/

def goesOut (s : State) (k : ℕ) : Bool :=
  s.isOpen && decide (k ≤ (s.accepted.takeWhile (fun n => decide (0 < n))).length)

/-- The bytes that calls of `send` take in pieces of `IO_RATE` before one fails. -/
def room (s : State) : ℕ :=
  if s.isOpen then
    ((s.accepted.takeWhile (fun n => decide (0 < n))).map (fun n => min n ioRate)).sum
  else 0

def arriving (s : State) : List UInt8 :=
  if s.isOpen then (s.incoming.takeWhile (fun piece => decide (piece ≠ []))).flatten else []

variable {env s} {s' s'' : State} {tid : ℤ} {args : List (List UInt8)} {f : RemoteFunction}
variable {rest : List ℕ}

theorem goesOut_one_iff : s.goesOut 1 = true ↔
    s.isOpen = true ∧ ∃ n l, s.accepted = n :: l ∧ 0 < n := by
  rw [goesOut, Bool.and_eq_true]
  refine and_congr_right fun _ => ?_
  cases s.accepted with
  | nil => simp
  | cons n l =>
    by_cases hn : 0 < n
    · simp [hn]
    · simp [hn]

theorem safeSend_of_not_goesOut (h : s.goesOut 1 = false) {n : ℕ} :
    s.safeSend n = (none, s.sendFailed) := by
  have hno : ¬ s.goesOut 1 = true := by
    rw [h]
    exact Bool.false_ne_true
  rw [goesOut_one_iff] at hno
  rw [safeSend]
  split
  · rename_i m l hopen hacc
    have hm : m = 0 := by
      by_contra hm
      exact hno ⟨hopen, m, l, hacc, Nat.pos_of_ne_zero hm⟩
    rw [hm, Nat.zero_min, if_pos rfl]
  · rfl

theorem safeSend_of_goesOut (h : s.goesOut 1 = true) {n : ℕ} (hn : 0 < n) : ∃ m l,
    s.accepted = m :: l ∧ 0 < m ∧ s.safeSend n = (some (min m n), { s with accepted := l }) := by
  obtain ⟨hopen, m, l, hacc, hm⟩ := goesOut_one_iff.mp h
  refine ⟨m, l, hacc, hm, ?_⟩
  have hne : ¬ min m n = 0 := by omega
  simp only [safeSend, hopen, hacc, hne, if_false]

theorem reply_of_not_goesOut (h : s.goesOut 1 = false) :
    s.reply f rest = (none, s.sendFailed) := by
  rw [reply, safeSend_of_not_goesOut h]

theorem reply_of_goesOut (f : RemoteFunction) (rest : List ℕ) (h : s.goesOut 1 = true) :
    ∃ m l k, s.accepted = m :: l ∧ 0 < m ∧ s.reply f rest =
      (some k, { s with accepted := l, replies := s.replies ++ [f] }) := by
  have hlen : 0 < (words (decimal (number f) :: rest.map decimal)).length :=
    length_pos_of_ne_nil (words_ne_nil _ (decimal_ne_nil _))
  obtain ⟨m, l, hacc, hm, hsend⟩ := safeSend_of_goesOut h hlen
  exact ⟨m, l, _, hacc, hm, by rw [reply, hsend]⟩

theorem reply_running : (s.reply f rest).2.running = (s.running && s.goesOut 1) := by
  cases h : s.goesOut 1 with
  | false => rw [reply_of_not_goesOut h, sendFailed, Bool.and_false]
  | true =>
    obtain ⟨m, l, k, -, -, hreply⟩ := reply_of_goesOut f rest h
    rw [hreply, Bool.and_true]

theorem goesOut_one_of_succ {k : ℕ} (h : s.goesOut (k + 1) = true) : s.goesOut 1 = true := by
  rw [goesOut, Bool.and_eq_true, decide_eq_true_iff] at h ⊢
  exact ⟨h.1, by omega⟩

theorem reply_goesOut (k : ℕ) : (s.reply f rest).2.goesOut k = s.goesOut (k + 1) := by
  cases h : s.goesOut 1 with
  | false =>
    rw [reply_of_not_goesOut h, goesOut, sendFailed, Bool.false_and]
    cases hk : s.goesOut (k + 1) with
    | false => rfl
    | true => exact h.symm.trans (goesOut_one_of_succ hk)
  | true =>
    obtain ⟨m, l, n, hacc, hm, hreply⟩ := reply_of_goesOut f rest h
    rw [hreply]
    simp [goesOut, hacc, hm]

theorem reply_arriving : (s.reply f rest).2.arriving = if s.goesOut 1 then s.arriving else [] := by
  cases h : s.goesOut 1 with
  | false =>
    rw [reply_of_not_goesOut h]
    rfl
  | true =>
    obtain ⟨m, l, n, -, -, hreply⟩ := reply_of_goesOut f rest h
    rw [hreply]
    rfl

theorem room_cons {m : ℕ} {l : List ℕ} (hacc : s.accepted = m :: l) (hm : 0 < m)
    (hopen : s.isOpen = true) (hopen' : s'.isOpen = true) (hacc' : s'.accepted = l) :
    s.room = min m ioRate + s'.room := by
  simp [room, hopen, hopen', hacc, hacc', hm]

theorem room_of_not_goesOut (h : s.goesOut 1 = false) : s.room = 0 := by
  rw [room]
  split
  · rename_i hopen
    rw [goesOut, hopen, Bool.true_and, decide_eq_false_iff_not, Nat.not_le, Nat.lt_one_iff,
      length_eq_zero_iff] at h
    rw [h]
    rfl
  · rfl

/-- A payload that does not go out whole stops the server. -/
theorem sendPodPayload_running {fuel : ℕ} {bytes : List UInt8} (hfuel : bytes.length ≤ fuel)
    (hrun : s.running = true) :
    (sendPodPayload fuel s bytes).2.running = decide (bytes.length ≤ s.room) := by
  induction fuel generalizing s bytes with
  | zero =>
    have hlen : bytes.length = 0 := Nat.le_zero.mp hfuel
    simp [sendPodPayload, hrun, hlen]
  | succ fuel ih =>
    rw [sendPodPayload]
    by_cases hnil : bytes = []
    · simp [hnil, hrun]
    rw [if_neg hnil]
    have hpos : 0 < bytes.length := length_pos_of_ne_nil hnil
    cases h : s.goesOut 1 with
    | false =>
      rw [safeSend_of_not_goesOut h, room_of_not_goesOut h]
      simp [sendFailed, hnil]
    | true =>
      have hmin : 0 < min bytes.length ioRate := lt_min hpos (by norm_num)
      obtain ⟨m, l, hacc, hm, hsend⟩ := safeSend_of_goesOut h hmin
      have hopen := (goesOut_one_iff.mp h).1
      rw [hsend]
      dsimp only
      have hrest : ∀ u : State, u.running = true → u.isOpen = true → u.accepted = l →
          (sendPodPayload fuel u (bytes.drop (min m (min bytes.length ioRate)))).2.running =
            decide (bytes.length ≤ s.room) := by
        intro u hrun' hopen' hacc'
        rw [ih (by rw [length_drop]; omega) hrun', length_drop,
          room_cons hacc hm hopen hopen' hacc']
        congr 1
        rw [eq_iff_iff]
        omega
      exact hrest _ hrun hopen rfl

theorem safeRead_frame (n : ℕ) :
    ∃ i o, (s.safeRead n).2 = { s with incoming := i, isOpen := o } := by
  rw [safeRead]
  split
  · split <;> exact ⟨_, _, rfl⟩
  · exact ⟨_, _, rfl⟩

/-- Receiving a payload uses up what comes in and may close the socket. -/
theorem recvPayload_frame (fuel left : ℕ) (got : List UInt8) : ∃ i o,
    (recvPayload fuel s left got).2.2 = { s with incoming := i, isOpen := o } := by
  induction fuel generalizing s left got with
  | zero => exact ⟨_, _, rfl⟩
  | succ fuel ih =>
    obtain ⟨i, o, h⟩ := safeRead_frame (s := s) (min left ioRate)
    rw [recvPayload]
    split
    · exact ⟨_, _, rfl⟩
    · split
      · rename_i hread
        rw [hread] at h
        exact ⟨i, o, h⟩
      · rename_i hread
        rw [hread] at h
        obtain ⟨i', o', h'⟩ := ih _ _
        rw [h']
        obtain rfl : _ = _ := h
        exact ⟨i', o', rfl⟩

theorem safeRead_arriving {n : ℕ} (hn : 0 < n) : s.arriving = [] ∧ (s.safeRead n).1 = none ∨
    ∃ piece, (s.safeRead n).1 = some piece ∧ piece ≠ [] ∧ piece.length ≤ n ∧
      (s.safeRead n).2.isOpen = s.isOpen ∧ s.arriving = piece ++ (s.safeRead n).2.arriving := by
  rw [safeRead]
  split
  · rename_i piece l hopen hin
    by_cases hpiece : piece = []
    · left
      simp [arriving, hin, hpiece]
    · right
      have htake : piece.take n ≠ [] := by
        simp [take_eq_nil_iff, hpiece, hn.ne']
      rw [if_neg htake]
      refine ⟨_, rfl, htake, length_take_le _ _, rfl, ?_⟩
      by_cases hdrop : piece.drop n = []
      · simp [arriving, hopen, hin, hpiece, hdrop,
          take_of_length_le (drop_eq_nil_iff.mp hdrop)]
      · simp [arriving, hopen, hin, hpiece, hdrop, ← append_assoc]
  · rename_i hno
    left
    refine ⟨?_, rfl⟩
    rw [arriving]
    split
    · rename_i hopen
      cases hin : s.incoming with
      | nil => rfl
      | cons piece l => exact absurd hin (hno _ _ hopen)
    · rfl

/-- The payload is what arrives first, and it is whole exactly if enough arrives. -/
theorem recvPayload_arriving {fuel left : ℕ} (got : List UInt8) (hfuel : left ≤ fuel) :
    (recvPayload fuel s left got).1 = decide (left ≤ s.arriving.length) ∧
    (recvPayload fuel s left got).2.1 = got ++ s.arriving.take left ∧
    (left ≤ s.arriving.length → (recvPayload fuel s left got).2.2.isOpen = s.isOpen) := by
  induction fuel generalizing s left got with
  | zero =>
    obtain rfl : left = 0 := Nat.le_zero.mp hfuel
    simp [recvPayload]
  | succ fuel ih =>
    rw [recvPayload]
    by_cases hleft : left = 0
    · simp [hleft]
    rw [if_neg hleft]
    have hmin : 0 < min left ioRate := lt_min (Nat.pos_of_ne_zero hleft) (by norm_num)
    rcases safeRead_arriving (s := s) hmin with
      ⟨harr, hnone⟩ | ⟨piece, hsome, hne, hlen, hopen, harr⟩
    · have hpair : s.safeRead (min left ioRate) = (none, (s.safeRead (min left ioRate)).2) := by
        rw [← hnone]
      rw [hpair, harr]
      simp [hleft]
    · have hpair : s.safeRead (min left ioRate) =
          (some piece, (s.safeRead (min left ioRate)).2) := by
        rw [← hsome]
      have hpos : 0 < piece.length := length_pos_of_ne_nil hne
      have hle : piece.length ≤ left := hlen.trans (min_le_left _ _)
      obtain ⟨h1, h2, h3⟩ := ih (s := (s.safeRead (min left ioRate)).2) (got ++ piece)
        (show left - piece.length ≤ fuel by omega)
      rw [hpair]
      dsimp only
      rw [h1, h2, harr, length_append]
      refine ⟨?_, ?_, fun hall => ?_⟩
      · congr 1
        rw [eq_iff_iff]
        omega
      · rw [take_append, take_of_length_le hle, append_assoc]
      · rw [h3 (by omega), hopen]

theorem recvPayload_goesOut {fuel left k : ℕ} (got : List UInt8) (hfuel : left ≤ fuel)
    (hall : left ≤ s.arriving.length) :
    (recvPayload fuel s left got).2.2.goesOut k = s.goesOut k := by
  obtain ⟨-, -, hopen⟩ := recvPayload_arriving (s := s) got hfuel
  obtain ⟨i, o, hframe⟩ := recvPayload_frame (s := s) fuel left got
  rw [hframe] at hopen ⊢
  rw [goesOut, goesOut, hopen hall]

/-! ## What a handler may change -/

def SameTables (s s' : State) : Prop :=
  s'.contextsByTid = s.contextsByTid ∧ s'.workerToContextTid = s.workerToContextTid

theorem SameTables.trans (h : SameTables s s') (h' : SameTables s' s'') : SameTables s s'' :=
  ⟨h'.1.trans h.1, h'.2.trans h.2⟩

theorem safeSend_same (n : ℕ) : SameTables s (s.safeSend n).2 := by
  rw [safeSend]
  split
  · split <;> exact ⟨rfl, rfl⟩
  · exact ⟨rfl, rfl⟩

theorem reply_same (f : RemoteFunction) (rest : List ℕ) : SameTables s (s.reply f rest).2 := by
  have h := safeSend_same (s := s) (words (decimal (number f) :: rest.map decimal)).length
  rw [reply]
  split
  · rename_i hsend
    rw [hsend] at h
    exact h
  · rename_i hsend
    rw [hsend] at h
    exact h

theorem recvPayload_same (fuel left : ℕ) (got : List UInt8) :
    SameTables s (recvPayload fuel s left got).2.2 := by
  obtain ⟨i, o, h⟩ := recvPayload_frame (s := s) fuel left got
  rw [h]
  exact ⟨rfl, rfl⟩

theorem sendPodPayload_same (fuel : ℕ) (bytes : List UInt8) :
    SameTables s (sendPodPayload fuel s bytes).2 := by
  induction fuel generalizing s bytes with
  | zero => exact ⟨rfl, rfl⟩
  | succ fuel ih =>
    have h := safeSend_same (s := s) (min bytes.length ioRate)
    rw [sendPodPayload]
    split
    · exact ⟨rfl, rfl⟩
    · split
      · rename_i hsend
        rw [hsend] at h
        exact h
      · rename_i n s' hsend
        rw [hsend] at h
        have h' : SameTables s { s' with served := s'.served ++ bytes.take n } := h
        exact h'.trans (ih _)

def OwnOnly (tid : ℤ) (s s' : State) : Prop :=
  ∀ k, k ≠ s.contextTid tid → s'.contextsByTid k = s.contextsByTid k ∨
    k = tid ∧ s.contextsByTid k = none

theorem SameTables.ownOnly (h : SameTables s s') : OwnOnly tid s s' :=
  fun k _ => .inl (congrFun h.1 k)

theorem OwnOnly.trans_same (h : OwnOnly tid s s') (h' : SameTables s' s'') : OwnOnly tid s s'' := by
  intro k hk
  rw [h'.1]
  exact h k hk

theorem SameTables.contextTid_eq (h : SameTables s s') : s'.contextTid tid = s.contextTid tid := by
  rw [contextTid, contextTid, h.2]

/-- The pods of the own context are changed after steps that changed nothing. -/
theorem SameTables.setPods (h : SameTables s s') (tid : ℤ) (pods : Store) :
    OwnOnly tid s (s'.setPods tid pods) := by
  intro k hk
  left
  rw [State.setPods, h.contextTid_eq]
  dsimp only
  rw [update_of_ne hk, h.1]

def Survives (tid : ℤ) (s : State) (x : Except Fault (ℤ × State)) : Prop :=
  ∃ r s', x = .ok (r, s') ∧ (r = 0 ∨ r = -1) ∧ s'.running = true ∧ OwnOnly tid s s'

theorem not_survives_error {e : Fault} : ¬ Survives tid s (.error e) := by
  rintro ⟨r, s', h, -⟩
  cases h

theorem survives_ok {r : ℤ} (hr : r = 0 ∨ r = -1) (hown : OwnOnly tid s s') :
    Survives tid s (.ok (r, s')) ↔ s'.running = true := by
  constructor
  · rintro ⟨r', t, h, -, hrun, -⟩
    cases h
    exact hrun
  · intro hrun
    exact ⟨r, s', rfl, hr, hrun, hown⟩

theorem survives_reply (hrun : s'.running = true) (hown : OwnOnly tid s s') :
    Survives tid s (.ok (0, (s'.reply f rest).2)) ↔ s'.goesOut 1 = true := by
  rw [survives_ok (.inl rfl) (hown.trans_same (reply_same _ _)), reply_running, hrun,
    Bool.true_and]

theorem OwnOnly.refl : OwnOnly tid s s := fun _ _ => .inl rfl

/-! ## Requests that are handled -/

def registered (s : State) (tid : ℤ) : Bool := (s.contextsByTid (s.contextTid tid)).isSome

/-- The answer to a request for a pod goes out: the pod if the context of the worker has it, and a
refusal if not. -/
def answers (s : State) (args : List (List UInt8)) (tid : ℤ) : Bool :=
  match (s.contextsByTid (s.contextTid tid)).bind (fun pods => pods (args.getD 1 [])) with
  | none => s.goesOut 1
  | some bytes => decide (bytes.length ≤ s.room)

/-- The size that a save announces can be read and mapped; the first reply goes out, and the second
does if that many bytes arrive. -/
def saves (env : Env) (s : State) (args : List (List UInt8)) : Bool :=
  match stol (args.getD 2 []) with
  | .ok size => decide (0 < size) && env.mmapOk size.toNat &&
      s.goesOut (if size.toNat ≤ s.arriving.length then 2 else 1)
  | .error _ => false

def admits (env : Env) (s : State) (f : RemoteFunction) (args : List (List UInt8)) (tid : ℤ) :
    Bool :=
  match f with
  | .getMaxPodsInit => s.goesOut 1
  | .savePodInit => s.registered tid &&
      if env.ramFull then s.goesOut 1 else args.length != 3 || saves env s args
  | .getPodInit => s.registered tid && decide (2 ≤ args.length) && s.answers args tid
  | .getPodCacheInit => s.registered tid && decide (2 ≤ args.length) && s.answers args tid
  | .freePodInit => s.registered tid && decide (2 ≤ args.length) && s.goesOut 1
  | .contextInit => args.length != 1 || s.goesOut 1
  | .contextRegister => args.length != 2 || (stoi (args.getD 1 [])).isOk && s.goesOut 1
  | _ => true

theorem arg_ok {i : ℕ} (h : i < args.length) : arg args i = .ok (args.getD i []) := by
  rw [arg, List.getElem?_eq_getElem h]
  simp [getD_eq_getElem?_getD, h]

theorem arg_error {i : ℕ} (h : ¬ i < args.length) : arg args i = .error .undefined := by
  rw [arg, List.getElem?_eq_none (Nat.not_lt.mp h)]

theorem survives_findContext {g : Store → Except Fault (ℤ × State)} {b : Bool}
    (h : ∀ c, s.contextsByTid (s.contextTid tid) = some c → (Survives tid s (g c) ↔ b = true)) :
    Survives tid s (s.findContext tid >>= g) ↔ (s.registered tid && b) = true := by
  rw [registered, findContext]
  cases hc : s.contextsByTid (s.contextTid tid) with
  | none => simpa using not_survives_error
  | some c => simpa using h c hc

theorem survives_keyed {g : Store → List UInt8 → Except Fault (ℤ × State)} {b : Bool}
    (h : ∀ c, s.contextsByTid (s.contextTid tid) = some c →
      (Survives tid s (g c (args.getD 1 [])) ↔ b = true)) :
    Survives tid s (s.findContext tid >>= fun c => arg args 1 >>= g c) ↔
      (s.registered tid && decide (2 ≤ args.length) && b) = true := by
  rw [Bool.and_assoc]
  refine survives_findContext fun c hc => ?_
  by_cases hlen : 1 < args.length
  · rw [arg_ok hlen, ok_bind, h c hc]
    simp [Nat.succ_le_of_lt hlen]
  · rw [arg_error hlen]
    refine iff_of_false not_survives_error ?_
    simp [Nat.lt_of_not_le (show ¬ 2 ≤ args.length from hlen)]

theorem receivePod_ownOnly (pods : Store) (key : List UInt8) (size : ℕ) :
    OwnOnly tid s (s.receivePod tid pods key size).2 := by
  have hsame := (reply_same (s := s) .savePodOK []).trans
    (recvPayload_same size size [] (s := (s.reply .savePodOK []).2))
  have hown := hsame.setPods tid (insertPod pods key size
    (recvPayload size (s.reply .savePodOK []).2 size []).2.1)
  rw [receivePod]
  split
  · exact hown
  · exact hown.trans_same (reply_same _ _)

/-- The server goes on if the first reply is sent, and the second if the payload is whole. -/
theorem receivePod_running (tid : ℤ) (pods : Store) (key : List UInt8) {size : ℕ}
    (hrun : s.running = true) (hsize : 0 < size) : (s.receivePod tid pods key size).2.running =
      s.goesOut (if size ≤ s.arriving.length then 2 else 1) := by
  obtain ⟨hwhole, -, -⟩ :=
    recvPayload_arriving (s := (s.reply .savePodOK []).2) [] (le_refl size)
  obtain ⟨i, o, hframe⟩ := recvPayload_frame (s := (s.reply .savePodOK []).2) size size []
  have hfirst : (recvPayload size (s.reply .savePodOK []).2 size []).2.2.running = s.goesOut 1 := by
    rw [hframe, reply_running, hrun, Bool.true_and]
  simp only [receivePod, hwhole]
  by_cases hall : size ≤ (s.reply .savePodOK []).2.arriving.length
  · have hsent := recvPayload_goesOut (k := 1) [] (le_refl size) hall
    rw [reply_goesOut] at hsent
    rw [reply_arriving] at hall
    have hout : s.goesOut 1 = true ∧ size ≤ s.arriving.length := by
      split at hall
      · exact ⟨by assumption, hall⟩
      · exact absurd hall (by simp [hsize.ne'])
    rw [reply_arriving, if_pos hout.1, if_pos hout.2, decide_eq_true hout.2, Bool.not_true,
      if_neg Bool.false_ne_true, reply_running]
    change ((recvPayload size (s.reply .savePodOK []).2 size []).2.2.running &&
      (recvPayload size (s.reply .savePodOK []).2 size []).2.2.goesOut 1) = _
    rw [hfirst, hsent, hout.1, Bool.true_and]
  · rw [decide_eq_false hall, Bool.not_false, if_pos rfl]
    change (recvPayload size (s.reply .savePodOK []).2 size []).2.2.running = _
    rw [hfirst]
    split
    · rename_i harr
      rw [reply_arriving] at hall
      cases h : s.goesOut 1 with
      | true => exact absurd harr (by rwa [h, if_pos rfl] at hall)
      | false =>
        cases h2 : s.goesOut 2 with
        | true => exact (h.symm.trans (goesOut_one_of_succ h2))
        | false => rfl
    · rfl

theorem receivePod_survives {pods : Store} {key : List UInt8} {size : ℕ} (hrun : s.running = true)
    (hsize : 0 < size) : Survives tid s (.ok (s.receivePod tid pods key size)) ↔
      s.goesOut (if size ≤ s.arriving.length then 2 else 1) = true := by
  have hret : (s.receivePod tid pods key size).1 = 0 ∨ (s.receivePod tid pods key size).1 = -1 := by
    rw [receivePod]
    split
    · exact .inr rfl
    · exact .inl rfl
  rw [← receivePod_running tid pods key hrun hsize]
  exact survives_ok hret (receivePod_ownOnly _ _ _)

theorem savePodHandler_survives (hrun : s.running = true) :
    Survives tid s (s.savePodHandler env args tid) ↔ s.admits env .savePodInit args tid = true := by
  refine survives_findContext fun c _ => ?_
  by_cases hram : env.ramFull = true
  · rw [if_pos hram, if_pos hram]
    exact survives_reply hrun .refl
  rw [if_neg hram, if_neg hram]
  by_cases hlen : args.length = 3
  · rw [if_neg (not_not.mpr hlen), arg_ok (by omega), ok_bind, arg_ok (by omega),
      ok_bind, saves, hlen, bne_self_eq_false, Bool.false_or]
    cases stol (args.getD 2 []) with
    | error e => exact iff_of_false not_survives_error Bool.false_ne_true
    | ok v =>
      rw [ok_bind, mapPod]
      split
      · rename_i hmap
        rw [ok_bind, pure_eq, receivePod_survives hrun (by omega)]
        simp [hmap]
      · rename_i hmap
        refine iff_of_false not_survives_error ?_
        simp only [Bool.and_eq_true, decide_eq_true_iff]
        tauto
  · rw [if_pos hlen]
    exact iff_of_true ⟨-1, s, rfl, .inr rfl, hrun, .refl⟩ (by simp [hlen])

theorem getPodHandler_survives (hrun : s.running = true) :
    Survives tid s (s.getPodHandler args tid) ↔ s.admits env .getPodInit args tid = true := by
  refine survives_keyed fun c hc => ?_
  rw [answers, hc, Option.bind_some]
  cases c (args.getD 1 []) with
  | none => exact survives_reply hrun .refl
  | some bytes =>
    have hsame := sendPodPayload_same (s := s) bytes.length bytes
    have hsent := sendPodPayload_running (le_refl bytes.length) hrun
    cases hsend : sendPodPayload bytes.length s bytes with
    | mk complete s' =>
      rw [hsend] at hsame hsent
      dsimp only at hsent ⊢
      rw [hsend, ← hsent]
      cases complete with
      | true => exact survives_ok (.inl rfl) (hsame.setPods _ _)
      | false => exact survives_ok (.inl rfl) hsame.ownOnly

theorem getPodCacheHandler_survives (hrun : s.running = true) :
    Survives tid s (s.getPodCacheHandler args tid) ↔
      s.admits env .getPodCacheInit args tid = true := by
  refine survives_keyed fun c hc => ?_
  rw [answers, hc, Option.bind_some]
  cases c (args.getD 1 []) with
  | none => exact survives_reply hrun .refl
  | some bytes =>
    dsimp only
    rw [← sendPodPayload_running le_rfl hrun]
    exact survives_ok (.inl rfl) (sendPodPayload_same _ _).ownOnly

theorem freePodHandler_survives (hrun : s.running = true) :
    Survives tid s (s.freePodHandler args tid) ↔ s.admits env .freePodInit args tid = true := by
  refine survives_keyed fun c hc => ?_
  exact survives_reply hrun (SameTables.setPods ⟨rfl, rfl⟩ _ _)

theorem initContext_eq (tid : ℤ) : ∃ t, s.initContext tid = { s with contextsByTid := t } := by
  rw [initContext]
  split <;> exact ⟨_, rfl⟩

theorem initContext_ownOnly (tid : ℤ) : OwnOnly tid s (s.initContext tid) := by
  intro k _
  rw [initContext]
  split
  · rename_i hnone
    by_cases hk : k = tid
    · exact .inr ⟨hk, hk ▸ hnone⟩
    · exact .inl (update_of_ne hk _ _)
  · exact .inl rfl

theorem contextInitHandler_survives (hrun : s.running = true) :
    Survives tid s (.ok (s.contextInitHandler args tid)) ↔
      s.admits env .contextInit args tid = true := by
  rw [contextInitHandler, admits]
  split
  · rename_i hlen
    exact iff_of_true ⟨-1, s, rfl, .inr rfl, hrun, .refl⟩ (by simp [hlen])
  · rename_i hlen
    obtain ⟨t, ht⟩ := initContext_eq (s := s) tid
    have hown := initContext_ownOnly (s := s) tid
    have hran : (s.initContext tid).running = true := by rw [ht, hrun]
    have hout : (s.initContext tid).goesOut 1 = s.goesOut 1 := by rw [ht]; rfl
    rw [survives_reply hran hown, hout, not_not.mp hlen, bne_self_eq_false, Bool.false_or]

theorem register_eq (tid mapTo : ℤ) :
    ∃ t, s.register tid mapTo = { s with workerToContextTid := t } := by
  rw [register]
  split <;> exact ⟨_, rfl⟩

theorem contextRegisterHandler_survives (hrun : s.running = true) :
    Survives tid s (s.contextRegisterHandler args tid) ↔
      s.admits env .contextRegister args tid = true := by
  rw [contextRegisterHandler, admits]
  by_cases hlen : args.length = 2
  · rw [if_neg (not_not.mpr hlen), arg_ok (by omega), ok_bind, hlen, bne_self_eq_false,
      Bool.false_or]
    cases stoi (args.getD 1 []) with
    | error e => exact iff_of_false not_survives_error Bool.false_ne_true
    | ok v =>
      obtain ⟨t, ht⟩ := register_eq (s := s) tid v
      rw [ok_bind, ht]
      exact survives_reply hrun (fun k _ => .inl rfl)
  · rw [if_pos hlen]
    exact iff_of_true ⟨-1, s, rfl, .inr rfl, hrun, .refl⟩ (by simp [hlen])

theorem serve_survives (env : Env) (tid : ℤ) (d : Dispatch) (hrun : s.running = true) :
    Survives tid s (s.serve env d tid) ↔ s.admits env d.function d.args tid = true := by
  obtain ⟨f, args⟩ := d
  cases f with
  | getMaxPodsInit => exact survives_reply hrun .refl
  | savePodInit => exact savePodHandler_survives hrun
  | getPodInit => exact getPodHandler_survives hrun
  | getPodCacheInit => exact getPodCacheHandler_survives hrun
  | freePodInit => exact freePodHandler_survives hrun
  | contextInit => exact contextInitHandler_survives hrun
  | contextRegister => exact contextRegisterHandler_survives hrun
  | _ => exact iff_of_true ⟨0, s, rfl, .inl rfl, hrun, .refl⟩ rfl

/-- A command that ends inside the buffer and is empty or starts with a number that fits in an
`int`; if there is a handler for the number, the command has what that handler takes for granted. -/
structure Sane (env : Env) (s : State) (bytes : List UInt8) (tid : ℤ) : Prop where
  ends : bytes.length ≠ remonBufferSize ∨ (0 : UInt8) ∈ bytes
  word : cString bytes = [] ∨ ∃ w ws v, tokenizeString (cString bytes) = w :: ws ∧ stoi w = .ok v ∧
    ∀ f, Link.handled.find? (fun f => f.code = v) = some f → s.admits env f (w :: ws) tid = true

/-- In every state of a running server, the sane commands are exactly those on which the handler
returns 0 or -1, the server goes on and the pods of other tenants are as they were. -/
theorem server_survives (env : Env) (s : State) (tid : ℤ) (bytes : List UInt8)
    (hrun : s.running = true) :
    (∃ r s', s.functionHandler env bytes tid = .ok (r, s') ∧ (r = 0 ∨ r = -1) ∧
      s'.running = true ∧ ∀ k, k ≠ s.contextTid tid →
        s'.contextsByTid k = s.contextsByTid k ∨ k = tid ∧ s.contextsByTid k = none) ↔
      Sane env s bytes tid := by
  change Survives tid s _ ↔ _
  by_cases hends : bytes.length ≠ remonBufferSize ∨ (0 : UInt8) ∈ bytes
  · have htext : commandText bytes = .ok (cString bytes) := by
      rw [commandText, if_neg (by tauto)]
    have hsane : Sane env s bytes tid ↔ _ := ⟨Sane.word, fun h => ⟨hends, h⟩⟩
    rw [hsane, functionHandler, htext, ok_bind]
    by_cases hempty : cString bytes = []
    · rw [hempty]
      exact iff_of_true ⟨-1, s, rfl, .inr rfl, hrun, .refl⟩ (.inl rfl)
    rw [or_iff_right hempty]
    cases htok : tokenizeString (cString bytes) with
    | nil =>
      simp only [Link.functionHandler, if_neg hempty, htok]
      refine iff_of_false not_survives_error ?_
      rintro ⟨w, ws, v, h, -⟩
      cases h
    | cons w ws =>
      simp only [Link.functionHandler, if_neg hempty, htok]
      cases hv : stoi w with
      | error e =>
        refine iff_of_false not_survives_error ?_
        rintro ⟨w', ws', v, h, hv', -⟩
        cases h
        cases hv.symm.trans hv'
      | ok v =>
        have hword : (∃ w' ws' v', w :: ws = w' :: ws' ∧ stoi w' = .ok v' ∧ ∀ f,
            Link.handled.find? (fun f => f.code = v') = some f →
              s.admits env f (w' :: ws') tid = true) ↔
            ∀ f, Link.handled.find? (fun f => f.code = v) = some f →
              s.admits env f (w :: ws) tid = true := by
          constructor
          · rintro ⟨w', ws', v', h, hv', hf⟩
            cases h
            cases hv.symm.trans hv'
            exact hf
          · exact fun hf => ⟨w, ws, v, rfl, hv, hf⟩
        rw [hword, ok_bind]
        cases Link.handled.find? (fun f => f.code = v) with
        | none => exact iff_of_true ⟨0, s, rfl, .inl rfl, hrun, .refl⟩ (fun f h => by cases h)
        | some f =>
          have hserve := serve_survives env tid ⟨f, w :: ws⟩ hrun
          exact hserve.trans ⟨fun h g hg => Option.some.inj hg ▸ h, fun h => h f rfl⟩
  · have htext : commandText bytes = .error .undefined := by
      rw [commandText, if_pos (by tauto)]
    rw [functionHandler, htext]
    exact iff_of_false not_survives_error (fun h => hends h.ends)

/-- Worker 1 is registered with the context of worker 0, which has no pods. -/
def sampleServer : State where
  contextsByTid k := if k = 0 then some (fun _ => none) else none
  workerToContextTid k := if k = 1 then some 0 else none
  running := true
  isOpen := true
  incoming := []
  accepted := [1024, 1024]
  replies := []
  served := []

def sampleEnv : Env := ⟨false, fun n => decide (n < 2 ^ 40), 16⟩

def sampleGet : List UInt8 := [49, 48, 32, 53]

theorem sampleGet_sane : Sane sampleEnv sampleServer sampleGet 1 := by
  have htok : tokenizeString (cString sampleGet) = [[49, 48], [53]] := by decide
  refine ⟨.inl (by decide), .inr ⟨_, _, 10, htok, by decide, ?_⟩⟩
  intro f hf
  obtain rfl : RemoteFunction.getPodInit = f := Option.some.inj (hf.symm.trans (by decide)) |>.symm
  decide

theorem server_survives_sample : Sane sampleEnv sampleServer sampleGet 1 ∧
    ∃ r s', sampleServer.functionHandler sampleEnv sampleGet 1 = .ok (r, s') ∧
      (r = 0 ∨ r = -1) ∧ s'.running = true := by
  obtain ⟨r, s', hrun, hr, hgo, -⟩ :=
    (server_survives sampleEnv sampleServer 1 sampleGet rfl).mpr sampleGet_sane
  exact ⟨sampleGet_sane, r, s', hrun, hr, hgo⟩

/-- Commands that end the process or leave the language: a blank; a word that is no number; a fetch
by a worker that is not registered; a fetch without a key; a save whose size is no number, and one
whose size is zero; a registration whose key is no number; and a full buffer without a zero. A
client that is gone when its reply is sent stops the server. -/
theorem server_ends :
    sampleServer.functionHandler sampleEnv [32] 1 = .error .undefined ∧
    sampleServer.functionHandler sampleEnv [120] 1 = .error .uncaught ∧
    sampleServer.functionHandler sampleEnv sampleGet 2 = .error .undefined ∧
    sampleServer.functionHandler sampleEnv [49, 48] 1 = .error .undefined ∧
    sampleServer.functionHandler sampleEnv [54, 32, 53, 32, 120] 1 = .error .uncaught ∧
    sampleServer.functionHandler sampleEnv [54, 32, 53, 32, 48] 1 = .error (.exit (-1)) ∧
    sampleServer.functionHandler sampleEnv [49, 57, 32, 120] 2 = .error .uncaught ∧
    sampleServer.functionHandler sampleEnv (List.replicate 1024 49) 1 = .error .undefined ∧
    ∃ s', { sampleServer with accepted := [] }.functionHandler sampleEnv sampleGet 1 = .ok (0, s') ∧
      s'.running = false := by
  refine ⟨rfl, rfl, rfl, rfl, rfl, rfl, rfl, ?_, _, rfl, rfl⟩
  have htext : commandText (List.replicate 1024 49) = .error .undefined := by
    rw [commandText, if_pos]
    exact ⟨length_replicate, fun hc => absurd (eq_of_mem_replicate hc) (by decide)⟩
  rw [functionHandler, htext]
  rfl

end State

end Remon.Node.Handlers
