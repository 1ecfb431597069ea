import Remon.Lib.Traces
import Remon.Node.Exchanges
import Remon.Vmm.Contract
import Remon.Vmm.MovedBytes
import Remon.Vmm.PageReach
import Remon.Vmm.PrefetchWalk

/-! # The compute node and its memory nodes

The manager together with the stores that the memory nodes keep for it. The thread that has the
mutex of a pod sends a request about it to a worker of a node and waits for the reply; meanwhile
the other threads go on, and so do the workers of all nodes. What the manager relies on follows
from what the handlers do, as long as no connection breaks and an entry is erased before its key
is looked up again.
-/

namespace Remon
open Function Lib Heap Fault List

/-! ## What the operations do to the entries of the nodes -/

namespace Pager

variable {L : ℕ → Layout} {path : ℕ → String} {g g' : Pager} {i l : ℕ} {f : Fetch}

theorem beforeEvict_nodes {isFree swap : Bool} (run : g.beforeEvict L i isFree = .ok (swap, g')) :
    g'.nodes = g.nodes := by
  cases hs : (g.pods i).state with
  | local_ =>
    simp only [beforeEvict, hs] at run
    split at run
    · next hin =>
      obtain ⟨⟨removed, g₁⟩, h₁, run⟩ := of_bind_ok run
      obtain ⟨g₂, h₂, run⟩ := of_bind_ok run
      have hnodes : g₂.nodes = g.nodes :=
        (flushFreeBuffer_frame h₂).2.1.trans (benchSwappedPage_frame hin h₁).2.1
      split at run <;> cases run <;> exact hnodes
    · split at run <;> cases run <;> rfl
  | diskCache | remoteCache | localPinned | init | disk | remote =>
    simp only [beforeEvict, hs] at run
    cases run
    rfl

/-! ### Saves -/

theorem sendPayload_complete {sends : ℕ → Option ℕ} (hsends : ∀ k, sends k ≠ none) {fuel k left : ℕ}
    (hfuel : left ≤ fuel) : (sendPayload sends fuel k left).1 = true := by
  induction fuel generalizing k left with
  | zero => simpa [sendPayload] using hfuel
  | succ fuel ih =>
    rw [sendPayload]
    by_cases hl : left = 0
    · simp [hl]
    · rw [if_neg hl]
      obtain ⟨n, hn⟩ := Option.ne_none_iff_exists'.mp (hsends k)
      rw [hn]
      -- every call takes at least one byte
      exact ih (by omega)

theorem remoteSwap_refused {refusals l : List (ℕ × SaveScript)}
    (h : ∀ x ∈ refusals, Answered x.2.firstReply .savePodErr) :
    remoteSwap L i (refusals ++ l) g = remoteSwap L i l g := by
  induction refusals with
  | nil => rfl
  | cons x refusals ih =>
    obtain ⟨hx, h⟩ := forall_mem_cons.mp h
    have hsave : (g.pods i).bundleSavePodToRemote (L i) x.1 x.2 = .ok (false, g.pods i, 0) := by
      rw [Pod.bundleSavePodToRemote, Pod.savePodToRemote_eq, hx]
      simp [Pod.codes_ne.1.symm]
    have hself : g.setPod i (g.pods i) = g := by
      rw [setPod, update_eq_self]
    rw [cons_append, remoteSwap, hsave, ok_bind]
    simp only [Bool.false_eq_true, if_false, hself]
    exact ih h

end Pager

/-! ## Exchanges -/

/-- The key of a pod at the nodes. -/
def podKey (i : ℕ) : String := toString i

theorem podKey_injective : Injective podKey := by
  intro i j h
  exact swapFile_injective "" (congrArg ("" ++ "/" ++ ·) h)

/-- A request about a pod to a worker of a node, and what the worker said when it was done. -/
structure Exchange where
  client : ℕ
  worker : ℕ
  ask : Node.Ask
  reply : Option Node.Reply
  deriving DecidableEq, Repr

namespace Exchange

def Script (e : Exchange) (x : ℕ × SaveScript) : Prop :=
  e.client = x.1 ∧
    match e.reply with
    | some .savePodErr => Answered x.2.firstReply .savePodErr
    | some .savePodDONE => Answered x.2.firstReply .savePodOK ∧ (∀ k, x.2.sends k ≠ none) ∧
        Answered x.2.secondReply .savePodDONE
    | _ => False

/-- What the tenant can count on at node `client`, if that is `x` before the exchanges. Of
several exchanges all but the latest are saves that were refused. -/
def held (x : Option (List UInt8)) (client : ℕ) : List Exchange → Option (List UInt8)
  | [] => x
  | e :: _ =>
    if e.client = client then
      match e.reply with
      | none => e.ask.sent x
      | some r => e.ask.settled (e.ask.sent x) r
    else x

def deliver (client w : ℕ) (r : Node.Reply) : List Exchange → List Exchange
  | [] => []
  | e :: rest =>
    (if e.client = client ∧ e.worker = w ∧ e.reply = none then { e with reply := some r } else e)
      :: rest

end Exchange

def outgoing (L : ℕ → Layout) (i : ℕ) : Except Fault (Bool × Pager) → Option (List UInt8)
  | .ok (true, g) =>
    if (g.pods i).state = .local_ then
      some ((g.pods i).mem.bytes (L i).payloadStart ((g.pods i).getTailOffset (L i)))
    else none
  | _ => none

theorem of_outgoing {L : ℕ → Layout} {i : ℕ} {r : Except Fault (Bool × Pager)}
    {payload : List UInt8} (h : outgoing L i r = some payload) :
    ∃ g, r = .ok (true, g) ∧ (g.pods i).state = .local_ ∧
      payload = (g.pods i).mem.bytes (L i).payloadStart ((g.pods i).getTailOffset (L i)) := by
  unfold outgoing at h
  split at h
  · next g =>
    split_ifs at h with hs
    exact ⟨g, rfl, hs, (Option.some.inj h).symm⟩
  · cases h

def Tried (L : ℕ → Layout) (i : ℕ) (r : Except Fault (Bool × Pager)) (talk : List Exchange)
    (localCopy : List (ℕ × SaveScript)) : Prop :=
  List.Forall₂ Exchange.Script talk localCopy.reverse ∧
    ∀ e ∈ talk, ∃ payload, e.ask = .save payload ∧ outgoing L i r = some payload

namespace Op

/-- The pod whose mutex the thread holds while it talks to nodes. -/
def pod : Op → Option ℕ
  | .pickPodToEvict i _ _ | .asyncSwapOutPod i _ | .activatePod i _ | .prefetchPod i _
  | .addPodToBuffer i _ => some i
  | _ => none

def Heard (L : ℕ → Layout) (s : Session) (talk : List Exchange) : Op → Prop
  | .activatePod i f =>
    match (s.pods i).state with
    | .remote => ∃ client w, (s.pods i).landlordClient = some client ∧
        talk = [⟨client, w, .get false, some (.payload f.delivery.bytes)⟩]
    | .remoteCache => s.Honest i f ∧ ∃ client w, (s.pods i).landlordClient = some client ∧
        talk = [⟨client, w, .free, some .freePodOk⟩] ∧ Answered f.reply .freePodOk
    | _ => talk = []
  | .prefetchPod i f =>
    match (s.pods i).state with
    | .remote => ∃ client w, (s.pods i).landlordClient = some client ∧
        talk = [⟨client, w, .get true, some (.payload f.delivery.bytes)⟩]
    | .remoteCache => s.Honest i f ∧ talk = []
    | _ => talk = []
  | .addPodToBuffer i f =>
    match (s.pods i).state with
    | .remote | .remoteCache => ∃ client w, (s.pods i).landlordClient = some client ∧
        talk = [⟨client, w, .free, some .freePodOk⟩] ∧ Answered f.reply .freePodOk
    | _ => talk = []
  | .pickPodToEvict i isFree localCopy => Tried L i (s.beforeEvict L i isFree) talk localCopy
  -- no command of the manager forces a swap
  | .asyncSwapOutPod _ _ => False
  | _ => True

end Op

theorem Op.Heard.ne_waiting {L : ℕ → Layout} {s : Session} {op : Op} {i client w : ℕ}
    {ask : Node.Ask} {talk rest : List Exchange} (hop : op.pod = some i)
    (h : op.Heard L s talk) : talk ≠ ⟨client, w, ask, none⟩ :: rest := by
  rintro rfl
  have hscript : ∀ l, ¬ List.Forall₂ Exchange.Script (⟨client, w, ask, none⟩ :: rest) l := by
    intro l hl
    obtain ⟨x, -, hx, -⟩ := forall₂_cons_left_iff.mp hl
    exact hx.2
  cases op with
  | allocate | addPodAndAllocate | free | trim | trimFreePage | store => cases hop
  | activatePod i f | prefetchPod i f | addPodToBuffer i f =>
    simp only [Op.Heard] at h
    split at h <;> simp at h
  | pickPodToEvict => exact hscript _ h.1
  | asyncSwapOutPod => exact h.elim

namespace Exchange

variable {x : Option (List UInt8)} {client : ℕ} {talk : List Exchange} {e : Exchange}

theorem save_of_savePodErr {ask : Node.Ask} (h : ask.Settles x .savePodErr) :
    ∃ payload, ask = .save payload := by
  cases ask with
  | save payload => exact ⟨payload, rfl⟩
  | get => exact h.elim
  | free => exact h.elim

theorem held_refused (hr : e.reply = some .savePodErr) {payload : List UInt8}
    (ha : e.ask = .save payload) : held x client (e :: talk) = x := by
  simp only [held, hr, ha, Node.Ask.settled, Node.Ask.sent, ite_self]

theorem held_cons_of_ne (h : e.client ≠ client) : held x client (e :: talk) = x := if_neg h

theorem held_waiting {w : ℕ} {ask : Node.Ask} :
    held x client (⟨client, w, ask, none⟩ :: talk) = ask.sent x :=
  if_pos rfl

theorem held_replied {w : ℕ} {ask : Node.Ask} {r : Node.Reply} :
    held x client (⟨client, w, ask, some r⟩ :: talk) = ask.settled (ask.sent x) r :=
  if_pos rfl

/-- A script of a save is one on which the save is all or nothing. -/
theorem Script.dialogue {L : Layout} {p : Pod} {y : ℕ × SaveScript} (h : e.Script y) :
    p.SaveDialogue L y.2 := by
  obtain ⟨-, h⟩ := h
  split at h
  · exact .refused h
  · exact .saved h.1 (Pager.sendPayload_complete h.2.1 le_rfl) h.2.2
  · exact h.elim

theorem exists_script {l : List (ℕ × SaveScript)} (h : List.Forall₂ Script talk l)
    {y : ℕ × SaveScript} (hy : y ∈ l) : ∃ e ∈ talk, e.Script y := by
  induction h with
  | nil => cases hy
  | cons hx _ ih =>
    rcases mem_cons.mp hy with rfl | hy
    · exact ⟨_, mem_cons_self, hx⟩
    · obtain ⟨e, he, hscript⟩ := ih hy
      exact ⟨e, mem_cons_of_mem _ he, hscript⟩

end Exchange

namespace Pager

variable {L : ℕ → Layout} {path : ℕ → String} {g g' : Pager} {i j : ℕ} {talk : List Exchange}
  {localCopy : List (ℕ × SaveScript)}

theorem evictPod_refused (h : ∀ x ∈ localCopy, Answered x.2.firstReply .savePodErr)
    (run : g.evictPod L path i localCopy = .ok g') : g'.nodes = g.nodes := by
  have hnone : remoteSwap L i localCopy g = .ok (false, g) := by
    rw [← append_nil localCopy, remoteSwap_refused h]
    rfl
  unfold evictPod at run
  split at run
  · cases run
    rfl
  · rw [hnone] at run
    cases run
    rfl

theorem evictPod_saved {client : ℕ} {c : SaveScript}
    (h : ∀ x ∈ localCopy, Answered x.2.firstReply .savePodErr)
    (hok : Answered c.firstReply .savePodOK) (hsends : ∀ k, c.sends k ≠ none)
    (hdone : Answered c.secondReply .savePodDONE) (hs : (g.pods i).state = .local_)
    (run : g.evictPod L path i (localCopy ++ [(client, c)]) = .ok g') :
    g'.nodes = update g.nodes i (storeEntry (g.nodes i) client
      ((g.pods i).mem.bytes (L i).payloadStart ((g.pods i).getTailOffset (L i)))) := by
  have hsave : ∃ q, (g.pods i).savePodToRemote (L i) c =
      .ok (true, q, (g.pods i).getTailOffset (L i)) := by
    rw [Pod.savePodToRemote_accepted hok, Pod.highSpeedSendPod_eq,
      if_pos (sendPayload_complete hsends le_rfl), hdone]
    simp [Pod.codes_ne.2]
  obtain ⟨q, hq⟩ := hsave
  rw [evictPod, if_neg (not_not.mpr hs), remoteSwap_refused h, remoteSwap,
    Pod.bundleSavePodToRemote, hq] at run
  cases run
  rfl

theorem storeEntry_apply {node : ℕ → Option (List UInt8)} (h : ∀ client, node client = none)
    (client client' : ℕ) (payload : List UInt8) :
    storeEntry node client payload client' = if client = client' then some payload else none := by
  rw [storeEntry, h client, Option.isSome_none, if_neg Bool.false_ne_true]
  by_cases hc : client = client'
  · rw [if_pos hc, hc, update_self]
  · rw [if_neg hc, update_of_ne (Ne.symm hc), h client']

/-- The node that took the page holds it. -/
theorem pickPodToEvict_nodes {isFree : Bool}
    (htried : Tried L i (g.beforeEvict L i isFree) talk localCopy)
    (hrefused : ∀ e rest, talk = e :: rest → ∀ e' ∈ rest, e'.reply = some .savePodErr)
    (hfresh : ∀ e ∈ talk, ∀ payload, e.ask = .save payload → ∀ client, g.nodes i client = none)
    (run : g.pickPodToEvict L path i isFree localCopy = .ok g') :
    (∀ j, j ≠ i → g'.nodes j = g.nodes j) ∧
      ∀ client, g'.nodes i client = Exchange.held (g.nodes i client) client talk := by
  obtain ⟨⟨swap, g₁⟩, hg₁, run⟩ := of_bind_ok run
  have hnodes := beforeEvict_nodes hg₁
  obtain ⟨hscripts, hsends⟩ := htried
  cases talk with
  | nil =>
    have hnil : localCopy = [] := reverse_eq_nil_iff.mp (forall₂_nil_left_iff.mp hscripts)
    have hsame : g'.nodes = g₁.nodes := by
      cases swap with
      | false =>
        cases run
        rfl
      | true => exact evictPod_refused (by simp [hnil]) run
    rw [hsame, hnodes]
    exact ⟨fun _ _ => rfl, fun _ => rfl⟩
  | cons e rest =>
    obtain ⟨payload, hask, hout⟩ := hsends e mem_cons_self
    obtain ⟨g₂, hg₂, hs, hpay⟩ := of_outgoing hout
    rw [hg₁] at hg₂
    obtain ⟨rfl, rfl⟩ := Prod.mk.inj (Except.ok.inj hg₂)
    have hempty := hfresh e mem_cons_self payload hask
    obtain ⟨⟨client, script⟩, xs, hx, hxs, hrev⟩ := forall₂_cons_left_iff.mp hscripts
    have hcopy : localCopy = xs.reverse ++ [(client, script)] := by
      rw [← reverse_reverse localCopy, hrev, reverse_cons]
    have hall : ∀ y ∈ xs.reverse, Answered y.2.firstReply .savePodErr := by
      intro y hy
      obtain ⟨e', he', hscript⟩ := Exchange.exists_script hxs (mem_reverse.mp hy)
      have herr := hscript.2
      rw [hrefused e rest rfl e' he'] at herr
      exact herr
    obtain ⟨rfl, hx⟩ : e.client = client ∧ _ := hx
    simp only [if_true] at run
    rw [hcopy] at run
    split at hx
    · next hreply =>
      have hsame : g'.nodes = g₁.nodes := by
        refine evictPod_refused (fun y hy => ?_) run
        rcases mem_append.mp hy with hy | hy
        · exact hall y hy
        · rw [mem_singleton.mp hy]
          exact hx
      rw [hsame, hnodes]
      exact ⟨fun _ _ => rfl, fun client => (Exchange.held_refused hreply hask).symm⟩
    · next hreply =>
      have hstored := evictPod_saved hall hx.1 hx.2.1 hx.2.2 hs run
      rw [hnodes, ← hpay] at hstored
      refine ⟨fun j hj => by rw [hstored, update_of_ne hj], fun client' => ?_⟩
      rw [hstored, update_self, storeEntry_apply hempty, hempty client']
      simp only [Exchange.held, hreply, hask, Node.Ask.settled]
    · exact hx.elim

end Pager

namespace Session

variable {L : ℕ → Layout} {path : ℕ → String} {s s' : Session} {op : Op} {i j : ℕ}
  {talk : List Exchange}

theorem nodes_of_ok {g : Pager} (hg : (.ok g : Except Fault Pager) = .ok s'.toPager)
    {nodes : ℕ → ℕ → Option (List UInt8)} (hn : g.nodes = nodes) : s'.nodes = nodes := by
  rw [← Except.ok.inj hg, hn]

/-- An operation without exchanges leaves the entries of the nodes. -/
theorem nodes_silent (run : s.step L path op = .ok s') (hop : op.pod = none) :
    s'.nodes = s.nodes := by
  cases op with
  | allocate l size ch =>
    obtain ⟨⟨ptr, g⟩, hg, run⟩ := of_bind_ok run
    obtain ⟨⟨_, t⟩, -, hg⟩ := of_bind_ok hg
    cases hg
    obtain rfl := Except.ok.inj run
    split
    · rfl
    · rw [toPager_grant]
      rfl
  | addPodAndAllocate l i =>
    simp only [step] at run
    split at run
    · cases run
    · obtain ⟨⟨ptr, g⟩, hg, run⟩ := of_bind_ok run
      obtain ⟨p, -, hg⟩ := of_bind_ok hg
      obtain ⟨⟨_, t⟩, -, hg⟩ := of_bind_ok hg
      cases hg
      obtain rfl := Except.ok.inj run
      split
      · rfl
      · rw [toPager_grant]
        rfl
  | free i addr =>
    obtain ⟨⟨full, g⟩, hg, run⟩ := of_bind_ok run
    obtain rfl := Except.ok.inj run
    rw [Pager.free] at hg
    split at hg
    · cases hg
    · obtain ⟨⟨_, t⟩, -, hg⟩ := of_bind_ok hg
      cases hg
      rfl
  | trim l ch tryLock =>
    obtain ⟨t, -, hg⟩ := of_bind_ok (pager_of_step run fun _ => rfl)
    exact nodes_of_ok hg rfl
  | trimFreePage i =>
    have hg := pager_of_step run fun _ => rfl
    rw [Pager.trimFreePage] at hg
    split at hg
    · obtain ⟨p, -, hg⟩ := of_bind_ok hg
      exact nodes_of_ok hg rfl
    · exact nodes_of_ok hg rfl
  | store i addr v =>
    have hg := pager_of_step run fun _ => rfl
    rw [Pager.store] at hg
    split at hg
    · cases hg
    · exact nodes_of_ok hg rfl
  | pickPodToEvict | asyncSwapOutPod | activatePod | prefetchPod | addPodToBuffer => cases hop

theorem nodes_released {nodes : ℕ → ℕ → Option (List UInt8)} {client w : ℕ} {ask : Node.Ask}
    {r : Node.Reply} (hland : (s.pods i).landlordClient = some client)
    (hnodes : nodes = (s.toPager.eraseNode i).nodes) (htalk : talk = [⟨client, w, ask, some r⟩])
    (hnone : ∀ x, ask.settled (ask.sent x) r = none) :
    (∀ j, j ≠ i → nodes j = s.nodes j) ∧
      ∀ client', nodes i client' = Exchange.held (s.nodes i client') client' talk := by
  rw [Pager.eraseNode_eq hland] at hnodes
  subst htalk hnodes
  refine ⟨fun j hj => update_of_ne hj _ _, fun client' => ?_⟩
  dsimp only
  rw [update_self, eraseEntry]
  by_cases hc : client' = client
  · rw [hc, update_self, Exchange.held_replied, hnone]
  · rw [update_of_ne hc, Exchange.held_cons_of_ne (Ne.symm hc)]

/-- After an operation the nodes hold what its exchanges say. -/
theorem nodes_heard (run : s.step L path op = .ok s') (hop : op.pod = some i)
    (hheard : op.Heard L s talk)
    (hrefused : ∀ e rest, talk = e :: rest → ∀ e' ∈ rest, e'.reply = some .savePodErr)
    (hfresh : ∀ e ∈ talk, ∀ payload, e.ask = .save payload → ∀ client, s.nodes i client = none) :
    (∀ j, j ≠ i → s'.nodes j = s.nodes j) ∧
      ∀ client, s'.nodes i client = Exchange.held (s.nodes i client) client talk := by
  have hsame : s'.nodes = s.nodes → talk = [] → (∀ j, j ≠ i → s'.nodes j = s.nodes j) ∧
      ∀ client, s'.nodes i client = Exchange.held (s.nodes i client) client talk := by
    rintro hn rfl
    rw [hn]
    exact ⟨fun _ _ => rfl, fun _ => rfl⟩
  cases op with
  | allocate | addPodAndAllocate | free | trim | trimFreePage | store => cases hop
  | activatePod i' f =>
    obtain rfl := Option.some.inj hop
    have hg := pager_of_step run fun _ => rfl
    cases hs : (s.pods i').state with
    | remote =>
      simp only [Op.Heard, hs] at hheard
      obtain ⟨client, w, hland, htalk⟩ := hheard
      simp only [Pager.activatePod, hs] at hg
      obtain ⟨p, -, hg⟩ := of_bind_ok hg
      exact nodes_released hland (Pager.arrive_frame hg).2.1 htalk fun _ => rfl
    | remoteCache =>
      simp only [Op.Heard, hs] at hheard
      obtain ⟨-, client, w, hland, htalk, -⟩ := hheard
      simp only [Pager.activatePod, hs] at hg
      obtain ⟨p, -, hg⟩ := of_bind_ok hg
      exact nodes_released hland (Pager.arrive_frame hg).2.1 htalk fun _ => rfl
    | disk | diskCache =>
      simp only [Op.Heard, hs] at hheard
      simp only [Pager.activatePod, hs] at hg
      obtain ⟨⟨files, p⟩, -, hg⟩ := of_bind_ok hg
      exact hsame (Pager.arrive_frame hg).2.1 hheard
    | init | local_ | localPinned =>
      simp only [Op.Heard, hs] at hheard
      simp only [Pager.activatePod, hs] at hg
      exact hsame (nodes_of_ok hg rfl) hheard
  | prefetchPod i' f =>
    obtain rfl := Option.some.inj hop
    obtain ⟨p, hp⟩ := Manager.prefetchPod_setPod (pager_of_step run fun _ => rfl)
    have hnodes : s'.nodes = s.nodes := by
      rw [hp]
      rfl
    cases hs : (s.pods i').state with
    | remote =>
      simp only [Op.Heard, hs] at hheard
      obtain ⟨client, w, hland, rfl⟩ := hheard
      rw [hnodes]
      refine ⟨fun _ _ => rfl, fun client' => ?_⟩
      by_cases hc : client' = client
      · rw [hc, Exchange.held_replied]
        rfl
      · rw [Exchange.held_cons_of_ne (Ne.symm hc)]
    | remoteCache =>
      simp only [Op.Heard, hs] at hheard
      exact hsame hnodes hheard.2
    | init | local_ | localPinned | disk | diskCache =>
      simp only [Op.Heard, hs] at hheard
      exact hsame hnodes hheard
  | addPodToBuffer i' f =>
    obtain rfl := Option.some.inj hop
    have hg := pager_of_step run fun _ => rfl
    cases hs : (s.pods i').state with
    | remote | remoteCache =>
      simp only [Op.Heard, hs] at hheard
      obtain ⟨client, w, hland, htalk, -⟩ := hheard
      simp only [Pager.addPodToBuffer, hs] at hg
      obtain ⟨p, -, hg⟩ := of_bind_ok hg
      exact nodes_released hland (nodes_of_ok hg rfl) htalk fun _ => rfl
    | diskCache =>
      simp only [Op.Heard, hs] at hheard
      simp only [Pager.addPodToBuffer, hs] at hg
      obtain ⟨⟨files, p⟩, -, hg⟩ := of_bind_ok hg
      exact hsame (nodes_of_ok hg rfl) hheard
    | init | local_ | localPinned | disk =>
      simp only [Op.Heard, hs] at hheard
      simp only [Pager.addPodToBuffer, hs] at hg
      exact hsame (nodes_of_ok hg rfl) hheard
  | pickPodToEvict i' isFree localCopy =>
    obtain rfl := Option.some.inj hop
    exact Pager.pickPodToEvict_nodes hheard hrefused hfresh (pager_of_step run fun _ => rfl)
  | asyncSwapOutPod => exact hheard.elim

end Session

/-! ## The cluster -/

structure Cluster where
  manager : Manager
  /-- what each node keeps for the manager -/
  node : ℕ → Node.Server
  /-- the exchanges about a pod since its mutex was taken, the latest first -/
  talk : ℕ → List Exchange

namespace Cluster

inductive Act where
  /-- the thread with the mutex of pod `i` sends a request -/
  | ask (i client w : ℕ) (ask : Node.Ask)
  /-- a worker of a node takes a step -/
  | node (client w : ℕ) (a : Node.Act)
  /-- a command takes effect -/
  | command (cmd : Cmd)

variable (c : Setup) (path : ℕ → String) (s : Cluster)

def new : Cluster := ⟨.new, fun _ => .empty, fun _ => []⟩

def hear (client w : ℕ) : Option (String × Node.Reply) → ℕ → List Exchange
  | none => s.talk
  | some (k, r) => fun i =>
    if podKey i = k then Exchange.deliver client w r (s.talk i) else s.talk i

def step : Act → Except Fault Cluster
  | .ask i client w ask =>
    match (s.node client).step w (ask.act (podKey i)) with
    | none => .error .blocked
    | some t => .ok { s with
        node := update s.node client t
        talk := update s.talk i (⟨client, w, ask, none⟩ :: s.talk i) }
  | .node client w a =>
    match (s.node client).step w a with
    | none => .error .blocked
    | some t => .ok { s with
        node := update s.node client t
        talk := s.hear client w ((s.node client).said w a) }
  | .command cmd => do
    let m ← s.manager.step c path cmd
    return { s with
      manager := m
      talk := match (s.manager.opOf c cmd).bind Op.pod with
        | none => s.talk
        | some i => update s.talk i [] }

/-- The requests that a thread makes about pod `i`. -/
def Asks (i client : ℕ) : Node.Ask → Prop
  | .save payload => ∃ t, s.manager.tagOf c i = some t ∧
      outgoing c.L i (s.manager.beforeEvict c.L i t.isFree) = some payload
  | .get _ => (s.manager.pods i).state = .remote ∧
      (s.manager.pods i).landlordClient = some client
  | .free => ((s.manager.pods i).state = .remote ∨ (s.manager.pods i).state = .remoteCache) ∧
      (s.manager.pods i).landlordClient = some client

def Fair : Cmd → Prop
  | .hugePage p _ => ∃ x, s.manager.callAt p = some x ∧
      ∃ t, s.manager.tagOf c p = some t ∧ x.next < p + t.globalSize
  | .activatePod i _ => s.manager.InUse i
  | .prefetchPod i _ => s.manager.splPushdown i = none
  | .pickPodToEvict _ _ => True
  | cmd => s.manager.Legal c cmd

/-- A thread asks the next node when the last one refused the page. -/
def Legal : Act → Prop
  | .ask i client _ ask => s.Asks c i client ask ∧
      ∀ e rest, s.talk i = e :: rest → e.reply = some .savePodErr
  | .node client w a => a.isInner = true ∧ (s.node client).Prompt w a
  | .command cmd => s.Fair c cmd ∧
      ∀ op i, s.manager.opOf c cmd = some op → op.pod = some i →
        op.Heard c.L s.manager.toSession (s.talk i)

/-- The states that the threads and the workers lead to, in any order. -/
inductive Run : Cluster → Prop
  | start : Run new
  | step {s s' : Cluster} {act : Act} (hs : Run s) (hlegal : s.Legal c act)
      (run : s.step c path act = .ok s') : Run s'

/-! ## The invariant -/

def at_ (client w : ℕ) : Option (String × Node.Ask × Option (List UInt8)) :=
  ((s.node client).workers w).ask

/-- The invariant at one pod. -/
structure PodInv (i : ℕ) : Prop where
  /-- the nodes hold what the manager counts on -/
  saved : ∀ client, (s.node client).saved (podKey i) =
    Exchange.held (s.manager.nodes i client) client (s.talk i)
  /-- a request that a thread waits for has a worker -/
  served : ∀ client w ask rest, s.talk i = ⟨client, w, ask, none⟩ :: rest →
    ∃ e, s.at_ client w = some (podKey i, ask, e)
  settles : ∀ e rest r, s.talk i = e :: rest → e.reply = some r →
    e.ask.Settles (s.manager.nodes i e.client) r
  refused : ∀ e rest, s.talk i = e :: rest → ∀ e' ∈ rest, e'.reply = some .savePodErr
  /-- a page that is being saved is at no node -/
  fresh : ∀ e ∈ s.talk i, ∀ payload, e.ask = .save payload →
    ∀ client, s.manager.nodes i client = none

structure Inv : Prop where
  manager : Manager.Run c path (fun _ _ => True) s.manager
  calm : ∀ client, (s.node client).CalmRun
  clean : ∀ client, (s.node client).Clean
  pods : ∀ i, s.PodInv i
  /-- a worker is at a request that a thread waits for -/
  asked : ∀ client w k ask e, s.at_ client w = some (k, ask, e) →
    ∃ i rest, k = podKey i ∧ s.talk i = ⟨client, w, ask, none⟩ :: rest ∧
      ∀ isCache, ask = .get isCache → e = s.manager.nodes i client

variable {c path s} {s' : Cluster} {i client w : ℕ} {ask : Node.Ask} {a : Node.Act} {cmd : Cmd}

theorem podInv_of_nil (htalk : s.talk i = [])
    (hsaved : ∀ client, (s.node client).saved (podKey i) = s.manager.nodes i client) :
    s.PodInv i := by
  refine ⟨fun client => ?_, ?_, ?_, ?_, ?_⟩
  · rw [hsaved, htalk]
    rfl
  all_goals simp [htalk]

theorem podInv_of_cons {e : Exchange} {rest : List Exchange} (htalk : s.talk i = e :: rest)
    (hsaved : ∀ client, (s.node client).saved (podKey i) =
      Exchange.held (s.manager.nodes i client) client (e :: rest))
    (hserved : e.reply = none → ∃ x, s.at_ e.client e.worker = some (podKey i, e.ask, x))
    (hsettles : ∀ r, e.reply = some r → e.ask.Settles (s.manager.nodes i e.client) r)
    (hrefused : ∀ e' ∈ rest, e'.reply = some .savePodErr)
    (hfresh : ∀ e' ∈ e :: rest, ∀ payload, e'.ask = .save payload →
      ∀ client, s.manager.nodes i client = none) : s.PodInv i where
  saved := htalk ▸ hsaved
  served client w ask rest' h := by
    obtain ⟨rfl, -⟩ := List.cons.inj (htalk.symm.trans h)
    exact hserved rfl
  settles e' rest' r h := by
    obtain ⟨rfl, -⟩ := List.cons.inj (htalk.symm.trans h)
    exact hsettles r
  refused e' rest' h := by
    obtain ⟨-, rfl⟩ := List.cons.inj (htalk.symm.trans h)
    exact hrefused
  fresh := htalk ▸ hfresh

theorem inv_new : Inv c path new where
  manager := .start
  calm _ := .start
  clean _ := Node.Server.clean_empty
  pods _ := podInv_of_nil rfl fun _ => rfl
  asked _ _ _ _ _ h := by cases h

/-- Nothing that concerns pod `i` has changed. -/
theorem PodInv.frame (h : s.PodInv i) (htalk : s'.talk i = s.talk i)
    (hnodes : s'.manager.nodes i = s.manager.nodes i)
    (hsaved : ∀ client, (s'.node client).saved (podKey i) = (s.node client).saved (podKey i))
    (hat : ∀ client w ask e, s.at_ client w = some (podKey i, ask, e) →
      s'.at_ client w = some (podKey i, ask, e)) : s'.PodInv i where
  saved client := by rw [hsaved, htalk, hnodes]; exact h.saved client
  served client w ask rest ht := by
    obtain ⟨e, he⟩ := h.served client w ask rest (htalk ▸ ht)
    exact ⟨e, hat client w ask e he⟩
  settles e rest r ht hr := by rw [hnodes]; exact h.settles e rest r (htalk ▸ ht) hr
  refused e rest ht := h.refused e rest (htalk ▸ ht)
  fresh e he payload ha := by rw [hnodes]; exact h.fresh e (htalk ▸ he) payload ha

/-! ### A worker of a node takes a step -/

section Move

variable {t : Node.Server} {x : Node.Worker} {k : String} {v : Option (List UInt8)}

theorem at_move (talk : ℕ → List Exchange)
    (hw : t.workers = update (s.node client).workers w x) (client' w' : ℕ) :
    ({ s with node := update s.node client t, talk := talk } : Cluster).at_ client' w' =
      if client' = client ∧ w' = w then x.ask else s.at_ client' w' := by
  change ((update s.node client t client').workers w').ask = _
  by_cases hc : client' = client
  · subst hc
    rw [update_self, hw]
    by_cases hww : w' = w
    · rw [if_pos ⟨rfl, hww⟩, hww, update_self]
    · rw [if_neg (fun h => hww h.2), update_of_ne hww]
      rfl
  · rw [update_of_ne hc, if_neg (fun h => hc h.1)]
    rfl

theorem saved_move (hv : t.saved = update (s.node client).saved k v) (client' : ℕ)
    (k' : String) : (update s.node client t client').saved k' =
      if client' = client ∧ k' = k then v else (s.node client').saved k' := by
  by_cases hc : client' = client
  · subst hc
    rw [update_self, hv]
    by_cases hk : k' = k
    · rw [if_pos ⟨rfl, hk⟩, hk, update_self]
    · rw [if_neg (fun h => hk h.2), update_of_ne hk]
  · rw [update_of_ne hc, if_neg (fun h => hc h.1)]

theorem forall_move {P : Node.Server → Prop} (ht : P t) (h : ∀ client, P (s.node client))
    (client' : ℕ) : P (update s.node client t client') := by
  by_cases hc : client' = client
  · rw [hc, update_self]
    exact ht
  · rw [update_of_ne hc]
    exact h client'

end Move

end Cluster

namespace Pager

variable {L : ℕ → Layout} {path : ℕ → String} {b : Prop} {g g' : Pager} {h : ∀ i, AbsHeap (L i)}
  {i : ℕ}

theorem Sound.landlord_cases (hg : Sound L path b g h) (i : ℕ) :
    (((g.pods i).state = .remote ∨ (g.pods i).state = .remoteCache) ∧
      ∃ client bytes, (g.pods i).landlordClient = some client ∧
        g.nodes i = update (fun _ => none) client (some bytes)) ∨
    ((g.pods i).state ≠ .remote ∧ (g.pods i).state ≠ .remoteCache ∧
      (g.pods i).landlordClient = none ∧ ∀ client, g.nodes i client = none) := by
  have hw := hg.pages i
  cases hs : (g.pods i).state with
  | remote | remoteCache =>
    obtain ⟨m, -, hk⟩ := hw
    have hne : (g.pods i).state ≠ .init := by simp [hs]
    obtain ⟨client, -, -, -, -, hl, hn, -⟩ := (hk.swapped hne).of_remote (by simp [world, hs])
    exact .inl ⟨by simp, client, _, hl, hn⟩
  | local_ | localPinned =>
    have hres : (g.pods i).state = .local_ ∨ (g.pods i).state = .localPinned := by simp [hs]
    obtain ⟨-, -, -, hl, hn⟩ := (World.models_resident hres).mp hw
    exact .inr ⟨by simp, by simp, hl, hn⟩
  | init =>
    obtain ⟨-, -, -, hl, hn⟩ := (World.models_init hs).mp hw
    exact .inr ⟨by simp, by simp, hl, hn⟩
  | disk | diskCache =>
    obtain ⟨m, -, hk⟩ := hw
    have hne : (g.pods i).state ≠ .init := by simp [hs]
    obtain ⟨-, -, -, -, -, hl, hn⟩ := (hk.swapped hne).of_disk (by simp [world, hs])
    exact .inr ⟨by simp, by simp, hl, hn⟩

theorem state_of_outgoing {isFree : Bool} {payload : List UInt8}
    (h : outgoing L i (g.beforeEvict L i isFree) = some payload) :
    (g.pods i).state = .local_ := by
  obtain ⟨g', hg', -⟩ := of_outgoing h
  cases hs : (g.pods i).state with
  | local_ => rfl
  | diskCache | remoteCache | localPinned | init | disk | remote =>
    simp only [beforeEvict, hs] at hg'
    cases hg'

end Pager

namespace Cluster

variable {c : Setup} {path : ℕ → String} {s s' : Cluster} {i client w : ℕ} {ask : Node.Ask}
  {a : Node.Act} {cmd : Cmd}

namespace Inv

variable (hs : s.Inv c path)
include hs

theorem sound (hinj : Injective path) :
    ∃ h, s.manager.toPager.Sound c.L path True h := by
  obtain ⟨h, hm⟩ := hs.manager.inv (b := True) hinj (fun _ cmd _ => Manager.sized_true cmd)
  exact ⟨h, hm.session.pager.toSound⟩

/-- A node sends what it holds for the manager. -/
theorem payload (hinj : Injective path) {isCache : Bool} {r : Node.Reply}
    {rest : List Exchange} (hland : (s.manager.pods i).landlordClient = some client)
    (htalk : s.talk i = ⟨client, w, .get isCache, some r⟩ :: rest) :
    ∃ bytes, s.manager.nodes i client = some bytes ∧ r = .payload bytes := by
  obtain ⟨h, hsound⟩ := hs.sound hinj
  have hsettles := (hs.pods i).settles _ _ r htalk rfl
  rcases hsound.landlord_cases i with ⟨-, client', bytes, hl, hn⟩ | ⟨-, -, hl, -⟩
  · obtain rfl := Option.some.inj (hl.symm.trans hland)
    have hbytes : s.manager.nodes i client' = some bytes := by rw [hn, update_self]
    refine ⟨bytes, hbytes, ?_⟩
    cases r with
    | payload bytes' => rw [hsettles bytes hbytes]
    | getPodErr =>
      rw [Node.Ask.Settles, hbytes] at hsettles
      cases hsettles
    | savePodErr | savePodDONE | freePodOk => exact hsettles.elim
  · rw [hland] at hl
    cases hl

theorem honest_of_state (hinj : Injective path) {f : Fetch}
    (hr : (s.manager.pods i).state ≠ .remote) (hc : (s.manager.pods i).state ≠ .remoteCache) :
    s.manager.Honest i f := by
  obtain ⟨h, hsound⟩ := hs.sound hinj
  rcases hsound.landlord_cases i with ⟨hst, -⟩ | ⟨-, -, hl, -⟩
  · exact absurd hst (not_or.mpr ⟨hr, hc⟩)
  · exact Pager.honest_of_none hl

/-- The payload that a thread got is the page. -/
theorem honest {op : Op} {f : Fetch} (hinj : Injective path)
    (hop : op = .activatePod i f ∨ op = .prefetchPod i f)
    (h : op.Heard c.L s.manager.toSession (s.talk i)) : s.manager.Honest i f := by
  cases hst : (s.manager.pods i).state with
  | remote =>
    obtain ⟨client, w, isCache, hland, htalk⟩ : ∃ client w isCache,
        (s.manager.pods i).landlordClient = some client ∧
          s.talk i = [⟨client, w, .get isCache, some (.payload f.delivery.bytes)⟩] := by
      rcases hop with rfl | rfl
      all_goals
        simp only [Op.Heard, hst] at h
        obtain ⟨client, w, h⟩ := h
        exact ⟨client, w, _, h⟩
    intro client' hc
    obtain rfl := Option.some.inj (hland.symm.trans hc)
    obtain ⟨bytes, hbytes, hr⟩ := hs.payload hinj hland htalk
    rw [hbytes, Node.Reply.payload.inj hr]
  | remoteCache =>
    rcases hop with rfl | rfl
    all_goals
      simp only [Op.Heard, hst] at h
      exact h.1
  | init | local_ | localPinned | disk | diskCache =>
    exact hs.honest_of_state hinj (by simp [hst]) (by simp [hst])

/-- The nodes keep the promises that the manager relies on. -/
theorem legal (hinj : Injective path) (hlegal : s.Legal c (.command cmd)) :
    s.manager.Legal c cmd := by
  obtain ⟨hfair, hheard⟩ := hlegal
  cases cmd with
  | hugePage p f =>
    obtain ⟨x, hx, hpage⟩ := hfair
    refine ⟨x, hx, ?_, hpage⟩
    by_cases hst : (s.manager.pods x.next).state = .local_
    · exact hs.honest_of_state hinj (by simp [hst]) (by simp [hst])
    · refine hs.honest hinj (.inl rfl) (hheard _ x.next ?_ rfl)
      simp only [Manager.opOf, hx]
      exact if_pos hst
  | activatePod i f => exact ⟨hs.honest hinj (.inl rfl) (hheard _ i rfl rfl), hfair⟩
  | prefetchPod i f => exact ⟨hs.honest hinj (.inr rfl) (hheard _ i rfl rfl), hfair⟩
  | pickPodToEvict i localCopy =>
    intro t ht g hg x hx
    have htried := hheard (.pickPodToEvict i t.isFree localCopy) i
      (by simp only [Manager.opOf, ht, Option.map_some]) rfl
    obtain ⟨e, -, hscript⟩ := Exchange.exists_script htried.1 (mem_reverse.mpr hx)
    exact hscript.dialogue
  | addNewRegionCore | remonMalloc | getBufferedPod | hugeMalloc | hugeReturn | remonFree
  | allocatePage | addPodToBuffer | trim | trimFreePage | store => exact hfair

theorem held_before (h : ∀ e rest, s.talk i = e :: rest → e.reply = some .savePodErr)
    (client : ℕ) : Exchange.held (s.manager.nodes i client) client (s.talk i) =
      s.manager.nodes i client := by
  cases htalk : s.talk i with
  | nil => rfl
  | cons e rest =>
    have herr := h e rest htalk
    obtain ⟨payload, hask⟩ :=
      Exchange.save_of_savePodErr ((hs.pods i).settles e rest _ htalk herr)
    exact Exchange.held_refused herr hask

theorem fresh_of_asks (hinj : Injective path) {payload : List UInt8}
    (hasks : s.Asks c i client (.save payload)) (client' : ℕ) :
    s.manager.nodes i client' = none := by
  obtain ⟨tag, -, hout⟩ := hasks
  obtain ⟨h, hsound⟩ := hs.sound hinj
  have hloc := Pager.state_of_outgoing hout
  rcases hsound.landlord_cases i with ⟨hst, -⟩ | ⟨-, -, -, hn⟩
  · simp [hloc] at hst
  · exact hn client'

/-- A worker took a step that concerns pod `i`, and then it is at the request that the thread
waits for, if any. -/
theorem moved {t : Node.Server} {x : Node.Worker} {v : Option (List UInt8)}
    {talk : ℕ → List Exchange} (ht : t.CalmRun) (hclean : t.Clean)
    (hworkers : t.workers = update (s.node client).workers w x)
    (hsaved : t.saved = update (s.node client).saved (podKey i) v)
    (hold : ∀ k ask e, s.at_ client w = some (k, ask, e) → k = podKey i)
    (hfree : ∀ client' w' ask rest, s.talk i = ⟨client', w', ask, none⟩ :: rest →
      client' = client ∧ w' = w)
    (hother : ∀ j, j ≠ i → talk j = s.talk j)
    (hpod : PodInv { s with node := update s.node client t, talk := talk } i)
    (hself : ∀ k ask e, x.ask = some (k, ask, e) → k = podKey i ∧
      ∃ rest, talk i = ⟨client, w, ask, none⟩ :: rest ∧
        ∀ isCache, ask = .get isCache → e = s.manager.nodes i client) :
    Inv c path { s with node := update s.node client t, talk := talk } := by
  refine ⟨hs.manager, forall_move ht hs.calm, forall_move hclean hs.clean, fun j => ?_,
    fun client' w' k ask' e' h => ?_⟩
  · by_cases hj : j = i
    · exact hj ▸ hpod
    · refine (hs.pods j).frame (hother j hj) rfl (fun client' => ?_) fun client' w' ask' e' h => ?_
      · rw [saved_move hsaved, if_neg (fun h => hj (podKey_injective h.2))]
      · rw [at_move _ hworkers, if_neg ?_, h]
        rintro ⟨rfl, rfl⟩
        exact hj (podKey_injective (hold _ _ _ h))
  · rw [at_move _ hworkers] at h
    split_ifs at h with hc
    · obtain ⟨rfl, rest, htalk, hget⟩ := hself k ask' e' h
      obtain ⟨rfl, rfl⟩ := hc
      exact ⟨i, rest, rfl, htalk, hget⟩
    · obtain ⟨j, rest, rfl, htalk, hget⟩ := hs.asked client' w' k ask' e' h
      have hj : j ≠ i := by
        rintro rfl
        exact hc (hfree _ _ _ _ htalk)
      exact ⟨j, rest, rfl, (hother j hj).trans htalk, hget⟩

/-- A thread sent a request. -/
theorem request (hinj : Injective path) (hlegal : s.Legal c (.ask i client w ask))
    (run : s.step c path (.ask i client w ask) = .ok s') : s'.Inv c path := by
  obtain ⟨hasks, hrefused⟩ := hlegal
  simp only [step] at run
  cases hstep : (s.node client).step w (ask.act (podKey i)) with
  | none => simp [hstep] at run
  | some t =>
    simp only [hstep] at run
    obtain rfl := Except.ok.inj run
    obtain ⟨hidle, hclean, x, e, hx, he, hworkers, hsaved⟩ := Node.Server.step_request hstep
    have hold : ∀ client', (s.node client').saved (podKey i) = s.manager.nodes i client' :=
      fun client' => ((hs.pods i).saved client').trans (hs.held_before hrefused client')
    have htalk := update_self i (⟨client, w, ask, none⟩ :: s.talk i) s.talk
    refine hs.moved (.step (hs.calm client) Node.Server.calm_request hstep)
      (hclean (hs.clean client)) hworkers hsaved ?_ ?_ (fun j hj => update_of_ne hj _ _)
      (podInv_of_cons htalk ?_ ?_ (fun r hr => by cases hr) ?_ ?_) ?_
    · intro k ask' e' h
      rw [at_, hidle] at h
      cases h
    · exact fun _ _ _ _ h => absurd (hrefused _ _ h) (by simp)
    · intro client'
      rw [saved_move hsaved, hold client, hold client']
      by_cases hc : client' = client
      · rw [if_pos ⟨hc, rfl⟩, hc, Exchange.held_waiting]
      · rw [if_neg (fun h => hc h.1), Exchange.held_cons_of_ne (Ne.symm hc)]
    · exact fun _ => ⟨e, by rw [at_move _ hworkers, if_pos ⟨rfl, rfl⟩, hx]⟩
    · intro e' he'
      cases htalk₀ : s.talk i with
      | nil => simp [htalk₀] at he'
      | cons e₀ rest₀ =>
        rw [htalk₀] at he'
        rcases mem_cons.mp he' with rfl | he'
        · exact hrefused _ _ htalk₀
        · exact (hs.pods i).refused e₀ rest₀ htalk₀ e' he'
    · intro e' h payload hp
      rcases mem_cons.mp h with rfl | h
      · obtain rfl : ask = .save payload := hp
        exact hs.fresh_of_asks hinj hasks
      · exact (hs.pods i).fresh e' h payload hp
    · intro k ask' e' h
      rw [hx] at h
      obtain ⟨rfl, rfl, rfl⟩ : podKey i = k ∧ ask = ask' ∧ e = e' := by simpa using h
      refine ⟨rfl, s.talk i, htalk, fun isCache hget => ?_⟩
      rw [he isCache hget, hold]

theorem saved_eq_none {k : String} {payload : List UInt8}
    (hw : (s.node client).workers w = .saveRequest k payload) : (s.node client).saved k = none := by
  have hat : s.at_ client w = some (k, .save payload, none) := by
    rw [at_, hw]
    rfl
  obtain ⟨i, rest, rfl, htalk, -⟩ := hs.asked client w k _ _ hat
  have hsaved := (hs.pods i).saved client
  rw [htalk, Exchange.held_waiting] at hsaved
  rw [hsaved]
  exact (hs.pods i).fresh ⟨client, w, .save payload, none⟩ (by simp [htalk]) payload rfl client

theorem worked {t : Node.Server} {x : Node.Worker} (ht : t.CalmRun) (hclean : t.Clean)
    (hx : x.ask = ((s.node client).workers w).ask)
    (hworkers : t.workers = update (s.node client).workers w x)
    (hsaved : t.saved = (s.node client).saved) :
    Inv c path { s with node := update s.node client t, talk := s.talk } := by
  have hat : ∀ client' w', ({ s with node := update s.node client t, talk := s.talk } :
      Cluster).at_ client' w' = s.at_ client' w' := by
    intro client' w'
    rw [at_move _ hworkers]
    split_ifs with h
    · rw [hx, h.1, h.2]
      rfl
    · rfl
  refine ⟨hs.manager, forall_move ht hs.calm, forall_move hclean hs.clean, fun j => ?_,
    fun client' w' k ask e h => ?_⟩
  · refine (hs.pods j).frame rfl rfl (fun client' => ?_) (fun client' w' ask e h => by rw [hat, h])
    change (update s.node client t client').saved _ = _
    by_cases hc : client' = client
    · rw [hc, update_self, hsaved]
    · rw [update_of_ne hc]
  · rw [hat] at h
    exact hs.asked client' w' k ask e h

/-- A worker said that it is done. -/
theorem replied {t : Node.Server} {x : Node.Worker} {k : String} {e : Option (List UInt8)}
    {r : Node.Reply} (ht : t.CalmRun) (hclean : t.Clean)
    (hask : ((s.node client).workers w).ask = some (k, ask, e)) (hx : x.ask = none)
    (hsettles : ask.Settles e r)
    (hworkers : t.workers = update (s.node client).workers w x)
    (hsaved : t.saved = update (s.node client).saved k
      (ask.settled ((s.node client).saved k) r)) :
    Inv c path { s with
      node := update s.node client t, talk := s.hear client w (some (k, r)) } := by
  obtain ⟨i, rest, rfl, htalk, hget⟩ := hs.asked client w k ask e hask
  have hold := (hs.pods i).saved client
  rw [htalk, Exchange.held_waiting] at hold
  have hnew : s.hear client w (some (podKey i, r)) i = ⟨client, w, ask, some r⟩ :: rest := by
    simp [hear, htalk, Exchange.deliver]
  refine hs.moved ht hclean hworkers hsaved ?_ ?_
    (fun j hj => if_neg (fun h => hj (podKey_injective h)))
    (podInv_of_cons hnew ?_ (fun h => by cases h) ?_ ((hs.pods i).refused _ _ htalk) ?_) ?_
  · intro k' ask' e' h
    rw [at_, hask] at h
    exact (Prod.mk.inj (Option.some.inj h)).1.symm
  · intro client' w' ask' rest' h
    obtain ⟨heq, -⟩ := List.cons.inj (htalk.symm.trans h)
    cases heq
    exact ⟨rfl, rfl⟩
  · intro client'
    rw [saved_move hsaved, hold]
    by_cases hc : client' = client
    · rw [if_pos ⟨hc, rfl⟩, hc, Exchange.held_replied]
    · rw [if_neg (fun h => hc h.1), (hs.pods i).saved client', htalk,
        Exchange.held_cons_of_ne (Ne.symm hc), Exchange.held_cons_of_ne (Ne.symm hc)]
  · rintro r' ⟨⟩
    exact hsettles.of_get hget
  · intro e' h payload hp
    rcases mem_cons.mp h with rfl | h
    · exact (hs.pods i).fresh ⟨client, w, ask, none⟩ (by simp [htalk]) payload hp
    · exact (hs.pods i).fresh e' (by simp [htalk, h]) payload hp
  · intro k' ask' e' h
    rw [hx] at h
    cases h

theorem handler (hlegal : s.Legal c (.node client w a))
    (run : s.step c path (.node client w a) = .ok s') : s'.Inv c path := by
  obtain ⟨hin, hprompt⟩ := hlegal
  simp only [step] at run
  cases hstep : (s.node client).step w a with
  | none => simp [hstep] at run
  | some t =>
    simp only [hstep] at run
    obtain rfl := Except.ok.inj run
    have hinv := (hs.calm client).inv
    have hcalm := (hs.clean client).calm hinv hprompt fun k payload hw => hs.saved_eq_none hw
    have ht : t.CalmRun := .step (hs.calm client) hcalm hstep
    obtain ⟨hout, hclean⟩ := Node.Server.step_inner hinv ht.inv.up hin hstep
    have hclean := hclean (hs.clean client)
    generalize (s.node client).said w a = r at hout
    cases hout with
    | works x hx hworkers hsaved => exact hs.worked ht hclean hx hworkers hsaved
    | replies k ask e r x hask hx hsettles hworkers hsaved =>
      exact hs.replied ht hclean hask hx hsettles hworkers hsaved

/-- A command took effect. -/
theorem command (hinj : Injective path) (hlegal : s.Legal c (.command cmd))
    (run : s.step c path (.command cmd) = .ok s') : s'.Inv c path := by
  have hlegal' := hs.legal hinj hlegal
  obtain ⟨m, hm, run⟩ := of_bind_ok run
  obtain rfl := Except.ok.inj run
  have hmoves := (Manager.step_cases hm).1
  have hrun : Manager.Run c path (fun _ _ => True) m := .step hs.manager hlegal' trivial hm
  cases hpod : (s.manager.opOf c cmd).bind Op.pod with
  | none =>
    have hnodes : m.nodes = s.manager.nodes := by
      cases hop : s.manager.opOf c cmd with
      | none =>
        rw [hop] at hmoves
        have heq : m.toSession = s.manager.toSession := hmoves
        rw [heq]
      | some op =>
        rw [hop] at hmoves hpod
        exact Session.nodes_silent hmoves hpod
    refine ⟨hrun, hs.calm, hs.clean, fun j => ?_, fun client w k ask e h => ?_⟩
    · exact (hs.pods j).frame rfl (congrFun hnodes j) (fun _ => rfl) fun _ _ _ _ h => h
    · obtain ⟨j, rest, hk, htalk, hget⟩ := hs.asked client w k ask e h
      refine ⟨j, rest, hk, htalk, fun isCache hc => ?_⟩
      rw [hget isCache hc]
      exact (congrFun (congrFun hnodes j) client).symm
  | some i =>
    obtain ⟨op, hop, hi⟩ := Option.bind_eq_some_iff.mp hpod
    rw [hop] at hmoves
    have hheard := hlegal.2 op i hop hi
    obtain ⟨hother, hself⟩ := Session.nodes_heard hmoves hi hheard (hs.pods i).refused
      (hs.pods i).fresh
    refine ⟨hrun, hs.calm, hs.clean, fun j => ?_, fun client w k ask e h => ?_⟩
    · by_cases hj : j = i
      · subst hj
        refine podInv_of_nil (update_self _ _ _) fun client => ?_
        exact ((hs.pods j).saved client).trans (hself client).symm
      · exact (hs.pods j).frame (update_of_ne hj _ _) (hother j hj) (fun _ => rfl)
          fun _ _ _ _ h => h
    · obtain ⟨j, rest, hk, htalk, hget⟩ := hs.asked client w k ask e h
      have hj : j ≠ i := by
        rintro rfl
        exact Op.Heard.ne_waiting hi hheard htalk
      refine ⟨j, rest, hk, (update_of_ne hj _ _).trans htalk, fun isCache hc => ?_⟩
      rw [hget isCache hc]
      exact (congrFun (hother j hj) client).symm

theorem step {act : Act} (hinj : Injective path) (hlegal : s.Legal c act)
    (run : s.step c path act = .ok s') : s'.Inv c path := by
  cases act with
  | ask i client w ask => exact hs.request hinj hlegal run
  | node client w a => exact hs.handler hlegal run
  | command cmd => exact hs.command hinj hlegal run

/-- Only an entry that a worker is about to erase is not counted on. -/
theorem entry (htalk : s.talk i = []) {r : ℕ}
    (hr : (s.node client).tenantPods (podKey i) = some r) :
    s.manager.nodes i client ≠ none ∨
      ∃ w r', (s.node client).workers w = .erasing (podKey i) r' := by
  rcases hs.clean client _ r hr with hsaved | ⟨w, hw⟩
  · refine .inl ?_
    rw [(hs.pods i).saved client, htalk] at hsaved
    exact hsaved
  · rcases Node.Worker.cases_of_owes hw with ⟨r', hr'⟩ | ⟨ask, e, hask⟩
    · exact .inr ⟨w, r', hr'⟩
    · obtain ⟨j, rest, hk, hj, -⟩ := hs.asked client w _ ask e hask
      rw [← podKey_injective hk, htalk] at hj
      cases hj

end Inv

/-! ## Runs -/

theorem Run.inv (hinj : Injective path) (hs : Run c path s) : s.Inv c path := by
  induction hs with
  | start => exact inv_new
  | step _ hlegal run ih => exact ih.step hinj hlegal run

/-- In every interleaving of the threads of the compute node and the workers of the memory nodes,
the nodes keep what the manager relies on: a thread that waits has a worker that serves it, a
fetch returns the page as it was saved, every page that is counted on is there, and every entry
that is there is counted on or about to be erased. -/
theorem memory_nodes_keep_the_pages {swapDir : String} (hs : Run c (swapFile swapDir) s) :
    Manager.Run c (swapFile swapDir) (fun _ _ => True) s.manager ∧
      (∀ client, (s.node client).crashed = false) ∧
      (∀ i client w ask rest, s.talk i = ⟨client, w, ask, none⟩ :: rest →
        ∃ e, ((s.node client).workers w).ask = some (podKey i, ask, e)) ∧
      (∀ i client w isCache r rest, s.talk i = ⟨client, w, .get isCache, some r⟩ :: rest →
        (s.manager.pods i).landlordClient = some client →
        ∃ bytes, s.manager.nodes i client = some bytes ∧ r = .payload bytes) ∧
      (∀ i client bytes, s.talk i = [] → s.manager.nodes i client = some bytes →
        (s.node client).Holds (podKey i) bytes) ∧
      ∀ i client r, s.talk i = [] → (s.node client).tenantPods (podKey i) = some r →
        s.manager.nodes i client ≠ none ∨
          ∃ w r', (s.node client).workers w = .erasing (podKey i) r' := by
  have hinj := swapFile_injective swapDir
  have hinv := hs.inv hinj
  refine ⟨hinv.manager, fun client => (hinv.calm client).inv.up, fun i => (hinv.pods i).served,
    fun i client w isCache r rest htalk hland => hinv.payload hinj hland htalk, ?_,
    fun i client r htalk hr => hinv.entry htalk hr⟩
  intro i client bytes htalk hbytes
  refine (((hinv.calm client).inv.keys (podKey i)).saved bytes ?_).1
  rw [(hinv.pods i).saved client, htalk, hbytes]
  rfl

variable (c path) in
/-- What an act that returns leaves. -/
def after (s : Cluster) (act : Act) : Cluster := orStay s (s.step c path act)

theorem Run.after (hs : Run c path s) (act : Act) (hlegal : s.Legal c act)
    (hrun : (s.step c path act).isOk = true) : Run c path (s.after c path act) :=
  .step hs hlegal (ok_orStay hrun)

def solo (m : Manager) : Cluster := ⟨m, fun _ => .empty, fun _ => []⟩

theorem Run.solo {m : Manager} (hs : Run c path (solo m)) (cmd : Cmd)
    (hfair : (Cluster.solo m).Fair c cmd)
    (hheard : ∀ op i, m.opOf c cmd = some op → op.pod = some i → op.Heard c.L m.toSession [])
    (hrun : (m.step c path cmd).isOk = true) : Run c path (Cluster.solo (m.after c path cmd)) := by
  have hlegal : (Cluster.solo m).Legal c (.command cmd) := ⟨hfair, hheard⟩
  refine .step hs hlegal ?_
  change (m.step c path cmd >>= _) = _
  rw [Manager.step_after hrun, ok_bind]
  cases hpod : (m.opOf c cmd).bind Op.pod with
  | none => simp [Cluster.solo, hpod]
  | some i => simp [Cluster.solo, hpod]

theorem sampleTwoPages_solo :
    Run Manager.sampleFill (swapFile "swap") (solo Manager.sampleTwoPages) := by
  have hstart : Run Manager.sampleFill (swapFile "swap") (solo .new) := .start
  have h1 := hstart.solo .addNewRegionCore (by decide : (0 : ℕ) < _) (by rintro _ _ ⟨⟩) (by decide)
  have h2 := h1.solo (.allocatePage 0) (by decide : (0 : ℕ) < _) (by rintro _ _ ⟨⟩) (by decide)
  have h3 := h2.solo (.addPodToBuffer 0 true Session.sampleFetch)
    (by decide : 0 ∈ Manager.fetched _) (by rintro _ _ ⟨⟩ ⟨⟩; rfl) (by decide)
  have h4 := h3.solo (.remonMalloc 0 2000 Session.sampleChoice) ⟨by decide, by decide +kernel⟩
    (by rintro _ _ ⟨⟩ ⟨⟩) (by decide +kernel)
  have h5 := h4.solo (.getBufferedPod 0 0) ⟨by decide +kernel, by decide +kernel⟩
    (by rintro _ _ ⟨⟩ ⟨⟩) (by decide +kernel)
  have h6 := h5.solo (.remonMalloc 0 2000 Session.sampleChoice) ⟨by decide, by decide +kernel⟩
    (by rintro _ _ ⟨⟩ ⟨⟩) (by decide +kernel)
  have h7 := h6.solo (.allocatePage 0) (by decide +kernel : (0 : ℕ) < _) (by rintro _ _ ⟨⟩)
    (by decide +kernel)
  have h8 := h7.solo (.addPodToBuffer 1 true Session.sampleFetch)
    (by decide +kernel : 1 ∈ Manager.fetched _) (by rintro _ _ ⟨⟩ ⟨⟩; rfl) (by decide +kernel)
  have h9 := h8.solo (.remonMalloc 0 2000 Session.sampleChoice) ⟨by decide, by decide +kernel⟩
    (by rintro _ _ ⟨⟩ ⟨⟩) (by decide +kernel)
  exact h9.solo (.getBufferedPod 0 1) ⟨by decide +kernel, by decide +kernel⟩
    (by rintro _ _ ⟨⟩ ⟨⟩) (by decide +kernel)

/-- A worker goes on. -/
theorem Run.node {t : Node.Server} (hs : Run c path s) (client w : ℕ) (a : Node.Act)
    (h : (s.node client).step w a = some t) (hinner : a.isInner = true)
    (hprompt : (s.node client).Prompt w a) :
    Run c path { s with
      node := update s.node client t
      talk := s.hear client w ((s.node client).said w a) } := by
  have hlegal : s.Legal c (.node client w a) := ⟨hinner, hprompt⟩
  refine .step hs hlegal ?_
  change (match (s.node client).step w a with | none => _ | some t => _) = _
  rw [h]

/-- Node 5 takes the page that the evictor of pod 0 sends. -/
theorem Run.saved {m : Manager} {tag : Arena.PageTag} {payload : List UInt8}
    (hs : Run c path (Cluster.solo m)) (htag : m.tagOf c 0 = some tag)
    (hout : outgoing c.L 0 (m.beforeEvict c.L 0 tag.isFree) = some payload)
    (hpos : 0 < payload.length) :
    ∃ s, Run c path s ∧ s.manager = m ∧
      s.talk 0 = [⟨5, 0, .save payload, some .savePodDONE⟩] := by
  have h1 := hs.after (.ask 0 5 0 (.save payload))
    ⟨⟨tag, htag, hout⟩, fun e rest h => absurd h (by simp [Cluster.solo])⟩ rfl
  have h2 := h1.after (.node 5 0 .insert)
    ⟨rfl, fun k _ => Node.Server.quiet_of_idle (fun _ => rfl) rfl⟩ rfl
  obtain ⟨s, hrun, hm, htalk, hw, hp⟩ : ∃ s, Run c path s ∧ s.manager = m ∧
      s.talk 0 = [⟨5, 0, .save payload, none⟩] ∧
      (s.node 5).workers 0 = .receiving (podKey 0) 0 payload 0 ∧
      (s.node 5).payloads 0 = some (Node.filled payload 0) := ⟨_, h2, rfl, rfl, rfl, rfl⟩
  have hroom : 0 < payload.length ∧ 0 + payload.length ≤ payload.length := ⟨hpos, by omega⟩
  obtain ⟨t, ht, htw⟩ : ∃ t, (s.node 5).step 0 (.receive payload.length) = some t ∧
      t.workers 0 = .receiving (podKey 0) 0 payload payload.length := by
    simp [Node.Server.step, hw, hp, hpos, Node.Server.setWorker]
  obtain ⟨u, hu⟩ : ∃ u, t.step 0 .done = some u := by simp [Node.Server.step, htw]
  have h3 := hrun.node 5 0 (.receive payload.length) ht rfl trivial
  have hu' : ((update s.node 5 t) 5).step 0 .done = some u := by rw [update_self, hu]
  have h4 := h3.node 5 0 .done hu' rfl trivial
  refine ⟨_, h4, hm, ?_⟩
  simp [hear, Node.Server.said, htalk, Exchange.deliver, htw]

/-- The replies that the evictor gets from a node that takes its page. -/
def sampleScript : SaveScript := ⟨some [55], fun _ => some 4096, some [57]⟩

/-- The evictor of pod 0 has the reply of node 5 and swaps the page out. -/
theorem Run.moved {m : Manager} {tag : Arena.PageTag} {payload : List UInt8}
    (hs : Run c path (Cluster.solo m)) (htag : m.tagOf c 0 = some tag)
    (hout : outgoing c.L 0 (m.beforeEvict c.L 0 tag.isFree) = some payload)
    (hpos : 0 < payload.length)
    (hstep : (m.step c path (.pickPodToEvict 0 [(5, sampleScript)])).isOk = true) :
    ∃ s, Run c path s ∧ s.talk 0 = [] ∧
      s.manager = m.after c path (.pickPodToEvict 0 [(5, sampleScript)]) := by
  obtain ⟨s, hrun, rfl, htalk⟩ := hs.saved htag hout hpos
  have hop : s.manager.opOf c (.pickPodToEvict 0 [(5, sampleScript)]) =
      some (.pickPodToEvict 0 tag.isFree [(5, sampleScript)]) := by
    change (s.manager.tagOf c 0).map _ = _
    rw [htag, Option.map_some]
  have htried : Tried c.L 0 (s.manager.beforeEvict c.L 0 tag.isFree) (s.talk 0)
      [(5, sampleScript)] := by
    rw [htalk]
    refine ⟨.cons ⟨rfl, rfl, by simp [sampleScript], rfl⟩ .nil, fun e he => ?_⟩
    rw [mem_singleton.mp he]
    exact ⟨payload, rfl, hout⟩
  have hlegal : s.Legal c (.command (.pickPodToEvict 0 [(5, sampleScript)])) := by
    refine ⟨trivial, fun op i h hi => ?_⟩
    rw [hop] at h
    obtain rfl := Option.some.inj h
    obtain rfl := Option.some.inj hi
    exact htried
  have hnext : s.step c path (.command (.pickPodToEvict 0 [(5, sampleScript)])) = .ok { s with
      manager := s.manager.after c path (.pickPodToEvict 0 [(5, sampleScript)])
      talk := update s.talk 0 [] } := by
    change (s.manager.step c path _ >>= _) = _
    rw [Manager.step_after hstep, ok_bind, hop]
    rfl
  exact ⟨_, .step hrun hlegal hnext, by simp, rfl⟩

/-- The page 0 with its two blocks. -/
def samplePage : List UInt8 :=
  (outgoing Manager.sampleFill.L 0 (Manager.sampleTwoPages.beforeEvict Manager.sampleFill.L 0
    false)).getD []

theorem samplePage_outgoing : outgoing Manager.sampleFill.L 0
    (Manager.sampleTwoPages.beforeEvict Manager.sampleFill.L 0 false) = some samplePage := by
  have h : (outgoing Manager.sampleFill.L 0
      (Manager.sampleTwoPages.beforeEvict Manager.sampleFill.L 0 false)).isSome = true := by
    decide +kernel
  obtain ⟨payload, hp⟩ := Option.isSome_iff_exists.mp h
  rw [samplePage, hp, Option.getD_some]

theorem sampleTag : ∃ t, Manager.sampleTwoPages.tagOf Manager.sampleFill 0 = some t ∧
    t.isFree = false := by
  have h : (Manager.sampleTwoPages.tagOf Manager.sampleFill 0).map (·.isFree) = some false := by
    decide +kernel
  exact Option.map_eq_some_iff.mp h

theorem memory_nodes_keep_the_pages_sample :
    ∃ s bytes, Run Manager.sampleFill (swapFile "swap") s ∧
      s.manager.nodes 0 5 = some bytes ∧ (s.node 5).Holds (podKey 0) bytes := by
  obtain ⟨t, ht, hfree⟩ := sampleTag
  have hout : outgoing Manager.sampleFill.L 0
      (Manager.sampleTwoPages.beforeEvict Manager.sampleFill.L 0 t.isFree) = some samplePage := by
    rw [hfree, samplePage_outgoing]
  obtain ⟨s, hrun, htalk, hm⟩ := sampleTwoPages_solo.moved ht hout (by decide +kernel)
    (by decide +kernel)
  have h : (s.manager.nodes 0 5).isSome = true := by
    rw [hm]
    decide +kernel
  obtain ⟨bytes, hbytes⟩ := Option.isSome_iff_exists.mp h
  exact ⟨s, bytes, hrun, hbytes,
    (memory_nodes_keep_the_pages hrun).2.2.2.2.1 0 5 bytes htalk hbytes⟩

end Cluster

end Remon
