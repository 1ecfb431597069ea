import Remon.Spl.SmallRequests
import Remon.Vmm.LruList
import Remon.Vmm.Session

/-! # Pages in memory and the list of evictable pods

A session together with `LRUList`. The evictor and a forced swap take a pod out of the list
before they look at its state; a thread that was served moves its pod to the front later, with
the lock of the pod taken anew. Between the two the pod is due.
-/

namespace Remon
open Function Lib Heap Vmm Fault List

variable {L : ℕ → Layout} {path : ℕ → String} {b : Prop}

/-! ## Which calls bring pages into memory -/

def Pod.InRam (p : Pod) : Prop :=
  p.state = .local_ ∨ p.state = .diskCache ∨ p.state = .remoteCache

namespace Pod

variable {L : Layout} {p : Pod}

theorem state_updateRank :
    Yields (fun _ => True) (p.updateRank L) (fun r => r.2.state = p.state) := by
  unfold updateRank maxAllocatableSize
  cases Heap.maxAllocatableSize L p.heap with
  | error e => trivial
  | ok r => rfl

theorem state_flushFreeBuffer :
    Yields (fun _ => True) (p.flushFreeBuffer L) (fun q => q.state = p.state) := by
  refine (flushFreeBuffer_frame L p).mono ?_
  rintro q ⟨s, l, rfl⟩
  rfl

theorem state_dropMemoryStayLocal {isHuge : Bool} {q : Pod}
    (h : p.dropMemoryStayLocal L isHuge = .ok q) : q.state = p.state := by
  cases isHuge with
  | true =>
    cases h
    rfl
  | false =>
    simp only [dropMemoryStayLocal, Bool.false_eq_true, if_false, heapInitForce, heapInit] at h
    generalize Heap.heapInit L _ = x at h
    cases x with
    | error e => cases h
    | ok t =>
      cases h
      rfl

end Pod

namespace SplState

variable {s t : SplState} {i : ℕ}

theorem pods_setPod_self {p : Pod} : (s.setPod i p).pods i = p := update_self _ _ _

theorem pods_setPod_of_ne {p : Pod} {j : ℕ} (hj : j ≠ i) : (s.setPod i p).pods j = s.pods j :=
  update_of_ne hj _ _

def SameStates (s t : SplState) : Prop := ∀ j, (t.pods j).state = (s.pods j).state

theorem SameStates.setPod {p : Pod} (h : SameStates s t) (hp : p.state = (t.pods i).state) :
    SameStates s (t.setPod i p) := by
  intro j
  by_cases hj : j = i
  · subst hj
    rw [pods_setPod_self, hp, h j]
  · rw [pods_setPod_of_ne hj, h j]

theorem SameStates.updateRank (h : SameStates s t) :
    Yields (fun _ => True) (t.updateRank L i) (fun r => SameStates s r.2) := by
  unfold SplState.updateRank
  split
  · trivial
  exact Pod.state_updateRank.bind fun r hr => h.setPod hr

theorem SameStates.flushFreeBuffer (h : SameStates s t) :
    Yields (fun _ => True) (t.flushFreeBuffer L i) (SameStates s) := by
  unfold SplState.flushFreeBuffer
  split
  · trivial
  exact Pod.state_flushFreeBuffer.bind fun q hq => h.setPod hq

theorem SameStates.flushOnePage (h : SameStates s t) :
    Yields (fun _ => True) (t.flushOnePage L i) (SameStates s) := by
  unfold SplState.flushOnePage
  refine h.flushFreeBuffer.bind fun t₁ h₁ => h₁.updateRank.bind fun r h₂ => ?_
  dsimp only
  split
  · split
    · trivial
    · exact h₂
  · exact h₂

theorem SameStates.free {a : ℕ} :
    Yields (fun _ => True) (s.free L i a) (fun r => SameStates s r.2) := by
  have h : SameStates s (s.setPod i ((s.pods i).addToFreeBufferReturnIfFull a).2) :=
    SameStates.setPod (fun _ => rfl) rfl
  unfold SplState.free
  dsimp only
  split
  · exact h
  split
  · exact h.flushOnePage.bind fun t ht => ht
  · exact h

theorem SameStates.trim {c : Choice} {tryLock : ℕ → Bool} :
    Yields (fun _ => True) (s.trim L c tryLock) (SameStates s) := by
  unfold SplState.trim
  refine Yields.foldlM (I := fun _ t => SameStates s t) ?_ (fun _ => rfl)
  intro j l t ht
  unfold trimOne
  split
  · cases hd : (t.pods j).dropMemoryStayLocal (L j) false with
    | error e => trivial
    | ok q => exact ht.setPod (Pod.state_dropMemoryStayLocal hd)
  · exact ht

/-- A list that takes a new pod in touches no other pod. -/
theorem addPodAndAllocate_others {size : ℕ} :
    Yields (fun _ => True) (s.addPodAndAllocate L i size)
      (fun r => ∀ j, j ≠ i → r.2.pods j = s.pods j) := by
  have hset : ∀ (t : SplState) (p : Pod), (∀ j, j ≠ i → t.pods j = s.pods j) →
      ∀ j, j ≠ i → (t.setPod i p).pods j = s.pods j := by
    intro t p ht j hj
    rw [pods_setPod_of_ne hj, ht j hj]
  unfold SplState.addPodAndAllocate
  refine Yields.bind (P := fun _ => True) ?_ fun p _ => ?_
  · cases (s.pods i).heapInit (L i) <;> trivial
  refine Yields.bind (P := fun r => ∀ j, j ≠ i → r.2.pods j = s.pods j) ?_ fun r hr => ?_
  · unfold SplState.podMalloc
    cases ((s.setPod i p).pods i).podMalloc (L i) size with
    | error e => trivial
    | ok r => exact hset _ _ (hset _ _ fun _ _ => rfl)
  refine Yields.bind (P := fun q => ∀ j, j ≠ i → q.2.pods j = s.pods j) ?_ fun q hq => ?_
  swap
  · exact hq
  unfold SplState.updateRank
  split
  · trivial
  cases (r.2.pods i).updateRank (L i) with
  | error e => trivial
  | ok q => exact hset _ _ hr

theorem tryAllocate_init {h : ∀ i, AbsHeap (L i)} {size retries : ℕ}
    (hl : s.lastAllocatedPod = some i) (hi : (s.pods i).state = .init)
    (hm : (s.pods i).Models False (h i)) (hin : (s.pods i).heap.inited = false) (hz : Asize size)
    (hle : size ≤ (L i).maxIntraPodSize) (hr : retries ≤ 100) :
    ∃ t ptr, s.tryAllocateWithPreviousPod L size retries = .ok (ptr, t) ∧ ptr ≠ 0 ∧
      t.lastAllocatedPod = some i := by
  have hfresh : h i = .fresh (L i) := by
    rcases hm.page with ⟨hc, -⟩ | ⟨-, hf⟩
    · exact absurd (hin.symm.trans hc) Bool.false_ne_true
    · exact hf
  have hlock : (s.pods i).heap.locked = false := by
    rw [← Bool.not_eq_true]
    exact hm.locked
  have hm' : (s.pods i).initToLocal.Models False (h i) := hm.congr rfl rfl rfl
  obtain ⟨q, hq, -⟩ := hm'.podMalloc_unlocked rfl hlock ⟨size, hz.1, hz.2, hle⟩
  rw [hfresh, AbsHeap.malloc_fresh, Option.getD_some] at hq
  refine ⟨(s.setPod i (s.pods i).initToLocal).setPod i { (s.pods i).initToLocal with heap := q },
    (L i).firstBlock, ?_, ?_, hl⟩
  · have hst : (s.pods i).initToLocal.state = .local_ := rfl
    have hq' : (s.pods i).initToLocal.podMalloc (L i) size =
        .ok ((L i).firstBlock, { (s.pods i).initToLocal with heap := q }) := hq
    simp only [tryAllocateWithPreviousPod, hl, hi, if_true, pods_setPod_self, hst, ne_eq,
      not_true_eq_false, if_false, podMalloc, hq', ok_bind, pure_eq,
      if_neg (not_lt.mpr hr)]
  · unfold PageSpan.firstBlock
    omega

end SplState

namespace Pager

variable {g g' : Pager} {h h' : ∀ i, AbsHeap (L i)} {i l : ℕ}

theorem states_free {a : ℕ} :
    Yields (fun _ => True) (g.free L i a)
      (fun r => ∀ j, (r.2.pods j).state = (g.pods j).state) := by
  unfold Pager.free
  split
  · trivial
  · exact SplState.SameStates.free.bind fun r hr => hr

theorem states_trim {c : Choice} {tryLock : ℕ → Bool} :
    Yields (fun _ => True) (g.trim L l c tryLock)
      (fun g' => ∀ j, (g'.pods j).state = (g.pods j).state) :=
  SplState.SameStates.trim.bind fun _ hs => hs

theorem addPodAndAllocate_others {size : ℕ} :
    Yields (fun _ => True) (g.addPodAndAllocate L l i size)
      (fun r => ∀ j, j ≠ i → r.2.pods j = g.pods j) := by
  unfold Pager.addPodAndAllocate
  refine Yields.bind (P := fun _ => True) ?_ fun p _ => ?_
  · cases ((g.pods i).localPinnedToLocal).heapInit (L i) <;> trivial
  · refine SplState.addPodAndAllocate_others.bind fun r hr j hj => ?_
    exact (hr j hj).trans (update_of_ne hj _ _)

/-- A list brings into memory at most its last pod, and only if that was given back. -/
theorem Inv.woken {j : ℕ} (hg : Inv L path b g h) (hg' : Inv L path b g' h')
    (hc : Called b l g h g' h') (hj : (g'.pods j).InRam) :
    (g.pods j).InRam ∨ (g.pods j).state = .init ∧ (g.lists l).lastAllocatedPod = some j := by
  have he := hc.cells j
  rcases he.state with hs | ⟨hinit, hlocal⟩
  · left
    have hs' : (g'.pods j).state = (g.pods j).state := hs
    rwa [Pod.InRam, ← hs']
  right
  have hinit' : (g.pods j).state = .init := hinit
  have hlocal' : (g'.pods j).state = .local_ := hlocal
  have hne : g'.cell h' j ≠ g.cell h j := by
    intro hcell
    have hp : g'.pods j = g.pods j := congrArg Cell.pod hcell
    rw [hp, hinit'] at hlocal'
    cases hlocal'
  have hl : g.Of l j := by
    by_contra hn
    exact hne (hc.others j hn)
  have hin : (g'.pods j).heap.inited = true := he.made.resolve_left hne
  have hl' : g'.Of l j := by
    rw [Of, hc.home]
    exact hl
  have hf : g.Filed j := (hc.filed j).mp ⟨l, hl', (hg'.lists l).listed j hl' hlocal' hin⟩
  refine ⟨hinit', ?_⟩
  by_contra hlast
  have hr := ((hg.lists l).ranked j ((filed_iff_spl hl).mp hf) hlast).1.2.1
  have hr' : (g.pods j).state = .local_ := hr
  rw [hinit'] at hr'
  cases hr'

theorem Inv.allocate_init {size : ℕ} {c : Choice} (hg : Inv L path False g h)
    (hlast : (g.lists l).lastAllocatedPod = some i) (hi : (g.pods i).state = .init)
    (hz : Asize size) (hle : size ≤ (L i).maxIntraPodSize) (hr : c.retries ≤ 100) :
    ∃ ptr g', g.allocate L l size c = .ok (ptr, g') ∧ ptr ≠ 0 ∧
      (g'.lists l).lastAllocatedPod = some i := by
  obtain ⟨hm, -⟩ := (World.models_init hi).mp (hg.pages i)
  obtain ⟨s, ptr, hrun, hptr, hl⟩ := SplState.tryAllocate_init (s := g.spl l) (L := L) hlast hi hm
    (hg.inited_of_init hi) hz hle hr
  refine ⟨ptr, g.putSpl l s, ?_, hptr, ?_⟩
  · simp only [Pager.allocate, SplState.allocate, hrun, ok_bind, ne_eq, hptr,
      not_false_eq_true, if_true, pure_eq]
  · change ((g.putSpl l s).spl l).lastAllocatedPod = some i
    rw [spl_putSpl]
    exact hl

/-! ## Which pods stay in memory -/

theorem remoteSwap_state {localCopy : List (ℕ × SaveScript)} :
    Yields (fun _ => True) (remoteSwap L i localCopy g)
      (fun r => r.1 = true → (r.2.pods i).state = .remote) := by
  induction localCopy generalizing g with
  | nil => exact fun hc => absurd hc Bool.false_ne_true
  | cons x localCopy ih =>
    rw [remoteSwap, Pod.bundleSavePodToRemote]
    cases (g.pods i).savePodToRemote (L i) x.2 with
    | error e => trivial
    | ok r =>
      obtain ⟨ok, p, sent⟩ := r
      cases ok with
      | false => exact ih
      | true =>
        intro _
        simp [setPod, Pod.localToRemote]

theorem evictPod_state {localCopy : List (ℕ × SaveScript)} :
    Yields (fun _ => True) (g.evictPod L path i localCopy)
      (fun g' => (g'.pods i).state ≠ .local_) := by
  unfold evictPod
  split
  · assumption
  refine remoteSwap_state.bind ?_
  rintro ⟨swapped, g'⟩ hr
  cases swapped with
  | true =>
    have hs : (g'.pods i).state = .remote := hr rfl
    simp [hs]
  | false => simp [swapToDisk, setPod, Pod.localToDisk, Pod.releaseMemory, Pod.setMem]

variable (L) in
def activates (g : Pager) (i : ℕ) (isFree : Bool) : Bool :=
  match g.beforeEvict L i isFree with
  | .ok (false, g') => decide ((g'.pods i).state = .local_)
  | .ok (true, _) => false
  | .error _ => false

theorem activates_of_local {isFree : Bool} {localCopy : List (ℕ × SaveScript)}
    (hrun : g.pickPodToEvict L path i isFree localCopy = .ok g')
    (hs : (g'.pods i).state = .local_) : g.activates L i isFree = true := by
  rw [pickPodToEvict] at hrun
  rw [activates]
  cases hb : g.beforeEvict L i isFree with
  | error e => simp [hb] at hrun
  | ok r =>
    obtain ⟨swap, g₁⟩ := r
    rw [hb, ok_bind] at hrun
    cases swap with
    | false =>
      cases hrun
      exact decide_eq_true hs
    | true => exact absurd hs (evictPod_state.result hrun)

end Pager

namespace Vmm.LruState

variable {s t : LruState} {p : ℕ}

theorem updateLRUList_run {r : ℤ} (h : s.Represents)
    (hrun : s.updateLRUList (some p) = .ok (r, t)) :
    t.Represents ∧ ∀ q, q ∈ t.pods ↔ q = p ∨ q ∈ s.pods := by
  cases hl : s.lruLock with
  | true => simp [(deadlock_of_held hl (fun _ => true) p).1] at hrun
  | false =>
    obtain ⟨_, _, hok, ht, -, hpods⟩ := updateLRUList_ok h hl p
    cases hok.symm.trans hrun
    refine ⟨ht, fun q => ?_⟩
    rw [hpods, mem_cons, h.nodup.mem_erase_iff]
    tauto

theorem tailPodInLRUList_run {r : ℤ} (h : s.Represents)
    (hrun : s.tailPodInLRUList (some p) = .ok (r, t)) :
    t.Represents ∧ ∀ q, q ∈ t.pods ↔ q = p ∨ q ∈ s.pods := by
  cases hl : s.lruLock with
  | true => simp [(deadlock_of_held hl (fun _ => true) p).2.1] at hrun
  | false =>
    obtain ⟨_, _, hok, ht, -, hpods⟩ := tailPodInLRUList_ok h hl p
    cases hok.symm.trans hrun
    refine ⟨ht, fun q => ?_⟩
    rw [hpods, mem_append, mem_singleton, h.nodup.mem_erase_iff]
    tauto

theorem getFromLRUList_run {r : Option ℕ} {tryLock : ℕ → Bool} (h : s.Represents)
    (hrun : s.getFromLRUList tryLock = .ok (r, t)) :
    t.Represents ∧ s.pods = t.pods ++ r.toList := by
  cases hl : s.lruLock with
  | true => simp [(deadlock_of_held hl tryLock 0).2.2.1] at hrun
  | false =>
    obtain ⟨_, _, hok, ht, -, hpods, -⟩ := getFromLRUList_ok h hl tryLock
    cases hok.symm.trans hrun
    exact ⟨ht, hpods⟩

theorem removePodFromLRU_run {r : ℤ} {tryLock : ℕ → Bool} (h : s.Represents)
    (hrun : s.removePodFromLRU tryLock p = .ok (r, t)) :
    t.Represents ∧ (r < 0 → t.pods = s.pods) ∧ ∀ q ∈ s.pods, q ∈ t.pods ∨ q = p := by
  cases hl : s.lruLock with
  | true => simp [(deadlock_of_held hl tryLock p).2.2.2] at hrun
  | false =>
    obtain ⟨_, _, hok, ht, hone, hrest, -⟩ := removePodFromLRU_ok h hl tryLock p
    cases hok.symm.trans hrun
    refine ⟨ht, fun hr => hrest (by omega), fun q hq => ?_⟩
    by_cases hr : r = 1
    · rw [(hone hr).2.1, h.nodup.mem_erase_iff]
      tauto
    · rw [hrest hr]
      exact .inl hq

end Vmm.LruState

/-! ## Sessions with the list -/

/-- A session, the list, and the pods that served a request and that their threads have still
to move to the front of the list. -/
structure Tracked where
  session : Session
  lru : LruState
  due : List ℕ

variable (L) in
def Session.Prompt (s : Session) : Op → Prop
  | .allocate l size c => (∀ i, size ≤ (L i).maxIntraPodSize) ∧
      ∀ i, (s.lists l).lastAllocatedPod = some i → (s.pods i).state = .init → c.retries ≤ 100
  | _ => True

def Op.ageless : Op → Bool
  | .free _ _ | .trim _ _ _ | .addPodToBuffer _ _ | .trimFreePage _ | .store _ _ _ => true
  | .allocate _ _ _ | .addPodAndAllocate _ _ | .pickPodToEvict _ _ _ | .asyncSwapOutPod _ _
  | .activatePod _ _ | .prefetchPod _ _ => false

/-- The sections of the entry points that run under the lock of a pod or of a list. -/
inductive Move where
  | allocate (l size : ℕ) (c : Choice)
  | addPodAndAllocate (l i : ℕ)
  /-- the end of a small request -/
  | updateLRUList (i : ℕ)
  /-- a page of a huge request -/
  | hugePage (i : ℕ) (f : Fetch)
  /-- a fault, or a release that found the buffer of its page full -/
  | activatePod (i : ℕ) (f : Fetch)
  | prefetchPod (i : ℕ) (f : Fetch)
  | pickPodToEvict (tryLock isFree : ℕ → Bool) (localCopy : List (ℕ × SaveScript))
  | remonPromotePod (i : ℕ) (f : Fetch)
  | remonDemote (i : ℕ)
  | remonForceSwap (i : ℕ) (tryLock : ℕ → Bool) (localCopy : List (ℕ × SaveScript))
  | other (op : Op) (h : op.ageless = true)

namespace Tracked

def new (lruIter : ℕ → ℕ) : Tracked := ⟨.new, .new lruIter, []⟩

/-- The pods of the blocks that were handed out between two sessions. -/
def served (s t : Session) : List ℕ :=
  (t.live.take (t.live.length - s.live.length)).map Grant.pod

variable (L path) in
/-- `activatePod` brings the page in and moves the pod to the front. -/
def activatePod (s : Tracked) (i : ℕ) (f : Fetch) : Except Fault Tracked := do
  let t ← s.session.step L path (.activatePod i f)
  let (_, lru) ← s.lru.updateLRUList (some i)
  return { s with session := t, lru := lru }

variable (L path) in
def step (s : Tracked) : Move → Except Fault Tracked
  | .allocate l size c => do
    let t ← s.session.step L path (.allocate l size c)
    return { s with session := t, due := served s.session t ++ s.due }
  | .addPodAndAllocate l i => do
    let t ← s.session.step L path (.addPodAndAllocate l i)
    return { s with session := t, due := served s.session t ++ s.due }
  | .updateLRUList i => do
    let (_, lru) ← s.lru.updateLRUList (some i)
    return { s with lru := lru, due := s.due.erase i }
  | .hugePage i f =>
    if (s.session.pods i).state ≠ .local_ then do
      let s ← s.activatePod L path i f
      let (_, lru) ← s.lru.updateLRUList (some i)
      return { s with lru := lru }
    else .ok s
  | .activatePod i f => s.activatePod L path i f
  | .prefetchPod i f => do
    let t ← s.session.step L path (.prefetchPod i f)
    match (s.session.pods i).state with
    | .disk | .remote | .init =>
      let (_, lru) ← s.lru.updateLRUList (some i)
      return { s with session := t, lru := lru }
    | .local_ | .localPinned | .diskCache | .remoteCache => return { s with session := t }
  | .pickPodToEvict tryLock isFree localCopy => do
    let (podToEvict, lru) ← s.lru.getFromLRUList tryLock
    match podToEvict with
    | none => return { s with lru := lru }
    | some i =>
      let t ← s.session.step L path (.pickPodToEvict i (isFree i) localCopy)
      if s.session.activates L i (isFree i) then
        let (_, lru) ← lru.updateLRUList (some i)
        return { s with session := t, lru := lru }
      else return { s with session := t, lru := lru }
  | .remonPromotePod i f =>
    if (s.session.pods i).state = .remote ∨ (s.session.pods i).state = .disk then
      s.activatePod L path i f
    else do
      let (_, lru) ← s.lru.updateLRUList (some i)
      return { s with lru := lru }
  | .remonDemote i =>
    if (s.session.pods i).state = .remote ∨ (s.session.pods i).state = .disk then .ok s
    else do
      let (_, lru) ← s.lru.tailPodInLRUList (some i)
      return { s with lru := lru }
  | .remonForceSwap i tryLock localCopy => do
    let (ret, lru) ← s.lru.removePodFromLRU tryLock i
    if ret < 0 then return { s with lru := lru }
    else
      let t ← s.session.step L path (.asyncSwapOutPod i localCopy)
      return { s with session := t, lru := lru }
  | .other op _ => do
    let t ← s.session.step L path op
    return { s with session := t }

variable (L) in
/-- The promises of the users and the memory nodes, for the operation that a section performs. -/
def Legal (s : Tracked) : Move → Prop
  | .allocate l size c => s.session.Legal L (.allocate l size c)
  | .addPodAndAllocate l i => s.session.Legal L (.addPodAndAllocate l i)
  | .updateLRUList i => i ∈ s.due
  | .hugePage i f => s.session.Honest i f ∧ s.session.splPushdown i = none
  | .activatePod i f => s.session.Honest i f
  | .prefetchPod i f => s.session.Honest i f
  | .pickPodToEvict _ isFree localCopy => ∀ i, s.lru.pods.getLast? = some i →
      s.session.Legal L (.pickPodToEvict i (isFree i) localCopy)
  | .remonPromotePod i f => s.session.Honest i f
  | .remonDemote _ => True
  | .remonForceSwap i _ localCopy => s.session.Legal L (.asyncSwapOutPod i localCopy)
  | .other op _ => s.session.Legal L op

variable (L) in
/-- Requests are prompt, no page is swapped out while it is the last pod of its list, and no
cached page is swapped out by force. -/
def Cautious (s : Tracked) : Move → Prop
  | .allocate l size c => s.session.Prompt L (.allocate l size c)
  | .pickPodToEvict _ isFree localCopy => ∀ i, s.lru.pods.getLast? = some i →
      s.session.Orderly (.pickPodToEvict i (isFree i) localCopy)
  | .remonForceSwap i _ localCopy => s.session.Orderly (.asyncSwapOutPod i localCopy) ∧
      (s.session.pods i).state ≠ .diskCache ∧ (s.session.pods i).state ≠ .remoteCache
  | _ => True

variable (L path) in
inductive Run (ok : Tracked → Move → Prop) : Tracked → Prop
  | start (lruIter : ℕ → ℕ) : Run ok (new lruIter)
  | step {s s' : Tracked} {m : Move} (hs : Run ok s) (hlegal : s.Legal L m) (hok : ok s m)
      (run : s.step L path m = .ok s') : Run ok s'

variable {s s' : Tracked} {h h' : ∀ i, AbsHeap (L i)} {i : ℕ}

variable (L path) in
/-- The session and the list are in order, and every page in memory is listed or due. -/
structure Inv (s : Tracked) (h : ∀ i, AbsHeap (L i)) : Prop where
  session : s.session.Inv L path False h
  lru : s.lru.Represents
  listed : ∀ i, (s.session.pods i).InRam → i ∈ s.lru.pods ∨ i ∈ s.due

end Tracked

namespace Session

open Tracked (served)

variable {s t : Session} {h h' : ∀ i, AbsHeap (L i)} {i : ℕ}

theorem served_cons {x : Grant} (hl : t.live = x :: s.live) : served s t = [x.pod] := by
  simp [served, hl]

def Enters (s t : Session) (j : ℕ) : Op → Prop
  | .allocate _ _ _ => j ∈ served s t
  | .addPodAndAllocate _ _ => j ∈ served s t
  | .activatePod i _ => j = i
  | .prefetchPod i _ => j = i ∧ ((s.pods i).state = .disk ∨ (s.pods i).state = .remote ∨
      (s.pods i).state = .init)
  | _ => False

theorem inRam_onePod {g' : Pager} {P : Prop} {j : ℕ} (ho : Pager.OnePod i s.toPager h g' h')
    (hi : (g'.pods i).InRam → (s.pods i).InRam ∨ P) (hj : (g'.pods j).InRam) :
    (s.pods j).InRam ∨ j = i ∧ P := by
  by_cases he : j = i
  · subst he
    exact (hi hj).imp_right (fun hp => ⟨rfl, hp⟩)
  · rw [ho.pods_of_ne he] at hj
    exact .inl hj

theorem inRam_evicted {g g' : Pager} (he : Pager.Evicted g g' i) (hi : (g'.pods i).InRam) :
    (g.pods i).InRam := by
  cases he with
  | idle _ hp => rwa [hp] at hi
  | dropped hs =>
    rcases hs with ⟨hs, -⟩ | ⟨hs, -⟩
    · exact .inr (.inl hs)
    · exact .inr (.inr hs)
  | kept hs => exact .inl hs
  | out hs => exact .inl hs

/-- Nothing else comes into memory. -/
theorem inRam_step {op : Op} {j : ℕ} (hs : s.Inv L path False h) (hlegal : s.Legal L op)
    (hwait : s.Prompt L op) (run : s.step L path op = .ok t)
    (ha : s.After L path False h op t h') (hj : (t.pods j).InRam) :
    (s.pods j).InRam ∨ s.Enters t j op := by
  have hdid := ha.did
  cases op with
  | allocate l size c =>
    obtain ⟨hsize, hretries⟩ := hwait
    rcases hs.pager.woken ha.inv.pager hdid hj with hr | ⟨hinit, hlast⟩
    · exact .inl hr
    -- the last pod was given back, and it serves the request
    right
    obtain ⟨ptr, g, hrun, hptr, hl⟩ := hs.pager.allocate_init hlast hinit hlegal.1 (hsize j)
      (hretries j hlast hinit)
    simp only [Session.step, hrun, ok_bind, pure_eq, if_neg hptr, grant, hl,
      Except.ok.injEq] at run
    have hlive : t.live = ⟨j, ptr, size⟩ :: s.live := by
      rw [← run]
    rw [Enters, served_cons hlive]
    exact mem_singleton_self j
  | addPodAndAllocate l i =>
    obtain ⟨hw, hn, hst⟩ := hlegal
    obtain ⟨size, hw⟩ := Option.ne_none_iff_exists'.mp hw
    obtain ⟨-, hz, hfit⟩ := hs.waits l size hw
    obtain ⟨g, hrun, -⟩ := hs.pager.addPodAndAllocate_serves (l := l) hn hst
      ⟨size, hz.1, hz.2, not_lt.mp (hfit i)⟩
    have hrun' : s.toPager.addPodAndAllocate L l i size = .ok ((L i).firstBlock, g) := hrun
    have hne : (L i).firstBlock ≠ 0 := by
      unfold PageSpan.firstBlock
      omega
    simp only [Session.step, hw, hrun', ok_bind, pure_eq, if_neg hne,
      Except.ok.injEq] at run
    by_cases he : j = i
    · right
      have hlast : (g.lists l).lastAllocatedPod = some i := by
        have := hdid.last
        rw [← run, toPager_grant] at this
        exact this
      have hlive : t.live = ⟨i, (L i).firstBlock, size⟩ :: s.live := by
        rw [← run]
        simp only [grant, hlast]
      rw [Enters, served_cons hlive, he]
      exact mem_singleton_self i
    · left
      have hsame : t.pods j = s.pods j := by
        rw [← run, toPager_grant]
        exact Pager.addPodAndAllocate_others.result hrun' j he
      rwa [← hsame]
  | free i a =>
    left
    simp only [Session.step] at run
    cases hrun : s.toPager.free L i a with
    | error e => simp [hrun] at run
    | ok r =>
      simp only [hrun, ok_bind, pure_eq, Except.ok.injEq] at run
      have hsame := Pager.states_free.result hrun j
      rw [← run] at hj
      rwa [Pod.InRam, ← hsame]
  | trim l c tryLock =>
    left
    simp only [Session.step] at run
    cases hrun : s.toPager.trim L l c tryLock with
    | error e => simp [hrun] at run
    | ok g =>
      simp only [hrun, ok_bind, pure_eq, Except.ok.injEq] at run
      have hsame := Pager.states_trim.result hrun j
      rw [← run] at hj
      rwa [Pod.InRam, ← hsame]
  | pickPodToEvict i isFree localCopy | asyncSwapOutPod i localCopy =>
    exact (inRam_onePod (P := False) hdid.1 (fun hi => .inl (inRam_evicted hdid.2 hi)) hj).imp_right
      And.right
  | activatePod i f =>
    exact (inRam_onePod (P := True) hdid.1 (fun _ => .inr trivial) hj).imp_right And.left
  | prefetchPod i f =>
    refine inRam_onePod hdid.1 (fun hi => ?_) hj
    cases hdid.2 with
    | idle _ hp =>
      rw [hp] at hi
      exact .inl hi
    | mapped hs => exact .inr (.inr (.inr hs))
    | cached hs =>
      rcases hs with ⟨hs, -⟩ | ⟨hs, -⟩
      · exact .inr (.inl hs)
      · exact .inr (.inr (.inl hs))
  | addPodToBuffer i f =>
    refine (inRam_onePod (P := False) hdid.1 (fun hi => ?_) hj).imp_right And.right
    simp [Pod.InRam, hdid.2.1] at hi
  | trimFreePage i | store i a v =>
    refine (inRam_onePod (P := False) hdid.1 (fun hi => ?_) hj).imp_right And.right
    rw [Pod.InRam, hdid.2.state] at hi
    exact .inl hi

/-- A pod that the evictor took and that is still in memory was activated. -/
theorem activates_of_inRam {isFree : Bool} {localCopy : List (ℕ × SaveScript)}
    (run : s.step L path (.pickPodToEvict i isFree localCopy) = .ok t)
    (ha : s.After L path False h (.pickPodToEvict i isFree localCopy) t h')
    (hi : (t.pods i).InRam) : s.activates L i isFree = true := by
  simp only [Session.step] at run
  cases hrun : s.toPager.pickPodToEvict L path i isFree localCopy with
  | error e => simp [hrun] at run
  | ok g =>
    simp only [hrun, ok_bind, pure_eq, Except.ok.injEq] at run
    have hg : t.pods i = g.pods i := by
      rw [← run]
      rfl
    cases ha.did.2 with
    | idle hs hp =>
      -- a cached pod is no longer cached then
      rw [hp] at hi hg
      rcases hi with hi | hi | hi
      · exact absurd hi hs
      all_goals
        simp only [Pager.pickPodToEvict, Pager.beforeEvict, hi, ok_bind, pure_eq,
          Bool.false_eq_true, if_false, Except.ok.injEq] at hrun
        rw [hg, ← hrun] at hi
        simp [Pager.setPod, Pod.diskCacheToDisk, Pod.remoteCacheToRemote] at hi
    | dropped hs => rcases hs with ⟨-, hs⟩ | ⟨-, hs⟩ <;> simp [Pod.InRam, hs] at hi
    | kept _ _ _ hs =>
      rcases hs with ⟨hs, -⟩ | hs
      · exact Pager.activates_of_local hrun (hg ▸ hs)
      · simp [Pod.InRam, hs] at hi
    | out _ _ _ hs => rcases hs with ⟨hs | hs, -⟩ | hs <;> simp [Pod.InRam, hs] at hi

theorem not_inRam_of_forced {localCopy : List (ℕ × SaveScript)}
    (ha : s.After L path False h (.asyncSwapOutPod i localCopy) t h')
    (hok : s.Orderly (.asyncSwapOutPod i localCopy)) (hd : (s.pods i).state ≠ .diskCache)
    (hr : (s.pods i).state ≠ .remoteCache) : ¬ (t.pods i).InRam := by
  cases ha.did.2 with
  | idle hs hp =>
    rw [hp]
    simp [Pod.InRam, hs, hd, hr]
  | dropped hs =>
    rcases hs with ⟨hs, -⟩ | ⟨hs, -⟩
    · exact absurd hs hd
    · exact absurd hs hr
  | kept hs hl => exact absurd hl (hok hs)
  | out _ _ _ hs =>
    rcases hs with ⟨hs | hs, -⟩ | hs <;> simp [Pod.InRam, hs]

end Session

namespace Tracked

variable {s s' : Tracked} {h h' : ∀ i, AbsHeap (L i)} {i : ℕ}

/-- The operation of the session that a section performs keeps the session in order. -/
theorem Inv.call {t : Session} (op : Op) (hinj : Injective path) (hs : s.Inv L path h)
    (hlegal : s.session.Legal L op) (hsized : Session.Sized L False op)
    (hok : s.session.Orderly op) (run : s.session.step L path op = .ok t) :
    ∃ h', s.session.After L path False h op t h' :=
  (hs.session.step hinj hlegal hsized hok).result run

/-- A call of the session, after which the list has at least the pods that came in. -/
theorem Inv.next {t : Session} {lru : LruState} {due : List ℕ} (op : Op)
    (hs : s.Inv L path h) (hlegal : s.session.Legal L op) (hwait : s.session.Prompt L op)
    (run : s.session.step L path op = .ok t) (ha : s.session.After L path False h op t h')
    (hlru : lru.Represents)
    (hkeep : ∀ j, (t.pods j).InRam → j ∈ s.lru.pods ∨ j ∈ s.due → j ∈ lru.pods ∨ j ∈ due)
    (henter : ∀ j, s.session.Enters t j op → j ∈ lru.pods ∨ j ∈ due) :
    Inv L path ⟨t, lru, due⟩ h' := by
  refine ⟨ha.inv, hlru, ?_⟩
  intro j hj
  rcases Session.inRam_step hs.session hlegal hwait run ha hj with hr | he
  · exact hkeep j hj (hs.listed j hr)
  · exact henter j he

/-- Moving a pod to the front lists it, and the others stay listed. -/
theorem Inv.touch {r : ℤ} {lru : LruState} (hs : s.Inv L path h)
    (run : s.lru.updateLRUList (some i) = .ok (r, lru)) :
    Inv L path { s with lru := lru, due := s.due.erase i } h := by
  obtain ⟨hrep, hmem⟩ := LruState.updateLRUList_run hs.lru run
  refine ⟨hs.session, hrep, ?_⟩
  intro j hj
  by_cases he : j = i
  · exact .inl ((hmem j).mpr (.inl he))
  · rcases hs.listed j hj with hl | hd
    · exact .inl ((hmem j).mpr (.inr hl))
    · exact .inr ((mem_erase_of_ne he).mpr hd)

variable (L path) in
def InOrder (s : Tracked) : Prop := ∃ h, s.Inv L path h

theorem InOrder.activatePod {f : Fetch} (hinj : Injective path) (hs : s.InOrder L path)
    (hf : s.session.Honest i f) :
    Yields (fun _ => True) (s.activatePod L path i f) (InOrder L path) := by
  obtain ⟨h, hs⟩ := hs
  refine Yields.then_run fun t ht => ?_
  refine Yields.then_run fun r hr => ?_
  obtain ⟨hrep, hmem⟩ := LruState.updateLRUList_run hs.lru hr
  obtain ⟨h', ha⟩ := hs.call (.activatePod i f) hinj hf trivial trivial ht
  refine ⟨h', hs.next (.activatePod i f) hf trivial ht ha hrep ?_ ?_⟩
  · exact fun j _ hj => hj.imp_left fun hl => (hmem j).mpr (.inr hl)
  · exact fun j he => .inl ((hmem j).mpr (.inl he))

theorem InOrder.touch {r : ℤ} {lru : LruState} (hs : s.InOrder L path)
    (run : s.lru.updateLRUList (some i) = .ok (r, lru)) :
    InOrder L path { s with lru := lru } := by
  obtain ⟨h, hs⟩ := hs
  have ht := hs.touch run
  exact ⟨h, ht.session, ht.lru, fun j hj => (ht.listed j hj).imp_right mem_of_mem_erase⟩

/-- The evictor. -/
theorem InOrder.pickPodToEvict {tryLock isFree : ℕ → Bool} {localCopy : List (ℕ × SaveScript)}
    (hinj : Injective path) (hs : s.InOrder L path)
    (hlegal : s.Legal L (.pickPodToEvict tryLock isFree localCopy))
    (hok : s.Cautious L (.pickPodToEvict tryLock isFree localCopy)) :
    Yields (fun _ => True) (s.step L path (.pickPodToEvict tryLock isFree localCopy))
      (InOrder L path) := by
  obtain ⟨h, hs⟩ := hs
  refine Yields.then_run fun r hr => ?_
  obtain ⟨podToEvict, lru⟩ := r
  obtain ⟨hrep, hpods⟩ := LruState.getFromLRUList_run hs.lru hr
  cases podToEvict with
  | none =>
    have hsame : s.lru.pods = lru.pods := hpods.trans (append_nil _)
    refine ⟨h, hs.session, hrep, ?_⟩
    intro j hj
    rw [← hsame]
    exact hs.listed j hj
  | some i =>
    have hlast : s.lru.pods.getLast? = some i := by
      rw [hpods]
      exact List.getLast?_concat
    refine Yields.then_run fun t ht => ?_
    set op : Op := .pickPodToEvict i (isFree i) localCopy
    obtain ⟨h', ha⟩ := hs.call op hinj (hlegal i hlast) trivial (hok i hlast) ht
    have hkeep : ∀ j, j ≠ i → j ∈ s.lru.pods → j ∈ lru.pods := by
      intro j hj hmem
      rw [hpods] at hmem
      exact (mem_append.mp hmem).resolve_right (fun hc => hj (mem_singleton.mp hc))
    split
    · refine Yields.then_run fun q hq => ?_
      obtain ⟨hrep', hmem⟩ := LruState.updateLRUList_run hrep hq
      refine ⟨h', hs.next op (hlegal i hlast) trivial ht ha hrep' ?_
        (fun _ he => he.elim)⟩
      intro j _ hj
      by_cases he : j = i
      · exact .inl ((hmem j).mpr (.inl he))
      · exact hj.imp_left fun hl => (hmem j).mpr (.inr (hkeep j he hl))
    · rename_i hno
      refine ⟨h', hs.next op (hlegal i hlast) trivial ht ha hrep ?_
        (fun _ he => he.elim)⟩
      intro j hram hj
      have he : j ≠ i := by
        rintro rfl
        exact hno (Session.activates_of_inRam ht ha hram)
      exact hj.imp_left (hkeep j he)

theorem InOrder.remonForceSwap {tryLock : ℕ → Bool} {localCopy : List (ℕ × SaveScript)}
    (hinj : Injective path) (hs : s.InOrder L path)
    (hlegal : s.Legal L (.remonForceSwap i tryLock localCopy))
    (hok : s.Cautious L (.remonForceSwap i tryLock localCopy)) :
    Yields (fun _ => True) (s.step L path (.remonForceSwap i tryLock localCopy))
      (InOrder L path) := by
  obtain ⟨h, hs⟩ := hs
  obtain ⟨horder, hd, hr⟩ := hok
  refine Yields.then_run fun r hrun => ?_
  obtain ⟨ret, lru⟩ := r
  obtain ⟨hrep, hsame, hkeep⟩ := LruState.removePodFromLRU_run hs.lru hrun
  by_cases hret : ret < 0
  · simp only [if_pos hret]
    refine ⟨h, hs.session, hrep, fun j hj => ?_⟩
    rw [hsame hret]
    exact hs.listed j hj
  · simp only [if_neg hret]
    refine Yields.then_run fun t ht => ?_
    obtain ⟨h', ha⟩ := hs.call (.asyncSwapOutPod i localCopy) hinj hlegal trivial horder ht
    refine ⟨h', hs.next (.asyncSwapOutPod i localCopy) hlegal trivial ht ha hrep ?_
      (fun _ he => he.elim)⟩
    intro j hram hj
    refine hj.imp_left fun hl => (hkeep j hl).resolve_right ?_
    rintro rfl
    exact Session.not_inRam_of_forced ha horder hd hr hram

theorem InOrder.step {m : Move} (hinj : Injective path) (hs : s.InOrder L path)
    (hlegal : s.Legal L m) (hok : s.Cautious L m) :
    Yields (fun _ => True) (s.step L path m) (InOrder L path) := by
  cases m with
  | allocate l size c =>
    obtain ⟨h, hs⟩ := hs
    refine Yields.then_run fun t ht => ?_
    have hfit : Session.Sized L False (.allocate l size c) :=
      fun i hi => absurd (hok.1 i) (not_le.mpr hi)
    obtain ⟨h', ha⟩ := hs.call (.allocate l size c) hinj hlegal hfit trivial ht
    refine ⟨h', hs.next (.allocate l size c) hlegal hok ht ha hs.lru ?_ ?_⟩
    · exact fun j _ hj => hj.imp_right (mem_append_right _)
    · exact fun j he => .inr (mem_append_left _ he)
  | addPodAndAllocate l i =>
    obtain ⟨h, hs⟩ := hs
    refine Yields.then_run fun t ht => ?_
    obtain ⟨h', ha⟩ := hs.call (.addPodAndAllocate l i) hinj hlegal trivial trivial ht
    refine ⟨h', hs.next (.addPodAndAllocate l i) hlegal trivial ht ha hs.lru ?_ ?_⟩
    · exact fun j _ hj => hj.imp_right (mem_append_right _)
    · exact fun j he => .inr (mem_append_left _ he)
  | updateLRUList i =>
    obtain ⟨h, hs⟩ := hs
    exact Yields.then_run fun r hr => ⟨h, hs.touch hr⟩
  | hugePage i f =>
    rw [Tracked.step]
    split
    · refine (hs.activatePod hinj hlegal.1).bind fun s' hs' => ?_
      exact Yields.then_run fun r hr => hs'.touch hr
    · exact hs
  | activatePod i f => exact hs.activatePod hinj hlegal
  | prefetchPod i f =>
    obtain ⟨h, hs⟩ := hs
    refine Yields.then_run fun t ht => ?_
    obtain ⟨h', ha⟩ := hs.call (.prefetchPod i f) hinj hlegal trivial trivial ht
    have hlisted : Yields (fun _ => True) (do
        let (_, lru) ← s.lru.updateLRUList (some i)
        return ({ s with session := t, lru := lru } : Tracked)) (InOrder L path) := by
      refine Yields.then_run fun r hr => ?_
      obtain ⟨hrep, hmem⟩ := LruState.updateLRUList_run hs.lru hr
      refine ⟨h', hs.next (.prefetchPod i f) hlegal trivial ht ha hrep ?_ ?_⟩
      · exact fun j _ hj => hj.imp_left fun hl => (hmem j).mpr (.inr hl)
      · exact fun j he => .inl ((hmem j).mpr (.inl he.1))
    have hidle : (s.session.pods i).state ≠ .disk → (s.session.pods i).state ≠ .remote →
        (s.session.pods i).state ≠ .init → InOrder L path { s with session := t } := by
      intro h1 h2 h3
      refine ⟨h', hs.next (.prefetchPod i f) hlegal trivial ht ha hs.lru (fun _ _ hj => hj) ?_⟩
      rintro j ⟨-, hc | hc | hc⟩
      · exact absurd hc h1
      · exact absurd hc h2
      · exact absurd hc h3
    cases hst : (s.session.pods i).state with
    | disk => exact hlisted
    | remote => exact hlisted
    | init => exact hlisted
    | local_ | localPinned | diskCache | remoteCache =>
      exact hidle (by simp [hst]) (by simp [hst]) (by simp [hst])
  | pickPodToEvict tryLock isFree localCopy => exact hs.pickPodToEvict hinj hlegal hok
  | remonPromotePod i f =>
    rw [Tracked.step]
    split
    · exact hs.activatePod hinj hlegal
    · exact Yields.then_run fun r hr => hs.touch hr
  | remonDemote i =>
    rw [Tracked.step]
    split
    · exact hs
    · obtain ⟨h, hs⟩ := hs
      refine Yields.then_run fun r hr => ?_
      obtain ⟨hrep, hmem⟩ := LruState.tailPodInLRUList_run hs.lru hr
      exact ⟨h, hs.session, hrep, fun j hj => (hs.listed j hj).imp_left fun hl =>
        (hmem j).mpr (.inr hl)⟩
  | remonForceSwap i tryLock localCopy => exact hs.remonForceSwap hinj hlegal hok
  | other op hop =>
    obtain ⟨h, hs⟩ := hs
    refine Yields.then_run fun t ht => ?_
    have hplain : Session.Sized L False op ∧ s.session.Orderly op ∧ s.session.Prompt L op ∧
        ∀ j, ¬ s.session.Enters t j op := by
      cases op with
      | free i a => exact ⟨trivial, trivial, trivial, fun _ hc => hc⟩
      | trim l c tryLock => exact ⟨trivial, trivial, trivial, fun _ hc => hc⟩
      | addPodToBuffer i f => exact ⟨trivial, trivial, trivial, fun _ hc => hc⟩
      | trimFreePage i => exact ⟨trivial, trivial, trivial, fun _ hc => hc⟩
      | store i a v => exact ⟨trivial, trivial, trivial, fun _ hc => hc⟩
      | _ => exact absurd hop Bool.false_ne_true
    obtain ⟨hsized, horder, hprompt, hno⟩ := hplain
    obtain ⟨h', ha⟩ := hs.call op hinj hlegal hsized horder ht
    exact ⟨h', hs.next op hlegal hprompt ht ha hs.lru (fun _ _ hj => hj)
      (fun j he => absurd he (hno j))⟩

theorem Run.inOrder (hinj : Injective path) (hs : Run L path (Cautious L) s) :
    s.InOrder L path := by
  induction hs with
  | start lruIter =>
    refine ⟨fun i => .fresh (L i), Session.inv_new (fun _ => rfl),
      LruState.represents_new lruIter, ?_⟩
    intro i hi
    simp [new, Session.new, Pager.new, Pod.new, Pod.InRam] at hi
  | step _ hlegal hok run ih => exact (ih.step hinj hlegal hok).result run

/-- While no thread has a pod to move to the front, every pod whose page takes up memory is in
the list of the evictor. -/
theorem resident_pods_listed {swapDir : String} (hs : Run L (swapFile swapDir) (Cautious L) s)
    (hidle : s.due = []) (i : ℕ) (hi : (s.session.pods i).state = .local_ ∨
      (s.session.pods i).state = .diskCache ∨ (s.session.pods i).state = .remoteCache) :
    i ∈ s.lru.pods := by
  obtain ⟨h, hinv⟩ := hs.inOrder (swapFile_injective swapDir)
  refine (hinv.listed i hi).resolve_right ?_
  rw [hidle]
  exact not_mem_nil

/-! ## Runs on given pods -/

variable (L path) in
/-- What a section that returns leaves. -/
def after (s : Tracked) (m : Move) : Tracked :=
  match s.step L path m with
  | .ok s' => s'
  | .error _ => s

theorem Run.after {ok : Tracked → Move → Prop} {m : Move} (hs : Run L path ok s)
    (hlegal : s.Legal L m) (hok : ok s m) (hrun : (s.step L path m).isOk = true) :
    Run L path ok (s.after L path m) := by
  refine .step hs hlegal hok ?_
  rw [Tracked.after]
  cases hr : s.step L path m with
  | ok s' => rfl
  | error e => simp [hr, Except.isOk, Except.toBool] at hrun

def sampleHuge : Tracked :=
  (new fun _ => 7).after Session.samplePages (swapFile "swap") (.hugePage 0 Session.sampleFetch)

def sampleCached : Tracked :=
  (sampleHuge.after Session.samplePages (swapFile "swap")
    (.pickPodToEvict (fun _ => true) (fun _ => false) [])).after Session.samplePages
    (swapFile "swap") (.prefetchPod 0 Session.sampleFetch)

theorem sampleCached_run {ok : Tracked → Move → Prop}
    (hok : ∀ s m, s.Cautious Session.samplePages m → ok s m) :
    Run Session.samplePages (swapFile "swap") ok sampleCached := by
  have h0 : Run Session.samplePages (swapFile "swap") ok (new fun _ => 7) := .start _
  have h1 : Run Session.samplePages (swapFile "swap") ok sampleHuge :=
    h0.after (m := .hugePage 0 Session.sampleFetch)
      ⟨Pager.honest_of_none rfl, rfl⟩ (hok _ _ trivial) (by decide)
  have hlast : sampleHuge.lru.pods.getLast? = some 0 := by decide
  have horder : sampleHuge.Cautious Session.samplePages
      (.pickPodToEvict (fun _ => true) (fun _ => false) []) := by
    rintro i hi - - ⟨l, hl, -⟩
    rw [hlast, Option.some.injEq] at hi
    subst hi
    have hnone : sampleHuge.session.splPushdown 0 = none := by decide
    exact absurd (hnone.symm.trans hl) (by simp)
  have h2 := h1.after (m := .pickPodToEvict (fun _ => true) (fun _ => false) [])
    (fun i _ _ _ x hx => absurd hx not_mem_nil) (hok _ _ horder) (by decide)
  exact h2.after (m := .prefetchPod 0 Session.sampleFetch)
    (Pager.honest_of_none (by decide)) (hok _ _ trivial) (by decide)

theorem resident_pods_listed_sample : Run Session.samplePages (swapFile "swap")
    (Cautious Session.samplePages) sampleCached ∧
    (sampleCached.session.pods 0).state = .diskCache ∧ 0 ∈ sampleCached.lru.pods := by
  have hs := sampleCached_run (fun _ _ hc => hc)
  have hst : (sampleCached.session.pods 0).state = .diskCache := by decide
  exact ⟨hs, hst, resident_pods_listed hs (by decide) 0 (.inr (.inl hst))⟩

def sampleHidden : Tracked :=
  sampleCached.after Session.samplePages (swapFile "swap") (.remonForceSwap 0 (fun _ => true) [])

/-- The page is still cached, takes up memory and is no longer in the list, although no page was
swapped out while it was the last pod of a list. -/
theorem cached_pod_hidden :
    Run Session.samplePages (swapFile "swap") (fun s m => s.Cautious Session.samplePages m ∨
      ∃ i tryLock localCopy, m = .remonForceSwap i tryLock localCopy ∧
        s.session.Orderly (.asyncSwapOutPod i localCopy)) sampleHidden ∧
    sampleHidden.due = [] ∧ (sampleHidden.session.pods 0).state = .diskCache ∧
    0 ∉ sampleHidden.lru.pods := by
  refine ⟨?_, by decide, by decide, by decide⟩
  refine (sampleCached_run (fun _ _ hc => .inl hc)).after
    (m := .remonForceSwap 0 (fun _ => true) []) (fun _ _ x hx => absurd hx not_mem_nil)
    (.inr ⟨0, _, _, rfl, ?_⟩) (by decide)
  intro hs
  exact absurd hs (by decide)

/-- Pod 0 is buffered. -/
def sampleBuffered : Tracked :=
  (new fun _ => 7).after Session.samplePages (swapFile "swap")
    (.other (.addPodToBuffer 0 Session.sampleFetch) rfl)

theorem sampleBuffered_run {ok : Tracked → Move → Prop}
    (hok : ok (new fun _ => 7) (.other (.addPodToBuffer 0 Session.sampleFetch) rfl)) :
    Run Session.samplePages (swapFile "swap") ok sampleBuffered :=
  (Run.start fun _ => 7).after (m := .other (.addPodToBuffer 0 Session.sampleFetch) rfl) rfl hok
    (by decide)

end Tracked

end Remon
