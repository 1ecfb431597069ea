import Remon.Vmm.PageMoves

/-! # Sessions of the memory manager

A session is the pager together with what its users have done: the blocks they hold, the
pointers they freed, and the requests that wait for a page from the buffer. One lemma says for
every operation what it does to the pods; the invariants of whole runs follow from it.
-/

namespace Remon
open Function Lib Heap Fault List

/-- A block that a caller holds: its pod, its address and the size that was asked for. -/
structure Grant where
  pod : ℕ
  ptr : ℕ
  size : ℕ
  deriving DecidableEq, Repr

structure Session extends Pager where
  live : List Grant
  /-- the calls of `free`: the pod and the pointer -/
  freed : List (ℕ × ℕ)
  /-- the pods that `benchSwappedPage` took out of their list and that did not come back -/
  benched : ℕ → Bool
  /-- the size for which the thread of a list waits for a pod, after the list had none -/
  wanting : ℕ → Option ℕ

inductive Op where
  | allocate (l size : ℕ) (c : Choice)
  | addPodAndAllocate (l i : ℕ)
  | free (i addr : ℕ)
  | trim (l : ℕ) (c : Choice) (tryLock : ℕ → Bool)
  | pickPodToEvict (i : ℕ) (isFree : Bool) (localCopy : List (ℕ × SaveScript))
  | asyncSwapOutPod (i : ℕ) (localCopy : List (ℕ × SaveScript))
  | activatePod (i : ℕ) (f : Fetch)
  | prefetchPod (i : ℕ) (f : Fetch)
  | addPodToBuffer (i : ℕ) (f : Fetch)
  | trimFreePage (i : ℕ)
  | store (i addr : ℕ) (v : UInt8)

namespace Session

variable (L : ℕ → Layout) (path : ℕ → String)

def new : Session := ⟨Pager.new, [], [], fun _ => false, fun _ => none⟩

def benches (s : Session) (i : ℕ) : Bool :=
  match s.splPushdown i with
  | none => false
  | some l => decide ((s.pods i).state = .local_) && (s.pods i).heap.inited &&
      decide ((s.lists l).lastAllocatedPod ≠ some i)

def unbenches (s : Session) (i : ℕ) : Bool :=
  match (s.pods i).state with
  | .disk | .diskCache | .remote | .remoteCache => (s.pods i).heap.inited
  | .init | .local_ | .localPinned => false

/-- The list `l` served a request from its last pod. -/
def grant (s : Session) (l ptr size : ℕ) : Session :=
  match (s.lists l).lastAllocatedPod with
  | none => s
  | some i => { s with live := ⟨i, ptr, size⟩ :: s.live }

theorem toPager_grant (s : Session) (l ptr size : ℕ) :
    (s.grant l ptr size).toPager = s.toPager := by
  unfold grant
  split <;> rfl

def bench (s : Session) (b : Bool) (i : ℕ) (x : Bool) : Session :=
  { s with benched := if b then update s.benched i x else s.benched }

def step (s : Session) : Op → Except Fault Session
  | .allocate l size c => do
    let (ptr, g) ← s.allocate L l size c
    return if ptr = 0 then { s with
      toPager := g, wanting := update s.wanting l (some size) }
      else ({ s with toPager := g } : Session).grant l ptr size
  | .addPodAndAllocate l i =>
    match s.wanting l with
    | none => .error .undefined
    | some size => do
      let (ptr, g) ← s.addPodAndAllocate L l i size
      let s := { s with toPager := g, wanting := update s.wanting l none }
      return if ptr = 0 then s else s.grant l ptr size
  | .free i addr => do
    let (_, g) ← s.toPager.free L i addr
    return { s with
      toPager := g
      live := s.live.filter (fun x => ¬ (x.pod = i ∧ x.ptr = addr))
      freed := (i, addr) :: s.freed }
  | .trim l c tryLock => do
    let g ← s.toPager.trim L l c tryLock
    return { s with toPager := g }
  | .pickPodToEvict i isFree localCopy => do
    let g ← s.toPager.pickPodToEvict L path i isFree localCopy
    return ({ s with toPager := g } : Session).bench (s.benches i) i true
  | .asyncSwapOutPod i localCopy => do
    let g ← s.toPager.asyncSwapOutPod L path i localCopy
    return ({ s with toPager := g } : Session).bench (s.benches i) i true
  | .activatePod i f => do
    let g ← s.toPager.activatePod L i f
    return ({ s with toPager := g } : Session).bench (s.unbenches i) i false
  | .prefetchPod i f => do
    let g ← s.toPager.prefetchPod L i f
    return { s with toPager := g }
  | .addPodToBuffer i f => do
    let g ← s.toPager.addPodToBuffer L i f
    return { s with toPager := g }
  | .trimFreePage i => do
    let g ← s.toPager.trimFreePage L i
    return { s with toPager := g }
  | .store i addr v => do
    let g ← s.toPager.store i addr v
    return { s with toPager := g }

/-- What the users and the memory nodes promise. A thread asks for aligned sizes and does not
call while it waits; it gets a pinned page from the buffer; only blocks that are held are freed
and written; the arenas handle the pods without a list. -/
def Legal (s : Session) : Op → Prop
  | .allocate l size _ => Asize size ∧ s.wanting l = none
  | .addPodAndAllocate l i =>
    s.wanting l ≠ none ∧ s.splPushdown i = none ∧ (s.pods i).state = .localPinned
  | .free i addr => ∃ size, ⟨i, addr, size⟩ ∈ s.live
  | .trim _ _ _ => True
  | .pickPodToEvict i isFree localCopy =>
    Pager.Dialogues L i localCopy (s.toPager.beforeEvict L i isFree)
  | .asyncSwapOutPod i localCopy => Pager.Dialogues L i localCopy (s.toPager.beforeForceSwap L i)
  | .activatePod i f => s.Honest i f
  | .prefetchPod i f => s.Honest i f
  | .addPodToBuffer i _ => s.splPushdown i = none
  | .trimFreePage i => s.splPushdown i = none
  | .store i addr _ => ((s.pods i).state = .local_ ∨ (s.pods i).state = .localPinned) ∧
      s.splPushdown i = none ∨ (s.pods i).state = .local_ ∧
      ∃ x ∈ s.live, x.pod = i ∧ x.ptr ≤ addr ∧ addr + 16 < x.ptr + x.size

/-- The sessions that legal operations lead to, if each of them also is as `ok` says. -/
inductive Run (ok : Session → Op → Prop) : Session → Prop
  | start : Run ok new
  | step {s s' : Session} {op : Op} (hs : Run ok s) (hlegal : s.Legal L op) (hok : ok s op)
      (run : s.step L path op = .ok s') : Run ok s'

/-- No page is swapped out while it is the last pod of its list. The evictor itself sees to
that for pods with an allocator. -/
def Orderly (s : Session) : Op → Prop
  | .pickPodToEvict i _ _ =>
    (s.pods i).state = .local_ → (s.pods i).heap.inited = false → ¬ s.IsLast i
  | .asyncSwapOutPod i _ => (s.pods i).state = .local_ → ¬ s.IsLast i
  | _ => True

/-- Requests that are too large for a page are made only if `b`. -/
def Sized (b : Prop) : Op → Prop
  | .allocate _ size _ => ∀ i, (L i).maxIntraPodSize < size → b
  | _ => True

/-! ## The invariant -/

variable {L path} {b : Prop} {s t : Session} {h h' : ∀ i, AbsHeap (L i)} {i l : ℕ}

variable (L path b) in
/-- The pager is in order, the callers hold distinct blocks, a list with a waiting thread has
no last pod, and every freed pointer is in a buffer or was handed to the allocator of its page
while that could be written. -/
structure Inv (s : Session) (h : ∀ i, AbsHeap (L i)) : Prop where
  pager : Pager.Inv L path b s.toPager h
  held : ∀ x ∈ s.live, ∃ n, AbsHeap.Cut x.size n ∧ (s.cell h x.pod).Held x.ptr n
  apart : (s.live.map (fun x => (x.pod, x.ptr))).Nodup
  waits : ∀ l size, s.wanting l = some size → (s.lists l).lastAllocatedPod = none ∧
    Asize size ∧ ∀ i, (L i).maxIntraPodSize < size → b
  ledger : ∀ i a, s.freed.count (i, a) =
    (s.pods i).freeBuffer.count a + (s.cell h i).released.count a
  mapped : ∀ i, ∀ x ∈ s.flushes i, x.1 = .readWrite

theorem inv_new (hL : ∀ i, h i = .fresh (L i)) : Inv L path b new h := by
  refine ⟨Pager.inv_new hL, ?_, nodup_nil, ?_, fun i a => rfl, ?_⟩
  · exact fun x hx => nomatch hx
  · exact fun l size hw => nomatch hw
  · exact fun i x hx => nomatch hx

/-- An operation that frees nothing and after which the same blocks are held, or one more. -/
theorem Inv.keep (xs : List Grant) (hs : s.Inv L path b h) (hg : Pager.Inv L path b t.toPager h')
    (hk : ∀ i, (s.cell h i).Keeps (t.cell h' i)) (hfreed : t.freed = s.freed)
    (hwaits : ∀ l size, t.wanting l = some size →
      (t.lists l).lastAllocatedPod = none ∧ Asize size ∧ ∀ i, (L i).maxIntraPodSize < size → b)
    (hlive : t.live = xs ++ s.live)
    (hxs : xs.Pairwise (fun x y => (x.pod, x.ptr) ≠ (y.pod, y.ptr)))
    (hheld : ∀ x ∈ xs, (∃ n, AbsHeap.Cut x.size n ∧ (t.cell h' x.pod).Held x.ptr n) ∧
      ∀ n, ¬ (s.cell h x.pod).Held x.ptr n) : t.Inv L path b h' := by
  refine ⟨hg, ?_, ?_, hwaits, ?_, ?_⟩
  · intro x hx
    rw [hlive, mem_append] at hx
    rcases hx with hx | hx
    · exact (hheld x hx).1
    · obtain ⟨n, hn, hh⟩ := hs.held x hx
      exact ⟨n, hn, (hk x.pod).held x.ptr n hh⟩
  · rw [hlive, map_append, nodup_append']
    refine ⟨pairwise_map.mpr hxs, hs.apart, ?_⟩
    intro y hy hy'
    obtain ⟨x, hx, rfl⟩ := mem_map.mp hy
    obtain ⟨z, hz, hzx⟩ := mem_map.mp hy'
    obtain ⟨n, -, hh⟩ := hs.held z hz
    rw [Prod.mk.injEq] at hzx
    rw [hzx.1, hzx.2] at hh
    exact (hheld x hx).2 n hh
  · intro i a
    rw [hfreed, hs.ledger]
    exact ((hk i).ledger a).symm
  · intro i x hx
    rcases (hk i).mapped x hx with hx | hx
    · exact hs.mapped i x hx
    · exact hx

/-- The pod `i` got another free, and then calls of its list followed. -/
theorem Inv.release {a : ℕ} (hs : s.Inv L path b h) (hg : Pager.Inv L path b t.toPager h')
    (hk : ∀ j, ((s.note i a).cell h j).Keeps (t.cell h' j)) (hfreed : t.freed = (i, a) :: s.freed)
    (hwaits : ∀ l size, t.wanting l = some size →
      (t.lists l).lastAllocatedPod = none ∧ Asize size ∧ ∀ i, (L i).maxIntraPodSize < size → b)
    (hlive : t.live = s.live.filter (fun x => ¬ (x.pod = i ∧ x.ptr = a))) : t.Inv L path b h' := by
  have hself := s.pods_note_self i a
  have hother : ∀ j, j ≠ i → (s.note i a).pods j = s.pods j := fun j hj =>
    Pager.pods_note_of_ne hj
  refine ⟨hg, ?_, ?_, hwaits, ?_, ?_⟩
  · intro x hx
    rw [hlive, mem_filter, decide_eq_true_eq] at hx
    obtain ⟨n, hn, hh⟩ := hs.held x hx.1
    refine ⟨n, hn, (hk x.pod).held x.ptr n ⟨hh.1, ?_⟩⟩
    change x.ptr ∉ ((s.note i a).pods x.pod).freeBuffer
    by_cases hj : x.pod = i
    · rw [hj, hself]
      have hbuf : x.ptr ∉ (s.pods x.pod).freeBuffer := hh.2
      rw [hj] at hbuf
      simp only [mem_append, mem_singleton, not_or]
      exact ⟨hbuf, fun hc => hx.2 ⟨hj, hc⟩⟩
    · rw [hother _ hj]
      exact hh.2
  · rw [hlive]
    exact hs.apart.sublist (filter_sublist.map _)
  · intro j c
    have hl := (hk j).ledger c
    have hnote : ((s.note i a).cell h j).released = (s.cell h j).released := rfl
    rw [hnote] at hl
    change _ = ((t.cell h' j).pod.freeBuffer.count c + (t.cell h' j).released.count c)
    rw [hl, hfreed]
    change _ = ((s.note i a).pods j).freeBuffer.count c + _
    have hbase := hs.ledger j c
    by_cases hj : j = i
    · subst hj
      rw [hself]
      by_cases hc : a = c
      · subst hc
        simp only [count_cons_self, count_append, count_nil]
        omega
      · simp only [count_cons_of_ne (show (j, a) ≠ (j, c) by simp [hc]), count_append,
          count_cons_of_ne hc, count_nil]
        omega
    · rw [hother j hj, count_cons_of_ne (by simp [Ne.symm hj]), hbase]
  · intro j x hx
    rcases (hk j).mapped x hx with hx | hx
    · exact hs.mapped j x hx
    · exact hx

/-! ## One operation -/

/-- The place of the pod and what it is used for stay as they were. -/
structure Touched (g g' : Pager) (i : ℕ) : Prop where
  state : (g'.pods i).state = (g.pods i).state
  inited : (g'.pods i).heap.inited = (g.pods i).heap.inited
  filed : g'.Filed i ↔ g.Filed i

variable (b) in
def Did (s : Session) (h : ∀ i, AbsHeap (L i)) (g' : Pager) (h' : ∀ i, AbsHeap (L i)) : Op → Prop
  | .allocate l _ _ => Pager.Called b l s.toPager h g' h'
  | .addPodAndAllocate l i => Pager.Joined b l i s.toPager h g' h'
  | .free i addr => ∃ l, s.Of l i ∧ Pager.Called b l (s.note i addr) h g' h' ∧
      ((g'.pods i).freeBuffer = [] ∨ (s.pods i).state = .disk ∨ (s.pods i).state = .remote ∨
        (s.pods i).freeBuffer.length + 1 < maxFreeBuffSize)
  | .trim l _ _ => Pager.Called b l s.toPager h g' h'
  | .pickPodToEvict i _ _ => Pager.OnePod i s.toPager h g' h' ∧ Pager.Evicted s.toPager g' i
  | .asyncSwapOutPod i _ => Pager.OnePod i s.toPager h g' h' ∧ Pager.Evicted s.toPager g' i
  | .activatePod i _ => Pager.OnePod i s.toPager h g' h' ∧ Pager.Activated s.toPager g' i
  | .prefetchPod i _ => Pager.OnePod i s.toPager h g' h' ∧ Pager.Prefetched s.toPager g' i
  | .addPodToBuffer i _ =>
    Pager.OnePod i s.toPager h g' h' ∧ (g'.pods i).state = .localPinned ∧ s.splPushdown i = none
  | .trimFreePage i => Pager.OnePod i s.toPager h g' h' ∧ Touched s.toPager g' i
  | .store i _ _ => Pager.OnePod i s.toPager h g' h' ∧ Touched s.toPager g' i

variable (b) in
/-- The ways in which a legal operation may stop. -/
def Fails (s : Session) (e : Fault) : Op → Prop
  | .allocate _ _ _ => Stuck b e
  | .addPodAndAllocate _ _ => Stuck b e
  | .free i _ => Stuck b e ∨ e = .undefined ∧ ¬ s.Roomy i
  | .trim _ _ _ => Stuck b e
  | .pickPodToEvict _ _ _ => Stuck b e ∨ e = .uncaught
  | .asyncSwapOutPod _ _ => Stuck b e ∨ e = .uncaught
  | .activatePod i _ =>
    Stuck b e ∨ e = .uncaught ∨ e = .undefined ∧ (s.pods i).state = .remoteCache
  | .prefetchPod _ _ => False
  | .addPodToBuffer _ _ => Stuck b e ∨ e = .uncaught ∨ e = .undefined
  | .trimFreePage _ => False
  | .store _ _ _ => False

/-- A request finds the lock of the last pod taken a hundred times at most. -/
def Patient : Op → Prop
  | .allocate _ _ c => c.retries ≤ 100
  | _ => True

def benchedAfter (s : Session) : Op → ℕ → Bool
  | .pickPodToEvict i _ _ => (s.bench (s.benches i) i true).benched
  | .asyncSwapOutPod i _ => (s.bench (s.benches i) i true).benched
  | .activatePod i _ => (s.bench (s.unbenches i) i false).benched
  | _ => s.benched

variable (L path b) in
/-- What an operation leaves. -/
structure After (s : Session) (h : ∀ i, AbsHeap (L i)) (op : Op) (s' : Session)
    (h' : ∀ i, AbsHeap (L i)) : Prop where
  inv : s'.Inv L path b h'
  did : s.Did b h s'.toPager h' op
  benched : s'.benched = s.benchedAfter op
  live : ∀ x ∈ s.live, x ∈ s'.live ∨ op = .free x.pod x.ptr
  stock : Patient op → ∀ i q n, (s'.cell h' i).Held q n →
    (s.cell h i).Held q n ∧ op ≠ .free i q ∨ ∃ size, ⟨i, q, size⟩ ∈ s'.live

/-- A session that differs from `s` in the pager only, or in the benched pods. -/
theorem Inv.moved {g : Pager} {x : ℕ → Bool} (hs : s.Inv L path b h) (hg : Pager.Inv L path b g h')
    (hk : ∀ i, (s.cell h i).Keeps (g.cell h' i))
    (hlast : ∀ l, (g.lists l).lastAllocatedPod = (s.lists l).lastAllocatedPod) :
    Inv L path b { s with toPager := g, benched := x } h' := by
  refine hs.keep [] hg hk rfl ?_ rfl .nil (fun x hx => nomatch hx)
  intro l size hw
  obtain ⟨hl, hz⟩ := hs.waits l size hw
  exact ⟨(hlast l).trans hl, hz⟩

/-- What is known of an operation that changes one pod. -/
theorem Inv.onePod {g : Pager} {x : ℕ → Bool} (hs : s.Inv L path b h) (hg : Pager.Inv L path b g h')
    (ho : Pager.OnePod i s.toPager h g h') :
    Inv L path b { s with toPager := g, benched := x } h' :=
  hs.moved hg (fun j => (ho.keeps_all j).toKeeps) ho.last

/-- A call of the list `l` that keeps the last pod, or no thread waits at `l`. -/
theorem Inv.called {g : Pager} (hs : s.Inv L path b h) (hg : Pager.Inv L path b g h')
    (hc : Pager.Called b l s.toPager h g h')
    (hlast : (g.lists l).lastAllocatedPod = (s.lists l).lastAllocatedPod) :
    Inv L path b { s with toPager := g } h' := by
  refine hs.moved hg (fun i => (hc.cells i).toKeeps) ?_
  intro k
  by_cases hk : k = l
  · rw [hk, hlast]
  · rw [hc.lists k hk]

theorem Inv.allocate {size : ℕ} {c : Choice} (hs : s.Inv L path b h)
    (hlegal : s.Legal L (.allocate l size c)) (hb : Sized L b (.allocate l size c)) :
    Yields (fun e => s.Fails b e (.allocate l size c)) (s.step L path (.allocate l size c))
      (fun s' => ∃ h', s.After L path b h (.allocate l size c) s' h') := by
  obtain ⟨hz, hnone⟩ := hlegal
  refine (hs.pager.allocate hz hb c).bind ?_
  rintro ⟨ptr, g⟩ ⟨h', hg, hc, hserved, hfailed, hstock⟩
  have hk : ∀ i, (s.cell h i).Keeps (g.cell h' i) := fun i => (hc.cells i).toKeeps
  have hothers : ∀ k size, k ≠ l → s.wanting k = some size →
      (g.lists k).lastAllocatedPod = none ∧ Asize size ∧
        ∀ i, (L i).maxIntraPodSize < size → b := by
    intro k size hk hw
    rw [hc.lists k hk]
    exact hs.waits k size hw
  by_cases hp : ptr = 0
  · dsimp only
    rw [if_pos hp]
    refine ⟨h', hs.keep [] hg hk rfl ?_ rfl .nil (fun x hx => nomatch hx), hc, rfl,
      fun x hx => .inl hx, ?_⟩
    · intro k size' hw
      change update s.wanting l (some size) k = some size' at hw
      by_cases he : k = l
      · rw [he, update_self, Option.some.injEq] at hw
        rw [he, ← hw]
        exact ⟨hfailed hp, hz, hb⟩
      · rw [update_of_ne he] at hw
        exact hothers k size' he hw
    · intro hr j q n hq
      exact .inl ⟨(hstock hr j q n hq).resolve_right (fun hc => hc.1 hp), nofun⟩
  · dsimp only
    rw [if_neg hp]
    obtain ⟨i, n, -, hlast, -, hn, hheld, hnew⟩ := hserved hp
    have hlast' : (g.lists l).lastAllocatedPod = some i := hlast
    simp only [grant, hlast']
    refine ⟨h', hs.keep [⟨i, ptr, size⟩] hg hk rfl ?_ rfl (pairwise_singleton _ _) ?_, hc, rfl,
      fun x hx => .inl (mem_cons_of_mem _ hx), ?_⟩
    · intro k size' hw
      have he : k ≠ l := by
        rintro rfl
        exact nomatch hnone.symm.trans hw
      exact hothers k size' he hw
    · intro x hx
      rw [mem_singleton.mp hx]
      exact ⟨⟨n, hn, hheld⟩, hnew⟩
    · intro hr j q k hq
      rcases hstock hr j q k hq with hold | ⟨-, rfl, hlast''⟩
      · exact .inl ⟨hold, nofun⟩
      · obtain rfl : i = j := Option.some.inj (hlast.symm.trans hlast'')
        exact .inr ⟨size, mem_cons_self ..⟩

/-- A request is served by a pod of the list, or the thread waits for another pod. -/
theorem Inv.allocate_outcome {size : ℕ} {c : Choice} (hs : s.Inv L path b h)
    (hlegal : s.Legal L (.allocate l size c)) (hb : Sized L b (.allocate l size c))
    (hrun : s.step L path (.allocate l size c) = .ok t) :
    t.wanting = update s.wanting l (some size) ∧ t.live = s.live ∨
      t.wanting = s.wanting ∧ ∃ i ptr, s.Of l i ∧ t.live = ⟨i, ptr, size⟩ :: s.live := by
  simp only [Session.step] at hrun
  cases hall : s.allocate L l size c with
  | error e => simp [hall] at hrun
  | ok r =>
    obtain ⟨ptr, g⟩ := r
    simp only [hall, ok_bind, pure_eq, Except.ok.injEq] at hrun
    subst hrun
    by_cases hp : ptr = 0
    · rw [if_pos hp]
      exact .inl ⟨rfl, rfl⟩
    · rw [if_neg hp]
      obtain ⟨h', -, -, hserved, -⟩ := (hs.pager.allocate hlegal.1 hb c).result hall
      obtain ⟨i, -, hl, hlast, -⟩ := hserved hp
      have hlast' : (g.lists l).lastAllocatedPod = some i := hlast
      simp only [grant, hlast']
      exact .inr ⟨trivial, i, ptr, hl, rfl⟩

theorem Inv.addPodAndAllocate (hs : s.Inv L path b h)
    (hlegal : s.Legal L (.addPodAndAllocate l i)) :
    Yields (fun e => s.Fails b e (.addPodAndAllocate l i)) (s.step L path (.addPodAndAllocate l i))
      (fun s' => ∃ h', s.After L path b h (.addPodAndAllocate l i) s' h') := by
  obtain ⟨hw, hn, hst⟩ := hlegal
  obtain ⟨size, hw⟩ := Option.ne_none_iff_exists'.mp hw
  obtain ⟨hl, hz, hb⟩ := hs.waits l size hw
  simp only [step, hw]
  refine (hs.pager.addPodAndAllocate hn hst hl hz hb).bind ?_
  rintro ⟨ptr, g⟩ ⟨h', hg, hj, hheld, hstock⟩
  have hwaits : ∀ k size', update s.wanting l none k = some size' →
      (g.lists k).lastAllocatedPod = none ∧ Asize size' ∧
        ∀ i, (L i).maxIntraPodSize < size' → b := by
    intro k size' hw'
    have he : k ≠ l := by
      rintro rfl
      rw [update_self] at hw'
      cases hw'
    rw [update_of_ne he] at hw'
    rw [hj.lists k he]
    exact hs.waits k size' hw'
  by_cases hp : ptr = 0
  · dsimp only
    rw [if_pos hp]
    refine ⟨h', hs.keep [] hg hj.keeps_all rfl hwaits rfl .nil (fun x hx => nomatch hx), hj, rfl,
      fun x hx => .inl hx, ?_⟩
    intro _ j q n hq
    exact .inl ⟨(hstock j q n hq).resolve_right (fun hc => hc.1 hp), nofun⟩
  · dsimp only
    rw [if_neg hp]
    have hlast : (g.lists l).lastAllocatedPod = some i := hj.last
    simp only [grant, hlast]
    refine ⟨h', hs.keep [⟨i, ptr, size⟩] hg hj.keeps_all rfl hwaits rfl
      (pairwise_singleton _ _) ?_, hj, rfl, fun x hx => .inl (mem_cons_of_mem _ hx), ?_⟩
    · intro x hx
      rw [mem_singleton.mp hx]
      refine ⟨hheld hp, ?_⟩
      -- nothing was allocated on a page without a list
      rintro n ⟨ha, -⟩
      have hlist := (hs.pager.of_live ((h i).isLive_iff.mpr ⟨n, ha⟩)).2
      obtain ⟨k, hk⟩ := hlist
      exact nomatch hn.symm.trans hk
    · intro _ j q n hq
      rcases hstock j q n hq with hold | ⟨-, rfl, rfl⟩
      · exact .inl ⟨hold, nofun⟩
      · exact .inr ⟨size, mem_cons_self ..⟩

theorem Inv.free {a : ℕ} (hs : s.Inv L path b h) (hlegal : s.Legal L (.free i a)) :
    Yields (fun e => s.Fails b e (.free i a)) (s.step L path (.free i a))
      (fun s' => ∃ h', s.After L path b h (.free i a) s' h') := by
  obtain ⟨size, hx⟩ := hlegal
  obtain ⟨n, -, ha, hbuf⟩ := hs.held _ hx
  have hlive := (h i).isLive_iff.mpr ⟨n, ha⟩
  obtain ⟨-, l, hl⟩ := hs.pager.of_live hlive
  refine (hs.pager.free hl hlive hbuf).bind ?_
  rintro ⟨full, g⟩ ⟨h', hg, hc, hlen, hlast, hstock⟩
  refine ⟨h', hs.release hg (fun j => (hc.cells j).toKeeps) rfl ?_ rfl, ⟨l, hl, hc, hlen⟩, rfl, ?_,
    ?_⟩
  · intro k size' hw
    obtain ⟨hk, hz⟩ := hs.waits k size' hw
    refine ⟨?_, hz⟩
    by_cases he : k = l
    · rw [he] at hk ⊢
      exact hlast.trans hk
    · change (g.lists k).lastAllocatedPod = none
      rw [hc.lists k he]
      exact hk
  · intro x hx
    by_cases hxa : x.pod = i ∧ x.ptr = a
    · exact .inr (by rw [hxa.1, hxa.2])
    · exact .inl (mem_filter.mpr ⟨hx, decide_eq_true hxa⟩)
  · intro _ j q n hq
    obtain ⟨halloc, hnot⟩ := (hstock j q n hq).resolve_right (fun hc => hc.1 rfl)
    change q ∉ ((s.note i a).pods j).freeBuffer at hnot
    by_cases hj : j = i
    · rw [hj, Pager.pods_note_self] at hnot
      rw [mem_append, mem_singleton, not_or] at hnot
      refine .inl ⟨⟨halloc, hj ▸ hnot.1⟩, ?_⟩
      intro hop
      exact hnot.2 (Op.free.inj hop).2.symm
    · rw [Pager.pods_note_of_ne hj] at hnot
      refine .inl ⟨⟨halloc, hnot⟩, ?_⟩
      intro hop
      exact hj (Op.free.inj hop).1.symm

theorem Inv.store {a : ℕ} {v : UInt8} (hs : s.Inv L path b h) (hlegal : s.Legal L (.store i a v)) :
    ∃ s', s.step L path (.store i a v) = .ok s' ∧
      ∃ h', s.After L path b h (.store i a v) s' h' := by
  have hset : (s.setPod i ((s.pods i).setMem ((s.pods i).mem.set a v))).pods i =
      (s.pods i).setMem ((s.pods i).mem.set a v) := update_self _ _ _
  have hmem : (s.pods i).state = .local_ ∨ (s.pods i).state = .localPinned :=
    hlegal.elim And.left (fun hc => .inl hc.1)
  have hprot : (s.pods i).prot = .readWrite :=
    ((World.models_resident hmem).mp (hs.pager.pages i)).2.1
  have hboth : Pager.Inv L path b (s.setPod i ((s.pods i).setMem ((s.pods i).mem.set a v))) h ∧
      Pager.OnePod i s.toPager h (s.setPod i ((s.pods i).setMem ((s.pods i).mem.set a v))) h := by
    rcases hlegal with ⟨hst, hn⟩ | ⟨hst, x, hx, rfl, h1, h2⟩
    · exact hs.pager.scribble hn hst
    · obtain ⟨n, ⟨hn, -⟩, ha, -⟩ := hs.held x hx
      exact hs.pager.store ⟨x.ptr, n, ha, h1, by omega⟩ hst
  refine ⟨{ s with toPager := s.setPod i ((s.pods i).setMem ((s.pods i).mem.set a v)) }, ?_, h,
    hs.onePod hboth.1 hboth.2, ⟨hboth.2, ?_, ?_, Pager.filed_congr rfl rfl i⟩, rfl,
    fun x hx => .inl hx, fun _ j q n hq => .inl ⟨(hboth.2.keeps_all j).spares q n hq, nofun⟩⟩
  · simp only [step, Pager.store, hprot, ne_eq, not_true_eq_false, if_false, ok_bind,
      pure_eq]
  · rw [hset]
    rfl
  · rw [hset]
    rfl

theorem Inv.after_onePod {op : Op} {g : Pager} (hs : s.Inv L path b h)
    (hg : Pager.Inv L path b g h') (ho : Pager.OnePod i s.toPager h g h')
    (hop : ∀ i a, op ≠ .free i a) (hdid : s.Did b h g h' op) :
    s.After L path b h op { s with toPager := g, benched := s.benchedAfter op } h' := by
  refine ⟨hs.onePod hg ho, hdid, rfl, fun x hx => .inl hx, ?_⟩
  intro _ j q n hq
  exact .inl ⟨(ho.keeps_all j).spares q n hq, hop j q⟩

/-- Every legal operation that swaps out in order keeps the invariant, or stops in one of the
ways that are named. -/
theorem Inv.step {op : Op} (hinj : Injective path) (hs : s.Inv L path b h)
    (hlegal : s.Legal L op) (hb : Sized L b op) (hok : s.Orderly op) :
    Yields (fun e => s.Fails b e op) (s.step L path op)
      (fun s' => ∃ h', s.After L path b h op s' h') := by
  cases op with
  | allocate l size c => exact hs.allocate hlegal hb
  | addPodAndAllocate l i => exact hs.addPodAndAllocate hlegal
  | free i a => exact hs.free hlegal
  | trim l c tryLock =>
    refine (hs.pager.trim c tryLock).bind ?_
    rintro g ⟨hg, hc, hlast, hstock⟩
    refine ⟨h, hs.called hg hc hlast, hc, rfl, fun x hx => .inl hx, ?_⟩
    intro _ j q n hq
    exact .inl ⟨(hstock j q n hq).resolve_right (fun hc => hc.1 rfl), nofun⟩
  | pickPodToEvict i isFree localCopy =>
    refine (hs.pager.pickPodToEvict hinj hok hlegal).bind ?_
    rintro g ⟨h', hg, ho, hev⟩
    exact ⟨h', hs.after_onePod hg ho (by simp) ⟨ho, hev⟩⟩
  | asyncSwapOutPod i localCopy =>
    refine (hs.pager.asyncSwapOutPod hinj hok hlegal).bind ?_
    rintro g ⟨h', hg, ho, hev⟩
    exact ⟨h', hs.after_onePod hg ho (by simp) ⟨ho, hev⟩⟩
  | activatePod i f =>
    refine Yields.weaken (fun e he => or_assoc.mp he) ((hs.pager.activatePod hinj hlegal).bind ?_)
    rintro g ⟨h', hg, ho, hact⟩
    exact ⟨h', hs.after_onePod hg ho (by simp) ⟨ho, hact⟩⟩
  | prefetchPod i f =>
    obtain ⟨g, hrun, h', hg, ho, hpre⟩ := hs.pager.prefetchPod hlegal
    refine .of_ok (a := { s with toPager := g }) ?_
      ⟨h', hs.after_onePod hg ho (by simp) ⟨ho, hpre⟩⟩
    simp only [Session.step, hrun, ok_bind, pure_eq]
  | addPodToBuffer i f =>
    refine (hs.pager.addPodToBuffer hinj hlegal).bind ?_
    rintro g ⟨hg, ho, hst⟩
    exact ⟨h, hs.after_onePod hg ho (by simp) ⟨ho, hst, hlegal⟩⟩
  | trimFreePage i =>
    obtain ⟨g, hrun, hg, ho, hst, hin⟩ := hs.pager.trimFreePage hlegal
    refine .of_ok (a := { s with toPager := g }) ?_
      ⟨h, hs.after_onePod hg ho (by simp) ⟨ho, hst, hin, ?_⟩⟩
    · simp only [Session.step, hrun, ok_bind, pure_eq]
    · refine iff_of_false ?_ (Pager.not_filed_of_unlisted hlegal)
      exact Pager.not_filed_of_unlisted (ho.home ▸ hlegal)
  | store i a v =>
    obtain ⟨s', hrun, hrest⟩ := hs.store hlegal
    exact .of_ok hrun hrest

/-- The invariant holds in every orderly run. -/
theorem Run.inv {ok : Session → Op → Prop} (hinj : Injective path)
    (hok : ∀ s op, ok s op → s.Orderly op ∧ Sized L b op) (hs : Run L path ok s) :
    ∃ h, s.Inv L path b h := by
  induction hs with
  | start => exact ⟨fun i => .fresh (L i), inv_new (fun _ => rfl)⟩
  | step _ hlegal hstep run ih =>
    obtain ⟨h, hi⟩ := ih
    obtain ⟨horder, hb⟩ := hok _ _ hstep
    obtain ⟨h', ha⟩ := (hi.step hinj hlegal hb horder).result run
    exact ⟨h', ha.inv⟩

theorem Run.mono {ok ok' : Session → Op → Prop} (hok : ∀ s op, ok s op → ok' s op)
    (hs : Run L path ok s) : Run L path ok' s := by
  induction hs with
  | start => exact .start
  | step _ hlegal hstep run ih => exact .step ih hlegal (hok _ _ hstep) run

/-! ## Runs on given pods -/

variable (L path) in
/-- The session after an operation that returns. -/
def next (s : Session) (op : Op) : Session :=
  match s.step L path op with
  | .ok s' => s'
  | .error _ => s

variable (L path) in
/-- The way in which an operation stops. -/
def fault (s : Session) (op : Op) : Option Fault :=
  match s.step L path op with
  | .ok _ => none
  | .error e => some e

theorem fault_eq_some {op : Op} {e : Fault} :
    s.fault L path op = some e ↔ s.step L path op = .error e := by
  rw [fault]
  cases s.step L path op <;> simp

theorem Run.next {ok : Session → Op → Prop} {o : Op} (hs : Run L path ok s) (hlegal : s.Legal L o)
    (hok : ok s o) (hrun : (s.step L path o).isOk = true) : Run L path ok (s.next L path o) := by
  refine .step hs hlegal hok ?_
  rw [Session.next]
  cases hr : s.step L path o with
  | ok s' => rfl
  | error e => simp [hr, Except.isOk, Except.toBool] at hrun

/-- Pages of 4096 bytes. -/
def samplePages : ℕ → Layout := fun _ => Heap.Session.sampleLayout

/-- Every lock is free and sets are walked as they are. -/
def sampleChoice : Choice := ⟨id, fun _ => .refl _, fun _ => true, 0⟩

def sampleFetch : Fetch := ⟨⟨[], fun _ => 0, .broken⟩, none⟩

def sampleWaiting : Session :=
  (new.next samplePages (swapFile "swap") (.addPodToBuffer 0 sampleFetch)).next samplePages
    (swapFile "swap") (.allocate 0 64 sampleChoice)

/-- Pod 0 has served the request. -/
def sampleServed : Session :=
  sampleWaiting.next samplePages (swapFile "swap") (.addPodAndAllocate 0 0)

theorem sampleServed_run (ok : Session → Op → Prop)
    (hok : ∀ s, ok s (.addPodToBuffer 0 sampleFetch) ∧ ok s (.allocate 0 64 sampleChoice) ∧
      ok s (.addPodAndAllocate 0 0)) : Run samplePages (swapFile "swap") ok sampleServed := by
  have h0 : Run samplePages (swapFile "swap") ok new := .start
  have h1 := h0.next (o := .addPodToBuffer 0 sampleFetch) rfl (hok _).1 (by decide)
  have h2 := h1.next (o := .allocate 0 64 sampleChoice) ⟨⟨by decide, by decide⟩, rfl⟩ (hok _).2.1
    (by decide)
  exact h2.next (o := .addPodAndAllocate 0 0)
    ⟨by decide, by decide, by decide⟩ (hok _).2.2 (by decide)

end Session

end Remon
