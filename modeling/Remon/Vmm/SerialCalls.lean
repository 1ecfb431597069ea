import Remon.Vmm.Contents
import Remon.Vmm.Contract

/-! # The calls of one thread

`remonMalloc`, `remonFree` and the accesses of a thread to its blocks, from their start to their
end and with no command of another thread in between. An access to a page that is not mapped
goes to the handler of the fault, which brings the page in.
-/

namespace Remon
open Function Lib Heap Fault List

namespace Manager

/-! ## The calls -/

section Calls

variable (c : Setup) (path : ℕ → String) (net : Manager → ℕ → Fetch) (m : Manager)

/-- The byte at an address, wherever its page is. -/
def byte (a : ℕ) : UInt8 := m.byteAt c.L path (c.getResponsiblePod a) a

/-- What a call of `remonMalloc` meets: the list of its thread for the size, the locks that it
finds, the page that `getBufferedPod` returns, and the arena of the thread. -/
structure Caller where
  list : ℕ
  choice : Choice
  newPod : ℕ
  arena : ℕ

/-- The block that a request got; none is the null pointer. -/
def newPtr (m' : Manager) : ℕ :=
  match m'.live.take (m'.live.length - m.live.length) with
  | [] => 0
  | x :: _ => x.ptr

/-- The rounds of the loop for the block at `p`. -/
def hugePages (p : ℕ) : ℕ → Manager → Except Fault Manager
  | 0, m => .ok m
  | n + 1, m =>
    match m.callAt p with
    | none => .error .undefined
    | some x => do
      let m ← m.step c path (.hugePage p (net m x.next))
      hugePages p n m

def hugeMalloc (k size : ℕ) : Except Fault (ℕ × Manager) := do
  let m' ← m.step c path (.hugeMalloc k size)
  match m'.setting.take (m'.setting.length - m.setting.length) with
  | [] => return (0, m')
  | x :: _ =>
    match m'.tagOf c x.head with
    | none => .error .undefined
    | some t => do
      let m' ← hugePages c path net x.head t.globalSize m'
      let m' ← m'.step c path (.hugeReturn x.head)
      return ((c.L x.head).payloadStart, m')

def remonMalloc (q : Caller) (size : ℕ) : Except Fault (ℕ × Manager) :=
  if isSmall c.pageSize size = false then m.hugeMalloc c path net q.arena size
  else do
    let m' ← m.step c path (.remonMalloc q.list size q.choice)
    if m'.wanting q.list = none then return (m.newPtr m', m')
    else
      let m'' ← m'.step c path (.getBufferedPod q.list q.newPod)
      return (m'.newPtr m'', m'')

def remonFree (addr : ℕ) : Except Fault Manager :=
  let i := c.getResponsiblePod addr
  if (c.L i).payloadStart = addr then m.step c path (.remonFree addr)
  else do
    let (full, _) ← m.toPager.free c.L i addr
    let m' ← m.step c path (.remonFree addr)
    if full then m'.step c path (.activatePod i (net m' i)) else return m'

/-- The page of `addr` is brought in if it is not mapped; outside of the pages that were created
there is nothing to bring in. -/
def access (addr : ℕ) : Except Fault Manager :=
  let i := c.getResponsiblePod addr
  if addr < c.base ∨ c.base + c.podsSize * c.pageSize ≤ addr ∨ m.tagOf c i = none then
    .error .undefined
  else if (m.pods i).prot = .readWrite then .ok m
  else m.step c path (.activatePod i (net m i))

def copyByte (dst src : ℕ) : Except Fault Manager := do
  let m ← m.access c path net src
  let v := (m.pods (c.getResponsiblePod src)).mem src
  let m ← m.access c path net dst
  m.step c path (.store (c.getResponsiblePod dst) dst v)

def memcpy (dst src : ℕ) : ℕ → Manager → Except Fault Manager
  | 0, m => .ok m
  | n + 1, m => do
    let m ← memcpy dst src n m
    m.copyByte c path net (dst + n) (src + n)

/-- The bytes that the block at `addr` has for its owner: the pages of a huge block, and of a small
one what is between its header and its footer. -/
def room (addr : ℕ) : ℕ :=
  let i := c.getResponsiblePod addr
  if (c.L i).payloadStart = addr then
    match m.tagOf c i with
    | none => 0
    | some t => t.globalSize * c.pageSize
  else getBlockSize (m.pods i).mem addr - overhead

/-- The nodes send what they hold and answer in words that can be read. -/
def Answers : Prop :=
  ∀ m h i, Inv c path False m h → m.Honest i (net m i) ∧
    ∀ e, replyCode (net m i).reply ≠ some (.error e)

/-- A node that sends its entry byte by byte. -/
def answer (m : Manager) (i : ℕ) : Fetch :=
  ⟨⟨((m.pods i).landlordClient.bind (m.nodes i)).getD [], fun _ => 1, .broken⟩,
    some (wireText .freePodOk)⟩

end Calls

variable {c : Setup} {path : ℕ → String} {net : Manager → ℕ → Fetch} {m m' : Manager} {cmd : Cmd}
  {op : Op} {h h' : ∀ i, AbsHeap (c.L i)} {a i : ℕ} {r : ℕ × ℕ}

/-- The page of a pod with a landlord is in an entry of its node. -/
theorem answer_answers : Answers c path answer := by
  intro m h i hm
  have hreply : ∀ e, replyCode (some (wireText .freePodOk)) ≠ some (.error e) := by
    intro e he
    cases he
  refine ⟨?_, hreply⟩
  intro client hl
  have hentry : ∃ bytes, m.nodes i client = some bytes := by
    obtain ⟨w, -, hk⟩ := hm.session.pager.pages i
    cases hk with
    | init _ _ _ hl' => exact absurd (hl.symm.trans hl') (by simp)
    | stands hst =>
      cases hst with
      | resident _ _ _ _ hl' => exact absurd (hl.symm.trans hl') (by simp)
      | disk _ _ _ _ hl' => exact absurd (hl.symm.trans hl') (by simp)
      | @remote client' _ _ _ hl' hn =>
        obtain rfl : client = client' := Option.some.inj (hl.symm.trans hl')
        have hn' : m.nodes i client = update (fun _ => none) client _ client :=
          congrFun hn client
        rw [update_self] at hn'
        exact ⟨_, hn'⟩
  obtain ⟨bytes, hb⟩ := hentry
  simp [answer, hl, hb]

/-! ## The bytes of the callers -/

/-- The page of a byte of a run of pages is one of them. -/
theorem Spans.covers {x : ℕ × ℕ} (hs : Spans c r x) (h1 : r.1 ≤ a) (h2 : a < r.1 + r.2) :
    Arena.Covers x (c.getResponsiblePod a) := by
  have hpos : 0 < c.pageSize := Setup.pageSize_pos
  obtain ⟨hlow, hhigh⟩ := hs
  constructor
  · rw [Setup.getResponsiblePod, Nat.le_div_iff_mul_le hpos]
    omega
  · rw [Setup.getResponsiblePod, Nat.div_lt_iff_lt_mul hpos]
    omega

/-- An address of the region is in its page. -/
theorem inPage (h1 : c.base ≤ a) (h2 : a < c.base + c.podsSize * c.pageSize) :
    c.getResponsiblePod a < c.podsSize ∧
      (c.L (c.getResponsiblePod a)).payloadStart ≤ a ∧
      a < (c.L (c.getResponsiblePod a)).payloadEnd := by
  have hpos : 0 < c.pageSize := Setup.pageSize_pos
  have hlt : c.getResponsiblePod a < c.podsSize := by
    rw [Setup.getResponsiblePod, Nat.div_lt_iff_lt_mul hpos]
    omega
  have hle := Nat.div_mul_le_self (a - c.base) c.pageSize
  have hgt := Nat.lt_div_mul_add hpos (a := a - c.base)
  refine ⟨hlt, ?_, ?_⟩
  · rw [c.start _ hlt, Setup.getResponsiblePod]
    omega
  · rw [PageSpan.payloadEnd, c.start _ hlt, c.size, Setup.getResponsiblePod]
    omega

namespace Inv

variable {b : Prop} (hm : m.Inv c path b h)
include hm

/-- The block on the page of a byte that a caller owns. -/
theorem owner (hr : r ∈ m.allocations c) (h1 : r.1 ≤ a) (h2 : a < r.1 + r.2) :
    (∃ x ∈ m.live, smallBytes x = r ∧ x.pod = c.getResponsiblePod a) ∨
      ∃ z ∈ m.huge, hugeBytes c z = r ∧ Arena.Covers z.block (c.getResponsiblePod a) := by
  rcases mem_append.mp hr with hr | hr
  · obtain ⟨x, hx, rfl⟩ := mem_map.mp hr
    obtain ⟨hlow, hhigh⟩ := (hm.spans_small hx).covers h1 h2
    exact .inl ⟨x, hx, rfl, le_antisymm hlow (Nat.lt_succ_iff.mp hhigh)⟩
  · obtain ⟨z, hz, rfl⟩ := mem_map.mp hr
    exact .inr ⟨z, hz, rfl, (hm.spans_huge hz).covers h1 h2⟩

theorem guarded (hr : r ∈ m.allocations c) (h1 : r.1 ≤ a) (h2 : a < r.1 + r.2) :
    m.Guarded h (c.getResponsiblePod a) a := by
  obtain ⟨-, hlow, hhigh⟩ := hm.allocations_placed r hr
  rcases hm.owner hr h1 h2 with ⟨x, hx, rfl, hpod⟩ | ⟨z, hz, rfl, hcov⟩
  · obtain ⟨n, ⟨hn, -⟩, hheld⟩ := hm.session.held x hx
    rw [hpod] at hheld
    unfold smallBytes overhead dsize at h1 h2
    dsimp only at h1 h2
    exact .inl ⟨x.ptr, n, hheld, h1, by omega⟩
  · refine .inr ⟨hm.unlisted_of_huge (mem_append_left _ hz) hcov, ?_⟩
    exact (inPage (hlow.trans h1) (h2.trans_le hhigh)).2

end Inv

/-! ## One command of a call -/

def Serving : Cmd → Prop
  | .remonMalloc _ _ _ | .getBufferedPod _ _ | .hugeMalloc _ _ | .hugePage _ _ | .hugeReturn _
  | .remonFree _ | .activatePod _ _ => True
  | _ => False

theorem serves_of_serving (hcmd : Serving cmd) (hop : m.opOf c cmd = some op) :
    Session.Serves op := by
  cases cmd with
  | remonMalloc l size ch =>
    obtain rfl := Option.some.inj hop
    trivial
  | getBufferedPod l i =>
    obtain rfl := Option.some.inj hop
    trivial
  | hugePage p f =>
    simp only [opOf] at hop
    split at hop
    · cases hop
    · split at hop
      · obtain rfl := Option.some.inj hop
        trivial
      · cases hop
  | remonFree addr =>
    simp only [opOf] at hop
    split at hop
    · cases hop
    · obtain rfl := Option.some.inj hop
      trivial
  | activatePod i f =>
    obtain rfl := Option.some.inj hop
    trivial
  | hugeMalloc k size => cases hop
  | hugeReturn p => cases hop
  | _ => exact hcmd.elim

/-- A release to a list is that of the address. -/
theorem remonFree_of_opOf (hop : m.opOf c cmd = some (.free i a)) :
    cmd = .remonFree a ∧ i = c.getResponsiblePod a := by
  cases cmd with
  | hugePage p f =>
    simp only [opOf] at hop
    split at hop
    · cases hop
    · split at hop <;> cases hop
  | remonFree addr =>
    simp only [opOf] at hop
    split at hop
    · cases hop
    · obtain ⟨rfl, rfl⟩ := Op.free.inj (Option.some.inj hop)
      exact ⟨rfl, rfl⟩
  | addPodToBuffer j tryLock f =>
    simp only [opOf] at hop
    split at hop <;> cases hop
  | pickPodToEvict j localCopy =>
    obtain ⟨t, -, hc⟩ := Option.map_eq_some_iff.mp hop
    cases hc
  | _ => cases hop

theorem huge_remonMalloc {l size : ℕ} {ch : Choice}
    (run : m.step c path (.remonMalloc l size ch) = .ok m') : m'.huge = m.huge := by
  obtain ⟨t, -, hm'⟩ := of_bind_ok run
  rw [← Except.ok.inj hm']

theorem huge_getBufferedPod {l : ℕ} (run : m.step c path (.getBufferedPod l i) = .ok m') :
    m'.huge = m.huge := by
  obtain ⟨t, -, hm'⟩ := of_bind_ok run
  rw [← Except.ok.inj hm']

/-- The arena had a block for the request, and the call is in its loop. -/
theorem hugeMalloc_frame {k size : ℕ} (run : m.step c path (.hugeMalloc k size) = .ok m') :
    m'.live = m.live ∧ m'.huge = m.huge ∧ (m'.setting = m.setting ∨
      ∃ p b, m'.setting = ⟨p, c.numPageNeeded size, size, p⟩ :: m.setting ∧
        (m.arenas k).arena.allocateNPages (c.region k) (c.numPageNeeded size) =
          .ok (some p, b)) := by
  obtain ⟨d, hd, hm'⟩ := of_bind_ok run
  obtain rfl := Except.ok.inj hm'
  obtain ⟨⟨ptr, b⟩, hrun, hd⟩ := of_bind_ok hd
  cases ptr with
  | none =>
    obtain rfl := Except.ok.inj hd
    exact ⟨rfl, rfl, .inl rfl⟩
  | some p =>
    obtain rfl := Except.ok.inj hd
    exact ⟨rfl, rfl, .inr ⟨p, b, rfl, hrun⟩⟩

/-- What a round of the loop of `hugeMalloc` leaves as it is. -/
theorem hugePage_frame {p : ℕ} {f : Fetch} {z : HugeCall} (hz : m.callAt p = some z)
    (run : m.step c path (.hugePage p f) = .ok m') : m'.live = m.live ∧ m'.huge = m.huge ∧
      m'.callAt p = some { z with next := z.next + 1 } := by
  have hhead := (Holdings.mem_of_callAt hz).2
  simp only [step, hz] at run
  obtain ⟨d, henter, run⟩ := of_bind_ok run
  obtain ⟨t, ht, run⟩ := of_bind_ok run
  obtain ⟨d', hleave, hm'⟩ := of_bind_ok run
  obtain rfl := Except.ok.inj hm'
  obtain ⟨a, b, -, -, rfl⟩ := Holdings.Inv.page_cases henter hleave
  refine ⟨?_, rfl, ?_⟩
  · rw [enterLocal] at ht
    split at ht
    · obtain ⟨g, -, ht⟩ := of_bind_ok ht
      obtain rfl := Except.ok.inj ht
      rfl
    · obtain rfl := Except.ok.inj ht
      rfl
  · exact List.find?_cons_of_pos (by simpa using hhead)

/-- The huge blocks stay, but for one that is freed. -/
theorem huge_of_serving {z : HugeCall} (hcmd : Serving cmd) (run : m.step c path cmd = .ok m')
    (hz : z ∈ m.huge) (hne : cmd ≠ .remonFree (hugeBytes c z).1) : z ∈ m'.huge := by
  cases cmd with
  | remonMalloc l size ch =>
    rw [huge_remonMalloc run]
    exact hz
  | getBufferedPod l i =>
    rw [huge_getBufferedPod run]
    exact hz
  | hugeMalloc k size =>
    rw [(hugeMalloc_frame run).2.1]
    exact hz
  | hugePage p f =>
    cases hcall : m.callAt p with
    | none => simp [step, hcall] at run
    | some x =>
      rw [(hugePage_frame hcall run).2.1]
      exact hz
  | hugeReturn p =>
    simp only [step] at run
    split at run
    · cases run
    · obtain rfl := Except.ok.inj run
      exact mem_cons_of_mem _ hz
  | remonFree addr =>
    simp only [step] at run
    split at run
    · next hp =>
      obtain ⟨d, hd, hm'⟩ := of_bind_ok run
      obtain rfl := Except.ok.inj hm'
      obtain ⟨t, -, hd⟩ := of_bind_ok hd
      obtain ⟨b, -, hd⟩ := of_bind_ok hd
      obtain rfl := Except.ok.inj hd
      refine mem_filter.mpr ⟨hz, decide_eq_true ?_⟩
      intro hc
      refine hne (congrArg Cmd.remonFree (hp.symm.trans ?_))
      rw [hugeBytes, hc]
    · rw [toHoldings_call run]
      exact hz
  | activatePod i f =>
    rw [toHoldings_call run]
    exact hz
  | _ => exact hcmd.elim

variable (c path) in
/-- The blocks of the callers are there and have their bytes, but for those that are gone; and no
page lost its tail buffer. -/
structure Carries (gone : ℕ → Prop) (m m' : Manager) : Prop where
  kept : ∀ r ∈ m.allocations c, ¬ gone r.1 → r ∈ m'.allocations c
  bytes : ∀ r ∈ m.allocations c, ¬ gone r.1 → ∀ a, r.1 ≤ a → a < r.1 + r.2 →
    m'.byte c path a = m.byte c path a
  fetchable : ∀ i, m'.Fetchable i ↔ m.Fetchable i

theorem Carries.refl (gone : ℕ → Prop) (m : Manager) : Carries c path gone m m :=
  ⟨fun _ hr _ => hr, fun _ _ _ _ _ _ => rfl, fun _ => Iff.rfl⟩

theorem Carries.trans {gone : ℕ → Prop} {m'' : Manager} (hc : Carries c path gone m m')
    (hc' : Carries c path gone m' m'') : Carries c path gone m m'' where
  kept r hr hg := hc'.kept r (hc.kept r hr hg) hg
  bytes r hr hg a h1 h2 :=
    (hc'.bytes r (hc.kept r hr hg) hg a h1 h2).trans (hc.bytes r hr hg a h1 h2)
  fetchable i := (hc'.fetchable i).trans (hc.fetchable i)

theorem Carries.mono {gone gone' : ℕ → Prop} (hc : Carries c path gone m m')
    (hg : ∀ x, gone x → gone' x) : Carries c path gone' m m' :=
  ⟨fun r hr hn => hc.kept r hr (mt (hg _) hn), fun r hr hn => hc.bytes r hr (mt (hg _) hn),
    hc.fetchable⟩

namespace Inv

variable (hm : m.Inv c path False h)
include hm

/-- The byte of a block that is not freed is left alone. -/
theorem leaves (hcmd : Serving cmd) (hlegal : m.Legal c cmd) (hop : m.opOf c cmd = some op)
    (hr : r ∈ m.allocations c) (hne : cmd ≠ .remonFree r.1) (h1 : r.1 ≤ a) (h2 : a < r.1 + r.2) :
    m.toSession.Leaves h (c.getResponsiblePod a) a op := by
  have hserves := serves_of_serving hcmd hop
  cases op with
  | addPodAndAllocate l j =>
    obtain rfl := (opOf_request hop).2 l j rfl
    obtain ⟨hsmall, hn, -⟩ := hm.homes.buffered j hlegal.2
    rintro rfl
    rcases hm.owner hr h1 h2 with ⟨x, hx, -, hpod⟩ | ⟨z, hz, -, hcov⟩
    · obtain ⟨k, hk⟩ := hm.listed_of_live hx
      rw [Pager.Of, hpod, hn] at hk
      cases hk
    · exact hm.holdings.not_small_of_huge (mem_append_left _ hz) hcov hsmall
  | free j x =>
    obtain ⟨rfl, rfl⟩ := remonFree_of_opOf hop
    rcases hm.owner hr h1 h2 with ⟨y, hy, rfl, hpod⟩ | ⟨z, hz, -, hcov⟩
    · obtain ⟨n, ⟨hn, -⟩, ha, hbuf⟩ := hm.session.held y hy
      have hnot : y.ptr ∉ ((m.note (c.getResponsiblePod x) x).pods y.pod).freeBuffer := by
        by_cases hj : y.pod = c.getResponsiblePod x
        · rw [hj, Pager.pods_note_self, mem_append, mem_singleton, not_or]
          refine ⟨hj ▸ hbuf, ?_⟩
          rintro rfl
          exact hne rfl
        · rw [Pager.pods_note_of_ne hj]
          exact hbuf
      unfold smallBytes overhead dsize at h1 h2
      dsimp only at h1 h2
      rw [← hpod]
      exact .inl ⟨y.ptr, n, ⟨ha, hnot⟩, h1, by omega⟩
    · rcases hm.guarded hr h1 h2 with ⟨q, n, hq, -⟩ | hg
      · have hn := hm.unlisted_of_huge (mem_append_left _ hz) hcov
        obtain ⟨-, l, hl⟩ := hm.session.pager.of_live ((h _).isLive_iff.mpr ⟨n, hq.1⟩)
        rw [Pager.Of, hn] at hl
        cases hl
      · exact .inr hg
  | _ => exact hserves

/-- One command of a call of the thread. -/
theorem serve (hinj : Injective path) (hcmd : Serving cmd) (hlegal : m.Legal c cmd)
    (hb : Sized c False cmd) (run : m.step c path cmd = .ok m') :
    ∃ h', m'.Inv c path False h' ∧ Carries c path (fun x => cmd = .remonFree x) m m' := by
  obtain ⟨h', hm', hcase⟩ := hm.step hinj hlegal hb run
  have hmoves := (step_cases run).1
  refine ⟨h', hm', ?_⟩
  -- a command without an operation leaves the session as it is
  cases hop : m.opOf c cmd with
  | none =>
    rw [hop] at hcase
    obtain ⟨heq, -⟩ := hcase
    refine ⟨?_, ?_, ?_⟩
    · intro r hr hne
      rcases mem_append.mp hr with hr | hr
      · exact mem_append_left _ (by rwa [heq])
      · obtain ⟨z, hz, rfl⟩ := mem_map.mp hr
        exact mem_append_right _ (mem_map_of_mem (huge_of_serving hcmd run hz hne))
    · intro r _ _ x _ _
      rw [byte, byte, heq]
    · intro i
      rw [heq]
  | some op =>
    rw [hop] at hcase hmoves
    have hserves := serves_of_serving hcmd hop
    obtain ⟨hleg, -, hsized⟩ := hm.legal_op hlegal hb hop
    refine ⟨?_, ?_, fun i => hcase.fetchable hserves hleg hmoves⟩
    · intro r hr hne
      rcases mem_append.mp hr with hr | hr
      · obtain ⟨x, hx, rfl⟩ := mem_map.mp hr
        refine mem_append_left _ (mem_map_of_mem ?_)
        refine (hcase.live x hx).resolve_right ?_
        rintro rfl
        exact hne (remonFree_of_opOf hop).1
      · obtain ⟨z, hz, rfl⟩ := mem_map.mp hr
        exact mem_append_right _ (mem_map_of_mem (huge_of_serving hcmd run hz hne))
    · intro r hr hne x h1 h2
      exact hm.session.bytes_step hinj hleg hsized hcase hmoves (hm.guarded hr h1 h2)
        (hm.leaves hcmd hlegal hop hr hne h1 h2)

/-- A command that frees nothing. -/
theorem carry (hinj : Injective path) (run : m.step c path cmd = .ok m')
    (hlegal : m.Legal c cmd) (hb : Sized c False cmd) (hcmd : Serving cmd)
    (hfree : ∀ x, cmd ≠ .remonFree x) :
    ∃ h', m'.Inv c path False h' ∧ Carries c path (fun _ => False) m m' := by
  obtain ⟨h', hm', hcarry⟩ := hm.serve hinj hcmd hlegal hb run
  exact ⟨h', hm', hcarry.mono hfree⟩

end Inv

/-! ## Accesses -/

variable (c) in
/-- The byte belongs to somebody, and its page can be brought in. -/
structure Reaches (m : Manager) (h : ∀ i, AbsHeap (c.L i)) (a : ℕ) : Prop where
  inside : c.base ≤ a ∧ a < c.base + c.podsSize * c.pageSize
  guarded : m.Guarded h (c.getResponsiblePod a) a
  owner : (∃ x ∈ m.live, x.pod = c.getResponsiblePod a) ∨
    ∃ z ∈ m.huge, Arena.Covers z.block (c.getResponsiblePod a)
  fetchable : m.Fetchable (c.getResponsiblePod a)

variable (c path) in
/-- Faults and writes came between: the blocks are the same, and pages only came in. -/
structure Passes (m : Manager) (h : ∀ i, AbsHeap (c.L i)) (m' : Manager)
    (h' : ∀ i, AbsHeap (c.L i)) : Prop where
  inv : m'.Inv c path False h'
  live : m'.live = m.live
  holdings : m'.toHoldings = m.toHoldings
  guarded : ∀ i a, m.Guarded h i a → m'.Guarded h' i a
  fetchable : ∀ i, m'.Fetchable i ↔ m.Fetchable i
  resident : ∀ i, m.Resident i → m'.Resident i

namespace Passes

variable {m'' : Manager} {h'' : ∀ i, AbsHeap (c.L i)}

theorem refl (hm : m.Inv c path False h) : Passes c path m h m h :=
  ⟨hm, rfl, rfl, fun _ _ hg => hg, fun _ => Iff.rfl, fun _ hr => hr⟩

theorem trans (hp : Passes c path m h m' h') (hp' : Passes c path m' h' m'' h'') :
    Passes c path m h m'' h'' where
  inv := hp'.inv
  live := hp'.live.trans hp.live
  holdings := hp'.holdings.trans hp.holdings
  guarded i a hg := hp'.guarded i a (hp.guarded i a hg)
  fetchable i := (hp'.fetchable i).trans (hp.fetchable i)
  resident i hr := hp'.resident i (hp.resident i hr)

theorem reaches (hp : Passes c path m h m' h') (ha : m.Reaches c h a) : m'.Reaches c h' a where
  inside := ha.inside
  guarded := hp.guarded _ _ ha.guarded
  owner := by
    rw [hp.live, hp.holdings]
    exact ha.owner
  fetchable := (hp.fetchable _).mpr ha.fetchable

theorem allocations (hp : Passes c path m h m' h') : m'.allocations c = m.allocations c := by
  rw [Manager.allocations, Manager.allocations, hp.live, hp.holdings]

end Passes

/-- A page of a block was created. -/
theorem Inv.created {b : Prop} (hm : m.Inv c path b h) (ho : (∃ x ∈ m.live, x.pod = i) ∨
    ∃ z ∈ m.huge, Arena.Covers z.block i) : m.tagOf c i ≠ none := by
  rcases ho with ⟨x, hx, rfl⟩ | ⟨z, hz, h1, h2⟩
  · intro hc
    have hheader := hm.holdings.header (hm.page_of_live hx)
    rw [Holdings.tagOf] at hc
    simp [Arena.State.tag, hc] at hheader
  · have hmark := hm.holdings.calls z (mem_append_left _ hz)
    obtain ⟨t, ht, -⟩ := hmark.used i h1 (by rwa [hm.holdings.done z hz])
    rw [ht]
    simp

/-- A thread that uses a byte of its block finds it in memory. -/
theorem Inv.access (hinj : Injective path) (hnet : Answers c path net)
    (hm : m.Inv c path False h) (ha : m.Reaches c h a) :
    ∃ m' h', m.access c path net a = .ok m' ∧ Passes c path m h m' h' ∧
      m'.Resident (c.getResponsiblePod a) ∧
      (m'.pods (c.getResponsiblePod a)).prot = .readWrite ∧
      ∀ x, m.Guarded h (c.getResponsiblePod x) x → m'.byte c path x = m.byte c path x := by
  have htag := hm.created ha.owner
  have hcond : ¬ (a < c.base ∨ c.base + c.podsSize * c.pageSize ≤ a ∨
      m.tagOf c (c.getResponsiblePod a) = none) := by
    rw [not_or, not_or, not_lt, not_le]
    exact ⟨ha.inside.1, ha.inside.2, htag⟩
  rw [Manager.access, if_neg hcond]
  set i := c.getResponsiblePod a with hi
  by_cases hprot : (m.pods i).prot = .readWrite
  · rw [if_pos hprot]
    refine ⟨m, h, rfl, .refl hm, Pager.resident_of_not_away ?_, hprot, fun _ _ => rfl⟩
    intro haway
    exact absurd (hprot.symm.trans (hm.session.pager.unmapped i haway)) (by simp)
  · rw [if_neg hprot]
    obtain ⟨hhonest, hreply⟩ := hnet m h i hm
    obtain ⟨g, hrun, -⟩ :=
      hm.session.pager.activatePod_returns hinj hhonest ha.fetchable hreply
    have huse : m.InUse i := ha.owner.imp_right .inr
    have hstep : m.step c path (.activatePod i (net m i)) = .ok { m with
        toSession := ({ m.toSession with toPager := g } : Session).bench (m.unbenches i) i
          false } := by
      simp only [Manager.step, call, Session.step, hrun, ok_bind, pure_eq]
    have hlegal : m.Legal c (.activatePod i (net m i)) := ⟨hhonest, huse⟩
    have hleg : m.toSession.Legal c.L (.activatePod i (net m i)) := hhonest
    obtain ⟨h', hm', hafter⟩ := hm.step hinj hlegal trivial hstep
    have hdid : Pager.OnePod i m.toPager h g h' ∧ Pager.Activated m.toPager g i := hafter.did
    have hres := hdid.2.resident
    refine ⟨_, h', hstep, ⟨hm', rfl, rfl, fun j x hg => hg.onePod hdid.1,
      fun j => hafter.fetchable trivial hleg (step_cases hstep).1, ?_⟩, .inr hres, ?_, ?_⟩
    · intro j hj
      by_cases hji : j = i
      · rw [hji]
        exact .inr hres
      · have hpod : g.pods j = m.pods j := hdid.1.pods_of_ne hji
        change g.Resident j
        rw [Pager.Resident, hpod]
        exact hj
    · have hpages := hm'.session.pager.pages i
      exact ((World.models_resident hres).mp hpages).2.1
    · intro x hx
      exact hm.session.bytes_step hinj hleg trivial hafter (step_cases hstep).1 hx trivial

theorem Inv.fetchable_of_access {b : Prop} (hm : m.Inv c path b h)
    (run : m.access c path net a = .ok m') : m.Fetchable (c.getResponsiblePod a) := by
  simp only [Manager.access] at run
  split at run
  · cases run
  · split at run
    · next hprot =>
      intro hs
      have haway : Pager.Away (m.pods (c.getResponsiblePod a)) := by simp [Pager.Away, hs]
      exact absurd (hprot.symm.trans (hm.session.pager.unmapped _ haway)) (by simp)
    · have hmoves : m.toSession.step c.L path (.activatePod (c.getResponsiblePod a)
        (net m (c.getResponsiblePod a))) = .ok m'.toSession := (step_cases run).1
      obtain ⟨g, hrun, -⟩ := of_bind_ok hmoves
      exact Pager.fetchable_of_activatePod hrun

/-- A byte of a block is written. -/
theorem Inv.write {v : UInt8} (hm : m.Inv c path False h) (ha : m.Guarded h i a)
    (hres : m.Resident i) (hprot : (m.pods i).prot = .readWrite) :
    ∃ m', m.step c path (.store i a v) = .ok m' ∧ Passes c path m h m' h ∧
      m'.toPager = m.setPod i ((m.pods i).setMem ((m.pods i).mem.set a v)) := by
  obtain ⟨hinv, hone⟩ := hm.session.pager.store_guarded (v := v) ha hres
  set g := m.setPod i ((m.pods i).setMem ((m.pods i).mem.set a v)) with hg
  have hself : g.pods i = (m.pods i).setMem ((m.pods i).mem.set a v) := update_self _ _ _
  -- the pod has other bytes and is otherwise as it was
  have hpods : ∀ j, (g.pods j).state = (m.pods j).state ∧
      (g.pods j).heap.inited = (m.pods j).heap.inited ∧
      (g.pods j).debugTail = (m.pods j).debugTail := by
    intro j
    by_cases hj : j = i
    · rw [hj, hself]
      exact ⟨rfl, rfl, rfl⟩
    · rw [hone.pods_of_ne hj]
      exact ⟨rfl, rfl, rfl⟩
  refine ⟨{ m with toPager := g }, ?_, ⟨⟨hm.session.onePod hinv hone, ?_, hm.holdings, ?_⟩, rfl,
    rfl, fun j x hx => hx.onePod hone, ?_, ?_⟩, rfl⟩
  · simp only [Manager.step, call, Session.step, Pager.store, hprot, ne_eq, not_true_eq_false,
      if_false, ok_bind, pure_eq]
    rfl
  · intro j l hl hst
    change (g.pods j).heap.inited = true
    rw [(hpods j).2.1]
    refine hm.made j l hl ?_
    rw [← (hpods j).1]
    exact hst
  · refine ⟨hm.homes.listed, hm.homes.fetched, ?_, hm.homes.nodup⟩
    intro j hj
    obtain ⟨h1, h2, h3⟩ := hm.homes.buffered j hj
    exact ⟨h1, h2, (hpods j).1.trans h3⟩
  · intro j
    change ((g.pods j).state = .remoteCache → (g.pods j).debugTail ≠ .deleted) ↔ _
    rw [(hpods j).1, (hpods j).2.2]
    exact Iff.rfl
  · intro j hj
    change g.Resident j
    rw [Pager.Resident, (hpods j).1]
    exact hj

theorem Inv.copyByte {dst src : ℕ} (hinj : Injective path) (hnet : Answers c path net)
    (hm : m.Inv c path False h) (hsrc : m.Reaches c h src) (hdst : m.Reaches c h dst) :
    ∃ m' h', m.copyByte c path net dst src = .ok m' ∧ Passes c path m h m' h' ∧
      m'.Resident (c.getResponsiblePod src) ∧
      ∀ x, m.Guarded h (c.getResponsiblePod x) x →
        m'.byte c path x = if x = dst then m.byte c path src else m.byte c path x := by
  obtain ⟨m₁, h₁, hrun₁, hp₁, hres₁, -, hbytes₁⟩ := hm.access hinj hnet hsrc
  obtain ⟨m₂, h₂, hrun₂, hp₂, hres₂, hprot₂, hbytes₂⟩ :=
    hp₁.inv.access hinj hnet (hp₁.reaches hdst)
  have hp := hp₁.trans hp₂
  set v := (m₁.pods (c.getResponsiblePod src)).mem src with hv
  obtain ⟨m₃, hrun₃, hp₃, hpods⟩ := hp₂.inv.write (v := v)
    (hp₂.reaches (hp₁.reaches hdst)).guarded hres₂ hprot₂
  refine ⟨m₃, h₂, ?_, hp.trans hp₃, hp₃.resident _ (hp₂.resident _ hres₁), ?_⟩
  · simp only [Manager.copyByte, hrun₁, hrun₂, ok_bind]
    exact hrun₃
  · intro x hx
    have hval : v = m.byte c path src := by
      rw [← hbytes₁ src hsrc.guarded, byte, Pager.byteAt_resident hres₁]
    rw [byte, hpods, Pager.byteAt_store hres₂]
    by_cases hxd : x = dst
    · rw [if_pos hxd, if_pos ⟨by rw [hxd], hxd⟩, hval]
    · rw [if_neg hxd, if_neg (fun hc => hxd hc.2)]
      exact (hbytes₂ x (hp₁.guarded _ _ hx)).trans (hbytes₁ x hx)

/-- A copy to bytes that the thread can reach, none of which is copied. -/
theorem Inv.memcpy {dst src n : ℕ} (hinj : Injective path) (hnet : Answers c path net)
    (hm : m.Inv c path False h) (hsrc : ∀ j, j < n → m.Reaches c h (src + j))
    (hdst : ∀ j, j < n → m.Reaches c h (dst + j)) (hapart : Apart (src, n) (dst, n)) :
    ∃ m' h', Manager.memcpy c path net dst src n m = .ok m' ∧ Passes c path m h m' h' ∧
      (0 < n → m'.Resident (c.getResponsiblePod src)) ∧
      ∀ x, m.Guarded h (c.getResponsiblePod x) x → m'.byte c path x =
        if dst ≤ x ∧ x < dst + n then m.byte c path (src + (x - dst)) else m.byte c path x := by
  -- the bytes are copied in order, and those that were copied are never read
  induction n with
  | zero =>
    refine ⟨m, h, rfl, .refl hm, fun hc => absurd hc (Nat.lt_irrefl 0), ?_⟩
    intro x _
    rw [if_neg (by omega)]
  | succ n ih =>
    have hapart' : Apart (src, n) (dst, n) :=
      ((hapart.shrink n.le_succ).symm.shrink n.le_succ).symm
    obtain ⟨m₁, h₁, hrun₁, hp₁, hres₁, hbytes₁⟩ :=
      ih (fun j hj => hsrc j (Nat.lt_succ_of_lt hj)) (fun j hj => hdst j (Nat.lt_succ_of_lt hj))
        hapart'
    obtain ⟨m₂, h₂, hrun₂, hp₂, hres₂, hbytes₂⟩ := hp₁.inv.copyByte hinj hnet
      (hp₁.reaches (hsrc n n.lt_succ_self)) (hp₁.reaches (hdst n n.lt_succ_self))
    refine ⟨m₂, h₂, ?_, hp₁.trans hp₂, ?_, ?_⟩
    · simp only [Manager.memcpy, hrun₁, ok_bind]
      exact hrun₂
    · intro _
      rcases Nat.eq_zero_or_pos n with hn | hn
      · rw [hn, Nat.add_zero] at hres₂
        exact hres₂
      · exact hp₂.resident _ (hres₁ hn)
    · intro x hx
      have hread : m₁.byte c path (src + n) = m.byte c path (src + n) := by
        rw [hbytes₁ _ (hsrc n n.lt_succ_self).guarded, if_neg]
        exact (hapart.shrink n.le_succ).outside (Nat.le_add_right _ _)
          (Nat.add_lt_add_left n.lt_succ_self _)
      rw [hbytes₂ x (hp₁.guarded _ _ hx)]
      by_cases hxn : x = dst + n
      · subst hxn
        rw [if_pos rfl, hread, if_pos (by omega), Nat.add_sub_cancel_left]
      · rw [if_neg hxn, hbytes₁ x hx]
        by_cases hlt : dst ≤ x ∧ x < dst + n
        · rw [if_pos hlt, if_pos (by omega)]
        · rw [if_neg hlt, if_neg (by omega)]

/-- The pages that were read by a copy that has come to its end could be brought in. -/
theorem Inv.fetchable_of_memcpy {dst src n : ℕ} (hinj : Injective path)
    (hnet : Answers c path net) (hm : m.Inv c path False h)
    (hsrc : ∀ j, j < n → m.Fetchable (c.getResponsiblePod (src + j)) → m.Reaches c h (src + j))
    (hdst : ∀ j, j < n → m.Reaches c h (dst + j)) (hapart : Apart (src, n) (dst, n))
    (run : Manager.memcpy c path net dst src n m = .ok m') :
    ∀ j, j < n → m.Fetchable (c.getResponsiblePod (src + j)) := by
  induction n generalizing m' with
  | zero => exact fun j hj => absurd hj (Nat.not_lt_zero j)
  | succ n ih =>
    obtain ⟨m₁, hrun, hbyte⟩ := of_bind_ok run
    have hapart' : Apart (src, n) (dst, n) :=
      ((hapart.shrink n.le_succ).symm.shrink n.le_succ).symm
    have hsrc' := fun j (hj : j < n) => hsrc j (Nat.lt_succ_of_lt hj)
    have hdst' := fun j (hj : j < n) => hdst j (Nat.lt_succ_of_lt hj)
    have hbefore := ih hsrc' hdst' hapart' hrun
    -- the last byte is read in the state that the shorter copy leaves
    obtain ⟨m₂, h₂, hcopy, hpass, -⟩ :=
      hm.memcpy hinj hnet (fun j hj => hsrc' j hj (hbefore j hj)) hdst' hapart'
    obtain rfl := Except.ok.inj (hrun.symm.trans hcopy)
    obtain ⟨m₃, haccess, -⟩ := of_bind_ok hbyte
    have hlast := (hpass.fetchable _).mp (hpass.inv.fetchable_of_access haccess)
    intro j hj
    rcases Nat.lt_succ_iff_lt_or_eq.mp hj with hj | rfl
    · exact hbefore j hj
    · exact hlast

end Manager

end Remon
