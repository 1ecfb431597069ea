import Remon.Lib.BlockStore
import Remon.Vmm.Discards
import Remon.Vmm.MovedBytes
import Remon.Vmm.Reallocate

/-! # The memory of the program

For the program that uses it, the manager is a store of blocks: a request adds a block, a
release takes one away, and a byte changes when it is written. Evictions, activations,
prefetching, trims, the threads that fill the buffers and the arenas that are made are idle, in
whatever order the commands of all threads come.
-/

namespace Remon
open Function Lib Heap Fault List

namespace Manager

variable {c : Setup} {path : ℕ → String} {net : Manager → ℕ → Fetch} {m m' : Manager} {cmd : Cmd}
  {op : Op} {h h' : ∀ i, AbsHeap (c.L i)} {a i : ℕ} {r : ℕ × ℕ}

/-! ## The store of the program -/

/-- The addresses of a range of bytes. -/
def span (r : ℕ × ℕ) : Set ℕ := Set.Ico r.1 (r.1 + r.2)

variable (c path) in
/-- The blocks that callers own, and the bytes wherever they are. -/
def blockStore (m : Manager) : BlockStore (ℕ × ℕ) ℕ UInt8 where
  blocks := {r | r ∈ m.allocations c}
  value := m.byte c path

def owns (rs : List (ℕ × ℕ)) (a : ℕ) : Bool := rs.any fun r => decide (r.1 ≤ a ∧ a < r.1 + r.2)

theorem owns_iff (path : ℕ → String) :
    owns (m.allocations c) a = true ↔ a ∈ (m.blockStore c path).owned span := by
  simp only [owns, any_eq_true, decide_eq_true_eq]
  exact Iff.rfl

variable (c) in
def event (m m' : Manager) : Cmd → BlockStore.Event (ℕ × ℕ) ℕ UInt8
  | .remonMalloc _ _ _ | .getBufferedPod _ _ =>
    match m'.live.take (m'.live.length - m.live.length) with
    | [] => .idle
    | x :: _ => .malloc (smallBytes x)
  | .hugeReturn p =>
    match m.callAt p with
    | none => .idle
    | some z => .malloc (hugeBytes c z)
  | .remonFree addr =>
    match (m.allocations c).find? (fun r => r.1 = addr) with
    | none => .idle
    | some r => .free r
  | .store i addr v =>
    if i = c.getResponsiblePod addr ∧ owns (m.allocations c) addr then .write addr v else .idle
  | _ => .idle

variable (c path) in
/-- A legal command with a request that fits its page, and what the program sees of it. -/
def Emits (m : Manager) (e : BlockStore.Event (ℕ × ℕ) ℕ UInt8) (m' : Manager) : Prop :=
  ∃ cmd, m.Legal c cmd ∧ Sized c False cmd ∧ m.step c path cmd = .ok m' ∧ m.event c m' cmd = e

/-! ## The bytes that a command leaves alone -/

namespace Inv

variable (hm : m.Inv c path False h)
include hm

theorem huge_of_unlisted (hr : r ∈ m.allocations c) (ha : a ∈ span r)
    (hn : m.splPushdown (c.getResponsiblePod a) = none) :
    ∃ z ∈ m.huge, Arena.Covers z.block (c.getResponsiblePod a) := by
  rcases hm.owner hr ha.1 ha.2 with ⟨x, hx, -, hpod⟩ | ⟨z, hz, -, hcov⟩
  · obtain ⟨l, hl⟩ := hm.listed_of_live hx
    rw [Pager.Of, hpod, hn] at hl
    cases hl
  · exact ⟨z, hz, hcov⟩

theorem spared (hlegal : m.Legal c cmd) (hop : m.opOf c cmd = some op)
    (hr : r ∈ m.allocations c) (hne : cmd ≠ .remonFree r.1)
    (hstore : ∀ v, cmd ≠ .store (c.getResponsiblePod a) a v) (ha : a ∈ span r) :
    m.toSession.Spared h (c.getResponsiblePod a) a op := by
  by_cases hcmd : Serving cmd
  · have hl := hm.leaves hcmd hlegal hop hr hne ha.1 ha.2
    cases op with
    | addPodAndAllocate l j => exact hl
    | free j x => exact hl
    | allocate l size ch => trivial
    | activatePod j f => trivial
    | _ => exact hl.elim
  · cases cmd with
    | prefetchPod j f =>
      obtain rfl := Option.some.inj hop
      trivial
    | addPodToBuffer j tryLock f =>
      cases tryLock with
      | true =>
        obtain rfl := Option.some.inj hop
        obtain ⟨hsmall, hn⟩ := hm.homes.fetched j hlegal
        rintro rfl
        obtain ⟨z, hz, hcov⟩ := hm.huge_of_unlisted hr ha hn
        exact hm.holdings.not_small_of_huge (mem_append_left _ hz) hcov hsmall
      | false => cases hop
    | pickPodToEvict j localCopy =>
      obtain ⟨t, ht, rfl⟩ := Option.map_eq_some_iff.mp hop
      rintro rfl hn
      obtain ⟨z, hz, hcov⟩ := hm.huge_of_unlisted hr ha hn
      exact hm.used_of_huge hz hcov ht
    | trim l ch tryLock =>
      obtain rfl := Option.some.inj hop
      trivial
    | trimFreePage k j =>
      obtain rfl := Option.some.inj hop
      have hunused := hm.unused_of_trimmed hlegal
      rintro rfl
      rcases hm.owner hr ha.1 ha.2 with ⟨x, hx, -, hpod⟩ | ⟨z, hz, -, hcov⟩
      · exact hunused.small x hx hpod
      · exact hunused.huge z hz hcov
    | store j x v =>
      obtain rfl := Option.some.inj hop
      rintro ⟨rfl, rfl⟩
      exact hstore v rfl
    | addNewRegionCore => cases hop
    | allocatePage k => cases hop
    | _ => exact absurd trivial hcmd

theorem byte_step (hinj : Injective path) (hlegal : m.Legal c cmd)
    (hb : Sized c False cmd) (run : m.step c path cmd = .ok m') (hr : r ∈ m.allocations c)
    (hne : cmd ≠ .remonFree r.1) (hstore : ∀ v, cmd ≠ .store (c.getResponsiblePod a) a v)
    (ha : a ∈ span r) : m'.byte c path a = m.byte c path a := by
  obtain ⟨h', -, hcase⟩ := hm.step hinj hlegal hb run
  have hmoves := (step_cases run).1
  cases hop : m.opOf c cmd with
  | none =>
    rw [hop] at hmoves
    have heq : m'.toSession = m.toSession := hmoves
    rw [byte, byte, heq]
  | some op =>
    rw [hop] at hcase hmoves
    obtain ⟨hleg, hcalls, hsized⟩ := hm.legal_op hlegal hb hop
    exact hm.session.byteAt_step hinj hleg hsized (hcalls.orderly hm.made) hcase hmoves
      (hm.guarded hr ha.1 ha.2) (hm.spared hlegal hop hr hne hstore ha)

/-! ## The blocks that a command leaves -/

theorem eq_of_start {r' : ℕ × ℕ} (hr : r ∈ m.allocations c) (hr' : r' ∈ m.allocations c)
    (hs : r.1 = r'.1) : r = r' :=
  inj_on_of_nodup_map hm.starts_nodup hr hr' hs

theorem find_start (hr : r ∈ m.allocations c) :
    (m.allocations c).find? (fun r' => r'.1 = r.1) = some r := by
  cases hf : (m.allocations c).find? (fun r' => r'.1 = r.1) with
  | none =>
    rw [List.find?_eq_none] at hf
    exact absurd (decide_eq_true rfl) (hf r hr)
  | some r' =>
    have hs : r'.1 = r.1 := by simpa using List.find?_some hf
    rw [hm.eq_of_start (mem_of_find?_eq_some hf) hr hs]

theorem live_step (hinj : Injective path) (hlegal : m.Legal c cmd)
    (hb : Sized c False cmd) (run : m.step c path cmd = .ok m')
    (hask : ∀ l size ch, cmd ≠ .remonMalloc l size ch) (hget : ∀ l i, cmd ≠ .getBufferedPod l i)
    (hfree : ∀ x, cmd ≠ .remonFree x) (x : Grant) : x ∈ m'.live ↔ x ∈ m.live := by
  refine ⟨(still_step run hask hget).2 x, fun hx => ?_⟩
  obtain ⟨h', -, hcase⟩ := hm.step hinj hlegal hb run
  cases hop : m.opOf c cmd with
  | none =>
    have hmoves := (step_cases run).1
    rw [hop] at hmoves
    have heq : m'.toSession = m.toSession := hmoves
    rwa [heq]
  | some op =>
    rw [hop] at hcase
    refine (hcase.live x hx).resolve_right ?_
    rintro rfl
    exact hfree _ (remonFree_of_opOf hop).1

theorem huge_step (hlegal : m.Legal c cmd) (run : m.step c path cmd = .ok m')
    (hret : ∀ p, cmd ≠ .hugeReturn p) (hfree : ∀ x, cmd ≠ .remonFree x) : m'.huge = m.huge := by
  cases hm.holdings_did hlegal run with
  | same heq => rw [heq]
  | addNewRegionCore _ hrun =>
    obtain ⟨b, -, hd⟩ := of_bind_ok hrun
    rw [← Except.ok.inj hd]
    rfl
  | hugeMalloc => exact (hugeMalloc_frame run).2.1
  | @hugePage z _ _ _ _ henter hleave =>
    obtain ⟨x, y, -, -, hd⟩ := Holdings.Inv.page_cases henter hleave
    rw [hd]
    rfl
  | hugeReturn => exact absurd rfl (hret _)
  | hugeFree => exact absurd rfl (hfree _)
  | allocatePage _ hrun =>
    obtain ⟨⟨ptr, b⟩, -, hd⟩ := of_bind_ok hrun
    cases ptr with
    | none => cases hd
    | some p =>
      have hd' := congrArg (fun q => q.2.huge) (Except.ok.inj hd)
      exact hd'.symm
  | addPodToBuffer _ htag =>
    obtain ⟨b, -, hd⟩ := of_bind_ok htag
    rw [← Except.ok.inj hd]
    rfl

theorem live_request (hinj : Injective path) (hlegal : m.Legal c cmd)
    (hb : Sized c False cmd) (run : m.step c path cmd = .ok m')
    (hask : (∃ l size ch, cmd = .remonMalloc l size ch) ∨ ∃ l i, cmd = .getBufferedPod l i) :
    (m'.live.length ≤ m.live.length ∧ ∀ x, x ∈ m'.live ↔ x ∈ m.live) ∨
      ∃ y, m'.live = y :: m.live := by
  obtain ⟨h', -, hcase⟩ := hm.step hinj hlegal hb run
  have hmoves := (step_cases run).1
  have hsome : ∃ op, m.opOf c cmd = some op ∧ ∀ i a, op ≠ .free i a := by
    rcases hask with ⟨l, size, ch, rfl⟩ | ⟨l, i, rfl⟩
    · exact ⟨_, rfl, by simp⟩
    · exact ⟨_, rfl, by simp⟩
  obtain ⟨op, hop, hnot⟩ := hsome
  rw [hop] at hcase hmoves
  cases Session.granted_step hmoves with
  | still hlive _ =>
    refine .inl ⟨hlive.length_le, fun x => ⟨fun hx => hlive.subset hx, fun hx => ?_⟩⟩
    exact (hcase.live x hx).resolve_right (hnot _ _)
  | waits hlive => exact .inl ⟨by rw [hlive], fun x => by rw [hlive]⟩
  | unserved hlive => exact .inl ⟨by rw [hlive], fun x => by rw [hlive]⟩
  | allocated hlive => exact .inr ⟨_, hlive⟩
  | added _ hlive => exact .inr ⟨_, hlive⟩

end Inv

/-! ## The commands as steps of the store -/

theorem idle_step (hblocks : ∀ r, r ∈ m'.allocations c ↔ r ∈ m.allocations c)
    (hbytes : ∀ r ∈ m.allocations c, ∀ a ∈ span r, m'.byte c path a = m.byte c path a) :
    BlockStore.Step span (m.blockStore c path) .idle (m'.blockStore c path) := by
  refine .idle (Set.ext hblocks) ?_
  rintro a ⟨r, hr, ha⟩
  exact hbytes r hr a ha

theorem malloc_step (hm' : m'.Inv c path False h') (xs : List (ℕ × ℕ)) {ys : List (ℕ × ℕ)}
    (hold : m.allocations c = xs ++ ys) (hnew : m'.allocations c = xs ++ r :: ys)
    (hbytes : ∀ r ∈ m.allocations c, ∀ a ∈ span r, m'.byte c path a = m.byte c path a) :
    BlockStore.Step span (m.blockStore c path) (.malloc r) (m'.blockStore c path) := by
  have hapart := hm'.allocations_apart
  rw [hnew, pairwise_middle Apart.symm, ← hold] at hapart
  refine .malloc ?_ ?_ ?_
  · rintro a ha ⟨r', hr', ha'⟩
    exact ((pairwise_cons.mp hapart).1 r' hr').outside ha.1 ha.2 ha'
  · ext r'
    change r' ∈ m'.allocations c ↔ r' = r ∨ r' ∈ m.allocations c
    rw [hnew, hold, mem_append, mem_append, mem_cons]
    exact or_left_comm
  · rintro a ⟨r', hr', ha⟩
    exact hbytes r' hr' a ha

theorem start_of_legal (hlegal : m.Legal c (.remonFree a)) : ∃ r ∈ m.allocations c, r.1 = a := by
  rcases hlegal with ⟨x, hx, rfl⟩ | ⟨z, hz, rfl⟩
  · exact ⟨smallBytes x, mem_append_left _ (mem_map_of_mem hx), rfl⟩
  · exact ⟨hugeBytes c z, mem_append_right _ (mem_map_of_mem hz), rfl⟩

namespace Inv

variable {x : Grant} {z : HugeCall} (hm : m.Inv c path False h)
include hm

theorem ptr_ne_start (hx : x ∈ m.live) (hz : z ∈ m.huge) : x.ptr ≠ (hugeBytes c z).1 := by
  intro hc
  obtain ⟨hpod, hne⟩ := hm.responsible hx
  have hhead : c.getResponsiblePod (hugeBytes c z).1 = z.head :=
    hm.responsible_head (mem_append_left m.setting hz)
  rw [← hpod, hc, hhead] at hne
  exact hne rfl

/-- A release takes the block that it names. -/
theorem allocations_free (hlegal : m.Legal c (.remonFree a))
    (run : m.step c path (.remonFree a) = .ok m') :
    m'.allocations c = (m.allocations c).filter fun r => r.1 ≠ a := by
  rw [allocations, allocations, filter_append, filter_map, filter_map]
  rcases hlegal with ⟨x, hx, rfl⟩ | ⟨z, hz, rfl⟩
  · rw [hm.step_free_small hx] at run
    have hhuge := congrArg Holdings.huge (toHoldings_call run)
    obtain ⟨t, ht, hm'⟩ := of_bind_ok run
    obtain rfl := Except.ok.inj hm'
    obtain ⟨⟨full, g⟩, -, ht⟩ := of_bind_ok ht
    obtain rfl := Except.ok.inj ht
    rw [hhuge]
    congr 2
    · refine filter_congr fun y hy => decide_eq_decide.mpr (not_congr ⟨And.right, ?_⟩)
      intro hptr
      rw [← (hm.responsible hx).1, ← (hm.responsible hy).1]
      exact ⟨congrArg _ hptr, hptr⟩
    · exact (filter_eq_self.mpr fun z hz =>
        decide_eq_true (hm.ptr_ne_start hx hz).symm).symm
  · obtain ⟨d, hd, hstep⟩ := hm.step_free_huge hz
    obtain rfl := Except.ok.inj (hstep.symm.trans run)
    obtain ⟨t, -, hd⟩ := of_bind_ok hd
    obtain ⟨b, -, hd⟩ := of_bind_ok hd
    obtain rfl := Except.ok.inj hd
    congr 2
    · exact (filter_eq_self.mpr fun x hx => decide_eq_true (hm.ptr_ne_start hx hz)).symm
    · refine filter_congr fun w hw => decide_eq_decide.mpr (not_congr ⟨?_, fun hstart => ?_⟩)
      · exact congrArg fun i => (c.L i).payloadStart
      · rw [← hm.responsible_head (mem_append_left m.setting hw),
          ← hm.responsible_head (mem_append_left m.setting hz)]
        exact congrArg _ hstart

/-- Every legal command is a step of the store. -/
theorem refines_step (hinj : Injective path) (hlegal : m.Legal c cmd)
    (hb : Sized c False cmd) (run : m.step c path cmd = .ok m') :
    BlockStore.Step span (m.blockStore c path) (m.event c m' cmd) (m'.blockStore c path) := by
  obtain ⟨h', hm', -⟩ := hm.step hinj hlegal hb run
  have hbytes : (∀ x, cmd ≠ .remonFree x) → (∀ i x v, cmd ≠ .store i x v) →
      ∀ r ∈ m.allocations c, ∀ a ∈ span r, m'.byte c path a = m.byte c path a := by
    intro hfree hstore r hr a ha
    exact hm.byte_step hinj hlegal hb run hr (hfree _) (hstore _ _) ha
  -- commands that change neither the blocks nor their bytes
  have hidle : (∀ l size ch, cmd ≠ .remonMalloc l size ch) → (∀ l i, cmd ≠ .getBufferedPod l i) →
      (∀ x, cmd ≠ .remonFree x) → (∀ p, cmd ≠ .hugeReturn p) → (∀ i x v, cmd ≠ .store i x v) →
      BlockStore.Step span (m.blockStore c path) .idle (m'.blockStore c path) := by
    intro hask hget hfree hret hstore
    refine idle_step ?_ (hbytes hfree hstore)
    intro r
    have hlive := hm.live_step hinj hlegal hb run hask hget hfree
    simp only [allocations, mem_append, mem_map, hlive,
      hm.huge_step hlegal run hret hfree]
  -- requests
  have hrequest : ((∃ l size ch, cmd = .remonMalloc l size ch) ∨
      ∃ l i, cmd = .getBufferedPod l i) → m'.huge = m.huge →
      BlockStore.Step span (m.blockStore c path)
        (match m'.live.take (m'.live.length - m.live.length) with
          | [] => .idle
          | x :: _ => .malloc (smallBytes x)) (m'.blockStore c path) := by
    intro hask hhuge
    have hbytes' := hbytes (by rintro x rfl; simp at hask) (by rintro i x v rfl; simp at hask)
    rcases hm.live_request hinj hlegal hb run hask with ⟨hlen, hlive⟩ | ⟨y, hlive⟩
    · rw [Nat.sub_eq_zero_of_le hlen, take_zero]
      refine idle_step (fun r => ?_) hbytes'
      simp only [allocations, mem_append, mem_map, hlive, hhuge]
    · have htake : m'.live.take (m'.live.length - m.live.length) = [y] := by
        rw [hlive, length_cons, Nat.add_sub_cancel_left]
        rfl
      rw [htake]
      refine malloc_step hm' [] rfl ?_ hbytes'
      rw [allocations, hlive, hhuge]
      rfl
  cases cmd with
  | remonMalloc l size ch =>
    exact hrequest (.inl ⟨l, size, ch, rfl⟩) (huge_remonMalloc run)
  | getBufferedPod l i => exact hrequest (.inr ⟨l, i, rfl⟩) (huge_getBufferedPod run)
  | hugeReturn p =>
    obtain ⟨z, hz, -⟩ := hlegal
    have hbytes' := hbytes (by simp) (by simp)
    simp only [Manager.step, hz, Except.ok.injEq] at run
    subst run
    simp only [event, hz]
    exact malloc_step hm' (m.live.map smallBytes) rfl rfl hbytes'
  | remonFree addr =>
    obtain ⟨r, hr, rfl⟩ := start_of_legal hlegal
    simp only [event, hm.find_start hr]
    refine .free hr ?_ ?_
    · ext r'
      change r' ∈ m'.allocations c ↔ r' ∈ m.allocations c ∧ r' ≠ r
      rw [hm.allocations_free hlegal run, mem_filter, decide_eq_true_eq]
      refine and_congr_right fun hr' => not_congr ⟨hm.eq_of_start hr' hr, ?_⟩
      exact congrArg Prod.fst
    · rintro a ⟨r', hr', ha⟩
      have hr' : r' ∈ m'.allocations c := hr'
      rw [hm.allocations_free hlegal run, mem_filter, decide_eq_true_eq] at hr'
      refine hm.byte_step hinj hlegal hb run hr'.1 ?_ (by simp) ha
      intro hc
      exact hr'.2 (Cmd.remonFree.inj hc).symm
  | store j x v =>
    have hblocks : ∀ r, r ∈ m'.allocations c ↔ r ∈ m.allocations c := by
      intro r
      have hlive := hm.live_step hinj hlegal hb run (by simp) (by simp) (by simp)
      simp only [allocations, mem_append, mem_map, hlive,
        hm.huge_step hlegal run (by simp) (by simp)]
    simp only [event]
    split
    · next hw =>
      obtain ⟨rfl, howns⟩ := hw
      have hx := (owns_iff path).mp howns
      refine .write hx (Set.ext hblocks) ?_ ?_
      · obtain ⟨g, hrun, hs'⟩ := of_bind_ok (step_cases run).1
        have hres : m.Resident (c.getResponsiblePod x) :=
          .inr (hlegal.elim And.left fun hc => .inl hc.1)
        have hg : m'.toPager = g := congrArg Session.toPager (Except.ok.inj hs').symm
        change m'.byteAt c.L path (c.getResponsiblePod x) x = v
        rw [hg, Pager.store_bytes hres hrun, if_pos ⟨rfl, rfl⟩]
      · rintro a ⟨⟨r, hr, ha⟩, hne⟩
        refine hm.byte_step hinj hlegal hb run hr (by simp) ?_ ha
        intro w hc
        exact hne (Cmd.store.inj hc).2.1.symm
    · next hw =>
      refine idle_step hblocks ?_
      intro r hr a ha
      refine hm.byte_step hinj hlegal hb run hr (by simp) ?_ ha
      intro w hc
      obtain ⟨rfl, rfl, -⟩ := Cmd.store.inj hc
      exact hw ⟨rfl, (owns_iff path).mpr ⟨r, hr, ha⟩⟩
  | _ => exact hidle (by simp) (by simp) (by simp) (by simp) (by simp)

end Inv

/-! ## Whole runs -/

/-- What the program saw of a run is what it sees of a store of blocks. -/
theorem Inv.refines {es : List (BlockStore.Event (ℕ × ℕ) ℕ UInt8)}
    (hinj : Injective path) (hm : m.Inv c path False h)
    (htrace : Traces (Emits c path) m es m') :
    (∃ h', m'.Inv c path False h') ∧
      Traces (BlockStore.Step span) (m.blockStore c path) es (m'.blockStore c path) := by
  have hstep : ∀ m e m', (∃ h, m.Inv c path False h) → Emits c path m e m' →
      (∃ h, m'.Inv c path False h) ∧
        BlockStore.Step span (m.blockStore c path) e (m'.blockStore c path) := by
    rintro m e m' ⟨h, hinv⟩ ⟨cmd, hlegal, hb, run, rfl⟩
    obtain ⟨h', hm', -⟩ := hinv.step hinj hlegal hb run
    exact ⟨⟨h', hm'⟩, hinv.refines_step hinj hlegal hb run⟩
  exact htrace.simulate hstep ⟨h, hm⟩

/-- In every run, whatever the threads of the manager do between them, the requests, the releases
and the writes of the program are those of a store of blocks. -/
theorem runs_refine_block_store {swapDir : String}
    {es : List (BlockStore.Event (ℕ × ℕ) ℕ UInt8)}
    (hm : Run c (swapFile swapDir) (fun _ cmd => Sized c False cmd) m)
    (htrace : Traces (Emits c (swapFile swapDir)) m es m') :
    Traces (BlockStore.Step span) (m.blockStore c (swapFile swapDir)) es
      (m'.blockStore c (swapFile swapDir)) := by
  obtain ⟨h, hinv⟩ := hm.inv (b := False) (swapFile_injective swapDir) (fun _ _ hs => hs)
  exact (hinv.refines (swapFile_injective swapDir) htrace).2

theorem Emits.after {e : BlockStore.Event (ℕ × ℕ) ℕ UInt8} (hlegal : m.Legal c cmd)
    (hb : Sized c False cmd) (hrun : (m.step c path cmd).isOk = true)
    (he : m.event c (m.after c path cmd) cmd = e) : Emits c path m e (m.after c path cmd) :=
  ⟨cmd, hlegal, hb, step_after hrun, he⟩

def sampleWritten : Manager :=
  sampleTwoPages.after sampleFill (swapFile "swap") (.store 0 4112 7)

def sampleAway : Manager :=
  sampleWritten.after sampleFill (swapFile "swap") (.pickPodToEvict 0 [])

theorem sampleAway_traces : Traces (Emits sampleFill (swapFile "swap")) sampleTwoPages
    [.write 4112 7, .idle] sampleAway := by
  have hstored : Emits sampleFill (swapFile "swap") sampleTwoPages (.write 4112 7)
      sampleWritten :=
    .after (.inr ⟨by decide +kernel, ⟨0, 4112, 2016⟩, by decide +kernel, by decide⟩) trivial
      (by decide +kernel) (by decide +kernel)
  have haway : Emits sampleFill (swapFile "swap") sampleWritten .idle sampleAway :=
    .after legal_evict trivial (by decide +kernel) rfl
  exact (Traces.refl.step hstored).step haway

theorem runs_refine_block_store_sample :
    Traces (BlockStore.Step span) (sampleTwoPages.blockStore sampleFill (swapFile "swap"))
      [.write 4112 7, .idle] (sampleAway.blockStore sampleFill (swapFile "swap")) :=
  runs_refine_block_store (sampleTwoPages_run.mono fun _ _ hok => hok.2) sampleAway_traces

variable (c path net) in
/-- A thread reads a byte; the handler of the fault brings the page in. -/
def load (m : Manager) (a : ℕ) : Except Fault (UInt8 × Manager) := do
  let m ← m.access c path net a
  return ((m.pods (c.getResponsiblePod a)).mem a, m)

/-- A thread that reads a byte of its block gets the byte, wherever the page is. The handler stops
the program at a copy without its tail buffer. -/
theorem Inv.load (hinj : Injective path) (hnet : Answers c path net)
    (hm : m.Inv c path False h) (hr : r ∈ m.allocations c) (ha : a ∈ span r) :
    (m.Fetchable (c.getResponsiblePod a) →
        ∃ m', m.load c path net a = .ok (m.byte c path a, m')) ∧
      (¬ m.Fetchable (c.getResponsiblePod a) → ∃ e, m.load c path net a = .error e) := by
  constructor
  · intro hf
    obtain ⟨m', h', run, -, hres, -, hbyte⟩ := hm.access hinj hnet (hm.reaches hr ha.1 ha.2 hf)
    refine ⟨m', ?_⟩
    rw [← hbyte a (hm.guarded hr ha.1 ha.2), byte, Pager.byteAt_resident hres, Manager.load, run]
    rfl
  · intro hf
    cases run : m.access c path net a with
    | error e =>
      refine ⟨e, ?_⟩
      rw [Manager.load, run]
      rfl
    | ok m' => exact absurd (hm.fetchable_of_access run) hf

/-- A thread that reads a byte of its block gets what was written there last, wherever the page
has been in between, and stops at a copy without its tail buffer. -/
theorem load_returns_last_write {swapDir : String}
    {es : List (BlockStore.Event (ℕ × ℕ) ℕ UInt8)}
    (hm : Run c (swapFile swapDir) (fun _ cmd => Sized c False cmd) m)
    (htrace : Traces (Emits c (swapFile swapDir)) m es m')
    (hnet : Answers c (swapFile swapDir) net) (hr : r ∈ m.allocations c) (hfree : .free r ∉ es)
    (ha : a ∈ span r) :
    r ∈ m'.allocations c ∧
      (m'.Fetchable (c.getResponsiblePod a) →
        ∃ m'', m'.load c (swapFile swapDir) net a =
          .ok (BlockStore.latest a (m.byte c (swapFile swapDir) a) es, m'')) ∧
      (¬ m'.Fetchable (c.getResponsiblePod a) →
        ∃ e, m'.load c (swapFile swapDir) net a = .error e) := by
  have hinj := swapFile_injective swapDir
  obtain ⟨h, hinv⟩ := hm.inv (b := False) hinj (fun _ _ hs => hs)
  obtain ⟨⟨h', hinv'⟩, hstore⟩ := hinv.refines hinj htrace
  obtain ⟨hr', hlast⟩ := BlockStore.value_of_traces hstore hr hfree ha
  have hload := hinv'.load hinj hnet hr' ha
  rw [show m'.byte c (swapFile swapDir) a = _ from hlast] at hload
  exact ⟨hr', hload⟩

theorem load_returns_last_write_sample :
    (sampleAway.pods 0).state = .disk ∧
      ∃ m, sampleAway.load sampleFill (swapFile "swap") answer 4112 = .ok (7, m) := by
  have hload := load_returns_last_write (r := (4112, 2000)) (a := 4112)
    (sampleTwoPages_run.mono fun _ _ hok => hok.2) sampleAway_traces answer_answers
    (by decide +kernel) (by decide) ⟨le_rfl, by decide⟩
  have hdisk : (sampleAway.pods 0).state = .disk := by decide +kernel
  have hpage : sampleFill.getResponsiblePod 4112 = 0 := by decide
  obtain ⟨m, hm⟩ := hload.2.1 (by rw [hpage]; exact .of_state hdisk (by simp))
  exact ⟨hdisk, m, hm⟩

end Manager

end Remon
