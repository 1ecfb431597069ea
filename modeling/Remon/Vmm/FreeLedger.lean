import Remon.Vmm.ListRuns

/-! # The frees of a run

A free is noted down in the buffer of its pod and goes to the allocator of the page later, when
the page is in memory. The buffer keeps to its bound as long as nobody frees into a full buffer
of a page that is away: the call that fills the buffer gives the lock of the pod back before it
brings the page in.
-/

namespace Remon
open Function Lib Heap Fault List

variable {L : ℕ → Layout} {path : ℕ → String} {b : Prop}

namespace Session

variable {s s' : Session} {h h' : ∀ i, AbsHeap (L i)} {op : Op} {i l : ℕ}

/-- A free of a block on a page that is not mapped finds room in the buffer of the pod. -/
def Spacious (s : Session) (op : Op) : Prop :=
  s.Calls op ∧ ∀ i a, op = .free i a →
    ((s.pods i).state = .disk ∨ (s.pods i).state = .remote →
      (s.pods i).freeBuffer.length < maxFreeBuffSize) ∧ s.Roomy i

theorem buffer_step (ha : s.After L path b h op s' h') (j : ℕ) :
    (s'.pods j).freeBuffer = (s.pods j).freeBuffer ∨ (s'.pods j).freeBuffer = [] ∨
      ∃ a, op = .free j a ∧ (s'.pods j).freeBuffer = (s.pods j).freeBuffer ++ [a] := by
  have hdid := ha.did
  have hkept : ∀ {g : Pager}, (s.cell h j).Keeps (g.cell h' j) →
      (g.pods j).freeBuffer = (s.pods j).freeBuffer ∨ (g.pods j).freeBuffer = [] ∨
        ∃ a, op = .free j a ∧ (g.pods j).freeBuffer = (s.pods j).freeBuffer ++ [a] := fun hk =>
    hk.buffer.imp_right .inl
  cases op with
  | allocate l size c => exact hkept (hdid.cells j).toKeeps
  | addPodAndAllocate l i => exact hkept (hdid.keeps_all j)
  | free i a =>
    obtain ⟨l, -, hcall, -⟩ := hdid
    have hbuf : (s'.pods j).freeBuffer = ((s.note i a).pods j).freeBuffer ∨
        (s'.pods j).freeBuffer = [] := (hcall.cells j).buffer
    by_cases hj : j = i
    · subst hj
      rw [Pager.pods_note_self] at hbuf
      exact hbuf.elim (fun hb => .inr (.inr ⟨a, rfl, hb⟩)) (fun hb => .inr (.inl hb))
    · rw [Pager.pods_note_of_ne hj] at hbuf
      exact hbuf.imp_right .inl
  | trim l c tryLock => exact hkept (hdid.cells j).toKeeps
  | pickPodToEvict i isFree localCopy => exact hkept (hdid.1.keeps_all j).toKeeps
  | asyncSwapOutPod i localCopy => exact hkept (hdid.1.keeps_all j).toKeeps
  | activatePod i f => exact hkept (hdid.1.keeps_all j).toKeeps
  | prefetchPod i f => exact hkept (hdid.1.keeps_all j).toKeeps
  | addPodToBuffer i f => exact hkept (hdid.1.keeps_all j).toKeeps
  | trimFreePage i => exact hkept (hdid.1.keeps_all j).toKeeps
  | store i a v => exact hkept (hdid.1.keeps_all j).toKeeps

theorem length_step (ha : s.After L path b h op s' h') (hsp : s.Spacious op)
    (hlen : ∀ i, (s.pods i).freeBuffer.length ≤ maxFreeBuffSize) (j : ℕ) :
    (s'.pods j).freeBuffer.length ≤ maxFreeBuffSize := by
  rcases buffer_step ha j with hb | hb | ⟨a, rfl, hb⟩
  · rw [hb]
    exact hlen j
  · simp [hb]
  · obtain ⟨-, -, -, hfull⟩ := ha.did
    obtain ⟨haway, -⟩ := hsp.2 j a rfl
    rw [hb, length_append, length_singleton]
    rcases hfull with hc | hst | hst | hlt
    · simp [hb] at hc
    · exact haway (.inl hst)
    · exact haway (.inr hst)
    · omega

theorem Run.length_le (hinj : Injective path) (hs : Run L path Spacious s) (j : ℕ) :
    (s.pods j).freeBuffer.length ≤ maxFreeBuffSize := by
  induction hs generalizing j with
  | start => exact Nat.zero_le _
  | step hs hlegal hsp run ih =>
    obtain ⟨⟨h, hi⟩, hmade, -⟩ := hs.calls hinj (fun _ _ hc => ⟨hc.1, sized_true⟩)
    obtain ⟨h', ha⟩ := (hi.step hinj hlegal sized_true (hsp.1.orderly hmade)).result run
    exact length_step ha hsp ih j

/-- Every pointer that was freed is as often in the buffer of its pod or handed to the allocator
as it was freed, in the buffer once and then for a block that is still in use; a pod in memory
with buffered frees is known to its list; the buffers keep to their bound; and a buffer is
flushed only while the page can be written, so that no free and no request traps. -/
theorem frees_accounted {swapDir : String} (hs : Run L (swapFile swapDir) Spacious s) :
    (∃ h : ∀ i, AbsHeap (L i),
      (∀ i, (s.world i).Models (L i) (swapFile swapDir i) True (h i)) ∧
      ∀ i, (s.pods i).freeBuffer.Nodup ∧ ∀ a ∈ (s.pods i).freeBuffer, (h i).isLive a = true) ∧
    (∀ i a, s.freed.count (i, a) = (s.pods i).freeBuffer.count a +
      ((s.flushes i).flatMap Prod.snd).count a) ∧
    (∀ i l, s.Of l i → (s.pods i).state = .local_ → (s.pods i).freeBuffer ≠ [] →
      i ∈ (s.lists l).localFreeBuffer) ∧
    (∀ i, (s.pods i).freeBuffer.length ≤ maxFreeBuffSize) ∧
    (∀ i, ∀ x ∈ s.flushes i, x.1 = .readWrite) ∧
    ∀ op, s.Legal L op → s.Spacious op → s.step L (swapFile swapDir) op = .error .undefined →
      ∃ i f, op = .addPodToBuffer i f ∨ op = .activatePod i f ∧
        (s.pods i).state = .remoteCache := by
  have hinj := swapFile_injective swapDir
  obtain ⟨⟨h, hi⟩, hmade, -⟩ := hs.calls hinj (fun _ _ hc => ⟨hc.1, sized_true⟩)
  refine ⟨⟨h, hi.pager.pages, fun i => (hi.pager.pages i).buffer.2⟩, hi.ledger, ?_,
    hs.length_le hinj, hi.mapped, ?_⟩
  · exact fun i l hl => (hi.pager.lists l).noted i hl
  · intro op hlegal hsp herr
    have hy := (hi.step hinj hlegal sized_true (hsp.1.orderly hmade)).permitted herr
    cases op with
    | free i a =>
      have hroom := (hsp.2 i a rfl).2
      simp [Fails, Stuck, hroom] at hy
    | activatePod i f =>
      refine ⟨i, f, .inr ⟨rfl, ?_⟩⟩
      simpa [Fails, Stuck] using hy
    | addPodToBuffer i f => exact ⟨i, f, .inl rfl⟩
    | _ => simp [Fails, Stuck] at hy

/-- The block of pod 0 is freed again. -/
def sampleFreed : Session := sampleServed.next samplePages (swapFile "swap") (.free 0 4112)

theorem frees_accounted_sample : Run samplePages (swapFile "swap") Spacious sampleFreed ∧
    sampleFreed.freed.count (0, 4112) = 1 ∧ 0 ∈ (sampleFreed.lists 0).localFreeBuffer := by
  have hs := sampleServed_run Spacious
    (fun _ => ⟨⟨trivial, nofun⟩, ⟨trivial, nofun⟩, ⟨trivial, nofun⟩⟩)
  have hlive : ⟨0, 4112, 64⟩ ∈ sampleServed.live := by decide
  have hst : (sampleServed.pods 0).state = .local_ := by decide
  have hf : Run samplePages (swapFile "swap") Spacious sampleFreed := by
    refine hs.next ⟨64, hlive⟩ ⟨trivial, ?_⟩ (by decide)
    rintro i a he
    obtain ⟨rfl, -⟩ := Op.free.inj he
    refine ⟨fun hc => ?_, fun hc => ?_⟩ <;> simp [hst] at hc
  have hbuf : (sampleFreed.pods 0).freeBuffer = [4112] := by decide
  obtain ⟨-, hcount, hnoted, -⟩ := frees_accounted hf
  refine ⟨hf, ?_, ?_⟩
  · rw [hcount, hbuf]
    decide
  · have hl : sampleFreed.splPushdown 0 = some 0 := by decide
    exact hnoted 0 0 hl (by decide) (by simp [hbuf])

/-! ## A buffer that overflows -/

theorem wide_bounds (i : ℕ) : 0 < 65536 * (i % 1024 + 1) ∧ 65536 * (i % 1024 + 1) % 4096 = 0 ∧
    65536 * (i % 1024 + 1) + 65536 < 2 ^ 64 ∧ 128 + 8 ≤ 65536 * (i % 1024 + 1) := by
  omega

theorem wide_size : 0 < 65536 ∧ 65536 % 4096 = 0 ∧ 65536 < 2 ^ 31 ∧ 0 < 128 ∧ 128 < 2 ^ 64 := by
  decide

/-- Pages of 65536 bytes, for 1024 pods. -/
def widePages (i : ℕ) : Layout where
  payloadStart := 65536 * (i % 1024 + 1)
  payloadSize := 65536
  freeHeadAddr := 128
  size_pos := wide_size.1
  size_page := wide_size.2.1
  size_le := wide_size.2.2.1.le
  start_pos := (wide_bounds i).1
  start_page := (wide_bounds i).2.1
  end_lt := (wide_bounds i).2.2.1
  freeHead_pos := wide_size.2.2.2.1
  freeHead_lt := wide_size.2.2.2.2
  freeHead_outside := .inl (wide_bounds i).2.2.2

def Modest (s : Session) (op : Op) : Prop := s.Calls op ∧ Sized widePages False op

def Holding (s : Session) (n : ℕ) : Prop :=
  ∃ ptrs : List ℕ, ptrs.Nodup ∧ ptrs.length = n ∧ ∀ a ∈ ptrs, ∃ size, ⟨0, a, size⟩ ∈ s.live

/-- Pod 0 is the only one with a list, and it has `n` blocks in use; pod 1 is in the buffer. -/
structure Filling (n : ℕ) (s : Session) : Prop where
  run : Run widePages (swapFile "swap") Modest s
  home : ∀ i l, s.Of l i → i = 0 ∧ l = 0
  here : (s.pods 0).state = .local_
  spare : (s.pods 1).state = .localPinned
  holding : s.Holding n

theorem step_allocate_last (path : ℕ → String) {hp : AbsHeap (L i)} {c : Choice}
    (hlast : (s.lists l).lastAllocatedPod = some i) (hst : (s.pods i).state = .local_)
    (hm : (s.pods i).Models False hp) (hc : c.retries ≤ 100) (a : Request (L i))
    (hne : (hp.malloc a).1.getD 0 ≠ 0) :
    ∃ x, s.step L path (.allocate l a.size c) = .ok { s with
        pods := update s.pods i { s.pods i with heap := x }
        live := ⟨i, (hp.malloc a).1.getD 0, a.size⟩ :: s.live } ∧
      ({ s.pods i with heap := x } : Pod).Models False (hp.malloc a).2 := by
  have hlocked : (s.pods i).heap.locked = false := by
    rw [← Bool.not_eq_true]
    exact hm.locked
  obtain ⟨x, hx, -, hmod⟩ := hm.podMalloc_unlocked hst hlocked a
  refine ⟨x, ?_, hmod⟩
  have hspl : (s.spl l).allocate L a.size c = .ok ((hp.malloc a).1.getD 0,
      (s.spl l).setPod i { s.pods i with heap := x }) := by
    have hl : (s.spl l).lastAllocatedPod = some i := hlast
    have hst' : ((s.spl l).pods i).state = .local_ := hst
    have hx' : ((s.spl l).pods i).podMalloc (L i) a.size = _ := hx
    simp only [SplState.allocate, SplState.tryAllocateWithPreviousPod, hl, hst', SplState.podMalloc,
      hx', ok_bind, pure_eq, reduceCtorEq, if_false, ne_eq, not_true_eq_false,
      if_neg (not_lt.mpr hc), hne, not_false_eq_true, if_true]
  have hput : s.putSpl l ((s.spl l).setPod i { s.pods i with heap := x }) = { s.toPager with
      pods := update s.pods i { s.pods i with heap := x } } := by
    simp [Pager.putSpl, SplState.setPod, Pager.spl]
  simp only [step, Pager.allocate, hspl, ok_bind, pure_eq, hput, if_neg hne, grant,
    hlast]

def request32 : Request (widePages 0) := ⟨32, by decide, by decide, by decide⟩

theorem asize32 : Asize 32 ∧ ∀ i, (widePages i).maxIntraPodSize < 32 → False :=
  ⟨⟨by decide, by decide⟩, fun _ => (by decide : ¬ 65536 - 32 < 32)⟩

theorem Run.modest (hs : Run widePages (swapFile "swap") Modest s) :
    (∃ h, s.Inv widePages (swapFile "swap") False h) ∧ s.Made := by
  obtain ⟨hi, hmade, -⟩ := hs.calls (swapFile_injective "swap") (fun _ _ hc => hc)
  exact ⟨hi, hmade⟩

theorem Run.modest_step {o : Op} (hs : Run widePages (swapFile "swap") Modest s)
    (hlegal : s.Legal widePages o) (hok : s.Modest o)
    (hfail : ∀ e, s.Fails False e o → s.step widePages (swapFile "swap") o ≠ .error e) :
    ∃ s' h h', s.step widePages (swapFile "swap") o = .ok s' ∧
      Run widePages (swapFile "swap") Modest s' ∧
      s.Inv widePages (swapFile "swap") False h ∧
      s.After widePages (swapFile "swap") False h o s' h' := by
  obtain ⟨⟨h, hi⟩, hmade⟩ := hs.modest
  have hy := hi.step (swapFile_injective "swap") hlegal hok.2 (hok.1.orderly hmade)
  cases hr : s.step widePages (swapFile "swap") o with
  | error e => exact absurd hr (hfail e (hy.permitted hr))
  | ok s' =>
    obtain ⟨h', ha⟩ := hy.result hr
    exact ⟨s', h, h', rfl, .step hs hlegal hok hr, hi, ha⟩

theorem not_stuck {e : Fault} : ¬ Stuck False e := And.right

theorem Run.evict_returns (hs : Run widePages (swapFile "swap") Modest s) (e : Fault) :
    s.step widePages (swapFile "swap") (.pickPodToEvict i false []) ≠ .error e := by
  obtain ⟨⟨h, hi⟩, hmade⟩ := hs.modest
  have hcalls : s.Calls (.pickPodToEvict i false []) := trivial
  have horder : s.Orderly (.pickPodToEvict i false []) := hcalls.orderly hmade
  have hy := hi.pager.beforeEvict (i := i) false horder
  intro herr
  cases hb : s.toPager.beforeEvict widePages i false with
  | error e => exact not_stuck (hy.permitted hb)
  | ok r =>
    obtain ⟨swap, g⟩ := r
    cases swap with
    | false => simp [Session.step, Pager.pickPodToEvict, hb] at herr
    | true =>
      simp only [Session.step, Pager.pickPodToEvict, hb, ok_bind, if_true, Pager.evictPod,
        Pager.remoteSwap] at herr
      split at herr <;> simp at herr

/-- The blocks that are held fit into the page. -/
theorem Holding.le {n : ℕ} {h : ∀ i, AbsHeap (widePages i)} (hn : s.Holding n)
    (hs : s.Inv widePages path b h) : n ≤ 2047 := by
  obtain ⟨ptrs, hnodup, rfl, hlive⟩ := hn
  have hfit : 32 * ptrs.length + 16 ≤ (widePages 0).payloadSize := by
    refine (h 0).blocks_fit hnodup ?_
    intro a ha
    obtain ⟨size, hx⟩ := hlive a ha
    obtain ⟨n, -, halloc, -⟩ := hs.held _ hx
    exact (h 0).isLive_iff.mpr ⟨n, halloc⟩
  have : (widePages 0).payloadSize = 65536 := rfl
  omega

/-- Blocks stay held unless they are freed. -/
theorem Holding.step {n : ℕ} (hn : s.Holding n) (ha : s.After L path b h op s' h')
    (hop : ∀ i a, op ≠ .free i a) : s'.Holding n := by
  obtain ⟨ptrs, hnodup, hlen, hlive⟩ := hn
  refine ⟨ptrs, hnodup, hlen, fun a hmem => ?_⟩
  obtain ⟨size, hx⟩ := hlive a hmem
  exact ⟨size, (ha.live _ hx).resolve_right (hop _ _)⟩

/-- One more block of pod 0 is held. -/
theorem Holding.cons {n ptr size : ℕ} (hn : s.Holding n) (ha : s'.Inv L path b h)
    (hlive : s'.live = ⟨0, ptr, size⟩ :: s.live) : s'.Holding (n + 1) := by
  obtain ⟨ptrs, hnodup, hlen, hptrs⟩ := hn
  have hnew : ptr ∉ ptrs := by
    intro hmem
    obtain ⟨size, hx⟩ := hptrs ptr hmem
    have hapart := ha.apart
    rw [hlive, map_cons, nodup_cons] at hapart
    exact hapart.1 (mem_map.mpr ⟨_, hx, rfl⟩)
  refine ⟨ptr :: ptrs, nodup_cons.mpr ⟨hnew, hnodup⟩, by simp [hlen], ?_⟩
  rw [hlive]
  intro a hmem
  rcases mem_cons.mp hmem with rfl | hmem
  · exact ⟨size, mem_cons_self⟩
  · obtain ⟨size, hx⟩ := hptrs a hmem
    exact ⟨size, mem_cons_of_mem _ hx⟩

/-- A request is served by pod 0, or the list waits for another pod. -/
theorem Filling.allocate {n : ℕ} (hs : Filling n s) (hw : s.wanting 0 = none) :
    ∃ s', s.step widePages (swapFile "swap") (.allocate 0 32 sampleChoice) = .ok s' ∧
      (Filling (n + 1) s' ∧ s'.wanting 0 = none ∨ Filling n s' ∧ s'.wanting 0 = some 32) := by
  have hlegal : s.Legal widePages (.allocate 0 32 sampleChoice) := ⟨asize32.1, hw⟩
  obtain ⟨s', h, h', hrun, hrun', hi, ha⟩ := hs.run.modest_step hlegal ⟨trivial, asize32.2⟩
    (fun e he => absurd he not_stuck)
  have hcall : Pager.Called False 0 s.toPager h s'.toPager h' := ha.did
  have hhome : ∀ i l, s'.Of l i → i = 0 ∧ l = 0 := by
    intro i l hl
    rw [Pager.Of, hcall.home] at hl
    exact hs.home i l hl
  have hhere : (s'.pods 0).state = .local_ := by
    rcases (hcall.cells 0).state with hst | hst
    · exact hst.trans hs.here
    · exact hst.2
  have hspare : (s'.pods 1).state = .localPinned := by
    have hcell := hcall.others 1 (fun hc => absurd (hs.home 1 0 hc).1 (by decide))
    have hpod : s'.pods 1 = s.pods 1 := congrArg Cell.pod hcell
    rw [hpod]
    exact hs.spare
  refine ⟨s', hrun, ?_⟩
  rcases hi.allocate_outcome hlegal asize32.2 hrun with ⟨hw', -⟩ | ⟨hw', i, ptr, hl, hlive⟩
  · refine .inr ⟨⟨hrun', hhome, hhere, hspare,
      hs.holding.step ha (fun i a hop => Op.noConfusion hop)⟩, ?_⟩
    simp [hw']
  · obtain ⟨rfl, -⟩ := hs.home i 0 hl
    exact .inl ⟨⟨hrun', hhome, hhere, hspare, hs.holding.cons ha.inv hlive⟩, hw' ▸ hw⟩

/-- What pod 0 has left is one block. -/
structure Fitting (n : ℕ) (s : Session) : Prop extends Filling n s where
  waits : s.wanting 0 = none
  last : (s.lists 0).lastAllocatedPod = some 0
  room : ∃ (hp : AbsHeap (widePages 0)) (p : ℕ), (s.pods 0).Models False hp ∧ hp.freeList = [p] ∧
    hp.sizeAt p + 32 * n = 65520

theorem Fitting.next {n : ℕ} (hs : Fitting n s) (hn : n < 2046) : ∃ s', Fitting (n + 1) s' := by
  obtain ⟨hp, p, hm, hlist, hsize⟩ := hs.room
  have hfit : request32.size + 32 ≤ hp.sizeAt p := by
    change 32 + 32 ≤ hp.sizeAt p
    omega
  have hmalloc := AbsHeap.malloc_only (a := request32) hlist (by omega)
  obtain ⟨hlist', hsize'⟩ := AbsHeap.take_only (a := request32) hlist hfit
  have hpos : (hp.malloc request32).1.getD 0 ≠ 0 := by
    obtain ⟨c, hc, -⟩ := mem_freeStarts.mp ((hp.mem_freeList p).mp (by simp [hlist]))
    have := (hp.sized.placed hc).1
    rw [hmalloc, Option.getD_some]
    omega
  obtain ⟨x, hstep, hmod⟩ := step_allocate_last (swapFile "swap") (c := sampleChoice) hs.last
    hs.here hm (Nat.zero_le _) request32 hpos
  obtain ⟨s', hstep', hout⟩ := hs.toFilling.allocate hs.waits
  obtain rfl := Except.ok.inj (hstep.symm.trans hstep')
  refine ⟨_, (hout.resolve_right ?_).1, hs.waits, hs.last, hp.take request32 p, p + 32, ?_,
    hlist', ?_⟩
  · rintro ⟨-, hc⟩
    exact nomatch hs.waits.symm.trans hc
  · rw [hmalloc] at hmod
    simpa using hmod
  · have : (hp.take request32 p).sizeAt (p + 32) = hp.sizeAt p - 32 := hsize'
    omega

def sampleSpare : Session :=
  (new.next widePages (swapFile "swap") (.addPodToBuffer 0 sampleFetch)).next widePages
    (swapFile "swap") (.addPodToBuffer 1 sampleFetch)

theorem sampleSpare_run : Run widePages (swapFile "swap") Modest sampleSpare := by
  have h0 : Run widePages (swapFile "swap") Modest new := .start
  have h1 := h0.next (o := .addPodToBuffer 0 sampleFetch) rfl ⟨trivial, trivial⟩ rfl
  exact h1.next (o := .addPodToBuffer 1 sampleFetch) rfl ⟨trivial, trivial⟩ rfl

/-- The list gets pod 0 for its first request. -/
theorem fitting_one : ∃ s, Fitting 1 s := by
  have hnone : ∀ i l, ¬ sampleSpare.Of l i := by
    intro i l hl
    cases hl
  have hpinned : ∀ i, i < 2 → (sampleSpare.pods i).state = .localPinned := by decide
  obtain ⟨s, h, h', hrun, hs, hi, ha⟩ := sampleSpare_run.modest_step
    (o := .allocate 0 32 sampleChoice) ⟨asize32.1, rfl⟩ ⟨trivial, asize32.2⟩
    (fun e he => absurd he not_stuck)
  have hcall : Pager.Called False 0 sampleSpare.toPager h s.toPager h' := ha.did
  have hpods : ∀ i, s.pods i = sampleSpare.pods i := fun i =>
    congrArg Cell.pod (hcall.others i (hnone i 0))
  have hw : s.wanting = update sampleSpare.wanting 0 (some 32) := by
    rcases hi.allocate_outcome ⟨asize32.1, rfl⟩ asize32.2 hrun with hw | ⟨-, i, ptr, hl, -⟩
    · exact hw.1
    · exact absurd hl (hnone i 0)
  have hhome : s.splPushdown = sampleSpare.splPushdown := hcall.home
  have hst : (s.pods 0).state = .localPinned := by
    rw [hpods]
    exact hpinned 0 (by decide)
  have hn : s.splPushdown 0 = none := by
    rw [hhome]
    rfl
  obtain ⟨t, h₁, h₂, hrun', ht, hi', ha'⟩ := hs.modest_step (o := .addPodAndAllocate 0 0)
    ⟨by simp [hw], hn, hst⟩ ⟨trivial, trivial⟩ (fun e he => absurd he not_stuck)
  have hj : Pager.Joined False 0 0 s.toPager h₁ t.toPager h₂ := ha'.did
  obtain ⟨g, hadd, hmod⟩ := hi'.pager.addPodAndAllocate_serves (l := 0) hn hst request32
  have hadd' : s.addPodAndAllocate widePages 0 0 32 = .ok ((widePages 0).firstBlock, g) := hadd
  have hw0 : s.wanting 0 = some 32 := by simp [hw]
  have hne : (widePages 0).firstBlock ≠ 0 := by decide
  simp only [step, hw0, hadd', ok_bind, pure_eq, if_neg hne, Except.ok.injEq] at hrun'
  have hg : t.toPager = g := by
    rw [← hrun', toPager_grant]
  have hlast : (g.lists 0).lastAllocatedPod = some 0 := hg ▸ hj.last
  simp only [grant, hlast] at hrun'
  have hlive : t.live = ⟨0, (widePages 0).firstBlock, 32⟩ :: s.live := by rw [← hrun']
  have hempty : s.Holding 0 := ⟨[], nodup_nil, rfl, fun a hmem => absurd hmem not_mem_nil⟩
  obtain ⟨hlist, hsize⟩ := AbsHeap.take_only (h := .fresh (widePages 0)) (a := request32) rfl
    (by rw [AbsHeap.sizeAt_fresh]; decide)
  refine ⟨t, ⟨ht, ?_, hj.resident.2.1, ?_, hempty.cons ha'.inv hlive⟩, ?_, hj.last, _, _,
    hg ▸ hmod, hlist, ?_⟩
  · intro i l hl
    have hl' : update s.splPushdown 0 (some 0) i = some l := hj.home ▸ hl
    by_cases hi0 : i = 0
    · rw [hi0, update_self, Option.some.injEq] at hl'
      exact ⟨hi0, hl'.symm⟩
    · rw [update_of_ne hi0, hhome] at hl'
      exact absurd hl' (hnone i l)
  · have hcell := hj.others 1 (by decide) (by rw [Pager.Of, hhome]; exact hnone 1 0)
    have hpod : t.pods 1 = s.pods 1 := congrArg Cell.pod hcell
    rw [hpod, hpods]
    exact hpinned 1 (by decide)
  · rw [← hrun']
    simp
  · rw [hsize, AbsHeap.sizeAt_fresh]
    rfl

theorem fitting {n : ℕ} (hn : n < 2046) : ∃ s, Fitting (n + 1) s := by
  induction n with
  | zero => exact fitting_one
  | succ n ih =>
    obtain ⟨s, hs⟩ := ih (by omega)
    exact hs.next hn

/-- In the end the page is full and the list waits for another pod. -/
theorem Filling.fills {n : ℕ} {s : Session} (hs : Filling n s) (hw : s.wanting 0 = none) :
    ∃ k s', n ≤ k ∧ Filling k s' ∧ s'.wanting 0 = some 32 := by
  obtain ⟨⟨h, hi⟩, -⟩ := hs.run.modest
  have hle := hs.holding.le hi
  obtain ⟨s', -, ⟨hs', hw'⟩ | ⟨hs', hw'⟩⟩ := hs.allocate hw
  · obtain ⟨k, t, hk, ht⟩ := hs'.fills hw'
    exact ⟨k, t, by omega, ht⟩
  · exact ⟨n, s', le_rfl, hs', hw'⟩
termination_by 2048 - n

/-- Pod 0 is away, with `k` frees in its buffer, and `n` of its blocks are held. -/
structure Draining (n k : ℕ) (s : Session) : Prop where
  run : Run widePages (swapFile "swap") Modest s
  away : (s.pods 0).state = .disk ∨ (s.pods 0).state = .remote
  holding : s.Holding n
  length : k ≤ (s.pods 0).freeBuffer.length

/-- A list with another last pod gives pod 0 up for eviction. -/
theorem Filling.drains {n : ℕ} (hs : Filling n s) (hn : 0 < n) (hw : s.wanting 0 = some 32) :
    ∃ s', Draining n 0 s' := by
  have hhome : s.splPushdown 1 = none := by
    cases hl : s.splPushdown 1 with
    | none => rfl
    | some l => exact absurd (hs.home 1 l hl).1 (by decide)
  obtain ⟨t, h, h', -, ht, -, ha⟩ := hs.run.modest_step (o := .addPodAndAllocate 0 1)
    ⟨by simp [hw], hhome, hs.spare⟩ ⟨trivial, trivial⟩ (fun e he => absurd he not_stuck)
  have hj : Pager.Joined False 0 1 s.toPager h t.toPager h' := ha.did
  have hhere : (t.pods 0).state = .local_ := by
    rcases (hj.cells 0 (by decide)).state with hst | hst
    · exact hst.trans hs.here
    · exact hst.2
  obtain ⟨u, h₁, h₂, -, hu, -, ha'⟩ := ht.modest_step (o := .pickPodToEvict 0 false [])
    (fun _ _ _ hx => absurd hx not_mem_nil) ⟨trivial, trivial⟩ (fun e _ => ht.evict_returns e)
  have hkeep := (hs.holding.step ha (fun i a hop => Op.noConfusion hop)).step ha'
    (fun i a hop => Op.noConfusion hop)
  refine ⟨u, hu, ?_, hkeep, Nat.zero_le _⟩
  obtain ⟨-, hev⟩ := ha'.did
  cases hev with
  | idle hc => exact absurd hhere hc
  | dropped hc => rcases hc with hc | hc <;> simp [hhere] at hc
  | kept _ hlast =>
    obtain ⟨l, hl, hlast⟩ := hlast
    have hl' : update s.splPushdown 1 (some 0) 0 = some l := hj.home ▸ hl
    obtain ⟨-, rfl⟩ := hs.home 0 l hl'
    exact nomatch hj.last.symm.trans hlast
  | out _ _ _ hs' =>
    refine (hs'.resolve_right ?_).1
    intro hinit
    obtain ⟨ptrs, -, hlen, hlive⟩ := hkeep
    obtain ⟨a, hmem⟩ := exists_mem_of_length_pos (hlen ▸ hn)
    obtain ⟨size, hx⟩ := hlive a hmem
    obtain ⟨k, -, halloc, -⟩ := ha'.inv.held _ hx
    have hin := (ha'.inv.pager.of_live ((h₂ 0).isLive_iff.mpr ⟨k, halloc⟩)).1
    exact nomatch hin.symm.trans (ha'.inv.pager.inited_of_init hinit)

/-- Another free is noted down. -/
theorem Draining.free {n k : ℕ} (hs : Draining (n + 1) k s) : ∃ s', Draining n (k + 1) s' := by
  obtain ⟨ptrs, hnodup, hlen, hlive⟩ := hs.holding
  obtain ⟨a, ptrs, rfl⟩ := exists_cons_of_length_eq_add_one hlen
  obtain ⟨hnew, hnodup⟩ := nodup_cons.mp hnodup
  have hroom : s.Roomy 0 := by
    intro hc
    rcases hs.away with hst | hst <;> simp [hst] at hc
  obtain ⟨t, h, h', -, ht, -, ha⟩ := hs.run.modest_step (o := .free 0 a) (hlive a (by simp))
    ⟨trivial, trivial⟩ (fun e he => (he.elim not_stuck (fun hc => hc.2 hroom)).elim)
  obtain ⟨l, -, hcall, -⟩ := ha.did
  -- the calls of the list leave a page alone that is away
  have hpod : t.pods 0 = { s.pods 0 with freeBuffer := (s.pods 0).freeBuffer ++ [a] } := by
    have hself := s.pods_note_self 0 a
    rw [← hself]
    refine congrArg Cell.pod ((hcall.cells 0).ready.resolve_right ?_)
    rintro ⟨hr | hr, -⟩
    · have hst : ((s.note 0 a).pods 0).state = .local_ := hr.2.1
      rw [hself] at hst
      rcases hs.away with hc | hc <;> simp [hc] at hst
    · have hst : ((s.note 0 a).pods 0).state = .init := hr.2.1
      rw [hself] at hst
      rcases hs.away with hc | hc <;> simp [hc] at hst
  refine ⟨t, ht, ?_, ⟨ptrs, hnodup, by simpa using hlen, ?_⟩, ?_⟩
  · rw [hpod]
    exact hs.away
  · intro c hmem
    obtain ⟨size, hx⟩ := hlive c (mem_cons_of_mem _ hmem)
    refine ⟨size, (ha.live _ hx).resolve_right ?_⟩
    intro hop
    obtain ⟨-, rfl⟩ := Op.free.inj hop
    exact hnew hmem
  · have := hs.length
    rw [hpod]
    simp only [length_append, length_singleton]
    omega

/-- One thread fills the buffer and another one frees before the page is back. -/
theorem free_buffer_overflows : ∃ s, Run widePages (swapFile "swap") Calls s ∧
    maxFreeBuffSize < (s.pods 0).freeBuffer.length := by
  obtain ⟨s, hs⟩ := fitting (n := 1024) (by decide)
  obtain ⟨n, t, hn, ht, hw⟩ := hs.toFilling.fills hs.waits
  obtain ⟨u, hu⟩ := ht.drains (by omega) hw
  have hdrain : ∀ k, k ≤ 1025 → ∃ v, Draining (n - k) k v := by
    intro k hk
    induction k with
    | zero => exact ⟨u, hu⟩
    | succ k ih =>
      obtain ⟨v, hv⟩ := ih (by omega)
      obtain ⟨m, hm⟩ : ∃ m, n - k = m + 1 := ⟨n - k - 1, by omega⟩
      rw [hm] at hv
      rw [show n - (k + 1) = m by omega]
      exact hv.free
  obtain ⟨v, hv⟩ := hdrain 1025 le_rfl
  exact ⟨v, hv.run.mono (fun _ _ hc => hc.1), hv.length⟩

end Session

end Remon
