import Remon.Vmm.SerialCalls

/-! # Cleaning up after an eviction

`remon_cleanup_evicted` is called with the address of a block that is about to be freed and
gives up the whole page of that block, if the page is on disk or at a memory node, whatever else
is on it. Pages that are cached or pinned stay as they are.
-/

namespace Remon
open Function Lib Heap Fault List

namespace Pager

variable (L : ℕ → Layout) (g : Pager)

/-- States without a transition of their own are passed over. -/
def toInit (i : ℕ) (reply : Option (List UInt8)) : Except Fault Pager :=
  match (g.pods i).state with
  | .local_ => .ok (g.setPod i ((g.pods i).localToInit (L i)))
  | .disk =>
    let (files, p) := (g.pods i).diskToInit (L i) g.files
    .ok { g.setPod i p with files := files }
  | .remote => do
    let p ← (g.pods i).remoteToInit (L i) reply
    return (g.eraseNode i).setPod i p
  | .init | .localPinned | .diskCache | .remoteCache => .ok g

def remonCleanupEvicted (i : ℕ) (reply : Option (List UInt8)) : Except Fault Pager :=
  if (g.pods i).state ≠ .local_ ∧ (g.pods i).state ≠ .init then g.toInit L i reply else .ok g

variable {L g} {path : ℕ → String} {b : Prop} {g' : Pager} {h : ∀ i, AbsHeap (L i)} {i : ℕ}
  {reply : Option (List UInt8)}

/-- The page of pod `i` was given up: the pod is `q`, and there is no copy of the page. -/
structure GivenUp (L : ℕ → Layout) (path : ℕ → String) (i : ℕ) (q : Pod) (g g' : Pager) : Prop
    extends Swaps path i q g g' where
  lists : g'.lists = g.lists
  flushed : g'.flushes = g.flushes
  state : q.state = .init
  mem : q.mem = (g.pods i).mem.zero (L i).payloadStart (L i).payloadSize
  inited : q.heap.inited = false
  locked : q.heap.locked = (g.pods i).heap.locked
  isFlushing : q.isFlushing = (g.pods i).isFlushing
  freeBuffer : q.freeBuffer = (g.pods i).freeBuffer
  rank : q.rank = (g.pods i).rank
  oldRank : q.oldRank = (g.pods i).oldRank
  landlord : q.landlordClient = none
  file : g'.files (path i) = none
  entries : ∀ client, g'.nodes i client = none

theorem Inv.diskToInit (hinj : Injective path) (hg : Inv L path b g h)
    (hs : (g.pods i).state = .disk) :
    GivenUp L path i ((g.pods i).diskToInit (L i) g.files).2 g
      { g.setPod i ((g.pods i).diskToInit (L i) g.files).2 with
        files := ((g.pods i).diskToInit (L i) g.files).1 } := by
  obtain ⟨m, -, hk⟩ := hg.pages i
  obtain ⟨-, -, hp, -, -, hl, hn⟩ := (hk.swapped (by simp [world, hs])).of_disk (.inl hs)
  have hp : (g.pods i).swapPath = path i := hp
  have hfs : ((g.pods i).diskToInit (L i) g.files).1 = update g.files (path i) none := by
    rw [← hp]
    rfl
  refine ⟨⟨rfl, rfl, fun _ _ => rfl, ?_, fun _ _ => rfl⟩, rfl, rfl, rfl, rfl, rfl, rfl, rfl, rfl,
    rfl, rfl, hl, ?_, hn⟩
  · intro j hj
    change ((g.pods i).diskToInit (L i) g.files).1 (path j) = _
    rw [hfs]
    exact update_of_ne (hinj.ne hj) _ _
  · change ((g.pods i).diskToInit (L i) g.files).1 (path i) = _
    rw [hfs, update_self]

/-- The release at the node changes nothing but the tail buffer, if it returns. -/
theorem Inv.remoteToInit (hg : Inv L path b g h) (hs : (g.pods i).state = .remote) :
    Yields Unreleased ((g.pods i).remoteToInit (L i) reply) (fun q =>
      GivenUp L path i q g ((g.eraseNode i).setPod i q)) := by
  obtain ⟨m, -, hk⟩ := hg.pages i
  obtain ⟨client, -, -, hf, -, hl, hn, -⟩ :=
    (hk.swapped (by simp [world, hs])).of_remote (.inl hs)
  have hl : (g.pods i).landlordClient = some client := hl
  have hn : g.nodes i = _ := hn
  simp only [Pod.remoteToInit, hl, eraseNode]
  refine World.Models.freePodInRemote_ok.bind ?_
  rintro _ ⟨t, rfl⟩
  refine ⟨⟨rfl, rfl, fun _ _ => rfl, fun _ _ => rfl, ?_⟩, rfl, rfl, rfl, rfl, rfl, rfl, rfl, rfl,
    rfl, rfl, rfl, hf, ?_⟩
  · exact fun j hj => update_of_ne hj _ _
  · intro c
    change update g.nodes i (eraseEntry (g.nodes i) client) i c = none
    rw [update_self, hn, World.eraseEntry_update]

theorem Inv.cleanup_cases (hinj : Injective path) (hg : Inv L path b g h)
    (run : g.remonCleanupEvicted L i reply = .ok g') :
    g' = g ∧ (g.pods i).state ≠ .disk ∧ (g.pods i).state ≠ .remote ∨
      ((g.pods i).state = .disk ∨ (g.pods i).state = .remote) ∧
        ∃ q, GivenUp L path i q g g' := by
  unfold remonCleanupEvicted toInit at run
  cases hs : (g.pods i).state with
  | disk =>
    simp only [hs, ne_eq, reduceCtorEq, not_false_eq_true, and_self, if_true,
      Except.ok.injEq] at run
    subst run
    exact .inr ⟨.inl rfl, _, hg.diskToInit hinj hs⟩
  | remote =>
    simp only [hs, ne_eq, reduceCtorEq, not_false_eq_true, and_self, if_true] at run
    obtain ⟨q, hq, hg'⟩ := of_bind_ok run
    obtain rfl := Except.ok.inj hg'
    exact .inr ⟨.inr rfl, q, (hg.remoteToInit hs).result hq⟩
  | init | local_ | localPinned | diskCache | remoteCache =>
    exact .inl ⟨by simpa [hs, eq_comm] using run, by simp, by simp⟩

/-- The release of a page at its node goes through. -/
def Releases (g : Pager) (i : ℕ) (reply : Option (List UInt8)) : Prop :=
  (g.pods i).debugTail ≠ .deleted ∧ ∀ e, replyCode reply ≠ some (.error e)

theorem Inv.remoteToInit_returns (hg : Inv L path b g h) (hs : (g.pods i).state = .remote) :
    (∃ q, (g.pods i).remoteToInit (L i) reply = .ok q) ↔ g.Releases i reply := by
  obtain ⟨client, hl⟩ := hg.landlord (.inl hs)
  simp only [Pod.remoteToInit, hl, Releases]
  by_cases hd : (g.pods i).debugTail = .deleted
  · rw [Pod.freePodInRemote_deleted hd]
    constructor
    · rintro ⟨q, hq⟩
      cases hq
    · exact fun hc => absurd hd hc.1
  rw [Pod.freePodInRemote_eq hd]
  cases hc : replyCode reply with
  | none => exact ⟨fun _ => ⟨hd, by simp⟩, fun _ => ⟨_, rfl⟩⟩
  | some r =>
    cases r with
    | ok code => exact ⟨fun _ => ⟨hd, by simp⟩, fun _ => ⟨_, rfl⟩⟩
    | error e =>
      constructor
      · rintro ⟨q, hq⟩
        cases hq
      · exact fun hr => absurd rfl (hr.2 e)

theorem Inv.cleanup_returns (hg : Inv L path b g h) :
    (∃ g', g.remonCleanupEvicted L i reply = .ok g') ↔
      ((g.pods i).state = .remote → g.Releases i reply) := by
  by_cases hs : (g.pods i).state = .remote
  · rw [← hg.remoteToInit_returns hs, remonCleanupEvicted, if_pos (by simp [hs]), toInit, hs]
    constructor
    · rintro ⟨g', run⟩ -
      obtain ⟨q, hq, -⟩ := of_bind_ok run
      exact ⟨q, hq⟩
    · intro hq
      obtain ⟨q, hq⟩ := hq rfl
      exact ⟨_, by rw [hq]; rfl⟩
  · refine ⟨fun _ hc => absurd hc hs, fun _ => ?_⟩
    unfold remonCleanupEvicted toInit
    cases hst : (g.pods i).state <;> first | exact absurd hst hs | exact ⟨_, rfl⟩

theorem Inv.givenUp {q : Pod} (hg : Inv L path b g h) (hn : g.splPushdown i = none)
    (hq : GivenUp L path i q g g') : Inv L path b g' h ∧ OnePod i g h g' h := by
  obtain ⟨hin, hsync⟩ := hg.unlisted i hn
  obtain ⟨hfresh, -⟩ := (hg.pages i).of_not_inited hin
  obtain ⟨m, hm, -⟩ := hg.pages i
  refine hg.loose hn hq.toSwaps hq.lists (congrFun hq.flushed i) ?_ hq.inited ?_ ?_
  · refine (World.models_init hq.state).mpr ⟨?_, hq.inited, hq.file, hq.landlord, hq.entries⟩
    refine ⟨.inr ⟨hq.inited, hfresh⟩, ?_, ?_, ?_, ?_⟩
    · exact fun hc => hm.locked (hq.locked.symm.trans hc)
    · exact hq.isFlushing.trans hm.idle
    · rw [hq.freeBuffer]
      exact hm.nodup
    · rw [hq.freeBuffer]
      exact hm.pending
  · rw [hq.oldRank, hq.rank, hsync]
  · exact fun ha => absurd hq.state ha.1

end Pager

namespace Manager

variable (c : Setup) (path : ℕ → String)

def remonCleanupEvicted (m : Manager) (addr : ℕ) (reply : Option (List UInt8)) :
    Except Fault Manager := do
  let g ← m.toPager.remonCleanupEvicted c.L (c.getResponsiblePod addr) reply
  return { m with toPager := g }

/-- The caller holds the block at this address. -/
def Holds (m : Manager) (addr : ℕ) : Prop :=
  (∃ x ∈ m.live, x.ptr = addr) ∨ ∃ z ∈ m.huge, (c.L z.head).payloadStart = addr

/-- Runs in which pages are also demoted, none of them the last of its list, and huge blocks are
cleaned up. -/
inductive CleanRun : Manager → Prop
  | start : CleanRun new
  | step {m m' : Manager} {cmd : Cmd} (hm : CleanRun m) (hlegal : m.Legal c cmd)
      (run : m.step c path cmd = .ok m') : CleanRun m'
  | demote {m m' : Manager} {i : ℕ} {localCopy : List (ℕ × SaveScript)} (hm : CleanRun m)
      (hlegal : m.toSession.Legal c.L (.asyncSwapOutPod i localCopy))
      (horderly : m.toSession.Orderly (.asyncSwapOutPod i localCopy))
      (run : m.call c path (.asyncSwapOutPod i localCopy) = .ok m') : CleanRun m'
  | cleanup {m m' : Manager} {addr : ℕ} {reply : Option (List UInt8)} (hm : CleanRun m)
      (hheld : m.Holds c addr) (hhuge : m.splPushdown (c.getResponsiblePod addr) = none)
      (run : m.remonCleanupEvicted c addr reply = .ok m') : CleanRun m'

variable {c path} {b : Prop} {m m' : Manager} {h h' : ∀ i, AbsHeap (c.L i)} {i : ℕ}

/-- An operation on one page that leaves the lists and the buffers alone. -/
theorem Inv.onePod {s : Session} (hm : m.Inv c path b h) (hs : s.Inv c.L path b h')
    (ho : Pager.OnePod i m.toPager h s.toPager h') (hmade : s.Made)
    (hpinned : (m.pods i).state = .localPinned → (s.pods i).state = .localPinned) :
    Inv c path b { m with toSession := s } h' := by
  refine ⟨hs, hmade, hm.holdings, ?_, ?_, ?_, hm.homes.nodup⟩
  · intro j l hl
    refine hm.homes.listed j l ?_
    rwa [Pager.Of, ← congrFun ho.home j]
  · intro j hj
    obtain ⟨h1, h2⟩ := hm.homes.fetched j hj
    exact ⟨h1, (congrFun ho.home j).trans h2⟩
  · intro j hj
    obtain ⟨h1, h2, h3⟩ := hm.homes.buffered j hj
    refine ⟨h1, (congrFun ho.home j).trans h2, Session.pinned_onePod ho h3 ?_⟩
    rintro rfl
    exact hpinned h3

/-- Clean-ups of pages without an allocator are steps like any other. -/
theorem CleanRun.inv (hinj : Injective path) (hm : CleanRun c path m) :
    ∃ h, m.Inv c path True h := by
  induction hm with
  | start => exact ⟨fun i => .fresh (c.L i), inv_new (fun _ => rfl)⟩
  | step _ hlegal run ih =>
    obtain ⟨h, hi⟩ := ih
    obtain ⟨h', hi', -⟩ := hi.step hinj hlegal (sized_true _) run
    exact ⟨h', hi'⟩
  | demote _ hlegal horderly run ih =>
    obtain ⟨h, hi⟩ := ih
    obtain ⟨s, hs, hm'⟩ := of_bind_ok run
    obtain rfl := Except.ok.inj hm'
    obtain ⟨h', ha⟩ := (hi.session.step hinj hlegal trivial horderly).result hs
    obtain ⟨hone, hout⟩ := ha.did
    exact ⟨h', hi.onePod ha.inv hone (hi.made.evicted hone hout)
      (fun hp => Session.pinned_evicted hout hp)⟩
  | cleanup _ _ hhuge run ih =>
    obtain ⟨h, hi⟩ := ih
    obtain ⟨g, hg, hm'⟩ := of_bind_ok run
    obtain rfl := Except.ok.inj hm'
    rcases hi.session.pager.cleanup_cases hinj hg with ⟨rfl, -⟩ | ⟨hs, q, hq⟩
    · exact ⟨h, hi⟩
    · obtain ⟨hinv, hone⟩ := hi.session.pager.givenUp hhuge hq
      refine ⟨h, hi.onePod (hi.session.onePod hinv hone) hone ?_ ?_⟩
      · exact hi.made.onePod hone fun l hl => nomatch hhuge.symm.trans hl
      · intro hp
        rcases hs with hs | hs <;> simp [hp] at hs

variable (c path) in
/-- The clean-up returns, leaves the bytes of all other blocks as they are, and the page of the
block is given back or was in memory before, with no copy of it left. -/
def CleansUp (m : Manager) (addr : ℕ) (reply : Option (List UInt8)) : Prop :=
  ∃ m', m.remonCleanupEvicted c addr reply = .ok m' ∧ m'.live = m.live ∧ m'.huge = m.huge ∧
    (∀ r ∈ m.allocations c, r.1 ≠ addr → ∀ a, r.1 ≤ a → a < r.1 + r.2 →
      m'.byte c path a = m.byte c path a) ∧
    ((m'.pods (c.getResponsiblePod addr)).state = .init ∨
      (m.pods (c.getResponsiblePod addr)).state = .local_) ∧
    m'.files (path (c.getResponsiblePod addr)) = none ∧
    ∀ client, m'.nodes (c.getResponsiblePod addr) client = none

variable (c path) in
structure Cleanable (m : Manager) (addr : ℕ) (reply : Option (List UInt8)) : Prop where
  state : (m.pods (c.getResponsiblePod addr)).state ∈ [PodState.init, .local_, .disk, .remote]
  /-- no other block has anything on a page that is swapped out -/
  blank : (m.pods (c.getResponsiblePod addr)).state ∈ [PodState.disk, .remote] →
    ∀ r ∈ m.allocations c, r.1 ≠ addr → ∀ a, r.1 ≤ a → a < r.1 + r.2 →
      c.getResponsiblePod a = c.getResponsiblePod addr → m.byte c path a = 0
  releases : (m.pods (c.getResponsiblePod addr)).state = .remote →
    m.Releases (c.getResponsiblePod addr) reply

theorem Inv.byte_givenUp {g : Pager} {q : Pod} {r : ℕ × ℕ} {a : ℕ} (hm : m.Inv c path b h)
    (hq : Pager.GivenUp c.L path i q m.toPager g) (hr : r ∈ m.allocations c) (h1 : r.1 ≤ a)
    (h2 : a < r.1 + r.2) : ({ m with toPager := g } : Manager).byte c path a =
      if c.getResponsiblePod a = i then 0 else m.byte c path a := by
  split
  · next hi =>
    obtain ⟨-, hlow, hhigh⟩ := hm.allocations_placed r hr
    obtain ⟨-, hstart, hend⟩ := inPage (hlow.trans h1) (h2.trans_le hhigh)
    have hpod : g.pods i = q := by rw [hq.pods, update_self]
    have hres : g.Resident (c.getResponsiblePod a) := .inl (by rw [hi, hpod, hq.state])
    rw [byte, Pager.byteAt_resident hres, hi, hpod, hq.mem]
    rw [hi] at hstart hend
    exact Mem.zero_apply_of_mem hstart hend
  · next hi =>
    refine Pager.byteAt_congr ?_ (hq.files _ hi) (hq.nodes _ hi)
    rw [hq.pods, update_of_ne hi]

/-- A clean-up does what it is called for if and only if the page of the block is
in memory, not in use, on disk or at a node, the bytes of other blocks on it are all zero if it is
swapped out, and its node can be told. -/
theorem cleanup_spares_others {swapDir : String} {addr : ℕ} {reply : Option (List UInt8)}
    (hm : CleanRun c (swapFile swapDir) m) :
    m.CleansUp c (swapFile swapDir) addr reply ↔ m.Cleanable c (swapFile swapDir) addr reply := by
  have hinj := swapFile_injective swapDir
  obtain ⟨h, hi⟩ := hm.inv hinj
  have hg := hi.session.pager
  constructor
  · rintro ⟨m', run, -, -, hbytes, hstate, -, -⟩
    obtain ⟨g, hrun, hm'⟩ := of_bind_ok run
    obtain rfl := Except.ok.inj hm'
    refine ⟨?_, ?_, hg.cleanup_returns.mp ⟨g, hrun⟩⟩
    · rcases hg.cleanup_cases hinj hrun with ⟨rfl, -⟩ | ⟨hs, -⟩
      · have hstate : (m.pods (c.getResponsiblePod addr)).state = .init ∨
            (m.pods (c.getResponsiblePod addr)).state = .local_ := hstate
        rcases hstate with hs | hs <;> simp [hs]
      · rcases hs with hs | hs <;> simp [hs]
    · intro hs r hr hne a h1 h2 hpage
      rcases hg.cleanup_cases hinj hrun with ⟨rfl, hd, hn⟩ | ⟨-, q, hq⟩
      · simp [hd, hn] at hs
      · rw [← hbytes r hr hne a h1 h2, hi.byte_givenUp hq hr h1 h2, if_pos hpage]
  · rintro ⟨hstate, hblank, hreleases⟩
    obtain ⟨g, hrun⟩ := hg.cleanup_returns.mpr hreleases
    refine ⟨{ m with toPager := g }, by rw [remonCleanupEvicted, hrun]; rfl, rfl, rfl, ?_⟩
    rcases hg.cleanup_cases hinj hrun with ⟨rfl, hd, hn⟩ | ⟨hs, q, hq⟩
    · refine ⟨fun _ _ _ _ _ _ => rfl, ?_⟩
      simp only [mem_cons, not_mem_nil, or_false, hd, hn] at hstate
      rcases hstate with hs | hs
      · obtain ⟨-, -, hf, -, hn⟩ := (World.models_init hs).mp (hg.pages _)
        exact ⟨.inl hs, hf, hn⟩
      · obtain ⟨-, -, hf, -, hn⟩ := (World.models_resident (.inl hs)).mp (hg.pages _)
        exact ⟨.inr hs, hf, hn⟩
    · refine ⟨?_, .inl ?_, hq.file, hq.entries⟩
      · intro r hr hne a h1 h2
        rw [hi.byte_givenUp hq hr h1 h2]
        split
        · next hpage => exact (hblank (by simpa using hs) r hr hne a h1 h2 hpage).symm
        · rfl
      · change (g.pods _).state = _
        rw [hq.pods, update_self]
        exact hq.state

/-! ## Pages that are shared and pages that are cached -/

theorem CleanRun.of_run {ok : Manager → Cmd → Prop} (hm : Run c path ok m) :
    CleanRun c path m := by
  induction hm with
  | start => exact .start
  | step _ hlegal _ run ih => exact ih.step hlegal run

variable (c) in
def cleaned (m : Manager) (addr : ℕ) (reply : Option (List UInt8)) : Manager :=
  match m.remonCleanupEvicted c addr reply with
  | .ok m' => m'
  | .error _ => m

theorem cleaned_eq {addr : ℕ} {reply : Option (List UInt8)}
    (hrun : (m.remonCleanupEvicted c addr reply).isOk = true) :
    m.remonCleanupEvicted c addr reply = .ok (m.cleaned c addr reply) := by
  rw [cleaned]
  cases hr : m.remonCleanupEvicted c addr reply with
  | ok m' => rfl
  | error e => simp [hr, Except.isOk, Except.toBool] at hrun

def sampleAlone : Manager :=
  ((sampleTwoPages.after sampleFill (swapFile "swap") (.remonFree 6128)).after
    sampleFill (swapFile "swap") (.store 1 8216 7)).after
    sampleFill (swapFile "swap") (.pickPodToEvict 0 [])

theorem sampleAlone_run : Run sampleFill (swapFile "swap") (fun _ _ => True) sampleAlone := by
  have h1 := (sampleTwoPages_run.mono fun _ _ _ => trivial).after (.remonFree 6128)
    (.inl ⟨⟨0, 6128, 2016⟩, by decide +kernel, rfl⟩) trivial (by decide +kernel)
  have h2 := h1.after (.store 1 8216 7) (.inr ⟨by decide +kernel, ⟨1, 8208, 2016⟩,
    by decide +kernel, rfl, by decide, by decide⟩) trivial (by decide +kernel)
  exact h2.after _ legal_evict trivial (by decide +kernel)

theorem sampleAlone_allocations :
    sampleAlone.allocations sampleFill = [(8208, 2000), (4112, 2000)] := by decide +kernel

/-- The clean-up of the block that is left on page 0 keeps the block on page 1. -/
theorem cleanup_spares_others_sample :
    sampleAlone.Holds sampleFill 4112 ∧ ∃ m',
      sampleAlone.remonCleanupEvicted sampleFill 4112 none = .ok m' ∧
      (8208, 2000) ∈ sampleAlone.allocations sampleFill ∧
      sampleAlone.byte sampleFill (swapFile "swap") 8216 = 7 ∧
      m'.byte sampleFill (swapFile "swap") 8216 = 7 ∧ m'.files (swapFile "swap" 0) = none := by
  have hpage : sampleFill.getResponsiblePod 4112 = 0 := by decide +kernel
  have hstate : (sampleAlone.pods 0).state = .disk := by decide +kernel
  have hbyte : sampleAlone.byte sampleFill (swapFile "swap") 8216 = 7 := by decide +kernel
  have hmem : (8208, 2000) ∈ sampleAlone.allocations sampleFill := by
    rw [sampleAlone_allocations]
    decide
  have hclean : sampleAlone.Cleanable sampleFill (swapFile "swap") 4112 none := by
    refine ⟨by rw [hpage, hstate]; decide, ?_, fun hc => ?_⟩
    · intro _ r hr hne a h1 h2 ha
      rw [sampleAlone_allocations] at hr
      rw [hpage] at ha
      have ha : (a - 4096) / 4096 = 0 := ha
      rcases mem_cons.mp hr with rfl | hr
      · exact absurd ha (by simp only at h1; omega)
      · exact absurd (congrArg Prod.fst (mem_singleton.mp hr)) hne
    · rw [hpage, hstate] at hc
      cases hc
  obtain ⟨m', hrun, -, -, hbytes, -, hfile, -⟩ :=
    (cleanup_spares_others (.of_run sampleAlone_run)).mpr hclean
  rw [hpage] at hfile
  refine ⟨.inl ⟨⟨0, 4112, 2016⟩, by decide +kernel, rfl⟩, m', hrun, hmem, hbyte, ?_, hfile⟩
  rw [hbytes _ hmem (by decide) 8216 (by decide) (by decide), hbyte]

/-- The second block of page 0 has a 7, and page 0 is swapped out. -/
def sampleShared : Manager :=
  (sampleTwoPages.after sampleFill (swapFile "swap") (.store 0 6136 7)).after
    sampleFill (swapFile "swap") (.pickPodToEvict 0 [])

theorem sampleShared_run : Run sampleFill (swapFile "swap") (fun _ _ => True) sampleShared := by
  have h1 := (sampleTwoPages_run.mono fun _ _ _ => trivial).after (.store 0 6136 7)
    (.inr ⟨by decide +kernel, ⟨0, 6128, 2016⟩, by decide +kernel, rfl, by decide, by decide⟩)
    trivial (by decide +kernel)
  exact h1.after _ legal_evict trivial (by decide +kernel)

def sampleAhead : Manager :=
  ((sampleBlock sampleInside).after sampleInside (swapFile "swap") (.pickPodToEvict 0 [])).after
    sampleInside (swapFile "swap") (.prefetchPod 0 Session.sampleFetch)

theorem sampleAhead_run :
    Run sampleInside (swapFile "swap") (fun _ _ => True) sampleAhead := by
  have h1 : Run sampleInside (swapFile "swap") (fun _ _ => True) _ :=
    Run.after (Serves.run (by decide +kernel)) (.pickPodToEvict 0 []) legal_evict trivial
      (by decide +kernel)
  exact h1.after (.prefetchPod 0 Session.sampleFetch)
    ⟨Pager.honest_of_none (by decide +kernel), by decide +kernel⟩ trivial (by decide +kernel)

/-- The clean-up of the first block on a page destroys the second one, which would have come
back with its byte. And a page that was read ahead keeps its state and its file. -/
theorem cleanup_destroys_others :
    (CleanRun sampleFill (swapFile "swap") sampleShared ∧ sampleShared.Holds sampleFill 4112 ∧
      (⟨0, 6128, 2016⟩ : Grant) ∈ sampleShared.live ∧
      ((sampleShared.after sampleFill (swapFile "swap")
        (.activatePod 0 Session.sampleFetch)).pods 0).mem 6136 = 7 ∧
      ∃ m', sampleShared.remonCleanupEvicted sampleFill 4112 none = .ok m' ∧
        (⟨0, 6128, 2016⟩ : Grant) ∈ m'.live ∧ m'.files (swapFile "swap" 0) = none ∧
        ((m'.after sampleFill (swapFile "swap")
          (.activatePod 0 Session.sampleFetch)).pods 0).mem 6136 = 0) ∧
    CleanRun sampleInside (swapFile "swap") sampleAhead ∧ sampleAhead.Holds sampleInside 4096 ∧
      (sampleAhead.pods 0).state = .diskCache ∧
      ∃ m', sampleAhead.remonCleanupEvicted sampleInside 4096 none = .ok m' ∧
        (m'.pods 0).state = .diskCache ∧ m'.files (swapFile "swap" 0) ≠ none :=
  ⟨⟨.of_run sampleShared_run, .inl ⟨⟨0, 4112, 2016⟩, by decide +kernel, rfl⟩,
    by decide +kernel, by decide +kernel, _, cleaned_eq (by decide +kernel), by decide +kernel,
    by decide +kernel, by decide +kernel⟩, .of_run sampleAhead_run,
    .inr ⟨⟨0, 2, 8192, 2⟩, by decide +kernel, rfl⟩, by decide +kernel, _,
    cleaned_eq (by decide +kernel), by decide +kernel, by decide +kernel⟩

end Manager

end Remon
