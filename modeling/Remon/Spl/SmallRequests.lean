import Remon.Spl.Calls

/-! # Requests at the bounds of a page

`remonMalloc` sends a request to the lists of pods when it is at most four words shorter than a
page, and rounds it up only afterwards; the allocator of a page compares the rounded size with
the same bound. Requests between the two are refused by every page, a new one included. The
allocator refuses a size of zero and a size above the bound with its mutex held.
-/

namespace Remon
open Function Lib Heap Fault List

/-! ## Rounding -/

def computeAsize (size : ℕ) : ℕ :=
  if size ≤ dsize then dsize + overhead
  else dsize * ((size + overhead + dsize - 1) / dsize)

/-- The test by which `remonMalloc` takes the path of small requests. -/
def isSmall (pageSize size : ℕ) : Bool := !decide (size > pageSize - qsize)

theorem asize_computeAsize (size : ℕ) : Asize (computeAsize size) := by
  unfold Asize computeAsize overhead dsize
  split <;> omega

theorem le_computeAsize (size : ℕ) : size + overhead ≤ computeAsize size := by
  unfold computeAsize overhead dsize
  split <;> omega

variable {L : Layout}

theorem computeAsize_le {size : ℕ} (h : size + 48 ≤ L.payloadSize) :
    computeAsize size ≤ L.maxIntraPodSize := by
  have hpage := L.size_page
  have hge := L.size_ge
  unfold computeAsize PageSpan.maxIntraPodSize overhead dsize qsize
  split <;> omega

theorem lt_computeAsize {size : ℕ} (h : L.payloadSize < size + 48) :
    L.maxIntraPodSize < computeAsize size := by
  have hle := le_computeAsize size
  have hge := L.size_ge
  unfold overhead dsize at hle
  unfold PageSpan.maxIntraPodSize qsize
  omega

def smallRequest (L : Layout) (size : ℕ) (h : size + 48 ≤ L.payloadSize) : Request L :=
  ⟨computeAsize size, (asize_computeAsize size).1, (asize_computeAsize size).2, computeAsize_le h⟩

/-! ## Refused requests -/

namespace Heap

/-- The allocators of a page together with the blocks that are held: not made yet, or reached
from the making of the heap. -/
def Session.Reached (L : Layout) (σ : Session) : Prop :=
  Session.Reachable L σ ∨ ∃ m, σ = ⟨⟨m, false, false⟩, []⟩

theorem malloc_refused {s s' : State} {h : AbsHeap L} {size : ℕ} (hr : Rep s h) (hpos : 0 < size)
    (hle : size ≤ L.maxIntraPodSize) (hm : malloc L s size = .ok (0, s')) :
    s' = s ∧ h.firstFit size = none := by
  rw [malloc_eq hr hpos hle] at hm
  cases hff : h.firstFit size with
  | none =>
    rw [hff] at hm
    cases hm
    exact ⟨rfl, rfl⟩
  | some p =>
    have hp0 : p ≠ 0 := hr.spells.ne_zero (firstFit_some hff).1
    rw [hff] at hm
    dsimp only at hm
    cases ht : takeBlock L s.mem p (h.sizeAt p) size with
    | error e =>
      rw [ht] at hm
      cases hm
    | ok m =>
      rw [ht] at hm
      exact absurd (Prod.mk.inj (Except.ok.inj hm)).1 hp0

theorem firstFit_fresh {size : ℕ} (hle : size ≤ L.maxIntraPodSize) :
    (AbsHeap.fresh L).firstFit size = some L.firstBlock := by
  have hfit : size ≤ (AbsHeap.fresh L).sizeAt L.firstBlock := by
    rw [AbsHeap.sizeAt_fresh]
    unfold PageSpan.maxIntraPodSize qsize at hle
    omega
  have hlist : (AbsHeap.fresh L).freeList = [L.firstBlock] := rfl
  rw [AbsHeap.firstFit, hlist, List.find?_cons, decide_eq_true hfit]

theorem malloc_unmade {m : Mem} {s' : State} {size : ℕ} (hpos : 0 < size)
    (hle : size ≤ L.maxIntraPodSize) : malloc L ⟨m, false, false⟩ size ≠ .ok (0, s') := by
  intro hm
  have hpage : Page ⟨m, false, false⟩ (AbsHeap.fresh L) := .inr ⟨rfl, rfl⟩
  obtain ⟨m', hm', hsp⟩ := hpage.heapInit
  rw [malloc_eq_inited rfl hm'] at hm
  have hno := (malloc_refused hsp.rep hpos hle hm).2
  rw [firstFit_fresh hle] at hno
  cases hno

theorem malloc_rejected {σ : Session} {size : ℕ} (hσ : σ.Reached L)
    (hsize : size = 0 ∨ L.maxIntraPodSize < size) :
    ∃ s', malloc L σ.heap size = .ok (0, s') ∧ s'.locked = true := by
  rcases hσ with hσ | ⟨m, rfl⟩
  · obtain ⟨h, hh⟩ := hσ.holds
    have hst : σ.heap = ⟨σ.heap.mem, true, false⟩ := by
      rw [← hh.rep.inited, ← hh.rep.unlocked]
    rw [hst, malloc_outside hsize]
    exact ⟨_, rfl, rfl⟩
  · have hpage : Page ⟨m, false, false⟩ (AbsHeap.fresh L) := .inr ⟨rfl, rfl⟩
    obtain ⟨m', hm', -⟩ := hpage.heapInit
    rw [malloc_eq_inited rfl hm', malloc_outside hsize]
    exact ⟨_, rfl, rfl⟩

/-- A refusal of `size` bytes leaves the allocator as it was, with its mutex free: the next request
and the next release go through. -/
def Session.RefusesCleanly (L : Layout) (σ : Session) (size : ℕ) : Prop :=
  ∀ s', malloc L σ.heap size = .ok (0, s') → s'.locked = false ∧ s' = σ.heap ∧
    (∀ a, LegalSize L a → ∃ r, malloc L s' a = .ok r) ∧ ∀ bp ∈ σ.live, ∃ t, free L s' bp = .ok t

/-- Refusals change nothing for exactly the sizes that pass the checks of the allocator. -/
theorem refusal_changes_nothing (σ : Session) {size : ℕ} (hσ : σ.Reached L) :
    σ.RefusesCleanly L size ↔ 0 < size ∧ size ≤ L.maxIntraPodSize := by
  constructor
  · intro hclean
    by_contra hsize
    have hout : size = 0 ∨ L.maxIntraPodSize < size := by omega
    obtain ⟨s', hm, hl⟩ := malloc_rejected hσ hout
    exact absurd (hl.symm.trans (hclean s' hm).1) (by simp)
  · rintro ⟨hpos, hle⟩ s' hm
    rcases hσ with hσ | ⟨m, rfl⟩
    · obtain ⟨h, hh⟩ := hσ.holds
      obtain ⟨rfl, -⟩ := malloc_refused hh.rep hpos hle hm
      refine ⟨hh.rep.unlocked, rfl, ?_, ?_⟩
      · intro a ha
        obtain ⟨p, t, ht, -⟩ := hh.malloc ha.request
        exact ⟨_, ht⟩
      · intro bp hbp
        obtain ⟨t, ht, -⟩ := hh.free hbp
        exact ⟨t, ht⟩
    · exact absurd hm (malloc_unmade hpos hle)

theorem refusal_changes_nothing_sample : Session.Reachable Session.sampleLayout
      ⟨Session.sampleHeap, [4112]⟩ ∧
    ∃ s', malloc Session.sampleLayout Session.sampleHeap 4064 = .ok (0, s') ∧
      s' = Session.sampleHeap ∧
      ∃ t, free Session.sampleLayout s' 4112 = .ok t := by
  have hreach := Session.sample_reachable
  have hfst : (malloc Session.sampleLayout Session.sampleHeap 4064).toOption.map Prod.fst =
    some 0 := by
    decide +kernel
  obtain ⟨s', hm⟩ := exists_ok hfst
  obtain ⟨-, hsame, -, hfree⟩ :=
    (refusal_changes_nothing _ (.inl hreach)).mpr ⟨by decide, by decide⟩ s' hm
  exact ⟨hreach, s', hm, hsame, hfree 4112 (mem_singleton_self 4112)⟩

/-- Zero bytes, and 4064 bytes after rounding, are refused with the mutex held; after that no
request and no release on the page returns. -/
theorem refusal_keeps_mutex : Session.Reachable Session.sampleLayout ⟨Session.sampleHeap, [4112]⟩ ∧
    isSmall Session.sampleLayout.payloadSize 4064 = true ∧
    ∀ size ∈ [0, computeAsize 4064], ∃ s', malloc Session.sampleLayout Session.sampleHeap size =
        .ok (0, s') ∧ s'.locked = true ∧
      (∀ a, malloc Session.sampleLayout s' a = .error .deadlock) ∧
      free Session.sampleLayout s' 4112 = .error .deadlock := by
  refine ⟨Session.sample_reachable, by decide, ?_⟩
  intro size hsize
  have hout : size = 0 ∨ Session.sampleLayout.maxIntraPodSize < size := by
    rcases mem_pair.mp hsize with rfl | rfl
    · exact .inl rfl
    · exact .inr (lt_computeAsize (by decide))
  obtain ⟨s', hm, hl⟩ := malloc_rejected (.inl Session.sample_reachable) hout
  exact ⟨s', hm, hl, fun a => malloc_locked hl, free_locked hl⟩

/-! ### A page with one free block -/

section OneBlock

variable {L : PageSpan} {m : Mem} {n a : ℕ}

/-- A request leaves of the one free block at most one free block. -/
theorem OneBlock.takeBlock (ho : OneBlock L m n) (ha : Asize a) (han : a ≤ n) (hal : n % 16 = 0)
    (hle : n + 16 ≤ L.payloadSize) :
    ∃ m', takeBlock L m L.firstBlock n a = .ok m' ∧ a ≤ getBlockSize m' L.firstBlock ∧
      (freeHead L m' = 0 ∨ m'.get (freeHead L m') = 0) := by
  obtain ⟨ha, ha16⟩ := ha
  have hend := L.end_lt
  have hout := L.freeHead_outside
  have hpos := L.freeHead_pos
  have hb : L.firstBlock = L.payloadStart + 16 := rfl
  have hpop : popFreeBlockOut m L.firstBlock = m.put L.freeHeadAddr 0 := by
    rw [popFreeBlockOut_eq ho.prev ho.next L.freeHead_pos.ne']
    rfl
  have htake := takeBlock_eq (L := L) (m := m) (p := L.firstBlock) (b := ⟨n, true⟩) (by omega) ha
    han hal ha16 (by dsimp only; omega)
  have hsize : ∀ (M : Mem) k, k % 16 = 0 → M.get (L.firstBlock - 8) = k + 1 →
      getBlockSize M L.firstBlock = k := by
    intro M k hk hM
    rw [getBlockSize, hdrp, wsize, getSize_of_get hM]
    omega
  rw [hpop] at htake
  by_cases hr : n - a < 32
  · simp only [hr, if_true, pieces, draw_cons, draw_nil, tag, Bool.false_eq_true, if_false]
      at htake
    refine ⟨_, htake, ?_, .inl ?_⟩
    · rw [hsize _ n hal (retag_get (by omega) (by omega) (by omega)).1]
      exact han
    · simp (disch := omega) only [freeHead, retag, Mem.get_put_of_disjoint]
      exact Mem.get_put_self _ (by norm_num)
  · simp only [hr, if_false, pieces, draw_cons, draw_nil, tag, Bool.false_eq_true, if_true,
      Nat.add_zero] at htake
    have hhead : freeHead L (retag (retag (m.put L.freeHeadAddr 0) L.firstBlock a (a + 1))
        (L.firstBlock + a) (n - a) (n - a)) = 0 := by
      simp (disch := omega) only [freeHead, retag, Mem.get_put_of_disjoint]
      exact Mem.get_put_self _ (by norm_num)
    have hsz : (retag (retag (m.put L.freeHeadAddr 0) L.firstBlock a (a + 1))
        (L.firstBlock + a) (n - a) (n - a)).get (L.firstBlock - 8) = a + 1 := by
      rw [retag, Mem.get_put_of_disjoint _ (by omega), Mem.get_put_of_disjoint _ (by omega)]
      exact (retag_get (by omega) ha (by omega)).1
    generalize retag (retag (m.put L.freeHeadAddr 0) L.firstBlock a (a + 1))
      (L.firstBlock + a) (n - a) (n - a) = M at htake hhead hsz
    have hin : ((((M.put (L.firstBlock + a) 0).put L.freeHeadAddr (L.firstBlock + a)).put
        (L.firstBlock + a + 8) L.freeHeadAddr).get L.freeHeadAddr) = L.firstBlock + a := by
      rw [Mem.get_put_of_disjoint _ (by omega)]
      exact Mem.get_put_self _ (by omega)
    have hput : freeHead L (M.put (L.firstBlock + a) 0) = 0 := by
      rw [freeHead, Mem.get_put_of_disjoint _ (by omega)]
      exact hhead
    simp only [insertAtFreeHead, nextFree, prevFree, wsize, hhead, hput, ne_eq, not_true, if_false]
      at htake
    rw [freeHead, hin, if_neg (by omega)] at htake
    refine ⟨_, htake, ?_, .inr ?_⟩
    · rw [hsize _ a ha16]
      simp (disch := omega) only [Mem.get_put_of_disjoint]
      exact hsz
    · rw [freeHead, hin, Mem.get_put_of_disjoint _ (by omega),
        Mem.get_put_of_disjoint _ (by omega)]
      exact Mem.get_put_self _ (by norm_num)

theorem OneBlock.getBlockSize_eq (ho : OneBlock L m n) (hal : n % 16 = 0) :
    getBlockSize m L.firstBlock = n := by
  rw [getBlockSize, hdrp, wsize, getSize_of_get ho.header, hal, Nat.sub_zero]

theorem OneBlock.malloc_eq {s : State} (ho : OneBlock L s.mem n) (hin : s.inited = true)
    (hlock : s.locked = false) (hal : n % 16 = 0) (ha : Asize a) (hmax : a ≤ L.maxIntraPodSize) :
    malloc L s a =
      if a ≤ n then do
        let m ← Heap.takeBlock L s.mem L.firstBlock n a
        return (L.firstBlock, ⟨m, true, false⟩)
      else .ok (0, ⟨s.mem, true, false⟩) := by
  obtain ⟨m, inited, locked⟩ := s
  obtain rfl : inited = true := hin
  obtain rfl : locked = false := hlock
  obtain ⟨k, hk⟩ : ∃ k, L.payloadSize = k + 1 := ⟨L.payloadSize - 1, by have := L.size_pos; omega⟩
  have hne : L.firstBlock ≠ 0 := by
    unfold PageSpan.firstBlock
    omega
  have ha0 : a ≠ 0 := by have := ha.1; omega
  by_cases han : a ≤ n
  · simp [malloc, heapInit, ha0, Nat.not_lt.mpr hmax, ho.head, hne, hk, findFit,
      ho.getBlockSize_eq hal, han]
  · simp [malloc, heapInit, ha0, Nat.not_lt.mpr hmax, ho.head, hne, hk, findFit,
      ho.getBlockSize_eq hal, han, nextFree, ho.next]

theorem OneBlock.malloc_fits {s : State} (ho : OneBlock L s.mem n) (hin : s.inited = true)
    (hlock : s.locked = false) (ha : Asize a) (han : a ≤ n) (hal : n % 16 = 0)
    (hle : n + 32 ≤ L.payloadSize) :
    ∃ m', malloc L s a = .ok (L.firstBlock, ⟨m', true, false⟩) ∧
      a ≤ getBlockSize m' L.firstBlock ∧ (freeHead L m' = 0 ∨ m'.get (freeHead L m') = 0) := by
  have hmax : a ≤ L.maxIntraPodSize := by
    unfold PageSpan.maxIntraPodSize qsize
    omega
  obtain ⟨m', htake, hblock, hlist⟩ := ho.takeBlock ha han hal (by omega)
  refine ⟨m', ?_, hblock, hlist⟩
  rw [ho.malloc_eq hin hlock hal ha hmax, if_pos han, htake]
  rfl

theorem OneBlock.malloc_large {s : State} (ho : OneBlock L s.mem n) (hin : s.inited = true)
    (hlock : s.locked = false) (hal : n % 16 = 0) (ha : Asize a) (han : n < a) :
    ∃ t, malloc L s a = .ok (0, t) := by
  by_cases hmax : a ≤ L.maxIntraPodSize
  · exact ⟨_, (ho.malloc_eq hin hlock hal ha hmax).trans (if_neg (Nat.not_le.mpr han))⟩
  · obtain ⟨m, inited, locked⟩ := s
    obtain rfl : inited = true := hin
    obtain rfl : locked = false := hlock
    exact ⟨_, malloc_outside (.inr (Nat.lt_of_not_le hmax))⟩

theorem maxAllocatableSize_short {s : State} (hin : s.inited = true)
    (hlist : freeHead L s.mem = 0 ∨ s.mem.get (freeHead L s.mem) = 0) :
    ∃ k, maxAllocatableSize L s = .ok (k, s) := by
  obtain ⟨k, hk⟩ : ∃ k, L.payloadSize = k + 1 := ⟨L.payloadSize - 1, by have := L.size_pos; omega⟩
  by_cases h0 : freeHead L s.mem = 0
  · exact ⟨0, by simp [maxAllocatableSize, heapInit, hin, h0, ok_bind, pure_eq]⟩
  · have hnext := hlist.resolve_left h0
    simp [maxAllocatableSize, heapInit, hin, h0, hk, maxOnList, nextFree, hnext, ok_bind,
      pure_eq]

end OneBlock

end Heap

/-! ## A new page -/

/-- A page as the buffer of new pods hands it out. -/
structure Pod.Unused (p : Pod) : Prop where
  state : p.state = .local_
  prot : p.prot = .readWrite
  unmade : p.heap.inited = false
  unlocked : p.heap.locked = false
  idle : p.isFlushing = false
  freeBuffer : p.freeBuffer = []

theorem Pod.updateRank_of_max {L : PageSpan} {p : Pod} {k : ℕ}
    (hmax : Heap.maxAllocatableSize L p.heap = .ok (k, p.heap)) :
    ∃ u q, p.updateRank L = .ok (u, q) ∧ q.heap = p.heap := by
  refine ⟨decide (k ≠ p.oldRank), { p with rank := k, oldRank := k }, ?_, rfl⟩
  rw [Pod.updateRank, Pod.maxAllocatableSize, hmax]
  rfl

namespace SplState

/-- The part of `remonMalloc` that serves a small request with a new pod. -/
def mallocOnNewPod (L : ℕ → PageSpan) (s : SplState) (newPod size : ℕ) :
    Except Fault (ℕ × SplState) := do
  let p ← (s.pods newPod).heapInit (L newPod)
  (s.setPod newPod p).addPodAndAllocate L newPod (computeAsize size)

/-- The new pod has a block with room for the request. -/
def NewPodServes (L : ℕ → PageSpan) (s : SplState) (i size : ℕ) : Prop :=
  ∃ ptr s', s.mallocOnNewPod L i size = .ok (ptr, s') ∧ ptr ≠ 0 ∧
    size ≤ getBlockSize (s'.pods i).mem ptr - overhead

theorem mallocOnNewPod_congr {L L' : ℕ → PageSpan} {s : SplState} {i size : ℕ} (h : L i = L' i) :
    s.mallocOnNewPod L i size = s.mallocOnNewPod L' i size := by
  simp only [mallocOnNewPod, addPodAndAllocate, podMalloc, updateRank, h]

def sampleNew : SplState where
  toSegregatedPageList := .new
  pods i := ⟨.local_, i, ⟨⟨fun _ => 0⟩, false, false⟩, .readWrite, "", none, 0, .null, [], false,
    0, 0⟩
  flushes _ := []

theorem sampleNew_unused : (sampleNew.pods 0).Unused := ⟨rfl, rfl, rfl, rfl, rfl, rfl⟩

section Narrow

variable {L : ℕ → Layout} {s : SplState} {i size : ℕ}

theorem heapInit_unused (hp : (s.pods i).Unused) : ∃ p, (s.pods i).heapInit (L i) = .ok p ∧
    ((s.setPod i p).cell (fun j => AbsHeap.fresh (L j)) i).Resident False ∧
    ((s.setPod i p).pods i).heap.locked = false := by
  have hmod : (s.pods i).Models False (AbsHeap.fresh (L i)) :=
    ⟨.inr ⟨hp.unmade, rfl⟩, fun hc => absurd (hp.unlocked.symm.trans hc) Bool.false_ne_true,
      hp.idle, by rw [hp.freeBuffer]; exact nodup_nil, by simp [hp.freeBuffer]⟩
  obtain ⟨m, hrun, hmod'⟩ := hmod.heapInit
  refine ⟨_, hrun, ?_, ?_⟩
  · rw [cell_setPod]
    exact ⟨hmod', hp.state, hp.prot⟩
  · simp only [setPod, update_self]
    exact hp.unlocked

theorem getBlockSize_first {p : Pod} {a : Request (L i)}
    (hp : p.Models False ((AbsHeap.fresh (L i)).take a (L i).firstBlock)) :
    a.size ≤ getBlockSize p.mem (L i).firstBlock := by
  have hfit : a.size ≤ (AbsHeap.fresh (L i)).sizeAt (L i).firstBlock := by
    have hle := a.le
    rw [AbsHeap.sizeAt_fresh]
    unfold PageSpan.maxIntraPodSize qsize at hle
    omega
  have hmem : (L i).firstBlock ∈ (AbsHeap.fresh (L i)).freeList := mem_singleton_self _
  obtain ⟨hal, hsz⟩ := AbsHeap.take_block hmem hfit
  rcases hp.page with ⟨-, hsp⟩ | ⟨-, hfresh⟩
  · have hread : getBlockSize p.mem (L i).firstBlock = _ := (hsp.edges.read hal).1
    rw [hread]
    change a.size ≤ (AbsHeap.fresh (L i)).takenSize a.size (L i).firstBlock
    rcases hsz with hsz | hsz <;> omega
  · rw [hfresh] at hal
    exact absurd hal (AbsHeap.not_alloc_fresh _ _)

theorem newPod_room (hp : (s.pods i).Unused) (hsize : size + 48 ≤ (L i).payloadSize) :
    s.NewPodServes L i size := by
  obtain ⟨p, hinit, hres, hlock⟩ := heapInit_unused (L := L) hp
  obtain ⟨s', hrun, hmod⟩ := addPodAndAllocate_unlocked hres hlock (smallRequest (L i) size hsize)
  rw [AbsHeap.malloc_fresh] at hrun hmod
  refine ⟨(L i).firstBlock, s', ?_, ?_, ?_⟩
  · rw [mallocOnNewPod, hinit]
    exact hrun
  · unfold PageSpan.firstBlock
    omega
  · have hblock : computeAsize size ≤ _ := getBlockSize_first hmod
    have hround := le_computeAsize size
    omega

theorem newPod_refuses (hp : (s.pods i).Unused) (hsize : (L i).payloadSize < size + 48) :
    ∃ s', s.mallocOnNewPod L i size = .ok (0, s') := by
  obtain ⟨p, hinit, hres, hlock⟩ := heapInit_unused (L := L) hp
  obtain ⟨s', hrun, -⟩ := addPodAndAllocate_outside hres hlock (lt_computeAsize hsize)
  refine ⟨s', ?_⟩
  rw [mallocOnNewPod, hinit]
  exact hrun

theorem newPod_serves_narrow (hp : (s.pods i).Unused) :
    s.NewPodServes L i size ↔ size + 48 ≤ (L i).payloadSize := by
  refine ⟨?_, newPod_room hp⟩
  rintro ⟨ptr, s', hrun, hptr, -⟩
  by_contra hsize
  obtain ⟨s'', hrun'⟩ := newPod_refuses (L := L) hp (Nat.lt_of_not_le hsize)
  obtain rfl : ptr = 0 := (Prod.mk.inj (Except.ok.inj (hrun.symm.trans hrun'))).1
  exact hptr rfl

end Narrow

section Wide

variable {L : ℕ → PageSpan} {s : SplState} {i size n : ℕ}

theorem setPod_setPod {p q : Pod} : (s.setPod i p).setPod i q = s.setPod i q := by
  simp only [setPod, update_idem]

theorem mallocOnNewPod_eq {p q : Pod} {ptr : ℕ} (hinit : (s.pods i).heapInit (L i) = .ok p)
    (hagain : p.heapInit (L i) = .ok p)
    (hrun : p.podMalloc (L i) (computeAsize size) = .ok (ptr, q)) :
    s.mallocOnNewPod L i size = do
      let (_, s) ← (s.setPod i q).updateRank L i
      return (ptr, (s.setMap (s.rankMap.file (s.pods i).rank i)).setLast (some i)) := by
  have hself : (s.setPod i p).pods i = p := update_self _ _ _
  have hmalloc : (s.setPod i p).podMalloc L i (computeAsize size) = .ok (ptr, s.setPod i q) := by
    rw [podMalloc, hself, hrun, ok_bind]
    exact congrArg (fun t => Except.ok (ptr, t)) setPod_setPod
  rw [mallocOnNewPod, hinit, ok_bind, addPodAndAllocate, hself, hagain, ok_bind,
    setPod_setPod, hmalloc]
  rfl

theorem updateRank_setPod {q r : Pod} {u : Bool} (hrank : q.updateRank (L i) = .ok (u, r))
    (hprot : q.prot = .readWrite) :
    (s.setPod i q).updateRank L i = .ok (u, s.setPod i r) := by
  have hself : (s.setPod i q).pods i = q := update_self _ _ _
  rw [updateRank, hself, if_neg (fun h => h.1 hprot), hrank]
  exact congrArg (fun t => Except.ok (u, t)) setPod_setPod

/-- A page with one free block of `n` bytes serves what fits into the block. -/
theorem newPod_serves_block (hp : (s.pods i).Unused) (hn : (L i).blockSize = n) (hge : 32 ≤ n)
    (hal : n % 16 = 0) (hle : n + 32 ≤ (L i).payloadSize) :
    s.NewPodServes L i size ↔ computeAsize size ≤ n := by
  obtain ⟨t, hinit, hin, hlock, hone⟩ := heapInit_block hp.unmade hn hge hal (by omega)
  rw [hp.unlocked] at hlock
  have hpod : (s.pods i).heapInit (L i) = .ok { s.pods i with heap := t } := by
    rw [Pod.heapInit, hinit]
    rfl
  have hagain : ({ s.pods i with heap := t } : Pod).heapInit (L i) =
      .ok { s.pods i with heap := t } := by
    rw [Pod.heapInit, Heap.heapInit, if_pos hin]
    rfl
  have hmalloc : ∀ {ptr u}, malloc (L i) t (computeAsize size) = .ok (ptr, u) →
      ({ s.pods i with heap := t } : Pod).podMalloc (L i) (computeAsize size) =
        .ok (ptr, { s.pods i with heap := u }) := by
    intro ptr u hrun
    rw [Pod.podMalloc, if_neg (not_not.mpr hp.state), hrun]
    rfl
  by_cases hfit : computeAsize size ≤ n
  · obtain ⟨m, hrun, hblock, hlist⟩ :=
      hone.malloc_fits hin hlock (asize_computeAsize size) hfit hal hle
    obtain ⟨r, hmax⟩ := maxAllocatableSize_short (s := ⟨m, true, false⟩) rfl hlist
    obtain ⟨u, q, hrank, hq⟩ :=
      Pod.updateRank_of_max (p := { s.pods i with heap := ⟨m, true, false⟩ }) hmax
    have hround := le_computeAsize size
    refine iff_of_true ⟨(L i).firstBlock, ?_⟩ hfit
    rw [mallocOnNewPod_eq hpod hagain (hmalloc hrun), updateRank_setPod hrank hp.prot]
    refine ⟨_, rfl, ?_, ?_⟩
    · unfold PageSpan.firstBlock
      omega
    · simp only [setMap, setLast, setPod, update_self, Pod.mem, hq]
      omega
  · obtain ⟨u, hrun⟩ := hone.malloc_large hin hlock hal (asize_computeAsize size)
      (Nat.lt_of_not_le hfit)
    refine iff_of_false ?_ hfit
    rintro ⟨ptr, s', hserved, hptr, -⟩
    rw [mallocOnNewPod_eq hpod hagain (hmalloc hrun)] at hserved
    obtain ⟨v, -, hserved⟩ := of_bind_ok hserved
    exact hptr (Prod.mk.inj (Except.ok.inj hserved)).1.symm

theorem newPod_serves_wide (hp : (s.pods i).Unused) (hwide : 2 ^ 31 < (L i).payloadSize) :
    s.NewPodServes L i size ↔ 0 < (L i).payloadSize % 2 ^ 32 ∧
      (L i).payloadSize % 2 ^ 32 ≤ 2 ^ 31 ∧ size + 32 ≤ (L i).payloadSize % 2 ^ 32 := by
  have hpage := (L i).size_page
  by_cases hneg : (L i).blockSize < 0
  · have hbig : (L i).payloadSize % 2 ^ 32 = 0 ∨ 2 ^ 31 < (L i).payloadSize % 2 ^ 32 := by
      rw [(L i).blockSize_eq, toInt_eq] at hneg
      split_ifs at hneg <;> omega
    refine iff_of_false ?_ (by omega)
    rintro ⟨ptr, s', hrun, -, -⟩
    rw [mallocOnNewPod, Pod.heapInit, Heap.heapInit, hp.unmade, if_neg Bool.false_ne_true,
      if_pos hneg] at hrun
    cases hrun
  · have hn : (L i).blockSize = ((L i).payloadSize % 2 ^ 32 - 16 : ℕ) ∧
        0 < (L i).payloadSize % 2 ^ 32 ∧ (L i).payloadSize % 2 ^ 32 ≤ 2 ^ 31 := by
      rw [(L i).blockSize_eq, toInt_eq] at hneg ⊢
      split_ifs at hneg ⊢ <;> omega
    obtain ⟨hn, hpos, hle⟩ := hn
    rw [newPod_serves_block hp hn (by omega) (by omega) (by omega)]
    have hround : computeAsize size ≤ (L i).payloadSize % 2 ^ 32 - 16 ↔
        size + 32 ≤ (L i).payloadSize % 2 ^ 32 := by
      unfold computeAsize overhead dsize
      split <;> omega
    rw [hround]
    omega

end Wide

/-- On a new page of at most `2^31` bytes a request is served if it is at most six words shorter
than the page. The block of a larger page has the low 32 bits of the page size less two words, if
these are not negative as an `int`. -/
theorem newPod_serves (L : ℕ → PageSpan) (s : SplState) {i size : ℕ} (hp : (s.pods i).Unused) :
    s.NewPodServes L i size ↔
      (L i).payloadSize ≤ 2 ^ 31 ∧ size + 48 ≤ (L i).payloadSize ∨
      2 ^ 31 < (L i).payloadSize ∧ 0 < (L i).payloadSize % 2 ^ 32 ∧
        (L i).payloadSize % 2 ^ 32 ≤ 2 ^ 31 ∧ size + 32 ≤ (L i).payloadSize % 2 ^ 32 := by
  by_cases hle : (L i).payloadSize ≤ 2 ^ 31
  · have hcongr : s.NewPodServes L i size ↔ s.NewPodServes (fun _ => L i) i size := by
      have hrun : s.mallocOnNewPod L i size = s.mallocOnNewPod (fun _ => L i) i size :=
        mallocOnNewPod_congr rfl
      rw [NewPodServes, NewPodServes, hrun]
    rw [hcongr, newPod_serves_narrow (L := fun _ => ⟨L i, hle⟩) hp]
    dsimp only
    omega
  · rw [newPod_serves_wide hp (Nat.lt_of_not_le hle)]
    omega

theorem newPod_serves_sample : ∃ s : SplState, (s.pods 0).Unused ∧
    s.NewPodServes (fun _ => Session.sampleLayout) 0 4048 :=
  ⟨sampleNew, sampleNew_unused,
    (newPod_serves _ _ sampleNew_unused).mpr (.inl ⟨by decide, by decide⟩)⟩

/-- On pages of 4096 bytes a request of 4064 bytes is small for `remonMalloc` and too large for a
new page. -/
theorem newPod_gap : isSmall Session.sampleLayout.payloadSize 4064 = true ∧
    ∃ s : SplState, (s.pods 0).Unused ∧
      ∃ s', s.mallocOnNewPod (fun _ => Session.sampleLayout) 0 4064 = .ok (0, s') :=
  ⟨by decide, sampleNew, sampleNew_unused,
    newPod_refuses (L := fun _ => Session.sampleLayout) sampleNew_unused (by decide)⟩

/-! ## Requests that every page refuses -/

theorem malloc_oversized {L : PageSpan} {s t : Heap.State} {size ptr : ℕ}
    (hsize : L.maxIntraPodSize < size) (hrun : Heap.malloc L s size = .ok (ptr, t)) : ptr = 0 := by
  rw [Heap.malloc] at hrun
  split at hrun
  · cases hrun
  · obtain ⟨u, -, hrun⟩ := of_bind_ok hrun
    split at hrun
    · cases hrun
      rfl
    · cases hrun
      rfl

variable {L : ℕ → PageSpan} {s : SplState} {i size : ℕ}
variable (hsize : ∀ i, (L i).maxIntraPodSize < size)
include hsize

theorem podMalloc_oversized :
    Yields (fun _ => True) (s.podMalloc L i size) (fun r => r.1 = 0) := by
  rw [podMalloc, Pod.podMalloc]
  split
  · rfl
  · refine Yields.then_run ?_
    rintro ⟨ptr, p⟩ hp
    obtain ⟨⟨ptr', t⟩, ht, hp⟩ := of_bind_ok hp
    cases hp
    exact malloc_oversized (hsize i) ht

theorem tryAllocateWithPreviousPod_oversized {retries : ℕ} :
    Yields (fun _ => True) (s.tryAllocateWithPreviousPod L size retries) (fun r => r.1 = 0) := by
  unfold tryAllocateWithPreviousPod
  split
  · rfl
  · next j _ =>
    dsimp only
    generalize (if (s.pods j).state = .init then s.setPod j (s.pods j).initToLocal else s) = t
    split
    · rfl
    · refine (podMalloc_oversized hsize).bind ?_
      rintro ⟨ptr, u⟩ hptr
      obtain rfl : ptr = 0 := hptr
      exact ite_self 0

theorem allocateOfAList_oversized {key : ℕ} {tryLock : ℕ → Bool} {listOfPods : List ℕ} :
    Yields (fun _ => True) (allocateOfAList L size key tryLock listOfPods s)
      (fun r => r.1 = 0) := by
  induction listOfPods generalizing s with
  | nil => rfl
  | cons j listOfPods ih =>
    rw [allocateOfAList]
    split
    · refine (podMalloc_oversized hsize).bind ?_
      rintro ⟨ptr, t⟩ hptr
      obtain rfl : ptr = 0 := hptr
      exact ih
    · exact ih

theorem allocateFirst_oversized {c : Choice} :
    Yields (fun _ => True) (s.allocateFirst L size c) (fun r => r.1 = 0) := by
  unfold allocateFirst
  split
  · rfl
  · exact allocateOfAList_oversized hsize

theorem allocate_oversized {c : Choice} :
    Yields (fun _ => True) (s.allocate L size c) (fun r => r.1 = 0) := by
  unfold allocate
  refine (tryAllocateWithPreviousPod_oversized hsize).bind ?_
  rintro ⟨ptr, t⟩ hptr
  obtain rfl : ptr = 0 := hptr
  refine Yields.then_run fun u _ => ?_
  split
  · split
    · rfl
    · exact Yields.then_run fun v _ => allocateFirst_oversized hsize
  · exact allocateFirst_oversized hsize

theorem addPodAndAllocate_oversized :
    Yields (fun _ => True) (s.addPodAndAllocate L i size) (fun r => r.1 = 0) := by
  unfold addPodAndAllocate
  refine Yields.then_run fun p _ => ?_
  refine (podMalloc_oversized hsize).bind ?_
  rintro ⟨ptr, t⟩ hptr
  exact Yields.then_run fun u _ => hptr

end SplState

end Remon
