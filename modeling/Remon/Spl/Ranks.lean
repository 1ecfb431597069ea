import Remon.Heap.Rank
import Remon.Spl.SmallRequests

/-! # What the first bucket of a list decides

`allocate` looks at the largest key of `rankMap` only. Once the last pod has been filed anew,
every key is the rank of its pods, and the rank of a page says which requests it can serve.
Locks do not enter into the keys: a request is served if one of the pods of the first bucket can
be locked.
-/

namespace Remon.SplState
open Lib Heap Fault

variable {L : ℕ → Layout} {M : ℕ → Prop} {s : SplState} {h : ∀ i, AbsHeap (L i)} {i size : ℕ}

/-- The page of pod `i` has room for the request. -/
def CanServe (L : ℕ → Layout) (s : SplState) (size i : ℕ) : Prop :=
  ∃ ptr q, (s.pods i).podMalloc (L i) size = .ok (ptr, q) ∧ ptr ≠ 0

/-- The sizes that every page of the list could hold. -/
def Fits (L : ℕ → Layout) (size : ℕ) : Prop := Asize size ∧ ∀ i, size ≤ (L i).maxIntraPodSize

theorem le_beginKey {k : ℕ} (hk : s.rankMap.Holds k i) : k ≤ s.beginKey := by
  obtain ⟨l, hl, -⟩ := hk
  obtain ⟨j, hj, hle⟩ := OrdMap.le_lastKey (m := s.rankMap) (k := k) (by simp [hl])
  rw [beginKey, hj]
  exact hle

theorem Inv.exists_beginKey (hi : s.Inv False M h) (hpos : 0 < s.beginKey) :
    ∃ i, s.rankMap.Holds s.beginKey i := by
  unfold beginKey at hpos ⊢
  cases hk : s.rankMap.lastKey with
  | none =>
    rw [hk] at hpos
    cases hpos
  | some k =>
    obtain ⟨l, hl⟩ := Option.ne_none_iff_exists'.mp (OrdMap.get_lastKey hk)
    obtain ⟨i, hmem⟩ := List.exists_mem_of_ne_nil l (hi.tidy k l hl).1
    exact ⟨i, l, hl, hmem⟩

theorem Inv.podMalloc_rank (hi : s.Inv False M h) (hf : s.Filed i)
    (hl : s.lastAllocatedPod ≠ some i) (hz : Fits L size) :
    ∃ ptr q, (s.pods i).podMalloc (L i) size = .ok (ptr, q) ∧
      (ptr ≠ 0 ↔ size ≤ (s.pods i).rank) := by
  obtain ⟨⟨hmod, hst, -⟩, hin, hrank⟩ := hi.ranked i hf hl
  have hunlocked : (s.pods i).heap.locked = false := by
    rw [← Bool.not_eq_true]
    exact hmod.locked
  have hspells : Spells (s.pods i).mem (h i) := by
    rcases hmod.page with ⟨-, hs⟩ | ⟨hout, -⟩
    · exact hs
    · exact absurd (hin.symm.trans hout) (by simp)
  have hrep : Rep (s.pods i).heap (h i) := ⟨hin, hunlocked, hspells⟩
  obtain ⟨t, hrun, -⟩ :=
    hmod.podMalloc_unlocked hst hunlocked ⟨size, hz.1.1, hz.1.2, hz.2 i⟩
  refine ⟨_, _, hrun, ?_⟩
  rw [hrank]
  exact hrep.malloc_ne_zero ⟨size, hz.1.1, hz.1.2, hz.2 i⟩

theorem Inv.canServe_iff (hi : s.Inv False M h) (hf : s.Filed i)
    (hl : s.lastAllocatedPod = none) (hz : Fits L size) :
    CanServe L s size i ↔ size ≤ (s.pods i).rank := by
  obtain ⟨ptr, q, hrun, hiff⟩ := hi.podMalloc_rank hf (by simp [hl]) hz
  rw [← hiff]
  constructor
  · rintro ⟨ptr', q', hrun', hne⟩
    rw [hrun] at hrun'
    cases hrun'
    exact hne
  · exact fun hne => ⟨ptr, q, hrun, hne⟩

/-- The pods of one bucket that has room serve the request if one of them can be locked. -/
theorem Inv.allocateOfAList_served {key : ℕ} {tryLock : ℕ → Bool} {l : List ℕ} {ptr : ℕ}
    {s' : SplState} (hi : s.Inv False M h) (hl : s.lastAllocatedPod = none)
    (hmem : ∀ i ∈ l, s.rankMap.Holds key i) (hz : Fits L size) (hle : size ≤ key)
    (run : SplState.allocateOfAList L size key tryLock l s = .ok (ptr, s')) :
    ptr ≠ 0 ↔ ∃ i ∈ l, tryLock i = true := by
  induction l with
  | nil =>
    cases run
    simp
  | cons i l ih =>
    obtain ⟨hki, hmem⟩ := List.forall_mem_cons.mp hmem
    rw [SplState.allocateOfAList] at run
    by_cases hlock : tryLock i = true
    · refine iff_of_true ?_ ⟨i, by simp, hlock⟩
      rw [if_pos hlock] at run
      obtain ⟨q, p, hp, hiff⟩ := hi.podMalloc_rank ⟨key, hki⟩ (by simp [hl]) hz
      have hq : q ≠ 0 := by
        rw [hiff, (hi.keyed key i hki).1]
        exact hle
      have hrun : s.podMalloc L i size = .ok (q, s.setPod i p) := by
        rw [SplState.podMalloc, hp]
        rfl
      rw [hrun, ok_bind] at run
      dsimp only at run
      rw [if_pos hq] at run
      obtain ⟨⟨updated, t⟩, -, hret⟩ := of_bind_ok run
      dsimp only at hret
      split at hret
      · cases hret
        exact hq
      · cases hret
        exact hq
    · rw [if_neg hlock] at run
      rw [ih hmem run]
      simp [hlock]

theorem Inv.allocateFirst_served (hi : s.Inv False M h) (hl : s.lastAllocatedPod = none)
    (hz : Fits L size) (c : Choice) :
    ∃ ptr s', s.allocateFirst L size c = .ok (ptr, s') ∧ (ptr ≠ 0 ↔ size ≤ s.beginKey ∧
      ∃ i, s.rankMap.Holds s.beginKey i ∧ c.tryLock i = true) := by
  have hfits : ∀ i, (L i).maxIntraPodSize < size → False := by
    intro i hlt
    exact absurd (hz.2 i) (not_le.mpr hlt)
  have hstuck : ∀ e, Stuck False e → False := fun e he => he.2
  obtain ⟨⟨ptr, s'⟩, hrun, -⟩ := ((hi.allocateFirst hl hz.1 hfits c).weaken hstuck).returns
  refine ⟨ptr, s', hrun, ?_⟩
  rw [SplState.allocateFirst] at hrun
  split at hrun
  · next hlt =>
    cases hrun
    simp [hlt]
  · next hge =>
    have hle : size ≤ s.beginKey := not_lt.mp hge
    have hmem : ∀ i, i ∈ c.arrange ((s.rankMap.get s.beginKey).getD []) ↔
        s.rankMap.Holds s.beginKey i := by
      intro i
      rw [(c.perm _).mem_iff]
      cases hget : s.rankMap.get s.beginKey <;> simp [OrdMap.Holds, hget]
    rw [hi.allocateOfAList_served hl (fun i hm => (hmem i).mp hm) hz hle hrun]
    simp only [hmem, hle, true_and]

/-- On a page of the heap invariant a request returns a block exactly if `maxAllocatableSize`
covers it, and after a request or a release that number is the largest size among the free
blocks. In a list whose last pod has been filed anew no pod has room if the largest key is
below the request; else every pod of the first bucket has, and the request is served if one of
them can be locked. -/
theorem rank_predicts {K : Layout} {σ : Heap.State} {x : AbsHeap K} (hr : Rep σ x)
    (hi : s.Inv False M h) (hl : s.lastAllocatedPod = none) (hz : Fits L size) :
    (Heap.maxAllocatableSize K σ = .ok (largestFree x.blocks, σ) ∧
      (∀ a : Request K, ∃ p σ', Heap.malloc K σ a.size = .ok (p, σ') ∧
        (p ≠ 0 ↔ a.size ≤ largestFree x.blocks) ∧ Rep σ' (x.malloc a).2 ∧
        Heap.maxAllocatableSize K σ' = .ok (largestFree (x.malloc a).2.blocks, σ')) ∧
      (∀ bp n, x.Alloc bp n → ∃ σ', Heap.free K σ bp = .ok σ' ∧ Rep σ' (x.free bp) ∧
        Heap.maxAllocatableSize K σ' = .ok (largestFree (x.free bp).blocks, σ')) ∧
      (largestFree x.blocks = 0 ↔ ∀ b ∈ x.blocks, b.free = false)) ∧
    (s.beginKey < size → ∀ i, s.Filed i → ¬ CanServe L s size i) ∧
    (size ≤ s.beginKey → (∃ i, s.rankMap.Holds s.beginKey i) ∧
      ∀ i, s.rankMap.Holds s.beginKey i → CanServe L s size i) ∧
    ∀ c : Choice, ∃ ptr s', s.allocateFirst L size c = .ok (ptr, s') ∧
      (ptr ≠ 0 ↔ size ≤ s.beginKey ∧ ∃ i, s.rankMap.Holds s.beginKey i ∧ c.tryLock i = true) := by
  have hpos : 0 < size := lt_of_lt_of_le (by decide) hz.1.1
  refine ⟨⟨hr.maxAllocatableSize, ?_, ?_, largestFree_eq_zero x.sized.pos⟩, ?_, ?_, ?_⟩
  · intro a
    obtain ⟨σ', hrun, hr', -⟩ := malloc_ok hr a
    refine ⟨_, σ', hrun, ?_, hr', hr'.maxAllocatableSize⟩
    rw [← x.maxSize_eq]
    exact hr.malloc_ne_zero a
  · intro bp n ha
    obtain ⟨σ', hrun, hr', -⟩ := free_ok hr (x.isLive_iff.mpr ⟨n, ha⟩)
    exact ⟨σ', hrun, hr', hr'.maxAllocatableSize⟩
  · intro hlt i hf hs
    have hle := (hi.canServe_iff hf hl hz).mp hs
    have hkey := le_beginKey (hi.filed_rank hf)
    omega
  · intro hle
    refine ⟨hi.exists_beginKey (lt_of_lt_of_le hpos hle), ?_⟩
    intro i hk
    rw [hi.canServe_iff ⟨_, hk⟩ hl hz, (hi.keyed _ i hk).1]
    exact hle
  · exact hi.allocateFirst_served hl hz

def samplePage : ℕ → Layout := fun _ => Session.sampleLayout

/-- A list with one pod, which served a request for 64 bytes and is not the last pod any more. -/
def sampleListed : SplState :=
  let run := (sampleNew.mallocOnNewPod samplePage 0 40).bind (fun r => r.2.dismissLast samplePage)
  run.toOption.getD sampleNew

theorem sampleListed_inv : ∃ h : ∀ i, AbsHeap (samplePage i),
    sampleListed.Inv False (fun i => False ∨ i = 0) h ∧ sampleListed.lastAllocatedPod = none := by
  have hnew : sampleNew.Inv False (fun _ => False) (fun i => AbsHeap.fresh (samplePage i)) := by
    refine ⟨OrdMap.Tidy.empty, ?_, by simp, ?_, ?_, by simp, by simp, by simp, ?_, rfl⟩
    · intro k i hk
      exact absurd hk OrdMap.not_holds_empty
    · rintro i ⟨k, hk⟩
      exact absurd hk OrdMap.not_holds_empty
    · intro i hl
      cases hl
    · intro i hm
      cases hm
  obtain ⟨p, hp, hres, -⟩ := heapInit_unused (L := samplePage) sampleNew_unused
  rw [cell_setPod] at hres
  have hstuck : ∀ e, Stuck False e → False := fun e he => he.2
  have hfit : ∀ i, (samplePage i).maxIntraPodSize < computeAsize 40 → False := by
    intro i
    exact of_decide_eq_false rfl
  have hbuf : p.freeBuffer = [] := by
    obtain ⟨t, -, ht⟩ := of_bind_ok hp
    cases ht
    rfl
  obtain ⟨⟨ptr, t⟩, hrun, x, hi, -, -, hlast, hserved, -⟩ :=
    ((hnew.addPodAndAllocate (i := 0) id rfl rfl rfl rfl hres hbuf (asize_computeAsize 40)
      hfit).weaken hstuck).returns
  have hmalloc : sampleNew.mallocOnNewPod samplePage 0 40 = .ok (ptr, t) := by
    rw [mallocOnNewPod, hp]
    exact hrun
  have hptr : (sampleNew.mallocOnNewPod samplePage 0 40).toOption.map Prod.fst = some 4112 := by
    decide
  rw [hmalloc] at hptr
  obtain rfl : ptr = 4112 := Option.some.inj hptr
  have hresident : ∀ i, t.lastAllocatedPod = some i → (t.cell x i).Resident False := by
    obtain ⟨j, n, -, hj, hr, -⟩ := hserved (by simp)
    intro i hl
    have he : j = i := Option.some.inj (hj.symm.trans hl)
    exact he ▸ hr
  obtain ⟨u, hdismiss, hg, hnone, -⟩ := ((hi.dismissLast hresident).weaken hstuck).returns
  have he : sampleListed = u := by
    rw [sampleListed, hmalloc]
    change (t.dismissLast samplePage).toOption.getD sampleNew = u
    rw [hdismiss]
    rfl
  rw [he]
  exact ⟨x, hg.inv, hnone⟩

theorem fits_sample : Fits samplePage 64 := ⟨⟨by decide, by decide⟩, fun _ =>
  show 64 ≤ Session.sampleLayout.maxIntraPodSize by decide⟩

/-- The choices of a call that walks the sets in order and finds the locks as given. -/
def lockChoice (tryLock : ℕ → Bool) : Choice := ⟨id, List.Perm.refl, tryLock, 0⟩

theorem rank_predicts_sample :
    (∃ p σ', Heap.malloc Session.sampleLayout Session.sampleHeap 64 = .ok (p, σ') ∧ p ≠ 0) ∧
    CanServe samplePage sampleListed 64 0 ∧
    ∃ ptr s', sampleListed.allocateFirst samplePage 64 (lockChoice fun _ => true) =
      .ok (ptr, s') ∧ ptr ≠ 0 := by
  obtain ⟨x, hx⟩ := Session.sample_reachable.holds
  obtain ⟨h, hi, hl⟩ := sampleListed_inv
  obtain ⟨⟨hmax, hmalloc, -⟩, -, hfirst, hserve⟩ := rank_predicts hx.rep hi hl fits_sample
  have hrank : (Heap.maxAllocatableSize Session.sampleLayout Session.sampleHeap).toOption.map
      Prod.fst = some 4016 := by decide
  rw [hmax] at hrank
  have hlargest : largestFree x.blocks = 4016 := Option.some.inj hrank
  have hkey : sampleListed.beginKey = 4016 := by decide
  have hget : sampleListed.rankMap.get 4016 = some [0] := by decide
  have hholds : sampleListed.rankMap.Holds sampleListed.beginKey 0 := by
    rw [hkey]
    exact ⟨[0], hget, by simp⟩
  have hle : 64 ≤ sampleListed.beginKey := by
    rw [hkey]
    decide
  refine ⟨?_, (hfirst hle).2 0 hholds, ?_⟩
  · obtain ⟨p, σ', hrun, hiff, -⟩ := hmalloc ⟨64, by decide, by decide, by decide⟩
    exact ⟨p, σ', hrun, hiff.mpr (by rw [hlargest]; decide)⟩
  · obtain ⟨ptr, s', hrun, hiff⟩ := hserve (lockChoice fun _ => true)
    exact ⟨ptr, s', hrun, hiff.mpr ⟨hle, 0, hholds, rfl⟩⟩

/-- The only pod of a list has room for 64 bytes but is locked by somebody else: the largest
key covers the request although no unlocked pod can serve it. -/
theorem locked_pod_ranked : (∃ h : ∀ i, AbsHeap (samplePage i),
      sampleListed.Inv False (fun i => False ∨ i = 0) h) ∧
    sampleListed.lastAllocatedPod = none ∧ 64 ≤ sampleListed.beginKey ∧
    (¬ ∃ i, sampleListed.Filed i ∧ (lockChoice fun _ => false).tryLock i = true ∧
      CanServe samplePage sampleListed 64 i) ∧
    (sampleListed.allocate samplePage 64 (lockChoice fun _ => false)).toOption.map Prod.fst =
      some 0 := by
  obtain ⟨h, hi, hl⟩ := sampleListed_inv
  have hkey : sampleListed.beginKey = 4016 := by decide
  refine ⟨⟨h, hi⟩, hl, by rw [hkey]; decide, ?_, by decide⟩
  rintro ⟨i, -, hlock, -⟩
  cases hlock

end Remon.SplState
