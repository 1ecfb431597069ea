import Remon.Lib.CInt
import Remon.Vmm.ManagerInvariant

/-! # Trimming the free blocks of all arenas

When memory gets short, `TopLevelAllocatorBundle::trim` is to drop the memory of the pages that
no block uses. An arena is locked while its blocks are walked and dropping a page leaves the
tags alone, so the blocks can be collected first. The comparison of the `int` of the loop with a
`size_t` ends it after one round.
-/

namespace Remon
open Lib Heap Fault List

namespace Pod

theorem releaseMemory_idem (L : Layout) (p : Pod) :
    (p.releaseMemory L).releaseMemory L = p.releaseMemory L := by
  have hzero : ((p.mem.zero L.payloadStart L.payloadSize).zero L.payloadStart L.payloadSize) =
      p.mem.zero L.payloadStart L.payloadSize := by
    ext a
    simp only [Mem.zero]
    split <;> rfl
  rw [releaseMemory]
  exact congrArg p.setMem hzero

end Pod

namespace Manager

variable (c : Setup) (path : ℕ → String) (tryLock : ℕ → Bool) (m : Manager)

def trimPage (i : ℕ) : Except Fault Manager :=
  match m.tagOf c i with
  | none => .ok m
  | some _ => if tryLock i then m.call c path (.trimFreePage i) else .ok m

def trimFreeBlock (x : ℕ × ℕ) : Except Fault Manager :=
  (List.range' x.1 x.2).foldlM (trimPage c path tryLock) m

def trimArena (k : ℕ) : Except Fault (List (ℕ × Block) × Manager) := do
  let l ← (m.arenas k).arena.trimWalk (c.region k) ((c.region k).podsSize + 1) (c.region k).first
  let m ← (Arena.freeBlocks l).foldlM (trimFreeBlock c path tryLock) m
  return (l, m)

def trimLoop : ℕ → ℤ → Manager → Except Fault (List (ℕ × List (ℕ × Block)) × Manager)
  | 0, _, _ => .error .spin
  | fuel + 1, i, m =>
    if toSize i < m.arenaCount then do
      let (l, m) ← m.trimArena c path tryLock (toSize i)
      let (rest, m) ← trimLoop fuel (i - 1) m
      return ((toSize i, l) :: rest, m)
    else .ok ([], m)

/-- `TopLevelAllocatorBundle::trim`. -/
def bundleTrim (fuel : ℕ) : Except Fault (List (ℕ × List (ℕ × Block)) × Manager) :=
  trimLoop c path tryLock fuel 0 m

/-! ## What is dropped -/

open Classical in
noncomputable def dropPages (S : ℕ → Prop) : Manager :=
  { m with
    pods := fun i =>
      if S i ∧ (m.pods i).state = .local_ then (m.pods i).releaseMemory (c.L i) else m.pods i }

variable {c path tryLock m}

theorem dropPages_pods_of_not {S : ℕ → Prop} {i : ℕ} (h : ¬ S i) :
    (m.dropPages c S).pods i = m.pods i :=
  if_neg fun hc => h hc.1

theorem dropPages_empty {S : ℕ → Prop} (h : ∀ i, ¬ S i) : m.dropPages c S = m := by
  have hpods : (m.dropPages c S).pods = m.pods := by
    funext i
    exact dropPages_pods_of_not (h i)
  change { m with pods := (m.dropPages c S).pods } = m
  rw [hpods]

theorem dropPages_dropPages (S T : ℕ → Prop) :
    (m.dropPages c S).dropPages c T = m.dropPages c (fun i => S i ∨ T i) := by
  have hpods : ((m.dropPages c S).dropPages c T).pods =
      (m.dropPages c (fun i => S i ∨ T i)).pods := by
    funext i
    simp only [dropPages]
    by_cases hl : (m.pods i).state = .local_
    · have hl' : ((m.pods i).releaseMemory (c.L i)).state = .local_ := hl
      by_cases hs : S i <;> by_cases ht : T i <;>
        simp [hs, ht, hl, hl', Pod.releaseMemory_idem]
    · simp [hl]
  change { m with pods := ((m.dropPages c S).dropPages c T).pods } = _
  rw [hpods]
  rfl

theorem foldlM_dropPages {α : Type} {f : Manager → α → Except Fault Manager} {P : α → ℕ → Prop}
    (hf : ∀ m' x, m'.toHoldings = m.toHoldings → f m' x = .ok (m'.dropPages c (P x)))
    (l : List α) (S : ℕ → Prop) :
    l.foldlM f (m.dropPages c S) = .ok (m.dropPages c (fun i => S i ∨ ∃ x ∈ l, P x i)) := by
  induction l generalizing S with
  | nil => simp [List.foldlM]
  | cons x l ih =>
    rw [foldlM_cons, hf (m.dropPages c S) x rfl, ok_bind, dropPages_dropPages, ih]
    simp only [mem_cons, exists_eq_or_imp, or_assoc]

theorem foldlM_dropPages_start {α : Type} {f : Manager → α → Except Fault Manager}
    {P : α → ℕ → Prop} (hf : ∀ m' x, m'.toHoldings = m.toHoldings → f m' x =
      .ok (m'.dropPages c (P x))) (l : List α) :
    l.foldlM f m = .ok (m.dropPages c (fun i => ∃ x ∈ l, P x i)) := by
  have h := foldlM_dropPages hf l (fun _ => False)
  rw [dropPages_empty (fun _ => id)] at h
  simpa only [false_or] using h

variable (c tryLock m) in
def Ready (i : ℕ) : Prop := m.tagOf c i ≠ none ∧ tryLock i = true

theorem trimPage_eq (m' : Manager) (i : ℕ) (hh : m'.toHoldings = m.toHoldings) :
    m'.trimPage c path tryLock i = .ok (m'.dropPages c (fun j => j = i ∧ m.Ready c tryLock i)) := by
  have htag : m'.tagOf c i = m.tagOf c i := by rw [hh]
  rw [trimPage, htag, Ready]
  cases ht : m.tagOf c i with
  | none => exact congrArg _ (dropPages_empty fun j hj => hj.2.1 rfl).symm
  | some t =>
    by_cases hl : tryLock i = true
    · simp only [if_pos hl]
      have hS : (fun j => j = i ∧ some t ≠ none ∧ tryLock i = true) = fun j => j = i := by
        funext j
        simp [hl]
      rw [hS]
      by_cases hs : (m'.pods i).state = .local_
      · have hpods : Function.update m'.pods i ((m'.pods i).releaseMemory (c.L i)) =
            (m'.dropPages c (fun j => j = i)).pods := by
          funext j
          by_cases hj : j = i
          · rw [hj, Function.update_self]
            exact (if_pos ⟨rfl, hs⟩).symm
          · rw [Function.update_of_ne hj]
            exact (if_neg fun hc => hj hc.1).symm
        simp only [call, Session.step, Pager.trimFreePage, if_pos hs, Pod.dropMemoryStayLocal,
          ok_bind, pure_eq, Pager.setPod, if_true]
        rw [hpods]
        rfl
      · have hnone : m'.dropPages c (fun j => j = i) = m' := by
          have hpods : (m'.dropPages c (fun j => j = i)).pods = m'.pods := by
            funext j
            apply if_neg
            rintro ⟨rfl, hc⟩
            exact hs hc
          change { m' with pods := (m'.dropPages c (fun j => j = i)).pods } = m'
          rw [hpods]
        rw [hnone]
        simp only [call, Session.step, Pager.trimFreePage, if_neg hs, ok_bind, pure_eq]
    · rw [if_neg hl]
      exact congrArg _ (dropPages_empty fun j hj => hl hj.2.2).symm

theorem trimFreeBlock_eq (m' : Manager) (x : ℕ × ℕ) (hh : m'.toHoldings = m.toHoldings) :
    m'.trimFreeBlock c path tryLock x =
      .ok (m'.dropPages c (fun i => Arena.Covers x i ∧ m.Ready c tryLock i)) := by
  have hfold := foldlM_dropPages_start (m := m') (c := c)
    (P := fun i j => j = i ∧ m.Ready c tryLock i)
    (f := trimPage c path tryLock) (fun m'' i h => trimPage_eq m'' i (h.trans hh))
    (List.range' x.1 x.2)
  rw [trimFreeBlock, hfold]
  have hS : (fun i => ∃ j ∈ List.range' x.1 x.2, i = j ∧ m.Ready c tryLock j) =
      fun i => Arena.Covers x i ∧ m.Ready c tryLock i := by
    funext i
    apply propext
    constructor
    · rintro ⟨j, hj, rfl, hr⟩
      exact ⟨mem_range'_1.mp hj, hr⟩
    · rintro ⟨hi, hr⟩
      exact ⟨i, mem_range'_1.mpr hi, rfl, hr⟩
  rw [hS]

theorem trimArena_eq {k : ℕ} {h : Arena.AbsArena (c.region k)} (hk : (m.arenas k).Inv h) :
    m.trimArena c path tryLock k =
      .ok ((place (c.region k).first h.blocks).filter (fun x => x.1 < (c.region k).last),
        m.dropPages c (fun i => m.Ready c tryLock i ∧ ∃ q n, (q, ⟨n, true⟩) ∈
          (place (c.region k).first h.blocks).filter (fun x => x.1 < (c.region k).last) ∧
          Arena.Covers (q, n) i)) := by
  have hfold := foldlM_dropPages_start (m := m) (c := c)
    (P := fun x i => Arena.Covers x i ∧ m.Ready c tryLock i)
    (f := trimFreeBlock c path tryLock) (fun m' x hh => trimFreeBlock_eq m' x hh)
    (Arena.freeBlocks ((place (c.region k).first h.blocks).filter
      (fun x => x.1 < (c.region k).last)))
  rw [trimArena, Arena.trimWalk_shows hk.shows, ok_bind, hfold, ok_bind]
  have hS : (fun i => ∃ x ∈ Arena.freeBlocks ((place (c.region k).first h.blocks).filter
      (fun x => x.1 < (c.region k).last)), Arena.Covers x i ∧ m.Ready c tryLock i) =
      fun i => m.Ready c tryLock i ∧ ∃ q n, (q, ⟨n, true⟩) ∈
        (place (c.region k).first h.blocks).filter (fun x => x.1 < (c.region k).last) ∧
        Arena.Covers (q, n) i := by
    funext i
    apply propext
    constructor
    · rintro ⟨x, hx, hi, hr⟩
      exact ⟨hr, x.1, x.2, Arena.mem_freeBlocks.mp hx, hi⟩
    · rintro ⟨hr, q, n, hq, hi⟩
      exact ⟨(q, n), Arena.mem_freeBlocks.mpr hq, hi, hr⟩
  rw [hS]
  rfl

/-! ## The loop over the arenas -/

theorem arenaCount_lt (hm : m.toHoldings.Inv c) : m.arenaCount < 2 ^ 64 := by
  have hpods : c.podsSize ≤ c.podsSize * c.pageSize :=
    Nat.le_mul_of_pos_right _ Setup.pageSize_pos
  have hmapped := c.mapped
  have hcount : m.arenaCount ≤ c.podsSize := hm.count.trans (Nat.div_le_self _ _)
  omega

theorem bundleTrim_none (hnone : m.arenaCount = 0) {fuel : ℕ} (hfuel : 2 ≤ fuel) :
    m.bundleTrim c path tryLock fuel = .ok ([], m) := by
  obtain ⟨fuel, rfl⟩ := Nat.exists_eq_succ_of_ne_zero (by omega : fuel ≠ 0)
  rw [bundleTrim, trimLoop, if_neg (by rw [hnone]; exact Nat.not_lt_zero _)]

theorem trimLoop_stop (S : ℕ → Prop) (hcount : m.arenaCount < 2 ^ 64) {fuel : ℕ} :
    trimLoop c path tryLock (fuel + 1) (0 - 1) (m.dropPages c S) = .ok ([], m.dropPages c S) := by
  have hstop : ¬ toSize (0 - 1) < (m.dropPages c S).arenaCount := by
    change ¬ toSize (0 - 1) < m.arenaCount
    have : toSize (0 - 1) = 2 ^ 64 - 1 := by decide
    omega
  rw [trimLoop, if_neg hstop]

theorem bundleTrim_first (hm : m.toHoldings.Inv c) (hsome : 0 < m.arenaCount) {fuel : ℕ}
    (hfuel : 2 ≤ fuel) {h : Arena.AbsArena (c.region 0)} (hk : (m.arenas 0).Inv h) :
    m.bundleTrim c path tryLock fuel =
      .ok ([(0, (place (c.region 0).first h.blocks).filter (fun x => x.1 < (c.region 0).last))],
        m.dropPages c (fun i => m.Ready c tryLock i ∧ ∃ q n, (q, ⟨n, true⟩) ∈
          (place (c.region 0).first h.blocks).filter (fun x => x.1 < (c.region 0).last) ∧
          Arena.Covers (q, n) i)) := by
  obtain ⟨fuel, rfl⟩ : ∃ n, fuel = n + 2 := ⟨fuel - 2, by omega⟩
  rw [bundleTrim, trimLoop, if_pos (show toSize 0 < m.arenaCount from hsome),
    show toSize 0 = 0 from rfl, trimArena_eq hk, ok_bind]
  dsimp only
  rw [trimLoop_stop _ (arenaCount_lt hm)]
  rfl

theorem filter_place_of_last {R : Arena.Region} {a : Arena.State} {h : Arena.AbsArena R}
    (hs : Arena.Shows a h) (hlast : ∀ t, a.pods R.last = some t → t.globalSize ≠ 1) :
    (place R.first h.blocks).filter (fun x => x.1 < R.last) = place R.first h.blocks := by
  rw [filter_eq_self]
  rintro ⟨p, d⟩ hp
  obtain ⟨h1, h2, h3⟩ := h.bounds hp
  rw [decide_eq_true_eq]
  by_contra hge
  dsimp only at hge
  have hp' : p = R.last := by omega
  have hsize : d.size = 1 := by omega
  obtain ⟨htag, -⟩ := hs.tagged p d hp
  obtain ⟨t, hpods, -, htt, -, -⟩ := (Arena.State.made_of_tag htag).getPod
  rw [htag, Option.some.injEq, Prod.mk.injEq, hsize] at htt
  rw [hp'] at hpods
  exact hlast t hpods htt.1.symm

theorem single_of_last {R : Arena.Region} {a : Arena.Session} {bs : List Block}
    (hb : Arena.Session.TiledBy R a bs) {t : Arena.PageTag} (ht : a.arena.pods R.last = some t)
    (hone : t.globalSize = 1) : ∃ d, (R.last, d) ∈ place R.first bs := by
  have hle := R.le
  have hfill := hb.fill
  unfold Arena.Region.podCount at hfill
  obtain ⟨q, d, hq, hql, hlq⟩ := exists_place_covering hle (by omega : R.last < R.first + total bs)
  have hend := (place_bounds hq).2
  have hfoot : q + d.size - 1 = R.last := by omega
  have htag := (hb.tagged q d hq).2
  rw [hfoot, Arena.State.tag, ht, Option.map_some, hone, Option.some.injEq, Prod.mk.injEq] at htag
  obtain rfl : q = R.last := by omega
  exact ⟨d, hq⟩

variable (c path) in
/-- With no lock taken, `trim` returns, comes to every block of every arena once, and drops exactly
the local ones of the created pages in free blocks. Blocks in use keep their pages. -/
def TrimsFreePages (m : Manager) (fuel : ℕ) : Prop :=
  ∃ (tiles : ℕ → List Block) (m' : Manager),
    (∀ k, k < m.arenaCount → Arena.Session.TiledBy (c.region k) (m.arenas k) (tiles k)) ∧
    m.bundleTrim c path (fun _ => true) fuel =
      .ok ((List.range m.arenaCount).map fun k => (k, place (c.region k).first (tiles k)), m') ∧
    m' = m.dropPages c (fun i => m.tagOf c i ≠ none ∧ ∃ k, k < m.arenaCount ∧ ∃ q n,
      (q, ⟨n, true⟩) ∈ place (c.region k).first (tiles k) ∧ Arena.Covers (q, n) i) ∧
    ∀ k, k < m.arenaCount → ∀ x ∈ (m.arenas k).live, ∀ i, Arena.Covers x i →
      m'.pods i = m.pods i

/-- There is at most one arena, and its last page is not a block of its own. -/
def AllWalked (c : Setup) (m : Manager) : Prop :=
  m.arenaCount ≤ 1 ∧ ∀ k, k < m.arenaCount → ∀ t, m.tagOf c (c.region k).last = some t →
    t.globalSize ≠ 1

theorem tagOf_last {t : Arena.PageTag} :
    m.tagOf c (c.region 0).last = some t ↔ (m.arenas 0).arena.pods (c.region 0).last = some t := by
  have hdiv : (c.region 0).last / c.localPodCount = 0 :=
    Setup.div_of_region c.maxArena_pos (c.region 0).le (Nat.lt_succ_self _)
  rw [Holdings.tagOf, Holdings.arenaOf, hdiv]

theorem Inv.allWalked {b : Prop} {h : ∀ i, AbsHeap (c.L i)} {fuel : ℕ} (hi : m.Inv c path b h)
    (hfuel : 2 ≤ fuel) (htrim : TrimsFreePages c path m fuel) : AllWalked c m := by
  obtain ⟨tiles, m', htiles, hrun, -⟩ := htrim
  rcases Nat.eq_zero_or_pos m.arenaCount with hzero | hpos
  · exact ⟨by omega, fun k hk => absurd hk (by omega)⟩
  · obtain ⟨a, ha⟩ := hi.holdings.arenas 0 hpos
    rw [bundleTrim_first hi.holdings hpos hfuel ha] at hrun
    have hwalk := (Prod.mk.inj (Except.ok.inj hrun)).1
    have hcount : 1 = m.arenaCount := by
      have hlen := congrArg List.length hwalk
      rwa [length_map, length_range] at hlen
    refine ⟨hcount.ge, ?_⟩
    intro k hk t ht hone
    obtain rfl : k = 0 := by omega
    obtain ⟨d, hd⟩ := single_of_last (htiles 0 hpos) (tagOf_last.mp ht) hone
    -- the block at the last page is not among those that were walked
    rw [← hcount, range_one, map_singleton, List.cons.injEq, Prod.mk.injEq] at hwalk
    rw [← hwalk.1.2, mem_filter, decide_eq_true_eq] at hd
    exact absurd hd.2 (lt_irrefl _)

theorem Inv.trims {b : Prop} {h : ∀ i, AbsHeap (c.L i)} {fuel : ℕ} (hi : m.Inv c path b h)
    (hfuel : 2 ≤ fuel) (hwalked : AllWalked c m) : TrimsFreePages c path m fuel := by
  obtain ⟨hone, hlast⟩ := hwalked
  rcases Nat.eq_zero_or_pos m.arenaCount with hzero | hpos
  · refine ⟨fun _ => [], m, ?_, ?_, ?_, ?_⟩
    · exact fun k hk => absurd hk (by omega)
    · rw [bundleTrim_none hzero hfuel, hzero]
      rfl
    · refine (dropPages_empty ?_).symm
      rintro i ⟨-, k, hk, -⟩
      omega
    · exact fun k hk => absurd hk (by omega)
  · have hcount : m.arenaCount = 1 := by omega
    obtain ⟨a, ha⟩ := hi.holdings.arenas 0 hpos
    have hzero : ∀ k, k < m.arenaCount ↔ k = 0 := fun k => by omega
    have hall := filter_place_of_last ha.shows fun t ht => hlast 0 hpos t (tagOf_last.mpr ht)
    refine ⟨fun k => if k = 0 then a.blocks else [], _, ?_, ?_, rfl, ?_⟩
    · intro k hk
      obtain rfl := (hzero k).mp hk
      exact ha.tiledBy
    · rw [bundleTrim_first hi.holdings hpos hfuel ha, hall, hcount]
      have hS : (fun i => m.Ready c (fun _ => true) i ∧ ∃ q n, (q, ⟨n, true⟩) ∈
          place (c.region 0).first a.blocks ∧ Arena.Covers (q, n) i) =
          fun i => m.tagOf c i ≠ none ∧ ∃ k, k < 1 ∧ ∃ q n, (q, ⟨n, true⟩) ∈
            place (c.region k).first (if k = 0 then a.blocks else []) ∧
            Arena.Covers (q, n) i := by
        funext i
        apply propext
        constructor
        · rintro ⟨⟨hr, -⟩, q, n, hq⟩
          exact ⟨hr, 0, Nat.one_pos, q, n, hq⟩
        · rintro ⟨hr, k, hk, q, n, hq⟩
          obtain rfl : k = 0 := by omega
          exact ⟨⟨hr, rfl⟩, q, n, hq⟩
      rw [hS]
      rfl
    · intro k hk x hx i hxi
      obtain rfl := (hzero k).mp hk
      apply dropPages_pods_of_not
      rintro ⟨-, k, hk, q, n, hq, hcov⟩
      obtain rfl := (hzero k).mp hk
      exact ha.not_freePage hx hxi ⟨q, n, hq, hcov⟩

/-- `trim` covers exactly the free pages if and only if there is at most one arena, and its last
page is not a block of its own. -/
theorem trim_covers_free_pages {swapDir : String} {fuel : ℕ}
    (hm : Run c (swapFile swapDir) (fun _ _ => True) m) (hfuel : 2 ≤ fuel) :
    TrimsFreePages c (swapFile swapDir) m fuel ↔ AllWalked c m := by
  obtain ⟨h, hi⟩ := hm.inv (b := True) (swapFile_injective swapDir) (fun _ cmd _ => sized_true cmd)
  exact ⟨hi.allWalked hfuel, hi.trims hfuel⟩

/-! ## Pages that are and are not dropped -/

section Samples

variable (c) (k p : ℕ)

def asked1 (m : Manager) : Manager := m.after c (swapFile "swap") (.hugeMalloc k 4096)

def entered1 (m : Manager) : Manager :=
  (m.asked1 c k).after c (swapFile "swap") (.hugePage p Session.sampleFetch)

def returned1 (m : Manager) : Manager :=
  (m.entered1 c k p).after c (swapFile "swap") (.hugeReturn p)

def written1 (m : Manager) : Manager :=
  (m.returned1 c k p).after c (swapFile "swap") (.store p (4096 * (p + 1) + 100) 7)

def useOnce (m : Manager) : Manager :=
  (m.written1 c k p).after c (swapFile "swap") (.remonFree (4096 * (p + 1)))

def UsesOnce (m : Manager) : Prop :=
  (isSmall c.pageSize 4096 = false ∧ k < m.arenaCount ∧ c.numPageNeeded 4096 < 2 ^ 31 ∧
    (m.step c (swapFile "swap") (.hugeMalloc k 4096)).isOk = true) ∧
  ((m.asked1 c k).callAt p = some ⟨p, 1, 4096, p⟩ ∧
    ((m.asked1 c k).pods p).landlordClient = none ∧
    ((m.asked1 c k).tagOf c p).map (fun t => t.globalSize) = some 1 ∧
    ((m.asked1 c k).step c (swapFile "swap") (.hugePage p Session.sampleFetch)).isOk = true) ∧
  ((m.entered1 c k p).callAt p = some ⟨p, 1, 4096, p + 1⟩ ∧
    ((m.entered1 c k p).tagOf c p).map (fun t => t.globalSize) = some 1 ∧
    ((m.entered1 c k p).step c (swapFile "swap") (.hugeReturn p)).isOk = true) ∧
  (((m.returned1 c k p).pods p).state = .local_ ∧
    (m.returned1 c k p).splPushdown p = none ∧
    ((m.returned1 c k p).step c (swapFile "swap")
      (.store p (4096 * (p + 1) + 100) 7)).isOk = true) ∧
  ⟨p, 1, 4096, p + 1⟩ ∈ (m.written1 c k p).huge ∧ (c.L p).payloadStart = 4096 * (p + 1) ∧
    ((m.written1 c k p).step c (swapFile "swap") (.remonFree (4096 * (p + 1)))).isOk = true

instance (m : Manager) : Decidable (m.UsesOnce c k p) := inferInstanceAs (Decidable (_ ∧ _))

variable {c k p}

theorem UsesOnce.run {m : Manager} (h : m.UsesOnce c k p)
    (hm : Run c (swapFile "swap") (fun _ _ => True) m) :
    Run c (swapFile "swap") (fun _ _ => True) (m.useOnce c k p) := by
  obtain ⟨⟨hlarge, hk, hcount, hok1⟩, ⟨hcall, hclient, hsize, hok2⟩, ⟨hcall', hsize', hok3⟩,
    ⟨hst, hn, hok4⟩, hmem, haddr, hok5⟩ := h
  have h1 := hm.after (.hugeMalloc k 4096) ⟨hlarge, hk, hcount⟩ trivial hok1
  obtain ⟨t, ht, hts⟩ := Option.map_eq_some_iff.mp hsize
  have h2 := h1.after (.hugePage p Session.sampleFetch)
    ⟨_, hcall, Pager.honest_of_none hclient, t, ht, by dsimp only at hts ⊢; omega⟩ trivial hok2
  obtain ⟨u, hu, hus⟩ := Option.map_eq_some_iff.mp hsize'
  have h3 := h2.after (.hugeReturn p)
    ⟨_, hcall', u, hu, by dsimp only at hus ⊢; omega⟩ trivial hok3
  have h4 := h3.after (.store p (4096 * (p + 1) + 100) 7)
    (.inl ⟨.inl hst, hn⟩) trivial hok4
  exact h4.after (.remonFree (4096 * (p + 1))) (.inr ⟨_, hmem, haddr⟩) trivial hok5

end Samples

def sampleOne : Setup := grid 4 4 four_pos_grid four_le_grid four_le_four_grid

def sampleTrimmed : Manager :=
  (new.after sampleOne (swapFile "swap") .addNewRegionCore).useOnce sampleOne 0 0

theorem sampleTrimmed_run : Run sampleOne (swapFile "swap") (fun _ _ => True) sampleTrimmed := by
  have h0 : Run sampleOne (swapFile "swap") (fun _ _ => True) new := .start
  have h1 := h0.after .addNewRegionCore (by decide +kernel : (0 : ℕ) < _) trivial
    (by decide +kernel)
  exact UsesOnce.run (by decide +kernel) h1

/-- The byte of the freed page is gone. -/
theorem trim_covers_free_pages_sample :
    Run sampleOne (swapFile "swap") (fun _ _ => True) sampleTrimmed ∧
    (sampleTrimmed.pods 0).mem 4196 = 7 ∧
    ∃ l m', sampleTrimmed.bundleTrim sampleOne (swapFile "swap") (fun _ => true) 2 = .ok (l, m') ∧
      (m'.pods 0).mem 4196 = 0 := by
  have hcount : sampleTrimmed.arenaCount = 1 := by decide +kernel
  have hsize : (sampleTrimmed.tagOf sampleOne 3).map (fun t => t.globalSize) = some 4 := by
    decide +kernel
  have hwalked : AllWalked sampleOne sampleTrimmed := by
    refine ⟨hcount.le, ?_⟩
    intro k hk t ht
    rw [hcount, Nat.lt_one_iff] at hk
    subst hk
    rw [show (sampleOne.region 0).last = 3 from rfl] at ht
    rw [ht, Option.map_some, Option.some.injEq] at hsize
    omega
  obtain ⟨tiles, m', -, hrun, -⟩ :=
    (trim_covers_free_pages sampleTrimmed_run (le_refl 2)).mpr hwalked
  refine ⟨sampleTrimmed_run, by decide +kernel, _, m', hrun, ?_⟩
  have hmem : (sampleTrimmed.bundleTrim sampleOne (swapFile "swap") (fun _ => true) 2).toOption.map
      (fun r => (r.2.pods 0).mem 4196) = some 0 := by decide +kernel
  rw [hrun] at hmem
  exact Option.some.inj hmem

/-- Two arenas of two pages; the first page of the second one was used once. -/
def sampleTwo : Setup := grid 4 2 Nat.two_pos four_le_grid two_le_four_grid

def sampleSecond : Manager :=
  ((new.after sampleTwo (swapFile "swap") .addNewRegionCore).after sampleTwo (swapFile "swap")
    .addNewRegionCore).useOnce sampleTwo 1 2

theorem sampleSecond_run : Run sampleTwo (swapFile "swap") (fun _ _ => True) sampleSecond := by
  have h0 : Run sampleTwo (swapFile "swap") (fun _ _ => True) new := .start
  have h1 := h0.after .addNewRegionCore (by decide +kernel : (0 : ℕ) < _) trivial
    (by decide +kernel)
  have h2 := h1.after .addNewRegionCore
    (show (_ : Manager).arenaCount < sampleTwo.maxArena by decide +kernel) trivial
      (by decide +kernel)
  exact UsesOnce.run (by decide +kernel) h2

def samplePair : Setup := grid 2 2 Nat.two_pos two_le_grid le_rfl

def sampleLast : Manager :=
  (((new.after samplePair (swapFile "swap") .addNewRegionCore).after samplePair (swapFile "swap")
    (.hugeMalloc 0 4096))).useOnce samplePair 0 1

theorem sampleLast_run : Run samplePair (swapFile "swap") (fun _ _ => True) sampleLast := by
  have h0 : Run samplePair (swapFile "swap") (fun _ _ => True) new := .start
  have h1 := h0.after .addNewRegionCore (by decide +kernel : (0 : ℕ) < _) trivial
    (by decide +kernel)
  have h2 := h1.after (.hugeMalloc 0 4096)
    ⟨by decide, by decide +kernel, by decide +kernel⟩ trivial (by decide +kernel)
  exact UsesOnce.run (by decide +kernel) h2

/-- With two arenas only the first is walked, and a free local page of the second keeps its
memory. In one arena the free block that is the last page is not walked, and keeps its memory. -/
theorem trim_misses_free_pages :
    (Run sampleTwo (swapFile "swap") (fun _ _ => True) sampleSecond ∧
      sampleSecond.arenaCount = 2 ∧
      (sampleSecond.tagOf sampleTwo 2).map (fun t => (t.globalSize, t.isFree)) =
        some (2, true) ∧
      (sampleSecond.pods 2).state = .local_ ∧
      (sampleSecond.bundleTrim sampleTwo (swapFile "swap") (fun _ => true) 2).toOption.map
        (fun r => (r.1, (r.2.pods 2).mem 12388)) = some ([(0, [(0, ⟨2, true⟩)])], 7)) ∧
    Run samplePair (swapFile "swap") (fun _ _ => True) sampleLast ∧
      (sampleLast.tagOf samplePair 1).map (fun t => (t.globalSize, t.isFree)) = some (1, true) ∧
      (sampleLast.pods 1).state = .local_ ∧
      (sampleLast.bundleTrim samplePair (swapFile "swap") (fun _ => true) 2).toOption.map
        (fun r => (r.1, (r.2.pods 1).mem 8292)) = some ([(0, [(0, ⟨1, false⟩)])], 7) := by
  refine ⟨⟨sampleSecond_run, ?_, ?_, ?_, ?_⟩, sampleLast_run, ?_, ?_, ?_⟩
  all_goals decide +kernel

end Manager

end Remon
