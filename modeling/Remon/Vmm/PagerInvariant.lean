import Remon.Vmm.Pager

/-! # The invariant of the pager

Wherever its page is, every pod stands for one heap, and every list is in order. The calls of
a list change the pods of that list only; all other operations change one pod and where it is
filed. In both cases no block that is held and no free is lost.
-/

namespace Remon
open Function Lib Heap Fault

variable {L : ℕ → Layout} {path : ℕ → String} {b : Prop}

theorem swapFile_injective (swapDir : String) : Injective (swapFile swapDir) := by
  intro i j h
  have hd : Nat.toDigits 10 i = Nat.toDigits 10 j := by
    rw [← Nat.toList_repr, ← Nat.toList_repr]
    exact congrArg String.toList ((String.append_right_inj _).mp h)
  rw [← Nat.ofDigitChars_toDigits (b := 10) (n := i) (by decide) (by decide), hd,
    Nat.ofDigitChars_toDigits (by decide) (by decide)]

/-- What the calls of a list do to a pod is no concern of the places where its page may be. -/
theorem World.Models.evolves {L : Layout} {path : String} {h h' : AbsHeap L} {w w' : World}
    {f f' : List (Prot × List ℕ)} (hw : w.Models L path b h)
    (he : Cell.Evolves b ⟨w.pod, h, f⟩ ⟨w'.pod, h', f'⟩) (hfiles : w'.files = w.files)
    (hnode : w'.node = w.node) : w'.Models L path b h' := by
  rcases he.ready with heq | ⟨hr, hr'⟩
  · rw [Cell.mk.injEq] at heq
    obtain ⟨hp, rfl, -⟩ := heq
    exact hw.frame hp (by rw [hfiles]) hnode
  · have hrest : w.files path = none ∧ w.pod.landlordClient = none ∧ ∀ c, w.node c = none := by
      rcases hr with hr | hr
      · exact ((models_resident (.inl hr.2.1)).mp hw).2.2
      · exact ((models_init hr.2.1).mp hw).2.2
    have hl : w'.pod.landlordClient = none := he.landlord.trans hrest.2.1
    rcases hr' with hr' | hr'
    · exact (models_resident (.inl hr'.2.1)).mpr
        ⟨hr'.1, hr'.2.2, hfiles ▸ hrest.1, hl, hnode ▸ hrest.2.2⟩
    · exact (models_init hr'.2.1).mpr ⟨hr'.1, hr'.2.2, hfiles ▸ hrest.1, hl, hnode ▸ hrest.2.2⟩

/-- A list knows of its own pods only. -/
theorem SplState.Inv.frame {M M' : ℕ → Prop} {s s' : SplState} {h h' : ∀ i, AbsHeap (L i)}
    (hi : s.Inv b M h) (hM : ∀ i, M' i ↔ M i)
    (hspl : s'.toSegregatedPageList = s.toSegregatedPageList)
    (hpods : ∀ i, M i → s'.pods i = s.pods i) (hh : ∀ i, M i → h' i = h i) : s'.Inv b M' h' := by
  obtain ⟨m, pods, flushes⟩ := s
  obtain ⟨m', pods', flushes'⟩ := s'
  obtain rfl : m' = m := hspl
  obtain rfl : M' = M := funext fun i => propext (hM i)
  dsimp only at hpods
  have hres : ∀ i, M' i → (Cell.Resident b ⟨pods' i, h' i, flushes' i⟩ ↔
      Cell.Resident b ⟨pods i, h i, flushes i⟩) := by
    intro i hi
    rw [hpods i hi, hh i hi]
    exact Iff.rfl
  have hready : ∀ i, M' i → (Cell.Ready b ⟨pods' i, h' i, flushes' i⟩ ↔
      Cell.Ready b ⟨pods i, h i, flushes i⟩) := by
    intro i hi
    rw [hpods i hi, hh i hi]
    exact Iff.rfl
  refine ⟨hi.tidy, ?_, ?_, ?_, ?_, ?_, ?_, ?_, hi.buffered, hi.silent⟩
  · intro k i hk
    obtain ⟨hr, hm⟩ := hi.keyed k i hk
    exact ⟨(congrArg Pod.rank (hpods i hm)).trans hr, hm⟩
  · intro i hm
    have := hi.synced i hm
    dsimp only at this ⊢
    rwa [hpods i hm]
  · intro i hf hl
    have hm := hi.filed_mem hf
    obtain ⟨hr, hin, hk⟩ := hi.ranked i hf hl
    refine ⟨(hres i hm).mpr hr, ?_, ?_⟩
    · dsimp only at hin ⊢
      rwa [hpods i hm]
    · dsimp only at hk ⊢
      rwa [hpods i hm, hh i hm]
  · intro i hl
    obtain ⟨hf, hr⟩ := hi.last i hl
    exact ⟨hf, (hready i (hi.filed_mem hf)).mpr hr⟩
  · intro i hm
    dsimp only
    rw [hpods i hm]
    exact hi.listed i hm
  · intro i hm
    dsimp only
    rw [hpods i hm]
    exact hi.noted i hm
  · intro i hm
    dsimp only
    rw [hpods i hm]
    exact hi.blank i hm

namespace Pager

variable {g g' g'' t : Pager} {h h' h'' : ∀ i, AbsHeap (L i)} {i l : ℕ}

/-- The pod `i` with the copies of its page. -/
def world (g : Pager) (i : ℕ) : World := ⟨g.pods i, g.files, g.nodes i, fun _ => 0⟩

def cell (g : Pager) (h : ∀ i, AbsHeap (L i)) (i : ℕ) : Cell (L i) := ⟨g.pods i, h i, g.flushes i⟩

/-- The pods that the list `l` manages. -/
def Of (g : Pager) (l i : ℕ) : Prop := g.splPushdown i = some l

/-- The pod `i` is in a bucket of its list. -/
def Filed (g : Pager) (i : ℕ) : Prop := ∃ l, g.Of l i ∧ (g.spl l).Filed i

def IsLast (g : Pager) (i : ℕ) : Prop := ∃ l, g.Of l i ∧ (g.lists l).lastAllocatedPod = some i

def Away (p : Pod) : Prop := p.state ≠ .init ∧ p.state ≠ .local_ ∧ p.state ≠ .localPinned

variable (L path b) in
/-- The pods without the lists. -/
structure Sound (g : Pager) (h : ∀ i, AbsHeap (L i)) : Prop where
  pages : ∀ i, (g.world i).Models (L i) (path i) b (h i)
  unlisted : ∀ i, g.splPushdown i = none →
    (g.pods i).heap.inited = false ∧ (g.pods i).oldRank = (g.pods i).rank
  pinned : ∀ i l, g.Of l i → (g.pods i).state ≠ .localPinned
  unmapped : ∀ i, Away (g.pods i) → (g.pods i).prot = .none

variable (L path b) in
structure Inv (g : Pager) (h : ∀ i, AbsHeap (L i)) : Prop extends Sound L path b g h where
  lists : ∀ l, (g.spl l).Inv b (g.Of l) h

theorem inv_new (hL : ∀ i, h i = .fresh (L i)) : Inv L path b new h := by
  have hnone : ∀ l i, ¬ (new.Of l) i := fun l i hl => nomatch hl
  have hnf : ∀ l i, ¬ (new.spl l).Filed i := by
    rintro l i ⟨k, hk⟩
    exact OrdMap.not_holds_empty hk
  refine ⟨⟨?_, fun i _ => ⟨rfl, rfl⟩, fun i l hl => absurd hl (hnone l i),
    fun i hi => absurd rfl hi.1⟩, ?_⟩
  · intro i
    have hm : (Pod.new i).Models b (h i) := by
      refine ⟨.inr ⟨rfl, hL i⟩, ?_, rfl, List.nodup_nil, ?_⟩
      · exact fun hc => nomatch hc
      · exact fun q hq => nomatch hq
    exact (World.models_init rfl).mpr ⟨hm, rfl, rfl, rfl, fun _ => rfl⟩
  · intro l
    refine ⟨.empty, fun k i hk => absurd ⟨k, hk⟩ (hnf l i), fun i hi => absurd hi (hnone l i),
      fun i hf => absurd hf (hnf l i), ?_, fun i hi => absurd hi (hnone l i),
      fun i hi => absurd hi (hnone l i), fun i hi => absurd hi (hnone l i), ?_, rfl⟩
    · exact fun i hl => nomatch hl
    · exact fun i hi => nomatch hi

/-! ## One pod changes -/

/-- The pod `i` becomes `p`, which stands for `hp`; what it has outside may change with it. -/
theorem Sound.set {p : Pod} {x : AbsHeap (L i)} (hg : Sound L path b g h)
    (hpods : t.pods = update g.pods i p)
    (hhome : ∀ j, j ≠ i → t.splPushdown j = g.splPushdown j)
    (hfiles : ∀ j, j ≠ i → t.files (path j) = g.files (path j))
    (hnodes : ∀ j, j ≠ i → t.nodes j = g.nodes j)
    (hpage : World.Models (L i) (path i) b ⟨p, t.files, t.nodes i, fun _ => 0⟩ x)
    (hunlisted : t.splPushdown i = none → p.heap.inited = false ∧ p.oldRank = p.rank)
    (hpinned : ∀ l, t.Of l i → p.state ≠ .localPinned) (hunmapped : Away p → p.prot = .none) :
    Sound L path b t (update h i x) := by
  have hpi : t.pods i = p := by
    rw [hpods, update_self]
  have hpj : ∀ j, j ≠ i → t.pods j = g.pods j := by
    intro j hj
    rw [hpods, update_of_ne hj]
  refine ⟨?_, ?_, ?_, ?_⟩
  · intro j
    by_cases hj : j = i
    · subst hj
      rw [update_self]
      exact hpage.frame hpi rfl rfl
    · rw [update_of_ne hj]
      exact (hg.pages j).frame (hpj j hj) (hfiles j hj) (hnodes j hj)
  · intro j hn
    by_cases hj : j = i
    · subst hj
      rw [hpi]
      exact hunlisted hn
    · rw [hpj j hj]
      exact hg.unlisted j ((hhome j hj).symm.trans hn)
  · intro j k hk
    by_cases hj : j = i
    · subst hj
      rw [hpi]
      exact hpinned k hk
    · rw [hpj j hj]
      exact hg.pinned j k ((hhome j hj).symm.trans hk)
  · intro j ha
    by_cases hj : j = i
    · subst hj
      rw [hpi] at ha ⊢
      exact hunmapped ha
    · rw [hpj j hj] at ha ⊢
      exact hg.unmapped j ha

theorem Inv.frame_list {k : ℕ} (hg : Inv L path b g h) (hi : ¬ g.Of k i)
    (hpods : ∀ j, j ≠ i → g'.pods j = g.pods j) (hlist : g'.lists k = g.lists k)
    (hhome : ∀ j, g'.Of k j ↔ g.Of k j) (hh : ∀ j, j ≠ i → h' j = h j) :
    (g'.spl k).Inv b (g'.Of k) h' := by
  refine (hg.lists k).frame hhome hlist ?_ ?_
  · intro j hj
    exact hpods j (fun hc => hi (hc ▸ hj))
  · intro j hj
    exact hh j (fun hc => hi (hc ▸ hj))

/-! ## List calls -/

theorem spl_putSpl (s : SplState) : (g.putSpl l s).spl l = s := by
  obtain ⟨m, pods, flushes⟩ := s
  simp [spl, putSpl]

theorem lists_putSpl_of_ne {k : ℕ} (s : SplState) (hk : k ≠ l) :
    (g.putSpl l s).lists k = g.lists k := by
  simp [putSpl, hk]

/-- The calls of the list `l` lead from `g` to `g'`. -/
structure Called (b : Prop) (l : ℕ) (g : Pager) (h : ∀ i, AbsHeap (L i)) (g' : Pager)
    (h' : ∀ i, AbsHeap (L i)) : Prop where
  home : g'.splPushdown = g.splPushdown
  cells : ∀ i, (g.cell h i).Evolves b (g'.cell h' i)
  others : ∀ i, ¬ g.Of l i → g'.cell h' i = g.cell h i
  lists : ∀ k, k ≠ l → g'.lists k = g.lists k
  filed : ∀ i, g'.Filed i ↔ g.Filed i

theorem Sound.putSpl {s : SplState} (hg : Sound L path b g h)
    (hc : SplState.Changes b (g.Of l) (g.spl l) h s h') : Sound L path b (g.putSpl l s) h' := by
  have hcell : ∀ i, (g.cell h i).Evolves b ((g.putSpl l s).cell h' i) := fun i => (hc i).1
  have hstate : ∀ i, (g.putSpl l s).pods i = g.pods i ∨
      (g.putSpl l s).pods i = (g.putSpl l s).pods i ∧ ((g.putSpl l s).cell h' i).Ready b := by
    intro i
    rcases (hcell i).ready with he | ⟨-, hr⟩
    · exact .inl (congrArg Cell.pod he)
    · exact .inr ⟨rfl, hr⟩
  refine ⟨?_, ?_, ?_, ?_⟩
  · exact fun i => (hg.pages i).evolves (hcell i) rfl rfl
  · intro i hn
    have hne : ¬ g.Of l i := fun hl => nomatch hn.symm.trans hl
    have he : (g.putSpl l s).pods i = g.pods i := congrArg Cell.pod ((hc i).2 hne)
    rw [he]
    exact hg.unlisted i hn
  · intro i k hk
    rcases hstate i with he | ⟨-, hr⟩
    · rw [he]
      exact hg.pinned i k hk
    · rcases hr with hr | hr
      · exact fun hc => nomatch hr.2.1.symm.trans hc
      · exact fun hc => nomatch hr.2.1.symm.trans hc
  · intro i ha
    rcases hstate i with he | ⟨-, hr⟩
    · rw [he] at ha ⊢
      exact hg.unmapped i ha
    · rcases hr with hr | hr
      · exact absurd hr.2.1 ha.2.1
      · exact absurd hr.2.1 ha.1

theorem Sound.inv_putSpl {s : SplState} (hg : Sound L path b g h)
    (hother : ∀ k, k ≠ l → (g.spl k).Inv b (g.Of k) h) (hs : s.Inv b (g.Of l) h')
    (hc : SplState.Changes b (g.Of l) (g.spl l) h s h') : Inv L path b (g.putSpl l s) h' := by
  refine ⟨hg.putSpl hc, ?_⟩
  intro k
  by_cases hk : k = l
  · subst hk
    rw [spl_putSpl]
    exact hs
  · refine (hother k hk).frame (fun _ => Iff.rfl) (lists_putSpl_of_ne s hk) ?_ ?_
    · intro i hi
      exact congrArg Cell.pod ((hc i).2 (fun hl => hk (Option.some.inj (hi.symm.trans hl))))
    · intro i hi
      have he := (hc i).2 (fun hl => hk (Option.some.inj (hi.symm.trans hl)))
      simp only [SplState.cell, Cell.mk.injEq] at he
      exact he.2.1

theorem filed_putSpl {s : SplState} (hf : ∀ i, s.Filed i ↔ (g.spl l).Filed i) (i : ℕ) :
    (g.putSpl l s).Filed i ↔ g.Filed i := by
  refine exists_congr fun k => and_congr_right fun _ => ?_
  by_cases hk : k = l
  · subst hk
    rw [spl_putSpl]
    exact hf i
  · rw [SplState.Filed, SplState.Filed, spl, lists_putSpl_of_ne s hk]
    rfl

/-- What is left after a call of the list `l`. -/
theorem Inv.call {s : SplState} (hg : Inv L path b g h)
    (hgo : SplState.Goes b (g.Of l) (g.spl l) h s h') :
    Inv L path b (g.putSpl l s) h' ∧ Called b l g h (g.putSpl l s) h' :=
  ⟨hg.toSound.inv_putSpl (fun k _ => hg.lists k) hgo.inv hgo.changes, rfl,
    fun i => (hgo.changes i).1, fun i => (hgo.changes i).2, fun _ hk => lists_putSpl_of_ne s hk,
    filed_putSpl hgo.filed⟩

theorem Inv.allocate {size : ℕ} (hg : Inv L path b g h) (hz : Asize size)
    (hb : ∀ i, (L i).maxIntraPodSize < size → b) (c : Choice) :
    Yields (Stuck b) (g.allocate L l size c) (fun r => ∃ h', Inv L path b r.2 h' ∧
      Called b l g h r.2 h' ∧
      (r.1 ≠ 0 → SplState.Served b (g.Of l) (g.spl l) h (r.2.spl l) h' size r.1) ∧
      (r.1 = 0 → (r.2.lists l).lastAllocatedPod = none) ∧
      (c.retries ≤ 100 → SplState.Stocks r.1 (g.spl l) h (r.2.spl l) h')) := by
  rw [Pager.allocate]
  refine ((hg.lists l).allocate hz hb c).bind ?_
  rintro ⟨ptr, s⟩ ⟨h', hgo, hserved, hnone, hstock⟩
  obtain ⟨hinv, hcall⟩ := hg.call hgo
  refine ⟨h', hinv, hcall, ?_, ?_, ?_⟩
  · change ptr ≠ 0 → SplState.Served b (g.Of l) (g.spl l) h ((g.putSpl l s).spl l) h' size ptr
    rw [spl_putSpl]
    exact hserved
  · change ptr = 0 → ((g.putSpl l s).spl l).lastAllocatedPod = none
    rw [spl_putSpl]
    exact hnone
  · change _ → SplState.Stocks ptr (g.spl l) h ((g.putSpl l s).spl l) h'
    rw [spl_putSpl]
    exact hstock

theorem Inv.trim (hg : Inv L path b g h) (c : Choice) (tryLock : ℕ → Bool) :
    Yields (Stuck b) (g.trim L l c tryLock) (fun g' => Inv L path b g' h ∧
      Called b l g h g' h ∧ (g'.lists l).lastAllocatedPod = (g.lists l).lastAllocatedPod ∧
      SplState.Stocks 0 (g.spl l) h (g'.spl l) h) := by
  rw [Pager.trim]
  refine ((hg.lists l).trim c tryLock).bind ?_
  rintro s ⟨hgo, hlast, hstock⟩
  obtain ⟨hinv, hcall⟩ := hg.call hgo
  refine ⟨hinv, hcall, ?_, ?_⟩
  · change ((g.putSpl l s).spl l).lastAllocatedPod = _
    rw [spl_putSpl]
    exact hlast
  · rw [spl_putSpl]
    exact hstock

def note (g : Pager) (i a : ℕ) : Pager :=
  g.setPod i { g.pods i with freeBuffer := (g.pods i).freeBuffer ++ [a] }

theorem pods_note_self (i a : ℕ) : (g.note i a).pods i =
    { g.pods i with freeBuffer := (g.pods i).freeBuffer ++ [a] } := update_self _ _ _

theorem pods_note_of_ne {j a : ℕ} (hj : j ≠ i) : (g.note i a).pods j = g.pods j :=
  update_of_ne hj _ _

def Roomy (g : Pager) (i : ℕ) : Prop :=
  (g.pods i).state = .diskCache ∨ (g.pods i).state = .remoteCache →
    (g.pods i).freeBuffer.length + 1 < maxFreeBuffSize

theorem Sound.note {a : ℕ} (hg : Sound L path b g h) (ha : (h i).isLive a = true)
    (hn : a ∉ (g.pods i).freeBuffer) : Sound L path b (g.note i a) h := by
  have hset := hg.set (t := g.note i a) (x := h i) rfl (fun _ _ => rfl) (fun _ _ => rfl)
    (fun _ _ => rfl) ((hg.pages i).note ha hn) (hg.unlisted i) (hg.pinned i) (hg.unmapped i)
  rwa [update_eq_self] at hset

/-- What is known of a pod with a block in use. -/
theorem Inv.of_live {a : ℕ} (hg : Inv L path b g h) (ha : (h i).isLive a = true) :
    (g.pods i).heap.inited = true ∧ ∃ l, g.Of l i := by
  have hin : (g.pods i).heap.inited = true := by
    rw [← Bool.not_eq_false]
    intro hin
    obtain ⟨hfresh, -⟩ := (hg.pages i).of_not_inited hin
    obtain ⟨n, hn⟩ := (h i).isLive_iff.mp ha
    rw [hfresh] at hn
    exact AbsHeap.not_alloc_fresh a n hn
  refine ⟨hin, ?_⟩
  cases hl : g.splPushdown i with
  | none =>
    rw [(hg.unlisted i hl).1] at hin
    cases hin
  | some l => exact ⟨l, hl⟩

/-- A pod that was given back has no allocator. -/
theorem Sound.inited_of_init (hg : Sound L path b g h) (hs : (g.pods i).state = .init) :
    (g.pods i).heap.inited = false :=
  ((World.models_init hs).mp (hg.pages i)).2.1

theorem Inv.free {a : ℕ} (hg : Inv L path b g h) (hl : g.Of l i) (ha : (h i).isLive a = true)
    (hn : a ∉ (g.pods i).freeBuffer) :
    Yields (fun e => Stuck b e ∨ e = .undefined ∧ ¬ g.Roomy i) (g.free L i a) (fun r => ∃ h',
      Inv L path b r.2 h' ∧ Called b l (g.note i a) h r.2 h' ∧
      ((r.2.pods i).freeBuffer = [] ∨ (g.pods i).state = .disk ∨ (g.pods i).state = .remote ∨
        (g.pods i).freeBuffer.length + 1 < maxFreeBuffSize) ∧
      (r.2.lists l).lastAllocatedPod = (g.lists l).lastAllocatedPod ∧
      SplState.Stocks 0 ((g.note i a).spl l) h (r.2.spl l) h') := by
  obtain ⟨hin, -⟩ := hg.of_live ha
  have hinit : (g.pods i).state ≠ .init := by
    intro hs
    rw [hg.inited_of_init hs] at hin
    cases hin
  have hl' : g.splPushdown i = some l := hl
  simp only [Pager.free, hl']
  by_cases hroom : g.Roomy i
  · have hfree := ((hg.lists l).free hl ha hn hin hinit (hg.pinned i l hl) hroom)
    refine Yields.weaken (fun e he => .inl he) (hfree.bind ?_)
    rintro ⟨full, s⟩ ⟨h', hgo, hbuf, hlast, hstock⟩
    have hsound := hg.toSound.note ha hn
    have hother : ∀ k, k ≠ l → ((g.note i a).spl k).Inv b ((g.note i a).Of k) h := by
      intro k hk
      refine hg.frame_list (i := i) ?_ (fun j hj => update_of_ne hj _ _) rfl
        (fun _ => Iff.rfl) (fun _ _ => rfl)
      exact fun hc => hk (Option.some.inj (hc.symm.trans hl))
    refine ⟨h', hsound.inv_putSpl (l := l) hother hgo.inv hgo.changes, ⟨rfl,
      fun j => (hgo.changes j).1, fun j => (hgo.changes j).2, fun k hk => lists_putSpl_of_ne s hk,
      filed_putSpl (g := g.note i a) hgo.filed⟩, hbuf, ?_, ?_⟩
    · change ((g.putSpl l s).spl l).lastAllocatedPod = _
      rw [spl_putSpl]
      exact hlast
    · change SplState.Stocks 0 _ h ((g.putSpl l s).spl l) h'
      rw [spl_putSpl]
      exact hstock
  · rw [Roomy, Classical.not_imp, not_lt] at hroom
    obtain ⟨hcache, hlen⟩ := hroom
    have haway : Away (g.pods i) := by
      rcases hcache with hs | hs <;> simp [Away, hs]
    have htrap : (g.spl l).free L i a = .error .undefined :=
      SplState.free_traps hcache hlen (hg.unmapped i haway)
    rw [htrap]
    refine .inr ⟨rfl, ?_⟩
    rw [Roomy, Classical.not_imp, not_lt]
    exact ⟨hcache, hlen⟩

/-- The list `l` has a new pod `i`, which is its last one. -/
structure Joined (b : Prop) (l i : ℕ) (g : Pager) (h : ∀ i, AbsHeap (L i)) (g' : Pager)
    (h' : ∀ i, AbsHeap (L i)) : Prop where
  home : g'.splPushdown = update g.splPushdown i (some l)
  cells : ∀ j, j ≠ i → (g.cell h j).Evolves b (g'.cell h' j)
  others : ∀ j, j ≠ i → ¬ g.Of l j → g'.cell h' j = g.cell h j
  keeps : (g.cell h i).Keeps (g'.cell h' i)
  resident : (g'.cell h' i).Resident b
  inited : (g'.pods i).heap.inited = true
  lists : ∀ k, k ≠ l → g'.lists k = g.lists k
  filed : ∀ j, g'.Filed j ↔ g.Filed j ∨ j = i
  last : (g'.lists l).lastAllocatedPod = some i

theorem Joined.keeps_all (hj : Joined b l i g h g' h') (j : ℕ) :
    (g.cell h j).Keeps (g'.cell h' j) := by
  by_cases he : j = i
  · subst he
    exact hj.keeps
  · exact (hj.cells j he).toKeeps

/-- A page from the buffer serves its first request. -/
theorem Inv.addPodAndAllocate {size : ℕ} (hg : Inv L path b g h) (hn : g.splPushdown i = none)
    (hs : (g.pods i).state = .localPinned) (hl : (g.lists l).lastAllocatedPod = none)
    (hz : Asize size) (hb : ∀ i, (L i).maxIntraPodSize < size → b) :
    Yields (Stuck b) (g.addPodAndAllocate L l i size) (fun r => ∃ h', Inv L path b r.2 h' ∧
      Joined b l i g h r.2 h' ∧ (r.1 ≠ 0 → ∃ n, AbsHeap.Cut size n ∧ (r.2.cell h' i).Held r.1 n) ∧
      ∀ j q n, (r.2.cell h' j).Held q n → (g.cell h j).Held q n ∨ r.1 ≠ 0 ∧ q = r.1 ∧ j = i) := by
  obtain ⟨hm, hprot, hf, hland, hnode⟩ := (World.models_resident (.inr hs)).mp (hg.pages i)
  obtain ⟨hin, hsync⟩ := hg.unlisted i hn
  have hnil : (g.pods i).freeBuffer = [] := ((hg.pages i).of_not_inited hin).2
  have hp₀ : (g.pods i).localPinnedToLocal = { g.pods i with state := .local_ } := if_pos hs
  have hm₀ : ({ g.pods i with state := .local_ } : Pod).Models b (h i) := hm.congr rfl rfl rfl
  obtain ⟨m, hrun, hmod⟩ := hm₀.heapInit
  rw [Pager.addPodAndAllocate, hp₀, hrun, ok_bind]
  set p : Pod := { g.pods i with
    state := .local_, heap := ⟨m, true, (g.pods i).heap.locked⟩ } with hp
  set g₁ : Pager := { g.setPod i p with splPushdown := update g.splPushdown i (some l) }
    with hg₁
  have hres : Cell.Resident b ⟨p, h i, g.flushes i⟩ := ⟨hmod, rfl, hprot⟩
  have hpi : g₁.pods i = p := update_self _ _ _
  have hpj : ∀ j, j ≠ i → g₁.pods j = g.pods j := fun j hj => update_of_ne hj _ _
  have hhi : g₁.splPushdown i = some l := update_self _ _ _
  have hhj : ∀ j, j ≠ i → g₁.splPushdown j = g.splPushdown j :=
    fun j hj => update_of_ne hj _ _
  have hOf : g₁.Of l = fun j => g.Of l j ∨ j = i := by
    funext j
    by_cases hj : j = i
    · subst hj
      simp [Of, hhi]
    · simp [Of, hhj j hj, hj]
  have hsound : Sound L path b g₁ h := by
    have hset := hg.toSound.set (t := g₁) (p := p) (x := h i) rfl hhj (fun _ _ => rfl)
      (fun _ _ => rfl) ((World.models_resident (.inl rfl)).mpr ⟨hmod, hprot, hf, hland, hnode⟩)
      (fun hc => nomatch hhi.symm.trans hc) (fun _ _ hc => nomatch hc) (fun ha => absurd rfl ha.2.1)
    rwa [update_eq_self] at hset
  have hother : ∀ k, k ≠ l → (g₁.spl k).Inv b (g₁.Of k) h := by
    intro k hk
    refine hg.frame_list (i := i) ?_ hpj rfl ?_ (fun _ _ => rfl)
    · exact fun hc => nomatch hn.symm.trans hc
    · intro j
      by_cases hj : j = i
      · subst hj
        simp [Of, hhi, hn, Ne.symm hk]
      · rw [Of, Of, hhj j hj]
  have hadd := (hg.lists l).addPodAndAllocate (fun hc => nomatch hn.symm.trans hc) hl hin hnil hsync
    hres hnil hz hb
  refine hadd.bind ?_
  rintro ⟨ptr, s⟩ ⟨h', hinv, hch, hfiled, hlast, hserved, hstock⟩
  rw [← hOf] at hinv hch hserved
  have hci : (g₁.cell h i).Evolves b ((g₁.putSpl l s).cell h' i) := (hch i).1
  have hresi : (g₁.cell h i).Resident b := by
    rw [cell, hpi]
    exact hres
  have hmade : ((g₁.putSpl l s).pods i).heap.inited = true := by
    rcases hci.made with he | he
    · have hpe : (g₁.putSpl l s).pods i = g₁.pods i := congrArg Cell.pod he
      rw [hpe, hpi]
    · exact he
  have hready : ((g₁.putSpl l s).cell h' i).Resident b := by
    rcases hci.ready with he | ⟨-, hr⟩
    · rw [he]
      exact hresi
    · refine hr.resolve_right ?_
      intro hc
      exact nomatch hmade.symm.trans hc.2.2
  refine ⟨h', hsound.inv_putSpl hother hinv hch, ⟨rfl, ?_, ?_, ?_, hready, hmade, ?_, ?_, ?_⟩,
    ?_, ?_⟩
  · intro j hj
    have hej := (hch j).1
    have hcj : g.cell h j = g₁.cell h j := by
      rw [cell, cell, hpj j hj]
      rfl
    rw [hcj]
    exact hej
  · intro j hj hnl
    have hej := (hch j).2 (by rw [hOf]; simp [hnl, hj])
    have hcj : g.cell h j = g₁.cell h j := by
      rw [cell, cell, hpj j hj]
      rfl
    rw [hcj]
    exact hej
  · refine Cell.Keeps.trans (d := g₁.cell h i) ?_ hci.toKeeps
    refine .of_same (fun _ _ hx => hx) ?_ rfl
    rw [cell, hpi]
    rfl
  · exact fun k hk => lists_putSpl_of_ne s hk
  · intro j
    by_cases hj : j = i
    · subst hj
      refine iff_of_true ⟨l, hhi, ?_⟩ (.inr rfl)
      rw [spl_putSpl]
      exact (hfiled j).mpr (.inr rfl)
    · rw [or_iff_left hj]
      refine exists_congr fun k => and_congr (by rw [Of, Of, ← hhj j hj]; rfl) ?_
      by_cases hk : k = l
      · subst hk
        rw [spl_putSpl, hfiled, or_iff_left hj]
      · rw [SplState.Filed, SplState.Filed, spl, lists_putSpl_of_ne s hk]
        rfl
  · change ((g₁.putSpl l s).spl l).lastAllocatedPod = some i
    rw [spl_putSpl]
    exact hlast
  · intro hptr
    obtain ⟨i', n, -, hl', -, hn', hheld, -⟩ := hserved hptr
    obtain rfl : i' = i := Option.some.inj (hl'.symm.trans hlast)
    exact ⟨n, hn', hheld⟩
  · intro j q n hq
    rcases hstock j q n hq with hold | ⟨hptr, hqp, hl'⟩
    · have hold' : (h j).Alloc q n ∧ q ∉ (g₁.pods j).freeBuffer := hold
      refine .inl ⟨hold'.1, ?_⟩
      by_cases hj : j = i
      · rw [hj, hpi] at hold'
        rw [hj]
        exact hold'.2
      · rw [hpj j hj] at hold'
        exact hold'.2
    · exact .inr ⟨hptr, hqp, (Option.some.inj (hlast.symm.trans hl')).symm⟩

/-- A page from the buffer serves every request that fits a page. -/
theorem Inv.addPodAndAllocate_serves (hg : Inv L path False g h) (hn : g.splPushdown i = none)
    (hs : (g.pods i).state = .localPinned) (a : Request (L i)) :
    ∃ g', g.addPodAndAllocate L l i a.size = .ok ((L i).firstBlock, g') ∧
      (g'.pods i).Models False ((AbsHeap.fresh (L i)).take a (L i).firstBlock) := by
  obtain ⟨hm, hprot, -⟩ := (World.models_resident (.inr hs)).mp (hg.pages i)
  obtain ⟨hin, -⟩ := hg.unlisted i hn
  obtain ⟨hfresh, -⟩ := (hg.pages i).of_not_inited hin
  have hp₀ : (g.pods i).localPinnedToLocal = { g.pods i with state := .local_ } := if_pos hs
  have hm₀ : ({ g.pods i with state := .local_ } : Pod).Models False (h i) := hm.congr rfl rfl rfl
  obtain ⟨m, hrun, hmod⟩ := hm₀.heapInit
  rw [Pager.addPodAndAllocate, hp₀, hrun, ok_bind]
  set p : Pod := { g.pods i with state := .local_, heap := ⟨m, true, (g.pods i).heap.locked⟩ }
  set g₁ : Pager := { g.setPod i p with splPushdown := update g.splPushdown i (some l) }
  have hpi : (g₁.spl l).pods i = p := update_self _ _ _
  have hres : ((g₁.spl l).cell h i).Resident False := by
    rw [SplState.cell, hpi]
    exact ⟨hmod, rfl, hprot⟩
  have hlock : ((g₁.spl l).pods i).heap.locked = false := by
    rw [hpi, ← Bool.not_eq_true]
    exact hmod.locked
  obtain ⟨s, hs', hmod'⟩ := SplState.addPodAndAllocate_unlocked hres hlock a
  rw [hfresh, AbsHeap.malloc_fresh] at hs' hmod'
  refine ⟨g₁.putSpl l s, ?_, hmod'⟩
  simp only [hs', ok_bind, pure_eq, Option.getD_some]
/-! ## Operations on one pod -/

/-- The pod `i` with its list and the copies of its page is all that changes. -/
structure OnePod (i : ℕ) (g : Pager) (h : ∀ i, AbsHeap (L i)) (g' : Pager)
    (h' : ∀ i, AbsHeap (L i)) : Prop where
  home : g'.splPushdown = g.splPushdown
  others : ∀ j, j ≠ i → g'.cell h' j = g.cell h j
  filed : ∀ j, j ≠ i → (g'.Filed j ↔ g.Filed j)
  last : ∀ l, (g'.lists l).lastAllocatedPod = (g.lists l).lastAllocatedPod
  keeps : (g.cell h i).Retains (g'.cell h' i)

theorem OnePod.refl : OnePod i g h g h :=
  ⟨rfl, fun _ _ => rfl, fun _ _ => Iff.rfl, fun _ => rfl, .refl _⟩

theorem OnePod.keeps_all (ho : OnePod i g h g' h') (j : ℕ) :
    (g.cell h j).Retains (g'.cell h' j) := by
  by_cases hj : j = i
  · subst hj
    exact ho.keeps
  · rw [ho.others j hj]
    exact .refl _

theorem OnePod.pods_of_ne (ho : OnePod i g h g' h') {j : ℕ} (hj : j ≠ i) : g'.pods j = g.pods j :=
  congrArg Cell.pod (ho.others j hj)

/-- The pager `g'` has another pod `i`, and nothing else that concerns other pods changed. -/
structure Swaps (path : ℕ → String) (i : ℕ) (p : Pod) (g g' : Pager) : Prop where
  pods : g'.pods = update g.pods i p
  home : g'.splPushdown = g.splPushdown
  flushes : ∀ j, j ≠ i → g'.flushes j = g.flushes j
  files : ∀ j, j ≠ i → g'.files (path j) = g.files (path j)
  nodes : ∀ j, j ≠ i → g'.nodes j = g.nodes j

theorem Swaps.trans {p q : Pod} (hs : Swaps path i p g g') (hs' : Swaps path i q g' g'') :
    Swaps path i q g g'' where
  pods := by
    rw [hs'.pods, hs.pods, update_idem]
  home := hs'.home.trans hs.home
  flushes j hj := (hs'.flushes j hj).trans (hs.flushes j hj)
  files j hj := (hs'.files j hj).trans (hs.files j hj)
  nodes j hj := (hs'.nodes j hj).trans (hs.nodes j hj)

theorem Swaps.setPod (p : Pod) : Swaps path i p g (g.setPod i p) :=
  ⟨rfl, rfl, fun _ _ => rfl, fun _ _ => rfl, fun _ _ => rfl⟩

theorem Swaps.of {p : Pod} (hs : Swaps path i p g g') (l : ℕ) : g'.Of l = g.Of l := by
  funext j
  rw [Of, Of, hs.home]

theorem Swaps.cell {p : Pod} {hp : AbsHeap (L i)} (hs : Swaps path i p g g') :
    g'.cell (update h i hp) i = ⟨p, hp, g'.flushes i⟩ := by
  simp [Pager.cell, hs.pods]

theorem Swaps.others {p : Pod} {hp : AbsHeap (L i)} (hs : Swaps path i p g g') (j : ℕ)
    (hj : j ≠ i) : g'.cell (update h i hp) j = g.cell h j := by
  simp [Pager.cell, hs.pods, hs.flushes j hj, hj]

/-- What has to be known of the new pod `i`, its lists apart. -/
structure Fits (L : ℕ → Layout) (path : ℕ → String) (b : Prop) (i : ℕ) (g : Pager)
    (h : ∀ i, AbsHeap (L i)) (p : Pod) (hp : AbsHeap (L i)) (g' : Pager) : Prop where
  swaps : Swaps path i p g g'
  page : World.Models (L i) (path i) b ⟨p, g'.files, g'.nodes i, fun _ => 0⟩ hp
  keeps : (g.cell h i).Retains ⟨p, hp, g'.flushes i⟩
  inited : g.splPushdown i = none → p.heap.inited = false
  synced : p.oldRank = p.rank
  unmapped : Away p → p.prot = .none

theorem Fits.sound {p : Pod} {hp : AbsHeap (L i)} (hf : Fits L path b i g h p hp g')
    (hg : Sound L path b g h) (hpinned : ∀ l, g.Of l i → p.state ≠ .localPinned) :
    Sound L path b g' (update h i hp) := by
  refine hg.set hf.swaps.pods (fun j _ => by rw [hf.swaps.home]) hf.swaps.files hf.swaps.nodes
    hf.page ?_ ?_ hf.unmapped
  · rw [hf.swaps.home]
    exact fun hn => ⟨hf.inited hn, hf.synced⟩
  · intro l hl
    rw [hf.swaps.of] at hl
    exact hpinned l hl

/-- The other lists of pods do not change. -/
theorem Fits.others {p : Pod} {hp : AbsHeap (L i)} {k : ℕ} (hf : Fits L path b i g h p hp g')
    (hg : Inv L path b g h) (hlist : g'.lists k = g.lists k) (hk : ¬ g.Of k i) :
    (g'.spl k).Inv b (g'.Of k) (update h i hp) := by
  refine hg.frame_list hk ?_ hlist (fun j => by rw [hf.swaps.of]) ?_
  · intro j hj
    rw [hf.swaps.pods, update_of_ne hj]
  · exact fun j hj => update_of_ne hj _ _

theorem filed_iff_spl (hl : g.Of l i) : g.Filed i ↔ (g.spl l).Filed i := by
  constructor
  · rintro ⟨k, hk, hf⟩
    obtain rfl : k = l := Option.some.inj (hk.symm.trans hl)
    exact hf
  · exact fun hf => ⟨l, hl, hf⟩

theorem Inv.filed_of_isLast (hg : Inv L path b g h) (hl : g.IsLast i) : g.Filed i := by
  obtain ⟨l, hl, hlast⟩ := hl
  exact ⟨l, hl, ((hg.lists l).last i hlast).1⟩

theorem filed_congr (hlists : g'.lists = g.lists) (hhome : g'.splPushdown = g.splPushdown) (j : ℕ) :
    g'.Filed j ↔ g.Filed j := by
  refine exists_congr fun k => and_congr (by rw [Of, Of, hhome]) ?_
  rw [SplState.Filed, SplState.Filed, spl, spl, hlists]

/-- A pod that is in no bucket changes. -/
theorem Inv.aside {p : Pod} {hp : AbsHeap (L i)} (hg : Inv L path b g h) (hnf : ¬ g.Filed i)
    (hf : Fits L path b i g h p hp g') (hlists : g'.lists = g.lists)
    (haway : p.state = .local_ → p.heap.inited = false)
    (hpinned : ∀ l, g.Of l i → p.state ≠ .localPinned) :
    Inv L path b g' (update h i hp) ∧ OnePod i g h g' (update h i hp) := by
  have hblank : p.heap.inited = false → p.freeBuffer = [] :=
    fun hin => (hf.page.of_not_inited hin).2
  refine ⟨⟨hf.sound hg.toSound hpinned, ?_⟩, hf.swaps.home, hf.swaps.others,
    fun j _ => filed_congr hlists hf.swaps.home j, fun l => by rw [hlists], ?_⟩
  · intro k
    by_cases hk : g.Of k i
    · have hnf' : ¬ (g.spl k).Filed i := fun hc => hnf ((filed_iff_spl hk).mpr hc)
      rw [hf.swaps.of]
      refine (hg.lists k).aside (i := i) hf.swaps.pods ?_ ?_ ?_ ?_ (fun _ => hf.synced)
        (fun _ => haway) (fun _ => hblank) ?_ (fun _ => hk) ?_
      · rw [spl, hlists]
        exact (hg.lists k).tidy
      · intro r j
        rw [spl, hlists]
        exact SplState.holds_outside hnf'
      · rw [spl, hlists]
        rfl
      · exact fun hc => hnf' ((hg.lists k).last i hc).1
      · intro j _
        rw [spl, hlists]
        rfl
      · rw [spl, hlists]
        rfl
    · exact hf.others hg (by rw [hlists]) hk
  · rw [hf.swaps.cell]
    exact hf.keeps

/-- A filed pod changes and stays in its bucket. -/
theorem Inv.stay {p : Pod} {hp : AbsHeap (L i)} (hg : Inv L path b g h) (hl : g.Of l i)
    (hfiled : (g.spl l).Filed i) (hf : Fits L path b i g h p hp g') (hlists : g'.lists = g.lists)
    (hrank : p.rank = (g.pods i).rank) (hready : Cell.Ready b ⟨p, hp, g'.flushes i⟩)
    (hranked : (g.lists l).lastAllocatedPod ≠ some i →
      Cell.Resident b ⟨p, hp, g'.flushes i⟩ ∧ p.heap.inited = true ∧ p.rank = hp.maxSize)
    (hnoted : p.state = .local_ → p.freeBuffer ≠ [] → i ∈ (g.lists l).localFreeBuffer) :
    Inv L path b g' (update h i hp) ∧ OnePod i g h g' (update h i hp) := by
  have hpinned : p.state ≠ .localPinned := by
    rcases hready with hr | hr
    · exact fun hc => nomatch hr.2.1.symm.trans hc
    · exact fun hc => nomatch hr.2.1.symm.trans hc
  refine ⟨⟨hf.sound hg.toSound (fun _ _ => hpinned), ?_⟩, hf.swaps.home, hf.swaps.others,
    fun j _ => filed_congr hlists hf.swaps.home j, fun l => by rw [hlists], ?_⟩
  · intro k
    by_cases hk : g.Of k i
    · obtain rfl : k = l := Option.some.inj (hk.symm.trans hl)
      rw [hf.swaps.of]
      have hspl : (g'.spl k).toSegregatedPageList = (g.spl k).toSegregatedPageList :=
        congrFun hlists k
      refine (hg.lists k).touch hfiled hf.swaps.pods (congrArg (·.rankMap) hspl)
        (congrArg (·.lastAllocatedPod) hspl) hrank ?_ hready hranked ?_ ?_
        (congrArg (·.reports) hspl)
      · rw [hf.synced, hrank]
        exact ((hg.lists k).synced i hl).symm
      · intro hst hne
        rw [hspl]
        exact hnoted hst hne
      · intro j _
        rw [hspl]
    · exact hf.others hg (by rw [hlists]) hk
  · rw [hf.swaps.cell]
    exact hf.keeps

def setMap (g : Pager) (l : ℕ) (m : OrdMap (List ℕ)) : Pager :=
  { g with lists := update g.lists l { g.lists l with rankMap := m } }

theorem lists_setMap_self (m : OrdMap (List ℕ)) :
    (g.setMap l m).lists l = { g.lists l with rankMap := m } := by
  simp [setMap]

theorem lists_setMap_of_ne {k : ℕ} (m : OrdMap (List ℕ)) (hk : k ≠ l) :
    (g.setMap l m).lists k = g.lists k := by
  simp [setMap, hk]

theorem filed_setMap {m : OrdMap (List ℕ)} {j : ℕ} (hlists : g'.lists = (g.setMap l m).lists)
    (hhome : g'.splPushdown = g.splPushdown)
    (hm : ∀ k, m.Holds k j ↔ (g.lists l).rankMap.Holds k j) : g'.Filed j ↔ g.Filed j := by
  refine exists_congr fun k => and_congr (by rw [Of, Of, hhome]) ?_
  rw [SplState.Filed, SplState.Filed, spl, spl, hlists]
  by_cases hk : k = l
  · subst hk
    refine exists_congr fun r => ?_
    rw [lists_setMap_self]
    exact hm r
  · rw [lists_setMap_of_ne m hk]

theorem last_setMap {m : OrdMap (List ℕ)} (hlists : g'.lists = (g.setMap l m).lists) (k : ℕ) :
    (g'.lists k).lastAllocatedPod = (g.lists k).lastAllocatedPod := by
  rw [hlists]
  by_cases hk : k = l
  · subst hk
    rw [lists_setMap_self]
  · rw [lists_setMap_of_ne m hk]

/-- A pod leaves its bucket. -/
theorem Inv.leave {p : Pod} {hp : AbsHeap (L i)} (hg : Inv L path b g h) (hl : g.Of l i)
    (hne : (g.lists l).lastAllocatedPod ≠ some i) (hf : Fits L path b i g h p hp g')
    (hlists : g'.lists =
      (g.setMap l ((g.lists l).rankMap.unfile (g.pods i).rank i)).lists)
    (haway : p.state = .local_ → p.heap.inited = false) (hpinned : p.state ≠ .localPinned) :
    Inv L path b g' (update h i hp) ∧ OnePod i g h g' (update h i hp) ∧
      ¬ g'.Filed i := by
  have hblank : p.heap.inited = false → p.freeBuffer = [] :=
    fun hin => (hf.page.of_not_inited hin).2
  have hspl : (g'.spl l).toSegregatedPageList = { g.lists l with
      rankMap := (g.lists l).rankMap.unfile (g.pods i).rank i } := by
    change g'.lists l = _
    rw [hlists, lists_setMap_self]
  have hholds : ∀ k j, (g'.spl l).rankMap.Holds k j ↔ (g.spl l).rankMap.Holds k j ∧ j ≠ i := by
    intro k j
    rw [hspl]
    exact (hg.lists l).holds_leave
  refine ⟨⟨hf.sound hg.toSound (fun _ _ => hpinned), ?_⟩,
    ⟨hf.swaps.home, hf.swaps.others, ?_, last_setMap hlists, ?_⟩, ?_⟩
  · intro k
    by_cases hk : g.Of k i
    · obtain rfl : k = l := Option.some.inj (hk.symm.trans hl)
      rw [hf.swaps.of]
      refine (hg.lists k).aside hf.swaps.pods ?_ hholds (congrArg (·.lastAllocatedPod) hspl) hne
        (fun _ => hf.synced) (fun _ => haway) (fun _ => hblank) ?_ (fun _ => hk)
        (congrArg (·.reports) hspl)
      · rw [hspl]
        exact (hg.lists k).tidy.unfile
      · intro j _
        rw [hspl]
        rfl
    · refine hf.others hg ?_ hk
      have hkl : k ≠ l := fun hc => hk (hc ▸ hl)
      rw [hlists, lists_setMap_of_ne _ hkl]
  · intro j hj
    refine filed_setMap hlists hf.swaps.home fun k => ?_
    have hkj := hholds k j
    rw [hspl] at hkj
    rw [hkj]
    exact and_iff_left hj
  · rw [hf.swaps.cell]
    exact hf.keeps
  · rw [filed_iff_spl (l := l) (by rw [hf.swaps.of]; exact hl)]
    rintro ⟨k, hk⟩
    exact ((hholds k i).mp hk).2 rfl

/-- A page that came back into memory is filed. -/
theorem Inv.join {p : Pod} {hp : AbsHeap (L i)} (hg : Inv L path b g h) (hl : g.Of l i)
    (hnf : ¬ g.Filed i) (hf : Fits L path b i g h p hp g')
    (hlists : g'.lists = (g.setMap l ((g.lists l).rankMap.file p.rank i)).lists)
    (hres : Cell.Resident b ⟨p, hp, g'.flushes i⟩) (hin : p.heap.inited = true)
    (hrank : p.rank = hp.maxSize) (hbuf : p.freeBuffer = []) :
    Inv L path b g' (update h i hp) ∧ OnePod i g h g' (update h i hp) ∧
      g'.Filed i := by
  have hpinned : p.state ≠ .localPinned := fun hc => nomatch hres.2.1.symm.trans hc
  have hnf' : ¬ (g.spl l).Filed i := fun hc => hnf ((filed_iff_spl hl).mpr hc)
  have hspl : (g'.spl l).toSegregatedPageList = { g.lists l with
      rankMap := (g.lists l).rankMap.file p.rank i } := by
    change g'.lists l = _
    rw [hlists, lists_setMap_self]
  have hholds : ∀ k j, (g'.spl l).rankMap.Holds k j ↔
      (g.spl l).rankMap.Holds k j ∧ j ≠ i ∨ k = p.rank ∧ j = i := by
    intro k j
    rw [hspl]
    change ((g.lists l).rankMap.file p.rank i).Holds k j ↔ _
    rw [OrdMap.holds_file, ← SplState.holds_outside hnf']
    rfl
  refine ⟨⟨hf.sound hg.toSound (fun _ _ => hpinned), ?_⟩,
    ⟨hf.swaps.home, hf.swaps.others, ?_, last_setMap hlists, ?_⟩, ?_⟩
  · intro k
    by_cases hk : g.Of k i
    · obtain rfl : k = l := Option.some.inj (hk.symm.trans hl)
      rw [hf.swaps.of]
      refine (hg.lists k).rerank hl hf.swaps.pods ?_ hholds hres hin hrank hf.synced ?_
        (fun hc => absurd hbuf hc) ?_ ?_
      · rw [hspl]
        exact (hg.lists k).tidy.file
      · intro j _
        rw [hspl]
        rfl
      · intro j
        rw [hspl]
        rfl
      · rw [hspl]
        exact (hg.lists k).silent
    · refine hf.others hg ?_ hk
      have hkl : k ≠ l := fun hc => hk (hc ▸ hl)
      rw [hlists, lists_setMap_of_ne _ hkl]
  · intro j hj
    refine filed_setMap hlists hf.swaps.home fun k => ?_
    have hkj := hholds k j
    rw [hspl] at hkj
    rw [hkj]
    simp only [hj, ne_eq, not_false_eq_true, and_true, and_false, or_false]
    exact Iff.rfl
  · rw [hf.swaps.cell]
    exact hf.keeps
  · rw [filed_iff_spl (l := l) (by rw [hf.swaps.of]; exact hl)]
    exact ⟨p.rank, (hholds _ _).mpr (.inr ⟨rfl, rfl⟩)⟩

end Pager

end Remon
