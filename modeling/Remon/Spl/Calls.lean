import Remon.Spl.Invariant

/-! # The calls of a segregated page list

Each call of a list that is in order returns with the list in order, and what it did to the
pods is within the account of `Changes`. The only way to stop is the mutex of an allocator
that an oversized request has left locked.
-/

namespace Remon
open Function Lib Heap Fault List

variable {L : ℕ → Layout} {b : Prop}

namespace SplState

variable {M : ℕ → Prop} {s s' s'' t : SplState} {h h' h'' : ∀ i, AbsHeap (L i)} {i : ℕ}

/-- The list is in order again, its pods changed as calls may change them, and the same pods
are in its buckets. -/
structure Goes (b : Prop) (M : ℕ → Prop) (s : SplState) (h : ∀ i, AbsHeap (L i)) (s' : SplState)
    (h' : ∀ i, AbsHeap (L i)) : Prop where
  inv : s'.Inv b M h'
  changes : Changes b M s h s' h'
  filed : ∀ j, s'.Filed j ↔ s.Filed j

theorem Goes.refl (hi : s.Inv b M h) : Goes b M s h s h := ⟨hi, .refl, fun _ => Iff.rfl⟩

theorem Goes.trans (hg : Goes b M s h s' h') (hg' : Goes b M s' h' s'' h'') :
    Goes b M s h s'' h'' :=
  ⟨hg'.inv, hg.changes.trans hg'.changes, fun j => (hg'.filed j).trans (hg.filed j)⟩

theorem setPod_self : s.setPod i (s.pods i) = s := by
  rw [setPod, update_eq_self]

theorem cell_setPod {p : Pod} : (s.setPod i p).cell h i = ⟨p, h i, s.flushes i⟩ := by
  simp [cell, setPod]

/-! ## Flushes -/

/-- A filed pod is flushed; its buffer may have grown just before. -/
theorem Inv.flushOnePage (hi : s.Inv b M h) {p : Pod}
    (hp : Cell.Resident b ⟨p, h i, s.flushes i⟩) (hf : s.Filed i)
    (hrank : p.rank = (s.pods i).rank) (hold : p.oldRank = (s.pods i).oldRank) :
    Yields (Stuck b) ((s.setPod i p).flushOnePage L i) (fun s' => ∃ h',
      Goes b M (s.setPod i p) h s' h' ∧ (s'.pods i).freeBuffer = [] ∧
      (∀ j, j ≠ i → s'.pods j = s.pods j) ∧ s'.localFreeBuffer = s.localFreeBuffer ∧
      s'.lastAllocatedPod = s.lastAllocatedPod ∧ Stocks 0 (s.setPod i p) h s' h') := by
  have hM := hi.filed_mem hf
  have hpi : (s.setPod i p).pods i = p := update_self _ _ _
  have hsync : p.oldRank = p.rank := by
    rw [hold, hrank, hi.synced i hM]
  have hget : ∃ l, (s.setPod i p).rankMap.get p.rank = some l := by
    rw [hrank]
    exact hi.get_rank hf
  have hok := flushOnePage_ok (s := s.setPod i p) (h := h) (i := i) (b := b)
    (by rw [cell_setPod]; exact hp) (by rw [hpi]; exact hsync) (by rw [hpi]; exact hget)
  rw [hpi] at hok
  refine hok.mono ?_
  rintro _ ⟨p', q, t, rfl, hpods, hfl, hspl, hrk, hst, hprot, hland, hbuf, hq⟩
  have htr : (t.pods i).rank = (s.pods i).rank := by
    rw [hpods, update_self, hrk, hrank]
  have hpods' : (t.moved i q).pods = update s.pods i q := by
    change update t.pods i q = _
    rw [hpods, update_idem, setPod, update_idem]
  have hres : Cell.Resident b ⟨q, (h i).freeAll p.freeBuffer,
      (p.prot, p.freeBuffer) :: s.flushes i⟩ :=
    ⟨hq.models, hq.state.trans hst, hq.prot.trans hprot⟩
  have hflush : (t.moved i q).flushes i = (p.prot, p.freeBuffer) :: s.flushes i := by
    change t.flushes i = _
    rw [hfl, update_self]
    rfl
  obtain ⟨htidy, hholds⟩ := hi.holds_moved (q := q) hf (congrArg (·.rankMap) hspl) htr
  have hsl : (t.moved i q).lastAllocatedPod = s.lastAllocatedPod :=
    congrArg (·.lastAllocatedPod) hspl
  have hlfb : (t.moved i q).localFreeBuffer = s.localFreeBuffer :=
    congrArg (·.localFreeBuffer) hspl
  have hrep : (t.moved i q).reports = s.reports := congrArg (·.reports) hspl
  have hqb : q.freeBuffer = [] := hq.freeBuffer.trans hbuf
  refine ⟨update h i ((h i).freeAll p.freeBuffer),
    ⟨?_, ?_, filed_iff_of_moved hf hholds⟩, ?_, ?_, hlfb, hsl, ?_⟩
  · refine hi.rerank hM hpods' htidy hholds
      (by rw [hflush]; exact hres) hq.inited hq.rank hq.oldRank ?_
      (fun hc => absurd hqb hc) ?_ (hrep.trans hi.silent)
    · intro j _
      rw [hsl]
    · intro j
      rw [hlfb]
  · refine Changes.one (p := q) hM ?_ hfl ?_
    · rw [hpods', setPod, update_idem]
    · rw [cell_setPod]
      exact Cell.Evolves.flush hp hres (hq.landlord.trans hland) hqb hq.inited
  · rw [hpods', update_self]
    exact hqb
  · intro j hj
    rw [hpods', update_of_ne hj]
  · refine Stocks.one (p := q) ?_ ?_
    · rw [hpods', setPod, update_idem]
    · intro a n ha hb
      rw [cell_setPod]
      have hq : (⟨q, (h i).freeAll p.freeBuffer, s.flushes i⟩ : Cell (L i)).Held a n := ⟨ha, hb⟩
      exact .inl (Cell.held_of_flushed (c := ⟨p, h i, s.flushes i⟩) hp.1.nodup hp.1.pending rfl hq)

/-- A managed pod in memory with frees buffered is filed and can be used. -/
theorem Inv.resident (hi : s.Inv b M h) (hM : M i) (hs : (s.pods i).state = .local_)
    (hb : (s.pods i).freeBuffer ≠ []) : s.Filed i ∧ (s.cell h i).Resident b := by
  have hin : (s.pods i).heap.inited = true := by
    rw [← Bool.not_eq_false]
    exact fun hin => hb (hi.blank i hM hin)
  have hf := hi.listed i hM hs hin
  refine ⟨hf, (hi.ready hf).resolve_right ?_⟩
  rintro ⟨-, hc, -⟩
  change (s.pods i).state = .init at hc
  rw [hs] at hc
  cases hc

theorem Inv.clearLocalFreeBuffer (hi : s.Inv b M h) (c : Choice) :
    Yields (Stuck b) (s.clearLocalFreeBuffer L c) (fun s' => ∃ h', Goes b M s h s' h' ∧
      s'.lastAllocatedPod = s.lastAllocatedPod ∧ Stocks 0 s h s' h') := by
  -- The pods that were visited and could be locked have nothing buffered.
  let I : List ℕ → SplState → Prop := fun rest t => (∀ i ∈ rest, M i) ∧ ∃ h', Goes b M s h t h' ∧
    t.localFreeBuffer = s.localFreeBuffer ∧ t.lastAllocatedPod = s.lastAllocatedPod ∧
    Stocks 0 s h t h' ∧ ∀ i ∈ s.localFreeBuffer, i ∉ rest → c.tryLock i = true →
      (t.pods i).state = .local_ →
      (t.pods i).freeBuffer = []
  have hstep : ∀ i rest t, I (i :: rest) t →
      Yields (Stuck b) (clearOne L c.tryLock t i) (I rest) := by
    rintro i rest t ⟨hrestM, h', hg, hlfb, hsl, hstock, hdone⟩
    obtain ⟨hM, hrestM⟩ := forall_mem_cons.mp hrestM
    rw [clearOne]
    split
    next hc =>
      obtain ⟨-, hst, hbuf⟩ := hc
      obtain ⟨hf, hres⟩ := hg.inv.resident hM hst hbuf
      have hflush := hg.inv.flushOnePage hres hf rfl rfl
      rw [setPod_self] at hflush
      refine hflush.mono ?_
      rintro t' ⟨h'', hg', hnil, hother, hlfb', hsl', hstock'⟩
      refine ⟨hrestM, h'', hg.trans hg', hlfb'.trans hlfb, hsl'.trans hsl, hstock.trans hstock', ?_⟩
      intro j hj hrest hlock hst'
      by_cases he : j = i
      · rw [he]
        exact hnil
      · rw [hother j he] at hst' ⊢
        exact hdone j hj (by simp [he, hrest]) hlock hst'
    next hc =>
      refine ⟨hrestM, h', hg, hlfb, hsl, hstock, ?_⟩
      intro j hj hrest hlock hst
      by_cases he : j = i
      · subst he
        by_contra hbuf
        exact hc ⟨hlock, hst, hbuf⟩
      · exact hdone j hj (by simp [he, hrest]) hlock hst
  have hstart : I (c.arrange s.localFreeBuffer) s := by
    refine ⟨?_, h, .refl hi, rfl, rfl, .refl, ?_⟩
    · intro i hmem
      exact hi.buffered i ((c.perm _).mem_iff.mp hmem)
    · intro i hmem hn
      exact absurd ((c.perm _).mem_iff.mpr hmem) hn
  rw [SplState.clearLocalFreeBuffer]
  refine (Yields.foldlM hstep hstart).bind ?_
  rintro t ⟨-, h', hg, hlfb, hsl, hstock, hdone⟩
  refine ⟨h', ⟨?_, hg.changes.congr rfl rfl, hg.filed⟩, hsl, hstock.congr rfl rfl⟩
  have ht := hg.inv
  refine ⟨ht.tidy, ht.keyed, ht.synced, ht.ranked, ht.last, ht.listed, ?_, ht.blank, ?_, ht.silent⟩
  · intro i hM hst hbuf
    have hmem := ht.noted i hM hst hbuf
    refine mem_filter.mpr ⟨hmem, ?_⟩
    rw [hlfb] at hmem
    rw [Bool.not_eq_true', ← Bool.not_eq_true]
    exact fun hlock => hbuf (hdone i hmem (by simp) hlock hst)
  · intro i hmem
    exact ht.buffered i (mem_filter.mp hmem).1

/-! ## Allocation -/

/-- The call handed out a block cut for `size` bytes at `ptr`, which nobody held. -/
def Served (b : Prop) (M : ℕ → Prop) (s : SplState) (h : ∀ i, AbsHeap (L i)) (s' : SplState)
    (h' : ∀ i, AbsHeap (L i)) (size ptr : ℕ) : Prop :=
  ∃ i n, M i ∧ s'.lastAllocatedPod = some i ∧ (s'.cell h' i).Resident b ∧ AbsHeap.Cut size n ∧
    (s'.cell h' i).Held ptr n ∧ ∀ k, ¬ (s.cell h i).Held ptr k

theorem Served.of_changes {size ptr : ℕ} (hc : Changes b M s h s' h')
    (hs : Served b M s' h' s'' h'' size ptr) : Served b M s h s'' h'' size ptr := by
  obtain ⟨i, n, hM, hl, hr, hn, hh, hnot⟩ := hs
  exact ⟨i, n, hM, hl, hr, hn, hh, fun k hk => hnot k ((hc i).1.held ptr k hk)⟩

theorem held_of_took {L : Layout} {c : Cell L} {q : Pod} {hp : AbsHeap L} {size ptr : ℕ}
    {f : List (Prot × List ℕ)} (hm : c.pod.Models b c.heap) (hb : q.freeBuffer = c.pod.freeBuffer)
    (ht : c.heap.Took hp size ptr) :
    ∃ n, AbsHeap.Cut size n ∧ Cell.Held ⟨q, hp, f⟩ ptr n ∧ ∀ k, ¬ c.Held ptr k := by
  obtain ⟨hdead, n, hn, ha⟩ := ht
  refine ⟨n, hn, ⟨(ha ptr n).mpr (.inr ⟨rfl, rfl⟩), ?_⟩, ?_⟩
  · intro hmem
    change ptr ∈ q.freeBuffer at hmem
    rw [hb] at hmem
    have hlive := hm.pending ptr hmem
    rw [hdead] at hlive
    cases hlive
  · intro k hk
    have hlive := c.heap.isLive_iff.mpr ⟨k, hk.1⟩
    rw [hdead] at hlive
    cases hlive

/-- The pod `q` with the heap `hp` is `p` after a request; the pointer is zero if it failed. -/
structure Requested {L : Layout} (b : Prop) (p : Pod) (h : AbsHeap L) (size ptr : ℕ) (q : Pod)
    (hp : AbsHeap L) : Prop where
  same : q = { p with heap := q.heap }
  inited : q.heap.inited = true
  models : q.Models b hp
  outcome : ptr = 0 ∧ hp = h ∨ ptr ≠ 0 ∧ h.Took hp size ptr

namespace Requested

variable {L : Layout} {p q : Pod} {h hp : AbsHeap L} {size ptr : ℕ}
  (hq : Requested b p h size ptr q hp)
include hq

theorem state : q.state = p.state := by
  rw [hq.same]

theorem prot : q.prot = p.prot := by
  rw [hq.same]

theorem landlord : q.landlordClient = p.landlordClient := by
  rw [hq.same]

theorem freeBuffer : q.freeBuffer = p.freeBuffer := by
  rw [hq.same]

theorem rank : q.rank = p.rank := by
  rw [hq.same]

theorem oldRank : q.oldRank = p.oldRank := by
  rw [hq.same]

theorem alloc {x n : ℕ} (hx : h.Alloc x n) : hp.Alloc x n := by
  rcases hq.outcome with ⟨-, rfl⟩ | ⟨-, -, k, -, ha⟩
  · exact hx
  · exact (ha x n).mpr (.inl hx)

theorem alloc_or {x n : ℕ} (hx : hp.Alloc x n) : h.Alloc x n ∨ ptr ≠ 0 ∧ x = ptr := by
  rcases hq.outcome with ⟨-, rfl⟩ | ⟨hne, -, k, -, ha⟩
  · exact .inl hx
  · exact ((ha x n).mp hx).imp_right (fun hc => ⟨hne, hc.1⟩)

end Requested

theorem podMalloc_ok {size : ℕ} (hr : (s.cell h i).Resident b) (hz : Asize size)
    (hb : (L i).maxIntraPodSize < size → b) :
    Yields (Stuck b) (s.podMalloc L i size) (fun r => ∃ (q : Pod) (hp : AbsHeap (L i)),
      r.2 = s.setPod i q ∧ Requested b (s.pods i) (h i) size r.1 q hp) := by
  rw [podMalloc]
  refine (hr.1.podMalloc hr.2.1 hz hb).bind ?_
  rintro ⟨ptr, q⟩ ⟨t, hp, hq, hin, hm, hout⟩
  obtain rfl : q = { s.pods i with heap := t } := hq
  exact ⟨_, hp, rfl, rfl, hin, hm, hout⟩

/-- One pod changes and nothing was flushed. -/
theorem Changes.set {p : Pod} {x : AbsHeap (L i)} (hM : M i)
    (hpods : t.pods = update s.pods i p) (hflushes : t.flushes = s.flushes)
    (he : (s.cell h i).Evolves b ⟨p, x, s.flushes i⟩) :
    Changes b M s h t (update h i x) := by
  refine Changes.one hM hpods ?_ he
  rw [hflushes, update_eq_self]

/-- A pod that was given back is mapped again before it is used. -/
theorem wake (hr : (s.cell h i).Ready b) :
    ∃ p : Pod, (if (s.pods i).state = .init then s.setPod i (s.pods i).initToLocal else s) =
        s.setPod i p ∧ Cell.Resident b ⟨p, h i, s.flushes i⟩ ∧
          p.freeBuffer = (s.pods i).freeBuffer ∧
      p.rank = (s.pods i).rank ∧ p.oldRank = (s.pods i).oldRank ∧
      p.landlordClient = (s.pods i).landlordClient ∧
      (p.state = (s.pods i).state ∨ (s.pods i).state = .init ∧ p.state = .local_) := by
  rcases hr with hr | ⟨hm, hs, -⟩
  · have hs : (s.pods i).state = .local_ := hr.2.1
    refine ⟨s.pods i, ?_, hr, rfl, rfl, rfl, rfl, .inl rfl⟩
    rw [if_neg (by simp [hs]), setPod_self]
  · have hs' : (s.pods i).state = .init := hs
    refine ⟨_, if_pos hs', ⟨hm.congr rfl rfl rfl, rfl, rfl⟩, rfl, rfl, rfl, rfl, .inr ⟨hs', rfl⟩⟩

/-- The last pod gets the request, mapped again if need be. After more than a hundred failures
the answer of its allocator is thrown away. -/
theorem tryAllocateWithPreviousPod_ok {size : ℕ} (hl : s.lastAllocatedPod = some i)
    (hr : (s.cell h i).Ready b) (hz : Asize size) (hb : (L i).maxIntraPodSize < size → b)
    (retries : ℕ) :
    Yields (Stuck b) (s.tryAllocateWithPreviousPod L size retries) (fun r =>
      ∃ (p q : Pod) (hp : AbsHeap (L i)) (ptr : ℕ), Cell.Resident b ⟨p, h i, s.flushes i⟩ ∧
        p.freeBuffer = (s.pods i).freeBuffer ∧ p.rank = (s.pods i).rank ∧
        p.oldRank = (s.pods i).oldRank ∧ p.landlordClient = (s.pods i).landlordClient ∧
        (p.state = (s.pods i).state ∨ (s.pods i).state = .init ∧ p.state = .local_) ∧
        Requested b p (h i) size ptr q hp ∧
        r = (if retries > 100 then 0 else ptr, s.setPod i q)) := by
  obtain ⟨p, hs1, hres, hbuf, hrank, hold, hland, hstate⟩ := wake hr
  have hpi : (s.setPod i p).pods i = p := update_self _ _ _
  simp only [SplState.tryAllocateWithPreviousPod, hl, hs1, hpi]
  rw [if_neg (not_not.mpr hres.2.1)]
  refine (podMalloc_ok (h := h) (by rw [cell_setPod]; exact hres) hz hb).bind ?_
  rintro ⟨ptr, t⟩ ⟨q, hp, ht, hq⟩
  obtain rfl : t = (s.setPod i p).setPod i q := ht
  rw [hpi] at hq
  refine ⟨p, q, hp, ptr, hres, hbuf, hrank, hold, hland, hstate, hq, ?_⟩
  rw [setPod, setPod, setPod, update_idem]

theorem Inv.tryAllocateWithPreviousPod (hi : s.Inv b M h) {size : ℕ} (hz : Asize size)
    (hb : ∀ i, (L i).maxIntraPodSize < size → b) (retries : ℕ) :
    Yields (Stuck b) (s.tryAllocateWithPreviousPod L size retries) (fun r => ∃ h',
      Goes b M s h r.2 h' ∧ (r.1 ≠ 0 → Served b M s h r.2 h' size r.1) ∧
      (∀ i, r.2.lastAllocatedPod = some i → (r.2.cell h' i).Resident b) ∧
      (retries ≤ 100 → Stocks r.1 s h r.2 h')) := by
  cases hl : s.lastAllocatedPod with
  | none =>
    simp only [SplState.tryAllocateWithPreviousPod, hl]
    exact ⟨h, .refl hi, fun hc => absurd rfl hc, by simp [hl], fun _ => .refl⟩
  | some i =>
    obtain ⟨hf, hready⟩ := hi.last i hl
    have hM := hi.filed_mem hf
    refine (tryAllocateWithPreviousPod_ok hl hready hz (hb i) retries).mono ?_
    rintro _ ⟨p, q, hp, ptr, hres, hbuf, hrank, hold, hland, hstate, hq, rfl⟩
    have hpods : (s.setPod i q).pods = update s.pods i q := rfl
    have hresq : Cell.Resident b ⟨q, hp, s.flushes i⟩ :=
      ⟨hq.models, hq.state.trans hres.2.1, hq.prot.trans hres.2.2⟩
    have hci : (s.setPod i q).cell (update h i hp) i = ⟨q, hp, s.flushes i⟩ := by
      simp [cell, setPod]
    have hgoes : Goes b M s h (s.setPod i q) (update h i hp) := by
      constructor
      · refine hi.touch hf hpods rfl rfl (hq.rank.trans hrank) (hq.oldRank.trans hold) (.inl hresq)
          (fun hc => absurd hl hc) ?_ (fun _ _ => Iff.rfl) rfl
        intro _ hne
        rw [hq.freeBuffer, hbuf] at hne
        rcases hready with hr | hr
        · exact hi.noted i hM hr.2.1 hne
        · exact absurd (hr.1.freeBuffer_eq_nil hr.2.2) hne
      · refine Changes.set hM hpods rfl ?_
        refine .of_same hready (.inl hresq) (hq.landlord.trans hland) ?_ ?_
          (hq.freeBuffer.trans hbuf) rfl hq.inited
        · rw [hq.state]
          exact hstate
        · intro x n hx
          exact hq.alloc hx
      · exact fun _ => Iff.rfl
    refine ⟨_, hgoes, ?_, ?_, ?_⟩
    · intro hne
      change (if retries > 100 then 0 else ptr) ≠ 0 at hne
      have hptr : (if retries > 100 then 0 else ptr) = ptr ∧ ptr ≠ 0 := by
        split at hne
        · exact absurd rfl hne
        · exact ⟨if_neg ‹_›, hne⟩
      change Served b M s h _ _ size (if retries > 100 then 0 else ptr)
      rw [hptr.1]
      have htook := (hq.outcome.resolve_left (fun hc => hptr.2 hc.1)).2
      have hmod : (s.pods i).Models b (h i) := hready.elim And.left And.left
      obtain ⟨n, hn, hheld, hnot⟩ := held_of_took (c := s.cell h i) (f := s.flushes i) hmod
        (hq.freeBuffer.trans hbuf) htook
      exact ⟨i, n, hM, hl, by rw [hci]; exact hresq, hn, by rw [hci]; exact hheld, hnot⟩
    · intro j hj
      obtain rfl : i = j := Option.some.inj (hl.symm.trans hj)
      change Cell.Resident b ((s.setPod i q).cell (update h i hp) i)
      rw [hci]
      exact hresq
    · intro hr
      change Stocks (if retries > 100 then 0 else ptr) s h _ _
      rw [if_neg (not_lt.mpr hr)]
      refine Stocks.one hpods ?_
      intro a n ha hnot
      rw [hq.freeBuffer, hbuf] at hnot
      exact (hq.alloc_or ha).imp (fun hc => ⟨hc, hnot⟩) (fun hc => ⟨hc.1, hc.2, hl⟩)

/-- A new rank alone is no change to what a pod stands for. -/
theorem Reranked.evolves {L : Layout} {c : Cell L} {q : Pod} (hr : c.Resident b)
    (hq : Reranked b c.heap c.pod q) : c.Evolves b ⟨q, c.heap, c.flushes⟩ :=
  .of_same (.inl hr) (.inl ⟨hq.models, hq.state.trans hr.2.1, hq.prot.trans hr.2.2⟩) hq.landlord
    (.inl hq.state) (fun _ _ hx => hx) hq.freeBuffer rfl hq.inited

theorem Inv.dismissLast (hi : s.Inv b M h)
    (hres : ∀ i, s.lastAllocatedPod = some i → (s.cell h i).Resident b) :
    Yields (Stuck b) (s.dismissLast L) (fun s' => Goes b M s h s' h ∧ s'.lastAllocatedPod = none ∧
      Stocks 0 s h s' h) := by
  cases hl : s.lastAllocatedPod with
  | none =>
    simp only [SplState.dismissLast, hl]
    exact ⟨.refl hi, hl, .refl⟩
  | some i =>
    obtain ⟨hf, -⟩ := hi.last i hl
    have hM := hi.filed_mem hf
    have hr := hres i hl
    obtain ⟨q, hrun, hq⟩ := adjustPodList_ok hr (hi.synced i hM) (hi.get_rank hf)
    simp only [SplState.dismissLast, hl, hrun, ok_bind]
    obtain ⟨htidy, hholds⟩ := hi.holds_moved (t := s) (q := q) hf rfl rfl
    refine ⟨⟨?_, ?_, filed_iff_of_moved hf hholds⟩, rfl, ?_⟩
    · have hinv := hi.rerank (t := (s.moved i q).setLast none) (p := q) (x := h i) hM rfl htidy
        hholds ⟨hq.models, hq.state.trans hr.2.1, hq.prot.trans hr.2.2⟩ hq.inited hq.rank hq.oldRank
        (fun j hj => by simp [setLast, hl, Ne.symm hj])
        (fun hne => hi.noted i hM hr.2.1 (hq.freeBuffer ▸ hne)) (fun _ => Iff.rfl) hi.silent
      rwa [update_eq_self] at hinv
    · have hch := Changes.set (t := (s.moved i q).setLast none) (b := b) (M := M) (x := h i)
        hM rfl rfl (hq.evolves (c := s.cell h i) hr)
      rwa [update_eq_self] at hch
    · exact .same rfl hq.freeBuffer

theorem Inv.holds_file_unfile (hi : s.Inv b M h) {r k j : ℕ} (hne : r ≠ (s.pods i).rank) :
    ((s.rankMap.file r i).unfile (s.pods i).rank i).Holds k j ↔
      s.rankMap.Holds k j ∧ j ≠ i ∨ k = r ∧ j = i := by
  rw [OrdMap.holds_unfile hi.tidy.file, OrdMap.holds_file]
  constructor
  · rintro ⟨hk | hk, hn⟩
    · refine .inl ⟨hk, ?_⟩
      rintro rfl
      exact hn ⟨(hi.keyed k j hk).1.symm, rfl⟩
    · exact .inr hk
  · rintro (⟨hk, hj⟩ | ⟨rfl, rfl⟩)
    · exact ⟨.inl hk, fun hc => hj hc.2⟩
    · exact ⟨.inr ⟨rfl, rfl⟩, fun hc => hne hc.1⟩

/-- The pod that has served the request becomes the last one and moves to the bucket of its
new rank. -/
theorem Inv.served (hi : s.Inv b M h) (hl : s.lastAllocatedPod = none) {key size ptr : ℕ} {q : Pod}
    {hp : AbsHeap (L i)} (hki : s.rankMap.Holds key i) (hptr : ptr ≠ 0)
    (hq : Requested b (s.pods i) (h i) size ptr q hp) :
    Yields (Stuck b) (((s.setPod i q).setLast (some i)).updateRank L i) (fun r => ∃ h',
      Goes b M s h (if r.1 = true then r.2.setMap
        ((r.2.rankMap.file (r.2.pods i).rank i).unfile key i) else r.2) h' ∧
      Served b M s h (if r.1 = true then r.2.setMap
        ((r.2.rankMap.file (r.2.pods i).rank i).unfile key i) else r.2) h' size ptr ∧
      Stocks ptr s h (if r.1 = true then r.2.setMap
        ((r.2.rankMap.file (r.2.pods i).rank i).unfile key i) else r.2) h') := by
  obtain ⟨hkey, hM⟩ := hi.keyed key i hki
  obtain ⟨hres, -, -⟩ := hi.ranked i ⟨key, hki⟩ (by simp [hl])
  have hti : ((s.setPod i q).setLast (some i)).pods i = q := update_self _ _ _
  obtain ⟨r, hrun, hr⟩ := updateRank_ok (s := (s.setPod i q).setLast (some i)) (i := i)
    (h := update h i hp) (b := b) (by rw [hti, update_self]; exact hq.models)
    (by rw [hti, hq.prot]; exact hres.2.2)
  rw [hti, update_self] at hr
  rw [hti] at hrun
  refine .of_ok hrun ?_
  dsimp only
  have hold : q.oldRank = (s.pods i).rank := by
    rw [hq.oldRank, hi.synced i hM]
  set t := ((s.setPod i q).setLast (some i)).setPod i r with htdef
  have htp : t.pods i = r := update_self _ _ _
  set t' := if decide (r.rank ≠ q.oldRank) = true then
    t.setMap ((t.rankMap.file (t.pods i).rank i).unfile key i) else t with htdef'
  have hpods : t'.pods = update s.pods i r := by
    have : t.pods = update s.pods i r := update_idem _ _ _
    rw [htdef']
    split <;> exact this
  have hrest : t'.lastAllocatedPod = some i ∧ t'.localFreeBuffer = s.localFreeBuffer ∧
      t'.reports = s.reports ∧ t'.flushes = s.flushes := by
    rw [htdef']
    split <;> exact ⟨rfl, rfl, rfl, rfl⟩
  obtain ⟨hl', hlfb, hrep, hfl⟩ := hrest
  have hmap : t'.rankMap.Tidy ∧ ∀ k j, t'.rankMap.Holds k j ↔
      s.rankMap.Holds k j ∧ j ≠ i ∨ k = r.rank ∧ j = i := by
    rw [htdef', htp, hold, ← hkey]
    by_cases hne : r.rank = (s.pods i).rank
    · rw [if_neg (by simp [hne])]
      refine ⟨hi.tidy, fun k j => ?_⟩
      rw [hne]
      exact hi.holds_stay ⟨key, hki⟩
    · rw [if_pos (by simp [hne])]
      exact ⟨hi.tidy.file.unfile, fun k j => hi.holds_file_unfile hne⟩
  have hresr : Cell.Resident b ⟨r, hp, s.flushes i⟩ :=
    ⟨hr.models, (hr.state.trans hq.state).trans hres.2.1, (hr.prot.trans hq.prot).trans hres.2.2⟩
  have hbuf : r.freeBuffer = (s.pods i).freeBuffer := hr.freeBuffer.trans hq.freeBuffer
  have hci : t'.cell (update h i hp) i = ⟨r, hp, s.flushes i⟩ := by
    simp [cell, hpods, hfl]
  refine ⟨update h i hp, ⟨?_, ?_, filed_iff_of_moved ⟨key, hki⟩ hmap.2⟩, ?_, ?_⟩
  · refine hi.rerank hM hpods hmap.1 hmap.2 (by rw [hfl]; exact hresr) hr.inited hr.rank hr.oldRank
      ?_ ?_ (fun j => by rw [hlfb]) (hrep.trans hi.silent)
    · intro j hj
      simp [hl', hl, Ne.symm hj]
    · intro hne
      rw [hlfb]
      exact hi.noted i hM hres.2.1 (hbuf ▸ hne)
  · refine Changes.set hM hpods hfl (.of_same (.inl hres) (.inl hresr)
      (hr.landlord.trans hq.landlord) (.inl (hr.state.trans hq.state)) ?_ hbuf rfl hr.inited)
    intro x n hx
    exact hq.alloc hx
  · obtain ⟨n, hn, hheld, hnot⟩ := held_of_took (c := s.cell h i) (f := s.flushes i) hres.1 hbuf
      (hq.outcome.resolve_left (fun hc => hptr hc.1)).2
    exact ⟨i, n, hM, hl', by rw [hci]; exact hresr, hn, by rw [hci]; exact hheld, hnot⟩
  · refine Stocks.one hpods ?_
    intro a n ha hnot
    rw [hbuf] at hnot
    exact (hq.alloc_or ha).imp (fun hc => ⟨hc, hnot⟩) (fun hc => ⟨hc.1, hc.2, hl'⟩)

/-- A pod of the list `l` of one bucket serves the request, or none of them does. -/
theorem Inv.allocateOfAList {size key : ℕ} {tryLock : ℕ → Bool} {l : List ℕ} (hi : s.Inv b M h)
    (hl : s.lastAllocatedPod = none) (hmem : ∀ i ∈ l, s.rankMap.Holds key i) (hz : Asize size)
    (hb : ∀ i, (L i).maxIntraPodSize < size → b) :
    Yields (Stuck b) (allocateOfAList L size key tryLock l s) (fun r => ∃ h', Goes b M s h r.2 h' ∧
      (r.1 ≠ 0 → Served b M s h r.2 h' size r.1) ∧ (r.1 = 0 → r.2.lastAllocatedPod = none) ∧
      Stocks r.1 s h r.2 h') := by
  induction l generalizing s h with
  | nil => exact ⟨h, .refl hi, fun hc => absurd rfl hc, fun _ => hl, .refl⟩
  | cons i l ih =>
    obtain ⟨hki, hmem⟩ := forall_mem_cons.mp hmem
    have hf : s.Filed i := ⟨key, hki⟩
    obtain ⟨hkey, hM⟩ := hi.keyed key i hki
    rw [SplState.allocateOfAList]
    by_cases hlock : tryLock i = true
    · rw [if_pos hlock]
      obtain ⟨hres, hin, hrank⟩ := hi.ranked i hf (by simp [hl])
      refine (podMalloc_ok hres hz (hb i)).bind ?_
      rintro ⟨ptr, t⟩ ⟨q, hp, ht, hq⟩
      obtain rfl : t = s.setPod i q := ht
      have hresq : Cell.Resident b ⟨q, hp, s.flushes i⟩ :=
        ⟨hq.models, hq.state.trans hres.2.1, hq.prot.trans hres.2.2⟩
      dsimp only at hq ⊢
      by_cases hptr : ptr = 0
      · rw [if_neg (not_not.mpr hptr)]
        have hph : hp = h i := (hq.outcome.resolve_right (fun hc => hc.1 hptr)).2
        subst hph
        have hg : Goes b M s h (s.setPod i q) h := by
          constructor
          · have hinv := hi.touch (t := s.setPod i q) (p := q) (x := h i) hf rfl rfl rfl hq.rank
              hq.oldRank (.inl hresq) (fun _ => ⟨hresq, hq.inited, hq.rank.trans hrank⟩)
              (fun _ hne => hi.noted i hM hres.2.1 (hq.freeBuffer ▸ hne)) (fun _ _ => Iff.rfl) rfl
            rwa [update_eq_self] at hinv
          · have hch := Changes.set (t := s.setPod i q) (b := b) (M := M) (x := h i) hM rfl rfl
              (Cell.Evolves.of_same (c := s.cell h i) (.inl hres) (.inl hresq) hq.landlord
                (.inl hq.state) (fun _ _ hx => hx) hq.freeBuffer rfl hq.inited)
            rwa [update_eq_self] at hch
          · exact fun _ => Iff.rfl
        have hstock : Stocks 0 s h (s.setPod i q) h := .same rfl hq.freeBuffer
        refine (ih hg.inv hl hmem).mono ?_
        rintro r ⟨h', hg', hserved, hnone, hstock'⟩
        exact ⟨h', hg.trans hg', fun hne => (hserved hne).of_changes hg.changes, hnone,
          hstock.trans hstock'⟩
      · rw [if_pos hptr]
        refine (hi.served hl hki hptr hq).bind ?_
        rintro ⟨updated, t⟩ ⟨h', hg, hserved, hstock⟩
        have hret : (if updated = true then
              pure (ptr, t.setMap ((t.rankMap.file (t.pods i).rank i).unfile key i))
            else pure (ptr, t)) = (.ok (ptr, if updated = true then
              t.setMap ((t.rankMap.file (t.pods i).rank i).unfile key i) else t) :
            Except Fault (ℕ × SplState)) := by
          split <;> rfl
        exact .of_ok hret ⟨h', hg, fun _ => hserved, fun hc => absurd hc hptr, hstock⟩
    · rw [if_neg hlock]
      exact ih hi hl hmem

theorem Inv.allocateFirst {size : ℕ} (hi : s.Inv b M h) (hl : s.lastAllocatedPod = none)
    (hz : Asize size) (hb : ∀ i, (L i).maxIntraPodSize < size → b) (c : Choice) :
    Yields (Stuck b) (s.allocateFirst L size c) (fun r => ∃ h', Goes b M s h r.2 h' ∧
      (r.1 ≠ 0 → Served b M s h r.2 h' size r.1) ∧ (r.1 = 0 → r.2.lastAllocatedPod = none) ∧
      Stocks r.1 s h r.2 h') := by
  rw [SplState.allocateFirst]
  split
  next => exact ⟨h, .refl hi, fun hc => absurd rfl hc, fun _ => hl, .refl⟩
  next =>
    refine hi.allocateOfAList hl ?_ hz hb
    intro i hmem
    have hmem' := (c.perm _).mem_iff.mp hmem
    cases hget : s.rankMap.get s.beginKey with
    | none => simp [hget] at hmem'
    | some l =>
      rw [hget, Option.getD_some] at hmem'
      exact ⟨l, hget, hmem'⟩

def allocateRest (L : ℕ → Layout) (s : SplState) (size : ℕ) (c : Choice) :
    Except Fault (ℕ × SplState) := do
  let s ← s.dismissLast L
  if s.beginKey < size then
    if s.localFreeBuffer.isEmpty then return (0, s)
    let s ← s.clearLocalFreeBuffer L c
    s.allocateFirst L size c
  else s.allocateFirst L size c

theorem allocate_eq (size : ℕ) (c : Choice) : s.allocate L size c = (do
    let (result, s) ← s.tryAllocateWithPreviousPod L size c.retries
    if result ≠ 0 then return (result, s) else s.allocateRest L size c) := rfl

theorem Inv.allocateRest {size : ℕ} (hi : s.Inv b M h)
    (hres : ∀ i, s.lastAllocatedPod = some i → (s.cell h i).Resident b) (hz : Asize size)
    (hb : ∀ i, (L i).maxIntraPodSize < size → b) (c : Choice) :
    Yields (Stuck b) (s.allocateRest L size c) (fun r => ∃ h', Goes b M s h r.2 h' ∧
      (r.1 ≠ 0 → Served b M s h r.2 h' size r.1) ∧ (r.1 = 0 → r.2.lastAllocatedPod = none) ∧
      Stocks r.1 s h r.2 h') := by
  refine (hi.dismissLast hres).bind ?_
  rintro u ⟨hg, hl, hst⟩
  split
  next =>
    split
    next => exact ⟨h, hg, fun hc => absurd rfl hc, fun _ => hl, hst⟩
    next =>
      refine (hg.inv.clearLocalFreeBuffer c).bind ?_
      rintro v ⟨h₁, hg₁, hl', hst₁⟩
      refine (hg₁.inv.allocateFirst (hl'.trans hl) hz hb c).mono ?_
      rintro r ⟨h₂, hg₂, hs, hn, hst₂⟩
      exact ⟨h₂, (hg.trans hg₁).trans hg₂, fun hne => (hs hne).of_changes (hg.trans hg₁).changes,
        hn, (hst.trans hst₁).trans hst₂⟩
  next =>
    refine (hg.inv.allocateFirst hl hz hb c).mono ?_
    rintro r ⟨h₁, hg₁, hs, hn, hst₁⟩
    exact ⟨h₁, hg.trans hg₁, fun hne => (hs hne).of_changes hg.changes, hn, hst.trans hst₁⟩

/-- A request hands out a block that nobody held, or it fails and the list has no last pod. No
other block is taken, unless the last pod was busy for too long. -/
theorem Inv.allocate {size : ℕ} (hi : s.Inv b M h) (hz : Asize size)
    (hb : ∀ i, (L i).maxIntraPodSize < size → b) (c : Choice) :
    Yields (Stuck b) (s.allocate L size c) (fun r => ∃ h', Goes b M s h r.2 h' ∧
      (r.1 ≠ 0 → Served b M s h r.2 h' size r.1) ∧ (r.1 = 0 → r.2.lastAllocatedPod = none) ∧
      (c.retries ≤ 100 → Stocks r.1 s h r.2 h')) := by
  rw [allocate_eq]
  refine (hi.tryAllocateWithPreviousPod hz hb c.retries).bind ?_
  rintro ⟨ptr, t⟩ ⟨h₁, hg₁, hserved, hres, hst₁⟩
  dsimp only at hg₁ hserved hres hst₁ ⊢
  by_cases hptr : ptr = 0
  · rw [if_neg (not_not.mpr hptr)]
    refine (hg₁.inv.allocateRest hres hz hb c).mono ?_
    rintro r ⟨h₂, hg₂, hs, hn, hst₂⟩
    refine ⟨h₂, hg₁.trans hg₂, fun hne => (hs hne).of_changes hg₁.changes, hn, fun hr => ?_⟩
    have hfirst := hst₁ hr
    rw [hptr] at hfirst
    exact hfirst.trans hst₂
  · rw [if_pos hptr]
    exact ⟨h₁, hg₁, hserved, fun hc => absurd hc hptr, hst₁⟩

/-! ## Pods that come and go -/

/-- A pod without an allocator joins the pods of the list. -/
theorem Inv.join (hi : s.Inv b M h) (hn : ¬ M i) (hin : (s.pods i).heap.inited = false)
    (hb : (s.pods i).freeBuffer = []) (hs : (s.pods i).oldRank = (s.pods i).rank) :
    s.Inv b (fun j => M j ∨ j = i) h := by
  refine ⟨hi.tidy, ?_, ?_, hi.ranked, hi.last, ?_, ?_, ?_, ?_, hi.silent⟩
  · intro k j hk
    exact ⟨(hi.keyed k j hk).1, .inl (hi.keyed k j hk).2⟩
  · rintro j (hj | rfl)
    · exact hi.synced j hj
    · exact hs
  · rintro j (hj | rfl) hst hin'
    · exact hi.listed j hj hst hin'
    · rw [hin] at hin'
      cases hin'
  · rintro j (hj | rfl) hst hne
    · exact hi.noted j hj hst hne
    · exact absurd hb hne
  · rintro j (hj | rfl) hin'
    · exact hi.blank j hj hin'
    · exact hb
  · intro j hj
    exact .inl (hi.buffered j hj)

/-- A new page serves its first request and becomes the last pod. -/
theorem Inv.addPodAndAllocate {size : ℕ} (hi : s.Inv b M h) (hn : ¬ M i)
    (hl : s.lastAllocatedPod = none) (hin : (s.pods i).heap.inited = false)
    (hb : (s.pods i).freeBuffer = []) (hs : (s.pods i).oldRank = (s.pods i).rank) {p : Pod}
    (hp : Cell.Resident b ⟨p, h i, s.flushes i⟩) (hpb : p.freeBuffer = []) (hz : Asize size)
    (hsize : ∀ i, (L i).maxIntraPodSize < size → b) :
    Yields (Stuck b) ((s.setPod i p).addPodAndAllocate L i size) (fun r => ∃ h',
      r.2.Inv b (fun j => M j ∨ j = i) h' ∧
      Changes b (fun j => M j ∨ j = i) (s.setPod i p) h r.2 h' ∧
      (∀ j, r.2.Filed j ↔ s.Filed j ∨ j = i) ∧ r.2.lastAllocatedPod = some i ∧
      (r.1 ≠ 0 → Served b (fun j => M j ∨ j = i) (s.setPod i p) h r.2 h' size r.1) ∧
      Stocks r.1 (s.setPod i p) h r.2 h') := by
  have hi' := hi.join hn hin hb hs
  have hpi : (s.setPod i p).pods i = p := update_self _ _ _
  obtain ⟨m, hm, hmod⟩ := hp.1.heapInit
  have hm' : p.heapInit (L i) = .ok { p with heap := ⟨m, true, p.heap.locked⟩ } := hm
  rw [SplState.addPodAndAllocate, hpi, hm', ok_bind]
  set u := (s.setPod i p).setPod i { p with heap := ⟨m, true, p.heap.locked⟩ } with hu
  have hui : u.pods i = { p with heap := ⟨m, true, p.heap.locked⟩ } := update_self _ _ _
  have hcu : (u.cell h i).Resident b := by
    rw [cell, hui]
    exact ⟨hmod, hp.2.1, hp.2.2⟩
  refine (podMalloc_ok hcu hz (hsize i)).bind ?_
  rintro ⟨ptr, t⟩ ⟨q, hq, ht, hreq⟩
  obtain rfl : t = u.setPod i q := ht
  have hti : (u.setPod i q).pods i = q := update_self _ _ _
  obtain ⟨r, hrun, hr⟩ := updateRank_ok (s := u.setPod i q) (i := i)
    (h := update h i hq) (b := b) (by rw [hti, update_self]; exact hreq.models)
    (by rw [hti, hreq.prot]; exact hcu.2.2)
  rw [hti, update_self] at hr
  simp only [hrun, ok_bind]
  have hri : ((u.setPod i q).setPod i r).pods i = r := update_self _ _ _
  rw [hri]
  set v := (((u.setPod i q).setPod i r).setMap
    ((((u.setPod i q).setPod i r).rankMap).file r.rank i)).setLast (some i) with hv
  have hvp : v.pods = update s.pods i r := by
    change update (update (update (update s.pods i _) i _) i _)
      i r = _
    simp only [update_idem]
  have hresr : Cell.Resident b ⟨r, hq, s.flushes i⟩ :=
    ⟨hr.models, (hr.state.trans hreq.state).trans hcu.2.1, (hr.prot.trans hreq.prot).trans hcu.2.2⟩
  have hrb : r.freeBuffer = p.freeBuffer := by
    rw [hr.freeBuffer, hreq.freeBuffer, hui]
  have hci : v.cell (update h i hq) i = ⟨r, hq, s.flushes i⟩ := by
    rw [cell, hvp, update_self, update_self]
    rfl
  have hnf : ¬ s.Filed i := fun hf => hn (hi.filed_mem hf)
  have hholds : ∀ k j, v.rankMap.Holds k j ↔
      s.rankMap.Holds k j ∧ j ≠ i ∨ k = r.rank ∧ j = i := by
    intro k j
    change (s.rankMap.file r.rank i).Holds k j ↔ _
    rw [OrdMap.holds_file, ← holds_outside hnf]
  refine ⟨update h i hq, ?_, ?_, ?_, rfl, ?_, ?_⟩
  · refine hi'.rerank (.inr rfl) hvp hi.tidy.file hholds hresr hr.inited hr.rank hr.oldRank ?_ ?_
      (fun _ => Iff.rfl) hi.silent
    · intro j hj
      simp [hv, setLast, hl, Ne.symm hj]
    · intro hne
      rw [hrb] at hne
      exact absurd hpb hne
  · refine Changes.set (t := v) (p := r) (.inr rfl) ?_ rfl ?_
    · rw [hvp, setPod, update_idem]
    · rw [cell_setPod]
      refine .of_same (.inl hp) (.inl hresr) ?_ ?_ ?_ hrb rfl hr.inited
      · rw [hr.landlord, hreq.landlord, hui]
      · exact .inl (hresr.2.1.trans hp.2.1.symm)
      · intro x n hx
        exact hreq.alloc hx
  · intro j
    change (∃ k, (s.rankMap.file r.rank i).Holds k j) ↔ _
    simp only [OrdMap.holds_file, exists_or, Filed]
    refine or_congr_right ⟨?_, fun hj => ⟨_, rfl, hj⟩⟩
    rintro ⟨k, -, hj⟩
    exact hj
  · intro hptr
    obtain ⟨n, hsz, hheld, hnot⟩ := held_of_took (c := (s.setPod i p).cell h i) (q := r)
      (f := s.flushes i) (by rw [cell_setPod]; exact hp.1) (by rw [cell_setPod]; exact hrb)
      (hreq.outcome.resolve_left (fun hc => hptr hc.1)).2
    exact ⟨i, n, .inr rfl, rfl, by rw [hci]; exact hresr, hsz, by rw [hci]; exact hheld, hnot⟩
  · refine Stocks.one (p := r) ?_ ?_
    · change v.pods = _
      rw [hvp, setPod, update_idem]
    · intro a n ha hnot
      rw [cell_setPod]
      rw [hrb] at hnot
      exact (hreq.alloc_or ha).imp (fun hc => ⟨hc, hnot⟩) (fun hc => ⟨hc.1, hc.2, rfl⟩)

theorem addPodAndAllocate_of_malloc {b' : Prop} {size ptr : ℕ} {x : AbsHeap (L i)}
    (hr : (s.cell h i).Resident b)
    (hmalloc : ∀ p : Pod, p.Models b (h i) → p.state = .local_ →
      p.heap.locked = (s.pods i).heap.locked → ∃ t, p.podMalloc (L i) size =
        .ok (ptr, { p with heap := t }) ∧ ({ p with heap := t } : Pod).Models b' x) :
    ∃ s', s.addPodAndAllocate L i size = .ok (ptr, s') ∧ (s'.pods i).Models b' x := by
  obtain ⟨m, hinit, hmod⟩ := hr.1.heapInit
  have hinit' : (s.pods i).heapInit (L i) = _ := hinit
  rw [SplState.addPodAndAllocate, hinit', ok_bind]
  set u := s.setPod i { (s.cell h i).pod with heap := ⟨m, true, (s.cell h i).pod.heap.locked⟩ }
  have hui : u.pods i = _ := update_self _ _ _
  obtain ⟨t, ht, hmod'⟩ := hmalloc _ hmod hr.2.1 rfl
  set v := u.setPod i { (s.cell h i).pod with heap := t }
  have hvi : v.pods i = _ := update_self _ _ _
  have hrun : u.podMalloc L i size = .ok (ptr, v) := by
    rw [SplState.podMalloc, hui, ht]
    rfl
  obtain ⟨q, hrank, hq⟩ := updateRank_ok (s := v) (i := i) (h := update h i x) (b := b')
    (by rw [hvi, update_self]; exact hmod') (by rw [hvi]; exact hr.2.2)
  rw [update_self] at hq
  simp only [hrun, hrank, ok_bind, pure_eq]
  refine ⟨_, rfl, ?_⟩
  have hqi : (v.setPod i q).pods i = q := update_self _ _ _
  change ((v.setPod i q).pods i).Models b' _
  rw [hqi]
  exact hq.models

theorem addPodAndAllocate_unlocked (hr : (s.cell h i).Resident b)
    (hl : (s.pods i).heap.locked = false) (a : Request (L i)) :
    ∃ s', s.addPodAndAllocate L i a.size = .ok (((h i).malloc a).1.getD 0, s') ∧
      (s'.pods i).Models b ((h i).malloc a).2 := by
  apply addPodAndAllocate_of_malloc hr
  intro p hp hst hlock
  obtain ⟨t, ht, -, hmod⟩ := hp.podMalloc_unlocked hst (hlock.trans hl) a
  exact ⟨t, ht, hmod⟩

theorem addPodAndAllocate_outside {size : ℕ} (hr : (s.cell h i).Resident b)
    (hl : (s.pods i).heap.locked = false) (hsize : (L i).maxIntraPodSize < size) :
    ∃ s', s.addPodAndAllocate L i size = .ok (0, s') ∧ (s'.pods i).Models True (h i) := by
  apply addPodAndAllocate_of_malloc hr
  intro p hp hst hlock
  obtain ⟨m, hm, hs⟩ := hp.page.heapInit
  refine ⟨⟨m, true, true⟩, ?_, .inl ⟨rfl, hs⟩, fun _ => trivial, hp.idle, hp.nodup, hp.pending⟩
  rw [Pod.podMalloc, if_neg (not_not.mpr hst), malloc_eq_inited (hlock.trans hl) hm,
    malloc_outside (.inr hsize)]
  rfl

/-- A pod in a bucket is taken out unless it is the last one. -/
theorem Inv.removePod (hi : s.Inv b M h) (hf : s.Filed i) (hne : s.lastAllocatedPod ≠ some i) :
    ∃ q, s.removePod L i =
        .ok (true, (s.setPod i q).setMap (s.rankMap.unfile (s.pods i).rank i)) ∧
      Reranked b (h i) (s.pods i) q ∧ q.rank = (s.pods i).rank := by
  obtain ⟨hres, -, hrank⟩ := hi.ranked i hf hne
  obtain ⟨q, hrun, hq⟩ := updateRank_ok (h := h) hres.1 hres.2.2
  obtain ⟨l, hl⟩ := hi.get_rank hf
  have hqr : q.rank = (s.pods i).rank := hq.rank.trans hrank.symm
  have hqi : (s.setPod i q).pods i = q := update_self _ _ _
  have hget : (s.setPod i q).rankMap.get q.rank = some l := by
    rw [hqr]
    exact hl
  refine ⟨q, ?_, hq, hqr⟩
  simp only [SplState.removePod, if_neg hne, hrun, ok_bind, hqi, hget]
  rw [hqr]
  rfl

theorem removePod_last (hl : s.lastAllocatedPod = some i) : s.removePod L i = .ok (false, s) :=
  if_pos hl

theorem addPodFromSwappedState_ok {x : AbsHeap (L i)} (hm : (s.pods i).Models b x)
    (hprot : (s.pods i).prot = .readWrite) :
    ∃ q, s.addPodFromSwappedState L i = .ok ((s.setPod i q).setMap (s.rankMap.file q.rank i)) ∧
      Reranked b x (s.pods i) q := by
  obtain ⟨q, hrun, hq⟩ := updateRank_ok (h := update (fun j => .fresh (L j)) i x)
    (by rw [update_self]; exact hm) hprot
  rw [update_self] at hq
  have hqi : (s.setPod i q).pods i = q := update_self _ _ _
  refine ⟨q, ?_, hq⟩
  simp only [addPodFromSwappedState, hrun, ok_bind, hqi]
  rfl

/-! ## Release -/

theorem Inv.filed_state (hi : s.Inv b M h) (hf : s.Filed i) :
    (s.pods i).state = .local_ ∨ (s.pods i).state = .init :=
  (hi.ready hf).imp (·.2.1) (·.2.1)

theorem Inv.note_aside {p : Pod} (hi : s.Inv b M h) (hM : M i) (hst : p.state = (s.pods i).state)
    (hin : p.heap.inited = true) (hrank : p.rank = (s.pods i).rank)
    (hold : p.oldRank = (s.pods i).oldRank) (hlocal : (s.pods i).state ≠ .local_)
    (hinit : (s.pods i).state ≠ .init) (l : List ℕ)
    (hbuffer : ∀ j, j ≠ i → (j ∈ l ↔ j ∈ s.localFreeBuffer)) :
    ({ s.setPod i p with localFreeBuffer := l } : SplState).Inv b M h := by
  have hnf : ¬ s.Filed i := fun hf => (hi.filed_state hf).elim hlocal hinit
  have hnl : s.lastAllocatedPod ≠ some i := fun hc => hnf (hi.last i hc).1
  have hinv := hi.aside (t := { s.setPod i p with localFreeBuffer := l }) (p := p) (x := h i) rfl
    hi.tidy (fun k j => holds_outside hnf) rfl hnl (fun _ => by rw [hold, hrank, hi.synced i hM])
    (fun _ hc => absurd (hst ▸ hc) hlocal) (fun _ hc => nomatch hin.symm.trans hc) hbuffer
    (fun _ => hM) rfl
  rwa [update_eq_self] at hinv

theorem mem_insert_of_ne {l : List ℕ} {j : ℕ} (hj : j ≠ i) : j ∈ l.insert i ↔ j ∈ l := by
  simp [hj]

/-- A free is noted down and may lead to a flush. Only the buffer of a page that is in memory
without being mapped must not fill up. -/
theorem Inv.free {a : ℕ} (hi : s.Inv b M h) (hM : M i) (ha : (h i).isLive a = true)
    (hn : a ∉ (s.pods i).freeBuffer) (hin : (s.pods i).heap.inited = true)
    (hinit : (s.pods i).state ≠ .init) (hpinned : (s.pods i).state ≠ .localPinned)
    (hroom : (s.pods i).state = .diskCache ∨ (s.pods i).state = .remoteCache →
      (s.pods i).freeBuffer.length + 1 < maxFreeBuffSize) :
    Yields (Stuck b) (s.free L i a) (fun r => ∃ h', Goes b M
        (s.setPod i { s.pods i with freeBuffer := (s.pods i).freeBuffer ++ [a] }) h r.2 h' ∧
      ((r.2.pods i).freeBuffer = [] ∨ (s.pods i).state = .disk ∨ (s.pods i).state = .remote ∨
        (s.pods i).freeBuffer.length + 1 < maxFreeBuffSize) ∧
      r.2.lastAllocatedPod = s.lastAllocatedPod ∧ Stocks 0
        (s.setPod i { s.pods i with freeBuffer := (s.pods i).freeBuffer ++ [a] }) h r.2 h') := by
  set p : Pod := { s.pods i with freeBuffer := (s.pods i).freeBuffer ++ [a] } with hp
  have hlen : p.freeBuffer.length = (s.pods i).freeBuffer.length + 1 := by
    rw [hp, length_append, length_singleton]
  have hrun : s.free L i a = if (s.pods i).state = .disk ∨ (s.pods i).state = .remote then
        .ok (decide (p.freeBuffer.length ≥ maxFreeBuffSize), s.setPod i p)
      else if p.freeBuffer.length ≥ maxFreeBuffSize then do
        let s ← (s.setPod i p).flushOnePage L i
        return (false, s)
      else .ok (false, { s.setPod i p with localFreeBuffer := s.localFreeBuffer.insert i }) := by
    simp only [SplState.free, Pod.addToFreeBufferReturnIfFull, decide_eq_true_eq]
    rfl
  rw [hrun]
  by_cases haway : (s.pods i).state = .disk ∨ (s.pods i).state = .remote
  · rw [if_pos haway]
    have hlocal : (s.pods i).state ≠ .local_ := by
      rcases haway with hs | hs <;> simp [hs]
    refine ⟨h, ⟨?_, .refl, fun _ => Iff.rfl⟩, .inr (haway.elim .inl (fun hs => .inr (.inl hs))),
      rfl,
      .refl⟩
    exact hi.note_aside (p := p) hM rfl hin rfl rfl hlocal hinit s.localFreeBuffer
      (fun _ _ => Iff.rfl)
  rw [if_neg haway]
  by_cases hlocal : (s.pods i).state = .local_
  · have hf := hi.listed i hM hlocal hin
    have hres : (s.cell h i).Resident b :=
      (hi.ready hf).resolve_right (fun hc => hinit hc.2.1)
    have hresp : Cell.Resident b ⟨p, h i, s.flushes i⟩ := ⟨hres.1.note ha hn, hres.2⟩
    split
    next =>
      refine (hi.flushOnePage hresp hf rfl rfl).bind ?_
      rintro t ⟨h', hg, hnil, -, -, hlast, hstock⟩
      exact ⟨h', hg, .inl hnil, hlast, hstock⟩
    next hroom' =>
      refine ⟨h, ⟨?_, Changes.refl.congr rfl rfl, fun _ => Iff.rfl⟩, .inr (.inr (.inr (by omega))),
        rfl, Stocks.refl.congr rfl rfl⟩
      have hinv := hi.touch (p := p) (x := h i)
        (t := { s.setPod i p with localFreeBuffer := s.localFreeBuffer.insert i }) hf rfl rfl rfl
        rfl rfl (.inl hresp) (fun hne => ⟨hresp, hin, (hi.ranked i hf hne).2.2⟩)
        (fun _ _ => mem_insert_self) (fun j hj => mem_insert_of_ne hj) rfl
      rwa [update_eq_self] at hinv
  · have hcache : (s.pods i).state = .diskCache ∨ (s.pods i).state = .remoteCache := by
      cases hs : (s.pods i).state <;> simp_all
    have hlt := hroom hcache
    rw [if_neg (by omega)]
    refine ⟨h, ⟨?_, Changes.refl.congr rfl rfl, fun _ => Iff.rfl⟩, .inr (.inr (.inr hlt)), rfl,
      Stocks.refl.congr rfl rfl⟩
    exact hi.note_aside (p := p) hM rfl hin rfl rfl hlocal hinit _ (fun j hj => mem_insert_of_ne hj)

theorem free_traps {a : ℕ}
    (hcache : (s.pods i).state = .diskCache ∨ (s.pods i).state = .remoteCache)
    (hfull : maxFreeBuffSize ≤ (s.pods i).freeBuffer.length + 1) (hprot : (s.pods i).prot = .none) :
    s.free L i a = .error .undefined := by
  have haway : ¬ ((s.pods i).state = .disk ∨ (s.pods i).state = .remote) := by
    rcases hcache with hs | hs <;> simp [hs]
  have hlen : ((s.pods i).freeBuffer ++ [a]).length ≥ maxFreeBuffSize := by
    rw [length_append, length_singleton]
    exact hfull
  simp only [SplState.free, Pod.addToFreeBufferReturnIfFull, if_neg haway, decide_eq_true hlen,
    if_true, SplState.flushOnePage, flushFreeBuffer, setPod, update_self]
  rw [if_pos ⟨by simp [hprot], by simp⟩]
  rfl

/-! ## Trimming -/

theorem filed_of_mem_members {c : Choice} (hmem : i ∈ s.members c) : s.Filed i := by
  obtain ⟨k, -, hk⟩ := mem_flatMap.mp hmem
  have hk' := (c.perm _).mem_iff.mp hk
  cases hget : s.rankMap.get k with
  | none => simp [hget] at hk'
  | some l =>
    rw [hget, Option.getD_some] at hk'
    exact ⟨k, l, hget, hk'⟩

theorem trimOne_eq {tryLock : ℕ → Bool} (hres : (s.cell h i).Resident b)
    (he : s.trimmable L tryLock i = true) :
    ∃ t, SplState.trimOne L tryLock s i = .ok (s.setPod i { s.pods i with heap := t }) ∧
      t.inited = true ∧ Cell.Resident b ⟨{ s.pods i with heap := t }, h i, s.flushes i⟩ ∧
      (s.pods i).freeBuffer = [] := by
  have hpod : (s.pods i).Models b (h i) := hres.1
  obtain ⟨hfresh, hnil⟩ := hpod.of_isEmpty (Bool.and_eq_true _ _ ▸ he).2
  obtain ⟨m, hrun, hmod⟩ := hpod.dropMemoryStayLocal hfresh
  refine ⟨_, ?_, rfl, ⟨hmod, hres.2⟩, hnil⟩
  rw [SplState.trimOne, if_pos he, hrun]
  rfl

theorem Inv.trimOne (hi : s.Inv b M h) (hf : s.Filed i) (tryLock : ℕ → Bool) :
    Yields (Stuck b) (SplState.trimOne L tryLock s i) (fun s' => Goes b M s h s' h ∧
      s'.rankMap = s.rankMap ∧ s'.lastAllocatedPod = s.lastAllocatedPod ∧
      Stocks 0 s h s' h) := by
  by_cases hc : s.trimmable L tryLock i = true
  · have hst : (s.pods i).state = .local_ := by
      rw [trimmable, Bool.and_eq_true, Bool.and_eq_true, decide_eq_true_eq] at hc
      exact hc.1.2
    have hres : (s.cell h i).Resident b :=
      (hi.ready hf).resolve_right (fun hr => nomatch hst.symm.trans hr.2.1)
    obtain ⟨t, hrun, hin, hresq, hnil⟩ := trimOne_eq hres hc
    refine .of_ok hrun ⟨⟨?_, ?_, fun _ => Iff.rfl⟩, rfl, rfl, ?_⟩
    · have hinv := hi.touch (t := s.setPod i { s.pods i with heap := t })
        (p := { s.pods i with heap := t }) (x := h i) hf rfl rfl rfl rfl rfl
        (.inl hresq) (fun hne => ⟨hresq, hin, (hi.ranked i hf hne).2.2⟩)
        (fun _ hne => absurd hnil hne) (fun _ _ => Iff.rfl) rfl
      rwa [update_eq_self] at hinv
    · have hch := Changes.set (t := s.setPod i { s.pods i with heap := t }) (b := b) (M := M)
        (x := h i) (hi.filed_mem hf) rfl rfl
        (Cell.Evolves.of_same (c := s.cell h i) (.inl hres) (.inl hresq) rfl (.inl rfl)
          (fun _ _ hx => hx) rfl rfl hin)
      rwa [update_eq_self] at hch
    · exact .same rfl rfl
  · rw [SplState.trimOne, if_neg hc]
    exact ⟨.refl hi, rfl, rfl, .refl⟩

theorem Inv.trim (hi : s.Inv b M h) (c : Choice) (tryLock : ℕ → Bool) :
    Yields (Stuck b) (s.trim L c tryLock) (fun s' => Goes b M s h s' h ∧
      s'.lastAllocatedPod = s.lastAllocatedPod ∧ Stocks 0 s h s' h) := by
  let I : List ℕ → SplState → Prop := fun rest t =>
    (Goes b M s h t h ∧ t.lastAllocatedPod = s.lastAllocatedPod ∧ Stocks 0 s h t h) ∧
      ∀ i ∈ rest, t.Filed i
  have hstep : ∀ i rest t, I (i :: rest) t →
      Yields (Stuck b) (SplState.trimOne L tryLock t i) (I rest) := by
    rintro i rest t ⟨⟨hg, hlast, hstock⟩, hrest⟩
    obtain ⟨hf, hrest⟩ := forall_mem_cons.mp hrest
    refine (hg.inv.trimOne hf tryLock).mono ?_
    rintro t' ⟨hg', hmap, hlast', hstock'⟩
    refine ⟨⟨hg.trans hg', hlast'.trans hlast, hstock.trans hstock'⟩, fun j hj => ?_⟩
    rw [Filed, hmap]
    exact hrest j hj
  rw [SplState.trim]
  refine (Yields.foldlM hstep ⟨⟨.refl hi, rfl, .refl⟩, ?_⟩).mono (fun _ ht => ht.1)
  intro i hmem
  exact filed_of_mem_members (mem_filter.mp hmem).1

end SplState

end Remon
