import Remon.Vmm.ListRuns
import Remon.Vmm.Residents

/-! # First entries of empty containers

`allocate` looks at the first entry of `rankMap` without asking whether there is one, and the
functions of the LRU list do the same with its front and its back. A request reads an entry of
its map exactly if some pod was filed when it came, since every step on the way keeps the pods
that are filed.
-/

namespace Remon
open Lib Heap Vmm Fault List

variable {L : ℕ → Layout} {path : ℕ → String} {b : Prop}

namespace SplState

variable {M : ℕ → Prop} {s : SplState} {h : ∀ i, AbsHeap (L i)} {i size : ℕ} {c : Choice}

variable (L) in
def beginReads (s : SplState) (size : ℕ) (c : Choice) : List (OrdMap (List ℕ)) :=
  match s.tryAllocateWithPreviousPod L size c.retries with
  | .error _ => []
  | .ok (result, s) =>
    if result ≠ 0 then [] else
    match s.dismissLast L with
    | .error _ => []
    | .ok s =>
      if s.beginKey < size then
        if s.localFreeBuffer.isEmpty then [s.rankMap] else
        match s.clearLocalFreeBuffer L c with
        | .error _ => [s.rankMap]
        | .ok t => [s.rankMap, t.rankMap]
      else [s.rankMap, s.rankMap]

theorem Inv.exists_key_iff (hi : s.Inv b M h) :
    (∃ k, s.rankMap.get k ≠ none) ↔ ∃ i, s.Filed i := by
  constructor
  · rintro ⟨k, hk⟩
    obtain ⟨l, hl⟩ := Option.ne_none_iff_exists'.mp hk
    obtain ⟨i, hm⟩ := exists_mem_of_ne_nil l (hi.tidy k l hl).1
    exact ⟨i, k, l, hl, hm⟩
  · rintro ⟨i, k, l, hl, -⟩
    exact ⟨k, by simp [hl]⟩

theorem Goes.exists_key_iff {t : SplState} {x : ∀ i, AbsHeap (L i)} (hi : s.Inv b M h)
    (hg : Goes b M s h t x) :
    (∃ k, t.rankMap.get k ≠ none) ↔ ∃ k, s.rankMap.get k ≠ none := by
  rw [hg.inv.exists_key_iff, hi.exists_key_iff]
  exact exists_congr hg.filed

/-- Each map that is read has an entry if the map of the list had one at the call. -/
theorem Inv.exists_key_of_mem_beginReads {m : OrdMap (List ℕ)} (hi : s.Inv b M h)
    (hz : Asize size) (hb : ∀ i, (L i).maxIntraPodSize < size → b)
    (hk : ∃ k, s.rankMap.get k ≠ none) (hm : m ∈ s.beginReads L size c) :
    ∃ k, m.get k ≠ none := by
  unfold SplState.beginReads at hm
  cases htry : s.tryAllocateWithPreviousPod L size c.retries with
  | error e => simp [htry] at hm
  | ok r =>
    obtain ⟨ptr, t⟩ := r
    obtain ⟨h₁, hg₁, -, hres, -⟩ := (hi.tryAllocateWithPreviousPod hz hb c.retries).result htry
    dsimp only at hg₁ hres
    simp only [htry] at hm
    split at hm
    · cases hm
    · next hptr =>
      cases hdismiss : t.dismissLast L with
      | error e => simp [hdismiss] at hm
      | ok u =>
        obtain ⟨hg₂, -, -⟩ := (hg₁.inv.dismissLast hres).result hdismiss
        have hu := (Goes.exists_key_iff hi (hg₁.trans hg₂)).mpr hk
        simp only [hdismiss] at hm
        split at hm
        · split at hm
          · rwa [mem_singleton.mp hm]
          · cases hclear : u.clearLocalFreeBuffer L c with
            | error e =>
              simp only [hclear] at hm
              rwa [mem_singleton.mp hm]
            | ok v =>
              obtain ⟨h₃, hg₃, -, -⟩ := (hg₂.inv.clearLocalFreeBuffer c).result hclear
              simp only [hclear, mem_cons, not_mem_nil, or_false] at hm
              rcases hm with rfl | rfl
              · exact hu
              · exact (Goes.exists_key_iff hi ((hg₁.trans hg₂).trans hg₃)).mpr hk
        · have hm' : m = u.rankMap := by simpa using hm
          rwa [hm']

theorem Inv.last_none (hi : s.Inv b M h) (he : ¬ ∃ k, s.rankMap.get k ≠ none) :
    s.lastAllocatedPod = none := by
  rw [hi.exists_key_iff] at he
  cases hl : s.lastAllocatedPod with
  | none => rfl
  | some i => exact absurd ⟨i, (hi.last i hl).1⟩ he

theorem mem_beginReads (hl : s.lastAllocatedPod = none) : s.rankMap ∈ s.beginReads L size c := by
  simp only [SplState.beginReads, tryAllocateWithPreviousPod, dismissLast, hl, ne_eq,
    not_true_eq_false, if_false]
  split
  · split
    · simp
    · split <;> simp
  · simp

theorem Inv.beginReads_iff (hi : s.Inv b M h) (hz : Asize size)
    (hb : ∀ i, (L i).maxIntraPodSize < size → b) :
    (∀ m ∈ s.beginReads L size c, ∃ k, m.get k ≠ none) ↔ ∃ k, s.rankMap.get k ≠ none := by
  constructor
  · intro hall
    by_contra he
    exact he (hall _ (mem_beginReads (hi.last_none he)))
  · intro hk m hm
    exact hi.exists_key_of_mem_beginReads hz hb hk hm

end SplState

namespace Vmm.LruState

variable {s t : LruState} {p : ℕ}

def endReads (s : LruState) : List (List ℕ) := if s.lruLock then [] else [s.pods]

theorem endReads_hit (hp : s.pods ≠ []) : ∀ l ∈ s.endReads, l ≠ [] := by
  intro l hl
  unfold endReads at hl
  split at hl
  · cases hl
  · rwa [mem_singleton.mp hl]

theorem mem_endReads_of_lock (h : s.lock = .ok t) : s.pods ∈ s.endReads := by
  unfold lock at h
  unfold endReads
  split at h
  · cases h
  · next hl =>
    rw [if_neg hl]
    exact mem_singleton_self _

theorem mem_endReads_of_updateLRUList {r : ℤ × LruState}
    (h : s.updateLRUList (some p) = .ok r) : s.pods ∈ s.endReads := by
  obtain ⟨t, ht, -⟩ := of_bind_ok h
  exact mem_endReads_of_lock ht

theorem mem_endReads_of_tailPodInLRUList {r : ℤ × LruState}
    (h : s.tailPodInLRUList (some p) = .ok r) : s.pods ∈ s.endReads := by
  obtain ⟨t, ht, -⟩ := of_bind_ok h
  exact mem_endReads_of_lock ht

theorem pods_ne_nil_of_updateLRUList {r : ℤ} (h : s.updateLRUList (some p) = .ok (r, t)) :
    t.pods ≠ [] := by
  obtain ⟨u, -, h⟩ := of_bind_ok h
  split at h
  · next hhead =>
    cases h
    intro hnil
    have hnil' : u.pods = [] := hnil
    simp [hnil'] at hhead
  · split at h
    · cases h
      exact cons_ne_nil _ _
    · obtain ⟨v, -, h⟩ := of_bind_ok h
      cases h
      exact cons_ne_nil _ _

theorem getFromLRUList_some {tryLock : ℕ → Bool} {i : ℕ}
    (h : s.getFromLRUList tryLock = .ok (some i, t)) :
    s.pods.getLast? = some i ∧ tryLock i = true ∧ t.pods = s.pods.dropLast := by
  obtain ⟨u, hu, h⟩ := of_bind_ok h
  have hpods : u.pods = s.pods := by
    unfold lock at hu
    split at hu
    · cases hu
    · cases hu
      rfl
  rw [← hpods]
  cases hlast : u.pods.getLast? with
  | none =>
    rw [hlast] at h
    cases h
  | some j =>
    rw [hlast] at h
    dsimp only at h
    split at h
    · next hlock =>
      cases h
      exact ⟨rfl, hlock, IterList.values_popBack⟩
    · cases h

end Vmm.LruState

namespace Tracked

variable {s s' : Tracked} {i : ℕ}

/-- No page is swapped out by force, and a page with a list is brought back or prefetched only
after it was swapped out. -/
def Ordinary (s : Tracked) : Move → Prop
  | .activatePod i _ | .prefetchPod i _ | .remonPromotePod i _ =>
    s.session.splPushdown i ≠ none → (s.session.pods i).state ≠ .init
  | .remonForceSwap _ _ _ => False
  | _ => True

/-- A section is at most one operation of the session. -/
theorem step_session {m : Move} (hlegal : s.Legal L m) (hok : s.Ordinary m)
    (run : s.step L path m = .ok s') : s'.session = s.session ∨
      ∃ op, s.session.Legal L op ∧ s.session.Calls op ∧
        s.session.step L path op = .ok s'.session := by
  have hactivate : ∀ {t : Tracked} {i : ℕ} {f : Fetch}, s.activatePod L path i f = .ok t →
      s.session.step L path (.activatePod i f) = .ok t.session := by
    intro t i f h
    obtain ⟨u, hu, h⟩ := of_bind_ok h
    obtain ⟨r, -, h⟩ := of_bind_ok h
    cases h
    exact hu
  cases m with
  | allocate l size c =>
    obtain ⟨t, ht, h⟩ := of_bind_ok run
    cases h
    exact .inr ⟨.allocate l size c, hlegal, trivial, ht⟩
  | addPodAndAllocate l i =>
    obtain ⟨t, ht, h⟩ := of_bind_ok run
    cases h
    exact .inr ⟨.addPodAndAllocate l i, hlegal, trivial, ht⟩
  | updateLRUList i =>
    obtain ⟨r, -, h⟩ := of_bind_ok run
    cases h
    exact .inl rfl
  | hugePage i f =>
    rw [Tracked.step] at run
    split at run
    · obtain ⟨t, ht, h⟩ := of_bind_ok run
      obtain ⟨r, -, h⟩ := of_bind_ok h
      cases h
      have hrun : s.session.step L path (.activatePod i f) = .ok t.session := hactivate ht
      exact .inr ⟨.activatePod i f, hlegal.1, fun hc => absurd hlegal.2 hc, hrun⟩
    · cases run
      exact .inl rfl
  | activatePod i f => exact .inr ⟨.activatePod i f, hlegal, hok, hactivate run⟩
  | prefetchPod i f =>
    obtain ⟨t, ht, h⟩ := of_bind_ok run
    refine .inr ⟨.prefetchPod i f, hlegal, hok, ?_⟩
    rw [ht]
    split at h
    all_goals first
      | (obtain ⟨r, -, h⟩ := of_bind_ok h
         cases h
         rfl)
      | (cases h
         rfl)
  | pickPodToEvict tryLock isFree localCopy =>
    obtain ⟨⟨podToEvict, lru⟩, hget, h⟩ := of_bind_ok run
    cases podToEvict with
    | none =>
      cases h
      exact .inl rfl
    | some i =>
      obtain ⟨hlast, -⟩ := LruState.getFromLRUList_some hget
      obtain ⟨t, ht, h⟩ := of_bind_ok h
      refine .inr ⟨.pickPodToEvict i (isFree i) localCopy, hlegal i hlast, trivial, ?_⟩
      rw [ht]
      split at h
      · obtain ⟨r, -, h⟩ := of_bind_ok h
        cases h
        rfl
      · cases h
        rfl
  | remonPromotePod i f =>
    rw [Tracked.step] at run
    split at run
    · exact .inr ⟨.activatePod i f, hlegal, hok, hactivate run⟩
    · obtain ⟨r, -, h⟩ := of_bind_ok run
      cases h
      exact .inl rfl
  | remonDemote i =>
    rw [Tracked.step] at run
    split at run
    · cases run
      exact .inl rfl
    · obtain ⟨r, -, h⟩ := of_bind_ok run
      cases h
      exact .inl rfl
  | remonForceSwap i tryLock localCopy => exact hok.elim
  | other op hop =>
    obtain ⟨t, ht, h⟩ := of_bind_ok run
    cases h
    refine .inr ⟨op, hlegal, ?_, ht⟩
    cases op with
    | asyncSwapOutPod _ _ | activatePod _ _ | prefetchPod _ _ => cases hop
    | _ => trivial

theorem Run.session (hs : Run L path Ordinary s) : Session.Run L path Session.Calls s.session := by
  induction hs with
  | start lruIter => exact .start
  | step _ hlegal hok run ih =>
    rcases step_session hlegal hok run with he | ⟨op, hop, hcalls, hrun⟩
    · rw [he]
      exact ih
    · exact .step ih hop hcalls hrun

variable (L) in
def beginReads (s : Tracked) : Move → List (OrdMap (List ℕ))
  | .allocate l size c => (s.session.spl l).beginReads L size c
  | _ => []

variable (L path) in
def endReads (s : Tracked) : Move → List (List ℕ)
  | .updateLRUList _ => s.lru.endReads
  | .hugePage i f =>
    if (s.session.pods i).state ≠ .local_ then
      match s.session.step L path (.activatePod i f) with
      | .error _ => []
      | .ok _ =>
        match s.activatePod L path i f with
        | .error _ => s.lru.endReads
        | .ok t => s.lru.endReads ++ t.lru.endReads
    else []
  | .activatePod i f =>
    match s.session.step L path (.activatePod i f) with
    | .error _ => []
    | .ok _ => s.lru.endReads
  | .prefetchPod i f =>
    match s.session.step L path (.prefetchPod i f), (s.session.pods i).state with
    | .ok _, .disk | .ok _, .remote | .ok _, .init => s.lru.endReads
    | _, _ => []
  | .pickPodToEvict tryLock isFree localCopy =>
    match s.lru.getFromLRUList tryLock with
    | .ok (some i, lru) =>
      match s.session.step L path (.pickPodToEvict i (isFree i) localCopy) with
      | .ok _ => if s.session.activates L i (isFree i) then lru.endReads else []
      | .error _ => []
    | _ => []
  | .remonPromotePod i f =>
    if (s.session.pods i).state = .remote ∨ (s.session.pods i).state = .disk then
      match s.session.step L path (.activatePod i f) with
      | .error _ => []
      | .ok _ => s.lru.endReads
    else s.lru.endReads
  | .remonDemote i =>
    if (s.session.pods i).state = .remote ∨ (s.session.pods i).state = .disk then []
    else s.lru.endReads
  | .allocate _ _ _ | .addPodAndAllocate _ _ | .remonForceSwap _ _ _ | .other _ _ => []

variable (L path) in
/-- Every first entry, front and back that the section reads is there. -/
def Hits (s : Tracked) (m : Move) : Prop :=
  (∀ rankMap ∈ s.beginReads L m, ∃ k, rankMap.get k ≠ none) ∧
    ∀ pods ∈ s.endReads L path m, pods ≠ []

variable (L) in
/-- A request finds a pod filed in its list, a pod that is used or demoted finds another in the
LRU list, and the evictor does not bring back the only pod of that list. -/
def Stocked (s : Tracked) : Move → Prop
  | .allocate l _ _ => ∃ k, (s.session.lists l).rankMap.get k ≠ none
  | .updateLRUList _ | .activatePod _ _ | .remonPromotePod _ _ => s.lru.pods ≠ []
  | .hugePage i _ => (s.session.pods i).state ≠ .local_ → s.lru.pods ≠ []
  | .prefetchPod i _ => (s.session.pods i).state = .disk ∨ (s.session.pods i).state = .remote ∨
      (s.session.pods i).state = .init → s.lru.pods ≠ []
  | .pickPodToEvict tryLock isFree _ => ∀ i, s.lru.pods = [i] → tryLock i = true →
      s.session.activates L i (isFree i) = false
  | .remonDemote i => (s.session.pods i).state ≠ .remote → (s.session.pods i).state ≠ .disk →
      s.lru.pods ≠ []
  | .addPodAndAllocate _ _ | .remonForceSwap _ _ _ | .other _ _ => True

theorem activatePod_reads {t : Tracked} {f : Fetch} (h : s.activatePod L path i f = .ok t) :
    (∃ u, s.session.step L path (.activatePod i f) = .ok u) ∧ s.lru.pods ∈ s.lru.endReads ∧
      t.lru.pods ≠ [] := by
  obtain ⟨u, hu, h⟩ := of_bind_ok h
  obtain ⟨⟨r, lru⟩, hlru, h⟩ := of_bind_ok h
  cases h
  exact ⟨⟨u, hu⟩, LruState.mem_endReads_of_updateLRUList hlru,
    LruState.pods_ne_nil_of_updateLRUList hlru⟩

/-- The lists that are read have a pod. -/
theorem Stocked.endReads {m : Move} (hs : s.Stocked L m) :
    ∀ pods ∈ s.endReads L path m, pods ≠ [] := by
  intro pods hp
  cases m with
  | updateLRUList i => exact LruState.endReads_hit hs pods hp
  | hugePage i f =>
    rw [Tracked.endReads] at hp
    split at hp
    · next hst =>
      have hread := LruState.endReads_hit (hs hst) pods
      split at hp
      · cases hp
      · split at hp
        · exact hread hp
        · next ht =>
          rcases mem_append.mp hp with hp | hp
          · exact hread hp
          · exact LruState.endReads_hit (activatePod_reads ht).2.2 pods hp
    · cases hp
  | activatePod i f =>
    rw [Tracked.endReads] at hp
    split at hp
    · cases hp
    · exact LruState.endReads_hit hs pods hp
  | prefetchPod i f =>
    rw [Tracked.endReads] at hp
    split at hp
    · next hst => exact LruState.endReads_hit (hs (.inl hst)) pods hp
    · next hst => exact LruState.endReads_hit (hs (.inr (.inl hst))) pods hp
    · next hst => exact LruState.endReads_hit (hs (.inr (.inr hst))) pods hp
    · cases hp
  | pickPodToEvict tryLock isFree localCopy =>
    rw [Tracked.endReads] at hp
    split at hp
    · next i lru hget =>
      obtain ⟨hlast, hlock, hrest⟩ := LruState.getFromLRUList_some hget
      split at hp
      · split at hp
        · next hact =>
          refine LruState.endReads_hit ?_ pods hp
          -- a list that is empty without its last pod has only that one
          intro hnil
          rw [hrest] at hnil
          have hone : s.lru.pods = [i] := by
            rw [← dropLast_append_getLast? i hlast, hnil, nil_append]
          exact absurd (hs i hone hlock) (by simp [hact])
        · cases hp
      · cases hp
    · cases hp
  | remonPromotePod i f =>
    rw [Tracked.endReads] at hp
    have hread := LruState.endReads_hit hs pods
    split at hp
    · split at hp
      · cases hp
      · exact hread hp
    · exact hread hp
  | remonDemote i =>
    rw [Tracked.endReads] at hp
    split at hp
    · cases hp
    · next hst =>
      rw [not_or] at hst
      exact LruState.endReads_hit (hs hst.1 hst.2) pods hp
  | allocate _ _ _ | addPodAndAllocate _ _ | remonForceSwap _ _ _ | other _ _ => cases hp

/-- A section that returns and whose reads all hit was stocked. -/
theorem stocked_of_endReads {m : Move} (run : s.step L path m = .ok s')
    (hall : ∀ pods ∈ s.endReads L path m, pods ≠ []) (hm : ∀ l size c, m ≠ .allocate l size c) :
    s.Stocked L m := by
  cases m with
  | allocate l size c => exact absurd rfl (hm l size c)
  | updateLRUList i =>
    obtain ⟨r, hr, -⟩ := of_bind_ok run
    exact hall _ (LruState.mem_endReads_of_updateLRUList hr)
  | hugePage i f =>
    intro hst
    rw [Tracked.step, if_pos hst] at run
    obtain ⟨t, ht, -⟩ := of_bind_ok run
    obtain ⟨⟨u, hu⟩, hread, -⟩ := activatePod_reads ht
    refine hall _ ?_
    simp only [Tracked.endReads, if_pos hst, hu, ht]
    exact mem_append_left _ hread
  | activatePod i f =>
    obtain ⟨⟨u, hu⟩, hread, -⟩ := activatePod_reads run
    refine hall _ ?_
    simpa only [Tracked.endReads, hu] using hread
  | prefetchPod i f =>
    intro hst
    obtain ⟨t, ht, h⟩ := of_bind_ok run
    refine hall _ ?_
    rcases hst with hst | hst | hst
    all_goals
      simp only [hst] at h
      obtain ⟨r, hr, -⟩ := of_bind_ok h
      simpa only [Tracked.endReads, ht, hst] using LruState.mem_endReads_of_updateLRUList hr
  | pickPodToEvict tryLock isFree localCopy =>
    intro i hone hlock
    obtain ⟨⟨podToEvict, lru⟩, hget, h⟩ := of_bind_ok run
    -- the only pod was taken, so the list that is left is empty
    obtain rfl : podToEvict = some i := by
      obtain ⟨u, hu, hget⟩ := of_bind_ok hget
      have hu' : u.pods = [i] := by
        rw [← hone]
        unfold LruState.lock at hu
        split at hu
        · cases hu
        · cases hu
          rfl
      simp only [hu', List.getLast?_singleton, hlock, if_true] at hget
      cases hget
      rfl
    obtain ⟨-, -, hrest⟩ := LruState.getFromLRUList_some hget
    have hnil : lru.pods = [] := by rw [hrest, hone, dropLast_singleton]
    obtain ⟨t, ht, h⟩ := of_bind_ok h
    cases hact : s.session.activates L i (isFree i) with
    | false => rfl
    | true =>
      simp only [hact, if_true] at h
      obtain ⟨r, hr, -⟩ := of_bind_ok h
      refine absurd hnil (hall _ ?_)
      simpa only [Tracked.endReads, hget, ht, hact, if_true] using
        LruState.mem_endReads_of_updateLRUList hr
  | remonPromotePod i f =>
    rw [Tracked.step] at run
    refine hall _ ?_
    rw [Tracked.endReads]
    split at run
    · next hst =>
      obtain ⟨⟨u, hu⟩, hread, -⟩ := activatePod_reads run
      simpa only [if_pos hst, hu] using hread
    · next hst =>
      obtain ⟨r, hr, -⟩ := of_bind_ok run
      rw [if_neg hst]
      exact LruState.mem_endReads_of_updateLRUList hr
  | remonDemote i =>
    intro hr hd
    have hst : ¬ ((s.session.pods i).state = .remote ∨ (s.session.pods i).state = .disk) :=
      not_or.mpr ⟨hr, hd⟩
    rw [Tracked.step, if_neg hst] at run
    obtain ⟨r, hr, -⟩ := of_bind_ok run
    refine hall _ ?_
    rw [Tracked.endReads, if_neg hst]
    exact LruState.mem_endReads_of_tailPodInLRUList hr
  | addPodAndAllocate _ _ | remonForceSwap _ _ _ | other _ _ => trivial

/-- In every state that the calls of a new `remon_vmm` lead to, a section whose containers are
stocked reads only entries that are there, and a section that returns and reads only such
entries found its containers stocked. -/
theorem lookups_hit {swapDir : String} (hs : Run L (swapFile swapDir) Ordinary s) (m : Move)
    (hlegal : s.Legal L m) :
    (s.Stocked L m → s.Hits L (swapFile swapDir) m) ∧
    ∀ s', s.step L (swapFile swapDir) m = .ok s' → s.Hits L (swapFile swapDir) m →
      s.Stocked L m := by
  obtain ⟨⟨h, hi⟩, -, -⟩ := hs.session.calls (swapFile_injective swapDir)
    (fun _ _ hc => ⟨hc, Session.sized_true⟩)
  -- of the reads of a request something is known by the state of its list
  have hmap : ∀ l size c, m = .allocate l size c →
      ((∀ rankMap ∈ s.beginReads L m, ∃ k, rankMap.get k ≠ none) ↔ s.Stocked L m) := by
    rintro l size c rfl
    exact (hi.pager.lists l).beginReads_iff hlegal.1 (fun _ _ => trivial)
  constructor
  · intro hstocked
    refine ⟨?_, hstocked.endReads⟩
    cases m with
    | allocate l size c => exact (hmap l size c rfl).mpr hstocked
    | _ => exact fun _ hx => absurd hx not_mem_nil
  · rintro s' run ⟨hbegin, hend⟩
    by_cases hm : ∃ l size c, m = .allocate l size c
    · obtain ⟨l, size, c, hm⟩ := hm
      exact (hmap l size c hm).mp hbegin
    · push Not at hm
      exact stocked_of_endReads run hend hm

/-! ## Lookups of the first requests -/

def samplePlaced : Tracked :=
  (sampleBuffered.after Session.samplePages (swapFile "swap")
    (.allocate 0 64 Session.sampleChoice)).after Session.samplePages (swapFile "swap")
    (.addPodAndAllocate 0 0)

theorem samplePlaced_ordinary :
    Run Session.samplePages (swapFile "swap") Ordinary samplePlaced := by
  have h0 : Run Session.samplePages (swapFile "swap") Ordinary sampleBuffered :=
    sampleBuffered_run trivial
  have h := h0.after (m := .allocate 0 64 Session.sampleChoice)
    ⟨⟨by decide, by decide⟩, rfl⟩ trivial (by decide)
  exact h.after (m := .addPodAndAllocate 0 0)
    ⟨by decide, by decide, by decide⟩ trivial (by decide)

theorem lookups_hit_sample : Run Session.samplePages (swapFile "swap") Ordinary samplePlaced ∧
    samplePlaced.Legal Session.samplePages (.allocate 0 64 Session.sampleChoice) ∧
    samplePlaced.Hits Session.samplePages (swapFile "swap")
      (.allocate 0 64 Session.sampleChoice) := by
  have hlegal : samplePlaced.Legal Session.samplePages (.allocate 0 64 Session.sampleChoice) :=
    ⟨⟨by decide, by decide⟩, by decide⟩
  have hkey : (samplePlaced.session.lists 0).rankMap.get 4016 ≠ none := by decide
  exact ⟨samplePlaced_ordinary, hlegal,
    (lookups_hit samplePlaced_ordinary _ hlegal).1 ⟨4016, hkey⟩⟩

/-- The first request of a list reads the first entry of an empty map, and the first pod that
is used the front of an empty list. -/
theorem first_lookups_miss : Run Session.samplePages (swapFile "swap") Ordinary sampleBuffered ∧
    sampleBuffered.Legal Session.samplePages (.allocate 0 64 Session.sampleChoice) ∧
    ¬ sampleBuffered.Hits Session.samplePages (swapFile "swap")
      (.allocate 0 64 Session.sampleChoice) ∧
    Run Session.samplePages (swapFile "swap") Ordinary samplePlaced ∧
    samplePlaced.Legal Session.samplePages (.updateLRUList 0) ∧
    ¬ samplePlaced.Hits Session.samplePages (swapFile "swap") (.updateLRUList 0) := by
  refine ⟨sampleBuffered_run trivial, ⟨⟨by decide, by decide⟩, rfl⟩, ?_, samplePlaced_ordinary,
    ?_, ?_⟩
  · rintro ⟨hbegin, -⟩
    have hlast : (sampleBuffered.session.spl 0).lastAllocatedPod = none := by decide
    have hread : (sampleBuffered.session.spl 0).rankMap ∈ sampleBuffered.beginReads
        Session.samplePages (.allocate 0 64 Session.sampleChoice) := by
      rw [beginReads]
      exact SplState.mem_beginReads hlast
    obtain ⟨k, hk⟩ := hbegin _ hread
    have hbound : (sampleBuffered.session.spl 0).rankMap.bound = 0 := by decide
    have hlt := (sampleBuffered.session.spl 0).rankMap.lt_bound k hk
    omega
  · change 0 ∈ samplePlaced.due
    decide
  · rintro ⟨-, hend⟩
    have hread : [] ∈ samplePlaced.endReads Session.samplePages (swapFile "swap")
        (.updateLRUList 0) := by decide
    exact hend [] hread rfl

end Tracked

/-! ## The calls with their reads

A call that tells of its reads is the call itself if they are ignored, and what it tells of are the
lists above.
-/

/-- Calls that may fail and note values on the way. -/
abbrev Noting (ω : Type) := ExceptT Fault (StateM (List ω))

namespace Noting

variable {ω α β : Type}

def note (x : ω) : Noting ω Unit := fun l => (.ok (), l ++ [x])

def notes (x : Noting ω α) : List ω := (x []).2

theorem bind_apply (x : Noting ω α) (f : α → Noting ω β) (l : List ω) :
    (x >>= f) l = match x l with
      | (.ok a, l') => f a l'
      | (.error e, l') => (.error e, l') := by
  change (ExceptT.bindCont f (x l).1) (x l).2 = _
  rcases x l with ⟨_ | _, _⟩ <;> rfl

theorem snd_bind_pure (x : Noting ω α) (f : α → β) (l : List ω) :
    ((x >>= fun a => pure (f a)) l).2 = (x l).2 := by
  rw [bind_apply]
  rcases x l with ⟨_ | _, _⟩ <;> rfl

theorem lift_apply (x : Except Fault α) (l : List ω) : (liftM x : Noting ω α) l = (x, l) := rfl

end Noting

open Noting

variable {m : Type → Type} [Monad m] [MonadLiftT (Except Fault) m]

namespace SplState

variable (L) in
/-- `allocate` with a `read` of the map wherever it looks at the first entry. -/
def allocateM (read : OrdMap (List ℕ) → m Unit) (s : SplState) (size : ℕ) (c : Choice) :
    m (ℕ × SplState) := do
  let (result, s) ← s.tryAllocateWithPreviousPod L size c.retries
  if result ≠ 0 then return (result, s)
  let s ← s.dismissLast L
  read s.rankMap
  if s.beginKey < size then
    if s.localFreeBuffer.isEmpty then return (0, s)
    let s ← s.clearLocalFreeBuffer L c
    read s.rankMap
    s.allocateFirst L size c
  else
    read s.rankMap
    s.allocateFirst L size c

variable {s : SplState} {size : ℕ} {c : Choice}

theorem allocateM_erased : s.allocateM L (fun _ => (pure () : Except Fault Unit)) size c =
    s.allocate L size c := rfl

theorem notes_allocateM : (s.allocateM L note size c).notes = s.beginReads L size c := by
  unfold SplState.allocateM SplState.beginReads
  rcases s.tryAllocateWithPreviousPod L size c.retries with e | ⟨result, t⟩
  · rfl
  simp only [notes, bind_apply, lift_apply]
  split
  · rfl
  simp only [bind_apply, lift_apply]
  rcases t.dismissLast L with e | u
  · rfl
  simp only [note]
  split
  · split
    · rfl
    · simp only [bind_apply, lift_apply]
      rcases u.clearLocalFreeBuffer L c with e | v
      · rfl
      · rfl
  · rfl

end SplState

namespace Vmm.LruState

variable {s : LruState} {p : ℕ}

/-- The list is read once `LRULock` is taken. -/
def updateLRUListM (read : List ℕ → m Unit) (s : LruState) (p : ℕ) : m (ℤ × LruState) := do
  let t ← s.lock
  read t.pods
  s.updateLRUList (some p)

def tailPodInLRUListM (read : List ℕ → m Unit) (s : LruState) (p : ℕ) : m (ℤ × LruState) := do
  let t ← s.lock
  read t.pods
  s.tailPodInLRUList (some p)

def ignore (_ : List ℕ) : Except Fault Unit := pure ()

theorem updateLRUListM_erased : s.updateLRUListM ignore p = s.updateLRUList (some p) := by
  rw [updateLRUListM, updateLRUList]
  rcases s.lock with e | t <;> rfl

theorem tailPodInLRUListM_erased : s.tailPodInLRUListM ignore p = s.tailPodInLRUList (some p) := by
  rw [tailPodInLRUListM, tailPodInLRUList]
  rcases s.lock with e | t <;> rfl

theorem updateLRUListM_note (l : List (List ℕ)) :
    s.updateLRUListM note p l = (s.updateLRUList (some p), l ++ s.endReads) := by
  rw [updateLRUListM, updateLRUList, endReads, lock]
  split
  · simp [bind_apply, lift_apply]
  · rfl

theorem tailPodInLRUListM_note (l : List (List ℕ)) :
    s.tailPodInLRUListM note p l = (s.tailPodInLRUList (some p), l ++ s.endReads) := by
  rw [tailPodInLRUListM, tailPodInLRUList, endReads, lock]
  split
  · simp [bind_apply, lift_apply]
  · rfl

end Vmm.LruState

namespace Tracked

variable (L path) in
def activatePodM (read : List ℕ → m Unit) (s : Tracked) (i : ℕ) (f : Fetch) : m Tracked := do
  let t ← s.session.step L path (.activatePod i f)
  let (_, lru) ← s.lru.updateLRUListM read i
  return { s with session := t, lru := lru }

variable (L path) in
/-- A section with a `read` of the list wherever it looks at the front or the back. -/
def stepM (read : List ℕ → m Unit) (s : Tracked) : Move → m Tracked
  | .updateLRUList i => do
    let (_, lru) ← s.lru.updateLRUListM read i
    return { s with lru := lru, due := s.due.erase i }
  | .hugePage i f =>
    if (s.session.pods i).state ≠ .local_ then do
      let s ← s.activatePodM L path read i f
      let (_, lru) ← s.lru.updateLRUListM read i
      return { s with lru := lru }
    else return s
  | .activatePod i f => s.activatePodM L path read i f
  | .prefetchPod i f => do
    let t ← s.session.step L path (.prefetchPod i f)
    match (s.session.pods i).state with
    | .disk | .remote | .init =>
      let (_, lru) ← s.lru.updateLRUListM read i
      return { s with session := t, lru := lru }
    | .local_ | .localPinned | .diskCache | .remoteCache => return { s with session := t }
  | .pickPodToEvict tryLock isFree localCopy => do
    let (podToEvict, lru) ← s.lru.getFromLRUList tryLock
    match podToEvict with
    | none => return { s with lru := lru }
    | some i =>
      let t ← s.session.step L path (.pickPodToEvict i (isFree i) localCopy)
      if s.session.activates L i (isFree i) then
        let (_, lru) ← lru.updateLRUListM read i
        return { s with session := t, lru := lru }
      else return { s with session := t, lru := lru }
  | .remonPromotePod i f =>
    if (s.session.pods i).state = .remote ∨ (s.session.pods i).state = .disk then
      s.activatePodM L path read i f
    else do
      let (_, lru) ← s.lru.updateLRUListM read i
      return { s with lru := lru }
  | .remonDemote i =>
    if (s.session.pods i).state = .remote ∨ (s.session.pods i).state = .disk then return s
    else do
      let (_, lru) ← s.lru.tailPodInLRUListM read i
      return { s with lru := lru }
  | m => s.step L path m

open LruState

variable {s : Tracked}

theorem stepM_erased (m : Move) : s.stepM L path ignore m = s.step L path m := by
  have hact : ∀ i f, s.activatePodM L path ignore i f = s.activatePod L path i f := by
    intro i f
    rw [activatePodM, updateLRUListM_erased]
    rfl
  cases m with
  | hugePage i f =>
    simp only [stepM, step, hact, updateLRUListM_erased]
    rfl
  | _ => simp only [stepM, step, hact, updateLRUListM_erased, tailPodInLRUListM_erased] <;> rfl

theorem activatePodM_note (i : ℕ) (f : Fetch) (l : List (List ℕ)) :
    s.activatePodM L path note i f l =
      (s.activatePod L path i f, l ++ s.endReads L path (.activatePod i f)) := by
  rw [activatePodM, activatePod, Tracked.endReads]
  rcases s.session.step L path (.activatePod i f) with e | t
  · simp [bind_apply, lift_apply]
  · simp only [bind_apply, lift_apply, updateLRUListM_note]
    rcases s.lru.updateLRUList (some i) with e | r <;> rfl

theorem notes_update {α : Type} (lru : LruState) (i : ℕ) (f : ℤ × LruState → α)
    (l : List (List ℕ)) :
    ((lru.updateLRUListM note i >>= fun r => pure (f r)) l).2 = l ++ lru.endReads := by
  rw [snd_bind_pure, updateLRUListM_note]

theorem notes_stepM (m : Move) : (s.stepM L path note m).notes = s.endReads L path m := by
  cases m with
  | updateLRUList i => exact notes_update _ _ _ _
  | hugePage i f =>
    rw [stepM, Tracked.endReads]
    split
    · rw [notes, bind_apply, activatePodM_note, activatePod, Tracked.endReads]
      rcases s.session.step L path (.activatePod i f) with e | t
      · rfl
      · rcases s.lru.updateLRUList (some i) with e | r
        · rfl
        · exact notes_update _ _ _ _
    · rfl
  | activatePod i f => rw [stepM, notes, activatePodM_note, nil_append]
  | prefetchPod i f =>
    simp only [stepM, Tracked.endReads, notes, bind_apply, lift_apply]
    rcases s.session.step L path (.prefetchPod i f) with e | t
    · rfl
    · cases (s.session.pods i).state with
      | disk | remote | init => exact notes_update _ _ _ _
      | _ => rfl
  | pickPodToEvict tryLock isFree localCopy =>
    simp only [stepM, Tracked.endReads, notes, bind_apply, lift_apply]
    rcases s.lru.getFromLRUList tryLock with e | ⟨_ | i, lru⟩
    · rfl
    · rfl
    · simp only [bind_apply, lift_apply]
      rcases s.session.step L path (.pickPodToEvict i (isFree i) localCopy) with e | t
      · rfl
      · dsimp only
        split
        · exact notes_update _ _ _ _
        · rfl
  | remonPromotePod i f =>
    rw [stepM, Tracked.endReads]
    split
    · rw [notes, activatePodM_note]
      rfl
    · exact notes_update _ _ _ _
  | remonDemote i =>
    rw [stepM, Tracked.endReads]
    split
    · rfl
    · rw [notes, snd_bind_pure, tailPodInLRUListM_note, nil_append]
  | _ => rfl

end Tracked

end Remon
