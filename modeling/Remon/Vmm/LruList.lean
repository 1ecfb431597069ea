import Remon.Base
import Remon.Lib.IterList

/-! # The list of evictable pods

`LRUList` is a list with stable iterators; a pod in it remembers the iterator of its node and
has a flag that says whether that iterator is valid. A pod is its index. Reading the front or
the back of an empty list gives no pod. The outcome of `tryLock` on a pod is an argument.
-/

namespace Remon.Vmm
open Function Lib Fault List

structure LruState where
  lruList : IterList ℕ
  lruIter : ℕ → ℕ
  lruIterIsValid : ℕ → Bool
  lruLock : Bool

namespace LruState

def new (lruIter : ℕ → ℕ) : LruState := ⟨.empty, lruIter, fun _ => false, false⟩

variable (s : LruState)

/-- The pods of the list, from the most to the least recently used. -/
def pods : List ℕ := s.lruList.values

def held : LruState := { s with lruLock := true }

def lock : Except Fault LruState := if s.lruLock then throw .deadlock else return s.held

def unlock : LruState := { s with lruLock := false }

def eraseIter (p : ℕ) : Except Fault LruState :=
  match s.lruList.erase (s.lruIter p) with
  | none => throw .undefined
  | some l => return { s with lruList := l }

def insertFront (p : ℕ) : LruState :=
  { s with
    lruList := s.lruList.pushFront p
    lruIter := update s.lruIter p s.lruList.fresh }

def insertBack (p : ℕ) : LruState :=
  { s with
    lruList := s.lruList.pushBack p
    lruIter := update s.lruIter p s.lruList.fresh }

def setValid (p : ℕ) (b : Bool) : LruState :=
  { s with lruIterIsValid := update s.lruIterIsValid p b }

def updateLRUList (poi : Option ℕ) : Except Fault (ℤ × LruState) := do
  match poi with
  | none => return (0, s)
  | some p =>
    let s ← s.lock
    if s.pods.head? = some p then
      return (0, s.unlock)
    if s.lruIterIsValid p = false then
      return (1, ((s.insertFront p).setValid p true).unlock)
    else
      let s ← s.eraseIter p
      return (1, (s.insertFront p).unlock)

def tailPodInLRUList (poi : Option ℕ) : Except Fault (ℤ × LruState) := do
  match poi with
  | none => return (0, s)
  | some p =>
    let s ← s.lock
    if s.pods.getLast? = some p then
      return (0, s.unlock)
    if s.lruIterIsValid p = false then
      return (1, ((s.insertBack p).setValid p true).unlock)
    else
      let s ← s.eraseIter p
      return (1, (s.insertBack p).unlock)

/-- The pod at the back, if it can be locked; it stays locked. -/
def getFromLRUList (tryLock : ℕ → Bool) : Except Fault (Option ℕ × LruState) := do
  let s ← s.lock
  match s.pods.getLast? with
  | none => return (none, s.unlock)
  | some result =>
    if tryLock result then
      let s := s.setValid result false
      return (some result, { s with lruList := s.lruList.popBack }.unlock)
    else
      return (none, s.unlock)

/-- One if the pod was removed; it stays locked. Zero if the pod could not be locked. -/
def removePodFromLRU (tryLock : ℕ → Bool) (p : ℕ) : Except Fault (ℤ × LruState) := do
  let s ← s.lock
  if s.pods = [] then
    return (-1, s.unlock)
  if tryLock p then
    if s.lruIterIsValid p = false then
      -- LRULock is not released here
      return (-1, s)
    let s ← s.eraseIter p
    return (1, (s.setValid p false).unlock)
  else
    return (0, s.unlock)

/-! ## The representation -/

/-- No pod is listed twice, the flags tell which pods are listed, and the iterator of a listed
pod designates its node. -/
structure Represents (s : LruState) : Prop where
  nodup : s.pods.Nodup
  valid : ∀ p, s.lruIterIsValid p = true ↔ p ∈ s.pods
  iter : ∀ p, p ∈ s.pods → s.lruList.At (s.lruIter p) p

variable {s} {p : ℕ}

theorem represents_new (lruIter : ℕ → ℕ) : (new lruIter).Represents := by
  refine ⟨nodup_nil, ?_, ?_⟩ <;> simp [new, pods]

theorem Represents.at_iff (h : s.Represents) (hp : p ∈ s.pods) (it : ℕ) :
    s.lruList.At it p ↔ it = s.lruIter p := by
  constructor
  · intro hit
    have := inj_on_of_nodup_map h.nodup hit (h.iter p hp) rfl
    exact congrArg Prod.fst this
  · rintro rfl
    exact h.iter p hp

theorem Represents.invalid (h : s.Represents) (hp : p ∉ s.pods) : s.lruIterIsValid p = false := by
  rw [← Bool.not_eq_true, h.valid]
  exact hp

/-- The lock is no part of the representation. -/
theorem Represents.held (h : s.Represents) : s.held.Represents := ⟨h.nodup, h.valid, h.iter⟩

theorem Represents.unlock (h : s.Represents) : s.unlock.Represents := ⟨h.nodup, h.valid, h.iter⟩

theorem lock_of_free (h : s.lruLock = false) : s.lock = .ok s.held := by
  simp [lock, h]

theorem lock_of_held (h : s.lruLock = true) : s.lock = .error .deadlock := by
  simp [lock, h]

def unlinked (s : LruState) (p : ℕ) : LruState :=
  { s with lruList := s.lruList.without (s.lruIter p) }

theorem eraseIter_eq (h : s.Represents) (hp : p ∈ s.pods) : s.eraseIter p = .ok (s.unlinked p) := by
  rw [eraseIter, IterList.erase_of_at (h.iter p hp)]
  rfl

theorem pods_unlinked (h : s.Represents) (hp : p ∈ s.pods) :
    (s.unlinked p).pods = s.pods.erase p :=
  IterList.values_without (h.iter p hp) h.nodup

/-- The pod `p` is not listed and its flag says nothing; the others are represented. -/
structure Missing (s : LruState) (p : ℕ) : Prop where
  nodup : s.pods.Nodup
  absent : p ∉ s.pods
  valid : ∀ q, q ≠ p → (s.lruIterIsValid q = true ↔ q ∈ s.pods)
  iter : ∀ q, q ∈ s.pods → s.lruList.At (s.lruIter q) q

theorem Represents.missing (h : s.Represents) (hp : p ∉ s.pods) : s.Missing p :=
  ⟨h.nodup, hp, fun q _ => h.valid q, h.iter⟩

theorem Represents.missing_unlinked (h : s.Represents) (hp : p ∈ s.pods) :
    (s.unlinked p).Missing p := by
  refine ⟨?_, ?_, ?_, ?_⟩
  · rw [pods_unlinked h hp]
    exact h.nodup.erase p
  · rw [pods_unlinked h hp]
    exact h.nodup.not_mem_erase
  · intro q hq
    rw [pods_unlinked h hp, mem_erase_of_ne hq]
    exact h.valid q
  · intro q hq
    rw [pods_unlinked h hp, h.nodup.mem_erase_iff] at hq
    refine IterList.at_without.mpr ⟨?_, h.iter q hq.2⟩
    intro (he : s.lruIter q = s.lruIter p)
    have hat := h.iter q hq.2
    rw [he] at hat
    exact hq.1 (hat.unique (h.iter p hp))

theorem Missing.represents {t : LruState} (h : s.Missing p) (hn : t.pods.Nodup)
    (hm : ∀ q, q ∈ t.pods ↔ q = p ∨ q ∈ s.pods)
    (hv : t.lruIterIsValid = update s.lruIterIsValid p true)
    (hi : ∀ q, q ≠ p → t.lruIter q = s.lruIter q) (hp : t.lruList.At (t.lruIter p) p)
    (hat : ∀ it q, s.lruList.At it q → t.lruList.At it q) : t.Represents := by
  refine ⟨hn, ?_, ?_⟩
  · intro q
    rw [hv, hm]
    by_cases hq : q = p
    · simp [hq]
    · rw [update_of_ne hq, h.valid q hq]
      simp [hq]
  · intro q hq
    by_cases he : q = p
    · rw [he]
      exact hp
    · rw [hi q he]
      exact hat _ _ (h.iter q (((hm q).mp hq).resolve_left he))

theorem Missing.insertFront (h : s.Missing p) : ((s.insertFront p).setValid p true).Represents := by
  apply h.represents
  · exact nodup_cons.mpr ⟨h.absent, h.nodup⟩
  · exact fun q => mem_cons
  · rfl
  · exact fun q hq => update_of_ne hq _ _
  · refine IterList.at_pushFront.mpr (.inl ⟨?_, rfl⟩)
    exact update_self p s.lruList.fresh s.lruIter
  · exact fun it q hq => IterList.at_pushFront.mpr (.inr hq)

theorem Missing.insertBack (h : s.Missing p) : ((s.insertBack p).setValid p true).Represents := by
  have hpods : ((s.insertBack p).setValid p true).pods = s.pods ++ [p] :=
    IterList.values_pushBack p
  apply h.represents
  · rw [hpods, nodup_append]
    refine ⟨h.nodup, nodup_singleton p, ?_⟩
    intro q hq r hr he
    rw [he, mem_singleton.mp hr] at hq
    exact h.absent hq
  · intro q
    rw [hpods, mem_append, mem_singleton, or_comm]
  · rfl
  · exact fun q hq => update_of_ne hq _ _
  · refine IterList.at_pushBack.mpr (.inl ⟨?_, rfl⟩)
    exact update_self p s.lruList.fresh s.lruIter
  · exact fun it q hq => IterList.at_pushBack.mpr (.inr hq)

theorem setValid_self {b : Bool} (h : s.lruIterIsValid p = b) : s.setValid p b = s := by
  rw [setValid, ← h, update_eq_self]

/-- A pod that is unlisted and whose flag is cleared is represented as such. -/
theorem Missing.cleared (h : s.Missing p) : (s.setValid p false).Represents := by
  refine ⟨h.nodup, ?_, h.iter⟩
  intro q
  change update s.lruIterIsValid p false q = true ↔ q ∈ s.pods
  by_cases hq : q = p
  · simpa [hq] using h.absent
  · rw [update_of_ne hq]
    exact h.valid q hq

/-! ## The operations -/

theorem cons_erase_of_head {l : List ℕ} (h : l.head? = some p) : p :: l.erase p = l := by
  cases l with
  | nil => simp at h
  | cons q l =>
    rw [List.head?_cons, Option.some.injEq] at h
    rw [h, erase_cons_head]

theorem erase_append_of_getLast {l : List ℕ} (hn : l.Nodup) (h : l.getLast? = some p) :
    l.erase p ++ [p] = l := by
  obtain ⟨m, rfl⟩ := List.getLast?_eq_some_iff.mp h
  have hp : p ∉ m := by
    intro hm
    exact (nodup_append.mp hn).2.2 p hm p (mem_singleton_self p) rfl
  rw [erase_append_right _ hp, erase_cons_head, append_nil]

/-- The pod becomes the first one and the others keep their order. -/
theorem updateLRUList_ok (h : s.Represents) (hl : s.lruLock = false) (p : ℕ) :
    ∃ r t, s.updateLRUList (some p) = .ok (r, t) ∧ t.Represents ∧ t.lruLock = false ∧
      t.pods = p :: s.pods.erase p := by
  simp only [updateLRUList, lock_of_free hl, ok_bind]
  by_cases hf : s.held.pods.head? = some p
  · rw [if_pos hf]
    exact ⟨_, _, rfl, h.held.unlock, rfl, (cons_erase_of_head hf).symm⟩
  rw [if_neg hf]
  by_cases hp : p ∈ s.pods
  · have hv := (h.valid p).mpr hp
    have hm := (h.held.missing_unlinked hp).insertFront
    rw [setValid_self (by exact hv)] at hm
    rw [if_neg (by simp [held, hv]), eraseIter_eq h.held hp, ok_bind]
    refine ⟨_, _, rfl, hm.unlock, rfl, ?_⟩
    exact congrArg (p :: ·) (pods_unlinked h.held hp)
  · rw [if_pos (h.held.invalid hp), erase_of_not_mem hp]
    exact ⟨_, _, rfl, (h.held.missing hp).insertFront.unlock, rfl, rfl⟩

theorem tailPodInLRUList_ok (h : s.Represents) (hl : s.lruLock = false) (p : ℕ) :
    ∃ r t, s.tailPodInLRUList (some p) = .ok (r, t) ∧ t.Represents ∧ t.lruLock = false ∧
      t.pods = s.pods.erase p ++ [p] := by
  simp only [tailPodInLRUList, lock_of_free hl, ok_bind]
  by_cases hf : s.held.pods.getLast? = some p
  · rw [if_pos hf]
    exact ⟨_, _, rfl, h.held.unlock, rfl, (erase_append_of_getLast h.nodup hf).symm⟩
  rw [if_neg hf]
  by_cases hp : p ∈ s.pods
  · have hv := (h.valid p).mpr hp
    have hm := (h.held.missing_unlinked hp).insertBack
    rw [setValid_self (by exact hv)] at hm
    rw [if_neg (by simp [held, hv]), eraseIter_eq h.held hp, ok_bind]
    refine ⟨_, _, rfl, hm.unlock, rfl, ?_⟩
    exact (IterList.values_pushBack p).trans (congrArg (· ++ [p]) (pods_unlinked h.held hp))
  · rw [if_pos (h.held.invalid hp), erase_of_not_mem hp]
    exact ⟨_, _, rfl, (h.held.missing hp).insertBack.unlock, rfl, IterList.values_pushBack p⟩

/-- The pod at the back, taken out of the list. -/
theorem Represents.missing_popBack (h : s.Represents) (hb : s.pods.getLast? = some p) :
    ({ s with lruList := s.lruList.popBack } : LruState).Missing p ∧
      s.pods = s.lruList.popBack.values ++ [p] := by
  obtain ⟨m, hm⟩ := List.getLast?_eq_some_iff.mp hb
  have hpods : s.lruList.popBack.values = m := by
    rw [IterList.values_popBack]
    change s.pods.dropLast = m
    rw [hm, dropLast_concat]
  have hn := h.nodup
  rw [hm, nodup_append] at hn
  have hp : p ∉ m := fun hpm => hn.2.2 p hpm p (mem_singleton_self p) rfl
  refine ⟨⟨?_, ?_, ?_, ?_⟩, by rw [hpods, hm]⟩
  · change s.lruList.popBack.values.Nodup
    rw [hpods]
    exact hn.1
  · change p ∉ s.lruList.popBack.values
    rw [hpods]
    exact hp
  · intro q hq
    change _ ↔ q ∈ s.lruList.popBack.values
    rw [hpods, h.valid q, hm, mem_append, mem_singleton]
    simp [hq]
  · intro q hq
    change q ∈ s.lruList.popBack.values at hq
    rw [hpods] at hq
    have hmem : q ∈ s.pods := hm ▸ mem_append_left _ hq
    exact (h.iter q hmem).popBack hb (fun he => hp (he ▸ hq))

/-- The pod that is returned was the last one; nothing else is removed. -/
theorem getFromLRUList_ok (h : s.Represents) (hl : s.lruLock = false) (tryLock : ℕ → Bool) :
    ∃ r t, s.getFromLRUList tryLock = .ok (r, t) ∧ t.Represents ∧ t.lruLock = false ∧
      s.pods = t.pods ++ r.toList ∧ ∀ p, r = some p → tryLock p = true := by
  simp only [getFromLRUList, lock_of_free hl, ok_bind]
  cases hb : s.held.pods.getLast? with
  | none => exact ⟨_, _, rfl, h.held.unlock, rfl, (append_nil _).symm, by simp⟩
  | some p =>
    by_cases ht : tryLock p = true
    · obtain ⟨hm, hpods⟩ := h.held.missing_popBack hb
      simp only [if_pos ht]
      exact ⟨_, _, rfl, hm.cleared.unlock, rfl, hpods, by simp [ht]⟩
    · simp only [if_neg ht]
      exact ⟨_, _, rfl, h.held.unlock, rfl, (append_nil _).symm, by simp⟩

theorem removePodFromLRU_ok (h : s.Represents) (hl : s.lruLock = false) (tryLock : ℕ → Bool)
    (p : ℕ) : ∃ r t, s.removePodFromLRU tryLock p = .ok (r, t) ∧ t.Represents ∧
      (r = 1 → p ∈ s.pods ∧ t.pods = s.pods.erase p ∧ tryLock p = true) ∧
      (r ≠ 1 → t.pods = s.pods) ∧
      (t.lruLock = true ↔ s.pods ≠ [] ∧ tryLock p = true ∧ p ∉ s.pods) := by
  simp only [removePodFromLRU, lock_of_free hl, ok_bind]
  by_cases he : s.pods = []
  · rw [if_pos (show s.held.pods = [] from he)]
    exact ⟨_, _, rfl, h.held.unlock, by simp, fun _ => rfl, by simp [unlock, he]⟩
  rw [if_neg (show ¬ s.held.pods = [] from he)]
  by_cases ht : tryLock p = true
  · rw [if_pos ht]
    by_cases hp : p ∈ s.pods
    · have hv := (h.valid p).mpr hp
      rw [if_neg (by simp [held, hv]), eraseIter_eq h.held hp, ok_bind]
      refine ⟨_, _, rfl, (h.held.missing_unlinked hp).cleared.unlock, ?_, by simp, ?_⟩
      · exact fun _ => ⟨hp, pods_unlinked h.held hp, ht⟩
      · simp [unlock, hp]
    · rw [if_pos (h.held.invalid hp)]
      exact ⟨_, _, rfl, h.held, by simp, fun _ => rfl, by simp [LruState.held, he, ht, hp]⟩
  · rw [if_neg ht]
    exact ⟨_, _, rfl, h.held.unlock, by simp, fun _ => rfl, by simp [unlock, ht]⟩

/-! ## Runs -/

inductive Call
  | updateLRUList (poi : Option ℕ)
  | tailPodInLRUList (poi : Option ℕ)
  | getFromLRUList (tryLock : ℕ → Bool)
  | removePodFromLRU (tryLock : ℕ → Bool) (p : ℕ)

/-- The state that a call leaves. -/
def step (s : LruState) : Call → Except Fault LruState
  | .updateLRUList poi => Prod.snd <$> s.updateLRUList poi
  | .tailPodInLRUList poi => Prod.snd <$> s.tailPodInLRUList poi
  | .getFromLRUList tryLock => Prod.snd <$> s.getFromLRUList tryLock
  | .removePodFromLRU tryLock p => Prod.snd <$> s.removePodFromLRU tryLock p

inductive Run (ok : LruState → Call → Prop) : LruState → Prop
  | init (lruIter : ℕ → ℕ) : Run ok (new lruIter)
  | step {s t : LruState} (hs : Run ok s) (call : Call) (hok : ok s call)
      (run : s.step call = .ok t) : Run ok t

/-- A pod that is to be removed is listed, or the list is empty, or the pod cannot be locked. -/
def Releases (s : LruState) : Call → Prop
  | .removePodFromLRU tryLock p => p ∈ s.pods ∨ s.pods = [] ∨ tryLock p = false
  | _ => True

/-- What a call is to do: it returns, moves or removes the pod that it is about, and keeps the order
of the others. -/
def Does (s : LruState) : Call → Prop
  | .updateLRUList none => s.updateLRUList none = .ok (0, s)
  | .updateLRUList (some p) =>
    ∃ r t, s.updateLRUList (some p) = .ok (r, t) ∧ t.pods = p :: s.pods.erase p
  | .tailPodInLRUList none => s.tailPodInLRUList none = .ok (0, s)
  | .tailPodInLRUList (some p) =>
    ∃ r t, s.tailPodInLRUList (some p) = .ok (r, t) ∧ t.pods = s.pods.erase p ++ [p]
  | .getFromLRUList tryLock =>
    ∃ r t, s.getFromLRUList tryLock = .ok (r, t) ∧ s.pods = t.pods ++ r.toList
  | .removePodFromLRU tryLock p => ∃ r t, s.removePodFromLRU tryLock p = .ok (r, t) ∧
    (r = 1 → p ∈ s.pods ∧ t.pods = s.pods.erase p) ∧ (r ≠ 1 → t.pods = s.pods)

/-- Every operation on a pod waits for the lock. -/
theorem deadlock_of_held (hl : s.lruLock = true) (tryLock : ℕ → Bool) (p : ℕ) :
    s.updateLRUList (some p) = .error .deadlock ∧ s.tailPodInLRUList (some p) = .error .deadlock ∧
      s.getFromLRUList tryLock = .error .deadlock ∧
      s.removePodFromLRU tryLock p = .error .deadlock := by
  simp [updateLRUList, tailPodInLRUList, getFromLRUList, removePodFromLRU, lock_of_held hl]

/-- A call that finds the lock free does what it is to do, and leaves the lock free exactly if it
is not the removal of a pod that is missing in a list of others. -/
theorem Represents.step (h : s.Represents) (hl : s.lruLock = false) (call : Call) :
    s.Does call ∧ ∃ t, s.step call = .ok t ∧ t.Represents ∧
      (t.lruLock = false ↔ s.Releases call) := by
  cases call with
  | updateLRUList poi =>
    cases poi with
    | none => exact ⟨rfl, s, rfl, h, iff_of_true hl trivial⟩
    | some p =>
      obtain ⟨r, t, hrun, hrep, hfree, hpods⟩ := updateLRUList_ok h hl p
      exact ⟨⟨r, t, hrun, hpods⟩, t, by rw [LruState.step, hrun]; rfl, hrep,
        iff_of_true hfree trivial⟩
  | tailPodInLRUList poi =>
    cases poi with
    | none => exact ⟨rfl, s, rfl, h, iff_of_true hl trivial⟩
    | some p =>
      obtain ⟨r, t, hrun, hrep, hfree, hpods⟩ := tailPodInLRUList_ok h hl p
      exact ⟨⟨r, t, hrun, hpods⟩, t, by rw [LruState.step, hrun]; rfl, hrep,
        iff_of_true hfree trivial⟩
  | getFromLRUList tryLock =>
    obtain ⟨r, t, hrun, hrep, hfree, hpods, -⟩ := getFromLRUList_ok h hl tryLock
    exact ⟨⟨r, t, hrun, hpods⟩, t, by rw [LruState.step, hrun]; rfl, hrep,
      iff_of_true hfree trivial⟩
  | removePodFromLRU tryLock p =>
    obtain ⟨r, t, hrun, hrep, hone, hrest, hlock⟩ := removePodFromLRU_ok h hl tryLock p
    refine ⟨⟨r, t, hrun, fun hr => ⟨(hone hr).1, (hone hr).2.1⟩, hrest⟩, t,
      by rw [LruState.step, hrun]; rfl, hrep, ?_⟩
    rw [← Bool.not_eq_true, hlock, Releases, ← Bool.not_eq_true]
    tauto

theorem represents_step {t : LruState} {call : Call} (h : s.Represents)
    (run : s.step call = .ok t) : t.Represents := by
  cases hl : s.lruLock with
  | false =>
    obtain ⟨-, t', hrun, hrep, -⟩ := h.step hl call
    cases hrun.symm.trans run
    exact hrep
  | true =>
    have hd := deadlock_of_held hl
    cases call with
    | updateLRUList poi =>
      cases poi with
      | none =>
        cases run
        exact h
      | some p => simp [LruState.step, (hd (fun _ => true) p).1] at run
    | tailPodInLRUList poi =>
      cases poi with
      | none =>
        cases run
        exact h
      | some p => simp [LruState.step, (hd (fun _ => true) p).2.1] at run
    | getFromLRUList tryLock => simp [LruState.step, (hd tryLock 0).2.2.1] at run
    | removePodFromLRU tryLock p => simp [LruState.step, (hd tryLock p).2.2.2] at run

theorem Run.represents {ok : LruState → Call → Prop} (hs : Run ok s) : s.Represents := by
  induction hs with
  | init lruIter => exact represents_new lruIter
  | step _ _ _ run ih => exact represents_step ih run

theorem Run.free (hs : Run Releases s) : s.lruLock = false := by
  induction hs with
  | init lruIter => rfl
  | step hs call hok run ih =>
    obtain ⟨-, t, hrun, -, hlock⟩ := hs.represents.step ih call
    cases hrun.symm.trans run
    exact hlock.mpr hok

/-- In every run whose removals are of listed pods, find the list empty or cannot lock the pod, no
pod is listed twice, the flags tell which pods are listed, the iterator of a listed pod designates
its one node, the lock is free and every call does what it is to do. A further call leaves the lock
free exactly if it is again such a call. -/
theorem lru_list_representation (hs : Run Releases s) :
    s.pods.Nodup ∧ (∀ p, p ∈ s.pods ↔ s.lruIterIsValid p = true) ∧
    (∀ p, s.lruIterIsValid p = true → ∀ it, s.lruList.At it p ↔ it = s.lruIter p) ∧
    s.lruLock = false ∧ ∀ call, s.Does call ∧
      ∃ t, s.step call = .ok t ∧ (t.lruLock = false ↔ s.Releases call) := by
  have h := hs.represents
  refine ⟨h.nodup, fun p => (h.valid p).symm, fun p hp => h.at_iff ((h.valid p).mp hp), hs.free, ?_⟩
  intro call
  obtain ⟨hdoes, t, hrun, -, hlock⟩ := h.step hs.free call
  exact ⟨hdoes, t, hrun, hlock⟩

def sampleLru : LruState :=
  ((((new fun _ => 7).insertFront 0).setValid 0 true).insertFront 1).setValid 1 true

theorem sampleLru_run : Run Releases sampleLru :=
  .step (.step (.init fun _ => 7) (.updateLRUList (some 0)) trivial rfl)
    (.updateLRUList (some 1)) trivial rfl

theorem lru_list_representation_sample : Run Releases sampleLru ∧ sampleLru.pods = [1, 0] ∧
    ∃ r t, sampleLru.updateLRUList (some 0) = .ok (r, t) ∧ t.pods = [0, 1] :=
  ⟨sampleLru_run, rfl,
    ((lru_list_representation sampleLru_run).2.2.2.2 (.updateLRUList (some 0))).1⟩

/-- The removal of pod 2, which is not listed, leaves the lock held, and no call for a pod returns
after it. -/
theorem unlisted_removal_holds_lock :
    ∃ t, sampleLru.removePodFromLRU (fun _ => true) 2 = .ok (-1, t) ∧
      Run (fun _ _ => True) t ∧ t.lruLock = true ∧
      ∀ p tryLock, ¬ t.Does (.updateLRUList (some p)) ∧ ¬ t.Does (.tailPodInLRUList (some p)) ∧
        ¬ t.Does (.getFromLRUList tryLock) ∧ ¬ t.Does (.removePodFromLRU tryLock p) := by
  have hsample : Run (fun _ _ => True) sampleLru :=
    .step (.step (.init fun _ => 7) (.updateLRUList (some 0)) trivial rfl)
      (.updateLRUList (some 1)) trivial rfl
  refine ⟨sampleLru.held, rfl, hsample.step (.removePodFromLRU (fun _ => true) 2) trivial
    rfl, rfl, ?_⟩
  intro p tryLock
  obtain ⟨h1, h2, h3, h4⟩ := deadlock_of_held (s := sampleLru.held) rfl tryLock p
  simp [Does, h1, h2, h3, h4]

end LruState

end Remon.Vmm
