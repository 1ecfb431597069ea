import Remon.Lib.LockLogic
import Remon.Vmm.EntryPoints

/-! # Transitions are made under the mutex of the pod

Each entry point and each round of a loop starts and ends without a mutex and changes a pod only
while it holds its mutex, as long as it comes to none of four places: the two loops over a range
that take no mutex, a forced swap that goes on without the mutex it tried to take, and a free
that gives the mutex away because the buffer is full.
-/

namespace Remon.Vmm.Entry
open Lib LockProg

/-! ## What belongs to a mutex -/

variable {i : ℕ}

theorem within_pod {f : Data → Data} (hstate : ∀ d j, j ≠ i → (f d).state j = d.state j)
    (hbuffer : ∀ d j, j ≠ i → (f d).freeBuffer j = d.freeBuffer j)
    (hlru : ∀ d, (f d).lruList = d.lruList ∧ (f d).lruIterIsValid = d.lruIterIsValid) :
    Within guards (.pod i) f := by
  intro d k hk
  cases k with
  | pod j =>
    have hj : j ≠ i := fun h => hk (congrArg Mutex.pod h)
    exact Prod.ext (hstate d j hj).symm (hbuffer d j hj).symm
  | lru => exact Prod.ext (hlru d).1.symm (hlru d).2.symm

theorem within_id (l : Mutex) : Within guards l id := fun d k _ => (guards k).refl d

theorem within_apply (tr : Transition) : Within guards (.pod i) (tr.apply i) :=
  within_pod (fun _ _ hj => Function.update_of_ne hj _ _)
    (fun _ _ hj => Function.update_of_ne hj _ _) fun _ => ⟨rfl, rfl⟩

theorem within_setBuffer (g : List ℕ → List ℕ) : Within guards (.pod i) (Data.setBuffer i g) :=
  within_pod (fun _ _ _ => rfl) (fun _ _ hj => Function.update_of_ne hj _ _) fun _ => ⟨rfl, rfl⟩

theorem within_lru {f : Data → Data} (hstate : ∀ d, (f d).state = d.state)
    (hbuffer : ∀ d, (f d).freeBuffer = d.freeBuffer) : Within guards .lru f := by
  intro d k hk
  cases k with
  | pod j => exact Prod.ext (congrFun (hstate d) j).symm (congrFun (hbuffer d) j).symm
  | lru => exact absurd rfl hk

/-! ## Calls that keep the mutexes they are made with -/

section Calls

/-- `LRULock` is taken after the mutexes of the pods. -/
def rank : Mutex → ℕ
  | .pod _ => 0
  | .lru => 1

/-- A mutex is waited for in the order of the ranks, and tried by who does not have it. -/
def rules (ok : Place → Prop) : Discipline Mutex Data Place where
  guards := guards
  waits H l := ∀ k ∈ H, rank k < rank l
  tries H l := l ∉ H
  ok := ok

variable {ok : Place → Prop} {H : Set Mutex}

def Keeps {α : Type} (ok : Place → Prop) (H : Set Mutex) (p : Op α) : Prop :=
  Takes (rules ok) H p fun _ => H

theorem keeps_pure {α : Type} (a : α) : Keeps ok H (pure a) := .pure rfl

theorem Keeps.bind {α β : Type} {x : Op α} {f : α → Op β} (hx : Keeps ok H x)
    (hf : ∀ a, Keeps ok H (f a)) : Keeps ok H (x >>= f) :=
  Takes.bind hx hf

theorem keeps_getState : Keeps ok H (getState i) := .get

theorem keeps_ask : Keeps ok H (ask i) := .any

theorem none_held (l : Mutex) : l ∉ (∅ : Set Mutex) := Set.notMem_empty l

theorem waits_lru (h : .lru ∉ H) : (rules ok).waits H .lru := by
  intro k hk
  cases k with
  | pod i => exact Nat.zero_lt_one
  | lru => exact absurd hk h

abbrev Only (i : ℕ) : Set Mutex := insert (.pod i) ∅

theorem takes_lock : Takes (rules ok) ∅ (lock i) fun _ => Only i :=
  .acquire fun k hk => absurd hk (none_held k)

theorem takes_unlock (h : .pod i ∉ H) :
    Takes (rules ok) (insert (.pod i) H) (unlock i) fun _ => H := .release h

theorem takes_tryLock (h : .pod i ∉ H) :
    Takes (rules ok) H (tryLock i) fun b => if b then insert (.pod i) H else H := .attempt h

theorem keeps_transition (tr : Transition) (h : .pod i ∈ H) : Keeps ok H (transition tr i) :=
  .change h (within_apply tr)

theorem keeps_editHeap (h : .pod i ∈ H) : Keeps ok H (editHeap i) := .change h (within_id _)

theorem keeps_podMalloc (h : .pod i ∈ H) : Keeps ok H (podMalloc i) := by
  apply keeps_getState.bind
  intro state
  split
  · exact keeps_pure _
  · exact (keeps_editHeap h).bind fun _ => keeps_ask

theorem keeps_flushFreeBuffer (h : .pod i ∈ H) : Keeps ok H (flushFreeBuffer i) := by
  apply Keeps.bind .get
  intro buffer
  split
  · exact keeps_pure _
  · exact .change h (within_setBuffer _)

theorem keeps_toInit (h : .pod i ∈ H) : Keeps ok H (toInit i) := by
  apply Keeps.bind (.change h (within_id _))
  intro _
  apply keeps_getState.bind
  intro state
  cases state
  case local_ | disk | remote => exact keeps_transition _ h
  all_goals exact keeps_pure _

theorem keeps_moveInLRUList {there : Data → Bool} {f : Data → Data} (hf : Within guards .lru f)
    (h : .lru ∉ H) : Keeps ok H (moveInLRUList there f) := by
  apply Takes.bind (.acquire (waits_lru h))
  intro _
  apply Takes.bind .get
  intro atPlace
  split
  · exact .bind (.release h) fun _ => .pure rfl
  · apply Takes.bind (.change (Set.mem_insert _ H) hf)
    exact fun _ => .bind (.release h) fun _ => .pure rfl

theorem keeps_updateLRUList (h : .lru ∉ H) : Keeps ok H (updateLRUList i) :=
  keeps_moveInLRUList (within_lru (fun _ => rfl) fun _ => rfl) h

theorem keeps_tailPodInLRUList (h : .lru ∉ H) : Keeps ok H (tailPodInLRUList i) :=
  keeps_moveInLRUList (within_lru (fun _ => rfl) fun _ => rfl) h

theorem keeps_bringIn (h : .pod i ∈ H) : Keeps ok H (bringIn i) := by
  apply keeps_getState.bind
  intro state
  cases state
  case local_ | localPinned => exact keeps_pure _
  case init => exact keeps_transition _ h
  all_goals exact (keeps_transition _ h).bind fun _ => keeps_transition _ h

theorem keeps_activatePod (h : .pod i ∈ H) (hlru : .lru ∉ H) : Keeps ok H (activatePod i) := by
  apply Keeps.bind (.change h (within_id _))
  intro _
  apply (keeps_bringIn h).bind
  exact fun _ => (keeps_updateLRUList hlru).bind fun _ => keeps_pure _

theorem keeps_prefetchPod (h : .pod i ∈ H) (hlru : .lru ∉ H) : Keeps ok H (prefetchPod i) := by
  apply keeps_getState.bind
  intro state
  cases state
  case disk | remote | init =>
    exact (keeps_transition _ h).bind fun _ => (keeps_updateLRUList hlru).bind fun _ => keeps_pure _
  all_goals exact keeps_pure _

theorem keeps_pin (h : .pod i ∈ H) : Keeps ok H (pin i) := by
  apply keeps_getState.bind
  intro state
  cases state
  case disk | remote => exact (keeps_transition _ h).bind fun _ => keeps_transition _ h
  case localPinned => exact keeps_pure _
  all_goals exact keeps_transition _ h

theorem keeps_spinning {α : Type} : Keeps ok H (spinning : Op α) :=
  Keeps.bind .any fun e => e.elim

/-! ## Sending a pod away

The state that was looked at under the mutex is still the same in `evictPod`, so `evictPod` does
not come to the branch that unlocks the pod. -/

theorem wp_getState {α : Type} {f : PodState → Op α} {Q : α → Set Mutex → Data → Prop} {d : Data}
    (h : .pod i ∈ H) (hf : wp (rules ok) (f (d.state i)) Q H d) :
    wp (rules ok) (getState i >>= f) Q H d := by
  intro d' hd
  have hsame : d.state i = d'.state i := congrArg Prod.fst (hd _ h)
  show wp (rules ok) (f (d'.state i)) Q H d'
  rw [← hsame]
  exact wp_rely hf hd

theorem wp_evictPod {d : Data} (h : .pod i ∈ H) (hd : d.state i = .local_) :
    wp (rules ok) (evictPod i) (fun _ H' _ => H' = H) H d := by
  apply wp_getState h
  rw [hd, if_neg (not_not_intro rfl)]
  have hsave : Keeps ok H (remoteSwap i) := by
    apply keeps_ask.bind
    intro saved
    split
    · exact (keeps_transition _ h).bind fun _ => keeps_pure _
    · exact keeps_pure _
  have hrest : ∀ saved : Bool, Keeps ok H (if saved then pure () else swapToDisk i) := by
    intro saved
    cases saved with
    | true => exact keeps_pure _
    | false => exact keeps_transition _ h
  exact hsave.bind hrest d

theorem wp_flushFreeBuffer {d : Data} {s : PodState} (h : .pod i ∈ H) (hd : d.state i = s) :
    wp (rules ok) (flushFreeBuffer i) (fun _ H' d => H' = H ∧ d.state i = s) H d := by
  have hsame : ∀ {d d'}, d.state i = s → Rely (rules ok) H d d' → d'.state i = s := by
    intro d d' hd hrely
    exact (congrArg Prod.fst (hrely _ h)).symm.trans hd
  apply wp_bind
  intro d₁ hd₁ d₂ hd₂
  have hd₂ : d₂.state i = s := hsame (hsame hd hd₁) hd₂
  show wp (rules ok) (ite _ _ _) _ H d₂
  split
  · exact fun d₃ hd₃ => ⟨rfl, hsame hd₂ hd₃⟩
  · refine ⟨h, h, fun d₃ hd₃ => ⟨within_setBuffer _ d₃, fun d₄ hd₄ => ⟨rfl, ?_⟩⟩⟩
    refine hsame ?_ hd₄
    show d₃.state i = s
    exact hsame hd₂ hd₃

theorem keeps_sendAway (h : .pod i ∈ H) (hlru : .lru ∉ H) : Keeps ok H (sendAway i) := by
  intro d
  apply wp_getState h
  cases hd : d.state i
  case local_ =>
    -- nothing between the first look and `evictPod` changes the state
    intro small
    cases small with
    | true =>
      intro reallyRemoved
      show wp (rules ok) (flushFreeBuffer i >>= _) _ H d
      apply wp_bind
      apply wp_mono (wp_flushFreeBuffer h hd)
      rintro _ _ d' ⟨rfl, hd'⟩
      intro empty
      cases empty with
      | true => exact keeps_transition _ h d'
      | false =>
        cases reallyRemoved with
        | true => exact wp_evictPod h hd'
        | false => exact (keeps_activatePod h hlru).bind (fun _ => keeps_pure _) d'
    | false =>
      intro free
      cases free with
      | true => exact keeps_transition _ h d
      | false => exact wp_evictPod h hd
  case diskCache | remoteCache => exact keeps_transition _ h d
  all_goals exact keeps_pure _ d

theorem keeps_swapOut (h : .pod i ∈ H) : Keeps ok H (swapOut i) := by
  intro d
  apply wp_getState h
  by_cases hd : d.state i = .local_
  · rw [if_pos hd]
    intro small
    cases small with
    | true => exact fun _ => wp_evictPod h hd
    | false => exact wp_evictPod h hd
  · rw [if_neg hd]
    exact keeps_pure _ d

/-! ## The entry points -/

theorem keeps_locked {α : Type} {body : Op α} (hbody : Keeps ok (Only i) body) :
    Keeps ok ∅ (locked i body) := by
  apply takes_lock.bind
  intro _
  apply Takes.bind hbody
  exact fun _ => (takes_unlock (none_held _)).bind fun _ => .pure rfl

theorem keeps_ifLocked {body : Op Unit} (h : .pod i ∉ H)
    (hbody : Keeps ok (insert (.pod i) H) body) : Keeps ok H (ifLocked i body) := by
  apply (takes_tryLock h).bind
  intro free
  cases free with
  | true => exact Takes.bind hbody fun _ => takes_unlock h
  | false => exact .pure rfl

theorem mem_only (i : ℕ) : Mutex.pod i ∈ Only i := Set.mem_insert _ _

theorem lru_notMem_only (i : ℕ) : Mutex.lru ∉ Only i := by simp

theorem takes_getFromLRUList :
    Takes (rules ok) ∅ getFromLRUList fun r => r.elim ∅ Only := by
  apply Takes.bind (.acquire (waits_lru (none_held _)))
  intro _
  apply Takes.bind .get
  intro back
  cases back with
  | none => exact .bind (.release (none_held _)) fun _ => .pure rfl
  | some result =>
    apply (takes_tryLock (by simp)).bind
    intro free
    cases free with
    | true =>
      -- both locks are held here; the one of the list goes first
      have hcomm : insert (Mutex.pod result) (insert Mutex.lru ∅) = insert .lru (Only result) :=
        Set.insert_comm _ _ _
      have hpop : Within guards .lru (Data.popBack result) :=
        within_lru (fun _ => rfl) fun _ => rfl
      simp only [if_true, hcomm]
      apply Takes.bind (.change (Set.mem_insert _ _) hpop)
      exact fun _ => .bind (.release (lru_notMem_only _)) fun _ => .pure rfl
    | false => exact .bind (.release (none_held _)) fun _ => .pure rfl

theorem wp_removePodFromLRU (d : Data) :
    wp (rules ok) (removePodFromLRU i)
      (fun ret H _ => ret < 0 ∧ (H = ∅ ∨ ok .invalidIter) ∨ ret = 0 ∧ H = ∅ ∨
        ret = 1 ∧ H = Only i) ∅ d := by
  have herase : Within guards .lru (Data.erase i) := within_lru (fun _ => rfl) fun _ => rfl
  have hfree : (insert Mutex.lru ∅ : Set Mutex) \ {Mutex.lru} = ∅ :=
    Set.insert_sdiff_self_of_notMem (none_held _)
  have honly : insert (Mutex.pod i) (insert Mutex.lru ∅) \ {Mutex.lru} = Only i := by
    rw [Set.insert_comm]
    exact Set.insert_sdiff_self_of_notMem (lru_notMem_only i)
  refine ⟨waits_lru (none_held _), fun _ _ d _ => ?_⟩
  show wp (rules ok) (ite _ _ _) _ _ _
  split
  · exact ⟨Set.mem_insert _ _, fun _ _ _ _ => .inl ⟨by decide, .inl hfree⟩⟩
  refine ⟨show Mutex.pod i ∉ _ by simp, fun _ _ => ⟨fun d _ => ?locked, ?busy⟩⟩
  case busy => exact ⟨Set.mem_insert _ _, fun _ _ _ _ => .inr (.inl ⟨rfl, hfree⟩)⟩
  show wp (rules ok) (ite _ _ _) _ _ _
  split
  · exact ⟨Set.mem_insert _ _, fun _ _ hok _ _ => .inl ⟨by decide, .inr hok⟩⟩
  · have hlru : Mutex.lru ∈ insert (Mutex.pod i) (insert Mutex.lru (∅ : Set Mutex)) :=
      Set.mem_insert_of_mem _ (Set.mem_insert _ _)
    exact ⟨hlru, hlru, fun d' _ => ⟨herase d', hlru, fun _ _ _ _ => .inr (.inr ⟨rfl, honly⟩)⟩⟩

theorem keeps_pickPodToEvict : Keeps ok ∅ pickPodToEvict := by
  apply takes_getFromLRUList.bind
  intro r
  cases r with
  | none => exact .pure rfl
  | some i =>
    apply Takes.bind (keeps_sendAway (mem_only i) (lru_notMem_only i))
    exact fun _ => takes_unlock (none_held _)

theorem keeps_remonPromotePod : Keeps ok ∅ (remonPromotePod i) := by
  apply takes_lock.bind
  intro _
  apply Takes.bind keeps_getState
  intro state
  split
  · apply Takes.bind (keeps_activatePod (mem_only i) (lru_notMem_only i))
    exact fun _ => (takes_unlock (none_held _)).bind fun _ => .pure rfl
  · apply Takes.bind (keeps_updateLRUList (lru_notMem_only i))
    exact fun _ => (takes_unlock (none_held _)).bind fun _ => .pure rfl

variable (R : Region) (addr : ℕ)

theorem keeps_remonDemote : Keeps ok ∅ (remonDemote R addr) := by
  apply takes_lock.bind
  intro _
  apply Takes.bind keeps_getState
  intro state
  split
  · exact (takes_unlock (none_held _)).bind fun _ => .pure rfl
  · apply Takes.bind (keeps_tailPodInLRUList (lru_notMem_only _))
    exact fun _ => (takes_unlock (none_held _)).bind fun _ => .pure rfl

theorem keeps_remonActivateSync : Keeps ok ∅ (remonActivateSync R addr) := by
  apply takes_lock.bind
  intro _
  apply Takes.bind keeps_getState
  intro state
  split
  · apply Takes.bind (keeps_updateLRUList (lru_notMem_only _))
    exact fun _ => (takes_unlock (none_held _)).bind fun _ => .pure rfl
  · apply Takes.bind (keeps_activatePod (mem_only _) (lru_notMem_only _))
    exact fun _ => (takes_unlock (none_held _)).bind fun _ => .pure rfl

theorem keeps_cleanup_evicted : Keeps ok ∅ (remon_cleanup_evicted R addr) := by
  apply keeps_locked
  apply keeps_getState.bind
  intro state
  split
  · exact keeps_toInit (mem_only _)
  · exact keeps_pure _

theorem keeps_activateAddress : Keeps ok ∅ (activateAddress R addr) := by
  apply keeps_getState.bind
  intro state
  split
  · exact keeps_pure _
  · apply keeps_locked
    exact (keeps_activatePod (mem_only _) (lru_notMem_only _)).bind fun _ => keeps_pure _

theorem keeps_remonDemoteRange (lo hi : ℕ) (exclude : Option ℕ) :
    Keeps ok ∅ (remonDemoteRange R lo hi exclude) := by
  unfold remonDemoteRange
  split
  · exact keeps_pure _
  · apply Takes.forM
    intro i _
    split
    · exact keeps_pure _
    · exact (keeps_remonDemote R _).bind fun _ => keeps_pure _

theorem keeps_prefetch (known : Bool) : Keeps ok ∅ (prefetch known) := by
  apply Keeps.bind .any
  intro taskCombo
  apply Takes.forM
  intro i _
  apply keeps_getState.bind
  intro state
  split
  · exact keeps_pure _
  · exact keeps_ifLocked (none_held _) (keeps_prefetchPod (mem_only i) (lru_notMem_only i))

theorem keeps_trimFreeBlock (pages : List ℕ) : Keeps ok ∅ (trimFreeBlock pages) := by
  apply Takes.forM
  intro i _
  apply keeps_ifLocked (none_held _)
  apply keeps_getState.bind
  intro state
  split
  · exact keeps_transition _ (mem_only i)
  · exact keeps_pure _

theorem keeps_trim : Keeps ok ∅ trim := by
  apply Keeps.bind .any
  intro pods
  apply Keeps.bind
  · apply Takes.forM
    intro i _
    apply keeps_ifLocked (none_held _)
    exact keeps_getState.bind fun _ => keeps_ask.bind fun _ => keeps_pure _
  intro _
  apply Keeps.bind .any
  intro toRemove
  apply Takes.forM
  intro i _
  apply keeps_ifLocked (none_held _)
  apply keeps_getState.bind
  intro state
  apply keeps_ask.bind
  intro empty
  split
  · exact keeps_transition _ (mem_only i)
  · exact keeps_pure _

theorem keeps_addPodToBuffer (pages : List ℕ) : Keeps ok ∅ (addPodToBuffer pages) := by
  induction pages with
  | nil => exact keeps_spinning
  | cons i rest ih =>
    apply (takes_tryLock (none_held _)).bind
    intro free
    cases free with
    | true => exact Takes.bind (keeps_pin (mem_only i)) fun _ => takes_unlock (none_held _)
    | false => exact ih

theorem keeps_previousPodLoop (tries count : ℕ) : Keeps ok ∅ (previousPodLoop i tries count) := by
  induction tries generalizing count with
  | zero => exact keeps_spinning
  | succ tries ih =>
    apply (takes_tryLock (none_held _)).bind
    intro free
    cases free with
    | false => exact ih _
    | true =>
      show Takes (rules ok) (Only i) _ _
      apply Takes.bind keeps_getState
      intro state
      have hinit : Keeps ok (Only i)
          (if state = .init then transition .initToLocal i else pure ()) := by
        split
        · exact keeps_transition _ (mem_only i)
        · exact keeps_pure _
      split
      · exact (takes_unlock (none_held _)).bind fun _ => .pure rfl
      · apply Takes.bind hinit
        intro _
        apply Takes.bind (keeps_podMalloc (mem_only i))
        exact fun _ => (takes_unlock (none_held _)).bind fun _ => .pure rfl

theorem keeps_clearLocalFreeBuffer (localFreeBuffer : List ℕ) :
    Keeps ok ∅ (clearLocalFreeBuffer localFreeBuffer) := by
  apply Takes.forM
  intro i _
  apply keeps_ifLocked (none_held _)
  apply keeps_getState.bind
  intro state
  apply Keeps.bind .get
  intro buffer
  split
  · exact keeps_flushFreeBuffer (mem_only i)
  · exact keeps_pure _

theorem keeps_allocateOfAList (listOfPods : List ℕ) : Keeps ok ∅ (allocateOfAList listOfPods) := by
  induction listOfPods with
  | nil => exact keeps_pure _
  | cons i rest ih =>
    apply (takes_tryLock (none_held _)).bind
    intro free
    cases free with
    | false => exact ih
    | true =>
      apply Takes.bind (keeps_podMalloc (mem_only i))
      intro found
      cases found with
      | true => exact (takes_unlock (none_held _)).bind fun _ => .pure rfl
      | false => exact (takes_unlock (none_held _)).bind fun _ => ih

theorem keeps_adjustPodList (i : ℕ) : Keeps ok ∅ (adjustPodList R i) := by
  apply Keeps.bind .any
  intro away
  split
  · exact keeps_activateAddress R _
  · exact keeps_pure _

theorem keeps_allocate : Keeps ok ∅ (allocate R) := by
  apply Keeps.bind .any
  intro last
  have hlast : Keeps ok ∅ (tryAllocateWithPreviousPod last) := by
    cases last with
    | none => exact keeps_pure _
    | some i => exact Keeps.bind .any fun tries => keeps_previousPodLoop tries 0
  apply hlast.bind
  intro found
  split
  · exact keeps_pure _
  · have hadjust : Keeps ok ∅ (last.forM (adjustPodList R)) := by
      cases last with
      | none => exact keeps_pure _
      | some i => exact keeps_adjustPodList R i
    apply hadjust.bind
    intro _
    apply Keeps.bind .any
    intro localFreeBuffer
    apply (keeps_clearLocalFreeBuffer localFreeBuffer).bind
    intro _
    apply Keeps.bind .any
    exact keeps_allocateOfAList

theorem takes_getBufferedPod : Takes (rules ok) ∅ getBufferedPod fun r => r.elim ∅ Only := by
  apply Takes.bind .any
  intro i
  apply takes_lock.bind
  intro _
  apply Takes.bind keeps_getState
  intro state
  split
  · exact Takes.bind (keeps_transition _ (mem_only i)) fun _ => .pure rfl
  · exact (takes_unlock (none_held _)).bind fun _ => .pure rfl

theorem keeps_hugeMalloc : Keeps ok ∅ hugeMalloc := by
  apply Keeps.bind .any
  intro pages
  apply Takes.forM
  intro i _
  apply keeps_locked
  apply keeps_getState.bind
  intro state
  split
  · apply (keeps_activatePod (mem_only i) (lru_notMem_only i)).bind
    exact fun _ => (keeps_updateLRUList (lru_notMem_only i)).bind fun _ => keeps_pure _
  · exact keeps_pure _

theorem keeps_remonMalloc (size : ℕ) : Keeps ok ∅ (remonMalloc R size) := by
  unfold remonMalloc
  split
  · exact keeps_hugeMalloc
  · apply Takes.bind (keeps_allocate R)
    intro r
    cases r with
    | some i =>
      apply keeps_locked
      exact (keeps_updateLRUList (lru_notMem_only i)).bind fun _ => keeps_pure _
    | none =>
      apply takes_getBufferedPod.bind
      intro r
      cases r with
      | none => exact .pure rfl
      | some i =>
        apply Takes.bind (keeps_editHeap (mem_only i))
        intro _
        have hadd : Keeps ok (Only i) (addPodAndAllocate i) :=
          (keeps_editHeap (mem_only i)).bind fun _ => keeps_podMalloc (mem_only i)
        apply Takes.bind hadd
        intro found
        split
        · apply Takes.bind (keeps_updateLRUList (lru_notMem_only i))
          exact fun _ => takes_unlock (none_held _)
        · exact takes_unlock (none_held _)

/-! ## The entry points that need a condition -/

def Place.Unlocked : Place → Prop
  | .bufferFull => True
  | .swapOut result => result = 0
  | .promoteRange => True
  | .forceUnmap => True
  | .invalidIter => False

/-- A run that does not come to these places. -/
def Avoids (p : Place) : Prop := ¬ p.Unlocked

variable {E : Set Mutex → Prop} (hok : ∀ p, ok p → Avoids p)

include hok

theorem keeps_free (h : .pod i ∈ H) : Keeps ok H (free i addr) := by
  have hadd : Keeps ok H (addToFreeBufferReturnIfFull i addr) := by
    apply Keeps.bind (.change h (within_setBuffer _))
    intro _
    apply Keeps.bind .get
    intro buffer
    split
    · exact .of_mark fun hp => hok _ hp trivial
    · exact keeps_pure _
  apply keeps_getState.bind
  intro state
  apply hadd.bind
  intro full
  split
  · exact keeps_pure _
  · split
    · exact (keeps_flushFreeBuffer h).bind fun _ => keeps_pure _
    · exact keeps_pure _

theorem keeps_remonFree : Keeps ok ∅ (remonFree R addr) := by
  unfold remonFree
  dsimp only
  split
  · apply Keeps.bind .any
    exact fun pages => .forM fun i _ => keeps_locked (keeps_pure _)
  · apply takes_lock.bind
    intro _
    apply Takes.bind (keeps_free _ hok (mem_only _))
    intro full
    split
    · apply Takes.bind (keeps_activatePod (mem_only _) (lru_notMem_only _))
      exact fun _ => takes_unlock (none_held _)
    · exact takes_unlock (none_held _)

theorem safe_remonForceSwap (hE : E ∅) (hleak : ok .invalidIter → ∀ H, E H) :
    Safe (rules ok) E (remonForceSwap R addr) := by
  intro d
  apply wp_bind
  apply wp_mono (wp_removePodFromLRU d)
  rintro ret H' d' (⟨hneg, hend⟩ | ⟨rfl, rfl⟩ | ⟨rfl, rfl⟩)
  · rw [if_pos hneg]
    exact fun _ _ => hend.elim (fun h => h ▸ hE) fun hp => hleak hp H'
  · exact fun hp => absurd (show (Place.swapOut 0).Unlocked from rfl) (hok _ hp)
  · intro _
    show wp (rules ok) (asyncSwapOutPod _ >>= _) _ _ d'
    have hswap : Takes (rules ok) (Only _) (asyncSwapOutPod (R.getResponsiblePod addr))
        fun _ => ∅ :=
      Takes.bind (keeps_swapOut (mem_only _)) fun _ => takes_unlock (none_held _)
    apply wp_bind
    apply wp_mono (hswap d')
    rintro _ _ _ rfl _ _
    exact hE

theorem keeps_remonPromoteRange (lo hi : ℕ) : Keeps ok ∅ (remonPromoteRange R lo hi) := by
  unfold remonPromoteRange
  split
  · exact keeps_pure _
  · exact .forM fun i _ => .of_mark fun hp => hok _ hp trivial

theorem keeps_remonForceUnmap (lo hi : ℕ) (exclude : Option ℕ) :
    Keeps ok ∅ (remonForceUnmap R lo hi exclude) := by
  unfold remonForceUnmap
  split
  · exact keeps_pure _
  · apply Takes.forM
    intro i _
    split
    · exact keeps_pure _
    · exact .of_mark fun hp => hok _ hp trivial

theorem safe_op (hE : E ∅) (hleak : ok .invalidIter → ∀ H, E H) (c : Call) :
    Safe (rules ok) E (c.op R) := by
  cases c with
  | remonMalloc size => exact (keeps_remonMalloc R size).safe hE
  | remonFree addr => exact (keeps_remonFree R addr hok).safe hE
  | fault addr => exact (keeps_activateAddress R addr).safe hE
  | remonPromote addr => exact (keeps_remonPromotePod.bind fun _ => keeps_pure _).safe hE
  | remonPromoteRange lo hi => exact (keeps_remonPromoteRange R hok lo hi).safe hE
  | remonDemote addr => exact ((keeps_remonDemote R addr).bind fun _ => keeps_pure _).safe hE
  | remonDemoteRange lo hi exclude => exact (keeps_remonDemoteRange R lo hi exclude).safe hE
  | remonForceSwap addr =>
    intro d
    apply wp_bind
    exact wp_mono (safe_remonForceSwap R addr hok hE hleak d) fun _ _ _ h _ _ => h
  | remonForceUnmap lo hi exclude => exact (keeps_remonForceUnmap R hok lo hi exclude).safe hE
  | remonActivateSync addr =>
    exact ((keeps_remonActivateSync R addr).bind fun _ => keeps_pure _).safe hE
  | remon_cleanup_evicted addr => exact (keeps_cleanup_evicted R addr).safe hE
  | evict => exact keeps_pickPodToEvict.safe hE
  | prefetch known => exact (keeps_prefetch known).safe hE
  | trim => exact keeps_trim.safe hE
  | trimFreeBlock pages => exact (keeps_trimFreeBlock pages).safe hE
  | addPodToBuffer pages => exact (keeps_addPodToBuffer pages).safe hE

end Calls

/-! ## Interleavings -/

/-- The operations of the manager. -/
def IsCall (R : Region) (p : Op Unit) : Prop := ∃ c : Call, p = c.op R

/-- In every interleaving of the entry points and the loops that does not come to a place without
the mutex, a change of a pod is begun and made under the mutex of the pod, and two changes of one
pod never overlap. -/
theorem transitions_under_mutex {T : Type} [DecidableEq T] {R : Region}
    {w₀ w : Threads T Mutex Data Change Place} (hstart : w₀.AtRest)
    (hrun : Threads.Run (IsCall R) Avoids w₀ w) :
    (∀ t i, w.Begins t (.pod i) ∨ w.Amid t (.pod i) → w.shared.owner (.pod i) = some t) ∧
      ∀ t u i, w.Amid t (.pod i) → w.Amid u (.pod i) → t = u := by
  have horderly : w.Orderly (rules Avoids) fun _ => True := by
    apply Threads.Run.orderly _ hrun (hstart.orderly trivial)
    rintro p ⟨c, rfl⟩
    exact safe_op R (fun _ => id) trivial (fun _ _ => trivial) c
  constructor
  · rintro t i (hb | ha)
    · exact horderly.owner_of_begins hb
    · exact horderly.owner_of_amid ha
  · exact fun t u i ht hu => horderly.eq_of_amid ht hu

/-- All pods are on disk; no operation is in progress. -/
def sampleStart : Threads Bool Mutex Data Change Place :=
  ⟨fun _ => .ret (), fun _ => none, fun _ => .disk, fun _ => [], [], fun _ => false⟩

theorem sampleStart_atRest : sampleStart.AtRest := ⟨fun _ => rfl, fun _ => rfl⟩

/-- A fault brings pod 0 in from disk. -/
theorem transitions_under_mutex_sample : ∃ w,
    Threads.Run (IsCall sampleRegion) Avoids sampleStart w ∧
      w.Amid true (.pod 0) ∧ w.shared.owner (.pod 0) = some true := by
  have h : Threads.Run (IsCall sampleRegion) Avoids sampleStart _ :=
    .next .refl (.start true rfl (fun _ => by simp [sampleStart]) ⟨.fault 4100, rfl⟩)
  have h := h.next (.step true .read trivial)
  have h := h.next (.step true (.lock rfl) trivial)
  have h := h.next (.step true .enter trivial)
  have h := h.next (.step true .leave trivial)
  have h := h.next (.step true .read trivial)
  have h := h.next (.step true .enter trivial)
  refine ⟨_, h, ⟨_, _, _, rfl⟩, ?_⟩
  exact (transitions_under_mutex sampleStart_atRest h).1 true 0 (.inr ⟨_, _, _, rfl⟩)

/-- The operation reads the page of pod 0 from disk. -/
def ReadsPage (w : Threads Bool Mutex Data Change Place) (t : Bool) : Prop :=
  ∃ f next, w.prog t = .leave (.pod 0) (.transition .diskToLocalPinned) f next

/-- `remonPromoteRange` activates pod 0 without its mutex while a fault does so with it: both read
the page from disk. -/
theorem transitions_overlap : ∃ w,
    Threads.Run (IsCall sampleRegion) (fun _ => True) sampleStart w ∧
      ReadsPage w true ∧ ReadsPage w false ∧ w.shared.owner (.pod 0) = some false := by
  have h : Threads.Run (IsCall sampleRegion) (fun _ => True) sampleStart _ :=
    .next .refl
      (.start true rfl (fun _ => by simp [sampleStart]) ⟨.remonPromoteRange 4100 4200, rfl⟩)
  have h := h.next (.start false rfl (fun _ => by simp [sampleStart]) ⟨.fault 4100, rfl⟩)
  -- the promotion passes its mark and is in the middle of the transition
  have h := h.next (.step true .pass trivial)
  have h := h.next (.step true .enter trivial)
  have h := h.next (.step true .leave trivial)
  have h := h.next (.step true .read trivial)
  have h := h.next (.step true .enter trivial)
  -- the fault takes the mutex, still finds the pod on disk, and begins the same transition
  have h := h.next (.step false .read trivial)
  have h := h.next (.step false (.lock rfl) trivial)
  have h := h.next (.step false .enter trivial)
  have h := h.next (.step false .leave trivial)
  have h := h.next (.step false .read trivial)
  have h := h.next (.step false .enter trivial)
  exact ⟨_, h, ⟨_, _, rfl⟩, ⟨_, _, rfl⟩, rfl⟩

end Remon.Vmm.Entry
