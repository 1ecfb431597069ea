import Remon.Vmm.EntryPoints

/-! # The locks of a free and of a forced swap

`remonFree` on a small block holds the mutex of the pod from the first change to the last, as
long as the free does not fill the buffer. `remonForceSwap` has the mutex of the pod when it
starts `asyncSwapOutPod`, which unlocks it once, if the list is empty or the pod is in it and
its mutex is free.
-/

namespace Remon.Vmm.Entry
open Lib LockProg List

variable {T : Type} [DecidableEq T] {t : T} {sh sh' : Shared T Mutex Data} {i addr : ℕ}
variable {R : Region} {log : List (Event Mutex Change Place)}

/-- Each change of pod `i` is made by an operation that holds its mutex. -/
def ChangesHeld (i : ℕ) (log : List (Event Mutex Change Place)) : Prop :=
  ∀ c b, .enter (.pod i) c b ∈ log ∨ .leave (.pod i) c b ∈ log → b = true

/-- For each unlock of pod `i`, whether the operation holds the mutex. -/
def unlocks (i : ℕ) (log : List (Event Mutex Change Place)) : List Bool :=
  log.filterMap fun e =>
    match e with
    | .unlock (.pod j) b => if j = i then some b else none
    | _ => none

theorem unlocks_append (log₁ log₂ : List (Event Mutex Change Place)) :
    unlocks i (log₁ ++ log₂) = unlocks i log₁ ++ unlocks i log₂ :=
  filterMap_append

/-! ## Freeing a small block -/

theorem ends_addToFreeBuffer {full : Bool}
    (hroom : (sh.data.freeBuffer i).length + 1 < maxFreeBuffSize) :
    Ends t (addToFreeBufferReturnIfFull i addr) sh log full sh' ↔
      log = [.enter (.pod i) .freeBuffer (sh.holds t (.pod i)),
          .leave (.pod i) .freeBuffer (sh.holds t (.pod i)), .quiet] ∧
        sh' = sh.edit (Data.setBuffer i (· ++ [addr])) ∧ full = false := by
  have hless : ¬ (sh.data.freeBuffer i).length + 1 ≥ maxFreeBuffSize := not_le_of_gt hroom
  simp [addToFreeBufferReturnIfFull, ends_bind, ends_change, ends_get, ends_pure, Data.setBuffer,
    hless, and_comm]

theorem ends_free {full : Bool} (hroom : (sh.data.freeBuffer i).length + 1 < maxFreeBuffSize) :
    Ends t (free i addr) sh log full sh' ↔
      log = [.quiet, .enter (.pod i) .freeBuffer (sh.holds t (.pod i)),
          .leave (.pod i) .freeBuffer (sh.holds t (.pod i)), .quiet] ∧
        sh' = sh.edit (Data.setBuffer i (· ++ [addr])) ∧ full = false := by
  simp [free, getState, ends_bind, ends_get, ends_addToFreeBuffer hroom, ends_pure]

theorem ends_remonFree {u : Unit} (hi : R.getResponsiblePod addr = i) (hsmall : R.payload i ≠ addr)
    (hroom : (sh.data.freeBuffer i).length + 1 < maxFreeBuffSize) :
    Ends t (remonFree R addr) sh log u sh' ↔
      log = [.lock (.pod i), .quiet, .enter (.pod i) .freeBuffer true,
          .leave (.pod i) .freeBuffer true, .quiet, .unlock (.pod i) true] ∧
        sh.owner (.pod i) = none ∧
        sh' = ((sh.take t (.pod i)).edit (Data.setBuffer i (· ++ [addr]))).free (.pod i) := by
  have hroom' : ((sh.take t (.pod i)).data.freeBuffer i).length + 1 < maxFreeBuffSize := hroom
  unfold remonFree
  simp [hi, hsmall, lock, unlock, ends_bind, ends_acquire, ends_free hroom', ends_release]

theorem ends_getState {α : Type} {f : PodState → Op α} {a : α} :
    Ends t (getState i >>= f) sh log a sh' ↔
      ∃ rest, log = .quiet :: rest ∧ Ends t (f (sh.data.state i)) sh rest a sh' := by
  constructor
  · intro h
    obtain ⟨log₁, state, sh₁, log₂, rfl, hget, hf⟩ := ends_bind.mp h
    obtain ⟨rfl, rfl, rfl⟩ := ends_get.mp hget
    exact ⟨log₂, rfl, hf⟩
  · rintro ⟨rest, rfl, hf⟩
    exact .step .read hf

theorem ends_addToFreeBuffer_full {full : Bool} (t : T) (addr : ℕ)
    (hfull : (sh.data.freeBuffer i).length + 1 ≥ maxFreeBuffSize) :
    Ends t (addToFreeBufferReturnIfFull i addr) sh log full sh' ↔
      log = [.enter (.pod i) .freeBuffer (sh.holds t (.pod i)),
          .leave (.pod i) .freeBuffer (sh.holds t (.pod i)), .quiet,
          .pass (.pod i) .bufferFull (sh.holds t (.pod i)),
          .unlock (.pod i) (sh.holds t (.pod i))] ∧
        full = true ∧ sh' = (sh.edit (Data.setBuffer i (· ++ [addr]))).free (.pod i) := by
  simp [addToFreeBufferReturnIfFull, unlock, ends_bind, ends_change, ends_get, ends_mark,
    ends_release, ends_pure, Data.setBuffer, hfull]

theorem two_le_unlocks_remonFree {u : Unit} (hi : R.getResponsiblePod addr = i)
    (hsmall : R.payload i ≠ addr) (hfull : (sh.data.freeBuffer i).length + 1 ≥ maxFreeBuffSize)
    (h : Ends t (remonFree R addr) sh log u sh') : 2 ≤ (unlocks i log).length := by
  simp only [remonFree, hi, if_neg hsmall] at h
  obtain ⟨log₁, _, sh₁, log₂, rfl, hlock, h⟩ := ends_bind.mp h
  obtain ⟨-, rfl, rfl⟩ := ends_acquire.mp hlock
  obtain ⟨log₃, full, sh₃, log₄, rfl, hfree, hrest⟩ := ends_bind.mp h
  have hfirst : 1 ≤ (unlocks i log₃).length := by
    obtain ⟨rest, rfl, hend⟩ := ends_getState.mp hfree
    obtain ⟨log₅, full', sh₅, log₆, rfl, hadd, -⟩ := ends_bind.mp hend
    have hfull' : ((sh.take t (.pod i)).data.freeBuffer i).length + 1 ≥ maxFreeBuffSize := hfull
    obtain ⟨rfl, -⟩ := (ends_addToFreeBuffer_full t addr hfull').mp hadd
    simp [unlocks]
  have hlast : 1 ≤ (unlocks i log₄).length := by
    cases full with
    | true =>
      obtain ⟨log₅, _, sh₅, log₆, rfl, -, hunlock⟩ := ends_bind.mp hrest
      obtain ⟨rfl, -⟩ := ends_release.mp hunlock
      simp [unlocks]
    | false =>
      obtain ⟨rfl, -⟩ := ends_release.mp hrest
      simp [unlocks]
  rw [unlocks_append, unlocks_append, length_append, length_append]
  omega

variable (t R) in
/-- The free returns, changes the pod only under its mutex, unlocks it once, and leaves it free. -/
def FreeBalanced (sh : Shared T Mutex Data) (i addr : ℕ) : Prop :=
  (∃ log sh', Ends t (remonFree R addr) sh log () sh') ∧
    ∀ log sh', Ends t (remonFree R addr) sh log () sh' →
      ChangesHeld i log ∧ unlocks i log = [true] ∧ sh'.owner (.pod i) = none

/-- The free of a small block is balanced if and only if it does not fill the buffer. -/
theorem free_lock_balanced (hi : R.getResponsiblePod addr = i) (hsmall : R.payload i ≠ addr)
    (hfree : sh.owner (.pod i) = none) :
    FreeBalanced t R sh i addr ↔ (sh.data.freeBuffer i).length + 1 < maxFreeBuffSize := by
  constructor
  · rintro ⟨⟨log, sh', h⟩, hbalanced⟩
    by_contra hfull
    have htwo := two_le_unlocks_remonFree hi hsmall (not_lt.mp hfull) h
    rw [(hbalanced log sh' h).2.1] at htwo
    exact absurd htwo (by decide)
  · intro hroom
    refine ⟨⟨_, _, (ends_remonFree hi hsmall hroom).mpr ⟨rfl, hfree, rfl⟩⟩, ?_⟩
    intro log sh' h
    obtain ⟨rfl, -, rfl⟩ := (ends_remonFree hi hsmall hroom).mp h
    refine ⟨?_, by simp [unlocks], by simp⟩
    intro c b hc
    simp at hc
    tauto

/-- All pods in state `s` with `entries` frees noted down, and no mutex taken. -/
def sampleShared (s : PodState) (entries : ℕ) : Shared Unit Mutex Data :=
  ⟨fun _ => none, fun _ => s, fun _ => List.replicate entries 0, [], fun _ => false⟩

theorem free_lock_balanced_sample :
    ∃ log sh', Ends () (remonFree sampleRegion 4112) (sampleShared .disk 1022) log () sh' ∧
      ChangesHeld 0 log ∧ unlocks 0 log = [true] := by
  have hroom : ((sampleShared .disk 1022).data.freeBuffer 0).length + 1 < maxFreeBuffSize := by
    show (List.replicate 1022 0).length + 1 < maxFreeBuffSize
    rw [length_replicate]
    decide
  have hpod : sampleRegion.getResponsiblePod 4112 = 0 := by decide
  obtain ⟨⟨log, sh', h⟩, hbalanced⟩ :=
    (free_lock_balanced (t := ()) hpod (by decide) rfl).mpr hroom
  exact ⟨log, sh', h, (hbalanced log sh' h).1, (hbalanced log sh' h).2.1⟩

/-- With 1023 entries, a free on a pod in memory flushes the page without the mutex, and one on a
pod on disk brings the page in without it; each unlocks the pod twice. -/
theorem full_buffer_not_balanced :
    (∃ log sh', Ends () (remonFree sampleRegion 4112) (sampleShared .local_ 1023) log () sh' ∧
      .enter (.pod 0) .heap false ∈ log ∧ unlocks 0 log = [true, false]) ∧
    ∃ log sh', Ends () (remonFree sampleRegion 4112) (sampleShared .disk 1023) log () sh' ∧
      .enter (.pod 0) (.transition .diskToLocalPinned) false ∈ log ∧
        unlocks 0 log = [true, false] := by
  have hfull : ∀ s, (((sampleShared s 1023).take () (.pod 0)).data.freeBuffer 0).length + 1 ≥
      maxFreeBuffSize := by
    intro s
    show (List.replicate 1023 0).length + 1 ≥ maxFreeBuffSize
    rw [length_replicate]
    decide
  have hadd := fun s => (ends_addToFreeBuffer_full () 4112 (hfull s)).mpr ⟨rfl, rfl, rfl⟩
  constructor
  · -- the flush comes after the mutex is given away
    have hflush : Ends () (flushOnePage 0) (((sampleShared .local_ 1023).take () (.pod 0)).edit
        (Data.setBuffer 0 (· ++ [4112])) |>.free (.pod 0)) _ () _ :=
      .step .read (.step .enter (.step .leave .ret))
    have hfree : Ends () (free 0 4112) ((sampleShared .local_ 1023).take () (.pod 0)) _ false _ :=
      .step .read ((hadd .local_).append (hflush.append .ret))
    have hall : Ends () (remonFree sampleRegion 4112) (sampleShared .local_ 1023) _ () _ :=
      .step (.lock rfl) (hfree.append (.step .unlock .ret))
    exact ⟨_, _, hall, by simp, rfl⟩
  · have hfree : Ends () (free 0 4112) ((sampleShared .disk 1023).take () (.pod 0)) _ true _ :=
      .step .read ((hadd .disk).append .ret)
    have hbring : Ends () (activatePod 0) (((sampleShared .disk 1023).take () (.pod 0)).edit
        (Data.setBuffer 0 (· ++ [4112])) |>.free (.pod 0)) _ true _ :=
      .step .enter (.step .leave (.step .read (.step .enter (.step .leave (.step .enter
        (.step .leave (.step (.lock rfl) (.step .read (.step .enter (.step .leave
          (.step .unlock .ret)))))))))))
    have hall : Ends () (remonFree sampleRegion 4112) (sampleShared .disk 1023) _ () _ :=
      .step (.lock rfl) (hfree.append (hbring.append (.step .unlock .ret)))
    exact ⟨_, _, hall, by simp, rfl⟩

/-! ## Forced swaps -/

def calm : Event Mutex Change Place → Bool
  | .quiet | .enter _ _ _ | .leave _ _ _ => true
  | _ => false

theorem unlocks_of_calm (h : ∀ e ∈ log, calm e = true) : unlocks i log = [] := by
  apply filterMap_eq_nil_iff.mpr
  intro e he
  cases e with
  | unlock l b => exact absurd (h _ he) Bool.false_ne_true
  | _ => rfl

variable (t) in
def Leaves {α : Type} (p : Op α) : Prop :=
  ∀ ⦃sh : Shared T Mutex Data⦄ ⦃log a sh'⦄, Ends t p sh log a sh' →
    (∀ e ∈ log, calm e = true) ∧ sh'.owner = sh.owner

theorem Leaves.bind {α β : Type} {x : Op α} {f : α → Op β} (hx : Leaves t x)
    (hf : ∀ a, Leaves t (f a)) : Leaves t (x >>= f) := by
  intro sh log b sh' h
  obtain ⟨log₁, a, sh₁, log₂, rfl, h₁, h₂⟩ := ends_bind.mp h
  obtain ⟨hlog₁, howner₁⟩ := hx h₁
  obtain ⟨hlog₂, howner₂⟩ := hf a h₂
  refine ⟨?_, howner₂.trans howner₁⟩
  intro e he
  exact (mem_append.mp he).elim (hlog₁ e) (hlog₂ e)

theorem leaves_pure {α : Type} (a : α) : Leaves t (pure a : Op α) := by
  intro sh log b sh' h
  obtain ⟨rfl, -, rfl⟩ := ends_pure.mp h
  exact ⟨by simp, rfl⟩

theorem leaves_ask : Leaves t (ask i) := by
  intro sh log b sh' h
  obtain ⟨rfl, rfl⟩ := ends_any.mp h
  exact ⟨by simp [calm], rfl⟩

theorem leaves_transition (tr : Transition) : Leaves t (transition tr i) := by
  intro sh log u sh' h
  obtain ⟨rfl, rfl⟩ := ends_change.mp h
  exact ⟨by simp [calm], rfl⟩

theorem ends_evictPod {u : Unit} (hs : sh.data.state i = .local_)
    (h : Ends t (evictPod i) sh log u sh') :
    (∀ e ∈ log, calm e = true) ∧ sh'.owner = sh.owner := by
  have hsave : Leaves t (remoteSwap i) := by
    apply leaves_ask.bind
    intro saved
    split
    · exact (leaves_transition _).bind fun _ => leaves_pure _
    · exact leaves_pure _
  have hrest : ∀ saved : Bool, Leaves t (if saved then pure () else swapToDisk i : Op Unit) := by
    intro saved
    cases saved with
    | true => exact leaves_pure _
    | false => exact leaves_transition _
  obtain ⟨rest, rfl, hend⟩ := ends_getState.mp h
  rw [hs, if_neg (not_not_intro rfl)] at hend
  obtain ⟨hcalm, howner⟩ := hsave.bind hrest hend
  exact ⟨forall_mem_cons.mpr ⟨rfl, hcalm⟩, howner⟩

theorem leaves_swapOut : Leaves t (swapOut i) := by
  intro sh log u sh' h
  obtain ⟨rest, rfl, hend⟩ := ends_getState.mp h
  suffices hrest : (∀ e ∈ rest, calm e = true) ∧ sh'.owner = sh.owner from
    ⟨forall_mem_cons.mpr ⟨rfl, hrest.1⟩, hrest.2⟩
  by_cases hs : sh.data.state i = .local_
  · rw [if_pos hs] at hend
    -- the questions about the lists do not touch the data
    obtain ⟨log₁, small, sh₁, log₂, rfl, hask, hlocal⟩ := ends_bind.mp hend
    obtain ⟨rfl, rfl⟩ := ends_any.mp hask
    cases small with
    | true =>
      obtain ⟨log₃, benched, sh₃, log₄, rfl, hbench, hevict⟩ := ends_bind.mp hlocal
      obtain ⟨rfl, rfl⟩ := ends_any.mp hbench
      obtain ⟨hcalm, howner⟩ := ends_evictPod hs hevict
      exact ⟨by simpa [calm] using hcalm, howner⟩
    | false =>
      obtain ⟨hcalm, howner⟩ := ends_evictPod hs hlocal
      exact ⟨by simpa [calm] using hcalm, howner⟩
  · rw [if_neg hs] at hend
    exact leaves_pure _ hend

theorem ends_asyncSwapOutPod {u : Unit} (h : Ends t (asyncSwapOutPod i) sh log u sh') :
    ∃ rest, log = rest ++ [.unlock (.pod i) (sh.holds t (.pod i))] ∧
      ∀ e ∈ rest, calm e = true := by
  obtain ⟨log₁, _, sh₁, log₂, rfl, hswap, hunlock⟩ := ends_bind.mp h
  obtain ⟨hcalm, howner⟩ := leaves_swapOut hswap
  obtain ⟨rfl, rfl⟩ := ends_release.mp hunlock
  refine ⟨log₁, ?_, hcalm⟩
  rw [Shared.holds, howner, ← Shared.holds]

theorem unlocks_asyncSwapOutPod {u : Unit} (hheld : sh.owner (.pod i) = some t)
    (h : Ends t (asyncSwapOutPod i) sh log u sh') : unlocks i log = [true] := by
  obtain ⟨rest, rfl, hcalm⟩ := ends_asyncSwapOutPod h
  rw [unlocks_append, unlocks_of_calm hcalm]
  simp [unlocks, Shared.holds, hheld]

theorem exists_asyncSwapOutPod (t : T) (sh : Shared T Mutex Data) (i : ℕ) :
    ∃ log sh', Ends t (asyncSwapOutPod i) sh log () sh' := by
  have hswap : ∃ log sh', Ends t (swapOut i) sh log () sh' := by
    by_cases hs : sh.data.state i = .local_
    · obtain ⟨rest, sh', hdisk⟩ : ∃ log sh', Ends t (do
          if ← remoteSwap i then pure () else swapToDisk i) sh log () sh' :=
        ⟨_, _, .step (.choose false) (.step .enter (.step .leave .ret))⟩
      have hevict : Ends t (evictPod i) sh (.quiet :: rest) () sh' :=
        ends_getState.mpr ⟨rest, rfl, by rwa [hs, if_neg (not_not_intro rfl)]⟩
      refine ⟨_, sh', ends_getState.mpr ⟨.quiet :: .quiet :: rest, rfl, ?_⟩⟩
      rw [if_pos hs]
      exact .step (.choose false) hevict
    · exact ⟨_, _, ends_getState.mpr ⟨[], rfl, by rw [if_neg hs]; exact .ret⟩⟩
  obtain ⟨log, sh', hswap⟩ := hswap
  exact ⟨_, _, hswap.append (.step .unlock .ret)⟩

theorem ends_remove_of_empty {ret : ℤ} (hempty : sh.data.lruList = []) :
    Ends t (removePodFromLRU i) sh log ret sh' ↔
      log = [.lock .lru, .quiet, .unlock .lru true] ∧ sh.owner .lru = none ∧ ret = -1 ∧
        sh' = (sh.take t .lru).free .lru := by
  simp [removePodFromLRU, ends_bind, ends_acquire, ends_get, ends_release, ends_pure, hempty]

theorem ends_remove_of_valid {ret : ℤ} (hlist : sh.data.lruList ≠ [])
    (hvalid : sh.data.lruIterIsValid i = true) (hfree : sh.owner (.pod i) = none) :
    Ends t (removePodFromLRU i) sh log ret sh' ↔
      log = [.lock .lru, .quiet, .lock (.pod i), .quiet, .enter .lru .lruList true,
          .leave .lru .lruList true, .unlock .lru true] ∧
        sh.owner .lru = none ∧ ret = 1 ∧
        sh' = (((sh.take t .lru).take t (.pod i)).edit (Data.erase i)).free .lru := by
  simp [removePodFromLRU, tryLock, ends_bind, ends_acquire, ends_get, ends_release, ends_pure,
    ends_attempt, ends_change, hlist, hvalid, hfree]

/-- The list is empty, or the pod is in it and its mutex is free. -/
def CanSwap (i : ℕ) (sh : Shared T Mutex Data) : Prop :=
  sh.data.lruList = [] ∨ sh.data.lruIterIsValid i = true ∧ sh.owner (.pod i) = none

theorem ends_remonForceSwap {ret : ℤ} (hi : R.getResponsiblePod addr = i) (hcan : CanSwap i sh)
    (h : Ends t (remonForceSwap R addr) sh log ret sh') :
    (∀ result b, .pass (.pod i) (.swapOut result) b ∈ log → b = true) ∧
      unlocks i log = if ret = 0 then [true] else [] := by
  subst hi
  obtain ⟨log₁, result, sh₁, log₂, rfl, hremove, hrest⟩ := ends_bind.mp h
  by_cases hempty : sh.data.lruList = []
  · obtain ⟨rfl, -, rfl, rfl⟩ := (ends_remove_of_empty hempty).mp hremove
    obtain ⟨rfl, rfl, rfl⟩ := ends_pure.mp hrest
    simp [unlocks]
  · obtain ⟨hvalid, hfree⟩ := hcan.resolve_left hempty
    obtain ⟨rfl, -, rfl, rfl⟩ := (ends_remove_of_valid hempty hvalid hfree).mp hremove
    obtain ⟨log₃, _, sh₃, log₄, rfl, hmark, hrest⟩ := ends_bind.mp hrest
    obtain ⟨rfl, rfl⟩ := ends_mark.mp hmark
    obtain ⟨log₅, _, sh₅, log₆, rfl, hswap, hrest⟩ := ends_bind.mp hrest
    obtain ⟨rfl, rfl, rfl⟩ := ends_pure.mp hrest
    obtain ⟨rest, rfl, hcalm⟩ := ends_asyncSwapOutPod hswap
    have hnopass : ∀ result b, .pass (.pod (R.getResponsiblePod addr)) (.swapOut result) b ∉ rest :=
      fun result b hmem => absurd (hcalm _ hmem) Bool.false_ne_true
    have hrest : unlocks (R.getResponsiblePod addr) rest = [] := unlocks_of_calm hcalm
    constructor
    · intro result b hmem
      have hone : result = 1 ∧ b = true := by simpa [hnopass] using hmem
      exact hone.2
    · simp only [unlocks_append, hrest]
      simp [unlocks]

theorem ends_remove_of_invalid {ret : ℤ} (hlist : sh.data.lruList ≠ [])
    (hvalid : sh.data.lruIterIsValid i = false) (hfree : sh.owner (.pod i) = none) :
    Ends t (removePodFromLRU i) sh log ret sh' ↔
      log = [.lock .lru, .quiet, .lock (.pod i), .quiet, .unlock (.pod i) true,
          .pass .lru .invalidIter true] ∧
        sh.owner .lru = none ∧ ret = -1 ∧
        sh' = ((sh.take t .lru).take t (.pod i)).free (.pod i) := by
  simp [removePodFromLRU, tryLock, unlock, ends_bind, ends_acquire, ends_get, ends_release,
    ends_mark, ends_pure, ends_attempt, hlist, hvalid, hfree]

theorem ends_remove_of_busy {ret : ℤ} (hlist : sh.data.lruList ≠ [])
    (hbusy : sh.owner (.pod i) ≠ none) :
    Ends t (removePodFromLRU i) sh log ret sh' ↔
      log = [.lock .lru, .quiet, .busy (.pod i), .unlock .lru true] ∧
        sh.owner .lru = none ∧ ret = 0 ∧ sh' = (sh.take t .lru).free .lru := by
  simp [removePodFromLRU, tryLock, ends_bind, ends_acquire, ends_get, ends_release, ends_pure,
    ends_attempt, hlist, hbusy]

theorem exists_remonForceSwap {ret : ℤ} (hret : ¬ ret < 0)
    (h : Ends t (removePodFromLRU (R.getResponsiblePod addr)) sh log ret sh') :
    ∃ rest sh'', Ends t (remonForceSwap R addr) sh (log ++ .pass (.pod (R.getResponsiblePod addr))
      (.swapOut ret) (sh'.holds t (.pod (R.getResponsiblePod addr))) :: rest) 0 sh'' := by
  obtain ⟨rest, sh'', hswap⟩ := exists_asyncSwapOutPod t sh' (R.getResponsiblePod addr)
  refine ⟨rest ++ [], sh'', h.append ?_⟩
  rw [if_neg hret]
  exact .step .pass (hswap.append .ret)

variable (t R) in
/-- What is expected of a forced swap. -/
structure SwapBalanced (sh : Shared T Mutex Data) (i addr : ℕ) : Prop where
  returns : ∃ log ret sh', Ends t (remonForceSwap R addr) sh log ret sh'
  /-- `removePodFromLRU` returns with `LRULock` free, and with the mutex iff it returns one -/
  removal : ∀ log ret sh', Ends t (removePodFromLRU i) sh log ret sh' →
    sh'.owner .lru = none ∧ (sh'.owner (.pod i) = some t ↔ ret = 1)
  /-- `asyncSwapOutPod` is started with the mutex, which is unlocked once if it is started -/
  start : ∀ log ret sh', Ends t (remonForceSwap R addr) sh log ret sh' →
    (∀ result b, .pass (.pod i) (.swapOut result) b ∈ log → b = true) ∧
      unlocks i log = if ret = 0 then [true] else []
  swap : ∀ sh₁ log sh', sh₁.owner (.pod i) = some t →
    Ends t (asyncSwapOutPod i) sh₁ log () sh' → unlocks i log = [true]

/-- A forced swap is balanced if and only if the list is empty, or the pod is in it and its mutex
is free. -/
theorem forceSwap_lock_balanced (hi : R.getResponsiblePod addr = i)
    (hmine : sh.owner (.pod i) ≠ some t) (hlru : sh.owner .lru = none) :
    SwapBalanced t R sh i addr ↔ CanSwap i sh := by
  subst hi
  constructor
  · intro hbalanced
    by_contra hcan
    obtain ⟨hlist, hpod⟩ := not_or.mp hcan
    by_cases hfree : sh.owner (.pod (R.getResponsiblePod addr)) = none
    · have hvalid : sh.data.lruIterIsValid (R.getResponsiblePod addr) = false :=
        Bool.eq_false_iff.mpr fun hc => hpod ⟨hc, hfree⟩
      have hremove := (ends_remove_of_invalid (t := t) hlist hvalid hfree).mpr
        ⟨rfl, hlru, rfl, rfl⟩
      -- LRULock is still taken
      have hlock := (hbalanced.removal _ _ _ hremove).1
      simp at hlock
    · have hremove := (ends_remove_of_busy (t := t) hlist hfree).mpr ⟨rfl, hlru, rfl, rfl⟩
      obtain ⟨rest, sh'', hrun⟩ := exists_remonForceSwap (by decide) hremove
      have hheld := (hbalanced.start _ _ _ hrun).1 0 _
        (mem_append_right _ mem_cons_self)
      simp [Shared.holds, hmine] at hheld
  · intro hcan
    refine ⟨?_, ?_, fun log ret sh' h => ends_remonForceSwap rfl hcan h,
      fun sh₁ log sh' hheld h => unlocks_asyncSwapOutPod hheld h⟩
    · by_cases hempty : sh.data.lruList = []
      · exact ⟨_, _, _, ((ends_remove_of_empty hempty).mpr ⟨rfl, hlru, rfl, rfl⟩).append .ret⟩
      · obtain ⟨hvalid, hfree⟩ := hcan.resolve_left hempty
        have hremove := (ends_remove_of_valid (t := t) hempty hvalid hfree).mpr
          ⟨rfl, hlru, rfl, rfl⟩
        obtain ⟨rest, sh'', hrun⟩ := exists_remonForceSwap (by decide) hremove
        exact ⟨_, _, _, hrun⟩
    · intro log ret sh' h
      by_cases hempty : sh.data.lruList = []
      · obtain ⟨-, -, rfl, rfl⟩ := (ends_remove_of_empty hempty).mp h
        simp [hmine]
      · obtain ⟨hvalid, hfree⟩ := hcan.resolve_left hempty
        obtain ⟨-, -, rfl, rfl⟩ := (ends_remove_of_valid hempty hvalid hfree).mp h
        simp

/-- Local pods, of which pod 0 alone is in the list; the mutex of pod `i` is with `holder i`. -/
def sampleListed (holder : ℕ → Option Bool) : Shared Bool Mutex Data where
  owner
    | .pod i => holder i
    | .lru => none
  data := ⟨fun _ => .local_, fun _ => [], [0], fun i => i == 0⟩

theorem forceSwap_lock_balanced_sample :
    ∃ log ret sh', Ends true (remonForceSwap sampleRegion 4112) (sampleListed fun _ => none)
      log ret sh' ∧ unlocks 0 log = if ret = 0 then [true] else [] := by
  have hpod : sampleRegion.getResponsiblePod 4112 = 0 := by decide
  have hcan : CanSwap 0 (sampleListed fun _ => none) := .inr ⟨rfl, rfl⟩
  have hbalanced := (forceSwap_lock_balanced (t := true) hpod (by decide) rfl).mpr hcan
  obtain ⟨log, ret, sh', h⟩ := hbalanced.returns
  exact ⟨log, ret, sh', h, (hbalanced.start log ret sh' h).2⟩

/-- A forced swap of pod 1, which is not in the list, keeps `LRULock`. One of pod 0, whose mutex
another operation has, starts `asyncSwapOutPod` without the mutex, changes the state of the pod
and unlocks the mutex of the other. -/
theorem forceSwap_not_balanced :
    (∃ log sh', Ends true (removePodFromLRU 1) (sampleListed fun _ => none) log (-1) sh' ∧
      sh'.owner .lru = some true) ∧
    ∃ log sh', Ends true (remonForceSwap sampleRegion 4112) (sampleListed fun _ => some false)
        log 0 sh' ∧
      .pass (.pod 0) (.swapOut 0) false ∈ log ∧ unlocks 0 log = [false] ∧
      .enter (.pod 0) (.transition .localToDisk) false ∈ log ∧ sh'.owner (.pod 0) = none := by
  constructor
  · exact ⟨_, _, .step (.lock rfl) (.step .read (.step (.tryLock rfl) (.step .read
      (.step .unlock (.step .pass .ret))))), rfl⟩
  · have hbusy : Ends true (removePodFromLRU 0) (sampleListed fun _ => some false) _ 0 _ :=
      .step (.lock rfl) (.step .read (.step (.busy (by decide)) (.step .unlock .ret)))
    have hevict : Ends true (evictPod 0)
        (((sampleListed fun _ => some false).take true .lru).free .lru) _ () _ :=
      .step .read (.step (.choose false) (.step .enter (.step .leave .ret)))
    have hswap : Ends true (asyncSwapOutPod 0)
        (((sampleListed fun _ => some false).take true .lru).free .lru) _ () _ :=
      .step .read (.step (.choose false) (hevict.append (.step .unlock .ret)))
    have hall : Ends true (remonForceSwap sampleRegion 4112) (sampleListed fun _ => some false)
        _ 0 _ :=
      hbusy.append (.step .pass (hswap.append .ret))
    have hpod : sampleRegion.getResponsiblePod 4112 = 0 := by decide
    exact ⟨_, _, hall, by simp [hpod, sampleListed, Shared.holds], rfl,
      by simp [sampleListed, Shared.holds], rfl⟩

end Remon.Vmm.Entry
