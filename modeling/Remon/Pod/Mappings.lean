import Remon.Remote.Client

/-! # The mappings of a page

The page of a pod is a memory file that is mapped at the payload address. Four transitions map
it a second time, at an address that the kernel picks, so that the page can be filled while the
payload is protected. Three of them unmap the copy before they return; `diskToDiskCache` does
not.
-/

namespace Remon
open Lib Heap Fault List

/-- A pod, the swap directory, whether its memory file exists and where that is mapped. -/
structure Mapped where
  pod : Pod
  files : Files
  made : Bool
  maps : List ℕ

/-- The transitions of a pod. `pick` is the address that the kernel gives to a second mapping,
`none` when it gives none. -/
inductive Transition where
  | initToLocal
  | initToLocalPinned
  | localToInit
  | localToLocalPinned
  | localPinnedToLocal
  | localToDisk (path : String)
  | diskToLocalPinned (pick : Option ℕ)
  | diskToInit
  | diskToDiskCache (pick : Option ℕ)
  | diskCacheToLocalPinned
  | diskCacheToDisk
  | savePodToRemote (client : ℕ) (c : SaveScript)
  | remoteToLocalPinned (d : Delivery) (pick : Option ℕ)
  | remoteToRemoteCache (d : Delivery) (pick : Option ℕ)
  | remoteCacheToLocalPinned (reply : Option (List UInt8))
  | remoteCacheToRemote
  | remoteToInit (reply : Option (List UInt8))
  | dropMemoryStayLocal (isHuge : Bool)

def Transition.pick : Transition → Option ℕ
  | .diskToLocalPinned pick | .diskToDiskCache pick => pick
  | .remoteToLocalPinned _ pick | .remoteToRemoteCache _ pick => pick
  | _ => none

/-- The page is prefetched from its swap file. -/
def Transition.prefetchesDisk : Transition → Bool
  | .diskToDiskCache _ => true
  | _ => false

namespace Mapped

variable (L : Layout) (w : Mapped)

/-! ## System calls -/

/-- `mmap` of the memory file at an address of the kernel's choice. Without a file it fails. -/
def mmap (pick : Option ℕ) : Option ℕ × Mapped :=
  match w.made, pick with
  | true, some copyMap => (some copyMap, { w with maps := copyMap :: w.maps })
  | _, _ => (none, w)

def munmap (copyMap : ℕ) : Mapped := { w with maps := w.maps.filter (· ≠ copyMap) }

/-- The memory file is mapped at the payload address, in place of what was mapped there. -/
def map : Mapped :=
  { w with maps := L.payloadStart :: w.maps.filter (· ≠ L.payloadStart) }

def useFd : Mapped := ({ w with made := true }).map L

/-! ## Transitions -/

/-- The file is opened before the copy is written. -/
def diskToLocalPinned (pick : Option ℕ) : Except Fault Mapped := do
  let (copyMap, w) := w.mmap pick
  match w.files w.pod.swapPath, copyMap with
  | none, _ => throw (.exit 1)
  | some _, none => throw .undefined
  | some _, some copyMap =>
    let (files, p) ← w.pod.diskToLocalPinned L w.files
    return ({ w with pod := p, files := files }).munmap copyMap

def diskToDiskCache (pick : Option ℕ) : Except Fault Mapped := do
  let (copyMap, w) := w.mmap pick
  match copyMap with
  | none => throw (.exit (-1))
  | some _ =>
    let p ← w.pod.diskToDiskCache L w.files
    return { w with pod := p }

def fetchThroughCopy (fetch : Pod → Except Fault Pod) (pick : Option ℕ) : Except Fault Mapped := do
  let (copyMap, w) := w.mmap pick
  match copyMap with
  | none => throw .undefined
  | some copyMap =>
    let p ← fetch w.pod
    return ({ w with pod := p }).munmap copyMap

def remoteToLocalPinned (d : Delivery) (pick : Option ℕ) : Except Fault Mapped :=
  w.fetchThroughCopy (fun p => p.remoteToLocalPinned L d) pick

def remoteToRemoteCache (d : Delivery) (pick : Option ℕ) : Except Fault Mapped :=
  w.fetchThroughCopy (fun p => p.remoteToRemoteCache L d) pick

def onPod (f : Except Fault (Files × Pod)) : Except Fault Mapped := do
  let (files, p) ← f
  return { w with pod := p, files := files }

def step : Transition → Except Fault Mapped
  | .initToLocal => .ok { w.useFd L with pod := w.pod.initToLocal }
  | .initToLocalPinned => .ok { w.useFd L with pod := w.pod.initToLocalPinned }
  | .localToInit => w.onPod (.ok (w.files, w.pod.localToInit L))
  | .localToLocalPinned => w.onPod (.ok (w.files, w.pod.localToLocalPinned))
  | .localPinnedToLocal => w.onPod (.ok (w.files, w.pod.localPinnedToLocal))
  | .localToDisk path => w.onPod (.ok (w.pod.localToDisk L w.files path))
  | .diskToLocalPinned pick => w.diskToLocalPinned L pick
  | .diskToInit => w.onPod (.ok (w.pod.diskToInit L w.files))
  | .diskToDiskCache pick => w.diskToDiskCache L pick
  | .diskCacheToLocalPinned => w.onPod (w.pod.diskCacheToLocalPinned L w.files)
  | .diskCacheToDisk => w.onPod (.ok (w.files, w.pod.diskCacheToDisk L))
  | .savePodToRemote client c =>
    w.onPod ((w.pod.bundleSavePodToRemote L client c).map (fun r => (w.files, r.2.1)))
  | .remoteToLocalPinned d pick => w.remoteToLocalPinned L d pick
  | .remoteToRemoteCache d pick => w.remoteToRemoteCache L d pick
  | .remoteCacheToLocalPinned reply =>
    w.onPod ((w.pod.remoteCacheToLocalPinned L reply).map (w.files, ·))
  | .remoteCacheToRemote => w.onPod (.ok (w.files, w.pod.remoteCacheToRemote L))
  | .remoteToInit reply => w.onPod ((w.pod.remoteToInit L reply).map (w.files, ·))
  | .dropMemoryStayLocal isHuge =>
    w.onPod ((w.pod.dropMemoryStayLocal L isHuge).map (w.files, ·))

/-- The kernel picks addresses at which nothing is mapped; the payload range is reserved. -/
def Unused (t : Transition) : Prop := ∀ a ∈ t.pick, a ≠ L.payloadStart ∧ a ∉ w.maps

/-- The transitions made so far, last first, and the pod they lead to. In between the pod and
the files may change in any way. -/
inductive Run : List Transition → Mapped → Prop
  | start (p : Pod) (files : Files) : Run [] ⟨p, files, false, []⟩
  | step {ts : List Transition} {w w' : Mapped} {t : Transition} (hr : Run ts w)
      (hk : w.Unused L t) (h : w.step L t = .ok w') : Run (t :: ts) w'
  | other {ts : List Transition} {w : Mapped} (hr : Run ts w) (p : Pod) (files : Files) :
      Run ts { w with pod := p, files := files }

variable {L w} {w' : Mapped}

/-! ## What a transition does to the mappings -/

theorem mmap_cases (pick : Option ℕ) : w.mmap pick = (none, w) ∨
    ∃ a, w.made = true ∧ pick = some a ∧
      w.mmap pick = (some a, { w with maps := a :: w.maps }) := by
  unfold mmap
  split
  · next hm => exact .inr ⟨_, hm, rfl, rfl⟩
  · exact .inl rfl

theorem munmap_new {a : ℕ} (ha : a ∉ w.maps) : (a :: w.maps).filter (· ≠ a) = w.maps := by
  rw [filter_cons_of_neg (by simp), filter_eq_self]
  intro b hb
  rw [decide_eq_true_eq]
  rintro rfl
  exact ha hb

/-- The mappings after a transition. -/
inductive Remaps (L : Layout) (w w' : Mapped) : Transition → Prop
  | same {t : Transition} (ht : t.prefetchesDisk = false) (hm : w'.made = w.made)
      (hmaps : w'.maps = w.maps) : Remaps L w w' t
  | payload {t : Transition} (ht : t.prefetchesDisk = false) (hm : w'.made = true)
      (hmaps : w'.maps = L.payloadStart :: w.maps.filter (· ≠ L.payloadStart)) : Remaps L w w' t
  | copy {t : Transition} {a : ℕ} (ht : t.prefetchesDisk = true) (hm : w.made = true)
      (hm' : w'.made = true) (ha : a ≠ L.payloadStart ∧ a ∉ w.maps)
      (hmaps : w'.maps = a :: w.maps) : Remaps L w w' t

theorem onPod_same {f : Except Fault (Files × Pod)} {t : Transition} (h : w.onPod f = .ok w')
    (ht : t.prefetchesDisk = false) : Remaps L w w' t := by
  obtain ⟨⟨files, p⟩, -, hw⟩ := of_bind_ok h
  cases hw
  exact .same ht rfl rfl

theorem fetchThroughCopy_same {fetch : Pod → Except Fault Pod} {pick : Option ℕ} {t : Transition}
    (h : w.fetchThroughCopy fetch pick = .ok w') (hk : ∀ a ∈ pick, a ∉ w.maps)
    (ht : t.prefetchesDisk = false) : Remaps L w w' t := by
  unfold fetchThroughCopy at h
  rcases mmap_cases (w := w) pick with hm | ⟨a, -, rfl, hm⟩
  · simp [hm] at h
  · simp only [hm] at h
    obtain ⟨p, -, hw⟩ := of_bind_ok h
    cases hw
    exact .same ht rfl (munmap_new (hk a rfl))

theorem diskToLocalPinned_same {pick : Option ℕ} (h : w.diskToLocalPinned L pick = .ok w')
    (hk : ∀ a ∈ pick, a ∉ w.maps) : Remaps L w w' (.diskToLocalPinned pick) := by
  unfold diskToLocalPinned at h
  rcases mmap_cases (w := w) pick with hm | ⟨a, -, rfl, hm⟩
  · simp only [hm] at h
    split at h <;> simp_all
  · simp only [hm] at h
    split at h
    · cases h
    · next heq => cases heq
    · next heq =>
      cases heq
      obtain ⟨⟨files, p⟩, -, hw⟩ := of_bind_ok h
      cases hw
      exact .same rfl rfl (munmap_new (hk _ rfl))

theorem diskToDiskCache_copy {pick : Option ℕ} (h : w.diskToDiskCache L pick = .ok w')
    (hk : ∀ a ∈ pick, a ≠ L.payloadStart ∧ a ∉ w.maps) :
    Remaps L w w' (.diskToDiskCache pick) := by
  unfold diskToDiskCache at h
  rcases mmap_cases (w := w) pick with hm | ⟨a, hmade, rfl, hm⟩
  · simp [hm] at h
  · simp only [hm] at h
    obtain ⟨p, -, hw⟩ := of_bind_ok h
    cases hw
    exact .copy rfl hmade hmade (hk a rfl) rfl

theorem step_remaps {t : Transition} (hk : w.Unused L t) (h : w.step L t = .ok w') :
    Remaps L w w' t := by
  have hfresh : ∀ a ∈ t.pick, a ∉ w.maps := fun a ha => (hk a ha).2
  cases t with
  | initToLocal | initToLocalPinned =>
    cases h
    exact .payload rfl rfl rfl
  | diskToLocalPinned pick => exact diskToLocalPinned_same h hfresh
  | diskToDiskCache pick => exact diskToDiskCache_copy h hk
  | remoteToLocalPinned d pick =>
    have hrun : w.fetchThroughCopy (fun p => p.remoteToLocalPinned L d) pick = .ok w' := h
    exact fetchThroughCopy_same hrun hfresh rfl
  | remoteToRemoteCache d pick =>
    have hrun : w.fetchThroughCopy (fun p => p.remoteToRemoteCache L d) pick = .ok w' := h
    exact fetchThroughCopy_same hrun hfresh rfl
  | localToInit | localToLocalPinned | localPinnedToLocal | localToDisk | diskToInit
  | diskCacheToLocalPinned | diskCacheToDisk | savePodToRemote | remoteCacheToLocalPinned
  | remoteCacheToRemote | remoteToInit | dropMemoryStayLocal => exact onPod_same h rfl

/-! ## Runs -/

/-- The file is mapped once at the payload address, if it exists, and at one other address for
each prefetch from disk. -/
structure Counts (L : Layout) (ts : List Transition) (w : Mapped) : Prop where
  payload : w.maps.count L.payloadStart = if w.made then 1 else 0
  copies : w.maps.countP (· ≠ L.payloadStart) = ts.countP Transition.prefetchesDisk

theorem Counts.step {ts : List Transition} {t : Transition} (hc : Counts L ts w)
    (hr : Remaps L w w' t) : Counts L (t :: ts) w' := by
  cases hr with
  | same ht hm hmaps =>
    refine ⟨?_, ?_⟩
    · rw [hmaps, hm]
      exact hc.payload
    · rw [hmaps, countP_cons_of_neg (by simp [ht])]
      exact hc.copies
  | payload ht hm hmaps =>
    refine ⟨?_, ?_⟩
    · rw [hmaps, hm, count_cons_self, count_eq_zero_of_not_mem (by simp)]
      rfl
    · rw [hmaps, countP_cons_of_neg (by simp), countP_cons_of_neg (by simp [ht]),
        countP_filter, ← hc.copies]
      simp
  | copy ht hm hm' ha hmaps =>
    refine ⟨?_, ?_⟩
    · rw [hmaps, count_cons_of_ne ha.1, hc.payload, hm, hm']
    · rw [hmaps, countP_cons_of_pos (by simp [ha.1]), countP_cons_of_pos ht, hc.copies]

theorem Run.counts {ts : List Transition} (hr : Run L ts w) : Counts L ts w := by
  induction hr with
  | start p files => exact ⟨rfl, rfl⟩
  | step _ hk h ih => exact ih.step (step_remaps hk h)
  | other _ p files ih => exact ⟨ih.payload, ih.copies⟩

/-- After every run the memory file is mapped at the payload address and nowhere else exactly
if no page was prefetched from disk; each such prefetch leaves one more mapping behind. -/
theorem copies_unmapped {ts : List Transition} (hr : Run L ts w) :
    (w.maps = (if w.made then [L.payloadStart] else []) ↔
      ∀ t ∈ ts, t.prefetchesDisk = false) ∧
    w.maps.length = (if w.made then 1 else 0) + ts.countP Transition.prefetchesDisk := by
  obtain ⟨hpay, hcop⟩ := hr.counts
  constructor
  · have hnone : (∀ t ∈ ts, t.prefetchesDisk = false) ↔
        w.maps.countP (· ≠ L.payloadStart) = 0 := by
      rw [hcop, countP_eq_zero]
      simp
    rw [hnone]
    constructor
    · intro hmaps
      rw [hmaps]
      split <;> simp
    · intro hzero
      have hall : ∀ a ∈ w.maps, a = L.payloadStart := by
        simpa [countP_eq_zero] using hzero
      rw [eq_replicate_of_mem hall, ← count_eq_length.mpr (fun a ha => (hall a ha).symm),
        hpay]
      split <;> rfl
  · have hne : w.maps.countP (fun a => decide ¬ (a == L.payloadStart) = true) =
        w.maps.countP (· ≠ L.payloadStart) := by
      simp
    rw [length_eq_countP_add_countP (· == L.payloadStart), hne, hcop, ← hpay, List.count]

/-- The pod after a transition that completes. -/
def after (L : Layout) (w : Mapped) (t : Transition) : Mapped := (w.step L t).toOption.getD w

theorem Run.next {ts : List Transition} {t : Transition} (hr : Run L ts w) (hk : w.Unused L t)
    (h : (w.step L t).toOption.isSome = true) : Run L (t :: ts) (w.after L t) := by
  refine .step hr hk ?_
  unfold after
  cases hs : w.step L t with
  | error e =>
    rw [hs] at h
    cases h
  | ok w' => rfl

def sampleSwapped : Mapped :=
  let p : Pod :=
    ⟨.init, 0, ⟨⟨fun _ => 0⟩, false, false⟩, .none, "", none, 0, .null, [], false, 0, 0⟩
  ((⟨p, fun _ => none, false, []⟩ : Mapped).after Session.sampleLayout .initToLocal).after
    Session.sampleLayout (.localToDisk "swap")

theorem sampleSwapped_run :
    Run Session.sampleLayout [.localToDisk "swap", .initToLocal] sampleSwapped :=
  ((Run.start _ _).next (by simp [Unused, Transition.pick]) rfl).next
    (by simp [Unused, Transition.pick]) rfl

theorem sampleSwapped_unused {t : Transition} (ht : t.pick = some 8192) :
    sampleSwapped.Unused Session.sampleLayout t := by
  intro a ha
  obtain rfl : 8192 = a := Option.some.inj (ht.symm.trans ha)
  decide

theorem copies_unmapped_sample :
    Run Session.sampleLayout [.diskToLocalPinned (some 8192), .localToDisk "swap", .initToLocal]
      (sampleSwapped.after Session.sampleLayout (.diskToLocalPinned (some 8192))) ∧
    (sampleSwapped.after Session.sampleLayout (.diskToLocalPinned (some 8192))).maps = [4096] := by
  have hr := sampleSwapped_run.next (t := .diskToLocalPinned (some 8192))
    (sampleSwapped_unused rfl) (by decide)
  refine ⟨hr, ?_⟩
  have hmaps := (copies_unmapped hr).1.mpr (by simp [Transition.prefetchesDisk])
  rw [hmaps]
  decide

/-- A page is prefetched from disk: the second mapping stays. -/
theorem disk_prefetch_keeps_copy :
    Run Session.sampleLayout [.diskToDiskCache (some 8192), .localToDisk "swap", .initToLocal]
      (sampleSwapped.after Session.sampleLayout (.diskToDiskCache (some 8192))) ∧
    (sampleSwapped.after Session.sampleLayout (.diskToDiskCache (some 8192))).pod.state =
      .diskCache ∧
    (sampleSwapped.after Session.sampleLayout (.diskToDiskCache (some 8192))).maps =
      [8192, 4096] := by
  have hr := sampleSwapped_run.next (t := .diskToDiskCache (some 8192))
    (sampleSwapped_unused rfl) (by decide)
  exact ⟨hr, by decide, by decide⟩

end Mapped

end Remon
