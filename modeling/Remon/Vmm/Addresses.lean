import Remon.Base
import Remon.Lib.CInt

/-! # From addresses to pods

The pages of the manager lie one after another from `base` on. A fault, a release and the calls
for a range of addresses find the pod of an address by a division; the fault handler does so
with an `int` and looks whether the result is in range, the others use the quotient as it is.
-/

namespace Remon.Vmm
open Lib Fault List

/-- The managed region. A pod exists from the moment its page is first needed; its object is on
the heap of the process and thus outside of the region. -/
structure AddressSpace where
  base : ℕ
  pageSize : ℕ
  podCount : ℕ
  created : ℕ → Bool
  object : ℕ → ℕ
  base_pos : 0 < base
  page_pos : 0 < pageSize
  fits : base + podCount * pageSize ≤ 2 ^ 64
  object_pos : ∀ i, 0 < object i
  object_lt : ∀ i, object i < 2 ^ 64
  outside : ∀ i, object i < base ∨ base + podCount * pageSize ≤ object i

namespace AddressSpace

variable (A : AddressSpace)

/-- The address is in page `i` of the region. -/
def InPage (i addr : ℕ) : Prop :=
  i < A.podCount ∧ A.base + i * A.pageSize ≤ addr ∧ addr < A.base + (i + 1) * A.pageSize

instance (i addr : ℕ) : Decidable (A.InPage i addr) := inferInstanceAs (Decidable (_ ∧ _))

def getPayload (i : ℕ) : ℕ := A.base + i * A.pageSize

def podAt (n : ℕ) : Except Fault (Option ℕ) :=
  if n < A.podCount then .ok (if A.created n then some n else none) else .error .undefined

def deref : Option ℕ → Except Fault ℕ
  | some i => .ok i
  | none => .error .undefined

/-- The pod that `activateAddress` acts on. -/
def activateAddress (address : ℕ) : Except Fault ℕ := do
  let podI := toInt (ptrDiff address A.base / A.pageSize)
  if podI < 0 ∨ toSize podI ≥ A.podCount then throw (.exit (-1))
  let podOfInterest ← A.podAt (toSize podI)
  deref podOfInterest

def getResponsiblePod (addr : ℕ) : Except Fault (Option ℕ) :=
  if addr = 0 then .ok none else A.podAt (ptrDiff addr A.base / A.pageSize)

variable {A} {i j addr : ℕ}

theorem inPage_iff (haddr : addr < 2 ^ 64) :
    A.InPage i addr ↔ i < A.podCount ∧ ptrDiff addr A.base / A.pageSize = i := by
  refine and_congr_right fun hi => ?_
  have hfits := A.fits
  have hpos := A.page_pos
  have hmul : (i + 1) * A.pageSize ≤ A.podCount * A.pageSize := Nat.mul_le_mul_right _ hi
  rw [Nat.div_eq_iff hpos, Nat.succ_mul] at *
  rcases le_or_gt A.base addr with hle | hlt
  · rw [ptrDiff_of_le hle haddr]
    omega
  · rw [ptrDiff_of_lt hlt]
    omega

theorem InPage.unique (hi : A.InPage i addr) (hj : A.InPage j addr) (haddr : addr < 2 ^ 64) :
    i = j :=
  ((inPage_iff haddr).mp hi).2.symm.trans ((inPage_iff haddr).mp hj).2

theorem InPage.lt (hi : A.InPage i addr) : addr < 2 ^ 64 := by
  have hfits := A.fits
  have hmul : (i + 1) * A.pageSize ≤ A.podCount * A.pageSize := Nat.mul_le_mul_right _ hi.1
  have := hi.2.2
  omega

/-- The pod of an address in the region, or a null pointer if it was not created. -/
theorem InPage.getResponsiblePod (hi : A.InPage i addr) :
    A.getResponsiblePod addr = .ok (if A.created i then some i else none) := by
  have hne : addr ≠ 0 := by
    have := A.base_pos
    have := hi.2.1
    omega
  rw [AddressSpace.getResponsiblePod, if_neg hne, ((inPage_iff hi.lt).mp hi).2, podAt, if_pos hi.1]

/-! ## Faults -/

variable (A) in
/-- The number that is left of the distance from `base` in pages when it is an `int`, if that is
not negative. -/
def slot (addr : ℕ) : ℕ := ptrDiff addr A.base / A.pageSize % 2 ^ 32

theorem activateAddress_eq (addr : ℕ) : A.activateAddress addr =
    if A.podCount ≤ A.slot addr ∨ 2 ^ 31 ≤ A.slot addr then .error (.exit (-1))
    else if A.created (A.slot addr) then .ok (A.slot addr) else .error .undefined := by
  have hint := toInt_eq (ptrDiff addr A.base / A.pageSize)
  change _ = if A.slot addr < 2 ^ 31 then (A.slot addr : ℤ) else (A.slot addr : ℤ) - 2 ^ 32 at hint
  have hlt : A.slot addr < 2 ^ 32 := Nat.mod_lt _ (by decide)
  rcases lt_or_ge (A.slot addr) (2 ^ 31) with hsmall | hbig
  · rw [if_pos hsmall] at hint
    have hsize : toSize (A.slot addr : ℤ) = A.slot addr := toSize_natCast (by omega)
    rcases lt_or_ge (A.slot addr) A.podCount with hin | hout
    · have hno : ¬ ((A.slot addr : ℤ) < 0 ∨ A.slot addr ≥ A.podCount) := by omega
      have hin' : ¬ (A.podCount ≤ A.slot addr ∨ 2 ^ 31 ≤ A.slot addr) := by omega
      simp only [activateAddress, hint, hsize, if_neg hno, if_neg hin', podAt, if_pos hin,
        ok_bind]
      cases A.created (A.slot addr) <;> rfl
    · have hyes : (A.slot addr : ℤ) < 0 ∨ A.slot addr ≥ A.podCount := .inr hout
      simp only [activateAddress, hint, hsize, if_pos hyes, throw_eq, error_bind]
      rw [if_pos (.inl hout)]
  · rw [if_neg (Nat.not_lt.mpr hbig)] at hint
    have hyes : toInt (ptrDiff addr A.base / A.pageSize) < 0 ∨
        toSize (toInt (ptrDiff addr A.base / A.pageSize)) ≥ A.podCount := .inl (by omega)
    simp only [activateAddress, if_pos hyes, throw_eq, error_bind]
    rw [if_pos (.inr hbig)]

variable (A) in
/-- The handler acts on the page of the address if that was created, and exits otherwise. -/
def FindsPod (addr : ℕ) : Prop :=
  (∀ i, A.activateAddress addr = .ok i ↔ A.InPage i addr ∧ A.created i = true) ∧
    ((¬ ∃ i, A.InPage i addr ∧ A.created i = true) → A.activateAddress addr = .error (.exit (-1)))

/-- The handler finds the page of an address if and only if this page was created and its index is
an `int`, or there is no such page and the truncated distance is no index either. -/
theorem fault_address (haddr : addr < 2 ^ 64) :
    A.FindsPod addr ↔ (∀ i, A.InPage i addr → A.created i = true → i < 2 ^ 31) ∧
      ((¬ ∃ i, A.InPage i addr ∧ A.created i = true) →
        A.podCount ≤ A.slot addr ∨ 2 ^ 31 ≤ A.slot addr) := by
  rw [FindsPod, activateAddress_eq]
  constructor
  · rintro ⟨hfound, hexit⟩
    refine ⟨fun i hi hmade => ?_, fun hnone => ?_⟩
    · have hrun := (hfound i).mpr ⟨hi, hmade⟩
      split_ifs at hrun with hout
      have hslot := Except.ok.inj hrun
      omega
    · have hrun := hexit hnone
      split_ifs at hrun with hout
      · exact hout
      · cases hrun
  · rintro ⟨hint, hfar⟩
    by_cases hsome : ∃ i, A.InPage i addr ∧ A.created i = true
    · obtain ⟨n, hn, hmade⟩ := hsome
      have hslot : A.slot addr = n := by
        have := hint n hn hmade
        rw [slot, ((inPage_iff haddr).mp hn).2]
        exact Nat.mod_eq_of_lt (by omega)
      have hin : ¬ (A.podCount ≤ n ∨ 2 ^ 31 ≤ n) := by
        have := hint n hn hmade
        have := hn.1
        omega
      rw [hslot, if_neg hin, if_pos hmade]
      refine ⟨fun i => ?_, fun hnone => absurd ⟨n, hn, hmade⟩ hnone⟩
      rw [Except.ok.injEq]
      constructor
      · rintro rfl
        exact ⟨hn, hmade⟩
      · rintro ⟨hi, -⟩
        exact hn.unique hi haddr
    · rw [if_pos (hfar hsome)]
      exact ⟨fun i => iff_of_false (fun h => nomatch h) fun hi => hsome ⟨i, hi⟩, fun _ => rfl⟩

def sampleSpace : AddressSpace where
  base := 4096
  pageSize := 4096
  podCount := 2
  created := fun i => decide (i = 0)
  object := fun _ => 16
  base_pos := Nat.succ_pos 4095
  page_pos := Nat.succ_pos 4095
  fits := by decide
  object_pos := fun _ => by decide
  object_lt := fun _ => by decide
  outside := fun _ => .inl (by decide)

theorem fault_address_sample : sampleSpace.activateAddress 5000 = .ok 0 ∧
    sampleSpace.activateAddress 4000 = .error (.exit (-1)) := by
  have hin : ∀ {i}, sampleSpace.InPage i 5000 → i = 0 := by
    rintro i ⟨h1, h2, -⟩
    change i < 2 at h1
    change 4096 + i * 4096 ≤ 5000 at h2
    omega
  have hout : ¬ ∃ i, sampleSpace.InPage i 4000 ∧ sampleSpace.created i = true := by
    rintro ⟨i, ⟨-, h2, -⟩, -⟩
    change 4096 + i * 4096 ≤ 4000 at h2
    omega
  have hbelow : sampleSpace.FindsPod 4000 := by
    refine (fault_address (by decide)).mpr ⟨?_, fun _ => .inr (by decide +kernel)⟩
    exact fun i hi hmade => absurd ⟨i, hi, hmade⟩ hout
  have hfirst : sampleSpace.FindsPod 5000 := by
    refine (fault_address (by decide)).mpr ⟨?_, fun hnone => absurd ⟨0, by decide, rfl⟩ hnone⟩
    intro i hi _
    rw [hin hi]
    decide
  exact ⟨(hfirst.1 0).mpr ⟨by decide, rfl⟩, hbelow.2 hout⟩

/-- The handler uses the null pointer of a page that was not created, and it takes an address
`2 ^ 32` pages above the region for one in the first page. -/
theorem fault_address_fails : sampleSpace.InPage 1 8192 ∧ sampleSpace.created 1 = false ∧
    sampleSpace.activateAddress 8192 = .error .undefined ∧
    (∀ i, ¬ sampleSpace.InPage i (2 ^ 44 + 4096)) ∧
    sampleSpace.activateAddress (2 ^ 44 + 4096) = .ok 0 := by
  refine ⟨by decide, rfl, by decide +kernel, ?_, by decide +kernel⟩
  rintro i ⟨h1, -, h3⟩
  change i < 2 at h1
  change 2 ^ 44 + 4096 < 4096 + (i + 1) * 4096 at h3
  omega

/-! ## Ranges -/

inductive RangeOp where
  | remonDemote
  | remonForceUnmap
  | remonForceSwap
  deriving DecidableEq, Repr

variable (A) in
/-- The pod that the operation on `pods[i]` acts on. `remonDemote` gets the payload of the pod,
`remonForceSwap` gets the pointer to the pod itself, and both look for the pod of that address. -/
def apply (op : RangeOp) (i : ℕ) : Except Fault ℕ :=
  match op with
  | .remonForceUnmap => .ok i
  | .remonDemote => do
    let podOfInterest ← A.getResponsiblePod (A.getPayload i)
    deref podOfInterest
  | .remonForceSwap => do
    let podOfInterest ← A.getResponsiblePod (A.object i)
    deref podOfInterest

variable (A) in
def visit (op : RangeOp) (excludePod : Option ℕ) (done : List ℕ) (i : ℤ) :
    Except Fault (List ℕ) := do
  let p ← A.podAt (toSize i)
  if p ≠ excludePod then
    let p ← deref p
    let target ← A.apply op p
    return done ++ [target]
  else return done

variable (A) in
def visits (op : RangeOp) (excludePod : Option ℕ) (first last : ℕ) : Except Fault (List ℕ) :=
  ((List.range (toInt last + 1 - toInt first).toNat).map (fun k : ℕ => toInt first + k)).foldlM
    (A.visit op excludePod) []

variable (A) in
/-- The pods that a call for a range acts on, in order. -/
def range (op : RangeOp) (from_ to_ exclude : ℕ) : Except Fault (List ℕ) :=
  if from_ ≥ to_ then .ok []
  else do
    let fromPod ← A.getResponsiblePod from_
    let toPod ← A.getResponsiblePod to_
    let excludePod ← A.getResponsiblePod exclude
    let first ← deref fromPod
    let last ← deref toPod
    A.visits op excludePod first last

section Loop

variable {op : RangeOp} {excludePod : Option ℕ} {done res : List ℕ}

end Loop

/-- Three pages from address 4096 on, all of them created. -/
def sampleRegion : AddressSpace where
  base := 4096
  pageSize := 4096
  podCount := 3
  created := fun _ => true
  object := fun _ => 16
  base_pos := Nat.succ_pos 4095
  page_pos := Nat.succ_pos 4095
  fits := by decide
  object_pos := fun _ => by decide
  object_lt := fun _ => by decide
  outside := fun _ => .inl (by decide)

end AddressSpace

end Remon.Vmm
