import Remon.Arena.TopLevelAllocator
import Remon.Lib.Yields

/-! # The marks of the pages

The allocator reads the field `headPod` for its messages only. A pod that is created has the null
pointer there, as a pod that does not exist counts here, so an allocation leaves all marks as they
are. A release marks the pages of its block, and no others.
-/

namespace Remon.Arena
open Function Lib Fault List

namespace State

/-- The field `headPod` of a pod; null for one that was not created. -/
def headOf (a : State) (i : ℕ) : HeadPod := ((a.pods i).map PageTag.headPod).getD .null

variable {a b : State} {R : Region} {i j n : ℕ}

theorem headOf_of_pods {t : PageTag} (h : a.pods i = some t) : a.headOf i = t.headPod := by
  rw [headOf, h]
  rfl

theorem headOf_put_self {t : PageTag} : (a.put i t).headOf i = t.headPod := by
  apply headOf_of_pods
  exact update_self ..

theorem headOf_put_of_ne {t : PageTag} (h : j ≠ i) : (a.put i t).headOf j = a.headOf j := by
  rw [headOf, put]
  dsimp only
  rw [update_of_ne h]
  rfl

theorem headOf_mapForPodI : (a.mapForPodI i).headOf = a.headOf := by
  funext j
  rw [mapForPodI]
  split
  case isTrue hn =>
    by_cases hj : j = i
    · rw [hj, headOf_put_self, headOf, hn]
      rfl
    · exact headOf_put_of_ne hj
  case isFalse => rfl

def KeepsHeads (a : State) (x : Except Fault State) : Prop :=
  Yields (fun _ => True) x (fun b => b.headOf = a.headOf)

namespace KeepsHeads

theorem ok (h : b.headOf = a.headOf) : KeepsHeads a (.ok b) := h

theorem bind {x : Except Fault State} {f : State → Except Fault State} (hx : KeepsHeads a x)
    (hf : ∀ b, KeepsHeads b (f b)) : KeepsHeads a (x >>= f) := by
  apply Yields.bind hx
  intro b hb
  exact (hf b).mono fun b' hb' => hb'.trans hb

/-- The call goes on with another state that has the same marks. -/
theorem of_eq {x : Except Fault State} (h : b.headOf = a.headOf) (hx : KeepsHeads b x) :
    KeepsHeads a x :=
  hx.mono fun _ hb' => hb'.trans h

theorem read {β : Type} {x : Except Fault β} {f : β → Except Fault State}
    (hf : ∀ r, KeepsHeads a (f r)) : KeepsHeads a (x >>= f) := by
  cases x with
  | error e => trivial
  | ok r => exact hf r

end KeepsHeads

theorem keepsHeads_modify {f : PageTag → PageTag} (hf : ∀ t, (f t).headPod = t.headPod) :
    KeepsHeads a (a.modify i f) := by
  rw [modify, getPod]
  cases ht : a.pods i with
  | none => trivial
  | some t =>
    change (a.put i (f t)).headOf = a.headOf
    funext j
    by_cases hj : j = i
    · rw [hj, headOf_put_self, hf, headOf_of_pods ht]
    · exact headOf_put_of_ne hj

theorem keepsHeads_setTag {f : Bool} : KeepsHeads a (a.setTag i n f) :=
  keepsHeads_modify fun _ => rfl

theorem keepsHeads_setNext {x : Option ℕ} : KeepsHeads a (a.setNext i x) :=
  keepsHeads_modify fun _ => rfl

theorem keepsHeads_setPrev {x : Option ℕ} : KeepsHeads a (a.setPrev i x) :=
  keepsHeads_modify fun _ => rfl

theorem keepsHeads_setPrevOf {o x : Option ℕ} : KeepsHeads a (a.setPrevOf o x) := by
  cases o with
  | none => exact .ok rfl
  | some i => exact keepsHeads_setPrev

theorem keepsHeads_setNextOf {o x : Option ℕ} : KeepsHeads a (a.setNextOf o x) := by
  cases o with
  | none => exact .ok rfl
  | some i => exact keepsHeads_setNext

theorem keepsHeads_setFreeOnFooter : KeepsHeads a (a.setFreeOnFooter i) := by
  apply KeepsHeads.read
  intro t
  split
  · trivial
  · exact .of_eq headOf_mapForPodI keepsHeads_setTag

theorem keepsHeads_hugePodMapAddEntry : KeepsHeads a (a.hugePodMapAddEntry i) := by
  apply KeepsHeads.read
  intro t
  split
  · apply KeepsHeads.of_eq (b := a.setMap (a.hugePodMap.insert t.globalSize i)) rfl
    apply KeepsHeads.bind keepsHeads_setPrev
    intro b
    exact .bind keepsHeads_setNext fun _ => keepsHeads_setFreeOnFooter
  · apply KeepsHeads.bind keepsHeads_setNext
    intro b
    apply KeepsHeads.bind keepsHeads_setPrev
    intro b
    apply KeepsHeads.bind keepsHeads_setPrev
    intro b
    exact .of_eq (b := b.setMap (b.hugePodMap.insert t.globalSize i)) rfl
      keepsHeads_setFreeOnFooter

theorem keepsHeads_hugePodMapRemoveEntry : KeepsHeads a (a.hugePodMapRemoveEntry i) := by
  apply KeepsHeads.read
  intro t
  split
  · exact .ok rfl
  · split
    · exact .bind keepsHeads_setNextOf fun _ => keepsHeads_setPrevOf
    · split
      · split
        · trivial
        · exact .ok rfl
      · rename_i next _
        apply KeepsHeads.of_eq (b := a.setMap (a.hugePodMap.insert t.globalSize next)) rfl
        exact .bind keepsHeads_setPrev fun _ => keepsHeads_setNext

theorem keepsHeads_initGlobalFreePodList : KeepsHeads a (a.initGlobalFreePodList R) := by
  apply KeepsHeads.of_eq (b := (a.mapForPodI R.first).mapForPodI R.last)
    (headOf_mapForPodI.trans headOf_mapForPodI)
  rw [initGlobalFreePodList]
  apply KeepsHeads.bind (keepsHeads_modify (f := fun t =>
    { t with globalSize := R.podCount, prev := none, next := none, isFree := true }) fun _ => rfl)
  intro b
  exact .bind keepsHeads_setTag fun _ => keepsHeads_hugePodMapAddEntry

/-! ## Allocation -/

theorem unlinkBlock_heads {freeHeadPod currPod : ℕ} :
    Yields (fun _ => True) (a.unlinkBlock freeHeadPod currPod)
      (fun r => r.2.headOf = a.headOf) := by
  rw [unlinkBlock]
  cases a.getPod currPod with
  | error e => trivial
  | ok t =>
    have hrest : ∀ b : State, b.headOf = a.headOf → ∀ o : Option ℕ, Yields (fun _ => True) (do
        let b ← b.setNextOf t.prev t.next
        let b ← b.setPrevOf t.next t.prev
        return (o, b)) (fun r => r.2.headOf = a.headOf) := by
      intro b hb o
      apply Yields.bind (keepsHeads_setNextOf (a := b))
      intro b' hb'
      apply Yields.bind (keepsHeads_setPrevOf (a := b'))
      intro b'' hb''
      exact hb''.trans (hb'.trans hb)
    rw [ok_bind]
    dsimp only
    split
    · apply Yields.bind (keepsHeads_setPrevOf (a := a))
      intro b hb
      exact hrest b hb _
    · exact hrest a rfl _

theorem keepsHeads_setFooter {f : Bool} : KeepsHeads a (a.setFooter i n f) := by
  rw [setFooter]
  split
  · exact .of_eq headOf_mapForPodI keepsHeads_setTag
  · exact .ok rfl

theorem keepsHeads_addResidual : KeepsHeads a (a.addResidual i n) := by
  apply KeepsHeads.bind (.of_eq headOf_mapForPodI keepsHeads_setTag)
  intro b
  exact .bind keepsHeads_setFooter fun _ => keepsHeads_hugePodMapAddEntry

theorem keepsHeads_takeBlock {sizeClass freeHeadPod currPod : ℕ} :
    KeepsHeads a (a.takeBlock sizeClass freeHeadPod currPod n) := by
  apply Yields.bind unlinkBlock_heads
  rintro ⟨head, b⟩ hb
  apply KeepsHeads.of_eq hb
  apply KeepsHeads.read
  intro t
  apply KeepsHeads.bind keepsHeads_setTag
  intro b'
  apply KeepsHeads.bind keepsHeads_setFooter
  intro b''
  generalize (match head with
    | none => b''.hugePodMap.erase sizeClass
    | some h => b''.hugePodMap.insert sizeClass h) = map
  apply KeepsHeads.of_eq (b := b''.setMap map) rfl
  dsimp only
  split
  · exact keepsHeads_addResidual
  · exact .ok rfl

/-- An allocation leaves the marks as they are. -/
theorem allocateNPages_heads {ptr : Option ℕ} (run : a.allocateNPages R n = .ok (ptr, b)) :
    b.headOf = a.headOf := by
  rw [allocateNPages] at run
  split at run
  · cases run
    rfl
  · split at run
    · cases run
    · split at run
      · cases run
      · obtain ⟨o, -, run⟩ := of_bind_ok run
        cases o with
        | none =>
          cases run
          rfl
        | some currPod =>
          obtain ⟨b', hb', run⟩ := of_bind_ok run
          cases run
          exact keepsHeads_takeBlock.result hb'

/-! ## Release -/

theorem collectRight_heads {fuel currI freedSize : ℕ} :
    Yields (fun _ => True) (collectRight R fuel a currI freedSize)
      (fun r => r.2.headOf = a.headOf) := by
  induction fuel generalizing a currI freedSize with
  | zero => trivial
  | succ fuel ih =>
    rw [collectRight]
    cases a.getPod currI with
    | error e => trivial
    | ok t =>
      rw [ok_bind]
      dsimp only
      by_cases hlast : currI + t.globalSize > R.last
      · rw [if_pos hlast]
        rfl
      · rw [if_neg hlast]
        have hreport : (if t.globalSize = 0 then a.report .sizeZero else a).headOf = a.headOf := by
          split <;> rfl
        generalize (if t.globalSize = 0 then a.report .sizeZero else a) = a' at hreport ⊢
        split
        · exact hreport
        · split
          · exact hreport
          · split
            · apply Yields.bind (keepsHeads_hugePodMapRemoveEntry (a := a'))
              intro b hb
              exact ih.mono fun r hr => hr.trans (hb.trans hreport)
            · exact hreport

theorem keepsHeads_coalescingOnePodRight : KeepsHeads a (a.coalescingOnePodRight R i) := by
  apply KeepsHeads.read
  intro t
  have hreport : (if t.headPod ≠ .deadBeef ∧ t.headPod ≠ .pod i then a.report .middleOfGroup
      else a).headOf = a.headOf := by
    split <;> rfl
  apply KeepsHeads.of_eq hreport
  apply Yields.bind collectRight_heads
  rintro ⟨freedSize, b⟩ hb
  apply KeepsHeads.of_eq hb
  dsimp only
  split
  · exact .ok rfl
  · apply KeepsHeads.read
    intro u
    apply KeepsHeads.bind keepsHeads_setTag
    intro b'
    split
    · exact keepsHeads_setTag
    · exact .ok rfl

theorem modify_heads {f : PageTag → PageTag} {x : HeadPod} (hf : ∀ t, (f t).headPod = x)
    (run : a.modify i f = .ok b) : b.headOf = update a.headOf i x := by
  rw [modify, getPod] at run
  cases ht : a.pods i with
  | none => simp [ht] at run
  | some t =>
    simp only [ht, ok_bind, pure_eq, Except.ok.injEq] at run
    subst run
    funext j
    by_cases hj : j = i
    · rw [hj, headOf_put_self, update_self, hf]
    · rw [headOf_put_of_ne hj, update_of_ne hj]

theorem setHeadPod_heads {x : HeadPod}
    (run : a.modify i (fun t => { t with headPod := x }) = .ok b) :
    b.headOf = update a.headOf i x :=
  modify_heads (fun _ => rfl) run

theorem foldlM_markFree_heads {l : List ℕ} (run : l.foldlM markFree a = .ok b) (j : ℕ) :
    b.headOf j = if j ∈ l then .deadBeef else a.headOf j := by
  induction l generalizing a with
  | nil =>
    cases run
    rfl
  | cons i l ih =>
    rw [foldlM_cons] at run
    obtain ⟨a', ha', run⟩ := of_bind_ok run
    have hmark : a'.headOf = update a.headOf i .deadBeef :=
      modify_heads (f := fun t => { t with headPod := .deadBeef, isFree := true })
        (fun _ => rfl) ha'
    rw [ih run, hmark]
    by_cases hj : j ∈ l
    · rw [if_pos hj, if_pos (mem_cons_of_mem _ hj)]
    · rw [if_neg hj]
      by_cases hji : j = i
      · rw [hji, update_self, if_pos (mem_cons_self ..)]
      · rw [update_of_ne hji, if_neg (by simp [hj, hji])]

theorem hugeFree_heads {t : PageTag} (ht : a.getPod i = .ok t) (run : a.hugeFree R i = .ok b)
    (j : ℕ) : b.headOf j = if i ≤ j ∧ j < i + t.globalSize then .deadBeef else a.headOf j := by
  rw [hugeFree, ht, ok_bind] at run
  have hreport : (if t.headPod ≠ .null ∧ t.headPod ≠ .pod i then a.report .middleOfGroup
      else a).headOf = a.headOf := by
    split <;> rfl
  obtain ⟨a₁, h1, run⟩ := of_bind_ok run
  obtain ⟨a₂, h2, run⟩ := of_bind_ok run
  obtain ⟨a₃, h3, run⟩ := of_bind_ok run
  have hlast : b.headOf = a₂.headOf := (keepsHeads_hugePodMapAddEntry.result run).trans
    ((keepsHeads_modify (a := a₂) (i := i) (f := fun t => { t with isFree := true })
      (fun _ => rfl)).result h3)
  rw [hlast, foldlM_markFree_heads h2, keepsHeads_coalescingOnePodRight.result h1, hreport]
  simp only [mem_range'_1]

end State

end Remon.Arena
