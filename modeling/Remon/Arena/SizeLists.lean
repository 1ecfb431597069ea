import Remon.Arena.Abstract
import Remon.Lib.Links

/-! # Tags and size lists of an arena

The fields of the pods are read here as three functions of the page: the boundary
tag and the two links. A write changes one of them at one page, and creating a pod
changes none of the links. `Lists a L` states that for every length `s` the map and
the links of `a` spell the list `L s`; taking a block out and putting one in front
are the two edits.
-/

namespace Remon.Arena
open Function Lib Fault List

namespace State

variable {a a' : State} {i j n p s : ℕ}

/-! ## Reading the pods -/

/-- Length and free mark at page `i`. -/
def tag (a : State) (i : ℕ) : Option (ℕ × Bool) :=
  (a.pods i).map (fun t => (t.globalSize, t.isFree))

def next (a : State) (i : ℕ) : Option ℕ := (a.pods i).bind PageTag.next

def prev (a : State) (i : ℕ) : Option ℕ := (a.pods i).bind PageTag.prev

/-- The pod of page `i` exists. -/
def Made (a : State) (i : ℕ) : Prop := a.pods i ≠ none

theorem made_of_tag {v : ℕ × Bool} (h : a.tag i = some v) : a.Made i := by
  intro hn
  simp [tag, hn] at h

theorem Made.getPod (h : a.Made i) : ∃ t, a.pods i = some t ∧ a.getPod i = .ok t ∧
    a.tag i = some (t.globalSize, t.isFree) ∧ a.next i = t.next ∧ a.prev i = t.prev := by
  obtain ⟨t, ht⟩ := Option.ne_none_iff_exists'.mp h
  exact ⟨t, ht, by rw [State.getPod, ht], by simp [tag, ht], by simp [next, ht], by simp [prev, ht]⟩

/-- Reading a pod whose tag is known. -/
theorem getPod_of_tag {f : Bool} (h : a.tag i = some (n, f)) :
    ∃ t, a.getPod i = .ok t ∧ t.globalSize = n ∧ t.isFree = f ∧ a.next i = t.next ∧
      a.prev i = t.prev := by
  obtain ⟨t, -, hg, ht, hn, hp⟩ := (made_of_tag h).getPod
  rw [h, Option.some.injEq, Prod.mk.injEq] at ht
  exact ⟨t, hg, ht.1.symm, ht.2.symm, hn, hp⟩

/-! ## Writing one pod -/

def adjust (a : State) (i : ℕ) (f : PageTag → PageTag) : State :=
  { a with pods := update a.pods i ((a.pods i).map f) }

def withNext (a : State) (i : ℕ) (x : Option ℕ) : State :=
  a.adjust i (fun t => { t with next := x })

def withPrev (a : State) (i : ℕ) (x : Option ℕ) : State :=
  a.adjust i (fun t => { t with prev := x })

def withTag (a : State) (i n : ℕ) (free : Bool) : State :=
  a.adjust i (fun t => { t with globalSize := n, isFree := free })

theorem modify_eq (h : a.Made i) (f : PageTag → PageTag) : a.modify i f = .ok (a.adjust i f) := by
  obtain ⟨t, ht⟩ := Option.ne_none_iff_exists'.mp h
  simp [modify, getPod, adjust, put, ht]

theorem setNext_eq (h : a.Made i) (x : Option ℕ) : a.setNext i x = .ok (a.withNext i x) :=
  modify_eq h _

theorem setPrev_eq (h : a.Made i) (x : Option ℕ) : a.setPrev i x = .ok (a.withPrev i x) :=
  modify_eq h _

theorem setTag_eq (h : a.Made i) (n : ℕ) (free : Bool) :
    a.setTag i n free = .ok (a.withTag i n free) :=
  modify_eq h _

theorem adjust_pods_of_ne {f : PageTag → PageTag} (h : j ≠ i) :
    (a.adjust i f).pods j = a.pods j :=
  update_of_ne h _ _

@[simp] theorem made_adjust {f : PageTag → PageTag} : (a.adjust i f).Made j ↔ a.Made j := by
  by_cases h : j = i
  · subst h
    simp [Made, adjust]
  · rw [Made, Made, adjust_pods_of_ne h]

theorem adjust_field {β : Type} (g : Option PageTag → β) {f : PageTag → PageTag} :
    (fun j => g ((a.adjust i f).pods j)) =
      update (fun j => g (a.pods j)) i (g ((a.pods i).map f)) := by
  ext j
  by_cases h : j = i
  · subst h
    simp [adjust]
  · rw [update_of_ne h, adjust_pods_of_ne h]

theorem adjust_field_of_keeps {β : Type} (g : Option PageTag → β) {f : PageTag → PageTag}
    (h : ∀ t, g ((some t).map f) = g (some t)) :
    (fun j => g ((a.adjust i f).pods j)) = fun j => g (a.pods j) := by
  rw [adjust_field]
  apply update_eq_self_iff.mpr
  cases ht : a.pods i with
  | none => rfl
  | some t => exact h t

theorem next_adjust {f : PageTag → PageTag} (h : ∀ t, (f t).next = t.next) :
    (a.adjust i f).next = a.next :=
  adjust_field_of_keeps (fun t => t.bind PageTag.next) h

theorem prev_adjust {f : PageTag → PageTag} (h : ∀ t, (f t).prev = t.prev) :
    (a.adjust i f).prev = a.prev :=
  adjust_field_of_keeps (fun t => t.bind PageTag.prev) h

section Fields

variable (x : Option ℕ) (f : Bool)

@[simp] theorem made_withNext : (a.withNext i x).Made j ↔ a.Made j := made_adjust

@[simp] theorem made_withPrev : (a.withPrev i x).Made j ↔ a.Made j := made_adjust

@[simp] theorem made_withTag : (a.withTag i n f).Made j ↔ a.Made j := made_adjust

@[simp] theorem tag_withNext : (a.withNext i x).tag = a.tag :=
  adjust_field_of_keeps (Option.map _) (fun _ => rfl)

@[simp] theorem tag_withPrev : (a.withPrev i x).tag = a.tag :=
  adjust_field_of_keeps (Option.map _) (fun _ => rfl)

theorem tag_withTag (h : a.Made i) : (a.withTag i n f).tag =
    update a.tag i (some (n, f)) := by
  obtain ⟨t, ht⟩ := Option.ne_none_iff_exists'.mp h
  refine (adjust_field (Option.map _)).trans ?_
  rw [ht]
  rfl

theorem next_withNext (h : a.Made i) : (a.withNext i x).next = update a.next i x := by
  obtain ⟨t, ht⟩ := Option.ne_none_iff_exists'.mp h
  refine (adjust_field (fun t => t.bind PageTag.next)).trans ?_
  rw [ht]
  rfl

@[simp] theorem next_withPrev : (a.withPrev i x).next = a.next :=
  next_adjust (fun _ => rfl)

@[simp] theorem next_withTag : (a.withTag i n f).next = a.next :=
  next_adjust (fun _ => rfl)

@[simp] theorem prev_withNext : (a.withNext i x).prev = a.prev :=
  prev_adjust (fun _ => rfl)

theorem prev_withPrev (h : a.Made i) : (a.withPrev i x).prev = update a.prev i x := by
  obtain ⟨t, ht⟩ := Option.ne_none_iff_exists'.mp h
  refine (adjust_field (fun t => t.bind PageTag.prev)).trans ?_
  rw [ht]
  rfl

@[simp] theorem prev_withTag : (a.withTag i n f).prev = a.prev :=
  prev_adjust (fun _ => rfl)

@[simp] theorem map_withNext : (a.withNext i x).hugePodMap = a.hugePodMap := rfl

@[simp] theorem map_withPrev : (a.withPrev i x).hugePodMap = a.hugePodMap := rfl

@[simp] theorem map_withTag : (a.withTag i n f).hugePodMap = a.hugePodMap := rfl

variable (m : OrdMap ℕ)

@[simp] theorem tag_setMap : (a.setMap m).tag = a.tag := rfl

@[simp] theorem next_setMap : (a.setMap m).next = a.next := rfl

@[simp] theorem prev_setMap : (a.setMap m).prev = a.prev := rfl

@[simp] theorem made_setMap : (a.setMap m).Made i ↔ a.Made i := Iff.rfl

@[simp] theorem map_setMap : (a.setMap m).hugePodMap = m := rfl

end Fields

/-! ## Creating a pod -/

theorem mapForPodI_of_made (h : a.Made i) : a.mapForPodI i = a := if_neg h

theorem mapForPodI_pods_of_ne (h : j ≠ i) : (a.mapForPodI i).pods j = a.pods j := by
  unfold mapForPodI
  split
  · exact update_of_ne h _ _
  · rfl

theorem made_mapForPodI : (a.mapForPodI i).Made j ↔ j = i ∨ a.Made j := by
  by_cases h : j = i
  · subst h
    by_cases hm : a.pods j = none <;> simp [Made, mapForPodI, put, hm]
  · simp [Made, mapForPodI_pods_of_ne h, h]

theorem tag_mapForPodI_of_ne (h : j ≠ i) : (a.mapForPodI i).tag j = a.tag j := by
  rw [tag, tag, mapForPodI_pods_of_ne h]

@[simp] theorem next_mapForPodI : (a.mapForPodI i).next = a.next := by
  ext j : 1
  by_cases h : j = i
  · subst h
    by_cases hm : a.pods j = none <;> simp [next, mapForPodI, put, hm, PageTag.new]
  · rw [next, next, mapForPodI_pods_of_ne h]

@[simp] theorem prev_mapForPodI : (a.mapForPodI i).prev = a.prev := by
  ext j : 1
  by_cases h : j = i
  · subst h
    by_cases hm : a.pods j = none <;> simp [prev, mapForPodI, put, hm, PageTag.new]
  · rw [prev, prev, mapForPodI_pods_of_ne h]

@[simp] theorem map_mapForPodI : (a.mapForPodI i).hugePodMap = a.hugePodMap := by
  unfold mapForPodI
  split <;> rfl

@[simp] theorem reports_mapForPodI : (a.mapForPodI i).reports = a.reports := by
  unfold mapForPodI
  split <;> rfl

/-! ## Frames -/

/-- Only pods of `S` differ, none was deleted, and no message was printed but the one about
a pod in the middle of a group. -/
structure Within (S : Set ℕ) (a a' : State) : Prop where
  made : ∀ i, a.Made i → a'.Made i
  same : ∀ i, i ∉ S → a'.pods i = a.pods i
  reports : ∀ r ∈ a'.reports, r ∈ a.reports ∨ r = .middleOfGroup

namespace Within

variable {S T : Set ℕ} {a'' : State}

theorem refl (S : Set ℕ) (a : State) : Within S a a :=
  ⟨fun _ h => h, fun _ _ => rfl, fun _ h => .inl h⟩

theorem trans (h : Within S a a') (h' : Within S a' a'') : Within S a a'' := by
  refine ⟨fun i hi => h'.made i (h.made i hi), ?_, ?_⟩
  · intro i hi
    rw [h'.same i hi, h.same i hi]
  · intro r hr
    rcases h'.reports r hr with hr | hr
    · exact h.reports r hr
    · exact .inr hr

theorem mono (h : Within S a a') (hST : S ⊆ T) : Within T a a' :=
  ⟨h.made, fun i hi => h.same i (fun hs => hi (hST hs)), h.reports⟩

theorem adjust (hi : i ∈ S) (f : PageTag → PageTag) : Within S a (a.adjust i f) :=
  ⟨fun _ h => made_adjust.mpr h, fun _ hj => adjust_pods_of_ne (fun h => hj (h ▸ hi)),
    fun _ h => .inl h⟩

theorem setMap (S : Set ℕ) (m : OrdMap ℕ) : Within S a (a.setMap m) :=
  ⟨fun _ h => h, fun _ _ => rfl, fun _ h => .inl h⟩

theorem mapForPodI (hi : i ∈ S) : Within S a (a.mapForPodI i) := by
  refine ⟨fun j h => made_mapForPodI.mpr (.inr h), ?_, ?_⟩
  · intro j hj
    exact mapForPodI_pods_of_ne (fun h => hj (h ▸ hi))
  · intro r hr
    exact .inl (reports_mapForPodI ▸ hr)

end Within

/-- Writing the tag of a page whose pod may have to be created first. -/
theorem setTag_mapForPodI (a : State) (i n : ℕ) (f : Bool) :
    ∃ b, (a.mapForPodI i).setTag i n f = .ok b ∧
      b.tag = update a.tag i (some (n, f)) ∧ b.next = a.next ∧ b.prev = a.prev ∧
      b.hugePodMap = a.hugePodMap ∧ Within {i} a b := by
  have hm : (a.mapForPodI i).Made i := made_mapForPodI.mpr (.inl rfl)
  refine ⟨_, setTag_eq hm n f, ?_, by simp, by simp, by simp, ?_⟩
  · rw [tag_withTag f hm]
    ext j : 1
    by_cases h : j = i
    · rw [h, update_self, update_self]
    · rw [update_of_ne h, update_of_ne h, tag_mapForPodI_of_ne h]
  · exact (Within.mapForPodI (Set.mem_singleton i)).trans
      (Within.adjust (Set.mem_singleton i) _)

theorem setFreeOnFooter_ok (h : a.tag p = some (n, true)) (hn : 0 < n) :
    ∃ b, a.setFreeOnFooter p = .ok b ∧ b.tag = update a.tag (p + n - 1) (some (n, true)) ∧
      b.next = a.next ∧ b.prev = a.prev ∧ b.hugePodMap = a.hugePodMap ∧
      Within {p + n - 1} a b := by
  obtain ⟨t, hg, hs, hf, -, -⟩ := getPod_of_tag h
  obtain ⟨b, hb, hrest⟩ := setTag_mapForPodI a (p + n - 1) n true
  refine ⟨b, ?_, hrest⟩
  simp [setFreeOnFooter, hg, hs, hf, hn.ne', hb]

/-- Setting the predecessor of the pod a pointer may point at. -/
theorem setPrevOf_ok {o : Option ℕ} (ho : ∀ z, o = some z → a.Made z) (x : Option ℕ) :
    ∃ b, a.setPrevOf o x = .ok b ∧ b.tag = a.tag ∧ b.next = a.next ∧
      (∀ i, b.prev i = if o = some i then x else a.prev i) ∧
      b.hugePodMap = a.hugePodMap ∧ Within {i | o = some i} a b := by
  cases o with
  | none => exact ⟨a, rfl, rfl, rfl, fun _ => rfl, rfl, Within.refl _ _⟩
  | some z =>
    have hz := ho z rfl
    refine ⟨a.withPrev z x, setPrev_eq hz x, by simp, by simp, ?_, rfl,
      Within.adjust (by simp) _⟩
    intro i
    rw [prev_withPrev x hz, update_apply]
    simp [eq_comm]

theorem setNextOf_ok {o : Option ℕ} (ho : ∀ z, o = some z → a.Made z) (x : Option ℕ) :
    ∃ b, a.setNextOf o x = .ok b ∧ b.tag = a.tag ∧ b.prev = a.prev ∧
      (∀ i, b.next i = if o = some i then x else a.next i) ∧
      b.hugePodMap = a.hugePodMap ∧ Within {i | o = some i} a b := by
  cases o with
  | none => exact ⟨a, rfl, rfl, rfl, fun _ => rfl, rfl, Within.refl _ _⟩
  | some z =>
    have hz := ho z rfl
    refine ⟨a.withNext z x, setNext_eq hz x, by simp, by simp, ?_, rfl,
      Within.adjust (by simp) _⟩
    intro i
    rw [next_withNext x hz, update_apply]
    simp [eq_comm]

/-! ## The list of one length -/

def fwd (a : State) (s : ℕ) : Option ℕ → Option ℕ
  | none => a.hugePodMap.get s
  | some i => a.next i

def bwd (a : State) : Option ℕ → Option ℕ
  | none => none
  | some i => a.prev i

def Chain (a : State) (s : ℕ) (xs : List ℕ) : Prop :=
  LinkedList (a.fwd s) a.bwd none none (xs.map some)

theorem headD_map_some (xs : List ℕ) : (xs.map some).headD none = xs.head? := by
  cases xs <;> rfl

theorem getLast_cons_map_some (xs : List ℕ) (h : none :: xs.map some ≠ []) :
    (none :: xs.map some).getLast h = xs.getLast? := by
  induction xs using List.reverseRecOn with
  | nil => rfl
  | append_singleton xs x => simp

namespace Chain

variable {xs l₁ l₂ : List ℕ}

theorem head (h : a.Chain s xs) : a.hugePodMap.get s = xs.head? :=
  (LinkedList.head h).trans (headD_map_some xs)

theorem nodup (h : a.Chain s xs) : xs.Nodup :=
  (nodup_cons.mp h.2.1).2.of_map some

theorem fields (h : a.Chain s (l₁ ++ p :: l₂)) :
    a.prev p = l₁.getLast? ∧ a.next p = l₂.head? := by
  rw [Chain, map_append, map_cons] at h
  have hf := LinkedList.fields h
  rw [getLast_cons_map_some, headD_map_some] at hf
  exact hf

/-- A list is unchanged when its first pointer and the links of its members are. -/
theorem congr (h : a.Chain s xs) (hm : a'.hugePodMap.get s = a.hugePodMap.get s)
    (hn : ∀ i ∈ xs, a'.next i = a.next i) (hp : ∀ i ∈ xs, a'.prev i = a.prev i) :
    a'.Chain s xs := by
  apply LinkedList.congr h
  · intro x hx
    rcases mem_cons.mp hx with rfl | hx
    · exact hm
    · obtain ⟨i, hi, rfl⟩ := mem_map.mp hx
      exact hn i hi
  · intro x hx
    obtain ⟨i, hi, rfl⟩ := mem_map.mp hx
    exact hp i hi

theorem remove (h : a.Chain s (l₁ ++ p :: l₂)) (hx : a'.fwd s l₁.getLast? = l₂.head?)
    (hz : ∀ z, l₂.head? = some z → a'.prev z = l₁.getLast?)
    (hm : l₁ ≠ [] → a'.hugePodMap.get s = a.hugePodMap.get s)
    (hn : ∀ i ∈ l₁.dropLast ++ l₂, a'.next i = a.next i)
    (hp : ∀ i ∈ l₁ ++ l₂.tail, a'.prev i = a.prev i) : a'.Chain s (l₁ ++ l₂) := by
  rw [Chain, map_append, map_cons] at h
  rw [Chain, map_append]
  apply LinkedList.remove h
  · rw [getLast_cons_map_some, headD_map_some]
    exact hx
  · intro z hz'
    obtain ⟨i, hi, rfl⟩ := Option.map_eq_some_iff.mp (List.head?_map ▸ hz')
    rw [getLast_cons_map_some]
    exact hz i hi
  · intro w hw
    cases l₁ with
    | nil =>
      obtain ⟨i, hi, rfl⟩ := mem_map.mp (by simpa using hw)
      exact hn i (by simpa using hi)
    | cons y l₁ =>
      rw [map_cons, dropLast_cons_of_ne_nil (by simp), cons_append,
        mem_cons, ← map_cons, ← map_dropLast, ← map_append] at hw
      rcases hw with rfl | hw
      · exact hm (by simp)
      · obtain ⟨i, hi, rfl⟩ := mem_map.mp hw
        exact hn i hi
  · intro w hw
    rw [← map_tail, ← map_append] at hw
    obtain ⟨i, hi, rfl⟩ := mem_map.mp hw
    exact hp i hi

theorem push (h : a.Chain s xs) (hx : p ∉ xs) (hs : a'.hugePodMap.get s = some p)
    (hxp : a'.prev p = none) (hxn : a'.next p = xs.head?)
    (hz : ∀ z, xs.head? = some z → a'.prev z = some p)
    (hn : ∀ i ∈ xs, a'.next i = a.next i) (hp : ∀ i ∈ xs.tail, a'.prev i = a.prev i) :
    a'.Chain s (p :: xs) := by
  rw [Chain, map_cons]
  apply LinkedList.push h
  · simpa using hx
  · simp
  · exact hs
  · exact hxp
  · rw [headD_map_some]
    exact hxn
  · intro z hz'
    obtain ⟨i, hi, rfl⟩ := Option.map_eq_some_iff.mp (List.head?_map ▸ hz')
    exact hz i hi
  · intro w hw
    obtain ⟨i, hi, rfl⟩ := mem_map.mp hw
    exact hn i hi
  · intro w hw
    rw [← map_tail] at hw
    obtain ⟨i, hi, rfl⟩ := mem_map.mp hw
    exact hp i hi

end Chain

end State

/-! ## All lists -/

/-- The lists of all lengths; a pod is on one of them at most. -/
structure Lists (a : State) (L : ℕ → List ℕ) : Prop where
  chain : ∀ s, a.Chain s (L s)
  apart : ∀ s t i, i ∈ L s → i ∈ L t → s = t
  made : ∀ s, ∀ i ∈ L s, a.Made i

namespace Lists

variable {a a' : State} {L : ℕ → List ℕ} {n p : ℕ} {l₁ l₂ : List ℕ}

theorem congr (h : Lists a L) (hm : a'.hugePodMap = a.hugePodMap) (hn : a'.next = a.next)
    (hp : a'.prev = a.prev) (hmade : ∀ i, a.Made i → a'.Made i) : Lists a' L := by
  refine ⟨?_, h.apart, fun s i hi => hmade i (h.made s i hi)⟩
  intro s
  apply (h.chain s).congr
  · rw [hm]
  · intro i _
    rw [hn]
  · intro i _
    rw [hp]

theorem without_of_split (h : Lists a L) (hL : L n = l₁ ++ p :: l₂) (s : ℕ) :
    without L [p] s = if s = n then l₁ ++ l₂ else L s := by
  have hnd := (h.chain n).nodup
  rw [hL] at hnd
  have hp : p ∉ l₁ ++ l₂ := (nodup_middle.mp hnd).notMem
  by_cases hs : s = n
  · subst hs
    rw [without, hL, if_pos rfl, filter_append, filter_cons_of_neg (by simp),
      ← filter_append]
    apply filter_eq_self.mpr
    intro i hi
    have hne : i ≠ p := fun he => hp (he ▸ hi)
    simpa using hne
  · rw [without, if_neg hs]
    apply filter_eq_self.mpr
    intro i hi
    have hne : i ≠ p := by
      intro he
      exact hs (h.apart s n p (he ▸ hi) (by simp [hL]))
    simpa using hne

/-- The block at `p` leaves the list of its length: its neighbours are linked to each other,
the map is updated when `p` was the first, and every other link stays. -/
theorem remove (h : Lists a L) (hL : L n = l₁ ++ p :: l₂)
    (hx : a'.fwd n l₁.getLast? = l₂.head?)
    (hz : ∀ z, l₂.head? = some z → a'.prev z = l₁.getLast?)
    (hm : ∀ s, s ≠ n ∨ l₁ ≠ [] → a'.hugePodMap.get s = a.hugePodMap.get s)
    (hn : ∀ i, i ≠ p → l₁.getLast? ≠ some i → a'.next i = a.next i)
    (hp : ∀ i, i ≠ p → l₂.head? ≠ some i → a'.prev i = a.prev i)
    (hmade : ∀ i, a.Made i → a'.Made i) : Lists a' (without L [p]) := by
  have hch := h.chain n
  rw [hL] at hch
  have hnd := hch.nodup
  have hpn : p ∉ l₁ ++ l₂ := (nodup_middle.mp hnd).notMem
  have hnd' : (l₁ ++ l₂).Nodup := (nodup_middle.mp hnd).of_cons
  refine ⟨?_, ?_, ?_⟩
  · intro s
    rw [h.without_of_split hL]
    by_cases hs : s = n
    · subst hs
      rw [if_pos rfl]
      apply hch.remove hx hz (fun h1 => hm s (.inr h1))
      · intro i hi
        have hi' : i ∈ l₁ ++ l₂ := by
          rcases mem_append.mp hi with hi | hi
          · exact mem_append_left _ (mem_of_mem_dropLast hi)
          · exact mem_append_right _ hi
        apply hn i (fun he => hpn (he ▸ hi'))
        intro hlast
        obtain ⟨l₀, rfl⟩ := List.getLast?_eq_some_iff.mp hlast
        rw [dropLast_concat] at hi
        rw [append_assoc, singleton_append] at hnd'
        exact (nodup_middle.mp hnd').notMem hi
      · intro i hi
        have hi' : i ∈ l₁ ++ l₂ := by
          rcases mem_append.mp hi with hi | hi
          · exact mem_append_left _ hi
          · exact mem_append_right _ (mem_of_mem_tail hi)
        apply hp i (fun he => hpn (he ▸ hi'))
        intro hhead
        obtain ⟨l₃, rfl⟩ := List.head?_eq_some_iff.mp hhead
        exact (nodup_middle.mp hnd').notMem hi
    · rw [if_neg hs]
      have hout : ∀ i ∈ L s, i ∉ L n := fun i hi hi' => hs (h.apart s n i hi hi')
      apply (h.chain s).congr (hm s (.inl hs))
      · intro i hi
        have := hout i hi
        rw [hL] at this
        apply hn i (fun he => this (by simp [he]))
        intro hlast
        exact this (mem_append_left _ (mem_of_getLast? hlast))
      · intro i hi
        have := hout i hi
        rw [hL] at this
        apply hp i (fun he => this (by simp [he]))
        intro hhead
        exact this (by simp [mem_of_head? hhead])
  · intro s t i hi hj
    exact h.apart s t i (mem_without.mp hi).1 (mem_without.mp hj).1
  · intro s i hi
    exact hmade i (h.made s i (mem_without.mp hi).1)

/-- A block that is on no list goes in front of the list of length `n`. -/
theorem push (h : Lists a L) (hp : ∀ s, p ∉ L s) (hmp : a'.Made p)
    (hm : a'.hugePodMap.get = update a.hugePodMap.get n (some p))
    (hxp : a'.prev p = none) (hxn : a'.next p = (L n).head?)
    (hz : ∀ z, (L n).head? = some z → a'.prev z = some p)
    (hn : ∀ i, i ≠ p → a'.next i = a.next i)
    (hpv : ∀ i, i ≠ p → (L n).head? ≠ some i → a'.prev i = a.prev i)
    (hmade : ∀ i, a.Made i → a'.Made i) : Lists a' (pushFront L n p) := by
  refine ⟨?_, ?_, ?_⟩
  · intro s
    have hne : ∀ i ∈ L s, i ≠ p := fun i hi he => hp s (he ▸ hi)
    by_cases hs : s = n
    · subst hs
      rw [pushFront, update_self]
      apply (h.chain s).push (hp s) (by rw [hm, update_self]) hxp hxn hz
      · exact fun i hi => hn i (hne i hi)
      · intro i hi
        apply hpv i (hne i (mem_of_mem_tail hi))
        intro hhead
        have hnd := (h.chain s).nodup
        obtain ⟨l, hl⟩ := List.head?_eq_some_iff.mp hhead
        rw [hl] at hnd hi
        exact (nodup_cons.mp hnd).1 hi
    · rw [pushFront, update_of_ne hs]
      apply (h.chain s).congr (by rw [hm, update_of_ne hs])
      · exact fun i hi => hn i (hne i hi)
      · intro i hi
        apply hpv i (hne i hi)
        intro hhead
        exact hs (h.apart s n i hi (mem_of_head? hhead))
  · intro s t i hi hj
    rcases mem_pushFront.mp hi with ⟨hs, hip⟩ | hi'
    · rcases mem_pushFront.mp hj with ⟨ht, -⟩ | hj'
      · rw [hs, ht]
      · exact absurd (hip ▸ hj') (hp t)
    · rcases mem_pushFront.mp hj with ⟨-, hip⟩ | hj'
      · exact absurd (hip ▸ hi') (hp s)
      · exact h.apart s t i hi' hj'
  · intro s i hi
    rcases mem_pushFront.mp hi with ⟨-, rfl⟩ | hi
    · exact hmp
    · exact hmade i (h.made s i hi)

end Lists

namespace State

variable {a : State} {L : ℕ → List ℕ} {n p : ℕ}

/-- A free block with its tag in place is put in front of the list of its length, and its
last page gets the same tag. -/
theorem hugePodMapAddEntry_ok (h : Lists a L) (hp : ∀ s, p ∉ L s) (ht : a.tag p = some (n, true))
    (hn : 0 < n) :
    ∃ b, a.hugePodMapAddEntry p = .ok b ∧ Lists b (pushFront L n p) ∧
      b.tag = update a.tag (p + n - 1) (some (n, true)) ∧
      Within {i | i = p ∨ i = p + n - 1 ∨ i ∈ L n} a b := by
  obtain ⟨t, hg, hs, hf, -, -⟩ := getPod_of_tag ht
  have hmade := made_of_tag ht
  have hhead := (h.chain n).head
  cases hL : L n with
  | nil =>
    have hget : a.hugePodMap.get n = none := by rw [hhead, hL]; rfl
    let c := ((a.setMap (a.hugePodMap.insert n p)).withPrev p none).withNext p none
    have hm1 : (a.setMap (a.hugePodMap.insert n p)).Made p := hmade
    have hm2 : ((a.setMap (a.hugePodMap.insert n p)).withPrev p none).Made p := by simpa using hm1
    have hct : c.tag = a.tag := by simp [c]
    have hcn : c.next = update a.next p none := by
      rw [next_withNext none hm2]
      simp
    have hcp : c.prev = update a.prev p none := by
      rw [prev_withNext, prev_withPrev none hm1]
      rfl
    obtain ⟨b, hb, hbt, hbn, hbp, hbm, hbw⟩ := setFreeOnFooter_ok (a := c) (hct ▸ ht) hn
    refine ⟨b, ?_, ?_, by rw [hbt, hct], ?_⟩
    · simp only [hugePodMapAddEntry, hg, ok_bind, hs, hget, setPrev_eq hm1, setNext_eq hm2]
      exact hb
    · have hmb : ∀ i, a.Made i → b.Made i := fun i hi => hbw.made i (by simpa [c] using hi)
      apply h.push hp (hmb p hmade)
      · rw [hbm]
        rfl
      · rw [hbp, hcp, update_self]
      · rw [hbn, hcn, update_self, hL]
        rfl
      · intro z hz
        rw [hL] at hz
        cases hz
      · intro i hi
        rw [hbn, hcn, update_of_ne hi]
      · intro i hi _
        rw [hbp, hcp, update_of_ne hi]
      · exact hmb
    · refine Within.trans ?_ (hbw.mono (by intro i hi; exact .inr (.inl hi)))
      exact ((Within.setMap _ _).trans (Within.adjust (.inl rfl) _)).trans
        (Within.adjust (.inl rfl) _)
  | cons z l =>
    have hget : a.hugePodMap.get n = some z := by rw [hhead, hL]; rfl
    have hz : a.Made z := h.made n z (by simp [hL])
    have hzp : z ≠ p := fun he => hp n (by simp [hL, he])
    have hm1 : (a.withNext p (some z)).Made z := by simpa using hz
    have hm2 : ((a.withNext p (some z)).withPrev z (some p)).Made p := by simpa using hmade
    let d := ((a.withNext p (some z)).withPrev z (some p)).withPrev p none
    let c := d.setMap (d.hugePodMap.insert n p)
    have hct : c.tag = a.tag := by simp [c, d]
    have hcn : c.next = update a.next p (some z) := by
      simp [c, d, next_withNext _ hmade]
    have hcp : c.prev = update (update a.prev z (some p)) p none := by
      rw [prev_setMap, prev_withPrev none hm2, prev_withPrev _ hm1, prev_withNext]
    obtain ⟨b, hb, hbt, hbn, hbp, hbm, hbw⟩ := setFreeOnFooter_ok (a := c) (hct ▸ ht) hn
    refine ⟨b, ?_, ?_, by rw [hbt, hct], ?_⟩
    · simp only [hugePodMapAddEntry, hg, ok_bind, hs, hget, setNext_eq hmade,
        setPrev_eq hm1, setPrev_eq hm2]
      exact hb
    · have hmb : ∀ i, a.Made i → b.Made i := fun i hi => hbw.made i (by simpa [c, d] using hi)
      apply h.push hp (hmb p hmade)
      · rw [hbm]
        rfl
      · rw [hbp, hcp, update_self]
      · rw [hbn, hcn, update_self, hL]
        rfl
      · intro y hy
        rw [hL] at hy
        cases hy
        rw [hbp, hcp, update_of_ne hzp, update_self]
      · intro i hi
        rw [hbn, hcn, update_of_ne hi]
      · intro i hi hh
        have hiz : i ≠ z := fun he => hh (by rw [hL, he]; rfl)
        rw [hbp, hcp, update_of_ne hi, update_of_ne hiz]
      · exact hmb
    · refine Within.trans ?_ (hbw.mono (by intro i hi; exact .inr (.inl hi)))
      exact (((Within.adjust (.inl rfl) _).trans (Within.adjust (.inr (.inr (by simp))) _)).trans
        (Within.adjust (.inl rfl) _)).trans (Within.setMap _ _)

/-- A listed block is taken out of its list; no tag changes and the length is found. -/
theorem hugePodMapRemoveEntry_ok {f : Bool} (h : Lists a L) (hp : p ∈ L n)
    (ht : a.tag p = some (n, f)) :
    ∃ b, a.hugePodMapRemoveEntry p = .ok b ∧ Lists b (without L [p]) ∧ b.tag = a.tag ∧
      Within {i | i ∈ L n} a b := by
  obtain ⟨t, hg, hs, -, htn, htp⟩ := getPod_of_tag ht
  obtain ⟨l₁, l₂, hL⟩ := append_of_mem hp
  have hch := h.chain n
  rw [hL] at hch
  rw [hch.fields.1] at htp
  rw [hch.fields.2] at htn
  have hmem : ∀ i, l₂.head? = some i → i ∈ L n := fun i hi => by
    rw [hL]
    simp [mem_of_head? hi]
  induction l₁ using List.reverseRecOn with
  | nil =>
    have hget : a.hugePodMap.get n = some p := hch.head
    cases l₂ with
    | nil =>
      refine ⟨a.setMap (a.hugePodMap.erase n), ?_, ?_, rfl, Within.setMap _ _⟩
      · simp [hugePodMapRemoveEntry, hg, hs, hget, ← htn, ← htp]
      · apply h.remove hL
        · simp [fwd]
        · intro z hz
          cases hz
        · intro s hs
          simp [hs.resolve_right (by simp)]
        · exact fun _ _ _ => rfl
        · exact fun _ _ _ => rfl
        · exact fun _ hi => hi
    | cons z l₂ =>
      let c := a.setMap (a.hugePodMap.insert n z)
      have hz : c.Made z := h.made n z (hmem z rfl)
      have hpm : (c.withPrev z none).Made p := by simpa [c] using made_of_tag ht
      have hzp : z ≠ p := by
        rintro rfl
        exact (nodup_cons.mp hch.nodup).1 (by simp)
      refine ⟨(c.withPrev z none).withNext p none, ?_, ?_, by simp [c], ?_⟩
      · simp [hugePodMapRemoveEntry, hg, hs, hget, ← htn, c, setPrev_eq hz, setNext_eq hpm]
      · apply h.remove hL
        · simp [fwd, c]
        · intro y hy
          cases hy
          simp [prev_withPrev none hz]
        · intro s hs
          simp [c, hs.resolve_right (by simp)]
        · intro i hi _
          rw [next_withNext none hpm, update_of_ne hi, next_withPrev]
          rfl
        · intro i hi hh
          have hiz : i ≠ z := fun he => hh (by rw [he]; rfl)
          rw [prev_withNext, prev_withPrev none hz, update_of_ne hiz]
          rfl
        · exact fun i hi => by simpa [c] using hi
      · exact ((Within.setMap _ _).trans (Within.adjust (hmem z rfl) _)).trans
          (Within.adjust hp _)
  | append_singleton l₀ x =>
    have hlast : ∀ i, (l₀ ++ [x]).getLast? = some i → i ∈ L n := fun i hi => by
      rw [hL]
      exact mem_append_left _ (mem_of_getLast? hi)
    have hget : ∃ y, a.hugePodMap.get n = some y ∧ y ≠ p := by
      obtain ⟨y, l, hy⟩ := exists_cons_of_ne_nil (concat_ne_nil x l₀)
      refine ⟨y, by rw [hch.head, hy]; rfl, ?_⟩
      rintro rfl
      exact (nodup_middle.mp hch.nodup).notMem (by simp [hy])
    obtain ⟨y, hget, hyp⟩ := hget
    obtain ⟨c, hc, hct, hcp, hcn, hcm, hcw⟩ :=
      setNextOf_ok (fun z hz => h.made n z (hlast z hz)) l₂.head?
    obtain ⟨b, hb, hbt, hbn, hbp, hbm, hbw⟩ :=
      setPrevOf_ok (a := c) (fun z hz => hcw.made z (h.made n z (hmem z hz))) (l₀ ++ [x]).getLast?
    refine ⟨b, ?_, ?_, by rw [hbt, hct], (hcw.mono hlast).trans (hbw.mono hmem)⟩
    · simp only [hugePodMapRemoveEntry, hg, ok_bind, hs, hget, ne_eq, hyp, not_false_iff,
        if_true, ← htn, ← htp, hc, hb]
    · apply h.remove hL
      · rw [List.getLast?_concat]
        change b.next x = _
        rw [hbn, hcn, if_pos (by simp)]
      · intro z hz
        rw [hbp, if_pos hz]
      · intro s _
        rw [hbm, hcm]
      · intro i _ hi
        rw [hbn, hcn, if_neg hi]
      · intro i _ hi
        rw [hbp, if_neg hi, hcp]
      · exact fun i hi => hbw.made i (hcw.made i hi)

end State

end Remon.Arena
