import Mathlib.Tactic

/-! # Null-terminated doubly linked lists

The successor and predecessor fields of the nodes are two functions; `null`
ends the list. `Links` states the links of a path, and a list with anchor `s`
and members `xs` is the path `s :: xs ++ [null]`. The anchor has a successor
field and no predecessor field, so that the cell holding the first pointer of
the list can stand in its place. An edit replaces a piece of the path between
two nodes; every other node keeps both of its fields.
-/

namespace Remon.Lib
open List

variable {α : Type*}

def Links (nx pv : α → α) (null : α) : List α → Prop
  | x :: y :: rest => nx x = y ∧ (y ≠ null → pv y = x) ∧ Links nx pv null (y :: rest)
  | _ => True

def LinkedList (nx pv : α → α) (null s : α) (xs : List α) : Prop :=
  Links nx pv null (s :: xs ++ [null]) ∧ (s :: xs).Nodup ∧ null ∉ xs

variable {nx pv nx' pv' : α → α} {null : α}

theorem links_append (l₁ : List α) (x : α) (l₂ : List α) :
    Links nx pv null (l₁ ++ x :: l₂) ↔
      Links nx pv null (l₁ ++ [x]) ∧ Links nx pv null (x :: l₂) := by
  induction l₁ with
  | nil => simp [Links]
  | cons a l₁ ih =>
    cases l₁ with
    | nil =>
      simp only [cons_append, nil_append, Links, and_true]
      exact and_assoc.symm
    | cons b l₁ =>
      simp only [cons_append, Links] at ih ⊢
      rw [ih]
      simp only [and_assoc]

/-- A path reads the successor of every node but its last and the predecessor
of every node but its first. -/
theorem Links.congr {l : List α} (h : Links nx pv null l)
    (hn : ∀ x ∈ l.dropLast, nx' x = nx x) (hp : ∀ x ∈ l.tail, x ≠ null → pv' x = pv x) :
    Links nx' pv' null l := by
  induction l with
  | nil => trivial
  | cons x l ih =>
    cases l with
    | nil => trivial
    | cons y l =>
      obtain ⟨h1, h2, h3⟩ := h
      refine ⟨(hn x (by simp)).trans h1, fun hy => (hp y (by simp) hy).trans (h2 hy), ?_⟩
      apply ih h3
      · intro z hz
        exact hn z (by simp [hz])
      · intro z hz
        exact hp z (by
          simp only [tail_cons] at hz ⊢
          exact mem_cons_of_mem _ hz)

/-- Between two neighbours `x` and `z` one piece of a path takes the place of another. -/
theorem Links.replace {l₁ l₂ ys zs : List α} {x z : α}
    (h : Links nx pv null (l₁ ++ (x :: ys) ++ z :: l₂)) (hm : Links nx' pv' null (x :: zs ++ [z]))
    (hn : ∀ w ∈ l₁ ++ (z :: l₂).dropLast, nx' w = nx w)
    (hp : ∀ w ∈ (l₁ ++ [x]).tail ++ l₂, w ≠ null → pv' w = pv w) :
    Links nx' pv' null (l₁ ++ (x :: zs) ++ z :: l₂) := by
  rw [append_assoc, cons_append, links_append, ← cons_append] at h ⊢
  rw [links_append (x :: ys)] at h
  rw [links_append (x :: zs)]
  obtain ⟨hl, -, hr⟩ := h
  refine ⟨hl.congr ?_ ?_, hm, hr.congr ?_ ?_⟩
  · intro w hw
    rw [dropLast_concat] at hw
    exact hn w (mem_append_left _ hw)
  · intro w hw
    exact hp w (mem_append_left _ hw)
  · intro w hw
    exact hn w (mem_append_right _ hw)
  · intro w hw
    exact hp w (mem_append_right _ hw)

/-- What follows a node of the list begins with the next member, or with null. -/
theorem append_null_eq (null : α) (l : List α) : ∃ r, l ++ [null] = l.headD null :: r ∧
    (l.headD null ≠ null → l.head? = some (l.headD null)) ∧ ∀ w ∈ r, w ≠ null → w ∈ l.tail := by
  cases l with
  | nil => exact ⟨[], rfl, fun hc => absurd rfl hc, fun w hw => absurd hw not_mem_nil⟩
  | cons z l =>
    refine ⟨l ++ [null], rfl, fun _ => rfl, fun w hw hne => ?_⟩
    exact (mem_append.mp hw).resolve_right fun hc => hne (mem_singleton.mp hc)

namespace LinkedList

variable {s : α} {xs : List α}

/-- A list keeps its members when no field of the anchor or of a member changes. -/
theorem congr (h : LinkedList nx pv null s xs) (hn : ∀ x ∈ s :: xs, nx' x = nx x)
    (hp : ∀ x ∈ xs, pv' x = pv x) : LinkedList nx' pv' null s xs := by
  refine ⟨h.1.congr ?_ ?_, h.2⟩
  · intro x hx
    rw [dropLast_concat] at hx
    exact hn x hx
  · intro x hx hne
    simp only [cons_append, tail_cons, mem_append, mem_singleton] at hx
    exact hp x (hx.resolve_right hne)

theorem nil_iff : LinkedList nx pv null s [] ↔ nx s = null := by
  simp [LinkedList, Links]

/-- The anchor points at the first member, or at null when there is none. -/
theorem head (h : LinkedList nx pv null s xs) : nx s = xs.headD null := by
  obtain ⟨hl, -⟩ := h
  cases xs with
  | nil => exact hl.1
  | cons x xs => exact hl.1

/-- The fields of a member are its neighbours in the list. -/
theorem fields {l₁ l₂ : List α} {x : α} (h : LinkedList nx pv null s (l₁ ++ x :: l₂)) :
    pv x = (s :: l₁).getLast (by simp) ∧ nx x = l₂.headD null := by
  obtain ⟨hl, -, hnull⟩ := h
  have hx : x ≠ null := fun he => hnull (by simp [he])
  have hpre : s :: l₁ = (s :: l₁).dropLast ++ [(s :: l₁).getLast (by simp)] :=
    (dropLast_append_getLast (by simp)).symm
  have he : s :: (l₁ ++ x :: l₂) ++ [null] =
      (s :: l₁).dropLast ++ (s :: l₁).getLast (by simp) :: x :: (l₂ ++ [null]) := by
    conv_lhs => rw [← cons_append, hpre]
    simp
  rw [he, links_append] at hl
  obtain ⟨-, -, hpv, hr⟩ := hl
  refine ⟨hpv hx, ?_⟩
  cases l₂ with
  | nil => exact hr.1
  | cons y l₂ => exact hr.1

theorem ne_getLast {l₁ l₂ : List α} {x w : α} (h : LinkedList nx pv null s (l₁ ++ x :: l₂))
    (hw : w ∈ (s :: l₁).dropLast ++ l₂) :
    w ∈ s :: (l₁ ++ x :: l₂) ∧ w ≠ (s :: l₁).getLast (by simp) := by
  have hnd : (s :: l₁ ++ x :: l₂).Nodup := h.2.1
  rcases mem_append.mp hw with hw | hw
  · refine ⟨mem_append_left (x :: l₂) (mem_of_mem_dropLast hw), ?_⟩
    have hl := (nodup_append.mp hnd).1
    rw [← dropLast_append_getLast (cons_ne_nil s l₁)] at hl
    exact (nodup_append.mp hl).2.2 w hw _ (by simp)
  · refine ⟨mem_append_right (s :: l₁) (mem_cons_of_mem _ hw), ?_⟩
    exact ((nodup_append.mp hnd).2.2 _ (getLast_mem _) w
      (mem_cons_of_mem _ hw)).symm

theorem ne_next {l₁ l₂ : List α} {x z w : α} (h : LinkedList nx pv null s (l₁ ++ x :: z :: l₂))
    (hw : w ∈ l₁ ++ l₂) : w ≠ z := by
  have hnd := nodup_append.mp (nodup_cons.mp h.2.1).2
  rcases mem_append.mp hw with hw | hw
  · exact hnd.2.2 w hw z (by simp)
  · rintro rfl
    exact (nodup_cons.mp (nodup_cons.mp hnd.2.1).2).1 hw

/-- Taking a member out updates the successor of the node before it and the
predecessor of the member after it, and no other field. -/
theorem remove {l₁ l₂ : List α} {x : α} (h : LinkedList nx pv null s (l₁ ++ x :: l₂))
    (hx : nx' ((s :: l₁).getLast (by simp)) = l₂.headD null)
    (hz : ∀ z, l₂.head? = some z → pv' z = (s :: l₁).getLast (by simp))
    (hn : ∀ w ∈ (s :: l₁).dropLast ++ l₂, nx' w = nx w)
    (hp : ∀ w ∈ l₁ ++ l₂.tail, pv' w = pv w) :
    LinkedList nx' pv' null s (l₁ ++ l₂) := by
  obtain ⟨hl, hnd, hnull⟩ := h
  obtain ⟨r, hr, hfirst, htail⟩ := append_null_eq null l₂
  have hpre : s :: l₁ = (s :: l₁).dropLast ++ [(s :: l₁).getLast (by simp)] :=
    (dropLast_append_getLast (by simp)).symm
  refine ⟨?_, ?_, ?_⟩
  · have he : ∀ l, s :: (l₁ ++ (l ++ l₂)) ++ [null] = (s :: l₁).dropLast ++
        ((s :: l₁).getLast (by simp) :: l) ++ l₂.headD null :: r := by
      intro l
      rw [← hr]
      conv_lhs => rw [← cons_append, hpre]
      simp
    rw [show l₁ ++ l₂ = l₁ ++ ([] ++ l₂) from rfl, he]
    refine Links.replace ((he [x]).symm ▸ hl) ⟨hx, fun hc => hz _ (hfirst hc), trivial⟩ ?_ ?_
    · intro w hw
      rw [← hr, dropLast_concat] at hw
      exact hn w hw
    · intro w hw hne
      rw [← hpre] at hw
      rcases mem_append.mp hw with hw | hw
      · exact hp w (mem_append_left _ hw)
      · exact hp w (mem_append_right _ (htail w hw hne))
  · refine hnd.sublist ?_
    exact (append_sublist_append_left (l := l₁)).mpr
      (sublist_cons_self _ _) |>.cons_cons s
  · intro hm
    exact hnull (by
      simp only [mem_append, mem_cons] at hm ⊢
      tauto)

/-- A new first member. -/
theorem push {x : α} (h : LinkedList nx pv null s xs) (hx : x ∉ s :: xs) (hnx : x ≠ null)
    (hs : nx' s = x) (hxp : pv' x = s) (hxn : nx' x = xs.headD null)
    (hz : ∀ z, xs.head? = some z → pv' z = x)
    (hn : ∀ w ∈ xs, nx' w = nx w) (hp : ∀ w ∈ xs.tail, pv' w = pv w) :
    LinkedList nx' pv' null s (x :: xs) := by
  obtain ⟨hl, hnd, hnull⟩ := h
  have hns : s ∉ xs := (nodup_cons.mp hnd).1
  have hxs : x ≠ s ∧ x ∉ xs := by
    simpa only [mem_cons, not_or] using hx
  obtain ⟨r, hr, hfirst, htail⟩ := append_null_eq null xs
  refine ⟨?_, ?_, ?_⟩
  · have hl' : Links nx pv null ([] ++ (s :: []) ++ xs.headD null :: r) := hr ▸ hl
    change Links nx' pv' null ([] ++ (s :: [x]) ++ (xs ++ [null]))
    rw [hr]
    refine hl'.replace ⟨hs, fun _ => hxp, hxn, fun hc => hz _ (hfirst hc), trivial⟩ ?_ ?_
    · intro w hw
      rw [nil_append, ← hr, dropLast_concat] at hw
      exact hn w hw
    · exact fun w hw hne => hp w (htail w hw hne)
  · refine nodup_cons.mpr ⟨?_, nodup_cons.mpr ⟨hxs.2, (nodup_cons.mp hnd).2⟩⟩
    simp only [mem_cons, not_or]
    exact ⟨Ne.symm hxs.1, hns⟩
  · simp only [mem_cons, not_or]
    exact ⟨Ne.symm hnx, hnull⟩

end LinkedList

end Remon.Lib
