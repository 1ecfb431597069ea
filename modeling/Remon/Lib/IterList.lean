import Mathlib.Tactic

/-! # Lists with stable iterators

A node keeps its iterator for as long as it is in the list, whatever is inserted or
erased around it. An iterator is a number that no other node of the list has, and an
insertion uses one that was not used before. Erasing an iterator that designates no
node has no result.
-/

namespace Remon.Lib
open List

structure IterList (α : Type*) where
  nodes : List (ℕ × α)
  fresh : ℕ
  nodup : (nodes.map Prod.fst).Nodup
  lt_fresh : ∀ n ∈ nodes, n.1 < fresh

namespace IterList

variable {α : Type*}

def empty : IterList α := ⟨[], 0, nodup_nil, by simp⟩

variable (l : IterList α)

def values : List α := l.nodes.map Prod.snd

/-- The iterator `it` designates a node with the element `x`. -/
def At (it : ℕ) (x : α) : Prop := (it, x) ∈ l.nodes

def pushFront (x : α) : IterList α where
  nodes := (l.fresh, x) :: l.nodes
  fresh := l.fresh + 1
  nodup := by
    refine nodup_cons.mpr ⟨?_, l.nodup⟩
    intro hm
    obtain ⟨n, hn, he⟩ := mem_map.mp hm
    have := l.lt_fresh n hn
    omega
  lt_fresh := by
    intro n hn
    rcases mem_cons.mp hn with rfl | hn
    · exact Nat.lt_succ_self _
    · exact (l.lt_fresh n hn).trans (Nat.lt_succ_self _)

def pushBack (x : α) : IterList α where
  nodes := l.nodes ++ [(l.fresh, x)]
  fresh := l.fresh + 1
  nodup := by
    rw [map_append, nodup_append]
    refine ⟨l.nodup, by simp, ?_⟩
    intro i hi j hj
    obtain ⟨n, hn, rfl⟩ := mem_map.mp hi
    have hlt := l.lt_fresh n hn
    simp only [map_cons, map_nil, mem_singleton] at hj
    omega
  lt_fresh := by
    intro n hn
    rcases mem_append.mp hn with hn | hn
    · exact (l.lt_fresh n hn).trans (Nat.lt_succ_self _)
    · rw [mem_singleton.mp hn]
      exact Nat.lt_succ_self _

/-- The list without the nodes whose iterator is `it`. -/
def without (it : ℕ) : IterList α where
  nodes := l.nodes.filter (fun n => n.1 ≠ it)
  fresh := l.fresh
  nodup := l.nodup.sublist (filter_sublist.map _)
  lt_fresh := fun n hn => l.lt_fresh n (mem_filter.mp hn).1

def erase (it : ℕ) : Option (IterList α) :=
  if it ∈ l.nodes.map Prod.fst then some (l.without it) else none

def popBack : IterList α where
  nodes := l.nodes.dropLast
  fresh := l.fresh
  nodup := l.nodup.sublist ((dropLast_sublist _).map _)
  lt_fresh := fun n hn => l.lt_fresh n (mem_of_mem_dropLast hn)

variable {l}

@[simp] theorem values_empty : (empty : IterList α).values = [] := rfl

@[simp] theorem not_at_empty (it : ℕ) (x : α) : ¬ (empty : IterList α).At it x := by
  simp [At, empty]

@[simp] theorem values_pushFront (x : α) : (l.pushFront x).values = x :: l.values := rfl

@[simp] theorem values_pushBack (x : α) : (l.pushBack x).values = l.values ++ [x] := by
  simp [pushBack, values]

@[simp] theorem values_popBack : l.popBack.values = l.values.dropLast :=
  map_dropLast

theorem at_pushFront {it : ℕ} {x y : α} :
    (l.pushFront x).At it y ↔ (it = l.fresh ∧ y = x) ∨ l.At it y := by
  simp [At, pushFront]

theorem at_pushBack {it : ℕ} {x y : α} :
    (l.pushBack x).At it y ↔ (it = l.fresh ∧ y = x) ∨ l.At it y := by
  simp [At, pushBack, or_comm]

theorem at_without {it j : ℕ} {y : α} : (l.without it).At j y ↔ j ≠ it ∧ l.At j y := by
  simp [At, without, and_comm]

/-- Only the last element loses its node. -/
theorem At.popBack {it : ℕ} {x y : α} (h : l.At it y) (hx : l.values.getLast? = some x)
    (hne : y ≠ x) : l.popBack.At it y := by
  rw [values, List.getLast?_map, Option.map_eq_some_iff] at hx
  obtain ⟨n, hn, rfl⟩ := hx
  obtain ⟨m, hm⟩ := List.getLast?_eq_some_iff.mp hn
  change (it, y) ∈ l.nodes at h
  change (it, y) ∈ l.nodes.dropLast
  rw [hm, dropLast_concat]
  rw [hm, mem_append, mem_singleton] at h
  rcases h with h | rfl
  · exact h
  · exact absurd rfl hne

/-- An iterator designates one element. -/
theorem At.unique {it : ℕ} {x y : α} (hx : l.At it x) (hy : l.At it y) : x = y := by
  have := inj_on_of_nodup_map l.nodup hx hy rfl
  exact congrArg Prod.snd this

theorem erase_of_at {it : ℕ} {x : α} (h : l.At it x) : l.erase it = some (l.without it) :=
  if_pos (mem_map.mpr ⟨_, h, rfl⟩)

theorem values_without [DecidableEq α] {it : ℕ} {x : α} (h : l.At it x) (hn : l.values.Nodup) :
    (l.without it).values = l.values.erase x := by
  rw [hn.erase_eq_filter, values, values, without, filter_map]
  congr 1
  apply filter_congr
  intro n hm
  rw [Function.comp_apply, Bool.eq_iff_iff, decide_eq_true_iff, bne_iff_ne, not_iff_not]
  constructor
  · rintro rfl
    exact At.unique (show l.At n.1 n.2 from hm) h
  · intro he
    have := inj_on_of_nodup_map hn hm h he
    exact congrArg Prod.fst this

end IterList

end Remon.Lib
