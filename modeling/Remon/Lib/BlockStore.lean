import Mathlib.Data.Set.Function
import Remon.Lib.Traces

/-! # Stores of blocks

What a program expects of its memory. A store has blocks, every block has cells, and the cells of
the blocks have values. Blocks come and go as a whole, a new one has no cell of another, and a cell
has the value that was written to it last. What a system does to its memory beyond that is idle
here.
-/

namespace Remon.Lib

/-- The values of cells outside of the blocks mean nothing. -/
structure BlockStore (B A V : Type) where
  blocks : Set B
  value : A → V

namespace BlockStore

variable {B A V : Type}

inductive Event (B A V : Type) where
  | malloc (b : B)
  | free (b : B)
  | write (a : A) (v : V)
  | idle
  deriving DecidableEq

section Steps

variable (cells : B → Set A)

def owned (s : BlockStore B A V) : Set A := {a | ∃ b ∈ s.blocks, a ∈ cells b}

inductive Step (s : BlockStore B A V) : Event B A V → BlockStore B A V → Prop
  | malloc {b : B} {t : BlockStore B A V} (hfresh : ∀ a ∈ cells b, a ∉ s.owned cells)
      (hblocks : t.blocks = insert b s.blocks)
      (hvalue : Set.EqOn t.value s.value (s.owned cells)) : Step s (.malloc b) t
  | free {b : B} {t : BlockStore B A V} (hb : b ∈ s.blocks) (hblocks : t.blocks = s.blocks \ {b})
      (hvalue : Set.EqOn t.value s.value (t.owned cells)) : Step s (.free b) t
  | write {a : A} {v : V} {t : BlockStore B A V} (ha : a ∈ s.owned cells)
      (hblocks : t.blocks = s.blocks) (hself : t.value a = v)
      (hvalue : Set.EqOn t.value s.value (s.owned cells \ {a})) : Step s (.write a v) t
  | idle {t : BlockStore B A V} (hblocks : t.blocks = s.blocks)
      (hvalue : Set.EqOn t.value s.value (s.owned cells)) : Step s .idle t

end Steps

/-- The value of the cell `a` after the events, if it was `v` before them. -/
def latest [DecidableEq A] (a : A) (v : V) (es : List (Event B A V)) : V :=
  es.foldl (fun v e => match e with
    | .write x w => if x = a then w else v
    | _ => v) v

section Latest

variable [DecidableEq A] {a : A} {v : V} {es : List (Event B A V)}

@[simp] theorem latest_concat_malloc {b : B} : latest a v (es ++ [.malloc b]) = latest a v es := by
  simp [latest]

@[simp] theorem latest_concat_free {b : B} : latest a v (es ++ [.free b]) = latest a v es := by
  simp [latest]

@[simp] theorem latest_concat_write {x : A} {w : V} :
    latest a v (es ++ [.write x w]) = if x = a then w else latest a v es := by
  simp [latest]

@[simp] theorem latest_concat_idle : latest a v (es ++ [.idle]) = latest a v es := by
  simp [latest]

end Latest

variable {cells : B → Set A} {s t : BlockStore B A V} {e : Event B A V} {es : List (Event B A V)}
  {a : A} {b : B}

theorem mem_owned (hb : b ∈ s.blocks) (ha : a ∈ cells b) : a ∈ s.owned cells := ⟨b, hb, ha⟩

theorem Step.mem_blocks (h : Step cells s e t) (hb : b ∈ s.blocks) (hfree : e ≠ .free b) :
    b ∈ t.blocks := by
  cases h with
  | malloc _ hblocks =>
    rw [hblocks]
    exact Set.mem_insert_of_mem _ hb
  | free _ hblocks =>
    rw [hblocks]
    refine ⟨hb, ?_⟩
    rintro rfl
    exact hfree rfl
  | write _ hblocks => rwa [hblocks]
  | idle hblocks => rwa [hblocks]

/-- As long as its block is not freed, a cell has the value that was written to it last. -/
theorem value_of_traces [DecidableEq A] (h : Traces (Step cells) s es t) (hb : b ∈ s.blocks)
    (hfree : .free b ∉ es) (ha : a ∈ cells b) :
    b ∈ t.blocks ∧ t.value a = latest a (s.value a) es := by
  induction h with
  | refl => exact ⟨hb, rfl⟩
  | @step es t u e ht hstep ih =>
    rw [List.mem_append, List.mem_singleton, not_or] at hfree
    obtain ⟨hbt, hval⟩ := ih hfree.1
    have hbu := hstep.mem_blocks hbt (Ne.symm hfree.2)
    refine ⟨hbu, ?_⟩
    cases hstep with
    | malloc _ _ hvalue =>
      rw [latest_concat_malloc, ← hval]
      exact hvalue (mem_owned hbt ha)
    | free _ _ hvalue =>
      rw [latest_concat_free, ← hval]
      exact hvalue (mem_owned hbu ha)
    | @write x w _ _ _ hself hvalue =>
      rw [latest_concat_write]
      by_cases hx : x = a
      · rw [if_pos hx, ← hx]
        exact hself
      · rw [if_neg hx, ← hval]
        exact hvalue ⟨mem_owned hbt ha, fun hc => hx hc.symm⟩
    | idle _ hvalue =>
      rw [latest_concat_idle, ← hval]
      exact hvalue (mem_owned hbt ha)

end BlockStore

end Remon.Lib
