import Mathlib.Tactic

/-! # Byte-addressed memory with little-endian machine words

A memory is a total map from addresses to bytes. A word occupies eight
consecutive bytes and its value is a natural number below two to the 64.
The two rules used everywhere are `get_put_self` and `get_put_of_disjoint`:
a stored word is read back, and a store leaves every disjoint word alone.
-/

namespace Remon.Lib
open List

/-- The function is wrapped so that evaluating a store does not repeat it at each read. -/
@[ext] structure Mem where
  read : ℕ → UInt8

namespace Mem

instance : CoeFun Mem (fun _ => ℕ → UInt8) := ⟨Mem.read⟩

def getLe (m : Mem) (a : ℕ) : ℕ → ℕ
  | 0 => 0
  | n + 1 => (m a).toNat + 256 * getLe m (a + 1) n

def putLe (m : Mem) (a v n : ℕ) : Mem :=
  ⟨fun b => if a ≤ b ∧ b < a + n then UInt8.ofNat (v / 256 ^ (b - a)) else m b⟩

def get (m : Mem) (a : ℕ) : ℕ := getLe m a 8

def put (m : Mem) (a v : ℕ) : Mem := putLe m a v 8

theorem getLe_congr {m m' : Mem} {a n : ℕ} (h : ∀ b, a ≤ b → b < a + n → m' b = m b) :
    getLe m' a n = getLe m a n := by
  induction n generalizing a with
  | zero => rfl
  | succ n ih =>
    rw [getLe, getLe, h a le_rfl (by omega), ih]
    intro b hb hb'
    exact h b (by omega) (by omega)

theorem getLe_putLe_self (m : Mem) (a v n : ℕ) : getLe (putLe m a v n) a n = v % 256 ^ n := by
  induction n generalizing m a v with
  | zero => simp [getLe, Nat.mod_one]
  | succ n ih =>
    have hlow : (putLe m a v (n + 1) a).toNat = v % 256 := by
      simp [putLe]
    have hrest : getLe (putLe m a v (n + 1)) (a + 1) n =
        getLe (putLe m (a + 1) (v / 256) n) (a + 1) n := by
      apply getLe_congr
      intro b hb hb'
      have hd : b - a = (b - (a + 1)) + 1 := by omega
      simp only [putLe]
      rw [if_pos ⟨by omega, by omega⟩, if_pos ⟨hb, hb'⟩, hd, pow_succ', Nat.div_div_eq_div_mul]
    rw [getLe, hlow, hrest, ih, pow_succ', Nat.mod_mul]

theorem putLe_apply_of_outside {m : Mem} {a v n b : ℕ} (h : b < a ∨ a + n ≤ b) :
    putLe m a v n b = m b := by
  simp only [putLe]
  rw [if_neg (by omega)]

theorem get_congr {m m' : Mem} {a : ℕ} (h : ∀ b, a ≤ b → b < a + 8 → m' b = m b) :
    get m' a = get m a :=
  getLe_congr h

/-- A stored word is read back, provided it fits in 64 bits. -/
theorem get_put_self (m : Mem) {a v : ℕ} (hv : v < 2 ^ 64) : get (put m a v) a = v := by
  rw [get, put, getLe_putLe_self]
  exact Nat.mod_eq_of_lt (by norm_num at hv ⊢; exact hv)

theorem put_apply_of_outside {m : Mem} {a v b : ℕ} (h : b < a ∨ a + 8 ≤ b) :
    put m a v b = m b :=
  putLe_apply_of_outside h

/-- A store leaves every word that does not overlap it unchanged. -/
theorem get_put_of_disjoint (m : Mem) {a b v : ℕ} (h : a + 8 ≤ b ∨ b + 8 ≤ a) :
    get (put m b v) a = get m a := by
  apply get_congr
  intro x hx hx'
  exact put_apply_of_outside (by omega)

theorem put_put_self (m : Mem) (a v w : ℕ) : (m.put a v).put a w = m.put a w := by
  ext b
  simp only [put, putLe]
  split_ifs <;> rfl

theorem put_comm (m : Mem) {a b : ℕ} (v w : ℕ) (h : a + 8 ≤ b ∨ b + 8 ≤ a) :
    (m.put a v).put b w = (m.put b w).put a v := by
  ext c
  simp only [put, putLe]
  split_ifs <;> first | rfl | omega

def set (m : Mem) (a : ℕ) (v : UInt8) : Mem := ⟨Function.update m a v⟩

theorem set_apply_of_ne {m : Mem} {a b : ℕ} {v : UInt8} (h : b ≠ a) : set m a v b = m b :=
  Function.update_of_ne h _ _

/-- The bytes `[a, a + n)` as a list. -/
def bytes (m : Mem) (a n : ℕ) : List UInt8 := (List.range n).map (fun i => m (a + i))

@[simp] theorem bytes_length (m : Mem) (a n : ℕ) : (bytes m a n).length = n := by
  simp [bytes]

theorem bytes_getD (m : Mem) {a n i : ℕ} (h : i < n) (d : UInt8) :
    (bytes m a n).getD i d = m (a + i) := by
  simp [bytes, List.getD, h]

theorem bytes_congr {m m' : Mem} {a n : ℕ} (h : ∀ b, a ≤ b → b < a + n → m' b = m b) :
    bytes m' a n = bytes m a n := by
  apply map_congr_left
  intro i hi
  exact h _ (by omega) (by have := mem_range.mp hi; omega)

def blit (m : Mem) (a : ℕ) (l : List UInt8) : Mem :=
  ⟨fun b => if a ≤ b ∧ b < a + l.length then l.getD (b - a) 0 else m b⟩

theorem blit_apply_of_outside {m : Mem} {a b : ℕ} {l : List UInt8}
    (h : b < a ∨ a + l.length ≤ b) : blit m a l b = m b := by
  simp only [blit]
  rw [if_neg (by omega)]

theorem blit_apply_of_mem {m : Mem} {a b : ℕ} {l : List UInt8}
    (h : a ≤ b) (h' : b < a + l.length) : blit m a l b = l.getD (b - a) 0 := by
  simp only [blit]
  rw [if_pos ⟨h, h'⟩]

/-- Copying a range of another memory makes the two agree on that range. -/
theorem blit_bytes_apply {m n : Mem} {a b k : ℕ} (h : a ≤ b) (h' : b < a + k) :
    blit m a (bytes n a k) b = n b := by
  rw [blit_apply_of_mem h (by simpa using h'), bytes_getD n (by omega)]
  congr 1
  omega

theorem blit_nil (m : Mem) (a : ℕ) : blit m a [] = m :=
  Mem.ext (funext fun _ => blit_apply_of_outside (Nat.lt_or_ge _ _))

theorem blit_blit (m : Mem) (a : ℕ) (l₁ l₂ : List UInt8) :
    (m.blit a l₁).blit (a + l₁.length) l₂ = m.blit a (l₁ ++ l₂) := by
  ext b
  simp only [blit, length_append, getD_eq_getElem?_getD]
  by_cases h₂ : a + l₁.length ≤ b ∧ b < a + l₁.length + l₂.length
  · rw [if_pos h₂, if_pos (by omega), List.getElem?_append_right (by omega), Nat.sub_sub]
  · rw [if_neg h₂]
    by_cases h₁ : a ≤ b ∧ b < a + l₁.length
    · rw [if_pos h₁, if_pos (by omega), List.getElem?_append_left (by omega)]
    · rw [if_neg h₁, if_neg (by omega)]

/-- A range that starts with a copy reads the copy and then what was there. -/
theorem bytes_blit (m : Mem) {a n : ℕ} {l : List UInt8} (h : l.length ≤ n) :
    (m.blit a l).bytes a n = l ++ m.bytes (a + l.length) (n - l.length) := by
  apply ext_getElem?
  intro i
  by_cases hi : i < l.length
  · rw [List.getElem?_append_left hi]
    simp [bytes, blit, show i < n by omega, hi, getD_eq_getElem?_getD]
  · rw [List.getElem?_append_right (by omega)]
    by_cases hn : i < n
    · simp [bytes, blit, hn, hi, show i - l.length < n - l.length by omega,
        show a + l.length + (i - l.length) = a + i by omega]
    · simp [bytes, hn, show ¬ i - l.length < n - l.length by omega]

def zero (m : Mem) (a n : ℕ) : Mem := ⟨fun b => if a ≤ b ∧ b < a + n then 0 else m b⟩

theorem zero_apply_of_outside {m : Mem} {a n b : ℕ} (h : b < a ∨ a + n ≤ b) :
    zero m a n b = m b := by
  simp only [zero]
  rw [if_neg (by omega)]

theorem zero_apply_of_mem {m : Mem} {a n b : ℕ} (h : a ≤ b) (h' : b < a + n) :
    zero m a n b = 0 := by
  simp only [zero]
  rw [if_pos ⟨h, h'⟩]

end Mem

end Remon.Lib
