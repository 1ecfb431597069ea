import Remon.Remote.Client

/-! # Texts on the wire

Requests and replies are words separated by blanks; the first word is the number of a
function and the others are numbers too. A number that is written out is read back by
`stoi` and `stol`, and the words of a text are found again by `tokenizeString`.
-/

namespace Remon
open List

/-- A number as a stream writes it. -/
def decimal (n : ℕ) : List UInt8 :=
  if n = 0 then [48] else (Nat.digits 10 n).reverse.map fun d => UInt8.ofNat (48 + d)

/-- The number that a text starts with, as a `long`. -/
def stol (s : List UInt8) : Except Fault ℤ :=
  let (neg, s) := signOf (s.dropWhile isSpace)
  let digits := s.takeWhile isDigit
  let n : ℤ := digits.foldl (fun acc d => acc * 10 + (d.toNat - 48 : ℤ)) 0
  let v := if neg then -n else n
  if digits.isEmpty then .error .uncaught
  else if v < -2 ^ 63 ∨ 2 ^ 63 ≤ v then .error .uncaught
  else .ok v

def words (ws : List (List UInt8)) : List UInt8 := [32].intercalate ws

def cString (buffer : List UInt8) : List UInt8 := buffer.takeWhile (· ≠ 0)

def padded (size : ℕ) (text : List UInt8) : List UInt8 :=
  text ++ List.replicate (size - text.length) 0

/-! ## Numbers -/

theorem decimal_ne_nil (n : ℕ) : decimal n ≠ [] := by
  unfold decimal
  split
  · simp
  · simp [Nat.digits_ne_nil_iff_ne_zero, *]

theorem toNat_digit {d : ℕ} (h : d < 10) : (UInt8.ofNat (48 + d)).toNat = 48 + d := by
  rw [UInt8.toNat_ofNat']
  omega

theorem isDigit_digit {d : ℕ} (h : d < 10) : isDigit (UInt8.ofNat (48 + d)) = true := by
  interval_cases d <;> rfl

theorem isDigit_of_mem_decimal {n : ℕ} {c : UInt8} (h : c ∈ decimal n) : isDigit c = true := by
  unfold decimal at h
  split at h
  · rw [mem_singleton.mp h]
    rfl
  · obtain ⟨d, hd, rfl⟩ := mem_map.mp h
    exact isDigit_digit (Nat.digits_lt_base (by norm_num) (mem_reverse.mp hd))

theorem foldl_decimal (n : ℕ) :
    (decimal n).foldl (fun acc d => acc * 10 + (d.toNat - 48 : ℤ)) 0 = n := by
  unfold decimal
  split
  next h =>
    rw [h]
    rfl
  next =>
    rw [foldl_map, foldl_reverse]
    have hdigits : ∀ l : List ℕ, (∀ d ∈ l, d < 10) →
        l.foldr (fun d acc => acc * 10 + ((UInt8.ofNat (48 + d)).toNat - 48 : ℤ)) 0 =
          (Nat.ofDigits 10 l : ℕ) := by
      intro l hl
      induction l with
      | nil => rfl
      | cons d l ih =>
        rw [foldr_cons, ih (fun e he => hl e (mem_cons_of_mem _ he)),
          toNat_digit (hl d mem_cons_self), Nat.ofDigits_cons]
        push_cast
        ring
    rw [hdigits _ (fun d hd => Nat.digits_lt_base (by norm_num) hd), Nat.ofDigits_digits]

theorem decimal_injective : Function.Injective decimal := by
  intro m n h
  have := foldl_decimal m
  rw [h, foldl_decimal] at this
  exact_mod_cast this.symm

theorem isSpace_of_isDigit {c : UInt8} (h : isDigit c = true) : isSpace c = false := by
  simp only [isDigit, Bool.and_eq_true, decide_eq_true_eq, UInt8.le_iff_toNat_le] at h
  have h1 : 48 ≤ c.toNat := h.1
  have h2 : c ≠ 32 := by
    rintro rfl
    simp at h1
  have h3 : ¬ c ≤ 13 := by
    rw [UInt8.le_iff_toNat_le]
    change ¬ c.toNat ≤ 13
    omega
  simp [isSpace, h2, h3]

theorem ne_zero_of_isDigit {c : UInt8} (h : isDigit c = true) : c ≠ 0 := by
  rintro rfl
  cases h

theorem signOf_of_isDigit {s : List UInt8} (h : ∀ c ∈ s, isDigit c = true) :
    signOf s = (false, s) := by
  unfold signOf
  split
  next t => cases h 45 mem_cons_self
  next t => cases h 43 mem_cons_self
  next => rfl

theorem dropWhile_decimal (n : ℕ) : (decimal n).dropWhile isSpace = decimal n := by
  cases h : decimal n with
  | nil => rfl
  | cons c s =>
    rw [dropWhile_cons_of_neg]
    have := isDigit_of_mem_decimal (n := n) (h ▸ mem_cons_self)
    simp [isSpace_of_isDigit this]

theorem takeWhile_decimal (n : ℕ) : (decimal n).takeWhile isDigit = decimal n :=
  takeWhile_eq_self_iff.mpr fun _ hc => isDigit_of_mem_decimal hc

theorem stoi_decimal {n : ℕ} (h : n < 2 ^ 31) : stoi (decimal n) = .ok n := by
  have hs := signOf_of_isDigit (s := decimal n) (fun _ hc => isDigit_of_mem_decimal hc)
  have hne : (decimal n).isEmpty = false := by simp [decimal_ne_nil]
  simp only [stoi, dropWhile_decimal, hs, takeWhile_decimal, foldl_decimal, hne]
  rw [if_neg (by simp), if_neg (by omega)]
  simp

theorem stol_decimal {n : ℕ} (h : n < 2 ^ 63) : stol (decimal n) = .ok n := by
  have hs := signOf_of_isDigit (s := decimal n) (fun _ hc => isDigit_of_mem_decimal hc)
  have hne : (decimal n).isEmpty = false := by simp [decimal_ne_nil]
  simp only [stol, dropWhile_decimal, hs, takeWhile_decimal, foldl_decimal, hne]
  rw [if_neg (by simp), if_neg (by omega)]
  simp

theorem length_decimal_le {n k : ℕ} (hk : 0 < k) (h : n < 10 ^ k) : (decimal n).length ≤ k := by
  unfold decimal
  split
  · exact hk
  · rw [length_map, length_reverse]
    exact (Nat.digits_length_le_iff (by norm_num) n).mpr h

/-! ## Words -/

def IsWord (w : List UInt8) : Prop := w ≠ [] ∧ ∀ c ∈ w, isSpace c = false ∧ c ≠ 0

theorem isWord_decimal (n : ℕ) : IsWord (decimal n) :=
  ⟨decimal_ne_nil n, fun _ hc => ⟨isSpace_of_isDigit (isDigit_of_mem_decimal hc),
    ne_zero_of_isDigit (isDigit_of_mem_decimal hc)⟩⟩

theorem words_cons_cons (v w : List UInt8) (ws : List (List UInt8)) :
    words (v :: w :: ws) = v ++ 32 :: words (w :: ws) := by
  simp [words, intercalate_cons_cons]

theorem tokenizeString_words {ws : List (List UInt8)} (h : ∀ w ∈ ws, IsWord w) :
    tokenizeString (words ws) = ws := by
  induction ws with
  | nil => rfl
  | cons w ws ih =>
    have hw := h w mem_cons_self
    have hspace : ∀ c ∈ w, isSpace c = false := fun c hc => (hw.2 c hc).1
    cases ws with
    | nil =>
      rw [words, intercalate_singleton, tokenizeString, splitOnP_eq_singleton hspace]
      simp [hw.1]
    | cons v ws =>
      have ih' := ih (fun x hx => h x (mem_cons_of_mem _ hx))
      rw [words_cons_cons, tokenizeString,
        splitOnP_append_cons_of_forall_mem hspace 32 rfl, filter_cons_of_pos]
      · exact congrArg (w :: ·) ih'
      · simp [hw.1]

theorem ne_zero_of_mem_words {ws : List (List UInt8)} (h : ∀ w ∈ ws, IsWord w) {c : UInt8}
    (hc : c ∈ words ws) : c ≠ 0 := by
  induction ws with
  | nil => cases hc
  | cons w ws ih =>
    cases ws with
    | nil =>
      rw [words, intercalate_singleton] at hc
      exact ((h w mem_cons_self).2 c hc).2
    | cons v ws =>
      rw [words_cons_cons, mem_append, mem_cons] at hc
      rcases hc with hc | rfl | hc
      · exact ((h w mem_cons_self).2 c hc).2
      · decide
      · exact ih (fun x hx => h x (mem_cons_of_mem _ hx)) hc

theorem words_ne_nil {w : List UInt8} (ws : List (List UInt8)) (h : w ≠ []) :
    words (w :: ws) ≠ [] := by
  cases ws with
  | nil => rwa [words, intercalate_singleton]
  | cons v ws => simp [words_cons_cons]

theorem length_words_le {ws : List (List UInt8)} {k : ℕ} (h : ∀ w ∈ ws, w.length ≤ k) :
    (words ws).length ≤ ws.length * (k + 1) := by
  induction ws with
  | nil => simp [words]
  | cons w ws ih =>
    have hw := h w mem_cons_self
    have ih' := ih (fun v hv => h v (mem_cons_of_mem _ hv))
    have hlen : (words (w :: ws)).length ≤ w.length + 1 + (words ws).length := by
      cases ws with
      | nil => simp [words]
      | cons v ws =>
        rw [words_cons_cons, length_append, length_cons]
        omega
    rw [length_cons, Nat.add_mul, one_mul]
    omega

theorem cString_eq {text : List UInt8} (h : ∀ c ∈ text, c ≠ 0) (n : ℕ) :
    cString (text ++ List.replicate n 0) = text := by
  rw [cString, takeWhile_append_of_pos]
  · cases n with
    | zero => simp
    | succ n => simp [replicate_succ]
  · simpa using h

end Remon
