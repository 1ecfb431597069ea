import Mathlib.Tactic
import Mathlib.Data.Int.Log

/-! # Quotients of sizes in double precision

A positive double of the normal range is a rational number with a significand of 53 bits.
Conversions and divisions round to the nearest one, ties to even. The numbers here are sizes and
their quotients, which are far from the limits of the range of exponents.
-/

namespace Remon.Lib.Double

def nearest (q : ℚ) : ℤ :=
  if q - ⌊q⌋ < 1 / 2 then ⌊q⌋
  else if 1 / 2 < q - ⌊q⌋ then ⌊q⌋ + 1
  else if ⌊q⌋ % 2 = 0 then ⌊q⌋ else ⌊q⌋ + 1

def ulp (q : ℚ) : ℚ := 2 ^ (Int.log 2 q - 52)

def round (q : ℚ) : ℚ := nearest (q / ulp q) * ulp q

def ceilDiv (a b : ℕ) : ℕ := ⌈round (round a / round b)⌉₊

theorem nearest_intCast (k : ℤ) : nearest k = k := by
  simp [nearest]

theorem le_nearest (q : ℚ) : q - 1 / 2 ≤ nearest q := by
  have h := Int.lt_floor_add_one q
  unfold nearest
  split
  · linarith
  split
  · push_cast
    linarith
  split
  · linarith
  · push_cast
    linarith

theorem nearest_le (q : ℚ) : nearest q ≤ q + 1 / 2 := by
  have h := Int.floor_le q
  unfold nearest
  split
  · linarith
  split
  · push_cast
    linarith
  split
  · linarith
  · push_cast
    linarith

variable {q : ℚ}

theorem ulp_pos (q : ℚ) : 0 < ulp q := by
  unfold ulp
  positivity

theorem ulp_le (hq : 0 < q) : ulp q * 2 ^ 52 ≤ q := by
  have h := Int.zpow_log_le_self (b := 2) (by norm_num) hq
  have hu : ulp q * 2 ^ 52 = (2 : ℚ) ^ Int.log 2 q := by
    rw [ulp, zpow_sub₀ (by norm_num)]
    norm_num
  rw [hu]
  exact_mod_cast h

theorem le_round (hq : 0 < q) : q - q / 2 ^ 53 ≤ round q := by
  have hu := ulp_pos q
  have h1 := mul_le_mul_of_nonneg_right (le_nearest (q / ulp q)) hu.le
  have h2 := ulp_le hq
  rw [sub_mul, div_mul_cancel₀ q hu.ne'] at h1
  unfold round
  linarith

theorem round_le (hq : 0 < q) : round q ≤ q + q / 2 ^ 53 := by
  have hu := ulp_pos q
  have h1 := mul_le_mul_of_nonneg_right (nearest_le (q / ulp q)) hu.le
  have h2 := ulp_le hq
  rw [add_mul, div_mul_cancel₀ q hu.ne'] at h1
  unfold round
  linarith

theorem round_pos (hq : 0 < q) : 0 < round q := by
  have h := le_round hq
  linarith

theorem round_natCast {k : ℕ} (hk : 0 < k) (hlt : k < 2 ^ 53) : round k = k := by
  have hlog : Nat.log 2 k ≤ 52 := Nat.lt_succ_iff.mp (Nat.log_lt_of_lt_pow hk.ne' hlt)
  have hulp : ulp k = (2 ^ (52 - Nat.log 2 k) : ℚ)⁻¹ := by
    rw [ulp, Int.log_natCast, ← zpow_natCast, ← zpow_neg, Nat.cast_sub hlog]
    congr 1
    push_cast
    ring
  have hint : (k : ℚ) / ulp k = ((k * 2 ^ (52 - Nat.log 2 k) : ℤ) : ℚ) := by
    rw [hulp, div_inv_eq_mul]
    push_cast
    ring
  have hu := (ulp_pos (k : ℚ)).ne'
  rw [round, hint, nearest_intCast, ← hint, div_mul_cancel₀ _ hu]

/-- As many pages as the quotient says hold `a` bytes, if they hold less than `2 ^ 52`. -/
theorem le_ceilDiv_mul {a b : ℕ} (ha : 0 < a) (hb : 0 < b) (hb' : b < 2 ^ 53)
    (hlt : ceilDiv a b * b < 2 ^ 52) : a ≤ ceilDiv a b * b := by
  have hbq : (0 : ℚ) < b := by exact_mod_cast hb
  have haq : (0 : ℚ) < a := by exact_mod_cast ha
  have hra := round_pos haq
  have hdiv : 0 < round a / b := div_pos hra hbq
  have hle : round (round a / b) ≤ (ceilDiv a b : ℚ) := by
    rw [ceilDiv, round_natCast hb hb']
    exact Nat.le_ceil _
  have hq := le_round hdiv
  -- both roundings together lose little
  have hmul : (round a - round a / 2 ^ 53) ≤ ceilDiv a b * b := by
    have h := mul_le_mul_of_nonneg_right (hq.trans hle) hbq.le
    have he : (round a / b - round a / b / 2 ^ 53) * b = round a - round a / 2 ^ 53 := by
      field_simp
    rwa [he] at h
  have hltq : (ceilDiv a b * b : ℚ) < 2 ^ 52 := by exact_mod_cast hlt
  have hsmall : a < 2 ^ 53 := by
    have h := le_round haq
    have : (a : ℚ) < 2 ^ 53 := by linarith
    exact_mod_cast this
  rw [round_natCast ha hsmall] at hmul
  have hsmallq : (a : ℚ) < 2 ^ 53 := by exact_mod_cast hsmall
  have hone : (a : ℚ) - 1 < ceilDiv a b * b := by
    have : (a : ℚ) / 2 ^ 53 < 1 := by
      rw [div_lt_one (by positivity)]
      exact hsmallq
    linarith
  have : a < ceilDiv a b * b + 1 := by
    have h : (a : ℚ) < ceilDiv a b * b + 1 := by linarith
    exact_mod_cast h
  omega

theorem ceilDiv_pos {a b : ℕ} (ha : 0 < a) (hb : 0 < b) : 0 < ceilDiv a b := by
  have hbq : (0 : ℚ) < b := by exact_mod_cast hb
  have haq : (0 : ℚ) < a := by exact_mod_cast ha
  exact Nat.ceil_pos.mpr (round_pos (div_pos (round_pos haq) (round_pos hbq)))

/-- For integers of at most 53 bits the rounding of the quotient does not pass an integer, so
the result is that of the division of integers. -/
theorem ceilDiv_eq {a b : ℕ} (ha : 0 < a) (ha' : a < 2 ^ 53) (hb : 0 < b) (hb' : b < 2 ^ 53) :
    ceilDiv a b = (a + b - 1) / b := by
  set n := (a + b - 1) / b with hn
  have hdiv : n * b ≤ a + b - 1 := Nat.div_mul_le_self _ _
  have hmod : a + b - 1 < (n + 1) * b := Nat.lt_mul_of_div_lt (Nat.lt_succ_self _) hb
  rw [Nat.add_mul, Nat.one_mul] at hmod
  have hlow : (n : ℚ) * b + 1 ≤ a + b := by exact_mod_cast (by omega : n * b + 1 ≤ a + b)
  have hpos : n ≠ 0 := by
    intro h0
    rw [h0] at hmod
    omega
  have hbq : (0 : ℚ) < b := by exact_mod_cast hb
  have haq : (0 : ℚ) < a := by exact_mod_cast ha
  have hq : (0 : ℚ) < a / b := div_pos haq hbq
  have herr : (a : ℚ) / b / 2 ^ 53 < 1 / b := by
    have hlt : (a : ℚ) < 2 ^ 53 := by exact_mod_cast ha'
    rw [div_right_comm, div_lt_div_iff_of_pos_right hbq, div_lt_one (by positivity)]
    exact hlt
  rw [ceilDiv, round_natCast ha ha', round_natCast hb hb', Nat.ceil_eq_iff hpos]
  constructor
  · have h1 : ((n - 1 : ℕ) : ℚ) + 1 / b ≤ a / b := by
      rw [Nat.cast_sub (Nat.one_le_iff_ne_zero.mpr hpos), le_div_iff₀ hbq, add_mul,
        one_div_mul_cancel hbq.ne', sub_mul]
      push_cast
      linarith
    have h2 := le_round hq
    linarith
  · by_cases hex : a = n * b
    · have hself : (a : ℚ) / b = (n : ℕ) := by
        rw [hex, Nat.cast_mul, mul_div_assoc, div_self hbq.ne', mul_one]
      have hna : n ≤ a := by
        rw [hex]
        exact Nat.le_mul_of_pos_right n hb
      rw [hself, round_natCast (Nat.pos_of_ne_zero hpos) (hna.trans_lt ha')]
    · have hlt : (a : ℚ) + 1 ≤ n * b := by exact_mod_cast (by omega : a + 1 ≤ n * b)
      have h1 : (a : ℚ) / b + 1 / b ≤ n := by
        rw [← add_div, div_le_iff₀ hbq]
        exact hlt
      have h2 := round_le hq
      linarith

example : ceilDiv 8193 4096 = 3 := by decide +kernel

end Remon.Lib.Double
