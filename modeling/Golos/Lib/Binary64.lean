import Mathlib.Data.Rat.Floor
import Mathlib.Data.Int.Log

/-!
This module contains the rounding of non negative rationals to the normal numbers of the 64 bit
binary floating point format, and the fact that the rounding is monotone.
-/

namespace Binary64

/-- The nearest integer, the even one if there are two of them. -/
def roundEven (q : ℚ) : ℤ :=
  if q - ⌊q⌋ < 1 / 2 then
    ⌊q⌋
  else if 1 / 2 < q - ⌊q⌋ then
    ⌊q⌋ + 1
  else if ⌊q⌋ % 2 = 0 then
    ⌊q⌋
  else
    ⌊q⌋ + 1

/-- The exponent of the last of the 53 significant bits of `q`. -/
def ulpExponent (q : ℚ) : ℤ :=
  Int.log 2 q - 52

/-- Round to 53 significant bits, ties to even. -/
def round (q : ℚ) : ℚ :=
  if q ≤ 0 then
    0
  else
    roundEven (q / (2 : ℚ) ^ ulpExponent q) * (2 : ℚ) ^ ulpExponent q

theorem floor_le_roundEven (q : ℚ) : ⌊q⌋ ≤ roundEven q := by
  unfold roundEven
  split
  . exact le_rfl
  . split
    . omega
    . split
      . exact le_rfl
      . omega

theorem roundEven_le_floor_add_one (q : ℚ) : roundEven q ≤ ⌊q⌋ + 1 := by
  unfold roundEven
  split
  . omega
  . split
    . omega
    . split
      . omega
      . omega

theorem le_roundEven_of_le {q : ℚ} {n : ℤ} (h : (n : ℚ) ≤ q) : n ≤ roundEven q :=
  le_trans (Int.le_floor.mpr h) (floor_le_roundEven q)

theorem roundEven_le_of_le {q : ℚ} {n : ℤ} (h : q ≤ n) : roundEven q ≤ n := by
  rcases lt_or_eq_of_le h with hlt | heq
  . have := Int.floor_lt.mpr hlt
    have := roundEven_le_floor_add_one q
    omega
  . have : roundEven q = n := by
      subst heq
      simp [roundEven]
    omega

theorem roundEven_mono {p q : ℚ} (h : p ≤ q) : roundEven p ≤ roundEven q := by
  rcases lt_or_eq_of_le (Int.floor_le_floor h) with hlt | heq
  . have := roundEven_le_floor_add_one p
    have := floor_le_roundEven q
    omega
  . -- both lie between the same two integers, so only the distance to the lower one decides
    have hfrac : p - ⌊p⌋ ≤ q - ⌊q⌋ := by
      rw [heq]
      linarith
    unfold roundEven
    split
    . have := floor_le_roundEven q
      unfold roundEven at this
      omega
    . next hp =>
      rw [if_neg (show ¬ q - ⌊q⌋ < 1 / 2 by linarith), heq]
      split
      . next hp' =>
        rw [if_pos (by rw [heq] at hfrac; linarith)]
      . split
        . split
          . omega
          . exact le_rfl
        . split
          . omega
          . exact le_rfl

theorem zpow_two_pos (n : ℤ) : (0 : ℚ) < (2 : ℚ) ^ n :=
  zpow_pos (by norm_num) n

theorem round_nonneg (q : ℚ) : 0 ≤ round q := by
  unfold round
  split
  . exact le_rfl
  . next h =>
    have hpos := zpow_two_pos (ulpExponent q)
    have hq : 0 ≤ q / (2 : ℚ) ^ ulpExponent q := div_nonneg (not_le.mp h).le hpos.le
    have : (0 : ℤ) ≤ roundEven (q / (2 : ℚ) ^ ulpExponent q) := le_roundEven_of_le (by simpa using hq)
    have : (0 : ℚ) ≤ (roundEven (q / (2 : ℚ) ^ ulpExponent q) : ℚ) := by exact_mod_cast this
    exact mul_nonneg this hpos.le

private theorem two_pow_ulpExponent_mul (q : ℚ) (n : ℕ) :
    (((2 ^ n : ℤ) : ℚ)) * (2 : ℚ) ^ ulpExponent q = (2 : ℚ) ^ (Int.log 2 q - 52 + n) := by
  unfold ulpExponent
  rw [zpow_add₀ (by norm_num) (Int.log 2 q - 52) (n : ℤ)]
  push_cast
  rw [zpow_natCast]
  ring

/-- A positive number rounds to at least the power of two below it. -/
theorem pow_log_le_round {q : ℚ} (h : 0 < q) : (2 : ℚ) ^ Int.log 2 q ≤ round q := by
  have hpos := zpow_two_pos (ulpExponent q)
  have hlog : (2 : ℚ) ^ Int.log 2 q ≤ q := by
    have := Int.zpow_log_le_self (b := 2) (r := q) (by norm_num) h
    simpa using this
  have heq := two_pow_ulpExponent_mul q 52
  rw [show Int.log 2 q - 52 + ((52 : ℕ) : ℤ) = Int.log 2 q by push_cast; ring] at heq
  have hle : ((2 ^ 52 : ℤ) : ℚ) ≤ q / (2 : ℚ) ^ ulpExponent q := by
    rw [le_div_iff₀ hpos, heq]
    exact hlog
  have hround : ((2 ^ 52 : ℤ) : ℚ) ≤ (roundEven (q / (2 : ℚ) ^ ulpExponent q) : ℚ) := by
    exact_mod_cast le_roundEven_of_le hle
  unfold round
  rw [if_neg (not_le.mpr h), ← heq]
  exact mul_le_mul_of_nonneg_right hround hpos.le

/-- A positive number rounds to at most the power of two above it. -/
theorem round_le_pow_log {q : ℚ} (h : 0 < q) : round q ≤ (2 : ℚ) ^ (Int.log 2 q + 1) := by
  have hpos := zpow_two_pos (ulpExponent q)
  have hlog : q < (2 : ℚ) ^ (Int.log 2 q + 1) := by
    have := Int.lt_zpow_succ_log_self (b := 2) (by norm_num) q
    simpa using this
  have heq := two_pow_ulpExponent_mul q 53
  rw [show Int.log 2 q - 52 + ((53 : ℕ) : ℤ) = Int.log 2 q + 1 by push_cast; ring] at heq
  have hle : q / (2 : ℚ) ^ ulpExponent q ≤ ((2 ^ 53 : ℤ) : ℚ) := by
    rw [div_le_iff₀ hpos, heq]
    exact hlog.le
  have hround : (roundEven (q / (2 : ℚ) ^ ulpExponent q) : ℚ) ≤ ((2 ^ 53 : ℤ) : ℚ) := by
    exact_mod_cast roundEven_le_of_le hle
  unfold round
  rw [if_neg (not_le.mpr h), ← heq]
  exact mul_le_mul_of_nonneg_right hround hpos.le

theorem round_mono {p q : ℚ} (h : p ≤ q) : round p ≤ round q := by
  by_cases hp : p ≤ 0
  . have : round p = 0 := by simp [round, hp]
    rw [this]
    exact round_nonneg q
  . have hp : 0 < p := not_le.mp hp
    have hq : 0 < q := lt_of_lt_of_le hp h
    rcases lt_or_eq_of_le (Int.log_mono_right (b := 2) hp h) with hlt | heq
    . -- a power of two separates numbers of different exponents
      calc
        round p ≤ (2 : ℚ) ^ (Int.log 2 p + 1) := round_le_pow_log hp
        _ ≤ (2 : ℚ) ^ Int.log 2 q := zpow_le_zpow_right₀ (by norm_num) (by omega)
        _ ≤ round q := pow_log_le_round hq
    . have hexp : ulpExponent p = ulpExponent q := by simp [ulpExponent, heq]
      have hpos := zpow_two_pos (ulpExponent q)
      unfold round
      rw [if_neg (not_le.mpr hp), if_neg (not_le.mpr hq), hexp]
      have : roundEven (p / (2 : ℚ) ^ ulpExponent q) ≤ roundEven (q / (2 : ℚ) ^ ulpExponent q) :=
        roundEven_mono (div_le_div_of_nonneg_right h hpos.le)
      have : (roundEven (p / (2 : ℚ) ^ ulpExponent q) : ℚ)
          ≤ (roundEven (q / (2 : ℚ) ^ ulpExponent q) : ℚ) := by exact_mod_cast this
      exact mul_le_mul_of_nonneg_right this hpos.le

end Binary64
