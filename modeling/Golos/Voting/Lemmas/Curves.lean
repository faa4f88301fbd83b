import Golos.Voting.Impl.Payout

/-!
This module contains the curves as functions of all shares so far. They grow with the shares, so the
weights of single votes are differences that cannot be negative.
-/

namespace Golos

section approxSqrt

/-- What the mantissa of a number with highest bit `m` contributes to its square root. -/
def sqrtMantissa (m f : Nat) : Nat :=
  ((if m % 2 = 1 then 2 ^ (m / 2) else 0) + f / 2 ^ (m - m / 2)) / 2

theorem two_pow_or {k b : Nat} (h : b < 2 ^ k) : 2 ^ k ||| b = 2 ^ k + b := by
  have := Nat.two_pow_add_eq_or_of_lt h 1
  rw [mul_one] at this
  exact this.symm

theorem div_two_pow_lt {m f : Nat} (h : f < 2 ^ m) : f / 2 ^ (m - m / 2) < 2 ^ (m / 2) := by
  apply Nat.div_lt_of_lt_mul
  rw [← pow_add]
  have : m - m / 2 + m / 2 = m := by omega
  rw [this]
  exact h

theorem sqrtMantissa_lt {m f : Nat} (h : f < 2 ^ m) : sqrtMantissa m f < 2 ^ (m / 2) := by
  have := div_two_pow_lt h
  have := Nat.two_pow_pos (m / 2)
  unfold sqrtMantissa
  split
  . omega
  . omega

theorem approxSqrt_eq {x : Nat} (hx : x ≠ 0) :
    approxSqrt x = 2 ^ (x.log2 / 2) + sqrtMantissa x.log2 (x % 2 ^ x.log2) := by
  have hf : x % 2 ^ x.log2 < 2 ^ x.log2 := Nat.mod_lt _ (Nat.two_pow_pos _)
  have hlt := sqrtMantissa_lt hf
  have hlo := div_two_pow_lt hf
  unfold approxSqrt
  rw [if_neg hx]
  dsimp only
  simp only [Nat.one_shiftLeft, Nat.and_two_pow_sub_one_eq_mod, Nat.and_one_is_mod,
    Nat.shiftRight_eq_div_pow, pow_one]
  have hor : (if x.log2 % 2 = 1 then 2 ^ (x.log2 / 2) else 0) |||
      x % 2 ^ x.log2 / 2 ^ (x.log2 - x.log2 / 2) =
      (if x.log2 % 2 = 1 then 2 ^ (x.log2 / 2) else 0) +
        x % 2 ^ x.log2 / 2 ^ (x.log2 - x.log2 / 2) := by
    split
    . exact two_pow_or hlo
    . rw [Nat.zero_or, zero_add]
  rw [hor]
  exact two_pow_or hlt

theorem sqrtMantissa_mono {m f g : Nat} (h : f ≤ g) : sqrtMantissa m f ≤ sqrtMantissa m g := by
  unfold sqrtMantissa
  apply Nat.div_le_div_right
  exact Nat.add_le_add_left (Nat.div_le_div_right h) _

theorem approxSqrt_mono {x y : Nat} (h : x ≤ y) : approxSqrt x ≤ approxSqrt y := by
  by_cases hx : x = 0
  . subst hx
    exact Nat.zero_le _
  have hy : y ≠ 0 := by omega
  have hlog : x.log2 ≤ y.log2 := by
    rw [Nat.le_log2 hy]
    exact (Nat.log2_self_le hx).trans h
  have hxlt : x % 2 ^ x.log2 < 2 ^ x.log2 := Nat.mod_lt _ (Nat.two_pow_pos _)
  rw [approxSqrt_eq hx, approxSqrt_eq hy]
  have hmantissa := sqrtMantissa_lt hxlt
  rcases lt_or_eq_of_le (Nat.div_le_div_right (c := 2) hlog) with hhalf | hhalf
  . -- the highest bits of the roots differ
    have hpow : 2 ^ (x.log2 / 2 + 1) ≤ 2 ^ (y.log2 / 2) := Nat.pow_le_pow_right (by omega) hhalf
    rw [pow_succ] at hpow
    omega
  . rw [hhalf]
    apply Nat.add_le_add_left
    rcases lt_or_eq_of_le hlog with hlt | heq
    . -- only the second highest bits of the roots differ
      have hdiv := div_two_pow_lt hxlt
      unfold sqrtMantissa
      rw [if_neg (by omega), if_pos (by omega), ← hhalf, zero_add]
      apply Nat.div_le_div_right
      exact hdiv.le.trans (Nat.le_add_right _ _)
    . rw [heq]
      apply sqrtMantissa_mono
      have hxmod : x % 2 ^ y.log2 = x - 2 ^ y.log2 := by
        rw [Nat.mod_eq_sub_mod (heq ▸ Nat.log2_self_le hx), Nat.mod_eq_of_lt]
        have := Nat.lt_log2_self (n := x)
        rw [heq, pow_succ] at this
        omega
      have hymod : y % 2 ^ y.log2 = y - 2 ^ y.log2 := by
        rw [Nat.mod_eq_sub_mod (Nat.log2_self_le hy), Nat.mod_eq_of_lt]
        have := Nat.lt_log2_self (n := y)
        rw [pow_succ] at this
        omega
      rw [hxmod, hymod]
      omega

/-- The square root of a number of 64 bits has 32. -/
theorem approxSqrt_lt {x : Nat} (h : x < 2 ^ 64) : approxSqrt x < 2 ^ 64 := by
  by_cases hx : x = 0
  . subst hx
    decide
  . rw [approxSqrt_eq hx]
    have hlog : x.log2 < 64 := (Nat.log2_lt hx).mpr h
    have hmantissa : sqrtMantissa x.log2 (x % 2 ^ x.log2) < 2 ^ (x.log2 / 2) :=
      sqrtMantissa_lt (Nat.mod_lt _ (Nat.two_pow_pos _))
    have hpow : 2 ^ (x.log2 / 2) ≤ 2 ^ 31 := Nat.pow_le_pow_right (by omega) (by omega)
    omega

/--
A root lies between the arithmetic mean of the nearest power of two below with the number divided by it
and the next integer below; the two cases are an even and an odd highest bit.
-/
theorem approxSqrt_cases {x : Nat} (hx : x ≠ 0) : ∃ a, 0 < a ∧
    (a * a ≤ x ∧ x < 2 * (a * a) ∧ approxSqrt x = a + (x - a * a) / (2 * a) ∨
      2 * (a * a) ≤ x ∧ x < 4 * (a * a) ∧ approxSqrt x = a + x / (4 * a)) := by
  have hle := Nat.log2_self_le hx
  have hlt := Nat.lt_log2_self (n := x)
  have hroot := approxSqrt_eq hx
  have hmod : x % 2 ^ x.log2 = x - 2 ^ x.log2 := by
    rw [pow_succ] at hlt
    rw [Nat.mod_eq_sub_mod hle, Nat.mod_eq_of_lt (by omega)]
  rw [hmod] at hroot
  refine ⟨2 ^ (x.log2 / 2), Nat.two_pow_pos _, ?_⟩
  generalize x.log2 = m at *
  unfold sqrtMantissa at hroot
  rcases Nat.even_or_odd' m with ⟨k, rfl | rfl⟩
  . left
    have hk : 2 * k / 2 = k := by omega
    have hsquare : 2 ^ (2 * k) = 2 ^ k * 2 ^ k := by rw [two_mul, pow_add]
    rw [if_neg (by omega), zero_add, hk, show 2 * k - k = k by omega, hsquare,
      Nat.div_div_eq_div_mul, mul_comm _ 2] at hroot
    rw [pow_succ, hsquare] at hlt
    rw [hsquare] at hle
    rw [hk]
    exact ⟨hle, by omega, hroot⟩
  . right
    have hk : (2 * k + 1) / 2 = k := by omega
    have hsquare : 2 ^ (2 * k + 1) = 2 * (2 ^ k * 2 ^ k) := by
      rw [pow_succ, two_mul, pow_add, mul_comm]
    have hpos := Nat.two_pow_pos k
    rw [if_pos (by omega), hk, show 2 * k + 1 - k = k + 1 by omega, hsquare, pow_succ] at hroot
    rw [pow_succ, hsquare] at hlt
    rw [hsquare] at hle
    rw [hk]
    refine ⟨hle, by omega, ?_⟩
    have hwhole : 2 ^ k + (x - 2 * (2 ^ k * 2 ^ k)) / (2 ^ k * 2) = x / (2 ^ k * 2) := by
      have hsplit : x = x - 2 * (2 ^ k * 2 ^ k) + 2 ^ k * 2 * 2 ^ k := by
        rw [mul_right_comm, mul_comm _ 2]
        omega
      conv_rhs => rw [hsplit]
      rw [Nat.add_mul_div_left _ _ (by omega), add_comm]
    rw [hwhole, Nat.div_div_eq_div_mul, mul_assoc, mul_comm (2 ^ k)] at hroot
    exact hroot

theorem approxSqrt_eq_zero {x : Nat} : approxSqrt x = 0 ↔ x = 0 := by
  constructor
  . intro h
    by_contra hx
    obtain ⟨a, hpos, ⟨-, -, ha⟩ | ⟨-, -, ha⟩⟩ := approxSqrt_cases hx
    . rw [h] at ha
      exact absurd ha.symm (Nat.add_pos_left hpos _).ne'
    . rw [h] at ha
      exact absurd ha.symm (Nat.add_pos_left hpos _).ne'
  . rintro rfl
    rfl

theorem sqrt_le_approxSqrt (x : Nat) : x.sqrt ≤ approxSqrt x := by
  by_cases hx : x = 0
  . subst hx
    decide
  have hsquare := Nat.sqrt_le x
  obtain ⟨a, hpos, ⟨hle, -, ha⟩ | ⟨-, -, ha⟩⟩ := approxSqrt_cases hx
  . rw [ha, ← Nat.sub_le_iff_le_add', Nat.le_div_iff_mul_le (by omega)]
    rcases le_total x.sqrt a with hs | hs
    . rw [Nat.sub_eq_zero_of_le hs, zero_mul]
      exact Nat.zero_le _
    . zify [hle, hs] at *
      nlinarith [sq_nonneg ((x.sqrt : ℤ) - a)]
  . rw [ha, ← Nat.sub_le_iff_le_add', Nat.le_div_iff_mul_le (by omega)]
    rcases le_total x.sqrt a with hs | hs
    . rw [Nat.sub_eq_zero_of_le hs, zero_mul]
      exact Nat.zero_le _
    . zify [hs] at *
      nlinarith [sq_nonneg ((x.sqrt : ℤ) - 2 * a)]

/-- A number whose root is below `t` is below what a chord from `A` to `4 * A` allows. -/
theorem chord_lt {x t a b c : Nat} (hsucc : x < t * t) (hchord : 17 * t * a ≤ b * (x + c * (a * a)))
    (hconvex : (b * (x + c * (a * a))) * (b * (x + c * (a * a))) < 289 * (x + 1) * (a * a)) : False := by
  have hsquare := Nat.mul_le_mul hchord hchord
  have hroot : 289 * (x + 1) * (a * a) ≤ 17 * t * a * (17 * t * a) := by
    calc 289 * (x + 1) * (a * a) ≤ 289 * (t * t) * (a * a) :=
          Nat.mul_le_mul_right _ (Nat.mul_le_mul_left _ hsucc)
      _ = 17 * t * a * (17 * t * a) := by ring
  omega

theorem approxSqrt_le_sqrt (x : Nat) : 16 * approxSqrt x ≤ 17 * x.sqrt + 16 := by
  by_cases hx : x = 0
  . subst hx
    decide
  have hsucc : x < (x.sqrt + 1) * (x.sqrt + 1) := Nat.lt_succ_sqrt x
  suffices h : 16 * approxSqrt x < 17 * (x.sqrt + 1) by omega
  generalize x.sqrt + 1 = t at *
  obtain ⟨a, hpos, ⟨hle, hlt, ha⟩ | ⟨hle, hlt, ha⟩⟩ := approxSqrt_cases hx
  . by_contra hge
    rw [ha] at hge
    have hdiv := Nat.div_mul_le_self (x - a * a) (2 * a)
    apply chord_lt hsucc (a := a) (b := 8) (c := 1)
    . generalize (x - a * a) / (2 * a) = q at hge hdiv
      have := Nat.mul_le_mul_right a (not_lt.mp hge)
      zify [hle] at *
      nlinarith
    . have hpos : 0 < a * a := Nat.mul_pos hpos hpos
      generalize a * a = A at *
      zify at *
      nlinarith [mul_nonneg (sub_nonneg.mpr hle) (sub_nonneg.mpr hlt.le)]
  . by_contra hge
    rw [ha] at hge
    have hdiv := Nat.div_mul_le_self x (4 * a)
    apply chord_lt hsucc (a := a) (b := 4) (c := 4)
    . generalize x / (4 * a) = q at hge hdiv
      have := Nat.mul_le_mul_right a (not_lt.mp hge)
      nlinarith
    . have hpos : 0 < a * a := Nat.mul_pos hpos hpos
      generalize a * a = A at *
      zify at *
      nlinarith [mul_nonneg (sub_nonneg.mpr hle) (sub_nonneg.mpr hlt.le)]

end approxSqrt

section bounded

/-- `W(R) = B * R / (R + 2S)` -/
def boundedWeight (r : Nat) : Nat :=
  r * (2 ^ 64 - 1) / (2 * contentConstantS + r)

theorem boundedWeight_lt (r : Nat) : boundedWeight r < 2 ^ 64 := by
  unfold boundedWeight
  apply Nat.div_lt_of_lt_mul
  rw [contentConstantS]
  omega

theorem boundedWeight_mono {r r' : Nat} (h : r ≤ r') : boundedWeight r ≤ boundedWeight r' := by
  have hpos : 0 < 2 * contentConstantS + r := by
    rw [contentConstantS]
    omega
  have hpos' : 0 < 2 * contentConstantS + r' := by
    rw [contentConstantS]
    omega
  unfold boundedWeight
  rw [Nat.le_div_iff_mul_le hpos']
  have hdiv := Nat.div_mul_le_self (r * (2 ^ 64 - 1)) (2 * contentConstantS + r)
  generalize r * (2 ^ 64 - 1) / (2 * contentConstantS + r) = q at hdiv
  have hq : q ≤ 2 ^ 64 - 1 := by
    by_contra hlarge
    have := Nat.mul_le_mul_right (2 * contentConstantS + r) (Nat.not_le.mp hlarge)
    rw [contentConstantS] at *
    omega
  -- what is added to the shares is added once on the one side and `B` times on the other
  obtain ⟨d, rfl⟩ := Nat.exists_eq_add_of_le h
  have hd : q * d ≤ d * (2 ^ 64 - 1) := by
    rw [Nat.mul_comm d]
    exact Nat.mul_le_mul_right d hq
  calc q * (2 * contentConstantS + (r + d))
      = q * (2 * contentConstantS + r) + q * d := by ring
    _ ≤ r * (2 ^ 64 - 1) + d * (2 ^ 64 - 1) := Nat.add_le_add hdiv hd
    _ = (r + d) * (2 ^ 64 - 1) := by ring

end bounded

end Golos
