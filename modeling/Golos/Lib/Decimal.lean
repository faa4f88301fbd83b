import Mathlib.Tactic.FieldSimp
import Mathlib.Data.Nat.Digits.Defs

/-!
This module contains numbers as texts of bytes: numerals, signed ones, and ones with a fraction.
-/

namespace Decimal

abbrev Text :=
  List Nat

/-- The digits of a number, the highest first. -/
def numeral (n : Nat) : Text :=
  (Nat.toDigits 10 n).map Char.toNat

def value (s : Text) : Nat :=
  s.foldl (fun acc c => 10 * acc + (c - 48)) 0

def IsDigit (c : Nat) : Prop :=
  48 ≤ c ∧ c ≤ 57

instance (c : Nat) : Decidable (IsDigit c) :=
  inferInstanceAs (Decidable (_ ∧ _))

/-- Some digits. -/
structure IsNumeral (s : Text) : Prop where
  ne_nil : s ≠ []
  digits : ∀ c ∈ s, IsDigit c

/-- A numeral, maybe after a sign. -/
def IsInteger (s : Text) (x : ℤ) : Prop :=
  ∃ digits, IsNumeral digits ∧
    (((s = digits ∨ s = 43 :: digits) ∧ x = value digits) ∨ (s = 45 :: digits ∧ x = -value digits))

def integer (x : ℤ) : Text :=
  if x < 0 then 45 :: numeral x.natAbs else numeral x.natAbs

theorem numeral_eq (n : Nat) :
    numeral n = (if n < 10 then [] else numeral (n / 10)) ++ [48 + n % 10] := by
  have hdigit : ∀ d < 10, (Nat.digitChar d).toNat = 48 + d := by decide
  unfold numeral
  rw [Nat.toDigits_eq_if (by decide)]
  split
  . next hlt =>
    rw [List.map_singleton, hdigit n hlt, Nat.mod_eq_of_lt hlt]
    rfl
  . rw [List.map_append, List.map_singleton, hdigit _ (Nat.mod_lt n (by decide))]

theorem value_append (s t : Text) : value (s ++ t) = value s * 10 ^ t.length + value t := by
  have hfrom : ∀ (t : Text) (acc : Nat),
      t.foldl (fun acc c => 10 * acc + (c - 48)) acc = acc * 10 ^ t.length + value t := by
    intro t
    induction t with
    | nil => intro acc; simp [value]
    | cons c t ih =>
      intro acc
      unfold value
      rw [List.foldl_cons, List.foldl_cons, ih, ih, List.length_cons, Nat.pow_succ]
      ring
  conv => lhs; unfold value
  rw [List.foldl_append, hfrom]
  rfl

theorem value_cons (c : Nat) (s : Text) : value (c :: s) = (c - 48) * 10 ^ s.length + value s := by
  have := value_append [c] s
  simpa [value] using this

theorem value_lt {s : Text} (h : ∀ c ∈ s, IsDigit c) : value s < 10 ^ s.length := by
  induction s with
  | nil => decide
  | cons c s ih =>
    have hc := (h c List.mem_cons_self).2
    have hlt := ih fun c hc => h c (List.mem_cons_of_mem _ hc)
    rw [value_cons, List.length_cons, Nat.pow_succ]
    have hle : (c - 48) * 10 ^ s.length ≤ 9 * 10 ^ s.length := Nat.mul_le_mul_right _ (by omega)
    omega

theorem value_numeral (n : Nat) : value (numeral n) = n := by
  induction n using Nat.strongRecOn with
  | ind n ih =>
    rw [numeral_eq, value_append]
    split
    . simp only [value, List.foldl_nil, List.foldl_cons, List.length_singleton]
      omega
    . rw [ih (n / 10) (by omega)]
      simp only [value, List.foldl_nil, List.foldl_cons, List.length_singleton]
      omega

theorem numeral_ne_nil (n : Nat) : numeral n ≠ [] := by
  rw [numeral_eq]
  exact List.concat_ne_nil _ _

theorem numeral_digits (n : Nat) : ∀ c ∈ numeral n, IsDigit c := by
  intro c hc
  obtain ⟨char, hchar, rfl⟩ := List.mem_map.mp hc
  have hdigit := Nat.isDigit_of_mem_toDigits (by decide) (by decide) hchar
  rw [Char.isDigit_iff_toNat] at hdigit
  exact hdigit

theorem isNumeral_numeral (n : Nat) : IsNumeral (numeral n) :=
  ⟨numeral_ne_nil n, numeral_digits n⟩

theorem length_numeral_le_iff {n k : Nat} (hk : 0 < k) :
    (numeral n).length ≤ k ↔ n < 10 ^ k := by
  unfold numeral
  rw [List.length_map, Nat.length_toDigits_le_iff (by decide) hk]

theorem length_numeral_of_leading_one {d f : Nat} (h : f < 10 ^ d) :
    (numeral (10 ^ d + f)).length = d + 1 := by
  apply Nat.le_antisymm
  . rw [length_numeral_le_iff (Nat.succ_pos d), Nat.pow_succ]
    omega
  . rcases Nat.eq_zero_or_pos d with rfl | hd
    . exact List.length_pos_of_ne_nil (numeral_ne_nil _)
    . have hlong := (length_numeral_le_iff (n := 10 ^ d + f) hd).not.mpr (by omega)
      omega

/-- A leading one keeps the zeros behind it. -/
theorem numeral_leading_one {d f : Nat} (h : f < 10 ^ d) :
    ∃ t, numeral (10 ^ d + f) = 49 :: t ∧ t.length = d ∧ value t = f ∧ ∀ c ∈ t, IsDigit c := by
  have hlength := length_numeral_of_leading_one h
  have hvalue := value_numeral (10 ^ d + f)
  have hdigits := numeral_digits (10 ^ d + f)
  cases hnumeral : numeral (10 ^ d + f) with
  | nil => exact absurd hnumeral (numeral_ne_nil _)
  | cons c t =>
    rw [hnumeral] at hlength hvalue hdigits
    have ht : t.length = d := Nat.succ_injective hlength
    have htdigits : ∀ c ∈ t, IsDigit c := fun c hc => hdigits c (List.mem_cons_of_mem _ hc)
    have hlt := value_lt htdigits
    rw [value_cons, ht] at hvalue
    rw [ht] at hlt
    have hone : c - 48 = 1 := by
      calc c - 48 = ((c - 48) * 10 ^ d + value t) / 10 ^ d := by
            rw [Nat.mul_comm, Nat.mul_add_div (by positivity), Nat.div_eq_of_lt hlt, Nat.add_zero]
        _ = (10 ^ d + f) / 10 ^ d := by rw [hvalue]
        _ = 1 := by rw [Nat.add_div_left _ (by positivity), Nat.div_eq_of_lt h]
    rw [hone, Nat.one_mul] at hvalue
    obtain rfl : c = 49 := by omega
    exact ⟨t, rfl, ht, by omega, htdigits⟩

theorem isInteger_integer (x : ℤ) : IsInteger (integer x) x := by
  unfold integer
  refine ⟨numeral x.natAbs, isNumeral_numeral _, ?_⟩
  rw [value_numeral]
  split
  . right
    exact ⟨rfl, by omega⟩
  . left
    exact ⟨.inl rfl, by omega⟩

section real

/-- A number without its sign. -/
def magnitude (s : Text) : Text :=
  match s with
  | 45 :: rest => rest
  | 43 :: rest => rest
  | rest => rest

/-- What is before the point. -/
def whole (s : Text) : Text :=
  (magnitude s).takeWhile (· ≠ 46)

/-- What is behind the point. -/
def fraction (s : Text) : Text :=
  ((magnitude s).dropWhile (· ≠ 46)).tail

def IsNegative (s : Text) : Prop :=
  s.head? = some 45

instance (s : Text) : Decidable (IsNegative s) :=
  inferInstanceAs (Decidable (_ = _))

/-- The number that a text is, in units of the last place of its fraction. -/
def scaled (s : Text) : ℤ :=
  let units := value (whole s) * 10 ^ (fraction s).length + value (fraction s)
  if IsNegative s then -units else units

/-- The number that a text is. -/
def real (s : Text) : ℚ :=
  let absolute : ℚ := value (whole s) + value (fraction s) / 10 ^ (fraction s).length
  if IsNegative s then -absolute else absolute

theorem real_mul_pow (s : Text) : real s * 10 ^ (fraction s).length = scaled s := by
  have hpow : (10 : ℚ) ^ (fraction s).length ≠ 0 := by positivity
  unfold real scaled
  dsimp only
  split
  . push_cast
    field_simp
  . push_cast
    field_simp

end real

end Decimal
