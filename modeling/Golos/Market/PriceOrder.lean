import Mathlib.Data.Prod.Lex
import Golos.Market.Impl.Evaluators

/-!
This module contains the arithmetic of valid prices: products with amounts are floors of exact
quotients, and prices are ordered by their exact ratios.
-/

namespace Golos

open Checked

theorem toUint128_of_nonneg {x : ℤ} (h : 0 ≤ x) (hmax : x ≤ maxInt64) :
    toUint128 x = x.toNat := by
  unfold toUint128
  unfold maxInt64 at hmax
  rw [Int.emod_eq_of_lt h]
  omega

theorem toUint128_mul {x y : ℤ} (hx : 0 ≤ x) (hxmax : x ≤ maxInt64) (hy : 0 ≤ y)
    (hymax : y ≤ maxInt64) : toUint128 x * toUint128 y % 2 ^ 128 = (x * y).toNat := by
  rw [toUint128_of_nonneg hx hxmax, toUint128_of_nonneg hy hymax, Int.toNat_mul hx hy]
  apply Nat.mod_eq_of_lt
  have hxlt : x.toNat < 2 ^ 63 := by
    unfold maxInt64 at hxmax
    omega
  have hylt : y.toNat < 2 ^ 63 := by
    unfold maxInt64 at hymax
    omega
  calc x.toNat * y.toNat < 2 ^ 63 * 2 ^ 63 := Nat.mul_lt_mul'' hxlt hylt
    _ < 2 ^ 128 := by decide

theorem toNat_ediv {x y : ℤ} (hx : 0 ≤ x) (hy : 0 ≤ y) :
    (x / y).toNat = x.toNat / y.toNat := by
  have := Int.ediv_nonneg hx hy
  zify
  rw [Int.toNat_of_nonneg this, Int.toNat_of_nonneg hx, Int.toNat_of_nonneg hy]

theorem ofUint128_of_le {v : ℤ} (h : 0 ≤ v) (hmax : v ≤ maxInt64) :
    ofUint128 v.toNat = .ok v := by
  unfold maxInt64 at hmax
  unfold ofUint128
  rw [if_pos (by omega), if_pos (by omega)]
  congr 1
  omega

/-- A positive `int64_t` is read back as it is. -/
theorem of_ofUint128_pos {n : Nat} {v : ℤ} (h : ofUint128 n = .ok v) (hpos : 0 < v) :
    v = n ∧ v ≤ maxInt64 := by
  unfold ofUint128 at h
  unfold maxInt64
  split at h
  . injection h with h
    split at h <;> omega
  . cases h

namespace Price

structure Valid (p : Price) : Prop where
  base_pos : 0 < p.base.amount
  base_le : p.base.amount ≤ maxInt64
  quote_pos : 0 < p.quote.amount
  quote_le : p.quote.amount ≤ maxInt64
  names : symbolName p.base.symbol ≠ symbolName p.quote.symbol

/-- The amounts of a price are positive numbers of type `int64_t`. -/
structure Positive (p : Price) : Prop where
  base_pos : 0 < p.base.amount
  base_le : p.base.amount ≤ maxInt64
  quote_pos : 0 < p.quote.amount
  quote_le : p.quote.amount ≤ maxInt64

variable {p q : Price}

theorem Valid.positive (h : p.Valid) : p.Positive :=
  ⟨h.base_pos, h.base_le, h.quote_pos, h.quote_le⟩

theorem Positive.inverse (h : p.Positive) : p.inverse.Positive :=
  ⟨h.quote_pos, h.quote_le, h.base_pos, h.base_le⟩

theorem Valid.symbols (h : p.Valid) : p.base.symbol ≠ p.quote.symbol := by
  intro heq
  apply h.names
  rw [heq]

theorem Valid.inverse (h : p.Valid) : p.inverse.Valid where
  base_pos := h.quote_pos
  base_le := h.quote_le
  quote_pos := h.base_pos
  quote_le := h.base_le
  names := h.names.symm

theorem Valid.max_eq (h : p.Valid) :
    p.max = .ok ⟨⟨maxShareSupply, p.base.symbol⟩, ⟨1, p.quote.symbol⟩⟩ := by
  simp [Price.max, div, ensure, h.names]

theorem valid_max (h : p.Valid) :
    Valid ⟨⟨maxShareSupply, p.base.symbol⟩, ⟨1, p.quote.symbol⟩⟩ where
  base_pos := by simp [maxShareSupply]
  base_le := by simp [maxShareSupply, maxInt64]
  quote_pos := by simp
  quote_le := by simp [maxInt64]
  names := h.names

section mulPrice

variable {a : ℤ} {c : Asset}

theorem mulPrice_base (h : p.Valid) (ha : 0 ≤ a) (hamax : a ≤ maxInt64)
    (hle : a * p.quote.amount / p.base.amount ≤ maxInt64) :
    Asset.mulPrice ⟨a, p.base.symbol⟩ p =
      .ok ⟨a * p.quote.amount / p.base.amount, p.quote.symbol⟩ := by
  have hquote := Int.le_of_lt h.quote_pos
  have hbase := Int.le_of_lt h.base_pos
  have hmul : 0 ≤ a * p.quote.amount := Int.mul_nonneg ha hquote
  have hdiv := Int.ediv_nonneg hmul hbase
  simp only [Asset.mulPrice, ↓reduceIte, ensure, h.base_pos, ok_bind,
    toUint128_mul ha hamax hquote h.quote_le, toUint128_of_nonneg hbase h.base_le]
  rw [← toNat_ediv hmul hbase, ofUint128_of_le hdiv hle]
  rfl

theorem mulPrice_quote (h : p.Valid) (ha : 0 ≤ a) (hamax : a ≤ maxInt64)
    (hle : a * p.base.amount / p.quote.amount ≤ maxInt64) :
    Asset.mulPrice ⟨a, p.quote.symbol⟩ p =
      .ok ⟨a * p.base.amount / p.quote.amount, p.base.symbol⟩ := by
  have hquote := Int.le_of_lt h.quote_pos
  have hbase := Int.le_of_lt h.base_pos
  have hmul : 0 ≤ a * p.base.amount := Int.mul_nonneg ha hbase
  have hdiv := Int.ediv_nonneg hmul hquote
  simp only [Asset.mulPrice, h.names.symm, ↓reduceIte, ensure, h.quote_pos, ok_bind,
    toUint128_mul ha hamax hbase h.base_le, toUint128_of_nonneg hquote h.quote_le]
  rw [← toNat_ediv hmul hquote, ofUint128_of_le hdiv hle]
  rfl

/-- A positive product is exact, so it has not wrapped. -/
theorem of_mulPrice_base (h : p.Valid) (ha : 0 ≤ a) (hamax : a ≤ maxInt64)
    (hc : Asset.mulPrice ⟨a, p.base.symbol⟩ p = .ok c) (hpos : 0 < c.amount) :
    c = ⟨a * p.quote.amount / p.base.amount, p.quote.symbol⟩ ∧ c.amount ≤ maxInt64 := by
  have hquote := Int.le_of_lt h.quote_pos
  have hbase := Int.le_of_lt h.base_pos
  have hmul : 0 ≤ a * p.quote.amount := Int.mul_nonneg ha hquote
  have hdiv := Int.ediv_nonneg hmul hbase
  simp only [Asset.mulPrice, ↓reduceIte, toUint128_mul ha hamax hquote h.quote_le,
    toUint128_of_nonneg hbase h.base_le, bind_eq_ok, pure_eq_ok] at hc
  obtain ⟨_, -, v, hv, rfl⟩ := hc
  rw [← toNat_ediv hmul hbase] at hv
  obtain ⟨hv, hle⟩ := of_ofUint128_pos hv hpos
  rw [Int.toNat_of_nonneg hdiv] at hv
  subst hv
  exact ⟨rfl, hle⟩

/-- The product of a negative amount leaves the low 64 bits, so it fails. -/
theorem nonneg_of_mulPrice (h : p.Valid) (hmin : minInt64 ≤ a)
    (hc : Asset.mulPrice ⟨a, p.base.symbol⟩ p = .ok c) : 0 ≤ a := by
  by_contra hneg
  have hquote := Int.le_of_lt h.quote_pos
  have hbase := Int.le_of_lt h.base_pos
  simp only [Asset.mulPrice, ↓reduceIte, bind_eq_ok, toUint128_of_nonneg hquote h.quote_le,
    toUint128_of_nonneg hbase h.base_le] at hc
  obtain ⟨_, -, v, hv, -⟩ := hc
  have hk : ∃ k : ℕ, 0 < k ∧ k ≤ 2 ^ 63 ∧ toUint128 a = 2 ^ 128 - k := by
    refine ⟨(-a).toNat, ?_, ?_, ?_⟩
    . omega
    . unfold minInt64 at hmin
      omega
    . unfold toUint128 minInt64 at *
      omega
  obtain ⟨k, hkpos, hkle, hk⟩ := hk
  have hq : 0 < p.quote.amount.toNat ∧ p.quote.amount.toNat < 2 ^ 63 := by
    have := h.quote_pos
    have := h.quote_le
    unfold maxInt64 at this
    omega
  have hb : 0 < p.base.amount.toNat ∧ p.base.amount.toNat < 2 ^ 63 := by
    have := h.base_pos
    have := h.base_le
    unfold maxInt64 at this
    omega
  rw [hk] at hv
  generalize p.quote.amount.toNat = q at hv hq
  generalize p.base.amount.toNat = b at hv hb
  have hkq : k * q ≤ 2 ^ 126 := by
    calc k * q ≤ 2 ^ 63 * 2 ^ 63 := Nat.mul_le_mul hkle (Nat.le_of_lt hq.2)
      _ = 2 ^ 126 := by norm_num
  have hkqpos : 0 < k * q := Nat.mul_pos hkpos hq.1
  have hmod : (2 ^ 128 - k) * q % 2 ^ 128 = 2 ^ 128 - k * q := by
    have hsplit : (2 ^ 128 - k) * q = 2 ^ 128 - k * q + 2 ^ 128 * (q - 1) := by
      rw [Nat.sub_mul]
      omega
    rw [hsplit, Nat.add_mul_mod_self_left, Nat.mod_eq_of_lt (by omega)]
  rw [hmod] at hv
  have hlarge : 2 ^ 64 ≤ (2 ^ 128 - k * q) / b := by
    rw [Nat.le_div_iff_mul_le hb.1]
    have : 2 ^ 64 * b ≤ 2 ^ 64 * 2 ^ 63 := Nat.mul_le_mul_left _ (Nat.le_of_lt hb.2)
    omega
  unfold ofUint128 at hv
  rw [if_neg (by omega)] at hv
  cases hv

end mulPrice

/-- The exact place of a price in the order that `operator<` computes. -/
def rank (p : Price) : ℕ ×ₗ ℕ ×ₗ ℚ :=
  toLex (p.base.symbol.toNat, toLex (p.quote.symbol.toNat, p.base.amount / p.quote.amount))

theorem ratio_lt_iff (hp : p.Positive) (hq : q.Positive) :
    (p.base.amount / p.quote.amount : ℚ) < q.base.amount / q.quote.amount ↔
      q.quote.amount * p.base.amount < p.quote.amount * q.base.amount := by
  have hpq : (0 : ℚ) < p.quote.amount := by exact_mod_cast hp.quote_pos
  have hqq : (0 : ℚ) < q.quote.amount := by exact_mod_cast hq.quote_pos
  rw [div_lt_div_iff₀ hpq hqq]
  constructor
  . intro h
    have h : p.base.amount * q.quote.amount < q.base.amount * p.quote.amount := by exact_mod_cast h
    linarith
  . intro h
    have h : p.base.amount * q.quote.amount < q.base.amount * p.quote.amount := by linarith
    exact_mod_cast h

theorem product_lt_iff (hp : p.Positive) (hq : q.Positive) :
    toUint128 q.quote.amount * toUint128 p.base.amount % 2 ^ 128 <
        toUint128 p.quote.amount * toUint128 q.base.amount % 2 ^ 128 ↔
      (p.base.amount / p.quote.amount : ℚ) < q.base.amount / q.quote.amount := by
  rw [toUint128_mul (Int.le_of_lt hq.quote_pos) hq.quote_le (Int.le_of_lt hp.base_pos) hp.base_le,
    toUint128_mul (Int.le_of_lt hp.quote_pos) hp.quote_le (Int.le_of_lt hq.base_pos) hq.base_le,
    ratio_lt_iff hp hq]
  have := Int.mul_pos hp.quote_pos hq.base_pos
  omega

theorem lt_iff_rank (hp : p.Positive) (hq : q.Positive) : p.lt q ↔ p.rank < q.rank := by
  unfold lt rank
  rw [product_lt_iff hp hq]
  simp only [Prod.Lex.toLex_lt_toLex, BitVec.lt_def, BitVec.toNat_inj]

theorem product_eq_iff (hp : p.Positive) (hq : q.Positive) :
    toUint128 q.quote.amount * toUint128 p.base.amount % 2 ^ 128 =
        toUint128 p.quote.amount * toUint128 q.base.amount % 2 ^ 128 ↔
      (p.base.amount / p.quote.amount : ℚ) = q.base.amount / q.quote.amount := by
  have hlt := product_lt_iff hp hq
  have hgt := product_lt_iff hq hp
  rw [Nat.mul_comm (toUint128 p.quote.amount), Nat.mul_comm (toUint128 q.quote.amount)] at hgt
  rw [Nat.mul_comm (toUint128 p.quote.amount), Nat.mul_comm (toUint128 q.quote.amount)] at hlt ⊢
  constructor
  . intro h
    apply le_antisymm
    . rw [← not_lt, ← hgt]
      omega
    . rw [← not_lt, ← hlt]
      omega
  . intro h
    rw [h] at hlt hgt
    have := mt hlt.mp (lt_irrefl _)
    have := mt hgt.mp (lt_irrefl _)
    omega

theorem eq_iff_rank (hp : p.Positive) (hq : q.Positive) : p.eq q ↔ p.rank = q.rank := by
  unfold eq rank
  rw [product_eq_iff hp hq]
  simp only [EmbeddingLike.apply_eq_iff_eq, Prod.mk.injEq, BitVec.toNat_inj]

theorem gt_iff_rank (hp : p.Positive) (hq : q.Positive) : p.gt q ↔ q.rank < p.rank := by
  unfold gt
  rw [eq_iff_rank hp hq, lt_iff_rank hp hq, ← le_iff_eq_or_lt, not_le]

end Price
/-- The prices whose amounts are positive. -/
abbrev PositivePrice :=
  { p : Price // p.Positive }

namespace PositivePrice

variable (a b : PositivePrice)

/-- `operator<` -/
def lt : Prop :=
  a.val.lt b.val

/-- The two prices are in the same symbols. -/
def SamePair : Prop :=
  a.val.base.symbol = b.val.base.symbol ∧ a.val.quote.symbol = b.val.quote.symbol

/-- The amount of the base for one of the quote. -/
def ratio : ℚ :=
  a.val.base.amount / a.val.quote.amount

/-- `operator~` -/
def inverse : PositivePrice :=
  ⟨a.val.inverse, a.property.inverse⟩

variable {a b}

theorem lt_iff_rank : a.lt b ↔ a.val.rank < b.val.rank :=
  Price.lt_iff_rank a.property b.property

theorem eq_iff_rank : a.val.eq b.val ↔ a.val.rank = b.val.rank :=
  Price.eq_iff_rank a.property b.property

/-- Prices are incomparable if and only if their places in the order are the same. -/
theorem incomparable_iff : ¬a.lt b ∧ ¬b.lt a ↔ a.val.rank = b.val.rank := by
  rw [lt_iff_rank, lt_iff_rank, not_lt, not_lt, and_comm]
  exact le_antisymm_iff.symm

theorem isStrictWeakOrder_lt : IsStrictWeakOrder PositivePrice lt where
  irrefl a := by
    rw [lt_iff_rank]
    exact lt_irrefl _
  trans a b c := by
    rw [lt_iff_rank, lt_iff_rank, lt_iff_rank]
    exact lt_trans
  incomp_trans a b c := by
    rw [incomparable_iff, incomparable_iff, incomparable_iff]
    exact Eq.trans

theorem SamePair.lt_iff (h : a.SamePair b) : a.lt b ↔ a.ratio < b.ratio := by
  rw [lt_iff_rank]
  unfold Price.rank ratio
  rw [h.1, h.2, Prod.Lex.toLex_lt_toLex]
  simp [Prod.Lex.toLex_lt_toLex]

theorem SamePair.inverse (h : a.SamePair b) : b.inverse.SamePair a.inverse :=
  ⟨h.2.symm, h.1.symm⟩

theorem ratio_pos (a : PositivePrice) : 0 < a.ratio := by
  have hbase : (0 : ℚ) < a.val.base.amount := by exact_mod_cast a.property.base_pos
  have hquote : (0 : ℚ) < a.val.quote.amount := by exact_mod_cast a.property.quote_pos
  exact div_pos hbase hquote

theorem ratio_inverse (a : PositivePrice) : a.inverse.ratio = a.ratio⁻¹ :=
  (inv_div _ _).symm

theorem SamePair.inverse_lt_iff (h : a.SamePair b) : b.inverse.lt a.inverse ↔ a.lt b := by
  rw [h.inverse.lt_iff, h.lt_iff, ratio_inverse, ratio_inverse, inv_lt_inv₀ b.ratio_pos a.ratio_pos]

/--
Prices are ordered strictly and weakly. Within a pair of symbols the order is total and that of the
exact ratios, which inversion turns around, and equality is incomparability.
-/
theorem lt_laws :
    IsStrictWeakOrder PositivePrice lt ∧
      (∀ a b : PositivePrice, a.val.eq b.val ↔ ¬a.lt b ∧ ¬b.lt a) ∧
      ∀ a b : PositivePrice, a.SamePair b →
        (a.lt b ∨ a.val.eq b.val ∨ b.lt a) ∧ (a.lt b ↔ a.ratio < b.ratio) ∧
          (b.inverse.lt a.inverse ↔ a.lt b) := by
  refine ⟨isStrictWeakOrder_lt, ?_, ?_⟩
  . intro a b
    rw [incomparable_iff, eq_iff_rank]
  . intro a b h
    refine ⟨?_, h.lt_iff, h.inverse_lt_iff⟩
    rw [lt_iff_rank, lt_iff_rank, eq_iff_rank]
    exact lt_trichotomy _ _

/-- A price and the half of it. -/
theorem lt_laws_half :
    let a : PositivePrice := ⟨⟨⟨1, steemSymbol⟩, ⟨2, sbdSymbol⟩⟩, by constructor <;> decide⟩
    let b : PositivePrice := ⟨⟨⟨2, steemSymbol⟩, ⟨2, sbdSymbol⟩⟩, by constructor <;> decide⟩
    (a.lt b ∨ a.val.eq b.val ∨ b.lt a) ∧ (a.lt b ↔ a.ratio < b.ratio) ∧
      (b.inverse.lt a.inverse ↔ a.lt b) :=
  lt_laws.2.2 _ _ ⟨rfl, rfl⟩

end PositivePrice

end Golos
