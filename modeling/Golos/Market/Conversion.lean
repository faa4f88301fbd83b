import Golos.Market.PriceOrder

/-!
This module contains the conversion of amounts by prices: when a product is the floor of the exact
one, and that nothing is gained by converting there and back.
-/

namespace Golos

open Checked

theorem ofUint128_eq_ok {v x : ℤ} (hnonneg : 0 ≤ v) (h : ofUint128 v.toNat = .ok x) :
    (v ≤ maxInt64 ∧ x = v) ∨ (maxInt64 < v ∧ v < 2 ^ 64 ∧ x = v - 2 ^ 64) := by
  unfold ofUint128 at h
  unfold maxInt64
  split at h
  . injection h with h
    split at h <;> omega
  . cases h

namespace Price

variable {p : Price}

/-- What `validate` accepts, with amounts of type `int64_t`. -/
theorem valid_of_validate (hbase : p.base.amount ≤ maxInt64) (hquote : p.quote.amount ≤ maxInt64)
    (h : p.validate = .ok ()) : p.Valid := by
  simp only [validate, bind_eq_ok, ensure_eq_ok] at h
  obtain ⟨-, hbase_pos, -, hquote_pos, hnames⟩ := h
  exact ⟨hbase_pos, hbase, hquote_pos, hquote, hnames⟩

/-- The product as a rational number. -/
def exactProduct (p : Price) (a : Asset) : ℚ :=
  if symbolName a.symbol = symbolName p.base.symbol then
    a.amount * p.quote.amount / p.base.amount
  else
    a.amount * p.base.amount / p.quote.amount

/-- A product is the floor of the exact one, and going back gains nothing. -/
structure Exact (p : Price) (a : Asset) : Prop where
  floor : ∀ c, a.mulPrice p = .ok c →
    c.amount = ⌊p.exactProduct a⌋ ∧ 0 ≤ c.amount ∧ c.amount ≤ maxInt64
  back : ∀ c d, a.mulPrice p = .ok c → c.mulPrice p = .ok d →
    d.symbol = a.symbol ∧ d.amount ≤ a.amount

theorem floor_div {x y : ℤ} (h : 0 < y) : ⌊(x / y : ℚ)⌋ = x / y := by
  have hcast := Rat.floor_intCast_div_natCast x y.toNat
  rw [Int.toNat_of_nonneg h.le] at hcast
  rw [← hcast]
  congr 2
  exact_mod_cast (Int.toNat_of_nonneg h.le).symm

/-- From the quote the price is used the other way round. -/
theorem mulPrice_inverse (h : p.Valid) {a : Asset} (ha : a.symbol = p.quote.symbol) :
    a.mulPrice p = a.mulPrice p.inverse := by
  unfold Asset.mulPrice inverse
  rw [ha, if_neg h.names.symm, if_pos rfl]
  dsimp only
  rw [if_pos rfl, ensure_eq_ok (u := ()) |>.mpr h.quote_pos,
    ensure_eq_ok (u := ()) |>.mpr h.quote_pos]

theorem exactProduct_inverse (h : p.Valid) {a : Asset} (ha : a.symbol = p.quote.symbol) :
    p.exactProduct a = p.inverse.exactProduct a := by
  unfold exactProduct inverse
  rw [ha, if_neg h.names.symm]
  dsimp only
  rw [if_pos rfl]

section base

variable {a : Asset}

/-- The quotient of the product, before it is stored in an `int64_t`. -/
theorem mulPrice_of_base (h : p.Valid) (hnonneg : 0 ≤ a.amount) (hle : a.amount ≤ maxInt64)
    (ha : a.symbol = p.base.symbol) {c : Asset} :
    a.mulPrice p = .ok c ↔
      ofUint128 (a.amount * p.quote.amount / p.base.amount).toNat = .ok c.amount ∧
        c.symbol = p.quote.symbol := by
  have hquote := h.quote_pos.le
  have hbase := h.base_pos.le
  have hmul : 0 ≤ a.amount * p.quote.amount := Int.mul_nonneg hnonneg hquote
  rw [toNat_ediv hmul hbase, ← toUint128_mul hnonneg hle hquote h.quote_le,
    ← toUint128_of_nonneg hbase h.base_le]
  unfold Asset.mulPrice
  rw [ha, if_pos rfl]
  simp only [bind_eq_ok, ensure_eq_ok, pure_eq_ok]
  constructor
  . rintro ⟨-, -, v, hv, rfl⟩
    exact ⟨hv, rfl⟩
  . rintro ⟨hv, hsymbol⟩
    refine ⟨(), h.base_pos, c.amount, hv, ?_⟩
    rw [← hsymbol]

theorem exactProduct_of_base (h : p.Valid) (ha : a.symbol = p.base.symbol) :
    ⌊p.exactProduct a⌋ = a.amount * p.quote.amount / p.base.amount := by
  unfold exactProduct
  rw [ha, if_pos rfl, ← floor_div h.base_pos]
  push_cast
  rfl

/-- What was rounded down once is rounded down again. -/
theorem back_le {x b q : ℤ} (hb : 0 < b) (hq : 0 < q) : x * q / b * b / q ≤ x := by
  apply Int.ediv_le_of_le_mul hq
  exact Int.ediv_mul_le _ hb.ne'

theorem back_of_base (h : p.Valid) (hnonneg : 0 ≤ a.amount) (hle : a.amount ≤ maxInt64)
    (ha : a.symbol = p.base.symbol) {c d : Asset} (hc : a.mulPrice p = .ok c)
    (hd : c.mulPrice p = .ok d) : d.symbol = a.symbol ∧ d.amount ≤ a.amount := by
  obtain ⟨hv, hsymbol⟩ := (mulPrice_of_base h hnonneg hle ha).mp hc
  rw [mulPrice_inverse h hsymbol] at hd
  have hmul : 0 ≤ a.amount * p.quote.amount := Int.mul_nonneg hnonneg h.quote_pos.le
  have hquotient := Int.ediv_nonneg hmul h.base_pos.le
  rcases ofUint128_eq_ok hquotient hv with ⟨hfits, hamount⟩ | ⟨hlarge, hlt, hamount⟩
  . have hback := back_le (x := a.amount) h.base_pos h.quote_pos
    rw [← hamount] at hback
    have hcnonneg : 0 ≤ c.amount := hamount ▸ hquotient
    obtain ⟨hv', hsymbol'⟩ :=
      (mulPrice_of_base h.inverse hcnonneg (hamount ▸ hfits) hsymbol).mp hd
    have hquotient' := Int.ediv_nonneg (Int.mul_nonneg hcnonneg h.base_pos.le) h.quote_pos.le
    refine ⟨hsymbol'.trans ha.symm, ?_⟩
    have hfits' := hback.trans hle
    rcases ofUint128_eq_ok hquotient' hv' with ⟨-, hamount'⟩ | ⟨hlarge', -⟩
    . rw [hamount']
      exact hback
    . exact absurd hlarge' (not_lt.mpr hfits')
  . -- a negative amount is not converted back
    have hc : c = ⟨c.amount, p.inverse.base.symbol⟩ := by
      unfold inverse
      rw [← hsymbol]
    rw [hc] at hd
    unfold maxInt64 at hlarge
    have := nonneg_of_mulPrice h.inverse (by unfold minInt64; omega) hd
    omega

theorem exact_iff_of_base (h : p.Valid) (hnonneg : 0 ≤ a.amount) (hle : a.amount ≤ maxInt64)
    (ha : a.symbol = p.base.symbol) :
    p.Exact a ↔ ⌊p.exactProduct a⌋ ≤ maxInt64 ∨ 2 ^ 64 ≤ ⌊p.exactProduct a⌋ := by
  have hmul : 0 ≤ a.amount * p.quote.amount := Int.mul_nonneg hnonneg h.quote_pos.le
  have hquotient := Int.ediv_nonneg hmul h.base_pos.le
  constructor
  . intro hexact
    rw [exactProduct_of_base h ha]
    by_contra hwraps
    rw [not_or, not_le, not_le] at hwraps
    obtain ⟨hlarge, hlt⟩ := hwraps
    obtain ⟨x, hx⟩ : ∃ x, ofUint128 (a.amount * p.quote.amount / p.base.amount).toNat = .ok x := by
      unfold ofUint128
      rw [if_pos (by omega)]
      exact ⟨_, rfl⟩
    have hc : a.mulPrice p = .ok ⟨x, p.quote.symbol⟩ :=
      (mulPrice_of_base h hnonneg hle ha).mpr ⟨hx, rfl⟩
    obtain ⟨-, hxnonneg, -⟩ := hexact.floor _ hc
    dsimp only at hxnonneg
    rcases ofUint128_eq_ok hquotient hx with ⟨hfits, -⟩ | ⟨-, -, hx⟩
    . exact absurd hlarge (not_lt.mpr hfits)
    . omega
  . intro hfits
    refine ⟨?_, fun c d => back_of_base h hnonneg hle ha⟩
    intro c hc
    obtain ⟨hv, -⟩ := (mulPrice_of_base h hnonneg hle ha).mp hc
    rw [exactProduct_of_base h ha] at hfits ⊢
    rcases ofUint128_eq_ok hquotient hv with ⟨hle', hamount⟩ | ⟨hlarge, hlt, -⟩
    . rw [hamount]
      exact ⟨rfl, hquotient, hle'⟩
    . omega

end base

/--
A product that is returned is the floor of the exact one, and not negative, unless that floor is one
of the numbers that need 64 bits without a sign.
-/
theorem conversion_exact_iff {p : Price} {a : Asset} (hbase : p.base.amount ≤ maxInt64)
    (hquote : p.quote.amount ≤ maxInt64) (hvalidate : p.validate = .ok ()) (hnonneg : 0 ≤ a.amount)
    (hle : a.amount ≤ maxInt64) (ha : a.symbol = p.base.symbol ∨ a.symbol = p.quote.symbol) :
    p.Exact a ↔ ⌊p.exactProduct a⌋ ≤ maxInt64 ∨ 2 ^ 64 ≤ ⌊p.exactProduct a⌋ := by
  have h := valid_of_validate hbase hquote hvalidate
  rcases ha with ha | ha
  . exact exact_iff_of_base h hnonneg hle ha
  . rw [exactProduct_inverse h ha, ← exact_iff_of_base h.inverse hnonneg hle ha]
    have hback : ∀ {c : Asset}, a.mulPrice p.inverse = .ok c → c.mulPrice p = c.mulPrice p.inverse := by
      intro c hc
      have hsymbol := ((mulPrice_of_base h.inverse hnonneg hle ha).mp hc).2
      exact (mulPrice_inverse h.inverse hsymbol).symm
    constructor
    . rintro ⟨hfloor, hgain⟩
      rw [mulPrice_inverse h ha] at hfloor hgain
      rw [exactProduct_inverse h ha] at hfloor
      refine ⟨hfloor, ?_⟩
      intro c d hc hd
      exact hgain c d hc ((hback hc).trans hd)
    . rintro ⟨hfloor, hgain⟩
      rw [← mulPrice_inverse h ha] at hfloor
      rw [← exactProduct_inverse h ha] at hfloor
      refine ⟨hfloor, ?_⟩
      intro c d hc hd
      rw [mulPrice_inverse h ha] at hc
      exact hgain c d hc ((hback hc).symm.trans hd)

section wrapped

/-- The smallest amount of GBG is worth the largest of GOLOS. -/
def steepPrice : Price :=
  ⟨⟨1, sbdSymbol⟩, ⟨maxInt64, steemSymbol⟩⟩

theorem conversion_exact_iff_one : steepPrice.Exact ⟨1, sbdSymbol⟩ ↔
    ⌊steepPrice.exactProduct ⟨1, sbdSymbol⟩⌋ ≤ maxInt64 ∨
      2 ^ 64 ≤ ⌊steepPrice.exactProduct ⟨1, sbdSymbol⟩⌋ :=
  conversion_exact_iff (by decide) (by decide) (by rfl) (by decide) (by decide) (.inl rfl)

/-- Twice that amount is worth less than nothing. -/
theorem not_exact_two : steepPrice.validate = .ok () ∧
    Asset.mulPrice ⟨2, sbdSymbol⟩ steepPrice = .ok ⟨-2, steemSymbol⟩ ∧
      ¬steepPrice.Exact ⟨2, sbdSymbol⟩ := by
  have hproduct : Asset.mulPrice ⟨2, sbdSymbol⟩ steepPrice = .ok ⟨-2, steemSymbol⟩ := by
    decide +kernel
  refine ⟨rfl, hproduct, ?_⟩
  intro hexact
  have := (hexact.floor _ hproduct).2.1
  revert this
  decide

end wrapped

end Price

end Golos
