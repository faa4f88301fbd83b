import Golos.Escrow.Impl
import Golos.Feed.Impl
import Golos.Voting.Impl.Payout
import Golos.Feed.Feed
import Golos.Market.Conversion

/-!
This module contains the virtual supply of GOLOS, the rate at which GBG is printed, and the debt in
GBG that starts its forced conversion.
-/

namespace Golos

open Checked

def steemitSbdStartPercent : Nat := 2 * 100

def steemitSbdStopPercent : Nat := 5 * 100

/-- The quotient of `uint128_t` numbers, in hundredths of a percent, as a `uint16_t`. -/
def percentOf (part whole : Asset) : Result Nat := do
  ensure (toUint128 whole.amount ≠ 0) (.assertException "divide by zero")
  let percent ← toUint64 (toUint128 part.amount * steemit100Percent % 2 ^ 128 / toUint128 whole.amount)
  pure (percent % 2 ^ 16)

def printRate (percentSbd : Nat) : Nat :=
  if percentSbd ≤ steemitSbdStartPercent then
    steemit100Percent
  else if steemitSbdStopPercent ≤ percentSbd then
    0
  else
    (steemitSbdStopPercent - percentSbd) * steemit100Percent /
      (steemitSbdStopPercent - steemitSbdStartPercent)

/-- The part of `database` that the supplies are read from and written to. -/
structure SupplyDatabase where
  currentSupply : Asset := ⟨0, steemSymbol⟩
  currentSbdSupply : Asset := ⟨0, sbdSymbol⟩
  virtualSupply : Asset := ⟨0, steemSymbol⟩
  sbdPrintRate : Nat := steemit100Percent
  sbdDebtPercent : Nat := 0
  feedHistory : FeedHistoryObject := {}
  /-- The median of the witnesses. -/
  sbdDebtConvertRate : Nat := 100
  headBlockNum : Nat := 0
  lastHardfork : Nat := 0

namespace SupplyDatabase

variable (db : SupplyDatabase)

/-- What the debt is compared with. -/
def debtSupply : Asset :=
  if 29 ≤ db.lastHardfork then db.currentSupply else db.virtualSupply

def updateSbdDebtPercent : Result SupplyDatabase := do
  let value ← db.currentSbdSupply.mulPrice db.feedHistory.witnessMedianHistory
  let sbdDebtPercent ← percentOf value db.debtSupply
  pure { db with sbdDebtPercent := sbdDebtPercent }

def updateSbdPrintRate : Result SupplyDatabase := do
  let value ← db.currentSbdSupply.mulPrice db.feedHistory.currentMedianHistory
  let percentSbd ← percentOf value db.virtualSupply
  pure { db with sbdPrintRate := printRate percentSbd }

/-- The GOLOS that the debt is worth, as far as there is a price. -/
def sbdValue : Result Asset :=
  if db.feedHistory.currentMedianHistory.isNull then
    pure ⟨0, steemSymbol⟩
  else
    db.currentSbdSupply.mulPrice db.feedHistory.currentMedianHistory

def updateVirtualSupply : Result SupplyDatabase := do
  let value ← db.sbdValue
  let virtualSupply ← db.currentSupply.add value
  let db := { db with virtualSupply := virtualSupply }
  if ¬db.feedHistory.currentMedianHistory.isNull ∧ 14 ≤ db.lastHardfork then
    let db ← db.updateSbdPrintRate
    if 22 ≤ db.lastHardfork then
      db.updateSbdDebtPercent
    else
      pure db
  else
    pure db

/-- What `process_sbd_debt_conversions` asks for, apart from the debt. -/
def mayConvertSbdDebt : Prop :=
  22 ≤ db.lastHardfork ∧ db.headBlockNum % steemitSbdDebtConvertInterval = 0 ∧
    db.sbdDebtConvertRate ≠ 0 ∧ ¬db.feedHistory.currentMedianHistory.isNull

/-- `process_sbd_debt_conversions` does not return at once. -/
def convertsSbdDebt : Prop :=
  db.mayConvertSbdDebt ∧ steemitSbdDebtConvertThreshold ≤ db.sbdDebtPercent

end SupplyDatabase

theorem printRate_antitone : Antitone printRate := by
  intro p q hpq
  unfold printRate steemitSbdStartPercent steemitSbdStopPercent steemit100Percent
  split_ifs <;> omega

theorem printRate_strictAntiOn :
    StrictAntiOn printRate (Set.Icc steemitSbdStartPercent steemitSbdStopPercent) := by
  rintro p ⟨hp, -⟩ q ⟨-, hq⟩ hpq
  unfold steemitSbdStartPercent at hp
  unfold steemitSbdStopPercent at hq
  unfold printRate steemitSbdStartPercent steemitSbdStopPercent steemit100Percent
  split_ifs <;> omega

/-- Hundredths of a percent, rounded down. -/
def percent (part whole : ℤ) : ℤ :=
  part * steemit100Percent / whole

section percent

variable {part whole : ℤ}

theorem percent_nonneg (hpart : 0 ≤ part) (hwhole : 0 < whole) : 0 ≤ percent part whole :=
  Int.ediv_nonneg (Int.mul_nonneg hpart (by decide)) hwhole.le

theorem percent_mono {part' : ℤ} (hwhole : 0 < whole) (h : part' ≤ part) :
    percent part' whole ≤ percent part whole := by
  apply Int.ediv_le_ediv hwhole
  exact Int.mul_le_mul_of_nonneg_right h (by decide)

theorem le_percent_iff {n : ℤ} (hwhole : 0 < whole) :
    n ≤ percent part whole ↔ n * whole ≤ part * steemit100Percent :=
  Int.le_ediv_iff_mul_le hwhole

theorem percent_le (hwhole : 0 < whole) (h : part ≤ whole) :
    percent part whole ≤ steemit100Percent := by
  by_contra hlt
  rw [not_le, ← Int.add_one_le_iff, le_percent_iff hwhole] at hlt
  unfold steemit100Percent at hlt
  omega

theorem percentOf_eq_ok {symbol symbol' : AssetSymbolType} {n : Nat} (hpart : 0 ≤ part)
    (hle : part ≤ maxInt64) (hwhole : 0 < whole) (hwhole_le : whole ≤ maxInt64) :
    percentOf ⟨part, symbol⟩ ⟨whole, symbol'⟩ = .ok n ↔
      percent part whole < 2 ^ 64 ∧ n = percent part whole % 2 ^ 16 := by
  have hmul : toUint128 part * steemit100Percent % 2 ^ 128 = (part * steemit100Percent).toNat := by
    rw [toUint128_of_nonneg hpart hle]
    unfold steemit100Percent
    unfold maxInt64 at hle
    omega
  have hquotient : toUint128 part * steemit100Percent % 2 ^ 128 / toUint128 whole =
      (percent part whole).toNat := by
    rw [hmul, toUint128_of_nonneg hwhole.le hwhole_le]
    unfold percent
    rw [toNat_ediv (Int.mul_nonneg hpart (by decide)) hwhole.le]
  have hnonneg := percent_nonneg hpart hwhole
  unfold percentOf toUint64
  dsimp only
  simp only [bind_eq_ok, ensure_eq_ok, pure_eq_ok]
  rw [hquotient, toUint128_of_nonneg hwhole.le hwhole_le]
  constructor
  . rintro ⟨-, -, _, ⟨-, hlt, rfl⟩, rfl⟩
    omega
  . rintro ⟨hlt, hn⟩
    refine ⟨(), by omega, _, ⟨(), by omega, rfl⟩, by omega⟩

/-- A part below zero is a huge number without its sign. -/
theorem percentOf_ne_ok {symbol symbol' : AssetSymbolType} {n : Nat} (hpart : part < 0)
    (hle : minInt64 ≤ part) (hwhole : 0 < whole) (hwhole_le : whole ≤ maxInt64) :
    percentOf ⟨part, symbol⟩ ⟨whole, symbol'⟩ ≠ .ok n := by
  intro h
  unfold percentOf toUint64 at h
  dsimp only at h
  simp only [bind_eq_ok, ensure_eq_ok, pure_eq_ok] at h
  obtain ⟨-, -, _, ⟨-, hlt, rfl⟩, -⟩ := h
  rw [toUint128_of_nonneg hwhole.le hwhole_le, Nat.div_lt_iff_lt_mul (by omega)] at hlt
  have hpart' : toUint128 part * steemit100Percent % 2 ^ 128 =
      (2 ^ 128 + part * steemit100Percent).toNat := by
    unfold toUint128 steemit100Percent
    unfold minInt64 at hle
    omega
  rw [hpart'] at hlt
  unfold minInt64 at hle
  unfold maxInt64 at hwhole_le
  unfold steemit100Percent at hlt
  omega

end percent

namespace Price

variable {p : Price}

/-- The GOLOS that so much GBG is worth, rounded down. -/
def worth (p : Price) (sbd : ℤ) : ℤ :=
  sbd * p.golos / p.gbg

theorem IsFeed.gbg_pos (h : p.IsFeed) : 0 < p.gbg := by
  unfold gbg
  split
  . exact h.base_pos
  . exact h.quote_pos

theorem IsFeed.golos_pos (h : p.IsFeed) : 0 < p.golos := by
  unfold golos
  split
  . exact h.quote_pos
  . exact h.base_pos

theorem IsFeed.worth_nonneg (h : p.IsFeed) {sbd : ℤ} (hsbd : 0 ≤ sbd) : 0 ≤ p.worth sbd :=
  Int.ediv_nonneg (Int.mul_nonneg hsbd h.golos_pos.le) h.gbg_pos.le

theorem IsFeed.worth_mono (h : p.IsFeed) {sbd sbd' : ℤ} (hle : sbd' ≤ sbd) :
    p.worth sbd' ≤ p.worth sbd := by
  apply Int.ediv_le_ediv h.gbg_pos
  exact Int.mul_le_mul_of_nonneg_right hle h.golos_pos.le

/-- The product with a feed, in either of its orientations. -/
theorem IsFeed.mulPrice_sbd (h : p.IsFeed) {sbd : ℤ} (hnonneg : 0 ≤ sbd) (hle : sbd ≤ maxInt64)
    {c : Asset} :
    Asset.mulPrice ⟨sbd, sbdSymbol⟩ p = .ok c ↔
      ofUint128 (p.worth sbd).toNat = .ok c.amount ∧ c.symbol = steemSymbol := by
  unfold worth golos gbg
  rcases h.symbols with ⟨hbase, hquote⟩ | ⟨hbase, hquote⟩
  . have hgbg : ¬p.IsGbgBased := by
      unfold IsGbgBased
      rw [hbase]
      decide
    rw [if_neg hgbg, if_neg hgbg, mulPrice_inverse h.toValid hquote.symm,
      mulPrice_of_base h.toValid.inverse hnonneg hle hquote.symm]
    unfold Price.inverse
    rw [hbase]
  . have hgbg : p.IsGbgBased := hbase
    rw [if_pos hgbg, if_pos hgbg, mulPrice_of_base h.toValid hnonneg hle hbase.symm, hquote]

end Price

namespace SupplyDatabase

/-- The supplies are amounts of their own symbols, and the prices come from feeds. -/
structure Denominated (db : SupplyDatabase) : Prop where
  supply_symbol : db.currentSupply.symbol = steemSymbol
  supply_pos : 0 < db.currentSupply.amount
  supply_le : db.currentSupply.amount ≤ maxInt64
  sbd_symbol : db.currentSbdSupply.symbol = sbdSymbol
  sbd_nonneg : 0 ≤ db.currentSbdSupply.amount
  sbd_le : db.currentSbdSupply.amount ≤ maxInt64
  prices : db.feedHistory.currentMedianHistory.isNull ∨
    (db.feedHistory.currentMedianHistory.IsFeed ∧ db.feedHistory.witnessMedianHistory.IsFeed)

variable (db : SupplyDatabase)

/-- The value of the debt at the price that may be a forced one. -/
def worth : ℤ :=
  if db.feedHistory.currentMedianHistory.isNull then
    0
  else
    db.feedHistory.currentMedianHistory.worth db.currentSbdSupply.amount

/-- The value of the debt at the price of the witnesses. -/
def debtWorth : ℤ :=
  db.feedHistory.witnessMedianHistory.worth db.currentSbdSupply.amount

/-- The supply with the debt in it. -/
def totalSupply : ℤ :=
  db.currentSupply.amount + db.worth

/-- What the debt is compared with once the virtual supply is right. -/
def comparedSupply : ℤ :=
  if 29 ≤ db.lastHardfork then db.currentSupply.amount else db.totalSupply

def debtPercent : ℤ :=
  percent db.debtWorth db.comparedSupply

def HasRates : Prop :=
  ¬db.feedHistory.currentMedianHistory.isNull ∧ 14 ≤ db.lastHardfork

def HasDebt : Prop :=
  ¬db.feedHistory.currentMedianHistory.isNull ∧ 22 ≤ db.lastHardfork

/-- The supplies and percentages are what they are meant to be. -/
structure Measured (db db' : SupplyDatabase) : Prop where
  virtualSupply : db'.virtualSupply = ⟨db.totalSupply, steemSymbol⟩
  rate : db.HasRates → db'.sbdPrintRate = printRate (percent db.worth db.totalSupply).toNat
  full : db.HasRates → 100 * db.worth ≤ 2 * db.totalSupply → db'.sbdPrintRate = steemit100Percent
  none : db.HasRates → 5 * db.totalSupply ≤ 100 * db.worth → db'.sbdPrintRate = 0
  debt : db.HasDebt → db'.sbdDebtPercent = min 65535 db.debtPercent
  mono : db.HasDebt → ∀ sbd, 0 ≤ sbd → sbd ≤ db.currentSbdSupply.amount →
    ∀ db₀, updateVirtualSupply { db with currentSbdSupply := ⟨sbd, sbdSymbol⟩ } = .ok db₀ →
      db₀.sbdDebtPercent ≤ db'.sbdDebtPercent
  forced : db.HasDebt → 20 * db.comparedSupply ≤ 100 * db.debtWorth → db'.mayConvertSbdDebt →
    db'.convertsSbdDebt

/-- The amounts fit in 64 bits, and the percentage of the debt in 16. -/
def Fits : Prop :=
  db.feedHistory.currentMedianHistory.isNull ∨
    (db.totalSupply ≤ maxInt64 ∧
      (22 ≤ db.lastHardfork → db.debtWorth ≤ maxInt64 ∧ db.debtPercent < 2 ^ 64 ∧
        (db.debtPercent ≤ 65535 ∨ db.debtPercent % 2 ^ 16 = 65535)))

/-- Less debt is no higher percentage. Up to hardfork 28 this is a matter of how the debt and the virtual
supply, which go by two prices, are rounded. -/
def InOrder : Prop :=
  29 ≤ db.lastHardfork ∨ ∀ sbd, 0 ≤ sbd → sbd ≤ db.currentSbdSupply.amount →
    debtPercent { db with currentSbdSupply := ⟨sbd, sbdSymbol⟩ } < 2 ^ 64 →
    debtPercent { db with currentSbdSupply := ⟨sbd, sbdSymbol⟩ } % 2 ^ 16 ≤ min 65535 db.debtPercent

/-- What an update leaves behind as long as the amounts fit. -/
def updated : SupplyDatabase :=
  { db with
    virtualSupply := ⟨db.totalSupply, steemSymbol⟩
    sbdPrintRate :=
      if 14 ≤ db.lastHardfork then printRate (percent db.worth db.totalSupply).toNat
      else db.sbdPrintRate
    sbdDebtPercent :=
      if 22 ≤ db.lastHardfork then (db.debtPercent % 2 ^ 16).toNat else db.sbdDebtPercent }

section update

variable {db} {db' : SupplyDatabase}

theorem updateSbdPrintRate_frame (h : db.updateSbdPrintRate = .ok db') :
    ∃ rate, db' = { db with sbdPrintRate := rate } := by
  simp only [updateSbdPrintRate, bind_eq_ok, pure_eq_ok] at h
  obtain ⟨-, -, percentSbd, -, rfl⟩ := h
  exact ⟨_, rfl⟩

theorem updateSbdDebtPercent_frame (h : db.updateSbdDebtPercent = .ok db') :
    ∃ sbdDebtPercent, db' = { db with sbdDebtPercent := sbdDebtPercent } := by
  simp only [updateSbdDebtPercent, bind_eq_ok, pure_eq_ok] at h
  obtain ⟨-, -, sbdDebtPercent, -, rfl⟩ := h
  exact ⟨_, rfl⟩

/-- The virtual supply is what was made of the supply and the value. -/
theorem of_updateVirtualSupply (h : db.updateVirtualSupply = .ok db') :
    ∃ value, db.sbdValue = .ok value ∧ db.currentSupply.add value = .ok db'.virtualSupply := by
  simp only [updateVirtualSupply, bind_eq_ok] at h
  obtain ⟨value, hvalue, virtualSupply, hadd, h⟩ := h
  refine ⟨value, hvalue, ?_⟩
  rw [hadd]
  split at h
  . simp only [bind_eq_ok] at h
    obtain ⟨db₁, hrate, h⟩ := h
    obtain ⟨rate, rfl⟩ := updateSbdPrintRate_frame hrate
    split at h
    . obtain ⟨sbdDebtPercent, rfl⟩ := updateSbdDebtPercent_frame h
      rfl
    . rw [pure_eq_ok] at h
      rw [← h]
  . rw [pure_eq_ok] at h
    rw [← h]

theorem fits_iff (hnull : ¬db.feedHistory.currentMedianHistory.isNull) :
    db.Fits ↔ db.totalSupply ≤ maxInt64 ∧ (22 ≤ db.lastHardfork → db.debtWorth ≤ maxInt64 ∧
      db.debtPercent < 2 ^ 64 ∧ (db.debtPercent ≤ 65535 ∨ db.debtPercent % 2 ^ 16 = 65535)) := by
  unfold Fits
  constructor
  . rintro (hprice | hfits)
    . exact absurd hprice hnull
    . exact hfits
  . exact .inr

theorem totalSupply_le_of_eq (hupdate : db.updateVirtualSupply = .ok db')
    (heq : db'.virtualSupply.amount = db.totalSupply) : db.totalSupply ≤ maxInt64 := by
  obtain ⟨value, -, hadd⟩ := of_updateVirtualSupply hupdate
  obtain ⟨-, ⟨-, hle⟩, hvirtual⟩ := Asset.add_eq_ok.mp hadd
  rw [hvirtual] at heq
  rw [← heq]
  exact hle

variable (h : db.Denominated)

namespace Denominated

include h

theorem feeds (hnull : ¬db.feedHistory.currentMedianHistory.isNull) :
    db.feedHistory.currentMedianHistory.IsFeed ∧ db.feedHistory.witnessMedianHistory.IsFeed := by
  rcases h.prices with hprices | hprices
  . exact absurd hprices hnull
  . exact hprices

theorem sbd_eq : db.currentSbdSupply = ⟨db.currentSbdSupply.amount, sbdSymbol⟩ := by
  rw [← h.sbd_symbol]

theorem worth_nonneg : 0 ≤ db.worth := by
  unfold worth
  split
  . exact Int.le_refl _
  . next hnull => exact (h.feeds hnull).1.worth_nonneg h.sbd_nonneg

theorem totalSupply_pos : 0 < db.totalSupply := by
  have := h.supply_pos
  have := h.worth_nonneg
  unfold totalSupply
  omega

theorem comparedSupply_pos : 0 < db.comparedSupply := by
  unfold comparedSupply
  split
  . exact h.supply_pos
  . exact h.totalSupply_pos

/-- With less debt. -/
theorem with_sbd {sbd : ℤ} (hnonneg : 0 ≤ sbd) (hle : sbd ≤ db.currentSbdSupply.amount) :
    Denominated { db with currentSbdSupply := ⟨sbd, sbdSymbol⟩ } where
  supply_symbol := h.supply_symbol
  supply_pos := h.supply_pos
  supply_le := h.supply_le
  sbd_symbol := rfl
  sbd_nonneg := hnonneg
  sbd_le := hle.trans h.sbd_le
  prices := h.prices

section feed

variable (hnull : ¬db.feedHistory.currentMedianHistory.isNull)

include hnull

theorem mulPrice_eq_ok {c : Asset} :
    db.currentSbdSupply.mulPrice db.feedHistory.currentMedianHistory = .ok c ↔
      ofUint128 db.worth.toNat = .ok c.amount ∧ c.symbol = steemSymbol := by
  rw [h.sbd_eq, (h.feeds hnull).1.mulPrice_sbd h.sbd_nonneg h.sbd_le]
  unfold worth
  rw [if_neg hnull]

theorem mulPrice_of_le (hle : db.worth ≤ maxInt64) :
    db.currentSbdSupply.mulPrice db.feedHistory.currentMedianHistory = .ok ⟨db.worth, steemSymbol⟩ :=
  (h.mulPrice_eq_ok hnull).mpr ⟨ofUint128_of_le h.worth_nonneg hle, rfl⟩

theorem debtWorth_nonneg : 0 ≤ db.debtWorth :=
  (h.feeds hnull).2.worth_nonneg h.sbd_nonneg

/-- The debt is compared only as long as its value fits. -/
theorem updateSbdDebtPercent_eq_ok (hsymbol : ∃ symbol, db.debtSupply = ⟨db.comparedSupply, symbol⟩)
    (hle : db.comparedSupply ≤ maxInt64) :
    db.updateSbdDebtPercent = .ok db' ↔
      db.debtWorth ≤ maxInt64 ∧ db.debtPercent < 2 ^ 64 ∧
        db' = { db with sbdDebtPercent := (db.debtPercent % 2 ^ 16).toNat } := by
  obtain ⟨symbol, hsupply⟩ := hsymbol
  have hpos := h.comparedSupply_pos
  have hnonneg := h.debtWorth_nonneg hnull
  have hpercent := percent_nonneg hnonneg hpos
  simp only [updateSbdDebtPercent, bind_eq_ok, pure_eq_ok]
  rw [h.sbd_eq, hsupply]
  simp only [(h.feeds hnull).2.mulPrice_sbd h.sbd_nonneg h.sbd_le]
  constructor
  . rintro ⟨⟨value, _⟩, ⟨hvalue, -⟩, n, hn, rfl⟩
    rcases ofUint128_eq_ok hnonneg hvalue with ⟨hfits, rfl⟩ | ⟨hlarge, hlt, rfl⟩
    . rw [percentOf_eq_ok hnonneg hfits hpos hle] at hn
      refine ⟨hfits, hn.1, ?_⟩
      congr 1
      unfold debtPercent
      omega
    . unfold maxInt64 at hlarge
      exact absurd hn (percentOf_ne_ok (by omega) (by unfold minInt64; omega) hpos hle)
  . rintro ⟨hfits, hlt, rfl⟩
    refine ⟨⟨db.debtWorth, steemSymbol⟩, ⟨ofUint128_of_le hnonneg hfits, rfl⟩, _,
      (percentOf_eq_ok hnonneg hfits hpos hle).mpr ⟨hlt, ?_⟩, rfl⟩
    unfold debtPercent at hpercent ⊢
    omega

/-- The share of the debt in the virtual supply is at most the whole of it. -/
theorem updateSbdPrintRate_eq (hvirtual : db.virtualSupply = ⟨db.totalSupply, steemSymbol⟩)
    (hle : db.totalSupply ≤ maxInt64) :
    db.updateSbdPrintRate =
      .ok { db with sbdPrintRate := printRate (percent db.worth db.totalSupply).toNat } := by
  have hsupply := h.supply_pos
  have hworth : db.worth ≤ db.totalSupply := by
    unfold totalSupply
    omega
  have hpos := h.totalSupply_pos
  have hpercent := percent_nonneg h.worth_nonneg hpos
  have hpercent_le := percent_le hpos hworth
  unfold steemit100Percent at hpercent_le
  have hpercentOf : percentOf ⟨db.worth, steemSymbol⟩ db.virtualSupply =
      .ok (percent db.worth db.totalSupply).toNat := by
    rw [hvirtual, percentOf_eq_ok h.worth_nonneg (hworth.trans hle) hpos hle]
    omega
  simp only [updateSbdPrintRate, bind_eq_ok, pure_eq_ok]
  exact ⟨_, h.mulPrice_of_le hnull (hworth.trans hle), _, hpercentOf, rfl⟩

theorem updateVirtualSupply_eq_ok (hle : db.totalSupply ≤ maxInt64) :
    db.updateVirtualSupply = .ok db' ↔
      (22 ≤ db.lastHardfork → db.debtWorth ≤ maxInt64 ∧ db.debtPercent < 2 ^ 64) ∧
        db' = db.updated := by
  have hsupply := h.supply_pos
  have htotal := h.totalSupply_pos
  have hvalue : db.sbdValue = .ok ⟨db.worth, steemSymbol⟩ := by
    unfold sbdValue
    rw [if_neg hnull]
    apply h.mulPrice_of_le hnull
    unfold totalSupply at hle
    omega
  have hadd : db.currentSupply.add ⟨db.worth, steemSymbol⟩ =
      .ok ⟨db.totalSupply, steemSymbol⟩ := by
    rw [Asset.add_eq_ok, h.supply_symbol]
    refine ⟨rfl, ⟨?_, hle⟩, rfl⟩
    have hnonneg := h.worth_nonneg
    unfold minInt64
    dsimp only
    omega
  have h₁ : Denominated { db with virtualSupply := ⟨db.totalSupply, steemSymbol⟩ } :=
    ⟨h.supply_symbol, h.supply_pos, h.supply_le, h.sbd_symbol, h.sbd_nonneg, h.sbd_le, h.prices⟩
  have hrate := h₁.updateSbdPrintRate_eq hnull rfl hle
  unfold updateVirtualSupply updated
  rw [hvalue, ok_bind, hadd, ok_bind]
  dsimp only
  by_cases h14 : 14 ≤ db.lastHardfork
  . rw [if_pos ⟨hnull, h14⟩, hrate, ok_bind, if_pos h14]
    dsimp only
    by_cases h22 : 22 ≤ db.lastHardfork
    . rw [if_pos h22, if_pos h22]
      have h₂ : Denominated { db with
          virtualSupply := ⟨db.totalSupply, steemSymbol⟩
          sbdPrintRate := printRate (percent db.worth db.totalSupply).toNat } :=
        ⟨h.supply_symbol, h.supply_pos, h.supply_le, h.sbd_symbol, h.sbd_nonneg, h.sbd_le, h.prices⟩
      have hdebt := @updateSbdDebtPercent_eq_ok _ db' h₂ hnull ?_ ?_
      . refine hdebt.trans ?_
        constructor
        . rintro ⟨hfits, hlt, rfl⟩
          exact ⟨fun _ => ⟨hfits, hlt⟩, rfl⟩
        . rintro ⟨hfits, rfl⟩
          exact ⟨(hfits h22).1, (hfits h22).2, rfl⟩
      . unfold debtSupply comparedSupply
        dsimp only
        split
        . exact ⟨_, rfl⟩
        . exact ⟨_, rfl⟩
      . unfold comparedSupply
        dsimp only
        split
        . exact h.supply_le
        . exact hle
    . rw [if_neg h22, if_neg h22, pure_eq_ok]
      constructor
      . rintro rfl
        exact ⟨fun h => absurd h h22, rfl⟩
      . rintro ⟨-, rfl⟩
        rfl
  . have h22 : ¬22 ≤ db.lastHardfork := by omega
    rw [if_neg (fun hrates => h14 hrates.2), if_neg h14, if_neg h22, pure_eq_ok]
    constructor
    . rintro rfl
      exact ⟨fun h => absurd h h22, rfl⟩
    . rintro ⟨-, rfl⟩
      rfl

/-- The percentage of less debt is not larger, wherever it is cut off. -/
theorem debtPercent_mono (h29 : 29 ≤ db.lastHardfork) {sbd : ℤ}
    (hle : sbd ≤ db.currentSbdSupply.amount) :
    debtPercent { db with currentSbdSupply := ⟨sbd, sbdSymbol⟩ } ≤ db.debtPercent := by
  unfold debtPercent comparedSupply
  dsimp only
  rw [if_pos h29, if_pos h29]
  exact percent_mono h.supply_pos ((h.feeds hnull).2.worth_mono hle)

theorem totalSupply_mono {sbd : ℤ} (hle : sbd ≤ db.currentSbdSupply.amount) :
    totalSupply { db with currentSbdSupply := ⟨sbd, sbdSymbol⟩ } ≤ db.totalSupply := by
  unfold totalSupply worth
  dsimp only
  rw [if_neg hnull, if_neg hnull]
  have := (h.feeds hnull).1.worth_mono hle
  omega

theorem debtPercent_nonneg : 0 ≤ db.debtPercent :=
  percent_nonneg (h.debtWorth_nonneg hnull) h.comparedSupply_pos

theorem sbdDebtPercent_updated (h22 : 22 ≤ db.lastHardfork) :
    (db.updated.sbdDebtPercent : ℤ) = db.debtPercent % 2 ^ 16 := by
  have hnonneg := h.debtPercent_nonneg hnull
  unfold updated
  dsimp only
  rw [if_pos h22]
  omega

/-- One price for both leaves no room for rounding. -/
theorem inOrder_of_worth_eq (hworth : ∀ sbd, db.feedHistory.witnessMedianHistory.worth sbd =
      db.feedHistory.currentMedianHistory.worth sbd) : db.InOrder := by
  by_cases h29 : 29 ≤ db.lastHardfork
  . exact .inl h29
  refine .inr fun sbd hsbd hle _ => ?_
  have hsupply := h.supply_pos
  have hfeed := (h.feeds hnull).1
  have hmono := hfeed.worth_mono hle
  have hnonneg := hfeed.worth_nonneg hsbd
  unfold debtPercent debtWorth comparedSupply totalSupply worth
  dsimp only
  rw [if_neg h29, if_neg h29, if_neg hnull, if_neg hnull, hworth, hworth]
  generalize db.feedHistory.currentMedianHistory.worth sbd = less at hmono hnonneg ⊢
  generalize db.feedHistory.currentMedianHistory.worth db.currentSbdSupply.amount = more at hmono ⊢
  generalize db.currentSupply.amount = supply at hsupply ⊢
  have hwhole : 0 < supply + less := by omega
  have hwhole' : 0 < supply + more := by omega
  have hpercent := percent_nonneg hnonneg hwhole
  have hpercent_le : percent less (supply + less) ≤ steemit100Percent :=
    percent_le hwhole (by omega)
  have hpercent_le' : percent more (supply + more) ≤ steemit100Percent :=
    percent_le hwhole' (by omega)
  have hle : percent less (supply + less) ≤ percent more (supply + more) := by
    rw [le_percent_iff hwhole']
    have hpart := (le_percent_iff hwhole).mp (le_refl (percent less (supply + less)))
    unfold steemit100Percent at hpart hpercent_le ⊢
    generalize percent less (supply + less) = q at hpart hpercent hpercent_le ⊢
    have hrest : q * (more - less) ≤ 10000 * (more - less) :=
      Int.mul_le_mul_of_nonneg_right hpercent_le (by omega)
    rw [Int.mul_add] at hpart ⊢
    rw [Int.mul_sub, Int.mul_sub] at hrest
    push_cast at hpart ⊢
    omega
  unfold steemit100Percent at hpercent_le hpercent_le'
  omega

theorem measured_updated (hfits : db.Fits) (horder : db.HasDebt → db.InOrder) :
    db.Measured db.updated := by
  obtain ⟨hle, hdebt⟩ := (fits_iff hnull).mp hfits
  have hpos := h.totalSupply_pos
  have hnonneg := h.debtPercent_nonneg hnull
  have hdebt_eq : db.HasDebt → (db.updated.sbdDebtPercent : ℤ) = min 65535 db.debtPercent := by
    rintro ⟨-, h22⟩
    obtain ⟨-, -, hfits⟩ := hdebt h22
    rw [h.sbdDebtPercent_updated hnull h22]
    omega
  have hrate : db.HasRates →
      db.updated.sbdPrintRate = printRate (percent db.worth db.totalSupply).toNat := by
    rintro ⟨-, h14⟩
    unfold updated
    dsimp only
    rw [if_pos h14]
  constructor
  . rfl
  . exact hrate
  . intro hrates hshare
    rw [hrate hrates]
    unfold printRate steemitSbdStartPercent
    rw [if_pos]
    have hlt : ¬201 ≤ percent db.worth db.totalSupply := by
      rw [le_percent_iff hpos]
      unfold steemit100Percent
      omega
    omega
  . intro hrates hshare
    rw [hrate hrates]
    unfold printRate steemitSbdStartPercent steemitSbdStopPercent
    have hge : 500 ≤ percent db.worth db.totalSupply := by
      rw [le_percent_iff hpos]
      unfold steemit100Percent
      omega
    rw [if_neg (by omega), if_pos (by omega)]
  . exact hdebt_eq
  . intro hdebt sbd hsbd hsbd_le db₀ hupdate
    have h₀ := h.with_sbd hsbd hsbd_le
    obtain ⟨hdebt₀, rfl⟩ :=
      (h₀.updateVirtualSupply_eq_ok hnull ((h.totalSupply_mono hnull hsbd_le).trans hle)).mp hupdate
    have heq := hdebt_eq hdebt
    have heq₀ := h₀.sbdDebtPercent_updated hnull hdebt.2
    rcases horder hdebt with h29 | horder
    . have hmono := h.debtPercent_mono hnull h29 hsbd_le
      have hnonneg₀ := h₀.debtPercent_nonneg hnull
      omega
    . have := horder sbd hsbd hsbd_le (hdebt₀ hdebt.2).2
      omega
  . intro hdebt hratio hmay
    refine ⟨hmay, ?_⟩
    have hge : 2000 ≤ db.debtPercent := by
      unfold debtPercent
      rw [le_percent_iff h.comparedSupply_pos]
      unfold steemit100Percent
      omega
    have heq := hdebt_eq hdebt
    unfold steemitSbdDebtConvertThreshold
    omega

end feed

/-- Without a price only the virtual supply is touched. -/
theorem measured_of_isNull (hnull : db.feedHistory.currentMedianHistory.isNull) :
    ∃ db', db.updateVirtualSupply = .ok db' ∧ db.Measured db' := by
  have hvalue : db.sbdValue = .ok ⟨0, steemSymbol⟩ := by
    unfold sbdValue
    rw [if_pos hnull]
    rfl
  have htotal : db.totalSupply = db.currentSupply.amount := by
    unfold totalSupply worth
    rw [if_pos hnull, Int.add_zero]
  have hadd : db.currentSupply.add ⟨0, steemSymbol⟩ = .ok ⟨db.totalSupply, steemSymbol⟩ := by
    have hpos := h.supply_pos
    rw [Asset.add_eq_ok, h.supply_symbol, htotal]
    dsimp only
    rw [Int.add_zero]
    refine ⟨rfl, ⟨?_, h.supply_le⟩, rfl⟩
    unfold minInt64
    omega
  have hupdate : db.updateVirtualSupply =
      .ok { db with virtualSupply := ⟨db.totalSupply, steemSymbol⟩ } := by
    unfold updateVirtualSupply
    rw [hvalue, ok_bind, hadd, ok_bind]
    dsimp only
    rw [if_neg (fun hrates => hrates.1 hnull)]
    rfl
  refine ⟨_, hupdate, rfl, ?_, ?_, ?_, ?_, ?_, ?_⟩
  . exact fun hrates => absurd hnull hrates.1
  . exact fun hrates => absurd hnull hrates.1
  . exact fun hrates => absurd hnull hrates.1
  . exact fun hdebt => absurd hnull hdebt.1
  . exact fun hdebt => absurd hnull hdebt.1
  . exact fun hdebt => absurd hnull hdebt.1

end Denominated

end update

section wrapped

/-- A GBG for a GOLOS. -/
def parityPrice : Price :=
  ⟨⟨1, steemSymbol⟩, ⟨1, sbdSymbol⟩⟩

theorem parityPrice_isFeed : parityPrice.IsFeed where
  base_pos := by decide
  base_le := by decide
  quote_pos := by decide
  quote_le := by decide
  names := by decide
  symbols := .inl ⟨rfl, rfl⟩

/-- One GOLOS, and so many thousandths of a GBG. -/
def indebted (sbd : ℤ) : SupplyDatabase :=
  { currentSupply := ⟨1000, steemSymbol⟩
    currentSbdSupply := ⟨sbd, sbdSymbol⟩
    feedHistory := { currentMedianHistory := parityPrice, witnessMedianHistory := parityPrice }
    lastHardfork := 30 }

theorem indebted_denominated {sbd : ℤ} (hnonneg : 0 ≤ sbd) (hle : sbd ≤ maxInt64) :
    (indebted sbd).Denominated where
  supply_symbol := rfl
  supply_pos := show (0 : ℤ) < 1000 by decide
  supply_le := show (1000 : ℤ) ≤ maxInt64 by decide
  sbd_symbol := rfl
  sbd_nonneg := hnonneg
  sbd_le := hle
  prices := .inr ⟨parityPrice_isFeed, parityPrice_isFeed⟩

end wrapped

end SupplyDatabase

end Golos
