import Golos.Savings.Requests
import Golos.Supply.Ratios

/-!
This module contains the GBG that savings hold over time: what the seconds stand for, and how all
but the payments of interest keep it.
-/

namespace Golos

open Checked Ledger

namespace SavingsAccountObject

variable {a : SavingsAccountObject} {now : Nat}

/-- The seconds, with those since the last update, are the integral of the savings over time. -/
structure Accrued (now : Nat) (a : SavingsAccountObject) : Prop where
  nonneg : 0 ≤ a.savingsSbdBalance
  le : a.savingsSbdBalance ≤ maxInt64
  lastUpdate : a.savingsSbdSecondsLastUpdate ≤ now
  integral : (a.savingsSbdSeconds : ℤ) +
    a.savingsSbdBalance * ((now : ℤ) - a.savingsSbdSecondsLastUpdate) = a.savingsSbdIntegral

/-- There is nothing to accrue on an account without savings. -/
theorem accrued_new (now : Nat) (name : AccountName) (vestingShares : ℤ) :
    Accrued now { name := name, vestingShares := vestingShares } where
  nonneg := le_rfl
  le := show (0 : ℤ) ≤ maxInt64 by decide
  lastUpdate := Nat.zero_le now
  integral := by
    show (0 : ℤ) + 0 * _ = 0
    rw [Int.zero_mul, Int.add_zero]

theorem Accrued.secondsAt (h : a.Accrued now) : (a.secondsAt now : ℤ) = a.savingsSbdIntegral := by
  have hnonneg : 0 ≤ a.savingsSbdBalance * ((now : ℤ) - a.savingsSbdSecondsLastUpdate) :=
    Int.mul_nonneg h.nonneg (Int.sub_nonneg_of_le (Int.ofNat_le.mpr h.lastUpdate))
  unfold SavingsAccountObject.secondsAt
  rw [← h.integral]
  omega

theorem Accrued.seconds (h : a.Accrued now)
    (hempty : a.savingsSbdBalance = 0 ∨ a.savingsSbdSecondsLastUpdate = now) :
    (a.savingsSbdSeconds : ℤ) = a.savingsSbdIntegral := by
  rw [← h.integral]
  rcases hempty with hzero | hnow
  . rw [hzero, Int.zero_mul, Int.add_zero]
  . rw [hnow, Int.sub_self, Int.mul_zero, Int.add_zero]

theorem Accrued.accrue (h : a.Accrued now) : (a.accrue now).Accrued now where
  nonneg := h.nonneg
  le := h.le
  lastUpdate := le_rfl
  integral := by
    show (a.secondsAt now : ℤ) + a.savingsSbdBalance * ((now : ℤ) - now) = a.savingsSbdIntegral
    rw [Int.sub_self, Int.mul_zero, Int.add_zero, h.secondsAt]

theorem Accrued.update (h : a.Accrued now) : (a.update now).Accrued now := by
  unfold SavingsAccountObject.update
  split
  . exact h.accrue
  . next hnow =>
    rw [not_not] at hnow
    rw [← hnow] at h ⊢
    exact h

theorem Accrued.credit (h : a.Accrued now) {delta : Asset}
    (hnonneg : delta.symbol = sbdSymbol → 0 ≤ a.savingsSbdBalance + delta.amount)
    (hle : delta.symbol = sbdSymbol → a.savingsSbdBalance + delta.amount ≤ maxInt64)
    (hsymbol : delta.symbol = steemSymbol ∨ delta.symbol = sbdSymbol) :
    (a.credit now delta).Accrued now := by
  unfold SavingsAccountObject.credit
  split
  . exact ⟨h.nonneg, h.le, h.lastUpdate, h.integral⟩
  . next hsteem =>
    have hsbd := hsymbol.resolve_left hsteem
    refine ⟨hnonneg hsbd, hle hsbd, le_rfl, ?_⟩
    show ((a.update now).savingsSbdSeconds : ℤ) +
      (a.savingsSbdBalance + delta.amount) * ((now : ℤ) - now) = a.savingsSbdIntegral
    rw [Int.sub_self, Int.mul_zero, Int.add_zero]
    exact h.update.seconds (.inr rfl)

theorem Accrued.pass (h : a.Accrued now) {timestamp : Nat} (hlt : now < timestamp) :
    (a.pass ((timestamp : ℤ) - now)).Accrued timestamp where
  nonneg := h.nonneg
  le := h.le
  lastUpdate := h.lastUpdate.trans hlt.le
  integral := by
    show (a.savingsSbdSeconds : ℤ) +
      a.savingsSbdBalance * ((timestamp : ℤ) - a.savingsSbdSecondsLastUpdate) =
      a.savingsSbdIntegral + a.savingsSbdBalance * ((timestamp : ℤ) - now)
    rw [← h.integral, Int.add_assoc, ← Int.mul_add]
    congr 2
    omega

end SavingsAccountObject

namespace SavingsDatabase

variable {db db' : SavingsDatabase}

/-- The savings of all accounts are accrued, and there is nothing else that could spoil it. -/
structure Accrued (db : SavingsDatabase) : Prop where
  accounts : ∀ a ∈ db.accounts.rows, a.Accrued db.headBlockTime
  voted : db.Voted
  amounts : ∀ w ∈ db.savingsWithdraws.rows, 0 < w.amount.amount ∧ w.amount.amount ≤ 2 ^ 63

namespace Accrued

theorem account (h : db.Accrued) {name : AccountName} {a : SavingsAccountObject}
    (ha : db.accounts.find? name = some a) : a.Accrued db.headBlockTime :=
  h.accounts a (Table.mem_of_find? ha)

theorem modifyAccount (h : db.Accrued) {name : AccountName}
    {f : SavingsAccountObject → SavingsAccountObject} (hf : ∀ a, (f a).name = a.name)
    (hkept : ∀ a, db.accounts.find? name = some a → (f a).Accrued db.headBlockTime) :
    (db.modifyAccount name f hf).Accrued := by
  refine ⟨?_, { h.voted with }, h.amounts⟩
  intro b hb
  have hb : b ∈ (db.accounts.modify name f hf).rows := hb
  rcases Table.mem_modify.mp hb with ⟨hb, _⟩ | ⟨a, ha, hname, rfl⟩
  . exact h.accounts b hb
  . exact hkept a (Table.find?_eq_some_iff.mpr ⟨ha, hname⟩)

/-- The counters have nothing to do with it. -/
theorem modifyCounter (h : db.Accrued) (name : AccountName) (f : UInt8 → UInt8) :
    (db.modifyAccount name fun a =>
      { a with savingsWithdrawRequests := f a.savingsWithdrawRequests }).Accrued := by
  apply h.modifyAccount
  intro a ha
  exact { h.account ha with }

theorem withRequests (h : db.Accrued) {savingsWithdraws : Table SavingsWithdrawObject.id}
    {nextWithdrawId : Nat}
    (hamounts : ∀ w ∈ savingsWithdraws.rows, 0 < w.amount.amount ∧ w.amount.amount ≤ 2 ^ 63) :
    Accrued { db with savingsWithdraws := savingsWithdraws, nextWithdrawId := nextWithdrawId } :=
  ⟨h.accounts, { h.voted with }, hamounts⟩

theorem adjustBalance (h : db.Accrued) {name : AccountName} {delta : Asset}
    (hadjust : db.adjustBalance name delta = .ok db') : db'.Accrued := by
  obtain ⟨hmoves, hframe⟩ := adjustBalance_cases hadjust
  obtain ⟨ledger, rfl⟩ : ∃ ledger, db' = { db with ledger := ledger } := ⟨_, hframe⟩
  obtain ⟨hrate, hinterest, hprice, hsbd, hvirtual⟩ := h.voted
  refine ⟨h.accounts, ⟨hrate, hinterest, ?_, ?_, ?_⟩, h.amounts⟩
  . show ledger.currentMedianHistory.isNull ∨ _
    rw [hmoves.currentMedianHistory]
    exact hprice
  . show minInt64 ≤ ledger.currentSbdSupply ∧ _
    rw [hmoves.currentSbdSupply]
    exact hsbd
  . show minInt64 ≤ ledger.virtualSupply ∧ _
    rw [hmoves.virtualSupply]
    exact hvirtual

theorem adjustSavingsBalance (h : db.Accrued) {name : AccountName} {delta : Asset}
    (hnonneg : delta.symbol = sbdSymbol → ∀ a, db.accounts.find? name = some a →
      0 ≤ a.savingsSbdBalance + delta.amount)
    (hadjust : db.adjustSavingsBalance name delta = .ok db') : db'.Accrued := by
  obtain ⟨⟨a, ha, hle⟩, hsymbol, rfl⟩ := adjustSavingsBalance_cases hadjust
  apply h.modifyAccount
  intro a' ha'
  obtain rfl := Option.some.inj (ha.symm.trans ha')
  have ha := h.account ha
  exact ha.credit (fun hsbd => hnonneg hsbd a ha') (fun hsbd => hle hsbd ha.le) hsymbol

theorem withStage (h : db.Accrued) (stage : Stage) : Accrued { db with stage := stage } :=
  ⟨h.accounts, { h.voted with }, h.amounts⟩

end Accrued

section operations

theorem accrued_transferToSavings {o : TransferToSavingsOperation} (h : db.Accrued)
    (hstep : db.transferToSavings o = .ok db') : db'.Accrued := by
  simp only [transferToSavings, TransferToSavingsOperation.validate, checkGolosOrGbgGt0, checkMustBe,
    bind_eq_ok, ensure_eq_ok] at hstep
  obtain ⟨_, ⟨_, _, _, _, _, _, hpos⟩, _, _, _, _, _, _, _, _, db₁, hpay, hsave⟩ := hstep
  have h₁ := h.adjustBalance hpay
  apply h₁.adjustSavingsBalance _ hsave
  intro _ a ha
  have := (h₁.account ha).nonneg
  omega

theorem accrued_transferFromSavings {o : TransferFromSavingsOperation} (h : db.Accrued)
    (hstep : db.transferFromSavings o = .ok db') : db'.Accrued := by
  simp only [transferFromSavings, checkSavings, bind_eq_ok, ensure_eq_ok, get_eq_ok, pure_eq_ok,
    getAccount_eq_ok, Asset.neg_eq_ok] at hstep
  obtain ⟨_, hvalidate, sender, hsender, _, _, _, _, _, ⟨_, _, hle⟩, delta, ⟨hneg, rfl⟩, db₁, hadjust,
    _, _, savingsWithdraws, hemplace, rfl⟩ := hstep
  have hpos := amount_of_validate hvalidate
  have h₁ : db₁.Accrued := by
    apply h.adjustSavingsBalance _ hadjust
    intro hsbd a ha
    obtain rfl := Option.some.inj (hsender.symm.trans ha)
    dsimp only at hsbd ⊢
    rw [hsbd, if_neg sbdSymbol_ne_steemSymbol] at hle
    omega
  refine (h₁.withRequests ?_).modifyCounter _ (· + 1)
  intro w hw
  rcases ((Table.Inserts.emplace hemplace).mem w).mp hw with hw | rfl
  . exact h₁.amounts w hw
  . unfold minInt64 at hneg
    dsimp only
    omega

theorem accrued_cancelTransferFromSavings {o : CancelTransferFromSavingsOperation} (h : db.Accrued)
    (hstep : db.cancelTransferFromSavings o = .ok db') : db'.Accrued := by
  simp only [cancelTransferFromSavings, bind_eq_ok, get_eq_ok, pure_eq_ok] at hstep
  obtain ⟨_, _, _, _, w, hfind, db₁, hadjust, rfl⟩ := hstep
  have hamount := h.amounts w (findSavingsWithdraw_eq_some hfind).1
  have h₁ : db₁.Accrued := by
    apply h.adjustSavingsBalance _ hadjust
    intro _ a ha
    have := (h.account ha).nonneg
    omega
  refine (h₁.withRequests ?_).modifyCounter _ (· - 1)
  intro v hv
  exact h₁.amounts v (Table.mem_erase.mp hv).1

end operations

section blocks

theorem accrued_startBlock {timestamp : Nat} (h : db.Accrued)
    (hlt : db.headBlockTime < timestamp) : (db.startBlock timestamp).Accrued := by
  refine ⟨?_, { h.voted with }, h.amounts⟩
  intro b hb
  have hb : b ∈ (db.accounts.modifyWhere (fun _ => true)
      (SavingsAccountObject.pass ((timestamp : ℤ) - db.headBlockTime)) fun _ => rfl).rows := hb
  obtain ⟨a, ha, rfl⟩ := Table.mem_modifyWhere.mp hb
  exact (h.accounts a ha).pass hlt

theorem accrued_clearNullSavings (h : db.Accrued) (hstep : db.clearNullSavings = .ok db') :
    db'.Accrued := by
  simp only [clearNullSavings, bind_eq_ok, getAccount_eq_ok] at hstep
  obtain ⟨a, ha, db₁, hsteem, hsbd⟩ := hstep
  have h₁ : db₁.Accrued ∧
      ∃ a', db₁.accounts.find? nullAccount = some a' ∧
        a'.savingsSbdBalance = a.savingsSbdBalance := by
    rcases clearSavings_cases hsteem with rfl | hadjust
    . exact ⟨h, a, ha, rfl⟩
    . refine ⟨h.adjustSavingsBalance (fun hsymbol => ?_) hadjust, ?_⟩
      . exact absurd hsymbol.symm sbdSymbol_ne_steemSymbol
      . obtain ⟨_, _, rfl⟩ := adjustSavingsBalance_cases hadjust
        refine ⟨a.credit db.headBlockTime ⟨-a.savingsBalance, steemSymbol⟩, ?_, rfl⟩
        unfold modifyAccount
        rw [Table.find?_modify_self, ha]
        rfl
  obtain ⟨h₁, a', ha', hbalance⟩ := h₁
  rcases clearSavings_cases hsbd with rfl | hadjust
  . exact h₁
  . apply h₁.adjustSavingsBalance _ hadjust
    intro _ b hb
    obtain rfl := Option.some.inj (ha'.symm.trans hb)
    dsimp only
    omega

/-- What is converted of an amount is a part of it, but `int64_t` has no room for the greatest. -/
theorem convertedPart_cases (hvoted : db.Voted) {x : ℤ} (hx : 0 ≤ x) (hle : x ≤ 2 ^ 63)
    {sbd : Asset} (h : db.convertedPart x = .ok sbd) :
    sbd.symbol = sbdSymbol ∧ ((0 ≤ sbd.amount ∧ sbd.amount ≤ x) ∨
      (x = 2 ^ 63 ∧ sbd.amount = -2 ^ 63)) := by
  have hrate : (db.sbdDebtConvertRate : ℤ) ≤ steemit100Percent :=
    Int.ofNat_le.mpr hvoted.sbdDebtConvertRate
  have hmul : x * db.sbdDebtConvertRate ≤ x * steemit100Percent :=
    Int.mul_le_mul_of_nonneg_left hrate hx
  by_cases hlt : x * db.sbdDebtConvertRate < 2 ^ 63 * steemit100Percent
  . rw [convertedPart_eq hx hle hlt] at h
    injection h with h
    rw [← h]
    refine ⟨rfl, .inl ⟨?_, ?_⟩⟩
    . exact Int.ediv_nonneg (Int.mul_nonneg hx (Int.natCast_nonneg _)) (Int.natCast_nonneg _)
    . exact Int.ediv_le_of_le_mul (by decide) hmul
  . rw [not_lt] at hlt
    have hx : x = 2 ^ 63 := by
      apply hle.antisymm
      exact le_of_mul_le_mul_right (hlt.trans hmul) (by decide)
    have hrate : db.sbdDebtConvertRate = steemit100Percent := by
      apply hvoted.sbdDebtConvertRate.antisymm
      rw [hx] at hlt
      exact Int.ofNat_le.mp (le_of_mul_le_mul_left hlt (by decide))
    rw [hx] at h ⊢
    unfold convertedPart at h
    rw [hrate] at h
    have hpart : ofUint128 (toUint128 (2 ^ 63) * steemit100Percent % 2 ^ 128 / steemit100Percent) =
        .ok (-2 ^ 63) := by decide
    rw [hpart] at h
    injection h with h
    rw [← h]
    exact ⟨rfl, .inr ⟨rfl, rfl⟩⟩

/-- The savings of an account do not reach that far. -/
theorem convertedPart_le (hvoted : db.Voted) {x : ℤ} (hx : 0 ≤ x) (hle : x ≤ maxInt64) {sbd : Asset}
    (h : db.convertedPart x = .ok sbd) :
    0 ≤ sbd.amount ∧ sbd.amount ≤ x ∧ sbd.symbol = sbdSymbol := by
  unfold maxInt64 at hle
  obtain ⟨hsymbol, ⟨hnonneg, hpart⟩ | ⟨hmax, _⟩⟩ := convertedPart_cases hvoted hx (by omega) h
  . exact ⟨hnonneg, hpart, hsymbol⟩
  . omega

theorem accrued_convertLiquid (h : db.Accrued) {name : AccountName} {sbd : Asset}
    (hstep : db.convertLiquid name sbd = .ok db') :
    db'.Accrued ∧ db'.accounts = db.accounts ∧
      db'.ledger.currentMedianHistory = db.ledger.currentMedianHistory := by
  unfold convertLiquid at hstep
  split at hstep
  . simp only [bind_eq_ok] at hstep
    obtain ⟨steem, _, delta, _, db₁, hsbd, hsteem⟩ := hstep
    obtain ⟨hmoves, hframe⟩ := adjustBalance_cases hsbd
    obtain ⟨hmoves', hframe'⟩ := adjustBalance_cases hsteem
    refine ⟨(h.adjustBalance hsbd).adjustBalance hsteem, ?_, ?_⟩
    . rw [hframe', hframe]
    . rw [hmoves'.currentMedianHistory, hmoves.currentMedianHistory]
  . cases hstep
    exact ⟨h, rfl, rfl⟩

theorem accrued_convertSavings (h : db.Accrued) (hprice : db.ledger.currentMedianHistory.IsFeed)
    {name : AccountName} {sbd : Asset} (hnonneg : 0 ≤ sbd.amount) (hmax : sbd.amount ≤ maxInt64)
    (hsymbol : sbd.symbol = sbdSymbol)
    (hle : ∀ a, db.accounts.find? name = some a → sbd.amount ≤ a.savingsSbdBalance)
    (hstep : db.convertSavings name sbd = .ok db') : db'.Accrued ∧ db'.ledger = db.ledger := by
  obtain ⟨amount, symbol⟩ := sbd
  obtain rfl : symbol = sbdSymbol := hsymbol
  unfold convertSavings at hstep
  split at hstep
  . simp only [bind_eq_ok, Asset.neg_eq_ok] at hstep
    obtain ⟨steem, hsteem, delta, ⟨_, rfl⟩, db₁, hsbd, hsaved⟩ := hstep
    have hsymbol := ((hprice.mulPrice_sbd hnonneg hmax).mp hsteem).2
    have h₁ : db₁.Accrued := by
      apply h.adjustSavingsBalance _ hsbd
      intro _ a ha
      have := hle a ha
      dsimp only at this ⊢
      omega
    constructor
    . apply h₁.adjustSavingsBalance _ hsaved
      intro hsbd
      exact absurd (hsbd.symm.trans hsymbol) sbdSymbol_ne_steemSymbol
    . rw [(saves_adjustSavingsBalance hsaved).frame, (saves_adjustSavingsBalance hsbd).frame]
  . cases hstep
    exact ⟨h, rfl⟩

theorem accrued_convertAccount (h : db.Accrued) (hprice : db.ledger.currentMedianHistory.IsFeed)
    {name : AccountName} (hstep : db.convertAccount name = .ok db') :
    db'.Accrued ∧ db'.ledger.currentMedianHistory = db.ledger.currentMedianHistory := by
  simp only [convertAccount, bind_eq_ok] at hstep
  obtain ⟨sbd, _, savingsSbd, hpart, db₁, hliquid, hsavings⟩ := hstep
  obtain ⟨h₁, haccounts, hprice₁⟩ := accrued_convertLiquid h hliquid
  have hbounds : 0 ≤ (db.gbgOf name).2 ∧ (db.gbgOf name).2 ≤ maxInt64 := by
    unfold gbgOf
    cases hfind : db.accounts.find? name with
    | none =>
      refine ⟨le_rfl, ?_⟩
      show (0 : ℤ) ≤ maxInt64
      decide
    | some a => exact ⟨(h.account hfind).nonneg, (h.account hfind).le⟩
  obtain ⟨hnonneg, hle, hsymbol⟩ := convertedPart_le h.voted hbounds.1 hbounds.2 hpart
  have hle' : ∀ a, db₁.accounts.find? name = some a → savingsSbd.amount ≤ a.savingsSbdBalance := by
    rw [haccounts]
    intro a ha
    unfold gbgOf at hle
    rw [ha] at hle
    exact hle
  obtain ⟨h', hledger⟩ := accrued_convertSavings h₁ (hprice₁ ▸ hprice) hnonneg
    (hle.trans hbounds.2) hsymbol hle' hsavings
  exact ⟨h', hledger ▸ hprice₁⟩

theorem accrued_convertWithdraw {removed : Removed} (h : db.Accrued) {w : SavingsWithdrawObject}
    (hamount : 0 < w.amount.amount ∧ w.amount.amount ≤ 2 ^ 63)
    (hstep : db.convertWithdraw removed w = .ok db') : db'.Accrued := by
  unfold convertWithdraw at hstep
  split at hstep
  . cases hstep
    exact h
  . simp only [bind_eq_ok] at hstep
    obtain ⟨sbd, hsbd, steem, _, db₁, hadjust, hstep⟩ := hstep
    have h₁ := h.adjustBalance hadjust
    split at hstep
    . simp only [bind_eq_ok, pure_eq_ok] at hstep
      obtain ⟨sender, _, rfl⟩ := hstep
      refine (h₁.withRequests ?_).modifyCounter _ (· - 1)
      intro v hv
      exact h₁.amounts v (Table.mem_erase.mp hv).1
    . next hne =>
      simp only [bind_eq_ok, pure_eq_ok, Asset.sub_eq_ok] at hstep
      obtain ⟨amount, ⟨hsymbol, hrange, rfl⟩, rfl⟩ := hstep
      apply h₁.withRequests
      intro v hv
      rcases Table.mem_modify.mp hv with ⟨hv, _⟩ | ⟨v, _, _, rfl⟩
      . exact h₁.amounts v hv
      . show 0 < w.amount.amount - sbd.amount ∧ w.amount.amount - sbd.amount ≤ 2 ^ 63
        have hne' : sbd.amount ≠ w.amount.amount := by
          intro heq
          apply hne
          rw [Asset.mk.injEq]
          exact ⟨heq.symm, hsymbol⟩
        unfold maxInt64 at hrange
        obtain ⟨_, hpart | hpart⟩ := convertedPart_cases h.voted hamount.1.le hamount.2 hsbd
        . omega
        . omega

theorem accrued_processSbdDebtConversions {removed : Removed} (h : db.Accrued)
    (hstep : db.processSbdDebtConversions removed = .ok db') : db'.Accrued := by
  unfold processSbdDebtConversions at hstep
  split at hstep
  . next hconverts =>
    rw [bind_eq_ok] at hstep
    obtain ⟨db₁, haccounts, hrequests⟩ := hstep
    have hprice := h.voted.price.resolve_left hconverts.2.2.1
    have h₁ : db₁.Accrued ∧ db₁.ledger.currentMedianHistory.IsFeed := by
      apply foldlM_invariant (P := fun d _ => d.Accrued ∧ d.ledger.currentMedianHistory.IsFeed) _
        ⟨h, hprice⟩ haccounts
      intro d d' name _ hd hturn
      obtain ⟨hd', hsame⟩ := accrued_convertAccount hd.1 hd.2 hturn
      exact ⟨hd', hsame ▸ hd.2⟩
    refine (foldlM_invariant (P := fun d l => d.Accrued ∧
      ∀ w ∈ l, 0 < w.amount.amount ∧ w.amount.amount ≤ 2 ^ 63) ?_ ⟨h₁.1, h₁.1.amounts⟩ hrequests).1
    intro d d' w l hd hturn
    exact ⟨accrued_convertWithdraw hd.1 (hd.2 w List.mem_cons_self) hturn,
      fun v hv => hd.2 v (List.mem_cons_of_mem w hv)⟩
  . cases hstep
    exact h

theorem accrued_processSavingsWithdraws (h : db.Accrued)
    (hstep : db.processSavingsWithdraws = .ok db') : db'.Accrued := by
  apply foldlM_invariant (P := fun d _ => d.Accrued) _ h hstep
  intro d d' w _ hd hturn
  simp only [payWithdraw, bind_eq_ok, pure_eq_ok] at hturn
  obtain ⟨d₁, hadjust, sender, _, rfl⟩ := hturn
  have hd₁ := hd.adjustBalance hadjust
  refine (hd₁.withRequests ?_).modifyCounter _ (· - 1)
  intro v hv
  exact hd₁.amounts v (Table.mem_erase.mp hv).1

theorem accrued_otherChange (h : db.Accrued) (hother : db.OtherChange db') : db'.Accrued := by
  refine ⟨?_, hother.voted, hother.savingsWithdraws ▸ h.amounts⟩
  intro a ha
  rw [hother.headBlockTime]
  have ha := Table.find?_of_mem ha
  cases hfind : db.accounts.find? a.name with
  | none =>
    rw [hother.new a.name hfind a ha]
    exact SavingsAccountObject.accrued_new _ _ _
  | some b =>
    obtain ⟨vestingShares, hkept⟩ := hother.kept b (Table.mem_of_find? hfind)
    rw [Table.key_of_find? hfind, ha] at hkept
    rw [Option.some.inj hkept]
    exact { h.account hfind with }

end blocks

end SavingsDatabase

end Golos
