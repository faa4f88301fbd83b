import Golos.Savings.Interest
import Golos.Savings.Withdrawals

/-!
This module contains the payments of interest on savings along the runs: each is that of the exact
integral of the savings over time, and added to the supply.
-/

namespace Golos

open Checked Ledger

namespace SavingsAccountObject

variable {a : SavingsAccountObject} {now : Nat}

/-- The interest on what there was since the last payment. -/
def due (rate : Nat) (a : SavingsAccountObject) : ℤ :=
  a.savingsSbdIntegral / steemitSecondsPerYear * rate / steemit100Percent

theorem Accrued.broughtUp (h : a.Accrued now) : (a.broughtUp now).Accrued now := by
  unfold SavingsAccountObject.broughtUp
  split
  . exact h.accrue
  . exact h

theorem savingsSbdBalance_broughtUp : (a.broughtUp now).savingsSbdBalance = a.savingsSbdBalance := by
  unfold broughtUp
  split
  . rfl
  . rfl

theorem vestingShares_broughtUp : (a.broughtUp now).vestingShares = a.vestingShares := by
  unfold broughtUp
  split
  . rfl
  . rfl

theorem savingsSbdIntegral_broughtUp :
    (a.broughtUp now).savingsSbdIntegral = a.savingsSbdIntegral := by
  unfold broughtUp
  split
  . rfl
  . rfl

/-- Whoever was not brought up has nothing. -/
theorem Accrued.empty_or_now (h : a.Accrued now) :
    (a.savingsSbdBalance = 0 ∧ a.broughtUp now = a) ∨
      (a.broughtUp now).savingsSbdSecondsLastUpdate = now := by
  unfold SavingsAccountObject.broughtUp
  split
  . exact .inr rfl
  . next hnot =>
    have := h.nonneg
    exact .inl ⟨by omega, rfl⟩

theorem Accrued.seconds_broughtUp (h : a.Accrued now) :
    ((a.broughtUp now).savingsSbdSeconds : ℤ) = a.savingsSbdIntegral := by
  rw [← @savingsSbdIntegral_broughtUp a now]
  apply h.broughtUp.seconds
  rw [savingsSbdBalance_broughtUp]
  rcases h.empty_or_now with ⟨hzero, _⟩ | hnow
  . exact .inl hzero
  . exact .inr hnow

theorem Accrued.interest_broughtUp (h : a.Accrued now) (rate : Nat) :
    ((a.broughtUp now).interest rate : ℤ) = a.due rate := by
  unfold interest due
  rw [← h.seconds_broughtUp]
  push_cast
  rfl

end SavingsAccountObject

namespace SavingsDatabase

variable {db db' : SavingsDatabase} {event : SavingsEvent}

/-- A block in which interest is paid. -/
def InterestBlock (db : SavingsDatabase) : Prop :=
  db.headBlockNum % (steemitSbdInterestCompoundIntervalSec / 3) = 0

instance (db : SavingsDatabase) : Decidable db.InterestBlock :=
  inferInstanceAs (Decidable (_ = _))

/-- An account whose interest is paid. -/
def Payee (db : SavingsDatabase) (a : SavingsAccountObject) : Prop :=
  0 < a.savingsSbdIntegral ∧ db.isForcedMinPrice = false ∧ db.minGpToEmission ≤ a.vestingShares

instance (db : SavingsDatabase) (a : SavingsAccountObject) : Decidable (db.Payee a) :=
  inferInstanceAs (Decidable (_ ∧ _))

/-- If an account without savings is paid anything, it has been updated in this block. -/
def Regular (db : SavingsDatabase) (a : SavingsAccountObject) : Prop :=
  db.Pays (a.broughtUp db.headBlockTime) →
    (a.savingsSbdBalance = 0 → a.savingsSbdSecondsLastUpdate < db.headBlockTime →
      (a.broughtUp db.headBlockTime).interest db.sbdInterestRate = 0) ∧
    db.Fits (a.broughtUp db.headBlockTime)

def Payable (db : SavingsDatabase) : SavingsEvent → Prop
  | .processGbgPayments => db.InterestBlock → ∀ a ∈ db.accounts.rows, db.Regular a
  | _ => True

/-- The payments of a block. -/
structure PaysInterest (db db' : SavingsDatabase) : Prop where
  account : ∀ a ∈ db.accounts.rows, ∃ a', db'.accounts.find? a.name = some a' ∧
    if db.Payee a then
      a'.savingsSbdBalance = a.savingsSbdBalance + a.due db.sbdInterestRate ∧
        a'.savingsSbdSeconds = 0 ∧ a'.savingsSbdIntegral = 0 ∧
        a'.savingsSbdLastInterestPayment = db.headBlockTime
    else
      a'.savingsSbdBalance = a.savingsSbdBalance ∧ a'.savingsSbdIntegral = a.savingsSbdIntegral ∧
        a'.savingsSbdLastInterestPayment = a.savingsSbdLastInterestPayment
  currentSbdSupply : db'.ledger.currentSbdSupply = db.ledger.currentSbdSupply +
    db.accounts.sum fun a => if db.Payee a then a.due db.sbdInterestRate else 0

section step

theorem pays_broughtUp {a : SavingsAccountObject} (h : a.Accrued db.headBlockTime) :
    db.Pays (a.broughtUp db.headBlockTime) ↔ db.Payee a := by
  have := h.seconds_broughtUp
  unfold Pays Payee
  rw [SavingsAccountObject.vestingShares_broughtUp]
  constructor
  . rintro ⟨hne, hrest⟩
    exact ⟨by omega, hrest⟩
  . rintro ⟨hpos, hrest⟩
    exact ⟨by omega, hrest⟩

/-- The account after both loops. -/
theorem accrued_settle {a : SavingsAccountObject} (h : a.Accrued db.headBlockTime)
    (hregular : db.Regular a)
    (hroom : (a.broughtUp db.headBlockTime).savingsSbdBalance +
      db.interestOf (a.broughtUp db.headBlockTime) ≤ maxInt64) :
    (db.settle (a.broughtUp db.headBlockTime)).Accrued db.headBlockTime := by
  have hup := h.broughtUp
  by_cases hpays : db.Pays (a.broughtUp db.headBlockTime)
  . have hsettle : db.settle (a.broughtUp db.headBlockTime) = _ := if_pos hpays
    have hinterest : db.interestOf (a.broughtUp db.headBlockTime) = _ := if_pos hpays
    rw [hinterest] at hroom
    rw [hsettle]
    refine ⟨Int.add_nonneg hup.nonneg (Int.natCast_nonneg _), hroom, hup.lastUpdate, ?_⟩
    show (0 : ℤ) + (_ + _) * _ = 0
    rw [Int.zero_add]
    rcases h.empty_or_now with ⟨hzero, hsame⟩ | hnow
    . rcases h.lastUpdate.lt_or_eq with hlt | heq
      . rw [(hregular hpays).1 hzero hlt, SavingsAccountObject.savingsSbdBalance_broughtUp, hzero]
        exact Int.zero_mul _
      . rw [hsame, heq, Int.sub_self, Int.mul_zero]
    . rw [hnow, Int.sub_self, Int.mul_zero]
  . have hsettle : db.settle (a.broughtUp db.headBlockTime) = _ := if_neg hpays
    rw [hsettle]
    exact hup

/-- The names the second loop goes through, when it may start. -/
theorem ready_of_regular (h : db.Accrued) (hregular : ∀ a ∈ db.accounts.rows, db.Regular a)
    {name : AccountName} (hname : name ∈ db.broughtUpAll.bySavingsSeconds) :
    db.broughtUpAll.Ready name := by
  rw [db.broughtUpAll.bySavingsSeconds_perm.mem_iff, List.mem_map] at hname
  obtain ⟨b, hb, rfl⟩ := hname
  have hb := Table.find?_of_mem (List.mem_filter.mp hb).1
  refine ⟨b, hb, ?_⟩
  rw [find?_broughtUpAll] at hb
  obtain ⟨a, ha, rfl⟩ := Option.map_eq_some_iff.mp hb
  have hup := (h.account ha).broughtUp
  exact ⟨⟨hup.nonneg, hup.le⟩, fun hpays => (hregular a (Table.mem_of_find? ha) hpays).2⟩

theorem accrueAll_eq (db : SavingsDatabase) : db.accrueAll = db.broughtUpAll :=
  foldl_accrueAccount_perm (.refl _)

theorem voted_broughtUpAll (h : db.Voted) : db.broughtUpAll.Voted :=
  { h with }

theorem nodup_bySavingsSeconds (db : SavingsDatabase) : db.bySavingsSeconds.Nodup :=
  nodup_of_perm db.bySavingsSeconds_perm

/-- Neither loop depends on the order of the accounts. -/
theorem payments_of_perm (h : db.Accrued) (hregular : ∀ a ∈ db.accounts.rows, db.Regular a)
    {first second : List AccountName} (hfirst : first.Perm db.bySavings)
    (hsecond : second.Perm (first.foldl accrueAccount db).bySavingsSeconds) :
    second.foldlM payAccount (first.foldl accrueAccount db) = .ok db' ↔
      db.accrueAll.bySavingsSeconds.foldlM payAccount db.accrueAll = .ok db' := by
  rw [foldl_accrueAccount_perm hfirst] at hsecond ⊢
  rw [accrueAll_eq]
  exact (payAccounts_perm (nodup_bySavingsSeconds _) (voted_broughtUpAll h.voted)
    (fun name => ready_of_regular h hregular) hsecond.symm).symm

/-- Each account that has seconds is in the second loop, and the others get nothing. -/
theorem find?_settleAll {a : SavingsAccountObject} (ha : db.accounts.find? a.name = some a) :
    (db.settleAll db.bySavingsSeconds).accounts.find? a.name = some (db.settle a) := by
  have hfind := Table.find?_modifyWhere db.accounts (fun a => a.name ∈ db.bySavingsSeconds)
    db.settle db.name_settle a.name
  refine hfind.trans ?_
  rw [ha, Option.map_some]
  split
  . rfl
  . next hnot =>
    have hpays : ¬db.Pays a := by
      intro hpays
      apply hnot
      rw [decide_eq_true_eq, db.bySavingsSeconds_perm.mem_iff, List.mem_map]
      refine ⟨a, List.mem_filter.mpr ⟨Table.mem_of_find? ha, ?_⟩, rfl⟩
      exact decide_eq_true (Nat.pos_of_ne_zero hpays.1)
    exact congrArg some (if_neg hpays).symm

theorem sumOver_bySavingsSeconds (db : SavingsDatabase) :
    db.sumOver db.interestOf db.bySavingsSeconds = db.accounts.sum db.interestOf := by
  have hfilter := db.accounts.sum_filter (fun a => 0 < a.savingsSbdSeconds) db.interestOf
  unfold sumOver
  rw [(db.bySavingsSeconds_perm.map _).sum_eq, List.map_map]
  calc _ = (db.accounts.filter fun a => 0 < a.savingsSbdSeconds).sum db.interestOf := by
        congr 1
        apply List.map_congr_left
        intro a ha
        rw [Function.comp_apply, Table.find?_of_mem (List.mem_filter.mp ha).1]
        rfl
    _ = db.accounts.sum db.interestOf := by
        rw [hfilter]
        apply Table.sum_congr
        intro a _
        split
        . rfl
        . next hzero =>
          rw [decide_eq_true_eq] at hzero
          exact (if_neg fun hpays => hzero (Nat.pos_of_ne_zero hpays.1)).symm

/-- What both loops make of an account. -/
theorem settle_broughtUp {a : SavingsAccountObject} (h : a.Accrued db.headBlockTime) :
    if db.Payee a then
      (db.settle (a.broughtUp db.headBlockTime)).savingsSbdBalance =
          a.savingsSbdBalance + a.due db.sbdInterestRate ∧
        (db.settle (a.broughtUp db.headBlockTime)).savingsSbdSeconds = 0 ∧
        (db.settle (a.broughtUp db.headBlockTime)).savingsSbdIntegral = 0 ∧
        (db.settle (a.broughtUp db.headBlockTime)).savingsSbdLastInterestPayment = db.headBlockTime
    else
      (db.settle (a.broughtUp db.headBlockTime)).savingsSbdBalance = a.savingsSbdBalance ∧
        (db.settle (a.broughtUp db.headBlockTime)).savingsSbdIntegral = a.savingsSbdIntegral ∧
        (db.settle (a.broughtUp db.headBlockTime)).savingsSbdLastInterestPayment =
          a.savingsSbdLastInterestPayment := by
  unfold settle
  split
  . next hpayee =>
    rw [if_pos ((pays_broughtUp h).mpr hpayee), ← h.interest_broughtUp]
    refine ⟨?_, rfl, rfl, rfl⟩
    dsimp only
    rw [SavingsAccountObject.savingsSbdBalance_broughtUp]
  . next hpayee =>
    rw [if_neg (mt (pays_broughtUp h).mp hpayee)]
    exact ⟨SavingsAccountObject.savingsSbdBalance_broughtUp,
      SavingsAccountObject.savingsSbdIntegral_broughtUp, by
        unfold SavingsAccountObject.broughtUp
        split
        . rfl
        . rfl⟩

theorem interestOf_broughtUp {a : SavingsAccountObject} (h : a.Accrued db.headBlockTime) :
    db.interestOf (a.broughtUp db.headBlockTime) =
      if db.Payee a then a.due db.sbdInterestRate else 0 := by
  unfold interestOf
  rw [h.interest_broughtUp]
  exact if_congr (pays_broughtUp h) rfl rfl

theorem processGbgPayments_cases (h : db.Accrued)
    (hregular : db.InterestBlock → ∀ a ∈ db.accounts.rows, db.Regular a)
    (hstep : db.processGbgPayments = .ok db') :
    db'.Accrued ∧ if db.InterestBlock then PaysInterest db db' else db' = db := by
  unfold processGbgPayments at hstep
  split at hstep
  . next hno =>
    have hblock : ¬db.InterestBlock := hno
    cases hstep
    rw [if_neg hblock]
    exact ⟨h, rfl⟩
  . next hyes =>
    have hblock : db.InterestBlock := not_not.mp hyes
    have hregular := hregular hblock
    rw [accrueAll_eq] at hstep
    obtain ⟨rfl, hvoted, hroom⟩ := payAccounts_cases (nodup_bySavingsSeconds _)
      (voted_broughtUpAll h.voted) (fun name => ready_of_regular h hregular) hstep
    have hfind : ∀ a ∈ db.accounts.rows,
        (db.broughtUpAll.settleAll db.broughtUpAll.bySavingsSeconds).accounts.find? a.name =
          some (db.settle (a.broughtUp db.headBlockTime)) := by
      intro a ha
      have hup : db.broughtUpAll.accounts.find? (a.broughtUp db.headBlockTime).name =
          some (a.broughtUp db.headBlockTime) := by
        rw [find?_broughtUpAll, SavingsAccountObject.name_broughtUp, Table.find?_of_mem ha]
        rfl
      have := find?_settleAll hup
      rwa [SavingsAccountObject.name_broughtUp] at this
    rw [if_pos hblock]
    refine ⟨⟨?_, hvoted, h.amounts⟩, ?_, ?_⟩
    . intro b hb
      obtain ⟨c, hc, rfl⟩ := mem_settleAll.mp hb
      have hc := Table.find?_of_mem hc
      have hup := hc
      rw [find?_broughtUpAll] at hup
      obtain ⟨a, ha, rfl⟩ := Option.map_eq_some_iff.mp hup
      have haccrued := h.account ha
      split
      . next hmem =>
        apply accrued_settle haccrued (hregular a (Table.mem_of_find? ha))
        exact hroom _ hmem _ hc
      . exact haccrued.broughtUp
    . intro a ha
      refine ⟨_, hfind a ha, ?_⟩
      exact settle_broughtUp (h.accounts a ha)
    . show db.ledger.currentSbdSupply + _ = _
      rw [sumOver_bySavingsSeconds]
      congr 1
      unfold Table.sum
      show ((db.accounts.rows.map _).map _).sum = _
      rw [List.map_map]
      congr 1
      apply List.map_congr_left
      intro a ha
      exact interestOf_broughtUp (h.accounts a ha)

theorem accrued_of_step (h : db.Accrued) (hok : db.Payable event) (hstep : db.Step event db') :
    db'.Accrued := by
  cases event with
  | transferToSavings o =>
    obtain ⟨_, d, hd, rfl⟩ := hstep
    exact (accrued_transferToSavings h hd).withStage _
  | transferFromSavings o =>
    obtain ⟨_, d, hd, rfl⟩ := hstep
    exact (accrued_transferFromSavings h hd).withStage _
  | cancelTransferFromSavings o =>
    obtain ⟨_, d, hd, rfl⟩ := hstep
    exact (accrued_cancelTransferFromSavings h hd).withStage _
  | startBlock timestamp =>
    obtain ⟨⟨hlt, _⟩, _, d, hd, rfl⟩ := hstep
    obtain rfl := Except.ok.inj hd
    exact (accrued_startBlock h hlt).withStage _
  | clearNull =>
    obtain ⟨_, d, hd, rfl⟩ := hstep
    exact (accrued_clearNullSavings h hd).withStage _
  | processSbdDebtConversions removed =>
    obtain ⟨_, d, hd, rfl⟩ := hstep
    exact (accrued_processSbdDebtConversions h hd).withStage _
  | processSavingsWithdraws =>
    obtain ⟨_, d, hd, rfl⟩ := hstep
    exact (accrued_processSavingsWithdraws h hd).withStage _
  | processGbgPayments =>
    obtain ⟨_, d, hd, rfl⟩ := hstep
    exact (processGbgPayments_cases h hok hd).1.withStage _
  | other => exact accrued_otherChange h hstep

theorem accrued_of_initial (h : savingsSystem.initial db) : db.Accrued := by
  obtain ⟨hvoted, hempty, _, _, hnew⟩ := h
  refine ⟨?_, hvoted, ?_⟩
  . intro a ha
    rw [hnew a ha]
    exact SavingsAccountObject.accrued_new _ _ _
  . rw [hempty]
    exact fun w hw => absurd hw List.not_mem_nil

end step

/--
In every run in which no account without savings is paid for the time since its last update, the
seconds stand for the exact integral of the savings over time since the last payment, and each
payment is that of this integral, in whatever order the accounts are visited.
-/
theorem interest_of_run {db : SavingsDatabase} (h : savingsSystem.Reach Payable db) :
    (∀ a ∈ db.accounts.rows, a.Accrued db.headBlockTime) ∧
      (db.Payable .processGbgPayments →
        (∀ db', db.processGbgPayments = .ok db' →
          if db.InterestBlock then PaysInterest db db' else db' = db) ∧
        (db.InterestBlock → ∀ (first second : List AccountName) (db' : SavingsDatabase),
          first.Perm db.bySavings →
          second.Perm (first.foldl accrueAccount db).bySavingsSeconds →
          second.Nodup ∧ (second.foldlM payAccount (first.foldl accrueAccount db) = .ok db' ↔
            db.processGbgPayments = .ok db'))) := by
  have haccrued : db.Accrued := h.invariant (fun _ => accrued_of_initial)
    fun _ _ _ h hok hstep => accrued_of_step h hok hstep
  refine ⟨haccrued.accounts, fun hok => ⟨?_, ?_⟩⟩
  . intro db' hdb'
    exact (processGbgPayments_cases haccrued hok hdb').2
  . intro hblock first second db' hfirst hsecond
    refine ⟨hsecond.nodup_iff.mpr (nodup_bySavingsSeconds _), ?_⟩
    rw [payments_of_perm haccrued (hok hblock) hfirst hsecond]
    have hzero : db.headBlockNum % (steemitSbdInterestCompoundIntervalSec / 3) = 0 := hblock
    unfold processGbgPayments
    rw [if_neg (not_not.mpr hzero)]

section withdrawal

/-- Two blocks before the next payment. -/
def beforePayment : SavingsDatabase where
  ledger :=
    { accounts := (Table.empty.insert { name := "alice", sbdBalance := 1000000000000 } rfl).insert
        { name := "null" } (by decide)
      currentMedianHistory := ⟨⟨1000, sbdSymbol⟩, ⟨1000, steemSymbol⟩⟩ }
  accounts := (Table.empty.insert { name := "alice" } rfl).insert { name := "null" } (by decide)
  headBlockNum := steemitSbdInterestCompoundIntervalSec / 3 - 2
  headBlockTime := 1000
  sbdInterestRate := 1000

def aliceSavesAll : TransferToSavingsOperation where
  fromAccount := "alice"
  toAccount := "alice"
  amount := ⟨1000000000000, sbdSymbol⟩

def aliceWithdrawsAll : TransferFromSavingsOperation where
  fromAccount := "alice"
  requestId := 7
  toAccount := "alice"
  amount := ⟨1000000000000, sbdSymbol⟩

def started (db : SavingsDatabase) (timestamp : Nat) : SavingsDatabase :=
  next .started (.ok (db.startBlock timestamp))

def cleared (db : SavingsDatabase) : SavingsDatabase :=
  next .nullCleared db.clearNullSavings

def conversions (db : SavingsDatabase) : SavingsDatabase :=
  next .converted (db.processSbdDebtConversions SavingsWithdrawObject.fromAccount)

/-- A block as far as the requests. -/
def block (db : SavingsDatabase) (timestamp : Nat) : SavingsDatabase :=
  next .withdrawn (db.started timestamp).cleared.conversions.processSavingsWithdraws

def savedAll : SavingsDatabase :=
  next .transactions (beforePayment.transferToSavings aliceSavesAll)

def afterBlock : SavingsDatabase :=
  next .transactions (savedAll.block 1003).processGbgPayments

def withdrawnAll : SavingsDatabase :=
  next .transactions (afterBlock.transferFromSavings aliceWithdrawsAll)

def atPayment : SavingsDatabase :=
  withdrawnAll.block 1006

def afterPayment : SavingsDatabase :=
  next .transactions atPayment.processGbgPayments

theorem reach_block {timestamp : Nat} (h : savingsSystem.Reach Payable db)
    (hstage : db.stage = .transactions)
    (htime : db.headBlockTime < timestamp ∧ timestamp < 2 ^ 32)
    (hcleared : (db.started timestamp).clearNullSavings.toOption.isSome = true)
    (hconverted : ((db.started timestamp).cleared.processSbdDebtConversions
      SavingsWithdrawObject.fromAccount).toOption.isSome = true)
    (hwithdrawn : (db.started timestamp).cleared.conversions.processSavingsWithdraws.toOption.isSome =
      true) : savingsSystem.Reach Payable (db.block timestamp) := by
  have h₁ : savingsSystem.step db (.startBlock timestamp) (db.started timestamp) :=
    ⟨htime, stages_next hstage rfl⟩
  have h₂ : savingsSystem.step (db.started timestamp) .clearNull (db.started timestamp).cleared :=
    stages_next rfl hcleared
  have h₃ : savingsSystem.step (db.started timestamp).cleared
      (.processSbdDebtConversions SavingsWithdrawObject.fromAccount)
      (db.started timestamp).cleared.conversions := stages_next rfl hconverted
  have h₄ : savingsSystem.step (db.started timestamp).cleared.conversions .processSavingsWithdraws
      (db.block timestamp) := stages_next rfl hwithdrawn
  have hstarted := h.step (e := SavingsEvent.startBlock timestamp) trivial h₁
  have hcleared := hstarted.step (e := SavingsEvent.clearNull) trivial h₂
  have hconverted := hcleared.step
    (e := SavingsEvent.processSbdDebtConversions SavingsWithdrawObject.fromAccount) trivial h₃
  exact hconverted.step (e := SavingsEvent.processSavingsWithdraws) trivial h₄

theorem reach_atPayment : savingsSystem.Reach Payable atPayment := by
  have hvoted : beforePayment.Voted := by
    refine ⟨by decide, by decide, .inr ⟨⟨?_, ?_, ?_, ?_, ?_⟩, .inr ⟨rfl, rfl⟩⟩, by decide, by decide⟩
    all_goals decide
  have h₀ : savingsSystem.Reach Payable beforePayment :=
    .initial ⟨hvoted, rfl, rfl, rfl, by decide +kernel⟩
  have hsaved : savingsSystem.step beforePayment (.transferToSavings aliceSavesAll) savedAll :=
    operates_next rfl (by decide +kernel)
  have h₀ := h₀.step (e := SavingsEvent.transferToSavings aliceSavesAll) trivial hsaved
  have h₁ : savingsSystem.Reach Payable (savedAll.block 1003) :=
    reach_block h₀ rfl (by decide) (by decide +kernel) (by decide +kernel)
      (by decide +kernel)
  have hnone : savingsSystem.step (savedAll.block 1003) .processGbgPayments afterBlock :=
    stages_next rfl (by decide +kernel)
  have hno : ¬(savedAll.block 1003).InterestBlock := by decide +kernel
  have hwithdrawn : savingsSystem.step afterBlock (.transferFromSavings aliceWithdrawsAll)
      withdrawnAll := operates_next rfl (by decide +kernel)
  have h₂ := h₁.step (e := SavingsEvent.processGbgPayments) (fun hyes => absurd hyes hno) hnone
  have h₃ := h₂.step (e := SavingsEvent.transferFromSavings aliceWithdrawsAll) trivial hwithdrawn
  exact reach_block h₃ rfl (by decide +kernel) (by decide +kernel) (by decide +kernel)
    (by decide +kernel)

/-- Alice has taken out her savings, and their seconds stand. -/
theorem interest_of_run_atPayment :
    (∀ a ∈ atPayment.accounts.rows, a.Accrued atPayment.headBlockTime) ∧
      (atPayment.accounts.find? "alice").map SavingsAccountObject.savingsSbdSeconds =
        some 3000000000000 :=
  ⟨(interest_of_run reach_atPayment).1, by decide +kernel⟩

/-- Her interest has been there for three seconds already. -/
theorem not_accrued_afterPayment :
    savingsSystem.Reachable afterPayment ∧
      ∃ a ∈ afterPayment.accounts.rows, a.savingsSbdIntegral = 0 ∧ a.savingsSbdSeconds = 0 ∧
        a.savingsSbdBalance * ((afterPayment.headBlockTime : ℤ) - a.savingsSbdSecondsLastUpdate) =
          3 * 9512 ∧
        ¬a.Accrued afterPayment.headBlockTime := by
  have hpaid : savingsSystem.step atPayment .processGbgPayments afterPayment :=
    stages_next rfl (by decide +kernel)
  have halice : ∃ a ∈ afterPayment.accounts.rows, a.savingsSbdIntegral = 0 ∧
      a.savingsSbdSeconds = 0 ∧
      a.savingsSbdBalance * ((afterPayment.headBlockTime : ℤ) - a.savingsSbdSecondsLastUpdate) =
        3 * 9512 := by
    decide +kernel
  refine ⟨.step reach_atPayment.reachable trivial hpaid, ?_⟩
  obtain ⟨a, ha, hintegral, hseconds, hlate⟩ := halice
  refine ⟨a, ha, hintegral, hseconds, hlate, ?_⟩
  intro haccrued
  have := haccrued.integral
  rw [hlate, hintegral, hseconds] at this
  exact absurd this (by decide)

end withdrawal

end SavingsDatabase

end Golos
