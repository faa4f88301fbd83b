import Golos.Escrow.Impl
import Golos.Feed.Feed
import Golos.Staking.Impl.Delegation

/-!
This module contains savings, under the rules of hardfork 28 and later: what goes into them, the
requests to withdraw from them, their interest, and what the forced conversion of GBG does to them.
-/

namespace Golos

open Checked

def steemitSavingsWithdrawTime : Nat := 3 * 24 * 60 * 60

def steemitSavingsWithdrawRequestLimit : Nat := 100

def steemitSbdInterestCompoundIntervalSec : Nat := 60 * 60 * 24 * 30

def steemitSecondsPerYear : Nat := 60 * 60 * 24 * 365

structure TransferToSavingsOperation where
  fromAccount : AccountName
  toAccount : AccountName
  amount : Asset

structure TransferFromSavingsOperation where
  fromAccount : AccountName
  requestId : Nat
  toAccount : AccountName
  amount : Asset

structure CancelTransferFromSavingsOperation where
  fromAccount : AccountName
  requestId : Nat

/-- `GOLOS_CHECK_ASSET_GT0(amount, GOLOS_OR_GBG)` -/
def checkGolosOrGbgGt0 (amount : Asset) : Result Unit := do
  checkMustBe (amount.symbol = steemSymbol ∨ amount.symbol = sbdSymbol) "amount" "GOLOS or GBG"
  checkMustBe (0 < amount.amount) "amount" ">0"

def TransferToSavingsOperation.validate (o : TransferToSavingsOperation) : Result Unit := do
  validateAccountName o.fromAccount
  validateAccountName o.toAccount
  checkGolosOrGbgGt0 o.amount

def TransferFromSavingsOperation.validate (o : TransferFromSavingsOperation) : Result Unit := do
  validateAccountName o.fromAccount
  validateAccountName o.toAccount
  checkGolosOrGbgGt0 o.amount

def CancelTransferFromSavingsOperation.validate (o : CancelTransferFromSavingsOperation) :
    Result Unit :=
  validateAccountName o.fromAccount

/-- The part of `account_object` that is about savings. -/
structure SavingsAccountObject where
  name : AccountName
  savingsBalance : ℤ := 0
  savingsSbdBalance : ℤ := 0
  savingsSbdSeconds : Nat := 0
  savingsSbdSecondsLastUpdate : Nat := 0
  savingsSbdLastInterestPayment : Nat := 0
  savingsWithdrawRequests : UInt8 := 0
  vestingShares : ℤ := 0
  /-- The savings in GBG times the seconds they were there since the last interest was paid. No
  function reads it. -/
  savingsSbdIntegral : ℤ := 0
  deriving DecidableEq

structure SavingsWithdrawObject where
  id : Nat
  fromAccount : AccountName
  toAccount : AccountName
  requestId : Nat
  amount : Asset
  complete : Nat
  deriving DecidableEq

/-- Where `_apply_block` is. -/
inductive Stage where
  | transactions
  | started
  | nullCleared
  | converted
  | withdrawn
  deriving DecidableEq

/-- The part of `database` that savings need. -/
structure SavingsDatabase where
  ledger : Ledger := {}
  accounts : Table SavingsAccountObject.name := .empty
  savingsWithdraws : Table SavingsWithdrawObject.id := .empty
  /-- The id of the next request. -/
  nextWithdrawId : Nat := 0
  headBlockNum : Nat := 0
  headBlockTime : Nat := 0
  sbdInterestRate : Nat := 0
  isForcedMinPrice : Bool := false
  /-- `get_min_gp_to_emission().first` -/
  minGpToEmission : ℤ := 0
  sbdDebtConvertRate : Nat := 100
  sbdDebtPercent : Nat := 0
  stage : Stage := .transactions

/-- The time is that of the block, and the savings were there until then. -/
def SavingsAccountObject.pass (seconds : ℤ) (a : SavingsAccountObject) : SavingsAccountObject :=
  { a with savingsSbdIntegral := a.savingsSbdIntegral + a.savingsSbdBalance * seconds }

/-- The seconds with those since the last update. -/
def SavingsAccountObject.secondsAt (now : Nat) (a : SavingsAccountObject) : Nat :=
  a.savingsSbdSeconds + (a.savingsSbdBalance * ((now : ℤ) - a.savingsSbdSecondsLastUpdate)).toNat

def SavingsAccountObject.accrue (now : Nat) (a : SavingsAccountObject) : SavingsAccountObject :=
  { a with savingsSbdSeconds := a.secondsAt now, savingsSbdSecondsLastUpdate := now }

/-- What `adjust_savings_balance` does first to an account that gets GBG. -/
def SavingsAccountObject.update (now : Nat) (a : SavingsAccountObject) : SavingsAccountObject :=
  { a with
    savingsSbdSeconds :=
      if a.savingsSbdSecondsLastUpdate ≠ now then a.secondsAt now else a.savingsSbdSeconds
    savingsSbdSecondsLastUpdate := now }

def SavingsAccountObject.interest (rate : Nat) (a : SavingsAccountObject) : Nat :=
  a.savingsSbdSeconds / steemitSecondsPerYear * rate / steemit100Percent

namespace SavingsDatabase

variable (db : SavingsDatabase)

def getAccount (name : AccountName) : Result SavingsAccountObject :=
  get (db.accounts.find? name) (.missingObject "account")

def modifyAccount (name : AccountName) (f : SavingsAccountObject → SavingsAccountObject)
    (hf : autoParam (∀ a, (f a).name = a.name) Monoid.npow_zero._autoParam) : SavingsDatabase :=
  { db with accounts := db.accounts.modify name f hf }

/-- The index `by_from_rid`. -/
def findSavingsWithdraw (owner : AccountName) (requestId : Nat) : Option SavingsWithdrawObject :=
  db.savingsWithdraws.rows.find? fun w => w.fromAccount = owner ∧ w.requestId = requestId

def adjustBalance (name : AccountName) (delta : Asset) : Result SavingsDatabase := do
  let ledger ← db.ledger.adjustBalance name delta
  pure { db with ledger := ledger }

def adjustSavingsBalance (name : AccountName) (delta : Asset) : Result SavingsDatabase := do
  let a ← db.getAccount name
  if delta.symbol = steemSymbol then
    let savingsBalance ← add64 a.savingsBalance delta.amount .overflowException
    pure (db.modifyAccount name fun a => { a with savingsBalance := savingsBalance })
  else if delta.symbol = sbdSymbol then
    let savingsSbdBalance ← add64 a.savingsSbdBalance delta.amount .overflowException
    pure (db.modifyAccount name fun a =>
      { a.update db.headBlockTime with savingsSbdBalance := savingsSbdBalance })
  else
    throw (.invalidValue "invalid symbol")

/-- `GOLOS_CHECK_BALANCE(db, account, SAVINGS, required)` -/
def checkSavings (a : SavingsAccountObject) (required : Asset) : Result Unit := do
  ensure (required.symbol = steemSymbol ∨ required.symbol = sbdSymbol)
    (.invalidValue "invalid symbol")
  let exist := if required.symbol = steemSymbol then a.savingsBalance else a.savingsSbdBalance
  ensure (required.amount ≤ exist) (.insufficientFunds a.name "savings")

section evaluators

def transferToSavings (o : TransferToSavingsOperation) : Result SavingsDatabase := do
  o.validate
  let sender ← db.ledger.getAccount o.fromAccount
  let _ ← db.getAccount o.toAccount
  db.ledger.checkBalance sender o.amount
  let delta ← o.amount.neg
  let db ← db.adjustBalance o.fromAccount delta
  db.adjustSavingsBalance o.toAccount o.amount

def transferFromSavings (o : TransferFromSavingsOperation) : Result SavingsDatabase := do
  o.validate
  let sender ← db.getAccount o.fromAccount
  let _ ← db.getAccount o.toAccount
  ensure (sender.savingsWithdrawRequests.toNat < steemitSavingsWithdrawRequestLimit)
    (.logicException "Account has reached limit for pending withdraw requests.")
  checkSavings sender o.amount
  let delta ← o.amount.neg
  let db ← db.adjustSavingsBalance o.fromAccount delta
  ensure ((db.findSavingsWithdraw o.fromAccount o.requestId).isNone)
    (.objectAlreadyExist "savings_withdraw")
  let savingsWithdraws ← get (db.savingsWithdraws.emplace
    { id := db.nextWithdrawId
      fromAccount := o.fromAccount
      toAccount := o.toAccount
      requestId := o.requestId
      amount := o.amount
      complete := db.headBlockTime + steemitSavingsWithdrawTime }) .uniquenessViolated
  pure ({ db with
      savingsWithdraws := savingsWithdraws
      nextWithdrawId := db.nextWithdrawId + 1 }.modifyAccount o.fromAccount fun a =>
    { a with savingsWithdrawRequests := a.savingsWithdrawRequests + 1 })

def cancelTransferFromSavings (o : CancelTransferFromSavingsOperation) :
    Result SavingsDatabase := do
  o.validate
  let _ ← db.getAccount o.fromAccount
  let w ← get (db.findSavingsWithdraw o.fromAccount o.requestId)
    (.missingObject "savings_withdraw")
  let db ← db.adjustSavingsBalance o.fromAccount w.amount
  pure ({ db with savingsWithdraws := db.savingsWithdraws.erase w.id }.modifyAccount o.fromAccount
    fun a => { a with savingsWithdrawRequests := a.savingsWithdrawRequests - 1 })

end evaluators

section blocks

def startBlock (timestamp : Nat) : SavingsDatabase :=
  { db with
    accounts := db.accounts.modifyWhere (fun _ => true)
      fun a => a.pass ((timestamp : ℤ) - db.headBlockTime)
    headBlockNum := db.headBlockNum + 1
    headBlockTime := timestamp }

/-- Savings that the null account has are taken from it. -/
def clearSavings (amount : Asset) : Result SavingsDatabase :=
  if 0 < amount.amount then do
    let delta ← amount.neg
    db.adjustSavingsBalance nullAccount delta
  else
    pure db

/-- The part of `clear_null_account_balance` for savings. -/
def clearNullSavings : Result SavingsDatabase := do
  let a ← db.getAccount nullAccount
  let db ← db.clearSavings ⟨a.savingsBalance, steemSymbol⟩
  db.clearSavings ⟨a.savingsSbdBalance, sbdSymbol⟩

/-- The part of an amount of GBG that is converted. -/
def convertedPart (amount : ℤ) : Result Asset := do
  let amount ← ofUint128 (toUint128 amount * db.sbdDebtConvertRate % 2 ^ 128 / steemit100Percent)
  pure ⟨amount, sbdSymbol⟩

/-- The GBG that an account has, liquid and saved. -/
def gbgOf (name : AccountName) : ℤ × ℤ :=
  (((db.ledger.accounts.find? name).map AccountObject.sbdBalance).getD 0,
    ((db.accounts.find? name).map SavingsAccountObject.savingsSbdBalance).getD 0)

/-- Some GBG of the liquid balance becomes GOLOS. -/
def convertLiquid (name : AccountName) (sbd : Asset) : Result SavingsDatabase :=
  if sbd.amount ≠ 0 then do
    let steem ← sbd.mulPrice db.ledger.currentMedianHistory
    let delta ← sbd.neg
    let db ← db.adjustBalance name delta
    db.adjustBalance name steem
  else
    pure db

/-- Some GBG of the savings becomes GOLOS. -/
def convertSavings (name : AccountName) (savingsSbd : Asset) : Result SavingsDatabase :=
  if savingsSbd.amount ≠ 0 then do
    let steem ← savingsSbd.mulPrice db.ledger.currentMedianHistory
    let delta ← savingsSbd.neg
    let db ← db.adjustSavingsBalance name delta
    db.adjustSavingsBalance name steem
  else
    pure db

def convertAccount (name : AccountName) : Result SavingsDatabase := do
  let sbd ← db.convertedPart (db.gbgOf name).1
  let savingsSbd ← db.convertedPart (db.gbgOf name).2
  let db ← db.convertLiquid name sbd
  db.convertSavings name savingsSbd

/-- The index `by_sbd` as far as there is GBG. -/
def bySbd : List AccountName :=
  ((db.accounts.rows.map SavingsAccountObject.name).insertionSort fun a b =>
    (db.gbgOf b).1 < (db.gbgOf a).1 ∨ ((db.gbgOf b).1 = (db.gbgOf a).1 ∧
      (db.gbgOf b).2 ≤ (db.gbgOf a).2)).takeWhile fun a => db.gbgOf a ≠ (0, 0)

/-- What `itr->from` gives after `remove(*itr)`, when there is no element any more. -/
abbrev Removed :=
  SavingsWithdrawObject → AccountName

variable (removed : Removed)

/-- One turn of the loop over the requests. -/
def convertWithdraw (w : SavingsWithdrawObject) : Result SavingsDatabase :=
  if w.amount.symbol ≠ sbdSymbol ∨ w.amount.amount = 0 then
    pure db
  else do
    let sbd ← db.convertedPart w.amount.amount
    let steem ← sbd.mulPrice db.ledger.currentMedianHistory
    let db ← db.adjustBalance w.toAccount steem
    if w.amount = sbd then
      -- the element is read after it was removed
      let sender ← db.getAccount (removed w)
      pure ({ db with savingsWithdraws := db.savingsWithdraws.erase w.id }.modifyAccount sender.name
        fun a => { a with savingsWithdrawRequests := a.savingsWithdrawRequests - 1 })
    else
      let amount ← w.amount.sub sbd
      pure { db with
        savingsWithdraws := db.savingsWithdraws.modify w.id fun w => { w with amount := amount } }

/-- The conditions of `process_sbd_debt_conversions`. -/
def convertsSbdDebt : Prop :=
  db.headBlockNum % steemitSbdDebtConvertInterval = 0 ∧ db.sbdDebtConvertRate ≠ 0 ∧
    ¬db.ledger.currentMedianHistory.isNull ∧ steemitSbdDebtConvertThreshold ≤ db.sbdDebtPercent

instance : Decidable db.convertsSbdDebt :=
  inferInstanceAs (Decidable (_ ∧ _))

/-- The parts of `process_sbd_debt_conversions` for accounts and for requests. -/
def processSbdDebtConversions : Result SavingsDatabase :=
  if db.convertsSbdDebt then do
    let db ← db.bySbd.foldlM convertAccount db
    db.savingsWithdraws.rows.foldlM (fun db w => db.convertWithdraw removed w) db
  else
    pure db

/-- The index `by_complete_from_rid`. -/
def byCompleteFromRid : List SavingsWithdrawObject :=
  db.savingsWithdraws.rows.insertionSort fun v w =>
    v.complete < w.complete ∨ (v.complete = w.complete ∧ (v.fromAccount < w.fromAccount ∨
      (v.fromAccount = w.fromAccount ∧ v.requestId ≤ w.requestId)))

def payWithdraw (w : SavingsWithdrawObject) : Result SavingsDatabase := do
  let db ← db.adjustBalance w.toAccount w.amount
  let sender ← db.getAccount w.fromAccount
  pure ({ db with savingsWithdraws := db.savingsWithdraws.erase w.id }.modifyAccount sender.name
    fun a => { a with savingsWithdrawRequests := a.savingsWithdrawRequests - 1 })

def processSavingsWithdraws : Result SavingsDatabase :=
  (db.byCompleteFromRid.takeWhile fun w => w.complete ≤ db.headBlockTime).foldlM payWithdraw db

def paySavingsInterest (name : AccountName) : Result SavingsDatabase := do
  let a ← db.getAccount name
  if a.savingsSbdSeconds = 0 ∨ db.isForcedMinPrice then
    pure db
  else
    let interest ← ofUint128 (a.interest db.sbdInterestRate)
    let savingsSbdBalance ← add64 a.savingsSbdBalance interest .overflowException
    let currentSbdSupply ← add64 db.ledger.currentSbdSupply interest .overflowException
    let steem ← Asset.mulPrice ⟨interest, sbdSymbol⟩ db.ledger.currentMedianHistory
    let virtualSupply ← Asset.add ⟨db.ledger.virtualSupply, steemSymbol⟩ steem
    pure ({ db with
        ledger :=
          { db.ledger with
            currentSbdSupply := currentSbdSupply
            virtualSupply := virtualSupply.amount } }.modifyAccount name fun a =>
      { a with
        savingsSbdBalance := savingsSbdBalance
        savingsSbdSeconds := 0
        savingsSbdLastInterestPayment := db.headBlockTime
        savingsSbdIntegral := 0 })

/-- The turn of an account in the second loop of `process_gbg_payments`. -/
def payAccount (name : AccountName) : Result SavingsDatabase := do
  let a ← db.getAccount name
  if a.vestingShares < db.minGpToEmission then
    pure db
  else
    db.paySavingsInterest name

/-- The index `by_savings` as far as there is GBG. -/
def bySavings : List AccountName :=
  ((db.accounts.rows.insertionSort fun a b =>
    b.savingsSbdBalance ≤ a.savingsSbdBalance).takeWhile fun a =>
      0 < a.savingsSbdBalance).map SavingsAccountObject.name

/-- The turn of an account in the first loop of `process_gbg_payments`. -/
def accrueAccount (name : AccountName) : SavingsDatabase :=
  db.modifyAccount name fun a => a.accrue db.headBlockTime

def accrueAll : SavingsDatabase :=
  db.bySavings.foldl accrueAccount db

/-- The index `by_savings_seconds` as far as there are seconds. -/
def bySavingsSeconds : List AccountName :=
  ((db.accounts.rows.insertionSort fun a b =>
    b.savingsSbdSeconds ≤ a.savingsSbdSeconds).takeWhile fun a =>
      0 < a.savingsSbdSeconds).map SavingsAccountObject.name

def processGbgPayments : Result SavingsDatabase :=
  if db.headBlockNum % (steemitSbdInterestCompoundIntervalSec / 3) ≠ 0 then
    pure db
  else
    db.accrueAll.bySavingsSeconds.foldlM payAccount db.accrueAll

end blocks

end SavingsDatabase

inductive SavingsEvent where
  | transferToSavings (o : TransferToSavingsOperation)
  | transferFromSavings (o : TransferFromSavingsOperation)
  | cancelTransferFromSavings (o : CancelTransferFromSavingsOperation)
  | startBlock (timestamp : Nat)
  | clearNull
  | processSbdDebtConversions (removed : SavingsDatabase.Removed)
  | processSavingsWithdraws
  | processGbgPayments
  /-- Everything else: other operations, what else a block does, feeds, chain properties. -/
  | other

namespace SavingsDatabase

/-- What the chain properties, the feeds and the types of the supplies make sure of. -/
structure Voted (db : SavingsDatabase) : Prop where
  sbdDebtConvertRate : db.sbdDebtConvertRate ≤ steemit100Percent
  sbdInterestRate : db.sbdInterestRate ≤ steemit100Percent
  price : db.ledger.currentMedianHistory.isNull ∨ db.ledger.currentMedianHistory.IsFeed
  currentSbdSupply :
    minInt64 ≤ db.ledger.currentSbdSupply ∧ db.ledger.currentSbdSupply ≤ maxInt64
  virtualSupply : minInt64 ≤ db.ledger.virtualSupply ∧ db.ledger.virtualSupply ≤ maxInt64

/-- Nothing about the savings is different, but there may be accounts without any. -/
structure OtherChange (db db' : SavingsDatabase) : Prop where
  voted : db'.Voted
  savingsWithdraws : db'.savingsWithdraws = db.savingsWithdraws
  nextWithdrawId : db'.nextWithdrawId = db.nextWithdrawId
  headBlockNum : db'.headBlockNum = db.headBlockNum
  headBlockTime : db'.headBlockTime = db.headBlockTime
  stage : db'.stage = db.stage
  kept : ∀ a ∈ db.accounts.rows, ∃ vestingShares,
    db'.accounts.find? a.name = some { a with vestingShares := vestingShares }
  new : ∀ name, db.accounts.find? name = none → ∀ a, db'.accounts.find? name = some a →
    a = { name := name, vestingShares := a.vestingShares }

/-- One stage of `_apply_block` leads to the next. -/
def Stages (db db' : SavingsDatabase) (before after : Stage) (result : Result SavingsDatabase) :
    Prop :=
  db.stage = before ∧ ∃ d, result = .ok d ∧ db' = { d with stage := after }

/-- An operation of a transaction, or of a proposal that the block executes after them. -/
def Operates (db db' : SavingsDatabase) (result : Result SavingsDatabase) : Prop :=
  (db.stage = .transactions ∨ db.stage = .started) ∧
    ∃ d, result = .ok d ∧ db' = { d with stage := db.stage }

/-- The moves of savings in `process_transit_to_cyberway` are left out. -/
def Step (db : SavingsDatabase) : SavingsEvent → SavingsDatabase → Prop
  | .transferToSavings o, db' => db.Operates db' (db.transferToSavings o)
  | .transferFromSavings o, db' => db.Operates db' (db.transferFromSavings o)
  | .cancelTransferFromSavings o, db' => db.Operates db' (db.cancelTransferFromSavings o)
  | .startBlock timestamp, db' =>
    (db.headBlockTime < timestamp ∧ timestamp < 2 ^ 32) ∧
      db.Stages db' .transactions .started (.ok (db.startBlock timestamp))
  | .clearNull, db' => db.Stages db' .started .nullCleared db.clearNullSavings
  | .processSbdDebtConversions removed, db' =>
    db.Stages db' .nullCleared .converted (db.processSbdDebtConversions removed)
  | .processSavingsWithdraws, db' => db.Stages db' .converted .withdrawn db.processSavingsWithdraws
  | .processGbgPayments, db' => db.Stages db' .withdrawn .transactions db.processGbgPayments
  | .other, db' => db.OtherChange db'

end SavingsDatabase

def savingsSystem : TransitionSystem SavingsDatabase SavingsEvent where
  initial db := db.Voted ∧ db.savingsWithdraws = .empty ∧ db.nextWithdrawId = 0 ∧
    db.stage = .transactions ∧
    ∀ a ∈ db.accounts.rows, a = { name := a.name, vestingShares := a.vestingShares }
  step := SavingsDatabase.Step

end Golos
