import Mathlib.Data.List.Sort
import Golos.Ledger.Basic
import Golos.Lib.Transition
import Golos.Protocol.ChainProperties

/-!
This module contains escrows: the operations on them, their expiry, and what the forced conversion
of GBG does to them.
-/

namespace Golos

open Checked

def steemitSbdDebtConvertInterval : Nat := 60 * 60 / 3 * 24

def steemitSbdDebtConvertThreshold : Nat := 20 * 100

structure EscrowTransferOperation where
  fromAccount : AccountName
  toAccount : AccountName
  agent : AccountName
  escrowId : Nat
  sbdAmount : Asset
  steemAmount : Asset
  fee : Asset
  ratificationDeadline : Nat
  escrowExpiration : Nat

structure EscrowApproveOperation where
  fromAccount : AccountName
  toAccount : AccountName
  agent : AccountName
  who : AccountName
  escrowId : Nat
  approve : Bool

structure EscrowDisputeOperation where
  fromAccount : AccountName
  toAccount : AccountName
  agent : AccountName
  who : AccountName
  escrowId : Nat

structure EscrowReleaseOperation where
  fromAccount : AccountName
  toAccount : AccountName
  agent : AccountName
  who : AccountName
  receiver : AccountName
  escrowId : Nat
  sbdAmount : Asset
  steemAmount : Asset

section validate

def EscrowTransferOperation.validate (o : EscrowTransferOperation) : Result Unit := do
  validateAccountName o.fromAccount
  validateAccountName o.toAccount
  validateAccountName o.agent
  ensure ((o.fee.symbol = steemSymbol ∨ o.fee.symbol = sbdSymbol) ∧ 0 ≤ o.fee.amount)
    (.invalidValue "fee must be GOLOS or GBG and at least 0")
  checkAssetGe o.sbdAmount "sbd_amount" sbdSymbol "GBG" 0
  checkAssetGe o.steemAmount "steem_amount" steemSymbol "GOLOS" 0
  ensure (0 < o.sbdAmount.amount ∨ 0 < o.steemAmount.amount)
    (.logicException "escrow must release a non-zero amount")
  ensure (o.fromAccount ≠ o.agent ∧ o.toAccount ≠ o.agent)
    (.invalidValue "agent must be a third party")
  ensure (o.ratificationDeadline < o.escrowExpiration)
    (.logicException "ratification deadline must be before escrow expiration")

def EscrowApproveOperation.validate (o : EscrowApproveOperation) : Result Unit := do
  validateAccountName o.fromAccount
  validateAccountName o.toAccount
  validateAccountName o.agent
  validateAccountName o.who
  ensure (o.who = o.toAccount ∨ o.who = o.agent)
    (.invalidValue "to or agent must approve escrow")

def EscrowDisputeOperation.validate (o : EscrowDisputeOperation) : Result Unit := do
  validateAccountName o.fromAccount
  validateAccountName o.toAccount
  validateAccountName o.agent
  validateAccountName o.who
  ensure (o.who = o.fromAccount ∨ o.who = o.toAccount) (.invalidValue "who must be from or to")

def EscrowReleaseOperation.validate (o : EscrowReleaseOperation) : Result Unit := do
  validateAccountName o.fromAccount
  validateAccountName o.toAccount
  validateAccountName o.agent
  validateAccountName o.who
  validateAccountName o.receiver
  ensure (o.who = o.fromAccount ∨ o.who = o.toAccount ∨ o.who = o.agent)
    (.invalidValue "who must be from or to or agent")
  ensure (o.receiver = o.fromAccount ∨ o.receiver = o.toAccount)
    (.invalidValue "receiver must be from or to")
  checkAssetGe o.sbdAmount "sbd_amount" sbdSymbol "GBG" 0
  checkAssetGe o.steemAmount "steem_amount" steemSymbol "GOLOS" 0
  ensure (0 < o.sbdAmount.amount ∨ 0 < o.steemAmount.amount)
    (.logicException "escrow must release a non-zero amount")

end validate

structure EscrowObject where
  id : Nat
  escrowId : Nat
  fromAccount : AccountName
  toAccount : AccountName
  agent : AccountName
  ratificationDeadline : Nat
  escrowExpiration : Nat
  sbdBalance : Asset
  steemBalance : Asset
  pendingFee : Asset
  toApproved : Bool := false
  agentApproved : Bool := false
  disputed : Bool := false
  deriving DecidableEq

def EscrowObject.isApproved (e : EscrowObject) : Bool :=
  e.toApproved && e.agentApproved

abbrev EscrowObject.byFromId (e : EscrowObject) : AccountName × Nat :=
  (e.fromAccount, e.escrowId)

/-- The marks that `escrow_approve_evaluator` makes for the one who approves. -/
def EscrowApproveOperation.mark (o : EscrowApproveOperation) (e : EscrowObject) : EscrowObject :=
  { e with
    toApproved := e.toApproved || o.who = o.toAccount
    agentApproved := e.agentApproved || o.who = o.agent }

/-- What happens to the money of an escrow. -/
inductive MovementKind where
  | deposit
  | release (who receiver : AccountName) (sbd steem : Asset)
  | refund
  | fee
  /-- GBG of the balance becomes GOLOS of the balance. -/
  | conversion (rate : Price) (sbd steem : Asset)
  /-- GBG of the fee becomes GOLOS of the agent. -/
  | feeConversion (rate : Price) (sbd steem : Asset)
  deriving DecidableEq

/-- The record of a movement: when it happens, and the escrow as it is then. -/
structure Movement where
  escrow : EscrowObject
  time : Nat
  kind : MovementKind
  deriving DecidableEq

/-- The part of `database` that escrows need. The last field only records what happens. -/
structure EscrowDatabase where
  ledger : Ledger := {}
  escrows : Table EscrowObject.byFromId := .empty
  nextEscrowId : Nat := 0
  headBlockNum : Nat := 0
  headBlockTime : Nat := 0
  lastHardfork : Nat := 0
  sbdDebtConvertRate : Nat := 100
  sbdDebtPercent : Nat := 0
  movements : List Movement := []

namespace EscrowDatabase

variable (db : EscrowDatabase)

def getEscrow (name : AccountName) (escrowId : Nat) : Result EscrowObject :=
  get (db.escrows.find? (name, escrowId)) (.missingObject "escrow")

/-- `adjust_balance` for one amount after the other. -/
def adjustBalances (name : AccountName) (amounts : List Asset) : Result EscrowDatabase := do
  let ledger ← amounts.foldlM (fun ledger a => ledger.adjustBalance name a) db.ledger
  pure { db with ledger := ledger }

def record (escrow : EscrowObject) (kind : MovementKind) : EscrowDatabase :=
  { db with movements := db.movements ++ [⟨escrow, db.headBlockTime, kind⟩] }

def modifyEscrow (escrow : EscrowObject) (f : EscrowObject → EscrowObject)
    (hf : autoParam (∀ e, (f e).byFromId = e.byFromId) Monoid.npow_zero._autoParam) :
    EscrowDatabase :=
  { db with escrows := db.escrows.modify escrow.byFromId f hf }

def removeEscrow (escrow : EscrowObject) : EscrowDatabase :=
  { db with escrows := db.escrows.erase escrow.byFromId }

section evaluators

def escrowTransfer (o : EscrowTransferOperation) : Result EscrowDatabase := do
  o.validate
  let fromAccount ← db.ledger.getAccount o.fromAccount
  let _ ← db.ledger.getAccount o.toAccount
  let _ ← db.ledger.getAccount o.agent
  ensure (db.headBlockTime < o.ratificationDeadline)
    (.logicException "The escrow ratification deadline must be after head block time.")
  ensure (db.headBlockTime < o.escrowExpiration)
    (.logicException "The escrow expiration must be after head block time.")
  let steemSpent ← if o.fee.symbol = steemSymbol then o.steemAmount.add o.fee else pure o.steemAmount
  let sbdSpent ← if o.fee.symbol = steemSymbol then pure o.sbdAmount else o.sbdAmount.add o.fee
  db.ledger.checkBalance fromAccount steemSpent
  db.ledger.checkBalance fromAccount sbdSpent
  let steemDebit ← steemSpent.neg
  let sbdDebit ← sbdSpent.neg
  let db ← db.adjustBalances o.fromAccount [steemDebit, sbdDebit]
  let escrow : EscrowObject :=
    { id := db.nextEscrowId
      escrowId := o.escrowId
      fromAccount := o.fromAccount
      toAccount := o.toAccount
      agent := o.agent
      ratificationDeadline := o.ratificationDeadline
      escrowExpiration := o.escrowExpiration
      sbdBalance := o.sbdAmount
      steemBalance := o.steemAmount
      pendingFee := o.fee }
  let escrows ← get (db.escrows.emplace escrow) .uniquenessViolated
  pure (record { db with escrows := escrows, nextEscrowId := db.nextEscrowId + 1 } escrow .deposit)

/-- An escrow goes back to where it came from. -/
def refundEscrow (escrow : EscrowObject) : Result EscrowDatabase := do
  let db ← db.adjustBalances escrow.fromAccount
    [escrow.steemBalance, escrow.sbdBalance, escrow.pendingFee]
  pure ((db.removeEscrow escrow).record escrow .refund)

def escrowApprove (o : EscrowApproveOperation) : Result EscrowDatabase := do
  o.validate
  let escrow ← db.getEscrow o.fromAccount o.escrowId
  ensure (escrow.toAccount = o.toAccount)
    (.logicException "Operation 'to' does not match escrow 'to'.")
  ensure (escrow.agent = o.agent)
    (.logicException "Operation 'agent' does not match escrow 'agent'.")
  ensure (db.headBlockTime ≤ escrow.ratificationDeadline)
    (.logicException
      "The escrow ratification deadline has passed. Escrow can no longer be ratified.")
  ensure (o.who = o.toAccount → ¬escrow.toApproved)
    (.logicException "Account 'to' has already approved the escrow.")
  ensure (o.who = o.agent → ¬escrow.agentApproved)
    (.logicException "Account 'agent' has already approved the escrow.")
  let marked := o.mark escrow
  if o.approve then
    if marked.isApproved then do
      -- the marks are written together with the fee that they bring about
      let db ← db.adjustBalances o.agent [marked.pendingFee]
      pure ((db.modifyEscrow escrow fun e =>
        { o.mark e with pendingFee := { e.pendingFee with amount := 0 } }).record marked .fee)
    else
      pure (db.modifyEscrow escrow o.mark)
  else
    db.refundEscrow escrow

def escrowDispute (o : EscrowDisputeOperation) : Result EscrowDatabase := do
  o.validate
  let _ ← db.ledger.getAccount o.fromAccount
  let e ← db.getEscrow o.fromAccount o.escrowId
  ensure (db.headBlockTime < e.escrowExpiration)
    (.logicException "Disputing the escrow must happen before expiration.")
  ensure (e.isApproved)
    (.logicException
      "The escrow must be approved by all parties before a dispute can be raised.")
  ensure (¬e.disputed) (.logicException "The escrow is already under dispute.")
  ensure (e.toAccount = o.toAccount)
    (.logicException "Operation 'to' does not match escrow 'to'.")
  ensure (e.agent = o.agent)
    (.logicException "Operation 'agent' does not match escrow 'agent'.")
  pure (db.modifyEscrow e fun e => { e with disputed := true })

/-- Who can release to whom. -/
def checkRelease (e : EscrowObject) (o : EscrowReleaseOperation) : Result Unit :=
  if e.disputed then
    ensure (o.who = e.agent)
      (.logicException "Only 'agent' can release funds in a disputed escrow.")
  else do
    ensure (o.who = e.fromAccount ∨ o.who = e.toAccount)
      (.logicException "Only 'from' and 'to' can release funds from a non-disputed escrow")
    if db.headBlockTime < e.escrowExpiration then
      if o.who = e.fromAccount then
        ensure (o.receiver = e.toAccount)
          (.logicException "Only 'from' can release funds to 'to'.")
      else if o.who = e.toAccount then
        ensure (o.receiver = e.fromAccount)
          (.logicException "Only 'to' can release funds to 'from'.")
      else
        pure ()
    else
      pure ()

def escrowRelease (o : EscrowReleaseOperation) : Result EscrowDatabase := do
  o.validate
  let _ ← db.ledger.getAccount o.fromAccount
  let _ ← db.ledger.getAccount o.receiver
  let e ← db.getEscrow o.fromAccount o.escrowId
  let enough ← o.steemAmount.le e.steemBalance
  ensure enough (.logicException "Release amount exceeds escrow balance.")
  let enough ← o.sbdAmount.le e.sbdBalance
  ensure enough (.logicException "Release amount exceeds escrow balance.")
  ensure (e.toAccount = o.toAccount)
    (.logicException "Operation 'to' does not match escrow 'to'.")
  ensure (e.agent = o.agent)
    (.logicException "Operation 'agent' does not match escrow 'agent'.")
  ensure (o.receiver = e.fromAccount ∨ o.receiver = e.toAccount)
    (.logicException "Funds must be released to 'from' or 'to'")
  ensure (e.isApproved) (.logicException "Funds cannot be released prior to escrow approval.")
  db.checkRelease e o
  let db ← db.adjustBalances o.receiver [o.steemAmount, o.sbdAmount]
  let steemBalance ← e.steemBalance.sub o.steemAmount
  let sbdBalance ← e.sbdBalance.sub o.sbdAmount
  let db := db.record e (.release o.who o.receiver o.sbdAmount o.steemAmount)
  if steemBalance.amount = 0 ∧ sbdBalance.amount = 0 then
    pure (db.removeEscrow e)
  else
    pure (db.modifyEscrow e fun e =>
      { e with steemBalance := steemBalance, sbdBalance := sbdBalance })

end evaluators

section blocks

/-- The index `by_ratification_deadline` from `lower_bound(false)` on. -/
def byRatificationDeadline : List EscrowObject :=
  db.escrows.rows.insertionSort fun e e' =>
    e.isApproved < e'.isApproved ∨ (e.isApproved = e'.isApproved ∧
      (e.ratificationDeadline < e'.ratificationDeadline ∨
        (e.ratificationDeadline = e'.ratificationDeadline ∧ e.id ≤ e'.id)))

def expireEscrowRatification : Result EscrowDatabase :=
  (db.byRatificationDeadline.takeWhile fun e =>
    !e.isApproved && e.ratificationDeadline ≤ db.headBlockTime).foldlM refundEscrow db

/-- The part of an amount that is converted. -/
def convertedPart (a : Asset) : Result Asset := do
  let amount ← ofUint128 (toUint128 a.amount * db.sbdDebtConvertRate % 2 ^ 128 / 10000)
  pure ⟨amount, sbdSymbol⟩

/-- The conversion of the balance of an escrow. -/
def convertBalance (e : EscrowObject) : Result EscrowDatabase :=
  if e.sbdBalance.amount ≠ 0 then do
    let sbd ← db.convertedPart e.sbdBalance
    let steem ← sbd.mulPrice db.ledger.currentMedianHistory
    let sbdBalance ← e.sbdBalance.sub sbd
    let steemBalance ← e.steemBalance.add steem
    pure ((db.modifyEscrow e fun e =>
      { e with sbdBalance := sbdBalance, steemBalance := steemBalance }).record e
        (.conversion db.ledger.currentMedianHistory sbd steem))
  else
    pure db

/-- The conversion of the fee of an escrow. -/
def convertFee (e : EscrowObject) : Result EscrowDatabase :=
  if e.pendingFee.symbol = sbdSymbol ∧ e.pendingFee.amount ≠ 0 then do
    let feeSbd ← db.convertedPart e.pendingFee
    let feeSteem ← feeSbd.mulPrice db.ledger.currentMedianHistory
    let pendingFee ← e.pendingFee.sub feeSbd
    let db := db.modifyEscrow e fun e => { e with pendingFee := pendingFee }
    let db ← db.adjustBalances e.agent [feeSteem]
    pure (db.record e (.feeConversion db.ledger.currentMedianHistory feeSbd feeSteem))
  else
    pure db

/-- One turn of the loop over the escrows. -/
def convertEscrow (e : EscrowObject) : Result EscrowDatabase := do
  let db ← db.convertBalance e
  let e ← db.getEscrow e.fromAccount e.escrowId
  db.convertFee e

/-- The conditions of `process_sbd_debt_conversions`. -/
def convertsSbdDebt : Prop :=
  22 ≤ db.lastHardfork ∧ db.headBlockNum % steemitSbdDebtConvertInterval = 0 ∧
    db.sbdDebtConvertRate ≠ 0 ∧
    db.ledger.currentMedianHistory ≠ ⟨⟨0, steemSymbol⟩, ⟨0, steemSymbol⟩⟩ ∧
    steemitSbdDebtConvertThreshold ≤ db.sbdDebtPercent

instance : Decidable db.convertsSbdDebt :=
  inferInstanceAs (Decidable (_ ∧ _))

/-- The part of `process_sbd_debt_conversions` for escrows, which are in the order of their ids. -/
def processSbdDebtConversions : Result EscrowDatabase :=
  if db.convertsSbdDebt then
    db.escrows.rows.foldlM convertEscrow db
  else
    pure db

end blocks

end EscrowDatabase

inductive EscrowEvent where
  | escrowTransfer (o : EscrowTransferOperation)
  | escrowApprove (o : EscrowApproveOperation)
  | escrowDispute (o : EscrowDisputeOperation)
  | escrowRelease (o : EscrowReleaseOperation)
  | processSbdDebtConversions
  | expireEscrowRatification
  /-- Everything else: other operations, passing blocks, feeds, chain properties. -/
  | other

namespace EscrowDatabase

/-- Nothing about the escrows is different. -/
structure OtherChange (db db' : EscrowDatabase) : Prop where
  escrows : db'.escrows = db.escrows
  nextEscrowId : db'.nextEscrowId = db.nextEscrowId
  movements : db'.movements = db.movements

def Step (db : EscrowDatabase) : EscrowEvent → EscrowDatabase → Prop
  | .escrowTransfer o, db' => db.escrowTransfer o = .ok db'
  | .escrowApprove o, db' => db.escrowApprove o = .ok db'
  | .escrowDispute o, db' => db.escrowDispute o = .ok db'
  | .escrowRelease o, db' => db.escrowRelease o = .ok db'
  | .processSbdDebtConversions, db' => db.processSbdDebtConversions = .ok db'
  | .expireEscrowRatification, db' => db.expireEscrowRatification = .ok db'
  | .other, db' => db.OtherChange db'

end EscrowDatabase

def escrowSystem : TransitionSystem EscrowDatabase EscrowEvent where
  initial db := db.escrows = .empty ∧ db.nextEscrowId = 0 ∧ db.movements = []
  step := EscrowDatabase.Step

end Golos
