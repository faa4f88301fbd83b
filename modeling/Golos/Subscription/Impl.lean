import Golos.Ledger.Basic

/-!
This module contains paid subscriptions: the operations of authors and subscribers, and the payments
that a block collects, under the rules of hardfork 30. Times and counters of type `uint32_t` are
numbers below `2 ^ 32`.
-/

namespace Golos.Subscription

open Checked

def steemitMaxMemoSize : Nat := 2048

/-- `++counter` and `counter -= k` on a `uint32_t`. -/
def increase (n : Nat) : Nat :=
  (n + 1) % 2 ^ 32

def decrease (n k : Nat) : Nat :=
  if k % 2 ^ 32 ≤ n then n - k % 2 ^ 32 else n + 2 ^ 32 - k % 2 ^ 32

/-- `time + fc::seconds(interval)`, as a `time_point_sec` holds it. -/
def addSeconds (time interval : Nat) : Nat :=
  (time + interval) % 2 ^ 32

structure PaidSubscriptionId where
  app : AccountName
  name : AccountName
  version : Nat := 1
  deriving DecidableEq

def PaidSubscriptionId.validate (oid : PaidSubscriptionId) : Result Unit := do
  validateAccountName oid.app
  validateAccountName oid.name
  ensure (1 ≤ oid.version) (.invalidValue "Version should be at least 1")

inductive PsroInactiveReason where
  | none
  | subscriptionUpdate
  | insufficientFunds
  | executionsEnd
  deriving DecidableEq

structure PaidSubscriptionObject where
  author : AccountName
  oid : PaidSubscriptionId
  cost : Asset
  tipCost : Bool := false
  allowPrepaid : Bool := true
  interval : Nat := 0
  executions : Nat := 0
  subscribers : Nat := 0
  activeSubscribers : Nat := 0
  deriving DecidableEq

abbrev PaidSubscriptionObject.byAuthorOid (o : PaidSubscriptionObject) :
    AccountName × PaidSubscriptionId :=
  (o.author, o.oid)

/-- The last field only records what happens: the kinds of balance and the symbols that the money in
`prepaid` was taken from. -/
structure PaidSubscriberObject where
  subscriber : AccountName
  author : AccountName
  oid : PaidSubscriptionId
  cost : Asset
  tipCost : Bool := false
  interval : Nat := 0
  executions : Nat := 0
  executionsLeft : Nat := 0
  prepaid : Asset
  nextPayment : Nat := 0
  active : Bool := true
  inactiveReason : PsroInactiveReason := .none
  prepaidSources : List (Bool × AssetSymbolType) := []
  deriving DecidableEq

abbrev SubscriberKey := AccountName × PaidSubscriptionId × AccountName

abbrev PaidSubscriberObject.byAuthorOidSubscriber (o : PaidSubscriberObject) : SubscriberKey :=
  (o.author, o.oid, o.subscriber)

/-- The part of `account_object` besides what the ledger has of it. -/
structure SponsorAccountObject where
  name : AccountName
  tipBalance : ℤ := 0
  sponsorCount : Nat := 0
  deriving DecidableEq

inductive SponsorPayment where
  | first
  | prolong
  | increasePrepaid
  | regular
  deriving DecidableEq

inductive SubscriptionEvent where
  | payment (key : SubscriberKey) (paymentType : SponsorPayment)
      (amountPrepaid amount rest toPrepaid : Asset) (fromTip : Bool)
  | inactive (key : SubscriberKey) (reason : PsroInactiveReason)
  | prepaidReturn (key : SubscriberKey) (amount : Asset) (toTip : Bool)
  deriving DecidableEq

/-- The part of `database` that paid subscriptions read and write. The last field only records what
happens: the subscribers whose prepaid money was returned, as they were then. -/
structure SubscriptionDatabase where
  ledger : Ledger := {}
  accounts : Table SponsorAccountObject.name := .empty
  /-- `allow_override_transfer` of an asset. -/
  allowOverrideTransfer : AssetSymbolType → Bool := fun _ => false
  subscriptions : Table PaidSubscriptionObject.byAuthorOid := .empty
  subscribers : Table PaidSubscriberObject.byAuthorOidSubscriber := .empty
  headBlockTime : Nat := 0
  events : List SubscriptionEvent := []
  returned : List PaidSubscriberObject := []

structure PaidSubscriptionCreateOperation where
  author : AccountName
  oid : PaidSubscriptionId
  cost : Asset
  tipCost : Bool := false
  allowPrepaid : Bool := true
  interval : Nat := 0
  executions : Nat := 0

/-- The checks that creation and update share. -/
def validateTerms (cost : Asset) (tipCost : Bool) (interval executions : Nat) : Result Unit := do
  ensure (0 < cost.amount) (.invalidValue "Cost should not be zero")
  ensure (cost.symbol ≠ vestsSymbol) (.invalidValue "Cost cannot be GESTS")
  ensure (tipCost = true → cost.symbol ≠ sbdSymbol)
    (.invalidValue "Cost cannot be GBG, if tip_cost is true")
  ensure (0 < executions → 0 < interval)
    (.invalidValue "interval cannot be 0 if executions is not 0")

def PaidSubscriptionCreateOperation.validate (op : PaidSubscriptionCreateOperation) :
    Result Unit := do
  validateAccountName op.author
  op.oid.validate
  validateTerms op.cost op.tipCost op.interval op.executions
  ensure (op.allowPrepaid = true → op.executions ≠ 0)
    (.invalidValue "Single-executed subscriptions cannot be prepaid")

structure PaidSubscriptionUpdateOperation where
  author : AccountName
  oid : PaidSubscriptionId
  cost : Asset
  tipCost : Bool := false
  interval : Nat := 0
  executions : Nat := 0

def PaidSubscriptionUpdateOperation.validate (op : PaidSubscriptionUpdateOperation) :
    Result Unit := do
  validateAccountName op.author
  op.oid.validate
  validateTerms op.cost op.tipCost op.interval op.executions

structure PaidSubscriptionDeleteOperation where
  author : AccountName
  oid : PaidSubscriptionId

def PaidSubscriptionDeleteOperation.validate (op : PaidSubscriptionDeleteOperation) :
    Result Unit := do
  validateAccountName op.author
  op.oid.validate

structure PaidSubscriptionTransferOperation where
  fromAccount : AccountName
  toAccount : AccountName
  oid : PaidSubscriptionId
  amount : Asset
  memo : String := ""
  fromTip : Bool := false

def PaidSubscriptionTransferOperation.validate (op : PaidSubscriptionTransferOperation) :
    Result Unit := do
  validateAccountName op.fromAccount
  validateAccountName op.toAccount
  op.oid.validate
  ensure (0 < op.amount.amount)
    (.invalidValue "Cannot transfer a negative amount (aka: stealing)")
  ensure (op.amount.symbol ≠ vestsSymbol) (.invalidValue "Amount cannot be GESTS")
  ensure (op.fromTip = true → op.amount.symbol ≠ sbdSymbol)
    (.invalidValue "Amount cannot be GBG, if from_tip is true")
  ensure (op.memo.utf8ByteSize < steemitMaxMemoSize) (.invalidValue "Memo is too large")

def PaidSubscriptionTransferOperation.key (op : PaidSubscriptionTransferOperation) :
    SubscriberKey :=
  (op.toAccount, op.oid, op.fromAccount)

structure PaidSubscriptionCancelOperation where
  subscriber : AccountName
  author : AccountName
  oid : PaidSubscriptionId

def PaidSubscriptionCancelOperation.validate (op : PaidSubscriptionCancelOperation) :
    Result Unit := do
  validateAccountName op.subscriber
  validateAccountName op.author
  op.oid.validate

namespace SubscriptionDatabase

variable (db : SubscriptionDatabase)

def getSponsor (name : AccountName) : Result SponsorAccountObject :=
  get (db.accounts.find? name) (.missingObject "account")

def getPaidSubscription (author : AccountName) (oid : PaidSubscriptionId) :
    Result PaidSubscriptionObject :=
  get (db.subscriptions.find? (author, oid)) (.missingObject "paid_subscription")

def getPaidSubscriber (key : SubscriberKey) : Result PaidSubscriberObject :=
  get (db.subscribers.find? key) (.missingObject "paid_subscriber")

def modifySponsor (name : AccountName) (f : SponsorAccountObject → SponsorAccountObject)
    (hf : autoParam (∀ a, (f a).name = a.name) Monoid.npow_zero._autoParam) :
    SubscriptionDatabase :=
  { db with accounts := db.accounts.modify name f hf }

def modifySubscription (author : AccountName) (oid : PaidSubscriptionId)
    (f : PaidSubscriptionObject → PaidSubscriptionObject)
    (hf : autoParam (∀ o, (f o).byAuthorOid = o.byAuthorOid) Monoid.npow_zero._autoParam) :
    SubscriptionDatabase :=
  { db with subscriptions := db.subscriptions.modify (author, oid) f hf }

def modifySubscriber (key : SubscriberKey) (f : PaidSubscriberObject → PaidSubscriberObject)
    (hf : autoParam (∀ o, (f o).byAuthorOidSubscriber = o.byAuthorOidSubscriber)
      Monoid.npow_zero._autoParam) :
    SubscriptionDatabase :=
  { db with subscribers := db.subscribers.modify key f hf }

def pushEvent (e : SubscriptionEvent) : SubscriptionDatabase :=
  { db with events := db.events ++ [e] }

/-- `get_balance(db, account, from_tip ? TIP_BALANCE : MAIN_BALANCE, symbol)` -/
def getBalance (name : AccountName) (symbol : AssetSymbolType) (fromTip : Bool) : Result ℤ := do
  if fromTip = true then
    if symbol = steemSymbol then
      let account ← db.getSponsor name
      pure account.tipBalance
    else
      let o ← db.ledger.getOrDefaultAccountBalance name symbol
      pure o.tipBalance
  else
    let account ← db.ledger.getAccount name
    let balance ← db.ledger.getBalance account symbol
    pure balance.amount

/-- What `claim_for_subscription` and `pay_for_subscription` do to a balance. -/
def adjustFund (name : AccountName) (amount : ℤ) (symbol : AssetSymbolType) (tip : Bool) :
    Result SubscriptionDatabase := do
  if tip = true then
    if symbol = steemSymbol then
      let account ← db.getSponsor name
      let tipBalance ← add64 account.tipBalance amount .overflowException
      pure (db.modifySponsor name fun a => { a with tipBalance := tipBalance })
    else
      let ledger ← db.ledger.adjustAccountBalance name symbol 0 amount 0
      pure { db with ledger := ledger }
  else
    let ledger ← db.ledger.adjustBalance name ⟨amount, symbol⟩
    pure { db with ledger := ledger }

/-- Nothing where the balance is too low. -/
def claimForSubscription (subscriber : AccountName) (amount : Asset) (fromTip : Bool) :
    Result (Option SubscriptionDatabase) := do
  let _ ← db.getSponsor subscriber
  let balance ← db.getBalance subscriber amount.symbol fromTip
  if balance < amount.amount then
    pure none
  else
    let charge ← amount.neg
    let db ← db.adjustFund subscriber charge.amount charge.symbol fromTip
    pure (some db)

def payForSubscription (author : AccountName) (amount : Asset) (toTip : Bool) :
    Result SubscriptionDatabase := do
  let _ ← db.getSponsor author
  db.adjustFund author amount.amount amount.symbol toTip

/-- The asset of the cost has TIP balances, if it needs them. -/
def checkCost (cost : Asset) (tipCost : Bool) : Result Unit := do
  if cost.symbol ≠ steemSymbol ∧ cost.symbol ≠ sbdSymbol then
    let _ ← db.ledger.getAsset cost.symbol
    ensure (tipCost = true → db.allowOverrideTransfer cost.symbol = false)
      (.invalidValue "This asset do not supports TIP balances")

def paidSubscriptionCreate (op : PaidSubscriptionCreateOperation) :
    Result SubscriptionDatabase := do
  op.validate
  let _ ← db.getSponsor op.author
  db.checkCost op.cost op.tipCost
  let subscriptions ← get (db.subscriptions.emplace
    { author := op.author
      oid := op.oid
      cost := op.cost
      tipCost := op.tipCost
      allowPrepaid := op.allowPrepaid
      interval := op.interval
      executions := op.executions }) (.objectAlreadyExist "paid_subscription")
  pure { db with subscriptions := subscriptions }

/-- The subscribers of one subscription. -/
def subscribersOf (author : AccountName) (oid : PaidSubscriptionId) : List PaidSubscriberObject :=
  db.subscribers.rows.filter fun r => r.author = author ∧ r.oid = oid

/-- What an update does to a subscriber where there is no prepayment. -/
def updateSubscriber (cost : Asset) (r : PaidSubscriberObject) : PaidSubscriberObject :=
  { r with
    prepaid := if cost.symbol ≠ r.cost.symbol then ⟨0, cost.symbol⟩ else r.prepaid
    prepaidSources := if cost.symbol ≠ r.cost.symbol then [] else r.prepaidSources
    cost := cost
    active := false
    inactiveReason := if r.active = true then .subscriptionUpdate else r.inactiveReason
    nextPayment := if r.active = true then 0 else r.nextPayment }

theorem key_updateSubscriber (cost : Asset) (r : PaidSubscriberObject) :
    (updateSubscriber cost r).byAuthorOidSubscriber = r.byAuthorOidSubscriber := rfl

/-- The subscribers of a subscription without prepayment, after an update of it. -/
def updateSubscribers (op : PaidSubscriptionUpdateOperation) : SubscriptionDatabase :=
  let active := (db.subscribersOf op.author op.oid).filter fun r => r.active
  { db with
    events := db.events ++ active.map fun r =>
      .inactive r.byAuthorOidSubscriber .subscriptionUpdate
    subscribers := db.subscribers.modifyWhere (fun r => r.author = op.author ∧ r.oid = op.oid)
      (updateSubscriber op.cost) (key_updateSubscriber op.cost) }

/-- What an update may change. -/
def checkChanges (pso : PaidSubscriptionObject) (op : PaidSubscriptionUpdateOperation) :
    Result Unit := do
  if pso.executions = 0 then
    ensure (op.executions = 0) (.invalidValue
      "You cannot set executions if subscription is created as single-executed (0 executions)")
  else
    ensure (0 < op.executions) (.invalidValue "You cannot make subscription single-executed")

/-- What it may change where there is no prepayment. -/
def checkUnprepaid (pso : PaidSubscriptionObject) (op : PaidSubscriptionUpdateOperation) :
    Result Unit := do
  if pso.allowPrepaid = false then
    ensure (op.tipCost = pso.tipCost)
      (.invalidValue "Subscription not supports prepaid, so you cannot change tip_cost")
    ensure (op.interval = pso.interval)
      (.invalidValue "Subscription not supports prepaid, so you cannot change interval")
    ensure (op.executions = pso.executions)
      (.invalidValue "Subscription not supports prepaid, so you cannot change executions")

def paidSubscriptionUpdate (op : PaidSubscriptionUpdateOperation) :
    Result SubscriptionDatabase := do
  op.validate
  let pso ← db.getPaidSubscription op.author op.oid
  db.checkCost op.cost op.tipCost
  checkChanges pso op
  let inactivatedSubscribers :=
    if pso.allowPrepaid = true then
      0
    else
      (db.subscribersOf op.author op.oid).countP fun r => r.active
  checkUnprepaid pso op
  let db := if pso.allowPrepaid = true then db else db.updateSubscribers op
  pure (db.modifySubscription op.author op.oid fun o =>
    { o with
      cost := op.cost
      tipCost := op.tipCost
      interval := op.interval
      executions := op.executions
      activeSubscribers := decrease o.activeSubscribers inactivatedSubscribers })

/-- Prepaid money goes back to the subscriber. -/
def returnPrepaid (r : PaidSubscriberObject) : Result SubscriptionDatabase := do
  let db ← db.payForSubscription r.subscriber r.prepaid r.tipCost
  pure { db with returned := db.returned ++ [r] }

/-- The same, if there is any. -/
def returnRemaining (r : PaidSubscriberObject) : Result SubscriptionDatabase :=
  if r.prepaid.amount ≠ 0 then db.returnPrepaid r else pure db

/-- One turn of the loop of `paid_subscription_delete_evaluator::do_apply`. -/
def removeSubscriber (r : PaidSubscriberObject) : Result SubscriptionDatabase := do
  let db ← db.returnRemaining r
  pure { db with subscribers := db.subscribers.erase r.byAuthorOidSubscriber }

def paidSubscriptionDelete (op : PaidSubscriptionDeleteOperation) :
    Result SubscriptionDatabase := do
  op.validate
  let pso ← db.getPaidSubscription op.author op.oid
  let removed := db.subscribersOf op.author op.oid
  let db ← removed.foldlM removeSubscriber db
  let _ ← db.getSponsor op.author
  let db := { db with subscriptions := db.subscriptions.erase pso.byAuthorOid }
  pure (db.modifySponsor op.author fun a =>
    { a with sponsorCount := decrease a.sponsorCount removed.length })

/-- What a single payment has above the cost. -/
def restAbove (pso : PaidSubscriptionObject) (op : PaidSubscriptionTransferOperation) :
    Result Asset :=
  if pso.executions = 0 then op.amount.sub pso.cost else pure ⟨0, op.amount.symbol⟩

/-- `paid_subscription_transfer_evaluator::do_apply` for a new subscriber. -/
def addSubscriber (pso : PaidSubscriptionObject) (op : PaidSubscriptionTransferOperation) :
    Result SubscriptionDatabase := do
  let payNow := if pso.executions = 0 then op.amount else pso.cost
  let db ← db.payForSubscription op.toAccount payNow op.fromTip
  let toPrepaid ← op.amount.sub payNow
  let subscribers ← get (db.subscribers.emplace
    { subscriber := op.fromAccount
      author := op.toAccount
      oid := op.oid
      cost := pso.cost
      tipCost := pso.tipCost
      interval := pso.interval
      executions := pso.executions
      executionsLeft := pso.executions
      prepaid := toPrepaid
      nextPayment :=
        if 0 < pso.executions then addSeconds db.headBlockTime pso.interval else 0
      prepaidSources := if toPrepaid.amount = 0 then [] else [(op.fromTip, op.amount.symbol)] })
    .uniquenessViolated
  let rest ← restAbove pso op
  let db := { db with subscribers := subscribers }
  let db := db.pushEvent (.payment op.key .first ⟨0, op.amount.symbol⟩ pso.cost rest toPrepaid
    pso.tipCost)
  let db := db.modifySubscription op.toAccount op.oid fun o =>
    { o with
      subscribers := increase o.subscribers
      activeSubscribers := increase o.activeSubscribers }
  pure (db.modifySponsor op.toAccount fun a =>
    { a with sponsorCount := increase a.sponsorCount })

/-- What a transfer of a subscriber writes into a subscription that was not active. -/
def activate (pso : PaidSubscriptionObject) (now : Nat) (r : PaidSubscriberObject) :
    PaidSubscriberObject :=
  if r.active = false then
    { r with
      active := true
      inactiveReason := .none
      interval := pso.interval
      executions := pso.executions
      nextPayment :=
        if 0 < pso.executions then addSeconds now pso.interval else r.nextPayment }
  else
    r

/-- What it adds to the prepaid money. -/
def addPrepaid (pso : PaidSubscriptionObject) (op : PaidSubscriptionTransferOperation)
    (r : PaidSubscriberObject) : Result PaidSubscriberObject := do
  let prepaid := if r.prepaid.symbol ≠ pso.cost.symbol then ⟨0, pso.cost.symbol⟩ else r.prepaid
  let kept := if prepaid.amount = 0 then [] else r.prepaidSources
  let prepaid ← prepaid.add op.amount
  pure
    { r with
      cost := pso.cost
      tipCost := pso.tipCost
      interval := pso.interval
      executions := pso.executions
      prepaid := prepaid
      prepaidSources := kept ++ [(op.fromTip, op.amount.symbol)] }

/-- What it writes in all. -/
def renew (pso : PaidSubscriptionObject) (op : PaidSubscriptionTransferOperation) (now : Nat)
    (r : PaidSubscriberObject) : Result PaidSubscriberObject :=
  let r := activate pso now r
  if pso.allowPrepaid = true then addPrepaid pso op r else pure r

/-- The payment of a subscriber that is there already. -/
def payProlonged (pso : PaidSubscriptionObject) (op : PaidSubscriptionTransferOperation)
    (r : PaidSubscriberObject) : Result SubscriptionDatabase := do
  let zero : Asset := ⟨0, op.amount.symbol⟩
  ensure (r.active = true → pso.executions ≠ 0)
    (.invalidValue "You do not need to prolong single-executed subscription")
  if pso.allowPrepaid = false then
    ensure (r.active = false) (.invalidValue
      "Subscription forbids prepayment, and it is active, so you cannot transfer tokens onto it")
    let db ← db.payForSubscription op.toAccount op.amount op.fromTip
    let rest ← op.amount.sub pso.cost
    pure (db.pushEvent (.payment op.key .prolong zero pso.cost rest zero r.tipCost))
  else
    let paymentType : SponsorPayment := if r.active = true then .increasePrepaid else .prolong
    pure (db.pushEvent (.payment op.key paymentType op.amount zero zero zero r.tipCost))

/-- Prepaid money in another symbol than the cost goes back to the subscriber. -/
def returnOtherSymbol (pso : PaidSubscriptionObject) (r : PaidSubscriberObject) :
    Result SubscriptionDatabase := do
  if 0 < r.prepaid.amount ∧ r.prepaid.symbol ≠ pso.cost.symbol then
    let db ← db.returnPrepaid r
    pure (db.pushEvent (.prepaidReturn r.byAuthorOidSubscriber r.prepaid r.tipCost))
  else
    pure db

/-- `paid_subscription_transfer_evaluator::do_apply` for a subscriber that is there already. -/
def prolongSubscriber (pso : PaidSubscriptionObject) (op : PaidSubscriptionTransferOperation)
    (r : PaidSubscriberObject) : Result SubscriptionDatabase := do
  let db ← db.payProlonged pso op r
  let db := db.modifySubscription op.toAccount op.oid fun o =>
    { o with
      activeSubscribers :=
        if r.active = false then increase o.activeSubscribers else o.activeSubscribers }
  let db ← db.returnOtherSymbol pso r
  let r' ← renew pso op db.headBlockTime r
  pure (db.modifySubscriber op.key fun o =>
    { r' with
      subscriber := o.subscriber
      author := o.author
      oid := o.oid
      executionsLeft := r'.executions })

def paidSubscriptionTransfer (op : PaidSubscriptionTransferOperation) :
    Result SubscriptionDatabase := do
  op.validate
  let _ ← db.getSponsor op.fromAccount
  let pso ← db.getPaidSubscription op.toAccount op.oid
  ensure (op.fromTip = pso.tipCost) (.invalidValue
    (if pso.tipCost = true then
      "It should be TIP token"
    else
      "It should be liquid (not TIP) token"))
  let balance ← db.getBalance op.fromAccount op.amount.symbol op.fromTip
  ensure (op.amount.amount ≤ balance) (.insufficientFunds op.fromAccount
    (if op.fromTip = true then "tip balance" else "fund"))
  ensure (op.amount.symbol = pso.cost.symbol) (.invalidValue "Wrong token used")
  ensure (pso.cost.amount ≤ op.amount.amount) (.invalidValue "Too low amount")
  ensure (pso.executions ≠ 0 ∧ pso.allowPrepaid = false → op.amount.amount = pso.cost.amount)
    (.invalidValue
      ("You cannot pay more than cost, if subscription is not single-executed and forbids " ++
        "prepayment"))
  let claimed ← db.claimForSubscription op.fromAccount op.amount op.fromTip
  let db := claimed.getD db
  match db.subscribers.find? op.key with
  | none => db.addSubscriber pso op
  | some r => db.prolongSubscriber pso op r

def paidSubscriptionCancel (op : PaidSubscriptionCancelOperation) :
    Result SubscriptionDatabase := do
  op.validate
  let r ← db.getPaidSubscriber (op.author, op.oid, op.subscriber)
  let returned ← db.returnRemaining r
  let db :=
    if r.prepaid.amount ≠ 0 then
      returned.pushEvent (.prepaidReturn r.byAuthorOidSubscriber r.prepaid r.tipCost)
    else
      returned
  let _ ← db.getPaidSubscription op.author op.oid
  let _ ← db.getSponsor op.author
  let db := db.modifySubscription op.author op.oid fun o =>
    { o with
      subscribers := decrease o.subscribers 1
      activeSubscribers :=
        if r.active = true then decrease o.activeSubscribers 1 else o.activeSubscribers }
  let db := db.modifySponsor op.author fun a =>
    { a with sponsorCount := decrease a.sponsorCount 1 }
  pure { db with subscribers := db.subscribers.erase r.byAuthorOidSubscriber }

/-- A subscriber is not charged any more. -/
def deactivate (r : PaidSubscriberObject) (reason : PsroInactiveReason) :
    Result SubscriptionDatabase := do
  let db := db.modifySubscriber r.byAuthorOidSubscriber fun o =>
    { o with active := false, nextPayment := 0, inactiveReason := reason }
  let pso ← db.getPaidSubscription r.author r.oid
  pure (db.modifySubscription pso.author pso.oid fun o =>
    { o with activeSubscribers := decrease o.activeSubscribers 1 })

/-- What a payment takes from the prepaid money besides the cost. -/
def restOf (r : PaidSubscriberObject) (prepaid : ℤ) : ℤ :=
  if r.executionsLeft = 1 ∧ prepaid < r.prepaid.amount then r.prepaid.amount - prepaid else 0

/-- A payment of a subscriber whose balance has been charged. -/
def collect (r : PaidSubscriberObject) (prepaid amount : ℤ) : Result SubscriptionDatabase := do
  let rest := restOf r prepaid
  let sum ← int64 (prepaid + amount) .overflowException
  let sum ← int64 (sum + rest) .overflowException
  let db ← db.payForSubscription r.author ⟨sum, r.cost.symbol⟩ r.tipCost
  let symbol := r.cost.symbol
  let db := db.pushEvent (.payment r.byAuthorOidSubscriber .regular ⟨prepaid, symbol⟩
    ⟨amount, symbol⟩ ⟨rest, symbol⟩ ⟨0, symbol⟩ r.tipCost)
  let left := r.prepaid.amount - (prepaid + rest)
  pure (db.modifySubscriber r.byAuthorOidSubscriber fun o =>
    { o with
      prepaid := ⟨left, r.prepaid.symbol⟩
      prepaidSources := if left = 0 then [] else o.prepaidSources
      executionsLeft := r.executionsLeft - 1
      nextPayment := addSeconds r.nextPayment r.interval })

/-- One turn of the loop of `process_paid_subscribers`. -/
def billSubscriber (r : PaidSubscriberObject) : Result SubscriptionDatabase := do
  if r.executionsLeft = 0 then
    db.deactivate r .executionsEnd
  else
    Asset.sameSymbol r.cost r.prepaid
    let prepaid := min r.cost.amount r.prepaid.amount
    let amount ← int64 (r.cost.amount - prepaid) .overflowException
    if prepaid < r.cost.amount then
      match ← db.claimForSubscription r.subscriber ⟨amount, r.cost.symbol⟩ r.tipCost with
      | none => do
        let db ← db.deactivate r .insufficientFunds
        pure (db.pushEvent (.inactive r.byAuthorOidSubscriber .insufficientFunds))
      | some db => db.collect r prepaid amount
    else
      db.collect r prepaid amount

def nextPaymentOf (key : SubscriberKey) : Nat :=
  match db.subscribers.find? key with
  | some r => r.nextPayment
  | none => 0

/-- What is left of `by_next_payment` behind the iterator, once the row before it has been written:
the row comes up again if its key has passed the one of the iterator. -/
def requeue (rest : List SubscriberKey) (key : SubscriberKey) : List SubscriberKey :=
  match rest with
  | [] => []
  | next :: _ =>
    if db.nextPaymentOf next < db.nextPaymentOf key then
      rest.takeWhile (fun k => db.nextPaymentOf k ≤ db.nextPaymentOf key) ++
        key :: rest.dropWhile fun k => db.nextPaymentOf k ≤ db.nextPaymentOf key
    else
      rest

/-- The loop of `process_paid_subscribers` over what is left of the index. -/
def billFrom : Nat → SubscriptionDatabase → List SubscriberKey → Result SubscriptionDatabase
  | 0, db, _ => .ok db
  | _ + 1, db, [] => .ok db
  | fuel + 1, db, key :: rest => do
    let r ← db.getPaidSubscriber key
    if db.headBlockTime < r.nextPayment then
      pure db
    else
      let db ← db.billSubscriber r
      billFrom fuel db (db.requeue rest key)

/-- The turns that the loop can still take. -/
def turnsOf (keys : List SubscriberKey) : Nat :=
  (keys.map fun key =>
    match db.subscribers.find? key with
    | some r => r.executionsLeft + 1
    | none => 1).sum

/-- `index` is what `by_next_payment` has behind `time_point_sec(0)`. -/
def processPaidSubscribers (index : List SubscriberKey) : Result SubscriptionDatabase :=
  billFrom (db.turnsOf index) db index

/-- The order of rows with one and the same `next_payment` depends on when they were written. -/
def IsNextPaymentIndex (index : List SubscriberKey) : Prop :=
  index.Perm ((db.subscribers.rows.filter fun r => r.nextPayment ≠ 0).map
    PaidSubscriberObject.byAuthorOidSubscriber) ∧
  index.Pairwise fun k k' => db.nextPaymentOf k ≤ db.nextPaymentOf k'

end SubscriptionDatabase

end Golos.Subscription
