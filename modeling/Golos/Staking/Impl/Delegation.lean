import Mathlib.Data.List.Sort
import Golos.Ledger.Basic

/-!
This module contains the objects that record who owns, delegates and withdraws Golos Power, and the
functions that delegate it and give it back, under the rules of hardfork 30.
-/

namespace Golos

open Checked

def maxTimePoint : Nat := 4294967295

def steemit100Percent : Nat := 10000

/-- The part of `account_object` that delegation and withdrawal of Golos Power read and write. -/
structure StakeAccountObject where
  name : AccountName
  mined : Bool := true
  votingPower : Nat := steemit100Percent
  lastVoteTime : Nat := 0
  balance : ℤ := 0
  savingsBalance : ℤ := 0
  vestingShares : ℤ := 0
  delegatedVestingShares : ℤ := 0
  receivedVestingShares : ℤ := 0
  emissionDelegatedVestingShares : ℤ := 0
  emissionReceivedVestingShares : ℤ := 0
  vestingWithdrawRate : ℤ := 0
  nextVestingWithdrawal : Nat := maxTimePoint
  withdrawn : ℤ := 0
  toWithdraw : ℤ := 0
  withdrawRoutes : Nat := 0
  lastActiveOperation : Nat := 0
  provedHf : Nat := 0
  frozen : Bool := false
  deriving DecidableEq

namespace StakeAccountObject

def effectiveVestingShares (a : StakeAccountObject) : Result ℤ := do
  let shares ← int64 (a.vestingShares - a.delegatedVestingShares) .overflowException
  let shares ← int64 (shares - a.emissionDelegatedVestingShares) .overflowException
  let shares ← int64 (shares + a.receivedVestingShares) .overflowException
  int64 (shares + a.emissionReceivedVestingShares) .overflowException

def availableVestingShares (a : StakeAccountObject) (considerWithdrawal : Bool) : Result ℤ := do
  let shares ← int64 (a.vestingShares - a.delegatedVestingShares) .overflowException
  let have_ ← int64 (shares - a.emissionDelegatedVestingShares) .overflowException
  if considerWithdrawal then
    let remaining ← int64 (a.toWithdraw - a.withdrawn) .overflowException
    int64 (have_ - remaining) .overflowException
  else
    pure have_

def delegateVs (a : StakeAccountObject) (delta : ℤ) (isEmission : Bool) :
    Result StakeAccountObject := do
  if isEmission then
    let shares ← add64 a.emissionDelegatedVestingShares delta .overflowException
    pure { a with emissionDelegatedVestingShares := shares }
  else
    let shares ← add64 a.delegatedVestingShares delta .overflowException
    pure { a with delegatedVestingShares := shares }

def receiveVs (a : StakeAccountObject) (delta : ℤ) (isEmission : Bool) :
    Result StakeAccountObject := do
  if isEmission then
    let shares ← add64 a.emissionReceivedVestingShares delta .overflowException
    pure { a with emissionReceivedVestingShares := shares }
  else
    let shares ← add64 a.receivedVestingShares delta .overflowException
    pure { a with receivedVestingShares := shares }

end StakeAccountObject

inductive DelegatorPayoutStrategy where
  | toDelegator
  | toDelegatedVesting
  deriving DecidableEq

/-- The value of the enumeration as a `bool`. -/
def DelegatorPayoutStrategy.toBool : DelegatorPayoutStrategy → Bool
  | toDelegator => false
  | toDelegatedVesting => true

structure VestingDelegationObject where
  delegator : AccountName
  delegatee : AccountName
  vestingShares : ℤ
  interestRate : Nat := 0
  payoutStrategy : DelegatorPayoutStrategy := .toDelegator
  isEmission : Bool := false
  minDelegationTime : Nat
  deriving DecidableEq

abbrev VestingDelegationObject.byDelegation (o : VestingDelegationObject) :
    AccountName × AccountName :=
  (o.delegator, o.delegatee)

structure VestingDelegationExpirationObject where
  id : Nat
  delegator : AccountName
  vestingShares : ℤ
  expiration : Nat
  isEmission : Bool := false
  deriving DecidableEq

structure WithdrawVestingRouteObject where
  fromAccount : AccountName
  toAccount : AccountName
  percent : Nat
  autoVest : Bool
  deriving DecidableEq

abbrev WithdrawVestingRouteObject.byWithdrawRoute (o : WithdrawVestingRouteObject) :
    AccountName × AccountName :=
  (o.fromAccount, o.toAccount)

/-- The properties of `witness_schedule_object::median_props` that are read here. -/
structure StakeMedianProps where
  accountCreationFee : ℤ := 0
  createAccountMinGolosFee : ℤ := 0
  createAccountMinDelegation : ℤ := 0
  createAccountDelegationTime : Nat := 0
  minDelegation : ℤ := 0
  maxDelegatedVestingInterestRate : Nat := 0
  accountIdlenessTime : Nat := 0
  deriving DecidableEq

/-- The part of `database` that delegation and withdrawal of Golos Power read and write. -/
structure Staking where
  accounts : Table StakeAccountObject.name := .empty
  delegations : Table VestingDelegationObject.byDelegation := .empty
  expirations : Table VestingDelegationExpirationObject.id := .empty
  nextExpirationId : Nat := 0
  routes : Table WithdrawVestingRouteObject.byWithdrawRoute := .empty
  totalVestingFundSteem : ℤ := 0
  totalVestingShares : ℤ := 0
  medianProps : StakeMedianProps := {}
  headBlockNum : Nat := 0
  headBlockTime : Nat := 0

namespace Staking

def getAccount (s : Staking) (name : AccountName) : Result StakeAccountObject :=
  get (s.accounts.find? name) (.missingObject "account")

def findDelegation (s : Staking) (delegator delegatee : AccountName) :
    Option VestingDelegationObject :=
  s.delegations.find? (delegator, delegatee)

/-- `modify(get_account(name), f)` for an update that can fail. -/
def modifyAccount (s : Staking) (name : AccountName)
    (f : StakeAccountObject → Result StakeAccountObject) : Result Staking := do
  let a ← s.getAccount name
  let a' ← f a
  pure { s with accounts := s.accounts.modify name fun a => { a' with name := a.name } }

def delegateVs (s : Staking) (name : AccountName) (delta : ℤ) (isEmission : Bool) :
    Result Staking :=
  s.modifyAccount name fun a => a.delegateVs delta isEmission

def receiveVs (s : Staking) (name : AccountName) (delta : ℤ) (isEmission : Bool) :
    Result Staking :=
  s.modifyAccount name fun a => a.receiveVs delta isEmission

def modifyDelegation (s : Staking) (delegator delegatee : AccountName)
    (f : VestingDelegationObject → VestingDelegationObject)
    (hf : autoParam (∀ d, (f d).byDelegation = d.byDelegation) Monoid.npow_zero._autoParam) :
    Staking :=
  { s with delegations := s.delegations.modify (delegator, delegatee) f hf }

def removeDelegation (s : Staking) (delegator delegatee : AccountName) : Staking :=
  { s with delegations := s.delegations.erase (delegator, delegatee) }

def createDelegation (s : Staking) (d : VestingDelegationObject) : Result Staking := do
  let delegations ← get (s.delegations.emplace d) .uniquenessViolated
  pure { s with delegations := delegations }

def createExpiration (s : Staking) (delegator : AccountName) (vestingShares : ℤ)
    (expiration : Nat) (isEmission : Bool) : Result Staking := do
  let o : VestingDelegationExpirationObject :=
    { id := s.nextExpirationId
      delegator := delegator
      vestingShares := vestingShares
      expiration := expiration
      isEmission := isEmission }
  let expirations ← get (s.expirations.emplace o) .uniquenessViolated
  pure { s with expirations := expirations, nextExpirationId := s.nextExpirationId + 1 }

/-- `get_vesting_share_price()` -/
def vestingSharePrice (s : Staking) : Price :=
  if s.totalVestingFundSteem = 0 ∨ s.totalVestingShares = 0 then
    ⟨⟨1000, steemSymbol⟩, ⟨1000000, vestsSymbol⟩⟩
  else
    ⟨⟨s.totalVestingShares, vestsSymbol⟩, ⟨s.totalVestingFundSteem, steemSymbol⟩⟩

/-- `steem * get_vesting_share_price()` -/
def toVests (s : Staking) (steem : ℤ) : Result ℤ := do
  let vests ← Asset.mulPrice ⟨steem, steemSymbol⟩ s.vestingSharePrice
  pure vests.amount

/-- `vests * get_vesting_share_price()` -/
def toSteem (s : Staking) (vests : ℤ) : Result ℤ := do
  let steem ← Asset.mulPrice ⟨vests, vestsSymbol⟩ s.vestingSharePrice
  pure steem.amount

/-- `create_vesting`, and the vesting shares it created. -/
def createVesting (s : Staking) (toAccount : AccountName) (steem : ℤ) :
    Result (Staking × ℤ) := do
  let newVesting ← s.toVests steem
  let s ← s.modifyAccount toAccount fun a => do
    let vestingShares ← add64 a.vestingShares newVesting .overflowException
    pure { a with vestingShares := vestingShares }
  let fund ← add64 s.totalVestingFundSteem steem .overflowException
  let shares ← add64 s.totalVestingShares newVesting .overflowException
  pure ({ s with totalVestingFundSteem := fund, totalVestingShares := shares }, newVesting)

end Staking

def steemitCashoutWindowSeconds : Nat := 604800

def steemitVoteRegenerationSeconds : ℤ := 432000

structure DelegateVestingSharesOperation where
  delegator : AccountName
  delegatee : AccountName
  vestingShares : Asset

structure InterestDirection where
  isEmission : Bool

structure DelegateVestingSharesWithInterestOperation where
  delegator : AccountName
  delegatee : AccountName
  vestingShares : Asset
  interestRate : Nat := 2500
  payoutStrategy : DelegatorPayoutStrategy := .toDelegator
  extensions : List InterestDirection := []

structure RejectVestingSharesDelegationOperation where
  delegator : AccountName
  delegatee : AccountName

structure AccountCreateWithDelegationOperation where
  fee : Asset
  delegation : Asset
  creator : AccountName
  newAccountName : AccountName

/-- One of `comment_vote_object::delegator_vote_interest_rates`. -/
structure DelegatorVoteInterestRate where
  account : AccountName
  interestRate : Nat
  payoutStrategy : DelegatorPayoutStrategy := .toDelegator

/-- `validate()` of both operations that delegate. -/
def validateDelegation (delegator delegatee : AccountName) (vestingShares : Asset) :
    Result Unit := do
  ensure (delegator ≠ delegatee) (.assertException "You cannot delegate GESTS to yourself")
  ensure (vestingShares.symbol = vestsSymbol ∧ 0 ≤ vestingShares.amount)
    (.invalidValue "vesting_shares")

def AccountCreateWithDelegationOperation.validate (op : AccountCreateWithDelegationOperation) :
    Result Unit := do
  ensure (op.fee.symbol = steemSymbol ∧ 0 ≤ op.fee.amount) (.invalidValue "fee")
  ensure (op.delegation.symbol = vestsSymbol ∧ 0 ≤ op.delegation.amount)
    (.invalidValue "delegation")

/-- The conversion of an `int64_t` to `int`. -/
def toInt32 (x : ℤ) : ℤ :=
  (BitVec.ofInt 32 x).toInt

namespace Staking

/-- `GOLOS_CHECK_BALANCE(db, account, AVAILABLE_VESTING, required)` -/
def checkAvailableVesting (a : StakeAccountObject) (required : ℤ) : Result Unit := do
  let exist ← a.availableVestingShares true
  ensure (required ≤ exist) (.insufficientFunds a.name "available vesting shares")

/-- The shares that the voting power of the delegator allows to delegate. -/
def maxAllowed (s : Staking) (delegator : StakeAccountObject) : Result ℤ :=
  let elapsedSeconds : ℤ := s.headBlockTime - delegator.lastVoteTime
  let regeneratedPower := (steemit100Percent * elapsedSeconds).tdiv steemitVoteRegenerationSeconds
  let currentPower := min (delegator.votingPower + regeneratedPower) steemit100Percent
  ofUint128
    (toUint128 delegator.vestingShares * toUint128 currentPower % 2 ^ 128 / steemit100Percent)

def increaseDelegation (s : Staking) (delegator : StakeAccountObject)
    (delegation : Option VestingDelegationObject) (new : VestingDelegationObject)
    (delta minDelegation : ℤ) (isEmission : Bool) : Result Staking := do
  let delegated ← int64
    (delegator.delegatedVestingShares + delegator.emissionDelegatedVestingShares)
    .overflowException
  checkAvailableVesting delegator delta
  let maxAllowed ← s.maxAllowed delegator
  let increased ← int64 (delegated + delta) .overflowException
  ensure (increased ≤ maxAllowed) (.assertException "delegation_limited_by_voting_power")
  let s ← (match delegation with
    | some _ => pure s
    | none => do
      ensure (minDelegation ≤ new.vestingShares) (.assertException "cannot_delegate_below_minimum")
      s.createDelegation new)
  s.delegateVs delegator.name delta isEmission

def decreaseDelegation (s : Staking) (delegation : Option VestingDelegationObject)
    (new : VestingDelegationObject) (delta minDelegation : ℤ) (isEmission : Bool) :
    Result Staking := do
  ensure (new.vestingShares = 0 ∨ minDelegation ≤ new.vestingShares)
    (.assertException "cannot_delegate_below_minimum")
  -- without a delegation the source reads through a null pointer
  let d ← get delegation (.assertException "delegation != nullptr")
  s.createExpiration new.delegator (-delta)
    (max (s.headBlockTime + steemitCashoutWindowSeconds) d.minDelegationTime) isEmission

/--
The body that both operations share. `new` is the object that `create_vdo` completes, with
`op.vesting_shares`, and `validateWithVdo` the check of an existing one.
-/
def delegateVestingShares (s : Staking) (new : VestingDelegationObject) (isEmission : Bool)
    (validateWithVdo : VestingDelegationObject → Result Unit) : Result Staking := do
  let delegator ← s.getAccount new.delegator
  let _ ← s.getAccount new.delegatee
  let delegation := s.findDelegation new.delegator new.delegatee
  delegation.forM validateWithVdo
  let minDelegation ← s.toVests s.medianProps.minDelegation
  let minUpdate ← s.toVests s.medianProps.createAccountMinGolosFee
  let delta ← (match delegation with
    | some d => int64 (new.vestingShares - d.vestingShares) .overflowException
    | none => pure new.vestingShares)
  ensure (new.vestingShares = 0 ∨ minUpdate ≤ (if 0 < delta then delta else -delta))
    (.assertException "delegation_difference_too_low")
  let isEmission := match delegation with
    | some d => d.isEmission
    | none => isEmission
  let s ← (if 0 < delta then
      s.increaseDelegation delegator delegation new delta minDelegation isEmission
    else
      s.decreaseDelegation delegation new delta minDelegation isEmission)
  let s ← s.receiveVs new.delegatee delta isEmission
  match delegation with
  | none => pure s
  | some _ =>
    if 0 < new.vestingShares then
      pure (s.modifyDelegation new.delegator new.delegatee fun d =>
        { d with vestingShares := new.vestingShares })
    else
      pure (s.removeDelegation new.delegator new.delegatee)

def delegateVestingSharesOp (s : Staking) (op : DelegateVestingSharesOperation) :
    Result Staking := do
  validateDelegation op.delegator op.delegatee op.vestingShares
  s.delegateVestingShares
    { delegator := op.delegator
      delegatee := op.delegatee
      vestingShares := op.vestingShares.amount
      minDelegationTime := s.headBlockTime }
    false fun _ => pure ()

def delegateVestingSharesWithInterest (s : Staking)
    (op : DelegateVestingSharesWithInterestOperation) : Result Staking := do
  validateDelegation op.delegator op.delegatee op.vestingShares
  let isEmission := !op.extensions.isEmpty
  if isEmission then
    ensure (op.interestRate = steemit100Percent)
      (.invalidValue "interest_rate should be 10000 for emission interest")
  else
    ensure (op.vestingShares.amount ≤ 0 ∨
        op.interestRate ≤ s.medianProps.maxDelegatedVestingInterestRate)
      (.invalidValue "interest_rate")
  s.delegateVestingShares
    { delegator := op.delegator
      delegatee := op.delegatee
      vestingShares := op.vestingShares.amount
      interestRate := op.interestRate
      payoutStrategy := op.payoutStrategy
      isEmission := isEmission
      minDelegationTime := s.headBlockTime }
    isEmission fun d => do
      ensure (d.interestRate = op.interestRate)
        (.assertException "cannot_change_delegator_interest_rate")
      ensure (d.isEmission = isEmission ∧ d.payoutStrategy = op.payoutStrategy)
        (.assertException "cannot_change_delegator_payout_strategy")

/-- The same under the rules before hardfork 29, where a removal names its rate too. -/
def delegateVestingSharesWithInterestBefore29 (s : Staking)
    (op : DelegateVestingSharesWithInterestOperation) : Result Staking := do
  validateDelegation op.delegator op.delegatee op.vestingShares
  ensure (!op.extensions.isEmpty ∨
      op.interestRate ≤ s.medianProps.maxDelegatedVestingInterestRate)
    (.invalidValue "interest_rate")
  s.delegateVestingSharesWithInterest op

def rejectVestingSharesDelegation (s : Staking) (op : RejectVestingSharesDelegationOperation) :
    Result Staking := do
  let _ ← s.getAccount op.delegatee
  let d ← get (s.findDelegation op.delegator op.delegatee)
    (.missingObject "vesting_delegation_object")
  let minusShares ← int64 (-d.vestingShares) .overflowException
  -- the kind of the received shares is read from the payout strategy
  let s ← s.receiveVs op.delegatee minusShares d.payoutStrategy.toBool
  let s ← s.createExpiration op.delegator d.vestingShares
    (max (s.headBlockTime + steemitCashoutWindowSeconds) d.minDelegationTime) d.isEmission
  pure (s.removeDelegation op.delegator op.delegatee)

/-- `distribute_account_fee` -/
def distributeAccountFee (s : Staking) (fee : ℤ) : Result Staking :=
  if 0 < fee then
    s.modifyAccount workerPoolAccount fun a => do
      let balance ← add64 a.balance fee .overflowException
      pure { a with balance := balance }
  else
    pure s

/-- `fee * target / min_fee * v_share_price + delegation` -/
def currentDelegation (s : Staking) (fee target delegation : ℤ) : Result ℤ := do
  let minFee := toInt32 s.medianProps.accountCreationFee
  let product ← int64 (fee * toInt32 target) .overflowException
  ensure (minFee ≠ 0) .overflowException
  let vests ← s.toVests (product.tdiv minFee)
  int64 (vests + delegation) .overflowException

def createAccount (s : Staking) (a : StakeAccountObject) : Result Staking := do
  let accounts ← get (s.accounts.emplace a) .uniquenessViolated
  pure { s with accounts := accounts }

def accountCreateWithDelegation (s : Staking) (op : AccountCreateWithDelegationOperation) :
    Result Staking := do
  op.validate
  let props := s.medianProps
  let fee := op.fee.amount
  let delegation := op.delegation.amount
  let creator ← s.getAccount op.creator
  ensure (fee ≤ creator.balance) (.insufficientFunds creator.name "fund")
  checkAvailableVesting creator delegation
  let target ← int64 (props.createAccountMinGolosFee + props.createAccountMinDelegation)
    .overflowException
  let targetDelegation ← s.toVests target
  let currentDelegation ← s.currentDelegation fee target delegation
  ensure (targetDelegation ≤ currentDelegation) (.assertException "not_enough_delegation")
  ensure (props.createAccountMinGolosFee ≤ fee) (.invalidValue "Insufficient Fee")
  let s ← s.modifyAccount op.creator fun c => do
    let balance ← add64 c.balance (-fee) .overflowException
    let c := { c with balance := balance }
    c.delegateVs delegation false
  let s ← s.createAccount
    { name := op.newAccountName
      mined := false
      lastVoteTime := s.headBlockTime
      lastActiveOperation := s.headBlockTime
      receivedVestingShares := delegation
      provedHf := 30 }
  let s ← (if 0 < delegation then
      s.createDelegation
        { delegator := op.creator
          delegatee := op.newAccountName
          vestingShares := delegation
          minDelegationTime := s.headBlockTime + props.createAccountDelegationTime }
    else
      pure s)
  if 0 < fee then
    let s ← s.distributeAccountFee props.createAccountMinGolosFee
    let vest ← int64 (fee - props.createAccountMinGolosFee) .overflowException
    if 0 < vest then
      let (s, _) ← s.createVesting op.newAccountName vest
      pure s
    else
      pure s
  else
    pure s

/-- The body of the loop of `pay_delegators`. -/
def payDelegator (delegatee : AccountName) (claim : Nat) (s : Staking)
    (dvir : DelegatorVoteInterestRate) : Result Staking := do
  let delegatorClaim : Nat := claim * dvir.interestRate % 2 ^ 64 / steemit100Percent
  if steemit100Percent < dvir.interestRate ∨ delegatorClaim = 0 then
    pure s
  else
    let (s, delegatorVesting) ← s.createVesting dvir.account delegatorClaim
    match dvir.payoutStrategy, s.findDelegation dvir.account delegatee with
    | .toDelegatedVesting, some d => do
      let s ← s.delegateVs dvir.account delegatorVesting false
      let s ← s.receiveVs delegatee delegatorVesting false
      let vestingShares ← add64 d.vestingShares delegatorVesting .overflowException
      pure (s.modifyDelegation dvir.account delegatee fun d =>
        { d with vestingShares := vestingShares })
    | _, _ => pure s

def payDelegators (s : Staking) (delegatee : AccountName)
    (rates : List DelegatorVoteInterestRate) (claim : Nat) : Result Staking :=
  rates.foldlM (payDelegator delegatee claim) s

def clearExpiredDelegation (s : Staking) (o : VestingDelegationExpirationObject) :
    Result Staking := do
  let minusShares ← int64 (-o.vestingShares) .overflowException
  let s ← s.delegateVs o.delegator minusShares o.isEmission
  pure { s with expirations := s.expirations.erase o.id }

/-- The expired objects in the order of the index `by_expiration`. -/
def expiredDelegations (s : Staking) : List VestingDelegationExpirationObject :=
  (s.expirations.rows.filter fun o => o.expiration < s.headBlockTime).insertionSort
    fun a b => a.expiration < b.expiration ∨ (a.expiration = b.expiration ∧ a.id ≤ b.id)

-- the loop removes the first object until that has not expired, and adds none
def clearExpiredDelegations (s : Staking) : Result Staking :=
  s.expiredDelegations.foldlM clearExpiredDelegation s

end Staking

end Golos
