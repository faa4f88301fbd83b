import Golos.Staking.Impl.Withdrawal
import Golos.Lib.Transition

/-!
This module contains the recovery of an account, which ends its withdrawal, and the runs of the chain
as the owners of Golos Power see them.
-/

namespace Golos

open Checked

def steemitOwnerUpdateLimit : Nat := 3600

def steemitOwnerAuthHistoryTrackingStartBlockNum : Nat := 1

structure RecoverAccountOperation where
  accountToRecover : AccountName
  newOwnerAuthority : Authority
  recentOwnerAuthority : Authority

structure AccountRecoveryRequestObject where
  accountToRecover : AccountName
  newOwnerAuthority : Authority
  expires : Nat
  deriving DecidableEq

structure OwnerAuthorityHistoryObject where
  account : AccountName
  previousOwnerAuthority : Authority
  lastValidTime : Nat
  deriving DecidableEq

structure AccountAuthorityObject where
  account : AccountName
  owner : Authority
  lastOwnerUpdate : Nat := 0
  deriving DecidableEq

/-- The part of `database` that the recovery of an account reads and writes. -/
structure Recovery where
  staking : Staking
  /-- `account_object::last_account_recovery` -/
  lastAccountRecovery : AccountName → Nat := fun _ => 0
  requests : Table AccountRecoveryRequestObject.accountToRecover := .empty
  ownerAuthorityHistory : List OwnerAuthorityHistoryObject := []
  authorities : Table AccountAuthorityObject.account := .empty

namespace Staking

def stopWithdraw (s : Staking) (account : AccountName) : Result Staking :=
  s.modifyAccount account fun a => pure a.stopWithdrawal

/-- The index `by_withdraw_route`. -/
def byWithdrawRoute (s : Staking) : List WithdrawVestingRouteObject :=
  s.routes.rows.insertionSort fun r r' =>
    s.accountId r.fromAccount < s.accountId r'.fromAccount ∨
      (s.accountId r.fromAccount = s.accountId r'.fromAccount ∧
        s.accountId r.toAccount ≤ s.accountId r'.toAccount)

/-- `upper_bound(account)` with a prefix of the key passes over all routes of the account. -/
def upperBoundRoute (s : Staking) (account : AccountName) : List WithdrawVestingRouteObject :=
  s.byWithdrawRoute.dropWhile fun r => s.accountId r.fromAccount ≤ s.accountId account

def removeVestingRoutes (s : Staking) (account : AccountName) : Staking :=
  ((s.upperBoundRoute account).takeWhile fun r => r.fromAccount = account).foldl
    (fun s r => { s with routes := s.routes.erase r.byWithdrawRoute }) s

def resetVestingWithdraw (s : Staking) (account : AccountName) : Result Staking := do
  let s ← s.stopWithdraw account
  pure (s.removeVestingRoutes account)

end Staking

namespace Recovery

def updateOwnerAuthority (c : Recovery) (account : AccountName) (ownerAuthority : Authority) :
    Result Recovery := do
  let auth ← get (c.authorities.find? account) (.missingObject "authority")
  let now := c.staking.headBlockTime
  let history :=
    if steemitOwnerAuthHistoryTrackingStartBlockNum ≤ c.staking.headBlockNum then
      c.ownerAuthorityHistory ++ [⟨account, auth.owner, now⟩]
    else
      c.ownerAuthorityHistory
  pure
    { c with
      ownerAuthorityHistory := history
      authorities := c.authorities.modify account fun a =>
        { a with owner := ownerAuthority, lastOwnerUpdate := now } }

def recoverAccount (c : Recovery) (op : RecoverAccountOperation) : Result Recovery := do
  let _ ← c.staking.getAccount op.accountToRecover
  let now := c.staking.headBlockTime
  ensure (c.lastAccountRecovery op.accountToRecover + steemitOwnerUpdateLimit < now)
    (.assertException "Owner authority can only be updated once an hour.")
  let request ← get (c.requests.find? op.accountToRecover)
    (.assertException "There are no active recovery requests for this account.")
  ensure (request.newOwnerAuthority = op.newOwnerAuthority)
    (.assertException "New owner authority does not match recovery request.")
  ensure (c.ownerAuthorityHistory.any fun hist =>
      hist.account = op.accountToRecover ∧ hist.previousOwnerAuthority = op.recentOwnerAuthority)
    (.assertException "Recent authority not found in authority history.")
  let c := { c with requests := c.requests.erase op.accountToRecover }
  let c ← c.updateOwnerAuthority op.accountToRecover op.newOwnerAuthority
  let c :=
    { c with
      lastAccountRecovery := fun name =>
        if name = op.accountToRecover then now else c.lastAccountRecovery name }
  let staking ← c.staking.resetVestingWithdraw op.accountToRecover
  pure { c with staking := staking }

end Recovery

inductive StakeEvent where
  | delegateVestingShares (op : DelegateVestingSharesOperation)
  | delegateVestingSharesWithInterest (op : DelegateVestingSharesWithInterestOperation)
  | rejectVestingSharesDelegation (op : RejectVestingSharesDelegationOperation)
  | accountCreateWithDelegation (op : AccountCreateWithDelegationOperation)
  | withdrawVesting (op : WithdrawVestingOperation)
  | setWithdrawVestingRoute (op : SetWithdrawVestingRouteOperation)
  /-- `recover_account` of the account, as far as it concerns Golos Power. -/
  | recoverAccount (account : AccountName)
  | payDelegators (delegatee : AccountName) (rates : List DelegatorVoteInterestRate) (claim : Nat)
  /-- `create_vesting` for a transfer or a reward. -/
  | createVesting (toAccount : AccountName) (steem : ℤ)
  | clearExpiredDelegations
  | processVestingWithdrawals
  | checkAccountIdleness
  | clearNullAccountBalance
  /-- The transit. -/
  | liberateGolosClassic
  /-- Everything else: other operations, other work at block ends, passing time. -/
  | other

namespace StakeAccountObject

/-- The fields of an account that say how its Golos Power is used. -/
structure SameStake (a a' : StakeAccountObject) : Prop where
  vestingShares : a'.vestingShares = a.vestingShares
  delegatedVestingShares : a'.delegatedVestingShares = a.delegatedVestingShares
  receivedVestingShares : a'.receivedVestingShares = a.receivedVestingShares
  emissionDelegatedVestingShares :
    a'.emissionDelegatedVestingShares = a.emissionDelegatedVestingShares
  emissionReceivedVestingShares :
    a'.emissionReceivedVestingShares = a.emissionReceivedVestingShares
  vestingWithdrawRate : a'.vestingWithdrawRate = a.vestingWithdrawRate
  nextVestingWithdrawal : a'.nextVestingWithdrawal = a.nextVestingWithdrawal
  withdrawn : a'.withdrawn = a.withdrawn
  toWithdraw : a'.toWithdraw = a.toWithdraw
  withdrawRoutes : a'.withdrawRoutes = a.withdrawRoutes

/-- An account that delegates and withdraws nothing. -/
structure Unused (a : StakeAccountObject) : Prop where
  delegatedVestingShares : a.delegatedVestingShares = 0
  receivedVestingShares : a.receivedVestingShares = 0
  emissionDelegatedVestingShares : a.emissionDelegatedVestingShares = 0
  emissionReceivedVestingShares : a.emissionReceivedVestingShares = 0
  vestingWithdrawRate : a.vestingWithdrawRate = 0
  nextVestingWithdrawal : a.nextVestingWithdrawal = maxTimePoint
  withdrawn : a.withdrawn = 0
  toWithdraw : a.toWithdraw = 0
  withdrawRoutes : a.withdrawRoutes = 0

end StakeAccountObject

namespace Staking

/-- The names of the accounts in the order of their ids. -/
def names (s : Staking) : List AccountName :=
  s.accounts.rows.map StakeAccountObject.name

structure Unused (s : Staking) : Prop where
  delegations : s.delegations = .empty
  expirations : s.expirations = .empty
  routes : s.routes = .empty
  accounts : ∀ a ∈ s.accounts.rows, a.Unused ∧ 0 ≤ a.vestingShares

theorem Unused.of_rows {s : Staking}
    (hempty : s.delegations = .empty ∧ s.expirations = .empty ∧ s.routes = .empty)
    (h : ∀ a ∈ s.accounts.rows, a.stopWithdrawal = a ∧ a.delegatedVestingShares = 0 ∧
      a.receivedVestingShares = 0 ∧ a.emissionDelegatedVestingShares = 0 ∧
      a.emissionReceivedVestingShares = 0 ∧ a.withdrawRoutes = 0 ∧ 0 ≤ a.vestingShares) :
    s.Unused := by
  refine ⟨hempty.1, hempty.2.1, hempty.2.2, ?_⟩
  intro a ha
  obtain ⟨hstop, hdelegated, hreceived, hemission, hemission', hroutes, hvesting⟩ := h a ha
  rw [← hstop] at hdelegated hreceived hemission hemission' hroutes ⊢
  exact ⟨⟨hdelegated, hreceived, hemission, hemission', rfl, rfl, rfl, rfl, hroutes⟩, hvesting⟩

/--
What the rest of the chain does: it removes no account, creates accounts without Golos Power, and
leaves the use of Golos Power and its objects alone.
-/
structure Elsewhere (s s' : Staking) : Prop where
  delegations : s'.delegations = s.delegations
  expirations : s'.expirations = s.expirations
  nextExpirationId : s'.nextExpirationId = s.nextExpirationId
  routes : s'.routes = s.routes
  names : s.names <+: s'.names
  old : ∀ name a a', s.accounts.find? name = some a → s'.accounts.find? name = some a' →
    a.SameStake a'
  new : ∀ name a', s.accounts.find? name = none → s'.accounts.find? name = some a' →
    a'.Unused ∧ a'.vestingShares = 0

/-- One event. A failed operation leaves no trace, so it is no event. -/
def Step (s : Staking) : StakeEvent → Staking → Prop
  | .delegateVestingShares op, s' => s.delegateVestingSharesOp op = .ok s'
  | .delegateVestingSharesWithInterest op, s' => s.delegateVestingSharesWithInterest op = .ok s'
  | .rejectVestingSharesDelegation op, s' => s.rejectVestingSharesDelegation op = .ok s'
  | .accountCreateWithDelegation op, s' => s.accountCreateWithDelegation op = .ok s'
  | .withdrawVesting op, s' => s.withdrawVesting op = .ok s'
  | .setWithdrawVestingRoute op, s' => s.setWithdrawVestingRoute op = .ok s'
  | .recoverAccount account, s' => s.resetVestingWithdraw account = .ok s'
  | .payDelegators delegatee rates claim, s' => s.payDelegators delegatee rates claim = .ok s'
  | .createVesting toAccount steem, s' =>
    0 ≤ steem ∧ ∃ newVesting, s.createVesting toAccount steem = .ok (s', newVesting)
  | .clearExpiredDelegations, s' => s.clearExpiredDelegations = .ok s'
  | .processVestingWithdrawals, s' => s.processVestingWithdrawals = .ok s'
  | .checkAccountIdleness, s' => s.checkAccountIdleness = .ok s'
  | .clearNullAccountBalance, s' => s.clearNullAccountBalance = .ok s'
  | .liberateGolosClassic, s' => s.liberateGolosClassic = .ok s'
  | .other, s' => s.Elsewhere s'

def stake : TransitionSystem Staking StakeEvent where
  initial := Unused
  step := Step

end Staking

end Golos
