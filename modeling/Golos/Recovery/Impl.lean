import Golos.Protocol.SignState
import Golos.Staking.Run

/-!
This module contains the requests for the recovery of accounts and for the change of their recovery
accounts, and what the end of a block does with them, under the rules of hardfork 30.
-/

namespace Golos

open Checked

def steemitRecoveryAccount : AccountName := "recovery"

/-- 30 days in seconds. -/
def steemitOwnerAuthRecoveryPeriod : Nat := 2592000

/-- One day in seconds. -/
def steemitAccountRecoveryRequestExpirationPeriod : Nat := 86400

namespace Authority

def isImpossible (a : Authority) : Bool :=
  (a.accountAuths.map Prod.snd).sum + (a.keyAuths.map Prod.snd).sum < a.weightThreshold

def validate (a : Authority) : Result Unit :=
  a.accountAuths.forM fun item =>
    ensure (AccountName.isValid item.1) (.invalidValue s!"Account name \"{item.1}\" is invalid")

end Authority

structure RequestAccountRecoveryOperation where
  recoveryAccount : AccountName
  accountToRecover : AccountName
  newOwnerAuthority : Authority

def RequestAccountRecoveryOperation.validate (op : RequestAccountRecoveryOperation) :
    Result Unit := do
  validateAccountName op.recoveryAccount
  validateAccountName op.accountToRecover
  op.newOwnerAuthority.validate

def RecoverAccountOperation.validate (op : RecoverAccountOperation) : Result Unit := do
  validateAccountName op.accountToRecover
  ensure (op.newOwnerAuthority ≠ op.recentOwnerAuthority)
    (.logicException "Cannot set new owner authority to the recent owner authority")
  ensure (op.newOwnerAuthority.isImpossible = false)
    (.invalidValue "new owner authority cannot be impossible")
  ensure (op.newOwnerAuthority.weightThreshold ≠ 0)
    (.invalidValue "new owner authority cannot be trivial")
  op.newOwnerAuthority.validate
  ensure (op.recentOwnerAuthority.isImpossible = false)
    (.invalidValue "recent owner authority cannot be impossible")
  op.recentOwnerAuthority.validate

structure ChangeRecoveryAccountOperation where
  accountToRecover : AccountName
  newRecoveryAccount : AccountName

def ChangeRecoveryAccountOperation.validate (op : ChangeRecoveryAccountOperation) :
    Result Unit := do
  validateAccountName op.accountToRecover
  validateAccountName op.newRecoveryAccount

/-- The fields of the operation that its evaluator checks or an owner authority comes from. -/
structure AccountUpdateOperation where
  account : AccountName
  owner : Option Authority := none
  active : Option Authority := none
  posting : Option Authority := none

structure ChangeRecoveryAccountRequestObject where
  accountToRecover : AccountName
  recoveryAccount : AccountName
  effectiveOn : Nat
  deriving DecidableEq

/-- The part of `database` that the recovery of accounts and the requests for it read and write. -/
structure RecoveryDatabase where
  recovery : Recovery
  /-- `account_object::recovery_account` -/
  recoveryAccount : AccountName → AccountName := fun _ => ""
  changeRequests : Table ChangeRecoveryAccountRequestObject.accountToRecover := .empty
  /-- The owners of the witnesses in the order of the index `by_vote_name`. -/
  byVoteName : List AccountName := []

namespace RecoveryDatabase

variable (db : RecoveryDatabase)

abbrev headBlockTime : Nat :=
  db.recovery.staking.headBlockTime

abbrev headBlockNum : Nat :=
  db.recovery.staking.headBlockNum

def getAccounts (a : Authority) : Result Unit :=
  a.accountAuths.forM fun item => do
    let _ ← db.recovery.staking.getAccount item.1
    pure ()

/-- An account without a recovery account has the top witness for one. -/
def checkPartner (op : RequestAccountRecoveryOperation) : Result Unit :=
  if db.recoveryAccount op.accountToRecover ≠ "" then
    ensure (db.recoveryAccount op.accountToRecover = op.recoveryAccount) (.logicException
      "Cannot recover an account that does not have you as there recovery partner.")
  else
    ensure (db.byVoteName.head? = some op.recoveryAccount)
      (.logicException "Top witness must recover an account with no recovery partner.")

def requestAccountRecovery (op : RequestAccountRecoveryOperation) : Result RecoveryDatabase := do
  let _ ← db.recovery.staking.getAccount op.accountToRecover
  db.checkPartner op
  let expires := db.headBlockTime + steemitAccountRecoveryRequestExpirationPeriod
  match db.recovery.requests.find? op.accountToRecover with
  | none => do
    ensure (op.newOwnerAuthority.isImpossible = false)
      (.invalidValue "Cannot recover using an impossible authority.")
    ensure (op.newOwnerAuthority.weightThreshold ≠ 0)
      (.invalidValue "Cannot recover using an open authority.")
    db.getAccounts op.newOwnerAuthority
    let requests ← get
      (db.recovery.requests.emplace ⟨op.accountToRecover, op.newOwnerAuthority, expires⟩)
      .uniquenessViolated
    pure { db with recovery := { db.recovery with requests := requests } }
  | some _ =>
    if op.newOwnerAuthority.weightThreshold = 0 then
      pure
        { db with
          recovery :=
            { db.recovery with requests := db.recovery.requests.erase op.accountToRecover } }
    else do
      ensure (op.newOwnerAuthority.isImpossible = false)
        (.invalidValue "Cannot recover using an impossible authority.")
      db.getAccounts op.newOwnerAuthority
      let requests := db.recovery.requests.modify op.accountToRecover fun req =>
        { req with newOwnerAuthority := op.newOwnerAuthority, expires := expires }
      pure { db with recovery := { db.recovery with requests := requests } }

def recoverAccount (op : RecoverAccountOperation) : Result RecoveryDatabase := do
  let recovery ← db.recovery.recoverAccount op
  pure { db with recovery := recovery }

def changeRecoveryAccount (op : ChangeRecoveryAccountOperation) : Result RecoveryDatabase := do
  let _ ← db.recovery.staking.getAccount op.newRecoveryAccount
  let _ ← db.recovery.staking.getAccount op.accountToRecover
  let effectiveOn := db.headBlockTime + steemitOwnerAuthRecoveryPeriod
  match db.changeRequests.find? op.accountToRecover with
  | none => do
    let requests ← get
      (db.changeRequests.emplace ⟨op.accountToRecover, op.newRecoveryAccount, effectiveOn⟩)
      .uniquenessViolated
    pure { db with changeRequests := requests }
  | some _ =>
    if db.recoveryAccount op.accountToRecover ≠ op.newRecoveryAccount then
      let requests := db.changeRequests.modify op.accountToRecover fun req =>
        { req with recoveryAccount := op.newRecoveryAccount, effectiveOn := effectiveOn }
      pure { db with changeRequests := requests }
    else
      pure { db with changeRequests := db.changeRequests.erase op.accountToRecover }

def updateOwner (op : AccountUpdateOperation) (auth : AccountAuthorityObject) : Result Recovery :=
  match op.owner with
  | none => pure db.recovery
  | some owner => do
    ensure (auth.lastOwnerUpdate + steemitOwnerUpdateLimit < db.headBlockTime)
      (.assertException "Owner authority can only be updated once an hour.")
    db.getAccounts owner
    db.recovery.updateOwnerAuthority op.account owner

/-- `account_update_evaluator`, as far as owner authorities depend on it. -/
def accountUpdate (op : AccountUpdateOperation) : Result RecoveryDatabase := do
  ensure (op.account ≠ steemitTempAccount) (.invalidValue "Cannot update temp account.")
  op.posting.toList.forM Authority.validate
  let _ ← db.recovery.staking.getAccount op.account
  let auth ← get (db.recovery.authorities.find? op.account) (.missingObject "authority")
  let recovery ← db.updateOwner op auth
  op.active.toList.forM db.getAccounts
  op.posting.toList.forM db.getAccounts
  pure { db with recovery := recovery }

section blockEnd

-- the loop removes the first request by expiration until that has not expired
def clearExpiredRequests : RecoveryDatabase :=
  { db with
    recovery :=
      { db.recovery with
        requests := db.recovery.requests.filter fun req => db.headBlockTime < req.expires } }

/-- The loop goes in the order of the ids, and ends at the first that is still valid. -/
def clearInvalidAuthorities : RecoveryDatabase :=
  { db with
    recovery :=
      { db.recovery with
        ownerAuthorityHistory := db.recovery.ownerAuthorityHistory.dropWhile fun hist =>
          hist.lastValidTime + steemitOwnerAuthRecoveryPeriod < db.headBlockTime } }

def effectiveChanges : List ChangeRecoveryAccountRequestObject :=
  (db.changeRequests.rows.filter fun req => req.effectiveOn ≤ db.headBlockTime).insertionSort
    fun req req' => req.effectiveOn ≤ req'.effectiveOn

def applyChange (req : ChangeRecoveryAccountRequestObject) : Result RecoveryDatabase := do
  let _ ← db.recovery.staking.getAccount req.accountToRecover
  pure
    { db with
      recoveryAccount := fun name =>
        if name = req.accountToRecover then req.recoveryAccount else db.recoveryAccount name
      changeRequests := db.changeRequests.erase req.accountToRecover }

def accountRecoveryProcessing : Result RecoveryDatabase :=
  let db := db.clearExpiredRequests.clearInvalidAuthorities
  db.effectiveChanges.foldlM applyChange db

/-- The end of a block with this time, as far as recovery depends on it. -/
def blockEnd (time : Nat) : Result RecoveryDatabase :=
  let staking :=
    { db.recovery.staking with
      headBlockTime := time, headBlockNum := db.headBlockNum + 1 }
  accountRecoveryProcessing { db with recovery := { db.recovery with staking := staking } }

/-- What hardfork 23 does to the account of the worker pool, and hardfork 27 to the registrator's. -/
def clearRecoveryAccount (account : AccountName) : Result RecoveryDatabase := do
  let _ ← db.recovery.staking.getAccount account
  pure
    { db with
      recoveryAccount := fun name => if name = account then "" else db.recoveryAccount name }

/-- The loop is over the accounts that are not frozen. -/
def fixRecoveryAccounts : RecoveryDatabase :=
  { db with
    recoveryAccount := fun name =>
      if ((db.recovery.staking.accounts.find? name).any fun a => !a.frozen) ∧
          db.recoveryAccount name = "gc-regfund" then
        steemitRecoveryAccount
      else
        db.recoveryAccount name }

def replaceRecovery (oldRecovery newRecovery : AccountName) : RecoveryDatabase :=
  { db with
    recoveryAccount := fun name =>
      if (db.recovery.staking.accounts.find? name).isSome ∧
          db.recoveryAccount name = oldRecovery then
        newRecovery
      else
        db.recoveryAccount name }

open LiberationHardfork in
/-- `liberate_golos_classic`, as far as recovery accounts depend on it. -/
def liberateGolosClassic : RecoveryDatabase :=
  match db.recovery.staking.accounts.find? accRegfund.beneficiary with
  | none => db
  | some _ =>
    accountsForFreeze.foldl (fun db account => db.replaceRecovery account accRegfund.beneficiary) db

end blockEnd

end RecoveryDatabase

end Golos
