import Golos.Lib.Transition
import Golos.Staking.Run

/-!
This module contains the freezing of inactive accounts, the transfers that end it, and the other
operations that change the authorities of an account.
-/

namespace Golos.Freezing

open Checked

def steemitBlocksPerHour : Nat := 60 * 60 / 3

def forceFreezeStop : Nat := steemitBlocksPerHour * 6

def systemAccounts : List AccountName :=
  ["cyberfounder", "miners", nullAccount, "temp", workerPoolAccount, "oauth",
    steemitRegistratorAccount, "notify"]

inductive AuthorityRole where
  | owner
  | active
  | posting
  deriving DecidableEq

/-- The authorities of an account. -/
structure Authorities where
  owner : Authority := {}
  active : Authority := {}
  posting : Authority := {}
  deriving DecidableEq

namespace Authorities

def get (a : Authorities) : AuthorityRole → Authority
  | .owner => a.owner
  | .active => a.active
  | .posting => a.posting

def set (a : Authorities) (role : AuthorityRole) (auth : Authority) : Authorities :=
  match role with
  | .owner => { a with owner := auth }
  | .active => { a with active := auth }
  | .posting => { a with posting := auth }

/-- No authority that anyone could satisfy. -/
def blank : Authorities where
  owner := { weightThreshold := 1 }
  active := { weightThreshold := 1 }
  posting := { weightThreshold := 1 }

end Authorities

/-- The part of `account_object` besides what the ledger has of it. -/
structure AccountObject where
  name : AccountName
  vestingShares : ℤ := 0
  provedHf : Nat := 0
  frozen : Bool := false
  lastAccountRecovery : Nat := 0
  deriving DecidableEq

structure AccountAuthorityObject extends Authorities where
  account : AccountName
  lastOwnerUpdate : Nat := 0
  deriving DecidableEq

structure AccountFreezeObject extends Authorities where
  account : AccountName
  hardfork : Nat
  frozen : Nat
  deriving DecidableEq

/-- The part of `database` that freezing reads and writes. The last three fields only record
what happens: the examinations with the number of the hardfork, the authorities in force at the last
freezing of an account, and which of them were written since. -/
structure FreezingDatabase where
  ledger : Ledger := {}
  accounts : Table AccountObject.name := .empty
  authorities : Table AccountAuthorityObject.account := .empty
  freezes : Table AccountFreezeObject.account := .empty
  requests : Table AccountRecoveryRequestObject.accountToRecover := .empty
  ownerAuthorityHistory : List OwnerAuthorityHistoryObject := []
  lastHardfork : Nat := 0
  hf27AppliedBlock : Nat := 0
  headBlockNum : Nat := 0
  headBlockTime : Nat := 0
  accountCreationFee : Asset := ⟨1, steemSymbol⟩
  /-- `is_blocking(account, blocking) != 0` -/
  isBlocking : AccountName → AccountName → Bool := fun _ _ => false
  examined : List (AccountName × Nat) := []
  inForce : AccountName → Authorities := fun _ => {}
  changed : AccountName → AuthorityRole → Bool := fun _ _ => false

structure TransferOperation where
  fromAccount : AccountName
  toAccount : AccountName
  amount : Asset
  memo : String

structure AccountUpdateOperation where
  account : AccountName
  owner : Option Authority := none
  active : Option Authority := none
  posting : Option Authority := none

namespace FreezingDatabase

variable (db : FreezingDatabase)

def hasHardfork (hardfork : Nat) : Prop :=
  hardfork ≤ db.lastHardfork

instance (hardfork : Nat) : Decidable (db.hasHardfork hardfork) :=
  inferInstanceAs (Decidable (_ ≤ _))

def getAccount (name : AccountName) : Result AccountObject :=
  get (db.accounts.find? name) (.missingObject "account")

def getAuthority (name : AccountName) : Result AccountAuthorityObject :=
  get (db.authorities.find? name) (.missingObject "authority")

def checkAccountsExist (a : Authority) : Result Unit :=
  a.accountAuths.forM fun x => do
    let _ ← db.getAccount x.1
    pure ()

/-- Write one authority of an account. -/
def setAuthority (name : AccountName) (role : AuthorityRole) (auth : Authority) :
    FreezingDatabase :=
  { db with
    authorities := db.authorities.modify name fun a =>
      { a with toAuthorities := a.toAuthorities.set role auth }
    changed := fun n r => db.changed n r || (n = name && r = role) }

def updateOwnerAuthority (account : AccountName) (ownerAuthority : Authority) :
    Result FreezingDatabase := do
  let auth ← db.getAuthority account
  let history :=
    if steemitOwnerAuthHistoryTrackingStartBlockNum ≤ db.headBlockNum then
      db.ownerAuthorityHistory ++ [⟨account, auth.owner, db.headBlockTime⟩]
    else
      db.ownerAuthorityHistory
  let db := db.setAuthority account .owner ownerAuthority
  pure
    { db with
      ownerAuthorityHistory := history
      authorities := db.authorities.modify account fun a =>
        { a with lastOwnerUpdate := db.headBlockTime } }

/-- What every operation that makes an account does to the objects of it. -/
def createAccount (name : AccountName) (auth : Authorities) (lastOwnerUpdate : Nat) :
    Result FreezingDatabase := do
  let ledgerAccounts ← get (db.ledger.accounts.emplace { name := name }) .uniquenessViolated
  let accounts ← get (db.accounts.emplace
    { name := name
      provedHf := if db.hasHardfork 27 then db.lastHardfork else 0 }) .uniquenessViolated
  let authorities ← get (db.authorities.emplace
    { toAuthorities := auth
      account := name
      lastOwnerUpdate := lastOwnerUpdate }) .uniquenessViolated
  pure
    { db with
      ledger := { db.ledger with accounts := ledgerAccounts }
      accounts := accounts
      authorities := authorities }

section freezing

def hfLongAgo : Bool :=
  forceFreezeStop < (db.headBlockNum + 2 ^ 32 - db.hf27AppliedBlock) % 2 ^ 32

def isInactive (acc : AccountObject) : Result Bool := do
  if acc.name ∈ systemAccounts then
    pure false
  else if db.lastHardfork = 27 then do
    let a ← db.ledger.getAccount acc.name
    pure (a.balance < 100000 && acc.vestingShares < 285000000000)
  else
    pure false

/-- One turn of the loop of `process_account_freezing`. -/
def examine (acc : AccountObject) : Result FreezingDatabase := do
  let inactive ← db.isInactive acc
  let db :=
    { db with
      accounts := db.accounts.modify acc.name fun a =>
        { a with provedHf := db.lastHardfork, frozen := inactive }
      examined := db.examined ++ [(acc.name, db.lastHardfork)] }
  if inactive then do
    let auth ← db.getAuthority acc.name
    let freezes ← get (db.freezes.emplace
      { toAuthorities := auth.toAuthorities
        account := acc.name
        frozen := db.headBlockTime
        hardfork := db.lastHardfork }) .uniquenessViolated
    pure
      { db with
        freezes := freezes
        authorities := db.authorities.modify acc.name fun a =>
          { a with toAuthorities := .blank }
        inForce := Function.update db.inForce acc.name auth.toAuthorities
        changed := Function.update db.changed acc.name fun _ => false }
  else
    pure db

/-- `process_account_freezing`, told the index `by_proved`. -/
def processAccountFreezing (byProved : List AccountObject) : Result FreezingDatabase :=
  if db.hasHardfork 27 ∧ ¬db.hfLongAgo then
    ((byProved.takeWhile fun acc => !acc.frozen && acc.provedHf < db.lastHardfork).take 100).foldlM
      examine db
  else
    pure db

def unfreeze (name : AccountName) : Result FreezingDatabase := do
  let fr ← get (db.freezes.find? name) (.missingObject "account_freeze")
  let _ ← db.getAuthority name
  pure
    { db with
      accounts := db.accounts.modify name fun a =>
        { a with frozen := false, provedHf := db.lastHardfork }
      authorities := db.authorities.modify name fun a =>
        { a with toAuthorities := fr.toAuthorities }
      freezes := db.freezes.erase name }

end freezing

section evaluators

/-- The check of an authority that an operation may leave out. -/
def checkGiven (auth : Option Authority) : Result Unit :=
  match auth with
  | some auth => db.checkAccountsExist auth
  | none => pure ()

/-- The write of an authority that an operation may leave out. -/
def setGiven (name : AccountName) (role : AuthorityRole) (auth : Option Authority) :
    FreezingDatabase :=
  match auth with
  | some auth => db.setAuthority name role auth
  | none => db

/-- The part of `account_update_evaluator` for the owner authority. -/
def updateOwner (o : AccountUpdateOperation) (accountAuth : AccountAuthorityObject) :
    Result FreezingDatabase :=
  match o.owner with
  | some owner => do
    ensure (db.hasHardfork 11 →
        accountAuth.lastOwnerUpdate + steemitOwnerUpdateLimit < db.headBlockTime)
      (.assertException "Owner authority can only be updated once an hour.")
    db.checkGiven o.owner
    db.updateOwnerAuthority o.account owner
  | none => pure db

def accountUpdate (o : AccountUpdateOperation) : Result FreezingDatabase := do
  let _ ← db.getAccount o.account
  let accountAuth ← db.getAuthority o.account
  let db ← db.updateOwner o accountAuth
  db.checkGiven o.active
  db.checkGiven o.posting
  pure ((db.setGiven o.account .active o.active).setGiven o.account .posting o.posting)

/-- `recover_account_evaluator`, of which the withdrawal of vesting is another matter. -/
def recoverAccount (o : RecoverAccountOperation) : Result FreezingDatabase := do
  let account ← db.getAccount o.accountToRecover
  ensure (db.hasHardfork 12 →
      account.lastAccountRecovery + steemitOwnerUpdateLimit < db.headBlockTime)
    (.assertException "Owner authority can only be updated once an hour.")
  let request ← get (db.requests.find? o.accountToRecover)
    (.assertException "There are no active recovery requests for this account.")
  ensure (request.newOwnerAuthority = o.newOwnerAuthority)
    (.assertException "New owner authority does not match recovery request.")
  ensure (db.ownerAuthorityHistory.any fun hist =>
      hist.account = o.accountToRecover ∧ hist.previousOwnerAuthority = o.recentOwnerAuthority)
    (.assertException "Recent authority not found in authority history.")
  let db := { db with requests := db.requests.erase o.accountToRecover }
  let db ← db.updateOwnerAuthority o.accountToRecover o.newOwnerAuthority
  pure
    { db with
      accounts := db.accounts.modify o.accountToRecover fun a =>
        { a with lastAccountRecovery := db.headBlockTime } }

/-- What the memo of a transfer to the registrator says of the new account; `readKey` reads a public
key. -/
def readMemo (readKey : String → Result PublicKeyType) (memo : String) :
    Result (AccountName × PublicKeyType) := do
  match memo.splitOn ":" with
  | [regAcc, key] => do
    validateAccountName regAcc
    ensure (db.accounts.find? regAcc = none) (.objectAlreadyExist "account")
    let pubKey ← readKey key
    pure (regAcc, pubKey)
  | _ =>
    throw (.invalidValue "Memo for newacc should have format like theaccname:GLSPUBLICKEY")

/-- The end of `transfer_evaluator` for a frozen receiver. -/
def transferUnfreezing (receiver : AccountName) (amount : Asset) : Result FreezingDatabase := do
  let enough ← db.accountCreationFee.le amount
  let (db, amount) ←
    if enough then do
      let db ← db.unfreeze receiver
      let ledger ← db.ledger.adjustBalance workerPoolAccount db.accountCreationFee
      let amount ← amount.sub db.accountCreationFee
      pure ({ db with ledger := ledger }, amount)
    else
      pure (db, amount)
  if 0 < amount.amount then do
    let ledger ← db.ledger.adjustBalance receiver amount
    pure { db with ledger := ledger }
  else
    pure db

/-- `transfer_evaluator`, without the vesting that is made for a new account. -/
def transfer (readKey : String → Result PublicKeyType) (o : TransferOperation) :
    Result FreezingDatabase := do
  let fromAccount ← db.ledger.getAccount o.fromAccount
  let toAccount ← db.getAccount o.toAccount
  ensure (db.hasHardfork 27 → ¬db.isBlocking o.toAccount o.fromAccount)
    (.invalidValue "You are blocked by user, and cannot bypass it with money in that case")
  if db.hasHardfork 27 ∧ o.toAccount = steemitRegistratorAccount then do
    let (regAcc, pubKey) ← db.readMemo readKey o.memo
    ensure (o.amount.symbol = steemSymbol ∧ db.accountCreationFee.amount ≤ o.amount.amount)
      (.invalidValue "amount must be GOLOS and at least account_creation_fee")
    db.ledger.checkBalance fromAccount o.amount
    let debit ← o.amount.neg
    let ledger ← db.ledger.adjustBalance o.fromAccount debit
    let auth : Authority := { weightThreshold := 1, keyAuths := [(pubKey, 1)] }
    createAccount { db with ledger := ledger } regAcc ⟨auth, auth, auth⟩ 0
  else do
    db.ledger.checkBalance fromAccount o.amount
    let debit ← o.amount.neg
    let ledger ← db.ledger.adjustBalance o.fromAccount debit
    let db := { db with ledger := ledger }
    if db.hasHardfork 27 ∧ toAccount.frozen ∧ o.amount.symbol = steemSymbol then
      db.transferUnfreezing o.toAccount o.amount
    else do
      let ledger ← db.ledger.adjustBalance o.toAccount o.amount
      pure { db with ledger := ledger }

end evaluators

/-- `apply_hardfork`; what a hardfork does to authorities is told apart. -/
def applyHardfork : FreezingDatabase :=
  { db with
    lastHardfork := db.lastHardfork + 1
    hf27AppliedBlock :=
      if db.lastHardfork + 1 = 27 then db.headBlockNum else db.hf27AppliedBlock }

end FreezingDatabase

inductive FreezingEvent where
  | transfer (o : TransferOperation)
  | accountUpdate (o : AccountUpdateOperation)
  | recoverAccount (o : RecoverAccountOperation)
  | createAccount (name : AccountName) (auth : Authorities) (lastOwnerUpdate : Nat)
  | processAccountFreezing
  | applyHardfork
  /-- The hardforks and the transit that write authorities. -/
  | setAuthority (name : AccountName) (role : AuthorityRole) (auth : Authority)
  /-- Everything else: passing blocks, other operations. -/
  | other

namespace FreezingDatabase

/-- The index `by_proved`, in which equal keys may stand in any order. -/
structure IsByProved (db : FreezingDatabase) (byProved : List AccountObject) : Prop where
  perm : byProved.Perm db.accounts.rows
  sorted : byProved.Pairwise fun a a' =>
    a.frozen < a'.frozen ∨ (a.frozen = a'.frozen ∧ a.provedHf ≤ a'.provedHf)

/-- No authority and no freezing is different. -/
structure OtherChange (db db' : FreezingDatabase) : Prop where
  accounts : ∃ f : AccountObject → AccountObject,
    (∀ a, (f a).name = a.name ∧ (f a).provedHf = a.provedHf ∧ (f a).frozen = a.frozen) ∧
    db'.accounts.rows = db.accounts.rows.map f
  authorities : db'.authorities = db.authorities
  freezes : db'.freezes = db.freezes
  lastHardfork : db'.lastHardfork = db.lastHardfork
  examined : db'.examined = db.examined
  inForce : db'.inForce = db.inForce
  changed : db'.changed = db.changed

def Step (readKey : String → Result PublicKeyType) (db : FreezingDatabase) :
    FreezingEvent → FreezingDatabase → Prop
  | .transfer o, db' => db.transfer readKey o = .ok db'
  | .accountUpdate o, db' => db.accountUpdate o = .ok db'
  | .recoverAccount o, db' => db.recoverAccount o = .ok db'
  | .createAccount name auth lastOwnerUpdate, db' =>
    db.createAccount name auth lastOwnerUpdate = .ok db'
  | .processAccountFreezing, db' =>
    ∃ byProved, db.IsByProved byProved ∧ db.processAccountFreezing byProved = .ok db'
  | .applyHardfork, db' => db' = db.applyHardfork
  | .setAuthority name role auth, db' => db' = db.setAuthority name role auth
  | .other, db' => db.OtherChange db'

/-- A chain before its first hardfork. -/
structure Initial (db : FreezingDatabase) : Prop where
  accounts : ∀ a ∈ db.accounts.rows, a.frozen = false ∧ a.provedHf = 0
  freezes : db.freezes.rows = []
  lastHardfork : db.lastHardfork = 0
  examined : db.examined = []

end FreezingDatabase

def freezingSystem (readKey : String → Result PublicKeyType) :
    TransitionSystem FreezingDatabase FreezingEvent where
  initial := FreezingDatabase.Initial
  step := FreezingDatabase.Step readKey

end Golos.Freezing
