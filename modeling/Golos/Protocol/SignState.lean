import Mathlib.Data.List.AList
import Golos.Protocol.Types

/-!
This module contains the check of the authorities that a transaction or a proposal requires against
its signatures and approvals.
-/

namespace Golos

open Checked

/-- `transaction_exception` and what it is derived to, and any other exception. -/
inductive TransactionException where
  | txMissingActiveAuth (missingAccounts : List AccountName) (usedSignatures : List PublicKeyType)
  | txMissingOwnerAuth (missingAccounts : List AccountName) (usedSignatures : List PublicKeyType)
  | txMissingPostingAuth (missingAccounts : List AccountName) (usedSignatures : List PublicKeyType)
  | txMissingOtherAuth (missingAuths : List Authority)
  | txIrrelevantSig (unusedSignatures : List PublicKeyType)
  | txIrrelevantApproval (unusedApprovals : List AccountName)
  | exception (e : ChainException)
  deriving DecidableEq

namespace TransactionException

/-- The derived classes of `tx_missing_authority`. -/
def isMissingAuthority : TransactionException → Bool
  | .txMissingActiveAuth .. => true
  | .txMissingOwnerAuth .. => true
  | .txMissingPostingAuth .. => true
  | .txMissingOtherAuth .. => true
  | _ => false

/-- The last step of `verify_authority` failed. -/
def isIrrelevant : TransactionException → Bool
  | .txIrrelevantSig .. => true
  | .txIrrelevantApproval .. => true
  | _ => false

end TransactionException

def txWithBothPostingActiveOps : ChainException :=
  .logicException
    "Can't combine operations required posting authority and active or owner authority"

def steemitTempAccount : AccountName := "temp"

def steemitMaxSigCheckDepth : Nat := 2

/-- An authority of an account, or the exception that there is no such account. -/
abbrev AuthorityGetter :=
  AccountName → Result Authority

/-- The flat maps are keyed lists whose order says nothing. -/
structure SignState where
  availableKeys : List PublicKeyType
  providedSignatures : AList fun _ : PublicKeyType => Bool
  unusedSignatures : List PublicKeyType := []
  usedSignatures : List PublicKeyType := []
  approvedBy : AList fun _ : AccountName => Bool
  unusedApprovals : List AccountName := []

/-- A check answers and may mark signatures and approvals on the way. -/
abbrev AuthorityCheck :=
  SignState → Result (Bool × SignState)

namespace SignState

/-- The constructor. -/
def init (sigs keys : List PublicKeyType) : SignState where
  availableKeys := keys
  providedSignatures := sigs.foldl (fun m key => m.insert key false) ∅
  approvedBy := (∅ : AList fun _ : AccountName => Bool).insert steemitTempAccount true

def approve (s : SignState) (id : AccountName) (used : Bool) : SignState :=
  { s with approvedBy := s.approvedBy.insert id used }

def approveAll (s : SignState) (ids : List AccountName) : SignState :=
  ids.foldl (fun s id => s.approve id false) s

def signedBy (s : SignState) (k : PublicKeyType) : Bool × SignState :=
  if k ∈ s.providedSignatures ∨ k ∈ s.availableKeys then
    (true, { s with providedSignatures := s.providedSignatures.insert k true })
  else
    (false, s)

/-- The loop over `key_auths`; `total` is a `uint32_t`. -/
def checkKeys (threshold : Nat) : List (PublicKeyType × Nat) → Nat → SignState →
    Bool × Nat × SignState
  | [], total, s => (false, total, s)
  | k :: keyAuths, total, s =>
    let (signed, s) := s.signedBy k.1
    if signed then
      let total := (total + k.2) % 2 ^ 32
      if threshold ≤ total then
        (true, total, s)
      else
        checkKeys threshold keyAuths total s
    else
      checkKeys threshold keyAuths total s

/-- The loop over `account_auths`. At the greatest depth there is no check of other accounts. -/
def checkAccounts (threshold : Nat) (check : Option (AccountName → AuthorityCheck)) :
    List (AccountName × Nat) → Nat → AuthorityCheck
  | [], total, s => pure (threshold ≤ total, s)
  | a :: accountAuths, total, s =>
    if a.1 ∈ s.approvedBy then
      let total := (total + a.2) % 2 ^ 32
      if threshold ≤ total then
        pure (true, s)
      else
        checkAccounts threshold check accountAuths total s
    else
      match check with
      | none => checkAccounts threshold check accountAuths total s
      | some checkAccount => do
        let (approved, s) ← checkAccount a.1 s
        if approved then
          let s := s.approve a.1 true
          let total := (total + a.2) % 2 ^ 32
          if threshold ≤ total then
            pure (true, s)
          else
            checkAccounts threshold check accountAuths total s
        else
          checkAccounts threshold check accountAuths total s

/-- The body of `check_authority`. -/
def checkAuths (check : Option (AccountName → AuthorityCheck)) (auth : Authority) :
    AuthorityCheck := fun s =>
  let (reached, total, s) := checkKeys auth.weightThreshold auth.keyAuths 0 s
  if reached then
    pure (true, s)
  else
    checkAccounts auth.weightThreshold check auth.accountAuths total s

/-- The check of an authority, with the number of levels left down to `max_recursion`. -/
def checkAuthority (getActive : AuthorityGetter) : Nat → Authority → AuthorityCheck
  | 0 => checkAuths none
  | levels + 1 => checkAuths <| some fun id s => do
    let auth ← getActive id
    checkAuthority getActive levels auth s

/-- The check of the authority that a getter has for an account. -/
def checkAuthorityOf (getActive : AuthorityGetter) (maxRecursion : Nat) (get : AuthorityGetter)
    (id : AccountName) : AuthorityCheck := fun s => do
  let auth ← get id
  checkAuthority getActive maxRecursion auth s

def checkAccount (getActive : AuthorityGetter) (maxRecursion : Nat) (id : AccountName) :
    AuthorityCheck := fun s =>
  if id ∈ s.approvedBy then
    pure (true, s.approve id true)
  else
    checkAuthorityOf getActive maxRecursion getActive id s

def removeUnusedSignatures (s : SignState) : SignState :=
  let used := s.providedSignatures.entries.filter fun sig => sig.2
  let unused := s.providedSignatures.entries.filter fun sig => !sig.2
  { s with
    usedSignatures := used.map Sigma.fst
    unusedSignatures := unused.map Sigma.fst
    providedSignatures :=
      (unused.map Sigma.fst).foldl (fun m sig => m.erase sig) s.providedSignatures }

def filterUnusedApprovals (s : SignState) : SignState :=
  let unused := s.approvedBy.entries.filter fun approval => !approval.2
  { s with unusedApprovals := unused.map Sigma.fst }

def assertUnusedApprovals (s : SignState) : Except TransactionException Unit := do
  let s := s.removeUnusedSignatures
  ensure (s.unusedSignatures = []) (.txIrrelevantSig s.unusedSignatures)
  let s := s.filterUnusedApprovals
  ensure (s.unusedApprovals = []) (.txIrrelevantApproval s.unusedApprovals)

end SignState

/-- `||` of checks. -/
def AuthorityCheck.or (first second : AuthorityCheck) : AuthorityCheck := fun s => do
  let (approved, s) ← first s
  if approved then
    pure (true, s)
  else
    second s

/-- The loops that collect what is missing. -/
def AuthorityCheck.missing {α : Type} (check : α → AuthorityCheck) : List α → SignState →
    Result (List α × SignState)
  | [], s => pure ([], s)
  | a :: as, s => do
    let (approved, s) ← check a s
    let (missing, s) ← AuthorityCheck.missing check as s
    pure (if approved then missing else a :: missing, s)

/--
What `operation_get_required_authorities` collects from the operations. The flat sets are lists in
the order of the sets.
-/
structure RequiredAuthorities where
  active : List AccountName := []
  owner : List AccountName := []
  posting : List AccountName := []
  other : List Authority := []
  deriving DecidableEq

structure AuthorityGetters where
  getActive : AuthorityGetter
  getOwner : AuthorityGetter
  getPosting : AuthorityGetter

structure Approvals where
  active : List AccountName := []
  owner : List AccountName := []
  posting : List AccountName := []
  deriving DecidableEq

namespace SignState

variable (g : AuthorityGetters) (maxRecursion : Nat)

def checkPosting (id : AccountName) : AuthorityCheck :=
  (checkAccount g.getPosting maxRecursion id).or <|
    (checkAuthorityOf g.getPosting maxRecursion g.getActive id).or <|
      checkAuthorityOf g.getPosting maxRecursion g.getOwner id

def checkActive (id : AccountName) : AuthorityCheck :=
  (checkAccount g.getActive maxRecursion id).or <|
    checkAuthorityOf g.getActive maxRecursion g.getOwner id

def checkOwner (ownerApprovals : List AccountName) (id : AccountName) : AuthorityCheck := fun s => do
  let (approved, s) ←
    if id ∈ ownerApprovals then
      pure (true, s)
    else
      checkAuthorityOf g.getActive maxRecursion g.getOwner id s
  pure (approved, if approved then s.approve id true else s)

end SignState

def TransactionException.lift {α : Type} (x : Result α) : Except TransactionException α :=
  x.mapError .exception

def verifyAuthority (required : RequiredAuthorities) (sigs : List PublicKeyType)
    (g : AuthorityGetters) (maxRecursion : Nat) (approvals : Approvals) :
    Except TransactionException Unit := do
  if required.posting ≠ [] then
    ensure (required.active = [] ∧ required.owner = [] ∧ required.other = [])
      (.exception txWithBothPostingActiveOps)
    let s := (SignState.init sigs []).approveAll approvals.posting
    let (missingAccounts, s) ← TransactionException.lift <|
      AuthorityCheck.missing (SignState.checkPosting g maxRecursion) required.posting s
    ensure (missingAccounts = [])
      (.txMissingPostingAuth missingAccounts s.removeUnusedSignatures.usedSignatures)
    s.assertUnusedApprovals
  else
    let s := ((SignState.init sigs []).approveAll approvals.active).approveAll approvals.owner
    let (missingAuths, s) ← TransactionException.lift <|
      AuthorityCheck.missing (SignState.checkAuthority g.getActive maxRecursion) required.other s
    ensure (missingAuths = []) (.txMissingOtherAuth missingAuths)
    let (missingAccounts, s) ← TransactionException.lift <|
      AuthorityCheck.missing (SignState.checkActive g maxRecursion) required.active s
    ensure (missingAccounts = [])
      (.txMissingActiveAuth missingAccounts s.removeUnusedSignatures.usedSignatures)
    let (missingAccounts, s) ← TransactionException.lift <|
      AuthorityCheck.missing (SignState.checkOwner g maxRecursion approvals.owner) required.owner s
    ensure (missingAccounts = [])
      (.txMissingOwnerAuth missingAccounts s.removeUnusedSignatures.usedSignatures)
    s.assertUnusedApprovals

end Golos
