import Mathlib.Data.List.Dedup
import Mathlib.Data.List.Sort
import Golos.Lib.CString
import Golos.Lib.Effect
import Golos.Lib.Table
import Golos.Protocol.SignState

/-!
This module contains the operations on proposals, the objects behind them, their evaluators, and the
execution of proposals by a node that applies operations that apply operations.
-/

namespace Golos

open Checked

def steemitMaxProposalDepth : Nat := 2

def steemitMaxProposalLifetimeSec : Nat := 60 * 60 * 24 * 7 * 4

structure ProposalUpdateOperation where
  author : AccountName
  title : String
  activeApprovalsToAdd : List AccountName := []
  activeApprovalsToRemove : List AccountName := []
  ownerApprovalsToAdd : List AccountName := []
  ownerApprovalsToRemove : List AccountName := []
  postingApprovalsToAdd : List AccountName := []
  postingApprovalsToRemove : List AccountName := []
  keyApprovalsToAdd : List PublicKeyType := []
  keyApprovalsToRemove : List PublicKeyType := []
  deriving DecidableEq

structure ProposalDeleteOperation where
  author : AccountName
  title : String
  requester : AccountName
  deriving DecidableEq

/-- An operation, of which those of `O` have nothing to do with proposals. -/
inductive Operation (O : Type) where
  | proposalCreate (author : AccountName) (title memo : String) (expirationTime : Nat)
      (reviewPeriodTime : Option Nat) (proposedOperations : List (Operation O))
  | proposalUpdate (op : ProposalUpdateOperation)
  | proposalDelete (op : ProposalDeleteOperation)
  | other (op : O)

variable {W O : Type}

/-- The proposed operations are kept packed. -/
structure ProposalObject (O : Type) where
  id : Nat
  author : AccountName
  title : String
  memo : String
  expirationTime : Nat
  reviewPeriodTime : Option Nat
  proposedOperations : List (Operation O)
  requiredActiveApprovals : List AccountName
  availableActiveApprovals : List AccountName := []
  requiredOwnerApprovals : List AccountName
  availableOwnerApprovals : List AccountName := []
  requiredPostingApprovals : List AccountName
  availablePostingApprovals : List AccountName := []
  availableKeyApprovals : List PublicKeyType := []

structure RequiredApprovalObject where
  account : AccountName
  proposal : Nat
  deriving DecidableEq

abbrev RequiredApprovalObject.byAccount (r : RequiredApprovalObject) : AccountName × Nat :=
  (r.account, r.proposal)

/-- The part of `database` that proposals live in, and the rest of it. -/
structure ProposalDatabase (W O : Type) where
  world : W
  headBlockTime : Nat
  proposals : Table (ProposalObject.id (O := O)) := .empty
  nextProposalId : Nat := 0
  requiredApprovals : Table RequiredApprovalObject.byAccount := .empty

/-- What the rest of the chain does and says. -/
structure Chain (W O : Type) where
  /-- The elements of a `flat_set`, in its order. -/
  flatSet : List AccountName → List AccountName
  mem_flatSet : ∀ {l name}, name ∈ flatSet l ↔ name ∈ l
  nodup_flatSet : ∀ l, (flatSet l).Nodup
  hasAccount : W → AccountName → Bool
  getters : W → AuthorityGetters
  requiredAuthorities : O → RequiredAuthorities
  /-- The evaluator of the operation at the head block time. -/
  applyOther : O → Nat → W → Except TransactionException Unit × W
  /-- What `_apply_transaction` checks and does before it applies the operations. -/
  beginTransaction : List (Operation O) → Nat → W → Except TransactionException Unit × W

/-- Why an operation is left. -/
inductive Interrupt where
  /-- Any `fc::exception`. -/
  | exception (e : TransactionException)
  /-- A reference is followed to an object that has been removed. -/
  | dangling
  /-- The stack is used up. -/
  | stackOverflow
  deriving DecidableEq

/-- The database, the depths that the two evaluators count, and the proposals in execution. -/
structure Execution (W O : Type) where
  db : ProposalDatabase W O
  isProducing : Bool := false
  createDepth : Nat := 0
  updateDepth : Nat := 0
  /-- The proposals that a call of `push_proposal` on the stack is about. -/
  executing : List Nat := []

/-- `operation_notification` of `pre_apply_operation`, and the state it is sent in. -/
structure OperationNotification (W O : Type) where
  execution : Execution W O
  op : Operation O

abbrev ChainAction (W O : Type) :=
  Effect (OperationNotification W O) Interrupt (Execution W O)

namespace ChainAction

variable {α : Type}

def throw (e : TransactionException) : ChainAction W O α :=
  Effect.fail (.exception e)

def check (p : Prop) [Decidable p] (e : ChainException) : ChainAction W O Unit :=
  Effect.ensure p (.exception (.exception e))

/-- `catch (const fc::exception&)`. -/
def tryCatch (x : ChainAction W O α) (handler : ChainAction W O α) : ChainAction W O α :=
  x.handle fun interrupt =>
    match interrupt with
    | .exception _ => handler
    | interrupt => Effect.fail interrupt

/-- An undo session that is squashed or pushed unless an exception undoes it. -/
def session (x : ChainAction W O α) : ChainAction W O α :=
  x.undoOnError fun before after => { after with db := before.db }

/-- An undo session that is undone in any case. -/
def undoneSession (x : ChainAction W O α) : ChainAction W O α :=
  x.within id fun before after => { after with db := before.db }

end ChainAction

end Golos

namespace Golos

open Checked ChainAction

variable {W O : Type}

namespace ProposalObject

variable (p : ProposalObject O)

/-- The unique key of the index `by_account`, which compares titles with `strcmp_less`. -/
abbrev byAccount : AccountName × String :=
  (p.author, cString p.title)

def hasNoApprovals : Prop :=
  p.availableActiveApprovals = [] ∧ p.availableOwnerApprovals = [] ∧
    p.availablePostingApprovals = [] ∧ p.availableKeyApprovals = []

instance : Decidable p.hasNoApprovals :=
  inferInstanceAs (Decidable (_ ∧ _))

def requiredTotal : List AccountName :=
  p.requiredActiveApprovals ++ p.requiredOwnerApprovals ++ p.requiredPostingApprovals

end ProposalObject

namespace ProposalDatabase

variable (db : ProposalDatabase W O)

def findProposal (author : AccountName) (title : String) : Option (ProposalObject O) :=
  db.proposals.rows.find? fun p => p.byAccount = (author, cString title)

/-- The index `by_expiration`. -/
def byExpiration : List (ProposalObject O) :=
  db.proposals.rows.insertionSort fun p p' => p.expirationTime ≤ p'.expirationTime

/-- The loop of `remove` over the approvals required of `accounts`. -/
def removeApprovals (id : Nat) (accounts : List AccountName) : ProposalDatabase W O :=
  { db with
    requiredApprovals := accounts.foldl (fun t account => t.erase (account, id))
      db.requiredApprovals }

def eraseProposal (id : Nat) : ProposalDatabase W O :=
  { db with proposals := db.proposals.erase id }

end ProposalDatabase

namespace Operation

def activeAuthorities (required : O → RequiredAuthorities) : Operation O → List AccountName
  | .proposalCreate author .. => [author]
  | .proposalUpdate op => op.activeApprovalsToAdd ++ op.activeApprovalsToRemove
  | .proposalDelete op => [op.requester]
  | .other op => (required op).active

def ownerAuthorities (required : O → RequiredAuthorities) : Operation O → List AccountName
  | .proposalUpdate op => op.ownerApprovalsToAdd ++ op.ownerApprovalsToRemove
  | .other op => (required op).owner
  | _ => []

def postingAuthorities (required : O → RequiredAuthorities) : Operation O → List AccountName
  | .proposalUpdate op => op.postingApprovalsToAdd ++ op.postingApprovalsToRemove
  | .other op => (required op).posting
  | _ => []

def otherAuthorities (required : O → RequiredAuthorities) : Operation O → List Authority
  | .proposalUpdate op =>
    let keys := (op.keyApprovalsToAdd ++ op.keyApprovalsToRemove).dedup
    if keys = [] then
      []
    else
      [{ weightThreshold := keys.length, keyAuths := keys.map (·, 1) }]
  | .other op => (required op).other
  | _ => []

end Operation

namespace Chain

variable (c : Chain W O)

/-- `operation_get_required_authorities` of all operations. -/
def required (ops : List (Operation O)) : RequiredAuthorities where
  active := c.flatSet (ops.flatMap (Operation.activeAuthorities c.requiredAuthorities))
  owner := c.flatSet (ops.flatMap (Operation.ownerAuthorities c.requiredAuthorities))
  posting := c.flatSet (ops.flatMap (Operation.postingAuthorities c.requiredAuthorities))
  other := ops.flatMap (Operation.otherAuthorities c.requiredAuthorities)

/-- `proposal_object::verify_authority` -/
def verifyProposal (db : ProposalDatabase W O) (p : ProposalObject O) (toAdd : Approvals) :
    Except TransactionException Unit :=
  verifyAuthority (c.required p.proposedOperations) p.availableKeyApprovals (c.getters db.world)
    steemitMaxSigCheckDepth
    { active := c.flatSet (p.availableActiveApprovals ++ toAdd.active)
      owner := c.flatSet (p.availableOwnerApprovals ++ toAdd.owner)
      posting := c.flatSet (p.availablePostingApprovals ++ toAdd.posting) }

def isAuthorizedToExecute (db : ProposalDatabase W O) (p : ProposalObject O) : Bool :=
  match c.verifyProposal db p {} with
  | .ok _ => true
  | .error e => e.isIrrelevant

end Chain

/-- The loop of `assert_irrelevant_proposal_authority`, with the tries that are left. -/
def assertIrrelevantAuthority (verify : Approvals → Except TransactionException Unit)
    (o : ProposalUpdateOperation) : Nat → Approvals → List PublicKeyType →
      Except TransactionException Unit
  | 0, _, _ => .ok ()
  | tries + 1, toAdd, used =>
    match verify toAdd with
    | .ok _ => .ok ()
    | .error (.txMissingActiveAuth missing usedSignatures) =>
      if toAdd.active ≠ [] then
        .error (.txMissingActiveAuth missing usedSignatures)
      else
        assertIrrelevantAuthority verify o tries { toAdd with active := missing }
          (used ++ usedSignatures)
    | .error (.txMissingOwnerAuth missing usedSignatures) =>
      if toAdd.owner ≠ [] then
        .error (.txMissingOwnerAuth missing usedSignatures)
      else
        assertIrrelevantAuthority verify o tries { toAdd with owner := missing }
          (used ++ usedSignatures)
    | .error (.txMissingPostingAuth missing usedSignatures) =>
      if toAdd.posting ≠ [] then
        .error (.txMissingPostingAuth missing usedSignatures)
      else
        assertIrrelevantAuthority verify o tries { toAdd with posting := missing }
          (used ++ usedSignatures)
    | .error (.txIrrelevantSig unused) =>
      if unused.any fun sig => sig ∈ o.keyApprovalsToAdd ∧ sig ∉ used then
        .error (.txIrrelevantSig unused)
      else
        .ok ()
    | .error (.txIrrelevantApproval unused) =>
      if unused.any fun account =>
          account ∈ o.activeApprovalsToAdd ++ o.ownerApprovalsToAdd ++ o.postingApprovalsToAdd then
        .error (.txIrrelevantApproval unused)
      else
        .ok ()
    | .error e => .error e

namespace ProposalUpdateOperation

variable (o : ProposalUpdateOperation)

/-- The checks of `proposal_update_evaluator` before it changes the proposal. -/
def checkApprovals (now : Nat) (p : ProposalObject O) : Result Unit := do
  ensure (p.reviewPeriodTime.all (now < ·) ∨
      (o.ownerApprovalsToAdd = [] ∧ o.activeApprovalsToAdd = [] ∧ o.postingApprovalsToAdd = [] ∧
        o.keyApprovalsToAdd = []))
    (.logicException
      "This proposal is in it's review period. No new approvals may be added.")
  ensure (o.activeApprovalsToRemove ⊆ p.availableActiveApprovals ∧
      o.ownerApprovalsToRemove ⊆ p.availableOwnerApprovals ∧
      o.postingApprovalsToRemove ⊆ p.availablePostingApprovals ∧
      o.keyApprovalsToRemove ⊆ p.availableKeyApprovals)
    (.logicException "Can't remove the non existing approval")
  ensure (o.activeApprovalsToAdd.all (· ∉ p.availableActiveApprovals) ∧
      o.ownerApprovalsToAdd.all (· ∉ p.availableOwnerApprovals) ∧
      o.postingApprovalsToAdd.all (· ∉ p.availablePostingApprovals) ∧
      o.keyApprovalsToAdd.all (· ∉ p.availableKeyApprovals))
    (.logicException "Can't add already exist approval")

def changeApprovals (p : ProposalObject O) : ProposalObject O :=
  { p with
    availableActiveApprovals := (p.availableActiveApprovals ++ o.activeApprovalsToAdd).filter
      (· ∉ o.activeApprovalsToRemove)
    availableOwnerApprovals := (p.availableOwnerApprovals ++ o.ownerApprovalsToAdd).filter
      (· ∉ o.ownerApprovalsToRemove)
    availablePostingApprovals := (p.availablePostingApprovals ++ o.postingApprovalsToAdd).filter
      (· ∉ o.postingApprovalsToRemove)
    availableKeyApprovals := (p.availableKeyApprovals ++ o.keyApprovalsToAdd).filter
      (· ∉ o.keyApprovalsToRemove) }

end ProposalUpdateOperation

/-- What `proposal_update_evaluator` does with a proposal whose approvals it has changed. -/
inductive UpdateOutcome where
  | keep
  | remove
  | execute
  deriving DecidableEq

def Chain.updateOutcome (c : Chain W O) (db : ProposalDatabase W O) (o : ProposalUpdateOperation)
    (p : ProposalObject O) : Except TransactionException UpdateOutcome :=
  match p.reviewPeriodTime with
  | some reviewPeriodTime =>
    if reviewPeriodTime ≤ db.headBlockTime ∧ p.hasNoApprovals then
      .ok .remove
    else
      .ok .keep
  | none => do
    assertIrrelevantAuthority (c.verifyProposal db p) o 3 {} []
    if c.isAuthorizedToExecute db p then
      .ok .execute
    else
      .ok .keep

/-- `database::remove`; following a reference to a removed proposal is undefined. -/
def remove (id : Nat) : ChainAction W O Unit := do
  let e ← Effect.read
  match e.db.proposals.find? id with
  | none => Effect.fail .dangling
  | some p =>
    Effect.modify fun e => { e with db := (e.db.removeApprovals id p.requiredTotal).eraseProposal id }

section evaluators

-- The application of the operations of a proposal.
variable (c : Chain W O) (apply : Operation O → ChainAction W O Unit)

def pushProposal (id : Nat) : ChainAction W O Unit := do
  let e ← Effect.read
  match e.db.proposals.find? id with
  | none => Effect.fail .dangling
  | some p =>
    Effect.within (fun e => { e with executing := id :: e.executing })
      (fun before after => { after with executing := before.executing })
      (session (p.proposedOperations.forM apply))
    remove id

/-- The operations of a transaction; an exception tells the number of the operation. -/
def applyTransactionOperations (ops : List (Operation O)) : ChainAction W O Unit := do
  let e ← Effect.read
  let (result, world) := c.beginTransaction ops e.db.headBlockTime e.db.world
  Effect.modify fun e => { e with db := { e.db with world := world } }
  Effect.lift (result.mapError .exception)
  ops.zipIdx.forM fun (op, index) =>
    (apply op).mapError fun interrupt =>
      match interrupt with
      | .exception _ => .exception (.exception (.txInvalidOperation index))
      | interrupt => interrupt

/-- `validate_transaction` applies the operations and undoes them. -/
def validateTransaction (ops : List (Operation O)) : ChainAction W O Unit :=
  undoneSession (applyTransactionOperations c apply ops)

def createProposal (p : ProposalObject O) : ChainAction W O Unit := do
  let e ← Effect.read
  check (e.db.findProposal p.author p.title = none) .uniquenessViolated
  match e.db.proposals.emplace p with
  | none => throw (.exception .uniquenessViolated)
  | some proposals =>
    Effect.modify fun e =>
      { e with db := { e.db with proposals := proposals, nextProposalId := p.id + 1 } }

def createRequiredApproval (id : Nat) (account : AccountName) : ChainAction W O Unit := do
  let e ← Effect.read
  match e.db.requiredApprovals.emplace ⟨account, id⟩ with
  | none => throw (.exception .uniquenessViolated)
  | some requiredApprovals =>
    Effect.modify fun e => { e with db := { e.db with requiredApprovals := requiredApprovals } }

/-- The body of `proposal_create_evaluator::do_apply`. -/
def createEvaluator (author : AccountName) (title memo : String) (expirationTime : Nat)
    (reviewPeriodTime : Option Nat) (proposedOperations : List (Operation O)) :
    ChainAction W O Unit := do
  let e ← Effect.read
  check (e.isProducing → e.createDepth ≤ steemitMaxProposalDepth)
    (.logicException "You can't create more than 2 nested proposals")
  check (e.db.findProposal author title = none) (.objectAlreadyExist "proposal")
  let now := e.db.headBlockTime
  check (now < expirationTime) (.invalidValue "Proposal has already expired on creation.")
  check (expirationTime ≤ now + steemitMaxProposalLifetimeSec)
    (.invalidValue "Proposal expiration time is too far i  n the future.")
  check (reviewPeriodTime.all (now < ·))
    (.invalidValue "Proposal review period has expired on creation.")
  check (reviewPeriodTime.all (· < expirationTime))
    (.invalidValue "Proposal review period must be less than its overall lifetime.")
  let required := c.required proposedOperations
  check (required.other = []) (.internalError "other size > 0")
  -- Owner authority implies active authority.
  let requiredActive := required.active.filter (· ∉ required.owner)
  check (¬(required.posting = [] ↔ required.owner ++ requiredActive = [])) txWithBothPostingActiveOps
  let requiredTotal := c.flatSet (required.owner ++ requiredActive ++ required.posting)
  check (∀ account ∈ requiredTotal, c.hasAccount e.db.world account) (.missingObject "account")
  check (requiredTotal ≠ []) (.internalError "No operations require approvals")
  validateTransaction c apply proposedOperations
  let e ← Effect.read
  let id := e.db.nextProposalId
  createProposal
    { id := id
      author := author
      title := title
      memo := memo
      expirationTime := expirationTime
      reviewPeriodTime := reviewPeriodTime
      proposedOperations := proposedOperations
      requiredActiveApprovals := requiredActive
      requiredOwnerApprovals := required.owner
      requiredPostingApprovals := required.posting }
  requiredTotal.forM (createRequiredApproval id)

def updateEvaluator (o : ProposalUpdateOperation) : ChainAction W O Unit := do
  let e ← Effect.read
  check (e.isProducing → e.updateDepth ≤ steemitMaxProposalDepth)
    (.logicException "You can't create more than 2 nested proposals")
  match e.db.findProposal o.author o.title with
  | none => throw (.exception (.missingObject "proposal"))
  | some p =>
    Effect.lift ((o.checkApprovals e.db.headBlockTime p).mapError (.exception ∘ .exception))
    Effect.modify fun e =>
      { e with
        db :=
          { e.db with
            proposals := e.db.proposals.modify p.id o.changeApprovals fun p => (rfl : p.id = p.id) } }
    let e ← Effect.read
    match ← Effect.lift ((c.updateOutcome e.db o (o.changeApprovals p)).mapError .exception) with
    | .keep => pure ()
    | .remove => remove p.id
    -- A failure is logged, to be tried again when the proposal expires.
    | .execute => tryCatch (pushProposal apply p.id) (pure ())

def deleteEvaluator (o : ProposalDeleteOperation) : ChainAction W O Unit := do
  let e ← Effect.read
  match e.db.findProposal o.author o.title with
  | none => throw (.exception (.missingObject "proposal"))
  | some p =>
    check (p.author = o.requester ∨ o.requester ∈ p.requiredTotal)
      (.logicException "Provided authority is not authoritative for this proposal.")
    remove p.id

def otherEvaluator (o : O) : ChainAction W O Unit := do
  let e ← Effect.read
  let (result, world) := c.applyOther o e.db.headBlockTime e.db.world
  Effect.modify fun e => { e with db := { e.db with world := world } }
  Effect.lift (result.mapError .exception)

end evaluators

variable (c : Chain W O)

/-- `apply_operation`, with the levels of the stack that are left. -/
def applyOperation : Nat → Operation O → ChainAction W O Unit
  | 0, _ => Effect.fail .stackOverflow
  | levels + 1, op => do
    Effect.note fun e => ⟨e, op⟩
    match op with
    | .proposalCreate author title memo expirationTime reviewPeriodTime proposedOperations =>
      Effect.within (fun e => { e with createDepth := e.createDepth + 1 })
        (fun before after => { after with createDepth := before.createDepth })
        (createEvaluator c (applyOperation levels) author title memo expirationTime reviewPeriodTime
          proposedOperations)
    | .proposalUpdate o =>
      Effect.within (fun e => { e with updateDepth := e.updateDepth + 1 })
        (fun before after => { after with updateDepth := before.updateDepth })
        (updateEvaluator c (applyOperation levels) o)
    | .proposalDelete o => deleteEvaluator o
    | .other o => otherEvaluator c o

/-- `clear_expired_proposals`, with the turns of the loop that are left. -/
def clearExpiredProposals (levels : Nat) : Nat → ChainAction W O Unit
  | 0 => Effect.fail .stackOverflow
  | turns + 1 => do
    let e ← Effect.read
    match e.db.byExpiration with
    | [] => pure ()
    | p :: _ =>
      if p.expirationTime ≤ e.db.headBlockTime then
        let pushed ← tryCatch
          (do
            if c.isAuthorizedToExecute e.db p then
              pushProposal (applyOperation c levels) p.id
              pure true
            else
              pure false)
          (pure false)
        if !pushed then
          remove p.id
        clearExpiredProposals levels turns
      else
        pure ()

end Golos
