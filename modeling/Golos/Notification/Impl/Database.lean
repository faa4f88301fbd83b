import Golos.Proposal.Impl.Evaluators
import Golos.Chain.Impl.Apply

/-!
This module contains the application of transactions with the notifications of their operations, and
the evaluators of the operations on proposals as far as they have to do with these.
-/

namespace Golos

/-- `fc::ripemd160` -/
abbrev TransactionIdType := BitVec 160

/-- `operation_notification` -/
structure OperationNote (O : Type) where
  op : O
  storedInDb : Bool := false
  dbId : Int := 0
  trxId : TransactionIdType := 0
  block : UInt32 := 0
  trxInBlock : UInt32 := 0
  opInTrx : UInt16 := 0
  virtualOp : UInt32 := 0

/-- The members `_current_*` of the database. No undo session restores them. -/
structure CurrentPosition where
  trxId : TransactionIdType := 0
  blockNum : UInt32 := 0
  trxInBlock : UInt16 := 0
  opInTrx : UInt16 := 0
  virtualOp : UInt32 := 0

/-- The objects `D` of the database, which undo sessions restore, and the position. -/
structure Positioned (D : Type) where
  db : D
  current : CurrentPosition := {}

namespace Positioned

variable {D : Type} (s : Positioned D)

def setDb (db : D) : Positioned D :=
  { s with db := db }

def setTrxId (trxId : TransactionIdType) : Positioned D :=
  { s with current.trxId := trxId }

def setOpInTrx (opInTrx : UInt16) : Positioned D :=
  { s with current.opInTrx := opInTrx }

def setVirtualOp (virtualOp : UInt32) : Positioned D :=
  { s with current.virtualOp := virtualOp }

end Positioned

/-- The operation of a transaction in whose course something happens, and whether it does while a
proposed transaction is tried out. -/
structure Place where
  index : Nat
  nested : Bool := false
  deriving DecidableEq

inductive NotificationPhase where
  | pre
  | post
  deriving DecidableEq

structure SentNotification (O : Type) where
  place : Place
  phase : NotificationPhase
  /-- The operation was pushed by the chain, or by a proposal that is executed. -/
  isVirtual : Bool
  note : OperationNote O

inductive ApplicationEvent (O T : Type) where
  | sent (n : SentNotification O)
  /-- `validate_transaction` starts to apply a transaction. -/
  | preApplication (trx : T)

/--
What is left of an evaluator, with the objects of the database as it leaves them. It does anything
to objects, and it calls the functions of the database that have to do with the position. These tell
it what they threw, and it may catch that.
-/
inductive Evaluation (D O T : Type) where
  | done (result : Except Interrupt Unit) (db : D)
  | pushVirtualOperation (op : O) (force : Bool) (db : D)
      (next : Except TransactionException Unit → D → Evaluation D O T)
  | validateTransaction (trx : T) (skip : Skip) (db : D)
      (next : Except TransactionException Unit → D → Evaluation D O T)
  /-- The undo session of `push_proposal` with the operations of the proposal. -/
  | applyProposed (ops : List O) (db : D)
      (next : Except TransactionException Unit → D → Evaluation D O T)

/-- The settings of a node, and what it does to objects apart from the position. -/
structure NotifyingChain (D O T : Type) where
  isProducing : Bool := false
  enablePluginsOnPushTransaction : Bool := true
  skipVirtualOps : Bool := false
  isVirtualOperation : O → Bool
  /-- `trx.id()` -/
  id : T → TransactionIdType
  operations : T → List O
  /-- `_validate_transaction` -/
  validate : T → Skip → D → Except TransactionException Unit
  /-- `_apply_transaction` up to its operations: the search for duplicates, the validation, the
  bandwidth and the record of the transaction. -/
  startTransaction : T → Skip → D → Except TransactionException Unit × D
  evaluate : O → D → Evaluation D O T
  /-- The plugins that are told before the operation, which may number their record of it. -/
  preApplyOperation : OperationNote O → D → Except TransactionException (Bool × Int) × D
  postApplyOperation : OperationNote O → D → Except TransactionException Unit × D

abbrev NotifyingAction (D O T : Type) :=
  Effect (ApplicationEvent O T) Interrupt (Positioned D)

namespace NotifyingAction

variable {D O T : Type}

/-- What an exception leaves to the one who called; other interrupts are not caught. -/
def attempt (x : NotifyingAction D O T Unit) :
    NotifyingAction D O T (Except TransactionException Unit) :=
  Effect.handle (x >>= fun _ => pure (.ok ())) fun interrupt =>
    match interrupt with
    | .exception e => pure (.error e)
    | interrupt => Effect.fail interrupt

/-- Change objects only. -/
def objects {α : Type} (f : D → Except TransactionException α × D) : NotifyingAction D O T α := do
  let s ← Effect.read
  Effect.modify fun s' => s'.setDb (f s.db).2
  Effect.lift ((f s.db).1.mapError .exception)

end NotifyingAction

namespace NotifyingChain

variable {D O T : Type} (c : NotifyingChain D O T)

/-- The members that are set from the position. -/
def position (note : OperationNote O) (current : CurrentPosition) : OperationNote O :=
  { note with
    trxId := current.trxId
    block := current.blockNum
    trxInBlock := current.trxInBlock.toUInt32
    opInTrx := current.opInTrx }

def notifies : Bool :=
  !c.isProducing || c.enablePluginsOnPushTransaction

/-- The notification that the plugins leave. -/
def notifyPreApplyOperation (place : Place) (isVirtual : Bool) (note : OperationNote O) :
    NotifyingAction D O T (OperationNote O) := do
  let s ← Effect.read
  let note := position note s.current
  if c.notifies then
    Effect.note fun _ => .sent ⟨place, .pre, isVirtual, note⟩
    let (storedInDb, dbId) ← NotifyingAction.objects (c.preApplyOperation note)
    pure { note with storedInDb := storedInDb, dbId := dbId }
  else
    pure note

def notifyPostApplyOperation (place : Place) (isVirtual : Bool) (note : OperationNote O) :
    NotifyingAction D O T Unit :=
  if c.notifies then do
    Effect.note fun _ => .sent ⟨place, .post, isVirtual, note⟩
    NotifyingAction.objects (c.postApplyOperation note)
  else
    pure ()

/-- `++_current_virtual_op` -/
def nextVirtualOp : NotifyingAction D O T UInt32 := do
  Effect.modify fun s => s.setVirtualOp (s.current.virtualOp + 1)
  let s ← Effect.read
  pure s.current.virtualOp

def pushVirtualOperation (place : Place) (op : O) (force : Bool) : NotifyingAction D O T Unit :=
  if !force && c.skipVirtualOps then
    pure ()
  else do
    Effect.ensure (c.isVirtualOperation op)
      (.exception (.exception (.assertException "is_virtual_operation(op)")))
    let virtualOp ← nextVirtualOp
    let note ← c.notifyPreApplyOperation place true { op := op, virtualOp := virtualOp }
    c.notifyPostApplyOperation place true note

/-- An operation of a transaction; an exception tells the number that the database counted to. -/
def applyNext (x : NotifyingAction D O T Unit) : NotifyingAction D O T Unit :=
  Effect.handle
    (do
      x
      Effect.modify fun s => s.setOpInTrx (s.current.opInTrx + 1))
    fun interrupt =>
      match interrupt with
      | .exception _ => do
        let s ← Effect.read
        Effect.fail (.exception (.exception (.txInvalidOperation s.current.opInTrx.toNat)))
      | interrupt => Effect.fail interrupt

/-- `_apply_transaction`, told how an operation with its number is applied. -/
def applyTransaction (apply : Nat → O → NotifyingAction D O T Unit) (trx : T) (skip : Skip) :
    NotifyingAction D O T Unit := do
  Effect.modify fun s => (s.setTrxId (c.id trx)).setVirtualOp 0
  NotifyingAction.objects (c.startTransaction trx skip)
  Effect.modify fun s => s.setOpInTrx 0
  (c.operations trx).zipIdx.forM fun (op, index) => applyNext (apply index op)
  Effect.modify fun s => s.setTrxId 0

/-- The steps of the validation that `validate_transaction` does once. -/
def afterValidation (skip : Skip) : Skip :=
  { skip with
    authorityCheck := true
    transactionSignatures := true
    validateOperations := true
    taposCheck := true }

/-- `validate_transaction` with no flag to leave the application out. Its undo session is undone. -/
def validateTransaction (apply : O → NotifyingAction D O T Unit) (trx : T) (skip : Skip) :
    NotifyingAction D O T Unit := do
  let s ← Effect.read
  Effect.lift ((if afterValidation skip = skip then .ok () else c.validate trx skip s.db).mapError
    .exception)
  Effect.note fun _ => .preApplication trx
  Effect.within (fun s => s) (fun before after => after.setDb before.db)
    (c.applyTransaction (fun _ => apply) trx (afterValidation skip))

section run

-- How an operation of an executed proposal and one of a proposed transaction is applied.
variable (place : Place) (applyVirtual applyNested : O → NotifyingAction D O T Unit)

/-- Call a function of the database with the objects that an evaluator left. -/
def call (db : D) (x : NotifyingAction D O T Unit) :
    NotifyingAction D O T (Except TransactionException Unit × D) := do
  Effect.modify fun s => s.setDb db
  let result ← x.attempt
  let s ← Effect.read
  pure (result, s.db)

def run : Evaluation D O T → NotifyingAction D O T Unit
  | .done result db => do
    Effect.modify fun s => s.setDb db
    Effect.lift result
  | .pushVirtualOperation op force db next => do
    let (result, db) ← call db (c.pushVirtualOperation place op force)
    run (next result db)
  | .validateTransaction trx skip db next => do
    let (result, db) ← call db (c.validateTransaction applyNested trx skip)
    run (next result db)
  | .applyProposed ops db next => do
    let (result, db) ← call db
      (Effect.undoOnError (fun before after => after.setDb before.db) (ops.forM applyVirtual))
    run (next result db)

end run

/-- The members of a notification before the position. -/
def newNote (op : O) (isVirtual : Bool) : NotifyingAction D O T (OperationNote O) :=
  if isVirtual then do
    let virtualOp ← nextVirtualOp
    pure { op := op, virtualOp := virtualOp }
  else
    pure { op := op }

/-- `apply_operation`, with the levels of the stack that are left. -/
def applyOperation : Nat → Place → Bool → O → NotifyingAction D O T Unit
  | 0, _, _, _ => Effect.fail .stackOverflow
  | levels + 1, place, isVirtual, op => do
    let note ← newNote op isVirtual
    let note ← c.notifyPreApplyOperation place isVirtual note
    let s ← Effect.read
    c.run place (applyOperation levels place true)
      (applyOperation levels { place with nested := true } false) (c.evaluate op s.db)
    c.notifyPostApplyOperation place isVirtual note

/-- What happens while a transaction is applied that is not proposed. -/
def events (levels : Nat) (trx : T) (skip : Skip) (s : Positioned D) :
    List (ApplicationEvent O T) :=
  (c.applyTransaction (fun index => c.applyOperation levels ⟨index, false⟩ false) trx skip s).notes

end NotifyingChain

open ChainAction

def steemitMaxTimeUntilExpiration : Nat := 60 * 60

/-- `transaction`, which a proposed one is without the references to a block. -/
structure PlainTransaction (O : Type) where
  refBlockNum : UInt16 := 0
  refBlockPrefix : UInt32 := 0
  expiration : Nat
  operations : List (Operation O)

abbrev ProposalEvaluation (W O : Type) :=
  Evaluation (Execution W O) (Operation O) (PlainTransaction O)

variable {W O : Type} (c : Chain W O)

section create

variable (author : AccountName) (title memo : String) (expirationTime : Nat)
  (reviewPeriodTime : Option Nat) (proposedOperations : List (Operation O))

/-- What `proposal_create_evaluator::do_apply` does before it tries the operations out: the approvals
that the proposal requires. -/
def createChecks : ChainAction W O RequiredAuthorities := do
  let e ← Effect.read
  check (e.isProducing → e.createDepth ≤ steemitMaxProposalDepth)
    (.logicException "You can't create more than 2 nested proposals")
  check (e.db.findProposal author title = none) (.objectAlreadyExist "proposal")
  let now := e.db.headBlockTime
  check (now < expirationTime) (.invalidValue "Proposal has already expired on creation.")
  check (expirationTime ≤ now + steemitMaxProposalLifetimeSec)
    (.invalidValue "Proposal expiration time is too far i  n the future.")
  check (reviewPeriodTime.all (now < ·))
    (.invalidValue "Proposal review period has expired on creation.")
  check (reviewPeriodTime.all (· < expirationTime))
    (.invalidValue "Proposal review period must be less than its overall lifetime.")
  let required := c.required proposedOperations
  check (required.other = []) (.internalError "other size > 0")
  let requiredActive := required.active.filter (· ∉ required.owner)
  check (¬(required.posting = [] ↔ required.owner ++ requiredActive = [])) txWithBothPostingActiveOps
  let requiredTotal := c.flatSet (required.owner ++ requiredActive ++ required.posting)
  check (∀ account ∈ requiredTotal, c.hasAccount e.db.world account) (.missingObject "account")
  check (requiredTotal ≠ []) (.internalError "No operations require approvals")
  pure { required with active := requiredActive }

/-- What it does afterwards. -/
def createObjects (required : RequiredAuthorities) : ChainAction W O Unit := do
  let e ← Effect.read
  let id := e.db.nextProposalId
  createProposal
    { id := id
      author := author
      title := title
      memo := memo
      expirationTime := expirationTime
      reviewPeriodTime := reviewPeriodTime
      proposedOperations := proposedOperations
      requiredActiveApprovals := required.active
      requiredOwnerApprovals := required.owner
      requiredPostingApprovals := required.posting }
  (c.flatSet (required.owner ++ required.active ++ required.posting)).forM
    (createRequiredApproval id)

/-- The steps that `proposal_create_evaluator` has validated leave out. -/
def proposedSkip : Skip where
  authorityCheck := true
  transactionSignatures := true
  taposCheck := true

def evaluateCreate (e : Execution W O) : ProposalEvaluation W O :=
  let leave := fun e' : Execution W O => { e' with createDepth := e.createDepth }
  let checks := createChecks c author title expirationTime reviewPeriodTime proposedOperations
    { e with createDepth := e.createDepth + 1 }
  match checks.result with
  | .error interrupt => .done (.error interrupt) (leave checks.state)
  | .ok required =>
    let trx :=
      { expiration := e.db.headBlockTime + steemitMaxTimeUntilExpiration
        operations := proposedOperations }
    .validateTransaction trx proposedSkip checks.state fun result e' =>
      match result with
      | .error ex => .done (.error (.exception ex)) (leave e')
      | .ok _ =>
        let objects := createObjects c author title memo expirationTime reviewPeriodTime
          proposedOperations required e'
        .done objects.result (leave objects.state)

end create

section update

variable (o : ProposalUpdateOperation)

/-- What `proposal_update_evaluator::do_apply` does before it removes or executes the proposal. -/
def updateApprovals : ChainAction W O (ProposalObject O × UpdateOutcome) := do
  let e ← Effect.read
  check (e.isProducing → e.updateDepth ≤ steemitMaxProposalDepth)
    (.logicException "You can't create more than 2 nested proposals")
  match e.db.findProposal o.author o.title with
  | none => throw (.exception (.missingObject "proposal"))
  | some p =>
    Effect.lift ((o.checkApprovals e.db.headBlockTime p).mapError (.exception ∘ .exception))
    Effect.modify fun e =>
      { e with db := { e.db with proposals := e.db.proposals.modify p.id o.changeApprovals } }
    let e ← Effect.read
    let outcome ← Effect.lift ((c.updateOutcome e.db o (o.changeApprovals p)).mapError .exception)
    pure (p, outcome)

def evaluateUpdate (e : Execution W O) : ProposalEvaluation W O :=
  let leave := fun e' : Execution W O => { e' with updateDepth := e.updateDepth }
  let update := updateApprovals c o { e with updateDepth := e.updateDepth + 1 }
  match update.result with
  | .error interrupt => .done (.error interrupt) (leave update.state)
  | .ok (_, .keep) => .done (.ok ()) (leave update.state)
  | .ok (p, .remove) =>
    let removal := remove p.id update.state
    .done removal.result (leave removal.state)
  | .ok (p, .execute) =>
    -- `push_proposal`, whose exceptions are logged
    .applyProposed p.proposedOperations update.state fun result e' =>
      match result with
      | .error _ => .done (.ok ()) (leave e')
      | .ok _ =>
        let removal := tryCatch (remove p.id) (pure ()) e'
        .done removal.result (leave removal.state)

end update

/-- The evaluators of the operations on proposals, and of the others, which may be anything. -/
def evaluateOperation (other : O → Execution W O → ProposalEvaluation W O) :
    Operation O → Execution W O → ProposalEvaluation W O
  | .proposalCreate author title memo expirationTime reviewPeriodTime proposedOperations, e =>
    evaluateCreate c author title memo expirationTime reviewPeriodTime proposedOperations e
  | .proposalUpdate o, e => evaluateUpdate c o e
  | .proposalDelete o, e =>
    let deletion := deleteEvaluator o e
    .done deletion.result deletion.state
  | .other o, e => other o e

end Golos
