import Golos.Lib.Transition
import Golos.Proposal.Impl.Evaluators

/-!
This module contains the runs of the chain as proposals see them, and the operations that do harm to
a proposal while it is being executed.
-/

namespace Golos

variable {W O : Type} (c : Chain W O)

/-- Apart from an operation, nothing is being executed. -/
def ProposalDatabase.start (db : ProposalDatabase W O) (isProducing : Bool) : Execution W O where
  db := db
  isProducing := isProducing

/-- The database without the proposal and without the approvals that are required for it. -/
def ProposalDatabase.withoutProposal (db : ProposalDatabase W O) (id : Nat) :
    ProposalDatabase W O :=
  { db with
    proposals := db.proposals.erase id
    requiredApprovals := db.requiredApprovals.filter (·.proposal ≠ id) }

/--
Every operation of the proposal was applied, in order, the proposal still existed then, and it and
its required approvals are all that was removed.
-/
def Executed (apply : Operation O → ChainAction W O Unit) (e : Execution W O)
    (p : ProposalObject O) (e' : Execution W O) : Prop :=
  ∃ e₁, (p.proposedOperations.forM apply { e with executing := p.id :: e.executing }).result =
      .ok () ∧
    (p.proposedOperations.forM apply { e with executing := p.id :: e.executing }).state = e₁ ∧
    (e₁.db.proposals.find? p.id).isSome ∧ e'.db = e₁.db.withoutProposal p.id

/-- The proposal is executed, or an exception leaves the database as it was. -/
def AllOrNothing (apply : Operation O → ChainAction W O Unit) (e : Execution W O)
    (p : ProposalObject O) : Prop :=
  ((pushProposal apply p.id e).result = .ok () ∧
      Executed apply e p (pushProposal apply p.id e).state) ∨
    ∃ ex, (pushProposal apply p.id e).result = .error (.exception ex) ∧
      (pushProposal apply p.id e).state.db = e.db

/-- An event, and the node that carries it out: whether it produces blocks, the size of its stack. -/
inductive ProposalEvent (O : Type) where
  /-- A transaction that succeeds; one that fails leaves no trace. -/
  | transaction (isProducing : Bool) (levels : Nat) (ops : List (Operation O))
  | clearExpiredProposals (isProducing : Bool) (levels turns : Nat)
  /-- Everything else: other work at block ends, passing time. -/
  | other

/-- How a database carries out a transaction. -/
def ProposalDatabase.pushTransaction (db : ProposalDatabase W O) (isProducing : Bool)
    (levels : Nat) (ops : List (Operation O)) :
    Outcome (OperationNotification W O) Interrupt (Execution W O) Unit :=
  ChainAction.session (applyTransactionOperations c (applyOperation c levels) ops)
    (db.start isProducing)

def ProposalDatabase.Step (db : ProposalDatabase W O) : ProposalEvent O →
    ProposalDatabase W O → Prop
  | .transaction isProducing levels ops, db' =>
    (db.pushTransaction c isProducing levels ops).result = .ok () ∧
      (db.pushTransaction c isProducing levels ops).state.db = db'
  | .clearExpiredProposals isProducing levels turns, db' =>
    (clearExpiredProposals c levels turns (db.start isProducing)).result = .ok () ∧
      (clearExpiredProposals c levels turns (db.start isProducing)).state.db = db'
  | .other, db' => ∃ world headBlockTime, db.headBlockTime ≤ headBlockTime ∧
    db' = { db with world := world, headBlockTime := headBlockTime }

def proposalSystem : TransitionSystem (ProposalDatabase W O) (ProposalEvent O) where
  initial db := db.proposals = .empty ∧ db.requiredApprovals = .empty
  step := ProposalDatabase.Step c

/--
The operation does no harm to the proposals that are being executed: it does not delete one, and it
does not change the approvals of one so that it is removed or executed once more.
-/
def OperationNotification.Harmless (n : OperationNotification W O) : Prop :=
  match n.op with
  | .proposalDelete o => ∀ p, n.execution.db.findProposal o.author o.title = some p →
    p.id ∈ n.execution.executing → ¬(p.author = o.requester ∨ o.requester ∈ p.requiredTotal)
  | .proposalUpdate o => ∀ p, n.execution.db.findProposal o.author o.title = some p →
    p.id ∈ n.execution.executing →
      (n.execution.isProducing → n.execution.updateDepth < steemitMaxProposalDepth) →
        o.checkApprovals n.execution.db.headBlockTime p = .ok () →
          c.updateOutcome n.execution.db o (o.changeApprovals p) ≠ .ok .remove ∧
            c.updateOutcome n.execution.db o (o.changeApprovals p) ≠ .ok .execute
  | _ => True

instance (n : OperationNotification W O) : Decidable (n.Harmless c) :=
  match n with
  | ⟨_, .proposalCreate ..⟩ => .isTrue trivial
  | ⟨_, .proposalUpdate _⟩ => Option.decidableForallMem _
  | ⟨_, .proposalDelete _⟩ => Option.decidableForallMem _
  | ⟨_, .other _⟩ => .isTrue trivial

/-- Every operation applied in the course of the event is harmless. -/
def ProposalDatabase.HarmlessEvent (db : ProposalDatabase W O) : ProposalEvent O → Prop
  | .transaction isProducing levels ops =>
    ∀ n ∈ (db.pushTransaction c isProducing levels ops).notes, n.Harmless c
  | .clearExpiredProposals isProducing levels turns =>
    ∀ n ∈ (clearExpiredProposals c levels turns (db.start isProducing)).notes, n.Harmless c
  | .other => True

instance (db : ProposalDatabase W O) (event : ProposalEvent O) :
    Decidable (db.HarmlessEvent c event) :=
  match event with
  | .transaction .. => List.decidableBAll ..
  | .clearExpiredProposals .. => List.decidableBAll ..
  | .other => .isTrue trivial

end Golos
