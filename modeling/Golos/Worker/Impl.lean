import Mathlib.Data.List.Sort
import Golos.Staking.Impl.Delegation

/-!
This module contains the requests of workers: the operations on them, the votes for them, and the
functions of a block that decide on them and pay them, under the rules of hardfork 30.
-/

namespace Golos

open Checked

def golosWorkerRequestMinDuration : Nat := 60 * 60 * 24 * 5

def golosWorkerRequestMaxDuration : Nat := 60 * 60 * 24 * 30

def golosWorkerCashoutInterval : Nat := 60 * 60 / 3 / 6

/-- `static_cast<int64_t>` of an `int128_t`. -/
def castInt64 (x : ℤ) : ℤ :=
  Int.bmod x (2 ^ 64)

inductive WorkerRequestState where
  | created
  | payment
  | paymentComplete
  | closedByAuthor
  | closedByExpiration
  | closedByVoters
  deriving DecidableEq

namespace WorkerRequestState

/-- The place of a state in the enumeration. -/
def value : WorkerRequestState → Nat
  | created => 0
  | payment => 1
  | paymentComplete => 2
  | closedByAuthor => 3
  | closedByExpiration => 4
  | closedByVoters => 5

end WorkerRequestState

structure WorkerRequestObject where
  id : Nat
  post : Nat
  worker : AccountName
  state : WorkerRequestState := .created
  requiredAmountMin : Asset
  requiredAmountMax : Asset
  vestReward : Bool
  duration : Nat
  created : Nat
  voteEndTime : Nat := maxTimePoint
  stakeRshares : ℤ := 0
  stakeTotal : ℤ := 0
  remainingPayment : Asset := ⟨0, steemSymbol⟩
  deriving DecidableEq

structure WorkerRequestVoteObject where
  voter : AccountName
  post : Nat
  votePercent : ℤ
  rshares : ℤ
  stake : ℤ
  deriving DecidableEq

abbrev WorkerRequestVoteObject.byRequestVoter (o : WorkerRequestVoteObject) : Nat × AccountName :=
  (o.post, o.voter)

namespace Worker

/-- The part of `comment_object` that worker requests read. -/
structure CommentObject where
  id : Nat
  author : AccountName
  hashlink : Nat
  parentAuthor : AccountName := ""
  cashoutTime : Nat := maxTimePoint
  deriving DecidableEq

end Worker

inductive WorkerVirtualOperation where
  | workerState (author : AccountName) (hashlink : Nat) (state : WorkerRequestState)
  | workerReward (worker author : AccountName) (hashlink : Nat) (reward : Asset)
      (rewardInVests : ℤ)
  deriving DecidableEq

/-- The part of `database` that worker requests read and write. -/
structure WorkerDatabase where
  ledger : Ledger := {}
  staking : Staking := {}
  comments : Table Worker.CommentObject.id := .empty
  requests : Table WorkerRequestObject.post := .empty
  nextRequestId : Nat := 0
  votes : Table WorkerRequestVoteObject.byRequestVoter := .empty
  headBlockNum : Nat := 0
  headBlockTime : Nat := 0
  workerRequestCreationFee : Asset := ⟨100000, sbdSymbol⟩
  workerRequestApproveMinPercent : Nat := 1000
  clearOldWorkerVotes : Bool := false
  virtualOperations : List WorkerVirtualOperation := []

structure WorkerRequestOperation where
  author : AccountName
  hashlink : Nat
  worker : AccountName
  requiredAmountMin : Asset
  requiredAmountMax : Asset
  vestReward : Bool := false
  duration : Nat

def WorkerRequestOperation.validate (op : WorkerRequestOperation) : Result Unit := do
  validateAccountName op.author
  validateAccountName op.worker
  ensure (op.requiredAmountMin.symbol = steemSymbol ∨ op.requiredAmountMin.symbol = sbdSymbol)
    (.invalidValue "required_amount_min must be GOLOS or GBG")
  ensure (0 < op.requiredAmountMin.amount) (.invalidValue "required_amount_min.amount")
  ensure (op.requiredAmountMin.symbol = op.requiredAmountMax.symbol)
    (.invalidValue "required_amount_min.symbol")
  ensure (op.requiredAmountMin.amount ≤ op.requiredAmountMax.amount)
    (.invalidValue "required_amount_max.amount")
  ensure (op.vestReward = true → op.requiredAmountMin.symbol = steemSymbol)
    (.invalidValue "required_amount_min must be GOLOS")
  ensure (golosWorkerRequestMinDuration ≤ op.duration ∧ op.duration ≤ golosWorkerRequestMaxDuration)
    (.invalidValue "duration")

structure WorkerRequestDeleteOperation where
  author : AccountName
  hashlink : Nat

def WorkerRequestDeleteOperation.validate (op : WorkerRequestDeleteOperation) : Result Unit :=
  validateAccountName op.author

structure WorkerRequestVoteOperation where
  voter : AccountName
  author : AccountName
  hashlink : Nat
  votePercent : ℤ

def WorkerRequestVoteOperation.validate (op : WorkerRequestVoteOperation) : Result Unit := do
  validateAccountName op.voter
  validateAccountName op.author
  ensure (-steemit100Percent ≤ op.votePercent ∧ op.votePercent ≤ steemit100Percent)
    (.invalidValue "vote_percent")

namespace WorkerDatabase

variable (db : WorkerDatabase)

def getComment (id : Nat) : Result Worker.CommentObject :=
  get (db.comments.find? id) (.missingObject "comment")

def getCommentByPerm (author : AccountName) (hashlink : Nat) : Result Worker.CommentObject :=
  get (db.comments.rows.find? fun c => c.author = author ∧ c.hashlink = hashlink)
    (.missingObject "comment")

def getWorkerRequest (post : Nat) : Result WorkerRequestObject :=
  get (db.requests.find? post) (.missingObject "worker_request_object")

def modifyRequest (post : Nat) (f : WorkerRequestObject → WorkerRequestObject)
    (hf : autoParam (∀ r, (f r).post = r.post) Monoid.npow_zero._autoParam) : WorkerDatabase :=
  { db with requests := db.requests.modify post f hf }

def HasVotes (post : Nat) : Prop :=
  ∃ v ∈ db.votes.rows, v.post = post

instance (post : Nat) : Decidable (db.HasVotes post) :=
  inferInstanceAs (Decidable (∃ v ∈ db.votes.rows, v.post = post))

/-- The object of the post is not what is compared here: `post` is the first value of
`bandwidth_type`. -/
def clearWorkerRequestVotes : WorkerDatabase :=
  if db.clearOldWorkerVotes = true then
    { db with votes := db.votes.filter fun v => v.post ≠ 0 }
  else
    db

def closeWorkerRequest (wro : WorkerRequestObject) (closedState : WorkerRequestState) :
    WorkerDatabase :=
  let hasVotes := WorkerRequestState.payment.value ≤ wro.state.value ∨ db.HasVotes wro.post
  let db := db.clearWorkerRequestVotes
  if closedState = .closedByAuthor ∧ ¬hasVotes then
    { db with requests := db.requests.erase wro.post }
  else
    db.modifyRequest wro.post fun o => { o with voteEndTime := maxTimePoint, state := closedState }

def pushVirtualOperation (op : WorkerVirtualOperation) : WorkerDatabase :=
  { db with virtualOperations := db.virtualOperations ++ [op] }

def sendWorkerState (post : Worker.CommentObject) (state : WorkerRequestState) : WorkerDatabase :=
  db.pushVirtualOperation (.workerState post.author post.hashlink state)

/-- `worker_request_evaluator::do_apply` for a request that is there. -/
def editWorkerRequest (wro : WorkerRequestObject) (op : WorkerRequestOperation) :
    Result WorkerDatabase := do
  ensure (wro.state.value < WorkerRequestState.payment.value)
    (.logicException "Cannot modify approved request")
  ensure (¬db.HasVotes wro.post) (.logicException "Cannot edit request with votes")
  pure (db.modifyRequest wro.post fun o =>
    { o with
      worker := op.worker
      requiredAmountMin := op.requiredAmountMin
      requiredAmountMax := op.requiredAmountMax
      vestReward := op.vestReward
      duration := op.duration
      voteEndTime := o.created + op.duration })

/-- The fee for a new request goes to the pool. -/
def payCreationFee (name : AccountName) : Result Ledger := do
  let fee := db.workerRequestCreationFee
  if fee.amount ≠ 0 then
    let author ← db.ledger.getAccount name
    db.ledger.checkBalance author fee
    let charge ← fee.neg
    let ledger ← db.ledger.adjustBalance author.name charge
    ledger.adjustBalance workerPoolAccount fee
  else
    pure db.ledger

/-- `worker_request_evaluator::do_apply` for a new request. -/
def createWorkerRequest (post : Worker.CommentObject) (op : WorkerRequestOperation) :
    Result WorkerDatabase := do
  ensure (post.parentAuthor = "") (.logicException "Can be created only on root post")
  ensure (post.cashoutTime ≠ maxTimePoint) (.logicException "Post should be in cashout window")
  let ledger ← db.payCreationFee post.author
  let requests ← get (db.requests.emplace
    { id := db.nextRequestId
      post := post.id
      worker := op.worker
      state := .created
      requiredAmountMin := op.requiredAmountMin
      requiredAmountMax := op.requiredAmountMax
      vestReward := op.vestReward
      duration := op.duration
      created := db.headBlockTime
      voteEndTime := db.headBlockTime + op.duration }) .uniquenessViolated
  pure
    { db with ledger := ledger, requests := requests, nextRequestId := db.nextRequestId + 1 }

def workerRequest (op : WorkerRequestOperation) : Result WorkerDatabase := do
  op.validate
  let post ← db.getCommentByPerm op.author op.hashlink
  let _ ← db.ledger.getAccount op.worker
  match db.requests.find? post.id with
  | some wro => db.editWorkerRequest wro op
  | none => db.createWorkerRequest post op

def workerRequestDelete (op : WorkerRequestDeleteOperation) : Result WorkerDatabase := do
  op.validate
  let post ← db.getCommentByPerm op.author op.hashlink
  let wro ← db.getWorkerRequest post.id
  ensure (wro.state.value < WorkerRequestState.paymentComplete.value)
    (.logicException "Request already closed")
  ensure (wro.state.value < WorkerRequestState.payment.value)
    (.logicException "Request paying, cannot delete")
  pure (db.closeWorkerRequest wro .closedByAuthor)

/-- Add to both totals of a request. -/
def adjustStakes (post : Nat) (rshares stake : ℤ) : Result WorkerDatabase := do
  let wro ← db.getWorkerRequest post
  let stakeRshares ← int64 (wro.stakeRshares + rshares) .overflowException
  let stakeTotal ← int64 (wro.stakeTotal + stake) .overflowException
  pure (db.modifyRequest post fun o =>
    { o with stakeRshares := stakeRshares, stakeTotal := stakeTotal })

/-- `worker_request_vote_evaluator::do_apply` with a percent of 0. -/
def cancelVote (wro : WorkerRequestObject) (voter : AccountName) : Result WorkerDatabase := do
  let vote ← get (db.votes.find? (wro.post, voter))
    (.logicException "You already have voted for this object with this state")
  let db ← db.adjustStakes wro.post (-vote.rshares) (-vote.stake)
  pure { db with votes := db.votes.erase (wro.post, voter) }

/-- `worker_request_vote_evaluator::do_apply` with another percent. -/
def castVote (wro : WorkerRequestObject) (voter : AccountName) (votePercent : ℤ) :
    Result WorkerDatabase := do
  let account ← db.staking.getAccount voter
  let stake := account.vestingShares
  let rshares := castInt64 (Int.tdiv (stake * votePercent) steemit100Percent)
  match h : db.votes.find? (wro.post, voter) with
  | some vote =>
    ensure (vote.votePercent ≠ votePercent)
      (.logicException "You already have voted for this object with this state")
    let votes := db.votes.modify (wro.post, voter) fun o =>
      { o with votePercent := votePercent, rshares := rshares, stake := stake }
    let rsharesDelta ← int64 (-vote.rshares + rshares) .overflowException
    let stakeDelta ← int64 (-vote.stake + stake) .overflowException
    { db with votes := votes }.adjustStakes wro.post rsharesDelta stakeDelta
  | none =>
    let vote : WorkerRequestVoteObject := ⟨voter, wro.post, votePercent, rshares, stake⟩
    { db with votes := db.votes.insert vote h }.adjustStakes wro.post rshares stake

def workerRequestVote (op : WorkerRequestVoteOperation) : Result WorkerDatabase := do
  op.validate
  let account ← db.staking.getAccount op.voter
  let effective ← account.effectiveVestingShares
  ensure (1 ≤ effective) (.insufficientFunds op.voter "effective vesting shares")
  let post ← db.getCommentByPerm op.author op.hashlink
  let wro ← db.getWorkerRequest post.id
  ensure (wro.state.value < WorkerRequestState.paymentComplete.value)
    (.logicException "Request closed, cannot vote")
  ensure (wro.state.value < WorkerRequestState.payment.value)
    (.logicException "Request already paying")
  if op.votePercent = 0 then
    db.cancelVote wro op.voter
  else
    db.castVote wro op.voter op.votePercent

/-- What has to vote for a request. -/
def minVoted : Result ℤ :=
  ofUint128 (toUint128 db.staking.totalVestingShares * db.workerRequestApproveMinPercent % 2 ^ 128 /
    steemit100Percent)

/-- What the votes give a request of what it asks for. -/
def calculatedPayment (wro : WorkerRequestObject) : Result ℤ := do
  ensure (wro.stakeTotal ≠ 0) (.internalError "Division by zero.")
  pure (castInt64 (Int.tdiv (wro.requiredAmountMax.amount * wro.stakeRshares) wro.stakeTotal))

/-- The requests of `by_vote_end_time` whose time has come. Closing a request or paying it moves it
past the present. -/
def dueRequests : List WorkerRequestObject :=
  (db.requests.rows.filter fun r => r.voteEndTime ≤ db.headBlockTime).insertionSort fun r r' =>
    r.voteEndTime < r'.voteEndTime ∨ r.voteEndTime = r'.voteEndTime ∧ r.id ≤ r'.id

/-- One turn of the loop of `process_worker_votes`. -/
def processWorkerVote (r : WorkerRequestObject) : Result WorkerDatabase := do
  let wro ← db.getWorkerRequest r.post
  let post ← db.getComment wro.post
  let minVoted ← db.minVoted
  if wro.stakeTotal < minVoted then
    pure ((db.closeWorkerRequest wro .closedByExpiration).sendWorkerState post .closedByExpiration)
  else
    let calculatedPayment ← calculatedPayment wro
    if calculatedPayment < wro.requiredAmountMin.amount then
      let db := db.modifyRequest wro.post fun o =>
        { o with remainingPayment := ⟨calculatedPayment, o.requiredAmountMin.symbol⟩ }
      pure ((db.closeWorkerRequest wro .closedByVoters).sendWorkerState post .closedByVoters)
    else
      let db := db.modifyRequest wro.post fun o =>
        { o with
          voteEndTime := maxTimePoint
          remainingPayment := ⟨calculatedPayment, o.requiredAmountMin.symbol⟩
          state := .payment }
      pure (db.sendWorkerState post .payment)

def processWorkerVotes : Result WorkerDatabase :=
  db.dueRequests.foldlM processWorkerVote db

/-- The requests of `by_state` that are to be paid. A request that is paid in full moves behind
them. -/
def payingRequests : List WorkerRequestObject :=
  (db.requests.rows.filter fun r => r.state = .payment).insertionSort fun r r' => r.id ≤ r'.id

/-- `requests[symbol]` -/
def payingCount (symbol : AssetSymbolType) : Nat :=
  db.payingRequests.countP fun r => r.requiredAmountMin.symbol = symbol

/-- `max_request_payment[symbol]` -/
def maxRequestPayment (pool : AccountObject) (symbol : AssetSymbolType) : Asset :=
  let share (balance : ℤ) : ℤ :=
    if 0 < db.payingCount symbol then Int.tdiv balance (db.payingCount symbol) else 0
  if symbol = steemSymbol then
    ⟨share pool.balance, steemSymbol⟩
  else if symbol = sbdSymbol then
    ⟨share pool.sbdBalance, sbdSymbol⟩
  else
    ⟨0, steemSymbol⟩

/-- What the reward of a worker does to the worker, and how much of it is in vesting shares. -/
def payWorker (wro : WorkerRequestObject) (payment : Asset) : Result (WorkerDatabase × ℤ) := do
  if wro.vestReward = true then
    let (staking, vestReward) ← db.staking.createVesting wro.worker payment.amount
    pure ({ db with staking := staking }, vestReward)
  else
    let ledger ← db.ledger.adjustBalance wro.worker payment
    pure ({ db with ledger := ledger }, 0)

/-- One turn of the loop of `process_worker_cashout`. -/
def payWorkerRequest (maxPayment : AssetSymbolType → Asset) (r : WorkerRequestObject) :
    Result WorkerDatabase := do
  let wro ← db.getWorkerRequest r.post
  let less ← (maxPayment wro.requiredAmountMax.symbol).lt wro.remainingPayment
  let payment := if less then maxPayment wro.requiredAmountMax.symbol else wro.remainingPayment
  if payment.amount = 0 then
    pure db
  else
    let post ← db.getComment wro.post
    let _ ← db.ledger.getAccount wro.worker
    let charge ← payment.neg
    let ledger ← db.ledger.adjustBalance workerPoolAccount charge
    let (db, vestReward) ← { db with ledger := ledger }.payWorker wro payment
    let db := db.pushVirtualOperation
      (.workerReward wro.worker post.author post.hashlink payment vestReward)
    let remaining ← wro.remainingPayment.sub payment
    if remaining.amount ≤ 0 then
      let db := db.modifyRequest wro.post fun o =>
        { o with remainingPayment := ⟨0, remaining.symbol⟩, state := .paymentComplete }
      pure (db.sendWorkerState post .paymentComplete)
    else
      pure (db.modifyRequest wro.post fun o => { o with remainingPayment := remaining })

def processWorkerCashout : Result WorkerDatabase := do
  if db.headBlockNum % golosWorkerCashoutInterval ≠ 0 then
    pure db
  else
    let pool ← db.ledger.getAccount workerPoolAccount
    let maxPayment := db.maxRequestPayment pool
    if (maxPayment steemSymbol).amount = 0 ∧ (maxPayment sbdSymbol).amount = 0 then
      pure db
    else
      db.payingRequests.foldlM (fun db r => db.payWorkerRequest maxPayment r) db

end WorkerDatabase

end Golos
