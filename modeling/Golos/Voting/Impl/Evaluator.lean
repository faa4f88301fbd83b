import Golos.Protocol.ChainProperties
import Golos.Staking.Impl.Withdrawal

/-!
This module contains the objects that votes on comments read and write, what the life of a comment does
to them, the evaluator of votes, and what votes do to reputations, under the rules of hardfork 30.
-/

namespace Golos

open Checked

inductive AuctionWindowRewardDestination where
  | toRewardFund
  | toCurators
  | toAuthor
  deriving DecidableEq

/-- The part of `account_object` that votes read and write, less its Golos Power. -/
structure VoterObject where
  name : AccountName
  ownerChallenged : Bool := false
  activeChallenged : Bool := false
  canVote : Bool := true
  votingCapacity : Nat := 15
  reputation : ℤ := 0
  tipBalance : ℤ := 0
  curationRewards : ℤ := 0
  delegationRewards : ℤ := 0
  lastPostingAction : Nat := 0
  deriving DecidableEq

structure CommentBill where
  allowCurationRewards : Bool := true
  minGolosPowerToCurate : ℤ := 0
  auctionWindowRewardDestination : AuctionWindowRewardDestination := .toAuthor
  auctionWindowSize : Nat := 60 * 30
  deriving DecidableEq

structure CommentBillObject where
  comment : Nat
  bill : CommentBill
  deriving DecidableEq

namespace Voting

/-- The part of `comment_object` that votes read and write. The root's own comment is its root. -/
structure CommentObject where
  id : Nat
  author : AccountName
  hashlink : Nat
  created : Nat
  lastPayout : Nat := 0
  netRshares : ℤ := 0
  absRshares : ℤ := 0
  voteRshares : ℤ := 0
  childrenAbsRshares : ℤ := 0
  cashoutTime : Nat
  netVotes : ℤ := 0
  totalVotes : Nat := 0
  rootComment : Nat
  curationRewardCurve : CurationCurve := .detect
  allowVotes : Bool := true
  deriving DecidableEq

end Voting

structure CommentVoteObject where
  voter : AccountName
  comment : Nat
  origRshares : ℤ := 0
  rshares : ℤ := 0
  votePercent : ℤ := 0
  auctionTime : Nat := 0
  lastUpdate : Nat := 0
  numChanges : ℤ := 0
  delegatorVoteInterestRates : List DelegatorVoteInterestRate := []

/-- `by_comment_voter` -/
abbrev CommentVoteObject.byCommentVoter (v : CommentVoteObject) : Nat × AccountName :=
  (v.comment, v.voter)

/-- The properties of `witness_schedule_object::median_props` that are read here. -/
structure VoteMedianProps where
  votesWindow : Nat := 15
  votesPerWindow : Nat := 5
  voteRegenerationPerDay : Nat := 10
  curationRewardCurve : CurationCurve := .linear
  unlimitOperationCost : ℤ := 10
  unwantedOperationCost : ℤ := 100000
  deriving DecidableEq

/-- The part of `database` that votes and curation rewards read and write. -/
structure Voting where
  staking : Staking := {}
  voters : Table VoterObject.name := .empty
  comments : Table Voting.CommentObject.id := .empty
  bills : Table CommentBillObject.comment := .empty
  /-- In the order of their ids. -/
  votes : Table CommentVoteObject.byCommentVoter := .empty
  medianProps : VoteMedianProps := {}
  currentSupply : ℤ := 0
  totalRewardShares2 : Nat := 0
  totalRewardFundSteem : ℤ := 0

namespace Voting

def headBlockTime (s : Voting) : Nat :=
  s.staking.headBlockTime

def getVoter (s : Voting) (name : AccountName) : Result VoterObject :=
  get (s.voters.find? name) (.missingObject "account")

/-- `find_comment_by_perm`, told the hash of the permlink. -/
def findCommentByPerm (s : Voting) (author : AccountName) (hashlink : Nat) : Option CommentObject :=
  s.comments.rows.find? fun c => c.author = author ∧ c.hashlink = hashlink

def findCommentBill (s : Voting) (comment : Nat) : Option CommentBillObject :=
  s.bills.find? comment

def getCommentBill (s : Voting) (comment : Nat) : CommentBill :=
  match s.findCommentBill comment with
  | some o => o.bill
  | none => {}

def findVote (s : Voting) (comment : Nat) (voter : AccountName) : Option CommentVoteObject :=
  s.votes.find? (comment, voter)

/-- `modify(get_account(name), f)` for an update that can fail. -/
def modifyVoter (s : Voting) (name : AccountName) (f : VoterObject → Result VoterObject) :
    Result Voting := do
  let a ← s.getVoter name
  let a' ← f a
  pure { s with voters := s.voters.modify name fun a => { a' with name := a.name } }

def modifyComment (s : Voting) (id : Nat) (f : CommentObject → CommentObject)
    (hf : autoParam (∀ c, (f c).id = c.id) Monoid.npow_zero._autoParam) : Voting :=
  { s with comments := s.comments.modify id f hf }

def modifyVote (s : Voting) (comment : Nat) (voter : AccountName)
    (f : CommentVoteObject → CommentVoteObject)
    (hf : autoParam (∀ v, (f v).byCommentVoter = v.byCommentVoter) Monoid.npow_zero._autoParam) :
    Voting :=
  { s with votes := s.votes.modify (comment, voter) f hf }

def createVote (s : Voting) (v : CommentVoteObject) : Result Voting := do
  let votes ← get (s.votes.emplace v) .uniquenessViolated
  pure { s with votes := votes }

def addTipBalance (s : Voting) (name : AccountName) (amount : ℤ) : Result Voting :=
  s.modifyVoter name fun a => do
    let tipBalance ← add64 a.tipBalance amount .overflowException
    pure { a with tipBalance := tipBalance }

def addReputation (s : Voting) (name : AccountName) (delta : ℤ) : Result Voting :=
  s.modifyVoter name fun a => do
    let reputation ← add64 a.reputation delta .overflowException
    pure { a with reputation := reputation }

/-- The part of a row of `account_object` that its Golos Power belongs to. -/
def setVotingPower (s : Voting) (name : AccountName) (votingPower : Nat) : Voting :=
  { s with
    staking := { s.staking with
      accounts := s.staking.accounts.modify name fun a =>
        { a with votingPower := votingPower, lastVoteTime := s.headBlockTime } } }

end Voting

def steemitFirstCashoutTime : Nat := 1484478000

namespace Voting

/-- `comment_evaluator::do_apply` for a new comment, with the bill that the witnesses have voted for. -/
def createComment (s : Voting) (id : Nat) (author : AccountName) (hashlink : Nat)
    (rootComment : Option Nat) (bill : CommentBill) : Result Voting := do
  let comments ← get (s.comments.emplace
    { id := id
      author := author
      hashlink := hashlink
      created := s.headBlockTime
      cashoutTime := s.headBlockTime + steemitCashoutWindowSeconds
      rootComment := rootComment.getD id }) .uniquenessViolated
  let bills ← get (s.bills.emplace { comment := id, bill := bill }) .uniquenessViolated
  pure { s with comments := comments, bills := bills }

/-- `upsert_comment_bill`, and the update of the bill. -/
def upsertCommentBill (s : Voting) (comment : Nat) (f : CommentBill → CommentBill) : Voting :=
  match h : s.bills.find? comment with
  | some _ =>
    { s with bills := s.bills.modify comment fun o => { o with bill := f o.bill } }
  | none =>
    { s with bills := s.bills.insert { comment := comment, bill := f {} } h }

/-- `comment_options_evaluator::do_apply` and one of its extensions. -/
def commentOptions (s : Voting) (comment : CommentObject) (allowVotes allowCurationRewards : Bool)
    (destination : Option AuctionWindowRewardDestination) : Result Voting := do
  let cbl := s.getCommentBill comment.id
  ensure ((allowCurationRewards ∧ allowVotes) ∨ comment.absRshares = 0)
    (.logicException "comment_options_requires_no_rshares")
  ensure (cbl.allowCurationRewards ∨ ¬allowCurationRewards)
    (.logicException "curation_rewards_cannot_be_reenabled")
  ensure (comment.allowVotes ∨ ¬allowVotes) (.logicException "voting_cannot_be_reenabled")
  let s := s.modifyComment comment.id fun c => { c with allowVotes := allowVotes }
  let s := s.upsertCommentBill comment.id fun b =>
    { b with allowCurationRewards := allowCurationRewards }
  match destination with
  | none => pure s
  | some destination =>
    ensure (comment.absRshares = 0) (.logicException "comment_must_not_have_been_voted")
    pure (s.upsertCommentBill comment.id fun b =>
      { b with auctionWindowRewardDestination := destination })

/-- What `cashout_comment_helper` leaves of a comment, on the curve that its reward was shared on. -/
def archiveComment (s : Voting) (comment : Nat) (curve : CurationCurve) : Voting :=
  let s := s.modifyComment comment fun c =>
    { c with
      netRshares := if 0 < c.netRshares then 0 else c.netRshares
      childrenAbsRshares := 0
      absRshares := 0
      voteRshares := 0
      curationRewardCurve := curve
      cashoutTime := maxTimePoint
      lastPayout := s.headBlockTime }
  { s with
    votes := s.votes.modifyWhere (fun v => v.comment = comment)
      fun v => { v with numChanges := -1 - v.numChanges }
    bills := s.bills.erase comment }

/-- `delete_comment_evaluator::do_apply`, which forgets the bill. -/
def deleteComment (s : Voting) (comment : CommentObject) : Voting :=
  if 0 < comment.netRshares then
    s
  else
    { s with
      votes := s.votes.filter fun v => v.comment ≠ comment.id
      comments := s.comments.erase comment.id }

end Voting

def steemitMaxVoteChanges : ℤ := 5

def steemitUpvoteLockout : Nat := 60

def steemitHardfork06ReverseAuctionTime : Nat := 1476788510

/-- `vote_operation`, with the size and the hash of its permlink. -/
structure VoteOperation where
  voter : AccountName
  author : AccountName
  permlinkSize : Nat
  hashlink : Nat
  weight : ℤ

def VoteOperation.validate (op : VoteOperation) : Result Unit :=
  ensure (|op.weight| ≤ steemit100Percent) (.invalidValue "Weight is not a STEEMIT percentage")

namespace Voting

section reputation

/-- Precision from vests is noise. -/
def reputationDelta (rshares : ℤ) : ℤ :=
  rshares / 2 ^ 6

def unvoteReputation (s : Voting) (author : AccountName) (rshares : ℤ) : Result Voting := do
  let _ ← s.getVoter author
  s.addReputation author (-reputationDelta rshares)

/-- The two rules of `vote_reputation`. -/
def MayAffect (voter author : VoterObject) (rshares : ℤ) : Prop :=
  0 ≤ voter.reputation ∧ (rshares < 0 → author.reputation < voter.reputation)

instance (voter author : VoterObject) (rshares : ℤ) : Decidable (MayAffect voter author rshares) :=
  inferInstanceAs (Decidable (_ ∧ _))

def voteReputation (s : Voting) (voter author : AccountName) (rshares : ℤ) : Result Voting := do
  let voter ← s.getVoter voter
  if voter.reputation < 0 then
    pure s
  else
    let author ← s.getVoter author
    if MayAffect voter author rshares then
      s.addReputation author.name (reputationDelta rshares)
    else
      pure s

end reputation

section bandwidth

def nullTip (s : Voting) (payer : AccountName) (fee : ℤ) : Result Voting := do
  let s ← s.addTipBalance nullAccount fee
  s.addTipBalance payer (-fee)

def checkNegrepPostingBandwidth (s : Voting) (name : AccountName) : Result Voting := do
  let acc ← s.getVoter name
  if 0 ≤ acc.reputation then
    s.modifyVoter name fun a => pure { a with lastPostingAction := s.headBlockTime }
  else
    let fee := s.medianProps.unlimitOperationCost
    ensure (fee ≤ acc.tipBalance) (.invalidValue "You are have negative reputation")
    let s ← s.nullTip name fee
    s.modifyVoter name fun a => pure { a with lastPostingAction := s.headBlockTime }

/-- The cost of a vote against an account, which is burnt. -/
def payUnwantedOperation (s : Voting) (name : AccountName) : Result Voting := do
  let voter ← s.getVoter name
  let cost := s.medianProps.unwantedOperationCost
  ensure (cost ≤ voter.tipBalance) (.invalidValue "For reputation unvote you need TIP balance")
  let s ← s.addTipBalance name (-cost)
  let supply ← add64 s.currentSupply (-cost) .overflowException
  pure { s with currentSupply := supply }

def useVotingCapacity (s : Voting) (name : AccountName) : Result Voting := do
  let voter ← s.getVoter name
  let account ← s.staking.getAccount name
  let window := s.medianProps.votesWindow
  ensure (s.medianProps.votesPerWindow ≠ 0) (.assertException "division by zero")
  let consumption := window / s.medianProps.votesPerWindow
  let elapsed := (s.headBlockTime - account.lastVoteTime) % 2 ^ 32 / 60
  let currentCapacity := min ((voter.votingCapacity + min window elapsed) % 2 ^ 16) window
  if currentCapacity + 1 ≤ consumption then
    let fee := s.medianProps.unlimitOperationCost
    ensure (fee ≤ voter.tipBalance) (.assertException "vote_bandwidth")
    s.nullTip name fee
  else
    s.modifyVoter name fun a => pure { a with votingCapacity := currentCapacity - consumption }

end bandwidth

section power

structure VotePower where
  currentPower : ℤ
  usedPower : ℤ
  absRshares : ℤ

/-- What the vote takes of the voting power, and the shares it gives. -/
def votePower (s : Voting) (account : StakeAccountObject) (weight : ℤ) : Result VotePower := do
  let elapsedSeconds : ℤ := s.headBlockTime - account.lastVoteTime
  let regeneratedPower := (steemit100Percent * elapsedSeconds).tdiv steemitVoteRegenerationSeconds
  let currentPower := min (account.votingPower + regeneratedPower) steemit100Percent
  ensure (0 < currentPower) (.logicException "does_not_have_voting_power")
  let usedPower := (currentPower * |weight|).tdiv steemit100Percent
  let maxVoteDenom : ℤ :=
    s.medianProps.voteRegenerationPerDay * steemitVoteRegenerationSeconds / (60 * 60 * 24)
  ensure (0 < maxVoteDenom) (.internalError "max_vote_denom is too small")
  let usedPower := (usedPower + maxVoteDenom - 1).tdiv maxVoteDenom
  ensure (usedPower ≤ currentPower) (.logicException "does_not_have_voting_power")
  let effective ← account.effectiveVestingShares
  let absRshares ← ofUint128
    (toUint128 effective * toUint128 usedPower % 2 ^ 128 / steemit100Percent)
  ensure (30000000 < absRshares ∨ weight = 0) (.logicException "voting_weight_is_too_small")
  pure ⟨currentPower, usedPower, absRshares⟩

def usePower (s : Voting) (name : AccountName) (power : VotePower) : Voting :=
  s.setVotingPower name (power.currentPower - power.usedPower).toNat

/-- One of `comment_vote_object::delegator_vote_interest_rates`. -/
def delegatorVoteInterestRate (effective : ℤ) (vdo : VestingDelegationObject) :
    Result DelegatorVoteInterestRate := do
  ensure (effective ≠ 0) (.assertException "division by zero")
  let rate ← ofUint128
    (toUint128 vdo.vestingShares * vdo.interestRate % 2 ^ 128 / toUint128 effective)
  pure ⟨vdo.delegator, (rate % 2 ^ 16).toNat, vdo.payoutStrategy⟩

def delegatorVoteInterestRates (s : Voting) (account : StakeAccountObject) :
    Result (List DelegatorVoteInterestRate) := do
  if 0 < account.receivedVestingShares then
    let effective ← account.effectiveVestingShares
    let received := (s.staking.delegations.rows.filter fun vdo =>
      vdo.delegatee = account.name ∧ ¬vdo.isEmission).insertionSort fun a b =>
        a.delegator ≤ b.delegator
    let rates ← received.mapM (delegatorVoteInterestRate effective)
    pure (rates.filter fun dvir => 0 < dvir.interestRate)
  else
    pure []

end power

section comment

def signedRshares (weight absRshares : ℤ) : ℤ :=
  if weight < 0 then -absRshares else absRshares

def checkUpvoteLockout (s : Voting) (comment : CommentObject) : Result Unit :=
  ensure (s.headBlockTime < (comment.cashoutTime : ℤ) - steemitUpvoteLockout)
    (.logicException "cannot_vote_within_last_minute_before_payout")

/-- What a vote adds to the comment at the root of the discussion. -/
def addChildrenAbsRshares (s : Voting) (comment : CommentObject) (absRshares : ℤ) :
    Result Voting := do
  let root ← get (s.comments.find? comment.rootComment) (.missingObject "comment")
  let children ← add64 root.childrenAbsRshares absRshares .overflowException
  pure (s.modifyComment comment.rootComment fun c => { c with childrenAbsRshares := children })

/-- `adjust_rshares2`, as far as it gets up to the root. -/
def adjustRshares2 (s : Voting) (old new : ℤ) : Voting :=
  { s with
    totalRewardShares2 :=
      (s.totalRewardShares2 + (2 ^ 128 - (max old 0).toNat) + (max new 0).toNat) % 2 ^ 128 }

/-- A vote for or against an account. -/
def voteForAccount (s : Voting) (op : VoteOperation) (power : VotePower) : Result Voting := do
  ensure (op.weight ≠ 0) (.invalidValue "Vote weight cannot be 0")
  ensure (0 < power.absRshares) (.logicException "cannot_vote_with_zero_rshares")
  let s ← s.voteReputation op.voter op.author (signedRshares op.weight power.absRshares)
  pure (s.usePower op.voter power)

/-- The seconds of the auction window that have passed, all of it for the author. -/
def auctionTime (s : Voting) (comment : CommentObject) (voter : AccountName) : Nat :=
  let size := (s.getCommentBill comment.id).auctionWindowSize
  if steemitHardfork06ReverseAuctionTime < s.headBlockTime then
    if voter = comment.author then
      size
    else
      min (s.headBlockTime - comment.created) size % 2 ^ 16
  else
    0

/-- The object of the first vote on a comment. -/
def newVote (s : Voting) (comment : CommentObject) (op : VoteOperation) (rshares : ℤ)
    (rates : List DelegatorVoteInterestRate) : CommentVoteObject :=
  let v : CommentVoteObject :=
    { voter := op.voter
      comment := comment.id
      rshares := rshares
      votePercent := op.weight
      lastUpdate := s.headBlockTime }
  if 0 < rshares ∧ comment.lastPayout = 0 ∧
      (s.getCommentBill comment.id).allowCurationRewards then
    { v with
      origRshares := rshares
      auctionTime := s.auctionTime comment op.voter
      delegatorVoteInterestRates := rates }
  else
    v

def firstVote (s : Voting) (comment : CommentObject) (account : StakeAccountObject)
    (op : VoteOperation) (power : VotePower) : Result Voting := do
  let rates ← s.delegatorVoteInterestRates account
  ensure (op.weight ≠ 0) (.invalidValue "Vote weight cannot be 0")
  let rshares := signedRshares op.weight power.absRshares
  let _ ← (if 0 < rshares then s.checkUpvoteLockout comment else pure ())
  ensure (0 < power.absRshares) (.logicException "cannot_vote_with_zero_rshares")
  let netRshares ← add64 comment.netRshares rshares .overflowException
  let absRshares ← add64 comment.absRshares power.absRshares .overflowException
  let voteRshares ← (if 0 < rshares then
      add64 comment.voteRshares rshares .overflowException
    else
      pure comment.voteRshares)
  let s := s.usePower op.voter power
  let s := s.modifyComment comment.id fun c =>
    { c with
      netRshares := netRshares
      absRshares := absRshares
      totalVotes := c.totalVotes + 1
      voteRshares := voteRshares
      netVotes := if 0 < rshares then c.netVotes + 1 else c.netVotes - 1 }
  let s ← s.addChildrenAbsRshares comment power.absRshares
  let s ← s.createVote (s.newVote comment op rshares rates)
  let s := s.adjustRshares2 comment.netRshares netRshares
  s.voteReputation op.voter op.author rshares

/-- What the change of a vote does to the number of votes for the comment. -/
def netVotesChange (old new : ℤ) : ℤ :=
  if 0 < new ∧ old < 0 then 2
  else if 0 < new ∧ old = 0 then 1
  else if new = 0 ∧ old < 0 then 1
  else if new = 0 ∧ 0 < old then -1
  else if new < 0 ∧ old = 0 then -1
  else if new < 0 ∧ 0 < old then -2
  else 0

def changeVote (s : Voting) (comment : CommentObject) (vote : CommentVoteObject)
    (op : VoteOperation) (power : VotePower) : Result Voting := do
  let s ← s.unvoteReputation op.author vote.rshares
  ensure (vote.numChanges < steemitMaxVoteChanges)
    (.logicException "voter_has_used_maximum_vote_changes")
  ensure (vote.votePercent ≠ op.weight) (.logicException "already_voted_in_similar_way")
  let rshares := signedRshares op.weight power.absRshares
  let _ ← (if vote.rshares < rshares then s.checkUpvoteLockout comment else pure ())
  let netRshares ← add64 comment.netRshares (-vote.rshares) .overflowException
  let netRshares ← add64 netRshares rshares .overflowException
  let absRshares ← add64 comment.absRshares power.absRshares .overflowException
  let s := s.usePower op.voter power
  let s := s.modifyComment comment.id fun c =>
    { c with
      netRshares := netRshares
      absRshares := absRshares
      netVotes := c.netVotes + netVotesChange vote.rshares rshares }
  let s ← s.addChildrenAbsRshares comment power.absRshares
  let s := s.modifyVote comment.id op.voter fun v =>
    { v with
      rshares := rshares
      votePercent := op.weight
      lastUpdate := s.headBlockTime
      numChanges := v.numChanges + 1
      delegatorVoteInterestRates := [] }
  let s := s.adjustRshares2 comment.netRshares netRshares
  s.voteReputation op.voter op.author rshares

/-- A vote after the payout, which the consensus has no use for. -/
def archivedVote (s : Voting) (comment : CommentObject) (op : VoteOperation) : Result Voting :=
  match s.findVote comment.id op.voter with
  | none =>
    let s := s.modifyComment comment.id fun c => { c with totalVotes := c.totalVotes + 1 }
    s.createVote
      { voter := op.voter
        comment := comment.id
        votePercent := op.weight
        lastUpdate := s.headBlockTime
        numChanges := -2 }
  | some _ =>
    pure (s.modifyVote comment.id op.voter fun v =>
      { v with votePercent := op.weight, lastUpdate := s.headBlockTime })

end comment

/-- `vote_evaluator::do_apply` -/
def vote (s : Voting) (op : VoteOperation) : Result Voting := do
  op.validate
  let comment := s.findCommentByPerm op.author op.hashlink
  ensure (comment.isSome ∨ op.permlinkSize = 0) (.missingObject "comment")
  let voter ← s.getVoter op.voter
  ensure (¬(voter.ownerChallenged ∨ voter.activeChallenged))
    (.logicException "account_is_currently_challenged")
  ensure voter.canVote (.logicException "voter_declined_voting_rights")
  ensure (∀ c ∈ comment, op.weight ≤ 0 ∨ c.allowVotes) (.logicException "votes_are_not_allowed")
  let s ← s.checkNegrepPostingBandwidth op.voter
  let s ← (if comment = none ∧ op.weight < 0 then s.payUnwantedOperation op.voter else pure s)
  match comment with
  | none =>
    let s ← s.useVotingCapacity op.voter
    let account ← s.staking.getAccount op.voter
    let power ← s.votePower account op.weight
    s.voteForAccount op power
  | some comment =>
    if comment.cashoutTime = maxTimePoint then
      s.archivedVote comment op
    else
      let s ← s.useVotingCapacity op.voter
      let account ← s.staking.getAccount op.voter
      let power ← s.votePower account op.weight
      match s.findVote comment.id op.voter with
      | none => s.firstVote comment account op power
      | some vote => s.changeVote comment vote op power

end Voting

end Golos
