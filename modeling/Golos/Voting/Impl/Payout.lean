import Golos.Voting.Impl.Evaluator
import Golos.Protocol.AssetWire

/-!
This module contains the weights that the votes on a comment have in its curation reward, and the
payout of the reward, under the rules of hardfork 30.
-/

namespace Golos

open Checked

/-- What an integer becomes when it is stored in a `uint64_t`. -/
abbrev Store :=
  ℤ → Result Nat

/-- The `uint64_t` of the machine. -/
def wrap64 : Store := fun x =>
  .ok (x % 2 ^ 64).toNat

/-- One that has no value for what is out of its range. -/
def exact64 : Store := fun x =>
  if 0 ≤ x ∧ x < 2 ^ 64 then .ok x.toNat else .error .overflowException

/-- `uint128_t::to_uint64` -/
def toUint64 (x : Nat) : Result Nat := do
  ensure (x < 2 ^ 64) (.assertException "hi == 0")
  pure x

def contentConstantS : Nat := 2000000000000

/-- A square root from the highest bit and the next ones, halved. -/
def approxSqrt (x : Nat) : Nat :=
  if x = 0 then
    0
  else
    let msbX := x.log2
    let msbZ := msbX >>> 1
    let mantissaX := x &&& (1 <<< msbX - 1)
    let mantissaZHi := if msbX &&& 1 = 1 then 1 <<< msbZ else 0
    let mantissaZLo := mantissaX >>> (msbX - msbZ)
    let mantissaZ := (mantissaZHi ||| mantissaZLo) >>> 1
    1 <<< msbZ ||| mantissaZ

structure CalculateWeightHelper where
  voteRshares : ℤ := 0
  oldVoteWeight : Nat := 0
  totalVoteWeight : Nat := 0
  auctionWindowWeight : Nat := 0
  votesInAuctionWindowWeight : Nat := 0

namespace CalculateWeightHelper

variable (store : Store)

/-- The weight that the curve gives to all votes so far, less the one before. -/
def nextWeight (h : CalculateWeightHelper) (newWeight : Nat) :
    Result (CalculateWeightHelper × Nat) := do
  let weight ← store (newWeight - h.oldVoteWeight)
  pure ({ h with oldVoteWeight := newWeight }, weight)

def calculateBounded (h : CalculateWeightHelper) : Result (CalculateWeightHelper × Nat) := do
  let rshares := toUint128 h.voteRshares
  let newWeight ← toUint64
    (rshares * (2 ^ 64 - 1) % 2 ^ 128 / ((2 * contentConstantS + rshares) % 2 ^ 128))
  h.nextWeight store newWeight

def calculateLinear (h : CalculateWeightHelper) (vote : CommentVoteObject) :
    Result (CalculateWeightHelper × Nat) := do
  let weight ← store vote.rshares
  pure (h, weight)

def calculateSquareRoot (h : CalculateWeightHelper) : Result (CalculateWeightHelper × Nat) :=
  h.nextWeight store (approxSqrt (toUint128 h.voteRshares))

def calculateCurve (curve : CurationCurve) (h : CalculateWeightHelper) (vote : CommentVoteObject) :
    Result (CalculateWeightHelper × Nat) :=
  match curve with
  | .bounded => h.calculateBounded store
  | .linear => h.calculateLinear store vote
  | .squareRoot => h.calculateSquareRoot store
  | .detect => throw (.assertException "Unknown curation reward curve.")

def wasChanged (vote : CommentVoteObject) : Bool :=
  vote.numChanges ≠ 0 ∧ vote.numChanges ≠ -1

/-- What the auction window takes from the weight of a vote that was cast in it. -/
def discount (window : Nat) (h : CalculateWeightHelper) (vote : CommentVoteObject) (weight : Nat) :
    Result (CalculateWeightHelper × Nat) :=
  if 0 < weight ∧ vote.auctionTime ≠ window then do
    ensure (window ≠ 0) (.assertException "division by zero")
    let newWeight ← toUint64 (weight * vote.auctionTime % 2 ^ 128 / window)
    let auctionWeight ← store ((weight : ℤ) - newWeight)
    let totalVoteWeight ← store ((h.totalVoteWeight : ℤ) + auctionWeight)
    let auctionWindowWeight ← store ((h.auctionWindowWeight : ℤ) + auctionWeight)
    let votesInAuctionWindowWeight ← (if wasChanged vote then
        pure h.votesInAuctionWindowWeight
      else
        store ((h.votesInAuctionWindowWeight : ℤ) + newWeight))
    let h :=
      { h with
        totalVoteWeight := totalVoteWeight
        auctionWindowWeight := auctionWindowWeight
        votesInAuctionWindowWeight := votesInAuctionWindowWeight }
    pure (h, newWeight)
  else
    pure (h, weight)

def calculateWeight (curve : CurationCurve) (window : Nat) (h : CalculateWeightHelper)
    (vote : CommentVoteObject) : Result (CalculateWeightHelper × Nat) :=
  if vote.origRshares ≤ 0 then
    pure (h, 0)
  else do
    let voteRshares ← int64 (h.voteRshares + vote.origRshares) .overflowException
    let (h, weight) ← calculateCurve store curve { h with voteRshares := voteRshares } vote
    let (h, weight) ← discount store window h vote weight
    if wasChanged vote then
      pure (h, 0)
    else
      let totalVoteWeight ← store ((h.totalVoteWeight : ℤ) + weight)
      pure ({ h with totalVoteWeight := totalVoteWeight }, weight)

end CalculateWeightHelper

structure CommentVoteInfo where
  vote : CommentVoteObject
  weight : Nat

structure CommentCurationInfo where
  comment : Voting.CommentObject
  minVestingSharesToCurate : ℤ := 0
  voteList : List CommentVoteInfo := []
  totalVoteWeight : Nat := 0
  auctionWindowWeight : Nat := 0
  votesInAuctionWindowWeight : Nat := 0
  votesAfterAuctionWindowWeight : Nat := 0
  curve : CurationCurve

namespace Voting

variable (store : Store)

def detectCurationCurve (s : Voting) (comment : CommentObject) : CurationCurve :=
  if comment.curationRewardCurve = .detect then
    s.medianProps.curationRewardCurve
  else
    comment.curationRewardCurve

/-- The index `by_comment_vote_order` from the first vote on the comment to the last one. -/
def votesOn (s : Voting) (comment : Nat) : List CommentVoteObject :=
  s.votes.rows.filter fun v => v.comment = comment

/-- The loop of the constructor, with the weights of the votes that are listed. -/
def calculateWeights (curve : CurationCurve) (window : Nat) (fullList : Bool) :
    List CommentVoteObject → CalculateWeightHelper → Result (CalculateWeightHelper × List CommentVoteInfo)
  | [], h => pure (h, [])
  | vote :: votes, h => do
    let (h, weight) ← h.calculateWeight store curve window vote
    let (h, voteList) ← calculateWeights curve window fullList votes h
    pure (h, if 0 < weight ∨ fullList then ⟨vote, weight⟩ :: voteList else voteList)

/-- The order of the list: by weight, and votes of one weight by the ids of the voters. -/
def Heavier (s : Voting) (r l : CommentVoteInfo) : Prop :=
  l.weight < r.weight ∨
    (r.weight = l.weight ∧ s.staking.accountId r.vote.voter ≤ s.staking.accountId l.vote.voter)

instance (s : Voting) : DecidableRel s.Heavier :=
  fun _ _ => inferInstanceAs (Decidable (_ ∨ _))

/-- The constructor of `comment_curation_info`. -/
def commentCurationInfo (s : Voting) (comment : CommentObject) (fullList : Bool) :
    Result CommentCurationInfo := do
  let curve := s.detectCurationCurve comment
  let cbl := s.getCommentBill comment.id
  let minVestingShares ← (if cbl.minGolosPowerToCurate ≠ 0 then
      s.staking.toVests cbl.minGolosPowerToCurate
    else
      pure 0)
  let info : CommentCurationInfo :=
    { comment := comment, minVestingSharesToCurate := minVestingShares, curve := curve }
  if comment.lastPayout ≠ 0 ∧ ¬fullList then
    pure info
  else
    let (h, voteList) ←
      calculateWeights store curve cbl.auctionWindowSize fullList (s.votesOn comment.id) {}
    let after ← store
      ((h.totalVoteWeight : ℤ) - h.votesInAuctionWindowWeight - h.auctionWindowWeight)
    pure
      { info with
        voteList := voteList.insertionSort s.Heavier
        totalVoteWeight := h.totalVoteWeight
        auctionWindowWeight := h.auctionWindowWeight
        votesInAuctionWindowWeight := h.votesInAuctionWindowWeight
        votesAfterAuctionWindowWeight := after }

end Voting

namespace Voting

section curator

/-- The part of a claim that goes to one delegator. -/
def delegatorClaim (claim : Nat) (dvir : DelegatorVoteInterestRate) : Nat :=
  if steemit100Percent < dvir.interestRate then
    0
  else
    claim * dvir.interestRate % 2 ^ 64 / steemit100Percent

/-- The body of the loop of `pay_delegators`. -/
def payDelegator (delegatee : AccountName) (claim : Nat) (p : Voting × Nat)
    (dvir : DelegatorVoteInterestRate) : Result (Voting × Nat) := do
  let (s, delegatorsReward) := p
  if delegatorClaim claim dvir = 0 then
    pure (s, delegatorsReward)
  else
    let staking ← Staking.payDelegator delegatee claim s.staking dvir
    let s ← { s with staking := staking }.modifyVoter dvir.account fun a => do
      let delegationRewards ←
        add64 a.delegationRewards (delegatorClaim claim dvir) .overflowException
      pure { a with delegationRewards := delegationRewards }
    pure (s, (delegatorsReward + delegatorClaim claim dvir) % 2 ^ 64)

def payDelegators (s : Voting) (delegatee : AccountName) (cvo : CommentVoteObject) (claim : Nat) :
    Result (Voting × Nat) :=
  cvo.delegatorVoteInterestRates.foldlM (payDelegator delegatee claim) (s, 0)

/-- `pay_curator`, with what the curator gets and what goes back to the fund. -/
def payCurator (s : Voting) (cvo : CommentVoteObject) (claim : Nat) (c : CommentCurationInfo) :
    Result (Voting × Nat × ℤ) := do
  let voter ← s.staking.getAccount cvo.voter
  let effective ← voter.effectiveVestingShares
  if effective < c.minVestingSharesToCurate then
    pure (s, 0, intOfUint64 claim)
  else
    let (s, delegatorsReward) ← s.payDelegators cvo.voter cvo claim
    let voterClaim := (claim + (2 ^ 64 - delegatorsReward)) % 2 ^ 64
    let (staking, _) ← s.staking.createVesting cvo.voter (intOfUint64 voterClaim)
    let s ← { s with staking := staking }.modifyVoter cvo.voter fun a => do
      let curationRewards ← add64 a.curationRewards (intOfUint64 voterClaim) .overflowException
      pure { a with curationRewards := curationRewards }
    pure (s, voterClaim, 0)

end curator

/-- What `pay_curators` keeps account of. -/
structure Payout where
  db : Voting
  backToFund : ℤ := 0
  unclaimedRewards : ℤ
  actualRewards : ℤ := 0

namespace Payout

variable (cbl : CommentBill) (c : CommentCurationInfo) (maxRewards : ℤ)

def auctionWindowReward : Nat :=
  toUint128 maxRewards * c.auctionWindowWeight % 2 ^ 128 / c.totalVoteWeight

/-- The auction window's reward is for votes like this. -/
def IsLate (vote : CommentVoteObject) : Prop :=
  cbl.auctionWindowRewardDestination = .toCurators ∧ vote.auctionTime = cbl.auctionWindowSize

instance (vote : CommentVoteObject) : Decidable (IsLate cbl vote) :=
  inferInstanceAs (Decidable (_ ∧ _))

def claim (i : CommentVoteInfo) : Result Nat := do
  let claim ← toUint64 (toUint128 maxRewards * i.weight % 2 ^ 128 / c.totalVoteWeight)
  if IsLate cbl i.vote ∧ c.votesAfterAuctionWindowWeight ≠ 0 then
    let late ← toUint64 (auctionWindowReward c maxRewards * i.weight % 2 ^ 128 /
      c.votesAfterAuctionWindowWeight)
    pure ((claim + late) % 2 ^ 64)
  else
    pure claim

/-- `actual_rewards += pay_curator(..)`, for a part of the rewards. -/
def pay (p : Payout) (i : CommentVoteInfo) (claim : Nat) : Result Payout := do
  let unclaimedRewards ← add64 p.unclaimedRewards (-intOfUint64 claim) .overflowException
  let (db, reward, back) ← p.db.payCurator i.vote claim c
  let backToFund ← add64 p.backToFund back .overflowException
  let actualRewards ← add64 p.actualRewards (intOfUint64 reward) .overflowException
  pure
    { db := db
      backToFund := backToFund
      unclaimedRewards := unclaimedRewards
      actualRewards := actualRewards }

/-- The loop over the votes, which leaves out the heaviest one that is late. -/
def payVotes : List CommentVoteInfo → Option CommentVoteInfo → Payout →
    Result (Option CommentVoteInfo × Payout)
  | [], heaviest, p => pure (heaviest, p)
  | i :: voteList, heaviest, p => do
    let claim ← claim cbl c maxRewards i
    if IsLate cbl i.vote ∧ heaviest.isNone then
      payVotes voteList (some i) p
    else if 0 < claim then
      let p ← p.pay c i claim
      payVotes voteList heaviest p
    else
      pure (heaviest, p)

/-- The heaviest one gets the rest. -/
def payHeaviest (p : Payout) (i : CommentVoteInfo) : Result Payout := do
  let (db, reward, back) ← p.db.payCurator i.vote (uint64OfInt p.unclaimedRewards) c
  let backToFund ← add64 p.backToFund back .overflowException
  pure
    { db := db
      backToFund := backToFund
      unclaimedRewards := 0
      actualRewards := intOfUint64 reward }

def addRewardFund (p : Payout) (amount : ℤ) : Result Payout := do
  let fund ← add64 p.db.totalRewardFundSteem amount .overflowException
  pure { p with db := { p.db with totalRewardFundSteem := fund } }

end Payout

open Payout in
/-- `pay_curators`, with the unclaimed rewards and the actual ones at its end. -/
def payCurators (s : Voting) (c : CommentCurationInfo) (maxRewards : ℤ) : Result Payout := do
  let cbl := s.getCommentBill c.comment.id
  let p : Payout := { db := s, unclaimedRewards := maxRewards }
  let p ← (if 0 < c.totalVoteWeight ∧ cbl.allowCurationRewards then do
      let (heaviest, p) ← payVotes cbl c maxRewards c.voteList none p
      let p ← (match heaviest with
        | some i => p.payHeaviest c i
        | none => pure p)
      if p.backToFund ≠ 0 then p.addRewardFund p.backToFund else pure p
    else
      pure p)
  if ¬cbl.allowCurationRewards then do
    let p ← p.addRewardFund p.unclaimedRewards
    pure { p with unclaimedRewards := 0 }
  else if cbl.auctionWindowRewardDestination ≠ .toAuthor ∧ 0 < p.unclaimedRewards then do
    let p ← p.addRewardFund p.unclaimedRewards
    pure { p with unclaimedRewards := 0 }
  else
    pure p

end Voting

end Golos
