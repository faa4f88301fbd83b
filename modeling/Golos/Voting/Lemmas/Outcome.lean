import Golos.Voting.Impl.Evaluator

/-!
This module contains what a vote that is accepted does to the reputations, the votes and the comments,
so that nothing else has to look into the evaluator.
-/

namespace Golos

open Checked

namespace Voting

variable {s s' s'' : Voting}

def reputation (s : Voting) (name : AccountName) : Option ℤ :=
  (s.voters.find? name).map VoterObject.reputation

section prepares

/-- Comments, their bills and votes are the same. -/
structure SameVotes (s s' : Voting) : Prop where
  comments : s'.comments = s.comments
  bills : s'.bills = s.bills
  votes : s'.votes = s.votes
  headBlockTime : s'.headBlockTime = s.headBlockTime

theorem SameVotes.trans (h : SameVotes s s') (h' : SameVotes s' s'') : SameVotes s s'' where
  comments := h'.comments.trans h.comments
  bills := h'.bills.trans h.bills
  votes := h'.votes.trans h.votes
  headBlockTime := h'.headBlockTime.trans h.headBlockTime

/-- Reputations are the same too. -/
structure Prepares (s s' : Voting) : Prop extends SameVotes s s' where
  reputation : s'.reputation = s.reputation

theorem Prepares.refl (s : Voting) : Prepares s s :=
  ⟨⟨rfl, rfl, rfl, rfl⟩, rfl⟩

theorem Prepares.trans (h : Prepares s s') (h' : Prepares s' s'') : Prepares s s'' where
  toSameVotes := h.toSameVotes.trans h'.toSameVotes
  reputation := h'.reputation.trans h.reputation

theorem modifyVoter_eq_ok {name : AccountName} {f : VoterObject → Result VoterObject} :
    s.modifyVoter name f = .ok s' ↔ ∃ a a', s.voters.find? name = some a ∧ f a = .ok a' ∧
      s' = { s with voters := s.voters.modify name fun a => { a' with name := a.name } } := by
  simp only [modifyVoter, getVoter, bind_eq_ok, get_eq_ok, pure_eq_ok]
  constructor
  . rintro ⟨a, ha, a', ha', rfl⟩
    exact ⟨a, a', ha, ha', rfl⟩
  . rintro ⟨a, a', ha, ha', rfl⟩
    exact ⟨a, ha, a', ha', rfl⟩

theorem sameVotes_of_modifyVoter {name : AccountName} {f : VoterObject → Result VoterObject}
    (h : s.modifyVoter name f = .ok s') : SameVotes s s' := by
  obtain ⟨a, a', -, -, rfl⟩ := modifyVoter_eq_ok.mp h
  exact ⟨rfl, rfl, rfl, rfl⟩

theorem prepares_of_modifyVoter {name : AccountName} {f : VoterObject → Result VoterObject}
    (hf : ∀ a a', f a = .ok a' → a'.reputation = a.reputation)
    (h : s.modifyVoter name f = .ok s') : Prepares s s' := by
  refine ⟨sameVotes_of_modifyVoter h, ?_⟩
  obtain ⟨a, a', ha, ha', rfl⟩ := modifyVoter_eq_ok.mp h
  funext other
  unfold reputation
  dsimp only
  rw [Table.find?_modify]
  split
  . next heq =>
    rw [heq, ha]
    simp [hf a a' ha']
  . rfl

theorem prepares_of_addTipBalance {name : AccountName} {amount : ℤ}
    (h : s.addTipBalance name amount = .ok s') : Prepares s s' := by
  apply prepares_of_modifyVoter ?_ h
  intro a a' ha'
  simp only [bind_eq_ok, pure_eq_ok] at ha'
  obtain ⟨_, -, rfl⟩ := ha'
  rfl

theorem prepares_of_nullTip {payer : AccountName} {fee : ℤ} (h : s.nullTip payer fee = .ok s') :
    Prepares s s' := by
  simp only [nullTip, bind_eq_ok] at h
  obtain ⟨s₁, hs₁, h⟩ := h
  exact (prepares_of_addTipBalance hs₁).trans (prepares_of_addTipBalance h)

theorem prepares_of_checkNegrepPostingBandwidth {name : AccountName}
    (h : s.checkNegrepPostingBandwidth name = .ok s') : Prepares s s' := by
  have hposting : ∀ {s s' : Voting}, (s.modifyVoter name fun a =>
      pure { a with lastPostingAction := s.headBlockTime }) = .ok s' → Prepares s s' := by
    intro s s' h
    apply prepares_of_modifyVoter ?_ h
    intro a a' ha'
    rw [pure_eq_ok] at ha'
    subst ha'
    rfl
  simp only [checkNegrepPostingBandwidth, bind_eq_ok] at h
  obtain ⟨acc, -, h⟩ := h
  split at h
  . exact hposting h
  . simp only [bind_eq_ok] at h
    obtain ⟨-, -, s₁, hs₁, h⟩ := h
    exact (prepares_of_nullTip hs₁).trans (hposting h)

theorem prepares_of_payUnwantedOperation {name : AccountName}
    (h : s.payUnwantedOperation name = .ok s') : Prepares s s' := by
  simp only [payUnwantedOperation, bind_eq_ok, pure_eq_ok] at h
  obtain ⟨-, -, -, -, s₁, hs₁, _, -, rfl⟩ := h
  exact (prepares_of_addTipBalance hs₁).trans ⟨⟨rfl, rfl, rfl, rfl⟩, rfl⟩

theorem prepares_of_useVotingCapacity {name : AccountName}
    (h : s.useVotingCapacity name = .ok s') : Prepares s s' := by
  simp only [useVotingCapacity, bind_eq_ok] at h
  obtain ⟨_, -, _, -, -, -, h⟩ := h
  split at h
  . simp only [bind_eq_ok] at h
    obtain ⟨-, -, h⟩ := h
    exact prepares_of_nullTip h
  . apply prepares_of_modifyVoter ?_ h
    intro a a' ha'
    rw [pure_eq_ok] at ha'
    subst ha'
    rfl

theorem prepares_usePower (s : Voting) (name : AccountName) (power : VotePower) :
    Prepares s (s.usePower name power) :=
  ⟨⟨rfl, rfl, rfl, rfl⟩, rfl⟩

end prepares

section reputation

/-- The reputations after that of the author has grown. -/
def raised (rep : AccountName → Option ℤ) (author : AccountName) (delta : ℤ) :
    AccountName → Option ℤ :=
  fun name => if name = author then (rep name).map (· + delta) else rep name

/-- With these reputations a vote of so many shares may affect that of the author. -/
def Counts (rep : AccountName → Option ℤ) (voter author : AccountName) (rshares : ℤ) : Prop :=
  ∃ v a, rep voter = some v ∧ rep author = some a ∧ 0 ≤ v ∧ (rshares < 0 → a < v)

instance {rep : AccountName → Option ℤ} {voter author : AccountName} {rshares : ℤ} :
    Decidable (Counts rep voter author rshares) :=
  decidable_of_iff (∃ v ∈ rep voter, ∃ a ∈ rep author, 0 ≤ v ∧ (rshares < 0 → a < v)) (by
    unfold Counts
    constructor
    . rintro ⟨v, hv, a, ha, h⟩
      exact ⟨v, a, hv, ha, h⟩
    . rintro ⟨v, a, hv, ha, h⟩
      exact ⟨v, hv, a, ha, h⟩)

/-- The reputations that a vote of so many shares leaves. -/
inductive Reputed (rep : AccountName → Option ℤ) (voter author : AccountName) (rshares : ℤ) :
    (AccountName → Option ℤ) → Prop
  | counted (h : Counts rep voter author rshares) :
    Reputed rep voter author rshares (raised rep author (reputationDelta rshares))
  | ignored (h : ¬Counts rep voter author rshares) : Reputed rep voter author rshares rep

theorem reputation_addReputation {name : AccountName} {delta : ℤ}
    (h : s.addReputation name delta = .ok s') :
    SameVotes s s' ∧ s'.reputation = raised s.reputation name delta := by
  refine ⟨sameVotes_of_modifyVoter h, ?_⟩
  obtain ⟨a, a', ha, ha', rfl⟩ := modifyVoter_eq_ok.mp h
  simp only [bind_eq_ok, pure_eq_ok] at ha'
  obtain ⟨reputation', hadd, rfl⟩ := ha'
  funext other
  unfold reputation raised
  dsimp only
  rw [Table.find?_modify]
  split
  . next heq =>
    rw [heq, ha]
    simp [eq_of_add64_eq_ok hadd]
  . rfl

theorem reputation_unvoteReputation {author : AccountName} {rshares : ℤ}
    (h : s.unvoteReputation author rshares = .ok s') :
    SameVotes s s' ∧ s'.reputation = raised s.reputation author (-reputationDelta rshares) := by
  simp only [unvoteReputation, bind_eq_ok] at h
  obtain ⟨_, -, h⟩ := h
  exact reputation_addReputation h

theorem counts_iff {voter author : AccountName} {v a : VoterObject} {rshares : ℤ}
    (hv : s.voters.find? voter = some v) (ha : s.voters.find? author = some a) :
    Counts s.reputation voter author rshares ↔ MayAffect v a rshares := by
  unfold Counts MayAffect reputation
  rw [hv, ha]
  simp

theorem reputed_of_voteReputation {voter author : AccountName} {rshares : ℤ}
    (h : s.voteReputation voter author rshares = .ok s') :
    SameVotes s s' ∧ Reputed s.reputation voter author rshares s'.reputation := by
  have hsame : SameVotes s s := ⟨rfl, rfl, rfl, rfl⟩
  simp only [voteReputation, bind_eq_ok, getVoter, get_eq_ok] at h
  obtain ⟨v, hv, h⟩ := h
  split at h
  . next hneg =>
    rw [pure_eq_ok] at h
    subst h
    refine ⟨hsame, .ignored ?_⟩
    rintro ⟨v', a', hv', -, hnonneg, -⟩
    unfold reputation at hv'
    rw [hv] at hv'
    cases hv'
    omega
  . simp only [bind_eq_ok, get_eq_ok] at h
    obtain ⟨a, ha, h⟩ := h
    obtain rfl : a.name = author := Table.key_of_find? ha
    split at h
    . next hmay =>
      obtain ⟨hvotes, hrep⟩ := reputation_addReputation h
      rw [hrep]
      exact ⟨hvotes, .counted ((counts_iff hv ha).mpr hmay)⟩
    . next hmay =>
      rw [pure_eq_ok] at h
      subst h
      exact ⟨hsame, .ignored fun hcounts => hmay ((counts_iff hv ha).mp hcounts)⟩

end reputation

section comments

/-- A comment after the shares of a vote are added to those of one comment. -/
structure Grown (comment : Nat) (absRshares voteRshares : ℤ) (c c' : CommentObject) : Prop where
  id : c'.id = c.id
  author : c'.author = c.author
  hashlink : c'.hashlink = c.hashlink
  created : c'.created = c.created
  lastPayout : c'.lastPayout = c.lastPayout
  cashoutTime : c'.cashoutTime = c.cashoutTime
  curationRewardCurve : c'.curationRewardCurve = c.curationRewardCurve
  absRshares : c'.absRshares = c.absRshares + if c.id = comment then absRshares else 0
  voteRshares : c'.voteRshares = c.voteRshares + if c.id = comment then voteRshares else 0

theorem Grown.refl {comment : Nat} {absRshares voteRshares : ℤ} {c : CommentObject}
    (h : c.id ≠ comment) : Grown comment absRshares voteRshares c c := by
  constructor
  case absRshares => simp [h]
  case voteRshares => simp [h]
  all_goals rfl

/-- The comments of `s'` are those of `s`, with the shares of a vote added to one of them. -/
def Adds (s s' : Voting) (comment : Nat) (absRshares voteRshares : ℤ) : Prop :=
  List.Forall₂ (Grown comment absRshares voteRshares) s.comments.rows s'.comments.rows

/-- What becomes of the rest when a comment gets a vote. -/
structure Elsewhere (s s' : Voting) : Prop where
  bills : s'.bills = s.bills
  headBlockTime : s'.headBlockTime = s.headBlockTime

/-- The sums of the comment itself are changed, and then those of the comment at the root. -/
theorem adds_of_addChildrenAbsRshares {comment : Nat} {c : CommentObject}
    {absRshares voteRshares children : ℤ} {f : CommentObject → CommentObject}
    {hf : ∀ c, (f c).id = c.id}
    (hgrown : ∀ c ∈ s.comments.rows, c.id = comment → Grown comment absRshares voteRshares c (f c))
    (h : (s.modifyComment comment f hf).addChildrenAbsRshares c children = .ok s') :
    Adds s s' comment absRshares voteRshares ∧ s'.votes = s.votes ∧ Elsewhere s s' ∧
      s'.reputation = s.reputation := by
  simp only [addChildrenAbsRshares, bind_eq_ok, pure_eq_ok] at h
  obtain ⟨_, -, children, -, rfl⟩ := h
  refine ⟨?_, rfl, ⟨rfl, rfl⟩, rfl⟩
  unfold Adds modifyComment
  simp only [Table.modify, List.map_map, List.forall₂_map_right_iff, List.forall₂_same,
    Function.comp_apply]
  intro c hc
  have hmodified : Grown comment absRshares voteRshares c (if c.id = comment then f c else c) := by
    split
    . next heq => exact hgrown c hc heq
    . next hne => exact .refl hne
  generalize (if c.id = comment then f c else c) = c' at hmodified
  split
  . exact ⟨hmodified.id, hmodified.author, hmodified.hashlink, hmodified.created,
      hmodified.lastPayout, hmodified.cashoutTime, hmodified.curationRewardCurve,
      hmodified.absRshares, hmodified.voteRshares⟩
  . exact hmodified

theorem mem_of_findCommentByPerm {author : AccountName} {hashlink : Nat} {c : CommentObject}
    (h : s.findCommentByPerm author hashlink = some c) : c ∈ s.comments.rows :=
  List.mem_of_find?_eq_some h

end comments

section power

/-- A vote without weight takes no power, and every other one has shares. -/
theorem absRshares_nonneg {account : StakeAccountObject} {weight : ℤ} {power : VotePower}
    (h : s.votePower account weight = .ok power) : 0 ≤ power.absRshares := by
  simp only [votePower, bind_eq_ok, ensure_eq_ok, pure_eq_ok] at h
  obtain ⟨-, -, -, hdenom, -, -, _, -, absRshares, habs, -, hsmall, rfl⟩ := h
  dsimp only
  rcases hsmall with hlarge | rfl
  . omega
  . have hzero : ∀ d : ℤ, 0 < d → (d - 1).tdiv d = 0 := by
      intro d hd
      apply Int.tdiv_eq_zero_of_lt
      . omega
      . omega
    simp only [abs_zero, mul_zero, Int.zero_tdiv, zero_add] at habs
    rw [hzero _ hdenom] at habs
    simp [toUint128, ofUint128] at habs
    omega

theorem abs_signedRshares (weight : ℤ) {absRshares : ℤ} (h : 0 ≤ absRshares) :
    |signedRshares weight absRshares| = absRshares := by
  unfold signedRshares
  split
  . rw [abs_neg, abs_of_nonneg h]
  . exact abs_of_nonneg h

end power

section outcome

/-- The object of a vote after it is changed. -/
def changedVote (op : VoteOperation) (rshares : ℤ) (now : Nat) (v : CommentVoteObject) :
    CommentVoteObject :=
  { v with
    rshares := rshares
    votePercent := op.weight
    lastUpdate := now
    numChanges := v.numChanges + 1
    delegatorVoteInterestRates := [] }

theorem byCommentVoter_changedVote (op : VoteOperation) (rshares : ℤ) (now : Nat)
    (v : CommentVoteObject) : (changedVote op rshares now v).byCommentVoter = v.byCommentVoter :=
  rfl

/-- The object of a vote after the payout. -/
def lateVote (op : VoteOperation) (comment now : Nat) : CommentVoteObject where
  voter := op.voter
  comment := comment
  votePercent := op.weight
  lastUpdate := now
  numChanges := -2

/-- The object of a vote after it is changed after the payout. -/
def lateChange (op : VoteOperation) (now : Nat) (v : CommentVoteObject) : CommentVoteObject :=
  { v with votePercent := op.weight, lastUpdate := now }

theorem byCommentVoter_lateChange (op : VoteOperation) (now : Nat) (v : CommentVoteObject) :
    (lateChange op now v).byCommentVoter = v.byCommentVoter :=
  rfl

theorem Elsewhere.trans (h : Elsewhere s s') (h' : Elsewhere s' s'') : Elsewhere s s'' where
  bills := h'.bills.trans h.bills
  headBlockTime := h'.headBlockTime.trans h.headBlockTime

theorem Prepares.elsewhere (h : Prepares s s') : Elsewhere s s' :=
  ⟨h.bills, h.headBlockTime⟩

/-- What a vote that is accepted does. -/
inductive VoteOutcome (s : Voting) (op : VoteOperation) (s' : Voting) : Prop
  | account (rshares : ℤ) (hcomment : s.findCommentByPerm op.author op.hashlink = none)
      (hsame : SameVotes s s')
      (hrep : Reputed s.reputation op.voter op.author rshares s'.reputation)
  | lateFirst (c : CommentObject) (hcomment : s.findCommentByPerm op.author op.hashlink = some c)
      (hlate : c.cashoutTime = maxTimePoint)
      (hvotes : ∃ hnone, s'.votes = s.votes.insert (lateVote op c.id s.headBlockTime) hnone)
      (hadds : Adds s s' c.id 0 0) (helsewhere : Elsewhere s s')
      (hrep : s'.reputation = s.reputation)
  | lateChange (c : CommentObject) (v : CommentVoteObject)
      (hcomment : s.findCommentByPerm op.author op.hashlink = some c)
      (hlate : c.cashoutTime = maxTimePoint)
      (hvote : s.votes.find? (c.id, op.voter) = some v)
      (hvotes : s'.votes = s.votes.modify (c.id, op.voter) (lateChange op s.headBlockTime)
        (byCommentVoter_lateChange op s.headBlockTime))
      (hadds : Adds s s' c.id 0 0) (helsewhere : Elsewhere s s')
      (hrep : s'.reputation = s.reputation)
  | first (c : CommentObject) (rshares : ℤ) (rates : List DelegatorVoteInterestRate)
      (hcomment : s.findCommentByPerm op.author op.hashlink = some c)
      (hpending : c.cashoutTime ≠ maxTimePoint)
      (hvotes : ∃ hnone, s'.votes = s.votes.insert (s.newVote c op rshares rates) hnone)
      (hadds : Adds s s' c.id |rshares| (max rshares 0)) (helsewhere : Elsewhere s s')
      (habs : c.absRshares ≤ maxInt64 → c.absRshares + |rshares| ≤ maxInt64)
      (hpos : c.voteRshares ≤ maxInt64 → c.voteRshares + max rshares 0 ≤ maxInt64)
      (hrep : Reputed s.reputation op.voter op.author rshares s'.reputation)
  | changed (c : CommentObject) (v : CommentVoteObject) (rshares : ℤ)
      (hcomment : s.findCommentByPerm op.author op.hashlink = some c)
      (hpending : c.cashoutTime ≠ maxTimePoint)
      (hvote : s.votes.find? (c.id, op.voter) = some v)
      (hvotes : s'.votes = s.votes.modify (c.id, op.voter) (changedVote op rshares s.headBlockTime)
        (byCommentVoter_changedVote op rshares s.headBlockTime))
      (hadds : Adds s s' c.id |rshares| 0) (helsewhere : Elsewhere s s')
      (hchanges : v.numChanges < steemitMaxVoteChanges)
      (habs : c.absRshares ≤ maxInt64 → c.absRshares + |rshares| ≤ maxInt64)
      (hrep : Reputed (raised s.reputation op.author (-reputationDelta v.rshares)) op.voter
        op.author rshares s'.reputation)

theorem newVote_congr (c : CommentObject) (op : VoteOperation) (rshares : ℤ)
    (rates : List DelegatorVoteInterestRate) (hbills : s'.bills = s.bills)
    (htime : s'.headBlockTime = s.headBlockTime) :
    s'.newVote c op rshares rates = s.newVote c op rshares rates := by
  unfold newVote auctionTime getCommentBill findCommentBill
  rw [hbills, htime]

theorem byCommentVoter_newVote (c : CommentObject) (op : VoteOperation) (rshares : ℤ)
    (rates : List DelegatorVoteInterestRate) :
    (s.newVote c op rshares rates).byCommentVoter = (c.id, op.voter) := by
  unfold newVote
  dsimp only
  split
  . rfl
  . rfl

theorem rshares_newVote (c : CommentObject) (op : VoteOperation) (rshares : ℤ)
    (rates : List DelegatorVoteInterestRate) : (s.newVote c op rshares rates).rshares = rshares := by
  unfold newVote
  dsimp only
  split
  . rfl
  . rfl

theorem outcome_of_archivedVote {c : CommentObject} {op : VoteOperation}
    (hcomment : s.findCommentByPerm op.author op.hashlink = some c)
    (hlate : c.cashoutTime = maxTimePoint) (h : s.archivedVote c op = .ok s') :
    VoteOutcome s op s' := by
  unfold archivedVote at h
  split at h
  . next hnone =>
    simp only [createVote, bind_eq_ok, get_eq_ok, pure_eq_ok] at h
    obtain ⟨votes, hvotes, rfl⟩ := h
    obtain ⟨hfree, hinsert⟩ := Table.emplace_eq_some_iff.mp hvotes
    refine .lateFirst c hcomment hlate ⟨hnone, hinsert.symm⟩ ?_ ⟨rfl, rfl⟩ rfl
    unfold Adds modifyComment
    simp only [Table.modify, List.forall₂_map_right_iff, List.forall₂_same]
    intro c' hc'
    split
    . exact ⟨rfl, rfl, rfl, rfl, rfl, rfl, rfl, by simp, by simp⟩
    . exact ⟨rfl, rfl, rfl, rfl, rfl, rfl, rfl, by simp, by simp⟩
  . next v hvote =>
    rw [pure_eq_ok] at h
    subst h
    refine .lateChange c v hcomment hlate hvote rfl ?_ ⟨rfl, rfl⟩ rfl
    unfold Adds modifyVote
    simp only [List.forall₂_same]
    intro c' hc'
    exact ⟨rfl, rfl, rfl, rfl, rfl, rfl, rfl, by simp, by simp⟩

theorem outcome_of_voteForAccount {op : VoteOperation} {power : VotePower}
    (h : s.voteForAccount op power = .ok s') : ∃ rshares, SameVotes s s' ∧
      Reputed s.reputation op.voter op.author rshares s'.reputation := by
  simp only [voteForAccount, bind_eq_ok, pure_eq_ok] at h
  obtain ⟨-, -, -, -, s₁, hs₁, rfl⟩ := h
  obtain ⟨hsame, hrep⟩ := reputed_of_voteReputation hs₁
  have hused := prepares_usePower s₁ op.voter power
  refine ⟨signedRshares op.weight power.absRshares, hsame.trans hused.toSameVotes, ?_⟩
  rw [hused.reputation]
  exact hrep

theorem outcome_of_firstVote {c : CommentObject} {account : StakeAccountObject}
    {op : VoteOperation} {power : VotePower}
    (hcomment : s.findCommentByPerm op.author op.hashlink = some c)
    (hpending : c.cashoutTime ≠ maxTimePoint) (hpower : 0 ≤ power.absRshares)
    (h : s.firstVote c account op power = .ok s') : VoteOutcome s op s' := by
  simp only [firstVote, bind_eq_ok] at h
  obtain ⟨rates, -, -, -, -, -, -, -, netRshares, -, absRshares, habs, voteRshares, hpos, s₁, hs₁,
    s₂, hs₂, h⟩ := h
  have hsigned := abs_signedRshares op.weight hpower
  generalize signedRshares op.weight power.absRshares = rshares at hpos hs₁ hs₂ h hsigned
  have habs' := eq_of_add64_eq_ok habs
  have hpos' : voteRshares = c.voteRshares + max rshares 0 := by
    split at hpos
    . next hlt => rw [eq_of_add64_eq_ok hpos, max_eq_left hlt.le]
    . next hle =>
      rw [pure_eq_ok] at hpos
      rw [← hpos, max_eq_right (not_lt.mp hle), add_zero]
  have hgrown : ∀ c' ∈ s.comments.rows, c'.id = c.id →
      Grown c.id |rshares| (max rshares 0) c'
        { c' with
          netRshares := netRshares
          absRshares := absRshares
          totalVotes := c'.totalVotes + 1
          voteRshares := voteRshares
          netVotes := if 0 < rshares then c'.netVotes + 1 else c'.netVotes - 1 } := by
    intro c' hc' hid
    obtain rfl := s.comments.mem_rows_inj hc' (mem_of_findCommentByPerm hcomment) hid
    refine ⟨rfl, rfl, rfl, rfl, rfl, rfl, rfl, ?_, ?_⟩
    . rw [if_pos rfl, hsigned]
      exact habs'
    . rw [if_pos rfl]
      exact hpos'
  obtain ⟨hadds, hvotes₁, helsewhere, hrep₁⟩ :=
    adds_of_addChildrenAbsRshares (s := s.usePower op.voter power) hgrown hs₁
  rw [newVote_congr c op rshares rates helsewhere.bills helsewhere.headBlockTime] at hs₂
  simp only [createVote, bind_eq_ok, get_eq_ok, pure_eq_ok] at hs₂
  obtain ⟨votes, hvotes, rfl⟩ := hs₂
  rw [hvotes₁] at hvotes
  obtain ⟨hfree, hinsert⟩ := Table.emplace_eq_some_iff.mp hvotes
  obtain ⟨hsame, hrep⟩ := reputed_of_voteReputation h
  refine .first c rshares rates hcomment hpending ⟨hfree, hsame.votes.trans hinsert.symm⟩ ?_
    ⟨hsame.bills.trans helsewhere.bills, hsame.headBlockTime.trans helsewhere.headBlockTime⟩
    ?_ ?_ ?_
  . unfold Adds
    rw [hsame.comments]
    exact hadds
  . intro hle
    rw [hsigned, ← habs']
    exact le_maxInt64_of_add64_eq_ok hle habs
  . intro hle
    split at hpos
    . rw [← hpos']
      exact le_maxInt64_of_add64_eq_ok hle hpos
    . next hlt =>
      rw [max_eq_right (not_lt.mp hlt), add_zero]
      exact hle
  . have : (s.usePower op.voter power).reputation = s.reputation := rfl
    rw [← this, ← hrep₁]
    exact hrep

theorem outcome_of_changeVote {c : CommentObject} {v : CommentVoteObject}
    {op : VoteOperation} {power : VotePower}
    (hcomment : s.findCommentByPerm op.author op.hashlink = some c)
    (hpending : c.cashoutTime ≠ maxTimePoint) (hvote : s.findVote c.id op.voter = some v)
    (hpower : 0 ≤ power.absRshares) (h : s.changeVote c v op power = .ok s') :
    VoteOutcome s op s' := by
  simp only [changeVote, bind_eq_ok, ensure_eq_ok] at h
  obtain ⟨s₀, hs₀, -, hchanges, -, -, -, -, _, -, netRshares, -, absRshares, habs, s₁, hs₁, h⟩ := h
  have hsigned := abs_signedRshares op.weight hpower
  generalize signedRshares op.weight power.absRshares = rshares at hs₁ h hsigned
  obtain ⟨hsame₀, hrep₀⟩ := reputation_unvoteReputation hs₀
  have habs' := eq_of_add64_eq_ok habs
  have hgrown : ∀ c' ∈ s₀.comments.rows, c'.id = c.id →
      Grown c.id |rshares| 0 c'
        { c' with
          netRshares := netRshares
          absRshares := absRshares
          netVotes := c'.netVotes + netVotesChange v.rshares rshares } := by
    intro c' hc' hid
    rw [hsame₀.comments] at hc'
    obtain rfl := s.comments.mem_rows_inj hc' (mem_of_findCommentByPerm hcomment) hid
    refine ⟨rfl, rfl, rfl, rfl, rfl, rfl, rfl, ?_, ?_⟩
    . rw [if_pos rfl, hsigned]
      exact habs'
    . rw [if_pos rfl, add_zero]
  obtain ⟨hadds, hvotes₁, helsewhere, hrep₁⟩ :=
    adds_of_addChildrenAbsRshares (s := s₀.usePower op.voter power) hgrown hs₁
  obtain ⟨hsame, hrep⟩ := reputed_of_voteReputation h
  have htime : s₁.headBlockTime = s.headBlockTime :=
    helsewhere.headBlockTime.trans hsame₀.headBlockTime
  refine .changed c v rshares hcomment hpending hvote ?_ ?_ ?_ hchanges ?_ ?_
  . rw [hsame.votes, ← htime]
    unfold adjustRshares2 modifyVote
    dsimp only
    rw [hvotes₁]
    have hvotes : (s₀.usePower op.voter power).votes = s.votes := hsame₀.votes
    rw [hvotes]
    rfl
  . unfold Adds
    rw [hsame.comments, ← hsame₀.comments]
    exact hadds
  . exact ⟨hsame.bills.trans (helsewhere.bills.trans hsame₀.bills),
      hsame.headBlockTime.trans htime⟩
  . intro hle
    rw [hsigned, ← habs']
    exact le_maxInt64_of_add64_eq_ok hle habs
  . have : s₁.reputation = s₀.reputation := hrep₁
    rw [← hrep₀, ← this]
    exact hrep

/-- What is paid and checked before a vote leaves what the vote does. -/
theorem VoteOutcome.of_prepares {op : VoteOperation} (hp : Prepares s s') (h : VoteOutcome s' op s'') :
    VoteOutcome s op s'' := by
  have hfind : s'.findCommentByPerm op.author op.hashlink =
      s.findCommentByPerm op.author op.hashlink := by
    unfold findCommentByPerm
    rw [hp.comments]
  cases h with
  | account rshares hcomment hsame hrep =>
    rw [hfind] at hcomment
    rw [hp.reputation] at hrep
    exact .account rshares hcomment (hp.toSameVotes.trans hsame) hrep
  | lateFirst c hcomment hlate hvotes hadds helsewhere hrep =>
    rw [hfind] at hcomment
    rw [hp.votes, hp.headBlockTime] at hvotes
    unfold Adds at hadds
    rw [hp.comments] at hadds
    exact .lateFirst c hcomment hlate hvotes hadds (hp.elsewhere.trans helsewhere)
      (hrep.trans hp.reputation)
  | lateChange c v hcomment hlate hvote hvotes hadds helsewhere hrep =>
    rw [hfind] at hcomment
    rw [hp.votes] at hvote hvotes
    simp only [hp.headBlockTime] at hvotes
    unfold Adds at hadds
    rw [hp.comments] at hadds
    exact .lateChange c v hcomment hlate hvote hvotes hadds (hp.elsewhere.trans helsewhere)
      (hrep.trans hp.reputation)
  | first c rshares rates hcomment hpending hvotes hadds helsewhere habs hpos hrep =>
    rw [hfind] at hcomment
    rw [hp.votes, newVote_congr c op rshares rates hp.bills hp.headBlockTime] at hvotes
    unfold Adds at hadds
    rw [hp.comments] at hadds
    rw [hp.reputation] at hrep
    exact .first c rshares rates hcomment hpending hvotes hadds (hp.elsewhere.trans helsewhere)
      habs hpos hrep
  | changed c v rshares hcomment hpending hvote hvotes hadds helsewhere hchanges habs hrep =>
    rw [hfind] at hcomment
    rw [hp.votes] at hvote hvotes
    simp only [hp.headBlockTime] at hvotes
    unfold Adds at hadds
    rw [hp.comments] at hadds
    rw [hp.reputation] at hrep
    exact .changed c v rshares hcomment hpending hvote hvotes hadds
      (hp.elsewhere.trans helsewhere) hchanges habs hrep

theorem outcome_of_vote {op : VoteOperation} (h : s.vote op = .ok s') : VoteOutcome s op s' := by
  simp only [vote, bind_eq_ok] at h
  obtain ⟨-, -, -, -, voter, -, -, -, -, -, -, -, s₁, hs₁, s₂, hs₂, h⟩ := h
  have hprepared : Prepares s s₂ := by
    apply (prepares_of_checkNegrepPostingBandwidth hs₁).trans
    split at hs₂
    . exact prepares_of_payUnwantedOperation hs₂
    . rw [pure_eq_ok] at hs₂
      exact hs₂ ▸ .refl s₁
  have hfind : s₂.findCommentByPerm op.author op.hashlink =
      s.findCommentByPerm op.author op.hashlink := by
    unfold findCommentByPerm
    rw [hprepared.comments]
  rw [← hfind] at h
  apply VoteOutcome.of_prepares hprepared
  split at h
  . next hcomment =>
    simp only [bind_eq_ok] at h
    obtain ⟨s₃, hs₃, account, -, power, -, h⟩ := h
    have hcapacity := prepares_of_useVotingCapacity hs₃
    apply VoteOutcome.of_prepares hcapacity
    obtain ⟨rshares, hsame, hrep⟩ := outcome_of_voteForAccount h
    refine .account rshares ?_ hsame hrep
    unfold findCommentByPerm at hcomment ⊢
    rw [hcapacity.comments]
    exact hcomment
  . next c hcomment =>
    split at h
    . next hlate => exact outcome_of_archivedVote hcomment hlate h
    . next hpending =>
      simp only [bind_eq_ok] at h
      obtain ⟨s₃, hs₃, account, -, power, hpower, h⟩ := h
      have hcapacity := prepares_of_useVotingCapacity hs₃
      have hcomment₃ : s₃.findCommentByPerm op.author op.hashlink = some c := by
        unfold findCommentByPerm at hcomment ⊢
        rw [hcapacity.comments]
        exact hcomment
      apply VoteOutcome.of_prepares hcapacity
      have hnonneg := absRshares_nonneg hpower
      split at h
      . exact outcome_of_firstVote hcomment₃ hpending hnonneg h
      . next v hvote => exact outcome_of_changeVote hcomment₃ hpending hvote hnonneg h

end outcome

end Voting

end Golos
