import Golos.Voting.Impl.Evaluator

/-!
This module contains the evaluator of posts and comments, with the windows that limit how many of
them an account may publish, under the rules of hardfork 30.
-/

namespace Golos

open Checked

def steemitPostAverageWindow : Nat := 60 * 60 * 24

def steemitPostMaxBandwidth : Nat := 4 * steemit100Percent

def steemitPostWeightConstant : Nat := steemitPostMaxBandwidth * steemitPostMaxBandwidth

def steemitMaxCommentDepth : Nat := 0xfff0

/-- `STEEMIT_ROOT_POST_PARENT` -/
def rootPostParent : AccountName := ""

/-- `comment_operation`, with the sizes and the hashes of its texts. -/
structure CommentOperation where
  parentAuthor : AccountName
  parentPermlinkSize : Nat
  parentHashlink : Nat
  author : AccountName
  hashlink : Nat
  /-- The sizes of the title, the body and the metadata together. -/
  contentSize : Nat

/-- The part of `account_object` that posting has to itself. -/
structure PosterObject where
  name : AccountName
  postsCapacity : Nat := 3
  commentsCapacity : Nat := 200
  lastPost : Nat := 0
  lastComment : Nat := 0
  doNotBother : Bool := false
  deriving DecidableEq

/-- The part of `comment_object` that says where in a discussion it stands. -/
structure CommentPlaceObject where
  comment : Nat
  parentAuthor : AccountName
  parentHashlink : Nat
  parentPermlinkSize : Nat
  depth : Nat := 0
  children : Nat := 0
  rewardWeight : Nat := 0
  deriving DecidableEq

/-- An `account_bandwidth_object` of the type `post`. -/
structure AccountBandwidthObject where
  account : AccountName
  averageBandwidth : ℤ := 0
  lastBandwidthUpdate : Nat := 0
  deriving DecidableEq

/-- The windows of `witness_schedule_object::median_props` for posts and comments. -/
structure PostMedianProps where
  postsWindow : Nat := 3
  postsPerWindow : Nat := 1
  commentsWindow : Nat := 200
  commentsPerWindow : Nat := 10
  deriving DecidableEq

/-- The part of `database` that posts, comments and votes read and write. -/
structure Posting where
  voting : Voting := {}
  posters : Table PosterObject.name := .empty
  places : Table CommentPlaceObject.comment := .empty
  bandwidths : Table AccountBandwidthObject.account := .empty
  /-- The accounts that block others, with those they block. -/
  blocking : List (AccountName × AccountName) := []
  medianProps : PostMedianProps := {}
  /-- The bill that the properties make for a new comment. -/
  newBill : CommentBill := {}
  nextCommentId : Nat := 0

namespace Posting

def headBlockTime (s : Posting) : Nat :=
  s.voting.headBlockTime

def getPoster (s : Posting) (name : AccountName) : Result PosterObject :=
  get (s.posters.find? name) (.missingObject "account")

def modifyPoster (s : Posting) (name : AccountName) (f : PosterObject → PosterObject)
    (hf : autoParam (∀ a, (f a).name = a.name) Monoid.npow_zero._autoParam) : Posting :=
  { s with posters := s.posters.modify name f hf }

/-- What changes nothing but the part of the state that votes have. -/
def onVoting (s : Posting) (f : Voting → Result Voting) : Result Posting := do
  let voting ← f s.voting
  pure { s with voting := voting }

section bandwidth

/-- The minutes since an action of an account. -/
def getElapsed (s : Posting) (last : Nat) : Nat :=
  (s.headBlockTime - last) % 2 ^ 32 / 60

/-- What an action leaves of a capacity, nothing at all if the window is used up. -/
def windowCapacity (s : Posting) (window perWindow capacity last : Nat) :
    Result (Option Nat) := do
  ensure (perWindow ≠ 0) (.assertException "division by zero")
  let consumption := window / perWindow
  let currentCapacity := min ((capacity + min window (s.getElapsed last)) % 2 ^ 16) window
  if currentCapacity + 1 ≤ consumption then
    pure none
  else
    pure (some ((currentCapacity + (2 ^ 16 - consumption)) % 2 ^ 16))

def makeUnlimitFee (s : Posting) (author : AccountName) (bandwidth : String) : Result Posting := do
  let voter ← s.voting.getVoter author
  let fee := s.voting.medianProps.unlimitOperationCost
  ensure (fee ≤ voter.tipBalance) (.assertException bandwidth)
  s.onVoting fun voting => voting.nullTip author fee

/-- `comment_bandwidth::hf22` -/
def hf22 (s : Posting) (op : CommentOperation) : Result Posting := do
  let s ← s.onVoting fun voting => voting.checkNegrepPostingBandwidth op.author
  let auth ← s.getPoster op.author
  if op.parentAuthor = rootPostParent then
    match ← s.windowCapacity s.medianProps.postsWindow s.medianProps.postsPerWindow
        auth.postsCapacity auth.lastPost with
    | none => s.makeUnlimitFee op.author "post_bandwidth"
    | some capacity => pure (s.modifyPoster op.author fun a => { a with postsCapacity := capacity })
  else
    match ← s.windowCapacity s.medianProps.commentsWindow s.medianProps.commentsPerWindow
        auth.commentsCapacity auth.lastComment with
    | none => s.makeUnlimitFee op.author "comment_bandwidth"
    | some capacity =>
      pure (s.modifyPoster op.author fun a => { a with commentsCapacity := capacity })

/-- The account's bandwidth for posts, which is created if there is none. -/
def getBandwidth (s : Posting) (account : AccountName) : Posting × AccountBandwidthObject :=
  match h : s.bandwidths.find? account with
  | some band => (s, band)
  | none => ({ s with bandwidths := s.bandwidths.insert { account := account } h },
    { account := account })

/-- The average with a new post in it. -/
def nextBandwidth (now : Nat) (band : AccountBandwidthObject) : Result ℤ := do
  let postDeltaTime := min ((now - band.lastBandwidthUpdate) % 2 ^ 32) steemitPostAverageWindow
  let old ← int64 (band.averageBandwidth * (steemitPostAverageWindow - postDeltaTime : Nat))
    .overflowException
  add64 (old.tdiv steemitPostAverageWindow) steemit100Percent .overflowException

/-- `comment_bandwidth::calculate` -/
def calculate (s : Posting) (op : CommentOperation) (band : AccountBandwidthObject) :
    Result (Posting × Nat) := do
  if op.parentAuthor = rootPostParent then
    let pb ← nextBandwidth s.headBlockTime band
    let square ← int64 (pb * pb) .overflowException
    ensure (square ≠ 0) (.assertException "division by zero")
    let rewardWeight :=
      min (steemitPostWeightConstant * steemit100Percent / square.toNat) steemit100Percent
    pure
      ({ s with bandwidths := s.bandwidths.modify op.author fun b =>
          { b with lastBandwidthUpdate := s.headBlockTime, averageBandwidth := pb } },
        rewardWeight)
  else
    pure (s, steemit100Percent)

/-- `comment_bandwidth::calc_reward_weight` -/
def calcRewardWeight (s : Posting) (op : CommentOperation) : Result (Posting × Nat) := do
  let (s, band) := s.getBandwidth op.author
  let s ← s.hf22 op
  s.calculate op band

end bandwidth

section blocking

/-- `is_blocking`, as the two ways in which an account is blocked. -/
def isBlocking (s : Posting) (account blocking : AccountName) : Result Bool := do
  if (account, blocking) ∈ s.blocking then
    pure true
  else
    let acc ← s.getPoster account
    let reputation := ((s.voting.voters.find? blocking).map VoterObject.reputation).getD 0
    pure (acc.doNotBother ∧ reputation < 27800000000000)

/-- `check_no_blocking`, which lets those who are blocked pay. -/
def checkNoBlocking (s : Posting) (account blocking : AccountName) : Result Posting := do
  if ← s.isBlocking account blocking then
    let payer ← s.voting.getVoter blocking
    let cost := s.voting.medianProps.unwantedOperationCost
    ensure (cost ≤ payer.tipBalance) (.invalidValue "You need TIP balance")
    let s ← s.onVoting fun voting => voting.addTipBalance blocking (-cost)
    s.onVoting fun voting => voting.addTipBalance account cost
  else
    pure s

end blocking

section comment

def getPlace (s : Posting) (comment : Nat) : Result CommentPlaceObject :=
  get (s.places.find? comment) (.missingObject "comment")

def getComment (s : Posting) (author : AccountName) (hashlink : Nat) :
    Result Voting.CommentObject :=
  get (s.voting.findCommentByPerm author hashlink) (.missingObject "comment")

/-- The comment that a new one answers. -/
def findParent (s : Posting) (op : CommentOperation) :
    Result (Posting × Option Voting.CommentObject) := do
  if op.parentAuthor = rootPostParent then
    pure (s, none)
  else
    let parent ← s.getComment op.parentAuthor op.parentHashlink
    let s ← s.checkNoBlocking op.parentAuthor op.author
    let place ← s.getPlace parent.id
    ensure (place.depth < steemitMaxCommentDepth) (.logicException "reached_comment_max_depth")
    pure (s, some parent)

/-- The loop over the comments above a new one, which are fewer than the depth. -/
def countChild (op : CommentOperation) : Nat → Posting → Voting.CommentObject → Result Posting
  | 0, _, _ => throw (.internalError "a comment that is above itself")
  | fuel + 1, s, parent => do
    let place ← s.getPlace parent.id
    let s := { s with places := s.places.modify parent.id fun p =>
      { p with children := p.children + 1 } }
    if place.parentAuthor = rootPostParent then
      if parent.author = op.parentAuthor then
        pure s
      else
        s.checkNoBlocking parent.author op.author
    else
      let above ← s.getComment place.parentAuthor place.parentHashlink
      countChild op fuel s above

/-- The place of a new comment in its discussion. -/
def newPlace (op : CommentOperation) (id rewardWeight : Nat) :
    Option (Voting.CommentObject × CommentPlaceObject) → CommentPlaceObject
  | none =>
    { comment := id
      parentAuthor := rootPostParent
      parentHashlink := op.parentHashlink
      parentPermlinkSize := op.parentPermlinkSize
      rewardWeight := rewardWeight }
  | some (parent, place) =>
    { comment := id
      parentAuthor := parent.author
      parentHashlink := parent.hashlink
      parentPermlinkSize := op.parentPermlinkSize
      depth := place.depth + 1
      rewardWeight := rewardWeight }

/-- The time of the last post or comment of the author. -/
def touchPoster (s : Posting) (op : CommentOperation) : Posting :=
  s.modifyPoster op.author fun a =>
    { a with
      lastPost := if op.parentAuthor = rootPostParent then s.headBlockTime else a.lastPost
      lastComment := if op.parentAuthor = rootPostParent then a.lastComment else s.headBlockTime }

def createComment (s : Posting) (op : CommentOperation) (parent : Option Voting.CommentObject)
    (rewardWeight : Nat) : Result Posting := do
  let id := s.nextCommentId
  let above ← parent.mapM fun p => do
    let place ← s.getPlace p.id
    pure (p, place)
  let voting ← s.voting.createComment id op.author op.hashlink
    (parent.map Voting.CommentObject.rootComment) s.newBill
  let places ← get (s.places.emplace (newPlace op id rewardWeight above)) .uniquenessViolated
  let s := { s with voting := voting, places := places, nextCommentId := id + 1 }
  match above with
  | none => pure s
  | some (p, place) => countChild op (place.depth + 1) s p

/-- A comment that is published for the first time. -/
def newComment (s : Posting) (op : CommentOperation) (parent : Option Voting.CommentObject) :
    Result Posting := do
  let (s, rewardWeight) ← s.calcRewardWeight op
  (s.touchPoster op).createComment op parent rewardWeight

/-- A comment that is published again, under the same parent. -/
def editComment (s : Posting) (op : CommentOperation) (comment : Voting.CommentObject) :
    Result Posting := do
  let place ← s.getPlace comment.id
  ensure (place.parentAuthor = op.parentAuthor)
    (.logicException "parent_of_comment_cannot_change")
  ensure (place.parentPermlinkSize = op.parentPermlinkSize ∨ comment.hashlink = op.parentHashlink)
    (.logicException "parent_perlink_of_comment_cannot_change")
  pure s

/-- `comment_evaluator::do_apply` -/
def comment (s : Posting) (op : CommentOperation) : Result Posting := do
  ensure (op.contentSize ≠ 0)
    (.logicException "cannot_update_comment_because_nothing_changed")
  let found := s.voting.findCommentByPerm op.author op.hashlink
  let auth ← s.voting.getVoter op.author
  ensure (¬(auth.ownerChallenged ∨ auth.activeChallenged))
    (.logicException "account_is_currently_challenged")
  let (s, parent) ← s.findParent op
  match found with
  | none => s.newComment op parent
  | some comment => s.editComment op comment

end comment

/-- `vote_evaluator::do_apply` in the same state. -/
def vote (s : Posting) (op : VoteOperation) : Result Posting :=
  s.onVoting fun voting => voting.vote op

end Posting

end Golos
