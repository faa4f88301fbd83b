import Golos.Feed.Impl
import Golos.Lib.Effect
import Golos.Lib.Transition
import Golos.Lib.UndoStack
import Golos.Voting.Impl.Payout

/-!
This module contains the records of what comments have been paid, which `social_network` makes from
the virtual operations of their payouts.
-/

namespace Golos

open Checked

/-- The variables of `social_network::impl` in which the parts of a payout are summed up. -/
@[ext]
structure RewardAmounts where
  authorGbgPayoutValue : ℤ := 0
  authorGolosPayoutValue : ℤ := 0
  authorGestsPayoutValue : ℤ := 0
  benefPayoutGests : ℤ := 0
  curatorPayoutGests : ℤ := 0
  deriving DecidableEq

/-- The operations of a payout. -/
inductive PayoutOperation where
  | authorReward (author : AccountName) (hashlink : Nat) (sbdPayout steemPayout vestingPayout : ℤ)
  | curationReward (curator : AccountName) (reward : ℤ) (commentAuthor : AccountName)
      (commentHashlink : Nat)
  | commentBenefactorReward (benefactor author : AccountName) (hashlink : Nat) (reward : ℤ)
  | commentPayoutUpdate (author : AccountName) (hashlink : Nat)

/-- The author and the hashlink of the comment that is paid. -/
def PayoutOperation.byHashlink : PayoutOperation → AccountName × Nat
  | authorReward author hashlink _ _ _ => (author, hashlink)
  | curationReward _ _ commentAuthor commentHashlink => (commentAuthor, commentHashlink)
  | commentBenefactorReward _ author hashlink _ => (author, hashlink)
  | commentPayoutUpdate author hashlink => (author, hashlink)

structure CommentRewardObject where
  totalPayoutValue : ℤ := 0
  authorRewards : ℤ := 0
  authorGbgPayoutValue : ℤ := 0
  authorGolosPayoutValue : ℤ := 0
  authorGestsPayoutValue : ℤ := 0
  beneficiaryPayoutValue : ℤ := 0
  beneficiaryGestsPayoutValue : ℤ := 0
  curatorPayoutValue : ℤ := 0
  curatorGestsPayoutValue : ℤ := 0
  deriving DecidableEq

/-- The price that GOLOS and GBG are converted with. -/
structure PayoutProps where
  currentMedianHistory : Price

namespace PayoutProps

variable (props : PayoutProps)

def toSbd (steem : ℤ) : Result ℤ := do
  if props.currentMedianHistory.isNull then
    pure 0
  else
    let sbd ← Asset.mulPrice ⟨steem, steemSymbol⟩ props.currentMedianHistory
    pure sbd.amount

def toSteem (sbd : ℤ) : Result ℤ := do
  if props.currentMedianHistory.isNull then
    pure 0
  else
    let steem ← Asset.mulPrice ⟨sbd, sbdSymbol⟩ props.currentMedianHistory
    pure steem.amount

end PayoutProps

/-- What amounts are converted with. -/
structure RewardProps extends PayoutProps where
  totalVestingFundSteem : ℤ := 0
  totalVestingShares : ℤ := 0

/-- The conversions of a payout: GOLOS, and GBG of that. -/
structure RewardValues where
  authorRewards : ℤ
  totalPayoutGbg : ℤ
  benefPayoutGolos : ℤ
  benefPayoutGbg : ℤ
  curatorPayoutGolos : ℤ
  curatorPayoutGbg : ℤ

/-- The payout is recorded. -/
def RewardValues.Counts (v : RewardValues) : Prop :=
  v.authorRewards ≠ 0 ∨ v.benefPayoutGolos ≠ 0 ∨ v.curatorPayoutGolos ≠ 0

instance (v : RewardValues) : Decidable v.Counts :=
  inferInstanceAs (Decidable (_ ∨ _))

namespace RewardProps

variable (props : RewardProps)

def getVestingSharePrice : Price :=
  if props.totalVestingFundSteem = 0 ∨ props.totalVestingShares = 0 then
    ⟨⟨1000, steemSymbol⟩, ⟨1000000, vestsSymbol⟩⟩
  else
    ⟨⟨props.totalVestingShares, vestsSymbol⟩, ⟨props.totalVestingFundSteem, steemSymbol⟩⟩

def gestsToGolos (gests : ℤ) : Result ℤ := do
  let golos ← Asset.mulPrice ⟨gests, vestsSymbol⟩ props.getVestingSharePrice
  pure golos.amount

/-- What `comment_payout_update` converts. -/
def values (impl : RewardAmounts) : Result RewardValues := do
  let authorGests ← props.gestsToGolos impl.authorGestsPayoutValue
  let authorRewards ← add64 impl.authorGolosPayoutValue authorGests .overflowException
  let authorGbg ← props.toSteem impl.authorGbgPayoutValue
  let authorRewards ← add64 authorRewards authorGbg .overflowException
  let totalPayoutGbg ← props.toSbd authorRewards
  let benefPayoutGolos ← props.gestsToGolos impl.benefPayoutGests
  let benefPayoutGbg ← props.toSbd benefPayoutGolos
  let curatorPayoutGolos ← props.gestsToGolos impl.curatorPayoutGests
  let curatorPayoutGbg ← props.toSbd curatorPayoutGolos
  pure
    { authorRewards := authorRewards
      totalPayoutGbg := totalPayoutGbg
      benefPayoutGolos := benefPayoutGolos
      benefPayoutGbg := benefPayoutGbg
      curatorPayoutGolos := curatorPayoutGolos
      curatorPayoutGbg := curatorPayoutGbg }

end RewardProps

/-- `x += d` on a member, which keeps what was done before when it overflows. -/
def addTo {σ : Type} (member : σ → ℤ) (assign : σ → ℤ → σ) (d : ℤ) :
    Effect Empty ChainException σ Unit := do
  let s ← Effect.read
  let x ← Effect.lift (add64 (member s) d .overflowException)
  Effect.modify fun s => assign s x

namespace CommentRewardObject

/-- A payout is recorded on top of the earlier ones. -/
def modify (impl : RewardAmounts) (v : RewardValues) :
    Effect Empty ChainException CommentRewardObject Unit := do
  addTo authorRewards (fun cr x => { cr with authorRewards := x }) v.authorRewards
  addTo authorGbgPayoutValue (fun cr x => { cr with authorGbgPayoutValue := x })
    impl.authorGbgPayoutValue
  addTo authorGolosPayoutValue (fun cr x => { cr with authorGolosPayoutValue := x })
    impl.authorGolosPayoutValue
  addTo authorGestsPayoutValue (fun cr x => { cr with authorGestsPayoutValue := x })
    impl.authorGestsPayoutValue
  addTo totalPayoutValue (fun cr x => { cr with totalPayoutValue := x }) v.totalPayoutGbg
  addTo beneficiaryPayoutValue (fun cr x => { cr with beneficiaryPayoutValue := x })
    v.benefPayoutGbg
  Effect.modify fun cr => { cr with beneficiaryGestsPayoutValue := impl.benefPayoutGests }
  addTo curatorPayoutValue (fun cr x => { cr with curatorPayoutValue := x }) v.curatorPayoutGbg
  addTo curatorGestsPayoutValue (fun cr x => { cr with curatorGestsPayoutValue := x })
    impl.curatorPayoutGests

/-- The first payout of a comment. -/
def create (impl : RewardAmounts) (v : RewardValues) : CommentRewardObject where
  totalPayoutValue := v.totalPayoutGbg
  authorRewards := v.authorRewards
  authorGbgPayoutValue := impl.authorGbgPayoutValue
  authorGolosPayoutValue := impl.authorGolosPayoutValue
  authorGestsPayoutValue := impl.authorGestsPayoutValue
  beneficiaryPayoutValue := v.benefPayoutGbg
  beneficiaryGestsPayoutValue := impl.benefPayoutGests
  curatorPayoutValue := v.curatorPayoutGbg
  curatorGestsPayoutValue := impl.curatorPayoutGests

end CommentRewardObject

/-- The indexes of comments by hashlink and of records by comment, and what conversions read. -/
structure RewardDatabase where
  props : RewardProps
  comments : AccountName × Nat → Option Nat := fun _ => none
  nextComment : Nat := 0
  commentRewards : Nat → Option CommentRewardObject := fun _ => none

structure SocialNetwork where
  impl : RewardAmounts := {}
  db : RewardDatabase

namespace SocialNetwork

def modifyCommentReward (comment : Nat) (cr : CommentRewardObject)
    (change : Effect Empty ChainException CommentRewardObject Unit) :
    Effect Empty ChainException SocialNetwork Unit := fun s =>
  let outcome := change cr
  { notes := outcome.notes
    result := outcome.result
    state :=
      { s with
        db.commentRewards := Function.update s.db.commentRewards comment (some outcome.state) } }

def authorReward (sbdPayout steemPayout vestingPayout : ℤ) :
    Effect Empty ChainException SocialNetwork Unit := do
  addTo (fun s => s.impl.authorGbgPayoutValue)
    (fun s x => { s with impl.authorGbgPayoutValue := x }) sbdPayout
  addTo (fun s => s.impl.authorGolosPayoutValue)
    (fun s x => { s with impl.authorGolosPayoutValue := x }) steemPayout
  addTo (fun s => s.impl.authorGestsPayoutValue)
    (fun s x => { s with impl.authorGestsPayoutValue := x }) vestingPayout

def commentPayoutUpdate (author : AccountName) (hashlink : Nat) :
    Effect Empty ChainException SocialNetwork Unit := do
  let s ← Effect.read
  let comment ← Effect.lift (get (s.db.comments (author, hashlink)) (.missingObject "comment"))
  let v ← Effect.lift (s.db.props.values s.impl)
  if v.Counts then
    match s.db.commentRewards comment with
    | none =>
      Effect.modify fun s =>
        { s with
          db.commentRewards :=
            Function.update s.db.commentRewards comment (some (.create s.impl v)) }
    | some cr => modifyCommentReward comment cr (CommentRewardObject.modify s.impl v)
  else
    pure ()
  Effect.modify fun s => { s with impl := {} }

/-- The handlers of the operations of a payout. -/
def postOperation : PayoutOperation → Effect Empty ChainException SocialNetwork Unit
  | .authorReward _ _ sbdPayout steemPayout vestingPayout =>
    authorReward sbdPayout steemPayout vestingPayout
  | .curationReward _ reward _ _ =>
    addTo (fun s => s.impl.curatorPayoutGests)
      (fun s x => { s with impl.curatorPayoutGests := x }) reward
  | .commentBenefactorReward _ _ _ reward =>
    addTo (fun s => s.impl.benefPayoutGests)
      (fun s x => { s with impl.benefPayoutGests := x }) reward
  | .commentPayoutUpdate author hashlink => commentPayoutUpdate author hashlink

/-- `notify_post_apply_operation` goes on after an exception of a plugin. -/
def notifyPostApplyOperation (s : SocialNetwork) (op : PayoutOperation) : SocialNetwork :=
  (postOperation op s).state

end SocialNetwork

/-- An operation of the current chain, with the comment of that name and the properties then. -/
structure AppliedOperation where
  operation : PayoutOperation
  comment : Option Nat
  props : RewardProps

/-- What is undone with a block: the database, and the operations of the chain, newest first. -/
structure RewardChain where
  db : RewardDatabase
  operations : List AppliedOperation := []

/-- What a payout pushes before `comment_payout_update`, and the properties that it leaves. -/
structure CommentCashout where
  curators : List (AccountName × ℤ) := []
  beneficiaries : List (AccountName × ℤ) := []
  /-- The GBG, GOLOS and GESTS of the author. -/
  author : Option (ℤ × ℤ × ℤ) := none
  props : RewardProps

def CommentCashout.operations (p : CommentCashout) (author : AccountName) (hashlink : Nat) :
    List PayoutOperation :=
  p.curators.map (fun curator => .curationReward curator.1 curator.2 author hashlink) ++
    p.beneficiaries.map (fun b => .commentBenefactorReward b.1 author hashlink b.2) ++
      p.author.toList.map fun (sbd, steem, vesting) =>
        .authorReward author hashlink sbd steem vesting

/-- The variables of the plugin stand beside the chain, and are not undone. -/
structure RewardNode where
  impl : RewardAmounts := {}
  chain : UndoStack RewardChain

namespace RewardNode

def pushVirtualOperation (n : RewardNode) (op : PayoutOperation) : RewardNode :=
  let db := n.chain.value.db
  let s := SocialNetwork.notifyPostApplyOperation { impl := n.impl, db := db } op
  let applied := { operation := op, comment := db.comments op.byHashlink, props := db.props }
  { impl := s.impl
    chain :=
      n.chain.set { db := s.db, operations := applied :: n.chain.value.operations } }

def setDb (n : RewardNode) (db : RewardDatabase) : RewardNode :=
  { n with chain := n.chain.set { n.chain.value with db := db } }

/-- `cashout_comment_helper` -/
def cashoutCommentHelper (n : RewardNode) (author : AccountName) (hashlink : Nat)
    (p : CommentCashout) : RewardNode :=
  let n := (p.operations author hashlink).foldl pushVirtualOperation n
  let n := n.setDb { n.chain.value.db with props := p.props }
  n.pushVirtualOperation (.commentPayoutUpdate author hashlink)

/-- The application of a block fails after the first `k` operations of a payout. -/
def failCashout (n : RewardNode) (author : AccountName) (hashlink : Nat) (p : CommentCashout)
    (k : Nat) : RewardNode :=
  let n := ((p.operations author hashlink).take k).foldl pushVirtualOperation n
  { n with chain := n.chain.undo }

/-- A comment is created under a new id. -/
def comment (n : RewardNode) (author : AccountName) (hashlink : Nat) : RewardNode :=
  let db := n.chain.value.db
  n.setDb
    { db with
      comments := Function.update db.comments (author, hashlink) (some db.nextComment)
      nextComment := db.nextComment + 1 }

/-- The record goes in the handler of the plugin, then the comment in the evaluator. -/
def deleteComment (n : RewardNode) (author : AccountName) (hashlink : Nat) : RewardNode :=
  let db := n.chain.value.db
  match db.comments (author, hashlink) with
  | none => n
  | some c =>
    n.setDb
      { db with
        commentRewards := Function.update db.commentRewards c none
        comments := Function.update db.comments (author, hashlink) none }

end RewardNode

inductive RewardEvent where
  | startBlock
  | comment (author : AccountName) (hashlink : Nat)
  | deleteComment (author : AccountName) (hashlink : Nat)
  | setProps (props : RewardProps)
  | cashout (author : AccountName) (hashlink : Nat) (p : CommentCashout)
  | failCashout (author : AccountName) (hashlink : Nat) (p : CommentCashout) (k : Nat)
  /-- A block fails outside of a payout, or is popped. -/
  | undo
  | commit (revision : Nat)

namespace RewardNode

def step (n : RewardNode) : RewardEvent → RewardNode → Prop
  | .startBlock, n' => n' = { n with chain := n.chain.start }
  | .comment author hashlink, n' =>
    n.chain.value.db.comments (author, hashlink) = none ∧ n' = n.comment author hashlink
  | .deleteComment author hashlink, n' => n' = n.deleteComment author hashlink
  | .setProps props, n' => n' = n.setDb { n.chain.value.db with props := props }
  | .cashout author hashlink p, n' =>
    n.chain.value.db.comments (author, hashlink) ≠ none ∧
      n' = n.cashoutCommentHelper author hashlink p
  | .failCashout author hashlink p k, n' =>
    n.chain.saved ≠ [] ∧ n.chain.value.db.comments (author, hashlink) ≠ none ∧
      n' = n.failCashout author hashlink p k
  | .undo, n' => n' = { n with chain := n.chain.undo }
  | .commit revision, n' => n' = { n with chain := n.chain.commit revision }

def initial (n : RewardNode) : Prop :=
  ∃ props revision, n = { chain := { value := { db := { props := props } }, revision := revision } }

def rewarding : TransitionSystem RewardNode RewardEvent where
  initial := initial
  step := step

end RewardNode

end Golos
