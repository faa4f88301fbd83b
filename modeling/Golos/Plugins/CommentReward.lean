import Golos.Plugins.Impl.CommentReward

/-!
This module contains what the records of comments are to hold: for every comment the sums of what
its own operations on the chain say, and of what its payouts were converted to. They do when no block
fails in the middle of a payout, no sum or conversion overflows, and no comment with GESTS for its
beneficiaries is paid a second time.
-/

namespace Golos

open Checked

namespace RewardAmounts

protected def add (a b : RewardAmounts) : RewardAmounts where
  authorGbgPayoutValue := a.authorGbgPayoutValue + b.authorGbgPayoutValue
  authorGolosPayoutValue := a.authorGolosPayoutValue + b.authorGolosPayoutValue
  authorGestsPayoutValue := a.authorGestsPayoutValue + b.authorGestsPayoutValue
  benefPayoutGests := a.benefPayoutGests + b.benefPayoutGests
  curatorPayoutGests := a.curatorPayoutGests + b.curatorPayoutGests

instance : Add RewardAmounts :=
  ⟨RewardAmounts.add⟩

instance : Zero RewardAmounts :=
  ⟨{}⟩

variable (a b c : RewardAmounts)

theorem add_def :
    a + b =
      { authorGbgPayoutValue := a.authorGbgPayoutValue + b.authorGbgPayoutValue
        authorGolosPayoutValue := a.authorGolosPayoutValue + b.authorGolosPayoutValue
        authorGestsPayoutValue := a.authorGestsPayoutValue + b.authorGestsPayoutValue
        benefPayoutGests := a.benefPayoutGests + b.benefPayoutGests
        curatorPayoutGests := a.curatorPayoutGests + b.curatorPayoutGests } :=
  rfl

theorem zero_def : (0 : RewardAmounts) = {} :=
  rfl

protected theorem zero_add : 0 + a = a := by
  simp only [zero_def, add_def, zero_add]

protected theorem add_zero : a + 0 = a := by
  simp only [zero_def, add_def, add_zero]

protected theorem add_assoc : a + b + c = a + (b + c) := by
  simp only [add_def, add_assoc]

protected theorem add_comm : a + b = b + a := by
  simp only [add_def, add_comm]

/-- Every part is a 64 bit number. -/
structure InRange (a : RewardAmounts) : Prop where
  gbg : minInt64 ≤ a.authorGbgPayoutValue ∧ a.authorGbgPayoutValue ≤ maxInt64
  golos : minInt64 ≤ a.authorGolosPayoutValue ∧ a.authorGolosPayoutValue ≤ maxInt64
  gests : minInt64 ≤ a.authorGestsPayoutValue ∧ a.authorGestsPayoutValue ≤ maxInt64
  benef : minInt64 ≤ a.benefPayoutGests ∧ a.benefPayoutGests ≤ maxInt64
  curator : minInt64 ≤ a.curatorPayoutGests ∧ a.curatorPayoutGests ≤ maxInt64

end RewardAmounts

namespace PayoutOperation

/-- What an operation pays. -/
def amounts : PayoutOperation → RewardAmounts
  | authorReward _ _ sbdPayout steemPayout vestingPayout =>
    { authorGbgPayoutValue := sbdPayout
      authorGolosPayoutValue := steemPayout
      authorGestsPayoutValue := vestingPayout }
  | curationReward _ reward _ _ => { curatorPayoutGests := reward }
  | commentBenefactorReward _ _ _ reward => { benefPayoutGests := reward }
  | commentPayoutUpdate _ _ => {}

def IsReward : PayoutOperation → Prop
  | commentPayoutUpdate _ _ => False
  | _ => True

instance : DecidablePred IsReward := fun op =>
  match op with
  | authorReward _ _ _ _ _ => .isTrue trivial
  | curationReward _ _ _ _ => .isTrue trivial
  | commentBenefactorReward _ _ _ _ => .isTrue trivial
  | commentPayoutUpdate _ _ => .isFalse id

/-- The sums of what operations pay. -/
def total : List PayoutOperation → RewardAmounts
  | [] => 0
  | op :: ops => op.amounts + total ops

theorem total_append (ops ops' : List PayoutOperation) :
    total (ops ++ ops') = total ops + total ops' := by
  induction ops with
  | nil => exact (RewardAmounts.zero_add _).symm
  | cons op ops ih =>
    simp only [List.cons_append, total]
    rw [ih, RewardAmounts.add_assoc]

theorem total_reverse (ops : List PayoutOperation) : total ops.reverse = total ops := by
  induction ops with
  | nil => rfl
  | cons op ops ih =>
    rw [List.reverse_cons, total_append, ih]
    simp only [total]
    rw [RewardAmounts.add_zero, RewardAmounts.add_comm]

end PayoutOperation

namespace AppliedOperation

/-- The reward operations of a comment since it has been paid. -/
def pendingOf (c : Nat) : List AppliedOperation → List PayoutOperation
  | [] => []
  | a :: operations =>
    if a.comment = some c then
      if a.operation.IsReward then a.operation :: pendingOf c operations else []
    else
      pendingOf c operations

/-- The payouts of a comment, newest first: the operations of each, and the properties then. -/
def payoutsOf (c : Nat) : List AppliedOperation → List (List PayoutOperation × RewardProps)
  | [] => []
  | a :: operations =>
    if a.comment = some c ∧ ¬a.operation.IsReward then
      (pendingOf c operations, a.props) :: payoutsOf c operations
    else
      payoutsOf c operations

/-- What a payout is converted to, when it does not round to zero. -/
def valueOf (p : List PayoutOperation × RewardProps) : Option (RewardAmounts × RewardValues) :=
  match p.2.values (PayoutOperation.total p.1) with
  | .ok v => if v.Counts then some (PayoutOperation.total p.1, v) else none
  | .error _ => none

end AppliedOperation

open AppliedOperation

namespace CommentRewardObject

/-- The record of payouts: every part is a sum over them. -/
def sum (payouts : List (RewardAmounts × RewardValues)) : CommentRewardObject where
  totalPayoutValue := (payouts.map fun p => p.2.totalPayoutGbg).sum
  authorRewards := (payouts.map fun p => p.2.authorRewards).sum
  authorGbgPayoutValue := (payouts.map fun p => p.1.authorGbgPayoutValue).sum
  authorGolosPayoutValue := (payouts.map fun p => p.1.authorGolosPayoutValue).sum
  authorGestsPayoutValue := (payouts.map fun p => p.1.authorGestsPayoutValue).sum
  beneficiaryPayoutValue := (payouts.map fun p => p.2.benefPayoutGbg).sum
  beneficiaryGestsPayoutValue := (payouts.map fun p => p.1.benefPayoutGests).sum
  curatorPayoutValue := (payouts.map fun p => p.2.curatorPayoutGbg).sum
  curatorGestsPayoutValue := (payouts.map fun p => p.1.curatorPayoutGests).sum

/-- There is a record once a payout did not round to zero. -/
def recordOf (payouts : List (List PayoutOperation × RewardProps)) : Option CommentRewardObject :=
  match payouts.filterMap valueOf with
  | [] => none
  | counted => some (sum counted)

/-- What every payout does to the record, with the sums that it is to hold. -/
def plus (cr : CommentRewardObject) (a : RewardAmounts) (v : RewardValues) :
    CommentRewardObject where
  totalPayoutValue := cr.totalPayoutValue + v.totalPayoutGbg
  authorRewards := cr.authorRewards + v.authorRewards
  authorGbgPayoutValue := cr.authorGbgPayoutValue + a.authorGbgPayoutValue
  authorGolosPayoutValue := cr.authorGolosPayoutValue + a.authorGolosPayoutValue
  authorGestsPayoutValue := cr.authorGestsPayoutValue + a.authorGestsPayoutValue
  beneficiaryPayoutValue := cr.beneficiaryPayoutValue + v.benefPayoutGbg
  beneficiaryGestsPayoutValue := cr.beneficiaryGestsPayoutValue + a.benefPayoutGests
  curatorPayoutValue := cr.curatorPayoutValue + v.curatorPayoutGbg
  curatorGestsPayoutValue := cr.curatorGestsPayoutValue + a.curatorPayoutGests

/-- Every part is a 64 bit number. -/
structure InRange (cr : CommentRewardObject) : Prop where
  total : minInt64 ≤ cr.totalPayoutValue ∧ cr.totalPayoutValue ≤ maxInt64
  authorRewards : minInt64 ≤ cr.authorRewards ∧ cr.authorRewards ≤ maxInt64
  gbg : minInt64 ≤ cr.authorGbgPayoutValue ∧ cr.authorGbgPayoutValue ≤ maxInt64
  golos : minInt64 ≤ cr.authorGolosPayoutValue ∧ cr.authorGolosPayoutValue ≤ maxInt64
  gests : minInt64 ≤ cr.authorGestsPayoutValue ∧ cr.authorGestsPayoutValue ≤ maxInt64
  benef : minInt64 ≤ cr.beneficiaryPayoutValue ∧ cr.beneficiaryPayoutValue ≤ maxInt64
  curator : minInt64 ≤ cr.curatorPayoutValue ∧ cr.curatorPayoutValue ≤ maxInt64
  curatorGests : minInt64 ≤ cr.curatorGestsPayoutValue ∧ cr.curatorGestsPayoutValue ≤ maxInt64

end CommentRewardObject

open CommentRewardObject

/-- The comments of the index have the records of their payouts, and there are no other records. -/
structure RewardChain.Recorded (chain : RewardChain) : Prop where
  of_comment : ∀ key c, chain.db.comments key = some c →
    chain.db.commentRewards c = recordOf (payoutsOf c chain.operations)
  of_reward : ∀ c, chain.db.commentRewards c ≠ none → ∃ key, chain.db.comments key = some c

namespace RewardNode

/-- The payout of a comment is summed up, converted and recorded without an overflow. -/
structure Payable (db : RewardDatabase) (author : AccountName) (hashlink : Nat)
    (p : CommentCashout) : Prop where
  sums : ∀ k, (PayoutOperation.total ((p.operations author hashlink).take k)).InRange
  values : ∃ v, p.props.values (PayoutOperation.total (p.operations author hashlink)) = .ok v ∧
    (v.Counts → ∀ c cr, db.comments (author, hashlink) = some c → db.commentRewards c = some cr →
      cr.beneficiaryGestsPayoutValue = 0 ∧
        (cr.plus (PayoutOperation.total (p.operations author hashlink)) v).InRange)

/--
No block fails once a payout has paid something, payouts stay in range, and no comment is paid again
after its beneficiaries have got something.
-/
def Orderly (n : RewardNode) : RewardEvent → Prop
  | .cashout author hashlink p => Payable n.chain.value.db author hashlink p
  | .failCashout author hashlink p k =>
    ∀ op ∈ (p.operations author hashlink).take k, op.amounts = 0
  | _ => True

end RewardNode

section handlers

theorem addTo_run {σ : Type} {member : σ → ℤ} {assign : σ → ℤ → σ} {d : ℤ} {s : σ}
    (h : minInt64 ≤ member s + d ∧ member s + d ≤ maxInt64) :
    addTo member assign d s = ⟨[], .ok (), assign s (member s + d)⟩ := by
  have hlift : (Effect.lift (add64 (member s) d .overflowException) :
      Effect Empty ChainException σ ℤ) s = ⟨[], .ok (member s + d), s⟩ := by
    rw [add64_of_le h.1 h.2]
    rfl
  unfold addTo
  rw [Effect.read_bind_run, Effect.bind_run hlift]
  rfl

theorem bind_addTo_run {σ : Type} {member : σ → ℤ} {assign : σ → ℤ → σ} {d : ℤ} {s : σ}
    {f : Unit → Effect Empty ChainException σ Unit}
    (h : minInt64 ≤ member s + d ∧ member s + d ≤ maxInt64) :
    (addTo member assign d >>= f) s = f () (assign s (member s + d)) :=
  Effect.bind_run (addTo_run h)

theorem addTo_run_zero {σ : Type} {member : σ → ℤ} {assign : σ → ℤ → σ} {s : σ}
    (h : assign s (member s) = s) : addTo member assign 0 s = ⟨[], .ok (), s⟩ := by
  have hlift : (Effect.lift (add64 (member s) 0 .overflowException) :
      Effect Empty ChainException σ ℤ) s = ⟨[], .ok (member s), s⟩ := by
    rw [add64_zero]
    rfl
  unfold addTo
  rw [Effect.read_bind_run, Effect.bind_run hlift]
  change (⟨[], .ok (), assign s (member s)⟩ : Outcome _ _ _ _) = _
  rw [h]

namespace SocialNetwork

variable {s : SocialNetwork} {op : PayoutOperation}

/-- A handler of a reward adds it to the variables. -/
theorem notify_of_isReward (hop : op.IsReward) (h : (s.impl + op.amounts).InRange) :
    s.notifyPostApplyOperation op = { s with impl := s.impl + op.amounts } := by
  unfold notifyPostApplyOperation postOperation
  cases op with
  | commentPayoutUpdate => cases hop
  | curationReward curator reward commentAuthor commentHashlink =>
    dsimp only
    rw [addTo_run]
    . simp only [RewardAmounts.add_def, PayoutOperation.amounts, add_zero]
    . exact h.curator
  | commentBenefactorReward benefactor author hashlink reward =>
    dsimp only
    rw [addTo_run]
    . simp only [RewardAmounts.add_def, PayoutOperation.amounts, add_zero]
    . exact h.benef
  | authorReward author hashlink sbdPayout steemPayout vestingPayout =>
    dsimp only
    unfold authorReward
    rw [bind_addTo_run, bind_addTo_run, addTo_run]
    . simp only [RewardAmounts.add_def, PayoutOperation.amounts, add_zero]
    . exact h.gests
    . exact h.golos
    . exact h.gbg

/-- A reward of nothing cannot fail. -/
theorem notify_of_amounts_eq_zero (hop : op.IsReward) (h : op.amounts = 0) :
    s.notifyPostApplyOperation op = s := by
  unfold notifyPostApplyOperation postOperation
  cases op with
  | commentPayoutUpdate => cases hop
  | curationReward curator reward commentAuthor commentHashlink =>
    obtain rfl : reward = 0 := congrArg RewardAmounts.curatorPayoutGests h
    dsimp only
    rw [addTo_run_zero rfl]
  | commentBenefactorReward benefactor author hashlink reward =>
    obtain rfl : reward = 0 := congrArg RewardAmounts.benefPayoutGests h
    dsimp only
    rw [addTo_run_zero rfl]
  | authorReward author hashlink sbdPayout steemPayout vestingPayout =>
    obtain rfl : sbdPayout = 0 := congrArg RewardAmounts.authorGbgPayoutValue h
    obtain rfl : steemPayout = 0 := congrArg RewardAmounts.authorGolosPayoutValue h
    obtain rfl : vestingPayout = 0 := congrArg RewardAmounts.authorGestsPayoutValue h
    dsimp only
    unfold authorReward
    rw [Effect.bind_run (addTo_run_zero rfl), Effect.bind_run (addTo_run_zero rfl),
      addTo_run_zero rfl]

end SocialNetwork

/-- What is written over the GESTS of the beneficiaries is their sum when there were none. -/
theorem CommentRewardObject.modify_run {cr : CommentRewardObject} {a : RewardAmounts}
    {v : RewardValues} (hnone : cr.beneficiaryGestsPayoutValue = 0) (h : (cr.plus a v).InRange) :
    CommentRewardObject.modify a v cr = ⟨[], .ok (), cr.plus a v⟩ := by
  obtain ⟨htotal, hauthor, hgbg, hgolos, hgests, hbenef, hcurator, hcuratorGests⟩ := h
  unfold plus at htotal hauthor hgbg hgolos hgests hbenef hcurator hcuratorGests ⊢
  unfold CommentRewardObject.modify
  simp only [bind_addTo_run, addTo_run, Effect.modify_bind_run, htotal, hauthor, hgbg, hgolos,
    hgests, hbenef, hcurator, hcuratorGests, and_self]
  rw [hnone, zero_add]

/-- The record after a payout. -/
def CommentRewardObject.paid (cr : Option CommentRewardObject) (a : RewardAmounts)
    (v : RewardValues) : Option CommentRewardObject :=
  if v.Counts then
    match cr with
    | none => some (.create a v)
    | some cr => some (cr.plus a v)
  else
    cr

/-- The last operation of a payout records it and clears the variables. -/
theorem SocialNetwork.notify_commentPayoutUpdate {s : SocialNetwork} {author : AccountName}
    {hashlink c : Nat} {v : RewardValues} (hc : s.db.comments (author, hashlink) = some c)
    (hv : s.db.props.values s.impl = .ok v)
    (hfits : v.Counts → ∀ cr, s.db.commentRewards c = some cr →
      cr.beneficiaryGestsPayoutValue = 0 ∧ (cr.plus s.impl v).InRange) :
    s.notifyPostApplyOperation (.commentPayoutUpdate author hashlink) =
      { impl := {}
        db :=
          { s.db with
            commentRewards := Function.update s.db.commentRewards c
              (CommentRewardObject.paid (s.db.commentRewards c) s.impl v) } } := by
  have hcomment : (Effect.lift (get (s.db.comments (author, hashlink)) (.missingObject "comment")) :
      Effect Empty ChainException SocialNetwork Nat) s = ⟨[], .ok c, s⟩ := by
    rw [hc]
    rfl
  have hvalues : (Effect.lift (s.db.props.values s.impl) :
      Effect Empty ChainException SocialNetwork RewardValues) s = ⟨[], .ok v, s⟩ := by
    rw [hv]
    rfl
  unfold notifyPostApplyOperation postOperation
  dsimp only
  unfold commentPayoutUpdate CommentRewardObject.paid
  rw [Effect.read_bind_run, Effect.bind_run hcomment, Effect.bind_run hvalues]
  by_cases hcounts : v.Counts
  . simp only [if_pos hcounts]
    cases hcr : s.db.commentRewards c with
    | none =>
      dsimp only
      rw [Effect.modify_bind_run]
      rfl
    | some cr =>
      obtain ⟨hnone, hrange⟩ := hfits hcounts cr hcr
      have hmodify : modifyCommentReward c cr (CommentRewardObject.modify s.impl v) s =
          ⟨[], .ok (),
            { s with
              db.commentRewards :=
                Function.update s.db.commentRewards c (some (cr.plus s.impl v)) }⟩ := by
        unfold modifyCommentReward
        rw [modify_run hnone hrange]
      dsimp only
      rw [Effect.bind_run hmodify]
      rfl
  . simp only [if_neg hcounts]
    rw [Function.update_eq_self]
    rfl

end handlers

section records

variable {c d : Nat} {rewards operations : List AppliedOperation}

/-- The rewards of one comment are pending for that comment. -/
theorem pendingOf_append (h : ∀ a ∈ rewards, a.comment = some c ∧ a.operation.IsReward) :
    pendingOf c (rewards ++ operations) =
      rewards.map AppliedOperation.operation ++ pendingOf c operations := by
  induction rewards with
  | nil => rfl
  | cons a rewards ih =>
    obtain ⟨hcomment, hreward⟩ := h a List.mem_cons_self
    simp only [List.cons_append, pendingOf, if_pos hcomment, if_pos hreward, List.map_cons]
    rw [ih fun a' ha' => h a' (List.mem_cons_of_mem _ ha')]

theorem pendingOf_append_of_ne (hne : d ≠ c)
    (h : ∀ a ∈ rewards, a.comment = some c ∧ a.operation.IsReward) :
    pendingOf d (rewards ++ operations) = pendingOf d operations := by
  induction rewards with
  | nil => rfl
  | cons a rewards ih =>
    have hother : a.comment ≠ some d := by
      rw [(h a List.mem_cons_self).1]
      exact fun heq => hne (Option.some.inj heq).symm
    simp only [List.cons_append, pendingOf, if_neg hother]
    exact ih fun a' ha' => h a' (List.mem_cons_of_mem _ ha')

/-- Rewards are no payouts yet. -/
theorem payoutsOf_append (h : ∀ a ∈ rewards, a.comment = some c ∧ a.operation.IsReward) :
    payoutsOf d (rewards ++ operations) = payoutsOf d operations := by
  induction rewards with
  | nil => rfl
  | cons a rewards ih =>
    have hreward := (h a List.mem_cons_self).2
    simp only [List.cons_append, payoutsOf, hreward, not_true_eq_false, and_false, if_false]
    exact ih fun a' ha' => h a' (List.mem_cons_of_mem _ ha')

theorem payoutsOf_eq_nil (h : ∀ a ∈ operations, a.comment ≠ some c) :
    payoutsOf c operations = [] := by
  induction operations with
  | nil => rfl
  | cons a operations ih =>
    simp only [payoutsOf, h a List.mem_cons_self, false_and, if_false]
    exact ih fun a' ha' => h a' (List.mem_cons_of_mem _ ha')

theorem CommentRewardObject.sum_cons (a : RewardAmounts) (v : RewardValues)
    (counted : List (RewardAmounts × RewardValues)) :
    sum ((a, v) :: counted) = (sum counted).plus a v := by
  simp only [sum, plus, List.map_cons, List.sum_cons, add_comm]

theorem CommentRewardObject.sum_singleton (a : RewardAmounts) (v : RewardValues) :
    sum [(a, v)] = .create a v := by
  simp only [sum, create, List.map_cons, List.map_nil, List.sum_cons, List.sum_nil, add_zero]

/-- What a payout makes of the record of the earlier ones is the record of them all. -/
theorem CommentRewardObject.recordOf_cons {ops : List PayoutOperation} {props : RewardProps}
    {v : RewardValues} (hv : props.values (PayoutOperation.total ops) = .ok v)
    (payouts : List (List PayoutOperation × RewardProps)) :
    recordOf ((ops, props) :: payouts) =
      paid (recordOf payouts) (PayoutOperation.total ops) v := by
  have hvalue : valueOf (ops, props) =
      if v.Counts then some (PayoutOperation.total ops, v) else none := by
    unfold valueOf
    rw [hv]
  unfold recordOf paid
  rw [List.filterMap_cons, hvalue]
  by_cases hcounts : v.Counts
  . simp only [if_pos hcounts]
    cases payouts.filterMap valueOf with
    | nil =>
      dsimp only
      rw [sum_singleton]
    | cons p counted =>
      dsimp only
      rw [sum_cons]
  . simp only [if_neg hcounts]

end records

namespace RewardNode

variable {n : RewardNode} {author : AccountName} {hashlink : Nat}

/-- How an operation is remembered. -/
def applied (db : RewardDatabase) (op : PayoutOperation) : AppliedOperation where
  operation := op
  comment := db.comments op.byHashlink
  props := db.props

theorem pushVirtualOperation_of_isReward {op : PayoutOperation} (hop : op.IsReward)
    (h : (n.impl + op.amounts).InRange) :
    n.pushVirtualOperation op =
      { impl := n.impl + op.amounts
        chain := n.chain.set
          { n.chain.value with
            operations := applied n.chain.value.db op :: n.chain.value.operations } } := by
  unfold pushVirtualOperation
  dsimp only
  rw [SocialNetwork.notify_of_isReward hop h]
  rfl

/-- Rewards are added to the variables of the plugin, and change nothing in the database. -/
theorem foldl_pushVirtualOperation {ops : List PayoutOperation} (hops : ∀ op ∈ ops, op.IsReward)
    (h : ∀ k, (n.impl + PayoutOperation.total (ops.take k)).InRange) :
    ops.foldl pushVirtualOperation n =
      { impl := n.impl + PayoutOperation.total ops
        chain := n.chain.set
          { n.chain.value with
            operations := (ops.map (applied n.chain.value.db)).reverse ++
              n.chain.value.operations } } := by
  induction ops generalizing n with
  | nil =>
    simp only [List.foldl_nil, PayoutOperation.total, RewardAmounts.add_zero, List.map_nil,
      List.reverse_nil, List.nil_append]
    rfl
  | cons op ops ih =>
    have hone : (n.impl + op.amounts).InRange := by
      have := h 1
      rwa [List.take_succ_cons, List.take_zero, PayoutOperation.total, PayoutOperation.total,
        RewardAmounts.add_zero] at this
    rw [List.foldl_cons, pushVirtualOperation_of_isReward (hops op List.mem_cons_self) hone, ih]
    . simp only [PayoutOperation.total, RewardAmounts.add_assoc, List.map_cons, List.reverse_cons,
        List.append_assoc, List.singleton_append, UndoStack.value_set]
      rfl
    . exact fun op' hop' => hops op' (List.mem_cons_of_mem _ hop')
    . intro k
      have := h (k + 1)
      rwa [List.take_succ_cons, PayoutOperation.total, ← RewardAmounts.add_assoc] at this

/-- Rewards of nothing leave the variables as they are. -/
theorem foldl_pushVirtualOperation_zero {ops : List PayoutOperation}
    (hops : ∀ op ∈ ops, op.IsReward) (h : ∀ op ∈ ops, op.amounts = 0) :
    ∃ chain, ops.foldl pushVirtualOperation n = { n with chain := n.chain.set chain } := by
  induction ops generalizing n with
  | nil => exact ⟨n.chain.value, rfl⟩
  | cons op ops ih =>
    obtain ⟨chain, heq⟩ := ih (n := n.pushVirtualOperation op)
      (fun op' hop' => hops op' (List.mem_cons_of_mem _ hop'))
      (fun op' hop' => h op' (List.mem_cons_of_mem _ hop'))
    refine ⟨chain, ?_⟩
    rw [List.foldl_cons, heq]
    unfold pushVirtualOperation
    dsimp only
    rw [SocialNetwork.notify_of_amounts_eq_zero (hops op List.mem_cons_self)
      (h op List.mem_cons_self)]
    rfl

theorem isReward_of_mem_operations {p : CommentCashout} {op : PayoutOperation}
    (h : op ∈ p.operations author hashlink) :
    op.IsReward ∧ op.byHashlink = (author, hashlink) := by
  unfold CommentCashout.operations at h
  simp only [List.mem_append, List.mem_map] at h
  rcases h with (⟨curator, -, rfl⟩ | ⟨b, -, rfl⟩) | ⟨x, -, rfl⟩
  . exact ⟨trivial, rfl⟩
  . exact ⟨trivial, rfl⟩
  . exact ⟨trivial, rfl⟩

/-- A payout in range adds its operations to the chain and its sums to the record. -/
theorem cashoutCommentHelper_eq {p : CommentCashout} {c : Nat} {v : RewardValues}
    (hzero : n.impl = 0) (hc : n.chain.value.db.comments (author, hashlink) = some c)
    (hsums : ∀ k, (PayoutOperation.total ((p.operations author hashlink).take k)).InRange)
    (hv : p.props.values (PayoutOperation.total (p.operations author hashlink)) = .ok v)
    (hfits : v.Counts → ∀ cr, n.chain.value.db.commentRewards c = some cr →
      cr.beneficiaryGestsPayoutValue = 0 ∧
        (cr.plus (PayoutOperation.total (p.operations author hashlink)) v).InRange) :
    n.cashoutCommentHelper author hashlink p =
      { impl := {}
        chain := n.chain.set
          { db :=
              { n.chain.value.db with
                props := p.props
                commentRewards := Function.update n.chain.value.db.commentRewards c
                  (CommentRewardObject.paid (n.chain.value.db.commentRewards c)
                    (PayoutOperation.total (p.operations author hashlink)) v) }
            operations :=
              { operation := .commentPayoutUpdate author hashlink
                comment := some c
                props := p.props } ::
                (((p.operations author hashlink).map (applied n.chain.value.db)).reverse ++
                  n.chain.value.operations) } } := by
  have hnotify := SocialNetwork.notify_commentPayoutUpdate
    (s :=
      { impl := PayoutOperation.total (p.operations author hashlink)
        db := { n.chain.value.db with props := p.props } }) hc hv hfits
  have hrange : ∀ k,
      (n.impl + PayoutOperation.total ((p.operations author hashlink).take k)).InRange := by
    intro k
    rw [hzero, RewardAmounts.zero_add]
    exact hsums k
  have hpushed :=
    foldl_pushVirtualOperation (fun op hop => (isReward_of_mem_operations hop).1) hrange
  unfold cashoutCommentHelper
  rw [hpushed, hzero, RewardAmounts.zero_add]
  unfold setDb pushVirtualOperation
  simp only [UndoStack.value_set]
  rw [hnotify]
  simp only [PayoutOperation.byHashlink, hc]
  rfl

end RewardNode

/-- What is kept of the chain between payouts. -/
structure RewardChain.Settled (chain : RewardChain) : Prop where
  recorded : chain.Recorded
  pending : ∀ c, pendingOf c chain.operations = []
  comment_inj : ∀ key key' c, chain.db.comments key = some c → chain.db.comments key' = some c →
    key = key'
  comment_lt : ∀ key c, chain.db.comments key = some c → c < chain.db.nextComment
  applied_lt : ∀ a ∈ chain.operations, ∀ c, a.comment = some c → c < chain.db.nextComment

namespace RewardChain.Settled

variable {chain : RewardChain} (h : chain.Settled) {author : AccountName} {hashlink : Nat}

include h

theorem setProps (props : RewardProps) :
    RewardChain.Settled { chain with db := { chain.db with props := props } } :=
  ⟨⟨h.recorded.of_comment, h.recorded.of_reward⟩, h.pending, h.comment_inj, h.comment_lt,
    h.applied_lt⟩

/-- A new comment has no operations, and no record. -/
theorem comment (hnone : chain.db.comments (author, hashlink) = none) :
    RewardChain.Settled
      { chain with
        db :=
          { chain.db with
            comments :=
              Function.update chain.db.comments (author, hashlink) (some chain.db.nextComment)
            nextComment := chain.db.nextComment + 1 } } := by
  have hcases : ∀ key c,
      Function.update chain.db.comments (author, hashlink) (some chain.db.nextComment) key =
        some c →
      (key = (author, hashlink) ∧ c = chain.db.nextComment) ∨ chain.db.comments key = some c := by
    intro key c hkey
    by_cases heq : key = (author, hashlink)
    . rw [heq, Function.update_self] at hkey
      exact .inl ⟨heq, (Option.some.inj hkey).symm⟩
    . rw [Function.update_of_ne heq] at hkey
      exact .inr hkey
  constructor
  . constructor
    . intro key c hkey
      rcases hcases key c hkey with ⟨-, rfl⟩ | hold
      . have hreward : chain.db.commentRewards chain.db.nextComment = none := by
          by_contra hreward
          obtain ⟨key', hkey'⟩ := h.recorded.of_reward _ hreward
          exact Nat.lt_irrefl _ (h.comment_lt _ _ hkey')
        have hpayouts : payoutsOf chain.db.nextComment chain.operations = [] := by
          apply payoutsOf_eq_nil
          intro a ha heq
          exact Nat.lt_irrefl _ (h.applied_lt a ha _ heq)
        change chain.db.commentRewards chain.db.nextComment = _
        rw [hreward, hpayouts]
        rfl
      . exact h.recorded.of_comment key c hold
    . intro c hreward
      obtain ⟨key, hkey⟩ := h.recorded.of_reward c hreward
      refine ⟨key, ?_⟩
      have hne : key ≠ (author, hashlink) := by
        rintro rfl
        rw [hnone] at hkey
        cases hkey
      change Function.update _ _ _ _ = _
      rw [Function.update_of_ne hne, hkey]
  . exact h.pending
  . intro key key' c hkey hkey'
    rcases hcases key c hkey with ⟨rfl, rfl⟩ | hold
    . rcases hcases key' _ hkey' with ⟨rfl, -⟩ | hold'
      . rfl
      . exact absurd (h.comment_lt _ _ hold') (Nat.lt_irrefl _)
    . rcases hcases key' c hkey' with ⟨rfl, rfl⟩ | hold'
      . exact absurd (h.comment_lt _ _ hold) (Nat.lt_irrefl _)
      . exact h.comment_inj key key' c hold hold'
  . intro key c hkey
    rcases hcases key c hkey with ⟨-, rfl⟩ | hold
    . exact Nat.lt_succ_self _
    . exact Nat.lt_succ_of_lt (h.comment_lt key c hold)
  . intro a ha c hc
    exact Nat.lt_succ_of_lt (h.applied_lt a ha c hc)

/-- A comment is deleted together with its record. -/
theorem deleteComment {c : Nat} (hc : chain.db.comments (author, hashlink) = some c) :
    RewardChain.Settled
      { chain with
        db :=
          { chain.db with
            commentRewards := Function.update chain.db.commentRewards c none
            comments := Function.update chain.db.comments (author, hashlink) none } } := by
  have hcases : ∀ key d, Function.update chain.db.comments (author, hashlink) none key = some d →
      key ≠ (author, hashlink) ∧ chain.db.comments key = some d := by
    intro key d hkey
    by_cases heq : key = (author, hashlink)
    . rw [heq, Function.update_self] at hkey
      cases hkey
    . rw [Function.update_of_ne heq] at hkey
      exact ⟨heq, hkey⟩
  constructor
  . constructor
    . intro key d hkey
      obtain ⟨hne, hold⟩ := hcases key d hkey
      have hother : d ≠ c := by
        rintro rfl
        exact hne (h.comment_inj _ _ _ hold hc)
      change Function.update _ _ _ _ = _
      rw [Function.update_of_ne hother]
      exact h.recorded.of_comment key d hold
    . intro d hreward
      change Function.update _ _ _ _ ≠ _ at hreward
      by_cases hd : d = c
      . rw [hd, Function.update_self] at hreward
        exact absurd rfl hreward
      . rw [Function.update_of_ne hd] at hreward
        obtain ⟨key, hkey⟩ := h.recorded.of_reward d hreward
        refine ⟨key, ?_⟩
        have hne : key ≠ (author, hashlink) := by
          rintro rfl
          exact hd (Option.some.inj (hkey.symm.trans hc))
        change Function.update _ _ _ _ = _
        rw [Function.update_of_ne hne, hkey]
  . exact h.pending
  . intro key key' d hkey hkey'
    exact h.comment_inj key key' d (hcases key d hkey).2 (hcases key' d hkey').2
  . intro key d hkey
    exact h.comment_lt key d (hcases key d hkey).2
  . exact h.applied_lt

/-- The operations of a payout, and what it makes of the record of its comment. -/
theorem payout {c : Nat} {v : RewardValues} {props : RewardProps} {op : PayoutOperation}
    {ops : List PayoutOperation} (hc : chain.db.comments (author, hashlink) = some c)
    (hop : ¬op.IsReward)
    (hops : ∀ op ∈ ops, op.IsReward ∧ op.byHashlink = (author, hashlink))
    (hv : props.values (PayoutOperation.total ops) = .ok v) :
    RewardChain.Settled
      { db :=
          { chain.db with
            props := props
            commentRewards := Function.update chain.db.commentRewards c
              (CommentRewardObject.paid (chain.db.commentRewards c) (PayoutOperation.total ops) v) }
        operations :=
          { operation := op, comment := some c, props := props } ::
            ((ops.map (RewardNode.applied chain.db)).reverse ++ chain.operations) } := by
  have hrewards : ∀ a ∈ (ops.map (RewardNode.applied chain.db)).reverse,
      a.comment = some c ∧ a.operation.IsReward := by
    intro a ha
    obtain ⟨op', hop', rfl⟩ := List.mem_map.mp (List.mem_reverse.mp ha)
    obtain ⟨hreward, hkey⟩ := hops op' hop'
    refine ⟨?_, hreward⟩
    change chain.db.comments op'.byHashlink = _
    rw [hkey, hc]
  have hpending : pendingOf c ((ops.map (RewardNode.applied chain.db)).reverse ++
      chain.operations) = ops.reverse := by
    rw [pendingOf_append hrewards, h.pending, List.append_nil, List.map_reverse, List.map_map]
    exact congrArg List.reverse (List.map_id ops)
  constructor
  . constructor
    . intro key d hkey
      have hold := h.recorded.of_comment key d hkey
      dsimp only at hkey ⊢
      by_cases hd : d = c
      . subst hd
        rw [Function.update_self, hold]
        rw [payoutsOf, if_pos ⟨rfl, hop⟩, hpending, payoutsOf_append hrewards,
          recordOf_cons (v := v)]
        . rw [PayoutOperation.total_reverse]
        . rwa [PayoutOperation.total_reverse]
      . rw [Function.update_of_ne hd, hold]
        have hother : ¬(some c = some d ∧ ¬op.IsReward) := by
          rintro ⟨heq, -⟩
          exact hd (Option.some.inj heq).symm
        rw [payoutsOf, if_neg hother, payoutsOf_append hrewards]
    . intro d hreward
      by_cases hd : d = c
      . exact ⟨_, hd ▸ hc⟩
      . change Function.update _ _ _ _ ≠ _ at hreward
        rw [Function.update_of_ne hd] at hreward
        exact h.recorded.of_reward d hreward
  . intro d
    unfold pendingOf
    by_cases hd : d = c
    . rw [if_pos (congrArg some hd.symm), if_neg hop]
    . rw [if_neg (fun heq => hd (Option.some.inj heq).symm), pendingOf_append_of_ne hd hrewards,
        h.pending]
  . exact h.comment_inj
  . exact h.comment_lt
  . intro a ha d hd
    rcases List.mem_cons.mp ha with rfl | ha
    . obtain rfl := Option.some.inj hd
      exact h.comment_lt _ _ hc
    . rcases List.mem_append.mp ha with hreward | hold
      . rw [(hrewards a hreward).1] at hd
        obtain rfl := Option.some.inj hd
        exact h.comment_lt _ _ hc
      . exact h.applied_lt a hold d hd

end RewardChain.Settled

namespace RewardNode

/-- Between payouts the variables are clear, whatever can be undone. -/
structure Clear (n : RewardNode) : Prop where
  impl : n.impl = 0
  chain : n.chain.All RewardChain.Settled

theorem Clear.step {n n' : RewardNode} {e : RewardEvent} (h : n.Clear) (hok : Orderly n e)
    (hstep : RewardNode.step n e n') : n'.Clear := by
  cases e with
  | startBlock =>
    obtain rfl := hstep
    exact ⟨h.impl, h.chain.start⟩
  | comment author hashlink =>
    obtain ⟨hnone, rfl⟩ := hstep
    exact ⟨h.impl, h.chain.set (h.chain.value.comment hnone)⟩
  | deleteComment author hashlink =>
    obtain rfl := hstep
    unfold deleteComment
    dsimp only
    split
    . exact h
    . next c hc => exact ⟨h.impl, h.chain.set (h.chain.value.deleteComment hc)⟩
  | setProps props =>
    obtain rfl := hstep
    exact ⟨h.impl, h.chain.set (h.chain.value.setProps props)⟩
  | cashout author hashlink p =>
    obtain ⟨hfound, rfl⟩ := hstep
    obtain ⟨c, hc⟩ := Option.ne_none_iff_exists'.mp hfound
    obtain ⟨v, hv, hfits⟩ := hok.values
    rw [cashoutCommentHelper_eq h.impl hc hok.sums hv (fun hcounts cr => hfits hcounts c cr hc)]
    refine ⟨rfl, h.chain.set (h.chain.value.payout hc id ?_ hv)⟩
    exact fun op hop => isReward_of_mem_operations hop
  | failCashout author hashlink p k =>
    obtain ⟨hsession, -, rfl⟩ := hstep
    obtain ⟨chain, heq⟩ := foldl_pushVirtualOperation_zero (n := n)
      (fun op hop => (isReward_of_mem_operations (List.mem_of_mem_take hop)).1) hok
    unfold failCashout
    dsimp only
    rw [heq, UndoStack.undo_set hsession]
    exact ⟨h.impl, h.chain.undo⟩
  | undo =>
    obtain rfl := hstep
    exact ⟨h.impl, h.chain.undo⟩
  | commit revision =>
    obtain rfl := hstep
    exact ⟨h.impl, h.chain.commit revision⟩

theorem clear_of_initial {n : RewardNode} (h : initial n) : n.Clear := by
  obtain ⟨props, revision, rfl⟩ := h
  refine ⟨rfl, ?_, fun session hin => nomatch hin⟩
  refine ⟨⟨fun key c hc => ?_, fun c hc => absurd rfl hc⟩, fun _ => rfl, ?_, ?_, ?_⟩
  . cases hc
  . exact fun _ _ _ hc => nomatch hc
  . exact fun _ _ hc => nomatch hc
  . exact fun _ ha => nomatch ha

/--
In every run in which no block fails once a payout has paid something, sums and conversions do not
overflow, and no comment with GESTS for its beneficiaries is paid again, the records hold the sums
of the operations of their own comments on the current chain.
-/
theorem recorded_of_reach {n : RewardNode} (h : rewarding.Reach Orderly n) :
    n.chain.value.Recorded := by
  have hclear : n.Clear := by
    apply h.invariant
    . exact fun s hs => clear_of_initial hs
    . exact fun s e s' hs hok hstep => hs.step hok hstep
  exact hclear.chain.value.recorded

/-- A payout of the comment of `alice` that has paid a curator 7 GOLOS worth of GESTS. -/
def curated : CommentCashout where
  curators := [("carol", 7000)]
  props := { currentMedianHistory := .null }

/-- The comments of `alice` and `bob` in a block. -/
def twoComments : RewardNode :=
  let db : RewardDatabase := { props := { currentMedianHistory := .null } }
  let n : RewardNode := { chain := { value := { db := db }, revision := 0 } }
  RewardNode.comment
    (RewardNode.comment { n with chain := n.chain.start } "alice" 1) "bob" 1

/-- The payout of the first comment fails in the middle, then the second is paid. -/
def leaked : RewardNode :=
  let n := twoComments.failCashout "alice" 1 curated 1
  let n := RewardNode.comment { n with chain := n.chain.start } "bob" 1
  n.cashoutCommentHelper "bob" 1 curated

theorem reach_twoComments (ok : RewardNode → RewardEvent → Prop)
    (hstart : ∀ n, ok n .startBlock)
    (hcomment : ∀ n author hashlink, ok n (.comment author hashlink)) :
    rewarding.Reach ok twoComments := by
  refine .step (e := .comment "bob" 1) (.step (e := .comment "alice" 1)
    (.step (e := .startBlock) (.initial ⟨_, _, rfl⟩) (hstart _) rfl) (hcomment _ _ _) ⟨?_, rfl⟩)
    (hcomment _ _ _) ⟨?_, rfl⟩
  . decide
  . decide

/-- The record of `bob` holds what a curator of `alice` was to get in a block that failed. -/
theorem leaked_not_recorded :
    rewarding.Reachable leaked ∧
      (leaked.chain.value.db.commentRewards 0).map (·.curatorGestsPayoutValue) = some 14000 ∧
        ¬leaked.chain.value.Recorded := by
  have hgests : (leaked.chain.value.db.commentRewards 0).map (·.curatorGestsPayoutValue) =
      some 14000 := by
    decide +kernel
  have hsums : (recordOf (payoutsOf 0 leaked.chain.value.operations)).map
      (·.curatorGestsPayoutValue) = some 7000 := by
    decide +kernel
  refine ⟨?_, hgests, ?_⟩
  . have hfailed : rewarding.Reachable (twoComments.failCashout "alice" 1 curated 1) := by
      refine .step (e := .failCashout "alice" 1 curated 1)
        (reach_twoComments _ (fun _ => trivial) fun _ _ _ => trivial) trivial ⟨?_, ?_, rfl⟩
      . exact List.cons_ne_nil _ _
      . decide
    refine .step (e := .cashout "bob" 1 curated)
      (.step (e := .comment "bob" 1) (.step (e := .startBlock) hfailed trivial rfl) trivial
        ⟨?_, rfl⟩) trivial ⟨?_, rfl⟩
    . decide
    . decide
  . intro h
    rw [h.of_comment ("bob", 1) 0 (by decide), hsums] at hgests
    exact absurd hgests (by decide)

/-- The first comment is paid in full. -/
theorem recorded_curated :
    (twoComments.cashoutCommentHelper "alice" 1 curated).chain.value.Recorded := by
  apply recorded_of_reach
  refine .step (e := .cashout "alice" 1 curated)
    (reach_twoComments _ (fun _ => trivial) fun _ _ _ => trivial) ⟨?_, ?_⟩ ⟨?_, rfl⟩
  . intro k
    have htake : (curated.operations "alice" 1).take k = [] ∨
        (curated.operations "alice" 1).take k = curated.operations "alice" 1 := by
      cases k with
      | zero => exact .inl rfl
      | succ k => exact .inr (List.take_of_length_le (Nat.succ_le_succ (Nat.zero_le k)))
    rcases htake with hnil | hall
    . rw [hnil]
      constructor <;> decide
    . rw [hall]
      constructor <;> decide
  . refine ⟨⟨0, 0, 0, 0, 7, 0⟩, rfl, ?_⟩
    intro _ c cr _ hcr
    exact nomatch hcr
  . decide

end RewardNode

end Golos
