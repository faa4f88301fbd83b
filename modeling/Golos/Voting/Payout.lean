import Golos.Voting.Lemmas.Payout
import Golos.Voting.Weights

/-!
This module contains how the payout of a curation reward splits it, and when it reports what the curators
have got.
-/

namespace Golos

open Checked

namespace Voting

open CalculateWeightHelper

namespace Payout

variable {s : Voting} {cbl : CommentBill} {c : CommentCurationInfo} {maxRewards : ℤ}

section share

/-- What a vote claims. -/
def share (cbl : CommentBill) (c : CommentCurationInfo) (maxRewards : ℤ) (i : CommentVoteInfo) : Nat :=
  (toUint128 maxRewards * i.weight % 2 ^ 128 / c.totalVoteWeight +
    if IsLate cbl i.vote ∧ c.votesAfterAuctionWindowWeight ≠ 0 then
      auctionWindowReward c maxRewards * i.weight % 2 ^ 128 / c.votesAfterAuctionWindowWeight
    else
      0) % 2 ^ 64

theorem eq_share_of_claim {i : CommentVoteInfo} {n : Nat} (h : claim cbl c maxRewards i = .ok n) :
    n = share cbl c maxRewards i := by
  unfold claim at h
  simp only [bind_eq_ok, toUint64_eq_ok] at h
  obtain ⟨_, ⟨hlt, rfl⟩, h⟩ := h
  unfold share
  split at h
  . next hlate =>
    simp only [bind_eq_ok, toUint64_eq_ok, pure_eq_ok] at h
    obtain ⟨_, ⟨-, rfl⟩, rfl⟩ := h
    rw [if_pos hlate]
  . next hlate =>
    rw [pure_eq_ok] at h
    rw [if_neg hlate, add_zero, Nat.mod_eq_of_lt hlt, h]

/-- The votes that the loop pays, told whether it has left one out already. -/
def payees (cbl : CommentBill) (c : CommentCurationInfo) (maxRewards : ℤ) :
    List CommentVoteInfo → Bool → List CommentVoteInfo
  | [], _ => []
  | i :: voteList, found =>
    if IsLate cbl i.vote ∧ ¬found then
      payees cbl c maxRewards voteList true
    else if 0 < share cbl c maxRewards i then
      i :: payees cbl c maxRewards voteList found
    else
      []

theorem payees_sublist (voteList : List CommentVoteInfo) (found : Bool) :
    (payees cbl c maxRewards voteList found).Sublist voteList := by
  induction voteList generalizing found with
  | nil => exact .slnil
  | cons i voteList ih =>
    unfold payees
    split
    . exact (ih true).cons i
    . split
      . exact (ih found).cons_cons i
      . exact List.nil_sublist _

/-- The weights of the votes that are cast after the auction window. -/
def lateWeightOf (window : Nat) (voteList : List CommentVoteInfo) : Nat :=
  (voteList.map fun i => if i.vote.auctionTime = window then i.weight else 0).sum

theorem windowWeightOf_add_lateWeightOf (window : Nat) (voteList : List CommentVoteInfo) :
    windowWeightOf window voteList + lateWeightOf window voteList = weightOf voteList := by
  induction voteList with
  | nil => rfl
  | cons i voteList ih =>
    unfold windowWeightOf lateWeightOf weightOf at ih ⊢
    simp only [List.map_cons, List.sum_cons]
    split
    . omega
    . omega

theorem late_of_weighed (h : Weighed cbl.auctionWindowSize c) :
    c.votesAfterAuctionWindowWeight = lateWeightOf cbl.auctionWindowSize c.voteList := by
  have := windowWeightOf_add_lateWeightOf cbl.auctionWindowSize c.voteList
  have := h.total
  have := h.parts
  have := h.inWindow
  omega

theorem weight_le_weightOf {voteList : List CommentVoteInfo} {i : CommentVoteInfo}
    (h : i ∈ voteList) : i.weight ≤ weightOf voteList :=
  List.le_sum_of_mem (List.mem_map_of_mem h)

theorem weight_le_lateWeightOf {window : Nat} {voteList : List CommentVoteInfo}
    {i : CommentVoteInfo} (h : i ∈ voteList) (hlate : i.vote.auctionTime = window) :
    i.weight ≤ lateWeightOf window voteList := by
  apply List.le_sum_of_mem
  exact List.mem_map.mpr ⟨i, h, if_pos hlate⟩

theorem auctionWindowReward_eq (h : Weighed cbl.auctionWindowSize c) (hmax : 0 ≤ maxRewards ∧ maxRewards ≤ maxInt64) :
    auctionWindowReward c maxRewards =
      maxRewards.toNat * c.auctionWindowWeight / c.totalVoteWeight := by
  have hlt := h.lt
  have hparts := h.parts
  have hmaxNat : maxRewards.toNat < 2 ^ 63 := by
    unfold maxInt64 at hmax
    omega
  unfold auctionWindowReward
  rw [toUint128_of_nonneg hmax.1 hmax.2, Nat.mod_eq_of_lt]
  calc maxRewards.toNat * c.auctionWindowWeight < 2 ^ 63 * 2 ^ 64 :=
        Nat.mul_lt_mul'' hmaxNat (by omega)
    _ < 2 ^ 128 := by decide

theorem mul_div_le_of_le {a b d : Nat} (h : b ≤ d) : a * b / d ≤ a := by
  apply Nat.div_le_of_le_mul
  rw [Nat.mul_comm d]
  exact Nat.mul_le_mul_left a h

theorem auctionWindowReward_le (h : Weighed cbl.auctionWindowSize c)
    (hmax : 0 ≤ maxRewards ∧ maxRewards ≤ maxInt64) :
    auctionWindowReward c maxRewards ≤ maxRewards.toNat := by
  rw [auctionWindowReward_eq h hmax]
  apply mul_div_le_of_le
  have := h.parts
  omega

/-- The share, where nothing wraps. -/
theorem share_of_weighed (h : Weighed cbl.auctionWindowSize c)
    (hmax : 0 ≤ maxRewards ∧ maxRewards ≤ maxInt64) {i : CommentVoteInfo} (hi : i ∈ c.voteList) :
    share cbl c maxRewards i ≤ maxRewards.toNat * i.weight / c.totalVoteWeight +
      if IsLate cbl i.vote then
        auctionWindowReward c maxRewards * i.weight / c.votesAfterAuctionWindowWeight
      else
        0 := by
  have hweight := weight_le_weightOf hi
  have hlt := h.lt
  have htotal := h.total
  have hreward := auctionWindowReward_le h hmax
  have hmaxNat : maxRewards.toNat < 2 ^ 63 := by
    unfold maxInt64 at hmax
    omega
  have hmod : ∀ {a : Nat}, a ≤ maxRewards.toNat → a * i.weight % 2 ^ 128 = a * i.weight := by
    intro a ha
    apply Nat.mod_eq_of_lt
    calc a * i.weight < 2 ^ 63 * 2 ^ 64 := Nat.mul_lt_mul'' (by omega) (by omega)
      _ < 2 ^ 128 := by decide
  unfold share
  rw [toUint128_of_nonneg hmax.1 hmax.2, hmod le_rfl, hmod hreward]
  apply (Nat.mod_le _ _).trans
  apply Nat.add_le_add_left
  split
  . next hcase => rw [if_pos hcase.1]
  . exact Nat.zero_le _

/-- Floors of parts are at most the floor of the whole. -/
theorem sum_mul_div_le (a d : Nat) (ws : List Nat) : (ws.map fun w => a * w / d).sum ≤ a * ws.sum / d := by
  induction ws with
  | nil => exact Nat.zero_le _
  | cons w ws ih =>
    rw [List.map_cons, List.sum_cons, List.sum_cons, Nat.mul_add]
    exact (Nat.add_le_add_left ih _).trans Nat.div_add_div_le_add_div

/-- The shares of all votes are no more than all of the rewards. -/
theorem sum_share_le (h : Weighed cbl.auctionWindowSize c) (hmax : 0 ≤ maxRewards ∧ maxRewards ≤ maxInt64) :
    (c.voteList.map (share cbl c maxRewards)).sum ≤ maxRewards.toNat := by
  have hbase : (c.voteList.map fun i => maxRewards.toNat * i.weight / c.totalVoteWeight).sum ≤
      maxRewards.toNat * weightOf c.voteList / c.totalVoteWeight := by
    have := sum_mul_div_le maxRewards.toNat c.totalVoteWeight (c.voteList.map CommentVoteInfo.weight)
    rw [List.map_map] at this
    exact this
  have hlate : (c.voteList.map fun i => if IsLate cbl i.vote then
      auctionWindowReward c maxRewards * i.weight / c.votesAfterAuctionWindowWeight
    else
      0).sum ≤ auctionWindowReward c maxRewards := by
    have hsum := sum_mul_div_le (auctionWindowReward c maxRewards) c.votesAfterAuctionWindowWeight
      (c.voteList.map fun i => if i.vote.auctionTime = cbl.auctionWindowSize then i.weight else 0)
    have hle : auctionWindowReward c maxRewards *
        (c.voteList.map fun i =>
          if i.vote.auctionTime = cbl.auctionWindowSize then i.weight else 0).sum /
        c.votesAfterAuctionWindowWeight ≤ auctionWindowReward c maxRewards := by
      apply mul_div_le_of_le
      rw [late_of_weighed h]
      exact le_rfl
    apply le_trans ?_ (hsum.trans hle)
    rw [List.map_map]
    apply List.sum_le_sum
    intro i _
    simp only [Function.comp_apply]
    split
    . next hcase => rw [if_pos hcase.2]
    . exact Nat.zero_le _
  have hreward := auctionWindowReward_eq h hmax
  have htotal := h.total
  have hwhole : maxRewards.toNat * weightOf c.voteList / c.totalVoteWeight +
      maxRewards.toNat * c.auctionWindowWeight / c.totalVoteWeight ≤ maxRewards.toNat := by
    apply le_trans Nat.div_add_div_le_add_div
    rw [← Nat.mul_add, ← htotal]
    exact mul_div_le_of_le le_rfl
  have hshares : (c.voteList.map (share cbl c maxRewards)).sum ≤ _ :=
    List.sum_le_sum fun i hi => share_of_weighed h hmax hi
  rw [List.sum_map_add] at hshares
  omega

end share

section loop

/-- What has been paid so far, and what has not, is all of the rewards. -/
structure Balanced (s : Voting) (maxRewards : ℤ) (p : Payout) (curators delegators : ℤ) : Prop where
  credited : Credited s p.db curators delegators
  curators_nonneg : 0 ≤ curators
  delegators_nonneg : 0 ≤ delegators
  backToFund_nonneg : 0 ≤ p.backToFund
  sum : curators + delegators + p.backToFund + p.unclaimedRewards = maxRewards

variable {p p' : Payout} {curators delegators : ℤ} {i : CommentVoteInfo} {n : Nat}

/-- The curator, the delegators and the fund get what is taken from the unclaimed rewards. -/
theorem Balanced.pay (h : Balanced s maxRewards p curators delegators) (hn : (n : ℤ) ≤ maxInt64)
    (hrates : RatesFit i.vote) (hpay : p.pay c i n = .ok p') :
    ∃ reward delegators', Balanced s maxRewards p' (curators + reward) delegators' ∧ 0 ≤ reward ∧
      (reward = 0 ↔ Passes p.db c i.vote n) ∧ p'.actualRewards = p.actualRewards + reward ∧
      p'.unclaimedRewards = p.unclaimedRewards - n := by
  simp only [Payout.pay, bind_eq_ok, pure_eq_ok] at hpay
  obtain ⟨unclaimed, hunclaimed, ⟨db, reward, back⟩, hcurator, fund, hfund, actual, hactual, rfl⟩ := hpay
  obtain ⟨paid, hcredited, hpaid, hback, hsum, hpasses⟩ := credited_of_payCurator hn hrates hcurator
  have hunclaimed := eq_of_add64_eq_ok hunclaimed
  have hfund := eq_of_add64_eq_ok hfund
  have hactual := eq_of_add64_eq_ok hactual
  dsimp only at hfund hactual
  rw [intOfUint64_of_le hn] at hunclaimed
  rw [intOfUint64_of_le (by omega)] at hactual
  have hbefore := h.sum
  have hfundBefore := h.backToFund_nonneg
  refine ⟨reward, delegators + paid, ?_, Int.natCast_nonneg _, ?_, hactual, by dsimp only; omega⟩
  . exact {
      credited := h.credited.trans hcredited
      curators_nonneg := by
        have := h.curators_nonneg
        omega
      delegators_nonneg := by
        have := h.delegators_nonneg
        omega
      backToFund_nonneg := by
        dsimp only
        omega
      sum := by
        dsimp only
        omega
    }
  . rw [← hpasses]
    omega

/-- The vote that the loop leaves out. -/
def heaviestOf (cbl : CommentBill) (c : CommentCurationInfo) (maxRewards : ℤ) :
    List CommentVoteInfo → Option CommentVoteInfo
  | [] => none
  | i :: voteList =>
    if IsLate cbl i.vote then
      some i
    else if 0 < share cbl c maxRewards i then
      heaviestOf cbl c maxRewards voteList
    else
      none

/-- Nothing of what these votes claim is left for their curators, whom the claims of their delegators may
make stronger one after another. -/
def Quiet (cbl : CommentBill) (c : CommentCurationInfo) (maxRewards : ℤ) (s : Staking) :
    List CommentVoteInfo → Grants → Prop
  | [], _ => True
  | i :: voteList, g =>
    if s.golosPower i.vote.voter + g.power i.vote.voter < c.minVestingSharesToCurate then
      Quiet cbl c maxRewards s voteList g
    else
      delegatorsClaim (share cbl c maxRewards i) i.vote.delegatorVoteInterestRates =
          share cbl c maxRewards i ∧
        Quiet cbl c maxRewards s voteList (i.vote.delegatorVoteInterestRates.foldl
          (Grants.grant s i.vote.voter (share cbl c maxRewards i)) g)

instance decidableQuiet (s : Staking) :
    ∀ voteList g, Decidable (Quiet cbl c maxRewards s voteList g)
  | [], _ => .isTrue trivial
  | i :: voteList, g =>
    have := decidableQuiet s voteList
    inferInstanceAs (Decidable (if s.golosPower i.vote.voter + g.power i.vote.voter <
        c.minVestingSharesToCurate then
      Quiet cbl c maxRewards s voteList g
    else
      _ ∧ _))

/-- What the loop leaves. -/
structure Looped (cbl : CommentBill) (c : CommentCurationInfo) (s : Voting) (maxRewards : ℤ)
    (voteList : List CommentVoteInfo) (heaviest : Option CommentVoteInfo) (p : Payout)
    (curators : ℤ) (heaviest' : Option CommentVoteInfo) (p' : Payout) : Prop where
  balanced : ∃ curators' delegators', Balanced s maxRewards p' curators' delegators' ∧
    curators ≤ curators' ∧ p'.actualRewards = p.actualRewards + (curators' - curators) ∧
    ∀ g, Grants.Describes g s.staking p.db.staking → (curators' = curators ↔
      Quiet cbl c maxRewards s.staking (payees cbl c maxRewards voteList heaviest.isSome) g)
  unclaimed_nonneg : 0 ≤ p'.unclaimedRewards
  heaviest_eq : heaviest' = heaviest.or (heaviestOf cbl c maxRewards voteList)
  heaviest_mem : ∀ i ∈ heaviest', i ∈ heaviest ∨ i ∈ voteList

theorem describes_of_pay {g : Grants} (hg : g.Describes s.staking p.db.staking) (hn : (n : ℤ) ≤ maxInt64)
    (hall : ¬p.db.staking.golosPower i.vote.voter < c.minVestingSharesToCurate →
      delegatorsClaim n i.vote.delegatorVoteInterestRates = n)
    (h : p.pay c i n = .ok p') :
    (if p.db.staking.golosPower i.vote.voter < c.minVestingSharesToCurate then
      g
    else
      i.vote.delegatorVoteInterestRates.foldl (Grants.grant s.staking i.vote.voter n) g).Describes
        s.staking p'.db.staking := by
  simp only [Payout.pay, bind_eq_ok, pure_eq_ok] at h
  obtain ⟨_, -, ⟨db, reward, back⟩, hcurator, _, -, _, -, rfl⟩ := h
  unfold maxInt64 at hn
  exact describes_of_payCurator hg (fun hnot => ⟨hall hnot, by omega⟩) hcurator

theorem looped_of_payVotes (hmax : maxRewards ≤ maxInt64) (hrates : ∀ i ∈ c.voteList, RatesFit i.vote)
    {voteList : List CommentVoteInfo} (hlist : ∀ i ∈ voteList, i ∈ c.voteList)
    {heaviest heaviest' : Option CommentVoteInfo}
    (h : Balanced s maxRewards p curators delegators)
    (hroom : (((payees cbl c maxRewards voteList heaviest.isSome).map (share cbl c maxRewards)).sum : ℤ) ≤
      p.unclaimedRewards)
    (hloop : payVotes cbl c maxRewards voteList heaviest p = .ok (heaviest', p')) :
    Looped cbl c s maxRewards voteList heaviest p curators heaviest' p' := by
  induction voteList generalizing heaviest p curators delegators with
  | nil =>
    rw [payVotes, pure_eq_ok, Prod.mk.injEq] at hloop
    obtain ⟨rfl, rfl⟩ := hloop
    exact {
      balanced := ⟨curators, delegators, h, le_rfl, by omega, fun g _ => by simp [payees, Quiet]⟩
      unclaimed_nonneg := by simpa [payees] using hroom
      heaviest_eq := by simp [heaviestOf]
      heaviest_mem := fun i hi => .inl hi
    }
  | cons i voteList ih =>
    rw [payVotes, bind_eq_ok] at hloop
    obtain ⟨n, hn, hloop⟩ := hloop
    obtain rfl := eq_share_of_claim hn
    have hrest : ∀ j ∈ voteList, j ∈ c.voteList := fun j hj => hlist j (List.mem_cons_of_mem i hj)
    have hsum := h.sum
    split at hloop
    . next hfirst =>
      obtain ⟨hlate, hnone⟩ := hfirst
      obtain rfl := Option.isNone_iff_eq_none.mp hnone
      have hpayees : payees cbl c maxRewards (i :: voteList) (none : Option CommentVoteInfo).isSome =
          payees cbl c maxRewards voteList (some i).isSome := by
        rw [payees, if_pos ⟨hlate, by simp⟩]
        rfl
      rw [hpayees] at hroom
      have hlooped := ih hrest h hroom hloop
      exact {
        balanced := by
          rw [hpayees]
          exact hlooped.balanced
        unclaimed_nonneg := hlooped.unclaimed_nonneg
        heaviest_eq := by
          rw [hlooped.heaviest_eq, heaviestOf, if_pos hlate]
          rfl
        heaviest_mem := by
          intro j hj
          rcases hlooped.heaviest_mem j hj with hi | hj
          . obtain rfl := Option.mem_some_iff.mp hi
            exact .inr List.mem_cons_self
          . exact .inr (List.mem_cons_of_mem i hj)
      }
    . next hother =>
      have hheaviest : heaviest.or (heaviestOf cbl c maxRewards (i :: voteList)) =
          if 0 < share cbl c maxRewards i then
            heaviest.or (heaviestOf cbl c maxRewards voteList)
          else
            heaviest := by
        cases heaviest with
        | some j => simp
        | none =>
          have hlate : ¬IsLate cbl i.vote := fun hlate => hother ⟨hlate, rfl⟩
          rw [heaviestOf, if_neg hlate]
          simp
      have hpayees : payees cbl c maxRewards (i :: voteList) heaviest.isSome =
          if 0 < share cbl c maxRewards i then
            i :: payees cbl c maxRewards voteList heaviest.isSome
          else
            [] := by
        rw [payees, if_neg]
        rintro ⟨hlate, hfound⟩
        exact hother ⟨hlate, by simpa using hfound⟩
      rw [hpayees] at hroom
      split at hloop
      . next hpos =>
        rw [bind_eq_ok] at hloop
        obtain ⟨p₁, hp₁, hloop⟩ := hloop
        rw [if_pos hpos] at hroom hpayees
        rw [List.map_cons, List.sum_cons, Nat.cast_add] at hroom
        have hle : (share cbl c maxRewards i : ℤ) ≤ maxInt64 := by
          have := h.curators_nonneg
          have := h.delegators_nonneg
          have := h.backToFund_nonneg
          omega
        obtain ⟨reward, delegators₁, hbalanced, hreward, hpasses, hactual, hunclaimed⟩ :=
          h.pay hle (hrates i (hlist i List.mem_cons_self)) hp₁
        have hlooped := ih hrest hbalanced (by omega) hloop
        obtain ⟨curators', delegators', hbalanced', hcurators, hactual', hquiet⟩ := hlooped.balanced
        exact {
          balanced := by
            refine ⟨curators', delegators', hbalanced', by omega, by omega, ?_⟩
            intro g hg
            have hpower := hg.power i.vote.voter
            rw [hpayees, Quiet, ← hpower]
            unfold Passes at hpasses
            -- whoever is too weak leaves all as it is, and any other must pass the claim on
            split
            . next hweak =>
              have hdescribes := describes_of_pay hg hle (fun hnot => absurd hweak hnot) hp₁
              rw [if_pos hweak] at hdescribes
              have hzero := hpasses.mpr (.inl hweak)
              rw [← hquiet g hdescribes]
              omega
            . next hnot =>
              rw [or_iff_right hnot] at hpasses
              by_cases hclaim : delegatorsClaim (share cbl c maxRewards i)
                  i.vote.delegatorVoteInterestRates = share cbl c maxRewards i
              . have hdescribes := describes_of_pay hg hle (fun _ => hclaim) hp₁
                rw [if_neg hnot] at hdescribes
                have hzero := hpasses.mpr hclaim
                rw [and_iff_right hclaim, ← hquiet _ hdescribes]
                omega
              . have hpositive : reward ≠ 0 := fun hzero => hclaim (hpasses.mp hzero)
                constructor
                . omega
                . exact fun hall => absurd hall.1 hclaim
          unclaimed_nonneg := hlooped.unclaimed_nonneg
          heaviest_eq := by
            rw [hheaviest, if_pos hpos]
            exact hlooped.heaviest_eq
          heaviest_mem := by
            intro j hj
            rcases hlooped.heaviest_mem j hj with hj | hj
            . exact .inl hj
            . exact .inr (List.mem_cons_of_mem i hj)
        }
      . next hzero =>
        rw [pure_eq_ok, Prod.mk.injEq] at hloop
        obtain ⟨rfl, rfl⟩ := hloop
        rw [if_neg hzero] at hroom hpayees
        exact {
          balanced := by
            refine ⟨curators, delegators, h, le_rfl, by omega, ?_⟩
            intro g _
            rw [hpayees]
            simp [Quiet]
          unclaimed_nonneg := by simpa using hroom
          heaviest_eq := by rw [hheaviest, if_neg hzero]
          heaviest_mem := fun j hj => .inl hj
        }

end loop

section splits

/-- The rewards are split between curators, delegators, the reward fund and what is unclaimed. -/
structure Splits (s s' : Voting) (maxRewards unclaimedRewards : ℤ) : Prop where
  sum : (s'.curationRewards - s.curationRewards) + (s'.delegationRewards - s.delegationRewards) +
    (s'.totalRewardFundSteem - s.totalRewardFundSteem) + unclaimedRewards = maxRewards
  vesting : s'.staking.totalVestingFundSteem - s.staking.totalVestingFundSteem =
    (s'.curationRewards - s.curationRewards) + (s'.delegationRewards - s.delegationRewards)
  curators_nonneg : 0 ≤ s'.curationRewards - s.curationRewards
  delegators_nonneg : 0 ≤ s'.delegationRewards - s.delegationRewards
  rewardFund_nonneg : 0 ≤ s'.totalRewardFundSteem - s.totalRewardFundSteem
  unclaimed_nonneg : 0 ≤ unclaimedRewards
  noneRobbed : NoneRobbed s s'

/-- The rewards are split, and what is reported is what the curators have got. -/
def Exact (s : Voting) (maxRewards : ℤ) (p : Payout) : Prop :=
  Splits s p.db maxRewards p.unclaimedRewards ∧
    p.actualRewards = p.db.curationRewards - s.curationRewards

/-- What the votes in the loop claim is no more than there is. -/
def ClaimsFit (s : Voting) (c : CommentCurationInfo) (maxRewards : ℤ) : Prop :=
  let cbl := s.getCommentBill c.comment.id
  0 < c.totalVoteWeight → cbl.allowCurationRewards →
    ((payees cbl c maxRewards c.voteList false).map (share cbl c maxRewards)).sum ≤ maxRewards.toNat

instance (s : Voting) (c : CommentCurationInfo) : Decidable (ClaimsFit s c maxRewards) :=
  inferInstanceAs (Decidable (_ → _ → _))

/-- Whoever is paid before the heaviest late vote gets nothing. -/
def NoneForgotten (s : Voting) (c : CommentCurationInfo) (maxRewards : ℤ) : Prop :=
  let cbl := s.getCommentBill c.comment.id
  0 < c.totalVoteWeight → cbl.allowCurationRewards → (heaviestOf cbl c maxRewards c.voteList).isSome →
    Quiet cbl c maxRewards s.staking (payees cbl c maxRewards c.voteList false)
      { fund := s.staking.totalVestingFundSteem, shares := s.staking.totalVestingShares }

instance (s : Voting) (c : CommentCurationInfo) : Decidable (NoneForgotten s c maxRewards) :=
  inferInstanceAs (Decidable (_ → _ → _ → _))

variable {p p' : Payout} {curators delegators : ℤ} {i : CommentVoteInfo}

theorem Balanced.payHeaviest (h : Balanced s maxRewards p curators delegators)
    (hmax : maxRewards ≤ maxInt64) (hunclaimed : 0 ≤ p.unclaimedRewards) (hrates : RatesFit i.vote)
    (hpay : p.payHeaviest c i = .ok p') :
    ∃ reward delegators', Balanced s maxRewards p' (curators + reward) delegators' ∧
      p'.actualRewards = reward ∧ p'.unclaimedRewards = 0 := by
  have hcurators := h.curators_nonneg
  have hdelegators := h.delegators_nonneg
  have hfundBefore := h.backToFund_nonneg
  have hbefore := h.sum
  have hclaim : (uint64OfInt p.unclaimedRewards : ℤ) = p.unclaimedRewards := by
    unfold maxInt64 at hmax
    unfold uint64OfInt
    omega
  simp only [Payout.payHeaviest, bind_eq_ok, pure_eq_ok] at hpay
  obtain ⟨⟨db, reward, back⟩, hcurator, fund, hfund, rfl⟩ := hpay
  obtain ⟨paid, hcredited, hpaid, hback, hsum, -⟩ :=
    credited_of_payCurator (by omega) hrates hcurator
  have hfund := eq_of_add64_eq_ok hfund
  dsimp only at hfund
  have hreward : intOfUint64 reward = reward := intOfUint64_of_le (by omega)
  refine ⟨reward, delegators + paid, ?_, hreward, rfl⟩
  exact {
    credited := h.credited.trans hcredited
    curators_nonneg := by omega
    delegators_nonneg := by omega
    backToFund_nonneg := by
      dsimp only
      omega
    sum := by
      dsimp only
      omega
  }

/-- What is left when the votes are paid: a sum that the fund is still to get, and unclaimed rewards. -/
theorem Balanced.splits (h : Balanced s maxRewards p curators delegators) (amount : ℤ) (db : Voting)
    (hdb : db = { p.db with totalRewardFundSteem := p.db.totalRewardFundSteem + amount })
    (hamount : p.backToFund ≤ amount ∧ amount ≤ p.backToFund + p.unclaimedRewards) :
    Splits s db maxRewards (p.backToFund + p.unclaimedRewards - amount) ∧
      db.curationRewards - s.curationRewards = curators := by
  have hcurators : db.curationRewards = s.curationRewards + curators := by
    rw [hdb]
    exact h.credited.curators_eq
  have hdelegators : db.delegationRewards = s.delegationRewards + delegators := by
    rw [hdb]
    exact h.credited.delegators_eq
  have hvesting : db.staking.totalVestingFundSteem =
      s.staking.totalVestingFundSteem + curators + delegators := by
    rw [hdb]
    exact h.credited.vestingFund
  have hfund : db.totalRewardFundSteem = s.totalRewardFundSteem + amount := by
    rw [hdb, ← h.credited.rewardFund]
  have hsum := h.sum
  have := h.curators_nonneg
  have := h.delegators_nonneg
  have := h.backToFund_nonneg
  refine ⟨?_, by omega⟩
  exact {
    sum := by omega
    vesting := by omega
    curators_nonneg := by omega
    delegators_nonneg := by omega
    rewardFund_nonneg := by omega
    unclaimed_nonneg := by omega
    noneRobbed := by
      rw [hdb]
      exact h.credited.noneRobbed
  }

theorem addRewardFund_eq_ok {amount : ℤ} (h : p.addRewardFund amount = .ok p') :
    p' = { p with
      db := { p.db with totalRewardFundSteem := p.db.totalRewardFundSteem + amount } } := by
  simp only [addRewardFund, bind_eq_ok, pure_eq_ok] at h
  obtain ⟨fund, hfund, rfl⟩ := h
  rw [eq_of_add64_eq_ok hfund]

end splits

end Payout

section payCurators

open Payout

variable {s : Voting} {c : CommentCurationInfo} {maxRewards : ℤ} {p : Payout}

/-- Everything up to the point where the fund has got what the curators may not have. -/
theorem balanced_of_votes {cbl : CommentBill} (hmax : 0 ≤ maxRewards ∧ maxRewards ≤ maxInt64)
    (hrates : ∀ i ∈ c.voteList, RatesFit i.vote)
    (hclaims : ((payees cbl c maxRewards c.voteList false).map (share cbl c maxRewards)).sum ≤
      maxRewards.toNat)
    {heaviest : Option CommentVoteInfo} {p₁ p₂ : Payout}
    (hvotes : payVotes cbl c maxRewards c.voteList none { db := s, unclaimedRewards := maxRewards } =
      .ok (heaviest, p₁))
    (hheaviest : (match heaviest with
      | some i => p₁.payHeaviest c i
      | none => pure p₁) = .ok p₂) :
    ∃ curators delegators, Balanced s maxRewards p₂ curators delegators ∧
      0 ≤ p₂.unclaimedRewards ∧
      (p₂.actualRewards = curators ↔ ((heaviestOf cbl c maxRewards c.voteList).isSome →
        Quiet cbl c maxRewards s.staking (payees cbl c maxRewards c.voteList false)
          { fund := s.staking.totalVestingFundSteem, shares := s.staking.totalVestingShares })) := by
  have hstart : Balanced s maxRewards { db := s, unclaimedRewards := maxRewards } 0 0 := {
    credited := .refl s
    curators_nonneg := le_rfl
    delegators_nonneg := le_rfl
    backToFund_nonneg := le_rfl
    sum := by simp
  }
  have hlooped := looped_of_payVotes hmax.2 hrates (fun _ hi => hi) hstart
    (by dsimp only [Option.isSome_none]; omega) hvotes
  obtain ⟨curators, delegators, hbalanced, hcurators, hactual, hquiet⟩ := hlooped.balanced
  have hunclaimed := hlooped.unclaimed_nonneg
  have heq := hlooped.heaviest_eq
  rw [Option.none_or] at heq
  rw [← heq]
  cases heaviest with
  | none =>
    rw [pure_eq_ok] at hheaviest
    subst hheaviest
    refine ⟨curators, delegators, hbalanced, hunclaimed, ?_⟩
    simp only [Option.isSome_none, Bool.false_eq_true, false_implies, iff_true]
    dsimp only at hactual
    omega
  | some i =>
    have hi : i ∈ c.voteList := by
      rcases hlooped.heaviest_mem i rfl with hi | hi
      . cases hi
      . exact hi
    obtain ⟨reward, delegators', hbalanced', hreward, hzero⟩ :=
      hbalanced.payHeaviest hmax.2 hunclaimed (hrates i hi) hheaviest
    refine ⟨curators + reward, delegators', hbalanced', by omega, ?_⟩
    have hquiet := hquiet _ (Staking.describes_refl s.staking)
    rw [Option.isSome_none] at hquiet
    rw [hreward, ← hquiet]
    simp only [Option.isSome_some, true_implies]
    omega

/-- The rest of the rewards goes to the fund or stays unclaimed. -/
theorem splits_of_balanced {cbl : CommentBill} {curators delegators : ℤ} {p₂ p₃ : Payout}
    (hbalanced : Balanced s maxRewards p₂ curators delegators) (hunclaimed : 0 ≤ p₂.unclaimedRewards)
    (hp₃ : p₃ = { p₂ with
      db := { p₂.db with
        totalRewardFundSteem := p₂.db.totalRewardFundSteem + p₂.backToFund } })
    (h : (if ¬cbl.allowCurationRewards then do
        let p ← p₃.addRewardFund p₃.unclaimedRewards
        pure { p with unclaimedRewards := 0 }
      else if cbl.auctionWindowRewardDestination ≠ .toAuthor ∧ 0 < p₃.unclaimedRewards then do
        let p ← p₃.addRewardFund p₃.unclaimedRewards
        pure { p with unclaimedRewards := 0 }
      else
        pure p₃) = .ok p) :
    Splits s p.db maxRewards p.unclaimedRewards ∧
      p.db.curationRewards - s.curationRewards = curators ∧
      p.actualRewards = p₂.actualRewards := by
  have hback := hbalanced.backToFund_nonneg
  have hrest : ∀ p : Payout, (p₃.addRewardFund p₃.unclaimedRewards >>= fun p =>
        (pure { p with unclaimedRewards := 0 } : Result Payout)) = .ok p →
      Splits s p.db maxRewards p.unclaimedRewards ∧
        p.db.curationRewards - s.curationRewards = curators ∧
        p.actualRewards = p₂.actualRewards := by
    intro p h
    simp only [bind_eq_ok, pure_eq_ok] at h
    obtain ⟨p₄, hp₄, rfl⟩ := h
    have hp₄ := addRewardFund_eq_ok hp₄
    have hdb : p₄.db = { p₂.db with
        totalRewardFundSteem :=
          p₂.db.totalRewardFundSteem + (p₂.backToFund + p₂.unclaimedRewards) } := by
      rw [hp₄, hp₃, ← add_assoc]
    obtain ⟨hsplits, hcurators⟩ := hbalanced.splits _ p₄.db hdb (by omega)
    rw [sub_self] at hsplits
    refine ⟨hsplits, hcurators, ?_⟩
    rw [hp₄, hp₃]
  split at h
  . exact hrest p h
  . split at h
    . exact hrest p h
    . rw [pure_eq_ok] at h
      subst h
      obtain ⟨hsplits, hcurators⟩ := hbalanced.splits p₂.backToFund p₃.db (by rw [hp₃]) (by omega)
      rw [add_sub_cancel_left] at hsplits
      subst hp₃
      exact ⟨hsplits, hcurators, rfl⟩

/--
The rewards are always split, and what is reported is what the curators have got if and only if nobody
is paid before a late vote that gets the rest.
-/
theorem splits_of_payCurators (hmax : 0 ≤ maxRewards ∧ maxRewards ≤ maxInt64)
    (hrates : ∀ i ∈ c.voteList, RatesFit i.vote) (hclaims : ClaimsFit s c maxRewards)
    (h : s.payCurators c maxRewards = .ok p) :
    Splits s p.db maxRewards p.unclaimedRewards ∧
      (p.actualRewards = p.db.curationRewards - s.curationRewards ↔
        NoneForgotten s c maxRewards) := by
  unfold payCurators at h
  unfold NoneForgotten
  unfold ClaimsFit at hclaims
  generalize s.getCommentBill c.comment.id = cbl at hclaims h ⊢
  dsimp only at h hclaims ⊢
  rw [bind_eq_ok] at h
  obtain ⟨p₃, hp₃, h⟩ := h
  by_cases hpaid : 0 < c.totalVoteWeight ∧ cbl.allowCurationRewards
  . rw [if_pos hpaid] at hp₃
    simp only [bind_eq_ok] at hp₃
    obtain ⟨⟨heaviest, p₁⟩, hvotes, p₂, hp₂, hfund⟩ := hp₃
    obtain ⟨curators, delegators, hbalanced, hunclaimed, hactual⟩ :=
      balanced_of_votes hmax hrates (hclaims hpaid.1 hpaid.2) hvotes hp₂
    have hp₃ : p₃ = { p₂ with
        db := { p₂.db with
          totalRewardFundSteem := p₂.db.totalRewardFundSteem + p₂.backToFund } } := by
      split at hfund
      . exact addRewardFund_eq_ok hfund
      . next hzero =>
        rw [pure_eq_ok] at hfund
        subst hfund
        have hsame : p₂.db.totalRewardFundSteem + p₂.backToFund = p₂.db.totalRewardFundSteem := by
          omega
        rw [hsame]
    obtain ⟨hsplits, hcurators, hsame⟩ := splits_of_balanced hbalanced hunclaimed hp₃ h
    refine ⟨hsplits, ?_⟩
    rw [hcurators, hsame, hactual]
    simp [hpaid]
  . rw [if_neg hpaid, pure_eq_ok] at hp₃
    have hstart : Balanced s maxRewards { db := s, unclaimedRewards := maxRewards } 0 0 := {
      credited := .refl s
      curators_nonneg := le_rfl
      delegators_nonneg := le_rfl
      backToFund_nonneg := le_rfl
      sum := by simp
    }
    have hp₃ : p₃ =
        { db := { s with totalRewardFundSteem := s.totalRewardFundSteem + 0 }
          unclaimedRewards := maxRewards } := by
      rw [← hp₃, add_zero]
    obtain ⟨hsplits, hcurators, hsame⟩ := splits_of_balanced hstart hmax.1 hp₃ h
    refine ⟨hsplits, ?_⟩
    rw [hcurators, hsame]
    simp only [true_iff]
    intro hpos hallow
    exact absurd ⟨hpos, hallow⟩ hpaid

/-- Weights that add up leave no more claims than there are rewards. -/
theorem claimsFit_of_weighed (h : Weighed (s.window c.comment.id) c)
    (hmax : 0 ≤ maxRewards ∧ maxRewards ≤ maxInt64) : ClaimsFit s c maxRewards := by
  unfold ClaimsFit
  unfold window at h
  dsimp only
  intro _ _
  apply le_trans ?_ (sum_share_le h hmax)
  exact ((payees_sublist c.voteList false).map _).sum_le_sum fun _ _ => Nat.zero_le _

end payCurators

section rates

open Payout

variable {s : Voting}

/-- The Golos Power of a voter covers what is delegated to him. -/
structure Covers (effective : ℤ) (received : List VestingDelegationObject) : Prop where
  shares : ∀ vdo ∈ received, 0 ≤ vdo.vestingShares
  rates : ∀ vdo ∈ received, vdo.interestRate ≤ steemit100Percent
  sum : (received.map VestingDelegationObject.vestingShares).sum ≤ effective

theorem interestRate_le {effective : ℤ} {vdo : VestingDelegationObject}
    {dvir : DelegatorVoteInterestRate} (heffective : effective ≤ maxInt64)
    (hshares : 0 ≤ vdo.vestingShares ∧ vdo.vestingShares ≤ effective)
    (hrate : vdo.interestRate ≤ steemit100Percent)
    (h : delegatorVoteInterestRate effective vdo = .ok dvir) :
    dvir.interestRate ≤ steemit100Percent * vdo.vestingShares.toNat / effective.toNat := by
  simp only [delegatorVoteInterestRate, bind_eq_ok, ensure_eq_ok, pure_eq_ok] at h
  obtain ⟨-, -, rate, hquotient, rfl⟩ := h
  rw [toUint128_of_nonneg hshares.1 (hshares.2.trans heffective),
    toUint128_of_nonneg (hshares.1.trans hshares.2) heffective] at hquotient
  have hle : vdo.vestingShares.toNat * vdo.interestRate % 2 ^ 128 / effective.toNat ≤
      steemit100Percent * vdo.vestingShares.toNat / effective.toNat := by
    apply Nat.div_le_div_right
    apply (Nat.mod_le _ _).trans
    rw [Nat.mul_comm]
    exact Nat.mul_le_mul_right _ hrate
  apply le_trans ?_ hle
  generalize vdo.vestingShares.toNat * vdo.interestRate % 2 ^ 128 / effective.toNat = x at hquotient
  unfold ofUint128 at hquotient
  split at hquotient
  . have hrate := Except.ok.inj hquotient
    dsimp only
    split at hrate
    . omega
    . omega
  . cases hquotient

theorem sum_interestRate_le {effective : ℤ} {received : List VestingDelegationObject}
    {rates : List DelegatorVoteInterestRate} (heffective : effective ≤ maxInt64)
    (hshares : ∀ vdo ∈ received, 0 ≤ vdo.vestingShares ∧ vdo.vestingShares ≤ effective)
    (hrates : ∀ vdo ∈ received, vdo.interestRate ≤ steemit100Percent)
    (h : received.mapM (delegatorVoteInterestRate effective) = .ok rates) :
    (rates.map DelegatorVoteInterestRate.interestRate).sum ≤
      (received.map fun vdo =>
        steemit100Percent * vdo.vestingShares.toNat / effective.toNat).sum := by
  induction received generalizing rates with
  | nil =>
    rw [List.mapM_nil, pure_eq_ok] at h
    subst h
    exact le_rfl
  | cons vdo received ih =>
    simp only [List.mapM_cons, bind_eq_ok, pure_eq_ok] at h
    obtain ⟨dvir, hdvir, rest, hrest, rfl⟩ := h
    rw [List.map_cons, List.sum_cons, List.map_cons, List.sum_cons]
    apply Nat.add_le_add
    . exact interestRate_le heffective (hshares vdo List.mem_cons_self)
        (hrates vdo List.mem_cons_self) hdvir
    . exact ih (fun d hd => hshares d (List.mem_cons_of_mem vdo hd))
        (fun d hd => hrates d (List.mem_cons_of_mem vdo hd)) hrest

theorem sum_toNat {received : List VestingDelegationObject}
    (h : ∀ vdo ∈ received, 0 ≤ vdo.vestingShares) :
    (((received.map fun vdo => vdo.vestingShares.toNat).sum : Nat) : ℤ) =
      (received.map VestingDelegationObject.vestingShares).sum := by
  induction received with
  | nil => rfl
  | cons vdo received ih =>
    have hhead := h vdo List.mem_cons_self
    have htail := ih fun d hd => h d (List.mem_cons_of_mem vdo hd)
    rw [List.map_cons, List.sum_cons, List.map_cons, List.sum_cons, Nat.cast_add, htail,
      Int.toNat_of_nonneg hhead]

/-- The rates that a vote is given fit, as long as the voter's Golos Power covers what he has received. -/
theorem sum_le_of_delegatorVoteInterestRates {account : StakeAccountObject}
    {rates : List DelegatorVoteInterestRate}
    (hcovers : ∀ effective, account.effectiveVestingShares = .ok effective →
      Covers effective (s.staking.delegations.rows.filter fun vdo =>
        vdo.delegatee = account.name ∧ ¬vdo.isEmission))
    (h : s.delegatorVoteInterestRates account = .ok rates) :
    (rates.map DelegatorVoteInterestRate.interestRate).sum ≤ steemit100Percent := by
  unfold delegatorVoteInterestRates at h
  split at h
  . simp only [bind_eq_ok, pure_eq_ok] at h
    obtain ⟨effective, heffective, all, hall, rfl⟩ := h
    have hcovers := hcovers effective heffective
    have hmax : effective ≤ maxInt64 := by
      simp only [StakeAccountObject.effectiveVestingShares, bind_eq_ok, int64_eq_ok] at heffective
      obtain ⟨_, -, _, -, _, -, ⟨-, hmax⟩, rfl⟩ := heffective
      exact hmax
    generalize hreceived : (s.staking.delegations.rows.filter fun vdo =>
      vdo.delegatee = account.name ∧ ¬vdo.isEmission) = received at hall hcovers
    have hperm : (received.insertionSort fun a b => a.delegator ≤ b.delegator).Perm received :=
      List.perm_insertionSort _ _
    have hle : ∀ vdo ∈ received, vdo.vestingShares ≤ effective := by
      intro vdo hvdo
      apply le_trans ?_ hcovers.sum
      apply List.single_le_sum
      . intro x hx
        obtain ⟨d, hd, rfl⟩ := List.mem_map.mp hx
        exact hcovers.shares d hd
      . exact List.mem_map_of_mem hvdo
    have hsum := sum_interestRate_le hmax
      (fun vdo hvdo => ⟨hcovers.shares vdo (hperm.mem_iff.mp hvdo), hle vdo (hperm.mem_iff.mp hvdo)⟩)
      (fun vdo hvdo => hcovers.rates vdo (hperm.mem_iff.mp hvdo)) hall
    rw [(hperm.map _).sum_eq] at hsum
    have hfiltered : ((all.filter fun dvir => 0 < dvir.interestRate).map
        DelegatorVoteInterestRate.interestRate).sum ≤
        (all.map DelegatorVoteInterestRate.interestRate).sum :=
      (List.filter_sublist.map _).sum_le_sum fun _ _ => Nat.zero_le _
    have hfloors := sum_mul_div_le steemit100Percent effective.toNat
      (received.map fun vdo => vdo.vestingShares.toNat)
    rw [List.map_map] at hfloors
    have htotal := sum_toNat hcovers.shares
    have hcovered := hcovers.sum
    have hwhole : steemit100Percent * (received.map fun vdo => vdo.vestingShares.toNat).sum /
        effective.toNat ≤ steemit100Percent := by
      apply mul_div_le_of_le
      omega
    exact hfiltered.trans (hsum.trans (hfloors.trans hwhole))
  . rw [pure_eq_ok] at h
    subst h
    exact Nat.zero_le _

end rates

end Voting

namespace Board

open Voting Payout

variable {w : Board} {c : Voting.CommentObject} {info : CommentCurationInfo} {p : Payout} {maxRewards : ℤ}

/-- The info of a comment that waits for its payout has weights that add up. -/
theorem weighed_of_reachable (hw : publishing.Reachable w) (hc : c ∈ w.db.comments.rows)
    (hpending : c.lastPayout = 0) (hcurve : w.db.detectCurationCurve c ≠ .detect)
    (hturned : w.db.detectCurationCurve c = .linear → w.db.NoneTurned c.id) {fullList : Bool}
    (hinfo : w.db.commentCurationInfo wrap64 c fullList = .ok info) :
    info.comment = c ∧ (∀ i ∈ info.voteList, i.vote ∈ w.db.votesOn c.id) ∧
      Weighed (w.db.window c.id) info := by
  have hinv := invariant_of_reachable hw
  have hshares : ∃ shares, (if (w.db.getCommentBill c.id).minGolosPowerToCurate ≠ 0 then
      w.db.staking.toVests (w.db.getCommentBill c.id).minGolosPowerToCurate
    else
      pure 0 : Result ℤ) = .ok shares := by
    unfold commentCurationInfo at hinfo
    rw [bind_eq_ok] at hinfo
    obtain ⟨shares, hshares, -⟩ := hinfo
    exact ⟨shares, hshares⟩
  obtain ⟨shares, hshares⟩ := hshares
  have hfair : AllFair (w.db.detectCurationCurve c) (w.db.window c.id) [] (w.db.votesOn c.id) := by
    rw [allFair_iff_of_inWindow]
    . exact hturned
    . intro v hv
      obtain ⟨hrow, hid⟩ := mem_votesOn.mp hv
      exact (hinv.booked c hc).inWindow hpending v hrow hid
  obtain ⟨info', -, hwrap, hcomment, hvotes, hweighed⟩ :=
    exists_weighed (.inl hpending) hshares hcurve (hinv.fits hc _) hfair
  obtain rfl := Except.ok.inj (hinfo.symm.trans hwrap)
  exact ⟨hcomment, hvotes, hweighed⟩

/-- So what the votes on it claim fits. -/
theorem claimsFit_of_reachable (hw : publishing.Reachable w) (hc : c ∈ w.db.comments.rows)
    (hpending : c.lastPayout = 0) (hcurve : w.db.detectCurationCurve c ≠ .detect)
    (hturned : w.db.detectCurationCurve c = .linear → w.db.NoneTurned c.id)
    (hmax : 0 ≤ maxRewards ∧ maxRewards ≤ maxInt64)
    (hinfo : w.db.commentCurationInfo wrap64 c false = .ok info) : ClaimsFit w.db info maxRewards := by
  obtain ⟨rfl, -, hweighed⟩ := weighed_of_reachable hw hc hpending hcurve hturned hinfo
  exact claimsFit_of_weighed hweighed hmax

/--
A payout whose votes claim no more than there is splits the rewards, and reports what the curators have
got unless somebody is paid before the heaviest late vote, whose payment then is the only one that is
reported.
-/
theorem exact_iff {s : Voting} {c : CommentCurationInfo}
    (hmax : 0 ≤ maxRewards ∧ maxRewards ≤ maxInt64) (hclaims : ClaimsFit s c maxRewards)
    (hrates : ∀ i ∈ c.voteList, RatesFit i.vote) (hpay : s.payCurators c maxRewards = .ok p) :
    Exact s maxRewards p ↔ NoneForgotten s c maxRewards := by
  obtain ⟨hsplits, hactual⟩ := splits_of_payCurators hmax hrates hclaims hpay
  unfold Exact
  rw [hactual]
  exact and_iff_right hsplits

section forgotten

/-- The witnesses have voted for a linear curve, and nobody has written anything. -/
def crowd : Voting where
  staking :=
    { accounts :=
        ⟨
          [
            { name := "null" },
            { name := "alice" },
            { name := "bob", vestingShares := 1000000000000 },
            { name := "carol", vestingShares := 1000000000000 },
            { name := "dave", vestingShares := 400000000000 }
          ],
          by decide
        ⟩
      headBlockTime := 1700000000 }
  voters :=
    ⟨
      [{ name := "null" }, { name := "alice" }, { name := "bob" }, { name := "carol" }, { name := "dave" }],
      show ["null", "alice", "bob", "carol", "dave"].Nodup by decide
    ⟩

/-- Every vote is late, the curators share what others lose in the window, and dave is too weak for them. -/
def openBill : CommentBill where
  auctionWindowRewardDestination := .toCurators
  auctionWindowSize := 0
  minGolosPowerToCurate := 500000000

def upvote (voter : AccountName) : VoteOperation where
  voter := voter
  author := "alice"
  permlinkSize := 4
  hashlink := 7
  weight := 10000

def offered : Voting :=
  (crowd.createComment 0 "alice" 7 none openBill).toOption.getD {}

def curatedOnce : Voting :=
  (offered.vote (upvote "bob")).toOption.getD {}

def curatedTwice : Voting :=
  (curatedOnce.vote (upvote "carol")).toOption.getD {}

def curatedWeakly : Voting :=
  (curatedOnce.vote (upvote "dave")).toOption.getD {}

theorem createComment_crowd : crowd.createComment 0 "alice" 7 none openBill = .ok offered :=
  eq_ok_of_isSome (by decide +kernel)

theorem vote_offered : offered.vote (upvote "bob") = .ok curatedOnce :=
  eq_ok_of_isSome (by decide +kernel)

theorem vote_curatedOnce : curatedOnce.vote (upvote "carol") = .ok curatedTwice :=
  eq_ok_of_isSome (by decide +kernel)

theorem reachable_curatedOnce : publishing.Reachable ⟨curatedOnce, 1⟩ := by
  have hoffered : publishing.Reachable ⟨offered, 1⟩ :=
    .step (e := .comment "alice" 7 none openBill) (s := ⟨crowd, 0⟩) (.initial ⟨rfl, rfl, rfl⟩) trivial
      ⟨by decide, createComment_crowd, rfl⟩
  exact .step (e := .vote (upvote "bob")) hoffered trivial ⟨vote_offered, rfl⟩

theorem reachable_curatedTwice : publishing.Reachable ⟨curatedTwice, 1⟩ :=
  .step (e := .vote (upvote "carol")) reachable_curatedOnce trivial ⟨vote_curatedOnce, rfl⟩

/-- The info of a comment and its payout. -/
def payout (s : Voting) (c : Voting.CommentObject) (maxRewards : ℤ) :
    Result (CommentCurationInfo × Payout) := do
  let info ← s.commentCurationInfo wrap64 c false
  let p ← s.payCurators info maxRewards
  pure (info, p)

theorem payout_of_any {s : Voting} {test : CommentCurationInfo × Payout → Bool}
    (h : (payout s c maxRewards).toOption.any test) :
    ∃ info p, s.commentCurationInfo wrap64 c false = .ok info ∧
      s.payCurators info maxRewards = .ok p ∧ test (info, p) := by
  cases hr : payout s c maxRewards with
  | error e =>
    rw [hr] at h
    cases h
  | ok r =>
    rw [hr] at h
    simp only [payout, bind_eq_ok, pure_eq_ok] at hr
    obtain ⟨info, hinfo, p, hp, rfl⟩ := hr
    exact ⟨info, p, hinfo, hp, h⟩

/-- Bob and carol get half of the reward each, and only one half is reported. -/
theorem curatedTwice_not_exact :
    publishing.Reachable ⟨curatedTwice, 1⟩ ∧ ∃ c ∈ curatedTwice.comments.rows, ∃ info p,
      curatedTwice.commentCurationInfo wrap64 c false = .ok info ∧
      curatedTwice.payCurators info 1000 = .ok p ∧ p.actualRewards = 500 ∧
      p.db.curationRewards - curatedTwice.curationRewards = 1000 ∧ ¬Exact curatedTwice 1000 p := by
  refine ⟨reachable_curatedTwice, ?_⟩
  have hc : ∃ c ∈ curatedTwice.comments.rows, (payout curatedTwice c 1000).toOption.any fun r =>
      r.2.actualRewards = 500 ∧ r.2.db.curationRewards - curatedTwice.curationRewards = 1000 := by
    decide +kernel
  obtain ⟨c, hmem, hany⟩ := hc
  obtain ⟨info, p, hinfo, hp, htest⟩ := payout_of_any hany
  simp only [decide_eq_true_eq] at htest
  obtain ⟨hactual, hpaid⟩ := htest
  refine ⟨c, hmem, info, p, hinfo, hp, hactual, hpaid, ?_⟩
  rintro ⟨-, hreported⟩
  omega

/-- Dave is paid before bob, and what he claims goes back to the fund. -/
theorem exact_curatedWeakly : ∃ c ∈ curatedWeakly.comments.rows, ∃ info p,
    curatedWeakly.commentCurationInfo wrap64 c false = .ok info ∧
      curatedWeakly.payCurators info 1000 = .ok p ∧ p.actualRewards = 715 ∧
      Exact curatedWeakly 1000 p := by
  have hc : ∃ c ∈ curatedWeakly.comments.rows, (payout curatedWeakly c 1000).toOption.any fun r =>
      ClaimsFit curatedWeakly r.1 1000 ∧ NoneForgotten curatedWeakly r.1 1000 ∧
        (∀ i ∈ r.1.voteList, RatesFit i.vote) ∧ r.2.actualRewards = 715 := by
    decide +kernel
  obtain ⟨c, hmem, hany⟩ := hc
  obtain ⟨info, p, hinfo, hp, htest⟩ := payout_of_any hany
  simp only [decide_eq_true_eq] at htest
  obtain ⟨hclaims, hquiet, hrates, hactual⟩ := htest
  exact ⟨c, hmem, info, p, hinfo, hp, hactual,
    (exact_iff ⟨by decide, by decide⟩ hclaims hrates hp).mpr hquiet⟩

end forgotten

end Board

end Golos
