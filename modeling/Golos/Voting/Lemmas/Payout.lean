import Golos.Staking.Lemmas.Delegation
import Golos.Voting.Impl.Payout
import Golos.Voting.Lemmas.Outcome

/-!
This module contains what a payment to a curator does to the reward counters of the accounts and to the
vesting fund.
-/

namespace Golos

open Checked

section grants

/-- The shares that an account votes with. -/
def StakeAccountObject.golosPower (a : StakeAccountObject) : ℤ :=
  a.vestingShares - a.delegatedVestingShares - a.emissionDelegatedVestingShares
    + a.receivedVestingShares + a.emissionReceivedVestingShares

theorem StakeAccountObject.golosPower_eq {a : StakeAccountObject} {effective : ℤ}
    (h : a.effectiveVestingShares = .ok effective) : effective = a.golosPower := by
  simp only [effectiveVestingShares, bind_eq_ok, int64_eq_ok] at h
  obtain ⟨_, ⟨-, rfl⟩, _, ⟨-, rfl⟩, _, ⟨-, rfl⟩, -, rfl⟩ := h
  rfl

def Staking.golosPower (s : Staking) (name : AccountName) : ℤ :=
  (s.accounts.find? name).elim 0 StakeAccountObject.golosPower

/-- The shares for some GOLOS at the price of a vesting fund. -/
def vestsAt (fund shares steem : ℤ) : ℤ :=
  ((Staking.toVests { totalVestingFundSteem := fund, totalVestingShares := shares } steem).toOption).getD 0

/-- Whose Golos Power a payment to a delegator adds to. -/
def Staking.grantee (s : Staking) (delegatee : AccountName) (dvir : DelegatorVoteInterestRate) :
    AccountName :=
  if dvir.payoutStrategy = .toDelegatedVesting ∧ (s.findDelegation dvir.account delegatee).isSome then
    delegatee
  else
    dvir.account

/-- A vesting fund to which delegators' claims are added, and the Golos Power that they bring. -/
structure Grants where
  fund : ℤ
  shares : ℤ
  power : AccountName → ℤ := 0

def Grants.grant (s : Staking) (delegatee : AccountName) (claim : Nat) (g : Grants)
    (dvir : DelegatorVoteInterestRate) : Grants :=
  let steem := Voting.delegatorClaim claim dvir
  if steem = 0 then
    g
  else
    let vests := vestsAt g.fund g.shares steem
    { fund := g.fund + steem
      shares := g.shares + vests
      power := g.power + Pi.single (s.grantee delegatee dvir) vests }

/-- `s'` is `s` after these grants. -/
structure Grants.Describes (g : Grants) (s s' : Staking) : Prop where
  fund : s'.totalVestingFundSteem = g.fund
  shares : s'.totalVestingShares = g.shares
  power : ∀ name, s'.golosPower name = s.golosPower name + g.power name
  delegations : ∀ delegator delegatee,
    (s'.findDelegation delegator delegatee).isSome = (s.findDelegation delegator delegatee).isSome

namespace Staking

variable {s s' s₀ : Staking} {g : Grants}

theorem golosPower_modifyAccount {name : AccountName} {x : ℤ}
    {f : StakeAccountObject → Result StakeAccountObject}
    (hf : ∀ a a', f a = .ok a' → a'.golosPower = a.golosPower + x)
    (h : s.modifyAccount name f = .ok s') :
    ∀ n, s'.golosPower n = s.golosPower n + (Pi.single name x : AccountName → ℤ) n := by
  intro n
  simp only [modifyAccount, getAccount, bind_eq_ok, get_eq_ok, pure_eq_ok] at h
  obtain ⟨a, ha, a', ha', rfl⟩ := h
  unfold golosPower
  dsimp only
  rw [Table.find?_modify]
  by_cases hn : n = name
  . subst hn
    rw [if_pos rfl, ha, Pi.single_eq_same]
    exact hf a a' ha'
  . rw [if_neg hn, Pi.single_eq_of_ne hn, add_zero]

theorem golosPower_delegateVs {name : AccountName} {delta : ℤ}
    (h : s.delegateVs name delta false = .ok s') :
    ∀ n, s'.golosPower n = s.golosPower n + (Pi.single name (-delta) : AccountName → ℤ) n := by
  apply golosPower_modifyAccount ?_ h
  intro a a' ha
  simp only [StakeAccountObject.delegateVs, Bool.false_eq_true, if_false, bind_eq_ok, pure_eq_ok] at ha
  obtain ⟨shares, hshares, rfl⟩ := ha
  have := eq_of_add64_eq_ok hshares
  simp only [StakeAccountObject.golosPower]
  omega

theorem golosPower_receiveVs {name : AccountName} {delta : ℤ}
    (h : s.receiveVs name delta false = .ok s') :
    ∀ n, s'.golosPower n = s.golosPower n + (Pi.single name delta : AccountName → ℤ) n := by
  apply golosPower_modifyAccount ?_ h
  intro a a' ha
  simp only [StakeAccountObject.receiveVs, Bool.false_eq_true, if_false, bind_eq_ok, pure_eq_ok] at ha
  obtain ⟨shares, hshares, rfl⟩ := ha
  have := eq_of_add64_eq_ok hshares
  simp only [StakeAccountObject.golosPower]
  omega

theorem eq_vestsAt {steem vests : ℤ} (h : s.toVests steem = .ok vests) :
    vests = vestsAt s.totalVestingFundSteem s.totalVestingShares steem := by
  have heq : Staking.toVests
      { totalVestingFundSteem := s.totalVestingFundSteem, totalVestingShares := s.totalVestingShares }
      steem = .ok vests := h
  unfold vestsAt
  rw [heq]
  rfl

/-- What `create_vesting` changes. -/
theorem eq_of_createVesting {name : AccountName} {steem vests : ℤ}
    (h : s.createVesting name steem = .ok (s', vests)) :
    vests = vestsAt s.totalVestingFundSteem s.totalVestingShares steem ∧
      s'.totalVestingFundSteem = s.totalVestingFundSteem + steem ∧
      s'.totalVestingShares = s.totalVestingShares + vests ∧
      (∀ n, s'.golosPower n = s.golosPower n + (Pi.single name vests : AccountName → ℤ) n) ∧
      s'.delegations = s.delegations := by
  have hdelegations := delegations_createVesting h
  simp only [Staking.createVesting, bind_eq_ok, pure_eq_ok, Prod.mk.injEq] at h
  obtain ⟨_, hvests, s₁, hs₁, fund, hfund, shares, hshares, rfl, rfl⟩ := h
  have hframe := eq_of_modifyAccount hs₁
  refine ⟨eq_vestsAt hvests, ?_, ?_, ?_, hdelegations⟩
  . dsimp only
    rw [eq_of_add64_eq_ok hfund, hframe]
  . dsimp only
    rw [eq_of_add64_eq_ok hshares, hframe]
  . show ∀ n, s₁.golosPower n = _
    apply golosPower_modifyAccount ?_ hs₁
    intro a a' ha
    simp only [bind_eq_ok, pure_eq_ok] at ha
    obtain ⟨own, hown, rfl⟩ := ha
    have := eq_of_add64_eq_ok hown
    simp only [StakeAccountObject.golosPower]
    omega

theorem eq_zero_of_mulPrice {symbol : AssetSymbolType} {p : Price} {a : Asset}
    (h : Asset.mulPrice ⟨0, symbol⟩ p = .ok a) : a.amount = 0 := by
  have hzero : toUint128 0 = 0 := rfl
  have hquotient : ofUint128 0 = .ok 0 := rfl
  unfold Asset.mulPrice at h
  simp only [hzero, Nat.zero_mul, Nat.zero_mod, Nat.zero_div, hquotient] at h
  split at h
  . simp only [bind_eq_ok, pure_eq_ok, Except.ok.injEq] at h
    obtain ⟨-, -, _, rfl, rfl⟩ := h
    rfl
  . split at h
    . simp only [bind_eq_ok, pure_eq_ok, Except.ok.injEq] at h
      obtain ⟨-, -, _, rfl, rfl⟩ := h
      rfl
    . cases h

theorem vestsAt_zero (fund shares : ℤ) : vestsAt fund shares 0 = 0 := by
  unfold vestsAt
  generalize Staking.mk _ _ _ _ _ _ _ _ _ _ = s
  cases hvests : s.toVests 0 with
  | error e => rfl
  | ok vests =>
    simp only [toVests, bind_eq_ok, pure_eq_ok] at hvests
    obtain ⟨a, ha, rfl⟩ := hvests
    exact eq_zero_of_mulPrice ha

theorem describes_refl (s : Staking) :
    Grants.Describes ⟨s.totalVestingFundSteem, s.totalVestingShares, 0⟩ s s where
  fund := rfl
  shares := rfl
  power _ := (add_zero _).symm
  delegations _ _ := rfl

/-- A payment to a delegator is a grant. -/
theorem describes_of_payDelegator {delegatee : AccountName} {claim : Nat}
    {dvir : DelegatorVoteInterestRate} (h : g.Describes s₀ s)
    (hclaim : Voting.delegatorClaim claim dvir ≠ 0)
    (hpay : s.payDelegator delegatee claim dvir = .ok s') :
    (g.grant s₀ delegatee claim dvir).Describes s₀ s' := by
  have hrate : ¬steemit100Percent < dvir.interestRate := by
    intro hlt
    exact hclaim (if_pos hlt)
  unfold Grants.grant
  dsimp only
  rw [if_neg hclaim]
  unfold Voting.delegatorClaim at hclaim ⊢
  rw [if_neg hrate] at hclaim ⊢
  unfold Staking.payDelegator at hpay
  dsimp only at hpay
  rw [if_neg (not_or.mpr ⟨hrate, hclaim⟩)] at hpay
  generalize claim * dvir.interestRate % 2 ^ 64 / steemit100Percent = steem at hpay hclaim ⊢
  simp only [bind_eq_ok] at hpay
  obtain ⟨⟨s₁, vests⟩, hs₁, hpay⟩ := hpay
  obtain ⟨hvests, hfund, hshares, hpower, hdelegations⟩ := eq_of_createVesting hs₁
  rw [h.fund, h.shares] at hvests
  have hfound : (s₁.findDelegation dvir.account delegatee).isSome =
      (s₀.findDelegation dvir.account delegatee).isSome := by
    rw [← h.delegations]
    unfold findDelegation
    rw [hdelegations]
  rw [← hvests]
  split at hpay
  . next d hstrategy hd =>
    simp only [bind_eq_ok, pure_eq_ok] at hpay
    obtain ⟨s₂, hs₂, s₃, hs₃, shares, -, rfl⟩ := hpay
    have hgrantee : s₀.grantee delegatee dvir = delegatee :=
      if_pos ⟨hstrategy, by rw [← hfound, hd]; rfl⟩
    have hframe₂ := eq_of_modifyAccount hs₂
    have hframe₃ := eq_of_modifyAccount hs₃
    exact {
      fund := by
        have : s₃.totalVestingFundSteem = s₁.totalVestingFundSteem := by rw [hframe₃, hframe₂]
        rw [← h.fund, ← hfund]
        exact this
      shares := by
        have : s₃.totalVestingShares = s₁.totalVestingShares := by rw [hframe₃, hframe₂]
        rw [← h.shares, ← hshares]
        exact this
      power := by
        intro n
        have h₁ := hpower n
        have h₂ := golosPower_delegateVs hs₂ n
        have h₃ := golosPower_receiveVs hs₃ n
        have hneg : (Pi.single dvir.account (-vests) : AccountName → ℤ) n =
            -(Pi.single dvir.account vests : AccountName → ℤ) n := by
          rw [Pi.single_neg, Pi.neg_apply]
        have hbefore := h.power n
        rw [hgrantee]
        dsimp only [Pi.add_apply]
        change s₃.golosPower n = _
        omega
      delegations := by
        intro a b
        rw [← h.delegations a b]
        have hkept : s₃.delegations = s.delegations := by
          rw [delegations_modifyAccount hs₃, delegations_modifyAccount hs₂, hdelegations]
        simp only [findDelegation, modifyDelegation, Table.find?_modify, hkept]
        split
        . rw [Option.isSome_map]
        . rfl
    }
  . next hother =>
    rw [pure_eq_ok] at hpay
    subst hpay
    have hgrantee : s₀.grantee delegatee dvir = dvir.account := by
      apply if_neg
      rintro ⟨hstrategy, hsome⟩
      rw [← hfound] at hsome
      obtain ⟨d, hd⟩ := Option.isSome_iff_exists.mp hsome
      exact hother d hstrategy hd
    exact {
      fund := by rw [hfund, h.fund]
      shares := by rw [hshares, h.shares]
      power := by
        intro n
        rw [hpower, h.power, hgrantee]
        exact add_assoc _ _ _
      delegations := by
        intro a b
        rw [← h.delegations a b]
        unfold findDelegation
        rw [hdelegations]
    }

theorem fund_payDelegator {delegatee : AccountName} {claim : Nat} {dvir : DelegatorVoteInterestRate}
    (hclaim : Voting.delegatorClaim claim dvir ≠ 0)
    (h : s.payDelegator delegatee claim dvir = .ok s') :
    s'.totalVestingFundSteem = s.totalVestingFundSteem + Voting.delegatorClaim claim dvir := by
  rw [(describes_of_payDelegator (describes_refl s) hclaim h).fund]
  unfold Grants.grant
  dsimp only
  rw [if_neg hclaim]

end Staking

end grants

namespace Voting

variable {s s' s'' : Voting}

section credited

/-- The curation rewards of all accounts. -/
def curationRewards (s : Voting) : ℤ :=
  s.voters.sum VoterObject.curationRewards

/-- The delegation rewards of all accounts. -/
def delegationRewards (s : Voting) : ℤ :=
  s.voters.sum VoterObject.delegationRewards

/-- No account has less rewards than before. -/
def NoneRobbed (s s' : Voting) : Prop :=
  ∀ name a, s.voters.find? name = some a → ∃ a', s'.voters.find? name = some a' ∧
    a.curationRewards ≤ a'.curationRewards ∧ a.delegationRewards ≤ a'.delegationRewards

/-- Curators and delegators have got these amounts of vesting. -/
structure Credited (s s' : Voting) (curators delegators : ℤ) : Prop where
  vestingFund : s'.staking.totalVestingFundSteem =
    s.staking.totalVestingFundSteem + curators + delegators
  rewardFund : s'.totalRewardFundSteem = s.totalRewardFundSteem
  curators_eq : s'.curationRewards = s.curationRewards + curators
  delegators_eq : s'.delegationRewards = s.delegationRewards + delegators
  noneRobbed : NoneRobbed s s'

theorem NoneRobbed.refl (s : Voting) : NoneRobbed s s :=
  fun _ a ha => ⟨a, ha, le_rfl, le_rfl⟩

theorem NoneRobbed.trans (h : NoneRobbed s s') (h' : NoneRobbed s' s'') : NoneRobbed s s'' := by
  intro name a ha
  obtain ⟨a', ha', hcuration, hdelegation⟩ := h name a ha
  obtain ⟨a'', ha'', hcuration', hdelegation'⟩ := h' name a' ha'
  exact ⟨a'', ha'', hcuration.trans hcuration', hdelegation.trans hdelegation'⟩

theorem Credited.refl (s : Voting) : Credited s s 0 0 where
  vestingFund := by omega
  rewardFund := rfl
  curators_eq := (add_zero _).symm
  delegators_eq := (add_zero _).symm
  noneRobbed := .refl s

theorem Credited.trans {curators delegators curators' delegators' : ℤ}
    (h : Credited s s' curators delegators) (h' : Credited s' s'' curators' delegators') :
    Credited s s'' (curators + curators') (delegators + delegators') where
  vestingFund := by
    have := h.vestingFund
    have := h'.vestingFund
    omega
  rewardFund := h'.rewardFund.trans h.rewardFund
  curators_eq := by
    have := h.curators_eq
    have := h'.curators_eq
    omega
  delegators_eq := by
    have := h.delegators_eq
    have := h'.delegators_eq
    omega
  noneRobbed := h.noneRobbed.trans h'.noneRobbed

/-- New vesting, and the counters of one account that say so. -/
theorem credited_of_modifyVoter {staking : Staking} {name : AccountName}
    {f : VoterObject → Result VoterObject} {curators delegators : ℤ} (hcurators : 0 ≤ curators)
    (hdelegators : 0 ≤ delegators)
    (hfund : staking.totalVestingFundSteem =
      s.staking.totalVestingFundSteem + curators + delegators)
    (hf : ∀ a a', f a = .ok a' → a'.curationRewards = a.curationRewards + curators ∧
      a'.delegationRewards = a.delegationRewards + delegators)
    (h : { s with staking := staking }.modifyVoter name f = .ok s') :
    Credited s s' curators delegators := by
  obtain ⟨a, a', ha, ha', rfl⟩ := modifyVoter_eq_ok.mp h
  obtain ⟨hcuration, hdelegation⟩ := hf a a' ha'
  exact {
    vestingFund := hfund
    rewardFund := rfl
    curators_eq := by
      unfold curationRewards
      dsimp only
      rw [Table.sum_modify _ _ _ _ ha]
      dsimp only
      omega
    delegators_eq := by
      unfold delegationRewards
      dsimp only
      rw [Table.sum_modify _ _ _ _ ha]
      dsimp only
      omega
    noneRobbed := by
      intro other b hb
      dsimp only at hb ⊢
      rw [Table.find?_modify]
      by_cases heq : other = name
      . rw [if_pos heq, hb]
        rw [heq] at hb
        obtain rfl := Option.some.inj (hb.symm.trans ha)
        refine ⟨_, rfl, ?_, ?_⟩
        . dsimp only
          omega
        . dsimp only
          omega
      . rw [if_neg heq]
        exact ⟨b, hb, le_rfl, le_rfl⟩
  }

end credited

section delegators

variable {claim : Nat} {rates : List DelegatorVoteInterestRate}

/-- What the delegators get of a claim together. -/
def delegatorsClaim (claim : Nat) (rates : List DelegatorVoteInterestRate) : Nat :=
  (rates.map (delegatorClaim claim)).sum

theorem delegatorClaim_le (claim : Nat) (dvir : DelegatorVoteInterestRate) :
    delegatorClaim claim dvir ≤ claim * dvir.interestRate / steemit100Percent := by
  unfold delegatorClaim
  split
  . exact Nat.zero_le _
  . exact Nat.div_le_div_right (Nat.mod_le _ _)

theorem delegatorsClaim_le_div (claim : Nat) (rates : List DelegatorVoteInterestRate) :
    delegatorsClaim claim rates ≤
      claim * (rates.map DelegatorVoteInterestRate.interestRate).sum / steemit100Percent := by
  induction rates with
  | nil => exact Nat.zero_le _
  | cons dvir rates ih =>
    have hhead := delegatorClaim_le claim dvir
    unfold delegatorsClaim at ih ⊢
    rw [List.map_cons, List.sum_cons, List.map_cons, List.sum_cons, Nat.mul_add]
    exact (Nat.add_le_add hhead ih).trans Nat.div_add_div_le_add_div

/-- The delegators of the voter get no more than all. -/
def RatesFit (v : CommentVoteObject) : Prop :=
  (v.delegatorVoteInterestRates.map DelegatorVoteInterestRate.interestRate).sum ≤ steemit100Percent

instance (v : CommentVoteObject) : Decidable (RatesFit v) :=
  inferInstanceAs (Decidable (_ ≤ _))

theorem RatesFit.delegatorsClaim_le {v : CommentVoteObject} (h : RatesFit v) (claim : Nat) :
    delegatorsClaim claim v.delegatorVoteInterestRates ≤ claim := by
  apply (delegatorsClaim_le_div _ _).trans
  apply Nat.div_le_of_le_mul
  rw [Nat.mul_comm steemit100Percent]
  exact Nat.mul_le_mul_left claim h

theorem credited_of_payDelegator {delegatee : AccountName} {dvir : DelegatorVoteInterestRate}
    {p p' : Voting × Nat} (h : payDelegator delegatee claim p dvir = .ok p') :
    Credited p.1 p'.1 0 (delegatorClaim claim dvir) ∧
      p'.2 = if delegatorClaim claim dvir = 0 then p.2 else
        (p.2 + delegatorClaim claim dvir) % 2 ^ 64 := by
  unfold payDelegator at h
  dsimp only at h
  split at h
  . next hzero =>
    rw [pure_eq_ok] at h
    subst h
    rw [hzero]
    exact ⟨.refl _, rfl⟩
  . next hpays =>
    simp only [bind_eq_ok, pure_eq_ok] at h
    obtain ⟨staking, hstaking, s₁, hs₁, rfl⟩ := h
    have hfund := Staking.fund_payDelegator hpays hstaking
    refine ⟨?_, (if_neg hpays).symm⟩
    apply credited_of_modifyVoter le_rfl (Int.natCast_nonneg _) ?_ ?_ hs₁
    . rw [hfund, add_zero]
    . intro a a' ha'
      simp only [bind_eq_ok, pure_eq_ok] at ha'
      obtain ⟨rewards, hrewards, rfl⟩ := ha'
      exact ⟨(add_zero _).symm, eq_of_add64_eq_ok hrewards⟩

theorem credited_of_foldlM {delegatee : AccountName} {p p' : Voting × Nat}
    (hlt : p.2 + delegatorsClaim claim rates < 2 ^ 64)
    (h : rates.foldlM (payDelegator delegatee claim) p = .ok p') :
    Credited p.1 p'.1 0 (delegatorsClaim claim rates) ∧ p'.2 = p.2 + delegatorsClaim claim rates := by
  induction rates generalizing p with
  | nil =>
    rw [List.foldlM_nil, pure_eq_ok] at h
    subst h
    exact ⟨.refl _, rfl⟩
  | cons dvir rates ih =>
    rw [List.foldlM_cons, bind_eq_ok] at h
    obtain ⟨p₁, hp₁, h⟩ := h
    have hsum : delegatorsClaim claim (dvir :: rates) =
        delegatorClaim claim dvir + delegatorsClaim claim rates := rfl
    rw [hsum] at hlt ⊢
    obtain ⟨hcredited, heq⟩ := credited_of_payDelegator hp₁
    have hp₁' : p₁.2 = p.2 + delegatorClaim claim dvir := by
      rw [heq]
      split
      . next hzero => rw [hzero, add_zero]
      . exact Nat.mod_eq_of_lt (by omega)
    obtain ⟨hcredited', heq'⟩ := ih (by omega) h
    refine ⟨?_, by omega⟩
    have := hcredited.trans hcredited'
    rw [add_zero, ← Nat.cast_add] at this
    exact this

/-- The claims of delegators are granted one after another. -/
theorem describes_of_foldlM {delegatee : AccountName} {p p' : Voting × Nat} {g : Grants} {s₀ : Staking}
    (hg : g.Describes s₀ p.1.staking) (h : rates.foldlM (payDelegator delegatee claim) p = .ok p') :
    (rates.foldl (Grants.grant s₀ delegatee claim) g).Describes s₀ p'.1.staking := by
  induction rates generalizing p g with
  | nil =>
    rw [List.foldlM_nil, pure_eq_ok] at h
    subst h
    exact hg
  | cons dvir rates ih =>
    rw [List.foldlM_cons, bind_eq_ok] at h
    obtain ⟨p₁, hp₁, h⟩ := h
    apply ih ?_ h
    unfold payDelegator at hp₁
    dsimp only at hp₁
    split at hp₁
    . next hzero =>
      rw [pure_eq_ok] at hp₁
      subst hp₁
      unfold Grants.grant
      dsimp only
      rw [if_pos hzero]
      exact hg
    . next hpays =>
      simp only [bind_eq_ok, pure_eq_ok] at hp₁
      obtain ⟨staking, hstaking, s₁, hs₁, rfl⟩ := hp₁
      obtain ⟨_, _, -, -, rfl⟩ := modifyVoter_eq_ok.mp hs₁
      exact Staking.describes_of_payDelegator hg hpays hstaking

end delegators

section curator

variable {c : CommentCurationInfo} {v : CommentVoteObject} {claim : Nat}

/-- A claim of which nothing is left for the curator. -/
def Passes (s : Voting) (c : CommentCurationInfo) (v : CommentVoteObject) (claim : Nat) : Prop :=
  s.staking.golosPower v.voter < c.minVestingSharesToCurate ∨
    delegatorsClaim claim v.delegatorVoteInterestRates = claim

/-- The Golos Power that is compared with the one that the comment asks for. -/
theorem golosPower_eq_of_ok {name : AccountName} {voter : StakeAccountObject} {effective : ℤ}
    (hvoter : s.staking.getAccount name = .ok voter) (heffective : voter.effectiveVestingShares = .ok effective) :
    effective = s.staking.golosPower name := by
  rw [Staking.getAccount, get_eq_ok] at hvoter
  rw [StakeAccountObject.golosPower_eq heffective, Staking.golosPower, hvoter]
  rfl

theorem intOfUint64_of_le {n : Nat} (h : (n : ℤ) ≤ maxInt64) : intOfUint64 n = n := by
  unfold maxInt64 at h
  unfold intOfUint64
  rw [if_pos (by omega)]

/-- A claim goes to the curator, to the delegators and back to the fund without a remainder. -/
theorem credited_of_payCurator {reward : Nat} {back : ℤ} (hclaim : (claim : ℤ) ≤ maxInt64)
    (hrates : RatesFit v) (h : s.payCurator v claim c = .ok (s', reward, back)) :
    ∃ delegators : ℤ, Credited s s' reward delegators ∧ 0 ≤ delegators ∧ 0 ≤ back ∧
      reward + delegators + back = claim ∧ (reward = 0 ↔ Passes s c v claim) := by
  simp only [payCurator, bind_eq_ok] at h
  obtain ⟨voter, hvoter, effective, heffective, h⟩ := h
  unfold Passes
  rw [← golosPower_eq_of_ok hvoter heffective]
  split at h
  . next hlt =>
    rw [pure_eq_ok, Prod.mk.injEq, Prod.mk.injEq] at h
    obtain ⟨rfl, rfl, rfl⟩ := h
    rw [intOfUint64_of_le hclaim]
    refine ⟨0, .refl s, le_rfl, Int.natCast_nonneg _, by simp, ?_⟩
    simp [hlt]
  . next hnot =>
    simp only [bind_eq_ok, pure_eq_ok, Prod.mk.injEq] at h
    obtain ⟨⟨s₁, delegatorsReward⟩, hs₁, p, hp, s₂, hs₂, rfl, hreward, rfl⟩ := h
    have hle := hrates.delegatorsClaim_le claim
    unfold maxInt64 at hclaim
    obtain ⟨hcredited, hdelegators⟩ := credited_of_foldlM (p := (s, 0)) (by omega) hs₁
    dsimp only at hreward hcredited hdelegators hp hs₂
    rw [zero_add] at hdelegators
    have hreward' : reward = claim - delegatorsClaim claim v.delegatorVoteInterestRates := by
      rw [← hreward, hdelegators]
      omega
    rw [hreward] at hp hs₂
    have hint : intOfUint64 reward = reward := by
      apply intOfUint64_of_le
      unfold maxInt64
      omega
    rw [hint] at hp hs₂
    have hcredited' : Credited s₁ s₂ reward 0 := by
      apply credited_of_modifyVoter (Int.natCast_nonneg _) le_rfl ?_ ?_ hs₂
      . rw [(Staking.eq_of_createVesting hp).2.1, add_zero]
      . intro a a' ha'
        simp only [bind_eq_ok, pure_eq_ok] at ha'
        obtain ⟨rewards, hrewards, rfl⟩ := ha'
        exact ⟨eq_of_add64_eq_ok hrewards, (add_zero _).symm⟩
    have hboth := hcredited.trans hcredited'
    rw [zero_add, add_zero] at hboth
    refine ⟨delegatorsClaim claim v.delegatorVoteInterestRates, hboth, Int.natCast_nonneg _, le_rfl,
      by omega, ?_⟩
    constructor
    . intro hzero
      exact .inr (by omega)
    . rintro (hlt | hall)
      . exact absurd hlt hnot
      . omega

/-- Where nothing is left for the curator, the delegators' claims are all that is granted. -/
theorem describes_of_payCurator {g : Grants} {s₀ : Staking} {reward : Nat} {back : ℤ}
    (hg : g.Describes s₀ s.staking)
    (hall : ¬s.staking.golosPower v.voter < c.minVestingSharesToCurate →
      delegatorsClaim claim v.delegatorVoteInterestRates = claim ∧ claim < 2 ^ 64)
    (h : s.payCurator v claim c = .ok (s', reward, back)) :
    (if s.staking.golosPower v.voter < c.minVestingSharesToCurate then
      g
    else
      v.delegatorVoteInterestRates.foldl (Grants.grant s₀ v.voter claim) g).Describes s₀ s'.staking := by
  simp only [payCurator, bind_eq_ok] at h
  obtain ⟨voter, hvoter, effective, heffective, h⟩ := h
  rw [← golosPower_eq_of_ok hvoter heffective] at hall ⊢
  split at h
  . next hlt =>
    rw [pure_eq_ok, Prod.mk.injEq, Prod.mk.injEq] at h
    obtain ⟨rfl, -, -⟩ := h
    rw [if_pos hlt]
    exact hg
  . next hnot =>
    rw [if_neg hnot]
    obtain ⟨hclaim, hlt⟩ := hall hnot
    simp only [bind_eq_ok, pure_eq_ok, Prod.mk.injEq] at h
    obtain ⟨⟨s₁, delegatorsReward⟩, hs₁, ⟨staking, vests⟩, hstaking, s₂, hs₂, rfl, -, -⟩ := h
    obtain ⟨-, hdelegators⟩ := credited_of_foldlM (p := (s, 0)) (by omega) hs₁
    have hgranted := describes_of_foldlM (p := (s, 0)) hg hs₁
    dsimp only at hdelegators hgranted hstaking hs₂
    have hnothing : (claim + (2 ^ 64 - delegatorsReward)) % 2 ^ 64 = 0 := by
      rw [hdelegators, zero_add, hclaim]
      omega
    rw [hnothing] at hstaking
    obtain ⟨hvests, hfund, hshares, hpower, hdelegations⟩ := Staking.eq_of_createVesting hstaking
    have hzero : vests = 0 := hvests.trans (Staking.vestsAt_zero _ _)
    obtain ⟨_, _, -, -, rfl⟩ := modifyVoter_eq_ok.mp hs₂
    exact {
      fund := by rw [← hgranted.fund, hfund]; exact add_zero _
      shares := by rw [← hgranted.shares, hshares, hzero, add_zero]
      power := by
        intro n
        rw [← hgranted.power, hpower, hzero, Pi.single_zero, Pi.zero_apply, add_zero]
      delegations := by
        intro a b
        rw [← hgranted.delegations]
        unfold Staking.findDelegation
        rw [hdelegations]
    }

end curator

end Voting

end Golos
