import Golos.Staking.Lemmas.Delegation
import Golos.Staking.Run

/-!
This module contains the operations that delegate Golos Power where there is no delegation yet, and
when they go on to read the delegation all the same.
-/

namespace Golos

open Checked

/-- What stands for reading through the null pointer. -/
abbrev missingDelegation : ChainException :=
  .assertException "delegation != nullptr"

theorem ofUint128_ne_missing (x : Nat) : ofUint128 x ≠ .error missingDelegation := by
  unfold ofUint128
  split
  . intro h
    cases h
  . simp

theorem int64_ne_missing (x : ℤ) :
    int64 x ChainException.overflowException ≠ .error missingDelegation := by
  unfold int64
  split
  . intro h
    cases h
  . simp

theorem add64_ne_missing (x d : ℤ) :
    add64 x d ChainException.overflowException ≠ .error missingDelegation := by
  unfold add64
  split
  . intro h
    cases h
  . exact int64_ne_missing _

theorem Asset.mulPrice_ne_missing (a : Asset) (p : Price) :
    a.mulPrice p ≠ .error missingDelegation := by
  unfold mulPrice
  split
  . apply bind_ne_error (ensure_ne_error (by decide))
    intro _ _
    apply bind_ne_error (ofUint128_ne_missing _)
    intro _ _
    exact pure_ne_error _
  . split
    . apply bind_ne_error (ensure_ne_error (by decide))
      intro _ _
      apply bind_ne_error (ofUint128_ne_missing _)
      intro _ _
      exact pure_ne_error _
    . simp [throw, throwThe, MonadExceptOf.throw]

namespace Staking

variable {s : Staking}

section failures

theorem toVests_ne_missing (steem : ℤ) : s.toVests steem ≠ .error missingDelegation := by
  apply bind_ne_error (Asset.mulPrice_ne_missing _ _)
  intro _ _
  exact pure_ne_error _

theorem getAccount_ne_missing (name : AccountName) :
    s.getAccount name ≠ .error missingDelegation :=
  get_ne_error (by decide)

theorem modifyAccount_ne_missing {name : AccountName}
    {f : StakeAccountObject → Result StakeAccountObject}
    (hf : ∀ a, f a ≠ .error missingDelegation) :
    s.modifyAccount name f ≠ .error missingDelegation := by
  apply bind_ne_error (getAccount_ne_missing name)
  intro a _
  apply bind_ne_error (hf a)
  intro _ _
  exact pure_ne_error _

theorem delegateVs_ne_missing (name : AccountName) (delta : ℤ) (k : Bool) :
    s.delegateVs name delta k ≠ .error missingDelegation := by
  apply modifyAccount_ne_missing
  intro a
  unfold StakeAccountObject.delegateVs
  split
  . apply bind_ne_error (add64_ne_missing _ _)
    intro _ _
    exact pure_ne_error _
  . apply bind_ne_error (add64_ne_missing _ _)
    intro _ _
    exact pure_ne_error _

theorem receiveVs_ne_missing (name : AccountName) (delta : ℤ) (k : Bool) :
    s.receiveVs name delta k ≠ .error missingDelegation := by
  apply modifyAccount_ne_missing
  intro a
  unfold StakeAccountObject.receiveVs
  split
  . apply bind_ne_error (add64_ne_missing _ _)
    intro _ _
    exact pure_ne_error _
  . apply bind_ne_error (add64_ne_missing _ _)
    intro _ _
    exact pure_ne_error _

theorem createDelegation_ne_missing (d : VestingDelegationObject) :
    s.createDelegation d ≠ .error missingDelegation := by
  apply bind_ne_error (get_ne_error (by decide))
  intro _ _
  exact pure_ne_error _

theorem createExpiration_ne_missing (delegator : AccountName) (vestingShares : ℤ)
    (expiration : Nat) (k : Bool) :
    s.createExpiration delegator vestingShares expiration k ≠ .error missingDelegation := by
  apply bind_ne_error (get_ne_error (by decide))
  intro _ _
  exact pure_ne_error _

theorem checkAvailableVesting_ne_missing (a : StakeAccountObject) (required : ℤ) :
    checkAvailableVesting a required ≠ .error missingDelegation := by
  apply bind_ne_error
  . unfold StakeAccountObject.availableVestingShares
    apply bind_ne_error (int64_ne_missing _)
    intro _ _
    apply bind_ne_error (int64_ne_missing _)
    intro _ _
    apply bind_ne_error (int64_ne_missing _)
    intro _ _
    exact int64_ne_missing _
  . intro _ _
    exact ensure_ne_error (by simp)

theorem increaseDelegation_ne_missing (delegator : StakeAccountObject)
    (delegation : Option VestingDelegationObject) (new : VestingDelegationObject)
    (delta minDelegation : ℤ) (k : Bool) :
    s.increaseDelegation delegator delegation new delta minDelegation k ≠
      .error missingDelegation := by
  apply bind_ne_error (int64_ne_missing _)
  intro _ _
  apply bind_ne_error (checkAvailableVesting_ne_missing _ _)
  intro _ _
  apply bind_ne_error (ofUint128_ne_missing _)
  intro _ _
  apply bind_ne_error (int64_ne_missing _)
  intro _ _
  apply bind_ne_error (ensure_ne_error (by decide))
  intro _ _
  apply bind_ne_error
  . split
    . exact pure_ne_error _
    . apply bind_ne_error (ensure_ne_error (by decide))
      intro _ _
      exact createDelegation_ne_missing _
  . intro _ _
    exact delegateVs_ne_missing _ _ _

/-- Less is delegated with the delegation at hand. -/
theorem decreaseDelegation_ne_missing (d new : VestingDelegationObject) (delta minDelegation : ℤ)
    (k : Bool) :
    s.decreaseDelegation (some d) new delta minDelegation k ≠ .error missingDelegation := by
  apply bind_ne_error (ensure_ne_error (by decide))
  intro _ _
  apply bind_ne_error (pure_ne_error d)
  intro _ _
  exact createExpiration_ne_missing _ _ _ _

end failures

section operations

/--
What the functions find that are to remove a delegation which does not exist: the checks before have
nothing against it.
-/
structure RemovesMissing (s : Staking) (delegator delegatee : AccountName) (vestingShares : ℤ) :
    Prop where
  delegatorExists : (s.accounts.find? delegator).isSome
  delegateeExists : (s.accounts.find? delegatee).isSome
  noDelegation : s.findDelegation delegator delegatee = none
  noShares : vestingShares = 0
  minDelegation : ∃ vests, s.toVests s.medianProps.minDelegation = .ok vests
  minUpdate : ∃ vests, s.toVests s.medianProps.createAccountMinGolosFee = .ok vests

variable {new : VestingDelegationObject} {k : Bool}
  {validateWithVdo : VestingDelegationObject → Result Unit}

theorem eq_missing_of_removesMissing
    (h : s.RemovesMissing new.delegator new.delegatee new.vestingShares) :
    s.delegateVestingShares new k validateWithVdo = .error missingDelegation := by
  obtain ⟨delegator, hdelegator⟩ := Option.isSome_iff_exists.mp h.delegatorExists
  obtain ⟨delegatee, hdelegatee⟩ := Option.isSome_iff_exists.mp h.delegateeExists
  obtain ⟨minDelegation, hmin⟩ := h.minDelegation
  obtain ⟨minUpdate, hupdate⟩ := h.minUpdate
  unfold delegateVestingShares getAccount
  rw [hdelegator, hdelegatee, h.noDelegation, hmin, hupdate, h.noShares]
  simp [Checked.get, ensure, decreaseDelegation, h.noShares, bind, Except.bind, pure, Except.pure]

/-- Without a delegation to read, nothing but a removal comes to the place where it is read. -/
theorem removesMissing_of_eq_missing (hnonneg : 0 ≤ new.vestingShares)
    (hvalidate : ∀ d, validateWithVdo d ≠ .error missingDelegation)
    (h : s.delegateVestingShares new k validateWithVdo = .error missingDelegation) :
    s.RemovesMissing new.delegator new.delegatee new.vestingShares := by
  unfold delegateVestingShares at h
  rw [bind_eq_error] at h
  rcases h with h | ⟨delegator, hdelegator, h⟩
  . exact absurd h (getAccount_ne_missing _)
  rw [bind_eq_error] at h
  rcases h with h | ⟨delegatee, hdelegatee, h⟩
  . exact absurd h (getAccount_ne_missing _)
  dsimp only at h
  cases hdelegation : s.findDelegation new.delegator new.delegatee with
  | some d =>
    rw [hdelegation] at h
    refine absurd h ?_
    apply bind_ne_error (hvalidate d)
    intro _ _
    apply bind_ne_error (toVests_ne_missing _)
    intro _ _
    apply bind_ne_error (toVests_ne_missing _)
    intro _ _
    apply bind_ne_error (int64_ne_missing _)
    intro _ _
    apply bind_ne_error (ensure_ne_error (by decide))
    intro _ _
    apply bind_ne_error
    . split
      . exact increaseDelegation_ne_missing _ _ _ _ _ _
      . exact decreaseDelegation_ne_missing _ _ _ _ _
    . intro _ _
      apply bind_ne_error (receiveVs_ne_missing _ _ _)
      intro _ _
      dsimp only
      split
      . exact pure_ne_error _
      . exact pure_ne_error _
  | none =>
    rw [hdelegation] at h
    rw [bind_eq_error] at h
    rcases h with h | ⟨_, -, h⟩
    . cases h
    rw [bind_eq_error] at h
    rcases h with h | ⟨minDelegation, hmin, h⟩
    . exact absurd h (toVests_ne_missing _)
    rw [bind_eq_error] at h
    rcases h with h | ⟨minUpdate, hupdate, h⟩
    . exact absurd h (toVests_ne_missing _)
    rcases hnonneg.lt_or_eq with hpos | hzero
    . -- what is not a removal increases the delegation
      refine absurd h ?_
      apply bind_ne_error (pure_ne_error _)
      rintro delta hdelta
      cases hdelta
      apply bind_ne_error (ensure_ne_error (by decide))
      intro _ _
      apply bind_ne_error
      . rw [if_pos hpos]
        exact increaseDelegation_ne_missing _ _ _ _ _ _
      . intro _ _
        apply bind_ne_error (receiveVs_ne_missing _ _ _)
        intro _ _
        exact pure_ne_error _
    . rw [getAccount, get_eq_ok] at hdelegator hdelegatee
      constructor
      . rw [hdelegator]
        rfl
      . rw [hdelegatee]
        rfl
      . exact hdelegation
      . exact hzero.symm
      . exact ⟨minDelegation, hmin⟩
      . exact ⟨minUpdate, hupdate⟩

theorem delegateVestingShares_eq_missing_iff (hnonneg : 0 ≤ new.vestingShares)
    (hvalidate : ∀ d, validateWithVdo d ≠ .error missingDelegation) :
    s.delegateVestingShares new k validateWithVdo = .error missingDelegation ↔
      s.RemovesMissing new.delegator new.delegatee new.vestingShares := by
  constructor
  . exact removesMissing_of_eq_missing hnonneg hvalidate
  . exact eq_missing_of_removesMissing

theorem delegateVestingSharesOp_eq_missing_iff {op : DelegateVestingSharesOperation}
    (hvalidate : validateDelegation op.delegator op.delegatee op.vestingShares = .ok ()) :
    s.delegateVestingSharesOp op = .error missingDelegation ↔
      s.RemovesMissing op.delegator op.delegatee op.vestingShares.amount := by
  unfold delegateVestingSharesOp
  rw [hvalidate, ok_bind]
  apply delegateVestingShares_eq_missing_iff (nonneg_of_validateDelegation hvalidate)
  intro d
  exact pure_ne_error _

/-- The rate is one that a new delegation may have, or it does not matter. -/
def RateAccepted (s : Staking) (op : DelegateVestingSharesWithInterestOperation) : Prop :=
  if op.extensions.isEmpty then
    op.vestingShares.amount ≤ 0 ∨
      op.interestRate ≤ s.medianProps.maxDelegatedVestingInterestRate
  else
    op.interestRate = steemit100Percent

theorem delegateVestingSharesWithInterest_eq_missing_iff
    {op : DelegateVestingSharesWithInterestOperation}
    (hvalidate : validateDelegation op.delegator op.delegatee op.vestingShares = .ok ()) :
    s.delegateVestingSharesWithInterest op = .error missingDelegation ↔
      s.RateAccepted op ∧ s.RemovesMissing op.delegator op.delegatee op.vestingShares.amount := by
  have hnonneg := nonneg_of_validateDelegation hvalidate
  have hchecks : ∀ (d : VestingDelegationObject) (k : Bool), (do
      ensure (d.interestRate = op.interestRate)
        (ChainException.assertException "cannot_change_delegator_interest_rate")
      ensure (d.isEmission = k ∧ d.payoutStrategy = op.payoutStrategy)
        (ChainException.assertException "cannot_change_delegator_payout_strategy")) ≠
      .error missingDelegation := by
    intro d k
    apply bind_ne_error (ensure_ne_error (by decide))
    intro _ _
    exact ensure_ne_error (by decide)
  unfold delegateVestingSharesWithInterest RateAccepted
  rw [hvalidate, ok_bind]
  cases hempty : op.extensions.isEmpty with
  | true =>
    simp only [Bool.not_true, Bool.false_eq_true, ↓reduceIte]
    rw [bind_eq_error]
    constructor
    . rintro (h | ⟨_, hrate, h⟩)
      . exact absurd h (ensure_ne_error (by decide))
      . exact ⟨ensure_eq_ok.mp hrate,
          removesMissing_of_eq_missing hnonneg (fun d => hchecks d _) h⟩
    . rintro ⟨hrate, h⟩
      exact .inr ⟨(), ensure_eq_ok.mpr hrate, eq_missing_of_removesMissing h⟩
  | false =>
    simp only [Bool.not_false, Bool.false_eq_true, ↓reduceIte]
    rw [bind_eq_error]
    constructor
    . rintro (h | ⟨_, hrate, h⟩)
      . exact absurd h (ensure_ne_error (by decide))
      . exact ⟨ensure_eq_ok.mp hrate,
          removesMissing_of_eq_missing hnonneg (fun d => hchecks d _) h⟩
    . rintro ⟨hrate, h⟩
      exact .inr ⟨(), ensure_eq_ok.mpr hrate, eq_missing_of_removesMissing h⟩

/-- Before hardfork 29 the rate of a removal matters. -/
def RateAcceptedBefore29 (s : Staking) (op : DelegateVestingSharesWithInterestOperation) : Prop :=
  if op.extensions.isEmpty then
    op.interestRate ≤ s.medianProps.maxDelegatedVestingInterestRate
  else
    op.interestRate = steemit100Percent

theorem delegateVestingSharesWithInterestBefore29_eq_missing_iff
    {op : DelegateVestingSharesWithInterestOperation}
    (hvalidate : validateDelegation op.delegator op.delegatee op.vestingShares = .ok ()) :
    s.delegateVestingSharesWithInterestBefore29 op = .error missingDelegation ↔
      s.RateAcceptedBefore29 op ∧
        s.RemovesMissing op.delegator op.delegatee op.vestingShares.amount := by
  unfold delegateVestingSharesWithInterestBefore29 RateAcceptedBefore29
  rw [hvalidate, ok_bind, bind_eq_error]
  constructor
  . rintro (h | ⟨_, hrate, h⟩)
    . exact absurd h (ensure_ne_error (by decide))
    . rw [delegateVestingSharesWithInterest_eq_missing_iff hvalidate] at h
      rw [ensure_eq_ok] at hrate
      obtain ⟨haccepted, h⟩ := h
      refine ⟨?_, h⟩
      unfold RateAccepted at haccepted
      cases hempty : op.extensions.isEmpty with
      | true => simpa [hempty] using hrate
      | false => simpa [hempty] using haccepted
  . rintro ⟨hrate, h⟩
    refine .inr ⟨(), ?_, ?_⟩
    . rw [ensure_eq_ok]
      cases hempty : op.extensions.isEmpty with
      | true =>
        rw [hempty] at hrate
        exact .inr hrate
      | false => exact .inl rfl
    . rw [delegateVestingSharesWithInterest_eq_missing_iff hvalidate]
      refine ⟨?_, h⟩
      unfold RateAccepted
      cases hempty : op.extensions.isEmpty with
      | true => exact .inl h.noShares.le
      | false => simpa [hempty] using hrate

/--
An operation that delegates is rejected or has a delegation where it reads one, unless it is the
removal of a delegation that does not exist.
-/
theorem reads_delegation_iff (s : Staking) :
    (∀ op : DelegateVestingSharesOperation,
      validateDelegation op.delegator op.delegatee op.vestingShares = .ok () →
        (s.delegateVestingSharesOp op ≠ .error missingDelegation ↔
          ¬s.RemovesMissing op.delegator op.delegatee op.vestingShares.amount)) ∧
      ∀ op : DelegateVestingSharesWithInterestOperation,
        validateDelegation op.delegator op.delegatee op.vestingShares = .ok () →
          (s.delegateVestingSharesWithInterest op ≠ .error missingDelegation ↔
            ¬(s.RateAccepted op ∧
              s.RemovesMissing op.delegator op.delegatee op.vestingShares.amount)) ∧
          (s.delegateVestingSharesWithInterestBefore29 op ≠ .error missingDelegation ↔
            ¬(s.RateAcceptedBefore29 op ∧
              s.RemovesMissing op.delegator op.delegatee op.vestingShares.amount)) := by
  constructor
  . intro op hvalidate
    rw [Ne, delegateVestingSharesOp_eq_missing_iff hvalidate]
  . intro op hvalidate
    constructor
    . rw [Ne, delegateVestingSharesWithInterest_eq_missing_iff hvalidate]
    . rw [Ne, delegateVestingSharesWithInterestBefore29_eq_missing_iff hvalidate]

/-- Alice and bob, who have delegated nothing. -/
def strangers : Staking where
  accounts := ⟨[{ name := "alice" }, { name := "bob" }], by decide⟩

def removeNothing : DelegateVestingSharesOperation where
  delegator := "alice"
  delegatee := "bob"
  vestingShares := ⟨0, vestsSymbol⟩

theorem removeNothing_reads_missing :
    stake.Reachable strangers ∧
      validateDelegation removeNothing.delegator removeNothing.delegatee
        removeNothing.vestingShares = .ok () ∧
      strangers.delegateVestingSharesOp removeNothing = .error missingDelegation := by
  refine ⟨.initial ⟨rfl, rfl, rfl, ?_⟩, by decide, ?_⟩
  case refine_2 =>
    rw [delegateVestingSharesOp_eq_missing_iff (by decide)]
    exact ⟨by decide, by decide, by decide, rfl, ⟨0, rfl⟩, ⟨0, rfl⟩⟩
  intro a ha
  simp only [strangers, List.mem_cons, List.not_mem_nil, or_false] at ha
  rcases ha with rfl | rfl
  . exact ⟨⟨rfl, rfl, rfl, rfl, rfl, rfl, rfl, rfl, rfl⟩, by decide⟩
  . exact ⟨⟨rfl, rfl, rfl, rfl, rfl, rfl, rfl, rfl, rfl⟩, by decide⟩

theorem reads_delegation_delegateOne :
    strangers.delegateVestingSharesOp { removeNothing with vestingShares := ⟨1, vestsSymbol⟩ } ≠
      .error missingDelegation := by
  apply ((reads_delegation_iff strangers).1 _ (by decide)).mpr
  intro h
  cases h.noShares

end operations

end Staking

end Golos
