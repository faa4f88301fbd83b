import Golos.Staking.Lemmas.Delegation

/-!
This module contains what the loops over delegations, expirations and accounts do to the
differences between the delegation counters and the objects that they count, and the functions that
neither create nor move vesting shares and set no routes.
-/

namespace Golos

open Checked

namespace Staking

variable {s s' s'' : Staking}

/-- A loop whose turns shift nothing shifts nothing. -/
theorem Shifts.foldlM {f : Staking → α → Result Staking} {l : List α}
    (hstep : ∀ s s' a, f s a = .ok s' → Shifts s s' 0 0) (h : l.foldlM f s = .ok s') :
    Shifts s s' 0 0 := by
  refine foldlM_invariant (P := fun t _ => Shifts s t 0 0) ?_ (.refl s) h
  intro t t' a _ ht hturn
  exact (ht.trans (hstep t t' a hturn)).congr (add_zero 0) (add_zero 0)

section payDelegators

variable {delegatee : AccountName} {claim : Nat} {rates : List DelegatorVoteInterestRate}

theorem Shifts.payDelegators (hpays : ∀ dvir ∈ rates, ¬s.PaysEmission delegatee claim dvir)
    (h : s.payDelegators delegatee rates claim = .ok s') : Shifts s s' 0 0 := by
  have hinv := foldlM_invariant (P := fun t l => Shifts s t 0 0 ∧ SameKinds s t ∧
    ∀ dvir ∈ l, ¬t.PaysEmission delegatee claim dvir) ?_ ⟨.refl s, .of_eq rfl, hpays⟩ h
  . exact hinv.1
  . intro t t' dvir l ⟨hshifts, hkinds, hpays⟩ hturn
    obtain ⟨hkinds', x, k, hk, hshifts'⟩ := Shifts.payDelegator hturn
    have hfalse : k = false := by
      cases k with
      | false => rfl
      | true => exact absurd (hk rfl) (hpays dvir List.mem_cons_self)
    subst hfalse
    refine ⟨?_, hkinds.trans hkinds', ?_⟩
    . exact (hshifts.trans hshifts').congr (by simp) (by simp)
    . intro dvir' hmem
      rw [hkinds'.paysEmission_iff]
      exact hpays dvir' (List.mem_cons_of_mem dvir hmem)

end payDelegators

section objects

theorem lists_delegationsOf (s : Staking) (name : AccountName) :
    s.delegations.Lists (s.delegationsOf name) :=
  (Table.Lists.filter _ _).perm (List.perm_insertionSort _ _)

theorem lists_expiredDelegations (s : Staking) : s.expirations.Lists s.expiredDelegations :=
  (Table.Lists.filter _ _).perm (List.perm_insertionSort _ _)

theorem Shifts.clearExpiredDelegation {o : VestingDelegationExpirationObject}
    (ho : s.expirations.find? o.id = some o) (h : s.clearExpiredDelegation o = .ok s') :
    s'.expirations = s.expirations.erase o.id ∧ Shifts s s' 0 0 := by
  simp only [Staking.clearExpiredDelegation, bind_eq_ok, int64_eq_ok, pure_eq_ok] at h
  obtain ⟨_, ⟨-, rfl⟩, s₁, hs₁, rfl⟩ := h
  have hexpirations := expirations_modifyAccount hs₁
  refine ⟨by rw [hexpirations], ?_⟩
  have ho₁ : s₁.expirations.find? o.id = some o := by
    rw [hexpirations]
    exact ho
  apply ((Shifts.delegateVs hs₁).trans (.eraseExpiration ho₁)).congr
  . rw [Pi.single_neg]
    abel
  . abel

theorem Shifts.clearExpiredDelegations (h : s.clearExpiredDelegations = .ok s') :
    Shifts s s' 0 0 := by
  have hinv := foldlM_invariant (P := fun t l => Shifts s t 0 0 ∧ t.expirations.Lists l) ?_
    ⟨.refl s, lists_expiredDelegations s⟩ h
  . exact hinv.1
  . rintro t t' o l ⟨hshifts, hlists⟩ hturn
    obtain ⟨hexpirations, hshifts'⟩ :=
      Shifts.clearExpiredDelegation (hlists.row o List.mem_cons_self) hturn
    refine ⟨(hshifts.trans hshifts').congr (add_zero 0) (add_zero 0), ?_⟩
    rw [hexpirations]
    exact hlists.erase

theorem Shifts.returnDelegation {d : VestingDelegationObject}
    (hd : s.delegations.find? d.byDelegation = some d) (h : s.returnDelegation d = .ok s') :
    s'.delegations = s.delegations.erase d.byDelegation ∧ Shifts s s' 0 0 := by
  simp only [Staking.returnDelegation, bind_eq_ok, int64_eq_ok, pure_eq_ok] at h
  obtain ⟨_, ⟨-, rfl⟩, s₁, hs₁, s₂, hs₂, rfl⟩ := h
  have hdelegations : s₂.delegations = s.delegations := by
    rw [delegations_modifyAccount hs₂, delegations_modifyAccount hs₁]
  refine ⟨by rw [Staking.removeDelegation, hdelegations], ?_⟩
  have hd₂ : s₂.findDelegation d.delegator d.delegatee = some d := by
    rw [findDelegation, hdelegations]
    exact hd
  apply (((Shifts.delegateVs hs₁).trans (.receiveVs hs₂)).trans (.removeDelegation hd₂)).congr
  . rw [Pi.single_neg]
    abel
  . rw [Pi.single_neg]
    abel

theorem Shifts.returnDelegations {l : List VestingDelegationObject} (hl : s.delegations.Lists l)
    (h : l.foldlM Staking.returnDelegation s = .ok s') : Shifts s s' 0 0 := by
  have hinv := foldlM_invariant (P := fun t l => Shifts s t 0 0 ∧ t.delegations.Lists l) ?_
    ⟨.refl s, hl⟩ h
  . exact hinv.1
  . rintro t t' d l ⟨hshifts, hlists⟩ hturn
    obtain ⟨hdelegations, hshifts'⟩ :=
      Shifts.returnDelegation (hlists.row d List.mem_cons_self) hturn
    refine ⟨(hshifts.trans hshifts').congr (add_zero 0) (add_zero 0), ?_⟩
    rw [hdelegations]
    exact hlists.erase

theorem Shifts.modifyAccount_pure {name : AccountName}
    {f : StakeAccountObject → StakeAccountObject}
    (hf : ∀ a, (f a).name = a.name ∧ (f a).delegated = a.delegated ∧ (f a).received = a.received)
    (h : s.modifyAccount name (fun a => pure (f a)) = .ok s') : Shifts s s' 0 0 := by
  refine Shifts.modifyAccount ?_ h
  intro a a' ha
  rw [pure_eq_ok] at ha
  exact ha ▸ hf a

theorem Shifts.processAcc {name : AccountName} (h : s.processAcc name = .ok s') :
    Shifts s s' 0 0 := by
  simp only [Staking.processAcc, bind_eq_ok] at h
  obtain ⟨acc, -, h⟩ := h
  split at h
  . simp only [pure_eq_ok] at h
    exact h ▸ .refl s
  . simp only [bind_eq_ok] at h
    obtain ⟨accVs, -, h⟩ := h
    split at h
    . simp only [pure_eq_ok] at h
      exact h ▸ .refl s
    . simp only [bind_eq_ok] at h
      obtain ⟨s₁, hs₁, h⟩ := h
      have hreturned := Shifts.returnDelegations (lists_delegationsOf s name) hs₁
      split at h
      . simp only [pure_eq_ok] at h
        exact h ▸ hreturned
      . have hstarted : Shifts s₁ s' 0 0 := by
          refine Shifts.modifyAccount_pure ?_ h
          intro a
          exact ⟨rfl, rfl, rfl⟩
        exact (hreturned.trans hstarted).congr (add_zero 0) (add_zero 0)

theorem Shifts.checkAccountIdleness (h : s.checkAccountIdleness = .ok s') : Shifts s s' 0 0 := by
  unfold Staking.checkAccountIdleness at h
  split at h
  . simp only [pure_eq_ok] at h
    exact h ▸ .refl s
  . exact .foldlM (fun _ _ _ => Shifts.processAcc) h

end objects

section withdrawals

/-- A withdrawal within the shares that are not delegated is stopped or started. -/
theorem withdrawVesting_cases {op : WithdrawVestingOperation}
    (h : s.withdrawVesting op = .ok s') :
    0 ≤ op.vestingShares.amount ∧
      ∃ a available, s.accounts.find? op.account = some a ∧
        a.availableVestingShares false = .ok available ∧ op.vestingShares.amount ≤ available ∧
        (s.modifyAccount op.account (fun a => pure a.stopWithdrawal) = .ok s' ∨
          s.modifyAccount op.account (fun a => pure
            (a.startWithdrawal op.vestingShares.amount s.headBlockTime)) = .ok s') := by
  simp only [Staking.withdrawVesting, WithdrawVestingOperation.validate, getAccount, bind_eq_ok,
    ensure_eq_ok, get_eq_ok] at h
  obtain ⟨_, ⟨_, _, hnonneg⟩, a, ha, _, _, available, havailable, _, hle, _, _, h⟩ := h
  refine ⟨hnonneg, a, available, ha, havailable, hle, ?_⟩
  split at h
  . simp only [bind_eq_ok] at h
    obtain ⟨-, -, h⟩ := h
    exact .inl h
  . simp only [bind_eq_ok] at h
    obtain ⟨-, -, h⟩ := h
    exact .inr h

theorem Shifts.withdrawVesting {op : WithdrawVestingOperation}
    (h : s.withdrawVesting op = .ok s') : Shifts s s' 0 0 := by
  obtain ⟨-, _, _, -, -, -, h | h⟩ := withdrawVesting_cases h
  . refine Shifts.modifyAccount_pure ?_ h
    intro a
    exact ⟨rfl, rfl, rfl⟩
  . refine Shifts.modifyAccount_pure ?_ h
    intro a
    exact ⟨rfl, rfl, rfl⟩

theorem Shifts.addBalance {name : AccountName} {delta : ℤ}
    (h : s.addBalance name delta = .ok s') : Shifts s s' 0 0 := by
  refine Shifts.modifyAccount ?_ h
  intro a a' ha
  simp only [bind_eq_ok, pure_eq_ok] at ha
  obtain ⟨_, -, rfl⟩ := ha
  exact ⟨rfl, rfl, rfl⟩

theorem Shifts.addVestingShares {name : AccountName} {delta : ℤ}
    (h : s.addVestingShares name delta = .ok s') : Shifts s s' 0 0 := by
  refine Shifts.modifyAccount ?_ h
  intro a a' ha
  simp only [bind_eq_ok, pure_eq_ok] at ha
  obtain ⟨_, -, rfl⟩ := ha
  exact ⟨rfl, rfl, rfl⟩

theorem Shifts.subTotals {steem vests : ℤ} (h : s.subTotals steem vests = .ok s') :
    Shifts s s' 0 0 := by
  simp only [Staking.subTotals, bind_eq_ok, pure_eq_ok] at h
  obtain ⟨_, -, _, -, rfl⟩ := h
  exact (Shifts.refl s).replace rfl rfl rfl

theorem Shifts.routes (s : Staking) (t : Table WithdrawVestingRouteObject.byWithdrawRoute) :
    Shifts s { s with routes := t } 0 0 :=
  (Shifts.refl s).replace rfl rfl rfl

/-- Only the routes and the number of routes change. -/
theorem Shifts.setWithdrawVestingRoute {op : SetWithdrawVestingRouteOperation}
    (h : s.setWithdrawVestingRoute op = .ok s') : Shifts s s' 0 0 := by
  simp only [Staking.setWithdrawVestingRoute, bind_eq_ok, pure_eq_ok] at h
  obtain ⟨-, -, _, -, _, -, s₁, hs₁, -, -, rfl⟩ := h
  split at hs₁
  . simp only [bind_eq_ok] at hs₁
    obtain ⟨-, -, -, -, routes, -, hs₁⟩ := hs₁
    have hmodify : Shifts { s with routes := routes } s₁ 0 0 := by
      refine Shifts.modifyAccount_pure ?_ hs₁
      intro a
      exact ⟨rfl, rfl, rfl⟩
    exact ((Shifts.routes s _).trans hmodify).congr (add_zero 0) (add_zero 0)
  . split at hs₁
    . have hmodify : Shifts { s with routes := s.routes.erase (op.fromAccount, op.toAccount) } s₁ 0 0 := by
        refine Shifts.modifyAccount_pure ?_ hs₁
        intro a
        exact ⟨rfl, rfl, rfl⟩
      exact ((Shifts.routes s _).trans hmodify).congr (add_zero 0) (add_zero 0)
    . simp only [pure_eq_ok] at hs₁
      subst hs₁
      exact .routes s _

theorem payWithdrawal_keeps {a a' : StakeAccountObject} {due steem : ℤ}
    (h : a.payWithdrawal due steem = .ok a') :
    a'.name = a.name ∧ a'.delegated = a.delegated ∧ a'.received = a.received := by
  simp only [StakeAccountObject.payWithdrawal, bind_eq_ok] at h
  obtain ⟨_, -, _, -, _, -, h⟩ := h
  split at h
  . simp only [pure_eq_ok] at h
    subst h
    exact ⟨rfl, rfl, rfl⟩
  . simp only [pure_eq_ok] at h
    subst h
    exact ⟨rfl, rfl, rfl⟩

theorem Shifts.depositAsVests {due : ℤ} {p p' : Staking × ℤ} {r : WithdrawVestingRouteObject}
    (h : Staking.depositAsVests due p r = .ok p') : Shifts p.1 p'.1 0 0 := by
  simp only [Staking.depositAsVests, bind_eq_ok] at h
  obtain ⟨_, -, _, -, h⟩ := h
  split at h
  . simp only [bind_eq_ok, pure_eq_ok] at h
    obtain ⟨s₁, hs₁, rfl⟩ := h
    exact Shifts.addVestingShares hs₁
  . simp only [pure_eq_ok] at h
    subst h
    exact .refl _

theorem Shifts.depositAsSteem {due : ℤ} {p p' : Staking × ℤ} {r : WithdrawVestingRouteObject}
    (h : Staking.depositAsSteem due p r = .ok p') : Shifts p.1 p'.1 0 0 := by
  simp only [Staking.depositAsSteem, bind_eq_ok] at h
  obtain ⟨_, -, _, -, _, -, h⟩ := h
  split at h
  . simp only [bind_eq_ok, pure_eq_ok] at h
    obtain ⟨s₁, hs₁, s₂, hs₂, rfl⟩ := h
    exact ((Shifts.addBalance hs₁).trans (.subTotals hs₂)).congr (add_zero 0) (add_zero 0)
  . simp only [pure_eq_ok] at h
    subst h
    exact .refl _

/-- A pass over the routes of an account. -/
theorem Shifts.deposits {f : Staking × ℤ → WithdrawVestingRouteObject → Result (Staking × ℤ)}
    (hf : ∀ p p' r, f p r = .ok p' → Shifts p.1 p'.1 0 0) {l : List WithdrawVestingRouteObject}
    {p : Staking × ℤ} (h : l.foldlM f (s, 0) = .ok p) : Shifts s p.1 0 0 := by
  refine foldlM_invariant (P := fun p _ => Shifts s p.1 0 0) ?_ (.refl s) h
  intro p p' r _ hp hturn
  exact (hp.trans (hf p p' r hturn)).congr (add_zero 0) (add_zero 0)

theorem Shifts.processVestingWithdrawal {name : AccountName}
    (h : s.processVestingWithdrawal name = .ok s') : Shifts s s' 0 0 := by
  simp only [Staking.processVestingWithdrawal, bind_eq_ok] at h
  obtain ⟨a, -, due, -, ⟨s₁, asVests⟩, hs₁, ⟨s₂, asSteem⟩, hs₂, _, -, _, -, s₃, hs₃, h⟩ := h
  have hvests := Shifts.deposits (fun _ _ _ => Shifts.depositAsVests) hs₁
  have hsteem := Shifts.deposits (fun _ _ _ => Shifts.depositAsSteem) hs₂
  have hpaid := Shifts.modifyAccount (fun _ _ => payWithdrawal_keeps) hs₃
  apply (((hvests.trans hsteem).trans hpaid).trans (.subTotals h)).congr
  . abel
  . abel

theorem Shifts.processVestingWithdrawals (h : s.processVestingWithdrawals = .ok s') :
    Shifts s s' 0 0 := by
  unfold Staking.processVestingWithdrawals at h
  generalize s.accounts.rows.length * _ = fuel at h
  generalize Option.map _ _ = current at h
  induction fuel generalizing s current with
  | zero =>
    simp only [processVestingWithdrawalsFrom, pure_eq_ok] at h
    exact h ▸ .refl s
  | succ fuel ih =>
    cases current with
    | none =>
      simp only [processVestingWithdrawalsFrom, pure_eq_ok] at h
      exact h ▸ .refl s
    | some name =>
      simp only [processVestingWithdrawalsFrom, bind_eq_ok] at h
      obtain ⟨a, -, h⟩ := h
      split at h
      . simp only [bind_eq_ok] at h
        obtain ⟨s₁, hs₁, h⟩ := h
        exact ((Shifts.processVestingWithdrawal hs₁).trans (ih _ h)).congr (add_zero 0) (add_zero 0)
      . simp only [pure_eq_ok] at h
        exact h ▸ .refl s

theorem Shifts.clearNullAccountBalance (h : s.clearNullAccountBalance = .ok s') :
    Shifts s s' 0 0 := by
  simp only [Staking.clearNullAccountBalance, bind_eq_ok] at h
  obtain ⟨a, -, s₁, hs₁, h⟩ := h
  have hcleared : Shifts s s₁ 0 0 := by
    refine Shifts.modifyAccount_pure ?_ hs₁
    intro a
    exact ⟨rfl, rfl, rfl⟩
  split at h
  . simp only [bind_eq_ok] at h
    obtain ⟨_, -, s₂, hs₂, h⟩ := h
    have hburnt : Shifts s₂ s' 0 0 := by
      refine Shifts.modifyAccount_pure ?_ h
      intro a
      exact ⟨rfl, rfl, rfl⟩
    exact ((hcleared.trans (.subTotals hs₂)).trans hburnt).congr (by abel) (by abel)
  . simp only [pure_eq_ok] at h
    exact h ▸ hcleared

end withdrawals

end Staking

namespace Staking

variable {s s' : Staking} {R : Staking → Staking → Prop}

/--
`R` does not see updates of accounts that leave vesting shares and numbers of routes alone, and
changes of objects that are neither accounts nor routes.
-/
structure Overlooks (R : Staking → Staking → Prop) : Prop where
  refl : ∀ s, R s s
  trans : ∀ {s s' s''}, R s s' → R s' s'' → R s s''
  account : ∀ {s s' : Staking} {name f}, (∀ a a', f a = .ok a' → a'.name = a.name ∧
    a'.vestingShares = a.vestingShares ∧ a'.withdrawRoutes = a.withdrawRoutes) →
    s.modifyAccount name f = .ok s' → R s s'
  objects : ∀ {s s' : Staking}, s'.accounts = s.accounts → s'.routes = s.routes →
    s'.totalVestingShares = s.totalVestingShares →
    s'.totalVestingFundSteem = s.totalVestingFundSteem → R s s'

namespace Overlooks

theorem modifyAccount_pure (hR : Overlooks R) {name : AccountName}
    {f : StakeAccountObject → StakeAccountObject}
    (hf : ∀ a, (f a).name = a.name ∧ (f a).vestingShares = a.vestingShares ∧
      (f a).withdrawRoutes = a.withdrawRoutes)
    (h : s.modifyAccount name (fun a => pure (f a)) = .ok s') : R s s' := by
  refine hR.account ?_ h
  intro a a' ha
  rw [pure_eq_ok] at ha
  exact ha ▸ hf a

theorem foldlM (hR : Overlooks R) {f : Staking → α → Result Staking} {l : List α}
    (hstep : ∀ s s' a, f s a = .ok s' → R s s') (h : l.foldlM f s = .ok s') : R s s' := by
  refine foldlM_invariant (P := fun t _ => R s t) ?_ (hR.refl s) h
  intro t t' a _ ht hturn
  exact hR.trans ht (hstep t t' a hturn)

theorem delegateVs (hR : Overlooks R) {name : AccountName} {delta : ℤ} {k : Bool}
    (h : s.delegateVs name delta k = .ok s') : R s s' := by
  refine hR.account ?_ h
  intro a a' ha
  rw [StakeAccountObject.delegateVs_eq_ok ha]
  exact ⟨rfl, rfl, rfl⟩

theorem receiveVs (hR : Overlooks R) {name : AccountName} {delta : ℤ} {k : Bool}
    (h : s.receiveVs name delta k = .ok s') : R s s' := by
  refine hR.account ?_ h
  intro a a' ha
  rw [StakeAccountObject.receiveVs_eq_ok ha]
  exact ⟨rfl, rfl, rfl⟩

theorem addBalance (hR : Overlooks R) {name : AccountName} {delta : ℤ}
    (h : s.addBalance name delta = .ok s') : R s s' := by
  refine hR.account ?_ h
  intro a a' ha
  simp only [bind_eq_ok, pure_eq_ok] at ha
  obtain ⟨_, -, rfl⟩ := ha
  exact ⟨rfl, rfl, rfl⟩

theorem createDelegation (hR : Overlooks R) {d : VestingDelegationObject}
    (h : s.createDelegation d = .ok s') : R s s' := by
  simp only [Staking.createDelegation, bind_eq_ok, pure_eq_ok] at h
  obtain ⟨_, -, rfl⟩ := h
  exact hR.objects rfl rfl rfl rfl

theorem createExpiration (hR : Overlooks R) {delegator : AccountName} {x : ℤ} {time : Nat}
    {k : Bool} (h : s.createExpiration delegator x time k = .ok s') : R s s' := by
  simp only [Staking.createExpiration, bind_eq_ok, pure_eq_ok] at h
  obtain ⟨_, -, rfl⟩ := h
  exact hR.objects rfl rfl rfl rfl

section delegation

theorem increaseDelegation (hR : Overlooks R) {a : StakeAccountObject}
    {delegation : Option VestingDelegationObject} {new : VestingDelegationObject}
    {delta minDelegation : ℤ} {k : Bool}
    (h : s.increaseDelegation a delegation new delta minDelegation k = .ok s') : R s s' := by
  simp only [Staking.increaseDelegation, bind_eq_ok] at h
  obtain ⟨_, -, -, -, _, -, _, -, -, -, s₁, hs₁, h⟩ := h
  have hcreated : R s s₁ := by
    split at hs₁
    . rw [pure_eq_ok] at hs₁
      exact hs₁ ▸ hR.refl s
    . simp only [bind_eq_ok] at hs₁
      obtain ⟨-, -, hs₁⟩ := hs₁
      exact hR.createDelegation hs₁
  exact hR.trans hcreated (hR.delegateVs h)

theorem decreaseDelegation (hR : Overlooks R) {delegation : Option VestingDelegationObject}
    {new : VestingDelegationObject} {delta minDelegation : ℤ} {k : Bool}
    (h : s.decreaseDelegation delegation new delta minDelegation k = .ok s') : R s s' := by
  simp only [Staking.decreaseDelegation, bind_eq_ok] at h
  obtain ⟨-, -, _, -, h⟩ := h
  exact hR.createExpiration h

theorem delegateVestingShares (hR : Overlooks R) {new : VestingDelegationObject} {k : Bool}
    {validate : VestingDelegationObject → Result Unit}
    (h : s.delegateVestingShares new k validate = .ok s') : R s s' := by
  simp only [Staking.delegateVestingShares, bind_eq_ok] at h
  obtain ⟨_, -, -, -, -, -, _, -, _, -, delta, -, -, -, s₁, hs₁, s₂, hs₂, h⟩ := h
  have hchanged : R s s₁ := by
    split at hs₁
    . exact hR.increaseDelegation hs₁
    . exact hR.decreaseDelegation hs₁
  have hreceived := hR.trans hchanged (hR.receiveVs hs₂)
  split at h
  . rw [pure_eq_ok] at h
    exact h ▸ hreceived
  . split at h
    . rw [pure_eq_ok] at h
      subst h
      exact hR.trans hreceived (hR.objects rfl rfl rfl rfl)
    . rw [pure_eq_ok] at h
      subst h
      exact hR.trans hreceived (hR.objects rfl rfl rfl rfl)

theorem delegateVestingSharesOp (hR : Overlooks R) {op : DelegateVestingSharesOperation}
    (h : s.delegateVestingSharesOp op = .ok s') : R s s' := by
  simp only [Staking.delegateVestingSharesOp, bind_eq_ok] at h
  obtain ⟨-, -, h⟩ := h
  exact hR.delegateVestingShares h

theorem delegateVestingSharesWithInterest (hR : Overlooks R)
    {op : DelegateVestingSharesWithInterestOperation}
    (h : s.delegateVestingSharesWithInterest op = .ok s') : R s s' := by
  simp only [Staking.delegateVestingSharesWithInterest, bind_eq_ok] at h
  obtain ⟨-, -, h⟩ := h
  split at h
  . simp only [bind_eq_ok] at h
    obtain ⟨-, -, h⟩ := h
    exact hR.delegateVestingShares h
  . simp only [bind_eq_ok] at h
    obtain ⟨-, -, h⟩ := h
    exact hR.delegateVestingShares h

theorem rejectVestingSharesDelegation (hR : Overlooks R)
    {op : RejectVestingSharesDelegationOperation}
    (h : s.rejectVestingSharesDelegation op = .ok s') : R s s' := by
  simp only [Staking.rejectVestingSharesDelegation, bind_eq_ok, pure_eq_ok] at h
  obtain ⟨_, -, d, -, _, -, s₁, hs₁, s₂, hs₂, rfl⟩ := h
  exact hR.trans (hR.trans (hR.receiveVs hs₁) (hR.createExpiration hs₂))
    (hR.objects rfl rfl rfl rfl)

theorem distributeAccountFee (hR : Overlooks R) {fee : ℤ}
    (h : s.distributeAccountFee fee = .ok s') : R s s' := by
  unfold Staking.distributeAccountFee at h
  split at h
  . exact hR.addBalance h
  . rw [pure_eq_ok] at h
    exact h ▸ hR.refl s

theorem clearExpiredDelegations (hR : Overlooks R) (h : s.clearExpiredDelegations = .ok s') :
    R s s' := by
  apply hR.foldlM _ h
  intro t t' o hclear
  simp only [Staking.clearExpiredDelegation, bind_eq_ok, pure_eq_ok] at hclear
  obtain ⟨_, -, s₁, hs₁, rfl⟩ := hclear
  exact hR.trans (hR.delegateVs hs₁) (hR.objects rfl rfl rfl rfl)

end delegation

section withdrawal

theorem withdrawVesting (hR : Overlooks R) {op : WithdrawVestingOperation}
    (h : s.withdrawVesting op = .ok s') : R s s' := by
  obtain ⟨-, _, _, -, -, -, h | h⟩ := withdrawVesting_cases h
  . refine hR.modifyAccount_pure ?_ h
    intro a
    exact ⟨rfl, rfl, rfl⟩
  . refine hR.modifyAccount_pure ?_ h
    intro a
    exact ⟨rfl, rfl, rfl⟩

theorem returnDelegation (hR : Overlooks R) {d : VestingDelegationObject}
    (h : s.returnDelegation d = .ok s') : R s s' := by
  simp only [Staking.returnDelegation, bind_eq_ok, pure_eq_ok] at h
  obtain ⟨_, -, s₁, hs₁, s₂, hs₂, rfl⟩ := h
  exact hR.trans (hR.trans (hR.delegateVs hs₁) (hR.receiveVs hs₂)) (hR.objects rfl rfl rfl rfl)

theorem processAcc (hR : Overlooks R) {name : AccountName} (h : s.processAcc name = .ok s') :
    R s s' := by
  simp only [Staking.processAcc, bind_eq_ok] at h
  obtain ⟨acc, -, h⟩ := h
  split at h
  . rw [pure_eq_ok] at h
    exact h ▸ hR.refl s
  . simp only [bind_eq_ok] at h
    obtain ⟨accVs, -, h⟩ := h
    split at h
    . rw [pure_eq_ok] at h
      exact h ▸ hR.refl s
    . simp only [bind_eq_ok] at h
      obtain ⟨s₁, hs₁, h⟩ := h
      have hreturned := hR.foldlM (fun _ _ _ => hR.returnDelegation) hs₁
      split at h
      . rw [pure_eq_ok] at h
        exact h ▸ hreturned
      . refine hR.trans hreturned (hR.modifyAccount_pure ?_ h)
        intro a
        exact ⟨rfl, rfl, rfl⟩

theorem checkAccountIdleness (hR : Overlooks R) (h : s.checkAccountIdleness = .ok s') :
    R s s' := by
  unfold Staking.checkAccountIdleness at h
  split at h
  . rw [pure_eq_ok] at h
    exact h ▸ hR.refl s
  . exact hR.foldlM (fun _ _ _ => hR.processAcc) h

end withdrawal

section transit

theorem transferGolos (hR : Overlooks R) {account receiver : AccountName}
    (h : s.transferGolos account receiver = .ok s') : R s s' := by
  simp only [Staking.transferGolos, bind_eq_ok] at h
  obtain ⟨a, -, s₁, hs₁, _, -, h⟩ := h
  have hcleared : R s s₁ := by
    refine hR.modifyAccount_pure ?_ hs₁
    intro a
    exact ⟨rfl, rfl, rfl⟩
  exact hR.trans hcleared (hR.addBalance h)

theorem terminateDelegation (hR : Overlooks R) {d : VestingDelegationObject}
    (h : s.terminateDelegation d = .ok s') : R s s' := by
  simp only [Staking.terminateDelegation, bind_eq_ok, pure_eq_ok] at h
  obtain ⟨s₁, hs₁, s₂, hs₂, rfl⟩ := h
  have hreceived : R s s₁ := by
    refine hR.account ?_ hs₁
    intro a a' ha
    simp only [bind_eq_ok, pure_eq_ok] at ha
    obtain ⟨_, -, rfl⟩ := ha
    exact ⟨rfl, rfl, rfl⟩
  have hcleared : R s₁ s₂ := by
    refine hR.modifyAccount_pure ?_ hs₂
    intro a
    exact ⟨rfl, rfl, rfl⟩
  exact hR.trans (hR.trans hreceived hcleared) (hR.objects rfl rfl rfl rfl)

theorem terminateExpiration (hR : Overlooks R) {o : VestingDelegationExpirationObject}
    (h : s.terminateExpiration o = .ok s') : R s s' := by
  simp only [Staking.terminateExpiration, bind_eq_ok, pure_eq_ok] at h
  obtain ⟨s₁, hs₁, rfl⟩ := h
  have hcleared : R s s₁ := by
    refine hR.modifyAccount_pure ?_ hs₁
    intro a
    exact ⟨rfl, rfl, rfl⟩
  exact hR.trans hcleared (hR.objects rfl rfl rfl rfl)

theorem terminateVestingActivities (hR : Overlooks R) {account : AccountName}
    (h : s.terminateVestingActivities account = .ok s') : R s s' := by
  simp only [Staking.terminateVestingActivities, bind_eq_ok] at h
  obtain ⟨s₁, hs₁, s₂, hs₂, h⟩ := h
  have hdelegations := hR.foldlM (fun _ _ _ => hR.terminateDelegation) hs₁
  have hexpirations := hR.foldlM (fun _ _ _ => hR.terminateExpiration) hs₂
  have hstopped : R s₂ s' := by
    refine hR.modifyAccount_pure ?_ h
    intro a
    exact ⟨rfl, rfl, rfl⟩
  exact hR.trans (hR.trans hdelegations hexpirations) hstopped

theorem transferBeneficiary (hR : Overlooks R) {reward : LiberationReward}
    (h : s.transferBeneficiary reward = .ok s') : R s s' := by
  simp only [Staking.transferBeneficiary, bind_eq_ok] at h
  obtain ⟨_, -, h⟩ := h
  split at h
  . simp only [bind_eq_ok] at h
    obtain ⟨s₁, hs₁, h⟩ := h
    exact hR.trans (hR.addBalance hs₁) (hR.addBalance h)
  . rw [pure_eq_ok] at h
    exact h ▸ hR.refl s

end transit

end Overlooks

end Staking

end Golos
