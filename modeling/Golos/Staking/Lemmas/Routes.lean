import Golos.Staking.Lemmas.Loops
import Golos.Staking.Run

/-!
This module contains which functions leave the routes of withdrawals alone: all but the one that
sets a route.
-/

namespace Golos

open Checked

namespace Staking

variable {s s' s'' : Staking}

/-- The routes, the numbers of routes and the ids of the accounts stay. -/
structure KeepsRoutes (s s' : Staking) : Prop where
  routes : s'.routes = s.routes
  names : s.names <+: s'.names
  withdrawRoutes : ∀ name, s'.counter (fun a => a.withdrawRoutes) name
    = s.counter (fun a => a.withdrawRoutes) name

namespace KeepsRoutes

theorem refl (s : Staking) : KeepsRoutes s s :=
  ⟨rfl, List.prefix_rfl, fun _ => rfl⟩

theorem trans (h : KeepsRoutes s s') (h' : KeepsRoutes s' s'') : KeepsRoutes s s'' where
  routes := by rw [h'.routes, h.routes]
  names := h.names.trans h'.names
  withdrawRoutes := by
    intro name
    rw [h'.withdrawRoutes, h.withdrawRoutes]

theorem of_accounts (hroutes : s'.routes = s.routes) (haccounts : s'.accounts = s.accounts) :
    KeepsRoutes s s' where
  routes := hroutes
  names := by
    unfold Staking.names
    exact ⟨[], by rw [haccounts, List.append_nil]⟩
  withdrawRoutes := by
    intro name
    unfold counter
    rw [haccounts]

end KeepsRoutes

theorem names_modifyAccount {name : AccountName}
    {f : StakeAccountObject → Result StakeAccountObject} (h : s.modifyAccount name f = .ok s') :
    s'.names = s.names := by
  simp only [modifyAccount, bind_eq_ok, pure_eq_ok] at h
  obtain ⟨a, -, a', -, rfl⟩ := h
  simp only [names, Table.modify, List.map_map]
  apply List.map_congr_left
  intro b _
  simp only [Function.comp_apply]
  split <;> rfl

theorem KeepsRoutes.modifyAccount {name : AccountName}
    {f : StakeAccountObject → Result StakeAccountObject}
    (hf : ∀ a a', f a = .ok a' → a'.name = a.name ∧ a'.withdrawRoutes = a.withdrawRoutes)
    (h : s.modifyAccount name f = .ok s') : KeepsRoutes s s' := by
  have hnames := names_modifyAccount h
  obtain ⟨a, a', t, -, ha', hupdates, rfl⟩ :=
    updates_of_modifyAccount (fun a a' h => (hf a a' h).1) h
  refine ⟨rfl, hnames ▸ List.prefix_rfl, ?_⟩
  intro n
  rw [counter_updates hupdates, (hf a a' ha').2]
  simp

/-- Nearly all functions leave the routes alone. -/
theorem overlooks_keepsRoutes : Overlooks KeepsRoutes where
  refl := .refl
  trans := .trans
  account hf h := .modifyAccount (fun a a' ha => ⟨(hf a a' ha).1, (hf a a' ha).2.2⟩) h
  objects haccounts hroutes _ _ := .of_accounts hroutes haccounts

theorem KeepsRoutes.addVestingShares {name : AccountName} {delta : ℤ}
    (h : s.addVestingShares name delta = .ok s') : KeepsRoutes s s' := by
  refine KeepsRoutes.modifyAccount ?_ h
  intro a a' ha
  simp only [bind_eq_ok, pure_eq_ok] at ha
  obtain ⟨_, -, rfl⟩ := ha
  exact ⟨rfl, rfl⟩

theorem KeepsRoutes.subTotals {steem vests : ℤ} (h : s.subTotals steem vests = .ok s') :
    KeepsRoutes s s' := by
  simp only [Staking.subTotals, bind_eq_ok, pure_eq_ok] at h
  obtain ⟨_, -, _, -, rfl⟩ := h
  exact .of_accounts rfl rfl

theorem KeepsRoutes.createVesting {name : AccountName} {steem : ℤ} {p : Staking × ℤ}
    (h : s.createVesting name steem = .ok p) : KeepsRoutes s p.1 := by
  simp only [Staking.createVesting, bind_eq_ok, pure_eq_ok] at h
  obtain ⟨_, -, s₁, hs₁, _, -, _, -, rfl⟩ := h
  have hadded : KeepsRoutes s s₁ := by
    refine KeepsRoutes.modifyAccount ?_ hs₁
    intro a a' ha
    simp only [bind_eq_ok, pure_eq_ok] at ha
    obtain ⟨_, -, rfl⟩ := ha
    exact ⟨rfl, rfl⟩
  exact hadded.trans (.of_accounts rfl rfl)

theorem KeepsRoutes.createAccount {a : StakeAccountObject} (ha : a.withdrawRoutes = 0)
    (h : s.createAccount a = .ok s') : KeepsRoutes s s' := by
  simp only [Staking.createAccount, bind_eq_ok, get_eq_ok, pure_eq_ok] at h
  obtain ⟨t, ht, rfl⟩ := h
  obtain ⟨hfresh, rfl⟩ := Table.emplace_eq_some_iff.mp ht
  refine ⟨rfl, ?_, ?_⟩
  . unfold Staking.names Table.insert
    rw [List.map_append]
    exact List.prefix_append _ _
  . intro n
    unfold counter
    dsimp only
    rw [Table.find?_insert]
    by_cases hn : a.name = n
    . rw [if_pos hn, ← hn, hfresh]
      simp [ha]
    . rw [if_neg hn]

section delegation

theorem KeepsRoutes.accountCreateWithDelegation {op : AccountCreateWithDelegationOperation}
    (h : s.accountCreateWithDelegation op = .ok s') : KeepsRoutes s s' := by
  simp only [Staking.accountCreateWithDelegation, bind_eq_ok] at h
  obtain ⟨-, -, _, -, -, -, -, -, _, -, _, -, _, -, -, -, -, -, s₁, hs₁, s₂, hs₂, s₃, hs₃, h⟩ := h
  have hpaid : KeepsRoutes s s₁ := by
    refine KeepsRoutes.modifyAccount ?_ hs₁
    intro a a' ha
    simp only [bind_eq_ok] at ha
    obtain ⟨_, -, ha⟩ := ha
    rw [StakeAccountObject.delegateVs_eq_ok ha]
    exact ⟨rfl, rfl⟩
  have hcreated := hpaid.trans (.createAccount rfl hs₂)
  have hdelegated : KeepsRoutes s s₃ := by
    split at hs₃
    . exact hcreated.trans (overlooks_keepsRoutes.createDelegation hs₃)
    . rw [pure_eq_ok] at hs₃
      exact hs₃ ▸ hcreated
  split at h
  . simp only [bind_eq_ok] at h
    obtain ⟨s₄, hs₄, _, -, h⟩ := h
    have hshared := hdelegated.trans (overlooks_keepsRoutes.distributeAccountFee hs₄)
    split at h
    . simp only [bind_eq_ok, pure_eq_ok] at h
      obtain ⟨p, hp, rfl⟩ := h
      exact hshared.trans (.createVesting hp)
    . rw [pure_eq_ok] at h
      exact h ▸ hshared
  . rw [pure_eq_ok] at h
    exact h ▸ hdelegated

theorem KeepsRoutes.payDelegator {delegatee : AccountName} {claim : Nat}
    {dvir : DelegatorVoteInterestRate}
    (h : Staking.payDelegator delegatee claim s dvir = .ok s') : KeepsRoutes s s' := by
  unfold Staking.payDelegator at h
  dsimp only at h
  split at h
  . rw [pure_eq_ok] at h
    exact h ▸ .refl s
  . simp only [bind_eq_ok] at h
    obtain ⟨p, hp, h⟩ := h
    have hcreated := KeepsRoutes.createVesting hp
    split at h
    . simp only [bind_eq_ok, pure_eq_ok] at h
      obtain ⟨s₁, hs₁, s₂, hs₂, _, -, rfl⟩ := h
      exact ((hcreated.trans (overlooks_keepsRoutes.delegateVs hs₁)).trans
        (overlooks_keepsRoutes.receiveVs hs₂)).trans
        (.of_accounts rfl rfl)
    . rw [pure_eq_ok] at h
      exact h ▸ hcreated

end delegation

section withdrawal

theorem KeepsRoutes.depositAsVests {due : ℤ} {p p' : Staking × ℤ}
    {r : WithdrawVestingRouteObject} (h : Staking.depositAsVests due p r = .ok p') :
    KeepsRoutes p.1 p'.1 := by
  simp only [Staking.depositAsVests, bind_eq_ok] at h
  obtain ⟨_, -, _, -, h⟩ := h
  split at h
  . simp only [bind_eq_ok, pure_eq_ok] at h
    obtain ⟨s₁, hs₁, rfl⟩ := h
    exact KeepsRoutes.addVestingShares hs₁
  . rw [pure_eq_ok] at h
    subst h
    exact .refl _

theorem KeepsRoutes.depositAsSteem {due : ℤ} {p p' : Staking × ℤ}
    {r : WithdrawVestingRouteObject} (h : Staking.depositAsSteem due p r = .ok p') :
    KeepsRoutes p.1 p'.1 := by
  simp only [Staking.depositAsSteem, bind_eq_ok] at h
  obtain ⟨_, -, _, -, _, -, h⟩ := h
  split at h
  . simp only [bind_eq_ok, pure_eq_ok] at h
    obtain ⟨s₁, hs₁, s₂, hs₂, rfl⟩ := h
    exact (overlooks_keepsRoutes.addBalance hs₁).trans (.subTotals hs₂)
  . rw [pure_eq_ok] at h
    subst h
    exact .refl _

theorem KeepsRoutes.deposits
    {f : Staking × ℤ → WithdrawVestingRouteObject → Result (Staking × ℤ)}
    (hf : ∀ p p' r, f p r = .ok p' → KeepsRoutes p.1 p'.1) {l : List WithdrawVestingRouteObject}
    {p : Staking × ℤ} (h : l.foldlM f (s, 0) = .ok p) : KeepsRoutes s p.1 := by
  refine foldlM_invariant (P := fun p _ => KeepsRoutes s p.1) ?_ (.refl s) h
  intro p p' r _ hp hturn
  exact hp.trans (hf p p' r hturn)

theorem payWithdrawal_withdrawRoutes {a a' : StakeAccountObject} {due steem : ℤ}
    (h : a.payWithdrawal due steem = .ok a') :
    a'.name = a.name ∧ a'.withdrawRoutes = a.withdrawRoutes := by
  simp only [StakeAccountObject.payWithdrawal, bind_eq_ok] at h
  obtain ⟨_, -, _, -, _, -, h⟩ := h
  split at h
  . rw [pure_eq_ok] at h
    subst h
    exact ⟨rfl, rfl⟩
  . rw [pure_eq_ok] at h
    subst h
    exact ⟨rfl, rfl⟩

theorem KeepsRoutes.processVestingWithdrawal {name : AccountName}
    (h : s.processVestingWithdrawal name = .ok s') : KeepsRoutes s s' := by
  simp only [Staking.processVestingWithdrawal, bind_eq_ok] at h
  obtain ⟨a, -, due, -, ⟨s₁, asVests⟩, hs₁, ⟨s₂, asSteem⟩, hs₂, _, -, _, -, s₃, hs₃, h⟩ := h
  have hvests := KeepsRoutes.deposits (fun _ _ _ => KeepsRoutes.depositAsVests) hs₁
  have hsteem := KeepsRoutes.deposits (fun _ _ _ => KeepsRoutes.depositAsSteem) hs₂
  have hpaid := KeepsRoutes.modifyAccount (fun _ _ => payWithdrawal_withdrawRoutes) hs₃
  exact ((hvests.trans hsteem).trans hpaid).trans (.subTotals h)

theorem KeepsRoutes.processVestingWithdrawals (h : s.processVestingWithdrawals = .ok s') :
    KeepsRoutes s s' := by
  unfold Staking.processVestingWithdrawals at h
  generalize s.accounts.rows.length * _ = fuel at h
  generalize Option.map _ _ = current at h
  induction fuel generalizing s current with
  | zero =>
    rw [processVestingWithdrawalsFrom, pure_eq_ok] at h
    exact h ▸ .refl s
  | succ fuel ih =>
    cases current with
    | none =>
      rw [processVestingWithdrawalsFrom, pure_eq_ok] at h
      . exact h ▸ .refl s
      . intro hzero
        cases hzero
    | some name =>
      simp only [processVestingWithdrawalsFrom, bind_eq_ok] at h
      obtain ⟨a, -, h⟩ := h
      split at h
      . simp only [bind_eq_ok] at h
        obtain ⟨s₁, hs₁, h⟩ := h
        exact (KeepsRoutes.processVestingWithdrawal hs₁).trans (ih _ h)
      . rw [pure_eq_ok] at h
        exact h ▸ .refl s

theorem KeepsRoutes.clearNullAccountBalance (h : s.clearNullAccountBalance = .ok s') :
    KeepsRoutes s s' := by
  simp only [Staking.clearNullAccountBalance, bind_eq_ok] at h
  obtain ⟨a, -, s₁, hs₁, h⟩ := h
  have hcleared : KeepsRoutes s s₁ := by
    refine overlooks_keepsRoutes.modifyAccount_pure ?_ hs₁
    intro a
    exact ⟨rfl, rfl, rfl⟩
  split at h
  . simp only [bind_eq_ok] at h
    obtain ⟨_, -, s₂, hs₂, h⟩ := h
    have hburnt : KeepsRoutes s₂ s' := by
      refine KeepsRoutes.modifyAccount ?_ h
      intro a a' ha
      rw [pure_eq_ok] at ha
      exact ha ▸ ⟨rfl, rfl⟩
    exact (hcleared.trans (.subTotals hs₂)).trans hburnt
  . rw [pure_eq_ok] at h
    exact h ▸ hcleared

end withdrawal

section transit

theorem KeepsRoutes.freezeAccount {account : AccountName} (h : s.freezeAccount account = .ok s') :
    KeepsRoutes s s' := by
  simp only [Staking.freezeAccount, Staking.transferVestings, bind_eq_ok] at h
  obtain ⟨s₁, hs₁, s₂, hs₂, a, -, s₃, hs₃, h⟩ := h
  have hterminated := (overlooks_keepsRoutes.transferGolos hs₁).trans
    (overlooks_keepsRoutes.terminateVestingActivities hs₂)
  have hcleared : KeepsRoutes s₃ s' := by
    refine KeepsRoutes.modifyAccount ?_ h
    intro a a' ha
    rw [pure_eq_ok] at ha
    exact ha ▸ ⟨rfl, rfl⟩
  exact (hterminated.trans (.addVestingShares hs₃)).trans hcleared

theorem KeepsRoutes.liberateGolosClassic (h : s.liberateGolosClassic = .ok s') :
    KeepsRoutes s s' := by
  unfold Staking.liberateGolosClassic at h
  split at h
  . rw [pure_eq_ok] at h
    exact h ▸ .refl s
  . simp only [bind_eq_ok] at h
    obtain ⟨_, -, _, -, s₁, hs₁, _, -, _, -, s₂, hs₂, s₃, hs₃, s₄, hs₄, _, -, _, -, h⟩ := h
    have hfrozen := overlooks_keepsRoutes.foldlM (fun _ _ _ => KeepsRoutes.freezeAccount) hs₁
    have hpaid := overlooks_keepsRoutes.foldlM
      (fun _ _ _ => overlooks_keepsRoutes.transferBeneficiary) h
    exact (((hfrozen.trans (overlooks_keepsRoutes.addBalance hs₂)).trans (.addVestingShares hs₃)).trans
      (.subTotals hs₄)).trans hpaid

end transit

end Staking

end Golos
