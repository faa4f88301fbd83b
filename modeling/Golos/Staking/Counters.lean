import Golos.Staking.Routes

/-!
This module contains the delegation ledger over whole runs: the counters of accounts agree with the
delegations and expirations that they count as long as each step names the kind of what it moves.
-/

namespace Golos

open Checked

namespace Staking

variable {s s' s'' : Staking}

section transit

/-- Nothing that the account gives, or has coming back, is of emission. -/
def GivesPlain (s : Staking) (account : AccountName) : Prop :=
  (∀ d ∈ s.delegations.rows, d.delegator = account → d.isEmission = false) ∧
    ∀ o ∈ s.expirations.rows, o.delegator = account → o.isEmission = false

/-- `s'` has no delegations and expirations that `s` has not. -/
structure Prunes (s s' : Staking) : Prop where
  delegations : ∀ d ∈ s'.delegations.rows, d ∈ s.delegations.rows
  expirations : ∀ o ∈ s'.expirations.rows, o ∈ s.expirations.rows

theorem Prunes.of_eq (hdelegations : s'.delegations = s.delegations)
    (hexpirations : s'.expirations = s.expirations) : Prunes s s' where
  delegations := by
    rw [hdelegations]
    exact fun _ hd => hd
  expirations := by
    rw [hexpirations]
    exact fun _ ho => ho

theorem Prunes.trans (h : Prunes s s') (h' : Prunes s' s'') : Prunes s s'' where
  delegations d hd := h.delegations d (h'.delegations d hd)
  expirations o ho := h.expirations o (h'.expirations o ho)

theorem Prunes.modifyAccount {name : AccountName}
    {f : StakeAccountObject → Result StakeAccountObject} (h : s.modifyAccount name f = .ok s') :
    Prunes s s' :=
  .of_eq (delegations_modifyAccount h) (expirations_modifyAccount h)

theorem GivesPlain.prunes {account : AccountName} (h : s.GivesPlain account)
    (hprunes : Prunes s s') : s'.GivesPlain account :=
  ⟨fun d hd => h.1 d (hprunes.delegations d hd), fun o ho => h.2 o (hprunes.expirations o ho)⟩

/-- The counter of plain delegations is set to 0, whatever it counted. -/
theorem Shifts.clearDelegated {name : AccountName}
    (h : s.modifyAccount name (fun a => pure { a with delegatedVestingShares := 0 }) = .ok s') :
    s'.counter (fun a => a.delegated false) name = 0 ∧
      ∃ x, Shifts s s' (Pi.single (name, false) x) 0 := by
  obtain ⟨a, a', t, hrow, ha', hupdates, rfl⟩ := updates_of_modifyAccount (by
    intro a a' ha
    rw [pure_eq_ok] at ha
    exact ha ▸ rfl) h
  rw [pure_eq_ok] at ha'
  subst ha'
  have hname : a.name = name := Table.key_of_find? hrow
  refine ⟨?_, -a.delegatedVestingShares, (Shifts.updates hupdates).congr ?_ ?_⟩
  . rw [counter_updates hupdates, if_pos hname.symm]
    unfold counter
    rw [hrow]
    exact add_sub_cancel _ _
  . funext ⟨n, i⟩
    rw [Pi.single_apply, hname]
    cases i <;> simp [StakeAccountObject.delegated, Prod.mk.injEq]
  . funext p
    simp [StakeAccountObject.received]

/-- Where a loop of the transit stands that terminates what `account` has delegated. -/
structure Terminating (s s' : Staking) (account : AccountName) : Prop extends Prunes s s' where
  shifts : ∃ x, Shifts s s' (Pi.single (account, false) x) 0 ∧
    (x = 0 ∨ s'.counter (fun a => a.delegated false) account = 0)

theorem Terminating.refl (s : Staking) (account : AccountName) : Terminating s s account where
  toPrunes := .of_eq rfl rfl
  shifts := ⟨0, (Shifts.refl s).congr (Pi.single_zero _).symm rfl, .inl rfl⟩

/-- Once cleared, the counter of the account is 0. -/
theorem Terminating.clear {account : AccountName} {x : ℤ} (h : Terminating s s' account)
    (hprunes : Prunes s' s'') (hshifts : Shifts s' s'' (Pi.single (account, false) x) 0)
    (hcounter : s''.counter (fun a => a.delegated false) account = 0) :
    Terminating s s'' account where
  toPrunes := h.toPrunes.trans hprunes
  shifts := by
    obtain ⟨y, hbefore, -⟩ := h.shifts
    refine ⟨y + x, (hbefore.trans hshifts).congr ?_ (add_zero 0), .inr hcounter⟩
    rw [Pi.single_add]

theorem terminateDelegation_shifts {d : VestingDelegationObject} (hplain : d.isEmission = false)
    (hd : s.delegations.find? d.byDelegation = some d) (h : s.terminateDelegation d = .ok s') :
    s'.delegations = s.delegations.erase d.byDelegation ∧ s'.expirations = s.expirations ∧
      s'.counter (fun a => a.delegated false) d.delegator = 0 ∧
      ∃ x, Shifts s s' (Pi.single (d.delegator, false) x) 0 := by
  simp only [terminateDelegation, bind_eq_ok, pure_eq_ok] at h
  obtain ⟨s₁, hs₁, s₂, hs₂, rfl⟩ := h
  have hreceive : s.receiveVs d.delegatee (-d.vestingShares) false = .ok s₁ := hs₁
  obtain ⟨hcounter, x, hcleared⟩ := Shifts.clearDelegated hs₂
  have hdelegations : s₂.delegations = s.delegations := by
    rw [delegations_modifyAccount hs₂, delegations_modifyAccount hs₁]
  have hfind : s₂.findDelegation d.delegator d.delegatee = some d := by
    rw [findDelegation, hdelegations]
    exact hd
  refine ⟨?_, ?_, hcounter, x + d.vestingShares, ?_⟩
  . rw [Staking.removeDelegation, hdelegations]
  . rw [Staking.removeDelegation, expirations_modifyAccount hs₂, expirations_modifyAccount hs₁]
  . apply (((Shifts.receiveVs hreceive).trans hcleared).trans (.removeDelegation hfind)).congr
    . rw [hplain, Pi.single_add]
      abel
    . rw [hplain, Pi.single_neg]
      abel

theorem terminateExpiration_shifts {o : VestingDelegationExpirationObject}
    (hplain : o.isEmission = false) (ho : s.expirations.find? o.id = some o)
    (h : s.terminateExpiration o = .ok s') :
    s'.delegations = s.delegations ∧ s'.expirations = s.expirations.erase o.id ∧
      s'.counter (fun a => a.delegated false) o.delegator = 0 ∧
      ∃ x, Shifts s s' (Pi.single (o.delegator, false) x) 0 := by
  simp only [terminateExpiration, bind_eq_ok, pure_eq_ok] at h
  obtain ⟨s₁, hs₁, rfl⟩ := h
  obtain ⟨hcounter, x, hcleared⟩ := Shifts.clearDelegated hs₁
  have hdelegations := delegations_modifyAccount hs₁
  have hexpirations := expirations_modifyAccount hs₁
  have ho₁ : s₁.expirations.find? o.id = some o := by
    rw [hexpirations]
    exact ho
  refine ⟨hdelegations, by rw [hexpirations], hcounter, x + o.vestingShares, ?_⟩
  apply (hcleared.trans (.eraseExpiration ho₁)).congr
  . rw [hplain, Pi.single_add]
  . abel

theorem Terminating.delegationLoop {account : AccountName} (hplain : s.GivesPlain account)
    (h : (s.delegationsOf account).foldlM terminateDelegation s = .ok s') :
    Terminating s s' account ∧ ∀ d ∈ s'.delegations.rows, d.delegator ≠ account := by
  have hinv := foldlM_invariant (P := fun t l => Terminating s t account ∧ t.delegations.Lists l ∧
    (∀ d ∈ l, d.delegator = account) ∧
    ∀ d ∈ t.delegations.rows, d.delegator = account → d ∈ l) ?_ ?_ h
  . refine ⟨hinv.1, ?_⟩
    intro d hd heq
    exact List.not_mem_nil (hinv.2.2.2 d hd heq)
  . rintro t t' d l ⟨hterminating, hlists, hof, hall⟩ hturn
    have hdelegator := hof d List.mem_cons_self
    have hrow := hlists.row d List.mem_cons_self
    have hmem := Table.mem_of_find? hrow
    obtain ⟨hdelegations, hexpirations, hcounter, x, hshifts⟩ :=
      terminateDelegation_shifts (hplain.1 d (hterminating.delegations d hmem) hdelegator) hrow hturn
    rw [hdelegator] at hcounter hshifts
    have hprunes : Prunes t t' := by
      refine ⟨?_, ?_⟩
      . rw [hdelegations]
        intro d' hd'
        exact (Table.mem_erase.mp hd').1
      . rw [hexpirations]
        exact fun _ ho => ho
    rw [hdelegations]
    refine ⟨hterminating.clear hprunes hshifts hcounter, hlists.erase, ?_, ?_⟩
    . intro d' hd'
      exact hof d' (List.mem_cons_of_mem d hd')
    . intro d' hd' heq
      obtain ⟨hd', hne⟩ := Table.mem_erase.mp hd'
      rcases List.mem_cons.mp (hall d' hd' heq) with rfl | hlater
      . exact absurd rfl hne
      . exact hlater
  . have hmem : ∀ d, d ∈ s.delegationsOf account ↔
        d ∈ s.delegations.rows ∧ d.delegator = account := by
      intro d
      unfold delegationsOf
      rw [List.mem_insertionSort, List.mem_filter, decide_eq_true_eq]
    refine ⟨.refl s account, lists_delegationsOf s account, ?_, ?_⟩
    . intro d hd
      exact ((hmem d).mp hd).2
    . intro d hd heq
      exact (hmem d).mpr ⟨hd, heq⟩

theorem Terminating.expirationLoop {account : AccountName} {l : List VestingDelegationExpirationObject}
    (hplain : s.GivesPlain account) (h : Terminating s s' account)
    (hl : l = s'.expirations.rows.filter fun o => o.delegator = account)
    (hloop : l.foldlM terminateExpiration s' = .ok s'') :
    Terminating s s'' account ∧ s''.delegations = s'.delegations ∧
      ∀ o ∈ s''.expirations.rows, o.delegator ≠ account := by
  have hinv := foldlM_invariant (P := fun t l => Terminating s t account ∧
    t.delegations = s'.delegations ∧ t.expirations.Lists l ∧
    (∀ o ∈ l, o.delegator = account) ∧
    ∀ o ∈ t.expirations.rows, o.delegator = account → o ∈ l) ?_ ?_ hloop
  . refine ⟨hinv.1, hinv.2.1, ?_⟩
    intro o ho heq
    exact List.not_mem_nil (hinv.2.2.2.2 o ho heq)
  . rintro t t' o l ⟨hterminating, hkept, hlists, hof, hall⟩ hturn
    have hdelegator := hof o List.mem_cons_self
    have hrow := hlists.row o List.mem_cons_self
    have hmem := Table.mem_of_find? hrow
    obtain ⟨hdelegations, hexpirations, hcounter, x, hshifts⟩ :=
      terminateExpiration_shifts (hplain.2 o (hterminating.expirations o hmem) hdelegator) hrow hturn
    rw [hdelegator] at hcounter hshifts
    have hprunes : Prunes t t' := by
      refine ⟨?_, ?_⟩
      . rw [hdelegations]
        exact fun _ hd => hd
      . rw [hexpirations]
        intro o' ho'
        exact (Table.mem_erase.mp ho').1
    rw [hexpirations]
    refine ⟨hterminating.clear hprunes hshifts hcounter, hdelegations.trans hkept, hlists.erase,
      ?_, ?_⟩
    . intro o' ho'
      exact hof o' (List.mem_cons_of_mem o ho')
    . intro o' ho' heq
      obtain ⟨ho', hne⟩ := Table.mem_erase.mp ho'
      rcases List.mem_cons.mp (hall o' ho' heq) with rfl | hlater
      . exact absurd rfl hne
      . exact hlater
  . subst hl
    refine ⟨h, rfl, Table.Lists.filter _ _, ?_, ?_⟩
    . intro o ho
      exact of_decide_eq_true (List.mem_filter.mp ho).2
    . intro o ho heq
      exact List.mem_filter.mpr ⟨ho, decide_eq_true heq⟩

/-- The counters of all accounts agree with the objects. -/
structure Accounted (s : Staking) : Prop where
  outgoing : s.outgoing = 0
  incoming : s.incoming = 0

theorem Accounted.shifts (h : s.Accounted) (hshifts : Shifts s s' 0 0) : s'.Accounted where
  outgoing := by rw [hshifts.outgoing, h.outgoing, add_zero]
  incoming := by rw [hshifts.incoming, h.incoming, add_zero]

/-- Without objects left the cleared counter is right. -/
theorem Accounted.terminating {account : AccountName} (h : s.Accounted)
    (hterminating : Terminating s s' account)
    (hdelegations : ∀ d ∈ s'.delegations.rows, d.delegator ≠ account)
    (hexpirations : ∀ o ∈ s'.expirations.rows, o.delegator ≠ account) : s'.Accounted := by
  obtain ⟨x, hshifts, hcase⟩ := hterminating.shifts
  have hout := hshifts.outgoing
  rw [h.outgoing, zero_add] at hout
  refine ⟨?_, ?_⟩
  . rcases hcase with rfl | hcounter
    . rw [hout, Pi.single_zero]
    . have hdelegated : s'.delegatedBy account false = 0 := by
        unfold delegatedBy
        rw [Table.sum_congr _ (g := fun _ => 0)]
        . simp [Table.sum]
        . intro d hd
          rw [if_neg fun heq => hdelegations d hd heq.1]
      have hpending : s'.pendingOf account false = 0 := by
        unfold pendingOf
        rw [Table.sum_congr _ (g := fun _ => 0)]
        . simp [Table.sum]
        . intro o ho
          rw [if_neg fun heq => hexpirations o ho heq.1]
      have hzero : s'.outgoing (account, false) = 0 := by
        unfold Staking.outgoing
        dsimp only
        rw [hcounter, hdelegated, hpending]
        rfl
      rw [hout, Pi.single_eq_same] at hzero
      rw [hout, hzero, Pi.single_zero]
  . rw [hshifts.incoming, h.incoming, add_zero]

theorem Accounted.terminateVestingActivities {account : AccountName} (h : s.Accounted)
    (hplain : s.GivesPlain account) (hterminate : s.terminateVestingActivities account = .ok s') :
    s'.Accounted ∧ Prunes s s' := by
  simp only [Staking.terminateVestingActivities, bind_eq_ok] at hterminate
  obtain ⟨s₁, hs₁, s₂, hs₂, hs'⟩ := hterminate
  obtain ⟨hterminating₁, hnone₁⟩ := Terminating.delegationLoop hplain hs₁
  obtain ⟨hterminating₂, hkept, hnone₂⟩ := hterminating₁.expirationLoop hplain rfl hs₂
  rw [← hkept] at hnone₁
  have hstopped : Shifts s₂ s' 0 0 := by
    refine Shifts.modifyAccount_pure ?_ hs'
    intro a
    exact ⟨rfl, rfl, rfl⟩
  exact ⟨(h.terminating hterminating₂ hnone₁ hnone₂).shifts hstopped,
    hterminating₂.toPrunes.trans (.modifyAccount hs')⟩

theorem Accounted.freezeAccount {account : AccountName} (h : s.Accounted)
    (hplain : s.GivesPlain account) (hfreeze : s.freezeAccount account = .ok s') :
    s'.Accounted ∧ Prunes s s' := by
  simp only [Staking.freezeAccount, Staking.transferGolos, transferVestings, bind_eq_ok] at hfreeze
  obtain ⟨s₁, ⟨a, -, s₀, hs₀, _, -, hs₁⟩, s₂, hs₂, b, -, s₃, hs₃, hs'⟩ := hfreeze
  have hcleared : Shifts s s₀ 0 0 := by
    refine Shifts.modifyAccount_pure ?_ hs₀
    intro a
    exact ⟨rfl, rfl, rfl⟩
  have hmoved : Shifts s₃ s' 0 0 := by
    refine Shifts.modifyAccount_pure ?_ hs'
    intro a
    exact ⟨rfl, rfl, rfl⟩
  have hprunes₁ := (Prunes.modifyAccount hs₀).trans (.modifyAccount hs₁)
  obtain ⟨haccounted₂, hprunes₂⟩ := ((h.shifts hcleared).shifts
    (.addBalance hs₁)).terminateVestingActivities (hplain.prunes hprunes₁) hs₂
  exact ⟨(haccounted₂.shifts (.addVestingShares hs₃)).shifts hmoved,
    (hprunes₁.trans hprunes₂).trans ((Prunes.modifyAccount hs₃).trans (.modifyAccount hs'))⟩

theorem Shifts.transferBeneficiary {reward : LiberationReward}
    (h : s.transferBeneficiary reward = .ok s') : Shifts s s' 0 0 := by
  simp only [Staking.transferBeneficiary, bind_eq_ok] at h
  obtain ⟨_, -, h⟩ := h
  split at h
  . simp only [bind_eq_ok] at h
    obtain ⟨s₁, hs₁, h⟩ := h
    exact ((Shifts.addBalance hs₁).trans (.addBalance h)).congr (add_zero 0) (add_zero 0)
  . rw [pure_eq_ok] at h
    exact h ▸ .refl s

open LiberationHardfork in
theorem Accounted.liberateGolosClassic (h : s.Accounted)
    (hplain : ∀ account ∈ accountsForFreeze, s.GivesPlain account)
    (hliberate : s.liberateGolosClassic = .ok s') : s'.Accounted := by
  unfold Staking.liberateGolosClassic at hliberate
  split at hliberate
  . rw [pure_eq_ok] at hliberate
    exact hliberate ▸ h
  . simp only [bind_eq_ok] at hliberate
    obtain ⟨_, -, _, -, s₁, hs₁, _, -, _, -, s₂, hs₂, s₃, hs₃, s₄, hs₄, _, -, _, -, hs'⟩ := hliberate
    have hfrozen := foldlM_invariant (P := fun t l => t.Accounted ∧
      ∀ account ∈ l, t.GivesPlain account) ?_ ⟨h, hplain⟩ hs₁
    . have hpaid := ((hfrozen.1.shifts (.addBalance hs₂)).shifts (.addVestingShares hs₃)).shifts
        (.subTotals hs₄)
      exact hpaid.shifts (.foldlM (fun _ _ _ => Shifts.transferBeneficiary) hs')
    . rintro t t' account l ⟨haccounted, hplain⟩ hturn
      obtain ⟨haccounted', hprunes⟩ :=
        haccounted.freezeAccount (hplain account List.mem_cons_self) hturn
      refine ⟨haccounted', ?_⟩
      intro account' hmem
      exact (hplain account' (List.mem_cons_of_mem account hmem)).prunes hprunes

end transit

section elsewhere

theorem Shifts.resetVestingWithdraw {account : AccountName}
    (h : s.resetVestingWithdraw account = .ok s') : Shifts s s' 0 0 := by
  simp only [Staking.resetVestingWithdraw, stopWithdraw, bind_eq_ok, pure_eq_ok] at h
  obtain ⟨s₁, hs₁, rfl⟩ := h
  rw [removeVestingRoutes_eq]
  refine Shifts.modifyAccount_pure ?_ hs₁
  intro a
  exact ⟨rfl, rfl, rfl⟩

/-- A number that old accounts keep and new ones start at 0. -/
theorem counter_elsewhere {f : StakeAccountObject → ℤ} (h : s.Elsewhere s')
    (hold : ∀ a a', a.SameStake a' → f a' = f a) (hnew : ∀ a, a.Unused → f a = 0)
    (n : AccountName) : s'.counter f n = s.counter f n := by
  unfold counter
  cases ha : s.accounts.find? n with
  | none =>
    cases ha' : s'.accounts.find? n with
    | none => rfl
    | some a' => exact hnew a' (h.new n a' ha ha').1
  | some a =>
    obtain ⟨a', ha'⟩ := mem_names_iff.mp (h.names.subset (mem_names_iff.mpr ⟨a, ha⟩))
    rw [ha']
    exact hold a a' (h.old n a a' ha ha')

theorem Shifts.elsewhere (h : s.Elsewhere s') : Shifts s s' 0 0 where
  outgoing := by
    rw [add_zero]
    funext ⟨n, k⟩
    unfold Staking.outgoing delegatedBy pendingOf
    rw [counter_elsewhere h, h.delegations, h.expirations]
    . intro a a' hsame
      cases k with
      | false => exact hsame.delegatedVestingShares
      | true => exact hsame.emissionDelegatedVestingShares
    . intro a hunused
      cases k with
      | false => exact hunused.delegatedVestingShares
      | true => exact hunused.emissionDelegatedVestingShares
  incoming := by
    rw [add_zero]
    funext ⟨n, k⟩
    unfold Staking.incoming receivedBy
    rw [counter_elsewhere h, h.delegations]
    . intro a a' hsame
      cases k with
      | false => exact hsame.receivedVestingShares
      | true => exact hsame.emissionReceivedVestingShares
    . intro a hunused
      cases k with
      | false => exact hunused.receivedVestingShares
      | true => exact hunused.emissionReceivedVestingShares

end elsewhere

section run

open LiberationHardfork in
/-- The kind of what a step moves is the kind of the counters that it changes. -/
def Consistent (s : Staking) : StakeEvent → Prop
  | .rejectVestingSharesDelegation op =>
    ∀ d, s.findDelegation op.delegator op.delegatee = some d →
      d.payoutStrategy.toBool = d.isEmission ∨ d.vestingShares = 0
  | .payDelegators delegatee rates claim =>
    ∀ dvir ∈ rates, ¬s.PaysEmission delegatee claim dvir
  | .liberateGolosClassic => ∀ account ∈ accountsForFreeze, s.GivesPlain account
  | _ => True

theorem Accounted.step {e : StakeEvent} (h : s.Accounted) (hconsistent : s.Consistent e)
    (hstep : s.Step e s') : s'.Accounted := by
  cases e with
  | delegateVestingShares op => exact h.shifts (.delegateVestingSharesOp hstep)
  | delegateVestingSharesWithInterest op =>
    exact h.shifts (.delegateVestingSharesWithInterest hstep)
  | rejectVestingSharesDelegation op =>
    obtain ⟨d, hd, hshifts⟩ := Shifts.rejectVestingSharesDelegation hstep
    apply h.shifts (hshifts.congr rfl _)
    rcases hconsistent d hd with hkind | hzero
    . rw [hkind, sub_self]
    . rw [hzero, Pi.single_zero, Pi.single_zero, sub_self]
  | accountCreateWithDelegation op => exact h.shifts (.accountCreateWithDelegation hstep)
  | withdrawVesting op => exact h.shifts (.withdrawVesting hstep)
  | setWithdrawVestingRoute op => exact h.shifts (.setWithdrawVestingRoute hstep)
  | recoverAccount account => exact h.shifts (.resetVestingWithdraw hstep)
  | payDelegators delegatee rates claim => exact h.shifts (.payDelegators hconsistent hstep)
  | createVesting toAccount steem =>
    obtain ⟨-, _, hcreate⟩ := hstep
    exact h.shifts (.createVesting hcreate)
  | clearExpiredDelegations => exact h.shifts (.clearExpiredDelegations hstep)
  | processVestingWithdrawals => exact h.shifts (.processVestingWithdrawals hstep)
  | checkAccountIdleness => exact h.shifts (.checkAccountIdleness hstep)
  | clearNullAccountBalance => exact h.shifts (.clearNullAccountBalance hstep)
  | liberateGolosClassic => exact h.liberateGolosClassic hconsistent hstep
  | other => exact h.shifts (.elsewhere hstep)

theorem accounted_of_unused (h : s.Unused) : s.Accounted := by
  have hcounter : ∀ (f : StakeAccountObject → ℤ), (∀ a, a.Unused → f a = 0) →
      ∀ n, s.counter f n = 0 := by
    intro f hf n
    unfold counter
    split
    . next a ha => exact hf a (h.accounts a (Table.mem_of_find? ha)).1
    . rfl
  refine ⟨?_, ?_⟩
  . funext ⟨n, k⟩
    unfold outgoing delegatedBy pendingOf
    rw [h.delegations, h.expirations, Table.sum_empty, Table.sum_empty, hcounter]
    . rfl
    . intro a ha
      cases k with
      | false => exact ha.delegatedVestingShares
      | true => exact ha.emissionDelegatedVestingShares
  . funext ⟨n, k⟩
    unfold incoming receivedBy
    rw [h.delegations, Table.sum_empty, hcounter]
    . rfl
    . intro a ha
      cases k with
      | false => exact ha.receivedVestingShares
      | true => exact ha.emissionReceivedVestingShares

theorem accounted_of_reach (h : stake.Reach Consistent s) : s.Accounted :=
  h.invariant (fun _ => accounted_of_unused) fun _ _ _ hs hok hstep => hs.step hok hstep

theorem Accounted.delegated (h : s.Accounted) {a : StakeAccountObject} (ha : a ∈ s.accounts.rows)
    (k : Bool) : a.delegated k = s.delegatedBy a.name k + s.pendingOf a.name k := by
  have hout := congrFun h.outgoing (a.name, k)
  unfold Staking.outgoing counter at hout
  dsimp only at hout
  rw [Table.find?_of_mem ha] at hout
  dsimp only [Pi.zero_apply] at hout
  omega

theorem Accounted.received (h : s.Accounted) {a : StakeAccountObject} (ha : a ∈ s.accounts.rows)
    (k : Bool) : a.received k = s.receivedBy a.name k := by
  have hinc := congrFun h.incoming (a.name, k)
  unfold Staking.incoming counter at hinc
  dsimp only at hinc
  rw [Table.find?_of_mem ha] at hinc
  dsimp only [Pi.zero_apply] at hinc
  omega

/-- The four counters of an account are what its delegations and expirations of each kind add up to. -/
structure CountersRight (s : Staking) (a : StakeAccountObject) : Prop where
  delegated : a.delegatedVestingShares = s.delegatedBy a.name false + s.pendingOf a.name false
  emissionDelegated :
    a.emissionDelegatedVestingShares = s.delegatedBy a.name true + s.pendingOf a.name true
  received : a.receivedVestingShares = s.receivedBy a.name false
  emissionReceived : a.emissionReceivedVestingShares = s.receivedBy a.name true

theorem Accounted.right (h : s.Accounted) {a : StakeAccountObject} (ha : a ∈ s.accounts.rows) :
    s.CountersRight a where
  delegated := h.delegated ha false
  emissionDelegated := h.delegated ha true
  received := h.received ha false
  emissionReceived := h.received ha true

/-- As long as every step names the kind of what it moves, the counters of all accounts are right. -/
theorem countersRight_of_reach (h : stake.Reach Consistent s) {a : StakeAccountObject}
    (ha : a ∈ s.accounts.rows) : s.CountersRight a :=
  (accounted_of_reach h).right ha

section rejected

/-- Alice has shares, and nobody delegates any. -/
def undelegatedStake : Staking where
  accounts := ⟨[{ name := "alice", vestingShares := 100000 }, { name := "bob" }], by decide⟩
  totalVestingFundSteem := 100
  totalVestingShares := 100000
  headBlockTime := 1700000000

theorem unused_undelegatedStake : undelegatedStake.Unused :=
  .of_rows ⟨rfl, rfl, rfl⟩ (by decide)

/-- What bob is paid for it is to be delegated as well. -/
def delegateToBob : DelegateVestingSharesWithInterestOperation where
  delegator := "alice"
  delegatee := "bob"
  vestingShares := ⟨1000, vestsSymbol⟩
  interestRate := 0
  payoutStrategy := .toDelegatedVesting

def delegatedStake : Staking :=
  (undelegatedStake.delegateVestingSharesWithInterest delegateToBob).toOption.getD {}

def rejectedStake : Staking :=
  (delegatedStake.rejectVestingSharesDelegation ⟨"alice", "bob"⟩).toOption.getD {}

theorem reach_delegatedStake : stake.Reach Consistent delegatedStake :=
  .step (e := .delegateVestingSharesWithInterest delegateToBob) (.initial unused_undelegatedStake)
    trivial (eq_ok_of_isSome (by decide +kernel))

theorem countersRight_of_reach_delegated : ∃ a, delegatedStake.accounts.find? "bob" = some a ∧
    delegatedStake.CountersRight a := by
  have hbob : (delegatedStake.accounts.find? "bob").isSome := by
    decide +kernel
  obtain ⟨a, ha⟩ := Option.isSome_iff_exists.mp hbob
  exact ⟨a, ha, countersRight_of_reach reach_delegatedStake (Table.mem_of_find? ha)⟩

/-- Bob keeps what he has received, and has received less than nothing of emission. -/
theorem counters_of_rejected : stake.Reachable rejectedStake ∧
    ∃ a ∈ rejectedStake.accounts.rows, ¬rejectedStake.CountersRight a := by
  refine ⟨?_, ?_⟩
  . exact .step (e := .rejectVestingSharesDelegation ⟨"alice", "bob"⟩)
      reach_delegatedStake.reachable trivial (eq_ok_of_isSome (by decide +kernel))
  . have hwrong : ∃ a ∈ rejectedStake.accounts.rows,
        a.emissionReceivedVestingShares ≠ rejectedStake.receivedBy a.name true := by
      decide +kernel
    obtain ⟨a, ha, hne⟩ := hwrong
    exact ⟨a, ha, fun hright => hne hright.emissionReceived⟩

end rejected

end run

end Staking

end Golos
