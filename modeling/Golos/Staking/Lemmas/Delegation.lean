import Mathlib.Algebra.Group.Pi.Lemmas
import Golos.Staking.Impl.Withdrawal

/-!
This module contains what each function does to the difference between the delegation counters of
the accounts and the objects that they count.
-/

namespace Golos

open Checked

namespace StakeAccountObject

def delegated (a : StakeAccountObject) : Bool → ℤ
  | false => a.delegatedVestingShares
  | true => a.emissionDelegatedVestingShares

def received (a : StakeAccountObject) : Bool → ℤ
  | false => a.receivedVestingShares
  | true => a.emissionReceivedVestingShares

theorem delegateVs_eq_ok {a a' : StakeAccountObject} {delta : ℤ} {k : Bool}
    (h : a.delegateVs delta k = .ok a') :
    a' = { a with
      delegatedVestingShares := a.delegatedVestingShares + if k then 0 else delta
      emissionDelegatedVestingShares :=
        a.emissionDelegatedVestingShares + if k then delta else 0 } := by
  unfold delegateVs at h
  cases k with
  | false =>
    simp only [Bool.false_eq_true, ↓reduceIte, bind_eq_ok, pure_eq_ok] at h
    obtain ⟨x, hx, rfl⟩ := h
    simp [eq_of_add64_eq_ok hx]
  | true =>
    simp only [↓reduceIte, bind_eq_ok, pure_eq_ok] at h
    obtain ⟨x, hx, rfl⟩ := h
    simp [eq_of_add64_eq_ok hx]

theorem receiveVs_eq_ok {a a' : StakeAccountObject} {delta : ℤ} {k : Bool}
    (h : a.receiveVs delta k = .ok a') :
    a' = { a with
      receivedVestingShares := a.receivedVestingShares + if k then 0 else delta
      emissionReceivedVestingShares :=
        a.emissionReceivedVestingShares + if k then delta else 0 } := by
  unfold receiveVs at h
  cases k with
  | false =>
    simp only [Bool.false_eq_true, ↓reduceIte, bind_eq_ok, pure_eq_ok] at h
    obtain ⟨x, hx, rfl⟩ := h
    simp [eq_of_add64_eq_ok hx]
  | true =>
    simp only [↓reduceIte, bind_eq_ok, pure_eq_ok] at h
    obtain ⟨x, hx, rfl⟩ := h
    simp [eq_of_add64_eq_ok hx]

end StakeAccountObject

namespace Staking

variable {s s' s'' : Staking}

/-- A number of the account, 0 where there is no account. -/
def counter (s : Staking) (f : StakeAccountObject → ℤ) (name : AccountName) : ℤ :=
  match s.accounts.find? name with
  | some a => f a
  | none => 0

def delegatedBy (s : Staking) (a : AccountName) (isEmission : Bool) : ℤ :=
  s.delegations.sum fun d =>
    if d.delegator = a ∧ d.isEmission = isEmission then d.vestingShares else 0

def receivedBy (s : Staking) (a : AccountName) (isEmission : Bool) : ℤ :=
  s.delegations.sum fun d =>
    if d.delegatee = a ∧ d.isEmission = isEmission then d.vestingShares else 0

def pendingOf (s : Staking) (a : AccountName) (isEmission : Bool) : ℤ :=
  s.expirations.sum fun o =>
    if o.delegator = a ∧ o.isEmission = isEmission then o.vestingShares else 0

/-- What an account has delegated of each kind, beyond what the objects account for. -/
def outgoing (s : Staking) (p : AccountName × Bool) : ℤ :=
  s.counter (fun a => a.delegated p.2) p.1 - s.delegatedBy p.1 p.2 - s.pendingOf p.1 p.2

/-- What an account has received of each kind, beyond what the objects account for. -/
def incoming (s : Staking) (p : AccountName × Bool) : ℤ :=
  s.counter (fun a => a.received p.2) p.1 - s.receivedBy p.1 p.2

/-- `s'` is `s` with the differences changed by `out` and `inc`. -/
structure Shifts (s s' : Staking) (out inc : AccountName × Bool → ℤ) : Prop where
  outgoing : s'.outgoing = s.outgoing + out
  incoming : s'.incoming = s.incoming + inc

namespace Shifts

variable {out out' inc inc' : AccountName × Bool → ℤ}

theorem refl (s : Staking) : Shifts s s 0 0 where
  outgoing := (add_zero _).symm
  incoming := (add_zero _).symm

theorem trans (h : Shifts s s' out inc) (h' : Shifts s' s'' out' inc') :
    Shifts s s'' (out + out') (inc + inc') where
  outgoing := by rw [h'.outgoing, h.outgoing, add_assoc]
  incoming := by rw [h'.incoming, h.incoming, add_assoc]

theorem congr (h : Shifts s s' out inc) (hout : out = out') (hinc : inc = inc') :
    Shifts s s' out' inc' := by
  subst hout hinc
  exact h

/-- Only the counters and the objects matter. -/
theorem replace (h : Shifts s s' out inc) (haccounts : s''.accounts = s'.accounts)
    (hdelegations : s''.delegations = s'.delegations)
    (hexpirations : s''.expirations = s'.expirations) : Shifts s s'' out inc where
  outgoing := by
    rw [← h.outgoing]
    funext p
    simp only [Staking.outgoing, counter, delegatedBy, pendingOf, haccounts, hdelegations,
      hexpirations]
  incoming := by
    rw [← h.incoming]
    funext p
    simp only [Staking.incoming, counter, receivedBy, haccounts, hdelegations]

end Shifts

theorem ite_eq_single (a n : AccountName) (k i : Bool) (x : ℤ) :
    (if n = a ∧ k = i then x else 0) = (Pi.single (n, k) x : AccountName × Bool → ℤ) (a, i) := by
  rw [Pi.single_apply]
  simp only [Prod.mk.injEq, eq_comm (a := a), eq_comm (a := i)]

section accounts

variable {t : Table StakeAccountObject.name} {a a' : StakeAccountObject}

theorem counter_updates (h : s.accounts.Updates t a a') (f : StakeAccountObject → ℤ)
    (n : AccountName) :
    counter { s with accounts := t } f n = s.counter f n + if n = a.name then f a' - f a else 0 := by
  unfold counter
  by_cases hn : n = a.name
  . simp [h.find?, h.row, hn]
  . simp [h.find?, hn]

theorem Shifts.updates (h : s.accounts.Updates t a a') :
    Shifts s { s with accounts := t }
      (fun p => if p.1 = a.name then a'.delegated p.2 - a.delegated p.2 else 0)
      (fun p => if p.1 = a.name then a'.received p.2 - a.received p.2 else 0) where
  outgoing := by
    funext p
    simp only [Staking.outgoing, Pi.add_apply, counter_updates h]
    simp only [delegatedBy, pendingOf]
    omega
  incoming := by
    funext p
    simp only [Staking.incoming, Pi.add_apply, counter_updates h]
    simp only [receivedBy]
    omega

/-- An update of an account that leaves its delegation counters alone. -/
theorem Shifts.updates_of_eq (h : s.accounts.Updates t a a')
    (hdelegated : a'.delegated = a.delegated) (hreceived : a'.received = a.received) :
    Shifts s { s with accounts := t } 0 0 := by
  apply (Shifts.updates h).congr
  . funext p
    simp [hdelegated]
  . funext p
    simp [hreceived]

theorem updates_of_modifyAccount {name : AccountName}
    {f : StakeAccountObject → Result StakeAccountObject}
    (hf : ∀ a a', f a = .ok a' → a'.name = a.name) (h : s.modifyAccount name f = .ok s') :
    ∃ a a' t, s.accounts.find? name = some a ∧ f a = .ok a' ∧ s.accounts.Updates t a a' ∧
      s' = { s with accounts := t } := by
  simp only [modifyAccount, getAccount, bind_eq_ok, get_eq_ok, pure_eq_ok] at h
  obtain ⟨a, ha, a', ha', rfl⟩ := h
  refine ⟨a, a', _, ha, ha', ?_, rfl⟩
  apply Table.Updates.modify_of_eq _ ha
  rw [← hf a a' ha']

theorem Shifts.modifyAccount {name : AccountName}
    {f : StakeAccountObject → Result StakeAccountObject}
    (hf : ∀ a a', f a = .ok a' →
      a'.name = a.name ∧ a'.delegated = a.delegated ∧ a'.received = a.received)
    (h : s.modifyAccount name f = .ok s') : Shifts s s' 0 0 := by
  obtain ⟨a, a', t, -, ha', hupdates, rfl⟩ := updates_of_modifyAccount (fun a a' h => (hf a a' h).1) h
  exact .updates_of_eq hupdates (hf a a' ha').2.1 (hf a a' ha').2.2

/-- `delegate_vs` in an update that leaves the counters alone otherwise. -/
theorem Shifts.modifyAccount_delegateVs {name : AccountName} {delta : ℤ} {k : Bool}
    {f : StakeAccountObject → Result StakeAccountObject}
    (hf : ∀ a a', f a = .ok a' → ∃ b : StakeAccountObject, b.name = a.name ∧
      b.delegated = a.delegated ∧ b.received = a.received ∧ b.delegateVs delta k = .ok a')
    (h : s.modifyAccount name f = .ok s') : Shifts s s' (Pi.single (name, k) delta) 0 := by
  have hkeeps : ∀ a a', f a = .ok a' → a'.name = a.name := by
    intro a a' ha
    obtain ⟨b, hname, -, -, hb⟩ := hf a a' ha
    rw [StakeAccountObject.delegateVs_eq_ok hb, hname]
  obtain ⟨a, a', t, hrow, ha', hupdates, rfl⟩ := updates_of_modifyAccount hkeeps h
  have hname := Table.key_of_find? hrow
  obtain ⟨b, -, hdelegated, hreceived, hb⟩ := hf a a' ha'
  have hb := StakeAccountObject.delegateVs_eq_ok hb
  subst hname hb
  apply (Shifts.updates hupdates).congr
  . ext ⟨n, i⟩
    rw [Pi.single_apply, ← hdelegated]
    cases k <;> cases i <;> simp [StakeAccountObject.delegated, Prod.mk.injEq]
  . funext p
    rw [← hreceived]
    simp [StakeAccountObject.received]

theorem Shifts.delegateVs {name : AccountName} {delta : ℤ} {k : Bool}
    (h : s.delegateVs name delta k = .ok s') : Shifts s s' (Pi.single (name, k) delta) 0 := by
  refine Shifts.modifyAccount_delegateVs ?_ h
  intro a a' ha
  exact ⟨a, rfl, rfl, rfl, ha⟩

theorem Shifts.receiveVs {name : AccountName} {delta : ℤ} {k : Bool}
    (h : s.receiveVs name delta k = .ok s') : Shifts s s' 0 (Pi.single (name, k) delta) := by
  obtain ⟨a, a', t, hrow, ha', hupdates, rfl⟩ := updates_of_modifyAccount
    (fun a a' h => by rw [StakeAccountObject.receiveVs_eq_ok h]) h
  have hname := Table.key_of_find? hrow
  have := StakeAccountObject.receiveVs_eq_ok ha'
  subst hname this
  apply (Shifts.updates hupdates).congr
  . funext p
    simp [StakeAccountObject.delegated]
  . ext ⟨n, i⟩
    rw [Pi.single_apply]
    cases k <;> cases i <;> simp [StakeAccountObject.received, Prod.mk.injEq]

/-- A new account starts with the shares it has received. -/
theorem Shifts.createAccount {a : StakeAccountObject} (hdelegated : a.delegated = 0)
    (hemission : a.emissionReceivedVestingShares = 0) (h : s.createAccount a = .ok s') :
    Shifts s s' 0 (Pi.single (a.name, false) a.receivedVestingShares) := by
  simp only [Staking.createAccount, bind_eq_ok, get_eq_ok, pure_eq_ok] at h
  obtain ⟨t, ht, rfl⟩ := h
  have hinserts := Table.Inserts.emplace ht
  have hcounter : ∀ (f : StakeAccountObject → ℤ) n, counter { s with accounts := t } f n
      = s.counter f n + if n = a.name then f a else 0 := by
    intro f n
    unfold counter
    by_cases hn : n = a.name
    . have : t.find? n = some a := hinserts.find?_eq_some_iff.mpr (.inr ⟨rfl, hn.symm⟩)
      rw [this, hn, hinserts.fresh]
      simp
    . have : t.find? n = s.accounts.find? n := by
        ext b
        rw [hinserts.find?_eq_some_iff]
        simp [Ne.symm hn]
      rw [this]
      simp [hn]
  constructor
  . funext p
    simp only [Staking.outgoing, Pi.add_apply, hcounter, hdelegated, Pi.zero_apply]
    simp [delegatedBy, pendingOf]
  . ext ⟨n, i⟩
    simp only [Staking.incoming, Pi.add_apply, hcounter, receivedBy, Pi.single_apply]
    cases i with
    | false =>
      simp [StakeAccountObject.received]
      omega
    | true => simp [StakeAccountObject.received, hemission]

end accounts

section objects

variable {d d' : VestingDelegationObject} {o : VestingDelegationExpirationObject}

theorem Shifts.createDelegation (h : s.createDelegation d = .ok s') :
    Shifts s s' (-Pi.single (d.delegator, d.isEmission) d.vestingShares)
      (-Pi.single (d.delegatee, d.isEmission) d.vestingShares) := by
  simp only [Staking.createDelegation, bind_eq_ok, get_eq_ok, pure_eq_ok] at h
  obtain ⟨t, ht, rfl⟩ := h
  have hinserts := Table.Inserts.emplace ht
  constructor
  . ext ⟨n, i⟩
    simp only [Staking.outgoing, delegatedBy, Pi.add_apply, Pi.neg_apply, hinserts.sum,
      ite_eq_single, counter, pendingOf]
    omega
  . ext ⟨n, i⟩
    simp only [Staking.incoming, receivedBy, Pi.add_apply, Pi.neg_apply, hinserts.sum,
      ite_eq_single, counter]
    omega

/-- A delegation whose shares alone change. -/
theorem Shifts.updatesDelegation {t : Table VestingDelegationObject.byDelegation}
    (h : s.delegations.Updates t d { d with vestingShares := d.vestingShares + x }) :
    Shifts s { s with delegations := t } (-Pi.single (d.delegator, d.isEmission) x)
      (-Pi.single (d.delegatee, d.isEmission) x) := by
  constructor
  . ext ⟨n, i⟩
    simp only [Staking.outgoing, delegatedBy, Pi.add_apply, Pi.neg_apply, h.sum, ite_eq_single,
      Pi.single_add, counter, pendingOf]
    omega
  . ext ⟨n, i⟩
    simp only [Staking.incoming, receivedBy, Pi.add_apply, Pi.neg_apply, h.sum, ite_eq_single,
      Pi.single_add, counter]
    omega

theorem Shifts.removeDelegation {delegator delegatee : AccountName}
    (h : s.findDelegation delegator delegatee = some d) :
    Shifts s (s.removeDelegation delegator delegatee)
      (Pi.single (d.delegator, d.isEmission) d.vestingShares)
      (Pi.single (d.delegatee, d.isEmission) d.vestingShares) := by
  have hsum := fun f => Table.sum_erase s.delegations f h
  constructor
  . ext ⟨n, i⟩
    simp only [Staking.outgoing, Staking.removeDelegation, delegatedBy, Pi.add_apply, hsum,
      ite_eq_single, counter, pendingOf]
    omega
  . ext ⟨n, i⟩
    simp only [Staking.incoming, Staking.removeDelegation, receivedBy, Pi.add_apply, hsum,
      ite_eq_single, counter]
    omega

theorem Shifts.createExpiration {delegator : AccountName} {x : ℤ} {time : Nat} {k : Bool}
    (h : s.createExpiration delegator x time k = .ok s') :
    Shifts s s' (-Pi.single (delegator, k) x) 0 := by
  simp only [Staking.createExpiration, bind_eq_ok, get_eq_ok, pure_eq_ok] at h
  obtain ⟨t, ht, rfl⟩ := h
  have hinserts := Table.Inserts.emplace ht
  constructor
  . ext ⟨n, i⟩
    simp only [Staking.outgoing, delegatedBy, Pi.add_apply, Pi.neg_apply, hinserts.sum,
      ite_eq_single, counter, pendingOf]
    omega
  . ext ⟨n, i⟩
    simp [Staking.incoming, receivedBy, counter]

theorem Shifts.eraseExpiration (h : s.expirations.find? o.id = some o) :
    Shifts s { s with expirations := s.expirations.erase o.id }
      (Pi.single (o.delegator, o.isEmission) o.vestingShares) 0 := by
  have hsum := fun f => Table.sum_erase s.expirations f h
  constructor
  . ext ⟨n, i⟩
    simp only [Staking.outgoing, delegatedBy, Pi.add_apply, hsum, ite_eq_single, counter, pendingOf]
    omega
  . ext ⟨n, i⟩
    simp [Staking.incoming, receivedBy, counter]

end objects

section frames

variable {name : AccountName} {f : StakeAccountObject → Result StakeAccountObject}

theorem eq_of_modifyAccount (h : s.modifyAccount name f = .ok s') :
    s' = { s with accounts := s'.accounts } := by
  simp only [modifyAccount, bind_eq_ok, pure_eq_ok] at h
  obtain ⟨-, -, -, -, rfl⟩ := h
  rfl

theorem delegations_modifyAccount (h : s.modifyAccount name f = .ok s') :
    s'.delegations = s.delegations := by
  rw [eq_of_modifyAccount h]

theorem routes_modifyAccount (h : s.modifyAccount name f = .ok s') : s'.routes = s.routes := by
  rw [eq_of_modifyAccount h]

theorem expirations_modifyAccount (h : s.modifyAccount name f = .ok s') :
    s'.expirations = s.expirations := by
  rw [eq_of_modifyAccount h]

theorem delegations_createExpiration {delegator : AccountName} {x : ℤ} {time : Nat} {k : Bool}
    (h : s.createExpiration delegator x time k = .ok s') : s'.delegations = s.delegations := by
  simp only [Staking.createExpiration, bind_eq_ok, pure_eq_ok] at h
  obtain ⟨-, -, rfl⟩ := h
  rfl

end frames

section operations

theorem delegations_createVesting {name : AccountName} {steem vests : ℤ}
    (h : s.createVesting name steem = .ok (s', vests)) : s'.delegations = s.delegations := by
  simp only [Staking.createVesting, bind_eq_ok, pure_eq_ok, Prod.mk.injEq] at h
  obtain ⟨_, -, s₁, hmodify, _, -, _, -, rfl, -⟩ := h
  exact (delegations_modifyAccount hmodify : s₁.delegations = s.delegations)

theorem Shifts.createVesting {name : AccountName} {steem vests : ℤ}
    (h : s.createVesting name steem = .ok (s', vests)) : Shifts s s' 0 0 := by
  simp only [Staking.createVesting, bind_eq_ok, pure_eq_ok, Prod.mk.injEq] at h
  obtain ⟨_, -, s₁, hmodify, _, -, _, -, rfl, -⟩ := h
  refine (Shifts.modifyAccount ?_ hmodify).replace rfl rfl rfl
  intro a a' ha
  simp only [bind_eq_ok, pure_eq_ok] at ha
  obtain ⟨_, -, rfl⟩ := ha
  exact ⟨rfl, rfl, rfl⟩

theorem Shifts.increaseDelegation_some {delegator : StakeAccountObject}
    {d new : VestingDelegationObject} {delta minDelegation : ℤ} {k : Bool}
    (h : s.increaseDelegation delegator (some d) new delta minDelegation k = .ok s') :
    s'.delegations = s.delegations ∧ Shifts s s' (Pi.single (delegator.name, k) delta) 0 := by
  simp only [increaseDelegation, bind_eq_ok, pure_eq_ok] at h
  obtain ⟨_, -, -, -, _, -, _, -, -, -, _, rfl, h⟩ := h
  exact ⟨delegations_modifyAccount h, .delegateVs h⟩

theorem Shifts.increaseDelegation_none {delegator : StakeAccountObject}
    {new : VestingDelegationObject} {delta minDelegation : ℤ} {k : Bool}
    (h : s.increaseDelegation delegator none new delta minDelegation k = .ok s') :
    Shifts s s'
      (-Pi.single (new.delegator, new.isEmission) new.vestingShares
        + Pi.single (delegator.name, k) delta)
      (-Pi.single (new.delegatee, new.isEmission) new.vestingShares) := by
  simp only [increaseDelegation, bind_eq_ok] at h
  obtain ⟨_, -, -, -, _, -, _, -, -, -, s₁, ⟨-, -, hs₁⟩, h⟩ := h
  apply ((Shifts.createDelegation hs₁).trans (.delegateVs h)).congr rfl
  exact add_zero _

theorem Shifts.decreaseDelegation {delegation : Option VestingDelegationObject}
    {new : VestingDelegationObject} {delta minDelegation : ℤ} {k : Bool}
    (h : s.decreaseDelegation delegation new delta minDelegation k = .ok s') :
    delegation.isSome ∧ s'.delegations = s.delegations ∧
      Shifts s s' (Pi.single (new.delegator, k) delta) 0 := by
  simp only [Staking.decreaseDelegation, bind_eq_ok, ensure_eq_ok, get_eq_ok] at h
  obtain ⟨-, -, d, hd, h⟩ := h
  refine ⟨by simp [hd], delegations_createExpiration h, ?_⟩
  apply (Shifts.createExpiration h).congr _ rfl
  rw [Pi.single_neg, neg_neg]

/-- A delegation, however made, changes counters and objects alike. -/
theorem Shifts.delegateVestingShares {new : VestingDelegationObject} {k : Bool}
    {validateWithVdo : VestingDelegationObject → Result Unit} (hnew : new.isEmission = k)
    (hnonneg : 0 ≤ new.vestingShares)
    (h : s.delegateVestingShares new k validateWithVdo = .ok s') : Shifts s s' 0 0 := by
  simp only [Staking.delegateVestingShares, getAccount, bind_eq_ok, get_eq_ok, ensure_eq_ok] at h
  obtain ⟨delegator, hdelegator, _, -, -, -, _, -, _, -, delta, hdelta, -, -, s₁, hs₁, s₂, hs₂, h⟩ := h
  have hname := Table.key_of_find? hdelegator
  have hreceive := Shifts.receiveVs hs₂
  cases hfind : s.findDelegation new.delegator new.delegatee with
  | none =>
    simp only [hfind, pure_eq_ok] at hdelta hs₁ hs₂ h hreceive
    subst hdelta h
    split at hs₁
    . apply ((Shifts.increaseDelegation_none hs₁).trans hreceive).congr
      . rw [hname, hnew]
        abel
      . rw [hnew]
        abel
    . have := (Shifts.decreaseDelegation hs₁).1
      cases this
  | some d =>
    simp only [hfind, int64_eq_ok] at hdelta hs₁ hs₂ h hreceive
    obtain ⟨-, hdelta⟩ := hdelta
    have hkey := Table.key_of_find? hfind
    simp only [VestingDelegationObject.byDelegation, Prod.mk.injEq] at hkey
    have hs₁ : s₁.delegations = s.delegations ∧
        Shifts s s₁ (Pi.single (new.delegator, d.isEmission) delta) 0 := by
      split at hs₁
      . rw [← hname]
        exact Shifts.increaseDelegation_some hs₁
      . exact (Shifts.decreaseDelegation hs₁).2
    have hdelegations : s₂.delegations = s.delegations := by
      rw [delegations_modifyAccount hs₂, hs₁.1]
    have hfind₂ : s₂.delegations.find? (new.delegator, new.delegatee) = some d := by
      rw [hdelegations]
      exact hfind
    have hshifts := hs₁.2.trans hreceive
    rw [← hkey.1, ← hkey.2] at hshifts
    split at h
    . next hpos =>
      simp only [pure_eq_ok] at h
      subst h
      have hd' : { d with vestingShares := new.vestingShares }
          = { d with vestingShares := d.vestingShares + delta } := by
        rw [← hdelta, add_sub_cancel]
      have hupdates := Table.Updates.modify_of_eq
        (fun d => { d with vestingShares := new.vestingShares }) hfind₂ hd'
      apply (hshifts.trans (.updatesDelegation hupdates)).congr
      . abel
      . abel
    . next hpos =>
      simp only [pure_eq_ok] at h
      subst h
      have hshares : d.vestingShares = -delta := by omega
      apply (hshifts.trans (.removeDelegation hfind₂)).congr
      . rw [hshares, Pi.single_neg]
        abel
      . rw [hshares, Pi.single_neg]
        abel

theorem nonneg_of_validateDelegation {delegator delegatee : AccountName} {shares : Asset} {u : Unit}
    (h : validateDelegation delegator delegatee shares = .ok u) : 0 ≤ shares.amount := by
  simp only [validateDelegation, bind_eq_ok, ensure_eq_ok] at h
  obtain ⟨-, -, -, hnonneg⟩ := h
  exact hnonneg

theorem Shifts.delegateVestingSharesOp {op : DelegateVestingSharesOperation}
    (h : s.delegateVestingSharesOp op = .ok s') : Shifts s s' 0 0 := by
  simp only [Staking.delegateVestingSharesOp, bind_eq_ok] at h
  obtain ⟨_, hvalidate, h⟩ := h
  exact .delegateVestingShares rfl (nonneg_of_validateDelegation hvalidate) h

theorem Shifts.delegateVestingSharesWithInterest
    {op : DelegateVestingSharesWithInterestOperation}
    (h : s.delegateVestingSharesWithInterest op = .ok s') : Shifts s s' 0 0 := by
  simp only [Staking.delegateVestingSharesWithInterest, bind_eq_ok] at h
  obtain ⟨_, hvalidate, h⟩ := h
  split at h
  . simp only [bind_eq_ok] at h
    obtain ⟨-, -, h⟩ := h
    exact .delegateVestingShares rfl (nonneg_of_validateDelegation hvalidate) h
  . simp only [bind_eq_ok] at h
    obtain ⟨-, -, h⟩ := h
    exact .delegateVestingShares rfl (nonneg_of_validateDelegation hvalidate) h

/-- A rejection takes the received shares from the counter that the payout strategy names. -/
theorem Shifts.rejectVestingSharesDelegation {op : RejectVestingSharesDelegationOperation}
    (h : s.rejectVestingSharesDelegation op = .ok s') :
    ∃ d, s.findDelegation op.delegator op.delegatee = some d ∧
      Shifts s s' 0 (Pi.single (op.delegatee, d.isEmission) d.vestingShares
        - Pi.single (op.delegatee, d.payoutStrategy.toBool) d.vestingShares) := by
  simp only [Staking.rejectVestingSharesDelegation, bind_eq_ok, get_eq_ok, int64_eq_ok,
    pure_eq_ok] at h
  obtain ⟨_, -, d, hd, _, ⟨-, rfl⟩, s₁, hs₁, s₂, hs₂, rfl⟩ := h
  refine ⟨d, hd, ?_⟩
  have hkey := Table.key_of_find? hd
  simp only [VestingDelegationObject.byDelegation, Prod.mk.injEq] at hkey
  have hfind : s₂.findDelegation op.delegator op.delegatee = some d := by
    rw [findDelegation, delegations_createExpiration hs₂, delegations_modifyAccount hs₁]
    exact hd
  have hshifts := ((Shifts.receiveVs hs₁).trans (.createExpiration hs₂)).trans
    (.removeDelegation hfind)
  apply hshifts.congr
  . rw [hkey.1]
    abel
  . rw [hkey.2, Pi.single_neg]
    abel

theorem Shifts.distributeAccountFee {fee : ℤ} (h : s.distributeAccountFee fee = .ok s') :
    Shifts s s' 0 0 := by
  unfold Staking.distributeAccountFee at h
  split at h
  . refine Shifts.modifyAccount ?_ h
    intro a a' ha
    simp only [bind_eq_ok, pure_eq_ok] at ha
    obtain ⟨_, -, rfl⟩ := ha
    exact ⟨rfl, rfl, rfl⟩
  . simp only [pure_eq_ok] at h
    exact h ▸ .refl s

theorem Shifts.accountCreateWithDelegation {op : AccountCreateWithDelegationOperation}
    (h : s.accountCreateWithDelegation op = .ok s') : Shifts s s' 0 0 := by
  simp only [Staking.accountCreateWithDelegation, bind_eq_ok, ensure_eq_ok] at h
  obtain ⟨_, hvalidate, creator, hcreator, -, -, _, -, _, -, _, -, _, -, -, -, -, -, s₁, hs₁, s₂, hs₂,
    s₃, hs₃, h⟩ := h
  simp only [AccountCreateWithDelegationOperation.validate, bind_eq_ok, ensure_eq_ok] at hvalidate
  obtain ⟨-, -, -, hnonneg⟩ := hvalidate
  have hcreator : Shifts s s₁ (Pi.single (op.creator, false) op.delegation.amount) 0 := by
    refine Shifts.modifyAccount_delegateVs ?_ hs₁
    intro a a' ha
    simp only [bind_eq_ok] at ha
    obtain ⟨balance, -, ha⟩ := ha
    exact ⟨{ a with balance := balance }, rfl, rfl, rfl, ha⟩
  have hcreated := hcreator.trans (.createAccount (by funext k; cases k <;> rfl) rfl hs₂)
  have hshifts : Shifts s s₃ 0 0 := by
    split at hs₃
    . apply (hcreated.trans (.createDelegation hs₃)).congr
      . abel
      . abel
    . next hzero =>
      simp only [pure_eq_ok] at hs₃
      subst hs₃
      have : op.delegation.amount = 0 := by omega
      apply hcreated.congr
      . simp [this]
      . simp [this]
  split at h
  . simp only [bind_eq_ok] at h
    obtain ⟨s₄, hs₄, _, -, h⟩ := h
    have hshifts := hshifts.trans (.distributeAccountFee hs₄)
    split at h
    . simp only [bind_eq_ok, pure_eq_ok] at h
      obtain ⟨⟨s₅, _⟩, hs₅, rfl⟩ := h
      exact (hshifts.trans (.createVesting hs₅)).congr (by abel) (by abel)
    . simp only [pure_eq_ok] at h
      subst h
      exact hshifts.congr (by abel) (by abel)
  . simp only [pure_eq_ok] at h
    exact h ▸ hshifts

/-- The payment goes to a delegation of emission. -/
def PaysEmission (s : Staking) (delegatee : AccountName) (claim : Nat)
    (dvir : DelegatorVoteInterestRate) : Prop :=
  dvir.interestRate ≤ steemit100Percent ∧
    claim * dvir.interestRate % 2 ^ 64 / steemit100Percent ≠ 0 ∧
    dvir.payoutStrategy = .toDelegatedVesting ∧
    ∃ d ∈ s.findDelegation dvir.account delegatee, d.isEmission = true

/-- `s'` has the delegations of `s`, possibly with other amounts. -/
def SameKinds (s s' : Staking) : Prop :=
  ∀ delegator delegatee, (s'.findDelegation delegator delegatee).map VestingDelegationObject.isEmission
    = (s.findDelegation delegator delegatee).map VestingDelegationObject.isEmission

theorem SameKinds.of_eq (h : s'.delegations = s.delegations) : SameKinds s s' := by
  intro delegator delegatee
  rw [findDelegation, h, findDelegation]

theorem SameKinds.trans (h : SameKinds s s') (h' : SameKinds s' s'') : SameKinds s s'' := by
  intro delegator delegatee
  rw [h', h]

theorem SameKinds.modifyDelegation (s : Staking) (delegator delegatee : AccountName) (x : ℤ) :
    SameKinds s (s.modifyDelegation delegator delegatee fun d => { d with vestingShares := x }) := by
  intro a b
  simp only [findDelegation, Staking.modifyDelegation, Table.find?_modify]
  split
  . rw [Option.map_map]
    rfl
  . rfl

theorem SameKinds.paysEmission_iff (h : SameKinds s s') {delegatee : AccountName} {claim : Nat}
    {dvir : DelegatorVoteInterestRate} :
    s'.PaysEmission delegatee claim dvir ↔ s.PaysEmission delegatee claim dvir := by
  have hkinds := h dvir.account delegatee
  unfold PaysEmission
  cases hd : s.findDelegation dvir.account delegatee with
  | none =>
    cases hd' : s'.findDelegation dvir.account delegatee with
    | none => simp
    | some d' => simp [hd, hd'] at hkinds
  | some d =>
    cases hd' : s'.findDelegation dvir.account delegatee with
    | none => simp [hd, hd'] at hkinds
    | some d' =>
      simp only [hd, hd', Option.map_some, Option.some.injEq] at hkinds
      simp [hkinds]

/-- A payment adds the same amount to counters of the plain kind and to the delegation. -/
theorem Shifts.payDelegator {delegatee : AccountName} {claim : Nat}
    {dvir : DelegatorVoteInterestRate} (h : s.payDelegator delegatee claim dvir = .ok s') :
    SameKinds s s' ∧ ∃ x k, (k = true → s.PaysEmission delegatee claim dvir) ∧
      Shifts s s' (Pi.single (dvir.account, false) x - Pi.single (dvir.account, k) x)
        (Pi.single (delegatee, false) x - Pi.single (delegatee, k) x) := by
  unfold Staking.payDelegator at h
  dsimp only at h
  split at h
  . simp only [pure_eq_ok] at h
    subst h
    exact ⟨.of_eq rfl, 0, false, by simp, (Shifts.refl s).congr (by simp) (by simp)⟩
  . next hpays =>
    simp only [bind_eq_ok] at h
    obtain ⟨⟨s₁, x⟩, hs₁, h⟩ := h
    have hdelegations := delegations_createVesting hs₁
    split at h
    . next d hstrategy hfind' =>
      simp only [bind_eq_ok, pure_eq_ok] at h
      obtain ⟨s₂, hs₂, s₃, hs₃, shares, hshares, rfl⟩ := h
      have hfind : s₃.delegations.find? (dvir.account, delegatee) = some d := by
        rw [delegations_modifyAccount hs₃, delegations_modifyAccount hs₂]
        exact hfind'
      have hkey := Table.key_of_find? hfind
      simp only [VestingDelegationObject.byDelegation, Prod.mk.injEq] at hkey
      refine ⟨?_, x, d.isEmission, ?_, ?_⟩
      . have hkinds : SameKinds s s₃ := by
          apply SameKinds.of_eq
          rw [delegations_modifyAccount hs₃, delegations_modifyAccount hs₂, hdelegations]
        exact hkinds.trans (.modifyDelegation s₃ dvir.account delegatee shares)
      . intro hk
        rw [findDelegation, hdelegations] at hfind'
        simp only [not_or, not_lt] at hpays
        exact ⟨hpays.1, hpays.2, hstrategy, d, hfind', hk⟩
      . have hd' : { d with vestingShares := shares }
            = { d with vestingShares := d.vestingShares + x } := by
          rw [eq_of_add64_eq_ok hshares]
        have hupdates := Table.Updates.modify_of_eq
          (fun d => { d with vestingShares := shares }) hfind hd'
        have hshifts := (((Shifts.createVesting hs₁).trans (.delegateVs hs₂)).trans
          (.receiveVs hs₃)).trans (.updatesDelegation hupdates)
        apply hshifts.congr
        . rw [hkey.1]
          abel
        . rw [hkey.2]
          abel
    . simp only [pure_eq_ok] at h
      subst h
      exact ⟨.of_eq hdelegations, 0, false, by simp,
        (Shifts.createVesting hs₁).congr (by simp) (by simp)⟩

end operations

end Staking

end Golos
