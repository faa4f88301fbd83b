import Golos.Ledger.Basic

/-!
This module contains the effect of the balance functions: which main balances, holds and totals
they change, and when they succeed.
-/

namespace Golos
namespace Ledger

open Checked

/-- The main balance of an account in one symbol, 0 where there is no object for it. -/
def mainBalance (l : Ledger) (name : AccountName) (symbol : AssetSymbolType) : ℤ :=
  if symbol = steemSymbol then
    match l.accounts.find? name with
    | some a => a.balance
    | none => 0
  else if symbol = sbdSymbol then
    match l.accounts.find? name with
    | some a => a.sbdBalance
    | none => 0
  else
    match l.accountBalances.find? (symbol, name) with
    | some o => o.balance
    | none => 0

def nftHold (l : Ledger) (name : AccountName) : ℤ :=
  match l.accounts.find? name with
  | some a => a.nftHoldBalance
  | none => 0

/-- The sum of the main balances of all accounts in one symbol. -/
def totalBalance (l : Ledger) (symbol : AssetSymbolType) : ℤ :=
  if symbol = steemSymbol then
    l.accounts.sum AccountObject.balance
  else if symbol = sbdSymbol then
    l.accounts.sum AccountObject.sbdBalance
  else
    l.accountBalances.sum fun o => if o.symbol = symbol then o.balance else 0

/-- The number of units of a symbol that exist according to the chain. -/
def supply (l : Ledger) (symbol : AssetSymbolType) : ℤ :=
  if symbol = steemSymbol then
    l.currentSupply
  else if symbol = sbdSymbol then
    l.currentSbdSupply
  else
    match l.assets.find? symbol with
    | some o => o.supply
    | none => 0

/-- An account can hold a symbol: it is GOLOS, GBG or an existing asset. -/
def Holdable (l : Ledger) (symbol : AssetSymbolType) : Prop :=
  symbol = steemSymbol ∨ symbol = sbdSymbol ∨ (l.assets.find? symbol).isSome

theorem mainBalance_nonneg {l : Ledger}
    (haccounts : ∀ a ∈ l.accounts.rows, 0 ≤ a.balance ∧ 0 ≤ a.sbdBalance)
    (hbalances : ∀ o ∈ l.accountBalances.rows, 0 ≤ o.balance) (name : AccountName)
    (symbol : AssetSymbolType) : 0 ≤ l.mainBalance name symbol := by
  unfold mainBalance
  split
  . split
    . next a ha => exact (haccounts a (Table.mem_of_find? ha)).1
    . exact le_rfl
  . split
    . split
      . next a ha => exact (haccounts a (Table.mem_of_find? ha)).2
      . exact le_rfl
    . split
      . next o ho => exact hbalances o (Table.mem_of_find? ho)
      . exact le_rfl

theorem sbdSymbol_ne_steemSymbol : sbdSymbol ≠ steemSymbol := by
  decide

/--
`l'` is `l` after main balances changed by `f`, NFT holds by `h` and the totals of main balances
by `t`. Nothing else differs.
-/
structure Moves (l l' : Ledger) (f : AccountName → AssetSymbolType → ℤ) (h : AccountName → ℤ)
    (t : AssetSymbolType → ℤ) : Prop where
  accounts : ∀ a, (l'.accounts.find? a).isSome = (l.accounts.find? a).isSome
  balance : ∀ a s, l'.mainBalance a s = l.mainBalance a s + f a s
  hold : ∀ a, l'.nftHold a = l.nftHold a + h a
  total : ∀ s, l'.totalBalance s = l.totalBalance s + t s
  assets : l'.assets = l.assets
  currentSupply : l'.currentSupply = l.currentSupply
  currentSbdSupply : l'.currentSbdSupply = l.currentSbdSupply
  virtualSupply : l'.virtualSupply = l.virtualSupply
  currentMedianHistory : l'.currentMedianHistory = l.currentMedianHistory

/-- A change of one balance. -/
def single (name : AccountName) (delta : Asset) (a : AccountName) (s : AssetSymbolType) : ℤ :=
  if a = name ∧ s = delta.symbol then delta.amount else 0

/-- A change of one total. -/
def inSymbol (delta : Asset) (s : AssetSymbolType) : ℤ :=
  if s = delta.symbol then delta.amount else 0

/-- A change of one hold. -/
def holdOf (name : AccountName) (delta : ℤ) (a : AccountName) : ℤ :=
  if a = name then delta else 0

namespace Moves

variable {l l' l'' : Ledger} {f g : AccountName → AssetSymbolType → ℤ} {h k : AccountName → ℤ}
  {t u : AssetSymbolType → ℤ}

theorem refl (l : Ledger) : Moves l l (fun _ _ => 0) (fun _ => 0) (fun _ => 0) where
  accounts := by intro a; rfl
  balance := by intro a s; omega
  hold := by intro a; omega
  total := by intro s; omega
  assets := rfl
  currentSupply := rfl
  currentSbdSupply := rfl
  virtualSupply := rfl
  currentMedianHistory := rfl

theorem trans (h₁ : Moves l l' f h t) (h₂ : Moves l' l'' g k u) :
    Moves l l'' (fun a s => f a s + g a s) (fun a => h a + k a) (fun s => t s + u s) where
  accounts := by intro a; rw [h₂.accounts, h₁.accounts]
  balance := by intro a s; rw [h₂.balance, h₁.balance]; omega
  hold := by intro a; rw [h₂.hold, h₁.hold]; omega
  total := by intro s; rw [h₂.total, h₁.total]; omega
  assets := by rw [h₂.assets, h₁.assets]
  currentSupply := by rw [h₂.currentSupply, h₁.currentSupply]
  currentSbdSupply := by rw [h₂.currentSbdSupply, h₁.currentSbdSupply]
  virtualSupply := by rw [h₂.virtualSupply, h₁.virtualSupply]
  currentMedianHistory := by rw [h₂.currentMedianHistory, h₁.currentMedianHistory]

theorem congr (hm : Moves l l' f h t) (hf : ∀ a s, f a s = g a s) (hh : ∀ a, h a = k a)
    (ht : ∀ s, t s = u s) : Moves l l' g k u := by
  have hf : f = g := by
    funext a s
    exact hf a s
  have hh : h = k := funext hh
  have ht : t = u := funext ht
  subst hf hh ht
  exact hm

theorem supply (hm : Moves l l' f h t) (s : AssetSymbolType) : l'.supply s = l.supply s := by
  simp only [Ledger.supply, hm.assets, hm.currentSupply, hm.currentSbdSupply]

theorem holdable (hm : Moves l l' f h t) {s : AssetSymbolType} (hs : l.Holdable s) :
    l'.Holdable s := by
  unfold Holdable
  rw [hm.assets]
  exact hs

end Moves

theorem getAccount_eq_ok {l : Ledger} {name : AccountName} {a : AccountObject} :
    l.getAccount name = .ok a ↔ l.accounts.find? name = some a := by
  simp [getAccount]

theorem getAccount_of_isSome {l : Ledger} {name : AccountName}
    (h : (l.accounts.find? name).isSome) :
    ∃ a, l.getAccount name = .ok a ∧ l.accounts.find? name = some a := by
  obtain ⟨a, ha⟩ := Option.isSome_iff_exists.mp h
  exact ⟨a, getAccount_eq_ok.mpr ha, ha⟩

section modifyAccount

variable (l : Ledger) (name : AccountName) (f : AccountObject → AccountObject)
  (hf : ∀ a, (f a).name = a.name)

theorem isSome_modifyAccount (a : AccountName) :
    ((l.modifyAccount name f hf).accounts.find? a).isSome = (l.accounts.find? a).isSome := by
  unfold modifyAccount
  rw [Table.find?_modify]
  split
  . simp
  . rfl

theorem mainBalance_modifyAccount_of_asset {s : AssetSymbolType} (a : AccountName)
    (hsteem : s ≠ steemSymbol) (hsbd : s ≠ sbdSymbol) :
    (l.modifyAccount name f hf).mainBalance a s = l.mainBalance a s := by
  simp [mainBalance, hsteem, hsbd, modifyAccount]

theorem totalBalance_modifyAccount_of_asset {s : AssetSymbolType} (hsteem : s ≠ steemSymbol)
    (hsbd : s ≠ sbdSymbol) :
    (l.modifyAccount name f hf).totalBalance s = l.totalBalance s := by
  simp [totalBalance, hsteem, hsbd, modifyAccount]

end modifyAccount

/-- Rewriting one account changes its two balances and its hold by the change of the object. -/
theorem moves_modifyAccount {l : Ledger} {name : AccountName} {a : AccountObject}
    (f : AccountObject → AccountObject) (hf : ∀ a, (f a).name = a.name)
    (ha : l.accounts.find? name = some a) :
    Moves l (l.modifyAccount name f hf)
      (fun b s => single name ⟨(f a).balance - a.balance, steemSymbol⟩ b s
        + single name ⟨(f a).sbdBalance - a.sbdBalance, sbdSymbol⟩ b s)
      (holdOf name ((f a).nftHoldBalance - a.nftHoldBalance))
      (fun s => inSymbol ⟨(f a).balance - a.balance, steemSymbol⟩ s
        + inSymbol ⟨(f a).sbdBalance - a.sbdBalance, sbdSymbol⟩ s) where
  accounts := isSome_modifyAccount l name f hf
  balance := by
    intro b s
    have hne := sbdSymbol_ne_steemSymbol
    by_cases hsteem : s = steemSymbol
    . subst hsteem
      by_cases hb : b = name
      . subst hb
        simp [mainBalance, modifyAccount, ha, single, hne.symm]
      . simp [mainBalance, modifyAccount, Table.find?_modify_of_ne, single, hb]
    . by_cases hsbd : s = sbdSymbol
      . subst hsbd
        by_cases hb : b = name
        . subst hb
          simp [mainBalance, modifyAccount, ha, single, hne]
        . simp [mainBalance, modifyAccount, Table.find?_modify_of_ne, single, hb, hne]
      . rw [mainBalance_modifyAccount_of_asset l name f hf b hsteem hsbd]
        simp [single, hsteem, hsbd]
  hold := by
    intro b
    by_cases hb : b = name
    . subst hb
      simp [nftHold, modifyAccount, ha, holdOf]
    . simp [nftHold, modifyAccount, Table.find?_modify_of_ne, holdOf, hb]
  total := by
    intro s
    have hne := sbdSymbol_ne_steemSymbol
    by_cases hsteem : s = steemSymbol
    . subst hsteem
      simp [totalBalance, modifyAccount, Table.sum_modify _ f hf _ ha, inSymbol, hne.symm]
    . by_cases hsbd : s = sbdSymbol
      . subst hsbd
        simp [totalBalance, modifyAccount, Table.sum_modify _ f hf _ ha, inSymbol, hne]
      . rw [totalBalance_modifyAccount_of_asset l name f hf hsteem hsbd]
        simp [inSymbol, hsteem, hsbd]
  assets := rfl
  currentSupply := rfl
  currentSbdSupply := rfl
  virtualSupply := rfl
  currentMedianHistory := rfl

theorem moves_accountBalances {l : Ledger} {t : Table AccountBalanceObject.bySymbolAccount}
    {name : AccountName} {delta : Asset}
    (hsteem : delta.symbol ≠ steemSymbol) (hsbd : delta.symbol ≠ sbdSymbol)
    (hbalance : ∀ a s, ((t.find? (s, a)).map AccountBalanceObject.balance).getD 0
      = ((l.accountBalances.find? (s, a)).map AccountBalanceObject.balance).getD 0
        + single name delta a s)
    (htotal : ∀ s, t.sum (fun o => if o.symbol = s then o.balance else 0)
      = l.accountBalances.sum (fun o => if o.symbol = s then o.balance else 0)
        + inSymbol delta s) :
    Moves l { l with accountBalances := t } (single name delta) (fun _ => 0) (inSymbol delta) where
  accounts := by intro a; rfl
  balance := by
    intro a s
    by_cases h₁ : s = steemSymbol
    . subst h₁
      simp [mainBalance, single, Ne.symm hsteem]
    . by_cases h₂ : s = sbdSymbol
      . subst h₂
        simp [mainBalance, h₁, single, Ne.symm hsbd]
      . have := hbalance a s
        have hmain : ∀ (u : Table AccountBalanceObject.bySymbolAccount),
            ((u.find? (s, a)).map AccountBalanceObject.balance).getD 0
              = match u.find? (s, a) with
                | some o => o.balance
                | none => 0 := by
          intro u
          cases u.find? (s, a) <;> rfl
        simp only [mainBalance, h₁, h₂, ↓reduceIte]
        rw [← hmain, ← hmain]
        exact this
  hold := by intro a; simp [nftHold]
  total := by
    intro s
    by_cases h₁ : s = steemSymbol
    . subst h₁
      simp [totalBalance, inSymbol, Ne.symm hsteem]
    . by_cases h₂ : s = sbdSymbol
      . subst h₂
        simp [totalBalance, h₁, inSymbol, Ne.symm hsbd]
      . simp only [totalBalance, h₁, h₂, ↓reduceIte]
        exact htotal s
  assets := rfl
  currentSupply := rfl
  currentSbdSupply := rfl
  virtualSupply := rfl
  currentMedianHistory := rfl

theorem moves_adjustAccountBalance {l l' : Ledger} {name : AccountName} {delta : Asset}
    (hsteem : delta.symbol ≠ steemSymbol) (hsbd : delta.symbol ≠ sbdSymbol)
    (h : l.adjustAccountBalance name delta.symbol delta.amount 0 0 = .ok l') :
    Moves l l' (single name delta) (fun _ => 0) (inSymbol delta) := by
  unfold adjustAccountBalance at h
  split at h
  . next o ho =>
    simp only [add64_zero, bind_eq_ok, pure_eq_ok, Except.ok.injEq] at h
    obtain ⟨balance, hadd, _, rfl, _, rfl, rfl⟩ := h
    have hbalance := eq_of_add64_eq_ok hadd
    have hkey := Table.key_of_find? ho
    simp only [AccountBalanceObject.bySymbolAccount, Prod.mk.injEq] at hkey
    apply moves_accountBalances hsteem hsbd
    . intro a s
      by_cases hs : (s, a) = (delta.symbol, name)
      . rw [hs, Table.find?_modify_self, ho]
        simp only [Prod.mk.injEq] at hs
        simp [single, hs, hbalance]
      . rw [Table.find?_modify_of_ne _ _ _ hs]
        simp only [Prod.mk.injEq, not_and] at hs
        have : ¬(a = name ∧ s = delta.symbol) := fun h => hs h.2 h.1
        simp [single, this]
    . intro s
      rw [Table.sum_modify _ _ _ _ ho]
      simp only [hkey.1, inSymbol, eq_comm (a := s)]
      split <;> omega
  . next hnone =>
    simp only [bind_eq_ok, ensure_eq_ok, pure_eq_ok] at h
    obtain ⟨_, -, rfl⟩ := h
    apply moves_accountBalances hsteem hsbd
    . intro a s
      rw [Table.find?_insert]
      simp only [AccountBalanceObject.bySymbolAccount]
      by_cases hs : (delta.symbol, name) = (s, a)
      . rw [if_pos hs, ← hs, hnone]
        simp only [Prod.mk.injEq] at hs
        simp [single, ← hs.1, ← hs.2]
      . rw [if_neg hs]
        simp only [Prod.mk.injEq, not_and] at hs
        have : ¬(a = name ∧ s = delta.symbol) := fun h => hs h.2.symm h.1.symm
        simp [single, this]
    . intro s
      rw [Table.sum_insert]
      simp only [inSymbol, eq_comm (a := s)]

/-- The whole effect of `adjust_balance`. -/
theorem moves_adjustBalance {l l' : Ledger} {name : AccountName} {delta : Asset}
    (h : l.adjustBalance name delta = .ok l') :
    Moves l l' (single name delta) (fun _ => 0) (inSymbol delta) := by
  unfold adjustBalance at h
  simp only [bind_eq_ok, getAccount_eq_ok] at h
  obtain ⟨a, ha, h⟩ := h
  split at h
  . next hsteem =>
    simp only [bind_eq_ok, pure_eq_ok] at h
    obtain ⟨balance, hadd, rfl⟩ := h
    have hbalance := eq_of_add64_eq_ok hadd
    apply (moves_modifyAccount _ _ ha).congr
    . intro b s
      simp [hbalance, single, hsteem]
    . intro b
      simp [holdOf]
    . intro s
      simp [hbalance, inSymbol, hsteem]
  . next hsteem =>
    split at h
    . next hsbd =>
      simp only [bind_eq_ok, pure_eq_ok] at h
      obtain ⟨sbdBalance, hadd, rfl⟩ := h
      have hbalance := eq_of_add64_eq_ok hadd
      apply (moves_modifyAccount _ _ ha).congr
      . intro b s
        simp [hbalance, single, hsbd]
      . intro b
        simp [holdOf]
      . intro s
        simp [hbalance, inSymbol, hsbd]
    . next hsbd => exact moves_adjustAccountBalance hsteem hsbd h

/-- The whole effect of a change of `nft_hold_balance`. -/
theorem moves_adjustNftHoldBalance {l l' : Ledger} {name : AccountName} {delta : ℤ}
    (h : l.adjustNftHoldBalance name delta = .ok l') :
    Moves l l' (fun _ _ => 0) (holdOf name delta) (fun _ => 0) := by
  unfold adjustNftHoldBalance at h
  simp only [bind_eq_ok, getAccount_eq_ok, pure_eq_ok] at h
  obtain ⟨a, ha, balance, hadd, rfl⟩ := h
  have hbalance := eq_of_add64_eq_ok hadd
  apply (moves_modifyAccount _ _ ha).congr
  . intro b s
    simp [single]
  . intro b
    simp [hbalance, holdOf]
  . intro s
    simp [inSymbol]

theorem mainBalance_eq_of_getBalance {l : Ledger} {name : AccountName} {a : AccountObject}
    {symbol : AssetSymbolType} {exist : Asset} (ha : l.getAccount name = .ok a)
    (h : l.getBalance a symbol = .ok exist) : exist.amount = l.mainBalance name symbol := by
  rw [getAccount_eq_ok] at ha
  have hname := Table.key_of_find? ha
  unfold getBalance at h
  unfold mainBalance
  split at h
  . next hsteem =>
    injection h with h
    subst h
    simp [hsteem, ha]
  . next hsteem =>
    split at h
    . next hsbd =>
      injection h with h
      subst h
      simp [hsbd, sbdSymbol_ne_steemSymbol, ha]
    . next hsbd =>
      simp only [bind_eq_ok, pure_eq_ok, hname] at h
      obtain ⟨o, ho, rfl⟩ := h
      simp only [hsteem, hsbd, ↓reduceIte]
      unfold getOrDefaultAccountBalance at ho
      revert ho
      cases l.accountBalances.find? (symbol, name) with
      | some o' =>
        intro ho
        injection ho with ho
        rw [ho]
      | none =>
        intro ho
        simp only [bind_eq_ok, pure_eq_ok] at ho
        obtain ⟨-, -, rfl⟩ := ho
        rfl

/-- A passed balance check bounds the amount by the main balance. -/
theorem le_mainBalance_of_checkBalance {l : Ledger} {name : AccountName} {a : AccountObject}
    {required : Asset} {u : Unit} (ha : l.getAccount name = .ok a)
    (h : l.checkBalance a required = .ok u) :
    required.amount ≤ l.mainBalance name required.symbol := by
  simp only [checkBalance, bind_eq_ok, ensure_eq_ok] at h
  obtain ⟨exist, hexist, hle⟩ := h
  rwa [← mainBalance_eq_of_getBalance ha hexist]

/-- `adjust_balance` succeeds for an existing account and symbol while the balance fits. -/
theorem adjustBalance_of_le {l : Ledger} {name : AccountName} {delta : Asset}
    (haccount : (l.accounts.find? name).isSome) (hsymbol : l.Holdable delta.symbol)
    (hmin : minInt64 ≤ l.mainBalance name delta.symbol + delta.amount)
    (hmax : l.mainBalance name delta.symbol + delta.amount ≤ maxInt64) :
    ∃ l', l.adjustBalance name delta = .ok l' := by
  obtain ⟨a, hget, ha⟩ := getAccount_of_isSome haccount
  unfold adjustBalance
  rw [hget, ok_bind]
  by_cases hsteem : delta.symbol = steemSymbol
  . simp only [mainBalance, hsteem, ha, ↓reduceIte] at hmin hmax
    simp [hsteem, add64_of_le hmin hmax]
  . by_cases hsbd : delta.symbol = sbdSymbol
    . simp only [mainBalance, hsbd, ha, sbdSymbol_ne_steemSymbol, ↓reduceIte] at hmin hmax
      simp [sbdSymbol_ne_steemSymbol, hsbd, add64_of_le hmin hmax]
    . simp only [mainBalance, hsteem, hsbd, ↓reduceIte] at hmin hmax
      simp only [hsteem, hsbd, ↓reduceIte]
      unfold adjustAccountBalance
      split
      . next o ho =>
        simp only [ho] at hmin hmax
        simp [add64_of_le hmin hmax]
      . next hnone =>
        have : (l.assets.find? delta.symbol).isSome := by
          rcases hsymbol with h | h | h
          . exact absurd h hsteem
          . exact absurd h hsbd
          . exact h
        simp [ensure, this]

theorem adjustNftHoldBalance_of_le {l : Ledger} {name : AccountName} {delta : ℤ}
    (haccount : (l.accounts.find? name).isSome)
    (hmin : minInt64 ≤ l.nftHold name + delta) (hmax : l.nftHold name + delta ≤ maxInt64) :
    ∃ l', l.adjustNftHoldBalance name delta = .ok l' := by
  obtain ⟨a, hget, ha⟩ := getAccount_of_isSome haccount
  simp only [nftHold, ha] at hmin hmax
  unfold adjustNftHoldBalance
  rw [hget]
  simp [add64_of_le hmin hmax]

/-- Where no balance is negative, no balance is above the total. -/
theorem mainBalance_le_totalBalance {l : Ledger} (h : ∀ a s, 0 ≤ l.mainBalance a s)
    (name : AccountName) (symbol : AssetSymbolType) :
    l.mainBalance name symbol ≤ l.totalBalance symbol := by
  have hsteem : ∀ a ∈ l.accounts.rows, 0 ≤ a.balance := by
    intro a ha
    have := h a.name steemSymbol
    simpa [mainBalance, Table.find?_of_mem ha] using this
  have hsbd : ∀ a ∈ l.accounts.rows, 0 ≤ a.sbdBalance := by
    intro a ha
    have := h a.name sbdSymbol
    simpa [mainBalance, sbdSymbol_ne_steemSymbol, Table.find?_of_mem ha] using this
  by_cases h₁ : symbol = steemSymbol
  . simp only [mainBalance, totalBalance, h₁, ↓reduceIte]
    split
    . next a ha => exact Table.le_sum _ hsteem (Table.mem_of_find? ha)
    . exact Table.sum_nonneg _ hsteem
  . by_cases h₂ : symbol = sbdSymbol
    . simp only [mainBalance, totalBalance, h₂, sbdSymbol_ne_steemSymbol, ↓reduceIte]
      split
      . next a ha => exact Table.le_sum _ hsbd (Table.mem_of_find? ha)
      . exact Table.sum_nonneg _ hsbd
    . have hasset : ∀ o ∈ l.accountBalances.rows,
          0 ≤ if o.symbol = symbol then o.balance else 0 := by
        intro o ho
        split
        . next heq =>
          have := h o.account symbol
          have hfind := Table.find?_of_mem ho
          simp only [AccountBalanceObject.bySymbolAccount, heq] at hfind
          simpa [mainBalance, h₁, h₂, hfind] using this
        . exact le_rfl
      simp only [mainBalance, totalBalance, h₁, h₂, ↓reduceIte]
      split
      . next o ho =>
        have hkey := Table.key_of_find? ho
        simp only [AccountBalanceObject.bySymbolAccount, Prod.mk.injEq] at hkey
        have := Table.le_sum _ hasset (Table.mem_of_find? ho)
        simpa [hkey.1] using this
      . exact Table.sum_nonneg _ hasset

/-- A payment succeeds while the total still fits. -/
theorem adjustBalance_of_total_le {l : Ledger} {name : AccountName} {delta : Asset}
    (haccount : (l.accounts.find? name).isSome) (hsymbol : l.Holdable delta.symbol)
    (hnonneg : ∀ a s, 0 ≤ l.mainBalance a s) (hdelta : 0 ≤ delta.amount)
    (htotal : l.totalBalance delta.symbol + delta.amount ≤ maxInt64) :
    ∃ l', l.adjustBalance name delta = .ok l' := by
  have hbalance := hnonneg name delta.symbol
  have hle := mainBalance_le_totalBalance hnonneg name delta.symbol
  apply adjustBalance_of_le haccount hsymbol
  . unfold minInt64
    omega
  . omega

end Ledger
end Golos
