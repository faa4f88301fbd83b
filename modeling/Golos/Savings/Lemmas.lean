import Golos.Ledger.Lemmas
import Golos.Savings.Impl

/-!
This module contains what each function does to savings, to their counters and to the requests.
-/

namespace Golos

open Checked Ledger

namespace SavingsAccountObject

/-- What there is in the savings. -/
def saved (a : SavingsAccountObject) (symbol : AssetSymbolType) : ℤ :=
  if symbol = steemSymbol then
    a.savingsBalance
  else if symbol = sbdSymbol then
    a.savingsSbdBalance
  else
    0

/-- What `adjust_savings_balance` makes of an account. -/
def credit (now : Nat) (delta : Asset) (a : SavingsAccountObject) : SavingsAccountObject :=
  if delta.symbol = steemSymbol then
    { a with savingsBalance := a.savingsBalance + delta.amount }
  else
    { a.update now with savingsSbdBalance := a.savingsSbdBalance + delta.amount }

@[simp]
theorem name_credit (now : Nat) (delta : Asset) (a : SavingsAccountObject) :
    (a.credit now delta).name = a.name := by
  unfold credit
  split
  . rfl
  . rfl

@[simp]
theorem savingsWithdrawRequests_credit (now : Nat) (delta : Asset) (a : SavingsAccountObject) :
    (a.credit now delta).savingsWithdrawRequests = a.savingsWithdrawRequests := by
  unfold credit
  split
  . rfl
  . rfl

theorem saved_credit {delta : Asset} (hsymbol : delta.symbol = steemSymbol ∨ delta.symbol = sbdSymbol)
    (now : Nat) (a : SavingsAccountObject) (symbol : AssetSymbolType) :
    (a.credit now delta).saved symbol = a.saved symbol + inSymbol delta symbol := by
  have hne := sbdSymbol_ne_steemSymbol
  unfold credit saved inSymbol
  rcases hsymbol with h | h
  . by_cases hs : symbol = steemSymbol
    . simp [hs, h]
    . simp [hs, h]
  . by_cases hs : symbol = sbdSymbol
    . simp [hs, h, hne, update]
    . by_cases hs' : symbol = steemSymbol
      . simp [hs', h, hne, hne.symm, update]
      . simp [hs, hs', h]

end SavingsAccountObject

namespace SavingsDatabase

variable {db db' db'' : SavingsDatabase}

def counter (db : SavingsDatabase) (name : AccountName) : Option UInt8 :=
  (db.accounts.find? name).map SavingsAccountObject.savingsWithdrawRequests

def saved (db : SavingsDatabase) (name : AccountName) (symbol : AssetSymbolType) : ℤ :=
  ((db.accounts.find? name).map fun a => a.saved symbol).getD 0

theorem getAccount_eq_ok {name : AccountName} {a : SavingsAccountObject} :
    db.getAccount name = .ok a ↔ db.accounts.find? name = some a := by
  simp [getAccount]

theorem modifyAccount_congr {name : AccountName} {a : SavingsAccountObject}
    {f g : SavingsAccountObject → SavingsAccountObject} (hf : ∀ a, (f a).name = a.name)
    (hg : ∀ a, (g a).name = a.name) (ha : db.accounts.find? name = some a) (h : f a = g a) :
    db.modifyAccount name f hf = db.modifyAccount name g hg := by
  unfold modifyAccount
  congr 1
  exact Table.modify_congr hf hg ha h

section spec

theorem adjustBalance_cases {name : AccountName} {delta : Asset}
    (h : db.adjustBalance name delta = .ok db') :
    Moves db.ledger db'.ledger (single name delta) (fun _ => 0) (inSymbol delta) ∧
      db' = { db with ledger := db'.ledger } := by
  simp only [adjustBalance, bind_eq_ok, pure_eq_ok] at h
  obtain ⟨ledger, hadjust, rfl⟩ := h
  exact ⟨moves_adjustBalance hadjust, rfl⟩

theorem adjustSavingsBalance_cases {name : AccountName} {delta : Asset}
    (h : db.adjustSavingsBalance name delta = .ok db') :
    (∃ a, db.accounts.find? name = some a ∧
      (delta.symbol = sbdSymbol → a.savingsSbdBalance ≤ maxInt64 →
        a.savingsSbdBalance + delta.amount ≤ maxInt64)) ∧
      (delta.symbol = steemSymbol ∨ delta.symbol = sbdSymbol) ∧
      db' = db.modifyAccount name (SavingsAccountObject.credit db.headBlockTime delta)
        (SavingsAccountObject.name_credit _ _) := by
  simp only [adjustSavingsBalance, bind_eq_ok, getAccount_eq_ok] at h
  obtain ⟨a, ha, h⟩ := h
  split at h
  . next hsteem =>
    simp only [bind_eq_ok, pure_eq_ok] at h
    obtain ⟨balance, hadd, rfl⟩ := h
    refine ⟨⟨a, ha, fun hsbd => absurd (hsbd.symm.trans hsteem) sbdSymbol_ne_steemSymbol⟩,
      .inl hsteem, ?_⟩
    apply modifyAccount_congr _ _ ha
    unfold SavingsAccountObject.credit
    rw [if_pos hsteem, eq_of_add64_eq_ok hadd]
  . next hsteem =>
    split at h
    . next hsbd =>
      simp only [bind_eq_ok, pure_eq_ok] at h
      obtain ⟨balance, hadd, rfl⟩ := h
      have hle : a.savingsSbdBalance ≤ maxInt64 → a.savingsSbdBalance + delta.amount ≤ maxInt64 :=
        fun hle => eq_of_add64_eq_ok hadd ▸ le_maxInt64_of_add64_eq_ok hle hadd
      refine ⟨⟨a, ha, fun _ => hle⟩, .inr hsbd, ?_⟩
      apply modifyAccount_congr _ _ ha
      unfold SavingsAccountObject.credit
      rw [if_neg hsteem, eq_of_add64_eq_ok hadd]
    . simp at h

/-- The savings change by `f`. Nothing else differs but when they were last updated. -/
structure Saves (db db' : SavingsDatabase) (f : AccountName → AssetSymbolType → ℤ) : Prop where
  frame : db' = { db with accounts := db'.accounts }
  counter : ∀ name, db'.counter name = db.counter name
  saved : ∀ name s, db'.saved name s = db.saved name s + f name s

theorem saves_adjustSavingsBalance {name : AccountName} {delta : Asset}
    (h : db.adjustSavingsBalance name delta = .ok db') : Saves db db' (single name delta) := by
  obtain ⟨⟨a, ha, _⟩, hsymbol, rfl⟩ := adjustSavingsBalance_cases h
  refine ⟨rfl, ?_, ?_⟩
  . intro name'
    unfold counter modifyAccount
    rw [Table.find?_modify]
    split
    . next heq => simp [heq, ha]
    . rfl
  . intro name' s
    unfold saved modifyAccount single
    rw [Table.find?_modify]
    split
    . next heq =>
      simp [heq, ha, SavingsAccountObject.saved_credit hsymbol, inSymbol]
    . next hne => simp [hne]

end spec

/-- The requests and their counters are the same. -/
structure SameRequests (db db' : SavingsDatabase) : Prop where
  frame : db' = { db with ledger := db'.ledger, accounts := db'.accounts }
  counter : ∀ name, db'.counter name = db.counter name

section sameRequests

theorem SameRequests.refl (db : SavingsDatabase) : SameRequests db db :=
  ⟨rfl, fun _ => rfl⟩

theorem SameRequests.trans (h : SameRequests db db') (h' : SameRequests db' db'') :
    SameRequests db db'' where
  frame := by
    rw [h'.frame, h.frame]
  counter := by
    intro name
    rw [h'.counter, h.counter]

theorem Saves.sameRequests {f : AccountName → AssetSymbolType → ℤ} (h : Saves db db' f) :
    SameRequests db db' where
  frame := by
    rw [h.frame]
  counter := h.counter

theorem sameRequests_adjustBalance {name : AccountName} {delta : Asset}
    (h : db.adjustBalance name delta = .ok db') : SameRequests db db' := by
  have hframe := (adjustBalance_cases h).2
  constructor
  . rw [hframe]
  . intro name
    rw [hframe]
    rfl

theorem sameRequests_modifyAccount {name : AccountName}
    {f : SavingsAccountObject → SavingsAccountObject} (hf : ∀ a, (f a).name = a.name)
    (h : ∀ a, (f a).savingsWithdrawRequests = a.savingsWithdrawRequests) :
    SameRequests db (db.modifyAccount name f hf) where
  frame := rfl
  counter := by
    intro name'
    unfold counter modifyAccount
    rw [Table.find?_modify]
    split
    . cases db.accounts.find? name' with
      | none => rfl
      | some a => exact congrArg some (h a)
    . rfl

/-- A loop whose turns leave the requests alone does so. -/
theorem sameRequests_foldlM {γ : Type} {f : SavingsDatabase → γ → Result SavingsDatabase}
    (hf : ∀ db c db', f db c = .ok db' → SameRequests db db') {l : List γ}
    (h : l.foldlM f db = .ok db') : SameRequests db db' := by
  apply foldlM_invariant (P := fun d _ => SameRequests db d) _ (.refl db) h
  intro d d' c _ hd hturn
  exact hd.trans (hf d c d' hturn)

theorem sameRequests_transferToSavings {o : TransferToSavingsOperation}
    (h : db.transferToSavings o = .ok db') : SameRequests db db' := by
  simp only [transferToSavings, bind_eq_ok] at h
  obtain ⟨_, _, _, _, _, _, _, _, _, _, db₁, hpay, hsave⟩ := h
  exact (sameRequests_adjustBalance hpay).trans (saves_adjustSavingsBalance hsave).sameRequests

theorem clearSavings_cases {amount : Asset} (h : db.clearSavings amount = .ok db') :
    db' = db ∨
      db.adjustSavingsBalance nullAccount ⟨-amount.amount, amount.symbol⟩ = .ok db' := by
  unfold clearSavings at h
  split at h
  . simp only [bind_eq_ok, Asset.neg_eq_ok] at h
    obtain ⟨_, ⟨_, rfl⟩, h⟩ := h
    exact .inr h
  . cases h
    exact .inl rfl

theorem sameRequests_clearNullSavings (h : db.clearNullSavings = .ok db') :
    SameRequests db db' := by
  have hclear : ∀ {d d' : SavingsDatabase} {amount : Asset}, d.clearSavings amount = .ok d' →
      SameRequests d d' := by
    intro d d' amount h
    rcases clearSavings_cases h with rfl | h
    . exact .refl d'
    . exact (saves_adjustSavingsBalance h).sameRequests
  simp only [clearNullSavings, bind_eq_ok] at h
  obtain ⟨_, _, db₁, hsteem, hsbd⟩ := h
  exact (hclear hsteem).trans (hclear hsbd)

theorem sameRequests_convertAccount {name : AccountName} (h : db.convertAccount name = .ok db') :
    SameRequests db db' := by
  simp only [convertAccount, bind_eq_ok] at h
  obtain ⟨sbd, _, savingsSbd, _, db₁, hliquid, hsavings⟩ := h
  have hliquid : SameRequests db db₁ := by
    unfold convertLiquid at hliquid
    split at hliquid
    . simp only [bind_eq_ok] at hliquid
      obtain ⟨steem, _, delta, _, db₂, hsbd, hsteem⟩ := hliquid
      exact (sameRequests_adjustBalance hsbd).trans (sameRequests_adjustBalance hsteem)
    . cases hliquid
      exact .refl _
  have hsavings : SameRequests db₁ db' := by
    unfold convertSavings at hsavings
    split at hsavings
    . simp only [bind_eq_ok] at hsavings
      obtain ⟨steem, _, delta, _, db₂, hsbd, hsteem⟩ := hsavings
      exact (saves_adjustSavingsBalance hsbd).sameRequests.trans
        (saves_adjustSavingsBalance hsteem).sameRequests
    . cases hsavings
      exact .refl _
  exact hliquid.trans hsavings

theorem sameRequests_payAccount {name : AccountName} (h : db.payAccount name = .ok db') :
    SameRequests db db' := by
  simp only [payAccount, bind_eq_ok] at h
  obtain ⟨a, _, h⟩ := h
  split at h
  . cases h
    exact .refl db
  . simp only [paySavingsInterest, bind_eq_ok] at h
    obtain ⟨a, _, h⟩ := h
    split at h
    . cases h
      exact .refl db
    . simp only [bind_eq_ok, pure_eq_ok] at h
      obtain ⟨_, _, _, _, _, _, _, _, _, _, rfl⟩ := h
      refine .trans ?_ (sameRequests_modifyAccount _ fun _ => rfl)
      exact ⟨rfl, fun _ => rfl⟩

theorem sameRequests_accrueAll (db : SavingsDatabase) : SameRequests db db.accrueAll := by
  have hfold : ∀ (l : List AccountName) (d : SavingsDatabase),
      SameRequests d (l.foldl accrueAccount d) := by
    intro l
    induction l with
    | nil => exact .refl
    | cons name l ih =>
      intro d
      refine .trans ?_ (ih _)
      exact sameRequests_modifyAccount (f := SavingsAccountObject.accrue d.headBlockTime)
        (fun _ => rfl) fun _ => rfl
  exact hfold _ db

theorem sameRequests_processGbgPayments (h : db.processGbgPayments = .ok db') :
    SameRequests db db' := by
  unfold processGbgPayments at h
  split at h
  . cases h
    exact .refl db
  . exact (sameRequests_accrueAll db).trans
      (sameRequests_foldlM (fun _ _ _ => sameRequests_payAccount) h)

end sameRequests

end SavingsDatabase

end Golos
