import Golos.Savings.Accrual

/-!
This module contains the interest on savings: what an account is paid, and that neither the order of
the accounts nor the time of the last update has to do with it.
-/

namespace Golos

open Checked Ledger

/-- An account after the first loop of `process_gbg_payments`. -/
def SavingsAccountObject.broughtUp (now : Nat) (a : SavingsAccountObject) : SavingsAccountObject :=
  if 0 < a.savingsSbdBalance then a.accrue now else a

theorem SavingsAccountObject.name_broughtUp (now : Nat) (a : SavingsAccountObject) :
    (a.broughtUp now).name = a.name := by
  unfold broughtUp
  split
  . rfl
  . rfl

namespace SavingsDatabase

variable {db db' : SavingsDatabase}

section accrual

theorem foldl_accrueAccount {l : List AccountName} (hl : l.Nodup) (db : SavingsDatabase) :
    l.foldl accrueAccount db =
      { db with
        accounts := db.accounts.modifyWhere (fun a => a.name ∈ l)
          (SavingsAccountObject.accrue db.headBlockTime) fun _ => rfl } := by
  have hfold : ∀ d : SavingsDatabase, d.headBlockTime = db.headBlockTime →
      l.foldl accrueAccount d =
        { d with
          accounts := l.foldl (fun t name =>
            t.modify name (SavingsAccountObject.accrue db.headBlockTime) fun _ => rfl) d.accounts } := by
    clear hl
    induction l with
    | nil => exact fun _ _ => rfl
    | cons name l ih =>
      intro d htime
      rw [List.foldl_cons, List.foldl_cons, ih (d.accrueAccount name) htime]
      unfold accrueAccount modifyAccount
      rw [htime]
  rw [hfold db rfl]
  congr 1
  exact Table.foldl_modify db.accounts (SavingsAccountObject.accrue db.headBlockTime)
    (fun _ => rfl) hl

theorem bySavings_perm (db : SavingsDatabase) :
    db.bySavings.Perm ((db.accounts.rows.filter fun a => 0 < a.savingsSbdBalance).map
      SavingsAccountObject.name) :=
  (List.takeWhile_insertionSort_perm SavingsAccountObject.savingsSbdBalance _).map _

theorem bySavingsSeconds_perm (db : SavingsDatabase) :
    db.bySavingsSeconds.Perm ((db.accounts.rows.filter fun a => 0 < a.savingsSbdSeconds).map
      SavingsAccountObject.name) :=
  (List.takeWhile_insertionSort_perm SavingsAccountObject.savingsSbdSeconds _).map _

theorem nodup_of_perm {l : List AccountName} {p : SavingsAccountObject → Bool}
    (h : l.Perm ((db.accounts.rows.filter p).map SavingsAccountObject.name)) : l.Nodup :=
  h.nodup_iff.mpr (db.accounts.nodup.sublist (List.filter_sublist.map _))

/-- All accounts are brought up. -/
def broughtUpAll (db : SavingsDatabase) : SavingsDatabase :=
  { db with
    accounts := db.accounts.modifyWhere (fun _ => true)
      (SavingsAccountObject.broughtUp db.headBlockTime) (SavingsAccountObject.name_broughtUp _) }

theorem find?_broughtUpAll (db : SavingsDatabase) (name : AccountName) :
    db.broughtUpAll.accounts.find? name =
      (db.accounts.find? name).map (SavingsAccountObject.broughtUp db.headBlockTime) :=
  Table.find?_modifyWhere db.accounts (fun _ => true)
    (SavingsAccountObject.broughtUp db.headBlockTime) (SavingsAccountObject.name_broughtUp _) name

/-- The whole first loop, over the accounts in whatever order. -/
theorem foldl_accrueAccount_perm {l : List AccountName} (hl : l.Perm db.bySavings) :
    l.foldl accrueAccount db = db.broughtUpAll := by
  have hperm := hl.trans db.bySavings_perm
  rw [foldl_accrueAccount (nodup_of_perm hperm)]
  congr 1
  apply Table.ext_rows
  apply List.map_congr_left
  intro a ha
  have hmem : a.name ∈ l ↔ 0 < a.savingsSbdBalance := by
    rw [hperm.mem_iff, List.mem_map]
    constructor
    . rintro ⟨b, hb, hname⟩
      obtain ⟨hb, hpos⟩ := List.mem_filter.mp hb
      rw [← db.accounts.mem_rows_inj hb ha hname]
      exact of_decide_eq_true hpos
    . intro hpos
      exact ⟨a, List.mem_filter.mpr ⟨ha, decide_eq_true hpos⟩, rfl⟩
  unfold SavingsAccountObject.broughtUp
  simp only [hmem, decide_eq_true_eq, if_true]

end accrual

section payments

variable (db)

/-- An account whose turn it is to be paid. -/
def Pays (a : SavingsAccountObject) : Prop :=
  a.savingsSbdSeconds ≠ 0 ∧ db.isForcedMinPrice = false ∧ db.minGpToEmission ≤ a.vestingShares

instance (a : SavingsAccountObject) : Decidable (db.Pays a) :=
  inferInstanceAs (Decidable (_ ∧ _))

/-- The GBG that an account is paid. -/
def interestOf (a : SavingsAccountObject) : ℤ :=
  if db.Pays a then a.interest db.sbdInterestRate else 0

/-- What this is worth in GOLOS. -/
def worthOf (a : SavingsAccountObject) : ℤ :=
  if db.Pays a then db.ledger.currentMedianHistory.worth (a.interest db.sbdInterestRate) else 0

/-- An account after its turn. -/
def settle (a : SavingsAccountObject) : SavingsAccountObject :=
  if db.Pays a then
    { a with
      savingsSbdBalance := a.savingsSbdBalance + a.interest db.sbdInterestRate
      savingsSbdSeconds := 0
      savingsSbdLastInterestPayment := db.headBlockTime
      savingsSbdIntegral := 0 }
  else
    a

theorem name_settle (a : SavingsAccountObject) : (db.settle a).name = a.name := by
  unfold settle
  split
  . rfl
  . rfl

/-- The supplies with some interest. -/
def addInterest (interest worth : ℤ) : SavingsDatabase :=
  { db with
    ledger :=
      { db.ledger with
        currentSbdSupply := db.ledger.currentSbdSupply + interest
        virtualSupply := db.ledger.virtualSupply + worth } }

/-- What is there after the turn of an account. -/
def turn (name : AccountName) (a : SavingsAccountObject) : SavingsDatabase :=
  (db.addInterest (db.interestOf a) (db.worthOf a)).modifyAccount name db.settle db.name_settle

variable {db}

/-- There is room for the interest of an account. -/
def Fits (db : SavingsDatabase) (a : SavingsAccountObject) : Prop :=
  (a.interest db.sbdInterestRate : ℤ) ≤ maxInt64 ∧
    db.ledger.currentMedianHistory.worth (a.interest db.sbdInterestRate) ≤ maxInt64

theorem interestOf_nonneg (a : SavingsAccountObject) : 0 ≤ db.interestOf a := by
  unfold interestOf
  split
  . exact Int.natCast_nonneg _
  . exact le_rfl

theorem worthOf_nonneg (hprice : db.ledger.currentMedianHistory.IsFeed) (a : SavingsAccountObject) :
    0 ≤ db.worthOf a := by
  unfold worthOf
  split
  . exact hprice.worth_nonneg (Int.natCast_nonneg _)
  . exact le_rfl

theorem add64_eq_ok_iff {x d y : ℤ} {e : ChainException} (hx : minInt64 ≤ x ∧ x ≤ maxInt64) (hd : 0 ≤ d) :
    add64 x d e = .ok y ↔ x + d ≤ maxInt64 ∧ y = x + d := by
  constructor
  . intro h
    have hy := eq_of_add64_eq_ok h
    exact ⟨hy ▸ le_maxInt64_of_add64_eq_ok hx.2 h, hy⟩
  . rintro ⟨hle, rfl⟩
    exact add64_of_le (hx.1.trans (by omega)) hle

theorem payAccount_of_not_pays {name : AccountName} {a : SavingsAccountObject}
    (ha : db.accounts.find? name = some a) (hpays : ¬db.Pays a) : db.payAccount name = .ok db := by
  have hget : db.getAccount name = .ok a := getAccount_eq_ok.mpr ha
  unfold payAccount
  rw [hget, ok_bind]
  split
  . rfl
  . next hmin =>
    unfold paySavingsInterest
    rw [hget, ok_bind, if_pos]
    . rfl
    . by_contra hnot
      simp only [not_or, Bool.not_eq_true] at hnot
      exact hpays ⟨hnot.1, hnot.2, not_lt.mp hmin⟩

/-- The whole turn of an account in the second loop. -/
theorem payAccount_eq_ok (hvoted : db.Voted) (hprice : db.ledger.currentMedianHistory.IsFeed)
    {name : AccountName} {a : SavingsAccountObject} (ha : db.accounts.find? name = some a)
    (haccrued : 0 ≤ a.savingsSbdBalance ∧ a.savingsSbdBalance ≤ maxInt64)
    (hfits : db.Pays a → db.Fits a) :
    db.payAccount name = .ok db' ↔
      (a.savingsSbdBalance + db.interestOf a ≤ maxInt64 ∧
        db.ledger.currentSbdSupply + db.interestOf a ≤ maxInt64 ∧
        db.ledger.virtualSupply + db.worthOf a ≤ maxInt64) ∧
      db' = db.turn name a := by
  by_cases hpays : db.Pays a
  . obtain ⟨hinterest, hworth⟩ := hfits hpays
    have hget : db.getAccount name = .ok a := getAccount_eq_ok.mpr ha
    have hof : ofUint128 (a.interest db.sbdInterestRate) =
        .ok (a.interest db.sbdInterestRate : ℤ) := by
      have := ofUint128_of_le (Int.natCast_nonneg (a.interest db.sbdInterestRate)) hinterest
      rwa [Int.toNat_natCast] at this
    have hi : db.interestOf a = a.interest db.sbdInterestRate := if_pos hpays
    have hw : db.worthOf a = db.ledger.currentMedianHistory.worth _ := if_pos hpays
    have hworth_nonneg := hprice.worth_nonneg (Int.natCast_nonneg (a.interest db.sbdInterestRate))
    have hsettle : db.settle a = _ := if_pos hpays
    have hseconds : ¬(a.savingsSbdSeconds = 0 ∨ db.isForcedMinPrice = true) := by
      simp [hpays.1, hpays.2.1]
    have hbalance : minInt64 ≤ a.savingsSbdBalance ∧ a.savingsSbdBalance ≤ maxInt64 :=
      ⟨le_trans (by decide) haccrued.1, haccrued.2⟩
    unfold payAccount paySavingsInterest turn
    rw [hget, ok_bind, if_neg (not_lt.mpr hpays.2.2), ok_bind, if_neg hseconds, hof, ok_bind, hi, hw]
    simp only [bind_eq_ok, pure_eq_ok, add64_eq_ok_iff hbalance (Int.natCast_nonneg _),
      add64_eq_ok_iff hvoted.currentSbdSupply (Int.natCast_nonneg _),
      hprice.mulPrice_sbd (Int.natCast_nonneg _) hinterest, ofUint128_of_le hworth_nonneg hworth,
      Asset.add_eq_ok]
    constructor
    . rintro ⟨_, ⟨hle, rfl⟩, _, ⟨hle', rfl⟩, steem, ⟨hsteem, _⟩, _, ⟨_, hrange, rfl⟩, rfl⟩
      obtain hsteem := Except.ok.inj hsteem
      rw [← hsteem] at hrange ⊢
      refine ⟨⟨hle, hle', hrange.2⟩, ?_⟩
      exact modifyAccount_congr _ _ ha hsettle.symm
    . rintro ⟨⟨hle, hle', hle''⟩, rfl⟩
      refine ⟨_, ⟨hle, rfl⟩, _, ⟨hle', rfl⟩, ⟨_, steemSymbol⟩, ⟨rfl, rfl⟩, _,
        ⟨rfl, ⟨?_, hle''⟩, rfl⟩, ?_⟩
      . exact hvoted.virtualSupply.1.trans (le_add_of_nonneg_right hworth_nonneg)
      . symm
        exact modifyAccount_congr _ _ ha hsettle
  . have hi : db.interestOf a = 0 := if_neg hpays
    have hw : db.worthOf a = 0 := if_neg hpays
    have hsame : db.turn name a = db := by
      have hzero : db.addInterest 0 0 = db := by
        unfold addInterest
        rw [Int.add_zero, Int.add_zero]
      have hsettle : db.settle a = a := if_neg hpays
      unfold turn modifyAccount
      rw [hi, hw, hzero, Table.modify_eq_self _ ha hsettle]
    rw [payAccount_of_not_pays ha hpays, hi, hw, hsame, Int.add_zero, Int.add_zero, Int.add_zero]
    constructor
    . intro h
      exact ⟨⟨haccrued.2, hvoted.currentSbdSupply.2, hvoted.virtualSupply.2⟩,
        (Except.ok.inj h).symm⟩
    . rintro ⟨_, rfl⟩
      rfl

/-- Without a price there is no interest. -/
theorem payAccount_of_isNull (hnull : db.ledger.currentMedianHistory.isNull) {name : AccountName}
    {a : SavingsAccountObject} (ha : db.accounts.find? name = some a)
    (h : db.payAccount name = .ok db') : ¬db.Pays a := by
  intro hpays
  have hseconds : ¬(a.savingsSbdSeconds = 0 ∨ db.isForcedMinPrice = true) := by
    simp [hpays.1, hpays.2.1]
  have hget : db.getAccount name = .ok a := getAccount_eq_ok.mpr ha
  unfold payAccount paySavingsInterest at h
  rw [hget, ok_bind, if_neg (not_lt.mpr hpays.2.2), ok_bind, if_neg hseconds] at h
  simp only [bind_eq_ok] at h
  obtain ⟨interest, _, _, _, _, _, steem, hsteem, _⟩ := h
  have hbase : db.ledger.currentMedianHistory.base.symbol = steemSymbol := hnull.1
  have hquote : db.ledger.currentMedianHistory.quote.symbol = steemSymbol := hnull.2.1
  have hname : symbolName sbdSymbol ≠ symbolName steemSymbol := by decide
  unfold Asset.mulPrice at hsteem
  rw [hbase, hquote, if_neg hname, if_neg hname] at hsteem
  cases hsteem

/-- The sum of `f` over the accounts with some names. -/
def sumOver (db : SavingsDatabase) (f : SavingsAccountObject → ℤ) (l : List AccountName) : ℤ :=
  (l.map fun name => ((db.accounts.find? name).map f).getD 0).sum

theorem sumOver_nonneg {f : SavingsAccountObject → ℤ} (hf : ∀ a, 0 ≤ f a) (l : List AccountName) :
    0 ≤ db.sumOver f l := by
  apply List.sum_nonneg
  intro x hx
  obtain ⟨name, _, rfl⟩ := List.mem_map.mp hx
  cases db.accounts.find? name with
  | none => exact le_rfl
  | some a => exact hf a

theorem sumOver_cons {f : SavingsAccountObject → ℤ} {name : AccountName} {a : SavingsAccountObject}
    (ha : db.accounts.find? name = some a) (l : List AccountName) :
    db.sumOver f (name :: l) = f a + db.sumOver f l := by
  unfold sumOver
  rw [List.map_cons, List.sum_cons, ha]
  rfl

theorem sumOver_congr {f : SavingsAccountObject → ℤ} {l : List AccountName}
    (h : ∀ name ∈ l, db'.accounts.find? name = db.accounts.find? name) :
    db'.sumOver f l = db.sumOver f l := by
  unfold sumOver
  rw [List.map_congr_left fun name hname => by rw [h name hname]]

/-- All is paid, and the accounts with these names have had their turns. -/
def settleAll (db : SavingsDatabase) (l : List AccountName) : SavingsDatabase :=
  { db.addInterest (db.sumOver db.interestOf l) (db.sumOver db.worthOf l) with
    accounts := db.accounts.modifyWhere (fun a => a.name ∈ l) db.settle db.name_settle }

theorem mem_settleAll {l : List AccountName} {b : SavingsAccountObject} :
    b ∈ (db.settleAll l).accounts.rows ↔
      ∃ a ∈ db.accounts.rows, (if a.name ∈ l then db.settle a else a) = b := by
  simp [settleAll, Table.modifyWhere]

/-- There is room for all of it. -/
structure FitsAll (db : SavingsDatabase) (l : List AccountName) : Prop where
  balance : ∀ name ∈ l, ∀ a, db.accounts.find? name = some a →
    a.savingsSbdBalance + db.interestOf a ≤ maxInt64
  currentSbdSupply : db.ledger.currentSbdSupply + db.sumOver db.interestOf l ≤ maxInt64
  virtualSupply : db.ledger.virtualSupply + db.sumOver db.worthOf l ≤ maxInt64

theorem FitsAll.perm {l l' : List AccountName} (hperm : l.Perm l') (h : db.FitsAll l) :
    db.FitsAll l' where
  balance name hname := h.balance name (hperm.mem_iff.mpr hname)
  currentSbdSupply := by
    have := h.currentSbdSupply
    unfold sumOver at this ⊢
    rwa [(hperm.map _).sum_eq] at this
  virtualSupply := by
    have := h.virtualSupply
    unfold sumOver at this ⊢
    rwa [(hperm.map _).sum_eq] at this

theorem settleAll_perm {l l' : List AccountName} (hperm : l.Perm l') :
    db.settleAll l = db.settleAll l' := by
  unfold settleAll sumOver
  rw [(hperm.map _).sum_eq, (hperm.map _).sum_eq]
  simp only [hperm.mem_iff]

/-- What the loop needs to know of an account. -/
def Ready (db : SavingsDatabase) (name : AccountName) : Prop :=
  ∃ a, db.accounts.find? name = some a ∧
    (0 ≤ a.savingsSbdBalance ∧ a.savingsSbdBalance ≤ maxInt64) ∧ (db.Pays a → db.Fits a)

section turn

variable {name : AccountName} {l : List AccountName} (a : SavingsAccountObject) (hname : name ∉ l)

include hname

theorem find?_turn {name' : AccountName} (hmem : name' ∈ l) :
    (db.turn name a).accounts.find? name' = db.accounts.find? name' := by
  refine Table.find?_modify_of_ne _ _ db.name_settle ?_
  rintro rfl
  exact hname hmem

theorem sumOver_turn (f : SavingsAccountObject → ℤ) :
    (db.turn name a).sumOver f l = db.sumOver f l :=
  sumOver_congr fun _ hmem => find?_turn a hname hmem

theorem settleAll_turn (ha : db.accounts.find? name = some a) :
    (db.turn name a).settleAll l = db.settleAll (name :: l) := by
  have hinterest : (db.turn name a).sumOver (db.turn name a).interestOf l =
      db.sumOver db.interestOf l := sumOver_turn a hname _
  have hworth : (db.turn name a).sumOver (db.turn name a).worthOf l = db.sumOver db.worthOf l :=
    sumOver_turn a hname _
  have haccounts := Table.modifyWhere_modify db.accounts db.settle db.name_settle hname
  unfold settleAll
  rw [hinterest, hworth, sumOver_cons ha, sumOver_cons ha, ← haccounts]
  unfold turn addInterest modifyAccount
  dsimp only
  rw [Int.add_assoc, Int.add_assoc]
  rfl

/-- There is room for all if there is for the first and then for the others. -/
theorem fitsAll_cons (ha : db.accounts.find? name = some a)
    (hprice : db.ledger.currentMedianHistory.IsFeed) :
    db.FitsAll (name :: l) ↔ (a.savingsSbdBalance + db.interestOf a ≤ maxInt64 ∧
      db.ledger.currentSbdSupply + db.interestOf a ≤ maxInt64 ∧
      db.ledger.virtualSupply + db.worthOf a ≤ maxInt64) ∧ (db.turn name a).FitsAll l := by
  have hinterest : (db.turn name a).sumOver (db.turn name a).interestOf l =
      db.sumOver db.interestOf l := sumOver_turn a hname _
  have hworth : (db.turn name a).sumOver (db.turn name a).worthOf l = db.sumOver db.worthOf l :=
    sumOver_turn a hname _
  have hinterest_nonneg : 0 ≤ db.sumOver db.interestOf l := sumOver_nonneg interestOf_nonneg l
  have hworth_nonneg : 0 ≤ db.sumOver db.worthOf l := sumOver_nonneg (worthOf_nonneg hprice) l
  have hsbd : (db.turn name a).ledger.currentSbdSupply =
      db.ledger.currentSbdSupply + db.interestOf a := rfl
  have hvirtual : (db.turn name a).ledger.virtualSupply =
      db.ledger.virtualSupply + db.worthOf a := rfl
  constructor
  . rintro ⟨hbalance, hfits, hfits'⟩
    rw [sumOver_cons ha] at hfits hfits'
    refine ⟨⟨hbalance name List.mem_cons_self a ha, by omega, by omega⟩, ?_, ?_, ?_⟩
    . intro name' hmem b hb
      rw [find?_turn a hname hmem] at hb
      exact hbalance name' (List.mem_cons_of_mem name hmem) b hb
    . rw [hinterest, hsbd]
      omega
    . rw [hworth, hvirtual]
      omega
  . rintro ⟨⟨hroom, _, _⟩, hbalance, hfits, hfits'⟩
    rw [hinterest, hsbd] at hfits
    rw [hworth, hvirtual] at hfits'
    refine ⟨?_, ?_, ?_⟩
    . intro name' hmem b hb
      rcases List.mem_cons.mp hmem with rfl | hmem
      . obtain rfl := Option.some.inj (ha.symm.trans hb)
        exact hroom
      . exact hbalance name' hmem b ((find?_turn a hname hmem).trans hb)
    . rw [sumOver_cons ha]
      omega
    . rw [sumOver_cons ha]
      omega

end turn

/-- The whole second loop, over the accounts in whatever order. -/
theorem payAccounts_eq_ok {l : List AccountName} (hl : l.Nodup) (hvoted : db.Voted)
    (hprice : db.ledger.currentMedianHistory.IsFeed) (hready : ∀ name ∈ l, db.Ready name) :
    l.foldlM payAccount db = .ok db' ↔ db.FitsAll l ∧ db' = db.settleAll l := by
  induction l generalizing db with
  | nil =>
    have hsame : db.settleAll [] = db := by
      have haccounts : db.accounts.modifyWhere (fun a => a.name ∈ []) db.settle db.name_settle =
          db.accounts := by
        apply Table.ext_rows
        simp [Table.modifyWhere]
      unfold settleAll sumOver
      rw [haccounts, List.map_nil, List.map_nil, List.sum_nil]
      unfold addInterest
      rw [Int.add_zero, Int.add_zero]
    rw [hsame]
    constructor
    . intro h
      refine ⟨⟨?_, ?_, ?_⟩, (Except.ok.inj h).symm⟩
      . exact fun _ hname => absurd hname List.not_mem_nil
      . rw [sumOver, List.map_nil, List.sum_nil, Int.add_zero]
        exact hvoted.currentSbdSupply.2
      . rw [sumOver, List.map_nil, List.sum_nil, Int.add_zero]
        exact hvoted.virtualSupply.2
    . rintro ⟨_, rfl⟩
      rfl
  | cons name l ih =>
    rw [List.nodup_cons] at hl
    obtain ⟨a, ha, hbalance, hfits⟩ := hready name List.mem_cons_self
    have hi : 0 ≤ db.interestOf a := interestOf_nonneg a
    have hw := worthOf_nonneg hprice a
    have hrest : (a.savingsSbdBalance + db.interestOf a ≤ maxInt64 ∧
        db.ledger.currentSbdSupply + db.interestOf a ≤ maxInt64 ∧
        db.ledger.virtualSupply + db.worthOf a ≤ maxInt64) →
        (l.foldlM payAccount (db.turn name a) = .ok db' ↔
          (db.turn name a).FitsAll l ∧ db' = db.settleAll (name :: l)) := by
      rintro ⟨_, hsbd, hvirtual⟩
      rw [← settleAll_turn a hl.1 ha]
      refine ih hl.2 ?_ hprice ?_
      . refine { hvoted with currentSbdSupply := ⟨?_, hsbd⟩, virtualSupply := ⟨?_, hvirtual⟩ }
        . exact hvoted.currentSbdSupply.1.trans (le_add_of_nonneg_right hi)
        . exact hvoted.virtualSupply.1.trans (le_add_of_nonneg_right hw)
      . intro name' hname'
        obtain ⟨b, hb, hready⟩ := hready name' (List.mem_cons_of_mem name hname')
        exact ⟨b, (find?_turn a hl.1 hname').trans hb, hready⟩
    rw [List.foldlM_cons, bind_eq_ok, fitsAll_cons a hl.1 ha hprice]
    constructor
    . rintro ⟨db₁, hturn, h⟩
      obtain ⟨hroom, rfl⟩ := (payAccount_eq_ok hvoted hprice ha hbalance hfits).mp hturn
      obtain ⟨hfits, rfl⟩ := (hrest hroom).mp h
      exact ⟨⟨hroom, hfits⟩, rfl⟩
    . rintro ⟨⟨hroom, hfits'⟩, rfl⟩
      exact ⟨_, (payAccount_eq_ok hvoted hprice ha hbalance hfits).mpr ⟨hroom, rfl⟩,
        (hrest hroom).mpr ⟨hfits', rfl⟩⟩

theorem settleAll_of_not_pays {l : List AccountName}
    (hnone : ∀ name ∈ l, ∀ a, db.accounts.find? name = some a → ¬db.Pays a) : db.settleAll l = db := by
  have hsum : ∀ f : SavingsAccountObject → ℤ, (∀ a, ¬db.Pays a → f a = 0) → db.sumOver f l = 0 := by
    intro f hf
    apply List.sum_eq_zero
    intro x hx
    obtain ⟨name, hname, rfl⟩ := List.mem_map.mp hx
    cases ha : db.accounts.find? name with
    | none => rfl
    | some a => exact hf a (hnone name hname a ha)
  have haccounts : db.accounts.modifyWhere (fun a => a.name ∈ l) db.settle db.name_settle =
      db.accounts := by
    apply Table.ext_rows
    show db.accounts.rows.map _ = _
    conv_rhs => rw [← List.map_id db.accounts.rows]
    apply List.map_congr_left
    intro a ha
    split
    . next hmem => exact if_neg (hnone a.name (of_decide_eq_true hmem) a (Table.find?_of_mem ha))
    . rfl
  have hinterest : db.sumOver db.interestOf l = 0 := hsum _ fun a ha => if_neg ha
  have hworth : db.sumOver db.worthOf l = 0 := hsum _ fun a ha => if_neg ha
  unfold settleAll
  rw [haccounts, hinterest, hworth]
  unfold addInterest
  rw [Int.add_zero, Int.add_zero]

theorem payAccounts_of_isNull (hnull : db.ledger.currentMedianHistory.isNull) {l : List AccountName}
    (hready : ∀ name ∈ l, db.Ready name) :
    l.foldlM payAccount db = .ok db' ↔
      (∀ name ∈ l, ∀ a, db.accounts.find? name = some a → ¬db.Pays a) ∧ db' = db := by
  induction l with
  | nil =>
    constructor
    . intro h
      exact ⟨fun _ hname => absurd hname List.not_mem_nil, (Except.ok.inj h).symm⟩
    . rintro ⟨_, rfl⟩
      rfl
  | cons name l ih =>
    obtain ⟨a, ha, _⟩ := hready name List.mem_cons_self
    have ih := ih fun name' hname' => hready name' (List.mem_cons_of_mem name hname')
    rw [List.foldlM_cons, bind_eq_ok]
    constructor
    . rintro ⟨db₁, hturn, h⟩
      have hpays := payAccount_of_isNull hnull ha hturn
      rw [payAccount_of_not_pays ha hpays] at hturn
      obtain rfl := Except.ok.inj hturn
      obtain ⟨hnone, rfl⟩ := ih.mp h
      refine ⟨?_, rfl⟩
      intro name' hname' b hb
      rcases List.mem_cons.mp hname' with rfl | hname'
      . rwa [← Option.some.inj (ha.symm.trans hb)]
      . exact hnone name' hname' b hb
    . rintro ⟨hnone, rfl⟩
      refine ⟨db', payAccount_of_not_pays ha (hnone name List.mem_cons_self a ha), ?_⟩
      exact ih.mpr ⟨fun name' hname' => hnone name' (List.mem_cons_of_mem name hname'), rfl⟩

section loop

variable {l : List AccountName} (hl : l.Nodup) (hvoted : db.Voted)
  (hready : ∀ name ∈ l, db.Ready name)

include hl hvoted hready

/-- The order of the accounts does not matter. -/
theorem payAccounts_perm {l' : List AccountName} (hperm : l.Perm l') :
    l.foldlM payAccount db = .ok db' ↔ l'.foldlM payAccount db = .ok db' := by
  have hready' : ∀ name ∈ l', db.Ready name :=
    fun name hname => hready name (hperm.mem_iff.mpr hname)
  rcases hvoted.price with hnull | hprice
  . rw [payAccounts_of_isNull hnull hready, payAccounts_of_isNull hnull hready']
    simp only [hperm.mem_iff]
  . rw [payAccounts_eq_ok hl hvoted hprice hready,
      payAccounts_eq_ok (hperm.nodup_iff.mp hl) hvoted hprice hready', settleAll_perm hperm]
    constructor
    . rintro ⟨hfits, h⟩
      exact ⟨hfits.perm hperm, h⟩
    . rintro ⟨hfits, h⟩
      exact ⟨hfits.perm hperm.symm, h⟩

theorem payAccounts_cases (h : l.foldlM payAccount db = .ok db') :
    db' = db.settleAll l ∧ db'.Voted ∧
      ∀ name ∈ l, ∀ a, db.accounts.find? name = some a →
        a.savingsSbdBalance + db.interestOf a ≤ maxInt64 := by
  rcases hvoted.price with hnull | hprice
  . obtain ⟨hnone, rfl⟩ := (payAccounts_of_isNull hnull hready).mp h
    refine ⟨(settleAll_of_not_pays hnone).symm, hvoted, ?_⟩
    intro name hname a ha
    obtain ⟨b, hb, hbalance, _⟩ := hready name hname
    obtain rfl := Option.some.inj (ha.symm.trans hb)
    have hzero : db'.interestOf a = 0 := if_neg (hnone name hname a ha)
    rw [hzero, Int.add_zero]
    exact hbalance.2
  . obtain ⟨hfits, rfl⟩ := (payAccounts_eq_ok hl hvoted hprice hready).mp h
    refine ⟨rfl, ?_, hfits.balance⟩
    have hsbd : 0 ≤ db.sumOver db.interestOf l := sumOver_nonneg interestOf_nonneg l
    have hvirtual : 0 ≤ db.sumOver db.worthOf l := sumOver_nonneg (worthOf_nonneg hprice) l
    refine { hvoted with
      currentSbdSupply := ⟨?_, hfits.currentSbdSupply⟩
      virtualSupply := ⟨?_, hfits.virtualSupply⟩ }
    . exact hvoted.currentSbdSupply.1.trans (le_add_of_nonneg_right hsbd)
    . exact hvoted.virtualSupply.1.trans (le_add_of_nonneg_right hvirtual)

end loop

end payments

end SavingsDatabase

end Golos
