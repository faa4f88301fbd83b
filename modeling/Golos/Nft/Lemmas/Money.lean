import Golos.Nft.Lemmas.WellFormed

/-!
This module contains the money of the market: what each step does to balances, holds and the
money that orders and bets keep.
-/

namespace Golos
namespace Database

open Checked Ledger

/-- No balance is negative, the supply covers everything, and holds are what orders and bets keep. -/
structure MoneyInv (db : Database) : Prop where
  solvent : db.Solvent
  hold : ∀ name, db.ledger.nftHold name = db.lockedBy name

section payments

@[simp]
theorem inSymbol_minus (p : Asset) (s : AssetSymbolType) : inSymbol (minus p) s = -inSymbol p s := by
  simp only [inSymbol, minus]
  by_cases h : s = p.symbol
  . simp [h]
  . simp [h]

@[simp]
theorem single_minus (name : AccountName) (p : Asset) (a : AccountName) (s : AssetSymbolType) :
    single name (minus p) a s = -single name p a s := by
  simp only [single, minus]
  by_cases h : a = name ∧ s = p.symbol
  . simp [h]
  . simp [h]

theorem single_nonneg {name : AccountName} {p : Asset} (hp : 0 ≤ p.amount) (a : AccountName)
    (s : AssetSymbolType) : 0 ≤ single name p a s := by
  unfold single
  split <;> omega

theorem inSymbol_nonneg {p : Asset} (hp : 0 ≤ p.amount) (s : AssetSymbolType) :
    0 ≤ inSymbol p s := by
  unfold inSymbol
  split <;> omega

theorem single_le_inSymbol {name : AccountName} {p : Asset} (hp : 0 ≤ p.amount) (a : AccountName)
    (s : AssetSymbolType) : single name p a s ≤ inSymbol p s := by
  unfold single inSymbol
  by_cases hs : s = p.symbol
  . by_cases ha : a = name
    . simp [hs, ha]
    . simp [hs, ha, hp]
  . simp [hs]

theorem paid_nonneg {ps : List Payment} (h : ∀ p ∈ ps, 0 ≤ p.2.amount) (a : AccountName)
    (s : AssetSymbolType) : 0 ≤ paid ps a s := by
  induction ps with
  | nil => simp
  | cons p ps ih =>
    rw [paid_cons]
    have := @single_nonneg p.1 _ (h p List.mem_cons_self) a s
    have := ih fun q hq => h q (List.mem_cons_of_mem _ hq)
    omega

theorem paidTotal_nonneg {ps : List Payment} (h : ∀ p ∈ ps, 0 ≤ p.2.amount)
    (s : AssetSymbolType) : 0 ≤ paidTotal ps s := by
  induction ps with
  | nil => simp
  | cons p ps ih =>
    rw [paidTotal_cons]
    have := inSymbol_nonneg (h p List.mem_cons_self) s
    have := ih fun q hq => h q (List.mem_cons_of_mem _ hq)
    omega

theorem paidTotal_le_of_sublist {ps qs : List Payment} (hsub : qs.Sublist ps)
    (h : ∀ p ∈ ps, 0 ≤ p.2.amount) (s : AssetSymbolType) : paidTotal qs s ≤ paidTotal ps s := by
  induction hsub with
  | slnil => exact le_rfl
  | cons p _ ih =>
    rw [paidTotal_cons]
    have := inSymbol_nonneg (h p List.mem_cons_self) s
    have := ih fun q hq => h q (List.mem_cons_of_mem _ hq)
    omega
  | cons_cons p _ ih =>
    rw [paidTotal_cons, paidTotal_cons]
    have := ih fun q hq => h q (List.mem_cons_of_mem _ hq)
    omega

theorem heldBy_nonneg {ps : List Payment} (h : ∀ p ∈ ps, 0 ≤ p.2.amount) (a : AccountName) :
    0 ≤ heldBy ps a := by
  induction ps with
  | nil => simp
  | cons p ps ih =>
    rw [heldBy_cons]
    have := @single_nonneg p.1 _ (h p List.mem_cons_self) a steemSymbol
    have := ih fun q hq => h q (List.mem_cons_of_mem _ hq)
    omega

theorem heldPayments_append (l m : List NftOrderObject) :
    heldPayments (l ++ m) = heldPayments l ++ heldPayments m := by
  simp [heldPayments]

/-- The locked money of a list of orders, as `locked` counts it. -/
theorem sum_locked_orders (orders : List NftOrderObject) (s : AssetSymbolType) :
    (orders.map fun o => if o.holds then inSymbol o.price s else 0).sum
      = paidTotal (heldPayments orders) s := by
  induction orders with
  | nil => rfl
  | cons o orders ih =>
    rw [List.map_cons, List.sum_cons, heldPayments_cons, ih]
    split
    . rw [paidTotal_cons]
      rfl
    . omega

theorem sum_lockedBy_orders (orders : List NftOrderObject) (a : AccountName) :
    (orders.map fun o => if o.holds then single o.owner o.price a steemSymbol else 0).sum
      = heldBy (heldPayments orders) a := by
  induction orders with
  | nil => rfl
  | cons o orders ih =>
    rw [List.map_cons, List.sum_cons, heldPayments_cons, ih]
    split
    . rw [heldBy_cons]
      rfl
    . omega

theorem sum_locked_bets (bets : List NftBetObject) (s : AssetSymbolType) :
    (bets.map fun b => inSymbol b.price s).sum = paidTotal (bets.map NftBetObject.payment) s := by
  unfold paidTotal
  rw [List.map_map]
  rfl

theorem sum_lockedBy_bets (bets : List NftBetObject) (a : AccountName) :
    (bets.map fun b => single b.owner b.price a steemSymbol).sum
      = heldBy (bets.map NftBetObject.payment) a := by
  unfold heldBy
  rw [List.map_map]
  rfl

/-- Executing a held offer pays out its price to the seller and the rest to the other holders. -/
theorem paidTotal_orderRefunds_proceed {noo : NftOrderObject} {orders : List NftOrderObject}
    (hnodup : orders.Nodup) (hmem : noo ∈ orders) (hholds : noo.holds = true)
    (hkey : ∀ o ∈ orders, o.byOwnerOrderId = noo.byOwnerOrderId → o = noo) (s : AssetSymbolType) :
    paidTotal (orderRefunds (some noo) orders) s + inSymbol noo.price s
      = paidTotal (heldPayments orders) s := by
  induction orders with
  | nil => cases hmem
  | cons o orders ih =>
    obtain ⟨hnew, hnodup⟩ := List.nodup_cons.mp hnodup
    have hkey' : ∀ o ∈ orders, o.byOwnerOrderId = noo.byOwnerOrderId → o = noo := by
      intro o' ho'
      exact hkey o' (List.mem_cons_of_mem _ ho')
    rw [orderRefunds_cons, heldPayments_cons]
    rcases List.mem_cons.mp hmem with rfl | hmem
    . -- The order itself comes first, and no later one has its key.
      have hrest : orderRefunds (some noo) orders = heldPayments orders := by
        apply orderRefunds_eq_heldPayments
        intro o ho hproceed
        have := hkey' o ho (by simpa [isProceedOrder] using hproceed)
        exact absurd (this ▸ ho) hnew
      simp only [hholds, isProceedOrder, decide_true, not_true_eq_false, and_false, ↓reduceIte,
        paidTotal_cons, NftOrderObject.payment, hrest]
      omega
    . have hne : isProceedOrder (some noo) o = false := by
        rw [Bool.eq_false_iff]
        intro hproceed
        have := hkey o List.mem_cons_self (by simpa [isProceedOrder] using hproceed)
        exact hnew (this ▸ hmem)
      have := ih hnodup hmem hkey'
      cases o.holds with
      | true =>
        simp only [hne, Bool.false_eq_true, not_false_eq_true, and_self, ↓reduceIte,
          paidTotal_cons]
        omega
      | false =>
        simp only [Bool.false_eq_true, false_and, ↓reduceIte]
        exact this

end payments

section step

variable {db db' : Database}

theorem mem_of_mem_clearedNftOrders (db : Database) (tokenId : Nat) (onlyBuying : Bool) :
    ∀ o ∈ db.clearedNftOrders tokenId onlyBuying, o ∈ db.nftOrders.rows := by
  intro o ho
  exact (mem_clearedNftOrders.mp ho).2.1

theorem mem_of_mem_nftBetsOf (db : Database) (tokenId : Nat) : ∀ b ∈ db.nftBetsOf tokenId, b ∈ db.nftBets.rows := by
  intro b hb
  exact (mem_nftBetsOf.mp hb).1

/-- The money of a list of orders is not negative. -/
theorem WellFormed.heldPayments_nonneg (h : db.WellFormed) {orders : List NftOrderObject}
    (hmem : ∀ o ∈ orders, o ∈ db.nftOrders.rows) : ∀ p ∈ heldPayments orders, 0 ≤ p.2.amount := by
  intro p hp
  obtain ⟨o, ho, rfl⟩ := List.mem_map.mp hp
  exact (h.order o (hmem o (List.mem_filter.mp ho).1)).price

theorem WellFormed.orderRefunds_nonneg (h : db.WellFormed) {orders : List NftOrderObject}
    (proceedOrder : Option NftOrderObject) (hmem : ∀ o ∈ orders, o ∈ db.nftOrders.rows) :
    ∀ p ∈ orderRefunds proceedOrder orders, 0 ≤ p.2.amount := by
  intro p hp
  obtain ⟨o, ho, rfl⟩ := List.mem_map.mp hp
  exact (h.order o (hmem o (List.mem_filter.mp ho).1)).price

theorem WellFormed.betPayments_nonneg (h : db.WellFormed) {bets : List NftBetObject}
    (hmem : ∀ b ∈ bets, b ∈ db.nftBets.rows) :
    ∀ p ∈ bets.map NftBetObject.payment, 0 ≤ p.2.amount := by
  intro p hp
  obtain ⟨b, hb, rfl⟩ := List.mem_map.mp hp
  exact (h.bet b (hmem b hb)).price.le

theorem orderRefunds_none (orders : List NftOrderObject) :
    orderRefunds none orders = heldPayments orders := by
  apply orderRefunds_eq_heldPayments
  intro o _ hproceed
  cases hproceed

theorem locked_of_removes {os : Table NftOrderObject.byOwnerOrderId}
    {bs : Table NftBetObject.byTokenOwner} {l : List NftOrderObject} {m : List NftBetObject}
    (horders : db.nftOrders.Removes os l) (hbets : db.nftBets.Removes bs m)
    (hos : db'.nftOrders = os) (hbs : db'.nftBets = bs) (s : AssetSymbolType) :
    db'.locked s = db.locked s - paidTotal (heldPayments l) s
      - paidTotal (m.map NftBetObject.payment) s := by
  unfold locked
  rw [hos, hbs, horders.sum, hbets.sum, sum_locked_orders, sum_locked_bets]
  omega

theorem lockedBy_of_removes {os : Table NftOrderObject.byOwnerOrderId}
    {bs : Table NftBetObject.byTokenOwner} {l : List NftOrderObject} {m : List NftBetObject}
    (horders : db.nftOrders.Removes os l) (hbets : db.nftBets.Removes bs m)
    (hos : db'.nftOrders = os) (hbs : db'.nftBets = bs) (a : AccountName) :
    db'.lockedBy a = db.lockedBy a - heldBy (heldPayments l) a
      - heldBy (m.map NftBetObject.payment) a := by
  unfold lockedBy
  rw [hos, hbs, horders.sum, hbets.sum, sum_lockedBy_orders, sum_lockedBy_bets]
  omega

/-- A step that moves money between balances and the market, and creates none. -/
theorem MoneyInv.moves {f : AccountName → AssetSymbolType → ℤ} {h : AccountName → ℤ}
    {t : AssetSymbolType → ℤ} (hinv : db.MoneyInv) (hmoves : Moves db.ledger db'.ledger f h t)
    (hcost : db'.nftIssueCost = db.nftIssueCost)
    (hnonneg : ∀ a s, 0 ≤ db.ledger.mainBalance a s + f a s)
    (hlocked : ∀ s, db'.locked s + t s ≤ db.locked s)
    (hlockedBy : ∀ a, db'.lockedBy a = db.lockedBy a + h a) : db'.MoneyInv where
  solvent :=
    { nonneg := by
        intro a s
        rw [hmoves.balance]
        exact hnonneg a s
      covered := by
        intro s
        rw [hmoves.total, hmoves.supply]
        have := hinv.solvent.covered s
        have := hlocked s
        omega
      fits := by
        intro s
        rw [hmoves.supply]
        exact hinv.solvent.fits s
      cost := by
        rw [hcost]
        exact hinv.solvent.cost }
  hold := by
    intro a
    rw [hmoves.hold, hinv.hold, hlockedBy]

/-- A step that leaves the ledger, the orders and the bets alone. -/
theorem MoneyInv.congr (hinv : db.MoneyInv) (hledger : db'.ledger = db.ledger)
    (hcost : db'.nftIssueCost = db.nftIssueCost) (horders : db'.nftOrders = db.nftOrders)
    (hbets : db'.nftBets = db.nftBets) : db'.MoneyInv := by
  have hmoves : Moves db.ledger db'.ledger (fun _ _ => 0) (fun _ => 0) (fun _ => 0) := by
    rw [hledger]
    exact .refl _
  apply hinv.moves hmoves hcost
  . intro a s
    have := hinv.solvent.nonneg a s
    omega
  . intro s
    unfold locked
    rw [horders, hbets]
    omega
  . intro a
    unfold lockedBy
    rw [horders, hbets]
    omega

/-- Clearing rows pays back exactly what they hold. -/
theorem MoneyInv.clear {l : List NftOrderObject} {m : List NftBetObject} (hinv : db.MoneyInv)
    (hwf : db.WellFormed) (hl : ∀ o ∈ l, o ∈ db.nftOrders.rows) (hm : ∀ b ∈ m, b ∈ db.nftBets.rows)
    (horders : db.nftOrders.Removes db'.nftOrders l) (hbets : db.nftBets.Removes db'.nftBets m)
    (hcost : db'.nftIssueCost = db.nftIssueCost)
    (hmoves : Moves db.ledger db'.ledger
      (fun a s => paid (heldPayments l) a s + paid (m.map NftBetObject.payment) a s)
      (fun a => -heldBy (heldPayments l) a - heldBy (m.map NftBetObject.payment) a)
      (fun s => paidTotal (heldPayments l) s + paidTotal (m.map NftBetObject.payment) s)) :
    db'.MoneyInv := by
  apply hinv.moves hmoves hcost
  . intro a s
    have := hinv.solvent.nonneg a s
    have := paid_nonneg (hwf.heldPayments_nonneg hl) a s
    have := paid_nonneg (hwf.betPayments_nonneg hm) a s
    omega
  . intro s
    rw [locked_of_removes horders hbets rfl rfl]
    omega
  . intro a
    rw [lockedBy_of_removes horders hbets rfl rfl]
    omega

theorem MoneyInv.clearOrders {l : List NftOrderObject} (hinv : db.MoneyInv) (hwf : db.WellFormed)
    (hl : ∀ o ∈ l, o ∈ db.nftOrders.rows) (horders : db.nftOrders.Removes db'.nftOrders l)
    (hbets : db'.nftBets = db.nftBets) (hcost : db'.nftIssueCost = db.nftIssueCost)
    (hclear : OrderMoves db.ledger db'.ledger none l) : db'.MoneyInv := by
  refine @MoneyInv.clear _ _ l [] hinv hwf hl (by simp) horders (hbets ▸ .nil _) hcost ?_
  unfold OrderMoves at hclear
  rw [orderRefunds_none] at hclear
  simpa using hclear

theorem MoneyInv.clearBets {m : List NftBetObject} (hinv : db.MoneyInv) (hwf : db.WellFormed)
    (hm : ∀ b ∈ m, b ∈ db.nftBets.rows) (horders : db'.nftOrders = db.nftOrders)
    (hbets : db.nftBets.Removes db'.nftBets m) (hcost : db'.nftIssueCost = db.nftIssueCost)
    (hclear : BetMoves db.ledger db'.ledger .null m) : db'.MoneyInv := by
  refine @MoneyInv.clear _ _ [] m hinv hwf (by simp) hm (horders ▸ .nil _) hbets hcost ?_
  unfold BetMoves at hclear
  rw [betRefunds_null] at hclear
  simpa using hclear

/-- `adjust_supply` raises the supply of GBG and leaves all accounts alone. -/
theorem supply_of_adjustSbdSupply {l l' : Ledger} {delta : ℤ}
    (hfits : ∀ s, l.supply s ≤ maxInt64) (h : l.adjustSbdSupply delta = .ok l') :
    (∀ s, l'.supply s = l.supply s + inSymbol ⟨delta, sbdSymbol⟩ s ∧ l'.supply s ≤ maxInt64)
      ∧ l'.mainBalance = l.mainBalance ∧ l'.totalBalance = l.totalBalance
      ∧ l'.nftHold = l.nftHold := by
  simp only [adjustSbdSupply, bind_eq_ok, pure_eq_ok] at h
  obtain ⟨supply, hadd, _, -, _, -, rfl⟩ := h
  refine ⟨?_, rfl, rfl, rfl⟩
  intro s
  have hfits := hfits s
  simp only [Ledger.supply, inSymbol] at hfits ⊢
  split
  . next hsteem =>
    simp only [hsteem, ↓reduceIte] at hfits
    simp [hsteem, sbdSymbol_ne_steemSymbol.symm, hfits]
  . next hsteem =>
    split
    . next hsbd =>
      simp only [hsbd, sbdSymbol_ne_steemSymbol, ↓reduceIte] at hfits
      exact ⟨eq_of_add64_eq_ok hadd, le_maxInt64_of_add64_eq_ok hfits hadd⟩
    . next hsbd =>
      simp only [hsteem, hsbd, ↓reduceIte] at hfits
      simp [hfits]

/-- Both ways of returning the issue cost keep the supply above what it covers. -/
theorem MoneyInv.costRefund {name : AccountName} {l : Ledger} (hinv : db.MoneyInv)
    (h : CostRefund db.ledger name l) : MoneyInv { db with ledger := l } := by
  cases h with
  | nothing => exact hinv
  | @fromWorkers cost _ hpos hworkers hpay =>
    refine hinv.moves hpay rfl ?_ ?_ ?_
    . intro a s
      have hbalance := hinv.solvent.nonneg a s
      have hname := @single_nonneg name ⟨cost, sbdSymbol⟩ hpos a s
      rw [single_minus]
      by_cases ha : a = workerPoolAccount ∧ s = sbdSymbol
      . obtain ⟨rfl, rfl⟩ := ha
        rw [show single workerPoolAccount ⟨cost, sbdSymbol⟩ workerPoolAccount sbdSymbol = cost by
          simp [single]]
        omega
      . rw [show single workerPoolAccount ⟨cost, sbdSymbol⟩ a s = 0 from if_neg ha]
        omega
    . intro s
      rw [inSymbol_minus, neg_add_cancel, add_zero]
      exact le_rfl
    . intro a
      exact (add_zero _).symm
  | @minted cost l₁ l hpos hsupply hpay =>
    obtain ⟨hmint, hbalance, htotal, hhold⟩ :=
      supply_of_adjustSbdSupply hinv.solvent.fits hsupply
    refine ⟨⟨?_, ?_, ?_, hinv.solvent.cost⟩, ?_⟩
    . intro a s
      rw [hpay.balance, hbalance]
      exact Int.add_nonneg (hinv.solvent.nonneg a s) (single_nonneg hpos a s)
    . intro s
      have hcovered : _ + db.locked s ≤ _ := hinv.solvent.covered s
      rw [hpay.total, hpay.supply, htotal, (hmint s).1]
      change _ + _ + db.locked s ≤ _
      omega
    . intro s
      rw [hpay.supply]
      exact (hmint s).2
    . intro a
      rw [hpay.hold, hhold, add_zero]
      exact hinv.hold a

theorem WellFormed.heldMoney_nonneg (h : db.WellFormed) (s : AssetSymbolType) :
    0 ≤ db.nftOrders.sum fun o => if o.holds then inSymbol o.price s else 0 := by
  apply Table.sum_nonneg
  intro o ho
  split
  . exact inSymbol_nonneg (h.order o ho).price s
  . exact le_rfl

theorem WellFormed.heldMoneyOf_nonneg (h : db.WellFormed) (a : AccountName) :
    0 ≤ db.nftOrders.sum fun o => if o.holds then single o.owner o.price a steemSymbol else 0 := by
  apply Table.sum_nonneg
  intro o ho
  split
  . exact single_nonneg (h.order o ho).price a _
  . exact le_rfl

theorem WellFormed.lockedBy_le_locked (h : db.WellFormed) (a : AccountName) :
    db.lockedBy a ≤ db.locked steemSymbol := by
  unfold lockedBy locked
  apply Int.add_le_add
  . apply Table.sum_le_sum
    intro o ho
    split
    . exact single_le_inSymbol (h.order o ho).price a _
    . exact le_rfl
  . apply Table.sum_le_sum
    intro b hb
    exact single_le_inSymbol (h.bet b hb).price.le a _

/-- The bets of one token are worth at most what the market holds. -/
theorem WellFormed.paidTotal_nftBetsOf_le (h : db.WellFormed) (tokenId : Nat)
    (s : AssetSymbolType) :
    paidTotal ((db.nftBetsOf tokenId).map NftBetObject.payment) s ≤ db.locked s := by
  have hall := db.nftBets.sum_map_le_sum (l := db.nftBetsOf tokenId)
    (fun b hb => inSymbol_nonneg (h.bet b hb).price.le s) (nodup_nftBetsOf db tokenId)
    (db.mem_of_mem_nftBetsOf tokenId)
  have horders := h.heldMoney_nonneg s
  rw [sum_locked_bets] at hall
  unfold locked
  omega

theorem WellFormed.heldBy_nftBetsOf_le (h : db.WellFormed) (tokenId : Nat) (a : AccountName) :
    heldBy ((db.nftBetsOf tokenId).map NftBetObject.payment) a ≤ db.lockedBy a := by
  have hall := db.nftBets.sum_map_le_sum (l := db.nftBetsOf tokenId)
    (fun b hb => @single_nonneg b.owner _ (h.bet b hb).price.le a steemSymbol)
    (nodup_nftBetsOf db tokenId) (db.mem_of_mem_nftBetsOf tokenId)
  have horders := h.heldMoneyOf_nonneg a
  rw [sum_lockedBy_bets] at hall
  unfold lockedBy
  omega

theorem locked_of_insertOrder {o : NftOrderObject} (horders : db.nftOrders.Inserts db'.nftOrders o)
    (hbets : db'.nftBets = db.nftBets) (s : AssetSymbolType) :
    db'.locked s = db.locked s + if o.holds then inSymbol o.price s else 0 := by
  unfold locked
  rw [horders.sum, hbets]
  omega

theorem lockedBy_of_insertOrder {o : NftOrderObject}
    (horders : db.nftOrders.Inserts db'.nftOrders o) (hbets : db'.nftBets = db.nftBets)
    (a : AccountName) :
    db'.lockedBy a = db.lockedBy a
      + if o.holds then single o.owner o.price a steemSymbol else 0 := by
  unfold lockedBy
  rw [horders.sum, hbets]
  omega

/-- A new order that holds no money. -/
theorem MoneyInv.insertOrder {o : NftOrderObject} (hinv : db.MoneyInv)
    (hledger : db'.ledger = db.ledger) (hcost : db'.nftIssueCost = db.nftIssueCost)
    (horders : db.nftOrders.Inserts db'.nftOrders o) (hbets : db'.nftBets = db.nftBets)
    (hholds : o.holds = false) : db'.MoneyInv := by
  have hmoves : Moves db.ledger db'.ledger (fun _ _ => 0) (fun _ => 0) (fun _ => 0) := by
    rw [hledger]
    exact .refl _
  apply hinv.moves hmoves hcost
  . intro a s
    have := hinv.solvent.nonneg a s
    omega
  . intro s
    rw [locked_of_insertOrder horders hbets, hholds]
    simp
  . intro a
    rw [lockedBy_of_insertOrder horders hbets, hholds]
    simp

theorem nonneg_of_pay {l : Ledger} {name : AccountName} {p : Asset}
    (hnonneg : ∀ a s, 0 ≤ l.mainBalance a s) (hp : p.amount ≤ l.mainBalance name p.symbol)
    (a : AccountName) (s : AssetSymbolType) : 0 ≤ l.mainBalance a s - single name p a s := by
  unfold single
  split
  . next h =>
    rw [h.1, h.2]
    omega
  . have := hnonneg a s
    omega

theorem priceOf_nonneg (hwf : db.WellFormed) {noo : NftOrderObject} (hmem : noo ∈ db.nftOrders.rows)
    {given : Asset} (hgiven : 0 ≤ given.amount) : 0 ≤ (priceOf given noo).amount := by
  unfold priceOf
  split
  . exact (hwf.order noo hmem).price
  . exact hgiven

/-- An offer is for the sold token, or for any token and then it holds nothing. -/
theorem heldPayments_clearedExtra (hwf : db.WellFormed) {noo : NftOrderObject}
    (hmem : noo ∈ db.nftOrders.rows) {tokenId : Nat}
    (htoken : noo.tokenId ≠ 0 → noo.tokenId = tokenId) :
    heldPayments (db.clearedExtra tokenId (some noo) false) = [] := by
  unfold clearedExtra
  by_cases hin : noo ∈ db.clearedNftOrders tokenId false
  . simp [hin]
  . simp only [hin, ↓reduceIte]
    have hzero : noo.tokenId = 0 := by
      by_contra hne
      have heq := htoken hne
      exact hin (mem_clearedNftOrders.mpr ⟨heq ▸ hne, hmem, heq, by simp⟩)
    rw [heldPayments_cons, (hwf.order noo hmem).anyToken hzero]
    rfl

/-- The seller gets the money of a held offer, and the other offers go back. -/
theorem paidTotal_sellToBuyer (hwf : db.WellFormed) {noo : NftOrderObject}
    (hmem : noo ∈ db.nftOrders.rows) (hbuying : noo.selling = false) {tokenId : Nat}
    {price : Asset} (htoken : noo.tokenId ≠ 0 → noo.tokenId = tokenId ∧ price = noo.price)
    (s : AssetSymbolType) :
    (if noo.tokenId = 0 then inSymbol (minus price) s else 0) + inSymbol price s
      + (if noo.holds then inSymbol ⟨price.amount - noo.price.amount, noo.price.symbol⟩ s else 0)
      + paidTotal (orderRefunds (some noo) (db.clearedNftOrders tokenId false)) s
      = paidTotal (heldPayments (db.clearedNftOrders tokenId false)) s := by
  by_cases hzero : noo.tokenId = 0
  . have hholds := (hwf.order noo hmem).anyToken hzero
    rw [orderRefunds_of_not_holds hmem hholds]
    simp [hzero, hholds]
  . obtain ⟨heq, rfl⟩ := htoken hzero
    have hholds := (hwf.order noo hmem).oneToken hbuying hzero
    have hin : noo ∈ db.clearedNftOrders tokenId false :=
      mem_clearedNftOrders.mpr ⟨heq ▸ hzero, hmem, heq, by simp⟩
    have hnodup : (db.clearedNftOrders tokenId false).Nodup := by
      unfold clearedNftOrders
      split
      . exact List.nodup_nil
      . exact (nodup_rows _).filter _
    have hpaid := paidTotal_orderRefunds_proceed hnodup hin hholds (fun o ho hkey =>
      db.nftOrders.mem_rows_inj (mem_of_mem_clearedNftOrders _ _ _ o ho) hmem hkey) s
    have hdiff : inSymbol ⟨noo.price.amount - noo.price.amount, noo.price.symbol⟩ s = 0 := by
      simp [inSymbol]
    simp only [hzero, hholds, ↓reduceIte, hdiff]
    omega

theorem nonneg_sellToBuyer (hwf : db.WellFormed) (hnonneg : ∀ a s, 0 ≤ db.ledger.mainBalance a s)
    {noo : NftOrderObject} (hmem : noo ∈ db.nftOrders.rows) {buyer seller : AccountName}
    {price : Asset} (hprice : 0 ≤ price.amount) (htoken : noo.tokenId ≠ 0 → price = noo.price)
    (hbalance : noo.tokenId = 0 → price.amount ≤ db.ledger.mainBalance buyer price.symbol)
    (a : AccountName) (s : AssetSymbolType) :
    0 ≤ db.ledger.mainBalance a s + ((if noo.tokenId = 0 then single buyer (minus price) a s else 0)
      + single seller price a s
      + if noo.holds then single noo.owner
          ⟨price.amount - noo.price.amount, noo.price.symbol⟩ a s else 0) := by
  have hseller := @single_nonneg seller _ hprice a s
  by_cases hzero : noo.tokenId = 0
  . have hholds := (hwf.order noo hmem).anyToken hzero
    have hbuyer := nonneg_of_pay hnonneg (hbalance hzero) a s
    simp only [hzero, hholds, Bool.false_eq_true, ↓reduceIte, single_minus]
    omega
  . rw [htoken hzero] at hseller ⊢
    have hdiff : single noo.owner ⟨noo.price.amount - noo.price.amount, noo.price.symbol⟩ a s
        = 0 := by
      simp [single]
    have := hnonneg a s
    simp only [hzero, hdiff, ite_self, ↓reduceIte]
    omega

theorem MoneyInv.marketStep {op : NftOperation} (h : db.MoneyInv) (hwf : db.WellFormed)
    (hstep : MarketStep db op db') : db'.MoneyInv := by
  cases hstep with
  | nftCollection | nftCollectionDelete | nftTransfer => exact h.congr rfl rfl rfl rfl
  | ignoreBuy => exact h
  | @nftIssue op no k l ts cs howner _ _ _ _ _ hfee hcost hpay =>
    have hissue := hcost h.solvent.cost
    refine h.moves hpay rfl ?_ ?_ ?_
    . intro a s
      have hworkers := @single_nonneg workerPoolAccount no.issueCost hissue a s
      rw [single_minus]
      rcases hfee with hzero | hfee
      . have := h.solvent.nonneg a s
        rw [show single op.creator no.issueCost a s = 0 by simp [single, hzero]]
        omega
      . have := nonneg_of_pay h.solvent.nonneg hfee a s
        omega
    . intro s
      rw [inSymbol_minus, neg_add_cancel, add_zero]
      exact le_rfl
    . intro a
      exact (add_zero _).symm
  | burn _ _ _ _ _ _ _ hrefund horders hclear =>
    exact (h.costRefund hrefund).clearOrders
      (hwf.shrink (.of_costRefund hrefund) (fun _ ho => ⟨ho, id⟩) (fun _ hb => ⟨hb, id⟩))
      (mem_of_mem_clearedNftOrders _ _ _) horders rfl rfl hclear
  | placeSellOrder _ _ _ _ _ horders => exact h.insertOrder rfl rfl horders rfl rfl
  | placeCollectionOffer _ _ horders => exact h.insertOrder rfl rfl horders rfl rfl
  | cancelBet _ _ hbet hpay =>
    have hmem := Table.mem_of_find? hbet
    exact h.clearBets hwf (by simpa using hmem) rfl (.erase hmem) rfl hpay
  | placeBet _ _ _ _ _ _ _ hbalance _ _ _ hbets hpay =>
    refine h.moves hpay rfl ?_ ?_ ?_
    . intro a s
      have := nonneg_of_pay h.solvent.nonneg hbalance a s
      rw [single_minus]
      omega
    . intro s
      unfold locked
      dsimp only
      rw [hbets.sum, inSymbol_minus]
      dsimp only
      omega
    . intro a
      unfold lockedBy
      dsimp only
      rw [hbets.sum]
      dsimp only
      omega
  | placeOffer _ _ _ _ _ _ _ _ hbalance horders _ hpay =>
    refine h.moves hpay rfl ?_ ?_ ?_
    . intro a s
      have := nonneg_of_pay h.solvent.nonneg hbalance a s
      rw [single_minus]
      omega
    . intro s
      unfold locked
      dsimp only
      rw [horders.sum, inSymbol_minus]
      simp only [↓reduceIte]
      omega
    . intro a
      unfold lockedBy
      dsimp only
      rw [horders.sum]
      simp only [↓reduceIte]
      omega
  | cancelSellOrder hnoo _ _ _ _ hclear | cancelBuyOrder hnoo _ _ hclear =>
    have hmem := Table.mem_of_find? hnoo
    exact h.clearOrders hwf (by simpa using hmem) (.erase hmem) rfl rfl hclear
  | stopAuction _ _ _ _ _ hbets hclear =>
    exact h.clearBets hwf (mem_of_mem_nftBetsOf _ _) rfl hbets rfl hclear
  | startAuction _ _ _ _ _ _ _ _ horders hclear =>
    exact h.clearOrders hwf (mem_of_mem_clearedNftOrders _ _ _) horders rfl rfl hclear
  | @sellToBuyer op no noo l₁ l ts cs os _ _ _ hprice hnoo hbuying htoken _ hbalance hnfts _ hpay
      horders hclear =>
    have hmem := Table.mem_of_find? hnoo
    have hextra := heldPayments_clearedExtra hwf hmem (fun hne => (htoken hne).1)
    refine h.moves (hpay.trans hclear) rfl ?_ ?_ ?_
    . intro a s
      have := @nonneg_sellToBuyer _ hwf h.solvent.nonneg _ hmem op.buyer op.seller _
        (priceOf_nonneg hwf hmem hprice) (fun hne => (htoken hne).2) hbalance a s
      have := paid_nonneg (hwf.orderRefunds_nonneg (some noo)
        (db.mem_of_mem_clearedNftOrders no.tokenId false)) a s
      omega
    . intro s
      have := paidTotal_sellToBuyer hwf hmem hbuying htoken s
      unfold locked
      dsimp only
      rw [horders.sum, sum_locked_orders, heldPayments_append, hextra, List.append_nil]
      omega
    . intro a
      unfold lockedBy
      dsimp only
      rw [horders.sum, sum_lockedBy_orders, heldPayments_append, hextra, List.append_nil]
      omega
  | @buyFromSeller op opNo no noo l₁ l ts cs os _ _ _ hnoo hselling _ hprice _ hbalance _ _ hpay
      horders hclear =>
    have hmem := Table.mem_of_find? hnoo
    have hpaid := priceOf_nonneg hwf hmem hprice
    unfold OrderMoves at hclear
    rw [orderRefunds_of_not_holds hmem ((hwf.order _ hmem).selling hselling)] at hclear
    refine h.moves (hpay.trans hclear) rfl ?_ ?_ ?_
    . intro a s
      have := nonneg_of_pay h.solvent.nonneg hbalance a s
      have := @single_nonneg noo.owner _ hpaid a s
      have := paid_nonneg (hwf.heldPayments_nonneg (db.mem_of_mem_clearedNftOrders op.tokenId false)) a s
      rw [single_minus]
      omega
    . intro s
      unfold locked
      dsimp only
      rw [horders.sum, sum_locked_orders, inSymbol_minus]
      omega
    . intro a
      unfold lockedBy
      dsimp only
      rw [horders.sum, sum_lockedBy_orders]
      omega

end step

end Database
end Golos
