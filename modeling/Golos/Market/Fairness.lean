import Golos.Market.Run

/-!
This module contains what the aggregates of the market are sums of, and what a match of two live
opposite orders with compatible prices does to the money of everybody involved.
-/

namespace Golos

open Checked Ledger

namespace Exchange

/-- The amount an order asks for, by `amount_to_receive()`. -/
def askedBy (o : LimitOrderObject) : ℤ :=
  match o.amountToReceive with
  | .ok toReceive => toReceive.amount
  | .error _ => 0

/-- The sum over the open orders that sell `b` for `q`. -/
def sumOfPair (x : Exchange) (amount : LimitOrderObject → ℤ) (b q : AssetSymbolType) : ℤ :=
  x.limitOrders.sum fun o =>
    if o.sellPrice.base.symbol = b ∧ o.sellPrice.quote.symbol = q then amount o else 0

/-- What the open orders of one account sell of one asset. -/
def sumOfSeller (x : Exchange) (a : AccountName) (s : AssetSymbolType) : ℤ :=
  x.limitOrders.sum fun o => if o.seller = a ∧ o.amountForSale.symbol = s then o.forSale else 0

structure Aggregates (x : Exchange) : Prop where
  /-- A pair object holds the sums over the orders of its pair. -/
  pair : ∀ p ∈ x.marketPairs.rows,
    p.baseDepth.amount = x.sumOfPair LimitOrderObject.forSale p.baseDepth.symbol
        p.quoteDepth.symbol ∧
      p.quoteDepth.amount = x.sumOfPair askedBy p.baseDepth.symbol p.quoteDepth.symbol
  /-- A pair with open orders has an object. -/
  traded : ∀ o ∈ x.limitOrders.rows, ∃ p ∈ x.marketPairs.rows,
    p.baseDepth.symbol = o.sellPrice.base.symbol ∧ p.quoteDepth.symbol = o.sellPrice.quote.symbol
  market : ∀ a s, x.ledger.marketBalance a s = x.sumOfSeller a s

section sums

variable {x : Exchange}

theorem live_of_mem {db dq : AssetSymbolType → AssetSymbolType → ℤ} (hx : x.Balanced db dq)
    {o : LimitOrderObject} (ho : o ∈ x.limitOrders.rows) : o.Live :=
  hx.live o.id o (Table.find?_of_mem ho)

theorem sum_inBase (b q : AssetSymbolType) :
    x.limitOrders.sum (fun o => inBase o b q) = x.sumOfPair LimitOrderObject.forSale b q := by
  apply Table.sum_congr
  intro o _
  simp only [inBase, inPair, eq_comm (a := b), eq_comm (a := q)]

theorem sum_inQuote {db dq : AssetSymbolType → AssetSymbolType → ℤ} (hx : x.Balanced db dq)
    (b q : AssetSymbolType) :
    x.limitOrders.sum (fun o => inQuote o b q) = x.sumOfPair askedBy b q := by
  apply Table.sum_congr
  intro o ho
  have hasked : askedBy o = o.asks := by
    unfold askedBy
    rw [(live_of_mem hx ho).amountToReceive_eq]
  simp only [inQuote, inPair, hasked, eq_comm (a := b), eq_comm (a := q)]

theorem sum_inMarket (a : AccountName) (s : AssetSymbolType) :
    x.limitOrders.sum (fun o => inMarket o a s) = x.sumOfSeller a s := by
  apply Table.sum_congr
  intro o _
  simp only [inMarket, single, eq_comm (a := a), eq_comm (a := s)]
  rfl

/-- The pair of a live order has depth. -/
theorem baseDepth_pos {dq : AssetSymbolType → AssetSymbolType → ℤ}
    (hx : x.Balanced (fun _ _ => 0) dq) {o : LimitOrderObject} (ho : o ∈ x.limitOrders.rows) :
    0 < x.baseDepth o.sellPrice.base.symbol o.sellPrice.quote.symbol := by
  rw [hx.base, Int.add_zero]
  have hnonneg : ∀ o' ∈ x.limitOrders.rows,
      0 ≤ inBase o' o.sellPrice.base.symbol o.sellPrice.quote.symbol := by
    intro o' ho'
    have := (live_of_mem hx ho').forSale_pos
    unfold inBase inPair
    split <;> omega
  have hle := Table.le_sum _ hnonneg ho
  have hself : inBase o o.sellPrice.base.symbol o.sellPrice.quote.symbol = o.forSale := by
    simp [inBase, inPair]
  have := (live_of_mem hx ho).forSale_pos
  omega

end sums

/-- In every reachable state the aggregates are the sums over the open orders. -/
theorem aggregates_of_reachable {x : Exchange} (h : system.Reachable x) : x.Aggregates := by
  have hx := balanced_of_reach h
  constructor
  . intro p hp
    have hfind := Table.find?_of_mem hp
    have hbase := hx.base p.baseDepth.symbol p.quoteDepth.symbol
    have hquote := hx.quote p.baseDepth.symbol p.quoteDepth.symbol
    rw [sum_inBase] at hbase
    rw [sum_inQuote hx] at hquote
    simp only [pairDepth, hfind, Int.add_zero] at hbase hquote
    exact ⟨hbase, hquote⟩
  . intro o ho
    have hpos := baseDepth_pos hx ho
    unfold baseDepth pairDepth at hpos
    split at hpos
    . next p hp =>
      have hkey := Table.key_of_find? hp
      simp only [MarketPairObject.byBaseQuote, Prod.mk.injEq] at hkey
      exact ⟨p, Table.mem_of_find? hp, hkey⟩
    . omega
  . intro a s
    rw [hx.market, sum_inMarket]

/-- An order that is partly filled, one that is cancelled, and a book with both directions. -/
def firstTrades : List LimitOrderOperation :=
  [
    .limitOrderCreate
      { owner := "alice", orderid := 1, amountToSell := ⟨1000, firstToken⟩
        minToReceive := ⟨300, steemSymbol⟩ },
    .limitOrderCreate2
      { owner := "bob", orderid := 1, amountToSell := ⟨100, steemSymbol⟩
        exchangeRate := ⟨⟨3, steemSymbol⟩, ⟨7, firstToken⟩⟩ },
    .limitOrderCreate
      { owner := "bob", orderid := 2, amountToSell := ⟨500, sbdSymbol⟩
        minToReceive := ⟨900, steemSymbol⟩ },
    .limitOrderCreate
      { owner := "carol", orderid := 7, amountToSell := ⟨40, firstToken⟩
        minToReceive := ⟨100, sbdSymbol⟩ },
    .limitOrderCancel { owner := "carol", orderid := 7 }
  ]

theorem aggregates_firstTrades :
    ∃ x, firstTrades.foldlM applyLimitOrderOperation firstExchange = .ok x ∧ x.Aggregates := by
  have hops := Checked.eq_ok_of_isSome (d := {})
    (x := firstTrades.foldlM applyLimitOrderOperation firstExchange) (by decide +kernel)
  refine ⟨_, hops, aggregates_of_reachable ?_⟩
  apply reach_of_operations reach_firstExchange _ _ hops
  . decide
  . decide +kernel

/--
An order after it paid `pays` of what it had for sale: it is gone and `refund` is all the rest, or
it stays with a rest that can be sold.
-/
def AfterMatch (x : Exchange) (o : LimitOrderObject) (pays refund : Asset) : Prop :=
  match x.findLimitOrder o.id with
  | none => refund.amount = o.forSale - pays.amount
  | some o' =>
    refund.amount = 0 ∧ o' = { o with forSale := o.forSale - pays.amount } ∧ 0 < o'.forSale ∧
      ∃ toReceive, o'.amountToReceive = .ok toReceive ∧ 1 ≤ toReceive.amount

/-- A fee is nothing, or it goes to the creator of the asset it is paid in. -/
def FeeOfCreator (x : Exchange) (fee : Asset) (receiver : AccountName) : Prop :=
  0 ≤ fee.amount ∧
    (fee.amount = 0 ∨ ∃ ast, x.ledger.getAsset fee.symbol = .ok ast ∧ receiver = ast.creator)

/--
A match of the new order `n` with the old order `o` that conserves both assets and is fair to both
sides. What the sides get besides the fees is `newGets` and `oldGets`.
-/
structure FairMatch (x : Exchange) (n o : LimitOrderObject) (m : Match)
    (newGets oldGets newRefund oldRefund : Asset) : Prop where
  newGets_symbol : newGets.symbol = o.sellPrice.base.symbol
  oldGets_symbol : oldGets.symbol = n.sellPrice.base.symbol
  newRefund_symbol : newRefund.symbol = n.sellPrice.base.symbol
  oldRefund_symbol : oldRefund.symbol = o.sellPrice.base.symbol
  newPays : m.filled.currentPays = ⟨oldGets.amount + m.filled.openTradeFee.amount,
    n.sellPrice.base.symbol⟩
  oldPays : m.filled.openPays = ⟨newGets.amount + m.filled.currentTradeFee.amount,
    o.sellPrice.base.symbol⟩
  openTradeFee_symbol : m.filled.openTradeFee.symbol = n.sellPrice.base.symbol
  currentTradeFee_symbol : m.filled.currentTradeFee.symbol = o.sellPrice.base.symbol
  openTradeFee : FeeOfCreator x m.filled.openTradeFee m.filled.openTradeFeeReceiver
  currentTradeFee : FeeOfCreator x m.filled.currentTradeFee m.filled.currentTradeFeeReceiver
  main : ∀ a s, m.exchange.ledger.mainBalance a s = x.ledger.mainBalance a s
    + single n.seller newGets a s
    + single m.filled.currentTradeFeeReceiver m.filled.currentTradeFee a s
    + single n.seller newRefund a s
    + single o.seller oldGets a s
    + single m.filled.openTradeFeeReceiver m.filled.openTradeFee a s
    + single o.seller oldRefund a s
  market : ∀ a s, m.exchange.ledger.marketBalance a s = x.ledger.marketBalance a s
    - single n.seller m.filled.currentPays a s - single n.seller newRefund a s
    - single o.seller m.filled.openPays a s - single o.seller oldRefund a s
  newPays_nonneg : 0 ≤ m.filled.currentPays.amount
  newPays_le : m.filled.currentPays.amount ≤ n.forSale
  oldPays_nonneg : 0 ≤ m.filled.openPays.amount
  oldPays_le : m.filled.openPays.amount ≤ o.forSale
  newFair : m.filled.currentPays.amount * n.sellPrice.quote.amount / n.sellPrice.base.amount
    ≤ newGets.amount + m.filled.currentTradeFee.amount
  oldFair : m.filled.openPays.amount * o.sellPrice.quote.amount / o.sellPrice.base.amount
    ≤ oldGets.amount + m.filled.openTradeFee.amount
  result_ne : m.result ≠ 0
  newBit : m.result &&& 1 ≠ 0 ↔ m.exchange.findLimitOrder n.id = none
  oldBit : m.result &&& 2 ≠ 0 ↔ m.exchange.findLimitOrder o.id = none
  newAfter : m.exchange.AfterMatch n m.filled.currentPays newRefund
  oldAfter : m.exchange.AfterMatch o m.filled.openPays oldRefund
  others : ∀ id, id ≠ n.id → id ≠ o.id → m.exchange.findLimitOrder id = x.findLimitOrder id

section lemmas

variable {x' : Exchange} {o : LimitOrderObject} {p : ℤ}

theorem afterMatch_of_restOf (hlive : o.Live) (hpos : 0 ≤ p) (hle : p ≤ o.forSale)
    {s : AssetSymbolType} (h : x'.findLimitOrder o.id = restOf o p) :
    x'.AfterMatch o ⟨p, s⟩ (refundOf o p) := by
  have hrest := restOf_live hlive hpos hle
  unfold AfterMatch refundOf
  rw [h]
  cases hcase : restOf o p with
  | none => simp
  | some o' =>
    rw [hcase] at hrest
    obtain ⟨rfl, hlive⟩ := hrest o' rfl
    exact ⟨rfl, rfl, hlive.forSale_pos, _, hlive.amountToReceive_eq, hlive.asks_pos⟩

/-- What leaves the market balance is what is paid and what is refunded. -/
theorem inMarket_restOf (o : LimitOrderObject) (p : ℤ) (a : AccountName) (s : AssetSymbolType) :
    inMarket o a s - ((restOf o p).elim 0 fun o' => inMarket o' a s)
      = single o.seller ⟨p, o.sellPrice.base.symbol⟩ a s
        + single o.seller (refundOf o p) a s := by
  have ho : inMarket o a s = single o.seller ⟨o.forSale, o.sellPrice.base.symbol⟩ a s := rfl
  have hsub := single_sub o.seller o.forSale p o.sellPrice.base.symbol a s
  unfold refundOf restOf
  split
  . simp only [Option.elim_none, Option.isNone_none, ↓reduceIte]
    omega
  . have hsold : inMarket (o.sold p) a s
      = single o.seller ⟨o.forSale - p, o.sellPrice.base.symbol⟩ a s := rfl
    have hzero := single_zero o.seller o.sellPrice.base.symbol a s
    simp only [Option.elim_some, Option.isNone_some, Bool.false_eq_true, ↓reduceIte]
    omega

end lemmas

/-- Matching conserves both assets, respects both limits and leaves no unsellable order. -/
theorem match'_fair {x : Exchange} {n o : LimitOrderObject} {m : Match}
    (hn : x.findLimitOrder n.id = some n) (ho : x.findLimitOrder o.id = some o)
    (hnlive : n.Live) (holive : o.Live) (hopp : n.sellPrice.Opposite o.sellPrice)
    (hcompat : n.sellPrice.Compatible o.sellPrice) (h : x.match' n o o.sellPrice = .ok m) :
    ∃ newGets oldGets newRefund oldRefund,
      FairMatch x n o m newGets oldGets newRefund oldRefund := by
  have hne := ne_of_sells hn ho hnlive hopp.1
  obtain ⟨newReceives, oldReceives, hamounts, hm⟩ :=
    matches_of_match' hn ho hnlive holive h
  have hfair := fair_of_matchAmounts hnlive holive hopp.1 hcompat hamounts
  refine ⟨⟨newReceives.amount - m.filled.currentTradeFee.amount, o.sellPrice.base.symbol⟩,
    ⟨oldReceives.amount - m.filled.openTradeFee.amount, n.sellPrice.base.symbol⟩,
    refundOf n oldReceives.amount, refundOf o newReceives.amount, ?_⟩
  have hcreator : ∀ {fee : Asset} {receiver : AccountName} {s : AssetSymbolType},
      (fee.symbol = s ∧ 0 ≤ fee.amount ∧ (fee.amount = 0 ∨
        ∃ ast, x.ledger.assets.find? s = some ast ∧ receiver = ast.creator)) →
      FeeOfCreator x fee receiver := by
    rintro fee receiver s ⟨rfl, hnonneg, hast⟩
    refine ⟨hnonneg, ?_⟩
    simpa [getAsset] using hast
  constructor
  . rfl
  . rfl
  . rfl
  . rfl
  . rw [hm.currentPays]
    congr
    dsimp only
    omega
  . rw [hm.openPays]
    congr
    dsimp only
    omega
  . exact hm.openTradeFee.1
  . exact hm.currentTradeFee.1
  . exact hcreator hm.openTradeFee
  . exact hcreator hm.currentTradeFee
  . exact hm.main
  . intro a s
    have hnew := inMarket_restOf n oldReceives.amount a s
    have hold := inMarket_restOf o newReceives.amount a s
    rw [hm.market, hm.currentPays, hm.openPays]
    omega
  . rw [hm.currentPays]
    exact hm.new_nonneg
  . rw [hm.currentPays]
    exact hm.new_le
  . rw [hm.openPays]
    exact hm.old_nonneg
  . rw [hm.openPays]
    exact hm.old_le
  . rw [hm.currentPays]
    simp only
    omega
  . rw [hm.openPays]
    simp only
    omega
  . exact hm.result_ne
  . exact hm.newBit hne
  . exact hm.oldBit
  . rw [hm.currentPays]
    exact afterMatch_of_restOf hnlive hm.new_nonneg hm.new_le (hm.findNew hne)
  . rw [hm.openPays]
    exact afterMatch_of_restOf holive hm.old_nonneg hm.old_le hm.findOld
  . intro id hnid hoid
    rw [hm.find?, if_neg hoid, if_neg hnid]

def firstNewOrder : LimitOrderObject where
  id := 2
  expiration := 2000000000
  seller := "carol"
  orderid := 1
  forSale := 1000
  symbol := firstToken
  sellPrice := ⟨⟨1000, firstToken⟩, ⟨300, steemSymbol⟩⟩

def firstOldOrder : LimitOrderObject where
  id := 1
  expiration := 2000000000
  seller := "bob"
  orderid := 1
  forSale := 302
  symbol := steemSymbol
  sellPrice := ⟨⟨304, steemSymbol⟩, ⟨1001, firstToken⟩⟩

def firstMatch : Exchange where
  ledger :=
    { accounts :=
        ⟨
          [
            { name := "alice" },
            { name := "bob", marketBalance := 302 },
            { name := "carol" }
          ],
          by decide
        ⟩
      accountBalances :=
        ⟨[{ account := "carol", symbol := firstToken, marketBalance := 1000 }], by decide⟩
      assets := ⟨[{ symbol := firstToken, creator := "alice", feePercent := 100 }], by decide⟩ }
  limitOrders := ⟨[firstOldOrder, firstNewOrder], by decide⟩
  nextLimitOrderId := 3

instance : Inhabited Match where
  default := ⟨{}, ⟨"", 0, ⟨0, 0⟩, ⟨0, 0⟩, "", "", 0, ⟨0, 0⟩, ⟨0, 0⟩, "", ⟨⟨0, 0⟩, ⟨0, 0⟩⟩⟩, 0⟩

theorem match'_fair_firstMatch :
    ∃ m, firstMatch.match' firstNewOrder firstOldOrder firstOldOrder.sellPrice = .ok m ∧
      ∃ newGets oldGets newRefund oldRefund,
        FairMatch firstMatch firstNewOrder firstOldOrder m newGets oldGets newRefund
          oldRefund := by
  have hmatch := Checked.eq_ok_of_isSome (d := default)
    (x := firstMatch.match' firstNewOrder firstOldOrder firstOldOrder.sellPrice)
    (by decide +kernel)
  refine ⟨_, hmatch, match'_fair (by decide) (by decide) ?_ ?_ (by decide) (by decide) hmatch⟩
  . refine ⟨⟨?_, ?_, ?_, ?_, ?_⟩, ?_, ?_, ?_, ?_, ?_⟩ <;> decide
  . refine ⟨⟨?_, ?_, ?_, ?_, ?_⟩, ?_, ?_, ?_, ?_, ?_⟩ <;> decide

end Exchange
end Golos
