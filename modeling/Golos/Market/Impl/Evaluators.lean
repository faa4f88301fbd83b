import Mathlib.Data.List.Sort
import Golos.Ledger.Basic

/-!
This module contains the objects of the limit order market, the functions of `database` that match,
fill and cancel orders, and the operations of the market under the rules of hardfork 30.
-/

namespace Golos

open Checked

def stmdSymbol : AssetSymbolType := 0x444d545303#128

def maxShareSupply : ℤ := 1000000000000000

namespace Price

/-- `operator==` and `operator<` of prices; `operator>` is `!(a <= b)`. -/
def eq (a b : Price) : Prop :=
  a.base.symbol = b.base.symbol ∧ a.quote.symbol = b.quote.symbol ∧
    toUint128 b.quote.amount * toUint128 a.base.amount % 2 ^ 128 =
      toUint128 a.quote.amount * toUint128 b.base.amount % 2 ^ 128

def lt (a b : Price) : Prop :=
  a.base.symbol < b.base.symbol ∨
    (a.base.symbol = b.base.symbol ∧
      (a.quote.symbol < b.quote.symbol ∨
        (a.quote.symbol = b.quote.symbol ∧
          toUint128 b.quote.amount * toUint128 a.base.amount % 2 ^ 128 <
            toUint128 a.quote.amount * toUint128 b.base.amount % 2 ^ 128)))

def gt (a b : Price) : Prop :=
  ¬(eq a b ∨ lt a b)

instance : DecidableRel eq := fun _ _ => inferInstanceAs (Decidable (_ ∧ _))

instance : DecidableRel lt := fun _ _ => inferInstanceAs (Decidable (_ ∨ _))

instance : DecidableRel gt := fun _ _ => inferInstanceAs (Decidable (¬_))

/-- `asset / asset` -/
def div (base quote : Asset) : Result Price := do
  ensure (symbolName base.symbol ≠ symbolName quote.symbol)
    (.assertException "base.symbol_name() != quote.symbol_name()")
  pure ⟨base, quote⟩

/-- `~price` -/
def inverse (p : Price) : Price :=
  ⟨p.quote, p.base⟩

def max (p : Price) : Result Price :=
  div ⟨maxShareSupply, p.base.symbol⟩ ⟨1, p.quote.symbol⟩

def validate (p : Price) : Result Unit := do
  ensure (0 < p.base.amount) (.invalidValue "Amount of base must be positive")
  ensure (0 < p.quote.amount) (.invalidValue "Amount of quote must be positive")
  ensure (symbolName p.base.symbol ≠ symbolName p.quote.symbol)
    (.invalidValue "Symbols of base and quote must be different")

end Price

structure LimitOrderObject where
  id : Nat
  expiration : Nat
  seller : AccountName
  orderid : Nat
  forSale : ℤ
  symbol : AssetSymbolType
  sellPrice : Price
  deriving DecidableEq

namespace LimitOrderObject

def amountForSale (o : LimitOrderObject) : Asset :=
  ⟨o.forSale, o.sellPrice.base.symbol⟩

def amountToReceive (o : LimitOrderObject) : Result Asset :=
  o.amountForSale.mulPrice o.sellPrice

-- The orders of the indices `by_price`, `by_expiration` and `by_account`.
def ByPrice (a b : LimitOrderObject) : Prop :=
  a.sellPrice.gt b.sellPrice ∨ (¬b.sellPrice.gt a.sellPrice ∧ a.id ≤ b.id)

def ByExpiration (a b : LimitOrderObject) : Prop :=
  a.expiration ≤ b.expiration

def ByAccount (a b : LimitOrderObject) : Prop :=
  a.seller < b.seller ∨ (a.seller = b.seller ∧ a.orderid ≤ b.orderid)

instance : DecidableRel ByPrice := fun _ _ => inferInstanceAs (Decidable (_ ∨ _))

instance : DecidableRel ByExpiration := fun _ _ => inferInstanceAs (Decidable (_ ≤ _))

instance : DecidableRel ByAccount := fun _ _ => inferInstanceAs (Decidable (_ ∨ _))

end LimitOrderObject

structure MarketPairObject where
  baseDepth : Asset
  quoteDepth : Asset
  deriving DecidableEq

abbrev MarketPairObject.byBaseQuote (p : MarketPairObject) : AssetSymbolType × AssetSymbolType :=
  (p.baseDepth.symbol, p.quoteDepth.symbol)

/-- The part of `database` that the limit order market reads and writes. -/
structure Exchange where
  ledger : Ledger := {}
  limitOrders : Table LimitOrderObject.id := .empty
  marketPairs : Table MarketPairObject.byBaseQuote := .empty
  nextLimitOrderId : Nat := 0
  headBlockTime : Nat := 0

structure FillOrderOperation where
  currentOwner : AccountName
  currentOrderid : Nat
  currentPays : Asset
  currentTradeFee : Asset
  currentTradeFeeReceiver : AccountName
  openOwner : AccountName
  openOrderid : Nat
  openPays : Asset
  openTradeFee : Asset
  openTradeFeeReceiver : AccountName
  openPrice : Price
  deriving DecidableEq

structure LimitOrderCreateOperation where
  owner : AccountName
  orderid : Nat := 0
  amountToSell : Asset
  minToReceive : Asset
  fillOrKill : Bool := false
  expiration : Nat := 4294967295

structure LimitOrderCreate2Operation where
  owner : AccountName
  orderid : Nat := 0
  amountToSell : Asset
  fillOrKill : Bool := false
  exchangeRate : Price
  expiration : Nat := 4294967295

structure LimitOrderCancelOperation where
  owner : AccountName
  orderid : Nat := 0

structure PairToCancel where
  base : String
  quote : String
  reverse : Bool

structure LimitOrderCancelExOperation where
  owner : AccountName
  orderid : Nat := 0
  extensions : List PairToCancel := []

inductive LimitOrderOperation where
  | limitOrderCreate (op : LimitOrderCreateOperation)
  | limitOrderCreate2 (op : LimitOrderCreate2Operation)
  | limitOrderCancel (op : LimitOrderCancelOperation)
  | limitOrderCancelEx (op : LimitOrderCancelExOperation)

namespace Exchange

def findLimitOrder (x : Exchange) (id : Nat) : Option LimitOrderObject :=
  x.limitOrders.find? id

def getLimitOrder (x : Exchange) (owner : AccountName) (orderid : Nat) : Result LimitOrderObject :=
  get (x.limitOrders.rows.find? fun o => o.seller = owner ∧ o.orderid = orderid)
    (.missingObject "limit_order")

def removeLimitOrder (x : Exchange) (o : LimitOrderObject) : Exchange :=
  { x with limitOrders := x.limitOrders.erase o.id }

def adjustBalance (x : Exchange) (name : AccountName) (delta : Asset) : Result Exchange := do
  let ledger ← x.ledger.adjustBalance name delta
  pure { x with ledger := ledger }

def adjustMarketBalance (x : Exchange) (name : AccountName) (delta : Asset) : Result Exchange := do
  let ledger ← x.ledger.adjustMarketBalance name delta
  pure { x with ledger := ledger }

def updatePairDepth (x : Exchange) (base quote : Asset) : Result Exchange :=
  match h : x.marketPairs.find? (base.symbol, quote.symbol) with
  | some p => do
    let newBase ← p.baseDepth.add base
    let newQuote ← p.quoteDepth.add quote
    if newBase.amount = 0 ∧ newQuote.amount = 0 then
      pure { x with marketPairs := x.marketPairs.erase p.byBaseQuote }
    else
      pure
        { x with
          marketPairs := x.marketPairs.modify p.byBaseQuote fun p =>
            { baseDepth := ⟨newBase.amount, p.baseDepth.symbol⟩
              quoteDepth := ⟨newQuote.amount, p.quoteDepth.symbol⟩ } }
  | none =>
    .ok { x with marketPairs := x.marketPairs.insert ⟨base, quote⟩ h }

def updateAssetMarketed (x : Exchange) (symbol : AssetSymbolType) : Result Unit := do
  ensure (symbol ≠ vestsSymbol ∧ symbol ≠ stmdSymbol)
    (.assertException "symbol != VESTS_SYMBOL && symbol != STMD_SYMBOL")
  if symbol = steemSymbol ∨ symbol = sbdSymbol then
    pure ()
  else
    let _ ← x.ledger.getAsset symbol
    pure ()

def cancelOrder (x : Exchange) (order : LimitOrderObject) : Result Exchange := do
  let x ← x.adjustBalance order.seller order.amountForSale
  let minusForSale ← order.amountForSale.neg
  let x ← x.adjustMarketBalance order.seller minusForSale
  let toReceive ← order.amountToReceive
  let minusToReceive ← toReceive.neg
  let x ← x.updatePairDepth minusForSale minusToReceive
  pure (x.removeLimitOrder order)

def fillOrder (x : Exchange) (order : LimitOrderObject) (pays receives : Asset) :
    Result (Exchange × Bool) := do
  ensure (order.amountForSale.symbol = pays.symbol)
    (.assertException "order.amount_for_sale().symbol == pays.symbol")
  ensure (pays.symbol ≠ receives.symbol) (.assertException "pays.symbol != receives.symbol")
  let x ← x.adjustBalance order.seller receives
  let minusPays ← pays.neg
  let x ← x.adjustMarketBalance order.seller minusPays
  let toReceive ← order.amountToReceive
  if pays.amount = order.amountForSale.amount then
    let minusForSale ← order.amountForSale.neg
    let minusToReceive ← toReceive.neg
    let x ← x.updatePairDepth minusForSale minusToReceive
    pure (x.removeLimitOrder order, true)
  else
    let forSale ← int64 (order.forSale - pays.amount) .overflowException
    let x : Exchange :=
      { x with
        limitOrders := x.limitOrders.modify order.id fun o => { o with forSale := forSale } }
    let order := { order with forSale := forSale }
    let rest ← order.amountToReceive
    let sold ← toReceive.sub rest
    let minusSold ← sold.neg
    let x ← x.updatePairDepth minusPays minusSold
    if rest.amount = 0 then
      let x ← x.cancelOrder order
      pure (x, true)
    else
      pure (x, false)

structure SubtractFee where
  exchange : Exchange
  receives : Asset
  fee : Asset
  feeReceiver : AccountName

def subtractFee (x : Exchange) (receives : Asset) : Result SubtractFee := do
  let noFee : Asset := ⟨0, receives.symbol⟩
  if receives.symbol = steemSymbol ∨ receives.symbol = sbdSymbol then
    pure ⟨x, receives, noFee, ""⟩
  else
    let ast ← x.ledger.getAsset receives.symbol
    if ast.feePercent ≠ 0 ∧ receives.amount ≠ 0 then
      let amount ← ofUint128 (toUint128 receives.amount * ast.feePercent % 2 ^ 128 / 10000)
      let fee : Asset := ⟨max amount 1, receives.symbol⟩
      let x ← x.adjustBalance ast.creator fee
      let receives ← receives.sub fee
      pure ⟨x, receives, fee, ast.creator⟩
    else
      pure ⟨x, receives, noFee, ""⟩

structure Match where
  exchange : Exchange
  filled : FillOrderOperation
  result : Nat

/-- What the new and the old order receive, before fees. -/
def matchAmounts (newOrder oldOrder : LimitOrderObject) (matchPrice : Price) :
    Result (Asset × Asset) := do
  let newOrderForSale := newOrder.amountForSale
  let oldOrderForSale := oldOrder.amountForSale
  let oldOrderWorth ← oldOrderForSale.mulPrice matchPrice
  let newFits ← newOrderForSale.le oldOrderWorth
  if newFits then
    let newOrderReceives ← newOrderForSale.mulPrice matchPrice
    pure (newOrderReceives, newOrderForSale)
  else
    pure (oldOrderForSale, oldOrderWorth)

def match' (x : Exchange) (newOrder oldOrder : LimitOrderObject) (matchPrice : Price) :
    Result Match := do
  let (newOrderReceives, oldOrderReceives) ← matchAmounts newOrder oldOrder matchPrice
  let oldOrderPays := newOrderReceives
  let newOrderPays := oldOrderReceives
  let newTrade ← x.subtractFee newOrderReceives
  let oldTrade ← newTrade.exchange.subtractFee oldOrderReceives
  let filled : FillOrderOperation :=
    { currentOwner := newOrder.seller
      currentOrderid := newOrder.orderid
      currentPays := newOrderPays
      currentTradeFee := newTrade.fee
      currentTradeFeeReceiver := newTrade.feeReceiver
      openOwner := oldOrder.seller
      openOrderid := oldOrder.orderid
      openPays := oldOrderPays
      openTradeFee := oldTrade.fee
      openTradeFeeReceiver := oldTrade.feeReceiver
      openPrice := oldOrder.sellPrice }
  let (x, newFilled) ← oldTrade.exchange.fillOrder newOrder newOrderPays newTrade.receives
  let (x, oldFilled) ← x.fillOrder oldOrder oldOrderPays oldTrade.receives
  pure ⟨x, filled, newFilled.toNat ||| oldFilled.toNat <<< 1⟩

/--
The loop of `apply_order` from `limitItr` to `limitEnd`, both given by what is left of the index.
A loop that never meets `limitEnd` runs past the end, which is undefined and fails here.
-/
def matchOrders (orderId : Nat) (limitEnd : List LimitOrderObject) :
    Exchange → List LimitOrderObject → Result Exchange
  | x, [] => do
    ensure (limitEnd.length = 0) (.assertException "limit_itr != end()")
    pure x
  | x, old :: limitItr => do
    if limitItr.length + 1 = limitEnd.length then
      pure x
    else
      let newOrder ← get (x.findLimitOrder orderId) (.missingObject "limit_order")
      let oldOrder ← get (x.findLimitOrder old.id) (.missingObject "limit_order")
      let m ← x.match' newOrder oldOrder oldOrder.sellPrice
      if m.result &&& 1 ≠ 0 then
        pure m.exchange
      else
        matchOrders orderId limitEnd m.exchange limitItr

def byPrice (x : Exchange) : List LimitOrderObject :=
  x.limitOrders.rows.insertionSort LimitOrderObject.ByPrice

/-- `index.lower_bound(price)` in the index `by_price`. -/
def lowerBound (index : List LimitOrderObject) (price : Price) : List LimitOrderObject :=
  index.dropWhile fun o => o.sellPrice.gt price

/-- `index.upper_bound(price)` -/
def upperBound (index : List LimitOrderObject) (price : Price) : List LimitOrderObject :=
  index.dropWhile fun o => ¬price.gt o.sellPrice

/-- Whether the order was filled, in the state after matching. -/
def applyOrder (x : Exchange) (newOrder : LimitOrderObject) : Result (Exchange × Bool) := do
  let maxPrice := newOrder.sellPrice.inverse
  let limit ← maxPrice.max
  let limitItr := lowerBound x.byPrice limit
  let limitEnd := upperBound x.byPrice maxPrice
  let x ← matchOrders newOrder.id limitEnd x limitItr
  pure (x, (x.findLimitOrder newOrder.id).isNone)

def cancelOrders (x : Exchange) (orders : List LimitOrderObject) : Result Exchange :=
  orders.foldlM cancelOrder x

def clearExpiredOrders (x : Exchange) : Result Exchange :=
  x.cancelOrders
    ((x.limitOrders.rows.insertionSort LimitOrderObject.ByExpiration).takeWhile
      fun o => o.expiration < x.headBlockTime)

/-- The part of `process_sbd_debt_conversions` that cancels the orders which sell GBG. -/
def cancelSbdOrders (x : Exchange) : Result Exchange :=
  x.cancelOrders (x.limitOrders.rows.filter fun o => o.symbol = sbdSymbol)

end Exchange

/-- `is_valid_symbol_name` on the bytes of a name. -/
def isValidSymbolName (name : List Nat) : Bool :=
  let parts := name.splitOn 46
  name.length ≤ 14 ∧ parts.length ≤ 2 ∧ parts.all fun part =>
    3 ≤ part.length ∧ part.all fun c => 65 ≤ c ∧ c ≤ 90

def validateSymbols (sell receive : AssetSymbolType) : Result Unit :=
  ensure (isValidSymbolName (symbolName sell) ∧ isValidSymbolName (symbolName receive) ∧
      sell ≠ receive)
    (.assertException "Limit order must have correct assets")

def LimitOrderCreateOperation.validate (op : LimitOrderCreateOperation) : Result Unit := do
  validateSymbols op.amountToSell.symbol op.minToReceive.symbol
  let price ← Price.div op.amountToSell op.minToReceive
  price.validate

def LimitOrderCreate2Operation.validate (op : LimitOrderCreate2Operation) : Result Unit := do
  op.exchangeRate.validate
  validateSymbols op.amountToSell.symbol op.exchangeRate.quote.symbol
  ensure (op.amountToSell.symbol = op.exchangeRate.base.symbol)
    (.invalidValue "Sell asset must be the base of the price")
  let traded ← op.amountToSell.mulPrice op.exchangeRate
  ensure (0 < traded.amount) (.invalidValue "Amount to sell cannot round to 0 when traded")

def nameBytes (name : String) : List Nat :=
  name.toUTF8.data.toList.map UInt8.toNat

def PairToCancel.validate (ptc : PairToCancel) : Result Unit := do
  ensure (ptc.base = "" ∨ isValidSymbolName (nameBytes ptc.base))
    (.invalidValue "Symbol name is invalid")
  ensure (ptc.quote = "" ∨ isValidSymbolName (nameBytes ptc.quote))
    (.invalidValue "Symbol name is invalid")
  ensure (ptc.quote = "" ∨ ptc.base ≠ ptc.quote)
    (.invalidValue "base and quote must be different")

def LimitOrderCancelExOperation.validate (op : LimitOrderCancelExOperation) : Result Unit := do
  op.extensions.forM PairToCancel.validate
  ensure (op.extensions = [] ∨ op.orderid = 0) (.invalidValue "orderid")

def PairToCancel.isTarget (ptc : PairToCancel) (o : LimitOrderObject) : Bool :=
  let base := symbolName o.sellPrice.base.symbol
  let quote := symbolName o.sellPrice.quote.symbol
  let skips (name : String) (own other : List Nat) : Bool :=
    name ≠ "" ∧ own ≠ nameBytes name ∧ (ptc.reverse = false ∨ other ≠ nameBytes name)
  !(skips ptc.base base quote || skips ptc.quote quote base)

namespace Exchange

/-- `symbol == STEEM_SYMBOL || symbol == SBD_SYMBOL || get_asset(symbol).whitelists(other)` -/
def checkWhitelist (x : Exchange) (symbol other : AssetSymbolType) (msg : String) :
    Result Unit := do
  if symbol = steemSymbol ∨ symbol = sbdSymbol then
    pure ()
  else
    let ast ← x.ledger.getAsset symbol
    ensure (ast.whitelists other) (.invalidValue msg)

/--
The body that `limit_order_create` and `limit_order_create2` share. They differ in the price and in
`toReceive`, the amount by which the depth of the pair grows.
-/
def createLimitOrder (x : Exchange) (owner : AccountName) (orderid : Nat) (amountToSell : Asset)
    (sellPrice : Price) (toReceive : LimitOrderObject → Result Asset) (fillOrKill : Bool)
    (expiration : Nat) : Result Exchange := do
  let receiveSymbol := sellPrice.quote.symbol
  x.checkWhitelist amountToSell.symbol receiveSymbol "Selling asset must whitelist receiving"
  x.checkWhitelist receiveSymbol amountToSell.symbol "Receiving asset must whitelist selling"
  ensure (x.headBlockTime < expiration)
    (.invalidValue "Limit order has to expire after head block time.")
  let account ← x.ledger.getAccount owner
  x.ledger.checkBalance account amountToSell
  let minusAmount ← amountToSell.neg
  let x ← x.adjustBalance owner minusAmount
  let x ← x.adjustMarketBalance owner amountToSell
  ensure (∀ o ∈ x.limitOrders.rows, ¬(o.seller = owner ∧ o.orderid = orderid))
    (.objectAlreadyExist "limit_order")
  let order : LimitOrderObject :=
    { id := x.nextLimitOrderId
      expiration := expiration
      seller := owner
      orderid := orderid
      forSale := amountToSell.amount
      symbol := amountToSell.symbol
      sellPrice := sellPrice }
  let limitOrders ← get (x.limitOrders.emplace order) .uniquenessViolated
  let x : Exchange :=
    { x with limitOrders := limitOrders, nextLimitOrderId := x.nextLimitOrderId + 1 }
  let toReceive ← toReceive order
  let (x, filled) ← x.applyOrder order
  ensure (fillOrKill = false ∨ filled = true)
    (.assertException "Cancelling order because it was not filled.")
  x.updateAssetMarketed amountToSell.symbol
  x.updateAssetMarketed receiveSymbol
  x.updatePairDepth amountToSell toReceive

def limitOrderCreate (x : Exchange) (op : LimitOrderCreateOperation) : Result Exchange := do
  let price ← Price.div op.amountToSell op.minToReceive
  x.createLimitOrder op.owner op.orderid op.amountToSell price (fun _ => pure op.minToReceive)
    op.fillOrKill op.expiration

def limitOrderCreate2 (x : Exchange) (op : LimitOrderCreate2Operation) : Result Exchange :=
  x.createLimitOrder op.owner op.orderid op.amountToSell op.exchangeRate
    LimitOrderObject.amountToReceive op.fillOrKill op.expiration

def limitOrderCancel (x : Exchange) (op : LimitOrderCancelOperation) : Result Exchange := do
  let order ← x.getLimitOrder op.owner op.orderid
  x.cancelOrder order

/-- The loop over the orders of one owner, which stops after 101 cancelled ones. -/
def cancelPair (x : Exchange) (owner : AccountName) (ptc : PairToCancel) : Result Exchange :=
  x.cancelOrders
    ((((x.limitOrders.rows.insertionSort LimitOrderObject.ByAccount).filter
      fun o => o.seller = owner).filter ptc.isTarget).take 101)

def limitOrderCancelEx (x : Exchange) (op : LimitOrderCancelExOperation) : Result Exchange := do
  let x ← op.extensions.foldlM (fun x ptc => x.cancelPair op.owner ptc) x
  if op.extensions = [] then
    let order ← x.getLimitOrder op.owner op.orderid
    x.cancelOrder order
  else
    pure x

/-- An operation that passes `validate()`, applied. -/
def applyLimitOrderOperation (x : Exchange) : LimitOrderOperation → Result Exchange
  | .limitOrderCreate op => do
    op.validate
    x.limitOrderCreate op
  | .limitOrderCreate2 op => do
    op.validate
    x.limitOrderCreate2 op
  | .limitOrderCancel op => x.limitOrderCancel op
  | .limitOrderCancelEx op => do
    op.validate
    x.limitOrderCancelEx op

end Exchange

end Golos
