import Golos.Lib.Transition
import Golos.Market.Lemmas.Match

/-!
This module contains the runs of the chain as the limit order market sees them, and the invariant
that ties market balances and depths to the open orders.
-/

namespace Golos

open Checked Ledger

inductive ExchangeEvent where
  | operation (op : LimitOrderOperation)
  | clearExpiredOrders
  | cancelSbdOrders
  /-- Everything that is not an order of the market: other operations, other work at block ends. -/
  | other

/-- The price of the order that an event creates. -/
def ExchangeEvent.price : ExchangeEvent → Option Price
  | .operation (.limitOrderCreate op) => some ⟨op.amountToSell, op.minToReceive⟩
  | .operation (.limitOrderCreate2 op) => some op.exchangeRate
  | _ => none

def FitsInt64 (x : ℤ) : Prop :=
  minInt64 ≤ x ∧ x ≤ maxInt64

/-- The amounts of an operation are of type `int64_t`. -/
def LimitOrderOperation.Fits : LimitOrderOperation → Prop
  | .limitOrderCreate op => FitsInt64 op.amountToSell.amount ∧ FitsInt64 op.minToReceive.amount
  | .limitOrderCreate2 op => FitsInt64 op.amountToSell.amount ∧
      FitsInt64 op.exchangeRate.base.amount ∧ FitsInt64 op.exchangeRate.quote.amount
  | .limitOrderCancel _ => True
  | .limitOrderCancelEx _ => True

namespace Exchange

/-- The market before its first order. -/
structure NoOrders (x : Exchange) : Prop where
  limitOrders : x.limitOrders = .empty
  marketPairs : x.marketPairs = .empty
  market : ∀ a s, x.ledger.marketBalance a s = 0

/-- What the rest of the chain does: it leaves orders, pairs and market balances alone. -/
structure Elsewhere (x x' : Exchange) : Prop where
  limitOrders : x'.limitOrders = x.limitOrders
  marketPairs : x'.marketPairs = x.marketPairs
  market : ∀ a s, x'.ledger.marketBalance a s = x.ledger.marketBalance a s

/-- One event. A failed operation leaves no trace, so it is no event. -/
def Step (x : Exchange) : ExchangeEvent → Exchange → Prop
  | .operation op, x' => op.Fits ∧ x.applyLimitOrderOperation op = .ok x'
  | .clearExpiredOrders, x' => x.clearExpiredOrders = .ok x'
  | .cancelSbdOrders, x' => x.cancelSbdOrders = .ok x'
  | .other, x' => x.Elsewhere x'

def system : TransitionSystem Exchange ExchangeEvent where
  initial := NoOrders
  step := Step

/--
All orders are live, and market balances and depths are the sums over the orders, the depths up to
`db` and `dq`, which are not 0 only while an order is being created.
-/
structure Balanced (x : Exchange) (db dq : AssetSymbolType → AssetSymbolType → ℤ) : Prop where
  live : ∀ id o, x.findLimitOrder id = some o → o.Live
  market : ∀ a s, x.ledger.marketBalance a s = x.limitOrders.sum fun o => inMarket o a s
  base : ∀ b q, x.baseDepth b q = x.limitOrders.sum (fun o => inBase o b q) + db b q
  quote : ∀ b q, x.quoteDepth b q = x.limitOrders.sum (fun o => inQuote o b q) + dq b q

section steps

variable {x x' : Exchange} {db dq : AssetSymbolType → AssetSymbolType → ℤ}

theorem Balanced.settles {o : LimitOrderObject} {rest : Option LimitOrderObject}
    {main : AccountName → AssetSymbolType → ℤ} (hx : x.Balanced db dq)
    (hrest : ∀ o' ∈ rest, o'.Live) (h : Settles x x' o rest main) : x'.Balanced db dq where
  live := by
    intro id o' ho'
    unfold findLimitOrder at ho'
    rw [h.find?] at ho'
    split at ho'
    . apply hrest
      exact ho'
    . exact hx.live id o' ho'
  market := by
    intro a s
    rw [h.market, h.sum, hx.market]
  base := by
    intro b q
    rw [h.base, h.sum, hx.base]
    omega
  quote := by
    intro b q
    rw [h.quote, h.sum, hx.quote]
    omega

theorem Balanced.matches {n o : LimitOrderObject} {m : Match} {p q : ℤ} (hx : x.Balanced db dq)
    (hn : n.Live) (ho : o.Live) (h : Matches x n o m p q) : m.exchange.Balanced db dq where
  live := by
    intro id o' ho'
    rw [h.find?] at ho'
    split at ho'
    . exact (restOf_live ho h.old_nonneg h.old_le o' ho').2
    . split at ho'
      . exact (restOf_live hn h.new_nonneg h.new_le o' ho').2
      . exact hx.live id o' ho'
  market := by
    intro a s
    rw [h.market, h.sum, hx.market]
  base := by
    intro b c
    rw [h.base, h.sum, hx.base]
    omega
  quote := by
    intro b c
    rw [h.quote, h.sum, hx.quote]
    omega

/-- A successful match is a match of the two orders found. -/
theorem Balanced.matches_of_match' {n o : LimitOrderObject} {m : Match} {id id' : Nat}
    (hx : x.Balanced db dq) (hn : x.findLimitOrder id = some n)
    (ho : x.findLimitOrder id' = some o) (h : x.match' n o o.sellPrice = .ok m) :
    n.Live ∧ o.Live ∧ n.id = id ∧ o.id = id' ∧ ∃ p q, Matches x n o m p q := by
  have hnlive := hx.live id n hn
  have holive := hx.live id' o ho
  have hnid := Table.key_of_find? hn
  have hoid := Table.key_of_find? ho
  rw [← hnid] at hn
  rw [← hoid] at ho
  obtain ⟨_, _, -, hm⟩ := Exchange.matches_of_match' hn ho hnlive holive h
  exact ⟨hnlive, holive, hnid, hoid, _, _, hm⟩

theorem Balanced.matchOrders {orderId : Nat} {limitEnd limitItr : List LimitOrderObject}
    (hx : x.Balanced db dq) (h : matchOrders orderId limitEnd x limitItr = .ok x') :
    x'.Balanced db dq := by
  induction limitItr generalizing x with
  | nil =>
    simp only [Exchange.matchOrders, bind_eq_ok, pure_eq_ok] at h
    obtain ⟨_, -, rfl⟩ := h
    exact hx
  | cons old limitItr ih =>
    unfold Exchange.matchOrders at h
    split at h
    . simp only [pure_eq_ok] at h
      subst h
      exact hx
    . simp only [bind_eq_ok, get_eq_ok] at h
      obtain ⟨n, hn, o, ho, m, hm, h⟩ := h
      obtain ⟨hnlive, holive, -, -, p, q, hmatches⟩ := hx.matches_of_match' hn ho hm
      have hx := hx.matches hnlive holive hmatches
      split at h
      . simp only [pure_eq_ok] at h
        subst h
        exact hx
      . exact ih hx h

theorem Balanced.applyOrder {o : LimitOrderObject} {filled : Bool} (hx : x.Balanced db dq)
    (h : x.applyOrder o = .ok (x', filled)) : x'.Balanced db dq := by
  simp only [Exchange.applyOrder, bind_eq_ok, pure_eq_ok, Prod.mk.injEq] at h
  obtain ⟨_, -, x₁, hmatch, rfl, -⟩ := h
  exact hx.matchOrders hmatch

theorem Balanced.cancelOrder {o : LimitOrderObject} (hx : x.Balanced db dq)
    (ho : x.findLimitOrder o.id = some o) (h : x.cancelOrder o = .ok x') :
    x'.Balanced db dq ∧ ∀ id, x'.findLimitOrder id =
      if id = o.id then none else x.findLimitOrder id := by
  have hsettles := settles_cancelOrder ho (hx.live o.id o ho) h
  refine ⟨hx.settles ?_ hsettles, hsettles.find?⟩
  intro o' ho'
  cases ho'

/-- Cancelling different orders of the book, one after the other. -/
theorem Balanced.cancelOrders {orders : List LimitOrderObject} (hx : x.Balanced db dq)
    (hnodup : (orders.map LimitOrderObject.id).Nodup)
    (horders : ∀ o ∈ orders, x.findLimitOrder o.id = some o)
    (h : x.cancelOrders orders = .ok x') :
    x'.Balanced db dq ∧ ∀ id o, x'.findLimitOrder id = some o → x.findLimitOrder id = some o := by
  induction orders generalizing x with
  | nil =>
    simp only [Exchange.cancelOrders, List.foldlM_nil, pure_eq_ok] at h
    subst h
    exact ⟨hx, fun _ _ => id⟩
  | cons o orders ih =>
    simp only [Exchange.cancelOrders, List.foldlM_cons, bind_eq_ok] at h
    obtain ⟨x₁, hcancel, h⟩ := h
    rw [List.map_cons, List.nodup_cons] at hnodup
    obtain ⟨hx₁, hfind⟩ := hx.cancelOrder (horders o List.mem_cons_self) hcancel
    have hrest : ∀ o' ∈ orders, x₁.findLimitOrder o'.id = some o' := by
      intro o' ho'
      rw [hfind, if_neg]
      . exact horders o' (List.mem_cons_of_mem o ho')
      . intro hid
        apply hnodup.1
        rw [← hid]
        exact List.mem_map_of_mem ho'
    obtain ⟨hx', hsub⟩ := ih hx₁ hnodup.2 hrest h
    refine ⟨hx', ?_⟩
    intro id o' ho'
    have := hsub id o' ho'
    rw [hfind] at this
    split at this
    . cases this
    . exact this

/-- A part of the rows of the book in any order meets the conditions of `cancelOrders`. -/
theorem cancelOrders_of_subperm {orders rows : List LimitOrderObject} (hrows : rows.Perm
    x.limitOrders.rows) (hsub : orders.Sublist rows) :
    (orders.map LimitOrderObject.id).Nodup ∧ ∀ o ∈ orders, x.findLimitOrder o.id = some o := by
  constructor
  . apply List.Nodup.sublist (hsub.map _)
    rw [(hrows.map _).nodup_iff]
    exact x.limitOrders.nodup
  . intro o ho
    apply Table.find?_of_mem
    rw [← hrows.mem_iff]
    exact hsub.subset ho

end steps

section create

variable {x x' : Exchange} {owner : AccountName} {orderid : Nat} {amountToSell : Asset}
  {sellPrice : Price} {toReceive : LimitOrderObject → Result Asset} {fillOrKill : Bool}
  {expiration : Nat}

/-- The order that `createLimitOrder` puts into the book. -/
def newOrder (x : Exchange) (owner : AccountName) (orderid : Nat) (amountToSell : Asset)
    (sellPrice : Price) (expiration : Nat) : LimitOrderObject where
  id := x.nextLimitOrderId
  expiration := expiration
  seller := owner
  orderid := orderid
  forSale := amountToSell.amount
  symbol := amountToSell.symbol
  sellPrice := sellPrice

/-- Creating an order: `x₁` is the state before matching, `x₂` the state after it. -/
structure Creates (x x₁ x₂ x' : Exchange) (o : LimitOrderObject) (amountToSell received : Asset)
    (filled : Bool) : Prop where
  ledger : Trades x.ledger x₁.ledger (single o.seller ⟨-amountToSell.amount, amountToSell.symbol⟩)
    (single o.seller amountToSell)
  base : ∀ b q, x₁.baseDepth b q = x.baseDepth b q
  quote : ∀ b q, x₁.quoteDepth b q = x.quoteDepth b q
  inserts : Table.Inserts x.limitOrders x₁.limitOrders o
  applyOrder : x₁.applyOrder o = .ok (x₂, filled)
  updatePairDepth : x₂.updatePairDepth amountToSell received = .ok x'

theorem creates_of_createLimitOrder
    (h : x.createLimitOrder owner orderid amountToSell sellPrice toReceive fillOrKill expiration
      = .ok x') :
    ∃ x₁ x₂ received filled,
      toReceive (x.newOrder owner orderid amountToSell sellPrice expiration) = .ok received ∧
        Creates x x₁ x₂ x' (x.newOrder owner orderid amountToSell sellPrice expiration)
          amountToSell received filled := by
  simp only [createLimitOrder, bind_eq_ok, Asset.neg_eq_ok, get_eq_ok] at h
  obtain ⟨_, -, _, -, _, -, _, -, _, -, _, ⟨-, rfl⟩, x₁, hmain, x₂, hmarket, _, -, t, hemplace,
    received, hreceived, ⟨x₃, filled⟩, happly, _, -, _, -, _, -, hdepth⟩ := h
  have hmain := changes_adjustBalance hmain
  have hmarket := changes_adjustMarketBalance hmarket
  have hchanges := hmain.trans hmarket
  simp only [Int.add_zero, Int.zero_add] at hchanges
  have hnext := hchanges.nextLimitOrderId
  rw [hnext] at hreceived happly hemplace
  refine ⟨{ x₂ with limitOrders := t, nextLimitOrderId := x.nextLimitOrderId + 1 }, x₃, received,
    filled, hreceived, hchanges.ledger, ?_, ?_, ?_, happly, hdepth⟩
  . intro b q
    have := hchanges.base b q
    rwa [Int.add_zero] at this
  . intro b q
    have := hchanges.quote b q
    rwa [Int.add_zero] at this
  . have := Table.Inserts.emplace hemplace
    rw [hchanges.limitOrders] at this
    exact this

/-- What an operation that creates an order promises about it. -/
structure Sellable (o : LimitOrderObject) (amountToSell received : Asset) : Prop where
  live : o.Live
  amountToSell : amountToSell = o.amountForSale
  received : received = ⟨o.asks, o.sellPrice.quote.symbol⟩

theorem Balanced.inserted {x₁ x₂ : Exchange} {o : LimitOrderObject} {received : Asset}
    {filled : Bool} (hx : x.Balanced (fun _ _ => 0) (fun _ _ => 0))
    (ho : Sellable o amountToSell received)
    (h : Creates x x₁ x₂ x' o amountToSell received filled) :
    x₁.Balanced (fun b q => -inBase o b q) (fun b q => -inQuote o b q) where
  live := by
    intro id o' ho'
    rcases h.inserts.find?_eq_some_iff.mp ho' with ho' | ⟨rfl, -⟩
    . exact hx.live id o' ho'
    . exact ho.live
  market := by
    intro a s
    rw [h.ledger.market, h.inserts.sum, hx.market, ho.amountToSell]
    rfl
  base := by
    intro b q
    rw [h.base, h.inserts.sum, hx.base]
    omega
  quote := by
    intro b q
    rw [h.quote, h.inserts.sum, hx.quote]
    omega

theorem Balanced.creates {x₁ x₂ : Exchange} {o : LimitOrderObject} {received : Asset}
    {filled : Bool} (hx : x.Balanced (fun _ _ => 0) (fun _ _ => 0))
    (ho : Sellable o amountToSell received)
    (h : Creates x x₁ x₂ x' o amountToSell received filled) :
    x'.Balanced (fun _ _ => 0) (fun _ _ => 0) := by
  have hx₁ := hx.inserted ho h
  obtain ⟨hlive, rfl, rfl⟩ := ho
  have hx₂ := hx₁.applyOrder h.applyOrder
  have hdepth := changes_updatePairDepth h.updatePairDepth
  constructor
  . intro id o' ho'
    apply hx₂.live id o'
    unfold findLimitOrder at ho' ⊢
    rwa [hdepth.limitOrders] at ho'
  . intro a s
    rw [hdepth.ledger.market, hdepth.limitOrders, hx₂.market, Int.add_zero]
  . intro b q
    rw [hdepth.base, hdepth.limitOrders, hx₂.base, Int.add_zero]
    exact Int.neg_add_cancel_right _ _
  . intro b q
    rw [hdepth.quote, hdepth.limitOrders, hx₂.quote, Int.add_zero]
    exact Int.neg_add_cancel_right _ _

end create

section operations

variable {x x' : Exchange}

/-- An amount priced by itself asks for what it is priced at. -/
theorem sellable_of_limitOrderCreate {op : LimitOrderCreateOperation}
    (hfits : (LimitOrderOperation.limitOrderCreate op).Fits) (hvalid : op.validate = .ok ()) :
    Sellable (x.newOrder op.owner op.orderid op.amountToSell ⟨op.amountToSell, op.minToReceive⟩
      op.expiration) op.amountToSell op.minToReceive := by
  simp only [LimitOrderCreateOperation.validate, Price.div, Price.validate, bind_eq_ok,
    ensure_eq_ok, pure_eq_ok] at hvalid
  obtain ⟨_, -, _, ⟨_, hnames, rfl⟩, _, hbase, _, hquote, -⟩ := hvalid
  have hasks : op.amountToSell.amount * op.minToReceive.amount / op.amountToSell.amount
      = op.minToReceive.amount := Int.mul_ediv_cancel_left _ (ne_of_gt hbase)
  have hsell := hfits.1.2
  have hreceive := hfits.2.2
  refine ⟨⟨⟨hbase, hsell, hquote, hreceive, hnames⟩, rfl, hbase, hsell, ?_, ?_⟩, rfl, ?_⟩
  . simp only [LimitOrderObject.asks, newOrder, hasks]
    exact hquote
  . simp only [LimitOrderObject.asks, newOrder, hasks]
    exact hreceive
  . simp only [LimitOrderObject.asks, newOrder, hasks]

/-- The check that the amount does not round to 0 rules out a wrapped product too. -/
theorem sellable_of_limitOrderCreate2 {op : LimitOrderCreate2Operation}
    (hfits : (LimitOrderOperation.limitOrderCreate2 op).Fits) (hvalid : op.validate = .ok ())
    {received : Asset}
    (hreceived : (x.newOrder op.owner op.orderid op.amountToSell op.exchangeRate
      op.expiration).amountToReceive = .ok received) :
    Sellable (x.newOrder op.owner op.orderid op.amountToSell op.exchangeRate op.expiration)
      op.amountToSell received := by
  simp only [LimitOrderCreate2Operation.validate, Price.validate, bind_eq_ok, ensure_eq_ok]
    at hvalid
  obtain ⟨_, ⟨_, hbase, _, hquote, hnames⟩, _, -, _, hsymbol, traded, htraded, hpos⟩ := hvalid
  obtain ⟨hsell, hbaseFits, hquoteFits⟩ := hfits
  have hprice : op.exchangeRate.Valid := ⟨hbase, hbaseFits.2, hquote, hquoteFits.2, hnames⟩
  have hamount : op.amountToSell = ⟨op.amountToSell.amount, op.exchangeRate.base.symbol⟩ := by
    rw [← hsymbol]
  rw [hamount] at htraded
  have hnonneg := Price.nonneg_of_mulPrice hprice hsell.1 htraded
  obtain ⟨hexact, hle⟩ := Price.of_mulPrice_base hprice hnonneg hsell.2 htraded hpos
  have hasks : traded.amount = (x.newOrder op.owner op.orderid op.amountToSell op.exchangeRate
      op.expiration).asks := by rw [hexact]; rfl
  have hforSale : 0 < op.amountToSell.amount := by
    rcases hnonneg.lt_or_eq with h | h
    . exact h
    . rw [hexact, ← h] at hpos
      simp at hpos
  have hlive : (x.newOrder op.owner op.orderid op.amountToSell op.exchangeRate
      op.expiration).Live := by
    refine ⟨hprice, hsymbol, hforSale, hsell.2, ?_, ?_⟩
    . rw [← hasks]
      exact hpos
    . rw [← hasks]
      exact hle
  refine ⟨hlive, hamount, ?_⟩
  rw [hlive.amountToReceive_eq] at hreceived
  injection hreceived with hreceived
  exact hreceived.symm

theorem find_of_getLimitOrder {owner : AccountName} {orderid : Nat} {o : LimitOrderObject}
    (h : x.getLimitOrder owner orderid = .ok o) : x.findLimitOrder o.id = some o := by
  simp only [getLimitOrder, get_eq_ok] at h
  exact Table.find?_of_mem (List.mem_of_find?_eq_some h)

/-- Cancelling keeps the balance, and the orders left are orders that were there before. -/
def Cancels (x x' : Exchange) : Prop :=
  ∀ db dq, x.Balanced db dq → x'.Balanced db dq ∧
    ∀ id o, x'.findLimitOrder id = some o → x.findLimitOrder id = some o

theorem Cancels.refl (x : Exchange) : Cancels x x :=
  fun _ _ hx => ⟨hx, fun _ _ => id⟩

theorem Cancels.trans {x x' x'' : Exchange} (h : Cancels x x') (h' : Cancels x' x'') :
    Cancels x x'' := by
  intro db dq hx
  obtain ⟨hx', hsub⟩ := h db dq hx
  obtain ⟨hx'', hsub'⟩ := h' db dq hx'
  refine ⟨hx'', ?_⟩
  intro id o ho
  apply hsub
  apply hsub'
  exact ho

theorem cancels_cancelOrder {o : LimitOrderObject} (ho : x.findLimitOrder o.id = some o)
    (h : x.cancelOrder o = .ok x') : Cancels x x' := by
  intro db dq hx
  obtain ⟨hx', hfind⟩ := hx.cancelOrder ho h
  refine ⟨hx', ?_⟩
  intro id o' ho'
  rw [hfind] at ho'
  split at ho'
  . cases ho'
  . exact ho'

theorem cancels_cancelOrders {orders rows : List LimitOrderObject}
    (hrows : rows.Perm x.limitOrders.rows) (hsub : orders.Sublist rows)
    (h : x.cancelOrders orders = .ok x') : Cancels x x' := by
  intro db dq hx
  obtain ⟨hnodup, hfind⟩ := cancelOrders_of_subperm hrows hsub
  exact hx.cancelOrders hnodup hfind h

theorem cancels_cancelPair {owner : AccountName} {ptc : PairToCancel}
    (h : x.cancelPair owner ptc = .ok x') : Cancels x x' := by
  apply cancels_cancelOrders _ _ h
  . exact x.limitOrders.rows.insertionSort LimitOrderObject.ByAccount
  . exact List.perm_insertionSort _ _
  . apply (List.take_sublist _ _).trans
    apply List.filter_sublist.trans
    exact List.filter_sublist

theorem cancels_limitOrderCancelEx {op : LimitOrderCancelExOperation}
    (h : x.limitOrderCancelEx op = .ok x') : Cancels x x' := by
  simp only [limitOrderCancelEx, bind_eq_ok] at h
  obtain ⟨x₁, hfold, h⟩ := h
  have hx₁ : Cancels x x₁ := by
    clear h
    generalize op.extensions = extensions at hfold
    induction extensions generalizing x with
    | nil =>
      simp only [List.foldlM_nil, pure_eq_ok] at hfold
      subst hfold
      exact .refl x
    | cons ptc extensions ih =>
      simp only [List.foldlM_cons, bind_eq_ok] at hfold
      obtain ⟨x₂, hpair, hfold⟩ := hfold
      exact (cancels_cancelPair hpair).trans (ih hfold)
  split at h
  . simp only [bind_eq_ok] at h
    obtain ⟨o, ho, h⟩ := h
    exact hx₁.trans (cancels_cancelOrder (find_of_getLimitOrder ho) h)
  . simp only [pure_eq_ok] at h
    subst h
    exact hx₁

/-- What one event does to the book: it cancels orders, creates one, or leaves the book alone. -/
theorem step_cases {e : ExchangeEvent} (h : x.Step e x') :
    Cancels x x' ∨ x.Elsewhere x' ∨
      ∃ x₁ x₂ o amountToSell received filled, e.price = some o.sellPrice ∧
        Sellable o amountToSell received ∧
        Creates x x₁ x₂ x' o amountToSell received filled := by
  cases e with
  | operation op =>
    obtain ⟨hfits, h⟩ := h
    cases op with
    | limitOrderCreate op =>
      simp only [applyLimitOrderOperation, limitOrderCreate, bind_eq_ok, Price.div, ensure_eq_ok,
        pure_eq_ok] at h
      obtain ⟨_, hvalid, _, ⟨_, -, rfl⟩, h⟩ := h
      obtain ⟨x₁, x₂, received, filled, hreceived, hcreates⟩ := creates_of_createLimitOrder h
      injection hreceived with hreceived
      subst hreceived
      exact .inr (.inr ⟨x₁, x₂, _, _, _, filled, rfl, sellable_of_limitOrderCreate hfits hvalid,
        hcreates⟩)
    | limitOrderCreate2 op =>
      simp only [applyLimitOrderOperation, bind_eq_ok] at h
      obtain ⟨_, hvalid, h⟩ := h
      obtain ⟨x₁, x₂, received, filled, hreceived, hcreates⟩ := creates_of_createLimitOrder h
      exact .inr (.inr ⟨x₁, x₂, _, _, _, filled, rfl,
        sellable_of_limitOrderCreate2 hfits hvalid hreceived, hcreates⟩)
    | limitOrderCancel op =>
      simp only [applyLimitOrderOperation, limitOrderCancel, bind_eq_ok] at h
      obtain ⟨o, ho, h⟩ := h
      exact .inl (cancels_cancelOrder (find_of_getLimitOrder ho) h)
    | limitOrderCancelEx op =>
      simp only [applyLimitOrderOperation, bind_eq_ok] at h
      obtain ⟨_, -, h⟩ := h
      exact .inl (cancels_limitOrderCancelEx h)
  | clearExpiredOrders =>
    refine .inl (cancels_cancelOrders
      (List.perm_insertionSort LimitOrderObject.ByExpiration _) ?_ h)
    exact List.takeWhile_sublist _
  | cancelSbdOrders => exact .inl (cancels_cancelOrders (.refl _) List.filter_sublist h)
  | other => exact .inr (.inl h)

theorem Elsewhere.balanced (h : x.Elsewhere x')
    {db dq : AssetSymbolType → AssetSymbolType → ℤ} (hx : x.Balanced db dq) :
    x'.Balanced db dq where
  live := by
    unfold findLimitOrder
    rw [h.limitOrders]
    exact hx.live
  market := by
    intro a s
    rw [h.market, h.limitOrders]
    exact hx.market a s
  base := by
    intro b q
    unfold baseDepth pairDepth
    rw [h.marketPairs, h.limitOrders]
    exact hx.base b q
  quote := by
    intro b q
    unfold quoteDepth pairDepth
    rw [h.marketPairs, h.limitOrders]
    exact hx.quote b q

theorem Balanced.step {e : ExchangeEvent} (hx : x.Balanced (fun _ _ => 0) (fun _ _ => 0))
    (h : x.Step e x') : x'.Balanced (fun _ _ => 0) (fun _ _ => 0) := by
  rcases step_cases h with h | h | ⟨x₁, x₂, o, amountToSell, received, filled, -, ho, h⟩
  . exact (h _ _ hx).1
  . exact h.balanced hx
  . exact hx.creates ho h

theorem NoOrders.balanced (h : x.NoOrders) : x.Balanced (fun _ _ => 0) (fun _ _ => 0) where
  live := by
    intro id o ho
    unfold findLimitOrder at ho
    rw [h.limitOrders] at ho
    cases ho
  market := by
    intro a s
    rw [h.market, h.limitOrders]
    rfl
  base := by
    intro b q
    unfold baseDepth pairDepth
    rw [h.marketPairs, h.limitOrders]
    rfl
  quote := by
    intro b q
    unfold quoteDepth pairDepth
    rw [h.marketPairs, h.limitOrders]
    rfl

theorem balanced_of_reach {ok : Exchange → ExchangeEvent → Prop} (h : system.Reach ok x) :
    x.Balanced (fun _ _ => 0) (fun _ _ => 0) := by
  apply h.invariant
  . intro x hx
    exact hx.balanced
  . intro x e x' hx _ hstep
    exact hx.step hstep

theorem reach_of_operations {ok : Exchange → ExchangeEvent → Prop} {ops : List LimitOrderOperation}
    (h : system.Reach ok x) (hfits : ∀ op ∈ ops, op.Fits)
    (hok : TransitionSystem.Along applyLimitOrderOperation (fun x op => ok x (.operation op)) x ops)
    (hops : ops.foldlM applyLimitOrderOperation x = .ok x') : system.Reach ok x' := by
  apply h.operations _ hok hops
  intro op hop x x' happly
  exact ⟨hfits op hop, happly⟩

end operations

instance : DecidablePred FitsInt64 := fun _ => inferInstanceAs (Decidable (_ ∧ _))

instance : DecidablePred LimitOrderOperation.Fits
  | .limitOrderCreate _ => inferInstanceAs (Decidable (_ ∧ _))
  | .limitOrderCreate2 _ => inferInstanceAs (Decidable (_ ∧ _))
  | .limitOrderCancel _ => inferInstanceAs (Decidable True)
  | .limitOrderCancelEx _ => inferInstanceAs (Decidable True)

/-- An asset that Alice has issued; a fee of one percent of it goes to her. -/
def firstToken : AssetSymbolType :=
  symbolOfBytes [3, 65, 65, 65]

/-- The market before its first order, with three traders. -/
def firstExchange : Exchange where
  ledger :=
    { accounts :=
        ⟨
          [
            { name := "alice", balance := 100000, sbdBalance := 100000 },
            { name := "bob", balance := 100000, sbdBalance := 100000 },
            { name := "carol", balance := 100000 }
          ],
          by decide
        ⟩
      accountBalances :=
        ⟨
          [
            { account := "alice", symbol := firstToken, balance := 3000000000000000 },
            { account := "carol", symbol := firstToken, balance := 3000000000000000 }
          ],
          by decide
        ⟩
      assets :=
        ⟨
          [
            { symbol := firstToken
              creator := "alice"
              maxSupply := 900000000000000000
              supply := 6000000000000000
              feePercent := 100 }
          ],
          by decide
        ⟩ }
  headBlockTime := 1700000000

theorem reach_firstExchange {ok : Exchange → ExchangeEvent → Prop} :
    system.Reach ok firstExchange := by
  apply TransitionSystem.Reach.initial
  refine ⟨rfl, rfl, ?_⟩
  intro a s
  have haccounts : ∀ a ∈ firstExchange.ledger.accounts.rows,
      a.marketBalance = 0 ∧ a.marketSbdBalance = 0 := by decide
  have hbalances : ∀ o ∈ firstExchange.ledger.accountBalances.rows, o.marketBalance = 0 := by
    decide
  unfold marketBalance
  split
  . split
    . next a ha => exact (haccounts a (Table.mem_of_find? ha)).1
    . rfl
  . split
    . split
      . next a ha => exact (haccounts a (Table.mem_of_find? ha)).2
      . rfl
    . split
      . next o ho => exact hbalances o (Table.mem_of_find? ho)
      . rfl

end Exchange
end Golos
