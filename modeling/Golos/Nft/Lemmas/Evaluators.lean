import Golos.Nft.Impl.Evaluators
import Golos.Nft.Lemmas.Settlement

/-!
This module contains all that a successful NFT operation can do to the state, one constructor of
`MarketStep` for a branch of an evaluator. Everything else about operations rests on it.
-/

namespace Golos
namespace Database

open Checked Ledger

def minus (a : Asset) : Asset :=
  ⟨-a.amount, a.symbol⟩

/-- What returning half of the issue cost to the owner of a burnt token does to the ledger. -/
inductive CostRefund (l : Ledger) (name : AccountName) : Ledger → Prop where
  | nothing : CostRefund l name l
  | fromWorkers {cost l'} (hpos : 0 ≤ cost)
      (hworkers : cost ≤ l.mainBalance workerPoolAccount sbdSymbol)
      (hpay : Moves l l'
        (fun a s => single workerPoolAccount (minus ⟨cost, sbdSymbol⟩) a s
          + single name ⟨cost, sbdSymbol⟩ a s)
        (fun _ => 0)
        (fun s => inSymbol (minus ⟨cost, sbdSymbol⟩) s + inSymbol ⟨cost, sbdSymbol⟩ s)) :
      CostRefund l name l'
  | minted {cost l₁ l'} (hpos : 0 ≤ cost) (hsupply : l.adjustSbdSupply cost = .ok l₁)
      (hpay : Moves l₁ l' (single name ⟨cost, sbdSymbol⟩) (fun _ => 0)
        (inSymbol ⟨cost, sbdSymbol⟩)) :
      CostRefund l name l'

/-- The price of an execution: the given one, or that of the order when 0 is given. -/
def priceOf (given : Asset) (noo : NftOrderObject) : Asset :=
  if given.amount = 0 then noo.price else given

inductive MarketStep (db : Database) : NftOperation → Database → Prop where
  | nftCollection {op n cs}
      (hfresh : tokenCounts db.nftCollections n = none)
      (hcounts : ∀ m, tokenCounts cs m = if m = n then some 0 else tokenCounts db.nftCollections m) :
      MarketStep db (.nftCollection op) { db with nftCollections := cs }
  | nftCollectionDelete {op n cs}
      (hempty : tokenCounts db.nftCollections n = some 0)
      (hcounts : ∀ m, tokenCounts cs m = if m = n then none else tokenCounts db.nftCollections m) :
      MarketStep db (.nftCollectionDelete op) { db with nftCollections := cs }
  | nftIssue {op no k l ts cs}
      (howner : (db.ledger.accounts.find? no.owner).isSome)
      (hid : no.tokenId = inc32 db.lastNftTokenId)
      (hnew : no.burnt = false ∧ no.selling = false ∧ no.auctionExpiration = 0)
      (hinsert : db.nfts.Inserts ts no)
      (hcount : tokenCounts db.nftCollections no.name = some k)
      (hcounts : ∀ m, tokenCounts cs m
        = if m = no.name then some (inc32 k) else tokenCounts db.nftCollections m)
      (hfee : no.issueCost.amount = 0
        ∨ no.issueCost.amount ≤ db.ledger.mainBalance op.creator no.issueCost.symbol)
      (hcost : 0 ≤ db.nftIssueCost.amount → 0 ≤ no.issueCost.amount)
      (hpay : Moves db.ledger l
        (fun a s => single op.creator (minus no.issueCost) a s
          + single workerPoolAccount no.issueCost a s)
        (fun _ => 0)
        (fun s => inSymbol (minus no.issueCost) s + inSymbol no.issueCost s)) :
      MarketStep db (.nftIssue op)
        { db with
          ledger := l
          nfts := ts
          nftCollections := cs
          lastNftTokenId := inc32 db.lastNftTokenId }
  | nftTransfer {op no ts}
      (hno : db.nfts.find? op.tokenId = some no)
      (hsender : op.fromAccount = no.owner)
      (hfree : no.burnt = false ∧ no.selling = false ∧ no.auctionExpiration = 0)
      (hto : (db.ledger.accounts.find? op.toAccount).isSome)
      (hnfts : db.nfts.Updates ts no
        { no with owner := op.toAccount, lastUpdate := db.headBlockTime }) :
      MarketStep db (.nftTransfer op) { db with nfts := ts }
  | burn {op no k l₁ l ts cs os}
      (hno : db.nfts.find? op.tokenId = some no)
      (hsender : op.fromAccount = no.owner)
      (hfree : no.burnt = false ∧ no.selling = false ∧ no.auctionExpiration = 0)
      (hnull : op.toAccount = nullAccount)
      (hnfts : db.nfts.Updates ts no { no with burnt := true })
      (hcount : tokenCounts db.nftCollections no.name = some k)
      (hcounts : ∀ m, tokenCounts cs m
        = if m = no.name then some (sub32 k 1) else tokenCounts db.nftCollections m)
      (hrefund : CostRefund db.ledger op.fromAccount l₁)
      (horders : db.nftOrders.Removes os (db.clearedNftOrders no.tokenId false))
      (hclear : OrderMoves l₁ l none (db.clearedNftOrders no.tokenId false)) :
      MarketStep db (.nftTransfer op)
        { db with ledger := l, nfts := ts, nftCollections := cs, nftOrders := os }
  | placeSellOrder {op no ts cs os}
      (hno : db.nfts.find? op.tokenId = some no)
      (howner : no.owner = op.seller)
      (hfree : no.burnt = false ∧ no.selling = false)
      (hprice : 0 ≤ op.price.amount)
      (hnfts : db.nfts.Updates ts no { no with lastUpdate := db.headBlockTime, selling := true })
      (horders : db.nftOrders.Inserts os
        { creator := no.creator
          name := no.name
          tokenId := no.tokenId
          owner := no.owner
          orderId := op.orderId
          price := op.price
          selling := true
          created := db.headBlockTime })
      (hcounts : ∀ n, tokenCounts cs n = tokenCounts db.nftCollections n) :
      MarketStep db (.nftSell op) { db with nfts := ts, nftCollections := cs, nftOrders := os }
  | sellToBuyer {op no noo l₁ l ts cs os}
      (hno : db.nfts.find? op.tokenId = some no)
      (howner : no.owner = op.seller)
      (hburnt : no.burnt = false)
      (hprice : 0 ≤ op.price.amount)
      (hnoo : db.findNftOrder op.buyer op.orderId = some noo)
      (hbuying : noo.selling = false)
      (htoken : noo.tokenId ≠ 0 → noo.tokenId = no.tokenId ∧ priceOf op.price noo = noo.price)
      (hbuyer : (db.ledger.accounts.find? op.buyer).isSome ∨ noo.tokenId ≠ 0)
      (hbalance : noo.tokenId = 0 → (priceOf op.price noo).amount
        ≤ db.ledger.mainBalance op.buyer (priceOf op.price noo).symbol)
      (hnfts : db.nfts.Updates ts no
        { no with
          lastUpdate := db.headBlockTime
          owner := noo.owner
          selling := false
          lastBuyPrice := priceOf op.price noo })
      (hcounts : ∀ n, tokenCounts cs n = tokenCounts db.nftCollections n)
      (hpay : Moves db.ledger l₁
        (fun a s => (if noo.tokenId = 0 then single op.buyer (minus (priceOf op.price noo)) a s else 0)
          + single op.seller (priceOf op.price noo) a s
          + if noo.holds then single noo.owner
              ⟨(priceOf op.price noo).amount - noo.price.amount, noo.price.symbol⟩ a s else 0)
        (fun _ => 0)
        (fun s => (if noo.tokenId = 0 then inSymbol (minus (priceOf op.price noo)) s else 0)
          + inSymbol (priceOf op.price noo) s
          + if noo.holds then inSymbol
              ⟨(priceOf op.price noo).amount - noo.price.amount, noo.price.symbol⟩ s else 0))
      (horders : db.nftOrders.Removes os
        (db.clearedNftOrders no.tokenId false ++ db.clearedExtra no.tokenId (some noo) false))
      (hclear : OrderMoves l₁ l (some noo) (db.clearedNftOrders no.tokenId false)) :
      MarketStep db (.nftSell op)
        { db with ledger := l, nfts := ts, nftCollections := cs, nftOrders := os }
  | cancelBet {op no bet l}
      (hauction : op.orderId = 0)
      (hno : db.nfts.find? op.tokenId = some no)
      (hbet : db.nftBets.find? (op.tokenId, op.buyer) = some bet)
      (hpay : BetMoves db.ledger l .null [bet]) :
      MarketStep db (.nftBuy op)
        { db with ledger := l, nftBets := db.nftBets.erase bet.byTokenOwner }
  | placeBet {op no expiration l ts bs}
      (hauction : op.orderId = 0)
      (hno : db.nfts.find? op.tokenId = some no)
      (hrunning : no.auctionExpiration ≠ 0)
      (hsymbol : db.ledger.Holdable op.price.symbol)
      (hprice : 0 < op.price.amount)
      (hmin : op.price.symbol = no.auctionMinPrice.symbol)
      (hbuyer : (db.ledger.accounts.find? op.buyer).isSome)
      (hbalance : op.price.amount ≤ db.ledger.mainBalance op.buyer op.price.symbol)
      (hunique : ∀ b ∈ db.nftBets.rows, b.tokenId = no.tokenId → b.priceReal ≠ op.price.toReal)
      (hexpiration : no.auctionExpiration ≤ expiration)
      (hnfts : db.nfts.Updates ts no { no with auctionExpiration := expiration })
      (hbets : db.nftBets.Inserts bs
        { creator := no.creator
          name := no.name
          tokenId := no.tokenId
          owner := op.buyer
          price := op.price
          created := db.headBlockTime })
      (hpay : Moves db.ledger l (single op.buyer (minus op.price))
        (fun a => single op.buyer op.price a steemSymbol) (inSymbol (minus op.price))) :
      MarketStep db (.nftBuy op) { db with ledger := l, nfts := ts, nftBets := bs }
  | placeOffer {op no name creator l cs os}
      (horder : op.orderId ≠ 0)
      (htoken : op.tokenId ≠ 0)
      (hno : db.nfts.find? op.tokenId = some no)
      (hnone : db.findNftOrder no.owner op.orderId = none)
      (hstopped : no.auctionExpiration = 0)
      (hsymbol : db.ledger.Holdable op.price.symbol)
      (hprice : 0 ≤ op.price.amount)
      (hbuyer : (db.ledger.accounts.find? op.buyer).isSome)
      (hbalance : op.price.amount ≤ db.ledger.mainBalance op.buyer op.price.symbol)
      (horders : db.nftOrders.Inserts os
        { creator := creator
          name := name
          tokenId := op.tokenId
          owner := op.buyer
          orderId := op.orderId
          price := op.price
          holds := true
          created := db.headBlockTime })
      (hcounts : ∀ n, tokenCounts cs n = tokenCounts db.nftCollections n)
      (hpay : Moves db.ledger l (single op.buyer (minus op.price))
        (fun a => single op.buyer op.price a steemSymbol) (inSymbol (minus op.price))) :
      MarketStep db (.nftBuy op) { db with ledger := l, nftCollections := cs, nftOrders := os }
  | ignoreBuy {op opNo noo}
      (htoken : op.tokenId ≠ 0)
      (hopNo : db.nfts.find? op.tokenId = some opNo)
      (hnoo : db.findNftOrder opNo.owner op.orderId = some noo)
      (hearly : db.headBlockNum ≤ 74644300)
      (hbalance : db.ledger.mainBalance op.buyer (priceOf op.price noo).symbol
        < (priceOf op.price noo).amount) :
      MarketStep db (.nftBuy op) db
  | buyFromSeller {op opNo no noo l₁ l ts cs os}
      (horder : op.orderId ≠ 0)
      (htoken : op.tokenId ≠ 0)
      (hopNo : db.nfts.find? op.tokenId = some opNo)
      (hnoo : db.findNftOrder opNo.owner op.orderId = some noo)
      (hselling : noo.selling = true)
      (hno : db.nfts.find? noo.tokenId = some no)
      (hprice : 0 ≤ op.price.amount)
      (hbuyer : (db.ledger.accounts.find? op.buyer).isSome)
      (hbalance : (priceOf op.price noo).amount
        ≤ db.ledger.mainBalance op.buyer (priceOf op.price noo).symbol)
      (hnfts : db.nfts.Updates ts no
        { no with
          lastUpdate := db.headBlockTime
          owner := op.buyer
          selling := false
          lastBuyPrice := priceOf op.price noo })
      (hcounts : ∀ n, tokenCounts cs n = tokenCounts db.nftCollections n)
      (hpay : Moves db.ledger l₁
        (fun a s => single noo.owner (priceOf op.price noo) a s
          + single op.buyer (minus (priceOf op.price noo)) a s)
        (fun _ => 0)
        (fun s => inSymbol (priceOf op.price noo) s + inSymbol (minus (priceOf op.price noo)) s))
      (horders : db.nftOrders.Removes os (db.clearedNftOrders op.tokenId false))
      (hclear : OrderMoves l₁ l (some noo) (db.clearedNftOrders op.tokenId false)) :
      MarketStep db (.nftBuy op)
        { db with ledger := l, nfts := ts, nftCollections := cs, nftOrders := os }
  | placeCollectionOffer {op name creator cs os}
      (htoken : op.tokenId = 0)
      (hprice : 0 ≤ op.price.amount)
      (horders : db.nftOrders.Inserts os
        { creator := creator
          name := name
          tokenId := 0
          owner := op.buyer
          orderId := op.orderId
          price := op.price
          created := db.headBlockTime })
      (hcounts : ∀ n, tokenCounts cs n = tokenCounts db.nftCollections n) :
      MarketStep db (.nftBuy op) { db with nftCollections := cs, nftOrders := os }
  | cancelSellOrder {op no noo l ts cs}
      (hnoo : db.findNftOrder op.owner op.orderId = some noo)
      (hselling : noo.selling = true)
      (hno : db.nfts.find? noo.tokenId = some no)
      (hnfts : db.nfts.Updates ts no { no with lastUpdate := db.headBlockTime, selling := false })
      (hcounts : ∀ n, tokenCounts cs n = tokenCounts db.nftCollections n)
      (hclear : OrderMoves db.ledger l none [noo]) :
      MarketStep db (.nftCancelOrder op)
        { db with
          ledger := l
          nfts := ts
          nftCollections := cs
          nftOrders := db.nftOrders.erase noo.byOwnerOrderId }
  | cancelBuyOrder {op noo l cs}
      (hnoo : db.findNftOrder op.owner op.orderId = some noo)
      (hbuying : noo.selling = false)
      (hcounts : ∀ n, tokenCounts cs n = tokenCounts db.nftCollections n)
      (hclear : OrderMoves db.ledger l none [noo]) :
      MarketStep db (.nftCancelOrder op)
        { db with
          ledger := l
          nftCollections := cs
          nftOrders := db.nftOrders.erase noo.byOwnerOrderId }
  | stopAuction {op no minPrice l ts cs bs}
      (hempty : op.expiration = 0 ∨ op.minPrice.amount = 0)
      (hno : db.nfts.find? op.tokenId = some no)
      (howner : no.owner = op.owner)
      (hnfts : db.nfts.Updates ts no
        { no with
          lastUpdate := db.headBlockTime
          auctionMinPrice := minPrice
          auctionExpiration := 0 })
      (hcounts : ∀ n, tokenCounts cs n = tokenCounts db.nftCollections n)
      (hbets : db.nftBets.Removes bs (db.nftBetsOf no.tokenId))
      (hclear : BetMoves db.ledger l .null (db.nftBetsOf no.tokenId)) :
      MarketStep db (.nftAuction op)
        { db with ledger := l, nfts := ts, nftCollections := cs, nftBets := bs }
  | startAuction {op no l ts cs os}
      (hexpiration : op.expiration ≠ 0)
      (hamount : op.minPrice.amount ≠ 0)
      (hno : db.nfts.find? op.tokenId = some no)
      (howner : no.owner = op.owner)
      (hstopped : no.auctionExpiration = 0)
      (hnfts : db.nfts.Updates ts no
        { no with
          lastUpdate := db.headBlockTime
          auctionMinPrice := op.minPrice
          auctionExpiration := op.expiration })
      (hcollection : (db.nftCollections.find? no.name).isSome)
      (hcounts : ∀ n, tokenCounts cs n = tokenCounts db.nftCollections n)
      (horders : db.nftOrders.Removes os (db.clearedNftOrders no.tokenId true))
      (hclear : OrderMoves db.ledger l none (db.clearedNftOrders no.tokenId true)) :
      MarketStep db (.nftAuction op)
        { db with ledger := l, nfts := ts, nftCollections := cs, nftOrders := os }

section inversion

variable {db db' : Database}

theorem nftCollection_eq_ok {op : NftCollectionOperation} (h : db.nftCollection op = .ok db') :
    MarketStep db (.nftCollection op) db' := by
  simp only [nftCollection, bind_eq_ok, ensure_eq_ok, get_eq_ok, pure_eq_ok] at h
  obtain ⟨n, -, -, hnone, -, -, -, -, cs, hcs, rfl⟩ := h
  apply MarketStep.nftCollection (n := n)
  . simp [tokenCounts, hnone]
  . intro m
    obtain ⟨hfresh, rfl⟩ := Table.emplace_eq_some_iff.mp hcs
    simp only [tokenCounts, Table.find?_insert, eq_comm (a := m)]
    split <;> rfl

theorem nftCollectionDelete_eq_ok {op : NftCollectionDeleteOperation}
    (h : db.nftCollectionDelete op = .ok db') : MarketStep db (.nftCollectionDelete op) db' := by
  simp only [nftCollectionDelete, bind_eq_ok, ensure_eq_ok, getNftCollection_eq_ok,
    pure_eq_ok] at h
  obtain ⟨n, -, nco, hnco, -, hempty, rfl⟩ := h
  have hname := Table.key_of_find? hnco
  subst hname
  apply MarketStep.nftCollectionDelete (n := nco.name)
  . simp [tokenCounts, hnco, hempty]
  . intro m
    unfold tokenCounts
    by_cases hm : m = nco.name
    . simp [hm]
    . simp [Table.find?_erase_of_ne _ hm, hm]

theorem neg_eq_ok_minus {a b : Asset} (h : a.neg = .ok b) : b = minus a :=
  (Asset.neg_eq_ok.mp h).2

theorem tokenCounts_of_find? {name : AssetSymbolType} {nco : NftCollectionObject}
    (h : db.nftCollections.find? name = some nco) :
    tokenCounts db.nftCollections name = some nco.tokenCount := by
  simp [tokenCounts, h]

/-- A change of a token count, by a function of the count alone. -/
theorem tokenCounts_modify_of_count (cs : Table NftCollectionObject.name)
    {nco : NftCollectionObject} (f : NftCollectionObject → NftCollectionObject)
    (hf : ∀ nco, (f nco).name = nco.name) (g : Nat → Nat)
    (hg : ∀ nco, (f nco).tokenCount = g nco.tokenCount) (hnco : cs.find? nco.name = some nco)
    (m : AssetSymbolType) :
    tokenCounts (cs.modify nco.name f hf) m
      = if m = nco.name then some (g nco.tokenCount) else tokenCounts cs m := by
  unfold tokenCounts
  rw [Table.find?_modify]
  split
  . next hm => simp [hm, hnco, hg]
  . rfl

theorem holdable_of_checkSymbol {symbol : AssetSymbolType} {u : Unit}
    (h : db.checkSymbol symbol = .ok u) : db.ledger.Holdable symbol := by
  unfold checkSymbol at h
  unfold Holdable
  split at h
  . simp only [bind_eq_ok, getAsset, get_eq_ok] at h
    obtain ⟨a, ha, -⟩ := h
    simp [ha]
  . next hne =>
    by_contra hcon
    simp only [not_or] at hcon
    exact hne ⟨hcon.1, hcon.2.1⟩

theorem payNftIssueFee_eq_ok {creator : AccountName} {fee : Asset}
    (h : db.payNftIssueFee creator fee = .ok db') :
    ∃ l, db' = { db with ledger := l } ∧
      fee.amount ≤ db.ledger.mainBalance creator fee.symbol ∧
      Moves db.ledger l
        (fun a s => single creator (minus fee) a s + single workerPoolAccount fee a s)
        (fun _ => 0) (fun s => inSymbol (minus fee) s + inSymbol fee s) := by
  simp only [payNftIssueFee, bind_eq_ok, adjustBalance_eq_ok] at h
  obtain ⟨a, ha, _, hbalance, minusFee, hneg, _, ⟨l₁, hl₁, rfl⟩, l, hl, rfl⟩ := h
  rw [neg_eq_ok_minus hneg] at hl₁
  refine ⟨l, rfl, le_mainBalance_of_checkBalance ha hbalance, ?_⟩
  apply ((moves_adjustBalance hl₁).trans (moves_adjustBalance hl)).congr
  . intro a s
    rfl
  . intro a
    rfl
  . intro s
    rfl

theorem nftIssueFee_eq_ok {op : NftIssueOperation} {fee : Asset}
    (h : db.nftIssueFee op = .ok fee) :
    (db.nftIssueCost.amount = 0 → fee.amount = 0) ∧
      (0 ≤ db.nftIssueCost.amount → 0 ≤ fee.amount) := by
  unfold nftIssueFee at h
  split at h
  . next hzero =>
    rw [pure_eq_ok] at h
    subst h
    exact ⟨id, id⟩
  . next hne =>
    simp only [bind_eq_ok, int64_eq_ok, Asset.add_eq_ok] at h
    obtain ⟨additional, ⟨-, rfl⟩, -, -, rfl⟩ := h
    refine ⟨fun hzero => absurd hzero hne, ?_⟩
    intro hcost
    apply Int.add_nonneg hcost
    exact Int.mul_nonneg hcost (Int.natCast_nonneg _)

theorem nftIssue_eq_ok {op : NftIssueOperation} (h : db.nftIssue op = .ok db') :
    MarketStep db (.nftIssue op) db' := by
  simp only [nftIssue, bind_eq_ok, ensure_eq_ok, get_eq_ok, getNftCollection_eq_ok,
    getAccount_eq_ok, pure_eq_ok] at h
  obtain ⟨n, -, nco, hnco, account, haccount, fee, hfee, db₁, hpay, -, -, ts, hts, rfl⟩ := h
  have hname := Table.key_of_find? hnco
  subst hname
  obtain ⟨hzero, hcost⟩ := nftIssueFee_eq_ok hfee
  -- Without a fee nobody is charged, which is the same as a fee of 0.
  have hpaid : ∃ l, db₁ = { db with ledger := l } ∧
      (fee.amount = 0 ∨ fee.amount ≤ db.ledger.mainBalance op.creator fee.symbol) ∧
      Moves db.ledger l
        (fun a s => single op.creator (minus fee) a s + single workerPoolAccount fee a s)
        (fun _ => 0) (fun s => inSymbol (minus fee) s + inSymbol fee s) := by
    split at hpay
    . obtain ⟨l, hdb, hle, hmoves⟩ := payNftIssueFee_eq_ok hpay
      exact ⟨l, hdb, .inr hle, hmoves⟩
    . next hne =>
      rw [pure_eq_ok] at hpay
      have hfee := hzero (not_not.mp hne)
      refine ⟨db.ledger, hpay.symm, .inl hfee, ?_⟩
      apply (Moves.refl _).congr
      . intro a s
        simp [single, minus, hfee]
      . intro a
        rfl
      . intro s
        simp [inSymbol, minus, hfee]
  obtain ⟨l, rfl, hbalance, hmoves⟩ := hpaid
  simp only [modifyNftCollection] at hts ⊢
  have hinsert := Table.Inserts.emplace hts
  refine MarketStep.nftIssue (k := nco.tokenCount) ?_ ?_ ?_ hinsert ?_ ?_ ?_ ?_ ?_
  . simp [haccount]
  . rfl
  . exact ⟨rfl, rfl, rfl⟩
  . exact tokenCounts_of_find? hnco
  . intro m
    apply tokenCounts_modify_of_count _ _ _ inc32 _ hnco
    intro nco
    rfl
  . exact hbalance
  . exact hcost
  . exact hmoves

theorem refundNftIssueCost_eq_ok {no : NftObject} {name : AccountName}
    (h : db.refundNftIssueCost no name = .ok db') :
    ∃ l, db' = { db with ledger := l } ∧ CostRefund db.ledger name l := by
  unfold refundNftIssueCost at h
  split at h
  . next hcost =>
    simp only [bind_eq_ok] at h
    obtain ⟨-, -, workers, hworkers, h⟩ := h
    have hpos : 0 ≤ no.issueCost.amount / 2 := by omega
    split at h
    . next hle =>
      simp only [bind_eq_ok, adjustBalance_eq_ok] at h
      obtain ⟨minusCost, hneg, _, ⟨l₁, hl₁, rfl⟩, l, hl, rfl⟩ := h
      rw [neg_eq_ok_minus hneg] at hl₁
      refine ⟨l, rfl, .fromWorkers hpos ?_ ?_⟩
      . rw [getAccount_eq_ok] at hworkers
        simpa [mainBalance, sbdSymbol_ne_steemSymbol, hworkers] using hle
      . apply ((moves_adjustBalance hl₁).trans (moves_adjustBalance hl)).congr
        . intro a s
          rfl
        . intro a
          rfl
        . intro s
          rfl
    . simp only [bind_eq_ok, adjustBalance_eq_ok] at h
      obtain ⟨l₁, hsupply, l, hl, rfl⟩ := h
      exact ⟨l, rfl, .minted hpos hsupply (moves_adjustBalance hl)⟩
  . rw [pure_eq_ok] at h
    exact ⟨db.ledger, h.symm, .nothing⟩

theorem nftTransfer_eq_ok {op : NftTransferOperation} (h : db.nftTransfer op = .ok db') :
    MarketStep db (.nftTransfer op) db' := by
  simp only [nftTransfer, bind_eq_ok, ensure_eq_ok, getNft_eq_ok, getAccount_eq_ok,
    Bool.not_eq_eq_eq_not, Bool.not_true] at h
  obtain ⟨no, hno, -, hsender, -, hburnt, -, hselling, -, hauction, account, haccount, h⟩ := h
  have hid := Table.key_of_find? hno
  have hno' := hno
  rw [← hid] at hno'
  split at h
  . next hnull =>
    simp only [burnNft, bind_eq_ok, getNftCollection_eq_ok, pure_eq_ok] at h
    obtain ⟨_, hrefund, nco, hnco, cleared, hcleared, rfl⟩ := h
    obtain ⟨l₁, rfl, hcost⟩ := refundNftIssueCost_eq_ok hrefund
    obtain ⟨l, os, hdb, horders, hclear⟩ := clearNftOrders_eq_ok (by simp) hcleared
    have hname := Table.key_of_find? hnco
    simp only [hdb, modifyNft, modifyNftCollection]
    simp only [clearedExtra, List.append_nil] at horders
    refine MarketStep.burn (k := nco.tokenCount) hno hsender ⟨hburnt, hselling, hauction⟩ hnull
      ?_ ?_ ?_ hcost horders hclear
    . exact .modify _ hno'
    . exact tokenCounts_of_find? hnco
    . intro m
      rw [← hname] at hnco ⊢
      apply tokenCounts_modify_of_count _ _ _ (fun k => sub32 k 1) _ hnco
      intro nco
      rfl
  . rw [pure_eq_ok] at h
    subst h
    apply MarketStep.nftTransfer hno hsender ⟨hburnt, hselling, hauction⟩
    . simp [haccount]
    . exact .modify _ hno'

theorem createNftOrder_eq_ok {o : NftOrderObject} (h : db.createNftOrder o = .ok db') :
    ∃ os, db' = { db with nftOrders := os } ∧ db.nftOrders.Inserts os o := by
  simp only [createNftOrder, bind_eq_ok, get_eq_ok, pure_eq_ok] at h
  obtain ⟨os, hos, rfl⟩ := h
  exact ⟨os, rfl, .emplace hos⟩

theorem settleSale_eq_ok {no : NftObject} {clearedTokenId : Nat} {newOwner : AccountName}
    {price : Asset} {proceedOrder clearOrder : Option NftOrderObject}
    {nco : Database → Result NftCollectionObject}
    (hno : db.nfts.find? no.tokenId = some no)
    (hclear : ∀ noo, clearOrder = some noo → noo ∈ db.nftOrders.rows)
    (h : db.settleSale no.tokenId clearedTokenId newOwner price proceedOrder clearOrder nco
      = .ok db') :
    ∃ l ts cs os,
      db' = { db with ledger := l, nfts := ts, nftCollections := cs, nftOrders := os } ∧
      db.nfts.Updates ts no
        { no with
          lastUpdate := db.headBlockTime
          owner := newOwner
          selling := false
          lastBuyPrice := price } ∧
      (∀ n, tokenCounts cs n = tokenCounts db.nftCollections n) ∧
      db.nftOrders.Removes os (db.clearedNftOrders clearedTokenId false
        ++ db.clearedExtra clearedTokenId clearOrder false) ∧
      OrderMoves db.ledger l proceedOrder (db.clearedNftOrders clearedTokenId false) := by
  simp only [settleSale, modifyNft, modifyNftCollection, bind_eq_ok, pure_eq_ok] at h
  obtain ⟨nco', -, cleared, hcleared, rfl⟩ := h
  obtain ⟨l, os, hdb, horders, hmoves⟩ := clearNftOrders_eq_ok (by exact hclear) hcleared
  rw [hdb]
  refine ⟨l, _, _, os, rfl, .modify _ hno, ?_, horders, hmoves⟩
  intro n
  exact tokenCounts_modify _ _ _ n

theorem placeSellOrder_eq_ok {op : NftSellOperation} {no : NftObject} {nco : NftCollectionObject}
    (hno : db.nfts.find? op.tokenId = some no) (howner : no.owner = op.seller)
    (hburnt : no.burnt = false) (hprice : 0 ≤ op.price.amount)
    (h : db.placeSellOrder op no nco = .ok db') : MarketStep db (.nftSell op) db' := by
  simp only [placeSellOrder, modifyNft, modifyNftCollection, bind_eq_ok, ensure_eq_ok,
    Bool.not_eq_eq_eq_not, Bool.not_true, pure_eq_ok] at h
  obtain ⟨-, hselling, -, -, db₁, hcreate, rfl⟩ := h
  obtain ⟨os, rfl, horders⟩ := createNftOrder_eq_ok hcreate
  have hno' := hno
  rw [← Table.key_of_find? hno] at hno'
  refine MarketStep.placeSellOrder hno howner ⟨hburnt, hselling⟩ hprice (.modify _ hno') horders ?_
  intro n
  exact tokenCounts_modify _ _ _ n

/-- The payments of `nft_sell` to a buyer, up to the clearing of orders. -/
theorem takePriceFromBuyer_eq_ok {name : AccountName} {noo : NftOrderObject} {price : Asset}
    (h : db.takePriceFromBuyer name noo price = .ok db') :
    ∃ l, db' = { db with ledger := l } ∧
      (noo.tokenId ≠ 0 → price = noo.price) ∧
      ((db.ledger.accounts.find? name).isSome ∨ noo.tokenId ≠ 0) ∧
      (noo.tokenId = 0 → price.amount ≤ db.ledger.mainBalance name price.symbol) ∧
      Moves db.ledger l
        (fun a s => if noo.tokenId = 0 then single name (minus price) a s else 0) (fun _ => 0)
        (fun s => if noo.tokenId = 0 then inSymbol (minus price) s else 0) := by
  unfold takePriceFromBuyer at h
  split at h
  . next hzero =>
    simp only [bind_eq_ok, adjustBalance_eq_ok] at h
    obtain ⟨buyer, hbuyer, _, hbalance, minusPrice, hneg, l, hl, rfl⟩ := h
    rw [neg_eq_ok_minus hneg] at hl
    refine ⟨l, rfl, fun hne => absurd hzero hne, .inl ?_, ?_, ?_⟩
    . rw [getAccount_eq_ok] at hbuyer
      simp [hbuyer]
    . intro _
      exact le_mainBalance_of_checkBalance hbuyer hbalance
    . simp only [hzero, ↓reduceIte]
      exact moves_adjustBalance hl
  . next hne =>
    simp only [bind_eq_ok, ensure_eq_ok, pure_eq_ok] at h
    obtain ⟨-, hprice, rfl⟩ := h
    refine ⟨_, rfl, fun _ => hprice, .inr hne, fun hzero => absurd hzero hne, ?_⟩
    simp only [hne, ↓reduceIte]
    exact Moves.refl _

theorem returnRemainOfPrice_eq_ok {noo : NftOrderObject} {price : Asset}
    (h : db.returnRemainOfPrice noo price = .ok db') :
    ∃ l, db' = { db with ledger := l } ∧
      Moves db.ledger l
        (fun a s => if noo.holds then
          single noo.owner ⟨price.amount - noo.price.amount, noo.price.symbol⟩ a s else 0)
        (fun _ => 0)
        (fun s => if noo.holds then
          inSymbol ⟨price.amount - noo.price.amount, noo.price.symbol⟩ s else 0) := by
  unfold returnRemainOfPrice at h
  split at h
  . next hholds =>
    simp only [bind_eq_ok, Asset.sub_eq_ok] at h
    obtain ⟨remain, ⟨hsymbol, -, rfl⟩, h⟩ := h
    obtain ⟨l, rfl, hmoves⟩ := adjustBalanceIf_eq_ok h
    refine ⟨l, rfl, ?_⟩
    rw [hsymbol] at hmoves
    apply hmoves.congr
    . intro a s
      simp only [single, ne_eq, hholds, ↓reduceIte]
      split <;> split <;> omega
    . intro a
      rfl
    . intro s
      simp only [inSymbol, ne_eq, hholds, ↓reduceIte]
      split <;> split <;> omega
  . next hholds =>
    rw [pure_eq_ok] at h
    subst h
    refine ⟨_, rfl, ?_⟩
    simp only [hholds, Bool.false_eq_true, ↓reduceIte]
    exact Moves.refl _

theorem sellToBuyer_eq_ok {op : NftSellOperation} {no : NftObject} {nco : NftCollectionObject}
    (hno : db.nfts.find? op.tokenId = some no) (howner : no.owner = op.seller)
    (hburnt : no.burnt = false) (hprice : 0 ≤ op.price.amount)
    (h : db.sellToBuyer op no nco = .ok db') : MarketStep db (.nftSell op) db' := by
  have hid := Table.key_of_find? hno
  have hno' := hno
  rw [← hid] at hno'
  simp only [sellToBuyer, bind_eq_ok, getNftOrder, get_eq_ok, ensure_eq_ok,
    Bool.not_eq_eq_eq_not, Bool.not_true, adjustBalance_eq_ok] at h
  obtain ⟨noo, hnoo, -, hbuying, -, -, -, htoken, _, -, db₁, htake, _, ⟨l₂, hseller, rfl⟩, db₃,
    hremain, h⟩ := h
  have hmem := Table.mem_of_find? hnoo
  obtain ⟨l₁, rfl, hown, hbuyer, hbalance, hmoves₁⟩ := takePriceFromBuyer_eq_ok htake
  obtain ⟨l₃, rfl, hmoves₃⟩ := returnRemainOfPrice_eq_ok hremain
  rw [← hid] at h htoken
  obtain ⟨l, ts, cs, os, rfl, hnfts, hcounts, horders, hclear⟩ :=
    settleSale_eq_ok (by exact hno') (by rintro _ ⟨⟩; exact hmem) h
  refine MarketStep.sellToBuyer hno howner hburnt hprice hnoo hbuying ?_ hbuyer hbalance hnfts
    hcounts ?_ horders hclear
  . intro hne
    exact ⟨htoken hne, hown hne⟩
  . apply ((hmoves₁.trans (moves_adjustBalance hseller)).trans hmoves₃).congr
    . intro a s
      rfl
    . intro a
      rfl
    . intro s
      rfl

theorem nftSell_eq_ok {op : NftSellOperation} (h : db.nftSell op = .ok db') :
    MarketStep db (.nftSell op) db' := by
  simp only [nftSell, bind_eq_ok, ensure_eq_ok, getNft_eq_ok, Bool.not_eq_eq_eq_not,
    Bool.not_true] at h
  obtain ⟨no, hno, -, howner, -, hburnt, _, -, -, hprice, nco, -, h⟩ := h
  split at h
  . exact placeSellOrder_eq_ok hno howner hburnt hprice h
  . exact sellToBuyer_eq_ok hno howner hburnt hprice h

theorem createNftBet_eq_ok {b : NftBetObject} (h : db.createNftBet b = .ok db') :
    ∃ bs, db' = { db with nftBets := bs } ∧ db.nftBets.Inserts bs b ∧
      ∀ b' ∈ db.nftBets.rows, b'.tokenId = b.tokenId → b'.priceReal ≠ b.priceReal := by
  simp only [createNftBet, bind_eq_ok, ensure_eq_ok, get_eq_ok, pure_eq_ok] at h
  obtain ⟨-, hunique, bs, hbs, rfl⟩ := h
  refine ⟨bs, rfl, .emplace hbs, ?_⟩
  intro b' hb' htoken heq
  exact hunique b' hb' ⟨htoken, heq⟩

/-- The price of a new bet or offer, taken from the balance and added to the hold. -/
theorem holdPrice_eq_ok {l l₁ : Ledger} {name : AccountName} {price minusPrice : Asset}
    (hneg : price.neg = .ok minusPrice) (hpay : l.adjustBalance name minusPrice = .ok l₁)
    {db db' : Database} (hledger : db.ledger = l₁)
    (h : db.adjustNftHoldBalanceIf (price.symbol = steemSymbol) name price.amount = .ok db') :
    ∃ l', db' = { db with ledger := l' } ∧
      Moves l l' (single name (minus price)) (fun a => single name price a steemSymbol)
        (inSymbol (minus price)) := by
  rw [neg_eq_ok_minus hneg] at hpay
  obtain ⟨l', rfl, hhold⟩ := adjustNftHoldBalanceIf_eq_ok h
  rw [hledger] at hhold
  refine ⟨l', rfl, ?_⟩
  apply ((moves_adjustBalance hpay).trans hhold).congr
  . intro a s
    omega
  . intro a
    simp only [holdOf, single, eq_comm (a := steemSymbol)]
    split <;> split <;> simp_all
  . intro s
    omega

theorem cancelBet_eq_ok {op : NftBuyOperation} (h : db.cancelBet op = .ok db') :
    ∃ bet l, db.nftBets.find? (op.tokenId, op.buyer) = some bet ∧
      db' = { db with ledger := l, nftBets := db.nftBets.erase bet.byTokenOwner } ∧
      BetMoves db.ledger l .null [bet] := by
  simp only [cancelBet, bind_eq_ok, get_eq_ok, adjustBalance_eq_ok, pure_eq_ok] at h
  obtain ⟨bet, hbet, _, ⟨l₁, hl₁, rfl⟩, db₂, hhold, rfl⟩ := h
  have howner : bet.owner = op.buyer := congrArg Prod.snd (Table.key_of_find? hbet)
  obtain ⟨l, rfl, hmoves⟩ := adjustNftHoldBalanceIf_eq_ok hhold
  refine ⟨bet, l, hbet, rfl, ?_⟩
  unfold BetMoves
  rw [← howner] at hl₁ hmoves
  apply ((moves_adjustBalance hl₁).trans hmoves).congr
  . intro a s
    simp [betRefunds_null, NftBetObject.payment]
  . intro a
    have := holdOf_neg_if bet.owner bet.price a
    simp [this, NftBetObject.payment]
  . intro s
    simp [betRefunds_null, NftBetObject.payment]

theorem extendAuction_eq (no : NftObject) (hno : db.nfts.find? no.tokenId = some no) :
    ∃ ts expiration, db.extendAuction no = { db with nfts := ts } ∧
      no.auctionExpiration ≤ expiration ∧
      db.nfts.Updates ts no { no with auctionExpiration := expiration } := by
  unfold extendAuction
  split
  . refine ⟨_, no.auctionExpiration + 10 * 60, rfl, ?_, ?_⟩
    . omega
    . exact .modify _ hno
  . refine ⟨db.nfts, no.auctionExpiration, rfl, le_rfl, hno, ?_, ?_⟩
    . intro k
      split
      . next hk => rw [hk, hno]
      . rfl
    . intro f
      show db.nfts.sum f = db.nfts.sum f + (f no - f no)
      omega

theorem nftBuyByAuction_eq_ok {op : NftBuyOperation} (hauction : op.orderId = 0)
    (hsymbol : db.ledger.Holdable op.price.symbol) (hprice : 0 ≤ op.price.amount)
    (h : db.nftBuyByAuction op = .ok db') : MarketStep db (.nftBuy op) db' := by
  simp only [nftBuyByAuction, bind_eq_ok, getNft_eq_ok, ensure_eq_ok] at h
  obtain ⟨no, hno, -, hrunning, buyer, hbuyer, _, hbalance, h⟩ := h
  split at h
  . obtain ⟨bet, l, hbet, rfl, hpay⟩ := cancelBet_eq_ok h
    exact .cancelBet hauction hno hbet hpay
  . next hne =>
    have hno' := hno
    rw [← Table.key_of_find? hno] at hno'
    simp only [placeBet, bind_eq_ok, ensure_eq_ok, adjustBalance_eq_ok] at h
    obtain ⟨-, -, -, -, -, hmin, _, -, -, -, minusPrice, hneg, _, ⟨l₁, hl₁, rfl⟩, db₂, hcreate,
      hhold⟩ := h
    obtain ⟨bs, rfl, hbets, hunique⟩ := createNftBet_eq_ok hcreate
    obtain ⟨ts, expiration, heq, hexpiration, hnfts⟩ :=
      @extendAuction_eq { db with ledger := l₁, nftBets := bs } no hno'
    rw [heq] at hhold
    obtain ⟨l, rfl, hmoves⟩ := holdPrice_eq_ok hneg hl₁ rfl hhold
    refine MarketStep.placeBet hauction hno hrunning hsymbol ?_ hmin ?_ ?_ hunique hexpiration hnfts
      hbets hmoves
    . omega
    . rw [getAccount_eq_ok] at hbuyer
      simp [hbuyer]
    . exact le_mainBalance_of_checkBalance hbuyer hbalance

theorem placeOffer_eq_ok {op : NftBuyOperation} (horder : op.orderId ≠ 0) (htoken : op.tokenId ≠ 0)
    (hsymbol : db.ledger.Holdable op.price.symbol) (hprice : 0 ≤ op.price.amount)
    (hnone : ∀ no, db.nfts.find? op.tokenId = some no → db.findNftOrder no.owner op.orderId = none)
    (h : db.placeOffer op = .ok db') : MarketStep db (.nftBuy op) db' := by
  simp only [placeOffer, modifyNftCollection, bind_eq_ok, getNft_eq_ok, ensure_eq_ok, adjustBalance_eq_ok] at h
  obtain ⟨-, -, name, -, no, hno, -, -, -, -, -, hstopped, nco, -, buyer, hbuyer, _, hbalance, -, -,
    minusPrice, hneg, _, ⟨l₁, hl₁, rfl⟩, db₂, hcreate, hhold⟩ := h
  obtain ⟨os, rfl, horders⟩ := createNftOrder_eq_ok hcreate
  obtain ⟨l, rfl, hmoves⟩ := holdPrice_eq_ok hneg hl₁ rfl hhold
  refine MarketStep.placeOffer horder htoken hno (hnone no hno) hstopped hsymbol hprice ?_ ?_
    horders ?_ hmoves
  . rw [getAccount_eq_ok] at hbuyer
    simp [hbuyer]
  . exact le_mainBalance_of_checkBalance hbuyer hbalance
  . intro n
    exact tokenCounts_modify _ _ _ n

theorem lt_of_ignoresNftBuy {name : AccountName} {buyer : AccountObject} {price : Asset}
    (hbuyer : db.ledger.getAccount name = .ok buyer)
    (h : db.ignoresNftBuy buyer price = .ok true) :
    db.headBlockNum ≤ 74644300 ∧ db.ledger.mainBalance name price.symbol < price.amount := by
  unfold ignoresNftBuy at h
  split at h
  . next hearly =>
    simp only [bind_eq_ok, Asset.lt, pure_eq_ok, decide_eq_true_eq] at h
    obtain ⟨bal, hbal, -, -, hlt⟩ := h
    refine ⟨hearly, ?_⟩
    rwa [← mainBalance_eq_of_getBalance hbuyer hbal]
  . simp at h

theorem buyFromSeller_eq_ok {op : NftBuyOperation} {opNo : NftObject} {noo : NftOrderObject}
    (horder : op.orderId ≠ 0) (htoken : op.tokenId ≠ 0) (hprice : 0 ≤ op.price.amount)
    (hopNo : db.nfts.find? op.tokenId = some opNo)
    (hnoo : db.findNftOrder opNo.owner op.orderId = some noo)
    (h : db.buyFromSeller op noo = .ok db') : MarketStep db (.nftBuy op) db' := by
  simp only [buyFromSeller, bind_eq_ok, ensure_eq_ok, getNft_eq_ok] at h
  obtain ⟨-, hselling, no, hno, _, -, buyer, hbuyer, ignored, hignored, h⟩ := h
  split at h
  . next htrue =>
    rw [pure_eq_ok] at h
    subst h htrue
    obtain ⟨hearly, hlt⟩ := lt_of_ignoresNftBuy hbuyer hignored
    exact .ignoreBuy htoken hopNo hnoo hearly hlt
  . simp only [bind_eq_ok, adjustBalance_eq_ok] at h
    obtain ⟨_, hbalance, _, ⟨l₁, hl₁, rfl⟩, minusPrice, hneg, _, ⟨l₂, hl₂, rfl⟩, h⟩ := h
    rw [neg_eq_ok_minus hneg] at hl₂
    have hid := Table.key_of_find? hno
    have hno' := hno
    rw [← hid] at hno'
    obtain ⟨l, ts, cs, os, rfl, hnfts, hcounts, horders, hclear⟩ :=
      settleSale_eq_ok (by exact hno') (by rintro _ ⟨⟩) h
    simp only [clearedExtra, List.append_nil] at horders
    refine MarketStep.buyFromSeller horder htoken hopNo hnoo hselling hno hprice ?_ ?_ hnfts hcounts
      ?_ horders hclear
    . rw [getAccount_eq_ok] at hbuyer
      simp [hbuyer]
    . exact le_mainBalance_of_checkBalance hbuyer hbalance
    . apply ((moves_adjustBalance hl₁).trans (moves_adjustBalance hl₂)).congr
      . intro a s
        rfl
      . intro a
        rfl
      . intro s
        rfl

theorem placeCollectionOffer_eq_ok {op : NftBuyOperation} (htoken : op.tokenId = 0)
    (hprice : 0 ≤ op.price.amount) (h : db.placeCollectionOffer op = .ok db') :
    MarketStep db (.nftBuy op) db' := by
  simp only [placeCollectionOffer, modifyNftCollection, bind_eq_ok, ensure_eq_ok, pure_eq_ok] at h
  obtain ⟨-, -, name, -, nco, -, db₁, hcreate, rfl⟩ := h
  obtain ⟨os, rfl, horders⟩ := createNftOrder_eq_ok hcreate
  refine MarketStep.placeCollectionOffer htoken hprice horders ?_
  intro n
  exact tokenCounts_modify _ _ _ n

theorem nftBuy_eq_ok {op : NftBuyOperation} (h : db.nftBuy op = .ok db') :
    MarketStep db (.nftBuy op) db' := by
  simp only [nftBuy, bind_eq_ok, ensure_eq_ok] at h
  obtain ⟨_, hsymbol, -, hprice, h⟩ := h
  have hsymbol := holdable_of_checkSymbol hsymbol
  split at h
  . next hauction => exact nftBuyByAuction_eq_ok hauction hsymbol hprice h
  . next horder =>
    split at h
    . next htoken =>
      simp only [bind_eq_ok, getNft_eq_ok, ensure_eq_ok] at h
      obtain ⟨no, hno, -, -, -, -, h⟩ := h
      split at h
      . next hnone =>
        apply placeOffer_eq_ok horder htoken hsymbol hprice _ h
        intro no' hno'
        rw [hno] at hno'
        injection hno' with hno'
        subst hno'
        exact hnone
      . next noo hnoo => exact buyFromSeller_eq_ok horder htoken hprice hno hnoo h
    . next htoken => exact placeCollectionOffer_eq_ok (not_not.mp htoken) hprice h

theorem nftCancelOrder_eq_ok {op : NftCancelOrderOperation} (h : db.nftCancelOrder op = .ok db') :
    MarketStep db (.nftCancelOrder op) db' := by
  simp only [nftCancelOrder, stopSelling, modifyNft, modifyNftCollection, bind_eq_ok, getNftOrder,
    get_eq_ok] at h
  obtain ⟨noo, hnoo, db₁, hstop, nco, -, h⟩ := h
  obtain ⟨l, rfl, hmoves⟩ := clearNftOrder_eq_ok h
  have hclear := hmoves l [] (.nil _ _)
  have hcounts : ∀ n, tokenCounts (db₁.nftCollections.modify nco.name fun nco =>
      { nco with
        sellOrderCount := if noo.selling then sub32 nco.sellOrderCount 1 else nco.sellOrderCount
        buyOrderCount := if noo.selling then nco.buyOrderCount else sub32 nco.buyOrderCount 1 }) n
      = tokenCounts db₁.nftCollections n := by
    intro n
    exact tokenCounts_modify _ _ _ n
  split at hstop
  . next hselling =>
    simp only [bind_eq_ok, getNft_eq_ok, pure_eq_ok] at hstop
    obtain ⟨no, hno, rfl⟩ := hstop
    have hno' := hno
    rw [← Table.key_of_find? hno] at hno'
    exact .cancelSellOrder hnoo hselling hno (.modify _ hno') hcounts hclear
  . next hbuying =>
    rw [pure_eq_ok] at hstop
    subst hstop
    exact .cancelBuyOrder hnoo (by simpa using hbuying) hcounts hclear

theorem nftAuction_eq_ok {op : NftAuctionOperation} (h : db.nftAuction op = .ok db') :
    MarketStep db (.nftAuction op) db' := by
  simp only [nftAuction, modifyNft, bind_eq_ok, ensure_eq_ok, getNft_eq_ok,
    getNftCollection_eq_ok, pure_eq_ok] at h
  obtain ⟨no, hno, -, howner, _, -, -, -, nco, hnco, db₁, h, rfl⟩ := h
  have hno' := hno
  rw [← Table.key_of_find? hno] at hno'
  split at h
  . next hempty =>
    simp only [stopAuction, modifyNftCollection, bind_eq_ok, ensure_eq_ok, pure_eq_ok] at h
    obtain ⟨-, -, db₂, hclear, rfl⟩ := h
    obtain ⟨l, bs, rfl, hbets, hclear⟩ := clearNftBets_eq_ok hclear
    have hzero : (if ¬op.minPrice.amount = 0 then op.expiration else 0) = 0 := by
      split
      . next hne => exact hempty.resolve_right hne
      . rfl
    refine @MarketStep.stopAuction db op no
      (if ¬op.expiration = 0 then op.minPrice else ⟨0, steemSymbol⟩) l _ _ bs hempty hno howner
      (.modify_of_eq _ hno' ?_) ?_ hbets hclear
    . simp only [hzero]
    . intro n
      exact tokenCounts_modify _ _ _ n
  . next hempty =>
    simp only [not_or] at hempty
    simp only [startAuction, modifyNftCollection, bind_eq_ok, ensure_eq_ok, pure_eq_ok] at h
    obtain ⟨-, hstopped, cleared, hcleared, rfl⟩ := h
    obtain ⟨l, os, hdb, horders, hclear⟩ := clearNftOrders_eq_ok (by simp) hcleared
    simp only [clearedExtra, List.append_nil] at horders
    rw [hdb]
    refine MarketStep.startAuction hempty.1 hempty.2 hno howner hstopped
      (.modify_of_eq _ hno' ?_) ?_ ?_ horders hclear
    . simp only [hempty, not_false_eq_true, ↓reduceIte]
    . simp [hnco]
    . intro n
      exact tokenCounts_modify _ _ _ n

/-- Every successful operation is a step of the market. -/
theorem marketStep_of_applyNftOperation {op : NftOperation}
    (h : db.applyNftOperation op = .ok db') : MarketStep db op db' := by
  cases op with
  | nftCollection op => exact nftCollection_eq_ok h
  | nftCollectionDelete op => exact nftCollectionDelete_eq_ok h
  | nftIssue op => exact nftIssue_eq_ok h
  | nftTransfer op => exact nftTransfer_eq_ok h
  | nftSell op => exact nftSell_eq_ok h
  | nftBuy op => exact nftBuy_eq_ok h
  | nftCancelOrder op => exact nftCancelOrder_eq_ok h
  | nftAuction op => exact nftAuction_eq_ok h

end inversion

end Database
end Golos
