import Golos.Nft.Impl.Objects

/-!
This module contains the evaluators of the NFT operations under the rules of hardfork 30.
-/

namespace Golos
namespace Database

open Checked

/-- `isspace`, by which `fc::trim` cuts. -/
def isSpace (c : Nat) : Bool :=
  c = 32 ∨ (9 ≤ c ∧ c ≤ 13)

/-- `asset::from_string("0. " + name).symbol` -/
def nftNameFromString (name : String) : Result AssetSymbolType := do
  let bytes := name.toUTF8.data.toList.map UInt8.toNat
  let symbol := (bytes.reverse.dropWhile isSpace).reverse
  -- A name of blanks is trimmed together with the space before it, the only one looked for.
  ensure (symbol ≠ []) (.invalidValue "Invalid asset notation")
  ensure (symbol.length ≤ 14) (.invalidValue "Asset symbol is too long")
  pure (symbolOfBytes ((if 6 < symbol.length then 100 else 0) :: symbol))

/-- `if (symbol != STEEM_SYMBOL && symbol != SBD_SYMBOL) get_asset(symbol)` -/
def checkSymbol (db : Database) (symbol : AssetSymbolType) : Result Unit :=
  if symbol ≠ steemSymbol ∧ symbol ≠ sbdSymbol then do
    let _ ← db.ledger.getAsset symbol
    pure ()
  else
    pure ()

/-- The number of collections of a creator that satisfy `p`, counted in a `uint8_t`. -/
def countNftCollections (db : Database) (creator : AccountName)
    (p : NftCollectionObject → Bool) : Nat :=
  (db.nftCollections.rows.countP fun nco => nco.creator = creator ∧ p nco) % 2 ^ 8

def nftCollection (db : Database) (op : NftCollectionOperation) : Result Database := do
  let name ← nftNameFromString op.name
  ensure (db.nftCollections.find? name = none) (.objectAlreadyExist "nft_collection")
  let total := db.countNftCollections op.creator fun _ => true
  let totalEmpty := db.countNftCollections op.creator fun nco => nco.tokenCount = 0
  ensure (total + 1 ≤ 200) (.invalidValue "Cannot create more than 200 collections")
  ensure (totalEmpty + 1 ≤ 5)
    (.invalidValue "Cannot create more than 5 empty collections (without tokens)")
  let nco : NftCollectionObject :=
    { creator := op.creator, name := name, maxTokenCount := op.maxTokenCount }
  let nftCollections ← get (db.nftCollections.emplace nco) .uniquenessViolated
  pure { db with nftCollections := nftCollections }

def nftCollectionDelete (db : Database) (op : NftCollectionDeleteOperation) : Result Database := do
  let name ← nftNameFromString op.name
  let nftColl ← db.getNftCollection name
  ensure (nftColl.tokenCount = 0) (.invalidValue "Collection has tokens.")
  pure { db with nftCollections := db.nftCollections.erase nftColl.name }

/-- The fee of `nft_issue`: one more issue cost for each full 1024 bytes of metadata. -/
def nftIssueFee (db : Database) (op : NftIssueOperation) : Result Asset :=
  if db.nftIssueCost.amount = 0 then
    pure db.nftIssueCost
  else do
    let multiplier := op.jsonMetadata.utf8ByteSize / 1024
    let additional ← int64 (db.nftIssueCost.amount * multiplier) .overflowException
    db.nftIssueCost.add ⟨additional, db.nftIssueCost.symbol⟩

def payNftIssueFee (db : Database) (creator : AccountName) (fee : Asset) : Result Database := do
  let creatorAccount ← db.ledger.getAccount creator
  db.ledger.checkBalance creatorAccount fee
  let minusFee ← fee.neg
  let db ← db.adjustBalance creator minusFee
  db.adjustBalance workerPoolAccount fee

def nftIssue (db : Database) (op : NftIssueOperation) : Result Database := do
  let name ← nftNameFromString op.name
  let nftColl ← db.getNftCollection name
  let _ ← db.ledger.getAccount op.toAccount
  let fee ← db.nftIssueFee op
  let db ← (if db.nftIssueCost.amount ≠ 0 then db.payNftIssueFee op.creator fee else pure db)
  ensure (inc32 nftColl.tokenCount ≤ nftColl.maxTokenCount)
    (.invalidValue "Cannot issue more tokens of this collection.")
  let tokenId := inc32 db.lastNftTokenId
  let no : NftObject :=
    { creator := op.creator
      name := name
      owner := op.toAccount
      tokenId := tokenId
      issueCost := fee
      issued := db.headBlockTime
      lastUpdate := db.headBlockTime }
  let db := { db with lastNftTokenId := tokenId }
  let db := db.modifyNftCollection nftColl.name fun nco =>
    { nco with tokenCount := inc32 nco.tokenCount }
  let nfts ← get (db.nfts.emplace no) .uniquenessViolated
  pure { db with nfts := nfts }

/-- The half of the issue cost that burning a token returns. -/
def refundNftIssueCost (db : Database) (no : NftObject) (fromAccount : AccountName) :
    Result Database := do
  if 1 < no.issueCost.amount then
    let cost : Asset := ⟨no.issueCost.amount / 2, sbdSymbol⟩
    let _ ← db.ledger.getAccount fromAccount
    let workers ← db.ledger.getAccount workerPoolAccount
    if cost.amount ≤ workers.sbdBalance then
      let minusCost ← cost.neg
      let db ← db.adjustBalance workerPoolAccount minusCost
      db.adjustBalance fromAccount cost
    else
      let ledger ← db.ledger.adjustSbdSupply cost.amount
      let db := { db with ledger := ledger }
      db.adjustBalance fromAccount cost
  else
    pure db

def burnNft (db : Database) (no : NftObject) (fromAccount : AccountName) : Result Database := do
  let db ← db.refundNftIssueCost no fromAccount
  let nftColl ← db.getNftCollection no.name
  let cleared ← db.clearNftOrders no.tokenId none none
  let db := cleared.db.modifyNftCollection nftColl.name fun nco =>
    { nco with
      sellOrderCount := sub32 nco.sellOrderCount cleared.sellCount
      buyOrderCount := sub32 nco.buyOrderCount cleared.buyCount
      tokenCount := sub32 nco.tokenCount 1 }
  pure (db.modifyNft no.tokenId fun no => { no with burnt := true })

def nftTransfer (db : Database) (op : NftTransferOperation) : Result Database := do
  let no ← db.getNft op.tokenId
  ensure (op.fromAccount = no.owner) (.invalidValue "Cannot transfer not your token.")
  ensure (!no.burnt) (.invalidValue "Cannot transfer burnt token.")
  ensure (!no.selling) (.invalidValue "Cannot transfer selling token.")
  ensure (no.auctionExpiration = 0) (.invalidValue "Cannot transfer token selling via auction.")
  let _ ← db.ledger.getAccount op.toAccount
  if op.toAccount = nullAccount then
    db.burnNft no op.fromAccount
  else
    let now := db.headBlockTime
    pure (db.modifyNft no.tokenId fun no => { no with owner := op.toAccount, lastUpdate := now })

/-- The part of `nft_sell` without a buyer: a new selling order. -/
def placeSellOrder (db : Database) (op : NftSellOperation) (no : NftObject)
    (nco : NftCollectionObject) : Result Database := do
  ensure (!no.selling) (.invalidValue "You already selling this token.")
  ensure (db.findNftOrder op.seller op.orderId = none) (.objectAlreadyExist "nft_order")
  let now := db.headBlockTime
  let db := db.modifyNft no.tokenId fun no => { no with lastUpdate := now, selling := true }
  let db ← db.createNftOrder
    { creator := no.creator
      name := no.name
      tokenId := no.tokenId
      owner := no.owner
      orderId := op.orderId
      price := op.price
      selling := true
      created := now }
  pure (db.modifyNftCollection nco.name fun nco =>
    { nco with sellOrderCount := inc32 nco.sellOrderCount })

/-- The change of owner, orders and counters when a token is sold by an order. -/
def settleSale (db : Database) (soldTokenId clearedTokenId : Nat) (newOwner : AccountName)
    (price : Asset) (proceedOrder clearOrder : Option NftOrderObject)
    (nco : Database → Result NftCollectionObject) : Result Database := do
  let now := db.headBlockTime
  let db := db.modifyNft soldTokenId fun no =>
    { no with
      lastUpdate := now
      owner := newOwner
      selling := false
      lastBuyPrice := price }
  let nco ← nco db
  let cleared ← db.clearNftOrders clearedTokenId proceedOrder clearOrder
  pure (cleared.db.modifyNftCollection nco.name fun nco =>
    { nco with
      sellOrderCount := sub32 nco.sellOrderCount cleared.sellCount
      buyOrderCount := sub32 nco.buyOrderCount cleared.buyCount
      lastBuyPrice := price })

/-- The checks of a price given in the operation; 0 stands for the price of the order. -/
def checkOfferedPrice (given ofOrder lower upper : Asset) (msg : String) : Result Unit :=
  if given.amount ≠ 0 then do
    ensure (given.symbol = ofOrder.symbol) (.invalidValue "Wrong price token")
    let fits ← lower.le upper
    ensure fits (.invalidValue msg)
  else
    pure ()

/-- The buyer of a collection order pays now, the buyer of an offer for one token has paid. -/
def takePriceFromBuyer (db : Database) (name : AccountName) (noo : NftOrderObject)
    (price : Asset) : Result Database :=
  if noo.tokenId = 0 then do
    let buyer ← db.ledger.getAccount name
    db.ledger.checkBalance buyer price
    let minusPrice ← price.neg
    db.adjustBalance name minusPrice
  else do
    ensure (price = noo.price) (.invalidValue "You cannot set your own price in this case.")
    pure db

def returnRemainOfPrice (db : Database) (noo : NftOrderObject) (price : Asset) :
    Result Database :=
  if noo.holds then do
    let remain ← price.sub noo.price
    db.adjustBalanceIf (remain.amount ≠ 0) noo.owner remain
  else
    pure db

/-- The part of `nft_sell` that executes the order of a buyer. -/
def sellToBuyer (db : Database) (op : NftSellOperation) (no : NftObject)
    (nco : NftCollectionObject) : Result Database := do
  let noo ← db.getNftOrder op.buyer op.orderId
  ensure (!noo.selling)
    (.invalidValue "Cannot sell because this order is not buying - it is selling")
  ensure (noo.name = no.name) (.invalidValue "Wrong NFT collection name")
  ensure (noo.tokenId ≠ 0 → noo.tokenId = op.tokenId)
    (.invalidValue "Wrong token_id - buyer specified another one")
  checkOfferedPrice op.price noo.price op.price noo.price
    "Cannot sell with price greater than buyer's one"
  let price := if op.price.amount = 0 then noo.price else op.price
  let db ← db.takePriceFromBuyer op.buyer noo price
  let db ← db.adjustBalance op.seller price
  let db ← db.returnRemainOfPrice noo price
  db.settleSale no.tokenId op.tokenId noo.owner price (some noo) (some noo) fun _ => pure nco

def nftSell (db : Database) (op : NftSellOperation) : Result Database := do
  let no ← db.getNft op.tokenId
  ensure (no.owner = op.seller) (.invalidValue "Cannot sell not your token.")
  ensure (!no.burnt) (.invalidValue "Cannot sell burnt token.")
  db.checkSymbol op.price.symbol
  ensure (0 ≤ op.price.amount) (.invalidValue "Price cannot be negative.")
  let nco ← db.getNftCollection no.name
  if op.buyer = "" then
    db.placeSellOrder op no nco
  else
    db.sellToBuyer op no nco

/-- The part of a bet of price 0, which takes back the bet of the buyer. -/
def cancelBet (db : Database) (op : NftBuyOperation) : Result Database := do
  let bet ← get (db.nftBets.find? (op.tokenId, op.buyer))
    (.invalidValue "Bet should exist if you want cancel it (0 price).")
  let db ← db.adjustBalance op.buyer bet.price
  let db ← db.adjustNftHoldBalanceIf (bet.price.symbol = steemSymbol) op.buyer (-bet.price.amount)
  pure (db.removeNftBet bet)

/-- A bet in the last 20 minutes of an auction extends it by 10 minutes. -/
def extendAuction (db : Database) (no : NftObject) : Database :=
  if (no.auctionExpiration : ℤ) - db.headBlockTime ≤ 20 * 60 then
    db.modifyNft no.tokenId fun no =>
      { no with auctionExpiration := no.auctionExpiration + 10 * 60 }
  else
    db

def placeBet (db : Database) (op : NftBuyOperation) (no : NftObject) : Result Database := do
  ensure (db.checkNftBets op.tokenId op.price)
    (.invalidValue "Bet with such price already exists.")
  ensure (db.nftBets.find? (op.tokenId, op.buyer) = none)
    (.invalidValue "Your bet already exists.")
  ensure (op.price.symbol = no.auctionMinPrice.symbol) (.invalidValue "Wrong price token.")
  let fits ← no.auctionMinPrice.le op.price
  ensure fits (.invalidValue "You cannot bet low than min price.")
  let minusPrice ← op.price.neg
  let db ← db.adjustBalance op.buyer minusPrice
  let now := db.headBlockTime
  let db ← db.createNftBet
    { creator := no.creator
      name := no.name
      tokenId := no.tokenId
      owner := op.buyer
      price := op.price
      created := now }
  let db := db.extendAuction no
  db.adjustNftHoldBalanceIf (op.price.symbol = steemSymbol) op.buyer op.price.amount

/-- The part of `nft_buy` with `order_id` 0. -/
def nftBuyByAuction (db : Database) (op : NftBuyOperation) : Result Database := do
  let no ← db.getNft op.tokenId
  ensure (no.auctionExpiration ≠ 0) (.invalidValue "This NFT is not selling by auction.")
  let buyer ← db.ledger.getAccount op.buyer
  db.ledger.checkBalance buyer op.price
  if op.price.amount = 0 then
    db.cancelBet op
  else
    db.placeBet op no

/-- The part of `nft_buy` that places an offer for one token and holds its price. -/
def placeOffer (db : Database) (op : NftBuyOperation) : Result Database := do
  ensure (op.name ≠ "") (.invalidValue "You should fill name if your buy order is first.")
  let name ← nftNameFromString op.name
  let no ← db.getNft op.tokenId
  ensure (no.owner ≠ op.buyer) (.invalidValue "Token is already your")
  ensure (no.name = name) (.invalidValue "Wrong name")
  ensure (no.auctionExpiration = 0)
    (.invalidValue "Cannot place offer on token selling via auction.")
  let nco ← db.getNftCollection no.name
  let buyer ← db.ledger.getAccount op.buyer
  db.ledger.checkBalance buyer op.price
  ensure (db.checkNftBuyingPrice op.tokenId op.price)
    (.invalidValue "Order with such price already exists.")
  let minusPrice ← op.price.neg
  let db ← db.adjustBalance op.buyer minusPrice
  let db ← db.createNftOrder
    { creator := nco.creator
      name := name
      tokenId := op.tokenId
      owner := op.buyer
      orderId := op.orderId
      price := op.price
      holds := true
      created := db.headBlockTime }
  let db := db.modifyNftCollection nco.name fun nco =>
    { nco with buyOrderCount := inc32 nco.buyOrderCount }
  db.adjustNftHoldBalanceIf (op.price.symbol = steemSymbol) op.buyer op.price.amount

/-- Up to block 74644300 an execution that the buyer cannot pay is ignored instead of failing. -/
def ignoresNftBuy (db : Database) (buyer : AccountObject) (price : Asset) : Result Bool :=
  if db.headBlockNum ≤ 74644300 then do
    let bal ← db.ledger.getBalance buyer price.symbol
    bal.lt price
  else
    pure false

/-- The part of `nft_buy` that executes the selling order `noo`. -/
def buyFromSeller (db : Database) (op : NftBuyOperation) (noo : NftOrderObject) :
    Result Database := do
  ensure noo.selling (.invalidValue "Cannot buy because this order is not selling - it is buying")
  -- The token is the one of the order, which nothing relates to `op.tokenId`.
  let no ← db.getNft noo.tokenId
  checkOfferedPrice op.price noo.price noo.price op.price
    "Cannot buy with price lesser than seller's one"
  let price := if op.price.amount = 0 then noo.price else op.price
  let buyer ← db.ledger.getAccount op.buyer
  let ignored ← db.ignoresNftBuy buyer price
  if ignored then
    pure db
  else
    db.ledger.checkBalance buyer price
    let db ← db.adjustBalance noo.owner price
    let minusPrice ← price.neg
    let db ← db.adjustBalance op.buyer minusPrice
    db.settleSale no.tokenId op.tokenId op.buyer price (some noo) none fun db =>
      db.getNftCollection no.name

/-- The part of `nft_buy` with `token_id` 0: an order for any token of a collection. -/
def placeCollectionOffer (db : Database) (op : NftBuyOperation) : Result Database := do
  ensure (db.findNftOrder op.buyer op.orderId = none) (.objectAlreadyExist "nft_order")
  let name ← nftNameFromString op.name
  let nco ← db.getNftCollection name
  let db ← db.createNftOrder
    { creator := nco.creator
      name := name
      tokenId := 0
      owner := op.buyer
      orderId := op.orderId
      price := op.price
      created := db.headBlockTime }
  pure (db.modifyNftCollection nco.name fun nco =>
    { nco with buyOrderCount := inc32 nco.buyOrderCount })

def nftBuy (db : Database) (op : NftBuyOperation) : Result Database := do
  db.checkSymbol op.price.symbol
  ensure (0 ≤ op.price.amount) (.invalidValue "Price cannot be negative.")
  if op.orderId = 0 then
    db.nftBuyByAuction op
  else if op.tokenId ≠ 0 then
    let no ← db.getNft op.tokenId
    let noo := db.findNftOrder no.owner op.orderId
    ensure (noo.isSome → op.name = "")
      (.invalidValue "You should not fill name if you buying token by existant selling order.")
    ensure (db.findNftOrder op.buyer op.orderId = none) (.invalidValue "Order already exists.")
    match noo with
    | none => db.placeOffer op
    | some noo => db.buyFromSeller op noo
  else
    db.placeCollectionOffer op

/-- Cancelling a selling order takes its token off the market. -/
def stopSelling (db : Database) (noo : NftOrderObject) : Result Database :=
  if noo.selling then do
    let no ← db.getNft noo.tokenId
    let now := db.headBlockTime
    pure (db.modifyNft no.tokenId fun no => { no with lastUpdate := now, selling := false })
  else
    pure db

/-- The refund, the hold and the removal of the order are those of `clear_nft_orders`. -/
def nftCancelOrder (db : Database) (op : NftCancelOrderOperation) : Result Database := do
  let noo ← db.getNftOrder op.owner op.orderId
  let db ← db.stopSelling noo
  let nco ← db.getNftCollection noo.name
  let db := db.modifyNftCollection nco.name fun nco =>
    { nco with
      sellOrderCount := if noo.selling then sub32 nco.sellOrderCount 1 else nco.sellOrderCount
      buyOrderCount := if noo.selling then nco.buyOrderCount else sub32 nco.buyOrderCount 1 }
  db.clearNftOrder noo none

def stopAuction (db : Database) (no : NftObject) (nco : NftCollectionObject) :
    Result Database := do
  ensure (no.auctionExpiration ≠ 0) (.invalidValue "No auction already.")
  let db ← db.clearNftBets no.tokenId .null
  pure (db.modifyNftCollection nco.name fun nco =>
    { nco with auctionCount := sub32 nco.auctionCount 1 })

def startAuction (db : Database) (no : NftObject) (nco : NftCollectionObject) :
    Result Database := do
  ensure (no.auctionExpiration = 0) (.invalidValue "You cannot edit auction.")
  let cleared ← db.clearNftOrders no.tokenId none none true
  pure (cleared.db.modifyNftCollection nco.name fun nco =>
    { nco with
      auctionCount := inc32 nco.auctionCount
      sellOrderCount := sub32 nco.sellOrderCount cleared.sellCount
      buyOrderCount := sub32 nco.buyOrderCount cleared.buyCount })

def nftAuction (db : Database) (op : NftAuctionOperation) : Result Database := do
  let no ← db.getNft op.tokenId
  ensure (no.owner = op.owner) (.invalidValue "Cannot sell not your token.")
  db.checkSymbol op.minPrice.symbol
  let now := db.headBlockTime
  let emptyExpiration := op.expiration = 0
  let emptyAmount := op.minPrice.amount = 0
  ensure (¬emptyExpiration → now ≤ op.expiration)
    (.invalidValue "Expiration should be set in future.")
  let nco ← db.getNftCollection no.name
  let db ←
    (if emptyExpiration ∨ emptyAmount then db.stopAuction no nco else db.startAuction no nco)
  pure (db.modifyNft no.tokenId fun no =>
    { no with
      lastUpdate := now
      auctionMinPrice := if ¬emptyExpiration then op.minPrice else ⟨0, steemSymbol⟩
      auctionExpiration := if ¬emptyAmount then op.expiration else 0 })

def applyNftOperation (db : Database) : NftOperation → Result Database
  | .nftCollection op => db.nftCollection op
  | .nftCollectionDelete op => db.nftCollectionDelete op
  | .nftIssue op => db.nftIssue op
  | .nftTransfer op => db.nftTransfer op
  | .nftSell op => db.nftSell op
  | .nftBuy op => db.nftBuy op
  | .nftCancelOrder op => db.nftCancelOrder op
  | .nftAuction op => db.nftAuction op

end Database
end Golos
