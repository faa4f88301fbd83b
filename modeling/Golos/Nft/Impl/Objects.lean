import Mathlib.Data.List.Sort
import Golos.Ledger.Basic

/-!
This module contains the objects and operations of the NFT market, the state that its evaluators
work on, and the functions that clear orders and bets and settle expired auctions. Fields of type
`uint32_t` are numbers below `2 ^ 32`, times are seconds.
-/

namespace Golos

open Checked

/-- `++counter` on a `uint32_t`. -/
def inc32 (n : Nat) : Nat :=
  (n + 1) % 2 ^ 32

/-- `counter -= k` on a `uint32_t`. -/
def sub32 (n k : Nat) : Nat :=
  (n + (2 ^ 32 - k % 2 ^ 32)) % 2 ^ 32

structure NftCollectionObject where
  creator : AccountName
  name : AssetSymbolType
  tokenCount : Nat := 0
  maxTokenCount : Nat := 0
  lastBuyPrice : Asset := ⟨0, steemSymbol⟩
  buyOrderCount : Nat := 0
  sellOrderCount : Nat := 0
  auctionCount : Nat := 0
  deriving DecidableEq

structure NftObject where
  creator : AccountName
  name : AssetSymbolType
  owner : AccountName
  tokenId : Nat
  burnt : Bool := false
  issueCost : Asset
  lastBuyPrice : Asset := ⟨0, steemSymbol⟩
  issued : Nat
  lastUpdate : Nat
  selling : Bool := false
  auctionMinPrice : Asset := ⟨0, steemSymbol⟩
  auctionExpiration : Nat := 0
  deriving DecidableEq

structure NftOrderObject where
  creator : AccountName
  name : AssetSymbolType
  tokenId : Nat
  owner : AccountName
  orderId : Nat
  price : Asset
  selling : Bool := false
  holds : Bool := false
  created : Nat
  deriving DecidableEq

abbrev NftOrderObject.byOwnerOrderId (o : NftOrderObject) : AccountName × Nat :=
  (o.owner, o.orderId)

structure NftBetObject where
  creator : AccountName
  name : AssetSymbolType
  tokenId : Nat
  owner : AccountName
  price : Asset
  created : Nat
  deriving DecidableEq

abbrev NftBetObject.byTokenOwner (b : NftBetObject) : Nat × AccountName :=
  (b.tokenId, b.owner)

def NftBetObject.priceReal (b : NftBetObject) : ℚ :=
  b.price.toReal

/-- The order of the index `by_token_price`: tokens ascending, prices descending. -/
def NftBetObject.ByTokenPrice (a b : NftBetObject) : Prop :=
  a.tokenId < b.tokenId ∨ (a.tokenId = b.tokenId ∧ b.priceReal ≤ a.priceReal)

instance : DecidableRel NftBetObject.ByTokenPrice := fun a b =>
  inferInstanceAs (Decidable (a.tokenId < b.tokenId ∨ (a.tokenId = b.tokenId ∧ _)))

structure Database where
  ledger : Ledger := {}
  nftCollections : Table NftCollectionObject.name := .empty
  nfts : Table NftObject.tokenId := .empty
  nftOrders : Table NftOrderObject.byOwnerOrderId := .empty
  nftBets : Table NftBetObject.byTokenOwner := .empty
  lastNftTokenId : Nat := 0
  headBlockNum : Nat := 0
  headBlockTime : Nat := 0
  nftIssueCost : Asset := ⟨0, sbdSymbol⟩

structure NftCollectionOperation where
  creator : AccountName
  name : String
  jsonMetadata : String := ""
  maxTokenCount : Nat := 4294967295

structure NftCollectionDeleteOperation where
  creator : AccountName
  name : String

structure NftIssueOperation where
  creator : AccountName
  name : String
  toAccount : AccountName
  jsonMetadata : String := ""

structure NftTransferOperation where
  tokenId : Nat
  fromAccount : AccountName
  toAccount : AccountName

structure NftSellOperation where
  seller : AccountName
  tokenId : Nat
  buyer : AccountName := ""
  orderId : Nat
  price : Asset

structure NftBuyOperation where
  buyer : AccountName
  name : String
  tokenId : Nat
  orderId : Nat
  price : Asset

structure NftCancelOrderOperation where
  owner : AccountName
  orderId : Nat

structure NftAuctionOperation where
  owner : AccountName
  tokenId : Nat
  minPrice : Asset
  expiration : Nat

inductive NftOperation where
  | nftCollection (op : NftCollectionOperation)
  | nftCollectionDelete (op : NftCollectionDeleteOperation)
  | nftIssue (op : NftIssueOperation)
  | nftTransfer (op : NftTransferOperation)
  | nftSell (op : NftSellOperation)
  | nftBuy (op : NftBuyOperation)
  | nftCancelOrder (op : NftCancelOrderOperation)
  | nftAuction (op : NftAuctionOperation)

namespace Database

def getNftCollection (db : Database) (name : AssetSymbolType) : Result NftCollectionObject :=
  get (db.nftCollections.find? name) (.missingObject "nft_collection")

def getNft (db : Database) (tokenId : Nat) : Result NftObject :=
  get (db.nfts.find? tokenId) (.missingObject "nft")

def findNftOrder (db : Database) (owner : AccountName) (orderId : Nat) : Option NftOrderObject :=
  db.nftOrders.find? (owner, orderId)

def getNftOrder (db : Database) (owner : AccountName) (orderId : Nat) : Result NftOrderObject :=
  get (db.findNftOrder owner orderId) (.missingObject "nft_order")

def modifyNft (db : Database) (tokenId : Nat) (f : NftObject → NftObject)
    (hf : autoParam (∀ no, (f no).tokenId = no.tokenId) Monoid.npow_zero._autoParam) : Database :=
  { db with nfts := db.nfts.modify tokenId f hf }

def modifyNftCollection (db : Database) (name : AssetSymbolType)
    (f : NftCollectionObject → NftCollectionObject)
    (hf : autoParam (∀ nco, (f nco).name = nco.name) Monoid.npow_zero._autoParam) : Database :=
  { db with nftCollections := db.nftCollections.modify name f hf }

def createNftOrder (db : Database) (o : NftOrderObject) : Result Database := do
  let nftOrders ← get (db.nftOrders.emplace o) .uniquenessViolated
  pure { db with nftOrders := nftOrders }

def removeNftOrder (db : Database) (o : NftOrderObject) : Database :=
  { db with nftOrders := db.nftOrders.erase o.byOwnerOrderId }

/-- Both the index `by_token_owner` and the index `by_token_price` are unique. -/
def createNftBet (db : Database) (b : NftBetObject) : Result Database := do
  ensure (∀ b' ∈ db.nftBets.rows, ¬(b'.tokenId = b.tokenId ∧ b'.priceReal = b.priceReal))
    .uniquenessViolated
  let nftBets ← get (db.nftBets.emplace b) .uniquenessViolated
  pure { db with nftBets := nftBets }

def removeNftBet (db : Database) (b : NftBetObject) : Database :=
  { db with nftBets := db.nftBets.erase b.byTokenOwner }

/-- `adjust_balance(get_account(name), delta)` -/
def adjustBalance (db : Database) (name : AccountName) (delta : Asset) : Result Database := do
  let ledger ← db.ledger.adjustBalance name delta
  pure { db with ledger := ledger }

def adjustNftHoldBalance (db : Database) (name : AccountName) (delta : ℤ) : Result Database := do
  let ledger ← db.ledger.adjustNftHoldBalance name delta
  pure { db with ledger := ledger }

/-- `if (p) adjust_balance(get_account(name), delta)` -/
def adjustBalanceIf (db : Database) (p : Prop) [Decidable p] (name : AccountName)
    (delta : Asset) : Result Database :=
  if p then db.adjustBalance name delta else pure db

def adjustNftHoldBalanceIf (db : Database) (p : Prop) [Decidable p] (name : AccountName)
    (delta : ℤ) : Result Database :=
  if p then db.adjustNftHoldBalance name delta else pure db

/-- What `clear_nft_orders` returns: the new state and how many orders of each kind are gone. -/
structure Cleared where
  db : Database
  sellCount : Nat := 0
  buyCount : Nat := 0

namespace Cleared

/-- `update_stats(noo)` -/
def updateStats (c : Cleared) (noo : NftOrderObject) : Cleared :=
  if noo.selling then
    { c with sellCount := c.sellCount + 1 }
  else
    { c with buyCount := c.buyCount + 1 }

end Cleared

/-- The orders that the loop of `clear_nft_orders` takes, in the order it takes them. -/
def clearedNftOrders (db : Database) (tokenId : Nat) (onlyBuying : Bool) : List NftOrderObject :=
  if tokenId = 0 then
    []
  else
    db.nftOrders.rows.filter fun noo => noo.tokenId = tokenId ∧ ¬(onlyBuying ∧ noo.selling)

/-- `!proceed_order || noo.owner != proceed_order->owner || noo.order_id != …` -/
def isProceedOrder (proceedOrder : Option NftOrderObject) (noo : NftOrderObject) : Bool :=
  match proceedOrder with
  | some o => noo.byOwnerOrderId = o.byOwnerOrderId
  | none => false

/-- The body of the loop of `clear_nft_orders`. -/
def clearNftOrder (db : Database) (noo : NftOrderObject) (proceedOrder : Option NftOrderObject) :
    Result Database := do
  let db ← db.adjustBalanceIf (noo.holds ∧ ¬isProceedOrder proceedOrder noo) noo.owner noo.price
  let db ← db.adjustNftHoldBalanceIf (noo.holds ∧ noo.price.symbol = steemSymbol) noo.owner
    (-noo.price.amount)
  pure (db.removeNftOrder noo)

/-- The double statistics `market_depth` and `market_asks` are left out. -/
def clearNftOrders (db : Database) (tokenId : Nat) (proceedOrder clearOrder : Option NftOrderObject)
    (onlyBuying : Bool := false) : Result Cleared := do
  let orders := db.clearedNftOrders tokenId onlyBuying
  let cleared ← go ⟨db, 0, 0⟩ orders
  match clearOrder with
  | some noo =>
    if orders.any fun o => o.byOwnerOrderId = noo.byOwnerOrderId then
      pure cleared
    else
      let cleared := cleared.updateStats noo
      pure { cleared with db := cleared.db.removeNftOrder noo }
  | none => pure cleared
where
  go (cleared : Cleared) : List NftOrderObject → Result Cleared
    | [] => pure cleared
    | noo :: orders => do
      let cleared := cleared.updateStats noo
      let db ← cleared.db.clearNftOrder noo proceedOrder
      go { cleared with db := db } orders

def checkNftBuyingPrice (db : Database) (tokenId : Nat) (price : Asset) : Bool :=
  db.nftOrders.rows.all fun noo =>
    !(noo.tokenId = tokenId ∧ !noo.selling ∧ noo.price = price)

def checkNftBets (db : Database) (tokenId : Nat) (price : Asset) : Bool :=
  db.nftBets.rows.all fun bet => !(bet.tokenId = tokenId ∧ bet.priceReal = price.toReal)

/-- The bets of a token in the order of the index `by_token_price`. -/
def nftBetsOf (db : Database) (tokenId : Nat) : List NftBetObject :=
  (db.nftBets.rows.filter fun bet => bet.tokenId = tokenId).insertionSort
    NftBetObject.ByTokenPrice

/--
What the id in the memory of a removed bet reads as when a bet is compared with it, as the key of the
bet that has this id.
-/
abbrev Removed :=
  NftBetObject → Nat × AccountName

/-- `const nft_bet_object* proceed_bet`, which the loop of `clear_nft_bets` may leave dangling. -/
inductive ProceedBet where
  | null
  | bet (bet : NftBetObject) (removed : Removed)
  | dangling (removed : Removed)

namespace ProceedBet

/-- `proceed_bet && proceed_bet->id == bet.id` -/
def is (proceedBet : ProceedBet) (bet : NftBetObject) : Bool :=
  match proceedBet with
  | .null => false
  | .bet proceed _ => proceed.byTokenOwner = bet.byTokenOwner
  | .dangling removed => removed bet = bet.byTokenOwner

/-- What the pointer is after `remove(bet)`. -/
def remove (proceedBet : ProceedBet) (bet : NftBetObject) : ProceedBet :=
  match proceedBet with
  | .bet proceed removed =>
    if proceed.byTokenOwner = bet.byTokenOwner then .dangling removed else proceedBet
  | _ => proceedBet

end ProceedBet

/-- The body of the loop of `clear_nft_bets`. -/
def clearNftBet (db : Database) (bet : NftBetObject) (proceedBet : ProceedBet) :
    Result Database := do
  let db ← db.adjustBalanceIf (proceedBet.is bet = false) bet.owner bet.price
  let db ← db.adjustNftHoldBalanceIf (bet.price.symbol = steemSymbol) bet.owner (-bet.price.amount)
  pure (db.removeNftBet bet)

def clearNftBets (db : Database) (tokenId : Nat) (proceedBet : ProceedBet) : Result Database :=
  go db proceedBet (db.nftBetsOf tokenId)
where
  go (db : Database) (proceedBet : ProceedBet) : List NftBetObject → Result Database
    | [] => pure db
    | bet :: bets => do
      let db ← db.clearNftBet bet proceedBet
      -- the pointer is not cleared with the bet it points to
      go db (proceedBet.remove bet) bets

/--
`bet_idx.lower_bound(std::make_tuple(token_id))`: the first bet whose token is not below `tokenId`,
in an index that holds the bets of all tokens.
-/
def lowerBoundBet (db : Database) (tokenId : Nat) : Option NftBetObject :=
  ((db.nftBets.rows.filter fun bet => tokenId ≤ bet.tokenId).insertionSort
    NftBetObject.ByTokenPrice).head?

/-- The branch of `process_nft_bets` without a bet. -/
def resetAuction (db : Database) (token : NftObject) : Result Database := do
  let now := db.headBlockTime
  let db := db.modifyNft token.tokenId fun no =>
    { no with
      auctionMinPrice := ⟨0, steemSymbol⟩
      auctionExpiration := 0
      lastUpdate := now }
  let nco ← db.getNftCollection token.name
  pure (db.modifyNftCollection nco.name (fun nco =>
    { nco with auctionCount := sub32 nco.auctionCount 1 }) fun nco => (rfl : nco.name = nco.name))

/-- The branch of `process_nft_bets` that sells the token to the owner of `bet`. -/
def sellByAuction (removed : Removed) (db : Database) (token : NftObject) (bet : NftBetObject) :
    Result Database := do
  let now := db.headBlockTime
  let db ← db.adjustBalance token.owner bet.price
  let db := db.modifyNft token.tokenId fun no =>
    { no with
      auctionMinPrice := ⟨0, steemSymbol⟩
      auctionExpiration := 0
      lastUpdate := now
      owner := bet.owner
      selling := false
      lastBuyPrice := bet.price }
  let db ← db.clearNftBets token.tokenId (.bet bet removed)
  let cleared ← db.clearNftOrders token.tokenId none none
  let nco ← cleared.db.getNftCollection token.name
  pure (cleared.db.modifyNftCollection nco.name fun nco =>
    { nco with
      auctionCount := sub32 nco.auctionCount 1
      sellOrderCount := sub32 nco.sellOrderCount cleared.sellCount
      buyOrderCount := sub32 nco.buyOrderCount cleared.buyCount
      lastBuyPrice := bet.price })

/-- One turn of the loop of `process_nft_bets`. -/
def processNftBet (removed : Removed) (db : Database) (tokenId : Nat) : Result Database := do
  let token ← db.getNft tokenId
  match db.lowerBoundBet tokenId with
  | none => db.resetAuction token
  | some bet => sellByAuction removed db token bet

/-- The loop over the tokens of the queue. -/
def processNftBets (removed : Removed) (db : Database) : List Nat → Result Database
  | [] => pure db
  | tokenId :: queue => do
    let db ← processNftBet removed db tokenId
    processNftBets removed db queue

/-- The tokens that the loop of `process_nft_bets` stops at. -/
def Expired (db : Database) (no : NftObject) : Prop :=
  0 < no.auctionExpiration ∧ no.auctionExpiration < db.headBlockTime

instance (db : Database) (no : NftObject) : Decidable (db.Expired no) :=
  inferInstanceAs (Decidable (_ ∧ _))

/--
`queue` lists the tokens with an expired auction as the index `by_auction_expiration` does: by time,
and in any order where times are equal.
-/
structure AuctionQueue (db : Database) (queue : List Nat) : Prop where
  nodup : queue.Nodup
  mem : ∀ tokenId, tokenId ∈ queue ↔ ∃ no, db.nfts.find? tokenId = some no ∧ db.Expired no
  sorted : queue.Pairwise fun t u => ∀ no no',
    db.nfts.find? t = some no → db.nfts.find? u = some no' →
      no.auctionExpiration ≤ no'.auctionExpiration

end Database

end Golos
