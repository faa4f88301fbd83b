import Golos.Nft.Burnt

/-!
This module contains who can change a collection: which operations delete it or issue tokens in it,
and whose operations these are.
-/

namespace Golos

open Checked

/-- The account whose authority an operation requires. -/
def NftOperation.authorizer : NftOperation → AccountName
  | .nftCollection op => op.creator
  | .nftCollectionDelete op => op.creator
  | .nftIssue op => op.creator
  | .nftTransfer op => op.fromAccount
  | .nftSell op => op.seller
  | .nftBuy op => op.buyer
  | .nftCancelOrder op => op.owner
  | .nftAuction op => op.owner

/-- Nobody authorizes the work at the end of a block. -/
def MarketEvent.authorizer : MarketEvent → Option AccountName
  | .operation op => some op.authorizer
  | .endOfBlock _ _ => none
  | .other => none

namespace Database

/-- The creator of a collection, if it exists. -/
def creatorOf (db : Database) (name : AssetSymbolType) : Option AccountName :=
  (db.nftCollections.find? name).map NftCollectionObject.creator

/-- The number of tokens issued in a collection, burnt ones included. -/
def issuedIn (db : Database) (name : AssetSymbolType) : ℤ :=
  db.nfts.sum fun no => if no.name = name then 1 else 0

theorem creatorOf_congr {db db' : Database} (h : db'.nftCollections = db.nftCollections) :
    db'.creatorOf = db.creatorOf := by
  funext n
  unfold creatorOf
  rw [h]

theorem creatorOf_modifyNftCollection (db : Database) (name : AssetSymbolType)
    (f : NftCollectionObject → NftCollectionObject)
    (hf : autoParam (∀ nco, (f nco).name = nco.name) Monoid.npow_zero._autoParam)
    (hcreator : autoParam (∀ nco, (f nco).creator = nco.creator) Monoid.npow_zero._autoParam) :
    (db.modifyNftCollection name f hf).creatorOf = db.creatorOf := by
  funext n
  unfold creatorOf modifyNftCollection
  rw [Table.find?_modify]
  split
  . rw [Option.map_map]
    congr 1
    funext nco
    exact hcreator nco
  . rfl

section frame

variable {removed : Removed} {db db' : Database}

theorem clearNftOrder_collections {noo : NftOrderObject} {proceedOrder : Option NftOrderObject}
    (h : db.clearNftOrder noo proceedOrder = .ok db') :
    db'.nftCollections = db.nftCollections := by
  obtain ⟨l, rfl, -⟩ := clearNftOrder_eq_ok h
  rfl

theorem clearNftOrders_go_collections {proceedOrder : Option NftOrderObject} {c c' : Cleared}
    {orders : List NftOrderObject} (h : clearNftOrders.go proceedOrder c orders = .ok c') :
    c'.db.nftCollections = c.db.nftCollections := by
  induction orders generalizing c with
  | nil =>
    simp only [clearNftOrders.go, pure_eq_ok] at h
    rw [h]
  | cons noo orders ih =>
    simp only [clearNftOrders.go, bind_eq_ok] at h
    obtain ⟨db, hdb, h⟩ := h
    rw [ih h, clearNftOrder_collections hdb]
    unfold Cleared.updateStats
    split <;> rfl

theorem clearNftOrders_collections {tokenId : Nat}
    {proceedOrder clearOrder : Option NftOrderObject} {onlyBuying : Bool} {c : Cleared}
    (h : db.clearNftOrders tokenId proceedOrder clearOrder onlyBuying = .ok c) :
    c.db.nftCollections = db.nftCollections := by
  simp only [clearNftOrders, bind_eq_ok] at h
  obtain ⟨c₁, hgo, h⟩ := h
  have hc₁ : c₁.db.nftCollections = db.nftCollections := clearNftOrders_go_collections hgo
  split at h
  . split at h
    . rw [pure_eq_ok] at h
      rw [← h, hc₁]
    . rw [pure_eq_ok] at h
      rw [← h, ← hc₁]
      unfold Cleared.updateStats
      split <;> rfl
  . rw [pure_eq_ok] at h
    rw [← h, hc₁]

theorem burnNft_creatorOf {no : NftObject} {name : AccountName}
    (h : db.burnNft no name = .ok db') : db'.creatorOf = db.creatorOf := by
  simp only [burnNft, bind_eq_ok, pure_eq_ok] at h
  obtain ⟨_, hrefund, nco, -, cleared, hcleared, rfl⟩ := h
  obtain ⟨l, rfl, -⟩ := refundNftIssueCost_eq_ok hrefund
  trans cleared.db.creatorOf
  . exact creatorOf_modifyNftCollection _ _ _
  . have hsame := clearNftOrders_collections hcleared
    exact creatorOf_congr hsame

theorem nftTransfer_creatorOf {op : NftTransferOperation} (h : db.nftTransfer op = .ok db') :
    db'.creatorOf = db.creatorOf := by
  simp only [nftTransfer, bind_eq_ok, ensure_eq_ok] at h
  obtain ⟨no, -, -, -, -, -, -, -, -, -, account, -, h⟩ := h
  split at h
  . exact burnNft_creatorOf h
  . rw [pure_eq_ok] at h
    subst h
    rfl

theorem settleSale_creatorOf {soldTokenId clearedTokenId : Nat} {newOwner : AccountName}
    {price : Asset} {proceedOrder clearOrder : Option NftOrderObject}
    {nco : Database → Result NftCollectionObject}
    (h : db.settleSale soldTokenId clearedTokenId newOwner price proceedOrder clearOrder nco
      = .ok db') : db'.creatorOf = db.creatorOf := by
  simp only [settleSale, bind_eq_ok, pure_eq_ok] at h
  obtain ⟨nco', -, cleared, hcleared, rfl⟩ := h
  refine Eq.trans (creatorOf_modifyNftCollection _ _ _) ?_
  have hsame := clearNftOrders_collections hcleared
  exact creatorOf_congr hsame

theorem placeSellOrder_creatorOf {op : NftSellOperation} {no : NftObject}
    {nco : NftCollectionObject} (h : db.placeSellOrder op no nco = .ok db') :
    db'.creatorOf = db.creatorOf := by
  simp only [placeSellOrder, bind_eq_ok, ensure_eq_ok, pure_eq_ok] at h
  obtain ⟨-, -, -, -, db₁, hcreate, rfl⟩ := h
  obtain ⟨os, rfl, -⟩ := createNftOrder_eq_ok hcreate
  exact creatorOf_modifyNftCollection _ _ _

theorem sellToBuyer_creatorOf {op : NftSellOperation} {no : NftObject}
    {nco : NftCollectionObject} (h : db.sellToBuyer op no nco = .ok db') :
    db'.creatorOf = db.creatorOf := by
  simp only [sellToBuyer, bind_eq_ok, ensure_eq_ok, adjustBalance_eq_ok] at h
  obtain ⟨noo, -, -, -, -, -, -, -, -, -, db₁, htake, _, ⟨l₂, -, rfl⟩, db₃, hreturn, h⟩ := h
  obtain ⟨l₁, rfl, -⟩ := takePriceFromBuyer_eq_ok htake
  obtain ⟨l₃, rfl, -⟩ := returnRemainOfPrice_eq_ok hreturn
  rw [settleSale_creatorOf h]
  rfl

theorem nftSell_creatorOf {op : NftSellOperation} (h : db.nftSell op = .ok db') :
    db'.creatorOf = db.creatorOf := by
  simp only [nftSell, bind_eq_ok, ensure_eq_ok] at h
  obtain ⟨no, -, -, -, -, -, -, -, -, -, nco, -, h⟩ := h
  split at h
  . exact placeSellOrder_creatorOf h
  . exact sellToBuyer_creatorOf h

theorem extendAuction_creatorOf (no : NftObject) :
    (db.extendAuction no).creatorOf = db.creatorOf := by
  unfold extendAuction
  split <;> rfl

theorem nftBuyByAuction_creatorOf {op : NftBuyOperation} (h : db.nftBuyByAuction op = .ok db') :
    db'.creatorOf = db.creatorOf := by
  simp only [nftBuyByAuction, bind_eq_ok, ensure_eq_ok] at h
  obtain ⟨no, -, -, -, buyer, -, -, -, h⟩ := h
  split at h
  . simp only [cancelBet, bind_eq_ok, adjustBalance_eq_ok, pure_eq_ok] at h
    obtain ⟨bet, -, _, ⟨l₁, -, rfl⟩, _, hhold, rfl⟩ := h
    obtain ⟨l₂, rfl, -⟩ := adjustNftHoldBalanceIf_eq_ok hhold
    rfl
  . simp only [placeBet, bind_eq_ok, adjustBalance_eq_ok] at h
    obtain ⟨-, -, -, -, -, -, -, -, -, -, minusPrice, -, _, ⟨l₁, -, rfl⟩, _, hbet, hhold⟩ := h
    obtain ⟨bs, rfl, -⟩ := createNftBet_eq_ok hbet
    obtain ⟨l₂, rfl, -⟩ := adjustNftHoldBalanceIf_eq_ok hhold
    apply extendAuction_creatorOf

theorem placeOffer_creatorOf {op : NftBuyOperation} (h : db.placeOffer op = .ok db') :
    db'.creatorOf = db.creatorOf := by
  simp only [placeOffer, bind_eq_ok, ensure_eq_ok, adjustBalance_eq_ok] at h
  obtain ⟨-, -, name, -, no, -, -, -, -, -, -, -, nco, -, buyer, -, -, -, -, -, minusPrice, -, _,
    ⟨l₁, -, rfl⟩, _, hcreate, hhold⟩ := h
  obtain ⟨os, rfl, -⟩ := createNftOrder_eq_ok hcreate
  obtain ⟨l₂, rfl, -⟩ := adjustNftHoldBalanceIf_eq_ok hhold
  exact creatorOf_modifyNftCollection _ _ _

theorem buyFromSeller_creatorOf {op : NftBuyOperation} {noo : NftOrderObject}
    (h : db.buyFromSeller op noo = .ok db') : db'.creatorOf = db.creatorOf := by
  simp only [buyFromSeller, bind_eq_ok, ensure_eq_ok] at h
  obtain ⟨-, -, no, -, -, -, buyer, -, ignored, -, h⟩ := h
  split at h
  . rw [pure_eq_ok] at h
    rw [h]
  . simp only [bind_eq_ok, adjustBalance_eq_ok] at h
    obtain ⟨-, -, _, ⟨l₁, -, rfl⟩, minusPrice, -, _, ⟨l₂, -, rfl⟩, h⟩ := h
    rw [settleSale_creatorOf h]
    rfl

theorem placeCollectionOffer_creatorOf {op : NftBuyOperation}
    (h : db.placeCollectionOffer op = .ok db') : db'.creatorOf = db.creatorOf := by
  simp only [placeCollectionOffer, bind_eq_ok, ensure_eq_ok, pure_eq_ok] at h
  obtain ⟨-, -, name, -, nco, -, _, hcreate, rfl⟩ := h
  obtain ⟨os, rfl, -⟩ := createNftOrder_eq_ok hcreate
  exact creatorOf_modifyNftCollection _ _ _

theorem nftBuy_creatorOf {op : NftBuyOperation} (h : db.nftBuy op = .ok db') :
    db'.creatorOf = db.creatorOf := by
  simp only [nftBuy, bind_eq_ok, ensure_eq_ok] at h
  obtain ⟨-, -, -, -, h⟩ := h
  split at h
  . exact nftBuyByAuction_creatorOf h
  . split at h
    . simp only [bind_eq_ok, ensure_eq_ok] at h
      obtain ⟨no, -, -, -, -, -, h⟩ := h
      split at h
      . exact placeOffer_creatorOf h
      . exact buyFromSeller_creatorOf h
    . exact placeCollectionOffer_creatorOf h

theorem nftCancelOrder_creatorOf {op : NftCancelOrderOperation}
    (h : db.nftCancelOrder op = .ok db') : db'.creatorOf = db.creatorOf := by
  simp only [nftCancelOrder, bind_eq_ok] at h
  obtain ⟨noo, -, db₁, hstop, nco, -, h⟩ := h
  refine Eq.trans (creatorOf_congr (clearNftOrder_collections h)) ?_
  refine Eq.trans (creatorOf_modifyNftCollection _ _ _) ?_
  unfold stopSelling at hstop
  split at hstop
  . simp only [bind_eq_ok, pure_eq_ok] at hstop
    obtain ⟨no, -, rfl⟩ := hstop
    rfl
  . rw [pure_eq_ok] at hstop
    rw [hstop]

theorem nftAuction_creatorOf {op : NftAuctionOperation} (h : db.nftAuction op = .ok db') :
    db'.creatorOf = db.creatorOf := by
  simp only [nftAuction, bind_eq_ok, ensure_eq_ok, pure_eq_ok] at h
  obtain ⟨no, -, -, -, -, -, -, -, nco, -, db₁, hauction, rfl⟩ := h
  trans db₁.creatorOf
  . rfl
  . split at hauction
    . simp only [stopAuction, bind_eq_ok, pure_eq_ok] at hauction
      obtain ⟨-, -, _, hclear, rfl⟩ := hauction
      obtain ⟨l, bs, rfl, -⟩ := clearNftBets_eq_ok hclear
      exact creatorOf_modifyNftCollection _ _ _
    . simp only [startAuction, bind_eq_ok, pure_eq_ok] at hauction
      obtain ⟨-, -, cleared, hclear, rfl⟩ := hauction
      refine Eq.trans (creatorOf_modifyNftCollection _ _ _) ?_
      exact creatorOf_congr (clearNftOrders_collections hclear)

theorem processNftBet_creatorOf {tokenId : Nat} (h : processNftBet removed db tokenId = .ok db') :
    db'.creatorOf = db.creatorOf := by
  simp only [processNftBet, bind_eq_ok] at h
  obtain ⟨token, -, h⟩ := h
  split at h
  . simp only [resetAuction, bind_eq_ok, pure_eq_ok] at h
    obtain ⟨nco, -, rfl⟩ := h
    refine Eq.trans (creatorOf_modifyNftCollection _ _ _) ?_
    rfl
  . simp only [sellByAuction, bind_eq_ok, adjustBalance_eq_ok, pure_eq_ok] at h
    obtain ⟨_, ⟨l₁, -, rfl⟩, _, hbets, cleared, hclear, nco, -, rfl⟩ := h
    obtain ⟨l₂, bs, rfl, -⟩ := clearNftBets_eq_ok hbets
    refine Eq.trans (creatorOf_modifyNftCollection _ _ _) ?_
    have hsame := clearNftOrders_collections hclear
    exact creatorOf_congr hsame

theorem processNftBets_creatorOf {queue : List Nat} (h : processNftBets removed db queue = .ok db') :
    db'.creatorOf = db.creatorOf := by
  induction queue generalizing db with
  | nil =>
    simp only [processNftBets, pure_eq_ok] at h
    rw [h]
  | cons tokenId queue ih =>
    simp only [processNftBets, bind_eq_ok] at h
    obtain ⟨db₁, hdb₁, h⟩ := h
    rw [ih h, processNftBet_creatorOf hdb₁]

end frame

section tokens

variable {db db' db'' : Database}

/-- A step that neither issues nor burns a token, nor changes any count of tokens. -/
structure KeepsTokens (db db' : Database) : Prop where
  counts : ∀ n, tokenCounts db'.nftCollections n = tokenCounts db.nftCollections n
  live : ∀ n, db'.liveCount n = db.liveCount n
  issued : ∀ n, db'.issuedIn n = db.issuedIn n

theorem KeepsTokens.congr (hnfts : db'.nfts = db.nfts)
    (hcounts : ∀ n, tokenCounts db'.nftCollections n = tokenCounts db.nftCollections n) :
    KeepsTokens db db' where
  counts := hcounts
  live := by
    intro n
    unfold liveCount
    rw [hnfts]
  issued := by
    intro n
    unfold issuedIn
    rw [hnfts]

theorem KeepsTokens.update {no no' : NftObject} (hnfts : db.nfts.Updates db'.nfts no no')
    (hname : no'.name = no.name) (hburnt : no'.burnt = no.burnt)
    (hcounts : ∀ n, tokenCounts db'.nftCollections n = tokenCounts db.nftCollections n) :
    KeepsTokens db db' where
  counts := hcounts
  live := by
    intro n
    unfold liveCount
    rw [hnfts.sum, hname, hburnt]
    omega
  issued := by
    intro n
    unfold issuedIn
    rw [hnfts.sum, hname]
    omega

theorem KeepsTokens.trans (h : KeepsTokens db db') (h' : KeepsTokens db' db'') :
    KeepsTokens db db'' where
  counts := by
    intro n
    rw [h'.counts, h.counts]
  live := by
    intro n
    rw [h'.live, h.live]
  issued := by
    intro n
    rw [h'.issued, h.issued]

/-- A step that burns one token of a collection that counts `k`. -/
structure BurnsToken (db db' : Database) (name : AssetSymbolType) (k : Nat) : Prop where
  count : tokenCounts db.nftCollections name = some k
  counts : ∀ n, tokenCounts db'.nftCollections n
    = if n = name then some (sub32 k 1) else tokenCounts db.nftCollections n
  pos : 1 ≤ db.liveCount name
  live : ∀ n, db'.liveCount n = db.liveCount n - if name = n then 1 else 0
  issued : ∀ n, db'.issuedIn n = db.issuedIn n

theorem BurnsToken.of_updates {no : NftObject} {k : Nat} (hlive : no.burnt = false)
    (hnfts : db.nfts.Updates db'.nfts no { no with burnt := true })
    (hcount : tokenCounts db.nftCollections no.name = some k)
    (hcounts : ∀ n, tokenCounts db'.nftCollections n
      = if n = no.name then some (sub32 k 1) else tokenCounts db.nftCollections n) :
    BurnsToken db db' no.name k where
  count := hcount
  counts := hcounts
  pos := by
    have := db.nfts.le_sum (f := fun no' => if no'.name = no.name ∧ no'.burnt = false then 1 else 0)
      (by intro no' _; split <;> omega) (Table.mem_of_find? hnfts.row)
    simpa [liveCount, hlive] using this
  live := by
    intro n
    unfold liveCount
    rw [hnfts.sum]
    simp only [hlive, Bool.true_eq_false, and_false, ↓reduceIte, and_true]
    omega
  issued := by
    intro n
    unfold issuedIn
    rw [hnfts.sum]
    simp

/-- The operations that are about tokens and not about their collections. -/
def OnTokens : NftOperation → Prop
  | .nftCollection _ | .nftCollectionDelete _ | .nftIssue _ => False
  | _ => True

theorem MarketStep.onTokens {op : NftOperation} (hop : OnTokens op) (h : MarketStep db op db') :
    KeepsTokens db db' ∨ ∃ name k, BurnsToken db db' name k := by
  cases h with
  | nftCollection | nftCollectionDelete | nftIssue => cases hop
  | nftTransfer _ _ _ _ hnfts => exact .inl (.update hnfts rfl rfl (fun _ => rfl))
  | burn _ _ hfree _ hnfts hcount hcounts =>
    exact .inr ⟨_, _, .of_updates hfree.1 hnfts hcount hcounts⟩
  | placeSellOrder _ _ _ _ hnfts _ hcounts => exact .inl (.update hnfts rfl rfl hcounts)
  | sellToBuyer _ _ _ _ _ _ _ _ _ hnfts hcounts => exact .inl (.update hnfts rfl rfl hcounts)
  | cancelBet | ignoreBuy => exact .inl (.congr rfl (fun _ => rfl))
  | placeBet _ _ _ _ _ _ _ _ _ _ hnfts => exact .inl (.update hnfts rfl rfl (fun _ => rfl))
  | placeOffer _ _ _ _ _ _ _ _ _ _ hcounts | placeCollectionOffer _ _ _ hcounts
  | cancelBuyOrder _ _ hcounts => exact .inl (.congr rfl hcounts)
  | buyFromSeller _ _ _ _ _ _ _ _ _ hnfts hcounts => exact .inl (.update hnfts rfl rfl hcounts)
  | cancelSellOrder _ _ _ hnfts hcounts => exact .inl (.update hnfts rfl rfl hcounts)
  | stopAuction _ _ _ hnfts hcounts => exact .inl (.update hnfts rfl rfl hcounts)
  | startAuction _ _ _ _ _ hnfts _ hcounts => exact .inl (.update hnfts rfl rfl hcounts)

theorem onTokens_creatorOf {op : NftOperation} (hop : OnTokens op)
    (h : db.applyNftOperation op = .ok db') : db'.creatorOf = db.creatorOf := by
  cases op with
  | nftCollection | nftCollectionDelete | nftIssue => cases hop
  | nftTransfer => exact nftTransfer_creatorOf h
  | nftSell => exact nftSell_creatorOf h
  | nftBuy => exact nftBuy_creatorOf h
  | nftCancelOrder => exact nftCancelOrder_creatorOf h
  | nftAuction => exact nftAuction_creatorOf h

theorem processNftBets_keepsTokens {queue : List Nat} (h : processNftBets removed db queue = .ok db') :
    KeepsTokens db db' := by
  induction queue generalizing db with
  | nil =>
    simp only [processNftBets, pure_eq_ok] at h
    exact h ▸ .congr rfl (fun _ => rfl)
  | cons tokenId queue ih =>
    simp only [processNftBets, bind_eq_ok] at h
    obtain ⟨db₁, hdb₁, h⟩ := h
    obtain ⟨no, -, hstep⟩ := processNftBet_eq_ok hdb₁
    apply KeepsTokens.trans _ (ih h)
    cases hstep with
    | reset _ hnfts _ hcounts => exact .update hnfts rfl rfl hcounts
    | sold _ hnfts _ hcounts => exact .update hnfts rfl rfl hcounts

/-- What `nft_collection` does: one more collection, of its author and without tokens. -/
structure Creates (db db' : Database) (nco : NftCollectionObject) : Prop where
  fresh : db.nftCollections.find? nco.name = none
  collections : ∀ n, db'.nftCollections.find? n
    = if nco.name = n then some nco else db.nftCollections.find? n
  empty : nco.tokenCount = 0
  nfts : db'.nfts = db.nfts

theorem creates_of_nftCollection {op : NftCollectionOperation}
    (h : db.nftCollection op = .ok db') : ∃ nco, nco.creator = op.creator ∧ Creates db db' nco := by
  simp only [nftCollection, bind_eq_ok, ensure_eq_ok, get_eq_ok, pure_eq_ok] at h
  obtain ⟨n, -, -, hnone, -, -, -, -, cs, hcs, rfl⟩ := h
  obtain ⟨hfresh, rfl⟩ := Table.emplace_eq_some_iff.mp hcs
  refine ⟨_, rfl, hfresh, ?_, rfl, rfl⟩
  intro m
  exact Table.find?_insert _ _ hfresh _

/-- What `nft_collection_delete` does to the collection that its name finds. -/
structure Deletes (db db' : Database) (nco : NftCollectionObject) : Prop where
  found : db.nftCollections.find? nco.name = some nco
  collections : db'.nftCollections = db.nftCollections.erase nco.name
  empty : nco.tokenCount = 0
  nfts : db'.nfts = db.nfts

theorem deletes_of_nftCollectionDelete {op : NftCollectionDeleteOperation}
    (h : db.nftCollectionDelete op = .ok db') :
    ∃ nco, nftNameFromString op.name = .ok nco.name ∧ Deletes db db' nco := by
  simp only [nftCollectionDelete, bind_eq_ok, ensure_eq_ok, getNftCollection_eq_ok,
    pure_eq_ok] at h
  obtain ⟨n, hn, nco, hnco, -, hempty, rfl⟩ := h
  have hname := Table.key_of_find? hnco
  subst hname
  exact ⟨nco, hn, hnco, rfl, hempty, rfl⟩

/-- What `nft_issue` does to the collection that its name finds. -/
structure Issues (db db' : Database) (nco : NftCollectionObject) : Prop where
  found : db.nftCollections.find? nco.name = some nco
  collections : db'.nftCollections = db.nftCollections.modify nco.name
    (fun nco => { nco with tokenCount := inc32 nco.tokenCount }) (by intros; rfl)
  nfts : ∃ no, no.name = nco.name ∧ no.burnt = false ∧ db.nfts.Inserts db'.nfts no

theorem issues_of_nftIssue {op : NftIssueOperation} (h : db.nftIssue op = .ok db') :
    ∃ nco, nftNameFromString op.name = .ok nco.name ∧ Issues db db' nco := by
  simp only [nftIssue, bind_eq_ok, ensure_eq_ok, get_eq_ok, getNftCollection_eq_ok,
    pure_eq_ok] at h
  obtain ⟨n, hn, nco, hnco, -, -, fee, -, db₁, hpay, -, -, ts, hts, rfl⟩ := h
  have hname := Table.key_of_find? hnco
  subst hname
  have hledger : ∃ l, db₁ = { db with ledger := l } := by
    split at hpay
    . obtain ⟨l, hdb, -⟩ := payNftIssueFee_eq_ok hpay
      exact ⟨l, hdb⟩
    . rw [pure_eq_ok] at hpay
      exact ⟨db.ledger, hpay.symm⟩
  obtain ⟨l, rfl⟩ := hledger
  exact ⟨nco, hn, hnco, rfl, _, rfl, rfl, .emplace hts⟩

end tokens

section authority

variable {removed : Removed} {db db' : Database}

/-- Only the creator of a collection has it deleted, or its count of tokens increased. -/
structure Authorized (db : Database) (e : MarketEvent) (db' : Database) : Prop where
  deleted : ∀ nco, db.nftCollections.find? nco.name = some nco →
    db'.nftCollections.find? nco.name = none → e.authorizer = some nco.creator
  increased : ∀ nco nco', db.nftCollections.find? nco.name = some nco →
    db'.nftCollections.find? nco.name = some nco' → nco.tokenCount < nco'.tokenCount →
    e.authorizer = some nco.creator

/-- Deletions and issues of other people's collections are left out. -/
def OwnCollection (db : Database) : MarketEvent → Prop
  | .operation (.nftCollectionDelete op) => ∀ n, nftNameFromString op.name = .ok n →
    ∀ creator ∈ db.creatorOf n, creator = op.creator
  | .operation (.nftIssue op) => ∀ n, nftNameFromString op.name = .ok n →
    ∀ creator ∈ db.creatorOf n, creator = op.creator
  | _ => True

/-- An issue does not wrap the `uint32_t` that counts the tokens of the collection. -/
def CountFits (db : Database) : MarketEvent → Prop
  | .operation (.nftIssue op) => ∀ n, nftNameFromString op.name = .ok n →
    ∀ k ∈ tokenCounts db.nftCollections n, inc32 k ≠ 0
  | _ => True

/-- A collection counts its tokens that are not burnt. -/
structure CountsLive (db : Database) : Prop where
  count : ∀ n, ((tokenCounts db.nftCollections n).getD 0 : ℤ) = db.liveCount n
  fits : ∀ n, ∀ k ∈ tokenCounts db.nftCollections n, k < 2 ^ 32

theorem creatorOf_of_find? {nco : NftCollectionObject}
    (h : db.nftCollections.find? nco.name = some nco) :
    db.creatorOf nco.name = some nco.creator := by
  unfold creatorOf
  rw [h, Option.map_some]

theorem inc32_eq_succ {k : Nat} (hlt : k < 2 ^ 32) (hwrap : inc32 k ≠ 0) : inc32 k = k + 1 := by
  unfold inc32 at hwrap ⊢
  omega

theorem CountsLive.congr (h : db.CountsLive) (hkeeps : KeepsTokens db db') : db'.CountsLive where
  count := by
    intro n
    rw [hkeeps.counts, hkeeps.live]
    exact h.count n
  fits := by
    intro n
    rw [hkeeps.counts]
    exact h.fits n

/-- The count of a burnt token's collection is not 0, so it goes down by 1. -/
theorem CountsLive.sub32_eq {n : AssetSymbolType} {k : Nat} (h : db.CountsLive)
    (hburn : BurnsToken db db' n k) : 0 < k ∧ sub32 k 1 = k - 1 := by
  have hcount := h.count n
  have hpos := hburn.pos
  rw [hburn.count, Option.getD_some] at hcount
  have hk : 0 < k := by omega
  exact ⟨hk, sub32_one hk (h.fits n k hburn.count)⟩

theorem CountsLive.burn {name : AssetSymbolType} {k : Nat} (h : db.CountsLive)
    (hburn : BurnsToken db db' name k) : db'.CountsLive := by
  obtain ⟨hpos, hsub⟩ := h.sub32_eq hburn
  refine ⟨?_, ?_⟩
  . intro n
    have hcount := h.count n
    rw [hburn.counts, hburn.live, hsub]
    by_cases heq : n = name
    . subst heq
      rw [hburn.count, Option.getD_some] at hcount
      simp only [↓reduceIte, Option.getD_some]
      omega
    . rw [if_neg heq, if_neg (Ne.symm heq), hcount]
      omega
  . intro n m hm
    rw [hburn.counts, hsub] at hm
    split at hm
    . injection hm with hm
      have := h.fits name k hburn.count
      omega
    . exact h.fits n m hm

theorem CountsLive.create {nco : NftCollectionObject} (h : db.CountsLive)
    (hcreate : Creates db db' nco) : db'.CountsLive := by
  have hlive : ∀ n, db'.liveCount n = db.liveCount n := by
    intro n
    unfold liveCount
    rw [hcreate.nfts]
  refine ⟨?_, ?_⟩
  . intro n
    rw [hlive, ← h.count]
    unfold tokenCounts
    rw [hcreate.collections]
    split
    . next heq =>
      rw [← heq, hcreate.fresh]
      simp [hcreate.empty]
    . rfl
  . intro n k hk
    unfold tokenCounts at hk
    rw [hcreate.collections] at hk
    split at hk
    . simp only [Option.map_some, Option.mem_def, Option.some.injEq] at hk
      rw [← hk, hcreate.empty]
      decide
    . exact h.fits n k hk

theorem CountsLive.delete {nco : NftCollectionObject} (h : db.CountsLive)
    (hdelete : Deletes db db' nco) : db'.CountsLive := by
  have hlive : ∀ n, db'.liveCount n = db.liveCount n := by
    intro n
    unfold liveCount
    rw [hdelete.nfts]
  refine ⟨?_, ?_⟩
  . intro n
    rw [hlive, ← h.count]
    unfold tokenCounts
    rw [hdelete.collections]
    by_cases heq : n = nco.name
    . rw [heq, hdelete.found]
      simp [hdelete.empty]
    . rw [Table.find?_erase_of_ne _ heq]
  . intro n k hk
    unfold tokenCounts at hk
    rw [hdelete.collections] at hk
    by_cases heq : n = nco.name
    . rw [heq, Table.find?_erase_self] at hk
      cases hk
    . rw [Table.find?_erase_of_ne _ heq] at hk
      exact h.fits n k hk

theorem Issues.counts {nco : NftCollectionObject} (hissue : Issues db db' nco)
    (n : AssetSymbolType) : tokenCounts db'.nftCollections n
      = if n = nco.name then some (inc32 nco.tokenCount) else tokenCounts db.nftCollections n := by
  rw [hissue.collections]
  apply tokenCounts_modify_of_count _ _ _ inc32 _ hissue.found
  intro nco
  rfl

theorem Issues.creatorOf {nco : NftCollectionObject} (hissue : Issues db db' nco) :
    db'.creatorOf = db.creatorOf := by
  trans (db.modifyNftCollection nco.name
    (fun nco => { nco with tokenCount := inc32 nco.tokenCount })).creatorOf
  . exact creatorOf_congr hissue.collections
  . exact creatorOf_modifyNftCollection _ _ _

theorem CountsLive.issue {nco : NftCollectionObject} (h : db.CountsLive)
    (hissue : Issues db db' nco) (hfits : inc32 nco.tokenCount ≠ 0) : db'.CountsLive := by
  have hcount := tokenCounts_of_find? hissue.found
  have hlt := h.fits _ _ hcount
  have hsucc := inc32_eq_succ hlt hfits
  obtain ⟨no, hname, hburnt, hinsert⟩ := hissue.nfts
  refine ⟨?_, ?_⟩
  . intro n
    have hold := h.count n
    have hlive : db'.liveCount n = db.liveCount n + if nco.name = n then 1 else 0 := by
      unfold liveCount
      rw [hinsert.sum, hname, hburnt]
      simp
    rw [hissue.counts, hlive, hsucc]
    by_cases heq : n = nco.name
    . subst heq
      rw [hcount, Option.getD_some] at hold
      simp only [↓reduceIte, Option.getD_some]
      omega
    . rw [if_neg heq, if_neg (Ne.symm heq), hold]
      omega
  . intro n k hk
    rw [hissue.counts] at hk
    split at hk
    . injection hk with hk
      unfold inc32 at hk
      omega
    . exact h.fits n k hk

theorem CountsLive.step {e : MarketEvent} (h : db.CountsLive) (hfits : CountFits db e)
    (hstep : db.Step e db') : db'.CountsLive := by
  cases e with
  | operation op =>
    have hmarket := marketStep_of_applyNftOperation hstep
    by_cases hop : OnTokens op
    . rcases hmarket.onTokens hop with hkeeps | ⟨n, k, hburn⟩
      . exact h.congr hkeeps
      . exact h.burn hburn
    . cases op with
      | nftCollection op =>
        obtain ⟨nco, -, hcreate⟩ := creates_of_nftCollection hstep
        exact h.create hcreate
      | nftCollectionDelete op =>
        obtain ⟨nco, -, hdelete⟩ := deletes_of_nftCollectionDelete hstep
        exact h.delete hdelete
      | nftIssue op =>
        obtain ⟨nco, hn, hissue⟩ := issues_of_nftIssue hstep
        exact h.issue hissue (hfits _ hn _ (tokenCounts_of_find? hissue.found))
      | _ => exact absurd trivial hop
  | endOfBlock removed queue => exact h.congr (processNftBets_keepsTokens hstep.2)
  | other =>
    apply h.congr
    apply KeepsTokens.congr hstep.nfts
    intro n
    rw [hstep.nftCollections]

theorem NoMarket.countsLive (h : db.NoMarket) : db.CountsLive := by
  constructor <;> simp [liveCount, tokenCounts, h.nfts, h.nftCollections]

theorem countsLive_of_reach (h : market.Reach CountFits db) : db.CountsLive := by
  apply h.invariant
  . intro db hdb
    exact NoMarket.countsLive hdb
  . intro db e db' hdb hok hstep
    exact hdb.step hok hstep

theorem Authorized.of_same {e : MarketEvent} (hcreator : db'.creatorOf = db.creatorOf)
    (hcounts : ∀ n k k', tokenCounts db.nftCollections n = some k →
      tokenCounts db'.nftCollections n = some k' → k' ≤ k) : db.Authorized e db' where
  deleted := by
    intro nco hnco hgone
    have hsame := creatorOf_of_find? hnco
    rw [← hcreator] at hsame
    unfold creatorOf at hsame
    rw [hgone] at hsame
    cases hsame
  increased := by
    intro nco nco' hnco hnco' hlt
    have hle : nco'.tokenCount ≤ nco.tokenCount := by
      apply hcounts nco.name
      . exact tokenCounts_of_find? hnco
      . unfold tokenCounts
        rw [hnco', Option.map_some]
    omega

theorem KeepsTokens.authorized {e : MarketEvent} (hkeeps : KeepsTokens db db')
    (hcreator : db'.creatorOf = db.creatorOf) : db.Authorized e db' := by
  apply Authorized.of_same hcreator
  intro n k k' hk hk'
  rw [hkeeps.counts, hk] at hk'
  injection hk' with hk'
  omega

theorem BurnsToken.authorized {e : MarketEvent} {name : AssetSymbolType} {k : Nat}
    (hburn : BurnsToken db db' name k) (h : db.CountsLive)
    (hcreator : db'.creatorOf = db.creatorOf) : db.Authorized e db' := by
  apply Authorized.of_same hcreator
  intro n m m' hm hm'
  rw [hburn.counts, (h.sub32_eq hburn).2] at hm'
  split at hm'
  . next heq =>
    rw [heq, hburn.count] at hm
    injection hm with hm
    injection hm' with hm'
    omega
  . rw [hm] at hm'
    injection hm' with hm'
    omega

theorem Creates.authorized {e : MarketEvent} {nco : NftCollectionObject}
    (hcreate : Creates db db' nco) : db.Authorized e db' := by
  have hold : ∀ nco', db.nftCollections.find? nco'.name = some nco' →
      db'.nftCollections.find? nco'.name = some nco' := by
    intro nco' hnco'
    rw [hcreate.collections, if_neg, hnco']
    intro heq
    rw [← heq, hcreate.fresh] at hnco'
    cases hnco'
  refine ⟨?_, ?_⟩
  . intro nco' hnco' hgone
    rw [hold nco' hnco'] at hgone
    cases hgone
  . intro nco' nco'' hnco' hnco'' hlt
    rw [hold nco' hnco'] at hnco''
    injection hnco'' with hnco''
    rw [hnco''] at hlt
    omega

/-- A deletion is authorized if and only if it comes from the creator of the collection. -/
theorem Deletes.authorized_iff {e : MarketEvent} {nco : NftCollectionObject}
    (hdelete : Deletes db db' nco) : db.Authorized e db' ↔ e.authorizer = some nco.creator := by
  have hgone : db'.nftCollections.find? nco.name = none := by
    rw [hdelete.collections, Table.find?_erase_self]
  constructor
  . intro h
    exact h.deleted nco hdelete.found hgone
  . intro hown
    have hother : ∀ nco' : NftCollectionObject, nco'.name ≠ nco.name →
        db'.nftCollections.find? nco'.name = db.nftCollections.find? nco'.name := by
      intro nco' hne
      rw [hdelete.collections, Table.find?_erase_of_ne _ hne]
    refine ⟨?_, ?_⟩
    . intro nco' hnco' hgone'
      by_cases heq : nco'.name = nco.name
      . rw [heq, hdelete.found] at hnco'
        injection hnco' with hnco'
        rw [← hnco', hown]
      . rw [hother nco' heq, hnco'] at hgone'
        cases hgone'
    . intro nco' nco'' hnco' hnco'' hlt
      by_cases heq : nco'.name = nco.name
      . rw [heq, hgone] at hnco''
        cases hnco''
      . rw [hother nco' heq, hnco'] at hnco''
        injection hnco'' with hnco''
        rw [hnco''] at hlt
        omega

/-- An issue is authorized if and only if it comes from the creator of the collection. -/
theorem Issues.authorized_iff {e : MarketEvent} {nco : NftCollectionObject}
    (hissue : Issues db db' nco) (h : db.CountsLive) (hfits : inc32 nco.tokenCount ≠ 0) :
    db.Authorized e db' ↔ e.authorizer = some nco.creator := by
  have hsucc := inc32_eq_succ (h.fits _ _ (tokenCounts_of_find? hissue.found)) hfits
  constructor
  . intro hauthorized
    apply hauthorized.increased nco { nco with tokenCount := inc32 nco.tokenCount } hissue.found
    . rw [hissue.collections, Table.find?_modify_self, hissue.found, Option.map_some]
    . rw [hsucc]
      exact Nat.lt_succ_self _
  . intro hown
    refine ⟨?_, ?_⟩
    . intro nco' hnco' hgone
      have hsame := congrFun hissue.creatorOf nco'.name
      unfold Database.creatorOf at hsame
      rw [hgone, hnco'] at hsame
      cases hsame
    . intro nco' nco'' hnco' hnco'' hlt
      by_cases heq : nco'.name = nco.name
      . rw [heq, hissue.found] at hnco'
        injection hnco' with hnco'
        rw [← hnco', hown]
      . rw [hissue.collections, Table.find?_modify_of_ne _ _ _ heq, hnco'] at hnco''
        injection hnco'' with hnco''
        rw [hnco''] at hlt
        omega

theorem ownCollection_iff {nco : NftCollectionObject} {n : AssetSymbolType}
    {name : String} {creator : AccountName}
    (hname : nftNameFromString name = .ok n)
    (hnco : db.creatorOf n = some nco.creator) :
    (∀ n, nftNameFromString name = .ok n → ∀ c ∈ db.creatorOf n, c = creator)
      ↔ some creator = some nco.creator := by
  constructor
  . intro h
    rw [h n hname nco.creator hnco]
  . intro h m hm c hc
    rw [hname] at hm
    injection hm with hm
    rw [← hm, hnco] at hc
    injection hc with hc
    injection h with h
    rw [← hc, h]

/-- Among the steps that wrap no count, exactly those on one's own collections are authorized. -/
theorem CountsLive.authorized_iff {e : MarketEvent} (h : db.CountsLive) (hfits : CountFits db e)
    (hstep : db.Step e db') : db.Authorized e db' ↔ OwnCollection db e := by
  cases e with
  | operation op =>
    have hmarket := marketStep_of_applyNftOperation hstep
    by_cases hop : OnTokens op
    . have hcreator := onTokens_creatorOf hop hstep
      have hown : OwnCollection db (.operation op) := by
        cases op <;> trivial
      refine iff_of_true ?_ hown
      rcases hmarket.onTokens hop with hkeeps | ⟨n, k, hburn⟩
      . exact hkeeps.authorized hcreator
      . exact hburn.authorized h hcreator
    . cases op with
      | nftCollection op =>
        obtain ⟨nco, -, hcreate⟩ := creates_of_nftCollection hstep
        exact iff_of_true hcreate.authorized trivial
      | nftCollectionDelete op =>
        obtain ⟨nco, hn, hdelete⟩ := deletes_of_nftCollectionDelete hstep
        rw [hdelete.authorized_iff]
        exact (ownCollection_iff hn (creatorOf_of_find? hdelete.found)).symm
      | nftIssue op =>
        obtain ⟨nco, hn, hissue⟩ := issues_of_nftIssue hstep
        rw [hissue.authorized_iff h (hfits _ hn _ (tokenCounts_of_find? hissue.found))]
        exact (ownCollection_iff hn (creatorOf_of_find? hissue.found)).symm
      | _ => exact absurd trivial hop
  | endOfBlock removed queue =>
    refine iff_of_true ?_ trivial
    exact (processNftBets_keepsTokens hstep.2).authorized (processNftBets_creatorOf hstep.2)
  | other =>
    refine iff_of_true ?_ trivial
    apply KeepsTokens.authorized _ (creatorOf_congr hstep.nftCollections)
    apply KeepsTokens.congr hstep.nfts
    intro n
    rw [hstep.nftCollections]

/-- The collections of an account are the same, and so are the numbers of tokens issued in them. -/
structure SameCollections (a : AccountName) (db db' : Database) : Prop where
  live : ∀ n, db'.creatorOf n = some a ↔ db.creatorOf n = some a
  issued : ∀ n, db.creatorOf n = some a → db'.issuedIn n = db.issuedIn n

theorem SameCollections.of_eq {a : AccountName} (hcreator : db'.creatorOf = db.creatorOf)
    (hissued : ∀ n, db'.issuedIn n = db.issuedIn n) : SameCollections a db db' where
  live := by
    intro n
    rw [hcreator]
  issued := by
    intro n _
    exact hissued n

theorem SameCollections.trans {a : AccountName} {db'' : Database} (h : SameCollections a db db')
    (h' : SameCollections a db' db'') : SameCollections a db db'' where
  live := by
    intro n
    rw [h'.live, h.live]
  issued := by
    intro n hn
    rw [h'.issued n ((h.live n).mpr hn), h.issued n hn]

theorem issuedIn_congr (h : db'.nfts = db.nfts) (n : AssetSymbolType) :
    db'.issuedIn n = db.issuedIn n := by
  unfold issuedIn
  rw [h]

theorem Creates.sameCollections {nco : NftCollectionObject} {a : AccountName}
    (hcreate : Creates db db' nco) (hother : nco.creator ≠ a) : SameCollections a db db' where
  live := by
    intro n
    unfold creatorOf
    rw [hcreate.collections]
    split
    . next heq =>
      rw [← heq, hcreate.fresh]
      simp [hother]
    . rfl
  issued := by
    intro n _
    exact issuedIn_congr hcreate.nfts n

theorem Deletes.sameCollections {nco : NftCollectionObject} {a : AccountName}
    (hdelete : Deletes db db' nco) (hother : nco.creator ≠ a) : SameCollections a db db' where
  live := by
    intro n
    unfold creatorOf
    rw [hdelete.collections]
    by_cases heq : n = nco.name
    . rw [heq, Table.find?_erase_self, hdelete.found]
      simp [hother]
    . rw [Table.find?_erase_of_ne _ heq]
  issued := by
    intro n _
    exact issuedIn_congr hdelete.nfts n

theorem Issues.sameCollections {nco : NftCollectionObject} {a : AccountName}
    (hissue : Issues db db' nco) (hother : nco.creator ≠ a) : SameCollections a db db' where
  live := by
    intro n
    rw [hissue.creatorOf]
  issued := by
    intro n hn
    obtain ⟨no, hname, -, hinsert⟩ := hissue.nfts
    have hne : nco.name ≠ n := by
      intro heq
      rw [← heq, creatorOf_of_find? hissue.found] at hn
      injection hn with hn
      exact hother hn
    unfold issuedIn
    rw [hinsert.sum, hname, if_neg hne]
    omega

theorem sameCollections_of_step {e : MarketEvent} {a : AccountName} (hown : OwnCollection db e)
    (hother : e.authorizer ≠ some a) (hstep : db.Step e db') : SameCollections a db db' := by
  cases e with
  | operation op =>
    have hmarket := marketStep_of_applyNftOperation hstep
    by_cases hop : OnTokens op
    . apply SameCollections.of_eq (onTokens_creatorOf hop hstep)
      rcases hmarket.onTokens hop with hkeeps | ⟨n, k, hburn⟩
      . exact hkeeps.issued
      . exact hburn.issued
    . cases op with
      | nftCollection op =>
        obtain ⟨nco, hcreator, hcreate⟩ := creates_of_nftCollection hstep
        apply hcreate.sameCollections
        rw [hcreator]
        exact fun heq => hother (congrArg some heq)
      | nftCollectionDelete op =>
        obtain ⟨nco, hn, hdelete⟩ := deletes_of_nftCollectionDelete hstep
        apply hdelete.sameCollections
        have hcreator := creatorOf_of_find? hdelete.found
        rw [hown _ hn _ hcreator]
        exact fun heq => hother (congrArg some heq)
      | nftIssue op =>
        obtain ⟨nco, hn, hissue⟩ := issues_of_nftIssue hstep
        apply hissue.sameCollections
        have hcreator := creatorOf_of_find? hissue.found
        rw [hown _ hn _ hcreator]
        exact fun heq => hother (congrArg some heq)
      | _ => exact absurd trivial hop
  | endOfBlock removed queue =>
    exact .of_eq (processNftBets_creatorOf hstep.2) (processNftBets_keepsTokens hstep.2).issued
  | other => exact .of_eq (creatorOf_congr hstep.nftCollections) (issuedIn_congr hstep.nfts)

/-- One step that others than `a` take, on collections of their own. -/
def StepOfOthers (a : AccountName) (db db' : Database) : Prop :=
  ∃ e, OwnCollection db e ∧ e.authorizer ≠ some a ∧ db.Step e db'

theorem sameCollections_of_others {a : AccountName}
    (h : Relation.ReflTransGen (StepOfOthers a) db db') : SameCollections a db db' := by
  induction h with
  | refl => exact .of_eq rfl (fun _ => rfl)
  | tail _ hstep ih =>
    obtain ⟨e, hown, hother, hstep⟩ := hstep
    exact ih.trans (sameCollections_of_step hown hother hstep)

end authority

/--
In every run that wraps no count of tokens, a step deletes and issues with the authority of the
creator alone if and only if it is on one's own collection; and while all steps are, nobody else
changes the collections of an account or the tokens issued in them.
-/
theorem authorized_of_reach {db : Database} (h : market.Reach CountFits db) :
    (∀ e db', CountFits db e → db.Step e db' → (db.Authorized e db' ↔ OwnCollection db e)) ∧
    (∀ a db', Relation.ReflTransGen (StepOfOthers a) db db' → SameCollections a db db') := by
  constructor
  . intro e db' hfits hstep
    exact (countsLive_of_reach h).authorized_iff hfits hstep
  . intro a db' hothers
    exact sameCollections_of_others hothers

instance (db : Database) : (e : MarketEvent) → Decidable (CountFits db e)
  | .operation (.nftIssue _) =>
    decidableForallOk (p := fun n => ∀ k ∈ tokenCounts db.nftCollections n, inc32 k ≠ 0)
  | .operation (.nftCollection _) => .isTrue trivial
  | .operation (.nftCollectionDelete _) => .isTrue trivial
  | .operation (.nftTransfer _) => .isTrue trivial
  | .operation (.nftSell _) => .isTrue trivial
  | .operation (.nftBuy _) => .isTrue trivial
  | .operation (.nftCancelOrder _) => .isTrue trivial
  | .operation (.nftAuction _) => .isTrue trivial
  | .endOfBlock _ _ => .isTrue trivial
  | .other => .isTrue trivial

/-- Alice opens two collections and issues a token in one of them. -/
def openCollections : List NftOperation :=
  [
    .nftCollection { creator := "alice", name := "COOLGAME" },
    .nftCollection { creator := "alice", name := "ART" },
    .nftIssue { creator := "alice", name := "ART", toAccount := "alice" }
  ]

def openedCollections : Database :=
  (openCollections.foldlM applyNftOperation firstMarket).toOption.getD firstMarket

theorem authorized_of_reach_opened :
    (∀ e db', CountFits openedCollections e → openedCollections.Step e db' →
      (openedCollections.Authorized e db' ↔ OwnCollection openedCollections e)) ∧
    (∀ a db', Relation.ReflTransGen (StepOfOthers a) openedCollections db' →
      SameCollections a openedCollections db') :=
  authorized_of_reach (reach_of_operations (.initial noMarket_firstMarket) (by decide +kernel)
    (eq_ok_of_isSome (by decide +kernel)))

/-- What Bob does to the collections of Alice: he deletes one and issues a token in the other. -/
def meddle : List NftOperation :=
  [
    .nftCollectionDelete { creator := "bob", name := "COOLGAME" },
    .nftIssue { creator := "bob", name := "ART", toAccount := "bob" }
  ]

def meddledCollections : Database :=
  (meddle.foldlM applyNftOperation openedCollections).toOption.getD openedCollections

/-- Bob deletes one collection of Alice, and issues a token in the other one. -/
theorem nftCollectionDelete_by_other_account :
    market.Reachable openedCollections ∧
    meddle.foldlM applyNftOperation openedCollections = .ok meddledCollections ∧
    (∀ op ∈ meddle, op.authorizer = "bob") ∧
    (openedCollections.nftCollections.rows.map fun nco => (nco.creator, nco.tokenCount))
      = [("alice", 0), ("alice", 1)] ∧
    (meddledCollections.nftCollections.rows.map fun nco => (nco.creator, nco.tokenCount))
      = [("alice", 2)] := by
  refine ⟨?_, ?_, ?_, ?_, ?_⟩
  . exact reachable_of_operations reachable_firstMarket (eq_ok_of_isSome (by decide +kernel))
  . exact eq_ok_of_isSome (by decide +kernel)
  . decide
  . decide +kernel
  . decide +kernel

end Database
end Golos
