import Golos.Nft.Lemmas.WellFormed

/-!
This module contains the four counters of a collection: what each of them counts, and how every
operation keeps them in step with the rows of the market.
-/

namespace Golos

open Checked Ledger

inductive NftCounter where
  | tokenCount
  | sellOrderCount
  | buyOrderCount
  | auctionCount
  deriving DecidableEq

namespace NftCounter

def read : NftCounter → NftCollectionObject → Nat
  | .tokenCount, nco => nco.tokenCount
  | .sellOrderCount, nco => nco.sellOrderCount
  | .buyOrderCount, nco => nco.buyOrderCount
  | .auctionCount, nco => nco.auctionCount

/-- What a token adds to a counter of its collection. -/
def ofNft : NftCounter → NftObject → ℤ
  | .tokenCount, no => if no.burnt then 0 else 1
  | .auctionCount, no => if no.auctionExpiration = 0 then 0 else 1
  | _, _ => 0

/-- What an order adds to a counter of its collection. -/
def ofOrder : NftCounter → NftOrderObject → ℤ
  | .sellOrderCount, o => if o.selling then 1 else 0
  | .buyOrderCount, o => if o.selling then 0 else 1
  | _, _ => 0

theorem ofNft_nonneg (c : NftCounter) (no : NftObject) : 0 ≤ c.ofNft no := by
  unfold ofNft
  split
  . split <;> omega
  . split <;> omega
  . omega

theorem ofNft_le_one (c : NftCounter) (no : NftObject) : c.ofNft no ≤ 1 := by
  unfold ofNft
  split
  . split <;> omega
  . split <;> omega
  . omega

theorem ofOrder_nonneg (c : NftCounter) (o : NftOrderObject) : 0 ≤ c.ofOrder o := by
  unfold ofOrder
  split
  . split <;> omega
  . split <;> omega
  . omega

/-- A token counts the same when it is neither burnt nor put into or taken out of an auction. -/
theorem ofNft_congr {no no' : NftObject} (hburnt : no'.burnt = no.burnt)
    (hauction : no'.auctionExpiration = 0 ↔ no.auctionExpiration = 0) (c : NftCounter) :
    c.ofNft no' = c.ofNft no := by
  unfold ofNft
  split
  . rw [hburnt]
  . simp only [hauction]
  . rfl

theorem ofNft_tokenCount_congr {no no' : NftObject} (hburnt : no'.burnt = no.burnt) :
    tokenCount.ofNft no' = tokenCount.ofNft no := by
  simp only [ofNft, hburnt]

/-- The end of an auction leaves the other counters alone. -/
theorem ofNft_le_of_stopped {no no' : NftObject} (hburnt : no'.burnt = no.burnt)
    (hstopped : no'.auctionExpiration = 0) (c : NftCounter) : c.ofNft no' ≤ c.ofNft no := by
  unfold ofNft
  split
  . rw [hburnt]
  . rw [if_pos hstopped]
    split <;> omega
  . omega

/-- What a list of orders adds to a counter. -/
def ofOrders (c : NftCounter) (orders : List NftOrderObject) : ℤ :=
  (orders.map c.ofOrder).sum

@[simp]
theorem ofOrders_nil (c : NftCounter) : c.ofOrders [] = 0 := rfl

@[simp]
theorem ofOrders_cons (c : NftCounter) (o : NftOrderObject) (orders : List NftOrderObject) :
    c.ofOrders (o :: orders) = c.ofOrder o + c.ofOrders orders := by
  simp [ofOrders]

@[simp]
theorem ofOrders_append (c : NftCounter) (l m : List NftOrderObject) :
    c.ofOrders (l ++ m) = c.ofOrders l + c.ofOrders m := by
  simp [ofOrders]

theorem ofOrders_nonneg (c : NftCounter) (orders : List NftOrderObject) :
    0 ≤ c.ofOrders orders := by
  induction orders with
  | nil => simp
  | cons o orders ih =>
    rw [ofOrders_cons]
    have := c.ofOrder_nonneg o
    omega

end NftCounter

/-- A counter of 32 bits goes from `k` to `k'`, by `d` up to a wrap. -/
structure Counts32 (k k' : Nat) (d : ℤ) : Prop where
  lt : k < 2 ^ 32 → k' < 2 ^ 32
  step : (2 ^ 32 : ℤ) ∣ k' - (k + d)

namespace Counts32

theorem refl (k : Nat) : Counts32 k k 0 where
  lt := id
  step := by simp

theorem inc32 (k : Nat) : Counts32 k (inc32 k) 1 where
  lt := by
    unfold Golos.inc32
    omega
  step := by
    unfold Golos.inc32
    omega

theorem sub32 (k n : Nat) : Counts32 k (sub32 k n) (-n) where
  lt := by
    unfold Golos.sub32
    omega
  step := by
    unfold Golos.sub32
    omega

theorem sub32_if (p : Bool) (k : Nat) :
    Counts32 k (if p then Golos.sub32 k 1 else k) (-if p then 1 else 0) := by
  cases p with
  | true => simpa using sub32 k 1
  | false => exact refl k

theorem sub32_if_not (p : Bool) (k : Nat) :
    Counts32 k (if p then k else Golos.sub32 k 1) (-if p then 0 else 1) := by
  cases p with
  | true => exact refl k
  | false => simpa using sub32 k 1

theorem of_eq {k k' : Nat} {d d' : ℤ} (h : Counts32 k k' d) (hd : d = d') : Counts32 k k' d' :=
  hd ▸ h

/-- A counter that has room for its number does not wrap. -/
theorem eq_add {k k' : Nat} {d : ℤ} (h : Counts32 k k' d) (hk : k < 2 ^ 32) (hlow : 0 ≤ k + d)
    (hhigh : k + d < 2 ^ 32) : (k' : ℤ) = k + d := by
  have := h.lt hk
  have := h.step
  omega

end Counts32

theorem NftCounter.forall_counts32 {nco nco' : NftCollectionObject} {d : NftCounter → ℤ}
    (htoken : Counts32 nco.tokenCount nco'.tokenCount (d .tokenCount))
    (hsell : Counts32 nco.sellOrderCount nco'.sellOrderCount (d .sellOrderCount))
    (hbuy : Counts32 nco.buyOrderCount nco'.buyOrderCount (d .buyOrderCount))
    (hauction : Counts32 nco.auctionCount nco'.auctionCount (d .auctionCount)) (c : NftCounter) :
    Counts32 (c.read nco) (c.read nco') (d c) := by
  cases c
  . exact htoken
  . exact hsell
  . exact hbuy
  . exact hauction

namespace Database

/-- What a counter of the collection `name` should stand at. -/
def counted (db : Database) (c : NftCounter) (name : AssetSymbolType) : ℤ :=
  db.nfts.sum (fun no => if no.name = name then c.ofNft no else 0)
    + db.nftOrders.sum (fun o => if o.name = name then c.ofOrder o else 0)

/-- Selling orders and orders for one token stand on a token of their collection. -/
def NamesFit (db : Database) : Prop :=
  ∀ o ∈ db.nftOrders.rows, (o.selling = true ∨ o.tokenId ≠ 0) →
    ∃ no, db.nfts.find? o.tokenId = some no ∧ no.name = o.name

/-- The rows of one collection change by `d`, and its counters with them. -/
structure Tallies (db db' : Database) (name : AssetSymbolType) (d : NftCounter → ℤ) : Prop where
  own : ∃ nco nco', db.nftCollections.find? name = some nco ∧
    db'.nftCollections.find? name = some nco' ∧ ∀ c, Counts32 (c.read nco) (c.read nco') (d c)
  others : ∀ n, n ≠ name → db'.nftCollections.find? n = db.nftCollections.find? n
  counted : ∀ c n, db'.counted c n = db.counted c n + if n = name then d c else 0

section counted

variable {removed : Removed} {db db' : Database}

theorem counted_nonneg (db : Database) (c : NftCounter) (name : AssetSymbolType) :
    0 ≤ db.counted c name := by
  unfold counted
  apply Int.add_nonneg
  . apply Table.sum_nonneg
    intro no _
    split
    . exact c.ofNft_nonneg no
    . exact le_rfl
  . apply Table.sum_nonneg
    intro o _
    split
    . exact c.ofOrder_nonneg o
    . exact le_rfl

theorem counted_congr (hnfts : db'.nfts = db.nfts) (horders : db'.nftOrders = db.nftOrders)
    (c : NftCounter) (name : AssetSymbolType) : db'.counted c name = db.counted c name := by
  unfold counted
  rw [hnfts, horders]

theorem sum_ofOrder_of_name {l : List NftOrderObject} {n : AssetSymbolType}
    (hl : ∀ o ∈ l, o.name = n) (c : NftCounter) (name : AssetSymbolType) :
    (l.map fun o => if o.name = name then c.ofOrder o else 0).sum
      = if name = n then c.ofOrders l else 0 := by
  induction l with
  | nil => simp
  | cons o l ih =>
    have ho := hl o List.mem_cons_self
    have ih := ih fun o' ho' => hl o' (List.mem_cons_of_mem _ ho')
    rw [List.map_cons, List.sum_cons, NftCounter.ofOrders_cons, ih, ho]
    by_cases hn : name = n
    . simp [hn]
    . simp [hn, Ne.symm hn]

/-- A token is rewritten and orders of its collection go. -/
theorem counted_update {no no' : NftObject} {l : List NftOrderObject}
    (hnfts : db.nfts.Updates db'.nfts no no') (hname : no'.name = no.name)
    (horders : db.nftOrders.Removes db'.nftOrders l) (hl : ∀ o ∈ l, o.name = no.name)
    (c : NftCounter) (name : AssetSymbolType) :
    db'.counted c name = db.counted c name
      + if name = no.name then c.ofNft no' - c.ofNft no - c.ofOrders l else 0 := by
  unfold counted
  rw [hnfts.sum, horders.sum, sum_ofOrder_of_name hl, hname]
  simp only [eq_comm (a := no.name)]
  split <;> omega

theorem counted_issue {no : NftObject} {n : AssetSymbolType} {d : NftCounter → ℤ}
    (hnfts : db.nfts.Inserts db'.nfts no) (horders : db'.nftOrders = db.nftOrders)
    (hname : no.name = n) (hd : ∀ c : NftCounter, c.ofNft no = d c) (c : NftCounter)
    (name : AssetSymbolType) :
    db'.counted c name = db.counted c name + if name = n then d c else 0 := by
  unfold counted
  rw [hnfts.sum, horders, hd, hname]
  simp only [eq_comm (a := n)]
  omega

/-- A token is rewritten in a way that no counter sees. -/
theorem sum_ofNft_update {ts ts' : Table NftObject.tokenId} {no no' : NftObject}
    (hnfts : ts.Updates ts' no no') (hname : no'.name = no.name)
    (hsame : ∀ c : NftCounter, c.ofNft no' = c.ofNft no) (c : NftCounter) (name : AssetSymbolType) :
    ts'.sum (fun no => if no.name = name then c.ofNft no else 0)
      = ts.sum (fun no => if no.name = name then c.ofNft no else 0) := by
  rw [hnfts.sum, hname, hsame]
  omega

theorem counted_insertOrder {o : NftOrderObject} {n : AssetSymbolType} {d : NftCounter → ℤ}
    (hnfts : ∀ (c : NftCounter) (name : AssetSymbolType),
      db'.nfts.sum (fun no => if no.name = name then c.ofNft no else 0)
        = db.nfts.sum (fun no => if no.name = name then c.ofNft no else 0))
    (horders : db.nftOrders.Inserts db'.nftOrders o) (hname : o.name = n)
    (hd : ∀ c : NftCounter, c.ofOrder o = d c) (c : NftCounter) (name : AssetSymbolType) :
    db'.counted c name = db.counted c name + if name = n then d c else 0 := by
  unfold counted
  rw [horders.sum, hnfts, hd, hname]
  simp only [eq_comm (a := n)]
  omega

theorem counted_eraseOrder {o : NftOrderObject} {n : AssetSymbolType} {d : NftCounter → ℤ}
    (hnfts : ∀ (c : NftCounter) (name : AssetSymbolType),
      db'.nfts.sum (fun no => if no.name = name then c.ofNft no else 0)
        = db.nfts.sum (fun no => if no.name = name then c.ofNft no else 0))
    (horders : db.nftOrders.Removes db'.nftOrders [o]) (hname : o.name = n)
    (hd : ∀ c : NftCounter, -c.ofOrder o = d c) (c : NftCounter) (name : AssetSymbolType) :
    db'.counted c name = db.counted c name + if name = n then d c else 0 := by
  unfold counted
  rw [horders.sum, hnfts, ← hd]
  simp only [List.map_cons, List.map_nil, List.sum_cons, List.sum_nil, hname, eq_comm (a := n)]
  split <;> omega

end counted

section clearNftOrders

variable {db : Database}

/-- The counts of a `Cleared` are those of the orders `l`. -/
structure Cleared.Reports (c : Cleared) (l : List NftOrderObject) : Prop where
  sell : NftCounter.sellOrderCount.ofOrders l = c.sellCount
  buy : NftCounter.buyOrderCount.ofOrders l = c.buyCount

theorem Cleared.Reports.updateStats {c : Cleared} {l : List NftOrderObject} (h : c.Reports l)
    (noo : NftOrderObject) : (c.updateStats noo).Reports (l ++ [noo]) := by
  have hsell := h.sell
  have hbuy := h.buy
  unfold Cleared.updateStats
  split
  . next hselling =>
    constructor <;> simp [NftCounter.ofOrder, hselling, hsell, hbuy]
  . next hbuying =>
    constructor <;> simp [NftCounter.ofOrder, hbuying, hsell, hbuy]

theorem reports_of_clearNftOrders_go {proceedOrder : Option NftOrderObject} {c c' : Cleared}
    {l orders : List NftOrderObject} (h : c.Reports l)
    (hgo : clearNftOrders.go proceedOrder c orders = .ok c') : c'.Reports (l ++ orders) := by
  induction orders generalizing c l with
  | nil =>
    simp only [clearNftOrders.go, pure_eq_ok] at hgo
    subst hgo
    rwa [List.append_nil]
  | cons noo orders ih =>
    simp only [clearNftOrders.go, bind_eq_ok] at hgo
    obtain ⟨db₁, -, hgo⟩ := hgo
    have hstats := h.updateStats noo
    rw [List.append_cons]
    exact @ih { c.updateStats noo with db := db₁ } _ ⟨hstats.sell, hstats.buy⟩ hgo

/-- The counts that `clear_nft_orders` reports are those of the orders it removes. -/
theorem reports_of_clearNftOrders {tokenId : Nat} {proceedOrder clearOrder : Option NftOrderObject}
    {onlyBuying : Bool} {c : Cleared}
    (hclear : ∀ noo, clearOrder = some noo → noo ∈ db.nftOrders.rows)
    (h : db.clearNftOrders tokenId proceedOrder clearOrder onlyBuying = .ok c) :
    c.Reports (db.clearedNftOrders tokenId onlyBuying
      ++ db.clearedExtra tokenId clearOrder onlyBuying) := by
  simp only [clearNftOrders, bind_eq_ok] at h
  obtain ⟨c₁, hgo, h⟩ := h
  have hgo := reports_of_clearNftOrders_go (l := []) ⟨rfl, rfl⟩ hgo
  rw [List.nil_append] at hgo
  cases clearOrder with
  | none =>
    simp only [pure_eq_ok] at h
    subst h
    simpa [clearedExtra] using hgo
  | some noo =>
    have hany := any_byOwnerOrderId_iff tokenId onlyBuying (hclear noo rfl)
    by_cases hin : noo ∈ db.clearedNftOrders tokenId onlyBuying
    . simp only [hany.mpr hin, ↓reduceIte, pure_eq_ok] at h
      subst h
      simpa [clearedExtra, hin] using hgo
    . simp only [mt hany.mp hin, Bool.false_eq_true, ↓reduceIte, pure_eq_ok] at h
      subst h
      have hstats := hgo.updateStats noo
      simp only [clearedExtra, hin, ↓reduceIte]
      exact ⟨hstats.sell, hstats.buy⟩

end clearNftOrders

section evaluators

variable {removed : Removed} {db db' : Database}

/-- A collection is rewritten while the rows of the market change. -/
theorem Tallies.modify {nco : NftCollectionObject} {d : NftCounter → ℤ} {n : AssetSymbolType}
    (f : NftCollectionObject → NftCollectionObject) (hf : ∀ nco, (f nco).name = nco.name)
    (hnco : db.nftCollections.find? n = some nco)
    (hcs : db'.nftCollections = db.nftCollections.modify nco.name f hf)
    (hread : ∀ c, Counts32 (c.read nco) (c.read (f nco)) (d c))
    (hcounted : ∀ c m, db'.counted c m = db.counted c m + if m = n then d c else 0) :
    Tallies db db' n d := by
  have hname := Table.key_of_find? hnco
  subst hname
  constructor
  . refine ⟨nco, f nco, hnco, ?_, hread⟩
    rw [hcs, Table.find?_modify_self, hnco]
    rfl
  . intro m hm
    rw [hcs, Table.find?_modify_of_ne _ _ _ hm]
  . exact hcounted

/-- A new row of the collection `n`, counted by `c`. -/
def oneMore (c : NftCounter) : NftCounter → ℤ :=
  fun c' => if c' = c then 1 else 0

theorem tallies_nftIssue {op : NftIssueOperation} (h : db.nftIssue op = .ok db') :
    ∃ n, nftNameFromString op.name = .ok n ∧ Tallies db db' n (oneMore .tokenCount) := by
  simp only [nftIssue, bind_eq_ok, ensure_eq_ok, get_eq_ok, getNftCollection_eq_ok, pure_eq_ok] at h
  obtain ⟨n, hn, nco, hnco, -, -, fee, -, db₁, hpay, -, -, ts, hts, rfl⟩ := h
  have hpaid : ∃ l, db₁ = { db with ledger := l } := by
    split at hpay
    . obtain ⟨l, hdb, -⟩ := payNftIssueFee_eq_ok hpay
      exact ⟨l, hdb⟩
    . rw [pure_eq_ok] at hpay
      exact ⟨db.ledger, hpay.symm⟩
  obtain ⟨l, rfl⟩ := hpaid
  simp only [modifyNftCollection] at hts ⊢
  have hinsert := Table.Inserts.emplace hts
  refine ⟨n, hn, ?_⟩
  refine Tallies.modify _ (by intros; rfl) hnco rfl ?_ ?_
  . apply NftCounter.forall_counts32
    . exact .inc32 _
    . exact .refl _
    . exact .refl _
    . exact .refl _
  . refine counted_issue hinsert rfl rfl ?_
    intro c
    cases c <;> rfl

/-- A token `no` is rewritten, its collection loses the orders that were cleared. -/
def cleared (no no' : NftObject) (l : List NftOrderObject) : NftCounter → ℤ :=
  fun c => c.ofNft no' - c.ofNft no - c.ofOrders l

/-- The common shape of the functions that clear orders and report them to the collection. -/
theorem Tallies.clear {no no' : NftObject} {nco : NftCollectionObject} {c : Cleared}
    {l : List NftOrderObject} (f : NftCollectionObject → NftCollectionObject)
    (hf : ∀ nco, (f nco).name = nco.name) (hnfts : db.nfts.Updates db'.nfts no no')
    (hname : no'.name = no.name) (horders : db.nftOrders.Removes db'.nftOrders l)
    (hl : ∀ o ∈ l, o.name = no.name) (hreports : c.Reports l)
    (hnco : db.nftCollections.find? no.name = some nco)
    (hcs : db'.nftCollections = db.nftCollections.modify nco.name f hf)
    (htoken : Counts32 nco.tokenCount (f nco).tokenCount
      (NftCounter.tokenCount.ofNft no' - NftCounter.tokenCount.ofNft no))
    (hauction : Counts32 nco.auctionCount (f nco).auctionCount
      (NftCounter.auctionCount.ofNft no' - NftCounter.auctionCount.ofNft no))
    (hsell : (f nco).sellOrderCount = sub32 nco.sellOrderCount c.sellCount)
    (hbuy : (f nco).buyOrderCount = sub32 nco.buyOrderCount c.buyCount) :
    Tallies db db' no.name (cleared no no' l) := by
  -- Orders count nothing for tokens and auctions, tokens count nothing for orders.
  have hzero : ∀ c : NftCounter, (∀ o, c.ofOrder o = 0) → c.ofOrders l = 0 := by
    intro c hc
    simp [NftCounter.ofOrders, funext hc]
  apply Tallies.modify f hf hnco hcs
  . intro c'
    unfold cleared
    cases c' with
    | tokenCount =>
      rw [hzero _ fun _ => rfl]
      exact htoken.of_eq (by omega)
    | auctionCount =>
      rw [hzero _ fun _ => rfl]
      exact hauction.of_eq (by omega)
    | sellOrderCount =>
      rw [hreports.sell]
      show Counts32 nco.sellOrderCount (f nco).sellOrderCount _
      rw [hsell]
      exact (Counts32.sub32 _ _).of_eq (by simp [NftCounter.ofNft])
    | buyOrderCount =>
      rw [hreports.buy]
      show Counts32 nco.buyOrderCount (f nco).buyOrderCount _
      rw [hbuy]
      exact (Counts32.sub32 _ _).of_eq (by simp [NftCounter.ofNft])
  . intro c' m
    exact counted_update hnfts hname horders hl c' m

theorem NamesFit.name_of_mem_clearedNftOrders {no : NftObject} (h : db.NamesFit)
    (hno : db.nfts.find? no.tokenId = some no) {onlyBuying : Bool} {o : NftOrderObject}
    (ho : o ∈ db.clearedNftOrders no.tokenId onlyBuying) : o.name = no.name := by
  obtain ⟨hne, hmem, htoken, -⟩ := mem_clearedNftOrders.mp ho
  obtain ⟨no', hno', hname⟩ := h o hmem (.inr (htoken ▸ hne))
  rw [htoken, hno] at hno'
  injection hno' with hno'
  rw [hno', hname]

theorem tallies_burnNft {no : NftObject} {name : AccountName} (hfit : db.NamesFit)
    (hno : db.nfts.find? no.tokenId = some no) (hlive : no.burnt = false)
    (h : db.burnNft no name = .ok db') :
    ∃ no' l, Tallies db db' no.name (cleared no no' l) ∧ ∀ c : NftCounter, c.ofNft no' ≤ c.ofNft no := by
  simp only [burnNft, bind_eq_ok, getNftCollection_eq_ok, pure_eq_ok] at h
  obtain ⟨_, hrefund, nco, hnco, c, hc, rfl⟩ := h
  obtain ⟨l₁, rfl, -⟩ := refundNftIssueCost_eq_ok hrefund
  obtain ⟨l, os, hdb, horders, -⟩ := clearNftOrders_eq_ok (by simp) hc
  have hreports := reports_of_clearNftOrders (by simp) hc
  simp only [clearedExtra, List.append_nil] at horders hreports
  simp only [hdb, modifyNft, modifyNftCollection]
  refine ⟨{ no with burnt := true }, _, Tallies.clear _ (by intros; rfl) (.modify _ hno) rfl horders
    ?_ hreports hnco rfl ?_ ?_ rfl rfl, ?_⟩
  . intro o ho
    exact hfit.name_of_mem_clearedNftOrders hno ho
  . exact (Counts32.sub32 _ _).of_eq (by simp [NftCounter.ofNft, hlive])
  . exact (Counts32.refl _).of_eq (by simp [NftCounter.ofNft])
  . intro c'
    cases c' <;> simp [NftCounter.ofNft, hlive]

/-- A step that tells no collection anything, and has nothing to tell. -/
structure Untold (db db' : Database) : Prop where
  nftCollections : db'.nftCollections = db.nftCollections
  counted : ∀ c n, db'.counted c n = db.counted c n

theorem untold_of_update {no no' : NftObject} (hcs : db'.nftCollections = db.nftCollections)
    (hnfts : db.nfts.Updates db'.nfts no no') (hname : no'.name = no.name)
    (hburnt : no'.burnt = no.burnt)
    (hauction : no'.auctionExpiration = 0 ↔ no.auctionExpiration = 0)
    (horders : db'.nftOrders = db.nftOrders) : Untold db db' where
  nftCollections := hcs
  counted := by
    intro c n
    have hsum := sum_ofNft_update hnfts hname (NftCounter.ofNft_congr hburnt hauction) c n
    unfold Database.counted
    rw [hsum, horders]

theorem tallies_nftTransfer {op : NftTransferOperation} (hfit : db.NamesFit)
    (h : db.nftTransfer op = .ok db') :
    Untold db db' ∨ ∃ no no' l, Tallies db db' no.name (cleared no no' l)
      ∧ ∀ c : NftCounter, c.ofNft no' ≤ c.ofNft no := by
  simp only [nftTransfer, bind_eq_ok, ensure_eq_ok, getNft_eq_ok, Bool.not_eq_eq_eq_not,
    Bool.not_true] at h
  obtain ⟨no, hno, -, -, -, hburnt, -, -, -, -, account, -, h⟩ := h
  rw [← Table.key_of_find? hno] at hno
  split at h
  . exact .inr ⟨no, tallies_burnNft hfit hno hburnt h⟩
  . rw [pure_eq_ok] at h
    subst h
    exact .inl (untold_of_update rfl (.modify _ hno) rfl rfl .rfl rfl)

theorem tallies_placeSellOrder {op : NftSellOperation} {no : NftObject}
    {nco : NftCollectionObject} (hno : db.nfts.find? no.tokenId = some no)
    (hnco : db.nftCollections.find? no.name = some nco) (h : db.placeSellOrder op no nco = .ok db') :
    Tallies db db' no.name (oneMore .sellOrderCount) := by
  simp only [placeSellOrder, modifyNft, modifyNftCollection, bind_eq_ok, pure_eq_ok] at h
  obtain ⟨-, -, -, -, db₁, hcreate, rfl⟩ := h
  obtain ⟨os, rfl, horders⟩ := createNftOrder_eq_ok hcreate
  refine Tallies.modify _ (by intros; rfl) hnco rfl ?_ ?_
  . apply NftCounter.forall_counts32
    . exact .refl _
    . exact .inc32 _
    . exact .refl _
    . exact .refl _
  . refine counted_insertOrder ?_ horders rfl ?_
    . exact sum_ofNft_update (.modify _ hno) rfl (NftCounter.ofNft_congr rfl .rfl)
    . intro c
      cases c <;> rfl

theorem tallies_settleSale {no : NftObject} {clearedTokenId : Nat} {newOwner : AccountName} {price : Asset}
    {proceedOrder clearOrder : Option NftOrderObject}
    {getNco : Database → Result NftCollectionObject} (hno : db.nfts.find? no.tokenId = some no)
    (hclear : ∀ noo, clearOrder = some noo → noo ∈ db.nftOrders.rows)
    (hnames : ∀ o ∈ db.clearedNftOrders clearedTokenId false
      ++ db.clearedExtra clearedTokenId clearOrder false, o.name = no.name)
    (hnco : ∀ db' nco, db'.nftCollections = db.nftCollections → getNco db' = .ok nco →
      db.nftCollections.find? no.name = some nco)
    (h : db.settleSale no.tokenId clearedTokenId newOwner price proceedOrder clearOrder getNco
      = .ok db') :
    ∃ no' l, Tallies db db' no.name (cleared no no' l)
      ∧ ∀ c : NftCounter, c.ofNft no' = c.ofNft no := by
  simp only [settleSale, modifyNft, modifyNftCollection, bind_eq_ok, pure_eq_ok] at h
  obtain ⟨nco, hget, c, hc, rfl⟩ := h
  obtain ⟨l, os, hdb, horders, -⟩ := clearNftOrders_eq_ok (by exact hclear) hc
  have hreports := reports_of_clearNftOrders (by exact hclear) hc
  rw [hdb]
  refine ⟨{ no with
      lastUpdate := db.headBlockTime
      owner := newOwner
      selling := false
      lastBuyPrice := price }, _, Tallies.clear _ (by intros; rfl) (.modify _ hno) rfl horders
    hnames hreports (hnco _ _ (by rfl) hget) rfl ?_ ?_ rfl rfl, ?_⟩
  . exact (Counts32.refl _).of_eq (by simp [NftCounter.ofNft])
  . exact (Counts32.refl _).of_eq (by simp [NftCounter.ofNft])
  . exact NftCounter.ofNft_congr rfl .rfl

/-- The orders that an executed order clears are all of one collection. -/
theorem NamesFit.name_of_mem_clearedExtra {noo o : NftOrderObject} {tokenId : Nat}
    {n : AssetSymbolType} (hname : noo.name = n)
    (ho : o ∈ db.clearedExtra tokenId (some noo) false) : o.name = n := by
  unfold clearedExtra at ho
  dsimp only at ho
  split at ho
  . cases ho
  . rw [List.mem_singleton] at ho
    rw [ho, hname]

theorem tallies_sellToBuyer {op : NftSellOperation} {no : NftObject} {nco : NftCollectionObject}
    (hfit : db.NamesFit) (hno : db.nfts.find? op.tokenId = some no)
    (hnco : db.nftCollections.find? no.name = some nco) (h : db.sellToBuyer op no nco = .ok db') :
    ∃ no' l, Tallies db db' no.name (cleared no no' l)
      ∧ ∀ c : NftCounter, c.ofNft no' = c.ofNft no := by
  simp only [sellToBuyer, bind_eq_ok, getNftOrder, get_eq_ok, ensure_eq_ok, adjustBalance_eq_ok] at h
  obtain ⟨noo, hnoo, -, -, -, hname, -, -, _, -, db₁, htake, _, ⟨l₂, -, rfl⟩, db₃, hremain, h⟩ := h
  obtain ⟨l₁, rfl, -⟩ := takePriceFromBuyer_eq_ok htake
  obtain ⟨l₃, rfl, -⟩ := returnRemainOfPrice_eq_ok hremain
  have hid := Table.key_of_find? hno
  rw [← hid] at h hno
  have hsale := tallies_settleSale (by exact hno) ?_ ?_ ?_ h
  . obtain ⟨no', l, htallies, hsame⟩ := hsale
    exact ⟨no', l, ⟨htallies.own, htallies.others, htallies.counted⟩, hsame⟩
  . rintro _ ⟨⟩
    exact Table.mem_of_find? hnoo
  . intro o ho
    rcases List.mem_append.mp ho with ho | ho
    . exact hfit.name_of_mem_clearedNftOrders hno ho
    . exact NamesFit.name_of_mem_clearedExtra hname ho
  . intro _ nco' _ hget
    rw [pure_eq_ok] at hget
    exact hget ▸ hnco

theorem tallies_nftSell {op : NftSellOperation} (hfit : db.NamesFit) (h : db.nftSell op = .ok db') :
    (op.buyer = "" ∧ ∃ no, db.nfts.find? op.tokenId = some no ∧
      Tallies db db' no.name (oneMore .sellOrderCount)) ∨
    ∃ no no' l, Tallies db db' no.name (cleared no no' l)
      ∧ ∀ c : NftCounter, c.ofNft no' = c.ofNft no := by
  simp only [nftSell, bind_eq_ok, ensure_eq_ok, getNft_eq_ok, getNftCollection_eq_ok] at h
  obtain ⟨no, hno, -, -, -, -, _, -, -, -, nco, hnco, h⟩ := h
  split at h
  . next hbuyer =>
    have hno' := hno
    rw [← Table.key_of_find? hno] at hno'
    exact .inl ⟨hbuyer, no, hno, tallies_placeSellOrder hno' hnco h⟩
  . exact .inr ⟨no, tallies_sellToBuyer hfit hno hnco h⟩

theorem tallies_buyFromSeller {op : NftBuyOperation} {noo : NftOrderObject}
    (hnames : noo.selling = true →
      (priceOf op.price noo).amount
        ≤ db.ledger.mainBalance op.buyer (priceOf op.price noo).symbol →
      ∀ no, db.nfts.find? noo.tokenId = some no →
        ∀ o ∈ db.clearedNftOrders op.tokenId false, o.name = no.name)
    (h : db.buyFromSeller op noo = .ok db') :
    db' = db ∨ ∃ no no' l, Tallies db db' no.name (cleared no no' l)
      ∧ ∀ c : NftCounter, c.ofNft no' = c.ofNft no := by
  simp only [buyFromSeller, bind_eq_ok, ensure_eq_ok, getNft_eq_ok] at h
  obtain ⟨-, hselling, no, hno, _, -, buyer, hbuyer, ignored, -, h⟩ := h
  split at h
  . rw [pure_eq_ok] at h
    exact .inl h.symm
  . simp only [bind_eq_ok, adjustBalance_eq_ok] at h
    obtain ⟨_, hbalance, _, ⟨l₁, -, rfl⟩, minusPrice, -, _, ⟨l₂, -, rfl⟩, h⟩ := h
    have hnames := hnames hselling (le_mainBalance_of_checkBalance hbuyer hbalance) no hno
    rw [← Table.key_of_find? hno] at hno
    have hsale := tallies_settleSale (by exact hno) (by rintro _ ⟨⟩) ?_ ?_ h
    . obtain ⟨no', l, htallies, hsame⟩ := hsale
      exact .inr ⟨no, no', l, ⟨htallies.own, htallies.others, htallies.counted⟩, hsame⟩
    . intro o ho
      rw [clearedExtra, List.append_nil] at ho
      exact hnames o ho
    . intro db₂ nco' hcs hget
      rw [getNftCollection_eq_ok, hcs] at hget
      exact hget

theorem tallies_placeOffer {op : NftBuyOperation} (h : db.placeOffer op = .ok db') :
    ∃ n, nftNameFromString op.name = .ok n ∧ Tallies db db' n (oneMore .buyOrderCount) := by
  simp only [placeOffer, modifyNftCollection, bind_eq_ok, ensure_eq_ok, adjustBalance_eq_ok,
    getNftCollection_eq_ok] at h
  obtain ⟨-, -, n, hn, no, -, -, -, -, hname, -, -, nco, hnco, buyer, -, _, -, -, -, minusPrice,
    hneg, _, ⟨l₁, hl₁, rfl⟩, db₂, hcreate, hhold⟩ := h
  obtain ⟨os, rfl, horders⟩ := createNftOrder_eq_ok hcreate
  obtain ⟨l, rfl, -⟩ := holdPrice_eq_ok hneg hl₁ rfl hhold
  rw [hname] at hnco
  refine ⟨n, hn, ?_⟩
  refine Tallies.modify _ (by intros; rfl) hnco rfl ?_ ?_
  . apply NftCounter.forall_counts32
    . exact .refl _
    . exact .refl _
    . exact .inc32 _
    . exact .refl _
  . refine counted_insertOrder (fun _ _ => rfl) horders rfl ?_
    intro c
    cases c <;> rfl

theorem tallies_placeCollectionOffer {op : NftBuyOperation}
    (h : db.placeCollectionOffer op = .ok db') :
    ∃ n, nftNameFromString op.name = .ok n ∧ Tallies db db' n (oneMore .buyOrderCount) := by
  simp only [placeCollectionOffer, modifyNftCollection, bind_eq_ok, ensure_eq_ok,
    getNftCollection_eq_ok, pure_eq_ok] at h
  obtain ⟨-, -, n, hn, nco, hnco, db₁, hcreate, rfl⟩ := h
  obtain ⟨os, rfl, horders⟩ := createNftOrder_eq_ok hcreate
  refine ⟨n, hn, ?_⟩
  refine Tallies.modify _ (by intros; rfl) hnco rfl ?_ ?_
  . apply NftCounter.forall_counts32
    . exact .refl _
    . exact .refl _
    . exact .inc32 _
    . exact .refl _
  . refine counted_insertOrder (fun _ _ => rfl) horders rfl ?_
    intro c
    cases c <;> rfl

theorem tallies_nftCancelOrder {op : NftCancelOrderOperation}
    (h : db.nftCancelOrder op = .ok db') :
    ∃ noo : NftOrderObject, Tallies db db' noo.name (fun c => -c.ofOrder noo) := by
  simp only [nftCancelOrder, stopSelling, modifyNft, modifyNftCollection, bind_eq_ok, getNftOrder,
    get_eq_ok, getNftCollection_eq_ok] at h
  obtain ⟨noo, hnoo, db₁, hstop, nco, hnco, h⟩ := h
  obtain ⟨l, rfl, -⟩ := clearNftOrder_eq_ok h
  have hmem := Table.mem_of_find? hnoo
  refine ⟨noo, ?_⟩
  have hstop : ∃ ts, db₁ = { db with nfts := ts } ∧ ∀ (c : NftCounter) (name : AssetSymbolType),
      ts.sum (fun no => if no.name = name then c.ofNft no else 0)
        = db.nfts.sum (fun no => if no.name = name then c.ofNft no else 0) := by
    split at hstop
    . simp only [bind_eq_ok, getNft_eq_ok, pure_eq_ok] at hstop
      obtain ⟨no, hno, rfl⟩ := hstop
      rw [← Table.key_of_find? hno] at hno
      exact ⟨_, rfl, sum_ofNft_update (.modify _ hno) rfl (NftCounter.ofNft_congr rfl .rfl)⟩
    . rw [pure_eq_ok] at hstop
      exact ⟨db.nfts, hstop.symm, fun _ _ => rfl⟩
  obtain ⟨ts, rfl, hnfts⟩ := hstop
  refine Tallies.modify _ (by intros; rfl) hnco rfl ?_ ?_
  . apply NftCounter.forall_counts32
    . exact .refl _
    . exact .sub32_if noo.selling _
    . exact .sub32_if_not noo.selling _
    . exact .refl _
  . exact counted_eraseOrder hnfts (.erase hmem) rfl (fun _ => rfl)

theorem untold_nftBuyByAuction {op : NftBuyOperation} (h : db.nftBuyByAuction op = .ok db') :
    Untold db db' := by
  simp only [nftBuyByAuction, bind_eq_ok, getNft_eq_ok, ensure_eq_ok] at h
  obtain ⟨no, hno, -, hrunning, buyer, -, _, -, h⟩ := h
  split at h
  . obtain ⟨bet, l, -, rfl, -⟩ := cancelBet_eq_ok h
    exact ⟨rfl, counted_congr rfl rfl⟩
  . have hno' := hno
    rw [← Table.key_of_find? hno] at hno'
    simp only [placeBet, bind_eq_ok, ensure_eq_ok, adjustBalance_eq_ok] at h
    obtain ⟨-, -, -, -, -, -, _, -, -, -, minusPrice, hneg, _, ⟨l₁, hl₁, rfl⟩, db₂, hcreate,
      hhold⟩ := h
    obtain ⟨bs, rfl, -⟩ := createNftBet_eq_ok hcreate
    obtain ⟨ts, expiration, heq, hexpiration, hnfts⟩ :=
      @extendAuction_eq { db with ledger := l₁, nftBets := bs } no hno'
    rw [heq] at hhold
    obtain ⟨l, rfl, -⟩ := holdPrice_eq_ok hneg hl₁ rfl hhold
    refine untold_of_update rfl hnfts rfl rfl ?_ rfl
    -- The auction is extended, not stopped.
    dsimp only
    omega

theorem tallies_stopAuction {no : NftObject} {nco : NftCollectionObject}
    (hno : db.nfts.find? no.tokenId = some no) (hnco : db.nftCollections.find? no.name = some nco)
    (f : NftObject → NftObject) (hf : ∀ no, (f no).tokenId = no.tokenId)
    (hname : (f no).name = no.name) (hburnt : (f no).burnt = no.burnt)
    (hexpiration : (f no).auctionExpiration = 0) (h : db.stopAuction no nco = .ok db') :
    Tallies db (db'.modifyNft no.tokenId f hf) no.name (cleared no (f no) []) := by
  simp only [stopAuction, modifyNftCollection, bind_eq_ok, ensure_eq_ok, pure_eq_ok] at h
  obtain ⟨-, hrunning, db₂, hclear, rfl⟩ := h
  obtain ⟨l, bs, rfl, -⟩ := clearNftBets_eq_ok hclear
  refine Tallies.modify _ (by intros; rfl) hnco rfl ?_ ?_
  . apply NftCounter.forall_counts32
    . exact (Counts32.refl _).of_eq (by simp [cleared, NftCounter.ofNft, hburnt])
    . exact .refl _
    . exact .refl _
    . exact (Counts32.sub32 _ _).of_eq (by simp [cleared, NftCounter.ofNft, hrunning, hexpiration])
  . exact counted_update (.modify f hno hf) hname (.nil _) (by simp)

theorem tallies_startAuction {no : NftObject} {nco : NftCollectionObject} (hfit : db.NamesFit)
    (hno : db.nfts.find? no.tokenId = some no) (hnco : db.nftCollections.find? no.name = some nco)
    (f : NftObject → NftObject) (hf : ∀ no, (f no).tokenId = no.tokenId)
    (hname : (f no).name = no.name) (hburnt : (f no).burnt = no.burnt)
    (hexpiration : (f no).auctionExpiration ≠ 0) (h : db.startAuction no nco = .ok db') :
    ∃ l, Tallies db (db'.modifyNft no.tokenId f hf) no.name (cleared no (f no) l) := by
  simp only [startAuction, modifyNftCollection, bind_eq_ok, ensure_eq_ok, pure_eq_ok] at h
  obtain ⟨-, hstopped, c, hc, rfl⟩ := h
  obtain ⟨l, os, hdb, horders, -⟩ := clearNftOrders_eq_ok (by simp) hc
  have hreports := reports_of_clearNftOrders (by simp) hc
  simp only [clearedExtra, List.append_nil] at horders hreports
  rw [hdb]
  refine ⟨_, Tallies.clear _ (by intros; rfl) (.modify f hno hf) hname horders ?_ hreports hnco rfl
    ?_ ?_ rfl rfl⟩
  . intro o ho
    exact hfit.name_of_mem_clearedNftOrders hno ho
  . exact (Counts32.refl _).of_eq (by simp [NftCounter.ofNft, hburnt])
  . exact (Counts32.inc32 _).of_eq (by simp [NftCounter.ofNft, hstopped, hexpiration])

theorem tallies_nftAuction {op : NftAuctionOperation} (hfit : db.NamesFit)
    (h : db.nftAuction op = .ok db') :
    ∃ no no' l, db.nfts.find? op.tokenId = some no ∧ Tallies db db' no.name (cleared no no' l) ∧
      ∀ c : NftCounter, c.ofNft no' ≤ c.ofNft no
        ∨ (c = .auctionCount ∧ op.expiration ≠ 0 ∧ op.minPrice.amount ≠ 0) := by
  simp only [nftAuction, bind_eq_ok, ensure_eq_ok, getNft_eq_ok, getNftCollection_eq_ok,
    pure_eq_ok] at h
  obtain ⟨no, hno, -, -, _, -, -, -, nco, hnco, db₁, h, rfl⟩ := h
  have hno' := hno
  rw [← Table.key_of_find? hno] at hno'
  split at h
  . next hempty =>
    have hzero : (if ¬op.minPrice.amount = 0 then op.expiration else 0) = 0 := by
      split
      . next hne => exact hempty.resolve_right hne
      . rfl
    refine ⟨no, _, [], hno, tallies_stopAuction hno' hnco (fun no => { no with
      lastUpdate := db.headBlockTime
      auctionMinPrice := if ¬op.expiration = 0 then op.minPrice else ⟨0, steemSymbol⟩
      auctionExpiration := if ¬op.minPrice.amount = 0 then op.expiration else 0 })
      (by intros; rfl) rfl rfl hzero h, ?_⟩
    intro c
    exact .inl (NftCounter.ofNft_le_of_stopped (by rfl) (by exact hzero) c)
  . next hempty =>
    simp only [not_or] at hempty
    obtain ⟨l, htallies⟩ := tallies_startAuction hfit hno' hnco (fun no => { no with
      lastUpdate := db.headBlockTime
      auctionMinPrice := if ¬op.expiration = 0 then op.minPrice else ⟨0, steemSymbol⟩
      auctionExpiration := if ¬op.minPrice.amount = 0 then op.expiration else 0 })
      (by intros; rfl) rfl rfl
      (by simpa only [hempty.2, not_false_eq_true, ↓reduceIte] using hempty.1) h
    refine ⟨no, _, l, hno, htallies, ?_⟩
    intro c
    cases c
    . exact .inl le_rfl
    . exact .inl le_rfl
    . exact .inl le_rfl
    . exact .inr ⟨rfl, hempty.1, hempty.2⟩

/-- One turn of the loop of `process_nft_bets` for a token with a running auction. -/
theorem tallies_processNftBet {tokenId : Nat} {no : NftObject} (hfit : db.NamesFit)
    (hno : db.nfts.find? tokenId = some no) (hrunning : no.auctionExpiration ≠ 0)
    (h : processNftBet removed db tokenId = .ok db') :
    ∃ no' l, Tallies db db' no.name (cleared no no' l)
      ∧ ∀ c : NftCounter, c.ofNft no' ≤ c.ofNft no := by
  simp only [processNftBet, bind_eq_ok, getNft_eq_ok] at h
  obtain ⟨no₁, hno₁, h⟩ := h
  rw [hno] at hno₁
  injection hno₁ with hno₁
  subst hno₁
  have hid := Table.key_of_find? hno
  subst hid
  have hburnt : ∀ bet, (settledNft no db.headBlockTime bet).burnt = no.burnt := by
    intro bet
    cases bet <;> rfl
  have hstopped : ∀ bet, (settledNft no db.headBlockTime bet).auctionExpiration = 0 := by
    intro bet
    cases bet <;> rfl
  have hauction : ∀ bet, NftCounter.auctionCount.ofNft (settledNft no db.headBlockTime bet)
      - NftCounter.auctionCount.ofNft no = -1 := by
    intro bet
    simp [NftCounter.ofNft, hstopped, hrunning]
  split at h
  . simp only [resetAuction, bind_eq_ok, getNftCollection_eq_ok, pure_eq_ok] at h
    obtain ⟨nco, hnco, rfl⟩ := h
    refine ⟨settledNft no db.headBlockTime none, [], ?_,
      NftCounter.ofNft_le_of_stopped (hburnt none) (hstopped none)⟩
    refine Tallies.modify _ (by intros; rfl) hnco rfl ?_ ?_
    . apply NftCounter.forall_counts32
      . apply (Counts32.refl _).of_eq
        rw [cleared, NftCounter.ofNft_tokenCount_congr (hburnt none), NftCounter.ofOrders_nil]
        omega
      . exact .refl _
      . exact .refl _
      . apply (Counts32.sub32 _ _).of_eq
        rw [cleared, hauction none, NftCounter.ofOrders_nil]
        rfl
    . exact counted_update (.modify _ hno) rfl (.nil _) (by simp)
  . next bet hbet =>
    simp only [sellByAuction, bind_eq_ok, adjustBalance_eq_ok, getNftCollection_eq_ok,
      pure_eq_ok] at h
    obtain ⟨_, ⟨l₁, -, rfl⟩, db₂, hclearBets, c, hc, nco, hnco, rfl⟩ := h
    obtain ⟨l₂, bs, rfl, -⟩ := clearNftBets_eq_ok hclearBets
    obtain ⟨l, os, hdb, horders, -⟩ := clearNftOrders_eq_ok (by simp) hc
    have hreports := reports_of_clearNftOrders (by simp) hc
    simp only [clearedExtra, List.append_nil] at horders hreports
    rw [hdb] at hnco
    rw [hdb]
    refine ⟨settledNft no db.headBlockTime (some bet), _, Tallies.clear _ (by intros; rfl)
      (.modify _ hno) rfl horders ?_ hreports hnco rfl ?_ ?_ rfl rfl,
      NftCounter.ofNft_le_of_stopped (hburnt (some bet)) (hstopped (some bet))⟩
    . intro o ho
      exact hfit.name_of_mem_clearedNftOrders hno ho
    . apply (Counts32.refl _).of_eq
      rw [NftCounter.ofNft_tokenCount_congr (hburnt (some bet))]
      omega
    . apply (Counts32.sub32 _ _).of_eq
      rw [hauction (some bet)]
      rfl

end evaluators

section namesFit

variable {removed : Removed} {db db' : Database}

/-- The tokens of `ts` are in `ts'` under their names. -/
def NamesKept (ts ts' : Table NftObject.tokenId) : Prop :=
  ∀ tokenId no, ts.find? tokenId = some no →
    ∃ no', ts'.find? tokenId = some no' ∧ no'.name = no.name

theorem NamesKept.refl (ts : Table NftObject.tokenId) : NamesKept ts ts := by
  intro tokenId no hno
  exact ⟨no, hno, rfl⟩

theorem NamesKept.update {ts ts' : Table NftObject.tokenId} {no no' : NftObject}
    (h : ts.Updates ts' no no') (hname : no'.name = no.name) : NamesKept ts ts' := by
  intro tokenId no₁ hno₁
  rw [h.find?]
  split
  . next heq =>
    rw [heq, h.row] at hno₁
    injection hno₁ with hno₁
    exact ⟨no', rfl, hno₁ ▸ hname⟩
  . exact ⟨no₁, hno₁, rfl⟩

theorem NamesKept.insert {ts ts' : Table NftObject.tokenId} {no : NftObject}
    (h : ts.Inserts ts' no) : NamesKept ts ts' := by
  intro tokenId no₁ hno₁
  exact ⟨no₁, h.find?_eq_some_iff.mpr (.inl hno₁), rfl⟩

/-- New orders stand on a token of their collection. -/
theorem NamesFit.step (h : db.NamesFit) (hnfts : NamesKept db.nfts db'.nfts)
    (horders : ∀ o ∈ db'.nftOrders.rows, o ∈ db.nftOrders.rows ∨
      ((o.selling = true ∨ o.tokenId ≠ 0) →
        ∃ no, db.nfts.find? o.tokenId = some no ∧ no.name = o.name)) : db'.NamesFit := by
  intro o ho hstands
  have hold : ∃ no, db.nfts.find? o.tokenId = some no ∧ no.name = o.name := by
    rcases horders o ho with hold | hnew
    . exact h o hold hstands
    . exact hnew hstands
  obtain ⟨no, hno, hname⟩ := hold
  obtain ⟨no', hno', hname'⟩ := hnfts _ no hno
  exact ⟨no', hno', hname'.trans hname⟩

theorem NamesFit.shrink (h : db.NamesFit) (hnfts : NamesKept db.nfts db'.nfts)
    (horders : ∀ o ∈ db'.nftOrders.rows, o ∈ db.nftOrders.rows) : db'.NamesFit := by
  apply h.step hnfts
  intro o ho
  exact .inl (horders o ho)

theorem NamesFit.placeOffer {op : NftBuyOperation} (hfit : db.NamesFit)
    (h : db.placeOffer op = .ok db') : db'.NamesFit := by
  simp only [Database.placeOffer, modifyNftCollection, bind_eq_ok, ensure_eq_ok,
    adjustBalance_eq_ok, getNft_eq_ok] at h
  obtain ⟨-, -, n, -, no, hno, -, -, -, hname, -, -, nco, -, buyer, -, _, -, -, -, minusPrice,
    hneg, _, ⟨l₁, hl₁, rfl⟩, db₂, hcreate, hhold⟩ := h
  obtain ⟨os, rfl, horders⟩ := createNftOrder_eq_ok hcreate
  obtain ⟨l, rfl, -⟩ := holdPrice_eq_ok hneg hl₁ rfl hhold
  refine hfit.step (.refl _) ?_
  intro o ho
  rcases (horders.mem o).mp ho with hold | rfl
  . exact .inl hold
  . apply Or.inr
    intro _
    exact ⟨no, hno, hname⟩

/-- What an operation does to the names, unless it places an offer for a token. -/
theorem NamesFit.marketStep {op : NftOperation} (h : db.NamesFit) (hstep : MarketStep db op db')
    (hoffer : ∀ bop, op = .nftBuy bop → bop.orderId ≠ 0 → bop.tokenId ≠ 0 →
      ∀ no, db.nfts.find? bop.tokenId = some no → db.findNftOrder no.owner bop.orderId ≠ none) :
    db'.NamesFit := by
  cases hstep with
  | nftCollection | nftCollectionDelete | cancelBet => exact h.shrink (.refl _) fun _ => id
  | ignoreBuy => exact h
  | nftIssue _ _ _ hinsert => exact h.shrink (.insert hinsert) fun _ => id
  | nftTransfer _ _ _ _ hnfts => exact h.shrink (.update hnfts rfl) fun _ => id
  | placeBet _ _ _ _ _ _ _ _ _ _ hnfts => exact h.shrink (.update hnfts rfl) fun _ => id
  | stopAuction _ _ _ hnfts => exact h.shrink (.update hnfts rfl) fun _ => id
  | burn _ _ _ _ hnfts _ _ _ horders =>
    exact h.shrink (.update hnfts rfl) fun o ho => ((horders.mem o).mp ho).1
  | sellToBuyer _ _ _ _ _ _ _ _ _ hnfts _ _ horders =>
    exact h.shrink (.update hnfts rfl) fun o ho => ((horders.mem o).mp ho).1
  | buyFromSeller _ _ _ _ _ _ _ _ _ hnfts _ _ horders =>
    exact h.shrink (.update hnfts rfl) fun o ho => ((horders.mem o).mp ho).1
  | startAuction _ _ _ _ _ hnfts _ _ horders =>
    exact h.shrink (.update hnfts rfl) fun o ho => ((horders.mem o).mp ho).1
  | cancelSellOrder _ _ _ hnfts =>
    exact h.shrink (.update hnfts rfl) fun o ho => (Table.mem_erase.mp ho).1
  | cancelBuyOrder => exact h.shrink (.refl _) fun o ho => (Table.mem_erase.mp ho).1
  | placeOffer horder htoken hno hnone => exact absurd hnone (hoffer _ rfl horder htoken _ hno)
  | @placeSellOrder op no ts cs os hno _ _ _ hnfts horders =>
    refine h.step (.update hnfts rfl) ?_
    intro o ho
    rcases (horders.mem o).mp ho with hold | rfl
    . exact .inl hold
    . apply Or.inr
      intro _
      exact ⟨no, hnfts.row, rfl⟩
  | placeCollectionOffer _ _ horders =>
    refine h.step (.refl _) ?_
    intro o ho
    rcases (horders.mem o).mp ho with hold | rfl
    . exact .inl hold
    . apply Or.inr
      intro hstands
      simp at hstands

theorem NamesFit.settled {no : NftObject} (h : db.NamesFit) (hstep : Settled removed db no db') :
    db'.NamesFit := by
  cases hstep with
  | reset _ hnfts => exact h.shrink (.update hnfts rfl) fun _ => id
  | sold _ hnfts _ _ _ _ _ horders =>
    exact h.shrink (.update hnfts rfl) fun o ho => ((horders.mem o).mp ho).1

/-- The three ways of `nft_buy`. -/
theorem nftBuy_cases {op : NftBuyOperation} (h : db.nftBuy op = .ok db') :
    (op.orderId = 0 ∧ db.nftBuyByAuction op = .ok db') ∨
    (op.orderId ≠ 0 ∧ op.tokenId ≠ 0 ∧ ∃ no, db.nfts.find? op.tokenId = some no ∧
      ((db.findNftOrder no.owner op.orderId = none ∧ db.placeOffer op = .ok db') ∨
        ∃ noo, db.findNftOrder no.owner op.orderId = some noo
          ∧ db.buyFromSeller op noo = .ok db')) ∨
    (op.orderId ≠ 0 ∧ op.tokenId = 0 ∧ db.placeCollectionOffer op = .ok db') := by
  simp only [nftBuy, bind_eq_ok, ensure_eq_ok] at h
  obtain ⟨_, -, -, -, h⟩ := h
  split at h
  . next hauction => exact .inl ⟨hauction, h⟩
  . next horder =>
    split at h
    . next htoken =>
      simp only [bind_eq_ok, getNft_eq_ok, ensure_eq_ok] at h
      obtain ⟨no, hno, -, -, -, -, h⟩ := h
      refine .inr (.inl ⟨horder, htoken, no, hno, ?_⟩)
      split at h
      . next hnone => exact .inl ⟨hnone, h⟩
      . next noo hnoo => exact .inr ⟨noo, hnoo, h⟩
    . next htoken => exact .inr (.inr ⟨horder, not_not.mp htoken, h⟩)

theorem NamesFit.applyNftOperation {op : NftOperation} (hfit : db.NamesFit)
    (h : db.applyNftOperation op = .ok db') : db'.NamesFit := by
  have hstep := marketStep_of_applyNftOperation h
  cases op with
  | nftBuy op =>
    rcases nftBuy_cases h with ⟨hauction, -⟩ | ⟨-, -, no, hno, hcase⟩ | ⟨-, htoken, -⟩
    . apply hfit.marketStep hstep
      rintro _ ⟨⟩ horder
      exact absurd hauction horder
    . rcases hcase with ⟨-, hoffer⟩ | ⟨noo, hnoo, -⟩
      . exact hfit.placeOffer hoffer
      . apply hfit.marketStep hstep
        rintro _ ⟨⟩ - - no' hno' hnone
        rw [hno] at hno'
        injection hno' with hno'
        rw [← hno', hnoo] at hnone
        cases hnone
    . apply hfit.marketStep hstep
      rintro _ ⟨⟩ - hne
      exact absurd htoken hne
  | nftCollection | nftCollectionDelete | nftIssue | nftTransfer | nftSell | nftCancelOrder
  | nftAuction =>
    apply hfit.marketStep hstep
    rintro _ ⟨⟩

end namesFit

end Database
end Golos
