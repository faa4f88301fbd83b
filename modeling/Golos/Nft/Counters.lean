import Golos.Nft.Lemmas.Counters
import Golos.Nft.Coherence
import Golos.Nft.Lemmas.Money

/-!
This module contains the counters of collections and the holds of accounts: which runs keep them
equal to what the rows of the market add up to.
-/

namespace Golos
namespace Database

open Checked Ledger

/-- The counters of a collection are the numbers of its rows. -/
structure CountersFit (db : Database) (nco : NftCollectionObject) : Prop where
  tokenCount : nco.tokenCount = db.nfts.rows.countP fun no => no.name = nco.name ∧ no.burnt = false
  sellOrderCount : nco.sellOrderCount
    = db.nftOrders.rows.countP fun o => o.name = nco.name ∧ o.selling = true
  buyOrderCount : nco.buyOrderCount
    = db.nftOrders.rows.countP fun o => o.name = nco.name ∧ o.selling = false
  auctionCount : nco.auctionCount
    = db.nfts.rows.countP fun no => no.name = nco.name ∧ no.auctionExpiration ≠ 0

/-- The counter `c` of a collection can be incremented without a wrap. -/
def HasRoom (db : Database) (c : NftCounter) (name : AssetSymbolType) : Prop :=
  ∀ nco ∈ db.nftCollections.find? name, c.read nco + 1 < 2 ^ 32

/-- No token in auction and no order is left of an earlier collection of that name. -/
def NothingLeft (db : Database) (name : AssetSymbolType) : Prop :=
  (∀ o ∈ db.nftOrders.rows, o.name ≠ name) ∧
    ∀ no ∈ db.nfts.rows, no.name = name → no.auctionExpiration = 0

/-- A purchase clears orders of the collection that it reports them to. -/
def ClearsOwnOrders (db : Database) (op : NftBuyOperation) : Prop :=
  ∀ no ∈ db.nfts.find? op.tokenId, ∀ noo ∈ db.findNftOrder no.owner op.orderId,
    db.HasFunds op noo → noo.selling = true →
      ∀ o ∈ db.nftOrders.rows, o.tokenId = op.tokenId → o.name = noo.name

/--
The events that keep counters: no counter of 32 bits wraps, a new collection has no rows of an
earlier one, and a purchase clears orders of the collection of the token sold.
-/
def KeepsCounters (db : Database) : MarketEvent → Prop
  | .operation (.nftCollection op) =>
    ∀ n ∈ (nftNameFromString op.name).toOption, db.NothingLeft n
  | .operation (.nftIssue op) =>
    ∀ n ∈ (nftNameFromString op.name).toOption, db.HasRoom .tokenCount n
  | .operation (.nftSell op) => op.buyer = "" →
    ∀ no ∈ db.nfts.find? op.tokenId, db.HasRoom .sellOrderCount no.name
  | .operation (.nftBuy op) => op.orderId ≠ 0 →
    (∀ n ∈ (nftNameFromString op.name).toOption, db.HasRoom .buyOrderCount n) ∧
      (op.tokenId ≠ 0 → db.ClearsOwnOrders op)
  | .operation (.nftAuction op) => op.expiration ≠ 0 → op.minPrice.amount ≠ 0 →
    ∀ no ∈ db.nfts.find? op.tokenId, db.HasRoom .auctionCount no.name
  | _ => True

instance (db : Database) (c : NftCounter) (name : AssetSymbolType) :
    Decidable (db.HasRoom c name) :=
  inferInstanceAs (Decidable (∀ nco ∈ db.nftCollections.find? name, c.read nco + 1 < 2 ^ 32))

instance (db : Database) (name : AssetSymbolType) : Decidable (db.NothingLeft name) :=
  inferInstanceAs (Decidable (_ ∧ _))

instance (db : Database) (op : NftBuyOperation) : Decidable (db.ClearsOwnOrders op) :=
  inferInstanceAs (Decidable (∀ no ∈ db.nfts.find? op.tokenId,
    ∀ noo ∈ db.findNftOrder no.owner op.orderId,
      db.HasFunds op noo → noo.selling = true →
        ∀ o ∈ db.nftOrders.rows, o.tokenId = op.tokenId → o.name = noo.name))

-- The instance for the names is given by hand: they are 64 bit numbers, hence a finite type.
instance : (db : Database) → (e : MarketEvent) → Decidable (KeepsCounters db e)
  | _, .operation (.nftCollection op) =>
    Option.decidableForallMem (nftNameFromString op.name).toOption
  | _, .operation (.nftIssue op) =>
    Option.decidableForallMem (nftNameFromString op.name).toOption
  | db, .operation (.nftSell op) =>
    inferInstanceAs (Decidable (op.buyer = "" → ∀ no ∈ db.nfts.find? op.tokenId,
      db.HasRoom .sellOrderCount no.name))
  | db, .operation (.nftBuy op) =>
    let _room : Decidable (∀ n ∈ (nftNameFromString op.name).toOption,
        db.HasRoom .buyOrderCount n) :=
      Option.decidableForallMem (nftNameFromString op.name).toOption
    inferInstanceAs (Decidable (op.orderId ≠ 0 → _ ∧ (op.tokenId ≠ 0 → db.ClearsOwnOrders op)))
  | db, .operation (.nftAuction op) =>
    inferInstanceAs (Decidable (op.expiration ≠ 0 → op.minPrice.amount ≠ 0 →
      ∀ no ∈ db.nfts.find? op.tokenId, db.HasRoom .auctionCount no.name))
  | _, .operation (.nftCollectionDelete _) => .isTrue trivial
  | _, .operation (.nftTransfer _) => .isTrue trivial
  | _, .operation (.nftCancelOrder _) => .isTrue trivial
  | _, .endOfBlock _ _ => .isTrue trivial
  | _, .other => .isTrue trivial

/-- The invariant behind `CountersFit`. -/
structure Tallied (db : Database) : Prop where
  counter : ∀ c name nco, db.nftCollections.find? name = some nco →
    (NftCounter.read c nco : ℤ) = db.counted c name
  bound : ∀ c name nco, db.nftCollections.find? name = some nco → NftCounter.read c nco < 2 ^ 32
  missing : ∀ name, db.nftCollections.find? name = none → db.counted .tokenCount name = 0
  namesFit : db.NamesFit

section counted

variable {removed : Removed} {db db' : Database}

theorem counted_eq_countP_nfts (db : Database) {c : NftCounter} {name : AssetSymbolType}
    (p : NftObject → Prop) [DecidablePred p] (hnft : ∀ no, c.ofNft no = if p no then 1 else 0)
    (horder : ∀ o, c.ofOrder o = 0) :
    db.counted c name = db.nfts.rows.countP fun no => no.name = name ∧ p no := by
  unfold counted
  rw [← Table.sum_eq_countP]
  simp only [horder, ite_self, hnft, ite_and]
  simp [Table.sum]

theorem counted_eq_countP_nftOrders (db : Database) {c : NftCounter} {name : AssetSymbolType}
    (p : NftOrderObject → Prop) [DecidablePred p]
    (horder : ∀ o, c.ofOrder o = if p o then 1 else 0) (hnft : ∀ no, c.ofNft no = 0) :
    db.counted c name = db.nftOrders.rows.countP fun o => o.name = name ∧ p o := by
  unfold counted
  rw [← Table.sum_eq_countP]
  simp only [horder, ite_self, hnft, ite_and]
  simp [Table.sum]

theorem Tallied.countersFit {nco : NftCollectionObject} (h : db.Tallied)
    (hnco : nco ∈ db.nftCollections.rows) : db.CountersFit nco := by
  have hcounter := fun c => h.counter c nco.name nco (Table.find?_of_mem hnco)
  constructor
  . have := hcounter .tokenCount
    rw [db.counted_eq_countP_nfts (fun no => no.burnt = false)] at this
    . exact Int.ofNat_inj.mp this
    . intro no
      cases hburnt : no.burnt <;> simp [NftCounter.ofNft, hburnt]
    . intro o
      rfl
  . have := hcounter .sellOrderCount
    rw [db.counted_eq_countP_nftOrders (fun o => o.selling = true)] at this
    . exact Int.ofNat_inj.mp this
    . intro o
      rfl
    . intro no
      rfl
  . have := hcounter .buyOrderCount
    rw [db.counted_eq_countP_nftOrders (fun o => o.selling = false)] at this
    . exact Int.ofNat_inj.mp this
    . intro o
      cases hselling : o.selling <;> simp [NftCounter.ofOrder, hselling]
    . intro no
      rfl
  . have := hcounter .auctionCount
    rw [db.counted_eq_countP_nfts (fun no => no.auctionExpiration ≠ 0)] at this
    . exact Int.ofNat_inj.mp this
    . intro no
      simp [NftCounter.ofNft]
    . intro o
      rfl

/-- A counter of a collection of which nothing is left starts at 0. -/
theorem NothingLeft.counted_eq_zero {name : AssetSymbolType} (h : db.NothingLeft name)
    (htoken : db.counted .tokenCount name = 0) (c : NftCounter) : db.counted c name = 0 := by
  have hnfts : ∀ c : NftCounter, c ≠ .tokenCount →
      db.nfts.sum (fun no => if no.name = name then c.ofNft no else 0) = 0 := by
    intro c hc
    rw [db.nfts.sum_congr (g := fun _ => 0)]
    . simp [Table.sum]
    . intro no hno
      split
      . next hname =>
        cases c <;> simp_all [NftCounter.ofNft, h.2 no hno hname]
      . rfl
  have horders : db.nftOrders.sum (fun o => if o.name = name then c.ofOrder o else 0) = 0 := by
    rw [db.nftOrders.sum_congr (g := fun _ => 0)]
    . simp [Table.sum]
    . intro o ho
      exact if_neg (h.1 o ho)
  by_cases hc : c = .tokenCount
  . exact hc ▸ htoken
  . unfold counted
    rw [hnfts c hc, horders, add_zero]

end counted

section step

variable {removed : Removed} {db db' : Database}

/-- Steps that change no collection and no row that is counted. -/
theorem Tallied.congr (h : db.Tallied)
    (hcs : ∀ n, db'.nftCollections.find? n = db.nftCollections.find? n)
    (hcounted : ∀ c n, db'.counted c n = db.counted c n) (hfit : db'.NamesFit) : db'.Tallied where
  counter := by
    intro c n nco hnco
    rw [hcs] at hnco
    rw [hcounted]
    exact h.counter c n nco hnco
  bound := by
    intro c n nco hnco
    rw [hcs] at hnco
    exact h.bound c n nco hnco
  missing := by
    intro n hn
    rw [hcs] at hn
    rw [hcounted]
    exact h.missing n hn
  namesFit := hfit

/-- Steps that tell one collection what has changed, without a wrap. -/
theorem Tallied.tallies {n : AssetSymbolType} {d : NftCounter → ℤ} (h : db.Tallied)
    (htallies : Tallies db db' n d)
    (hroom : ∀ c nco, db.nftCollections.find? n = some nco → 0 < d c →
      (NftCounter.read c nco : ℤ) + d c < 2 ^ 32) (hfit : db'.NamesFit) : db'.Tallied := by
  obtain ⟨nco, nco', hnco, hnco', hcounts⟩ := htallies.own
  refine ⟨?_, ?_, ?_, hfit⟩
  . intro c m nco₁ hnco₁
    rw [htallies.counted]
    by_cases hm : m = n
    . subst hm
      rw [hnco'] at hnco₁
      injection hnco₁ with hnco₁
      subst hnco₁
      have hold := h.counter c m nco hnco
      have hbound := h.bound c m nco hnco
      -- The sum of indicators after the step is not negative, so the counter has not wrapped.
      have hnonneg := counted_nonneg db' c m
      rw [htallies.counted, if_pos rfl] at hnonneg
      have hlt : (NftCounter.read c nco : ℤ) + d c < 2 ^ 32 := by
        by_cases hd : 0 < d c
        . exact hroom c nco hnco hd
        . omega
      rw [if_pos rfl, ← hold]
      exact (hcounts c).eq_add hbound (by omega) hlt
    . rw [htallies.others m hm] at hnco₁
      rw [if_neg hm, add_zero]
      exact h.counter c m nco₁ hnco₁
  . intro c m nco₁ hnco₁
    by_cases hm : m = n
    . subst hm
      rw [hnco'] at hnco₁
      injection hnco₁ with hnco₁
      exact hnco₁ ▸ (hcounts c).lt (h.bound c m nco hnco)
    . rw [htallies.others m hm] at hnco₁
      exact h.bound c m nco₁ hnco₁
  . intro m hm
    have hne : m ≠ n := by
      intro heq
      rw [heq, hnco'] at hm
      cases hm
    rw [htallies.others m hne] at hm
    rw [htallies.counted, if_neg hne, add_zero]
    exact h.missing m hm

theorem Tallied.less {no no' : NftObject} {l : List NftOrderObject} (h : db.Tallied)
    (htallies : Tallies db db' no.name (cleared no no' l))
    (hle : ∀ c : NftCounter, c.ofNft no' ≤ c.ofNft no) (hfit : db'.NamesFit) : db'.Tallied := by
  apply h.tallies htallies _ hfit
  intro c nco _ hpos
  have := hle c
  have := c.ofOrders_nonneg l
  unfold cleared at hpos
  omega

theorem Tallied.more {n : AssetSymbolType} {c : NftCounter} (h : db.Tallied)
    (htallies : Tallies db db' n (oneMore c)) (hroom : db.HasRoom c n) (hfit : db'.NamesFit) :
    db'.Tallied := by
  apply h.tallies htallies _ hfit
  intro c' nco hnco hpos
  unfold oneMore at hpos ⊢
  split
  . next heq =>
    have := hroom nco hnco
    rw [heq]
    omega
  . next hne =>
    rw [if_neg hne] at hpos
    omega

theorem Tallied.untold (h : db.Tallied) (huntold : Untold db db') (hfit : db'.NamesFit) :
    db'.Tallied := by
  apply h.congr _ huntold.counted hfit
  intro n
  rw [huntold.nftCollections]

/-- A new collection, of whose name nothing is left. -/
theorem Tallied.nftCollection {op : NftCollectionOperation} (h : db.Tallied)
    (hok : KeepsCounters db (.operation (.nftCollection op)))
    (hstep : db.nftCollection op = .ok db') (hfit : db'.NamesFit) : db'.Tallied := by
  simp only [Database.nftCollection, bind_eq_ok, ensure_eq_ok, get_eq_ok, pure_eq_ok] at hstep
  obtain ⟨n, hn, -, hnone, -, -, -, -, cs, hcs, rfl⟩ := hstep
  have hzero := NothingLeft.counted_eq_zero (hok n (by simp [hn, Except.toOption]))
    (h.missing n hnone)
  have hinsert := Table.Inserts.emplace hcs
  refine ⟨?_, ?_, ?_, hfit⟩
  . intro c m nco hnco
    show (NftCounter.read c nco : ℤ) = db.counted c m
    rcases hinsert.find?_eq_some_iff.mp hnco with hold | ⟨rfl, rfl⟩
    . exact h.counter c m nco hold
    . rw [hzero]
      cases c <;> rfl
  . intro c m nco hnco
    rcases hinsert.find?_eq_some_iff.mp hnco with hold | ⟨rfl, rfl⟩
    . exact h.bound c m nco hold
    . cases c <;> simp [NftCounter.read]
  . intro m hm
    apply h.missing
    rw [Table.find?_eq_none_iff] at hm ⊢
    intro nco hnco
    exact hm nco ((hinsert.mem nco).mpr (.inl hnco))

theorem Tallied.nftCollectionDelete {op : NftCollectionDeleteOperation} (h : db.Tallied)
    (hstep : db.nftCollectionDelete op = .ok db') (hfit : db'.NamesFit) : db'.Tallied := by
  simp only [Database.nftCollectionDelete, bind_eq_ok, ensure_eq_ok, getNftCollection_eq_ok,
    pure_eq_ok] at hstep
  obtain ⟨n, -, nco, hnco, -, hempty, rfl⟩ := hstep
  have hname := Table.key_of_find? hnco
  subst hname
  have hold : ∀ {m nco'}, (db.nftCollections.erase nco.name).find? m = some nco' →
      db.nftCollections.find? m = some nco' := by
    intro m nco' hm
    obtain ⟨hmem, hkey⟩ := Table.find?_eq_some_iff.mp hm
    exact Table.find?_eq_some_iff.mpr ⟨(Table.mem_erase.mp hmem).1, hkey⟩
  refine ⟨?_, ?_, ?_, hfit⟩
  . intro c m nco' hm
    exact h.counter c m nco' (hold hm)
  . intro c m nco' hm
    exact h.bound c m nco' (hold hm)
  . intro m hm
    show db.counted .tokenCount m = 0
    by_cases heq : m = nco.name
    . subst heq
      rw [← h.counter .tokenCount nco.name nco hnco]
      exact congrArg Nat.cast hempty
    . rw [Table.find?_erase_of_ne _ heq] at hm
      exact h.missing m hm

theorem Tallied.nftBuy {op : NftBuyOperation} (h : db.Tallied)
    (hok : KeepsCounters db (.operation (.nftBuy op))) (hstep : db.nftBuy op = .ok db')
    (hfit : db'.NamesFit) : db'.Tallied := by
  rcases nftBuy_cases hstep with ⟨-, hbuy⟩ | ⟨horder, htoken, no, hno, hcase⟩
    | ⟨horder, -, hbuy⟩
  . exact h.untold (untold_nftBuyByAuction hbuy) hfit
  . obtain ⟨hroom, hown⟩ := hok horder
    rcases hcase with ⟨-, hbuy⟩ | ⟨noo, hnoo, hbuy⟩
    . obtain ⟨n, hn, htallies⟩ := tallies_placeOffer hbuy
      exact h.more htallies (hroom n (by simp [hn, Except.toOption])) hfit
    . have hbuy := tallies_buyFromSeller (fun hselling hbalance no' hno' o ho => ?_) hbuy
      . rcases hbuy with rfl | ⟨no', _, l, htallies, hsame⟩
        . exact h
        . exact h.less htallies (fun c => (hsame c).le) hfit
      . -- The cleared orders are of the collection of the order, which is that of its token.
        obtain ⟨-, hmem, htokenId, -⟩ := mem_clearedNftOrders.mp ho
        obtain ⟨no'', hno'', hname⟩ :=
          h.namesFit noo (Table.mem_of_find? hnoo) (.inl hselling)
        rw [hno'] at hno''
        injection hno'' with hno''
        rw [hown htoken no hno noo hnoo (fun _ => hbalance) hselling o hmem htokenId, hno'', hname]
  . obtain ⟨n, hn, htallies⟩ := tallies_placeCollectionOffer hbuy
    exact h.more htallies ((hok horder).1 n (by simp [hn, Except.toOption])) hfit

theorem Tallied.applyNftOperation {op : NftOperation} (h : db.Tallied)
    (hok : KeepsCounters db (.operation op)) (hstep : db.applyNftOperation op = .ok db') :
    db'.Tallied := by
  have hfit := h.namesFit.applyNftOperation hstep
  cases op with
  | nftCollection op => exact h.nftCollection hok hstep hfit
  | nftCollectionDelete op => exact h.nftCollectionDelete hstep hfit
  | nftIssue op =>
    obtain ⟨n, hn, htallies⟩ := tallies_nftIssue hstep
    exact h.more htallies (hok n (by simp [hn, Except.toOption])) hfit
  | nftTransfer op =>
    rcases tallies_nftTransfer h.namesFit hstep with huntold | ⟨no, no', l, htallies, hle⟩
    . exact h.untold huntold hfit
    . exact h.less htallies hle hfit
  | nftSell op =>
    rcases tallies_nftSell h.namesFit hstep with ⟨hbuyer, no, hno, htallies⟩
      | ⟨no, no', l, htallies, hsame⟩
    . exact h.more htallies (hok hbuyer no hno) hfit
    . exact h.less htallies (fun c => (hsame c).le) hfit
  | nftBuy op => exact h.nftBuy hok hstep hfit
  | nftCancelOrder op =>
    obtain ⟨noo, htallies⟩ := tallies_nftCancelOrder hstep
    apply h.tallies htallies _ hfit
    intro c nco _ hpos
    have := c.ofOrder_nonneg noo
    omega
  | nftAuction op =>
    obtain ⟨no, no', l, hno, htallies, hle⟩ := tallies_nftAuction h.namesFit hstep
    apply h.tallies htallies _ hfit
    intro c nco hnco hpos
    have horders := c.ofOrders_nonneg l
    unfold cleared at hpos ⊢
    rcases hle c with hle | ⟨rfl, hexpiration, hamount⟩
    . omega
    . have := hok hexpiration hamount no hno nco hnco
      have := NftCounter.ofNft_le_one .auctionCount no'
      have := NftCounter.ofNft_nonneg .auctionCount no
      omega

/-- A turn of the loop of `process_nft_bets` leaves the other tokens alone. -/
theorem find?_of_settled {no : NftObject} (h : Settled removed db no db') {tokenId : Nat}
    (hne : tokenId ≠ no.tokenId) : db'.nfts.find? tokenId = db.nfts.find? tokenId := by
  cases h with
  | reset _ hnfts => rw [hnfts.find?, if_neg hne]
  | sold _ hnfts => rw [hnfts.find?, if_neg hne]

theorem Tallied.processNftBets {queue : List Nat} (h : db.Tallied) (hnodup : queue.Nodup)
    (hrunning : ∀ tokenId ∈ queue, ∀ no, db.nfts.find? tokenId = some no →
      no.auctionExpiration ≠ 0)
    (hprocess : processNftBets removed db queue = .ok db') : db'.Tallied := by
  induction queue generalizing db with
  | nil =>
    simp only [Database.processNftBets, pure_eq_ok] at hprocess
    exact hprocess ▸ h
  | cons tokenId queue ih =>
    simp only [Database.processNftBets, bind_eq_ok] at hprocess
    obtain ⟨db₁, hfirst, hrest⟩ := hprocess
    obtain ⟨hnew, hnodup⟩ := List.nodup_cons.mp hnodup
    obtain ⟨no, hno, hsettled⟩ := processNftBet_eq_ok hfirst
    obtain ⟨no', l, htallies, hle⟩ := tallies_processNftBet h.namesFit hno
      (hrunning tokenId List.mem_cons_self no hno) hfirst
    apply ih (h.less htallies hle (h.namesFit.settled hsettled)) hnodup _ hrest
    intro u hu no₁ hno₁
    have hne : u ≠ no.tokenId := by
      intro heq
      rw [heq, Table.key_of_find? hno] at hu
      exact hnew hu
    rw [find?_of_settled hsettled hne] at hno₁
    exact hrunning u (List.mem_cons_of_mem _ hu) no₁ hno₁

theorem NoMarket.tallied (h : db.NoMarket) : db.Tallied := by
  constructor
  . simp [h.nftCollections]
  . simp [h.nftCollections]
  . intro name _
    simp [counted, h.nfts, h.nftOrders]
  . intro o ho
    simp [h.nftOrders] at ho

theorem Tallied.step {e : MarketEvent} (h : db.Tallied) (hok : KeepsCounters db e)
    (hstep : db.Step e db') : db'.Tallied := by
  cases e with
  | operation op => exact h.applyNftOperation hok hstep
  | endOfBlock removed queue =>
    obtain ⟨hqueue, hprocess⟩ := hstep
    apply h.processNftBets hqueue.nodup _ hprocess
    intro tokenId htokenId no hno
    obtain ⟨no', hno', hexpired⟩ := (hqueue.mem tokenId).mp htokenId
    rw [hno] at hno'
    injection hno' with hno'
    rw [hno']
    exact hexpired.1.ne'
  | other =>
    have hstep : db.Elsewhere db' := hstep
    apply h.untold ⟨hstep.nftCollections, counted_congr hstep.nfts hstep.nftOrders⟩
    apply h.namesFit.shrink
    . rw [hstep.nfts]
      exact .refl _
    . rw [hstep.nftOrders]
      exact fun _ => id

end step

section holds

variable {removed : Removed} {db db' : Database}

/-- Holds are what orders and bets keep. -/
def HoldsFit (db : Database) : Prop :=
  ∀ name, db.ledger.nftHold name = db.lockedBy name

theorem HoldsFit.moves {f : AccountName → AssetSymbolType → ℤ} {h : AccountName → ℤ}
    {t : AssetSymbolType → ℤ} (hfit : db.HoldsFit) (hmoves : Moves db.ledger db'.ledger f h t)
    (hlocked : ∀ name, db'.lockedBy name = db.lockedBy name + h name) : db'.HoldsFit := by
  intro name
  rw [hmoves.hold, hfit, hlocked]

theorem HoldsFit.congr (hfit : db.HoldsFit)
    (hhold : ∀ name, db'.ledger.nftHold name = db.ledger.nftHold name)
    (horders : db'.nftOrders = db.nftOrders) (hbets : db'.nftBets = db.nftBets) :
    db'.HoldsFit := by
  intro name
  rw [hhold, hfit]
  unfold lockedBy
  rw [horders, hbets]

theorem nftHold_of_costRefund {l l' : Ledger} {name : AccountName} (h : CostRefund l name l')
    (a : AccountName) : l'.nftHold a = l.nftHold a := by
  cases h with
  | nothing => rfl
  | fromWorkers _ _ hpay => rw [hpay.hold, add_zero]
  | minted _ hsupply hpay =>
    simp only [adjustSbdSupply, bind_eq_ok, pure_eq_ok] at hsupply
    obtain ⟨_, -, _, -, _, -, rfl⟩ := hsupply
    rw [hpay.hold, add_zero]
    rfl

theorem HoldsFit.insertOrder {o : NftOrderObject} (hfit : db.HoldsFit)
    (hhold : ∀ name, db'.ledger.nftHold name = db.ledger.nftHold name
      + if o.holds then single o.owner o.price name steemSymbol else 0)
    (horders : db.nftOrders.Inserts db'.nftOrders o) (hbets : db'.nftBets = db.nftBets) :
    db'.HoldsFit := by
  intro name
  rw [lockedBy_of_insertOrder horders hbets, hhold, hfit]

/-- Clearing orders releases what they hold. -/
theorem HoldsFit.clearOrders {l : List NftOrderObject} {proceedOrder : Option NftOrderObject}
    (hfit : db.HoldsFit) (horders : db.nftOrders.Removes db'.nftOrders l)
    (hbets : db'.nftBets = db.nftBets)
    (hclear : OrderMoves db.ledger db'.ledger proceedOrder l) : db'.HoldsFit := by
  apply hfit.moves hclear
  intro name
  rw [lockedBy_of_removes (m := []) horders (hbets ▸ .nil _) rfl rfl, List.map_nil, heldBy_nil]
  omega

theorem HoldsFit.clearBets {m : List NftBetObject} {proceedBet : ProceedBet}
    (hfit : db.HoldsFit) (horders : db'.nftOrders = db.nftOrders)
    (hbets : db.nftBets.Removes db'.nftBets m)
    (hclear : BetMoves db.ledger db'.ledger proceedBet m) : db'.HoldsFit := by
  apply hfit.moves hclear
  intro name
  rw [lockedBy_of_removes (l := []) (horders ▸ .nil _) hbets rfl rfl, heldPayments_nil, heldBy_nil]
  omega

theorem HoldsFit.marketStep {op : NftOperation} (h : db.HoldsFit) (hwf : db.WellFormed)
    (hstep : MarketStep db op db') : db'.HoldsFit := by
  cases hstep with
  | nftCollection | nftCollectionDelete | nftTransfer => exact h.congr (fun _ => rfl) rfl rfl
  | ignoreBuy => exact h
  | nftIssue _ _ _ _ _ _ _ _ hpay =>
    refine h.congr ?_ rfl rfl
    intro name
    rw [hpay.hold, add_zero]
  | @burn op no k l₁ l ts cs os _ _ _ _ _ _ _ hrefund horders hclear =>
    have hrefunded : HoldsFit { db with ledger := l₁ } :=
      h.congr (nftHold_of_costRefund hrefund) rfl rfl
    exact hrefunded.clearOrders horders rfl hclear
  | placeSellOrder _ _ _ _ _ horders =>
    exact h.insertOrder (fun _ => (add_zero _).symm) horders rfl
  | placeCollectionOffer _ _ horders =>
    exact h.insertOrder (fun _ => (add_zero _).symm) horders rfl
  | cancelBet _ _ hbet hpay =>
    exact h.clearBets rfl (.erase (Table.mem_of_find? hbet)) hpay
  | placeBet _ _ _ _ _ _ _ _ _ _ _ hbets hpay =>
    apply h.moves hpay
    intro name
    unfold lockedBy
    dsimp only
    rw [hbets.sum]
    dsimp only
    omega
  | placeOffer _ _ _ _ _ _ _ _ _ horders _ hpay =>
    refine h.insertOrder ?_ horders rfl
    exact hpay.hold
  | cancelSellOrder hnoo _ _ _ _ hclear | cancelBuyOrder hnoo _ _ hclear =>
    exact h.clearOrders (.erase (Table.mem_of_find? hnoo)) rfl hclear
  | stopAuction _ _ _ _ _ hbets hclear => exact h.clearBets rfl hbets hclear
  | startAuction _ _ _ _ _ _ _ _ horders hclear => exact h.clearOrders horders rfl hclear
  | @sellToBuyer op no noo l₁ l ts cs os _ _ _ _ hnoo _ htoken _ _ _ _ hpay horders hclear =>
    have hextra := heldPayments_clearedExtra hwf (Table.mem_of_find? hnoo)
      (fun hne => (htoken hne).1)
    intro name
    have hhold := (hpay.trans hclear).hold name
    have hfit := h name
    unfold lockedBy at hfit ⊢
    dsimp only at hfit ⊢
    rw [horders.sum, sum_lockedBy_orders, heldPayments_append, hextra, List.append_nil]
    omega
  | @buyFromSeller op opNo no noo l₁ l ts cs os _ _ _ _ _ _ _ _ _ _ _ hpay horders hclear =>
    have hpaid : HoldsFit { db with ledger := l₁ } := by
      refine h.congr ?_ rfl rfl
      intro name
      rw [hpay.hold, add_zero]
    exact hpaid.clearOrders horders rfl hclear

theorem HoldsFit.settled {no : NftObject} (h : db.HoldsFit) (hstep : Settled removed db no db') :
    db'.HoldsFit := by
  cases hstep with
  | reset => exact h.congr (fun _ => rfl) rfl rfl
  | @sold bet l₁ l₂ l ts cs os bs _ _ _ _ hpay hbets hrefund horders hclear =>
    have hpaid : HoldsFit { db with ledger := l₁ } := by
      refine h.congr ?_ rfl rfl
      intro name
      rw [hpay.hold, add_zero]
    have hrefunded : HoldsFit { db with ledger := l₂, nftBets := bs } :=
      hpaid.clearBets rfl hbets hrefund
    exact hrefunded.clearOrders horders rfl hclear

theorem HoldsFit.step {e : MarketEvent} (h : db.HoldsFit) (hwf : db.WellFormed)
    (hstep : db.Step e db') : db'.HoldsFit := by
  cases e with
  | operation op => exact h.marketStep hwf (marketStep_of_applyNftOperation hstep)
  | endOfBlock removed queue =>
    exact processNftBets_invariant (fun _ _ _ h hsettled => h.settled hsettled) h hstep.2
  | other =>
    have hstep : db.Elsewhere db' := hstep
    exact h.congr hstep.hold hstep.nftOrders hstep.nftBets

theorem NoMarket.holdsFit (h : db.NoMarket) : db.HoldsFit := by
  intro name
  rw [h.hold]
  simp [lockedBy, h.nftOrders, h.nftBets]

end holds

/-- In every run the holds are those of orders and bets. -/
theorem holdsFit_of_reachable {db : Database} (h : market.Reachable db) : db.HoldsFit := by
  apply h.invariant_of (fun _ => wellFormed_of_reachable)
  . intro db hdb
    exact NoMarket.holdsFit hdb
  . intro db e db' hwf hdb _ hstep
    exact hdb.step hwf hstep

/--
In every run whose events keep counters, the counters of every collection are the numbers of its
rows, and the holds are those of orders and bets.
-/
theorem counters_of_reach {db : Database} (h : market.Reach KeepsCounters db) :
    (∀ nco ∈ db.nftCollections.rows, db.CountersFit nco) ∧
      ∀ name, db.ledger.nftHold name = db.lockedBy name := by
  refine ⟨?_, holdsFit_of_reachable h.reachable⟩
  have htallied : db.Tallied := by
    apply h.invariant
    . intro db hdb
      exact NoMarket.tallied hdb
    . intro db e db' hdb hok hstep
      exact hdb.step hok hstep
  intro nco hnco
  exact htallied.countersFit hnco

/-- A sale, an offer that an auction clears, a bet, and an order for any token of the collection. -/
def trade : List NftOperation :=
  [
    .nftCollection { creator := "alice", name := "COOLGAME" },
    .nftIssue { creator := "alice", name := "COOLGAME", toAccount := "alice" },
    .nftIssue { creator := "alice", name := "COOLGAME", toAccount := "alice" },
    .nftSell { seller := "alice", tokenId := 1, orderId := 5, price := ⟨1000, steemSymbol⟩ },
    .nftBuy { buyer := "bob", name := "", tokenId := 1, orderId := 5, price := ⟨1000, steemSymbol⟩ },
    .nftBuy
      { buyer := "bob", name := "COOLGAME", tokenId := 2, orderId := 6, price := ⟨500, steemSymbol⟩ },
    .nftAuction
      { owner := "alice", tokenId := 2, minPrice := ⟨1000, steemSymbol⟩, expiration := 1700003600 },
    .nftBuy { buyer := "carol", name := "", tokenId := 2, orderId := 0, price := ⟨2000, steemSymbol⟩ },
    .nftBuy
      { buyer := "bob", name := "COOLGAME", tokenId := 0, orderId := 7, price := ⟨500, steemSymbol⟩ }
  ]

def traded : Database :=
  (trade.foldlM applyNftOperation firstMarket).toOption.getD firstMarket

theorem counters_of_reach_traded :
    (∀ nco ∈ traded.nftCollections.rows, traded.CountersFit nco) ∧
      ∀ name, traded.ledger.nftHold name = traded.lockedBy name :=
  counters_of_reach (reach_of_operations (.initial noMarket_firstMarket) (by decide +kernel)
    (eq_ok_of_isSome (by decide +kernel)))

/-- Bob's order for any token outlives the collection, and is cancelled in a new one of that name. -/
def recreateCollection : List NftOperation :=
  [
    .nftCollection { creator := "alice", name := "COOLGAME" },
    .nftBuy
      { buyer := "bob", name := "COOLGAME", tokenId := 0, orderId := 1, price := ⟨500, steemSymbol⟩ },
    .nftCollectionDelete { creator := "alice", name := "COOLGAME" },
    .nftCollection { creator := "alice", name := "COOLGAME" },
    .nftCancelOrder { owner := "bob", orderId := 1 }
  ]

def recreated : Database :=
  (recreateCollection.foldlM applyNftOperation firstMarket).toOption.getD firstMarket

/-- The new collection has no orders, and its counter of buying orders has wrapped below 0. -/
theorem buyOrderCount_wraps_below_zero :
    market.Reachable recreated ∧
      (∃ nco ∈ recreated.nftCollections.rows, nco.buyOrderCount = 2 ^ 32 - 1) ∧
      ¬∀ nco ∈ recreated.nftCollections.rows, recreated.CountersFit nco := by
  have hwraps : ∃ nco ∈ recreated.nftCollections.rows, nco.buyOrderCount = 2 ^ 32 - 1 := by
    decide +kernel
  refine ⟨?_, hwraps, ?_⟩
  . exact reachable_of_operations reachable_firstMarket (eq_ok_of_isSome (by decide +kernel))
  . intro h
    obtain ⟨nco, hnco, hcount⟩ := hwraps
    have hfit := (h nco hnco).buyOrderCount
    have hnone : recreated.nftOrders.rows = [] := by
      apply List.eq_nil_of_length_eq_zero
      decide +kernel
    rw [hcount, hnone] at hfit
    cases hfit

end Database
end Golos
