import Golos.Nft.Lemmas.Progress

/-!
This module contains the exact condition under which `process_nft_bets` settles auctions from the bets
of their own tokens.
-/

namespace Golos
namespace Database

open Checked Ledger

/-- Tokens belong to accounts. -/
def Owned (db : Database) : Prop :=
  ∀ tokenId no, db.nfts.find? tokenId = some no → (db.ledger.accounts.find? no.owner).isSome

/-- All that lets the prices of bets be paid. -/
structure Payable (db : Database) : Prop where
  wellFormed : db.WellFormed
  money : db.MoneyInv
  owned : db.Owned

/--
What the settlement of a queue needs, told the tokens settled before: bets of their own to look at,
removed winners that are not taken for another bet, and collections that still exist.
-/
structure SettlesRight (removed : Removed) (db : Database) (settled queue : List Nat) : Prop where
  own : OwnBetsOnly db settled queue
  read : ∀ tokenId ∈ queue, ∀ b ∈ (db.nftBetsOf tokenId).tail, removed b ≠ b.byTokenOwner
  collection : ∀ tokenId ∈ queue, ∀ no ∈ db.nfts.find? tokenId,
    (tokenCounts db.nftCollections no.name).isSome

/-- The block ends settle their auctions right. -/
def SettlesAuctions (db : Database) : MarketEvent → Prop
  | .endOfBlock removed queue => SettlesRight removed db [] queue
  | _ => True

section owned

variable {removed : Removed} {db db' : Database}

theorem Owned.congr (h : db.Owned) (hnfts : db'.nfts = db.nfts)
    (hl : Persists db.ledger db'.ledger) : db'.Owned := by
  intro tokenId no hno
  rw [hnfts] at hno
  exact hl.account _ (h tokenId no hno)

theorem Owned.update {no no' : NftObject} (h : db.Owned)
    (hnfts : db.nfts.Updates db'.nfts no no') (hl : Persists db.ledger db'.ledger)
    (howner : (db'.ledger.accounts.find? no'.owner).isSome) : db'.Owned := by
  intro tokenId no₁ hno₁
  rw [hnfts.find?] at hno₁
  split at hno₁
  . injection hno₁ with hno₁
    exact hno₁ ▸ howner
  . exact hl.account _ (h tokenId no₁ hno₁)

theorem Owned.updateOther {no no' : NftObject} (h : db.Owned)
    (hnfts : db.nfts.Updates db'.nfts no no') (hl : Persists db.ledger db'.ledger)
    (howner : no'.owner = no.owner) : db'.Owned := by
  apply h.update hnfts hl
  rw [howner]
  exact hl.account _ (h no.tokenId no hnfts.row)

theorem Owned.marketStep {op : NftOperation} (h : db.Owned) (hwf : db.WellFormed)
    (hstep : MarketStep db op db') : db'.Owned := by
  have hl := persists_of_marketStep hstep
  cases hstep with
  | nftCollection | nftCollectionDelete | cancelBet | ignoreBuy | placeOffer
  | placeCollectionOffer | cancelBuyOrder => exact h.congr rfl hl
  | nftIssue howner _ _ hinsert =>
    intro tokenId no₁ hno₁
    rcases hinsert.find?_eq_some_iff.mp hno₁ with hold | ⟨rfl, -⟩
    . exact hl.account _ (h tokenId no₁ hold)
    . exact hl.account _ howner
  | nftTransfer _ _ _ hto hnfts => exact h.update hnfts hl hto
  | sellToBuyer _ _ _ _ hnoo hbuying _ hbuyer _ hnfts =>
    refine h.update hnfts hl (hl.account _ ?_)
    -- The buyer has an account: it was looked up, or it held money when the offer was placed.
    have hkey := Table.key_of_find? hnoo
    have hok := hwf.order _ (Table.mem_of_find? hnoo)
    simp only [NftOrderObject.byOwnerOrderId, Prod.mk.injEq] at hkey
    rcases hbuyer with hbuyer | hbuyer
    . rw [← hkey.1] at hbuyer
      exact hbuyer
    . exact hok.owner (hok.oneToken hbuying hbuyer)
  | buyFromSeller _ _ _ _ _ _ _ hbuyer _ hnfts => exact h.update hnfts hl (hl.account _ hbuyer)
  | burn _ _ _ _ hnfts => exact h.updateOther hnfts hl rfl
  | placeSellOrder _ _ _ _ hnfts => exact h.updateOther hnfts hl rfl
  | placeBet _ _ _ _ _ _ _ _ _ _ hnfts => exact h.updateOther hnfts hl rfl
  | cancelSellOrder _ _ _ hnfts => exact h.updateOther hnfts hl rfl
  | stopAuction _ _ _ hnfts => exact h.updateOther hnfts hl rfl
  | startAuction _ _ _ _ _ hnfts => exact h.updateOther hnfts hl rfl

theorem Owned.settled {no : NftObject} (h : db.Owned) (hwf : db.WellFormed)
    (hstep : Settled removed db no db') : db'.Owned := by
  have hl := persists_of_settled hstep
  cases hstep with
  | reset _ hnfts => exact h.updateOther hnfts hl rfl
  | sold hbet hnfts =>
    have howner := (hwf.bet _ (lowerBoundBet_eq_some hbet).1.1).owner
    exact h.update hnfts hl (hl.account _ howner)

end owned

section payable

variable {removed : Removed} {db db' : Database}

theorem Payable.marketStep {op : NftOperation} (h : db.Payable) (hstep : MarketStep db op db') :
    db'.Payable where
  wellFormed := h.wellFormed.marketStep hstep
  money := h.money.marketStep h.wellFormed hstep
  owned := h.owned.marketStep h.wellFormed hstep

theorem Payable.settled {no : NftObject} (h : db.Payable) (hrunning : no.auctionExpiration ≠ 0)
    (hown : db.FindsOwnBet no.tokenId) (hstep : Settled removed db no db') : db'.Payable where
  wellFormed := h.wellFormed.settled hstep
  money := h.money.settled h.wellFormed hrunning hown hstep
  owned := h.owned.settled h.wellFormed hstep

theorem Payable.elsewhere (h : db.Payable) (hstep : db.Elsewhere db') : db'.Payable where
  wellFormed := h.wellFormed.elsewhere hstep
  money :=
    { solvent := hstep.solvent h.money.solvent
      hold := by
        intro a
        unfold lockedBy
        rw [hstep.hold, hstep.nftOrders, hstep.nftBets]
        exact h.money.hold a }
  owned := h.owned.congr hstep.nfts ⟨hstep.account, hstep.symbol⟩

theorem NoMarket.payable (h : db.NoMarket) : db.Payable where
  wellFormed := h.wellFormed
  money :=
    { solvent := h.solvent
      hold := by
        intro a
        simp [lockedBy, h.hold, h.nftOrders, h.nftBets] }
  owned := by
    intro tokenId no hno
    simp [h.nfts] at hno

theorem Payable.processNftBet {no : NftObject} (h : db.Payable)
    (hno : db.nfts.find? no.tokenId = some no) (hrunning : no.auctionExpiration ≠ 0)
    (hcollection : (db.nftCollections.find? no.name).isSome) (hown : db.FindsOwnBet no.tokenId) :
    ∃ db', processNftBet removed db no.tokenId = .ok db' :=
  processNftBet_completes h.money h.wellFormed hno hrunning (h.owned no.tokenId no hno)
    hcollection hown

/-- A queue that finds bets of its own only keeps prices payable. -/
theorem Payable.processNftBets {db₁ : Database} {settled queue : List Nat} (h₁ : db₁.Payable)
    (hwf : db.WellFormed) (hpart : TakesOwnBets db db₁ settled) (hnodup : (settled ++ queue).Nodup)
    (hrunning : ∀ tokenId ∈ queue,
      ∃ no, db.nfts.find? tokenId = some no ∧ no.auctionExpiration ≠ 0)
    (hown : OwnBetsOnly db settled queue)
    (hprocess : Database.processNftBets removed db₁ queue = .ok db') : db'.Payable := by
  induction queue generalizing db₁ settled with
  | nil =>
    simp only [Database.processNftBets, pure_eq_ok] at hprocess
    exact hprocess ▸ h₁
  | cons tokenId queue ih =>
    simp only [Database.processNftBets, bind_eq_ok] at hprocess
    obtain ⟨db₂, hfirst, hprocess⟩ := hprocess
    obtain ⟨no, hno₁, hstep⟩ := processNftBet_eq_ok hfirst
    obtain ⟨hown, hrest⟩ := hown
    have hnew : tokenId ∉ settled := by
      intro hin
      exact (List.disjoint_of_nodup_append hnodup) hin List.mem_cons_self
    obtain ⟨no', hno, hexpiration⟩ := hrunning tokenId List.mem_cons_self
    have hsame := hno₁
    rw [hpart.otherToken _ hnew, hno] at hsame
    injection hsame with hsame
    subst hsame
    have hid := Table.key_of_find? hno
    subst hid
    have hfinds := hpart.findsOwnBet hwf hnew hown
    have hpart' := hpart.settle hwf h₁.wellFormed hnew hno hexpiration hstep hown
    exact ih (h₁.settled hexpiration hfinds hstep) hpart' (by simpa using hnodup)
      (fun u hu => hrunning u (List.mem_cons_of_mem _ hu)) hrest hprocess

end payable

section iff

variable {removed : Removed} {db db₁ db' : Database} {settled queue : List Nat}

theorem settlesRight_cons {no : NftObject} (hno : db.nfts.find? no.tokenId = some no) :
    SettlesRight removed db settled (no.tokenId :: queue) ↔
      ((db.nftBetsOf no.tokenId = [] →
          ∀ b ∈ db.nftBets.rows, no.tokenId < b.tokenId → b.tokenId ∈ settled) ∧
        (∀ b ∈ (db.nftBetsOf no.tokenId).tail, removed b ≠ b.byTokenOwner) ∧
        (tokenCounts db.nftCollections no.name).isSome) ∧
      SettlesRight removed db (settled ++ [no.tokenId]) queue := by
  constructor
  . rintro ⟨⟨hfirst, hrest⟩, hread, hcollection⟩
    refine ⟨⟨hfirst, hread _ List.mem_cons_self, hcollection _ List.mem_cons_self no hno⟩, hrest,
      ?_, ?_⟩
    . intro tokenId hin
      exact hread tokenId (List.mem_cons_of_mem _ hin)
    . intro tokenId hin
      exact hcollection tokenId (List.mem_cons_of_mem _ hin)
  . rintro ⟨⟨hfirst, hread, hcollection⟩, hrest⟩
    refine ⟨⟨hfirst, hrest.own⟩, ?_, ?_⟩
    . rw [List.forall_mem_cons]
      exact ⟨hread, hrest.read⟩
    . rw [List.forall_mem_cons]
      refine ⟨?_, hrest.collection⟩
      intro no' hno'
      rw [hno, Option.mem_some_iff] at hno'
      exact hno' ▸ hcollection

/-- A bet that the removed winner is taken for is money lost. -/
theorem paidTotal_betRefunds_lt {bets : List NftBetObject} {b : NftBetObject}
    (hprice : ∀ b ∈ bets, 0 < b.price.amount) (hb : b ∈ bets) (hread : removed b = b.byTokenOwner) :
    paidTotal (betRefunds (.dangling removed) bets) b.price.symbol
      < paidTotal (bets.map NftBetObject.payment) b.price.symbol := by
  have hnonneg : ∀ p ∈ bets.map NftBetObject.payment, 0 ≤ p.2.amount := by
    intro p hp
    obtain ⟨b, hb, rfl⟩ := List.mem_map.mp hp
    exact (hprice b hb).le
  induction bets with
  | nil => cases hb
  | cons bet bets ih =>
    rw [List.map_cons] at hnonneg
    rw [betRefunds_cons, List.map_cons, paidTotal_cons]
    have hle := paidTotal_le_of_sublist (betRefunds_sublist (.dangling removed) bets)
      (fun p hp => hnonneg p (List.mem_cons_of_mem _ hp)) b.price.symbol
    have hhead := inSymbol_nonneg (hnonneg _ List.mem_cons_self) b.price.symbol
    rcases List.mem_cons.mp hb with rfl | hin
    . have his : (ProceedBet.dangling removed).is b = true := decide_eq_true hread
      have hpositive := hprice b List.mem_cons_self
      rw [if_neg (by rw [his]; decide)]
      simp only [NftBetObject.payment, inSymbol, ↓reduceIte] at hhead ⊢
      exact lt_of_le_of_lt hle (by omega)
    . have hlt := ih (fun b' hb' => hprice b' (List.mem_cons_of_mem _ hb')) hin
        (fun p hp => hnonneg p (List.mem_cons_of_mem _ hp))
      dsimp only [ProceedBet.remove]
      split
      . rw [paidTotal_cons]
        omega
      . omega

/-- One turn that settles its token from its own bets has met the condition. -/
theorem SettlesOwnBets.settledRight {no : NftObject} (hpart : SettlesOwnBets db db₁ settled)
    (hwf : db.WellFormed) (h₁ : db₁.WellFormed) (hnew : no.tokenId ∉ settled)
    (hrunning : no.auctionExpiration ≠ 0) (hstep : Settled removed db₁ no db')
    (hall : SettlesOwnBets db db' (settled ++ [no.tokenId])) :
    (db.nftBetsOf no.tokenId = [] →
        ∀ b ∈ db.nftBets.rows, no.tokenId < b.tokenId → b.tokenId ∈ settled) ∧
      (∀ b ∈ (db.nftBetsOf no.tokenId).tail, removed b ≠ b.byTokenOwner) ∧
      (tokenCounts db.nftCollections no.name).isSome := by
  have hbetsOf := hpart.nftBetsOf hwf hnew
  have hmoney := hstep.money h₁ hrunning
  refine ⟨?_, ?_, ?_⟩
  . -- A bet of another token would be money from nowhere.
    intro hbets b hb hlt
    by_contra hunsettled
    cases hfound : db₁.lowerBoundBet no.tokenId with
    | none =>
      have := lowerBoundBet_eq_none.mp hfound b ((hpart.bets b).mpr ⟨hb, hunsettled⟩)
      omega
    | some bet =>
      have hbet := lowerBoundBet_eq_some hfound
      have hne : bet.tokenId ≠ no.tokenId := by
        intro heq
        have := mem_nftBetsOf.mpr ⟨hbet.1.1, heq⟩
        rw [hbetsOf, hbets] at this
        cases this
      have hmoney := hmoney bet.price.symbol
      rw [hfound] at hmoney
      simp only [hne, ↓reduceIte, inSymbol] at hmoney
      have hprice := (h₁.bet bet hbet.1.1).price
      have := hall.total bet.price.symbol
      have := hpart.total bet.price.symbol
      omega
  . intro b hb hread
    cases hbets : db.nftBetsOf no.tokenId with
    | nil =>
      rw [hbets] at hb
      cases hb
    | cons bet bets =>
      have hfound := h₁.lowerBoundBet_of_own (hbetsOf.trans hbets)
      have hmem : ∀ b ∈ bet :: bets, b ∈ db₁.nftBets.rows ∧ b.tokenId = no.tokenId := by
        intro b hb
        rwa [← hbets, ← hbetsOf, mem_nftBetsOf] at hb
      rw [hbets, List.tail_cons] at hb
      have hlt := @paidTotal_betRefunds_lt removed _ _
        (fun b hb => (h₁.bet b (hmem b (List.mem_cons_of_mem _ hb)).1).price) hb hread
      have hmoney := hmoney b.price.symbol
      rw [hfound, hbetsOf, hbets] at hmoney
      simp only [(hmem bet List.mem_cons_self).2, ↓reduceIte, List.tail_cons] at hmoney
      have := hall.total b.price.symbol
      have := hpart.total b.price.symbol
      omega
  . rw [← hpart.collection]
    unfold tokenCounts
    rw [Option.isSome_map]
    cases hstep with
    | reset _ _ hcollection => exact hcollection
    | sold _ _ hcollection => exact hcollection

theorem settlesRight_iff (hwf : db.WellFormed) (h₁ : db₁.Payable)
    (hpart : SettlesOwnBets db db₁ settled) (hnodup : (settled ++ queue).Nodup)
    (hrunning : ∀ tokenId ∈ queue,
      ∃ no, db.nfts.find? tokenId = some no ∧ no.auctionExpiration ≠ 0) :
    (∀ part, part <+: queue → ∃ db', processNftBets removed db₁ part = .ok db' ∧
      SettlesOwnBets db db' (settled ++ part)) ↔ SettlesRight removed db settled queue := by
  induction queue generalizing db₁ settled with
  | nil =>
    constructor
    . intro _
      exact ⟨trivial, by simp, by simp⟩
    . intro _ part hprefix
      rw [List.prefix_nil] at hprefix
      subst hprefix
      exact ⟨db₁, rfl, by simpa using hpart⟩
  | cons tokenId queue ih =>
    obtain ⟨no, hno, hexpiration⟩ := hrunning tokenId List.mem_cons_self
    have hid := Table.key_of_find? hno
    subst hid
    have hnew : no.tokenId ∉ settled := by
      intro hin
      exact (List.disjoint_of_nodup_append hnodup) hin List.mem_cons_self
    have hno₁ : db₁.nfts.find? no.tokenId = some no := by
      rw [hpart.otherToken _ hnew, hno]
    have hassoc : settled ++ no.tokenId :: queue = (settled ++ [no.tokenId]) ++ queue := by simp
    rw [hassoc] at hnodup
    have hrunning' : ∀ tokenId ∈ queue,
        ∃ no, db.nfts.find? tokenId = some no ∧ no.auctionExpiration ≠ 0 :=
      fun u hu => hrunning u (List.mem_cons_of_mem _ hu)
    rw [settlesRight_cons hno]
    -- The state after the first turn, from either side.
    have hturn : ∀ db₂, processNftBet removed db₁ no.tokenId = .ok db₂ →
        Settled removed db₁ no db₂ := by
      intro db₂ hprocess
      obtain ⟨no', hno', hstep⟩ := processNftBet_eq_ok hprocess
      rw [hno₁] at hno'
      injection hno' with hno'
      exact hno' ▸ hstep
    constructor
    . intro hall
      obtain ⟨db₂, hfirst, hsettles⟩ := hall [no.tokenId] (by simp)
      simp only [processNftBets, bind_eq_ok, pure_eq_ok] at hfirst
      obtain ⟨_, hfirst, rfl⟩ := hfirst
      have hstep := hturn _ hfirst
      have hright := hpart.settledRight hwf h₁.wellFormed hnew hexpiration hstep hsettles
      have hfinds := hpart.findsOwnBet hwf hnew hright.1
      refine ⟨hright, ?_⟩
      rw [← ih (h₁.settled hexpiration hfinds hstep) hsettles hnodup hrunning']
      intro part hprefix
      obtain ⟨db', hprocess, hpart'⟩ := hall (no.tokenId :: part)
        (List.cons_prefix_cons.mpr ⟨rfl, hprefix⟩)
      unfold processNftBets at hprocess
      rw [hfirst, ok_bind] at hprocess
      exact ⟨db', hprocess, by simpa using hpart'⟩
    . rintro ⟨⟨hown, hread, hcollection⟩, hrest⟩ part hprefix
      cases part with
      | nil => exact ⟨db₁, rfl, by simpa using hpart⟩
      | cons u part =>
        obtain ⟨rfl, hpart'⟩ := List.cons_prefix_cons.mp hprefix
        have hfinds := hpart.findsOwnBet hwf hnew hown
        rw [← hpart.collection] at hcollection
        unfold tokenCounts at hcollection
        rw [Option.isSome_map] at hcollection
        obtain ⟨db₂, hfirst⟩ :=
          @Payable.processNftBet removed _ _ h₁ hno₁ hexpiration hcollection hfinds
        have hstep := hturn _ hfirst
        have hsettles := hpart.settle hwf h₁.wellFormed hnew hno hexpiration hstep hown hread
        obtain ⟨db', hprocess, hend⟩ := (ih (h₁.settled hexpiration hfinds hstep) hsettles hnodup
          hrunning').mpr hrest part hpart'
        refine ⟨db', ?_, by simpa using hend⟩
        unfold processNftBets
        rw [hfirst]
        exact hprocess

end iff

theorem AuctionQueue.running {db : Database} {queue : List Nat} (h : db.AuctionQueue queue) :
    ∀ tokenId ∈ queue, ∃ no, db.nfts.find? tokenId = some no ∧ no.auctionExpiration ≠ 0 := by
  intro tokenId hin
  obtain ⟨no, hno, hexpired, -⟩ := (h.mem tokenId).mp hin
  exact ⟨no, hno, by omega⟩

theorem payable_of_reach {db : Database} (h : market.Reach SettlesAuctions db) : db.Payable := by
  apply h.invariant
  . intro db hdb
    exact NoMarket.payable hdb
  . intro db e db' hdb hok hstep
    cases e with
    | operation op => exact hdb.marketStep (marketStep_of_applyNftOperation hstep)
    | endOfBlock removed queue =>
      obtain ⟨hqueue, hprocess⟩ := hstep
      exact hdb.processNftBets hdb.wellFormed (.nil db) hqueue.nodup hqueue.running hok.own hprocess
    | other => exact hdb.elsewhere hstep

/--
In every run whose block ends meet the condition, a block end settles its auctions from their own bets,
one after the other, exactly if it meets the condition too: no token without bets comes before an
unsettled bet of a greater token, no bet is taken for the removed winner, and no collection is gone.
-/
theorem processNftBets_own_iff {removed : Removed} {db : Database} {queue : List Nat}
    (h : market.Reach SettlesAuctions db) (hqueue : db.AuctionQueue queue) :
    (∀ part, part <+: queue → ∃ db', processNftBets removed db part = .ok db' ∧
      SettlesOwnBets db db' part) ↔ SettlesRight removed db [] queue := by
  have hpayable := payable_of_reach h
  exact settlesRight_iff hpayable.wellFormed hpayable (.nil db) hqueue.nodup hqueue.running

/-- Two tokens of one collection in auction, the second for longer; `bids` follow. -/
def twoAuctions (bids : List NftOperation) : List NftOperation :=
  [
    .nftCollection { creator := "alice", name := "COOLGAME" },
    .nftIssue { creator := "alice", name := "COOLGAME", toAccount := "alice" },
    .nftIssue { creator := "alice", name := "COOLGAME", toAccount := "alice" },
    .nftAuction
      { owner := "alice", tokenId := 1, minPrice := ⟨1000, steemSymbol⟩, expiration := 1700003600 },
    .nftAuction
      { owner := "alice", tokenId := 2, minPrice := ⟨1000, steemSymbol⟩, expiration := 1700090000 }
  ] ++ bids

def betOn (tokenId : Nat) (buyer : AccountName) (amount : ℤ) : NftOperation :=
  .nftBuy { buyer := buyer, name := "", tokenId := tokenId, orderId := 0, price := ⟨amount, steemSymbol⟩ }

/-- The state an hour later, when the first auction is over. -/
def firstAuctionOver (bids : List NftOperation) : Database :=
  { (((twoAuctions bids).foldlM applyNftOperation firstMarket).toOption.getD firstMarket) with
    headBlockTime := 1700003601 }

/-- The memory of a removed bet is cleared. -/
def readsNull : Removed :=
  fun _ => (0, "")

def firstAuctionSettled (bids : List NftOperation) : Database :=
  (processNftBets readsNull (firstAuctionOver bids) [1]).toOption.getD firstMarket

theorem reach_firstAuctionOver {bids : List NftOperation}
    (h : ((twoAuctions bids).foldlM applyNftOperation firstMarket).toOption.isSome = true) :
    market.Reach SettlesAuctions (firstAuctionOver bids) := by
  have hbids := @reach_of_operations SettlesAuctions _ _ _ (.initial noMarket_firstMarket)
    (along_of_forall (fun _ _ => trivial) _ _) (@eq_ok_of_isSome _ _ _ firstMarket h)
  have hstep : Step _ .other (firstAuctionOver bids) := elsewhere_headBlockTime _ _
  have hok : ∀ db, SettlesAuctions db .other := fun _ => trivial
  exact .step hbids (hok _) hstep

/-- Two bets on the first token. -/
def bothBet : List NftOperation :=
  [betOn 1 "bob" 5000, betOn 1 "carol" 7000]

theorem settlesRight_bothBet : SettlesRight readsNull (firstAuctionOver bothBet) [] [1] where
  own := ⟨fun h => absurd h (by decide +kernel), trivial⟩
  read := by decide +kernel
  collection := by decide +kernel

theorem processNftBets_own_iff_two_bets :
    ∃ db', processNftBets readsNull (firstAuctionOver bothBet) [1] = .ok db' ∧
      SettlesOwnBets (firstAuctionOver bothBet) db' [1] :=
  (processNftBets_own_iff (reach_firstAuctionOver (by decide +kernel))
    (auctionQueue_of_rows (by decide) (by decide +kernel) (by decide +kernel) (by simp))).mpr
      settlesRight_bothBet [1] (List.prefix_refl _)

/-- The first token has no bet, so it is sold for the bet on the second one. -/
theorem processNftBets_sells_for_bet_of_other_token :
    market.Reachable (firstAuctionOver [betOn 2 "bob" 5000]) ∧
      (firstAuctionOver [betOn 2 "bob" 5000]).AuctionQueue [1] ∧
      processNftBets readsNull (firstAuctionOver [betOn 2 "bob" 5000]) [1]
        = .ok (firstAuctionSettled [betOn 2 "bob" 5000]) ∧
      ¬SettlesOwnBets (firstAuctionOver [betOn 2 "bob" 5000])
        (firstAuctionSettled [betOn 2 "bob" 5000]) [1] := by
  refine ⟨(reach_firstAuctionOver (by decide +kernel)).reachable, ?_, ?_, ?_⟩
  . exact auctionQueue_of_rows (by decide) (by decide +kernel) (by decide +kernel) (by simp)
  . exact eq_ok_of_isSome (by decide +kernel)
  . intro h
    have := h.total steemSymbol
    revert this
    decide +kernel

end Database
end Golos
