import Golos.Nft.Lemmas.Evaluators
import Golos.Nft.Run

/-!
This module contains the invariant of the rows of the market that holds in every reachable state.
-/

namespace Golos
namespace Database

open Checked Ledger

/-- `l'` has all accounts and symbols of `l`. -/
structure Persists (l l' : Ledger) : Prop where
  account : ∀ name, (l.accounts.find? name).isSome → (l'.accounts.find? name).isSome
  symbol : ∀ symbol, l.Holdable symbol → l'.Holdable symbol

namespace Persists

variable {l l' l'' : Ledger}

theorem refl (l : Ledger) : Persists l l :=
  ⟨fun _ => id, fun _ => id⟩

theorem trans (h : Persists l l') (h' : Persists l' l'') : Persists l l'' :=
  ⟨fun a ha => h'.account a (h.account a ha), fun s hs => h'.symbol s (h.symbol s hs)⟩

theorem of_moves {f : AccountName → AssetSymbolType → ℤ} {h : AccountName → ℤ}
    {t : AssetSymbolType → ℤ} (hm : Moves l l' f h t) : Persists l l' where
  account := by
    intro a ha
    rwa [hm.accounts]
  symbol := by
    intro s hs
    exact hm.holdable hs

theorem of_adjustSbdSupply {delta : ℤ} (h : l.adjustSbdSupply delta = .ok l') :
    Persists l l' := by
  simp only [adjustSbdSupply, bind_eq_ok, pure_eq_ok] at h
  obtain ⟨_, -, _, -, _, -, rfl⟩ := h
  exact ⟨fun _ => id, fun _ => id⟩

theorem of_costRefund {name : AccountName} (h : CostRefund l name l') : Persists l l' := by
  cases h with
  | nothing => exact refl l
  | fromWorkers _ _ hpay => exact of_moves hpay
  | minted _ hsupply hpay => exact (of_adjustSbdSupply hsupply).trans (of_moves hpay)

end Persists

/-- What is true of an order by itself. -/
structure OrderOk (l : Ledger) (o : NftOrderObject) : Prop where
  price : 0 ≤ o.price.amount
  selling : o.selling = true → o.holds = false
  anyToken : o.tokenId = 0 → o.holds = false
  oneToken : o.selling = false → o.tokenId ≠ 0 → o.holds = true
  symbol : o.holds = true → l.Holdable o.price.symbol
  owner : o.holds = true → (l.accounts.find? o.owner).isSome

/-- What is true of a bet by itself. -/
structure BetOk (l : Ledger) (b : NftBetObject) : Prop where
  price : 0 < b.price.amount
  symbol : l.Holdable b.price.symbol
  owner : (l.accounts.find? b.owner).isSome

/-- Bets stand on tokens in auction, in the symbol of the auction. -/
def OnAuction (ts : Table NftObject.tokenId) (b : NftBetObject) : Prop :=
  ∃ no, ts.find? b.tokenId = some no ∧ no.auctionExpiration ≠ 0 ∧
    b.price.symbol = no.auctionMinPrice.symbol

/-- Orders that hold money stand on tokens that are not in auction. -/
def OffAuction (ts : Table NftObject.tokenId) (o : NftOrderObject) : Prop :=
  o.holds = true → ∃ no, ts.find? o.tokenId = some no ∧ no.auctionExpiration = 0

structure WellFormed (db : Database) : Prop where
  order : ∀ o ∈ db.nftOrders.rows, OrderOk db.ledger o
  bet : ∀ b ∈ db.nftBets.rows, BetOk db.ledger b
  onAuction : ∀ b ∈ db.nftBets.rows, OnAuction db.nfts b
  offAuction : ∀ o ∈ db.nftOrders.rows, OffAuction db.nfts o
  price_inj : ∀ b ∈ db.nftBets.rows, ∀ b' ∈ db.nftBets.rows,
    b.tokenId = b'.tokenId → b.priceReal = b'.priceReal → b = b'

theorem OrderOk.persists {l l' : Ledger} {o : NftOrderObject} (h : OrderOk l o)
    (hl : Persists l l') : OrderOk l' o :=
  { h with
    symbol := fun hholds => hl.symbol _ (h.symbol hholds)
    owner := fun hholds => hl.account _ (h.owner hholds) }

theorem BetOk.persists {l l' : Ledger} {b : NftBetObject} (h : BetOk l b)
    (hl : Persists l l') : BetOk l' b :=
  { h with
    symbol := hl.symbol _ h.symbol
    owner := hl.account _ h.owner }

/-- A rewritten token is in auction exactly when it was, in the same symbol. -/
structure SameAuction (no no' : NftObject) : Prop where
  running : no'.auctionExpiration = 0 ↔ no.auctionExpiration = 0
  symbol : no'.auctionMinPrice.symbol = no.auctionMinPrice.symbol

section tokens

variable {ts ts' : Table NftObject.tokenId} {no no' : NftObject}

theorem OnAuction.update_of_ne {b : NftBetObject} (h : OnAuction ts b)
    (hts : ts.Updates ts' no no') (hne : b.tokenId ≠ no.tokenId) : OnAuction ts' b := by
  obtain ⟨no₁, hno₁, hrest⟩ := h
  refine ⟨no₁, ?_, hrest⟩
  rw [hts.find?, if_neg hne, hno₁]

theorem OffAuction.update_of_ne {o : NftOrderObject} (h : OffAuction ts o)
    (hts : ts.Updates ts' no no') (hne : o.tokenId ≠ no.tokenId) : OffAuction ts' o := by
  intro hholds
  obtain ⟨no₁, hno₁, hrest⟩ := h hholds
  refine ⟨no₁, ?_, hrest⟩
  rw [hts.find?, if_neg hne, hno₁]

theorem OnAuction.update {b : NftBetObject} (h : OnAuction ts b) (hts : ts.Updates ts' no no')
    (hsame : SameAuction no no') : OnAuction ts' b := by
  by_cases hb : b.tokenId = no.tokenId
  . obtain ⟨no₁, hno₁, hrunning, hsymbol⟩ := h
    rw [hb, hts.row] at hno₁
    injection hno₁ with hno₁
    subst hno₁
    refine ⟨no', ?_, mt hsame.running.mp hrunning, hsymbol.trans hsame.symbol.symm⟩
    rw [hts.find?, if_pos hb]
  . exact h.update_of_ne hts hb

theorem OffAuction.update {o : NftOrderObject} (h : OffAuction ts o) (hts : ts.Updates ts' no no')
    (hsame : no.auctionExpiration = 0 → no'.auctionExpiration = 0) : OffAuction ts' o := by
  by_cases ho : o.tokenId = no.tokenId
  . intro hholds
    obtain ⟨no₁, hno₁, hstopped⟩ := h hholds
    rw [ho, hts.row] at hno₁
    injection hno₁ with hno₁
    subst hno₁
    refine ⟨no', ?_, hsame hstopped⟩
    rw [hts.find?, if_pos ho]
  . exact h.update_of_ne hts ho

theorem OnAuction.insert {b : NftBetObject} (h : OnAuction ts b) (hts : ts.Inserts ts' no) :
    OnAuction ts' b := by
  obtain ⟨no₁, hno₁, hrest⟩ := h
  exact ⟨no₁, hts.find?_eq_some_iff.mpr (.inl hno₁), hrest⟩

theorem OffAuction.insert {o : NftOrderObject} (h : OffAuction ts o) (hts : ts.Inserts ts' no) :
    OffAuction ts' o := by
  intro hholds
  obtain ⟨no₁, hno₁, hrest⟩ := h hholds
  exact ⟨no₁, hts.find?_eq_some_iff.mpr (.inl hno₁), hrest⟩

/-- A token without an auction has no bets. -/
theorem WellFormed.tokenId_ne_of_stopped {db : Database} (h : db.WellFormed)
    (hno : db.nfts.find? no.tokenId = some no) (hstopped : no.auctionExpiration = 0)
    {b : NftBetObject} (hb : b ∈ db.nftBets.rows) : b.tokenId ≠ no.tokenId := by
  intro heq
  obtain ⟨no₁, hno₁, hrunning, -⟩ := h.onAuction b hb
  rw [heq, hno] at hno₁
  injection hno₁ with hno₁
  subst hno₁
  exact hrunning hstopped

/-- A token in auction has no orders that hold money. -/
theorem WellFormed.not_holds_of_running {db : Database} (h : db.WellFormed)
    (hno : db.nfts.find? no.tokenId = some no) (hrunning : no.auctionExpiration ≠ 0)
    {o : NftOrderObject} (ho : o ∈ db.nftOrders.rows) (htoken : o.tokenId = no.tokenId) :
    o.holds = false := by
  by_contra hholds
  obtain ⟨no₁, hno₁, hstopped⟩ := h.offAuction o ho (by simpa using hholds)
  rw [htoken, hno] at hno₁
  injection hno₁ with hno₁
  subst hno₁
  exact hrunning hstopped

end tokens

/-- An order that is being executed is refunded to nobody if it holds nothing anyway. -/
theorem orderRefunds_eq_heldPayments {proceedOrder : Option NftOrderObject}
    {orders : List NftOrderObject}
    (h : ∀ o ∈ orders, isProceedOrder proceedOrder o = true → o.holds = false) :
    orderRefunds proceedOrder orders = heldPayments orders := by
  unfold orderRefunds heldPayments
  congr 1
  apply List.filter_congr
  intro o ho
  cases hp : isProceedOrder proceedOrder o with
  | false => simp
  | true => simp [h o ho hp]

theorem orderRefunds_of_not_holds {db : Database} {noo : NftOrderObject}
    (hmem : noo ∈ db.nftOrders.rows) (hholds : noo.holds = false) (tokenId : Nat) :
    orderRefunds (some noo) (db.clearedNftOrders tokenId false)
      = heldPayments (db.clearedNftOrders tokenId false) := by
  apply orderRefunds_eq_heldPayments
  intro o ho hproceed
  have ho := (mem_clearedNftOrders.mp ho).2.1
  have hkey : o.byOwnerOrderId = noo.byOwnerOrderId := by
    simpa [isProceedOrder] using hproceed
  rw [db.nftOrders.mem_rows_inj ho hmem hkey]
  exact hholds

/-- What is left of a well-formed market after rows went away and tokens changed is well formed. -/
theorem WellFormed.shrink {db db' : Database} (h : db.WellFormed)
    (hl : Persists db.ledger db'.ledger)
    (horders : ∀ o ∈ db'.nftOrders.rows, o ∈ db.nftOrders.rows ∧
      (OffAuction db.nfts o → OffAuction db'.nfts o))
    (hbets : ∀ b ∈ db'.nftBets.rows, b ∈ db.nftBets.rows ∧
      (OnAuction db.nfts b → OnAuction db'.nfts b)) : db'.WellFormed where
  order := by
    intro o ho
    exact (h.order o (horders o ho).1).persists hl
  bet := by
    intro b hb
    exact (h.bet b (hbets b hb).1).persists hl
  onAuction := by
    intro b hb
    obtain ⟨hmem, himp⟩ := hbets b hb
    exact himp (h.onAuction b hmem)
  offAuction := by
    intro o ho
    obtain ⟨hmem, himp⟩ := horders o ho
    exact himp (h.offAuction o hmem)
  price_inj := by
    intro b hb b' hb'
    exact h.price_inj b (hbets b hb).1 b' (hbets b' hb').1

/-- A new order keeps a market well formed if it is well formed itself. -/
theorem WellFormed.insertOrder {db db' : Database} {o : NftOrderObject} (h : db.WellFormed)
    (hl : Persists db.ledger db'.ledger) (horders : db.nftOrders.Inserts db'.nftOrders o)
    (hbets : db'.nftBets = db.nftBets) (ho : OrderOk db'.ledger o)
    (hoff : OffAuction db'.nfts o) (honAuction : ∀ b, OnAuction db.nfts b → OnAuction db'.nfts b)
    (hoffAuction : ∀ o, OffAuction db.nfts o → OffAuction db'.nfts o) : db'.WellFormed where
  order := by
    intro o' ho'
    rcases (horders.mem o').mp ho' with hmem | rfl
    . exact (h.order o' hmem).persists hl
    . exact ho
  bet := by
    rw [hbets]
    intro b hb
    exact (h.bet b hb).persists hl
  onAuction := by
    rw [hbets]
    intro b hb
    exact honAuction b (h.onAuction b hb)
  offAuction := by
    intro o' ho'
    rcases (horders.mem o').mp ho' with hmem | rfl
    . exact hoffAuction o' (h.offAuction o' hmem)
    . exact hoff
  price_inj := by
    rw [hbets]
    exact h.price_inj

section step

variable {removed : Removed} {db db' : Database}

theorem persists_of_marketStep {op : NftOperation} (h : MarketStep db op db') :
    Persists db.ledger db'.ledger := by
  cases h with
  | nftCollection => exact .refl _
  | nftCollectionDelete => exact .refl _
  | nftIssue _ _ _ _ _ _ _ _ hpay => exact .of_moves hpay
  | nftTransfer => exact .refl _
  | burn _ _ _ _ _ _ _ hrefund _ hclear =>
    exact (Persists.of_costRefund hrefund).trans (.of_moves hclear)
  | placeSellOrder => exact .refl _
  | sellToBuyer _ _ _ _ _ _ _ _ _ _ _ hpay _ hclear =>
    exact (Persists.of_moves hpay).trans (.of_moves hclear)
  | cancelBet _ _ _ hpay => exact .of_moves hpay
  | placeBet _ _ _ _ _ _ _ _ _ _ _ _ hpay => exact .of_moves hpay
  | placeOffer _ _ _ _ _ _ _ _ _ _ _ hpay => exact .of_moves hpay
  | ignoreBuy => exact .refl _
  | buyFromSeller _ _ _ _ _ _ _ _ _ _ _ hpay _ hclear =>
    exact (Persists.of_moves hpay).trans (.of_moves hclear)
  | placeCollectionOffer => exact .refl _
  | cancelSellOrder _ _ _ _ _ hclear => exact .of_moves hclear
  | cancelBuyOrder _ _ _ hclear => exact .of_moves hclear
  | stopAuction _ _ _ _ _ _ hclear => exact .of_moves hclear
  | startAuction _ _ _ _ _ _ _ _ _ hclear => exact .of_moves hclear

/-- Steps that rewrite one token outside its auction and remove orders. -/
theorem WellFormed.updateToken {no no' : NftObject} {l : List NftOrderObject} (h : db.WellFormed)
    (hl : Persists db.ledger db'.ledger) (hnfts : db.nfts.Updates db'.nfts no no')
    (hsame : SameAuction no no') (horders : db.nftOrders.Removes db'.nftOrders l)
    (hbets : db'.nftBets = db.nftBets) : db'.WellFormed := by
  apply h.shrink hl
  . intro o ho
    refine ⟨((horders.mem o).mp ho).1, ?_⟩
    intro hoff
    exact hoff.update hnfts hsame.running.mpr
  . rw [hbets]
    intro b hb
    refine ⟨hb, ?_⟩
    intro hon
    exact hon.update hnfts hsame

theorem WellFormed.marketStep {op : NftOperation} (h : db.WellFormed)
    (hstep : MarketStep db op db') : db'.WellFormed := by
  have hl := persists_of_marketStep hstep
  cases hstep with
  | nftCollection | nftCollectionDelete =>
    exact h.shrink hl (fun o ho => ⟨ho, id⟩) (fun b hb => ⟨hb, id⟩)
  | nftIssue _ _ _ hinsert =>
    exact h.shrink hl (fun o ho => ⟨ho, fun hoff => hoff.insert hinsert⟩)
      (fun b hb => ⟨hb, fun hon => hon.insert hinsert⟩)
  | nftTransfer _ _ _ _ hnfts => exact h.updateToken hl hnfts ⟨.rfl, rfl⟩ (.nil _) rfl
  | burn _ _ _ _ hnfts _ _ _ horders => exact h.updateToken hl hnfts ⟨.rfl, rfl⟩ horders rfl
  | placeSellOrder hno _ _ hprice hnfts horders =>
    have hsame : ∀ {no : NftObject} {now}, SameAuction no
        { no with lastUpdate := now, selling := true } := ⟨.rfl, rfl⟩
    apply h.insertOrder hl horders rfl
    . exact ⟨hprice, by simp, by simp, by simp, by simp, by simp⟩
    . intro hholds
      cases hholds
    . intro b hon
      exact hon.update hnfts hsame
    . intro o hoff
      exact hoff.update hnfts hsame.running.mpr
  | sellToBuyer _ _ _ _ _ _ _ _ _ hnfts _ _ horders =>
    exact h.updateToken hl hnfts ⟨.rfl, rfl⟩ horders rfl
  | cancelBet _ _ hbet =>
    apply h.shrink hl
    . intro o ho
      exact ⟨ho, id⟩
    . intro b hb
      exact ⟨(Table.mem_erase.mp hb).1, id⟩
  | @placeBet op no expiration l ts bs _ hno hrunning hsymbol hprice hmin hbuyer _ hunique
      hexpiration hnfts hbets hpay =>
    have hid := Table.key_of_find? hno
    have hsame : SameAuction no { no with auctionExpiration := expiration } := by
      refine ⟨?_, rfl⟩
      dsimp
      omega
    have hon : ∀ b, OnAuction db.nfts b → OnAuction ts b := fun b hb => hb.update hnfts hsame
    have hmem := hbets.mem
    refine ⟨?_, ?_, ?_, ?_, ?_⟩
    . intro o ho
      exact (h.order o ho).persists hl
    . intro b hb
      rcases (hmem b).mp hb with hb | rfl
      . exact (h.bet b hb).persists hl
      . exact ⟨hprice, hl.symbol _ hsymbol, hl.account _ hbuyer⟩
    . intro b hb
      rcases (hmem b).mp hb with hb | rfl
      . exact hon b (h.onAuction b hb)
      . apply hon
        exact ⟨no, hnfts.row, hrunning, hmin⟩
    . intro o ho
      exact (h.offAuction o ho).update hnfts hsame.running.mpr
    . -- The only new pairs are the new bet with the old bets of the same token.
      intro b hb b' hb' htoken hreal
      rcases (hmem b).mp hb with hb | rfl
      . rcases (hmem b').mp hb' with hb' | rfl
        . exact h.price_inj b hb b' hb' htoken hreal
        . exact absurd hreal (hunique b hb htoken)
      . rcases (hmem b').mp hb' with hb' | rfl
        . exact absurd hreal.symm (hunique b' hb' htoken.symm)
        . rfl
  | placeOffer horder htoken hno _ hstopped hsymbol hprice hbuyer _ horders =>
    apply h.insertOrder hl horders rfl
    . exact ⟨hprice, by simp, by simp [htoken], by simp, fun _ => hl.symbol _ hsymbol,
        fun _ => hl.account _ hbuyer⟩
    . intro _
      exact ⟨_, hno, hstopped⟩
    . intro b hon
      exact hon
    . intro o hoff
      exact hoff
  | ignoreBuy => exact h
  | buyFromSeller _ _ _ _ _ _ _ _ _ hnfts _ _ horders =>
    exact h.updateToken hl hnfts ⟨.rfl, rfl⟩ horders rfl
  | placeCollectionOffer _ hprice horders =>
    apply h.insertOrder hl horders rfl
    . exact ⟨hprice, by simp, by simp, by simp, by simp, by simp⟩
    . intro hholds
      cases hholds
    . intro b hon
      exact hon
    . intro o hoff
      exact hoff
  | cancelSellOrder hnoo _ _ hnfts =>
    exact h.updateToken hl hnfts ⟨.rfl, rfl⟩ (.erase (Table.mem_of_find? hnoo)) rfl
  | cancelBuyOrder hnoo =>
    apply h.shrink hl
    . intro o ho
      exact ⟨(Table.mem_erase.mp ho).1, id⟩
    . intro b hb
      exact ⟨hb, id⟩
  | stopAuction _ _ _ hnfts _ hbets =>
    apply h.shrink hl
    . intro o ho
      exact ⟨ho, fun hoff => hoff.update hnfts fun _ => rfl⟩
    . intro b hb
      obtain ⟨hb, hgone⟩ := (hbets.mem b).mp hb
      refine ⟨hb, fun hon => hon.update_of_ne hnfts ?_⟩
      intro heq
      exact hgone (mem_nftBetsOf.mpr ⟨hb, heq⟩)
  | @startAuction op no l ts cs os _ _ hno _ hstopped hnfts _ _ horders _ =>
    -- No bet was on the token, and its held orders are buying orders, all of which are cleared.
    apply h.shrink hl
    . intro o ho
      obtain ⟨ho, hgone⟩ := (horders.mem o).mp ho
      refine ⟨ho, ?_⟩
      intro hoff hholds
      by_cases htoken : o.tokenId = no.tokenId
      . have hok := h.order o ho
        have hbuying : o.selling = false := by
          by_contra hselling
          rw [hok.selling (by simpa using hselling)] at hholds
          cases hholds
        have hne : no.tokenId ≠ 0 := by
          intro hzero
          rw [hok.anyToken (htoken.trans hzero)] at hholds
          cases hholds
        exact absurd (mem_clearedNftOrders.mpr ⟨hne, ho, htoken, by simp [hbuying]⟩) hgone
      . exact (hoff.update_of_ne hnfts htoken) hholds
    . intro b hb
      refine ⟨hb, ?_⟩
      intro hon
      exact hon.update_of_ne hnfts (h.tokenId_ne_of_stopped hnfts.row hstopped hb)

theorem persists_of_settled {no : NftObject} (h : Settled removed db no db') :
    Persists db.ledger db'.ledger := by
  cases h with
  | reset => exact .refl _
  | sold _ _ _ _ hpay _ hrefund _ hclear =>
    exact ((Persists.of_moves hpay).trans (.of_moves hrefund)).trans (.of_moves hclear)

theorem WellFormed.settled {no : NftObject} (h : db.WellFormed) (hstep : Settled removed db no db') :
    db'.WellFormed := by
  have hl := persists_of_settled hstep
  cases hstep with
  | reset hbet hnfts =>
    apply h.shrink hl
    . intro o ho
      exact ⟨ho, fun hoff => hoff.update hnfts fun _ => rfl⟩
    . intro b hb
      refine ⟨hb, fun hon => hon.update_of_ne hnfts ?_⟩
      have := lowerBoundBet_eq_none.mp hbet b hb
      omega
  | sold _ hnfts _ _ _ hbets _ horders =>
    apply h.shrink hl
    . intro o ho
      exact ⟨((horders.mem o).mp ho).1, fun hoff => hoff.update hnfts fun _ => rfl⟩
    . intro b hb
      obtain ⟨hb, hgone⟩ := (hbets.mem b).mp hb
      refine ⟨hb, fun hon => hon.update_of_ne hnfts ?_⟩
      intro heq
      exact hgone (mem_nftBetsOf.mpr ⟨hb, heq⟩)

/-- What every turn of the loop of `process_nft_bets` keeps is kept by the loop. -/
theorem processNftBets_invariant {inv : Database → Prop}
    (hstep : ∀ db no db', inv db → Settled removed db no db' → inv db') {queue : List Nat} (h : inv db)
    (hprocess : processNftBets removed db queue = .ok db') : inv db' := by
  induction queue generalizing db with
  | nil =>
    simp only [processNftBets, pure_eq_ok] at hprocess
    exact hprocess ▸ h
  | cons tokenId queue ih =>
    simp only [processNftBets, bind_eq_ok] at hprocess
    obtain ⟨db₁, hfirst, hrest⟩ := hprocess
    obtain ⟨no, -, hsettled⟩ := processNftBet_eq_ok hfirst
    exact ih (hstep _ _ _ h hsettled) hrest

theorem WellFormed.elsewhere (h : db.WellFormed) (hstep : db.Elsewhere db') : db'.WellFormed := by
  apply h.shrink ⟨hstep.account, hstep.symbol⟩
  . rw [hstep.nftOrders, hstep.nfts]
    intro o ho
    exact ⟨ho, id⟩
  . rw [hstep.nftBets, hstep.nfts]
    intro b hb
    exact ⟨hb, id⟩

theorem NoMarket.wellFormed (h : db.NoMarket) : db.WellFormed := by
  constructor <;> simp [h.nftOrders, h.nftBets]

theorem WellFormed.step {e : MarketEvent} (h : db.WellFormed) (hstep : db.Step e db') :
    db'.WellFormed := by
  cases e with
  | operation op => exact h.marketStep (marketStep_of_applyNftOperation hstep)
  | endOfBlock removed queue =>
    exact processNftBets_invariant (fun _ _ _ h hsettled => h.settled hsettled) h hstep.2
  | other => exact h.elsewhere hstep

theorem wellFormed_of_reachable (h : market.Reachable db) : db.WellFormed := by
  apply h.invariant
  . intro db hdb
    exact NoMarket.wellFormed hdb
  . intro db e db' hdb _ hstep
    exact hdb.step hstep

end step

end Database
end Golos
