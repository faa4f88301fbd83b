import Golos.Nft.Lemmas.WellFormed

/-!
This module contains the coherence of tokens and selling orders: which runs keep it, and what an
executed purchase does in them.
-/

namespace Golos
namespace Database

open Checked Ledger

/-- Selling orders belong to the owners of their tokens, and flag exactly the tokens on sale. -/
structure Coherent (db : Database) : Prop where
  owner : ∀ o ∈ db.nftOrders.rows, o.selling = true →
    ∃ no, db.nfts.find? o.tokenId = some no ∧ no.owner = o.owner
  selling : ∀ tokenId no, db.nfts.find? tokenId = some no →
    (no.selling = true ↔
      ∃! o, o ∈ db.nftOrders.rows ∧ o.selling = true ∧ o.tokenId = tokenId)

/-- Up to block 74644300 an execution without the money for it is ignored. -/
def HasFunds (db : Database) (op : NftBuyOperation) (noo : NftOrderObject) : Prop :=
  db.headBlockNum ≤ 74644300 →
    (priceOf op.price noo).amount ≤ db.ledger.mainBalance op.buyer (priceOf op.price noo).symbol

instance (db : Database) (op : NftBuyOperation) (noo : NftOrderObject) :
    Decidable (db.HasFunds op noo) :=
  inferInstanceAs (Decidable (_ → _))

/-- A selling order that `nft_buy` finds by its number and executes is for the token asked for. -/
def FindsOrderOfToken (db : Database) (op : NftBuyOperation) : Prop :=
  ∀ no ∈ db.nfts.find? op.tokenId, ∀ noo ∈ db.findNftOrder no.owner op.orderId,
    db.HasFunds op noo → noo.selling = true → noo.tokenId = op.tokenId

/--
The events that keep selling orders coherent: a purchase finds an order of its own token, and the
counter of tokens does not wrap.
-/
def KeepsCoherence (db : Database) : MarketEvent → Prop
  | .operation (.nftBuy op) => op.orderId ≠ 0 → op.tokenId ≠ 0 → FindsOrderOfToken db op
  | .operation (.nftIssue _) => inc32 db.lastNftTokenId ≠ 0
  | _ => True

instance (db : Database) (op : NftBuyOperation) : Decidable (FindsOrderOfToken db op) :=
  inferInstanceAs (Decidable (∀ no ∈ db.nfts.find? op.tokenId,
    ∀ noo ∈ db.findNftOrder no.owner op.orderId,
      db.HasFunds op noo → noo.selling = true → noo.tokenId = op.tokenId))

instance : (db : Database) → (e : MarketEvent) → Decidable (KeepsCoherence db e)
  | db, .operation (.nftBuy op) =>
    inferInstanceAs (Decidable (op.orderId ≠ 0 → op.tokenId ≠ 0 → FindsOrderOfToken db op))
  | db, .operation (.nftIssue _) => inferInstanceAs (Decidable (inc32 db.lastNftTokenId ≠ 0))
  | _, .operation (.nftCollection _) => .isTrue trivial
  | _, .operation (.nftCollectionDelete _) => .isTrue trivial
  | _, .operation (.nftTransfer _) => .isTrue trivial
  | _, .operation (.nftSell _) => .isTrue trivial
  | _, .operation (.nftCancelOrder _) => .isTrue trivial
  | _, .operation (.nftAuction _) => .isTrue trivial
  | _, .endOfBlock _ _ => .isTrue trivial
  | _, .other => .isTrue trivial

/-- The invariant behind `Coherent`. -/
structure SellingInv (db : Database) : Prop where
  nonzero : ∀ tokenId no, db.nfts.find? tokenId = some no → tokenId ≠ 0
  order : ∀ o ∈ db.nftOrders.rows, o.selling = true →
    ∃ no, db.nfts.find? o.tokenId = some no ∧ no.owner = o.owner ∧ no.selling = true
  token : ∀ tokenId no, db.nfts.find? tokenId = some no → no.selling = true →
    ∃ o ∈ db.nftOrders.rows, o.selling = true ∧ o.tokenId = tokenId
  unique : ∀ o ∈ db.nftOrders.rows, ∀ o' ∈ db.nftOrders.rows, o.selling = true →
    o'.selling = true → o.tokenId = o'.tokenId → o = o'

theorem SellingInv.coherent {db : Database} (h : db.SellingInv) : db.Coherent where
  owner := by
    intro o ho hselling
    obtain ⟨no, hno, howner, -⟩ := h.order o ho hselling
    exact ⟨no, hno, howner⟩
  selling := by
    intro tokenId no hno
    constructor
    . intro hselling
      obtain ⟨o, ho, hso, htoken⟩ := h.token tokenId no hno hselling
      refine ⟨o, ⟨ho, hso, htoken⟩, ?_⟩
      intro o' ⟨ho', hso', htoken'⟩
      exact h.unique o' ho' o ho hso' hso (htoken'.trans htoken.symm)
    . intro ⟨o, ⟨ho, hso, htoken⟩, _⟩
      obtain ⟨no', hno', -, hselling⟩ := h.order o ho hso
      rw [htoken, hno] at hno'
      injection hno' with hno'
      rw [hno']
      exact hselling

section step

variable {removed : Removed} {db db' : Database}

/-- A token that is not selling has no selling order. -/
theorem SellingInv.tokenId_ne_of_not_selling {no : NftObject} (h : db.SellingInv)
    (hno : db.nfts.find? no.tokenId = some no) (hselling : no.selling = false) {o : NftOrderObject}
    (ho : o ∈ db.nftOrders.rows) (hso : o.selling = true) : o.tokenId ≠ no.tokenId := by
  intro heq
  obtain ⟨no', hno', -, hs⟩ := h.order o ho hso
  rw [heq, hno] at hno'
  injection hno' with hno'
  rw [← hno', hselling] at hs
  cases hs

/-- Steps that change neither owners, nor selling flags, nor selling orders. -/
theorem SellingInv.congr (h : db.SellingInv)
    (hnfts : ∀ tokenId, (db'.nfts.find? tokenId).map (fun no => (no.owner, no.selling))
      = (db.nfts.find? tokenId).map (fun no => (no.owner, no.selling)))
    (horders : ∀ o, o.selling = true → (o ∈ db'.nftOrders.rows ↔ o ∈ db.nftOrders.rows)) :
    db'.SellingInv := by
  -- Every token of one state is in the other with the same owner and flag.
  have hback : ∀ {tokenId no}, db'.nfts.find? tokenId = some no →
      ∃ no', db.nfts.find? tokenId = some no' ∧ no'.owner = no.owner
        ∧ no'.selling = no.selling := by
    intro tokenId no hno
    have := hnfts tokenId
    rw [hno, Option.map_some, eq_comm, Option.map_eq_some_iff] at this
    obtain ⟨no', hno', heq⟩ := this
    simp only [Prod.mk.injEq] at heq
    exact ⟨no', hno', heq⟩
  have hforth : ∀ {tokenId no}, db.nfts.find? tokenId = some no →
      ∃ no', db'.nfts.find? tokenId = some no' ∧ no'.owner = no.owner
        ∧ no'.selling = no.selling := by
    intro tokenId no hno
    have := hnfts tokenId
    rw [hno, Option.map_some, Option.map_eq_some_iff] at this
    obtain ⟨no', hno', heq⟩ := this
    simp only [Prod.mk.injEq] at heq
    exact ⟨no', hno', heq⟩
  refine ⟨?_, ?_, ?_, ?_⟩
  . intro tokenId no hno
    obtain ⟨no', hno', -⟩ := hback hno
    exact h.nonzero tokenId no' hno'
  . intro o ho hso
    obtain ⟨no, hno, howner, hselling⟩ := h.order o ((horders o hso).mp ho) hso
    obtain ⟨no', hno', howner', hselling'⟩ := hforth hno
    exact ⟨no', hno', howner'.trans howner, hselling'.trans hselling⟩
  . intro tokenId no hno hselling
    obtain ⟨no', hno', -, hselling'⟩ := hback hno
    obtain ⟨o, ho, hso, htoken⟩ := h.token tokenId no' hno' (hselling'.trans hselling)
    exact ⟨o, (horders o hso).mpr ho, hso, htoken⟩
  . intro o ho o' ho' hso hso' htoken
    exact h.unique o ((horders o hso).mp ho) o' ((horders o' hso').mp ho') hso hso' htoken

theorem SellingInv.update {no no' : NftObject} (h : db.SellingInv)
    (hnfts : db.nfts.Updates db'.nfts no no') (howner : no'.owner = no.owner)
    (hselling : no'.selling = no.selling)
    (horders : ∀ o, o.selling = true → (o ∈ db'.nftOrders.rows ↔ o ∈ db.nftOrders.rows)) :
    db'.SellingInv := by
  apply h.congr _ horders
  intro tokenId
  rw [hnfts.find?]
  split
  . next heq => rw [heq, hnfts.row, Option.map_some, Option.map_some, howner, hselling]
  . rfl

/-- Steps after which a token, perhaps with a new owner, is off the market with all its orders. -/
theorem SellingInv.stopSelling {no no' : NftObject} (h : db.SellingInv)
    (hnfts : db.nfts.Updates db'.nfts no no') (hselling : no'.selling = false)
    (hsub : ∀ o ∈ db'.nftOrders.rows, o ∈ db.nftOrders.rows)
    (hgone : ∀ o ∈ db'.nftOrders.rows, o.selling = true → o.tokenId ≠ no.tokenId)
    (hkept : ∀ o ∈ db.nftOrders.rows, o.selling = true → o.tokenId ≠ no.tokenId →
      o ∈ db'.nftOrders.rows) : db'.SellingInv where
  nonzero := by
    intro tokenId no₁ hno₁
    rw [hnfts.find?] at hno₁
    split at hno₁
    . next heq => exact heq ▸ h.nonzero _ _ hnfts.row
    . exact h.nonzero tokenId no₁ hno₁
  order := by
    intro o ho hso
    rw [hnfts.find?, if_neg (hgone o ho hso)]
    exact h.order o (hsub o ho) hso
  token := by
    intro tokenId no₁ hno₁ hs
    rw [hnfts.find?] at hno₁
    split at hno₁
    . injection hno₁ with hno₁
      rw [← hno₁, hselling] at hs
      cases hs
    . next hne =>
      obtain ⟨o, ho, hso, htoken⟩ := h.token tokenId no₁ hno₁ hs
      exact ⟨o, hkept o ho hso (htoken ▸ hne), hso, htoken⟩
  unique := by
    intro o ho o' ho'
    exact h.unique o (hsub o ho) o' (hsub o' ho')

/-- The same when the orders are those left by `clear_nft_orders` on the token. -/
theorem SellingInv.clearSelling {no no' : NftObject} (extra : List NftOrderObject)
    (h : db.SellingInv) (hnfts : db.nfts.Updates db'.nfts no no') (hselling : no'.selling = false)
    (horders : db.nftOrders.Removes db'.nftOrders (db.clearedNftOrders no.tokenId false ++ extra))
    (hextra : ∀ o ∈ extra, o.selling = false) : db'.SellingInv := by
  have hzero := h.nonzero _ _ hnfts.row
  apply h.stopSelling hnfts hselling
  . intro o ho
    exact ((horders.mem o).mp ho).1
  . intro o ho _ heq
    obtain ⟨ho, hout⟩ := (horders.mem o).mp ho
    apply hout
    rw [List.mem_append]
    exact .inl (mem_clearedNftOrders.mpr ⟨hzero, ho, heq, by simp⟩)
  . intro o ho hso hne
    rw [horders.mem, List.mem_append, not_or]
    refine ⟨ho, ?_, ?_⟩
    . intro hin
      exact hne (mem_clearedNftOrders.mp hin).2.2.1
    . intro hin
      rw [hextra o hin] at hso
      cases hso

theorem SellingInv.marketStep {op : NftOperation} (h : db.SellingInv)
    (hok : KeepsCoherence db (.operation op)) (hstep : MarketStep db op db') : db'.SellingInv := by
  cases hstep with
  | nftCollection | nftCollectionDelete => exact h.congr (fun _ => rfl) (fun _ _ => .rfl)
  | nftIssue _ hid hnew hinsert =>
    obtain ⟨-, hselling, -⟩ := hnew
    refine ⟨?_, ?_, ?_, h.unique⟩
    . intro tokenId no₁ hno₁
      rcases hinsert.find?_eq_some_iff.mp hno₁ with hold | ⟨-, heq⟩
      . exact h.nonzero tokenId no₁ hold
      . rw [← heq, hid]
        exact hok
    . intro o ho hso
      obtain ⟨no₁, hno₁, hrest⟩ := h.order o ho hso
      exact ⟨no₁, hinsert.find?_eq_some_iff.mpr (.inl hno₁), hrest⟩
    . intro tokenId no₁ hno₁ hs
      rcases hinsert.find?_eq_some_iff.mp hno₁ with hold | ⟨rfl, -⟩
      . exact h.token tokenId no₁ hold hs
      . rw [hselling] at hs
        cases hs
  | nftTransfer _ _ hfree _ hnfts =>
    exact h.stopSelling hnfts hfree.2.1 (fun _ ho => ho)
      (fun o ho hso => h.tokenId_ne_of_not_selling hnfts.row hfree.2.1 ho hso)
      (fun _ ho _ _ => ho)
  | burn _ _ hfree _ hnfts _ _ _ horders =>
    refine SellingInv.clearSelling [] h hnfts hfree.2.1 ?_ (by simp)
    rwa [List.append_nil]
  | @placeSellOrder op no ts cs os hno howner hfree hprice hnfts horders =>
    have hnone := fun o ho hso => h.tokenId_ne_of_not_selling (o := o) hnfts.row hfree.2 ho hso
    refine ⟨?_, ?_, ?_, ?_⟩
    . intro tokenId no₁ hno₁
      rw [hnfts.find?] at hno₁
      split at hno₁
      . next heq => exact heq ▸ h.nonzero _ _ hnfts.row
      . exact h.nonzero tokenId no₁ hno₁
    . intro o ho hso
      rw [hnfts.find?]
      rcases (horders.mem o).mp ho with ho | rfl
      . rw [if_neg (hnone o ho hso)]
        exact h.order o ho hso
      . rw [if_pos rfl]
        exact ⟨_, rfl, rfl, rfl⟩
    . intro tokenId no₁ hno₁ hs
      rw [hnfts.find?] at hno₁
      split at hno₁
      . next heq => exact ⟨_, (horders.mem _).mpr (.inr rfl), rfl, heq.symm⟩
      . obtain ⟨o, ho, hrest⟩ := h.token tokenId no₁ hno₁ hs
        exact ⟨o, (horders.mem o).mpr (.inl ho), hrest⟩
    . intro o ho o' ho' hso hso' htoken
      rcases (horders.mem o).mp ho with ho | rfl
      . rcases (horders.mem o').mp ho' with ho' | rfl
        . exact h.unique o ho o' ho' hso hso' htoken
        . exact absurd htoken (hnone o ho hso)
      . rcases (horders.mem o').mp ho' with ho' | rfl
        . exact absurd htoken.symm (hnone o' ho' hso')
        . rfl
  | @sellToBuyer op no noo l₁ l ts cs os _ _ _ _ _ hbuying _ _ _ hnfts _ _ horders =>
    refine SellingInv.clearSelling _ h hnfts rfl horders ?_
    intro o ho
    simp only [clearedExtra] at ho
    split at ho
    . cases ho
    . rw [List.mem_singleton] at ho
      rw [ho, hbuying]
  | cancelBet | ignoreBuy => exact h.congr (fun _ => rfl) (fun _ _ => .rfl)
  | placeBet _ _ _ _ _ _ _ _ _ _ hnfts => exact h.update hnfts rfl rfl (fun _ _ => .rfl)
  | placeOffer _ _ _ _ _ _ _ _ _ horders | placeCollectionOffer _ _ horders =>
    refine h.congr (fun _ => rfl) ?_
    intro o hso
    rw [horders.mem]
    constructor
    . intro ho
      apply ho.resolve_right
      intro heq
      rw [heq] at hso
      cases hso
    . intro ho
      exact .inl ho
  | @buyFromSeller op opNo no noo _ _ _ _ _ horder htoken hopNo hnoo hselling hno _ _ hbalance hnfts
      _ _ horders =>
    -- The order found is one for the token asked for, so the orders of the sold token are cleared.
    have hmatch := hok horder htoken opNo hopNo noo hnoo (fun _ => hbalance) hselling
    have hid := Table.key_of_find? hno
    rw [← hmatch, ← hid] at horders
    refine SellingInv.clearSelling [] h hnfts rfl ?_ (by simp)
    rwa [List.append_nil]
  | @cancelSellOrder op no noo _ _ _ hnoo hselling hno hnfts =>
    have hmem := Table.mem_of_find? hnoo
    have hid := Table.key_of_find? hno
    apply h.stopSelling hnfts rfl
    . intro o ho
      exact (Table.mem_erase.mp ho).1
    . intro o ho hso heq
      obtain ⟨ho, hkey⟩ := Table.mem_erase.mp ho
      apply hkey
      rw [h.unique o ho noo hmem hso hselling (heq.trans hid)]
    . intro o ho _ hne
      rw [Table.mem_erase]
      refine ⟨ho, ?_⟩
      intro hkey
      rw [db.nftOrders.mem_rows_inj ho hmem hkey] at hne
      exact hne hid.symm
  | cancelBuyOrder hnoo hbuying =>
    refine h.congr (fun _ => rfl) ?_
    intro o hso
    rw [Table.mem_erase]
    constructor
    . rintro ⟨ho, _⟩
      exact ho
    . intro ho
      refine ⟨ho, ?_⟩
      intro hkey
      rw [db.nftOrders.mem_rows_inj ho (Table.mem_of_find? hnoo) hkey, hbuying] at hso
      cases hso
  | stopAuction _ _ _ hnfts => exact h.update hnfts rfl rfl (fun _ _ => .rfl)
  | startAuction _ _ _ _ _ hnfts _ _ horders =>
    refine h.update hnfts rfl rfl ?_
    intro o hso
    rw [horders.mem]
    constructor
    . rintro ⟨ho, _⟩
      exact ho
    . intro ho
      refine ⟨ho, ?_⟩
      intro hin
      exact (mem_clearedNftOrders.mp hin).2.2.2 ⟨rfl, hso⟩

theorem SellingInv.settled {no : NftObject} (h : db.SellingInv) (hstep : Settled removed db no db') :
    db'.SellingInv := by
  cases hstep with
  | reset _ hnfts => exact h.update hnfts rfl rfl (fun _ _ => .rfl)
  | sold _ hnfts _ _ _ _ _ horders =>
    refine SellingInv.clearSelling [] h hnfts rfl ?_ (by simp)
    rwa [List.append_nil]

theorem NoMarket.sellingInv (h : db.NoMarket) : db.SellingInv := by
  constructor <;> simp [h.nftOrders, h.nfts]

theorem sellingInv_of_reach (h : market.Reach KeepsCoherence db) : db.SellingInv := by
  apply h.invariant
  . intro db hdb
    exact NoMarket.sellingInv hdb
  . intro db e db' hdb hok hstep
    cases e with
    | operation op => exact hdb.marketStep hok (marketStep_of_applyNftOperation hstep)
    | endOfBlock removed queue =>
      exact processNftBets_invariant (fun _ _ _ h hsettled => h.settled hsettled) hdb hstep.2
    | other =>
      have hstep : db.Elsewhere db' := hstep
      apply hdb.congr
      . intro tokenId
        rw [hstep.nfts]
      . intro o _
        rw [hstep.nftOrders]

end step

/-- `nft_buy` finds a selling order and is not ignored for lack of money. -/
structure Executes (db : Database) (op : NftBuyOperation) (no : NftObject)
    (noo : NftOrderObject) : Prop where
  order : op.orderId ≠ 0
  token : op.tokenId ≠ 0
  nft : db.nfts.find? op.tokenId = some no
  found : db.findNftOrder no.owner op.orderId = some noo
  funds : db.HasFunds op noo

/-- The purchase moves the token asked for, pays its owner, and leaves no selling order of it. -/
structure SellsTheToken (db db' : Database) (op : NftBuyOperation) (no : NftObject)
    (noo : NftOrderObject) : Prop where
  owner : ∀ tokenId, (db'.nfts.find? tokenId).map NftObject.owner
    = if tokenId = op.tokenId then some op.buyer
      else (db.nfts.find? tokenId).map NftObject.owner
  payment : ∀ name symbol, db'.ledger.mainBalance name symbol
    = db.ledger.mainBalance name symbol
      + single no.owner (priceOf op.price noo) name symbol
      + single op.buyer (minus (priceOf op.price noo)) name symbol
      + paid (heldPayments (db.clearedNftOrders op.tokenId false)) name symbol
  noOrder : ∀ o ∈ db'.nftOrders.rows, o.tokenId ≠ op.tokenId

theorem sellsTheToken_of_nftBuy {db db' : Database} {op : NftBuyOperation} {no : NftObject}
    {noo : NftOrderObject} (hexec : db.Executes op no noo) (hmatch : FindsOrderOfToken db op)
    (hwf : db.WellFormed) (hbuy : db.nftBuy op = .ok db') : SellsTheToken db db' op no noo := by
  have hstep := nftBuy_eq_ok hbuy
  cases hstep with
  | cancelBet hauction | placeBet hauction => exact absurd hauction hexec.order
  | placeOffer _ _ hno hnone =>
    rw [hexec.nft] at hno
    injection hno with hno
    rw [← hno, hexec.found] at hnone
    cases hnone
  | placeCollectionOffer htoken => exact absurd htoken hexec.token
  | ignoreBuy _ hopNo hnoo hearly hlt =>
    rw [hexec.nft] at hopNo
    injection hopNo with hopNo
    rw [← hopNo, hexec.found] at hnoo
    injection hnoo with hnoo
    subst hnoo
    have := hexec.funds hearly
    omega
  | buyFromSeller _ _ hopNo hnoo hselling hno _ _ _ hnfts _ hpay horders hclear =>
    rw [hexec.nft] at hopNo
    injection hopNo with hopNo
    rw [← hopNo, hexec.found] at hnoo
    injection hnoo with hnoo
    subst hnoo
    have hmem := Table.mem_of_find? hexec.found
    have howner : noo.owner = no.owner := congrArg Prod.fst (Table.key_of_find? hexec.found)
    have htoken := hmatch no hexec.nft noo hexec.found hexec.funds hselling
    rw [htoken, hexec.nft] at hno
    injection hno with hno
    subst hno
    have hid := Table.key_of_find? hexec.nft
    refine ⟨?_, ?_, ?_⟩
    . intro tokenId
      rw [hnfts.find?, hid]
      split
      . rfl
      . rfl
    . intro name symbol
      unfold OrderMoves at hclear
      rw [orderRefunds_of_not_holds hmem ((hwf.order _ hmem).selling hselling)] at hclear
      rw [hclear.balance, hpay.balance, howner]
      omega
    . intro o ho heq
      obtain ⟨ho, hout⟩ := (horders.mem o).mp ho
      exact hout (mem_clearedNftOrders.mpr ⟨hexec.token, ho, heq, by simp⟩)

/--
In every run whose purchases find orders of their own token, and whose token counter does not wrap,
selling orders are coherent and every executed purchase sells the token asked for.
-/
theorem coherent_of_reach {db : Database} (h : market.Reach KeepsCoherence db) :
    db.Coherent ∧ ∀ op no noo db', KeepsCoherence db (.operation (.nftBuy op)) →
      db.Executes op no noo → db.applyNftOperation (.nftBuy op) = .ok db' →
        SellsTheToken db db' op no noo := by
  have hwf := wellFormed_of_reachable h.reachable
  refine ⟨(sellingInv_of_reach h).coherent, ?_⟩
  intro op no noo db' hok hexec hbuy
  exact sellsTheToken_of_nftBuy hexec (hok hexec.order hexec.token) hwf hbuy

/-- Alice offers two tokens by the orders 5 and 6, and Bob buys the first one. -/
def sellTwoTokens : List NftOperation :=
  [
    .nftCollection { creator := "alice", name := "COOLGAME" },
    .nftIssue { creator := "alice", name := "COOLGAME", toAccount := "alice" },
    .nftIssue { creator := "alice", name := "COOLGAME", toAccount := "alice" },
    .nftSell { seller := "alice", tokenId := 1, orderId := 5, price := ⟨1000, steemSymbol⟩ },
    .nftSell { seller := "alice", tokenId := 2, orderId := 6, price := ⟨2000, steemSymbol⟩ },
    .nftBuy { buyer := "bob", name := "", tokenId := 1, orderId := 5, price := ⟨1000, steemSymbol⟩ }
  ]

def firstTokenSold : Database :=
  (sellTwoTokens.foldlM applyNftOperation firstMarket).toOption.getD firstMarket

def secondPurchase : NftBuyOperation :=
  { buyer := "carol", name := "", tokenId := 2, orderId := 6, price := ⟨2000, steemSymbol⟩ }

def bothTokensSold : Database :=
  (firstTokenSold.applyNftOperation (.nftBuy secondPurchase)).toOption.getD firstMarket

theorem executes_secondPurchase : ∃ no noo, firstTokenSold.Executes secondPurchase no noo := by
  have howner : (firstTokenSold.nfts.find? 2).map NftObject.owner = some "alice" := by
    decide +kernel
  obtain ⟨no, hno, hsame⟩ := Option.map_eq_some_iff.mp howner
  obtain ⟨noo, hnoo⟩ := Option.isSome_iff_exists.mp
    (show (firstTokenSold.findNftOrder "alice" 6).isSome = true by decide +kernel)
  refine ⟨no, noo, by decide, by decide, hno, hsame ▸ hnoo, ?_⟩
  intro hearly
  exact absurd hearly (by decide +kernel)

theorem coherent_of_reach_first_sold :
    firstTokenSold.Coherent ∧ ∃ no noo, firstTokenSold.Executes secondPurchase no noo ∧
      SellsTheToken firstTokenSold bothTokensSold secondPurchase no noo := by
  have hright := coherent_of_reach (reach_of_operations (.initial noMarket_firstMarket)
    (show Along KeepsCoherence firstMarket sellTwoTokens by decide +kernel)
    (show _ = Except.ok firstTokenSold from eq_ok_of_isSome (by decide +kernel)))
  obtain ⟨no, noo, hexec⟩ := executes_secondPurchase
  exact ⟨hright.1, no, noo, hexec, hright.2 _ no noo _ (by decide +kernel) hexec
    (eq_ok_of_isSome (by decide +kernel))⟩

/-- Alice sells her second token by order 5; then Bob asks for the first one by that number. -/
def buyByOrderOfOtherToken : List NftOperation :=
  [
    .nftCollection { creator := "alice", name := "COOLGAME" },
    .nftIssue { creator := "alice", name := "COOLGAME", toAccount := "alice" },
    .nftIssue { creator := "alice", name := "COOLGAME", toAccount := "alice" },
    .nftSell { seller := "alice", tokenId := 2, orderId := 5, price := ⟨1000, steemSymbol⟩ },
    .nftBuy { buyer := "bob", name := "", tokenId := 1, orderId := 5, price := ⟨1000, steemSymbol⟩ }
  ]

def boughtByOrderOfOtherToken : Database :=
  (buyByOrderOfOtherToken.foldlM applyNftOperation firstMarket).toOption.getD firstMarket

/-- The second token goes to Bob while its selling order stays, so Alice can sell it again. -/
theorem nftBuy_takes_token_of_order :
    market.Reachable boughtByOrderOfOtherToken ∧ ¬boughtByOrderOfOtherToken.Coherent := by
  constructor
  . exact reachable_of_operations reachable_firstMarket (eq_ok_of_isSome (by decide +kernel))
  . intro h
    have hstale : ∃ o ∈ boughtByOrderOfOtherToken.nftOrders.rows, o.selling = true ∧
        o.owner = "alice" ∧ o.tokenId = 2 := by
      decide +kernel
    obtain ⟨o, ho, hselling, howner, htoken⟩ := hstale
    obtain ⟨no, hno, hsame⟩ := h.owner o ho hselling
    rw [htoken] at hno
    rw [howner] at hsame
    have hbob : (boughtByOrderOfOtherToken.nfts.find? 2).map NftObject.owner = some "bob" := by
      decide +kernel
    rw [hno, Option.map_some, hsame] at hbob
    revert hbob
    decide

end Database
end Golos
