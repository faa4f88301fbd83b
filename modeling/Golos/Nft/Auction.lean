import Golos.Nft.Lemmas.WellFormed

/-!
This module contains the specification of the settlement of auctions, token by token from the bets
of the token, and when one turn of `process_nft_bets` meets it.
-/

namespace Golos
namespace Database

open Checked Ledger

/-- The money in bets. -/
def betMoney (db : Database) (symbol : AssetSymbolType) : ℤ :=
  db.nftBets.sum fun b => inSymbol b.price symbol

/--
Whom the settlement of a token pays when it looks at the bets of the token only: the owner gets the
price of the first bet, the highest one, and the other bets go back.
-/
def ownSettlement (db : Database) (tokenId : Nat) : List Payment :=
  match db.nfts.find? tokenId, db.nftBetsOf tokenId with
  | some no, bet :: bets => (no.owner, bet.price) :: bets.map NftBetObject.payment
  | _, _ => []

/-- The tokens of `queue` are taken off their auctions together with their own bets. -/
structure TakesOwnBets (db db' : Database) (queue : List Nat) : Prop where
  token : ∀ tokenId ∈ queue, ∀ no, db.nfts.find? tokenId = some no →
    db'.nfts.find? tokenId
      = some (settledNft no db.headBlockTime (db.nftBetsOf tokenId).head?)
  otherToken : ∀ tokenId, tokenId ∉ queue → db'.nfts.find? tokenId = db.nfts.find? tokenId
  collection : ∀ name, tokenCounts db'.nftCollections name = tokenCounts db.nftCollections name
  hold : ∀ name, db'.ledger.nftHold name = db.ledger.nftHold name
    - heldBy (queue.flatMap fun tokenId => (db.nftBetsOf tokenId).map NftBetObject.payment) name
  bets : ∀ b, b ∈ db'.nftBets.rows ↔ b ∈ db.nftBets.rows ∧ b.tokenId ∉ queue
  orders : ∀ o, o.tokenId ∉ queue → (o ∈ db'.nftOrders.rows ↔ o ∈ db.nftOrders.rows)
  headBlockTime : db'.headBlockTime = db.headBlockTime

/-- The tokens of `queue` are settled from their own bets, and nothing else happens. -/
structure SettlesOwnBets (db db' : Database) (queue : List Nat) : Prop extends
    TakesOwnBets db db' queue where
  /-- The first bet of a token is its highest one. -/
  highest : ∀ tokenId ∈ queue, ∀ bet bets, db.nftBetsOf tokenId = bet :: bets →
    ∀ b ∈ bets, b.price.symbol = bet.price.symbol ∧ b.price.amount < bet.price.amount
  balance : ∀ name symbol, db'.ledger.mainBalance name symbol
    = db.ledger.mainBalance name symbol + paid (queue.flatMap db.ownSettlement) name symbol
  total : ∀ symbol, db'.ledger.totalBalance symbol + db'.betMoney symbol
    = db.ledger.totalBalance symbol + db.betMoney symbol

/--
A token of the queue without own bets is reached only when all bets of greater tokens belong to
tokens that were settled before it.
-/
def OwnBetsOnly (db : Database) (settled : List Nat) : List Nat → Prop
  | [] => True
  | tokenId :: queue =>
    (db.nftBetsOf tokenId = [] → ∀ b ∈ db.nftBets.rows, tokenId < b.tokenId → b.tokenId ∈ settled)
      ∧ OwnBetsOnly db (settled ++ [tokenId]) queue

/-- The next settlement of the token looks at a bet of the token, or at none. -/
def FindsOwnBet (db : Database) (tokenId : Nat) : Prop :=
  ∀ bet ∈ db.lowerBoundBet tokenId, bet.tokenId = tokenId

section bets

variable {db db' : Database}

theorem WellFormed.antisymm_byTokenPrice (h : db.WellFormed) {b b' : NftBetObject}
    (hb : b ∈ db.nftBets.rows) (hb' : b' ∈ db.nftBets.rows) (hle : b.ByTokenPrice b')
    (hle' : b'.ByTokenPrice b) : b = b' := by
  unfold NftBetObject.ByTokenPrice at hle hle'
  have htoken : b.tokenId = b'.tokenId := by omega
  apply h.price_inj b hb b' hb' htoken
  apply le_antisymm
  . exact (hle'.resolve_left (by omega)).2
  . exact (hle.resolve_left (by omega)).2

/-- The bets of a token in index order depend only on which bets there are. -/
theorem WellFormed.nftBetsOf_congr (h : db.WellFormed) {tokenId : Nat}
    (hmem : ∀ b, b.tokenId = tokenId → (b ∈ db'.nftBets.rows ↔ b ∈ db.nftBets.rows)) :
    db'.nftBetsOf tokenId = db.nftBetsOf tokenId := by
  have hiff : ∀ b, b ∈ db'.nftBetsOf tokenId ↔ b ∈ db.nftBetsOf tokenId := by
    intro b
    rw [mem_nftBetsOf, mem_nftBetsOf]
    constructor
    . intro ⟨hb, htoken⟩
      exact ⟨(hmem b htoken).mp hb, htoken⟩
    . intro ⟨hb, htoken⟩
      exact ⟨(hmem b htoken).mpr hb, htoken⟩
  refine List.Perm.eq_of_pairwise ?_ (List.pairwise_insertionSort NftBetObject.ByTokenPrice _)
    (List.pairwise_insertionSort _ _) ?_
  . intro b b' hb hb' hle hle'
    exact h.antisymm_byTokenPrice (mem_nftBetsOf.mp ((hiff b).mp hb)).1 (mem_nftBetsOf.mp hb').1
      hle hle'
  . exact (List.perm_ext_iff_of_nodup (nodup_nftBetsOf _ _) (nodup_nftBetsOf _ _)).mpr hiff

theorem WellFormed.highest (h : db.WellFormed) {tokenId : Nat} {bet : NftBetObject}
    {bets : List NftBetObject} (hbets : db.nftBetsOf tokenId = bet :: bets) :
    ∀ b ∈ bets, b.price.symbol = bet.price.symbol ∧ b.price.amount < bet.price.amount := by
  intro b hb
  have hsorted := List.pairwise_insertionSort NftBetObject.ByTokenPrice
    (db.nftBets.rows.filter fun b => b.tokenId = tokenId)
  have hnodup := nodup_nftBetsOf db tokenId
  rw [hbets] at hnodup
  rw [show (db.nftBets.rows.filter fun b => b.tokenId = tokenId).insertionSort
    NftBetObject.ByTokenPrice = bet :: bets from hbets] at hsorted
  have hmem : ∀ b' ∈ bet :: bets, b' ∈ db.nftBets.rows ∧ b'.tokenId = tokenId := by
    intro b' hb'
    rwa [← hbets, mem_nftBetsOf] at hb'
  obtain ⟨hbet, hbetToken⟩ := hmem bet List.mem_cons_self
  obtain ⟨hb', hbToken⟩ := hmem b (List.mem_cons_of_mem _ hb)
  have hsymbol : b.price.symbol = bet.price.symbol := by
    obtain ⟨no, hno, -, hb⟩ := h.onAuction b hb'
    obtain ⟨no', hno', -, hbet⟩ := h.onAuction bet hbet
    rw [hbToken] at hno
    rw [hbetToken, hno] at hno'
    injection hno' with hno'
    rw [hb, hbet, hno']
  refine ⟨hsymbol, Asset.amount_lt_of_toReal_lt hsymbol ?_⟩
  have hle : b.priceReal ≤ bet.priceReal := by
    have := (List.pairwise_cons.mp hsorted).1 b hb
    unfold NftBetObject.ByTokenPrice at this
    exact (this.resolve_left (by omega)).2
  apply lt_of_le_of_ne hle
  intro heq
  have := h.price_inj b hb' bet hbet (hbToken.trans hbetToken.symm) heq
  subst this
  exact (List.nodup_cons.mp hnodup).1 hb

/-- The lookup in the index of all bets finds the highest bet of a token that has bets. -/
theorem WellFormed.lowerBoundBet_of_own (h : db.WellFormed) {tokenId : Nat} {bet : NftBetObject}
    {bets : List NftBetObject} (hbets : db.nftBetsOf tokenId = bet :: bets) :
    db.lowerBoundBet tokenId = some bet := by
  have hbet : bet ∈ db.nftBets.rows ∧ bet.tokenId = tokenId := by
    rw [← mem_nftBetsOf, hbets]
    exact List.mem_cons_self
  cases hfound : db.lowerBoundBet tokenId with
  | none =>
    have := lowerBoundBet_eq_none.mp hfound bet hbet.1
    omega
  | some found =>
    have htoken := tokenId_of_lowerBoundBet hfound (by simp [hbets])
    obtain ⟨⟨hmem, -⟩, hmin⟩ := lowerBoundBet_eq_some hfound
    have hown : found ∈ bet :: bets := by
      rw [← hbets, mem_nftBetsOf]
      exact ⟨hmem, htoken⟩
    rcases List.mem_cons.mp hown with rfl | hin
    . rfl
    . -- A later bet of the token is cheaper, so it cannot come first.
      have hlt := (h.highest hbets found hin)
      rcases hmin bet hbet.1 hbet.2.ge with heq | hle
      . rw [heq]
      . unfold NftBetObject.ByTokenPrice at hle
        have hreal := (hle.resolve_left (by omega)).2
        have := Asset.toReal_mono hlt.1 hlt.2.le
        have heq := h.price_inj found hmem bet hbet.1 (htoken.trans hbet.2.symm)
          (le_antisymm this hreal)
        rw [heq]

/-- Clearing the orders of a token in auction pays nobody and releases nothing. -/
theorem WellFormed.moves_clearedNftOrders (h : db.WellFormed) {no : NftObject} {l l' : Ledger}
    (hno : db.nfts.find? no.tokenId = some no) (hrunning : no.auctionExpiration ≠ 0)
    (hclear : OrderMoves l l' none (db.clearedNftOrders no.tokenId false)) :
    Moves l l' (fun _ _ => 0) (fun _ => 0) (fun _ => 0) := by
  have hholds : ∀ o ∈ db.clearedNftOrders no.tokenId false, o.holds = false := by
    intro o ho
    obtain ⟨-, hmem, htoken, -⟩ := mem_clearedNftOrders.mp ho
    exact h.not_holds_of_running hno hrunning hmem htoken
  have hrefunds : orderRefunds none (db.clearedNftOrders no.tokenId false) = [] := by
    unfold orderRefunds
    rw [List.filter_eq_nil_iff.mpr]
    . rfl
    . intro o ho
      simp [hholds o ho]
  have hheld : heldPayments (db.clearedNftOrders no.tokenId false) = [] := by
    unfold heldPayments
    rw [List.filter_eq_nil_iff.mpr]
    . rfl
    . intro o ho
      simp [hholds o ho]
  unfold OrderMoves at hclear
  rw [hrefunds, hheld] at hclear
  apply hclear.congr
  . intro a s
    rfl
  . intro a
    rfl
  . intro s
    rfl

end bets

section settlement

variable {removed : Removed} {db db' : Database}

/--
What a settlement does to the money in balances and bets: a bet of another token mints, and a bet
that the removed winner is taken for is not paid back.
-/
theorem Settled.money {no : NftObject} (h : db.WellFormed) (hrunning : no.auctionExpiration ≠ 0)
    (hstep : Settled removed db no db') (symbol : AssetSymbolType) :
    db'.ledger.totalBalance symbol + db'.betMoney symbol
      = db.ledger.totalBalance symbol + db.betMoney symbol
        + match db.lowerBoundBet no.tokenId with
          | some bet =>
            if bet.tokenId = no.tokenId then
              paidTotal (betRefunds (.dangling removed) (db.nftBetsOf no.tokenId).tail) symbol
                - paidTotal ((db.nftBetsOf no.tokenId).tail.map NftBetObject.payment) symbol
            else
              inSymbol bet.price symbol
          | none => 0 := by
  cases hstep with
  | reset hbet =>
    rw [hbet]
    simp [betMoney]
  | @sold bet l₁ l₂ l ts cs os bs hbet hnfts _ _ hpay hbets hrefund horders hclear =>
    have hclear := h.moves_clearedNftOrders hnfts.row hrunning hclear
    have hsum := hbets.sum fun b => inSymbol b.price symbol
    have hown : ((db.nftBetsOf no.tokenId).map fun b => inSymbol b.price symbol).sum
        = paidTotal ((db.nftBetsOf no.tokenId).map NftBetObject.payment) symbol := by
      unfold paidTotal
      rw [List.map_map]
      rfl
    rw [hbet]
    simp only [betMoney, hsum, hown, hclear.total, hrefund.total, hpay.total]
    cases hbetsOf : db.nftBetsOf no.tokenId with
    | nil =>
      -- The found bet belongs to another token and stays where it is.
      have hne : bet.tokenId ≠ no.tokenId := by
        intro heq
        have := mem_nftBetsOf.mpr ⟨(lowerBoundBet_eq_some hbet).1.1, heq⟩
        rw [hbetsOf] at this
        cases this
      simp only [hne, ↓reduceIte, betRefunds_nil, List.map_nil, paidTotal_nil]
      omega
    | cons first bets =>
      rw [h.lowerBoundBet_of_own hbetsOf] at hbet
      injection hbet with hbet
      subst hbet
      have htoken : first.tokenId = no.tokenId := by
        have : first ∈ db.nftBetsOf no.tokenId := by
          rw [hbetsOf]
          exact List.mem_cons_self
        exact (mem_nftBetsOf.mp this).2
      rw [betRefunds_head]
      simp only [htoken, ↓reduceIte, List.map_cons, List.tail_cons, paidTotal_cons,
        NftBetObject.payment]
      omega

theorem TakesOwnBets.nil (db : Database) : TakesOwnBets db db [] := by
  constructor <;> simp

theorem SettlesOwnBets.nil (db : Database) : SettlesOwnBets db db [] where
  toTakesOwnBets := .nil db
  highest := by simp
  balance := by simp
  total := by simp

theorem ownSettlement_of_nil {tokenId : Nat} (h : db.nftBetsOf tokenId = []) :
    db.ownSettlement tokenId = [] := by
  unfold ownSettlement
  rw [h]
  split
  . next heq => cases heq
  . rfl

theorem ownSettlement_of_cons {no : NftObject} {bet : NftBetObject} {bets : List NftBetObject}
    (hno : db.nfts.find? no.tokenId = some no) (h : db.nftBetsOf no.tokenId = bet :: bets) :
    db.ownSettlement no.tokenId = (no.owner, bet.price) :: bets.map NftBetObject.payment := by
  unfold ownSettlement
  rw [h, hno]

theorem TakesOwnBets.nftBetsOf {db₁ : Database} {settled : List Nat} {tokenId : Nat}
    (hpart : TakesOwnBets db db₁ settled) (h : db.WellFormed) (hnew : tokenId ∉ settled) :
    db₁.nftBetsOf tokenId = db.nftBetsOf tokenId := by
  apply h.nftBetsOf_congr
  intro b htoken
  rw [hpart.bets, htoken]
  simp [hnew]

/-- If the token has no bets, the condition lets the lookup find none. -/
theorem TakesOwnBets.lowerBoundBet_eq_none {db₁ : Database} {settled : List Nat} {tokenId : Nat}
    (hpart : TakesOwnBets db db₁ settled) (hbets : db.nftBetsOf tokenId = [])
    (hown : ∀ b ∈ db.nftBets.rows, tokenId < b.tokenId → b.tokenId ∈ settled) :
    db₁.lowerBoundBet tokenId = none := by
  rw [Database.lowerBoundBet_eq_none]
  intro b hb
  obtain ⟨hb, hgone⟩ := (hpart.bets b).mp hb
  have hne : b.tokenId ≠ tokenId := by
    intro heq
    have := mem_nftBetsOf.mpr ⟨hb, heq⟩
    rw [hbets] at this
    cases this
  have := mt (hown b hb) hgone
  omega

/-- The turn of a token in a part of the queue that is settled from own bets. -/
theorem TakesOwnBets.findsOwnBet {db₁ : Database} {settled : List Nat} {tokenId : Nat}
    (hpart : TakesOwnBets db db₁ settled) (h : db.WellFormed) (hnew : tokenId ∉ settled)
    (hown : db.nftBetsOf tokenId = [] →
      ∀ b ∈ db.nftBets.rows, tokenId < b.tokenId → b.tokenId ∈ settled) :
    db₁.FindsOwnBet tokenId := by
  intro bet hbet
  by_cases hbets : db.nftBetsOf tokenId = []
  . rw [hpart.lowerBoundBet_eq_none hbets (hown hbets)] at hbet
    cases hbet
  . rw [← hpart.nftBetsOf h hnew] at hbets
    exact tokenId_of_lowerBoundBet hbet hbets

/-- One more token taken off its auction with its own bets. -/
theorem TakesOwnBets.settle {db₁ : Database} {settled : List Nat} {no : NftObject}
    (hpart : TakesOwnBets db db₁ settled) (h : db.WellFormed) (h₁ : db₁.WellFormed)
    (hnew : no.tokenId ∉ settled) (hno : db.nfts.find? no.tokenId = some no)
    (hrunning : no.auctionExpiration ≠ 0) (hstep : Settled removed db₁ no db')
    (hown : db.nftBetsOf no.tokenId = [] →
      ∀ b ∈ db.nftBets.rows, no.tokenId < b.tokenId → b.tokenId ∈ settled) :
    TakesOwnBets db db' (settled ++ [no.tokenId]) := by
  have hbetsOf := hpart.nftBetsOf h hnew
  have hne : ∀ tokenId ∈ settled, tokenId ≠ no.tokenId := by
    intro tokenId hin heq
    exact hnew (heq ▸ hin)
  -- The settled token is the one of the first state, and its winner the first own bet.
  have htoken : ∀ {ts : Table NftObject.tokenId} {no' : NftObject},
      db₁.nfts.Updates ts no no' →
      no' = settledNft no db.headBlockTime (db.nftBetsOf no.tokenId).head? →
      ∀ tokenId ∈ settled ++ [no.tokenId], ∀ no₁, db.nfts.find? tokenId = some no₁ →
        ts.find? tokenId
          = some (settledNft no₁ db.headBlockTime (db.nftBetsOf tokenId).head?) := by
    intro ts no' hnfts hno' tokenId hin no₁ hno₁
    rcases List.mem_append.mp hin with hin | hin
    . rw [hnfts.find?, if_neg (hne tokenId hin)]
      exact hpart.token tokenId hin no₁ hno₁
    . rw [List.mem_singleton] at hin
      subst hin
      rw [hno] at hno₁
      injection hno₁ with hno₁
      subst hno₁
      rw [hnfts.find?, if_pos rfl, hno']
  have hotherToken : ∀ {ts : Table NftObject.tokenId} {no' : NftObject},
      db₁.nfts.Updates ts no no' →
      ∀ tokenId, tokenId ∉ settled ++ [no.tokenId] →
        ts.find? tokenId = db.nfts.find? tokenId := by
    intro ts no' hnfts tokenId hout
    simp only [List.mem_append, List.mem_singleton, not_or] at hout
    rw [hnfts.find?, if_neg hout.2]
    exact hpart.otherToken tokenId hout.1
  cases hbets : db.nftBetsOf no.tokenId with
  | nil =>
    have hnone := hpart.lowerBoundBet_eq_none hbets (hown hbets)
    cases hstep with
    | sold hbet =>
      rw [hnone] at hbet
      cases hbet
    | reset _ hnfts _ hcounts =>
      refine ⟨htoken hnfts ?_, hotherToken hnfts, ?_, ?_, ?_, ?_, hpart.headBlockTime⟩
      . rw [hbets, hpart.headBlockTime]
        rfl
      . intro name
        rw [hcounts, hpart.collection]
      . intro name
        simp [hpart.hold, hbets]
      . intro b
        simp only [hpart.bets, List.mem_append, List.mem_singleton, not_or]
        constructor
        . intro ⟨hb, hgone⟩
          refine ⟨hb, hgone, ?_⟩
          intro heq
          have := mem_nftBetsOf.mpr ⟨hb, heq⟩
          rw [hbets] at this
          cases this
        . intro ⟨hb, hgone, _⟩
          exact ⟨hb, hgone⟩
      . intro o hout
        simp only [List.mem_append, not_or] at hout
        exact hpart.orders o hout.1
  | cons bet bets =>
    have hfound := h₁.lowerBoundBet_of_own (hbetsOf.trans hbets)
    cases hstep with
    | reset hbet =>
      rw [hfound] at hbet
      cases hbet
    | @sold bet' l₁ l₂ l ts cs os bs hbet hnfts _ hcounts hpay hremoved hrefund horders hclear =>
      rw [hfound] at hbet
      injection hbet with hbet
      subst hbet
      have hclear := h₁.moves_clearedNftOrders hnfts.row hrunning hclear
      rw [hbetsOf, hbets] at hremoved hrefund
      refine ⟨htoken hnfts ?_, hotherToken hnfts, ?_, ?_, ?_, ?_, hpart.headBlockTime⟩
      . rw [hbets, hpart.headBlockTime]
        rfl
      . intro name
        rw [hcounts, hpart.collection]
      . intro name
        simp only [hclear.hold, hrefund.hold, hpay.hold, hpart.hold, List.flatMap_append,
          List.flatMap_cons, List.flatMap_nil, List.append_nil, heldBy_append, hbets]
        omega
      . intro b
        simp only [hremoved.mem, hpart.bets, List.mem_append, List.mem_singleton, not_or,
          ← hbets, mem_nftBetsOf]
        tauto
      . intro o hout
        simp only [List.mem_append, List.mem_singleton, not_or] at hout
        rw [horders.mem, hpart.orders o hout.1]
        constructor
        . intro ⟨ho, _⟩
          exact ho
        . intro ho
          refine ⟨ho, ?_⟩
          intro hin
          exact hout.2 (mem_clearedNftOrders.mp hin).2.2.1

/-- One more settlement from own bets, all of which are told from the winner. -/
theorem SettlesOwnBets.settle {db₁ : Database} {settled : List Nat} {no : NftObject}
    (hpart : SettlesOwnBets db db₁ settled) (h : db.WellFormed) (h₁ : db₁.WellFormed)
    (hnew : no.tokenId ∉ settled) (hno : db.nfts.find? no.tokenId = some no)
    (hrunning : no.auctionExpiration ≠ 0) (hstep : Settled removed db₁ no db')
    (hown : db.nftBetsOf no.tokenId = [] →
      ∀ b ∈ db.nftBets.rows, no.tokenId < b.tokenId → b.tokenId ∈ settled)
    (hread : ∀ b ∈ (db.nftBetsOf no.tokenId).tail, removed b ≠ b.byTokenOwner) :
    SettlesOwnBets db db' (settled ++ [no.tokenId]) := by
  have htakes := hpart.toTakesOwnBets.settle h h₁ hnew hno hrunning hstep hown
  have hbetsOf := hpart.nftBetsOf h hnew
  have hmoney := hstep.money h₁ hrunning
  rw [hbetsOf, betRefunds_dangling hread] at hmoney
  refine ⟨htakes, fun tokenId _ bet bets hbets => h.highest hbets, ?_, ?_⟩
  . intro name symbol
    cases hbets : db.nftBetsOf no.tokenId with
    | nil =>
      have hnone := hpart.lowerBoundBet_eq_none hbets (hown hbets)
      cases hstep with
      | sold hbet =>
        rw [hnone] at hbet
        cases hbet
      | reset => simp [hpart.balance, ownSettlement_of_nil hbets]
    | cons bet bets =>
      have hfound := h₁.lowerBoundBet_of_own (hbetsOf.trans hbets)
      cases hstep with
      | reset hbet =>
        rw [hfound] at hbet
        cases hbet
      | @sold bet' l₁ l₂ l ts cs os bs hbet hnfts _ _ hpay hremoved hrefund horders hclear =>
        rw [hfound] at hbet
        injection hbet with hbet
        subst hbet
        have hclear := h₁.moves_clearedNftOrders hnfts.row hrunning hclear
        rw [hbets, List.tail_cons] at hread
        unfold BetMoves at hrefund
        rw [hbetsOf, hbets, betRefunds_head, betRefunds_dangling hread] at hrefund
        simp only [hclear.balance, hrefund.balance, hpay.balance, hpart.balance,
          List.flatMap_append, List.flatMap_cons, List.flatMap_nil, List.append_nil, paid_append,
          ownSettlement_of_cons hno hbets, paid_cons]
        omega
  . intro symbol
    have hfinds := hpart.findsOwnBet h hnew hown
    have htotal := hpart.total symbol
    rw [hmoney]
    cases hfound : db₁.lowerBoundBet no.tokenId with
    | none =>
      dsimp only
      omega
    | some bet =>
      have hown := hfinds bet hfound
      dsimp only
      rw [if_pos hown]
      omega

end settlement

end Database
end Golos
