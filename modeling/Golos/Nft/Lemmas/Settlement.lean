import Golos.Ledger.Lemmas
import Golos.Nft.Impl.Objects

/-!
This module contains what the functions that clear orders and bets do: which rows they remove, whom
they pay, and which holds they release.
-/

namespace Golos

open Checked Ledger

abbrev Payment :=
  AccountName × Asset

/-- The change of a balance by a list of payments. -/
def paid (ps : List Payment) (a : AccountName) (s : AssetSymbolType) : ℤ :=
  (ps.map fun p => single p.1 p.2 a s).sum

/-- The change of a total by a list of payments. -/
def paidTotal (ps : List Payment) (s : AssetSymbolType) : ℤ :=
  (ps.map fun p => inSymbol p.2 s).sum

/-- The NFT hold that stands behind a list of payments: only GOLOS counts. -/
def heldBy (ps : List Payment) (a : AccountName) : ℤ :=
  (ps.map fun p => single p.1 p.2 a steemSymbol).sum

@[simp]
theorem paid_nil (a : AccountName) (s : AssetSymbolType) : paid [] a s = 0 := rfl

@[simp]
theorem paid_cons (p : Payment) (ps : List Payment) (a : AccountName) (s : AssetSymbolType) :
    paid (p :: ps) a s = single p.1 p.2 a s + paid ps a s := by
  simp [paid]

@[simp]
theorem paidTotal_nil (s : AssetSymbolType) : paidTotal [] s = 0 := rfl

@[simp]
theorem paidTotal_cons (p : Payment) (ps : List Payment) (s : AssetSymbolType) :
    paidTotal (p :: ps) s = inSymbol p.2 s + paidTotal ps s := by
  simp [paidTotal]

@[simp]
theorem heldBy_nil (a : AccountName) : heldBy [] a = 0 := rfl

@[simp]
theorem heldBy_cons (p : Payment) (ps : List Payment) (a : AccountName) :
    heldBy (p :: ps) a = single p.1 p.2 a steemSymbol + heldBy ps a := by
  simp [heldBy]

@[simp]
theorem paid_append (ps qs : List Payment) (a : AccountName) (s : AssetSymbolType) :
    paid (ps ++ qs) a s = paid ps a s + paid qs a s := by
  simp [paid]

@[simp]
theorem paidTotal_append (ps qs : List Payment) (s : AssetSymbolType) :
    paidTotal (ps ++ qs) s = paidTotal ps s + paidTotal qs s := by
  simp [paidTotal]

@[simp]
theorem heldBy_append (ps qs : List Payment) (a : AccountName) :
    heldBy (ps ++ qs) a = heldBy ps a + heldBy qs a := by
  simp [heldBy]

def NftOrderObject.payment (o : NftOrderObject) : Payment :=
  (o.owner, o.price)

def NftBetObject.payment (b : NftBetObject) : Payment :=
  (b.owner, b.price)

namespace Database

/-- What the held orders of a list are worth. -/
def heldPayments (orders : List NftOrderObject) : List Payment :=
  (orders.filter fun o => o.holds).map NftOrderObject.payment

/-- What clearing a list of orders pays back. -/
def orderRefunds (proceedOrder : Option NftOrderObject) (orders : List NftOrderObject) :
    List Payment :=
  (orders.filter fun o => o.holds ∧ ¬isProceedOrder proceedOrder o).map NftOrderObject.payment

/-- What clearing a list of bets pays back, with a pointer that may be left dangling on the way. -/
def betRefunds (proceedBet : ProceedBet) : List NftBetObject → List Payment
  | [] => []
  | bet :: bets =>
    if proceedBet.is bet = false then
      bet.payment :: betRefunds (proceedBet.remove bet) bets
    else
      betRefunds (proceedBet.remove bet) bets

theorem adjustBalance_eq_ok {db db' : Database} {name : AccountName} {delta : Asset} :
    db.adjustBalance name delta = .ok db' ↔
      ∃ l, db.ledger.adjustBalance name delta = .ok l ∧ db' = { db with ledger := l } := by
  simp only [adjustBalance, bind_eq_ok, pure_eq_ok, eq_comm (b := db')]

theorem adjustNftHoldBalance_eq_ok {db db' : Database} {name : AccountName} {delta : ℤ} :
    db.adjustNftHoldBalance name delta = .ok db' ↔
      ∃ l, db.ledger.adjustNftHoldBalance name delta = .ok l ∧ db' = { db with ledger := l } := by
  simp only [adjustNftHoldBalance, bind_eq_ok, pure_eq_ok, eq_comm (b := db')]

/-- A refund that is made under a condition. -/
theorem adjustBalanceIf_eq_ok {p : Prop} [Decidable p] {db db' : Database} {name : AccountName}
    {delta : Asset} (h : db.adjustBalanceIf p name delta = .ok db') :
    ∃ l, db' = { db with ledger := l } ∧
      Moves db.ledger l (fun a s => if p then single name delta a s else 0) (fun _ => 0)
        (fun s => if p then inSymbol delta s else 0) := by
  unfold adjustBalanceIf at h
  split at h
  . next hp =>
    rw [adjustBalance_eq_ok] at h
    obtain ⟨l, hl, rfl⟩ := h
    refine ⟨l, rfl, ?_⟩
    simp only [hp, ↓reduceIte]
    exact moves_adjustBalance hl
  . next hp =>
    rw [pure_eq_ok] at h
    subst h
    refine ⟨_, rfl, ?_⟩
    simp only [hp, ↓reduceIte]
    exact Moves.refl _

theorem adjustNftHoldBalanceIf_eq_ok {p : Prop} [Decidable p] {db db' : Database}
    {name : AccountName} {delta : ℤ} (h : db.adjustNftHoldBalanceIf p name delta = .ok db') :
    ∃ l, db' = { db with ledger := l } ∧
      Moves db.ledger l (fun _ _ => 0) (fun a => if p then holdOf name delta a else 0)
        (fun _ => 0) := by
  unfold adjustNftHoldBalanceIf at h
  split at h
  . next hp =>
    rw [adjustNftHoldBalance_eq_ok] at h
    obtain ⟨l, hl, rfl⟩ := h
    refine ⟨l, rfl, ?_⟩
    simp only [hp, ↓reduceIte]
    exact moves_adjustNftHoldBalance hl
  . next hp =>
    rw [pure_eq_ok] at h
    subst h
    refine ⟨_, rfl, ?_⟩
    simp only [hp, ↓reduceIte]
    exact Moves.refl _

theorem holdOf_neg_if (name : AccountName) (price : Asset) (a : AccountName) :
    (if price.symbol = steemSymbol then holdOf name (-price.amount) a else 0)
      = -single name price a steemSymbol := by
  simp only [holdOf, single, eq_comm (a := steemSymbol)]
  split <;> split <;> simp_all

@[simp]
theorem heldPayments_nil : heldPayments [] = [] := rfl

theorem heldPayments_cons (o : NftOrderObject) (orders : List NftOrderObject) :
    heldPayments (o :: orders)
      = if o.holds then o.payment :: heldPayments orders else heldPayments orders := by
  unfold heldPayments
  rw [List.filter_cons]
  split <;> rfl

@[simp]
theorem orderRefunds_nil (proceedOrder : Option NftOrderObject) :
    orderRefunds proceedOrder [] = [] := rfl

theorem orderRefunds_cons (proceedOrder : Option NftOrderObject) (o : NftOrderObject)
    (orders : List NftOrderObject) :
    orderRefunds proceedOrder (o :: orders)
      = if o.holds ∧ ¬isProceedOrder proceedOrder o then
          o.payment :: orderRefunds proceedOrder orders
        else
          orderRefunds proceedOrder orders := by
  unfold orderRefunds
  rw [List.filter_cons]
  simp only [decide_eq_true_eq]
  split <;> rfl

@[simp]
theorem betRefunds_nil (proceedBet : ProceedBet) : betRefunds proceedBet [] = [] := rfl

theorem betRefunds_cons (proceedBet : ProceedBet) (bet : NftBetObject) (bets : List NftBetObject) :
    betRefunds proceedBet (bet :: bets)
      = if proceedBet.is bet = false then
          bet.payment :: betRefunds (proceedBet.remove bet) bets
        else
          betRefunds (proceedBet.remove bet) bets := rfl

theorem betRefunds_sublist (proceedBet : ProceedBet) (bets : List NftBetObject) :
    (betRefunds proceedBet bets).Sublist (bets.map NftBetObject.payment) := by
  induction bets generalizing proceedBet with
  | nil => exact .slnil
  | cons bet bets ih =>
    rw [betRefunds_cons]
    split
    . exact (ih _).cons_cons _
    . exact (ih _).cons _

theorem betRefunds_null (bets : List NftBetObject) :
    betRefunds .null bets = bets.map NftBetObject.payment := by
  induction bets with
  | nil => rfl
  | cons bet bets ih => exact congrArg (bet.payment :: ·) ih

/-- After the winner it is up to the memory whether a bet is paid back. -/
theorem betRefunds_head (bet : NftBetObject) (removed : Removed) (bets : List NftBetObject) :
    betRefunds (.bet bet removed) (bet :: bets) = betRefunds (.dangling removed) bets := by
  rw [betRefunds_cons]
  simp [ProceedBet.is, ProceedBet.remove]

theorem betRefunds_dangling {removed : Removed} {bets : List NftBetObject}
    (h : ∀ b ∈ bets, removed b ≠ b.byTokenOwner) :
    betRefunds (.dangling removed) bets = bets.map NftBetObject.payment := by
  induction bets with
  | nil => rfl
  | cons bet bets ih =>
    have his : (ProceedBet.dangling removed).is bet = false := by
      simpa [ProceedBet.is] using h bet List.mem_cons_self
    rw [betRefunds_cons, if_pos his]
    exact congrArg (bet.payment :: ·) (ih fun b hb => h b (List.mem_cons_of_mem _ hb))

section clearNftOrders

/-- What clearing `orders` does to the ledger. -/
def OrderMoves (l l' : Ledger) (proceedOrder : Option NftOrderObject)
    (orders : List NftOrderObject) : Prop :=
  Moves l l' (paid (orderRefunds proceedOrder orders)) (fun a => -heldBy (heldPayments orders) a)
    (paidTotal (orderRefunds proceedOrder orders))

theorem OrderMoves.nil (l : Ledger) (proceedOrder : Option NftOrderObject) :
    OrderMoves l l proceedOrder [] := by
  apply (Moves.refl _).congr
  . intro a s
    rfl
  . intro a
    rfl
  . intro s
    rfl

/-- One turn of the loop followed by the rest of it. -/
theorem clearNftOrder_eq_ok {db db' : Database} {noo : NftOrderObject}
    {proceedOrder : Option NftOrderObject} (h : db.clearNftOrder noo proceedOrder = .ok db') :
    ∃ l, db' = { db with ledger := l, nftOrders := db.nftOrders.erase noo.byOwnerOrderId } ∧
      ∀ l' orders, OrderMoves l l' proceedOrder orders →
        OrderMoves db.ledger l' proceedOrder (noo :: orders) := by
  simp only [clearNftOrder, bind_eq_ok, pure_eq_ok] at h
  obtain ⟨db₁, h₁, db₂, h₂, rfl⟩ := h
  obtain ⟨l₁, rfl, hm₁⟩ := adjustBalanceIf_eq_ok h₁
  obtain ⟨l₂, rfl, hm₂⟩ := adjustNftHoldBalanceIf_eq_ok h₂
  refine ⟨l₂, rfl, ?_⟩
  intro l' orders hmoves
  unfold OrderMoves
  rw [orderRefunds_cons, heldPayments_cons]
  apply ((hm₁.trans hm₂).trans hmoves).congr
  . intro a s
    split <;> simp [NftOrderObject.payment]
  . intro a
    have := holdOf_neg_if noo.owner noo.price a
    cases hh : noo.holds with
    | true =>
      simp only [true_and, this, NftOrderObject.payment, ↓reduceIte, heldBy_cons]
      omega
    | false => simp
  . intro s
    split <;> simp [NftOrderObject.payment]

theorem clearNftOrders_go_eq_ok {proceedOrder : Option NftOrderObject} {c c' : Cleared}
    {orders : List NftOrderObject} (hnodup : orders.Nodup)
    (hmem : ∀ o ∈ orders, o ∈ c.db.nftOrders.rows)
    (h : clearNftOrders.go proceedOrder c orders = .ok c') :
    ∃ l t, c'.db = { c.db with ledger := l, nftOrders := t } ∧
      c.db.nftOrders.Removes t orders ∧ OrderMoves c.db.ledger l proceedOrder orders := by
  induction orders generalizing c with
  | nil =>
    simp only [clearNftOrders.go, pure_eq_ok] at h
    subst h
    exact ⟨_, _, rfl, .nil _, .nil _ _⟩
  | cons noo orders ih =>
    simp only [clearNftOrders.go, bind_eq_ok] at h
    obtain ⟨db, hdb, h⟩ := h
    have hstats : (c.updateStats noo).db = c.db := by
      unfold Cleared.updateStats
      split <;> rfl
    rw [hstats] at hdb
    obtain ⟨l₁, rfl, hmoves⟩ := clearNftOrder_eq_ok hdb
    obtain ⟨hnoo, hnodup⟩ := List.nodup_cons.mp hnodup
    have hnoo' := hmem noo List.mem_cons_self
    have hmem' : ∀ o ∈ orders, o ∈ (c.db.nftOrders.erase noo.byOwnerOrderId).rows := by
      intro o ho
      have ho' := hmem o (List.mem_cons_of_mem _ ho)
      rw [Table.mem_erase]
      refine ⟨ho', ?_⟩
      intro hkey
      have := c.db.nftOrders.mem_rows_inj ho' hnoo' hkey
      exact hnoo (this ▸ ho)
    obtain ⟨l, t, hc', hremoves, hmoves'⟩ := ih hnodup hmem' h
    exact ⟨l, t, hc', .cons hnoo' hremoves, hmoves _ _ hmoves'⟩

/-- The order that `clear_nft_orders` removes after its loop. -/
def clearedExtra (db : Database) (tokenId : Nat) (clearOrder : Option NftOrderObject)
    (onlyBuying : Bool) : List NftOrderObject :=
  match clearOrder with
  | some noo => if noo ∈ db.clearedNftOrders tokenId onlyBuying then [] else [noo]
  | none => []

theorem mem_clearedNftOrders {db : Database} {tokenId : Nat} {onlyBuying : Bool}
    {o : NftOrderObject} :
    o ∈ db.clearedNftOrders tokenId onlyBuying ↔
      tokenId ≠ 0 ∧ o ∈ db.nftOrders.rows ∧ o.tokenId = tokenId
        ∧ ¬(onlyBuying = true ∧ o.selling = true) := by
  unfold clearedNftOrders
  split
  . next h => simp [h]
  . next h =>
    simp only [List.mem_filter, decide_eq_true_eq]
    tauto

theorem nodup_rows {κ : Type} {α : Type} {key : α → κ} (t : Table key) : t.rows.Nodup :=
  List.Nodup.of_map _ t.nodup

/-- `clear_nft_orders` sees by the key whether its loop has taken an order. -/
theorem any_byOwnerOrderId_iff {db : Database} {noo : NftOrderObject} (tokenId : Nat)
    (onlyBuying : Bool) (hnoo : noo ∈ db.nftOrders.rows) :
    (db.clearedNftOrders tokenId onlyBuying).any
        (fun o => o.byOwnerOrderId = noo.byOwnerOrderId)
      ↔ noo ∈ db.clearedNftOrders tokenId onlyBuying := by
  rw [List.any_eq_true]
  constructor
  . intro ⟨o, ho, hkey⟩
    rw [← db.nftOrders.mem_rows_inj (mem_clearedNftOrders.mp ho).2.1 hnoo (by simpa using hkey)]
    exact ho
  . intro hin
    exact ⟨noo, hin, by simp⟩

/-- The whole effect of `clear_nft_orders`. -/
theorem clearNftOrders_eq_ok {db : Database} {tokenId : Nat}
    {proceedOrder clearOrder : Option NftOrderObject} {onlyBuying : Bool} {c : Cleared}
    (hclear : ∀ noo, clearOrder = some noo → noo ∈ db.nftOrders.rows)
    (h : db.clearNftOrders tokenId proceedOrder clearOrder onlyBuying = .ok c) :
    ∃ l t, c.db = { db with ledger := l, nftOrders := t } ∧
      db.nftOrders.Removes t (db.clearedNftOrders tokenId onlyBuying
        ++ db.clearedExtra tokenId clearOrder onlyBuying) ∧
      OrderMoves db.ledger l proceedOrder (db.clearedNftOrders tokenId onlyBuying) := by
  simp only [clearNftOrders, bind_eq_ok] at h
  obtain ⟨c₁, hgo, h⟩ := h
  have hnodup : (db.clearedNftOrders tokenId onlyBuying).Nodup := by
    unfold clearedNftOrders
    split
    . exact List.nodup_nil
    . exact (nodup_rows _).filter _
  have hmem : ∀ o ∈ db.clearedNftOrders tokenId onlyBuying, o ∈ db.nftOrders.rows := by
    intro o ho
    exact (mem_clearedNftOrders.mp ho).2.1
  obtain ⟨l, t, hc₁, hremoves, hmoves⟩ := clearNftOrders_go_eq_ok hnodup hmem hgo
  cases clearOrder with
  | none =>
    simp only [pure_eq_ok] at h
    subst h
    refine ⟨l, t, hc₁, ?_, hmoves⟩
    simpa [clearedExtra] using hremoves
  | some noo =>
    have hnoo := hclear noo rfl
    have hany := any_byOwnerOrderId_iff tokenId onlyBuying hnoo
    by_cases hin : noo ∈ db.clearedNftOrders tokenId onlyBuying
    . simp only [hany.mpr hin, ↓reduceIte, pure_eq_ok] at h
      subst h
      refine ⟨l, t, hc₁, ?_, hmoves⟩
      simpa [clearedExtra, hin] using hremoves
    . simp only [mt hany.mp hin, Bool.false_eq_true, ↓reduceIte, pure_eq_ok] at h
      subst h
      have hstats : (c₁.updateStats noo).db = c₁.db := by
        unfold Cleared.updateStats
        split <;> rfl
      refine ⟨l, t.erase noo.byOwnerOrderId, ?_, ?_, hmoves⟩
      . simp [hstats, hc₁, removeNftOrder]
      . apply hremoves.trans
        simp only [clearedExtra, hin, ↓reduceIte]
        exact .erase ((hremoves.mem noo).mpr ⟨hnoo, hin⟩)

end clearNftOrders

section clearNftBets

instance : Std.Total NftBetObject.ByTokenPrice where
  total := by
    intro a b
    unfold NftBetObject.ByTokenPrice
    rcases lt_trichotomy a.tokenId b.tokenId with h | h | h
    . exact .inl (.inl h)
    . rcases le_total a.priceReal b.priceReal with hle | hle
      . exact .inr (.inr ⟨h.symm, hle⟩)
      . exact .inl (.inr ⟨h, hle⟩)
    . exact .inr (.inl h)

instance : IsTrans NftBetObject NftBetObject.ByTokenPrice where
  trans := by
    intro a b c hab hbc
    rcases hab with hab | ⟨hab, hle⟩
    . rcases hbc with hbc | ⟨hbc, -⟩
      . exact .inl (hab.trans hbc)
      . exact .inl (hbc ▸ hab)
    . rcases hbc with hbc | ⟨hbc, hle'⟩
      . exact .inl (hab ▸ hbc)
      . exact .inr ⟨hab.trans hbc, hle'.trans hle⟩

theorem mem_nftBetsOf {db : Database} {tokenId : Nat} {b : NftBetObject} :
    b ∈ db.nftBetsOf tokenId ↔ b ∈ db.nftBets.rows ∧ b.tokenId = tokenId := by
  unfold nftBetsOf
  rw [List.mem_insertionSort, List.mem_filter, decide_eq_true_eq]

theorem nodup_nftBetsOf (db : Database) (tokenId : Nat) : (db.nftBetsOf tokenId).Nodup := by
  unfold nftBetsOf
  rw [(List.perm_insertionSort _ _).nodup_iff]
  exact (nodup_rows _).filter _

theorem lowerBoundBet_eq_none {db : Database} {tokenId : Nat} :
    db.lowerBoundBet tokenId = none ↔ ∀ b ∈ db.nftBets.rows, b.tokenId < tokenId := by
  unfold lowerBoundBet
  rw [List.head?_eq_none_iff, ← List.length_eq_zero_iff, List.length_insertionSort,
    List.length_eq_zero_iff, List.filter_eq_nil_iff]
  simp

theorem lowerBoundBet_eq_some {db : Database} {tokenId : Nat} {bet : NftBetObject}
    (h : db.lowerBoundBet tokenId = some bet) :
    (bet ∈ db.nftBets.rows ∧ tokenId ≤ bet.tokenId) ∧
      ∀ b ∈ db.nftBets.rows, tokenId ≤ b.tokenId → b = bet ∨ bet.ByTokenPrice b := by
  have hsorted := List.pairwise_insertionSort NftBetObject.ByTokenPrice
    (db.nftBets.rows.filter fun b => tokenId ≤ b.tokenId)
  unfold lowerBoundBet at h
  obtain ⟨bets, hbets⟩ := List.head?_eq_some_iff.mp h
  rw [hbets, List.pairwise_cons] at hsorted
  have hmem : ∀ b, b ∈ bet :: bets ↔ b ∈ db.nftBets.rows ∧ tokenId ≤ b.tokenId := by
    intro b
    rw [← hbets, List.mem_insertionSort, List.mem_filter, decide_eq_true_eq]
  refine ⟨(hmem bet).mp List.mem_cons_self, ?_⟩
  intro b hb hle
  rcases List.mem_cons.mp ((hmem b).mpr ⟨hb, hle⟩) with rfl | hin
  . exact .inl rfl
  . exact .inr (hsorted.1 b hin)

/-- The lookup of `process_nft_bets` finds a bet of the token whenever there is one. -/
theorem tokenId_of_lowerBoundBet {db : Database} {tokenId : Nat} {bet : NftBetObject}
    (h : db.lowerBoundBet tokenId = some bet) (hown : db.nftBetsOf tokenId ≠ []) :
    bet.tokenId = tokenId := by
  obtain ⟨b, hb⟩ := List.exists_mem_of_ne_nil _ hown
  rw [mem_nftBetsOf] at hb
  obtain ⟨⟨-, hle⟩, hmin⟩ := lowerBoundBet_eq_some h
  rcases hmin b hb.1 hb.2.ge with rfl | hlt | ⟨heq, -⟩
  . exact hb.2
  . omega
  . omega

/-- What clearing `bets` does to the ledger. -/
def BetMoves (l l' : Ledger) (proceedBet : ProceedBet) (bets : List NftBetObject) :
    Prop :=
  Moves l l' (paid (betRefunds proceedBet bets))
    (fun a => -heldBy (bets.map NftBetObject.payment) a) (paidTotal (betRefunds proceedBet bets))

theorem BetMoves.nil (l : Ledger) (proceedBet : ProceedBet) :
    BetMoves l l proceedBet [] := by
  apply (Moves.refl _).congr
  . intro a s
    rfl
  . intro a
    rfl
  . intro s
    rfl

theorem clearNftBet_eq_ok {db db' : Database} {bet : NftBetObject}
    {proceedBet : ProceedBet} (h : db.clearNftBet bet proceedBet = .ok db') :
    ∃ l, db' = { db with ledger := l, nftBets := db.nftBets.erase bet.byTokenOwner } ∧
      ∀ l' bets, BetMoves l l' (proceedBet.remove bet) bets →
        BetMoves db.ledger l' proceedBet (bet :: bets) := by
  simp only [clearNftBet, bind_eq_ok, pure_eq_ok] at h
  obtain ⟨db₁, h₁, db₂, h₂, rfl⟩ := h
  obtain ⟨l₁, rfl, hm₁⟩ := adjustBalanceIf_eq_ok h₁
  obtain ⟨l₂, rfl, hm₂⟩ := adjustNftHoldBalanceIf_eq_ok h₂
  refine ⟨l₂, rfl, ?_⟩
  intro l' bets hmoves
  unfold BetMoves
  rw [betRefunds_cons]
  apply ((hm₁.trans hm₂).trans hmoves).congr
  . intro a s
    split <;> simp [NftBetObject.payment]
  . intro a
    have := holdOf_neg_if bet.owner bet.price a
    simp only [this, List.map_cons, NftBetObject.payment, heldBy_cons]
    omega
  . intro s
    split <;> simp [NftBetObject.payment]

theorem clearNftBets_go_eq_ok {proceedBet : ProceedBet} {db db' : Database}
    {bets : List NftBetObject} (hnodup : bets.Nodup) (hmem : ∀ b ∈ bets, b ∈ db.nftBets.rows)
    (h : clearNftBets.go db proceedBet bets = .ok db') :
    ∃ l t, db' = { db with ledger := l, nftBets := t } ∧ db.nftBets.Removes t bets ∧
      BetMoves db.ledger l proceedBet bets := by
  induction bets generalizing db proceedBet with
  | nil =>
    simp only [clearNftBets.go, pure_eq_ok] at h
    subst h
    exact ⟨_, _, rfl, .nil _, .nil _ _⟩
  | cons bet bets ih =>
    simp only [clearNftBets.go, bind_eq_ok] at h
    obtain ⟨db₁, hdb, h⟩ := h
    obtain ⟨l₁, rfl, hmoves⟩ := clearNftBet_eq_ok hdb
    obtain ⟨hbet, hnodup⟩ := List.nodup_cons.mp hnodup
    have hbet' := hmem bet List.mem_cons_self
    have hmem' : ∀ b ∈ bets, b ∈ (db.nftBets.erase bet.byTokenOwner).rows := by
      intro b hb
      have hb' := hmem b (List.mem_cons_of_mem _ hb)
      rw [Table.mem_erase]
      refine ⟨hb', ?_⟩
      intro hkey
      have := db.nftBets.mem_rows_inj hb' hbet' hkey
      exact hbet (this ▸ hb)
    obtain ⟨l, t, hdb', hremoves, hmoves'⟩ := ih hnodup hmem' h
    exact ⟨l, t, hdb', .cons hbet' hremoves, hmoves _ _ hmoves'⟩

/-- The whole effect of `clear_nft_bets`. -/
theorem clearNftBets_eq_ok {db db' : Database} {tokenId : Nat} {proceedBet : ProceedBet}
    (h : db.clearNftBets tokenId proceedBet = .ok db') :
    ∃ l t, db' = { db with ledger := l, nftBets := t } ∧
      db.nftBets.Removes t (db.nftBetsOf tokenId) ∧
      BetMoves db.ledger l proceedBet (db.nftBetsOf tokenId) := by
  apply clearNftBets_go_eq_ok (nodup_nftBetsOf _ _) _ h
  intro b hb
  exact (mem_nftBetsOf.mp hb).1

end clearNftBets

section processNftBet

/-- The number of tokens that a collection counts, if it exists. -/
def tokenCounts (cs : Table NftCollectionObject.name) (name : AssetSymbolType) : Option Nat :=
  (cs.find? name).map NftCollectionObject.tokenCount

theorem tokenCounts_modify (cs : Table NftCollectionObject.name) (name : AssetSymbolType)
    (f : NftCollectionObject → NftCollectionObject) (n : AssetSymbolType)
    (hf : autoParam (∀ nco, (f nco).name = nco.name) Monoid.npow_zero._autoParam)
    (hcount : autoParam (∀ nco, (f nco).tokenCount = nco.tokenCount)
      Monoid.npow_zero._autoParam) :
    tokenCounts (cs.modify name f hf) n = tokenCounts cs n := by
  unfold tokenCounts
  rw [Table.find?_modify]
  split
  . rw [Option.map_map]
    congr 1
    funext nco
    exact hcount nco
  . rfl

theorem getNftCollection_eq_ok {db : Database} {name : AssetSymbolType}
    {nco : NftCollectionObject} :
    db.getNftCollection name = .ok nco ↔ db.nftCollections.find? name = some nco := by
  simp [getNftCollection]

theorem getNft_eq_ok {db : Database} {tokenId : Nat} {no : NftObject} :
    db.getNft tokenId = .ok no ↔ db.nfts.find? tokenId = some no := by
  simp [getNft]

/-- The token of a settled auction: sold to the owner of `bet`, or just taken off the auction. -/
def settledNft (no : NftObject) (now : Nat) (bet : Option NftBetObject) : NftObject :=
  match bet with
  | none =>
    { no with
      auctionMinPrice := ⟨0, steemSymbol⟩
      auctionExpiration := 0
      lastUpdate := now }
  | some bet =>
    { no with
      auctionMinPrice := ⟨0, steemSymbol⟩
      auctionExpiration := 0
      lastUpdate := now
      owner := bet.owner
      selling := false
      lastBuyPrice := bet.price }

/-- What one turn of the loop of `process_nft_bets` does for the token `no`. -/
inductive Settled (removed : Removed) (db : Database) (no : NftObject) : Database → Prop where
  | reset {ts cs} (hbet : db.lowerBoundBet no.tokenId = none)
      (hnfts : db.nfts.Updates ts no (settledNft no db.headBlockTime none))
      (hcollection : (db.nftCollections.find? no.name).isSome)
      (hcounts : ∀ n, tokenCounts cs n = tokenCounts db.nftCollections n) :
      Settled removed db no { db with nfts := ts, nftCollections := cs }
  | sold {bet l₁ l₂ l ts cs os bs} (hbet : db.lowerBoundBet no.tokenId = some bet)
      (hnfts : db.nfts.Updates ts no (settledNft no db.headBlockTime (some bet)))
      (hcollection : (db.nftCollections.find? no.name).isSome)
      (hcounts : ∀ n, tokenCounts cs n = tokenCounts db.nftCollections n)
      (hpay : Moves db.ledger l₁ (single no.owner bet.price) (fun _ => 0) (inSymbol bet.price))
      (hbets : db.nftBets.Removes bs (db.nftBetsOf no.tokenId))
      (hrefund : BetMoves l₁ l₂ (.bet bet removed) (db.nftBetsOf no.tokenId))
      (horders : db.nftOrders.Removes os (db.clearedNftOrders no.tokenId false))
      (hclear : OrderMoves l₂ l none (db.clearedNftOrders no.tokenId false)) :
      Settled removed db no
        { db with ledger := l, nfts := ts, nftCollections := cs, nftOrders := os, nftBets := bs }

theorem processNftBet_eq_ok {removed : Removed} {db db' : Database} {tokenId : Nat}
    (h : processNftBet removed db tokenId = .ok db') :
    ∃ no, db.nfts.find? tokenId = some no ∧ Settled removed db no db' := by
  simp only [processNftBet, bind_eq_ok, getNft_eq_ok] at h
  obtain ⟨no, hno, h⟩ := h
  have hid := Table.key_of_find? hno
  subst hid
  refine ⟨no, hno, ?_⟩
  split at h
  . next hbet =>
    simp only [resetAuction, bind_eq_ok, getNftCollection_eq_ok, pure_eq_ok] at h
    obtain ⟨nco, hnco, rfl⟩ := h
    apply Settled.reset hbet (.modify _ hno)
    . rw [show db.nftCollections.find? no.name = some nco from hnco]
      rfl
    . intro n
      exact tokenCounts_modify _ _ _ n
  . next bet hbet =>
    simp only [sellByAuction, bind_eq_ok, adjustBalance_eq_ok, getNftCollection_eq_ok,
      pure_eq_ok] at h
    obtain ⟨_, ⟨l₁, hpay, rfl⟩, db₂, hclearBets, cleared, hclearOrders, nco, hnco, rfl⟩ := h
    obtain ⟨l₂, bs, rfl, hbets, hrefund⟩ := clearNftBets_eq_ok hclearBets
    obtain ⟨l, os, hcleared, horders, hclear⟩ := clearNftOrders_eq_ok (by simp) hclearOrders
    rw [hcleared] at hnco
    simp only [hcleared, modifyNftCollection]
    simp only [clearedExtra, List.append_nil] at horders
    refine Settled.sold hbet (.modify _ hno) ?_ ?_ (moves_adjustBalance hpay) hbets hrefund
      horders hclear
    . rw [show db.nftCollections.find? no.name = some nco from hnco]
      rfl
    . intro n
      exact tokenCounts_modify _ _ _ n

end processNftBet

end Database
end Golos
