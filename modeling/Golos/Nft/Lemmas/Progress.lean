import Golos.Nft.Auction
import Golos.Nft.Lemmas.Money

/-!
This module contains when the settlement of auctions succeeds: the money that the market holds is
there, and so are the accounts that it goes to.
-/

namespace Golos
namespace Database

open Checked Ledger

/-- Enough for `clear_nft_bets` to pay back `bets`. -/
structure CanClear (l : Ledger) (proceedBet : ProceedBet) (bets : List NftBetObject) : Prop where
  bet : ∀ b ∈ bets, BetOk l b
  nonneg : ∀ a s, 0 ≤ l.mainBalance a s
  total : ∀ s, l.totalBalance s + paidTotal (betRefunds proceedBet bets) s ≤ maxInt64
  hold : ∀ a, heldBy (bets.map NftBetObject.payment) a ≤ l.nftHold a
  fits : ∀ a, l.nftHold a ≤ maxInt64

section clear

variable {db db' : Database} {proceedBet : ProceedBet} {bet : NftBetObject}
  {bets : List NftBetObject}

theorem betRefunds_cons_eq (proceedBet : ProceedBet) (bet : NftBetObject)
    (bets : List NftBetObject) :
    betRefunds proceedBet (bet :: bets)
      = betRefunds proceedBet [bet] ++ betRefunds (proceedBet.remove bet) bets := by
  rw [betRefunds_cons, betRefunds_cons]
  split <;> simp

theorem betRefunds_nonneg {l : Ledger} (h : ∀ b ∈ bets, BetOk l b) :
    ∀ p ∈ betRefunds proceedBet bets, 0 ≤ p.2.amount := by
  intro p hp
  obtain ⟨b, hb, rfl⟩ := List.mem_map.mp ((betRefunds_sublist _ _).mem hp)
  exact (h b hb).price.le

theorem CanClear.tail_payments_nonneg {l : Ledger} (h : CanClear l proceedBet (bet :: bets)) :
    ∀ p ∈ bets.map NftBetObject.payment, 0 ≤ p.2.amount := by
  intro p hp
  obtain ⟨b, hb, rfl⟩ := List.mem_map.mp hp
  exact (h.bet b (List.mem_cons_of_mem _ hb)).price.le

theorem CanClear.clearNftBet (h : CanClear db.ledger proceedBet (bet :: bets)) :
    ∃ db', db.clearNftBet bet proceedBet = .ok db' := by
  have hbet := h.bet bet List.mem_cons_self
  -- The refund, if there is one, fits into the total.
  obtain ⟨db₁, hrefund⟩ : ∃ db₁, db.adjustBalanceIf (proceedBet.is bet = false) bet.owner bet.price
      = .ok db₁ := by
    unfold adjustBalanceIf
    split
    . next hp =>
      have htotal := h.total bet.price.symbol
      have hrest := paidTotal_nonneg (@betRefunds_nonneg (proceedBet.remove bet) _ _
        fun b hb => h.bet b (List.mem_cons_of_mem _ hb)) bet.price.symbol
      rw [betRefunds_cons, if_pos hp, paidTotal_cons] at htotal
      simp only [NftBetObject.payment, inSymbol, ↓reduceIte] at htotal
      obtain ⟨l, hl⟩ := adjustBalance_of_total_le hbet.owner hbet.symbol h.nonneg hbet.price.le
        (by omega)
      exact ⟨_, adjustBalance_eq_ok.mpr ⟨l, hl, rfl⟩⟩
    . exact ⟨db, rfl⟩
  obtain ⟨l₁, rfl, hmoves⟩ := adjustBalanceIf_eq_ok hrefund
  -- The hold is at least what the remaining bets keep.
  obtain ⟨db₂, hrelease⟩ : ∃ db₂, adjustNftHoldBalanceIf { db with ledger := l₁ }
      (bet.price.symbol = steemSymbol) bet.owner (-bet.price.amount) = .ok db₂ := by
    unfold adjustNftHoldBalanceIf
    split
    . next hp =>
      have hhold := h.hold bet.owner
      have hfits := h.fits bet.owner
      have hrest := heldBy_nonneg h.tail_payments_nonneg bet.owner
      have hprice := hbet.price
      simp only [List.map_cons, heldBy_cons, NftBetObject.payment, single, hp, and_self,
        ↓reduceIte] at hhold
      obtain ⟨l, hl⟩ : ∃ l, l₁.adjustNftHoldBalance bet.owner (-bet.price.amount) = .ok l := by
        apply adjustNftHoldBalance_of_le
        . rw [hmoves.accounts]
          exact hbet.owner
        . rw [hmoves.hold]
          unfold minInt64
          omega
        . rw [hmoves.hold]
          omega
      exact ⟨_, adjustNftHoldBalance_eq_ok.mpr ⟨l, hl, rfl⟩⟩
    . exact ⟨_, rfl⟩
  refine ⟨db₂.removeNftBet bet, ?_⟩
  unfold Database.clearNftBet
  rw [hrefund, ok_bind, hrelease]
  rfl

theorem CanClear.tail {l l' : Ledger} (h : CanClear l proceedBet (bet :: bets))
    (hclear : BetMoves l l' proceedBet [bet]) : CanClear l' (proceedBet.remove bet) bets where
  bet := by
    intro b hb
    exact (h.bet b (List.mem_cons_of_mem _ hb)).persists (.of_moves hclear)
  nonneg := by
    intro a s
    rw [hclear.balance]
    have hbet : ∀ b ∈ [bet], BetOk l b := by
      intro b hb
      rw [List.mem_singleton] at hb
      exact hb ▸ h.bet bet List.mem_cons_self
    exact Int.add_nonneg (h.nonneg a s) (paid_nonneg (betRefunds_nonneg hbet) a s)
  total := by
    intro s
    have := h.total s
    rw [betRefunds_cons_eq, paidTotal_append] at this
    rw [hclear.total]
    omega
  hold := by
    intro a
    have := h.hold a
    rw [hclear.hold]
    simp only [List.map_cons, List.map_nil, heldBy_cons, heldBy_nil] at this ⊢
    omega
  fits := by
    intro a
    have hfits := h.fits a
    have hprice := @single_nonneg bet.owner _ (h.bet bet List.mem_cons_self).price.le a steemSymbol
    rw [hclear.hold]
    simp only [List.map_cons, List.map_nil, heldBy_cons, heldBy_nil, NftBetObject.payment]
    omega

theorem CanClear.go (h : CanClear db.ledger proceedBet bets) :
    ∃ db', clearNftBets.go db proceedBet bets = .ok db' := by
  induction bets generalizing db proceedBet with
  | nil => exact ⟨db, rfl⟩
  | cons bet bets ih =>
    obtain ⟨db₁, hfirst⟩ := h.clearNftBet
    obtain ⟨l₁, hdb₁, hmoves⟩ := clearNftBet_eq_ok hfirst
    have htail : CanClear db₁.ledger (proceedBet.remove bet) bets := by
      rw [hdb₁]
      exact h.tail (hmoves l₁ [] (.nil l₁ _))
    obtain ⟨db', hrest⟩ := ih htail
    refine ⟨db', ?_⟩
    unfold clearNftBets.go
    rw [hfirst]
    exact hrest

/-- Clearing orders that hold nothing touches no balance, so nothing can go wrong. -/
theorem clearNftOrders_go_of_not_holds {orders : List NftOrderObject} (c : Cleared)
    (h : ∀ o ∈ orders, o.holds = false) : ∃ c', clearNftOrders.go none c orders = .ok c' := by
  induction orders generalizing c with
  | nil => exact ⟨c, rfl⟩
  | cons noo orders ih =>
    have hnoo := h noo List.mem_cons_self
    obtain ⟨c', hrest⟩ := ih
      { c.updateStats noo with db := (c.updateStats noo).db.removeNftOrder noo }
      (fun o ho => h o (List.mem_cons_of_mem _ ho))
    refine ⟨c', ?_⟩
    unfold clearNftOrders.go
    simp only [clearNftOrder, adjustBalanceIf, adjustNftHoldBalanceIf, hnoo, Bool.false_eq_true,
      false_and, ↓reduceIte]
    exact hrest

theorem clearNftOrders_of_not_holds {tokenId : Nat}
    (h : ∀ o ∈ db.clearedNftOrders tokenId false, o.holds = false) :
    ∃ c, db.clearNftOrders tokenId none none = .ok c := by
  obtain ⟨c, hc⟩ := clearNftOrders_go_of_not_holds ⟨db, 0, 0⟩ h
  refine ⟨c, ?_⟩
  simp only [clearNftOrders, hc, ok_bind, pure_eq_ok]

end clear

section settle

variable {removed : Removed} {db db' : Database} {no : NftObject}

theorem MoneyInv.canClear {bet : NftBetObject} {bets : List NftBetObject} {tokenId : Nat}
    {owner : AccountName} {l : Ledger} (h : db.MoneyInv) (hwf : db.WellFormed)
    (hbets : db.nftBetsOf tokenId = bet :: bets)
    (hpay : Moves db.ledger l (single owner bet.price) (fun _ => 0) (inSymbol bet.price)) :
    CanClear l (.bet bet removed) (bet :: bets) := by
  have hmem := db.mem_of_mem_nftBetsOf tokenId
  rw [hbets] at hmem
  have hprice := (hwf.bet bet (hmem bet List.mem_cons_self)).price
  refine ⟨?_, ?_, ?_, ?_, ?_⟩
  . intro b hb
    exact (hwf.bet b (hmem b hb)).persists (.of_moves hpay)
  . intro a s
    rw [hpay.balance]
    exact Int.add_nonneg (h.solvent.nonneg a s) (single_nonneg hprice.le a s)
  . intro s
    have hall := hwf.paidTotal_nftBetsOf_le tokenId s
    have hcovered := h.solvent.covered s
    have hfits := h.solvent.fits s
    rw [hbets, List.map_cons, paidTotal_cons] at hall
    have hrefunds := paidTotal_le_of_sublist (betRefunds_sublist (.dangling removed) bets)
      (hwf.betPayments_nonneg fun b hb => hmem b (List.mem_cons_of_mem _ hb)) s
    rw [betRefunds_head, hpay.total]
    simp only [NftBetObject.payment] at hall hrefunds ⊢
    omega
  . intro a
    have hall := hwf.heldBy_nftBetsOf_le tokenId a
    rw [hbets] at hall
    rw [hpay.hold, h.hold]
    omega
  . intro a
    have hle := hwf.lockedBy_le_locked a
    have hcovered := h.solvent.covered steemSymbol
    have hfits := h.solvent.fits steemSymbol
    have htotal := mainBalance_le_totalBalance h.solvent.nonneg a steemSymbol
    have hbalance := h.solvent.nonneg a steemSymbol
    rw [hpay.hold, h.hold]
    omega

/-- The bet that the lookup finds is the first bet of its own token. -/
theorem WellFormed.nftBetsOf_of_lowerBoundBet (hwf : db.WellFormed) {tokenId : Nat}
    {bet : NftBetObject} (hbet : db.lowerBoundBet tokenId = some bet)
    (htoken : bet.tokenId = tokenId) : ∃ bets, db.nftBetsOf tokenId = bet :: bets := by
  cases hbets : db.nftBetsOf tokenId with
  | nil =>
    have := mem_nftBetsOf.mpr ⟨(lowerBoundBet_eq_some hbet).1.1, htoken⟩
    rw [hbets] at this
    cases this
  | cons bet' bets =>
    rw [hwf.lowerBoundBet_of_own hbets] at hbet
    injection hbet with hbet
    exact ⟨bets, by rw [hbet]⟩

theorem WellFormed.heldPayments_of_running (hwf : db.WellFormed)
    (hno : db.nfts.find? no.tokenId = some no) (hrunning : no.auctionExpiration ≠ 0) :
    ∀ o ∈ db.clearedNftOrders no.tokenId false, o.holds = false := by
  intro o ho
  obtain ⟨-, hmem, htoken, -⟩ := mem_clearedNftOrders.mp ho
  exact hwf.not_holds_of_running hno hrunning hmem htoken

theorem heldPayments_of_not_holds {orders : List NftOrderObject}
    (h : ∀ o ∈ orders, o.holds = false) : heldPayments orders = [] := by
  unfold heldPayments
  rw [List.filter_eq_nil_iff.mpr]
  . rfl
  . intro o ho
    simp [h o ho]

theorem MoneyInv.settled (h : db.MoneyInv) (hwf : db.WellFormed)
    (hrunning : no.auctionExpiration ≠ 0) (hown : db.FindsOwnBet no.tokenId)
    (hstep : Settled removed db no db') : db'.MoneyInv := by
  cases hstep with
  | reset => exact h.congr rfl rfl rfl rfl
  | @sold bet l₁ l₂ l ts cs os bs hbet hnfts _ _ hpay hbets hrefund horders hclear =>
    have hclear := hwf.moves_clearedNftOrders hnfts.row hrunning hclear
    have hnothing := heldPayments_of_not_holds (hwf.heldPayments_of_running hnfts.row hrunning)
    obtain ⟨bets, heq⟩ := hwf.nftBetsOf_of_lowerBoundBet hbet (hown bet hbet)
    unfold BetMoves at hrefund
    rw [heq] at hbets hrefund
    rw [betRefunds_head] at hrefund
    have hmem := db.mem_of_mem_nftBetsOf no.tokenId
    rw [heq] at hmem
    have hpayments := hwf.betPayments_nonneg fun b hb => hmem b (List.mem_cons_of_mem _ hb)
    have hsublist := betRefunds_sublist (.dangling removed) bets
    refine h.moves ((hpay.trans hrefund).trans hclear) rfl ?_ ?_ ?_
    . intro a s
      have hbalance := h.solvent.nonneg a s
      have hprice := @single_nonneg no.owner _ (hwf.bet bet (hmem bet List.mem_cons_self)).price.le
        a s
      have := paid_nonneg (fun p hp => hpayments p (hsublist.mem hp)) a s
      omega
    . intro s
      have := paidTotal_le_of_sublist hsublist hpayments s
      unfold locked
      dsimp only
      rw [horders.sum, hbets.sum, sum_locked_orders, sum_locked_bets, hnothing, List.map_cons,
        paidTotal_cons, paidTotal_nil]
      dsimp only [NftBetObject.payment]
      omega
    . intro a
      unfold lockedBy
      dsimp only
      rw [horders.sum, hbets.sum, sum_lockedBy_orders, sum_lockedBy_bets, hnothing, heldBy_nil]
      omega

/-- The rows of a sold token go away, and its collection is still there. -/
theorem clearRows_completes {tokenId : Nat} {bet : NftBetObject} {name : AssetSymbolType}
    {nco : NftCollectionObject} (hcan : CanClear db.ledger (.bet bet removed) (db.nftBetsOf tokenId))
    (hholds : ∀ o ∈ db.clearedNftOrders tokenId false, o.holds = false)
    (hnco : db.nftCollections.find? name = some nco)
    (f : Cleared → NftCollectionObject → Database) :
    ∃ db', (do
      let db ← db.clearNftBets tokenId (.bet bet removed)
      let cleared ← db.clearNftOrders tokenId none none
      let nco ← cleared.db.getNftCollection name
      pure (f cleared nco)) = .ok db' := by
  obtain ⟨db₁, hbets⟩ : ∃ db₁, db.clearNftBets tokenId (.bet bet removed) = .ok db₁ := hcan.go
  obtain ⟨l₁, bs, rfl, -, -⟩ := clearNftBets_eq_ok hbets
  obtain ⟨cleared, horders⟩ := @clearNftOrders_of_not_holds
    { db with ledger := l₁, nftBets := bs } tokenId hholds
  obtain ⟨l₂, os, hcleared, -, -⟩ := clearNftOrders_eq_ok (by simp) horders
  have hget : cleared.db.getNftCollection name = .ok nco := by
    rw [hcleared, getNftCollection_eq_ok]
    exact hnco
  rw [hbets, ok_bind, horders, ok_bind, hget, ok_bind]
  exact ⟨_, rfl⟩

theorem processNftBet_completes (h : db.MoneyInv) (hwf : db.WellFormed)
    (hno : db.nfts.find? no.tokenId = some no) (hrunning : no.auctionExpiration ≠ 0)
    (howner : (db.ledger.accounts.find? no.owner).isSome)
    (hcollection : (db.nftCollections.find? no.name).isSome) (hown : db.FindsOwnBet no.tokenId) :
    ∃ db', processNftBet removed db no.tokenId = .ok db' := by
  obtain ⟨nco, hnco⟩ := Option.isSome_iff_exists.mp hcollection
  unfold processNftBet
  rw [getNft_eq_ok.mpr hno, ok_bind]
  split
  . exact ⟨_, by simp only [resetAuction, modifyNft, getNftCollection, hnco]; rfl⟩
  . next bet hbet =>
    obtain ⟨bets, heq⟩ := hwf.nftBetsOf_of_lowerBoundBet hbet (hown bet hbet)
    have hok := hwf.bet bet (lowerBoundBet_eq_some hbet).1.1
    -- The price fits, as it is part of what the market holds.
    have hfits : db.ledger.totalBalance bet.price.symbol + bet.price.amount ≤ maxInt64 := by
      have hlocked := hwf.paidTotal_nftBetsOf_le no.tokenId bet.price.symbol
      have hcovered := h.solvent.covered bet.price.symbol
      have hfits := h.solvent.fits bet.price.symbol
      have hrest := paidTotal_nonneg (hwf.betPayments_nonneg fun b hb =>
        db.mem_of_mem_nftBetsOf no.tokenId b (heq ▸ List.mem_cons_of_mem bet hb)) bet.price.symbol
      rw [heq, List.map_cons, paidTotal_cons] at hlocked
      simp only [NftBetObject.payment, inSymbol, ↓reduceIte] at hlocked
      omega
    obtain ⟨l, hl⟩ := adjustBalance_of_total_le howner hok.symbol h.solvent.nonneg hok.price.le
      hfits
    have hcan := @MoneyInv.canClear removed _ _ _ _ _ _ h hwf heq (moves_adjustBalance hl)
    rw [← heq] at hcan
    unfold sellByAuction
    rw [adjustBalance_eq_ok.mpr ⟨l, hl, rfl⟩, ok_bind]
    dsimp only
    exact clearRows_completes (by exact hcan) (by exact hwf.heldPayments_of_running hno hrunning)
      (by exact hnco) _

end settle

end Database
end Golos
