import Golos.Market.Lemmas.Fill

/-!
This module contains the effect of matching two live orders that sell to each other.
-/

namespace Golos

open Checked Ledger

namespace Price

/-- Each sells what the other asks for. -/
def Opposite (p q : Price) : Prop :=
  p.base.symbol = q.quote.symbol ∧ p.quote.symbol = q.base.symbol

/-- Two opposite prices at which a trade is acceptable to both sides. -/
def Compatible (p q : Price) : Prop :=
  p.quote.amount * q.quote.amount ≤ p.base.amount * q.base.amount

instance : DecidableRel Opposite := fun _ _ => inferInstanceAs (Decidable (_ ∧ _))

instance : DecidableRel Compatible := fun _ _ => inferInstanceAs (Decidable (_ ≤ _))

end Price

namespace Exchange

section subtractFee

variable {x : Exchange} {receives : Asset} {t : SubtractFee}

/-- What `subtract_fee` leaves to the receiver and gives to the creator of the asset. -/
structure SplitsFee (x : Exchange) (receives : Asset) (t : SubtractFee) : Prop where
  changes : Changes x t.exchange (single t.feeReceiver t.fee) (fun _ _ => 0) (fun _ _ => 0)
    (fun _ _ => 0)
  left : t.receives = ⟨receives.amount - t.fee.amount, receives.symbol⟩
  fee_symbol : t.fee.symbol = receives.symbol
  fee_nonneg : 0 ≤ t.fee.amount
  creator : t.fee.amount = 0 ∨ ∃ ast, x.ledger.assets.find? receives.symbol = some ast ∧
    t.feeReceiver = ast.creator

theorem splitsFee_of_noFee (x : Exchange) (receives : Asset) :
    SplitsFee x receives ⟨x, receives, ⟨0, receives.symbol⟩, ""⟩ where
  changes := by
    refine ⟨⟨?_, ?_, fun _ => rfl, rfl⟩, ?_, ?_, rfl, rfl, rfl⟩
    . intro a s
      simp [single]
    . intro a s
      exact (Int.add_zero _).symm
    . intro b q
      exact (Int.add_zero _).symm
    . intro b q
      exact (Int.add_zero _).symm
  left := by simp
  fee_symbol := rfl
  fee_nonneg := le_rfl
  creator := .inl rfl

theorem splitsFee_of_subtractFee (h : x.subtractFee receives = .ok t) :
    SplitsFee x receives t := by
  unfold subtractFee at h
  dsimp only at h
  split at h
  . simp only [pure_eq_ok] at h
    subst h
    exact splitsFee_of_noFee x receives
  . simp only [bind_eq_ok, getAsset, get_eq_ok] at h
    obtain ⟨ast, hast, h⟩ := h
    split at h
    . simp only [bind_eq_ok, Asset.sub_eq_ok, pure_eq_ok] at h
      obtain ⟨amount, -, x', hadjust, _, ⟨-, -, rfl⟩, rfl⟩ := h
      refine ⟨changes_adjustBalance hadjust, rfl, rfl, ?_, .inr ⟨ast, hast, rfl⟩⟩
      simp only
      omega
    . simp only [pure_eq_ok] at h
      subst h
      exact splitsFee_of_noFee x receives

end subtractFee

section matchAmounts

variable {n o : LimitOrderObject} {newReceives oldReceives : Asset}

/-- What the two sides exchange: one of them sells all it has. -/
structure Exchanges (n o : LimitOrderObject) (newReceives oldReceives : Asset) : Prop where
  new_symbol : newReceives.symbol = o.sellPrice.base.symbol
  old_symbol : oldReceives.symbol = n.sellPrice.base.symbol
  new_nonneg : 0 ≤ newReceives.amount
  new_le : newReceives.amount ≤ o.forSale
  old_nonneg : 0 ≤ oldReceives.amount
  old_le : oldReceives.amount ≤ n.forSale
  full : oldReceives.amount = n.forSale ∨ newReceives.amount = o.forSale

/-- The floor of the worth of an amount, at a price that is sold into. -/
theorem ediv_mul_le_of_le {a b c d : ℤ} (hb : 0 < b) (hc : 0 < c) (h : a ≤ d * c / b) :
    a * b / c ≤ d := by
  have hmul : a * b ≤ d * c := (Int.le_ediv_iff_mul_le hb).mp h
  calc a * b / c ≤ d * c / c := Int.ediv_le_ediv hc hmul
    _ = d := Int.mul_ediv_cancel d (by omega)

theorem matchAmounts_cases (hn : n.Live) (ho : o.Live)
    (hsell : n.sellPrice.base.symbol = o.sellPrice.quote.symbol)
    (h : matchAmounts n o o.sellPrice = .ok (newReceives, oldReceives)) :
    (n.forSale ≤ o.asks ∧
        newReceives = ⟨n.forSale * o.sellPrice.base.amount / o.sellPrice.quote.amount,
          o.sellPrice.base.symbol⟩ ∧
        oldReceives = n.amountForSale) ∨
      (o.asks < n.forSale ∧ newReceives = o.amountForSale ∧
        oldReceives = ⟨o.asks, o.sellPrice.quote.symbol⟩) := by
  have hworth : o.amountForSale.mulPrice o.sellPrice = .ok ⟨o.asks, o.sellPrice.quote.symbol⟩ :=
    ho.amountToReceive_eq
  unfold matchAmounts at h
  simp only [hworth, ok_bind, bind_eq_ok, Asset.le, Asset.sameSymbol, ensure_eq_ok,
    pure_eq_ok] at h
  obtain ⟨newFits, ⟨_, -, rfl⟩, h⟩ := h
  split at h
  . next hfits =>
    have hle : n.amountForSale.amount ≤ o.asks := by simpa using hfits
    have hbound := ediv_mul_le_of_le ho.price.base_pos ho.price.quote_pos hle
    have hmul := Price.mulPrice_quote ho.price (Int.le_of_lt hn.forSale_pos) hn.forSale_le
      (Int.le_trans hbound ho.forSale_le)
    rw [← hsell] at hmul
    have hsell : n.amountForSale = ⟨n.forSale, n.sellPrice.base.symbol⟩ := rfl
    rw [hsell, hmul, ok_bind] at h
    simp only [pure_eq_ok, Prod.mk.injEq] at h
    exact .inl ⟨hle, h.1.symm, h.2.symm⟩
  . next hfits =>
    have hlt : o.asks < n.amountForSale.amount := by simpa using hfits
    simp only [pure_eq_ok, Prod.mk.injEq] at h
    exact .inr ⟨hlt, h.1.symm, h.2.symm⟩

theorem exchanges_of_matchAmounts (hn : n.Live) (ho : o.Live)
    (hsell : n.sellPrice.base.symbol = o.sellPrice.quote.symbol)
    (h : matchAmounts n o o.sellPrice = .ok (newReceives, oldReceives)) :
    Exchanges n o newReceives oldReceives := by
  have hforSale := Int.le_of_lt hn.forSale_pos
  rcases matchAmounts_cases hn ho hsell h with ⟨hle, rfl, rfl⟩ | ⟨hlt, rfl, rfl⟩
  . refine ⟨rfl, rfl, ?_, ?_, hforSale, le_rfl, .inl rfl⟩
    . apply Int.ediv_nonneg
      . exact Int.mul_nonneg hforSale (Int.le_of_lt ho.price.base_pos)
      . exact Int.le_of_lt ho.price.quote_pos
    . exact ediv_mul_le_of_le ho.price.base_pos ho.price.quote_pos hle
  . exact ⟨rfl, hsell.symm, Int.le_of_lt ho.forSale_pos, le_rfl, Int.le_of_lt ho.asks_pos,
      Int.le_of_lt hlt, .inr rfl⟩

/-- Neither side gets less than its own price gives, when the prices are compatible. -/
theorem fair_of_matchAmounts (hn : n.Live) (ho : o.Live)
    (hsell : n.sellPrice.base.symbol = o.sellPrice.quote.symbol)
    (hcompat : n.sellPrice.Compatible o.sellPrice)
    (h : matchAmounts n o o.sellPrice = .ok (newReceives, oldReceives)) :
    oldReceives.amount * n.sellPrice.quote.amount / n.sellPrice.base.amount ≤ newReceives.amount ∧
      newReceives.amount * o.sellPrice.quote.amount / o.sellPrice.base.amount
        ≤ oldReceives.amount := by
  have hnb := hn.price.base_pos
  have hnq := hn.price.quote_pos
  have hob := ho.price.base_pos
  have hoq := ho.price.quote_pos
  unfold Price.Compatible at hcompat
  rcases matchAmounts_cases hn ho hsell h with ⟨hle, rfl, rfl⟩ | ⟨hlt, rfl, rfl⟩
  . constructor
    . -- The old price gives at least what the new price asks for.
      rw [Int.le_ediv_iff_mul_le hoq]
      have hfloor := Int.ediv_mul_le (n.forSale * n.sellPrice.quote.amount) (ne_of_gt hnb)
      simp only [LimitOrderObject.amountForSale]
      generalize n.forSale * n.sellPrice.quote.amount / n.sellPrice.base.amount = f at hfloor ⊢
      have hforSale := hn.forSale_pos
      by_contra hlt
      rw [not_le] at hlt
      have h₁ : n.forSale * o.sellPrice.base.amount * n.sellPrice.base.amount
          < f * o.sellPrice.quote.amount * n.sellPrice.base.amount :=
        Int.mul_lt_mul_of_pos_right hlt hnb
      have h₂ : f * n.sellPrice.base.amount * o.sellPrice.quote.amount
          ≤ n.forSale * n.sellPrice.quote.amount * o.sellPrice.quote.amount :=
        Int.mul_le_mul_of_nonneg_right hfloor (Int.le_of_lt hoq)
      have h₃ : n.forSale * (n.sellPrice.quote.amount * o.sellPrice.quote.amount)
          ≤ n.forSale * (n.sellPrice.base.amount * o.sellPrice.base.amount) :=
        Int.mul_le_mul_of_nonneg_left hcompat (Int.le_of_lt hforSale)
      linarith
    . have hfloor := Int.ediv_mul_le (n.forSale * o.sellPrice.base.amount) (ne_of_gt hoq)
      calc _ ≤ n.forSale * o.sellPrice.base.amount / o.sellPrice.base.amount :=
            Int.ediv_le_ediv hob hfloor
        _ = n.forSale := Int.mul_ediv_cancel _ (ne_of_gt hob)
  . constructor
    . have hfloor := Int.ediv_mul_le (o.forSale * o.sellPrice.quote.amount) (ne_of_gt hob)
      have hforSale := ho.forSale_pos
      apply Int.ediv_le_of_le_mul hnb
      simp only [LimitOrderObject.asks, LimitOrderObject.amountForSale]
      generalize o.forSale * o.sellPrice.quote.amount / o.sellPrice.base.amount = f at hfloor ⊢
      by_contra hlt
      rw [not_le] at hlt
      have h₁ : o.forSale * n.sellPrice.base.amount * o.sellPrice.base.amount
          < f * n.sellPrice.quote.amount * o.sellPrice.base.amount :=
        Int.mul_lt_mul_of_pos_right hlt hob
      have h₂ : f * o.sellPrice.base.amount * n.sellPrice.quote.amount
          ≤ o.forSale * o.sellPrice.quote.amount * n.sellPrice.quote.amount :=
        Int.mul_le_mul_of_nonneg_right hfloor (Int.le_of_lt hnq)
      have h₃ : o.forSale * (n.sellPrice.quote.amount * o.sellPrice.quote.amount)
          ≤ o.forSale * (n.sellPrice.base.amount * o.sellPrice.base.amount) :=
        Int.mul_le_mul_of_nonneg_left hcompat (Int.le_of_lt hforSale)
      linarith
    . exact le_rfl

end matchAmounts

section match'

variable {x : Exchange} {n o : LimitOrderObject} {m : Match}

/-- The whole effect of a match in which the new order pays `p` and the old one pays `q`. -/
structure Matches (x : Exchange) (n o : LimitOrderObject) (m : Match) (p q : ℤ) : Prop where
  new_nonneg : 0 ≤ p
  new_le : p ≤ n.forSale
  old_nonneg : 0 ≤ q
  old_le : q ≤ o.forSale
  full : p = n.forSale ∨ q = o.forSale
  currentPays : m.filled.currentPays = ⟨p, n.sellPrice.base.symbol⟩
  openPays : m.filled.openPays = ⟨q, o.sellPrice.base.symbol⟩
  currentTradeFee : m.filled.currentTradeFee.symbol = o.sellPrice.base.symbol ∧
    0 ≤ m.filled.currentTradeFee.amount ∧
    (m.filled.currentTradeFee.amount = 0 ∨
      ∃ ast, x.ledger.assets.find? o.sellPrice.base.symbol = some ast ∧
        m.filled.currentTradeFeeReceiver = ast.creator)
  openTradeFee : m.filled.openTradeFee.symbol = n.sellPrice.base.symbol ∧
    0 ≤ m.filled.openTradeFee.amount ∧
    (m.filled.openTradeFee.amount = 0 ∨
      ∃ ast, x.ledger.assets.find? n.sellPrice.base.symbol = some ast ∧
        m.filled.openTradeFeeReceiver = ast.creator)
  main : ∀ a s, m.exchange.ledger.mainBalance a s = x.ledger.mainBalance a s
    + single n.seller ⟨q - m.filled.currentTradeFee.amount, o.sellPrice.base.symbol⟩ a s
    + single m.filled.currentTradeFeeReceiver m.filled.currentTradeFee a s
    + single n.seller (refundOf n p) a s
    + single o.seller ⟨p - m.filled.openTradeFee.amount, n.sellPrice.base.symbol⟩ a s
    + single m.filled.openTradeFeeReceiver m.filled.openTradeFee a s
    + single o.seller (refundOf o q) a s
  market : ∀ a s, m.exchange.ledger.marketBalance a s = x.ledger.marketBalance a s
    - inMarket n a s + ((restOf n p).elim 0 fun n' => inMarket n' a s)
    - inMarket o a s + (restOf o q).elim 0 fun o' => inMarket o' a s
  base : ∀ b c, m.exchange.baseDepth b c = x.baseDepth b c
    - inBase n b c + ((restOf n p).elim 0 fun n' => inBase n' b c)
    - inBase o b c + (restOf o q).elim 0 fun o' => inBase o' b c
  quote : ∀ b c, m.exchange.quoteDepth b c = x.quoteDepth b c
    - inQuote n b c + ((restOf n p).elim 0 fun n' => inQuote n' b c)
    - inQuote o b c + (restOf o q).elim 0 fun o' => inQuote o' b c
  find? : ∀ id, m.exchange.findLimitOrder id =
    if id = o.id then restOf o q else if id = n.id then restOf n p else x.findLimitOrder id
  sum : ∀ f, m.exchange.limitOrders.sum f = x.limitOrders.sum f
    - f n + (restOf n p).elim 0 f - f o + (restOf o q).elim 0 f
  result : m.result = (restOf n p).isNone.toNat ||| (restOf o q).isNone.toNat <<< 1
  accounts : ∀ a, (m.exchange.ledger.accounts.find? a).isSome =
    (x.ledger.accounts.find? a).isSome
  assets : m.exchange.ledger.assets = x.ledger.assets
  nextLimitOrderId : m.exchange.nextLimitOrderId = x.nextLimitOrderId
  headBlockTime : m.exchange.headBlockTime = x.headBlockTime

/-- An order that is bought with what another one sells is not that other one. -/
theorem ne_of_sells (hn : x.findLimitOrder n.id = some n) (ho : x.findLimitOrder o.id = some o)
    (hlive : n.Live) (hsell : n.sellPrice.base.symbol = o.sellPrice.quote.symbol) :
    o.id ≠ n.id := by
  intro hid
  rw [hid, hn] at ho
  injection ho with ho
  subst ho
  exact hlive.price.symbols hsell

/-- The comparison of the two amounts fails for different symbols. -/
theorem sells_of_match' (ho : o.Live) (h : x.match' n o o.sellPrice = .ok m) :
    n.sellPrice.base.symbol = o.sellPrice.quote.symbol := by
  have hworth : o.amountForSale.mulPrice o.sellPrice = .ok ⟨o.asks, o.sellPrice.quote.symbol⟩ :=
    ho.amountToReceive_eq
  simp only [match', matchAmounts, hworth, bind_eq_ok, Asset.le, Asset.sameSymbol, ensure_eq_ok,
    Except.ok.injEq] at h
  obtain ⟨_, ⟨_, rfl, _, ⟨_, hsell, -⟩, -⟩, -⟩ := h
  exact hsell

theorem matches_of_match' (hn : x.findLimitOrder n.id = some n)
    (ho : x.findLimitOrder o.id = some o) (hnlive : n.Live) (holive : o.Live)
    (h : x.match' n o o.sellPrice = .ok m) :
    ∃ newReceives oldReceives, matchAmounts n o o.sellPrice = .ok (newReceives, oldReceives) ∧
      Matches x n o m oldReceives.amount newReceives.amount := by
  have hsell := sells_of_match' holive h
  have hne := ne_of_sells hn ho hnlive hsell
  simp only [match', bind_eq_ok, pure_eq_ok] at h
  obtain ⟨⟨newReceives, oldReceives⟩, hamounts, newTrade, hnew, oldTrade, hold, ⟨x₁, newFilled⟩,
    hfillNew, ⟨x₂, oldFilled⟩, hfillOld, rfl⟩ := h
  refine ⟨newReceives, oldReceives, hamounts, ?_⟩
  have hex := exchanges_of_matchAmounts hnlive holive hsell hamounts
  have hnew := splitsFee_of_subtractFee hnew
  have hold := splitsFee_of_subtractFee hold
  have hfees := hnew.changes.trans hold.changes
  have hn₁ : oldTrade.exchange.limitOrders.find? n.id = some n := by
    rw [hfees.limitOrders]
    exact hn
  obtain ⟨rfl, hpaysNew, hfillNew⟩ :=
    settles_fillOrder hn₁ hnlive hex.old_nonneg hex.old_le hfillNew
  have ho₁ : x₁.limitOrders.find? o.id = some o := by
    rw [hfillNew.find?, if_neg hne, hfees.limitOrders]
    exact ho
  obtain ⟨rfl, hpaysOld, hfillOld⟩ :=
    settles_fillOrder ho₁ holive hex.new_nonneg hex.new_le hfillOld
  constructor
  . exact hex.old_nonneg
  . exact hex.old_le
  . exact hex.new_nonneg
  . exact hex.new_le
  . exact hex.full
  . rw [← hpaysNew]
  . rw [← hpaysOld]
  . refine ⟨?_, hnew.fee_nonneg, ?_⟩
    . rw [hnew.fee_symbol, hex.new_symbol]
    . rw [← hex.new_symbol]
      exact hnew.creator
  . refine ⟨?_, hold.fee_nonneg, ?_⟩
    . rw [hold.fee_symbol, hex.old_symbol]
    . rw [← hex.old_symbol, ← hnew.changes.ledger.assets]
      exact hold.creator
  . intro a s
    rw [hfillOld.main, hfillNew.main, hfees.ledger.main, hnew.left, hold.left,
      hex.new_symbol, hex.old_symbol]
    dsimp only
    omega
  . intro a s
    rw [hfillOld.market, hfillNew.market, hfees.ledger.market]
    omega
  . intro b c
    rw [hfillOld.base, hfillNew.base, hfees.base]
    omega
  . intro b c
    rw [hfillOld.quote, hfillNew.quote, hfees.quote]
    omega
  . intro id
    unfold findLimitOrder
    rw [hfillOld.find?, hfillNew.find?, hfees.limitOrders]
  . intro f
    rw [hfillOld.sum, hfillNew.sum, hfees.limitOrders]
  . rfl
  . intro a
    rw [hfillOld.accounts, hfillNew.accounts, hfees.ledger.accounts]
  . rw [hfillOld.assets, hfillNew.assets, hfees.ledger.assets]
  . rw [hfillOld.nextLimitOrderId, hfillNew.nextLimitOrderId, hfees.nextLimitOrderId]
  . rw [hfillOld.headBlockTime, hfillNew.headBlockTime, hfees.headBlockTime]

end match'

section Matches

variable {x : Exchange} {n o : LimitOrderObject} {m : Match} {p q : ℤ}

theorem isNone_restOf_of_eq (h : p = o.forSale) : (restOf o p).isNone = true := by
  unfold restOf
  rw [if_pos (.inl h)]
  rfl

theorem Matches.findNew (h : Matches x n o m p q) (hne : o.id ≠ n.id) :
    m.exchange.findLimitOrder n.id = restOf n p := by
  rw [h.find?, if_neg hne.symm, if_pos rfl]

theorem Matches.findOld (h : Matches x n o m p q) :
    m.exchange.findLimitOrder o.id = restOf o q := by
  rw [h.find?, if_pos rfl]

/-- One side sells all it has, so one of the two orders is gone. -/
theorem Matches.result_ne (h : Matches x n o m p q) : m.result ≠ 0 := by
  rw [h.result]
  rcases h.full with hfull | hfull
  . rw [isNone_restOf_of_eq hfull]
    cases (restOf o q).isNone <;> decide
  . rw [isNone_restOf_of_eq hfull]
    cases (restOf n p).isNone <;> decide

theorem Matches.newBit (h : Matches x n o m p q) (hne : o.id ≠ n.id) :
    m.result &&& 1 ≠ 0 ↔ m.exchange.findLimitOrder n.id = none := by
  rw [h.findNew hne, ← Option.isNone_iff_eq_none, h.result]
  cases (restOf n p).isNone <;> cases (restOf o q).isNone <;> decide

theorem Matches.oldBit (h : Matches x n o m p q) :
    m.result &&& 2 ≠ 0 ↔ m.exchange.findLimitOrder o.id = none := by
  rw [h.findOld, ← Option.isNone_iff_eq_none, h.result]
  cases (restOf n p).isNone <;> cases (restOf o q).isNone <;> decide

/-- An order that is left sold only a part, so the other side sold all it had. -/
theorem Matches.old_gone (h : Matches x n o m p q) (hnew : restOf n p ≠ none) :
    m.exchange.findLimitOrder o.id = none := by
  rw [h.findOld, ← Option.isNone_iff_eq_none]
  rcases h.full with hfull | hfull
  . exact absurd (Option.isNone_iff_eq_none.mp (isNone_restOf_of_eq hfull)) hnew
  . exact isNone_restOf_of_eq hfull

end Matches

end Exchange
end Golos
