import Golos.Ledger.Lemmas
import Golos.Market.Impl.Evaluators
import Golos.Market.PriceOrder

/-!
This module contains the effect of the balance functions on main and market balances together, and of
filling and cancelling one live order: the money that moves, and what is left of the order.
-/

namespace Golos
namespace Ledger

open Checked

/-- The money of an account in its open orders, 0 where there is no object for it. -/
def marketBalance (l : Ledger) (name : AccountName) (symbol : AssetSymbolType) : ℤ :=
  if symbol = steemSymbol then
    match l.accounts.find? name with
    | some a => a.marketBalance
    | none => 0
  else if symbol = sbdSymbol then
    match l.accounts.find? name with
    | some a => a.marketSbdBalance
    | none => 0
  else
    match l.accountBalances.find? (symbol, name) with
    | some o => o.marketBalance
    | none => 0

/-- `l'` is `l` after main balances changed by `f` and market balances by `g`. -/
structure Trades (l l' : Ledger) (f g : AccountName → AssetSymbolType → ℤ) : Prop where
  main : ∀ a s, l'.mainBalance a s = l.mainBalance a s + f a s
  market : ∀ a s, l'.marketBalance a s = l.marketBalance a s + g a s
  accounts : ∀ a, (l'.accounts.find? a).isSome = (l.accounts.find? a).isSome
  assets : l'.assets = l.assets

namespace Trades

variable {l l' l'' : Ledger} {f f' g g' : AccountName → AssetSymbolType → ℤ}

theorem trans (h : Trades l l' f g) (h' : Trades l' l'' f' g') :
    Trades l l'' (fun a s => f a s + f' a s) (fun a s => g a s + g' a s) where
  main := by
    intro a s
    rw [h'.main, h.main]
    omega
  market := by
    intro a s
    rw [h'.market, h.market]
    omega
  accounts := by
    intro a
    rw [h'.accounts, h.accounts]
  assets := by rw [h'.assets, h.assets]

end Trades

section modifyAccount

variable {l : Ledger} {name : AccountName} {a : AccountObject}

/-- Rewriting one account changes its two market balances by the change of the object. -/
theorem marketBalance_modifyAccount (f : AccountObject → AccountObject)
    (hf : ∀ a, (f a).name = a.name) (ha : l.accounts.find? name = some a) (b : AccountName)
    (s : AssetSymbolType) :
    (l.modifyAccount name f hf).marketBalance b s = l.marketBalance b s
      + (single name ⟨(f a).marketBalance - a.marketBalance, steemSymbol⟩ b s
        + single name ⟨(f a).marketSbdBalance - a.marketSbdBalance, sbdSymbol⟩ b s) := by
  have hne := sbdSymbol_ne_steemSymbol
  by_cases hsteem : s = steemSymbol
  . subst hsteem
    by_cases hb : b = name
    . subst hb
      simp [marketBalance, modifyAccount, ha, single, hne.symm]
    . simp [marketBalance, modifyAccount, Table.find?_modify_of_ne, single, hb]
  . by_cases hsbd : s = sbdSymbol
    . subst hsbd
      by_cases hb : b = name
      . subst hb
        simp [marketBalance, modifyAccount, ha, single, hne]
      . simp [marketBalance, modifyAccount, Table.find?_modify_of_ne, single, hb, hne]
    . simp [marketBalance, modifyAccount, single, hsteem, hsbd]

end modifyAccount

section adjustAccountBalance

variable {l l' : Ledger} {name : AccountName} {symbol : AssetSymbolType} {d dTip dMarket : ℤ}

/-- What a balance object holds, or 0 where there is none. -/
def accountBalanceOf (l : Ledger) (get : AccountBalanceObject → ℤ) (a : AccountName)
    (s : AssetSymbolType) : ℤ :=
  ((l.accountBalances.find? (s, a)).map get).getD 0

theorem accountBalance_adjustAccountBalance
    (h : l.adjustAccountBalance name symbol d dTip dMarket = .ok l') (a : AccountName)
    (s : AssetSymbolType) :
    l'.accountBalanceOf AccountBalanceObject.balance a s =
        l.accountBalanceOf AccountBalanceObject.balance a s + single name ⟨d, symbol⟩ a s ∧
      l'.accountBalanceOf AccountBalanceObject.marketBalance a s =
        l.accountBalanceOf AccountBalanceObject.marketBalance a s
          + single name ⟨dMarket, symbol⟩ a s := by
  unfold adjustAccountBalance at h
  unfold accountBalanceOf
  split at h
  . next o ho =>
    simp only [bind_eq_ok, pure_eq_ok] at h
    obtain ⟨balance, hbalance, tip, -, market, hmarket, rfl⟩ := h
    have hbalance := eq_of_add64_eq_ok hbalance
    have hmarket := eq_of_add64_eq_ok hmarket
    by_cases hs : (s, a) = (symbol, name)
    . rw [hs, Table.find?_modify_self, ho]
      simp only [Prod.mk.injEq] at hs
      simp [single, hs, hbalance, hmarket]
    . rw [Table.find?_modify_of_ne _ _ _ hs]
      simp only [Prod.mk.injEq, not_and] at hs
      have : ¬(a = name ∧ s = symbol) := fun h => hs h.2 h.1
      simp [single, this]
  . next hnone =>
    simp only [bind_eq_ok, ensure_eq_ok, pure_eq_ok] at h
    obtain ⟨_, -, rfl⟩ := h
    rw [Table.find?_insert]
    simp only [AccountBalanceObject.bySymbolAccount]
    by_cases hs : (symbol, name) = (s, a)
    . rw [if_pos hs, ← hs, hnone]
      simp only [Prod.mk.injEq] at hs
      simp [single, ← hs.1, ← hs.2]
    . rw [if_neg hs]
      simp only [Prod.mk.injEq, not_and] at hs
      have : ¬(a = name ∧ s = symbol) := fun h => hs h.2.symm h.1.symm
      simp [single, this]

theorem adjustAccountBalance_frame
    (h : l.adjustAccountBalance name symbol d dTip dMarket = .ok l') :
    l'.accounts = l.accounts ∧ l'.assets = l.assets := by
  unfold adjustAccountBalance at h
  split at h
  . simp only [bind_eq_ok, pure_eq_ok] at h
    obtain ⟨_, -, _, -, _, -, rfl⟩ := h
    exact ⟨rfl, rfl⟩
  . simp only [bind_eq_ok, pure_eq_ok] at h
    obtain ⟨_, -, rfl⟩ := h
    exact ⟨rfl, rfl⟩

theorem mainBalance_of_asset {s : AssetSymbolType} (hsteem : s ≠ steemSymbol)
    (hsbd : s ≠ sbdSymbol) (l : Ledger) (a : AccountName) :
    l.mainBalance a s = l.accountBalanceOf AccountBalanceObject.balance a s := by
  simp only [mainBalance, hsteem, hsbd, ↓reduceIte, accountBalanceOf]
  cases l.accountBalances.find? (s, a) with
  | none => rfl
  | some o => rfl

theorem marketBalance_of_asset {s : AssetSymbolType} (hsteem : s ≠ steemSymbol)
    (hsbd : s ≠ sbdSymbol) (l : Ledger) (a : AccountName) :
    l.marketBalance a s = l.accountBalanceOf AccountBalanceObject.marketBalance a s := by
  simp only [marketBalance, hsteem, hsbd, ↓reduceIte, accountBalanceOf]
  cases l.accountBalances.find? (s, a) with
  | none => rfl
  | some o => rfl

/-- The market balances after a change of an account balance object. -/
theorem trades_adjustAccountBalance (hsteem : symbol ≠ steemSymbol) (hsbd : symbol ≠ sbdSymbol)
    (h : l.adjustAccountBalance name symbol d dTip dMarket = .ok l') :
    Trades l l' (single name ⟨d, symbol⟩) (single name ⟨dMarket, symbol⟩) := by
  obtain ⟨haccounts, hassets⟩ := adjustAccountBalance_frame h
  have hother : ∀ s, s = steemSymbol ∨ s = sbdSymbol → ∀ a d, single name ⟨d, symbol⟩ a s = 0 := by
    rintro s (rfl | rfl) a d
    . simp [single, hsteem.symm]
    . simp [single, hsbd.symm]
  constructor
  . intro a s
    by_cases h₁ : s = steemSymbol
    . rw [hother s (.inl h₁)]
      simp [mainBalance, h₁, haccounts]
    . by_cases h₂ : s = sbdSymbol
      . rw [hother s (.inr h₂)]
        simp [mainBalance, h₂, sbdSymbol_ne_steemSymbol, haccounts]
      . rw [mainBalance_of_asset h₁ h₂, mainBalance_of_asset h₁ h₂]
        exact (accountBalance_adjustAccountBalance h a s).1
  . intro a s
    by_cases h₁ : s = steemSymbol
    . rw [hother s (.inl h₁)]
      simp [marketBalance, h₁, haccounts]
    . by_cases h₂ : s = sbdSymbol
      . rw [hother s (.inr h₂)]
        simp [marketBalance, h₂, sbdSymbol_ne_steemSymbol, haccounts]
      . rw [marketBalance_of_asset h₁ h₂, marketBalance_of_asset h₁ h₂]
        exact (accountBalance_adjustAccountBalance h a s).2
  . intro a
    rw [haccounts]
  . exact hassets

end adjustAccountBalance

theorem single_zero (name : AccountName) (symbol : AssetSymbolType) (a : AccountName)
    (s : AssetSymbolType) : single name ⟨0, symbol⟩ a s = 0 := by
  simp [single]

theorem trades_adjustBalance {l l' : Ledger} {name : AccountName} {delta : Asset}
    (h : l.adjustBalance name delta = .ok l') :
    Trades l l' (single name delta) (fun _ _ => 0) := by
  have hmoves := moves_adjustBalance h
  unfold adjustBalance at h
  simp only [bind_eq_ok, getAccount_eq_ok] at h
  obtain ⟨a, ha, h⟩ := h
  split at h
  . next hsteem =>
    simp only [bind_eq_ok, pure_eq_ok] at h
    obtain ⟨balance, -, rfl⟩ := h
    refine ⟨hmoves.balance, ?_, hmoves.accounts, hmoves.assets⟩
    intro b s
    rw [marketBalance_modifyAccount _ _ ha]
    simp [single]
  . next hsteem =>
    split at h
    . next hsbd =>
      simp only [bind_eq_ok, pure_eq_ok] at h
      obtain ⟨sbdBalance, -, rfl⟩ := h
      refine ⟨hmoves.balance, ?_, hmoves.accounts, hmoves.assets⟩
      intro b s
      rw [marketBalance_modifyAccount _ _ ha]
      simp [single]
    . next hsbd =>
      have := trades_adjustAccountBalance hsteem hsbd h
      refine ⟨this.main, ?_, this.accounts, this.assets⟩
      intro b s
      rw [this.market, single_zero]

theorem trades_adjustMarketBalance {l l' : Ledger} {name : AccountName} {delta : Asset}
    (h : l.adjustMarketBalance name delta = .ok l') :
    Trades l l' (fun _ _ => 0) (single name delta) := by
  unfold adjustMarketBalance at h
  simp only [bind_eq_ok, getAccount_eq_ok] at h
  obtain ⟨a, ha, h⟩ := h
  split at h
  . next hsteem =>
    simp only [bind_eq_ok, pure_eq_ok] at h
    obtain ⟨marketBalance, hadd, rfl⟩ := h
    have hmarket := eq_of_add64_eq_ok hadd
    have hmoves := moves_modifyAccount
      (fun a => { a with marketBalance := marketBalance }) (by intros; rfl) ha
    refine ⟨?_, ?_, hmoves.accounts, hmoves.assets⟩
    . intro b s
      rw [hmoves.balance]
      simp [single]
    . intro b s
      rw [marketBalance_modifyAccount _ _ ha]
      simp [single, hmarket, hsteem]
  . next hsteem =>
    split at h
    . next hsbd =>
      simp only [bind_eq_ok, pure_eq_ok] at h
      obtain ⟨marketSbdBalance, hadd, rfl⟩ := h
      have hmarket := eq_of_add64_eq_ok hadd
      have hmoves := moves_modifyAccount
        (fun a => { a with marketSbdBalance := marketSbdBalance }) (by intros; rfl) ha
      refine ⟨?_, ?_, hmoves.accounts, hmoves.assets⟩
      . intro b s
        rw [hmoves.balance]
        simp [single]
      . intro b s
        rw [marketBalance_modifyAccount _ _ ha]
        simp [single, hmarket, hsbd]
    . next hsbd =>
      have := trades_adjustAccountBalance hsteem hsbd h
      refine ⟨?_, this.market, this.accounts, this.assets⟩
      intro b s
      rw [this.main, single_zero]

end Ledger
open Checked Ledger

namespace LimitOrderObject

/-- The exact value of `amount_to_receive()`. -/
def asks (o : LimitOrderObject) : ℤ :=
  o.forSale * o.sellPrice.quote.amount / o.sellPrice.base.amount

/-- An order as creation and matching leave it. -/
structure Live (o : LimitOrderObject) : Prop where
  price : o.sellPrice.Valid
  symbol : o.symbol = o.sellPrice.base.symbol
  forSale_pos : 0 < o.forSale
  forSale_le : o.forSale ≤ maxInt64
  asks_pos : 0 < o.asks
  asks_le : o.asks ≤ maxInt64

variable {o : LimitOrderObject}

theorem Live.amountToReceive_eq (h : o.Live) :
    o.amountToReceive = .ok ⟨o.asks, o.sellPrice.quote.symbol⟩ :=
  Price.mulPrice_base h.price (Int.le_of_lt h.forSale_pos) h.forSale_le h.asks_le

/-- What is left of an order that sold some of what it offers. -/
def sold (o : LimitOrderObject) (amount : ℤ) : LimitOrderObject :=
  { o with forSale := o.forSale - amount }

section sold

variable {amount : ℤ}

theorem Live.asks_sold_le (h : o.Live) (hpos : 0 ≤ amount) : (o.sold amount).asks ≤ o.asks := by
  apply Int.ediv_le_ediv h.price.base_pos
  apply Int.mul_le_mul_of_nonneg_right
  . simp only [sold]
    omega
  . exact Int.le_of_lt h.price.quote_pos

theorem Live.asks_sold_nonneg (h : o.Live) (hle : amount ≤ o.forSale) :
    0 ≤ (o.sold amount).asks := by
  apply Int.ediv_nonneg
  . apply Int.mul_nonneg
    . simp only [sold]
      omega
    . exact Int.le_of_lt h.price.quote_pos
  . exact Int.le_of_lt h.price.base_pos

theorem Live.amountToReceive_sold (h : o.Live) (hpos : 0 ≤ amount) (hle : amount ≤ o.forSale) :
    (o.sold amount).amountToReceive = .ok ⟨(o.sold amount).asks, o.sellPrice.quote.symbol⟩ := by
  have := h.forSale_le
  have := h.asks_le
  have := h.asks_sold_le hpos
  apply Price.mulPrice_base h.price
  . simp only [sold]
    omega
  . simp only [sold]
    omega
  . simp only [asks, sold] at *
    omega

theorem Live.sold (h : o.Live) (hpos : 0 ≤ amount) (hlt : amount < o.forSale)
    (hasks : (o.sold amount).asks ≠ 0) : (o.sold amount).Live where
  price := h.price
  symbol := h.symbol
  forSale_pos := by
    simp only [LimitOrderObject.sold]
    omega
  forSale_le := by
    have := h.forSale_le
    simp only [LimitOrderObject.sold]
    omega
  asks_pos := by
    have := h.asks_sold_nonneg (Int.le_of_lt hlt)
    omega
  asks_le := by
    have := h.asks_le
    have := h.asks_sold_le hpos
    omega

end sold

end LimitOrderObject

namespace Exchange

/-- One of the two depths of a pair, 0 where there is no object for it. -/
def pairDepth (x : Exchange) (side : MarketPairObject → Asset) (b q : AssetSymbolType) : ℤ :=
  match x.marketPairs.find? (b, q) with
  | some p => (side p).amount
  | none => 0

abbrev baseDepth (x : Exchange) : AssetSymbolType → AssetSymbolType → ℤ :=
  x.pairDepth MarketPairObject.baseDepth

abbrev quoteDepth (x : Exchange) : AssetSymbolType → AssetSymbolType → ℤ :=
  x.pairDepth MarketPairObject.quoteDepth

/-- A change of the depth of one pair. -/
def inPair (b q : AssetSymbolType) (d : ℤ) (b' q' : AssetSymbolType) : ℤ :=
  if b' = b ∧ q' = q then d else 0

/-- `x'` is `x` after balances and depths changed as given. The orders are the same. -/
structure Changes (x x' : Exchange) (main market : AccountName → AssetSymbolType → ℤ)
    (base quote : AssetSymbolType → AssetSymbolType → ℤ) : Prop where
  ledger : Trades x.ledger x'.ledger main market
  base : ∀ b q, x'.baseDepth b q = x.baseDepth b q + base b q
  quote : ∀ b q, x'.quoteDepth b q = x.quoteDepth b q + quote b q
  limitOrders : x'.limitOrders = x.limitOrders
  nextLimitOrderId : x'.nextLimitOrderId = x.nextLimitOrderId
  headBlockTime : x'.headBlockTime = x.headBlockTime

namespace Changes

variable {x x' x'' : Exchange} {main main' market market' : AccountName → AssetSymbolType → ℤ}
  {base base' quote quote' : AssetSymbolType → AssetSymbolType → ℤ}

theorem trans (h : Changes x x' main market base quote)
    (h' : Changes x' x'' main' market' base' quote') :
    Changes x x'' (fun a s => main a s + main' a s) (fun a s => market a s + market' a s)
      (fun b q => base b q + base' b q) (fun b q => quote b q + quote' b q) where
  ledger := h.ledger.trans h'.ledger
  base := by
    intro b q
    rw [h'.base, h.base]
    omega
  quote := by
    intro b q
    rw [h'.quote, h.quote]
    omega
  limitOrders := by rw [h'.limitOrders, h.limitOrders]
  nextLimitOrderId := by rw [h'.nextLimitOrderId, h.nextLimitOrderId]
  headBlockTime := by rw [h'.headBlockTime, h.headBlockTime]

theorem withOrders (h : Changes x x' main market base quote) (t : Table LimitOrderObject.id) :
    Changes { x with limitOrders := t } { x' with limitOrders := t } main market base quote where
  ledger := h.ledger
  base := h.base
  quote := h.quote
  limitOrders := rfl
  nextLimitOrderId := h.nextLimitOrderId
  headBlockTime := h.headBlockTime

end Changes

section primitives

variable {x x' : Exchange} {name : AccountName} {delta base quote : Asset}

theorem changes_of_ledger {ledger : Ledger} {main market : AccountName → AssetSymbolType → ℤ}
    (h : Trades x.ledger ledger main market) :
    Changes x { x with ledger := ledger } main market (fun _ _ => 0) (fun _ _ => 0) where
  ledger := h
  base := by
    intro b q
    simp [pairDepth]
  quote := by
    intro b q
    simp [pairDepth]
  limitOrders := rfl
  nextLimitOrderId := rfl
  headBlockTime := rfl

theorem changes_adjustBalance (h : x.adjustBalance name delta = .ok x') :
    Changes x x' (single name delta) (fun _ _ => 0) (fun _ _ => 0) (fun _ _ => 0) := by
  simp only [adjustBalance, bind_eq_ok, pure_eq_ok] at h
  obtain ⟨ledger, hledger, rfl⟩ := h
  exact changes_of_ledger (trades_adjustBalance hledger)

theorem changes_adjustMarketBalance (h : x.adjustMarketBalance name delta = .ok x') :
    Changes x x' (fun _ _ => 0) (single name delta) (fun _ _ => 0) (fun _ _ => 0) := by
  simp only [adjustMarketBalance, bind_eq_ok, pure_eq_ok] at h
  obtain ⟨ledger, hledger, rfl⟩ := h
  exact changes_of_ledger (trades_adjustMarketBalance hledger)

theorem changes_of_marketPairs {t : Table MarketPairObject.byBaseQuote}
    {base quote : AssetSymbolType → AssetSymbolType → ℤ}
    (hbase : ∀ b q, ({ x with marketPairs := t } : Exchange).baseDepth b q
      = x.baseDepth b q + base b q)
    (hquote : ∀ b q, ({ x with marketPairs := t } : Exchange).quoteDepth b q
      = x.quoteDepth b q + quote b q) :
    Changes x { x with marketPairs := t } (fun _ _ => 0) (fun _ _ => 0) base quote where
  ledger := by
    refine ⟨?_, ?_, fun _ => rfl, rfl⟩
    . intro a s
      exact (Int.add_zero _).symm
    . intro a s
      exact (Int.add_zero _).symm
  base := hbase
  quote := hquote
  limitOrders := rfl
  nextLimitOrderId := rfl
  headBlockTime := rfl

theorem pairDepth_erase (x : Exchange) (side : MarketPairObject → Asset) {p : MarketPairObject}
    {b q : AssetSymbolType} {d : ℤ} (hp : x.marketPairs.find? (b, q) = some p)
    (hzero : (side p).amount + d = 0) (b' q' : AssetSymbolType) :
    ({ x with marketPairs := x.marketPairs.erase (b, q) } : Exchange).pairDepth side b' q'
      = x.pairDepth side b' q' + inPair b q d b' q' := by
  unfold pairDepth inPair
  by_cases hkey : b' = b ∧ q' = q
  . rw [if_pos hkey, hkey.1, hkey.2, Table.find?_erase_self, hp]
    exact hzero.symm
  . rw [if_neg hkey, Table.find?_erase_of_ne _ (by simpa using hkey), Int.add_zero]

theorem pairDepth_modify (x : Exchange) (side : MarketPairObject → Asset) {p : MarketPairObject}
    {b q : AssetSymbolType} {d : ℤ} (f : MarketPairObject → MarketPairObject)
    (hf : ∀ p, (f p).byBaseQuote = p.byBaseQuote) (hp : x.marketPairs.find? (b, q) = some p)
    (hd : (side (f p)).amount = (side p).amount + d) (b' q' : AssetSymbolType) :
    ({ x with marketPairs := x.marketPairs.modify (b, q) f hf } : Exchange).pairDepth side b' q'
      = x.pairDepth side b' q' + inPair b q d b' q' := by
  unfold pairDepth inPair
  by_cases hkey : b' = b ∧ q' = q
  . rw [if_pos hkey, hkey.1, hkey.2, Table.find?_modify_self, hp]
    exact hd
  . rw [if_neg hkey, Table.find?_modify_of_ne _ _ _ (by simpa using hkey), Int.add_zero]

theorem pairDepth_insert (x : Exchange) (side : MarketPairObject → Asset) {p : MarketPairObject}
    (h : x.marketPairs.find? p.byBaseQuote = none) (b' q' : AssetSymbolType) :
    ({ x with marketPairs := x.marketPairs.insert p h } : Exchange).pairDepth side b' q'
      = x.pairDepth side b' q'
        + inPair p.baseDepth.symbol p.quoteDepth.symbol (side p).amount b' q' := by
  unfold pairDepth inPair
  rw [Table.find?_insert]
  by_cases hkey : b' = p.baseDepth.symbol ∧ q' = p.quoteDepth.symbol
  . rw [if_pos hkey, if_pos (by simp [hkey]), hkey.1, hkey.2, h]
    exact (Int.zero_add _).symm
  . rw [if_neg hkey, if_neg, Int.add_zero]
    simp only [Prod.mk.injEq]
    tauto

/-- A pair without depth is a pair without object. -/
theorem changes_updatePairDepth (h : x.updatePairDepth base quote = .ok x') :
    Changes x x' (fun _ _ => 0) (fun _ _ => 0)
      (inPair base.symbol quote.symbol base.amount)
      (inPair base.symbol quote.symbol quote.amount) := by
  unfold updatePairDepth at h
  split at h
  . next p hp =>
    simp only [bind_eq_ok, Asset.add_eq_ok, Table.key_of_find? hp] at h
    obtain ⟨newBase, ⟨-, -, rfl⟩, newQuote, ⟨-, -, rfl⟩, h⟩ := h
    split at h
    . next hzero =>
      simp only [pure_eq_ok] at h
      subst h
      apply changes_of_marketPairs
      . exact pairDepth_erase x _ hp hzero.1
      . exact pairDepth_erase x _ hp hzero.2
    . simp only [pure_eq_ok] at h
      subst h
      apply changes_of_marketPairs
      . exact pairDepth_modify x _ _ _ hp rfl
      . exact pairDepth_modify x _ _ _ hp rfl
  . next hnone =>
    injection h with h
    subst h
    apply changes_of_marketPairs
    . exact pairDepth_insert x _ hnone
    . exact pairDepth_insert x _ hnone

end primitives

/-- The part of an order in the market balance of an account, and in the depths of a pair. -/
def inMarket (o : LimitOrderObject) (a : AccountName) (s : AssetSymbolType) : ℤ :=
  single o.seller o.amountForSale a s

def inBase (o : LimitOrderObject) (b q : AssetSymbolType) : ℤ :=
  inPair o.sellPrice.base.symbol o.sellPrice.quote.symbol o.forSale b q

def inQuote (o : LimitOrderObject) (b q : AssetSymbolType) : ℤ :=
  inPair o.sellPrice.base.symbol o.sellPrice.quote.symbol o.asks b q

/--
`x'` is `x` with the order `o` replaced by `rest`, or removed if that is `none`, and its parts in
the market balance and the depths with it. Main balances change by `main`.
-/
structure Settles (x x' : Exchange) (o : LimitOrderObject) (rest : Option LimitOrderObject)
    (main : AccountName → AssetSymbolType → ℤ) : Prop where
  main : ∀ a s, x'.ledger.mainBalance a s = x.ledger.mainBalance a s + main a s
  market : ∀ a s, x'.ledger.marketBalance a s
    = x.ledger.marketBalance a s - inMarket o a s + rest.elim 0 fun o' => inMarket o' a s
  base : ∀ b q, x'.baseDepth b q
    = x.baseDepth b q - inBase o b q + rest.elim 0 fun o' => inBase o' b q
  quote : ∀ b q, x'.quoteDepth b q
    = x.quoteDepth b q - inQuote o b q + rest.elim 0 fun o' => inQuote o' b q
  find? : ∀ id, x'.limitOrders.find? id = if id = o.id then rest else x.limitOrders.find? id
  sum : ∀ f, x'.limitOrders.sum f = x.limitOrders.sum f - f o + rest.elim 0 f
  accounts : ∀ a, (x'.ledger.accounts.find? a).isSome = (x.ledger.accounts.find? a).isSome
  assets : x'.ledger.assets = x.ledger.assets
  nextLimitOrderId : x'.nextLimitOrderId = x.nextLimitOrderId
  headBlockTime : x'.headBlockTime = x.headBlockTime

theorem Settles.trans {x x' x'' : Exchange} {o o' : LimitOrderObject}
    {rest : Option LimitOrderObject} {main main' : AccountName → AssetSymbolType → ℤ}
    (h : Settles x x' o (some o') main) (hid : o'.id = o.id) (h' : Settles x' x'' o' rest main') :
    Settles x x'' o rest (fun a s => main a s + main' a s) where
  main := by
    intro a s
    rw [h'.main, h.main]
    omega
  market := by
    intro a s
    rw [h'.market, h.market, Option.elim_some]
    omega
  base := by
    intro b q
    rw [h'.base, h.base, Option.elim_some]
    omega
  quote := by
    intro b q
    rw [h'.quote, h.quote, Option.elim_some]
    omega
  find? := by
    intro id
    rw [h'.find?, h.find?, hid]
    split <;> rfl
  sum := by
    intro f
    rw [h'.sum, h.sum, Option.elim_some]
    omega
  accounts := by
    intro a
    rw [h'.accounts, h.accounts]
  assets := by rw [h'.assets, h.assets]
  nextLimitOrderId := by rw [h'.nextLimitOrderId, h.nextLimitOrderId]
  headBlockTime := by rw [h'.headBlockTime, h.headBlockTime]

theorem settles_removeLimitOrder {x x₁ : Exchange} {o : LimitOrderObject}
    {main market : AccountName → AssetSymbolType → ℤ}
    {base quote : AssetSymbolType → AssetSymbolType → ℤ} (h : Changes x x₁ main market base quote)
    (ho : x.limitOrders.find? o.id = some o) (hmarket : ∀ a s, market a s = -inMarket o a s)
    (hbase : ∀ b q, base b q = -inBase o b q) (hquote : ∀ b q, quote b q = -inQuote o b q) :
    Settles x (x₁.removeLimitOrder o) o none main where
  main := h.ledger.main
  market := by
    intro a s
    have := h.ledger.market a s
    have := hmarket a s
    simp only [removeLimitOrder, Option.elim_none]
    omega
  base := by
    intro b q
    have := h.base b q
    have := hbase b q
    simp only [removeLimitOrder, pairDepth, Option.elim_none] at *
    omega
  quote := by
    intro b q
    have := h.quote b q
    have := hquote b q
    simp only [removeLimitOrder, pairDepth, Option.elim_none] at *
    omega
  find? := by
    intro id
    simp only [removeLimitOrder, h.limitOrders]
    split
    . next heq => rw [heq, Table.find?_erase_self]
    . next hne => rw [Table.find?_erase_of_ne _ hne]
  sum := by
    intro f
    simp only [removeLimitOrder, h.limitOrders, Option.elim_none]
    rw [Table.sum_erase _ _ ho]
    omega
  accounts := h.ledger.accounts
  assets := h.ledger.assets
  nextLimitOrderId := h.nextLimitOrderId
  headBlockTime := h.headBlockTime

theorem inPair_neg (b q : AssetSymbolType) (d : ℤ) (b' q' : AssetSymbolType) :
    inPair b q (-d) b' q' = -inPair b q d b' q' := by
  unfold inPair
  split <;> simp

theorem inPair_sub (b q : AssetSymbolType) (d d' : ℤ) (b' q' : AssetSymbolType) :
    inPair b q (d - d') b' q' = inPair b q d b' q' - inPair b q d' b' q' := by
  unfold inPair
  split <;> simp

theorem single_neg (name : AccountName) (amount : ℤ) (symbol : AssetSymbolType) (a : AccountName)
    (s : AssetSymbolType) : single name ⟨-amount, symbol⟩ a s = -single name ⟨amount, symbol⟩ a s := by
  unfold single
  split <;> simp

theorem single_sub (name : AccountName) (amount amount' : ℤ) (symbol : AssetSymbolType)
    (a : AccountName) (s : AssetSymbolType) :
    single name ⟨amount - amount', symbol⟩ a s
      = single name ⟨amount, symbol⟩ a s - single name ⟨amount', symbol⟩ a s := by
  unfold single
  split <;> simp

section cancelOrder

variable {x x' : Exchange} {o : LimitOrderObject}

theorem changes_of_cancelOrder {r : ℤ}
    (hr : o.amountToReceive = .ok ⟨r, o.sellPrice.quote.symbol⟩) (h : x.cancelOrder o = .ok x') :
    ∃ x₁, x' = x₁.removeLimitOrder o ∧
      Changes x x₁ (single o.seller o.amountForSale)
        (single o.seller ⟨-o.forSale, o.sellPrice.base.symbol⟩)
        (inPair o.sellPrice.base.symbol o.sellPrice.quote.symbol (-o.forSale))
        (inPair o.sellPrice.base.symbol o.sellPrice.quote.symbol (-r)) := by
  simp only [cancelOrder, hr, ok_bind, bind_eq_ok, Asset.neg_eq_ok, pure_eq_ok] at h
  obtain ⟨x₁, hmain, _, ⟨-, rfl⟩, x₂, hmarket, _, ⟨-, rfl⟩, x₃, hdepth, rfl⟩ := h
  have hmain := changes_adjustBalance hmain
  have hmarket := changes_adjustMarketBalance hmarket
  have hdepth := changes_updatePairDepth hdepth
  refine ⟨x₃, rfl, ?_⟩
  have := (hmain.trans hmarket).trans hdepth
  simp only [Int.add_zero, Int.zero_add] at this
  exact this

theorem settles_cancelOrder (ho : x.limitOrders.find? o.id = some o) (hlive : o.Live)
    (h : x.cancelOrder o = .ok x') :
    Settles x x' o none (single o.seller o.amountForSale) := by
  obtain ⟨x₁, rfl, hchanges⟩ := changes_of_cancelOrder hlive.amountToReceive_eq h
  apply settles_removeLimitOrder hchanges ho
  . intro a s
    exact single_neg _ _ _ a s
  . intro b q
    exact inPair_neg _ _ _ b q
  . intro b q
    exact inPair_neg _ _ _ b q

end cancelOrder

section fillOrder

variable {x x' : Exchange} {o : LimitOrderObject} {pays receives : Asset} {gone : Bool}

/-- What is left of an order after it paid: nothing when the rest would ask for nothing. -/
def restOf (o : LimitOrderObject) (pays : ℤ) : Option LimitOrderObject :=
  if pays = o.forSale ∨ (o.sold pays).asks = 0 then none else some (o.sold pays)

/-- The unsellable remainder goes back to the seller. -/
def refundOf (o : LimitOrderObject) (pays : ℤ) : Asset :=
  ⟨if (restOf o pays).isNone then o.forSale - pays else 0, o.sellPrice.base.symbol⟩

theorem restOf_live (hlive : o.Live) {pays : ℤ} (hpos : 0 ≤ pays) (hle : pays ≤ o.forSale) :
    ∀ o' ∈ restOf o pays, o' = o.sold pays ∧ o'.Live := by
  intro o' ho'
  unfold restOf at ho'
  split at ho'
  . cases ho'
  . next h =>
    simp only [Option.mem_def, Option.some.injEq] at ho'
    simp only [not_or] at h
    subst ho'
    refine ⟨rfl, hlive.sold hpos ?_ h.2⟩
    omega

/-- Selling a part rewrites the order by what it sold. -/
theorem settles_modify {x₁ : Exchange} {main market : AccountName → AssetSymbolType → ℤ}
    {base quote : AssetSymbolType → AssetSymbolType → ℤ} {p : ℤ}
    (h : Changes { x with limitOrders := x.limitOrders.modify o.id fun o => { o with forSale := p } }
      x₁ main market base quote)
    (ho : x.limitOrders.find? o.id = some o)
    (hmarket : ∀ a s, market a s = inMarket { o with forSale := p } a s - inMarket o a s)
    (hbase : ∀ b q, base b q = inBase { o with forSale := p } b q - inBase o b q)
    (hquote : ∀ b q, quote b q = inQuote { o with forSale := p } b q - inQuote o b q) :
    Settles x x₁ o (some { o with forSale := p }) main where
  main := h.ledger.main
  market := by
    intro a s
    have := h.ledger.market a s
    have := hmarket a s
    simp only [Option.elim_some] at *
    omega
  base := by
    intro b q
    have := h.base b q
    have := hbase b q
    simp only [pairDepth, Option.elim_some] at *
    omega
  quote := by
    intro b q
    have := h.quote b q
    have := hquote b q
    simp only [pairDepth, Option.elim_some] at *
    omega
  find? := by
    intro id
    rw [h.limitOrders, Table.find?_modify]
    split
    . next heq => rw [heq, ho, Option.map_some]
    . rfl
  sum := by
    intro f
    rw [h.limitOrders, Table.sum_modify _ _ _ _ ho, Option.elim_some]
    omega
  accounts := h.ledger.accounts
  assets := h.ledger.assets
  nextLimitOrderId := h.nextLimitOrderId
  headBlockTime := h.headBlockTime

theorem inMarket_sub (o : LimitOrderObject) (p : ℤ) (a : AccountName) (s : AssetSymbolType) :
    single o.seller ⟨-p, o.sellPrice.base.symbol⟩ a s
      = inMarket (o.sold p) a s - inMarket o a s := by
  have hneg := single_neg o.seller p o.sellPrice.base.symbol a s
  have hsub := single_sub o.seller o.forSale p o.sellPrice.base.symbol a s
  have hsold : inMarket (o.sold p) a s
    = single o.seller ⟨o.forSale - p, o.sellPrice.base.symbol⟩ a s := rfl
  have ho : inMarket o a s = single o.seller ⟨o.forSale, o.sellPrice.base.symbol⟩ a s := rfl
  omega

theorem inBase_sub (o : LimitOrderObject) (p : ℤ) (b q : AssetSymbolType) :
    inPair o.sellPrice.base.symbol o.sellPrice.quote.symbol (-p) b q
      = inBase (o.sold p) b q - inBase o b q := by
  have hsub := inPair_sub o.sellPrice.base.symbol o.sellPrice.quote.symbol (o.forSale - p)
    o.forSale b q
  have hsold : inBase (o.sold p) b q = inPair _ _ (o.forSale - p) b q := rfl
  have hneg : -p = o.forSale - p - o.forSale := by omega
  rw [hneg, hsub, hsold]
  rfl

theorem inQuote_sub (o : LimitOrderObject) (p : ℤ) (b q : AssetSymbolType) :
    inPair o.sellPrice.base.symbol o.sellPrice.quote.symbol (-(o.asks - (o.sold p).asks)) b q
      = inQuote (o.sold p) b q - inQuote o b q := by
  rw [Int.neg_sub]
  exact inPair_sub _ _ _ _ b q

theorem settles_fillOrder (ho : x.limitOrders.find? o.id = some o) (hlive : o.Live)
    (hpos : 0 ≤ pays.amount) (hle : pays.amount ≤ o.forSale)
    (h : x.fillOrder o pays receives = .ok (x', gone)) :
    gone = (restOf o pays.amount).isNone ∧ pays.symbol = o.sellPrice.base.symbol ∧
      Settles x x' o (restOf o pays.amount) fun a s =>
        single o.seller receives a s + single o.seller (refundOf o pays.amount) a s := by
  simp only [fillOrder, hlive.amountToReceive_eq, ok_bind, bind_eq_ok, ensure_eq_ok,
    Asset.neg_eq_ok] at h
  obtain ⟨_, hsymbol, _, -, x₁, hmain, _, ⟨-, rfl⟩, x₂, hmarket, h⟩ := h
  have hsymbol := hsymbol.symm
  have hmain := changes_adjustBalance hmain
  have hmarket := changes_adjustMarketBalance hmarket
  have hledger := hmain.trans hmarket
  split at h
  . next hfull =>
    have hrest : restOf o pays.amount = none := if_pos (.inl hfull)
    simp only [bind_eq_ok, Asset.neg_eq_ok, pure_eq_ok] at h
    obtain ⟨_, ⟨-, rfl⟩, _, ⟨-, rfl⟩, x₃, hdepth, heq⟩ := h
    injection heq with hx hgone
    subst hx hgone
    have hdepth := hledger.trans (changes_updatePairDepth hdepth)
    simp only [Int.add_zero, Int.zero_add] at hdepth
    refine ⟨by rw [hrest]; rfl, hsymbol, ?_⟩
    have hrefund : ∀ a s, single o.seller (refundOf o pays.amount) a s = 0 := by
      intro a s
      have hfull : pays.amount = o.forSale := hfull
      simp [refundOf, hfull, single]
    rw [hrest]
    simp only [hrefund, Int.add_zero]
    apply settles_removeLimitOrder hdepth ho
    . intro a s
      have hfull : pays.amount = o.forSale := hfull
      rw [hsymbol, hfull]
      exact single_neg _ _ _ a s
    . intro b q
      exact inPair_neg _ _ _ b q
    . intro b q
      exact inPair_neg _ _ _ b q
  . next hpart =>
    simp only [bind_eq_ok, int64_eq_ok, Asset.sub_eq_ok, Asset.neg_eq_ok] at h
    obtain ⟨_, ⟨-, rfl⟩, rest, hrest, sold, ⟨hsold, -, rfl⟩, _, ⟨-, rfl⟩, x₃, hdepth, h⟩ := h
    have hreceive := hlive.amountToReceive_sold hpos hle
    rw [LimitOrderObject.sold] at hreceive
    rw [hreceive] at hrest
    injection hrest with hrest
    subst hrest
    have hx₂ : x₂.limitOrders = x.limitOrders := by rw [hmarket.limitOrders, hmain.limitOrders]
    have hdepth := (hledger.withOrders _).trans (changes_updatePairDepth hdepth)
    simp only [Int.add_zero, Int.zero_add, hx₂, hsymbol] at hdepth
    have hsettles : Settles x x₃ o (some (o.sold pays.amount)) (single o.seller receives) := by
      apply settles_modify hdepth ho
      . exact inMarket_sub o pays.amount
      . exact inBase_sub o pays.amount
      . exact inQuote_sub o pays.amount
    split at h
    . next hdust =>
      have hnone : restOf o pays.amount = none := if_pos (.inr hdust)
      simp only [bind_eq_ok, pure_eq_ok] at h
      obtain ⟨x₄, hcancel, heq⟩ := h
      injection heq with hx hgone
      subst hx hgone
      refine ⟨by rw [hnone]; rfl, hsymbol, ?_⟩
      have hreceive : (o.sold pays.amount).amountToReceive = .ok ⟨(o.sold pays.amount).asks, _⟩ :=
        hlive.amountToReceive_sold hpos hle
      obtain ⟨x₅, rfl, hchanges⟩ := changes_of_cancelOrder hreceive hcancel
      have hsold : x₃.limitOrders.find? (o.sold pays.amount).id = some (o.sold pays.amount) := by
        rw [hsettles.find?]
        exact if_pos rfl
      have hremove := settles_removeLimitOrder hchanges hsold
        (fun a s => single_neg _ _ _ a s) (fun b q => inPair_neg _ _ _ b q)
        (fun b q => inPair_neg _ _ _ b q)
      have hrefund : refundOf o pays.amount = (o.sold pays.amount).amountForSale := by
        simp [refundOf, hnone, LimitOrderObject.sold, LimitOrderObject.amountForSale]
      rw [hnone, hrefund]
      exact hsettles.trans rfl hremove
    . next hdust =>
      have hsome : restOf o pays.amount = some (o.sold pays.amount) := by
        apply if_neg
        rintro (hfull | hzero)
        . exact hpart hfull
        . exact hdust hzero
      simp only [pure_eq_ok] at h
      injection h with hx hgone
      subst hx hgone
      refine ⟨by rw [hsome]; rfl, hsymbol, ?_⟩
      have hrefund : ∀ a s, single o.seller (refundOf o pays.amount) a s = 0 := by
        intro a s
        simp [refundOf, hsome, single]
      rw [hsome]
      simp only [hrefund, Int.add_zero]
      exact hsettles

end fillOrder

end Exchange
end Golos
