import Golos.Lib.Sorting
import Golos.Market.Run

/-!
This module contains when the limit order market leaves the book crossed.
-/

namespace Golos

open Checked Ledger

namespace Price

variable {p q : Price}

theorem Opposite.symm (h : p.Opposite q) : q.Opposite p :=
  ⟨h.2.symm, h.1.symm⟩

theorem Compatible.symm (h : p.Compatible q) : q.Compatible p := by
  unfold Compatible at *
  rw [Int.mul_comm q.quote.amount, Int.mul_comm q.base.amount]
  exact h

theorem rank_le_of_ratio (hp : p.Valid) (hq : q.Valid) (hbase : p.base.symbol = q.base.symbol)
    (hquote : p.quote.symbol = q.quote.symbol)
    (h : q.quote.amount * p.base.amount ≤ p.quote.amount * q.base.amount) : p.rank ≤ q.rank := by
  unfold rank
  rw [hbase, hquote]
  simp only [Prod.Lex.toLex_le_toLex, lt_self_iff_false, true_and, false_or]
  rw [← not_lt, ratio_lt_iff hq.positive hp.positive]
  omega

/-- A price up to the maximum is not above it in the index. -/
theorem not_gt_max (hp : p.Valid) (h : p.base.amount ≤ maxShareSupply * p.quote.amount) :
    ¬p.gt ⟨⟨maxShareSupply, p.base.symbol⟩, ⟨1, p.quote.symbol⟩⟩ := by
  rw [gt_iff_rank hp.positive (valid_max hp).positive, not_lt]
  apply rank_le_of_ratio hp (valid_max hp) rfl rfl
  rw [Int.mul_comm p.quote.amount]
  simp only
  omega

/-- A compatible price is not below the inverse of the new price. -/
theorem not_inverse_gt (hp : p.Valid) (hq : q.Valid) (hopp : p.Opposite q)
    (hcompat : p.Compatible q) : ¬p.inverse.gt q := by
  rw [gt_iff_rank hp.inverse.positive hq.positive, not_lt]
  apply rank_le_of_ratio hp.inverse hq hopp.2 hopp.1
  unfold Compatible at hcompat
  simp only [inverse]
  linarith

end Price

namespace Exchange

/-- No two open orders of opposite direction have compatible prices. -/
def Uncrossed (x : Exchange) : Prop :=
  ∀ a ∈ x.limitOrders.rows, ∀ b ∈ x.limitOrders.rows,
    a.sellPrice.Opposite b.sellPrice → ¬a.sellPrice.Compatible b.sellPrice

instance : DecidablePred Uncrossed := fun _ => inferInstanceAs (Decidable (∀ _ ∈ _, _))

/-- No open order that could be matched sells for more than `price::max`, 10^15 units for one. -/
def NoneBeyondMax (x : Exchange) (p : Price) : Prop :=
  ∀ o ∈ x.limitOrders.rows, p.Opposite o.sellPrice → p.Compatible o.sellPrice →
    o.sellPrice.base.amount ≤ maxShareSupply * o.sellPrice.quote.amount

instance (x : Exchange) : DecidablePred x.NoneBeyondMax := fun _ =>
  inferInstanceAs (Decidable (∀ _ ∈ _, _))

/-- The price range that matching scans covers the orders it has to match. -/
def InRange (x : Exchange) (e : ExchangeEvent) : Prop :=
  ∀ p ∈ e.price, x.NoneBeyondMax p

instance (x : Exchange) (e : ExchangeEvent) : Decidable (x.InRange e) :=
  inferInstanceAs (Decidable (∀ _ ∈ _, _))

/-- Every order of `x'` is left of an order of `x` of the same price. -/
def Shrinks (x x' : Exchange) : Prop :=
  ∀ id o', x'.findLimitOrder id = some o' →
    ∃ o, x.findLimitOrder id = some o ∧ o'.sellPrice = o.sellPrice

section Shrinks

variable {x x' x'' : Exchange}

theorem Shrinks.refl (x : Exchange) : Shrinks x x :=
  fun _ o ho => ⟨o, ho, rfl⟩

theorem Shrinks.trans (h : Shrinks x x') (h' : Shrinks x' x'') : Shrinks x x'' := by
  intro id o'' ho''
  obtain ⟨o', ho', hprice'⟩ := h' id o'' ho''
  obtain ⟨o, ho, hprice⟩ := h id o' ho'
  exact ⟨o, ho, hprice'.trans hprice⟩

theorem Shrinks.none (h : Shrinks x x') {id : Nat} (hid : x.findLimitOrder id = none) :
    x'.findLimitOrder id = none := by
  cases hfind : x'.findLimitOrder id with
  | none => rfl
  | some o' =>
    obtain ⟨o, ho, -⟩ := h id o' hfind
    rw [hid] at ho
    cases ho

theorem Shrinks.uncrossed (h : Shrinks x x') (hx : x.Uncrossed) : x'.Uncrossed := by
  intro a ha b hb hopp hcompat
  obtain ⟨a', ha', hpa⟩ := h a.id a (Table.find?_of_mem ha)
  obtain ⟨b', hb', hpb⟩ := h b.id b (Table.find?_of_mem hb)
  rw [hpa, hpb] at hopp hcompat
  exact hx a' (Table.mem_of_find? ha') b' (Table.mem_of_find? hb') hopp hcompat

theorem restOf_sellPrice {o o' : LimitOrderObject} {p : ℤ} (h : restOf o p = some o') :
    o'.sellPrice = o.sellPrice := by
  unfold restOf at h
  split at h
  . cases h
  . injection h with h
    rw [← h]
    rfl

theorem shrinks_of_matches {n o : LimitOrderObject} {m : Match} {p q : ℤ}
    (hn : x.findLimitOrder n.id = some n) (ho : x.findLimitOrder o.id = some o)
    (h : Matches x n o m p q) : Shrinks x m.exchange := by
  intro id o' ho'
  rw [h.find?] at ho'
  split at ho'
  . next hid => exact ⟨o, hid ▸ ho, restOf_sellPrice ho'⟩
  . split at ho'
    . next hid => exact ⟨n, hid ▸ hn, restOf_sellPrice ho'⟩
    . exact ⟨o', ho', rfl⟩

end Shrinks

section matchOrders

variable {x x' : Exchange} {db dq : AssetSymbolType → AssetSymbolType → ℤ}

/-- The loop ends when the new order is gone, or with all orders before `limitEnd` gone. -/
theorem of_matchOrders {orderId : Nat} {limitEnd limitItr : List LimitOrderObject}
    (hx : x.Balanced db dq) (h : matchOrders orderId limitEnd x limitItr = .ok x') :
    Shrinks x x' ∧ (x'.findLimitOrder orderId = none ∨
      ∃ visited rest, limitItr = visited ++ rest ∧ rest.length = limitEnd.length ∧
        ∀ o ∈ visited, x'.findLimitOrder o.id = none) := by
  induction limitItr generalizing x with
  | nil =>
    simp only [matchOrders, bind_eq_ok, ensure_eq_ok, pure_eq_ok] at h
    obtain ⟨_, hlength, rfl⟩ := h
    refine ⟨.refl x, .inr ⟨[], [], rfl, hlength.symm, ?_⟩⟩
    intro o ho
    cases ho
  | cons old limitItr ih =>
    unfold matchOrders at h
    split at h
    . next hlength =>
      simp only [pure_eq_ok] at h
      subst h
      refine ⟨.refl x, .inr ⟨[], old :: limitItr, rfl, hlength, ?_⟩⟩
      intro o ho
      cases ho
    . simp only [bind_eq_ok, get_eq_ok] at h
      obtain ⟨n, hn, o, ho, m, hm, h⟩ := h
      obtain ⟨hnlive, holive, rfl, hoid, p, q, hmatches⟩ := hx.matches_of_match' hn ho hm
      rw [← hoid] at ho
      have hne := ne_of_sells hn ho hnlive (sells_of_match' holive hm)
      have hshrinks := shrinks_of_matches hn ho hmatches
      have hx₁ := hx.matches hnlive holive hmatches
      split at h
      . next hbit =>
        simp only [pure_eq_ok] at h
        subst h
        exact ⟨hshrinks, .inl ((hmatches.newBit hne).mp hbit)⟩
      . next hbit =>
        -- The new order is still there, so it is the old one that sold all it had.
        have hold : m.exchange.findLimitOrder old.id = none := by
          rw [← hoid]
          apply hmatches.old_gone
          intro hnone
          exact hbit ((hmatches.newBit hne).mpr (by rw [hmatches.findNew hne, hnone]))
        obtain ⟨hrest, hend⟩ := ih hx₁ h
        refine ⟨hshrinks.trans hrest, ?_⟩
        rcases hend with hgone | ⟨visited, rest, rfl, hlength, hvisited⟩
        . exact .inl hgone
        . refine .inr ⟨old :: visited, rest, rfl, hlength, ?_⟩
          intro o' ho'
          rcases List.mem_cons.mp ho' with rfl | ho'
          . exact hrest.none hold
          . exact hvisited o' ho'

end matchOrders

section byPrice

variable {x : Exchange} {db dq : AssetSymbolType → AssetSymbolType → ℤ}

theorem mem_byPrice {o : LimitOrderObject} : o ∈ x.byPrice ↔ o ∈ x.limitOrders.rows :=
  List.mem_insertionSort _

theorem Balanced.valid_of_mem (hx : x.Balanced db dq) {o : LimitOrderObject}
    (ho : o ∈ x.limitOrders.rows) : o.sellPrice.Valid :=
  (hx.live o.id o (Table.find?_of_mem ho)).price

theorem byPrice_iff {a b : LimitOrderObject} (ha : a.sellPrice.Valid) (hb : b.sellPrice.Valid) :
    a.ByPrice b ↔ b.sellPrice.rank < a.sellPrice.rank ∨
      (b.sellPrice.rank ≤ a.sellPrice.rank ∧ a.id ≤ b.id) := by
  unfold LimitOrderObject.ByPrice
  rw [Price.gt_iff_rank ha.positive hb.positive, Price.gt_iff_rank hb.positive ha.positive, not_lt]

theorem pairwise_byPrice (hx : x.Balanced db dq) :
    x.byPrice.Pairwise LimitOrderObject.ByPrice := by
  apply List.pairwise_insertionSort_of
  . intro a ha b hb
    have ha := hx.valid_of_mem ha
    have hb := hx.valid_of_mem hb
    rw [byPrice_iff ha hb, byPrice_iff hb ha]
    rcases lt_trichotomy a.sellPrice.rank b.sellPrice.rank with h | h | h
    . exact .inr (.inl h)
    . rcases Nat.le_total a.id b.id with hid | hid
      . exact .inl (.inr ⟨h.ge, hid⟩)
      . exact .inr (.inr ⟨h.le, hid⟩)
    . exact .inl (.inl h)
  . intro a ha b hb c hc hab hbc
    have ha := hx.valid_of_mem ha
    have hb := hx.valid_of_mem hb
    have hc := hx.valid_of_mem hc
    rw [byPrice_iff ha hb] at hab
    rw [byPrice_iff hb hc] at hbc
    rw [byPrice_iff ha hc]
    rcases hab with hab | ⟨hab, hid⟩
    . rcases hbc with hbc | ⟨hbc, -⟩
      . exact .inl (hbc.trans hab)
      . exact .inl (hbc.trans_lt hab)
    . rcases hbc with hbc | ⟨hbc, hid'⟩
      . exact .inl (hbc.trans_le hab)
      . exact .inr ⟨hbc.trans hab, hid.trans hid'⟩

/-- The part of the index from `upper_bound` on is worse than the price. -/
theorem gt_of_mem_upperBound (hx : x.Balanced db dq) {p : Price} (hp : p.Valid)
    {o : LimitOrderObject} (ho : o ∈ upperBound x.byPrice p) : p.gt o.sellPrice := by
  have hfalse := List.not_of_mem_dropWhile _ (pairwise_byPrice hx) ?_ ho
  . simpa using hfalse
  . intro a ha b hb hab hpb
    have ha := hx.valid_of_mem (mem_byPrice.mp ha)
    have hb := hx.valid_of_mem (mem_byPrice.mp hb)
    have hle : b.sellPrice.rank ≤ a.sellPrice.rank := by
      rcases (byPrice_iff ha hb).mp hab with h | h
      . exact h.le
      . exact h.1
    simp only [decide_not, Bool.not_eq_true', decide_eq_false_iff_not] at hpb ⊢
    rw [Price.gt_iff_rank hp.positive hb.positive, not_lt] at hpb
    rw [Price.gt_iff_rank hp.positive ha.positive, not_lt]
    exact hpb.trans hle

end byPrice

section creates

variable {x x₁ x₂ x' : Exchange} {o : LimitOrderObject} {amountToSell received : Asset}
  {filled : Bool}

/-- No open order that the new one could be matched with is left beside it. -/
theorem none_compatible_of_creates (hx₁ : x₁.Balanced (fun b q => -inBase o b q)
      (fun b q => -inQuote o b q)) (hrange : x.NoneBeyondMax o.sellPrice) (hlive : o.Live)
    (h : Creates x x₁ x₂ x' o amountToSell received filled) {c : LimitOrderObject}
    (hc : c ∈ x.limitOrders.rows) (hopp : o.sellPrice.Opposite c.sellPrice)
    (hcompat : o.sellPrice.Compatible c.sellPrice) (hgone : x₂.findLimitOrder o.id ≠ none) :
    x₂.findLimitOrder c.id = none := by
  have hc₁ : c ∈ x₁.limitOrders.rows := (h.inserts.mem c).mpr (.inl hc)
  have hcvalid := hx₁.valid_of_mem hc₁
  have happly := h.applyOrder
  simp only [applyOrder, hlive.price.inverse.max_eq, ok_bind, bind_eq_ok, pure_eq_ok,
    Prod.mk.injEq] at happly
  obtain ⟨_, hmatch, rfl, -⟩ := happly
  obtain ⟨-, hend⟩ := of_matchOrders hx₁ hmatch
  rcases hend with hnone | ⟨visited, rest, hsplit, hlength, hvisited⟩
  . exact absurd hnone hgone
  . apply hvisited
    -- The range starts before `c`, because the price of `c` is not above the maximum.
    have hitr : c ∈ visited ++ rest := by
      rw [← hsplit]
      apply List.mem_dropWhile_of_not (mem_byPrice.mpr hc₁)
      have := Price.not_gt_max hcvalid (hrange c hc hopp hcompat)
      rw [← hopp.1, ← hopp.2] at this
      exact decide_eq_false this
    rcases List.mem_append.mp hitr with hc' | hc'
    . exact hc'
    . -- The range ends after `c`, because `c` is not worse than the new order asks for.
      have hrest : rest = upperBound x₁.byPrice o.sellPrice.inverse := by
        have hsuffix : rest <:+ x₁.byPrice :=
          (List.suffix_append visited rest).trans (hsplit ▸ List.dropWhile_suffix _)
        have hsuffix' : upperBound x₁.byPrice o.sellPrice.inverse <:+ x₁.byPrice :=
          List.dropWhile_suffix _
        exact List.IsSuffix.eq_of_length
          (List.suffix_of_suffix_length_le hsuffix hsuffix' hlength.le) hlength
      rw [hrest] at hc'
      have hgt := gt_of_mem_upperBound hx₁ hlive.price.inverse hc'
      exact absurd hgt (Price.not_inverse_gt hlive.price hcvalid hopp hcompat)

/-- Creating an order keeps the book uncrossed while the scanned range covers what it must. -/
theorem Uncrossed.creates (hcross : x.Uncrossed)
    (hx : x.Balanced (fun _ _ => 0) (fun _ _ => 0)) (ho : Sellable o amountToSell received)
    (hrange : x.NoneBeyondMax o.sellPrice)
    (h : Creates x x₁ x₂ x' o amountToSell received filled) : x'.Uncrossed := by
  have hx₁ := hx.inserted ho h
  have hshrinks : Shrinks x₁ x₂ := by
    have happly := h.applyOrder
    simp only [applyOrder, bind_eq_ok, pure_eq_ok, Prod.mk.injEq] at happly
    obtain ⟨_, -, _, hmatch, rfl, -⟩ := happly
    exact (of_matchOrders hx₁ hmatch).1
  have hdepth := changes_updatePairDepth h.updatePairDepth
  have hself : ∀ c : LimitOrderObject, c.sellPrice = o.sellPrice → ¬o.sellPrice.Opposite c.sellPrice := by
    intro c hc hopp
    rw [hc] at hopp
    exact ho.live.price.symbols hopp.1
  -- An order that is left and could be matched with the new one is no order of `x`.
  have hnew : ∀ c ∈ x₂.limitOrders.rows, x₂.findLimitOrder o.id ≠ none →
      o.sellPrice.Opposite c.sellPrice → ¬o.sellPrice.Compatible c.sellPrice := by
    intro c hc hgone hopp hcompat
    obtain ⟨c', hc', hprice⟩ := hshrinks c.id c (Table.find?_of_mem hc)
    rw [hprice] at hopp hcompat
    rcases h.inserts.find?_eq_some_iff.mp hc' with hfind | ⟨rfl, -⟩
    . have hnone := none_compatible_of_creates hx₁ hrange ho.live h (Table.mem_of_find? hfind)
        hopp hcompat hgone
      rw [Table.key_of_find? hfind] at hnone
      have hsome : x₂.findLimitOrder c.id = some c := Table.find?_of_mem hc
      rw [hnone] at hsome
      cases hsome
    . exact hself _ rfl hopp
  intro a ha b hb hopp hcompat
  rw [hdepth.limitOrders] at ha hb
  obtain ⟨a', ha', hpa⟩ := hshrinks a.id a (Table.find?_of_mem ha)
  obtain ⟨b', hb', hpb⟩ := hshrinks b.id b (Table.find?_of_mem hb)
  have hmem : ∀ c ∈ x₂.limitOrders.rows, x₂.findLimitOrder c.id ≠ none := by
    intro c hc
    have hsome : x₂.findLimitOrder c.id = some c := Table.find?_of_mem hc
    rw [hsome]
    simp
  rcases h.inserts.find?_eq_some_iff.mp ha' with ha' | ⟨rfl, haid⟩
  . rcases h.inserts.find?_eq_some_iff.mp hb' with hb' | ⟨rfl, hbid⟩
    . rw [hpa, hpb] at hopp hcompat
      exact hcross a' (Table.mem_of_find? ha') b' (Table.mem_of_find? hb') hopp hcompat
    . rw [hpb] at hopp hcompat
      apply hnew a ha _ hopp.symm hcompat.symm
      rw [hbid]
      exact hmem b hb
  . rw [hpa] at hopp hcompat
    apply hnew b hb _ hopp hcompat
    rw [haid]
    exact hmem a ha

end creates

theorem Uncrossed.step {x x' : Exchange} {e : ExchangeEvent} (hcross : x.Uncrossed)
    (hx : x.Balanced (fun _ _ => 0) (fun _ _ => 0)) (hrange : x.InRange e) (h : x.Step e x') :
    x'.Uncrossed := by
  rcases step_cases h with h | h | ⟨x₁, x₂, o, amountToSell, received, filled, hprice, ho, h⟩
  . apply Shrinks.uncrossed _ hcross
    intro id o' ho'
    exact ⟨o', (h _ _ hx).2 id o' ho', rfl⟩
  . intro a ha b hb
    rw [h.limitOrders] at ha hb
    exact hcross a ha b hb
  . exact hcross.creates hx ho (hrange _ hprice) h

/--
In every run whose new orders meet no open order beyond `price::max` that they could be matched
with, the book is never crossed.
-/
theorem uncrossed_of_reach {x : Exchange} (h : system.Reach InRange x) : x.Uncrossed := by
  apply h.invariant_of (fun x hx => balanced_of_reach hx)
  . intro x hx a ha
    rw [hx.limitOrders] at ha
    cases ha
  . intro x e x' hx hcross hrange hstep
    exact hcross.step hx hrange hstep

/-- Two offers that meet at one price, and one that stays. -/
def tradesInRange : List LimitOrderOperation :=
  [
    .limitOrderCreate
      { owner := "alice", orderid := 1, amountToSell := ⟨1000, firstToken⟩
        minToReceive := ⟨300, steemSymbol⟩ },
    .limitOrderCreate
      { owner := "bob", orderid := 1, amountToSell := ⟨400, steemSymbol⟩
        minToReceive := ⟨900, firstToken⟩ },
    .limitOrderCreate
      { owner := "carol", orderid := 1, amountToSell := ⟨2000000000000000, firstToken⟩
        minToReceive := ⟨2, steemSymbol⟩ }
  ]

theorem uncrossed_tradesInRange :
    ∃ x, tradesInRange.foldlM applyLimitOrderOperation firstExchange = .ok x ∧ x.Uncrossed := by
  have hops := Checked.eq_ok_of_isSome (d := {})
    (x := tradesInRange.foldlM applyLimitOrderOperation firstExchange) (by decide +kernel)
  refine ⟨_, hops, uncrossed_of_reach ?_⟩
  apply reach_of_operations reach_firstExchange _ _ hops
  . decide
  . decide +kernel

/-- Carol gives 2·10^15 units for 0.001 GOLOS; Bob offers 0.001 GOLOS for one unit. -/
def tradesBeyondMax : List LimitOrderOperation :=
  [
    .limitOrderCreate
      { owner := "carol", orderid := 1, amountToSell := ⟨2000000000000000, firstToken⟩
        minToReceive := ⟨1, steemSymbol⟩ },
    .limitOrderCreate
      { owner := "bob", orderid := 1, amountToSell := ⟨1, steemSymbol⟩
        minToReceive := ⟨1, firstToken⟩ }
  ]

theorem crossed_tradesBeyondMax :
    ∃ x, tradesBeyondMax.foldlM applyLimitOrderOperation firstExchange = .ok x ∧
      system.Reachable x ∧ ¬x.Uncrossed := by
  have hops := Checked.eq_ok_of_isSome (d := {})
    (x := tradesBeyondMax.foldlM applyLimitOrderOperation firstExchange) (by decide +kernel)
  refine ⟨_, hops, ?_, by decide +kernel⟩
  apply reach_of_operations reach_firstExchange _ _ hops
  . decide
  . decide +kernel

end Exchange
end Golos
