import Golos.Market.PriceOrder
import Golos.Voting.Lemmas.Curves

/-!
This module contains what the loop over the votes on a comment keeps: the weights add up, and none of
them leaves its range as long as no vote brings negative shares.
-/

namespace Golos

open Checked

section store

theorem exact64_eq_ok {x : ℤ} {y : Nat} :
    exact64 x = .ok y ↔ 0 ≤ x ∧ x < 2 ^ 64 ∧ y = x.toNat := by
  unfold exact64
  split
  . next h =>
    rw [Except.ok.injEq]
    constructor
    . rintro rfl
      exact ⟨h.1, h.2, rfl⟩
    . rintro ⟨-, -, rfl⟩
      rfl
  . next h =>
    constructor
    . intro herror
      cases herror
    . rintro ⟨hle, hlt, -⟩
      exact absurd ⟨hle, hlt⟩ h

theorem exact64_natCast_eq_ok {x y : Nat} (h : x < 2 ^ 64) : exact64 x = .ok y ↔ y = x := by
  rw [exact64_eq_ok]
  omega

/-- What stays in its range is stored as it is. -/
theorem wrap64_of_exact64 {x : ℤ} {y : Nat} (h : exact64 x = .ok y) : wrap64 x = .ok y := by
  obtain ⟨hle, hlt, rfl⟩ := exact64_eq_ok.mp h
  unfold wrap64
  rw [Int.emod_eq_of_lt hle hlt]

theorem toUint64_eq_ok {x y : Nat} : toUint64 x = .ok y ↔ x < 2 ^ 64 ∧ y = x := by
  simp only [toUint64, bind_eq_ok, ensure_eq_ok, pure_eq_ok, exists_and_left, exists_const]
  omega

end store

section shares

/-- The shares that the votes have in the curation reward. -/
def sharesOf (votes : List CommentVoteObject) : ℤ :=
  (votes.map fun v => max v.origRshares 0).sum

/-- The shares of these votes that a linear curve takes. -/
def linearShares (votes : List CommentVoteObject) : Nat :=
  (votes.map fun v => if 0 < v.origRshares then v.rshares.toNat else 0).sum

/-- The weight of all votes together, before the auction window takes its part. -/
def rawWeight (curve : CurationCurve) (votes : List CommentVoteObject) : Nat :=
  match curve with
  | .bounded => boundedWeight (sharesOf votes).toNat
  | .linear => linearShares votes
  | .squareRoot => approxSqrt (sharesOf votes).toNat
  | .detect => 0

theorem sharesOf_append (votes votes' : List CommentVoteObject) :
    sharesOf (votes ++ votes') = sharesOf votes + sharesOf votes' := by
  simp [sharesOf]

theorem sharesOf_nonneg (votes : List CommentVoteObject) : 0 ≤ sharesOf votes := by
  apply List.sum_nonneg
  intro x hx
  obtain ⟨v, -, rfl⟩ := List.mem_map.mp hx
  exact le_max_right _ _

theorem rawWeight_mono (curve : CurationCurve) (votes votes' : List CommentVoteObject) :
    rawWeight curve votes ≤ rawWeight curve (votes ++ votes') := by
  have hshares : (sharesOf votes).toNat ≤ (sharesOf (votes ++ votes')).toNat := by
    rw [sharesOf_append]
    have := sharesOf_nonneg votes'
    omega
  cases curve with
  | bounded => exact boundedWeight_mono hshares
  | linear => simp [rawWeight, linearShares]
  | squareRoot => exact approxSqrt_mono hshares
  | detect => exact le_rfl

theorem rawWeight_append_of_nonpos (curve : CurationCurve) (votes : List CommentVoteObject)
    {v : CommentVoteObject} (h : v.origRshares ≤ 0) :
    rawWeight curve (votes ++ [v]) = rawWeight curve votes := by
  have hshares : sharesOf (votes ++ [v]) = sharesOf votes := by
    rw [sharesOf_append]
    simp [sharesOf, h]
  cases curve with
  | bounded => simp only [rawWeight, hshares]
  | linear => simp [rawWeight, linearShares, not_lt.mpr h]
  | squareRoot => simp only [rawWeight, hshares]
  | detect => rfl

/-- What one more vote adds to the weight of all, before the auction window takes its part. -/
def curveWeight (curve : CurationCurve) (done : List CommentVoteObject) (v : CommentVoteObject) : Nat :=
  rawWeight curve (done ++ [v]) - rawWeight curve done

theorem rawWeight_add_curveWeight (curve : CurationCurve) (done : List CommentVoteObject)
    (v : CommentVoteObject) :
    rawWeight curve done + curveWeight curve done v = rawWeight curve (done ++ [v]) :=
  Nat.add_sub_of_le (rawWeight_mono curve done [v])

end shares

namespace CalculateWeightHelper

variable {h : CalculateWeightHelper} {r : CalculateWeightHelper × Nat} {curve : CurationCurve}
  {window weight : Nat} {done : List CommentVoteObject} {v : CommentVoteObject}

section curve

/-- The helper after the curve, which needs no shares before for a linear one. -/
def curved (h : CalculateWeightHelper) (curve : CurationCurve) (done : List CommentVoteObject)
    (v : CommentVoteObject) : CalculateWeightHelper :=
  { h with
    voteRshares := sharesOf (done ++ [v])
    oldVoteWeight := if curve = .linear then h.oldVoteWeight else rawWeight curve (done ++ [v]) }

theorem nextWeight_eq_ok {new old : Nat} (hold : h.oldVoteWeight = old) (hle : old ≤ new)
    (hlt : new < 2 ^ 64) :
    h.nextWeight exact64 new = .ok r ↔ r = ({ h with oldVoteWeight := new }, new - old) := by
  have hstore : ∀ weight, exact64 ((new : ℤ) - h.oldVoteWeight) = .ok weight ↔
      weight = new - old := by
    intro weight
    rw [exact64_eq_ok]
    omega
  simp only [nextWeight, bind_eq_ok, pure_eq_ok, hstore]
  constructor
  . rintro ⟨_, rfl, rfl⟩
    rfl
  . rintro rfl
    exact ⟨_, rfl, rfl⟩

/-- The curve gives a vote what it adds to the weight of all, as long as it has shares to give. -/
theorem calculateCurve_eq_ok (hcurve : curve ≠ .detect)
    (hold : curve ≠ .linear → h.oldVoteWeight = rawWeight curve done) (hv : 0 < v.origRshares)
    (hshares : sharesOf (done ++ [v]) ≤ maxInt64) (hraw : rawWeight curve (done ++ [v]) < 2 ^ 64) :
    calculateCurve exact64 curve { h with voteRshares := sharesOf (done ++ [v]) } v = .ok r ↔
      (curve = .linear → 0 ≤ v.rshares) ∧ r = (h.curved curve done v, curveWeight curve done v) := by
  have hmono := rawWeight_mono curve done [v]
  have htoUint128 := toUint128_of_nonneg (sharesOf_nonneg (done ++ [v])) hshares
  cases curve with
  | detect => contradiction
  | bounded =>
    have hlt : (sharesOf (done ++ [v])).toNat < 2 ^ 63 := by
      unfold maxInt64 at hshares
      omega
    have heq : (sharesOf (done ++ [v])).toNat * (2 ^ 64 - 1) % 2 ^ 128 /
        ((2 * contentConstantS + (sharesOf (done ++ [v])).toNat) % 2 ^ 128) =
        rawWeight .bounded (done ++ [v]) := by
      rw [Nat.mod_eq_of_lt (by omega), Nat.mod_eq_of_lt (by rw [contentConstantS]; omega)]
      rfl
    simp only [calculateCurve, calculateBounded, htoUint128, heq, bind_eq_ok, toUint64_eq_ok, hraw,
      true_and, exists_eq_left]
    rw [nextWeight_eq_ok (h := { h with voteRshares := sharesOf (done ++ [v]) }) (hold (by decide)) hmono hraw]
    simp [curved, curveWeight]
  | linear =>
    have hweight : curveWeight .linear done v = v.rshares.toNat := by
      simp [curveWeight, rawWeight, linearShares, hv]
    have hlt : v.rshares < 2 ^ 64 := by
      simp only [rawWeight, linearShares, List.map_append, List.sum_append, List.map_cons, hv,
        if_true] at hraw
      simp at hraw
      omega
    simp only [calculateCurve, calculateLinear, bind_eq_ok, pure_eq_ok, exact64_eq_ok, hweight,
      forall_const]
    constructor
    . rintro ⟨_, ⟨hle, -, rfl⟩, rfl⟩
      exact ⟨hle, rfl⟩
    . rintro ⟨hle, rfl⟩
      exact ⟨_, ⟨hle, hlt, rfl⟩, rfl⟩
  | squareRoot =>
    have hnew : approxSqrt (sharesOf (done ++ [v])).toNat = rawWeight .squareRoot (done ++ [v]) := rfl
    simp only [calculateCurve, calculateSquareRoot, htoUint128, hnew]
    rw [nextWeight_eq_ok (h := { h with voteRshares := sharesOf (done ++ [v]) }) (hold (by decide)) hmono hraw]
    simp [curved, curveWeight]

end curve

section discount

/-- The auction window leaves a vote no more than its weight. -/
def Within (window auctionTime weight : Nat) : Prop :=
  0 < weight → auctionTime ≠ window → window ≠ 0 ∧ weight * auctionTime / window ≤ weight

theorem within_of_le {auctionTime : Nat} (h : auctionTime ≤ window) :
    Within window auctionTime weight := by
  intro _ hne
  have hpos : 0 < window := by omega
  refine ⟨hpos.ne', ?_⟩
  apply Nat.div_le_of_le_mul
  rw [Nat.mul_comm window]
  exact Nat.mul_le_mul_left weight h

/-- What the auction window leaves of the weight of a vote. -/
def kept (window : Nat) (v : CommentVoteObject) (weight : Nat) : Nat :=
  if 0 < weight ∧ v.auctionTime ≠ window then weight * v.auctionTime / window else weight

/-- What counts as the weight of a vote in the auction window. -/
def keptInWindow (window : Nat) (v : CommentVoteObject) (weight : Nat) : Nat :=
  if wasChanged v ∨ v.auctionTime = window then 0 else kept window v weight

theorem kept_le (h : Within window v.auctionTime weight) : kept window v weight ≤ weight := by
  unfold kept
  split
  . next hcase => exact (h hcase.1 hcase.2).2
  . exact le_rfl

def discounted (h : CalculateWeightHelper) (window : Nat) (v : CommentVoteObject) (weight : Nat) :
    CalculateWeightHelper :=
  { h with
    totalVoteWeight := h.totalVoteWeight + (weight - kept window v weight)
    auctionWindowWeight := h.auctionWindowWeight + (weight - kept window v weight)
    votesInAuctionWindowWeight := h.votesInAuctionWindowWeight + keptInWindow window v weight }

theorem discount_eq_ok (htime : v.auctionTime < 2 ^ 16)
    (htotal : h.totalVoteWeight + weight < 2 ^ 64)
    (hparts : h.votesInAuctionWindowWeight + h.auctionWindowWeight ≤ h.totalVoteWeight) :
    discount exact64 window h v weight = .ok r ↔
      Within window v.auctionTime weight ∧
        r = (h.discounted window v weight, kept window v weight) := by
  unfold discount
  split
  . next hcase =>
    have hmul : weight * v.auctionTime % 2 ^ 128 = weight * v.auctionTime := by
      apply Nat.mod_eq_of_lt
      calc weight * v.auctionTime < 2 ^ 64 * 2 ^ 16 := Nat.mul_lt_mul'' (by omega) htime
        _ < 2 ^ 128 := by decide
    have hkept : kept window v weight = weight * v.auctionTime / window := by
      unfold kept
      rw [if_pos hcase]
    have hdiscounted : h.discounted window v weight =
        { h with
          totalVoteWeight := h.totalVoteWeight + (weight - weight * v.auctionTime / window)
          auctionWindowWeight := h.auctionWindowWeight + (weight - weight * v.auctionTime / window)
          votesInAuctionWindowWeight := h.votesInAuctionWindowWeight +
            if wasChanged v then 0 else weight * v.auctionTime / window } := by
      simp only [discounted, keptInWindow, hkept, hcase.2, or_false]
    rw [hdiscounted, hkept, hmul]
    simp only [bind_eq_ok, ensure_eq_ok, toUint64_eq_ok, pure_eq_ok, exists_and_left, exists_const]
    constructor
    . rintro ⟨hwindow, new, ⟨hnew, rfl⟩, auction, hauction, total, htotal', inAuction, hinAuction,
        inWindow, hinWindow, rfl⟩
      obtain ⟨hle, -, rfl⟩ := exact64_eq_ok.mp hauction
      obtain ⟨-, -, rfl⟩ := exact64_eq_ok.mp htotal'
      obtain ⟨-, -, rfl⟩ := exact64_eq_ok.mp hinAuction
      refine ⟨fun _ _ => ⟨hwindow, by omega⟩, ?_⟩
      split at hinWindow
      . next hchanged =>
        rw [pure_eq_ok] at hinWindow
        subst hinWindow
        simp only [hchanged, if_true, Prod.mk.injEq, mk.injEq, true_and, and_true, add_zero]
        omega
      . next hchanged =>
        obtain ⟨-, -, rfl⟩ := exact64_eq_ok.mp hinWindow
        simp only [hchanged, Prod.mk.injEq, mk.injEq, true_and, and_true]
        simp only [Bool.false_eq_true, if_false]
        omega
    . rintro ⟨hwithin, rfl⟩
      obtain ⟨hwindow, hle⟩ := hwithin hcase.1 hcase.2
      refine ⟨hwindow, _, ⟨by omega, rfl⟩, _, exact64_eq_ok.mpr ⟨by omega, by omega, rfl⟩, _,
        exact64_eq_ok.mpr ⟨by omega, by omega, rfl⟩, _,
        exact64_eq_ok.mpr ⟨by omega, by omega, rfl⟩,
        h.votesInAuctionWindowWeight +
          if wasChanged v then 0 else weight * v.auctionTime / window, ?_, ?_⟩
      . split
        . rw [add_zero]
          rfl
        . rw [exact64_eq_ok]
          omega
      . simp only [Prod.mk.injEq, mk.injEq, true_and, and_true]
        omega
  . next hcase =>
    have hkept : kept window v weight = weight := by
      unfold kept
      rw [if_neg hcase]
    have hwithin : Within window v.auctionTime weight := fun hpos hne => absurd ⟨hpos, hne⟩ hcase
    have hin : keptInWindow window v weight = 0 := by
      unfold keptInWindow
      rw [hkept]
      split
      . rfl
      . next hnot =>
        push Not at hnot
        by_contra hpos
        exact hcase ⟨by omega, hnot.2⟩
    rw [pure_eq_ok]
    simp only [hwithin, true_and, discounted, hkept, hin, Nat.sub_self, add_zero]
    exact eq_comm

end discount

section tally

/--
What the helper knows after the votes that are done, which have got these weights, and those of them
that were cast in the auction window these.
-/
structure Tally (curve : CurationCurve) (done : List CommentVoteObject) (weights windowWeights : Nat)
    (h : CalculateWeightHelper) : Prop where
  voteRshares : h.voteRshares = sharesOf done
  oldVoteWeight : curve ≠ .linear → h.oldVoteWeight = rawWeight curve done
  totalVoteWeight : h.totalVoteWeight = weights + h.auctionWindowWeight
  inWindow : h.votesInAuctionWindowWeight = windowWeights
  inWindow_le : windowWeights ≤ weights
  le_rawWeight : h.totalVoteWeight ≤ rawWeight curve done

theorem Tally.empty (hcurve : curve ≠ .detect) : Tally curve [] 0 0 {} where
  voteRshares := rfl
  oldVoteWeight := by
    intro _
    cases curve with
    | bounded => simp [rawWeight, sharesOf, boundedWeight]
    | linear => contradiction
    | squareRoot => simp [rawWeight, sharesOf, approxSqrt]
    | detect => contradiction
  totalVoteWeight := rfl
  inWindow := rfl
  inWindow_le := le_rfl
  le_rawWeight := Nat.zero_le _

/-- A vote that has shares to give and is not raised by the auction window. -/
structure Fair (curve : CurationCurve) (window : Nat) (done : List CommentVoteObject)
    (v : CommentVoteObject) : Prop where
  rshares : curve = .linear → 0 ≤ v.rshares
  within : Within window v.auctionTime (curveWeight curve done v)

/-- The weight of a vote in the list. -/
def listedWeight (curve : CurationCurve) (window : Nat) (done : List CommentVoteObject)
    (v : CommentVoteObject) : Nat :=
  if v.origRshares ≤ 0 ∨ wasChanged v then 0 else kept window v (curveWeight curve done v)

/-- The helper after one more vote. -/
def tallied (h : CalculateWeightHelper) (curve : CurationCurve) (window : Nat)
    (done : List CommentVoteObject) (v : CommentVoteObject) : CalculateWeightHelper :=
  if v.origRshares ≤ 0 then
    h
  else
    let h := (h.curved curve done v).discounted window v (curveWeight curve done v)
    { h with totalVoteWeight := h.totalVoteWeight + listedWeight curve window done v }

variable {weights windowWeights : Nat}

theorem calculateWeight_eq_ok (hcurve : curve ≠ .detect)
    (ht : Tally curve done weights windowWeights h) (htime : v.auctionTime < 2 ^ 16)
    (hshares : sharesOf (done ++ [v]) ≤ maxInt64) (hraw : rawWeight curve (done ++ [v]) < 2 ^ 64) :
    h.calculateWeight exact64 curve window v = .ok r ↔
      (0 < v.origRshares → Fair curve window done v) ∧
        r = (h.tallied curve window done v, listedWeight curve window done v) := by
  have hadd := rawWeight_add_curveWeight curve done v
  have hle := ht.le_rawWeight
  have htotal := ht.totalVoteWeight
  have hinWindow := ht.inWindow
  have hinWindow_le := ht.inWindow_le
  unfold calculateWeight
  split
  . next hv =>
    simp only [pure_eq_ok, tallied, listedWeight, hv, true_or, if_true, not_lt.mpr hv,
      false_implies, true_and]
    exact eq_comm
  . next hv =>
    have hpos := not_le.mp hv
    have hsum : h.voteRshares + v.origRshares = sharesOf (done ++ [v]) := by
      rw [ht.voteRshares, sharesOf_append]
      simp [sharesOf, hpos.le]
    have hint : ∀ (e : ChainException) x, int64 (sharesOf (done ++ [v])) e = .ok x ↔
        x = sharesOf (done ++ [v]) := by
      intro e x
      have := sharesOf_nonneg (done ++ [v])
      rw [int64_eq_ok]
      unfold minInt64
      omega
    have hdiscount : ∀ r, discount exact64 window (h.curved curve done v) v (curveWeight curve done v) =
        .ok r ↔ Within window v.auctionTime (curveWeight curve done v) ∧
          r = ((h.curved curve done v).discounted window v (curveWeight curve done v),
            kept window v (curveWeight curve done v)) := by
      intro r
      apply discount_eq_ok htime
      . show h.totalVoteWeight + _ < _
        omega
      . show h.votesInAuctionWindowWeight + h.auctionWindowWeight ≤ h.totalVoteWeight
        omega
    simp only [bind_eq_ok, hsum, hint, exists_eq_left, hdiscount, and_assoc, exists_and_left,
      calculateCurve_eq_ok hcurve ht.oldVoteWeight hpos hshares hraw]
    have hfair : (0 < v.origRshares → Fair curve window done v) ↔
        (curve = .linear → 0 ≤ v.rshares) ∧ Within window v.auctionTime (curveWeight curve done v) := by
      constructor
      . intro hfair
        exact ⟨(hfair hpos).rshares, (hfair hpos).within⟩
      . intro hboth _
        exact ⟨hboth.1, hboth.2⟩
    rw [hfair, and_assoc]
    apply and_congr_right
    intro _
    apply and_congr_right
    intro hwithin
    have hkept := kept_le hwithin
    unfold tallied listedWeight
    rw [if_neg hv]
    split
    . next hchanged =>
      simp only [pure_eq_ok, hchanged, or_true, if_true, add_zero]
      exact eq_comm
    . next hchanged =>
      have hlt : ((h.curved curve done v).discounted window v (curveWeight curve done v)
          ).totalVoteWeight + kept window v (curveWeight curve done v) < 2 ^ 64 := by
        show h.totalVoteWeight + _ + _ < _
        omega
      simp only [bind_eq_ok, ← Nat.cast_add, exact64_natCast_eq_ok hlt, exists_eq_left, pure_eq_ok]
      rw [if_neg (not_or.mpr ⟨hv, hchanged⟩)]
      exact eq_comm

theorem Tally.tallied (ht : Tally curve done weights windowWeights h)
    (hfair : 0 < v.origRshares → Fair curve window done v) :
    Tally curve (done ++ [v]) (weights + listedWeight curve window done v)
      (windowWeights +
        if v.auctionTime = window then 0 else listedWeight curve window done v)
      (h.tallied curve window done v) := by
  have hadd := rawWeight_add_curveWeight curve done v
  have hle := ht.le_rawWeight
  have htotal := ht.totalVoteWeight
  have hinWindow := ht.inWindow
  have hinWindow_le := ht.inWindow_le
  unfold CalculateWeightHelper.tallied
  by_cases hv : v.origRshares ≤ 0
  . rw [if_pos hv]
    have hlisted : listedWeight curve window done v = 0 := by
      unfold listedWeight
      rw [if_pos (.inl hv)]
    rw [hlisted, ite_self, add_zero, add_zero]
    exact {
      voteRshares := by
        rw [ht.voteRshares, sharesOf_append]
        simp [sharesOf, hv]
      oldVoteWeight := by
        rw [rawWeight_append_of_nonpos curve done hv]
        exact ht.oldVoteWeight
      totalVoteWeight := htotal
      inWindow := hinWindow
      inWindow_le := hinWindow_le
      le_rawWeight := by
        rw [rawWeight_append_of_nonpos curve done hv]
        exact hle
    }
  . rw [if_neg hv]
    have hkept := kept_le (hfair (not_le.mp hv)).within
    have hlisted_le : listedWeight curve window done v ≤ kept window v (curveWeight curve done v) := by
      unfold listedWeight
      split
      . exact Nat.zero_le _
      . exact le_rfl
    have hin : keptInWindow window v (curveWeight curve done v) =
        if v.auctionTime = window then 0 else listedWeight curve window done v := by
      unfold keptInWindow listedWeight
      by_cases hchanged : wasChanged v
      . simp [hchanged]
      . by_cases htime : v.auctionTime = window
        . simp [htime]
        . simp [hchanged, htime, hv]
    exact {
      voteRshares := rfl
      oldVoteWeight := fun hlinear => if_neg hlinear
      totalVoteWeight := by
        show h.totalVoteWeight + _ + _ = _ + (h.auctionWindowWeight + _)
        omega
      inWindow := by
        show h.votesInAuctionWindowWeight + _ = _
        rw [hinWindow, hin]
      inWindow_le := by
        split
        . omega
        . omega
      le_rawWeight := by
        show h.totalVoteWeight + _ + _ ≤ _
        omega
    }

end tally

end CalculateWeightHelper

namespace Voting

open CalculateWeightHelper

variable {curve : CurationCurve} {window : Nat} {fullList : Bool} {h : CalculateWeightHelper}
  {done votes : List CommentVoteObject} {weights windowWeights : Nat}
  {r : CalculateWeightHelper × List CommentVoteInfo}

section list

/-- Every vote after the ones that are done has shares to give. -/
def AllFair (curve : CurationCurve) (window : Nat) :
    List CommentVoteObject → List CommentVoteObject → Prop
  | _, [] => True
  | done, v :: votes =>
    (0 < v.origRshares → Fair curve window done v) ∧ AllFair curve window (done ++ [v]) votes

/-- The weights of the votes in a list together. -/
def weightOf (voteList : List CommentVoteInfo) : Nat :=
  (voteList.map CommentVoteInfo.weight).sum

/-- The weights of those that were cast in the auction window. -/
def windowWeightOf (window : Nat) (voteList : List CommentVoteInfo) : Nat :=
  (voteList.map fun i => if i.vote.auctionTime = window then 0 else i.weight).sum

/-- A vote without weight makes no difference, whether it is listed or not. -/
theorem weightOf_listed (v : CommentVoteObject) (weight : Nat) (voteList : List CommentVoteInfo) :
    weightOf (if 0 < weight ∨ fullList then ⟨v, weight⟩ :: voteList else voteList) =
      weight + weightOf voteList := by
  split
  . rfl
  . next hnot =>
    have hzero : weight = 0 := by
      by_contra hne
      exact hnot (.inl (Nat.pos_of_ne_zero hne))
    rw [hzero, Nat.zero_add]

theorem windowWeightOf_listed (v : CommentVoteObject) (weight : Nat)
    (voteList : List CommentVoteInfo) :
    windowWeightOf window (if 0 < weight ∨ fullList then ⟨v, weight⟩ :: voteList else voteList) =
      (if v.auctionTime = window then 0 else weight) + windowWeightOf window voteList := by
  split
  . rfl
  . next hnot =>
    have hzero : weight = 0 := by
      by_contra hne
      exact hnot (.inl (Nat.pos_of_ne_zero hne))
    rw [hzero, ite_self, Nat.zero_add]

/-- The votes of a list that a curve has room for. -/
structure Fits (curve : CurationCurve) (votes : List CommentVoteObject) : Prop where
  auctionTime : ∀ v ∈ votes, v.auctionTime < 2 ^ 16
  shares : sharesOf votes ≤ maxInt64
  raw : rawWeight curve votes < 2 ^ 64

theorem Fits.head {v : CommentVoteObject} (hfits : Fits curve (done ++ v :: votes)) :
    v.auctionTime < 2 ^ 16 ∧ sharesOf (done ++ [v]) ≤ maxInt64 ∧
      rawWeight curve (done ++ [v]) < 2 ^ 64 := by
  have hsplit : done ++ v :: votes = (done ++ [v]) ++ votes := by simp
  refine ⟨hfits.auctionTime v (by simp), ?_, ?_⟩
  . have hshares := hfits.shares
    have := sharesOf_nonneg votes
    rw [hsplit, sharesOf_append] at hshares
    omega
  . have hraw := hfits.raw
    rw [hsplit] at hraw
    exact (rawWeight_mono curve _ votes).trans_lt hraw

/-- The loop ends as long as every vote has shares to give, and knows what the weights add up to. -/
theorem calculateWeights_of_tally (window : Nat) (fullList : Bool) (hcurve : curve ≠ .detect)
    (ht : Tally curve done weights windowWeights h) (hfits : Fits curve (done ++ votes)) :
    ((∃ r, calculateWeights exact64 curve window fullList votes h = .ok r) ↔
        AllFair curve window done votes) ∧
      ∀ r, calculateWeights exact64 curve window fullList votes h = .ok r →
        Tally curve (done ++ votes) (weights + weightOf r.2)
          (windowWeights + windowWeightOf window r.2) r.1 := by
  induction votes generalizing done weights windowWeights h with
  | nil =>
    simp only [calculateWeights, pure_eq_ok]
    refine ⟨⟨fun _ => trivial, fun _ => ⟨_, rfl⟩⟩, ?_⟩
    rintro _ rfl
    rw [List.append_nil]
    exact ht
  | cons v votes ih =>
    obtain ⟨htime, hshares, hraw⟩ := hfits.head
    have hsplit : done ++ v :: votes = (done ++ [v]) ++ votes := by simp
    rw [hsplit] at hfits ⊢
    simp only [calculateWeights, bind_eq_ok, pure_eq_ok, AllFair,
      calculateWeight_eq_ok hcurve ht htime hshares hraw, and_assoc, exists_and_left,
      exists_eq_left]
    constructor
    . constructor
      . rintro ⟨hfair, _, r, hr, -⟩
        exact ⟨hfair, (ih (ht.tallied hfair) hfits).1.mp ⟨r, hr⟩⟩
      . rintro ⟨hfair, hrest⟩
        obtain ⟨r, hr⟩ := (ih (ht.tallied hfair) hfits).1.mpr hrest
        exact ⟨hfair, _, r, hr, rfl⟩
    . rintro _ ⟨hfair, r, hr, rfl⟩
      have := (ih (ht.tallied hfair) hfits).2 r hr
      rw [weightOf_listed, windowWeightOf_listed, ← Nat.add_assoc, ← Nat.add_assoc]
      exact this

/-- Only votes on the comment are listed. -/
theorem vote_mem_of_calculateWeights {store : Store}
    (hr : calculateWeights store curve window fullList votes h = .ok r) :
    ∀ i ∈ r.2, i.vote ∈ votes := by
  induction votes generalizing h r with
  | nil =>
    rw [calculateWeights, pure_eq_ok] at hr
    subst hr
    intro i hi
    cases hi
  | cons v votes ih =>
    simp only [calculateWeights, bind_eq_ok, pure_eq_ok] at hr
    obtain ⟨w, -, r', hr', rfl⟩ := hr
    intro i hi
    dsimp only at hi
    split at hi
    . rcases List.mem_cons.mp hi with rfl | hi
      . exact List.mem_cons_self
      . exact List.mem_cons_of_mem v (ih hr' i hi)
    . exact List.mem_cons_of_mem v (ih hr' i hi)

end list

section wrap

variable {v : CommentVoteObject} {w : CalculateWeightHelper × Nat}

theorem calculateCurve_wrap64 (hw : calculateCurve exact64 curve h v = .ok w) :
    calculateCurve wrap64 curve h v = .ok w := by
  cases curve with
  | detect => cases hw
  | bounded =>
    simp only [calculateCurve, calculateBounded, nextWeight, bind_eq_ok] at hw ⊢
    obtain ⟨new, hnew, weight, hweight, hrest⟩ := hw
    exact ⟨new, hnew, weight, wrap64_of_exact64 hweight, hrest⟩
  | linear =>
    simp only [calculateCurve, calculateLinear, bind_eq_ok] at hw ⊢
    obtain ⟨weight, hweight, hrest⟩ := hw
    exact ⟨weight, wrap64_of_exact64 hweight, hrest⟩
  | squareRoot =>
    simp only [calculateCurve, calculateSquareRoot, nextWeight, bind_eq_ok] at hw ⊢
    obtain ⟨weight, hweight, hrest⟩ := hw
    exact ⟨weight, wrap64_of_exact64 hweight, hrest⟩

theorem discount_wrap64 {weight : Nat} (hw : discount exact64 window h v weight = .ok w) :
    discount wrap64 window h v weight = .ok w := by
  unfold discount at hw ⊢
  split
  . next hcase =>
    rw [if_pos hcase] at hw
    simp only [bind_eq_ok] at hw ⊢
    obtain ⟨_, hwindow, new, hnew, auction, hauction, total, htotal, inAuction, hinAuction, inWindow,
      hinWindow, hrest⟩ := hw
    refine ⟨_, hwindow, new, hnew, auction, wrap64_of_exact64 hauction, total,
      wrap64_of_exact64 htotal, inAuction, wrap64_of_exact64 hinAuction, inWindow, ?_, hrest⟩
    split
    . next hchanged =>
      rw [if_pos hchanged] at hinWindow
      exact hinWindow
    . next hchanged =>
      rw [if_neg hchanged] at hinWindow
      exact wrap64_of_exact64 hinWindow
  . next hcase =>
    rw [if_neg hcase] at hw
    exact hw

theorem calculateWeight_wrap64 (hw : h.calculateWeight exact64 curve window v = .ok w) :
    h.calculateWeight wrap64 curve window v = .ok w := by
  unfold calculateWeight at hw ⊢
  split
  . next hcase =>
    rw [if_pos hcase] at hw
    exact hw
  . next hcase =>
    rw [if_neg hcase] at hw
    simp only [bind_eq_ok] at hw ⊢
    obtain ⟨voteRshares, hvoteRshares, h₁, hcurve, h₂, hdiscount, hrest⟩ := hw
    refine ⟨voteRshares, hvoteRshares, h₁, calculateCurve_wrap64 hcurve, h₂,
      discount_wrap64 hdiscount, ?_⟩
    split
    . next hchanged =>
      rw [if_pos hchanged] at hrest
      exact hrest
    . next hchanged =>
      rw [if_neg hchanged] at hrest
      simp only [bind_eq_ok] at hrest ⊢
      obtain ⟨total, htotal, hrest⟩ := hrest
      exact ⟨total, wrap64_of_exact64 htotal, hrest⟩

/-- What the machine computes as long as nothing leaves its range. -/
theorem calculateWeights_wrap64
    (hr : calculateWeights exact64 curve window fullList votes h = .ok r) :
    calculateWeights wrap64 curve window fullList votes h = .ok r := by
  induction votes generalizing h r with
  | nil => exact hr
  | cons v votes ih =>
    simp only [calculateWeights, bind_eq_ok] at hr ⊢
    obtain ⟨w, hw, r', hr', hrest⟩ := hr
    exact ⟨w, calculateWeight_wrap64 hw, r', ih hr', hrest⟩

end wrap

end Voting

end Golos
