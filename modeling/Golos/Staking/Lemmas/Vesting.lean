import Golos.Market.PriceOrder
import Golos.Staking.Lemmas.Routes

/-!
This module contains the effect of each function on the vesting shares of accounts and on the fund
that backs them, and the arithmetic of the price between the two.
-/

namespace Golos

open Checked

namespace Staking

variable {s s' s'' : Staking}

/-- The vesting shares of an account, 0 where there is no account. -/
def sharesOf (s : Staking) (name : AccountName) : ℤ :=
  s.counter (fun a => a.vestingShares) name

def sumShares (s : Staking) : ℤ :=
  s.accounts.sum fun a => a.vestingShares

theorem sharesOf_of_find? {name : AccountName} {a : StakeAccountObject}
    (ha : s.accounts.find? name = some a) : s.sharesOf name = a.vestingShares := by
  unfold sharesOf counter
  rw [ha]

/-- The sum goes over all names. -/
theorem sumShares_eq (s : Staking) : s.sumShares = (s.names.map s.sharesOf).sum := by
  unfold sumShares Table.sum names
  rw [List.map_map]
  congr 1
  apply List.map_congr_left
  intro a ha
  exact (sharesOf_of_find? (Table.find?_of_mem ha)).symm

section moves

/--
`s'` is `s` with the shares of accounts changed by `f`, their sum by `sum`, the total by `shares` and
the fund by `fund`.
-/
structure MovesShares (s s' : Staking) (f : AccountName → ℤ) (sum shares fund : ℤ) : Prop where
  sharesOf : ∀ n, s'.sharesOf n = s.sharesOf n + f n
  sumShares : s'.sumShares = s.sumShares + sum
  totalVestingShares : s'.totalVestingShares = s.totalVestingShares + shares
  totalVestingFundSteem : s'.totalVestingFundSteem = s.totalVestingFundSteem + fund

namespace MovesShares

variable {f f' : AccountName → ℤ} {sum sum' shares shares' fund fund' : ℤ}

theorem of_eq (haccounts : s'.accounts = s.accounts)
    (hshares : s'.totalVestingShares = s.totalVestingShares)
    (hfund : s'.totalVestingFundSteem = s.totalVestingFundSteem) : MovesShares s s' 0 0 0 0 where
  sharesOf := by
    intro n
    unfold Staking.sharesOf counter
    rw [haccounts]
    exact (Int.add_zero _).symm
  sumShares := by
    unfold Staking.sumShares
    rw [haccounts, Int.add_zero]
  totalVestingShares := hshares.trans (Int.add_zero _).symm
  totalVestingFundSteem := hfund.trans (Int.add_zero _).symm

theorem trans (h : MovesShares s s' f sum shares fund)
    (h' : MovesShares s' s'' f' sum' shares' fund') :
    MovesShares s s'' (f + f') (sum + sum') (shares + shares') (fund + fund') where
  sharesOf := by
    intro n
    rw [h'.sharesOf, h.sharesOf, Int.add_assoc]
    rfl
  sumShares := by rw [h'.sumShares, h.sumShares, Int.add_assoc]
  totalVestingShares := by rw [h'.totalVestingShares, h.totalVestingShares, Int.add_assoc]
  totalVestingFundSteem := by
    rw [h'.totalVestingFundSteem, h.totalVestingFundSteem, Int.add_assoc]

theorem congr (h : MovesShares s s' f sum shares fund) (hf : ∀ n, f n = f' n) (hsum : sum = sum')
    (hshares : shares = shares') (hfund : fund = fund') :
    MovesShares s s' f' sum' shares' fund' := by
  subst hsum hshares hfund
  rw [← funext hf]
  exact h

theorem modifyAccount {name : AccountName} {d : ℤ}
    {g : StakeAccountObject → Result StakeAccountObject}
    (hg : ∀ a a', g a = .ok a' → a'.name = a.name ∧ a'.vestingShares = a.vestingShares + d)
    (h : s.modifyAccount name g = .ok s') : MovesShares s s' (Pi.single name d) d 0 0 := by
  obtain ⟨a, a', t, hrow, ha', hupdates, rfl⟩ :=
    updates_of_modifyAccount (fun a a' h => (hg a a' h).1) h
  have hd := (hg a a' ha').2
  have hname : a.name = name := Table.key_of_find? hrow
  refine ⟨?_, ?_, (Int.add_zero _).symm, (Int.add_zero _).symm⟩
  . intro n
    unfold Staking.sharesOf
    rw [counter_updates hupdates, hname, Pi.single_apply]
    split
    . omega
    . rfl
  . unfold Staking.sumShares
    rw [hupdates.sum]
    omega

theorem modifyAccount_same {name : AccountName}
    {g : StakeAccountObject → Result StakeAccountObject}
    (hg : ∀ a a', g a = .ok a' → a'.name = a.name ∧ a'.vestingShares = a.vestingShares)
    (h : s.modifyAccount name g = .ok s') : MovesShares s s' 0 0 0 0 := by
  have hsame : ∀ a a', g a = .ok a' → a'.name = a.name ∧
      a'.vestingShares = a.vestingShares + 0 := by
    intro a a' ha
    rw [Int.add_zero]
    exact hg a a' ha
  have hmoves := MovesShares.modifyAccount hsame h
  rw [Pi.single_zero] at hmoves
  exact hmoves

end MovesShares

/-- Nearly all functions leave the shares alone. -/
theorem overlooks_movesShares : Overlooks fun s s' => MovesShares s s' 0 0 0 0 where
  refl _ := .of_eq rfl rfl rfl
  trans h h' := h.trans h'
  account hf h := .modifyAccount_same (fun a a' ha => ⟨(hf a a' ha).1, (hf a a' ha).2.1⟩) h
  objects haccounts _ hshares hfund := .of_eq haccounts hshares hfund

theorem MovesShares.addVestingShares {name : AccountName} {delta : ℤ}
    (h : s.addVestingShares name delta = .ok s') :
    MovesShares s s' (Pi.single name delta) delta 0 0 := by
  refine MovesShares.modifyAccount ?_ h
  intro a a' ha
  simp only [bind_eq_ok, pure_eq_ok] at ha
  obtain ⟨x, hx, rfl⟩ := ha
  exact ⟨rfl, eq_of_add64_eq_ok hx⟩

/-- All shares of an account are taken away. -/
theorem MovesShares.clear {name : AccountName}
    (h : s.modifyAccount name (fun a => pure { a with vestingShares := 0 }) = .ok s') :
    MovesShares s s' (Pi.single name (-s.sharesOf name)) (-s.sharesOf name) 0 0 := by
  obtain ⟨a, a', t, hrow, ha', hupdates, rfl⟩ := updates_of_modifyAccount (by
    intro a a' ha
    rw [pure_eq_ok] at ha
    exact ha ▸ rfl) h
  rw [pure_eq_ok] at ha'
  subst ha'
  have hname : a.name = name := Table.key_of_find? hrow
  rw [sharesOf_of_find? hrow]
  refine ⟨?_, ?_, (Int.add_zero _).symm, (Int.add_zero _).symm⟩
  . intro n
    unfold Staking.sharesOf
    rw [counter_updates hupdates, hname, Pi.single_apply]
    split
    . exact congrArg _ (Int.zero_sub _)
    . rfl
  . unfold Staking.sumShares
    rw [hupdates.sum]
    exact congrArg _ (Int.zero_sub _)

theorem MovesShares.subTotals {steem vests : ℤ} (h : s.subTotals steem vests = .ok s') :
    MovesShares s s' 0 0 (-vests) (-steem) := by
  simp only [Staking.subTotals, bind_eq_ok, pure_eq_ok] at h
  obtain ⟨fund, hfund, shares, hshares, rfl⟩ := h
  exact ⟨fun _ => (Int.add_zero _).symm, (Int.add_zero _).symm, eq_of_add64_eq_ok hshares,
    eq_of_add64_eq_ok hfund⟩

theorem MovesShares.createAccount {a : StakeAccountObject} (ha : a.vestingShares = 0)
    (h : s.createAccount a = .ok s') : MovesShares s s' 0 0 0 0 := by
  simp only [Staking.createAccount, bind_eq_ok, get_eq_ok, pure_eq_ok] at h
  obtain ⟨t, ht, rfl⟩ := h
  obtain ⟨hfresh, rfl⟩ := Table.emplace_eq_some_iff.mp ht
  refine ⟨?_, ?_, (Int.add_zero _).symm, (Int.add_zero _).symm⟩
  . intro n
    unfold Staking.sharesOf counter
    dsimp only
    rw [Table.find?_insert]
    by_cases hn : a.name = n
    . rw [if_pos hn, ← hn, hfresh]
      exact ha
    . rw [if_neg hn]
      exact (Int.add_zero _).symm
  . unfold Staking.sumShares
    dsimp only
    rw [Table.sum_insert, ha]

end moves

section price

/-- The fund and the total of the shares are in order, and shares are backed by the fund. -/
structure Backed (s : Staking) : Prop where
  fund_nonneg : 0 ≤ s.totalVestingFundSteem
  fund_le : s.totalVestingFundSteem ≤ maxInt64
  shares_nonneg : 0 ≤ s.totalVestingShares
  shares_le : s.totalVestingShares ≤ maxInt64
  backed : 0 < s.totalVestingShares → 0 < s.totalVestingFundSteem

theorem Backed.congr {f : AccountName → ℤ} {sum : ℤ} (h : s.Backed)
    (hmoves : MovesShares s s' f sum 0 0) : s'.Backed := by
  have hfund := hmoves.totalVestingFundSteem
  have hshares := hmoves.totalVestingShares
  rw [Int.add_zero] at hfund hshares
  refine ⟨hfund ▸ h.fund_nonneg, hfund ▸ h.fund_le, hshares ▸ h.shares_nonneg,
    hshares ▸ h.shares_le, ?_⟩
  rw [hfund, hshares]
  exact h.backed

/-- The shares that `create_vesting` is to create for an amount. -/
def newShares (s : Staking) (steem : ℤ) : ℤ :=
  if s.totalVestingFundSteem = 0 ∨ s.totalVestingShares = 0 then
    steem * 1000000 / 1000
  else
    steem * s.totalVestingShares / s.totalVestingFundSteem

theorem symbolName_ne : symbolName steemSymbol ≠ symbolName vestsSymbol := by
  decide

theorem valid_firstPrice :
    Price.Valid ⟨⟨1000, steemSymbol⟩, ⟨1000000, vestsSymbol⟩⟩ where
  base_pos := by decide
  base_le := by decide
  quote_pos := by decide
  quote_le := by decide
  names := symbolName_ne

theorem Backed.valid (h : s.Backed) (hfund : s.totalVestingFundSteem ≠ 0)
    (hshares : s.totalVestingShares ≠ 0) :
    Price.Valid ⟨⟨s.totalVestingShares, vestsSymbol⟩, ⟨s.totalVestingFundSteem, steemSymbol⟩⟩ where
  base_pos := lt_of_le_of_ne h.shares_nonneg hshares.symm
  base_le := h.shares_le
  quote_pos := lt_of_le_of_ne h.fund_nonneg hfund.symm
  quote_le := h.fund_le
  names := symbolName_ne.symm

/-- An amount that makes no more shares than fit makes as many as it is worth. -/
theorem toVests_eq (h : s.Backed) {steem vests : ℤ} (hsteem : 0 ≤ steem) (hle : steem ≤ maxInt64)
    (hfits : s.newShares steem ≤ maxInt64) (hvests : s.toVests steem = .ok vests) :
    vests = s.newShares steem := by
  unfold toVests vestingSharePrice at hvests
  unfold newShares at hfits ⊢
  split at hvests
  . next hnone =>
    rw [if_pos hnone] at hfits ⊢
    rw [Price.mulPrice_base valid_firstPrice hsteem hle hfits] at hvests
    exact (Except.ok.inj hvests).symm
  . next hsome =>
    rw [if_neg hsome] at hfits ⊢
    rw [not_or] at hsome
    rw [Price.mulPrice_quote (h.valid hsome.1 hsome.2) hsteem hle hfits] at hvests
    exact (Except.ok.inj hvests).symm

theorem toSteem_zero (hshares : s.totalVestingShares = 0) : s.toSteem 0 = .ok 0 := by
  unfold toSteem vestingSharePrice
  rw [if_pos (.inr hshares),
    Price.mulPrice_quote valid_firstPrice (by decide) (by decide) (by decide)]
  rfl

/-- Shares are worth no more than their part of the fund. -/
theorem toSteem_le (h : s.Backed) {vests steem : ℤ} (hvests : 0 ≤ vests)
    (hle : vests ≤ s.totalVestingShares) (hsteem : s.toSteem vests = .ok steem) :
    0 ≤ steem ∧ steem * s.totalVestingShares ≤ vests * s.totalVestingFundSteem := by
  by_cases hshares : s.totalVestingShares = 0
  . have hzero : vests = 0 := by omega
    subst hzero
    obtain rfl := Except.ok.inj ((toSteem_zero hshares).symm.trans hsteem)
    exact ⟨le_rfl, by rw [Int.zero_mul, Int.zero_mul]⟩
  . have hpos := lt_of_le_of_ne h.shares_nonneg (Ne.symm hshares)
    have hfund := h.backed hpos
    have hprice := h.valid hfund.ne' hshares
    have hquotient : vests * s.totalVestingFundSteem / s.totalVestingShares ≤
        s.totalVestingFundSteem := by
      apply Int.ediv_le_of_le_mul hpos
      rw [Int.mul_comm]
      exact Int.mul_le_mul_of_nonneg_left hle h.fund_nonneg
    unfold toSteem vestingSharePrice at hsteem
    rw [if_neg (not_or.mpr ⟨hfund.ne', hshares⟩),
      Price.mulPrice_base hprice hvests (hle.trans h.shares_le) (hquotient.trans h.fund_le)] at hsteem
    obtain rfl := Except.ok.inj hsteem
    refine ⟨Int.ediv_nonneg (Int.mul_nonneg hvests h.fund_nonneg) h.shares_nonneg, ?_⟩
    exact Int.ediv_mul_le _ hshares

end price

section ratio

/-- There are more shares, each backed by at least as much. -/
structure Grows (s s' : Staking) : Prop where
  shares : s.totalVestingShares ≤ s'.totalVestingShares
  fund : s.totalVestingFundSteem ≤ s'.totalVestingFundSteem
  ratio : 0 < s.totalVestingShares →
    s.totalVestingFundSteem * s'.totalVestingShares ≤
      s'.totalVestingFundSteem * s.totalVestingShares

/-- There are fewer shares, each backed by at least as much. -/
structure Draws (s s' : Staking) : Prop where
  shares : s'.totalVestingShares ≤ s.totalVestingShares
  ratio : 0 < s'.totalVestingShares →
    s.totalVestingFundSteem * s'.totalVestingShares ≤
      s'.totalVestingFundSteem * s.totalVestingShares

theorem mul_le_mul_trans {a b c x y z : ℤ} (hy : 0 < y) (hx : 0 ≤ x) (hz : 0 ≤ z)
    (h : a * y ≤ b * x) (h' : b * z ≤ c * y) : a * z ≤ c * x := by
  apply le_of_mul_le_mul_right _ hy
  calc a * z * y = a * y * z := by ring
    _ ≤ b * x * z := Int.mul_le_mul_of_nonneg_right h hz
    _ = b * z * x := by ring
    _ ≤ c * y * x := Int.mul_le_mul_of_nonneg_right h' hx
    _ = c * x * y := by ring

theorem Grows.refl (s : Staking) : Grows s s :=
  ⟨le_rfl, le_rfl, fun _ => le_rfl⟩

theorem Grows.trans (h : Grows s s') (h' : Grows s' s'') : Grows s s'' where
  shares := h.shares.trans h'.shares
  fund := h.fund.trans h'.fund
  ratio := by
    intro hpos
    have hpos' := hpos.trans_le h.shares
    have hpos'' := hpos'.trans_le h'.shares
    exact mul_le_mul_trans hpos' hpos.le hpos''.le (h.ratio hpos) (h'.ratio hpos')

theorem Draws.refl (s : Staking) : Draws s s :=
  ⟨le_rfl, fun _ => le_rfl⟩

theorem Draws.trans (h : Draws s s') (h' : Draws s' s'') : Draws s s'' where
  shares := h'.shares.trans h.shares
  ratio := by
    intro hpos''
    have hpos' := hpos''.trans_le h'.shares
    have hpos := hpos'.trans_le h.shares
    exact mul_le_mul_trans hpos' hpos.le hpos''.le (h.ratio hpos') (h'.ratio hpos'')

theorem MovesShares.grows {f : AccountName → ℤ} {sum : ℤ} (h : MovesShares s s' f sum 0 0) :
    Grows s s' := by
  have hfund := h.totalVestingFundSteem
  have hshares := h.totalVestingShares
  refine ⟨by omega, by omega, ?_⟩
  intro _
  rw [hfund, hshares, Int.add_zero, Int.add_zero]

theorem MovesShares.draws {f : AccountName → ℤ} {sum : ℤ} (h : MovesShares s s' f sum 0 0) :
    Draws s s' := by
  have hfund := h.totalVestingFundSteem
  have hshares := h.totalVestingShares
  refine ⟨by omega, ?_⟩
  intro _
  rw [hfund, hshares, Int.add_zero, Int.add_zero]

/-- To take shares and their worth out of the totals dilutes nobody. -/
theorem draws_of_toSteem {f : AccountName → ℤ} {sum vests steem : ℤ} (h : s.Backed)
    (hvests : 0 ≤ vests) (hle : vests ≤ s.totalVestingShares)
    (hsteem : s.toSteem vests = .ok steem) (hmoves : MovesShares s s' f sum (-vests) (-steem)) :
    s'.Backed ∧ Draws s s' := by
  obtain ⟨hnonneg, hworth⟩ := toSteem_le h hvests hle hsteem
  have hshares := hmoves.totalVestingShares
  have hfund := hmoves.totalVestingFundSteem
  have hratio : s.totalVestingFundSteem * s'.totalVestingShares ≤
      s'.totalVestingFundSteem * s.totalVestingShares := by
    rw [hshares, hfund]
    linarith
  have hshares_nonneg : 0 ≤ s'.totalVestingShares := by omega
  have hdraws : Draws s s' := ⟨by omega, fun _ => hratio⟩
  refine ⟨⟨?_, ?_, hshares_nonneg, hdraws.shares.trans h.shares_le, ?_⟩, hdraws⟩
  . rcases h.shares_nonneg.lt_or_eq with hpos | hzero
    . by_contra hneg
      have hneg := Int.mul_neg_of_neg_of_pos (not_le.mp hneg) hpos
      have := Int.mul_nonneg h.fund_nonneg hshares_nonneg
      omega
    . have hzero : vests = 0 := by omega
      subst hzero
      have := Except.ok.inj ((toSteem_zero (by omega)).symm.trans hsteem)
      have := h.fund_nonneg
      omega
  . have := h.fund_le
    omega
  . intro hpos
    have hpos' := hpos.trans_le hdraws.shares
    by_contra hnone
    have hmul := Int.mul_pos (h.backed hpos') hpos
    have hmul' := Int.mul_nonpos_of_nonpos_of_nonneg (not_lt.mp hnone) hpos'.le
    omega

end ratio

section createVesting

/-- The amount makes no more shares than fit into 63 bits. -/
def Fits (s : Staking) (steem : ℤ) : Prop :=
  s.newShares steem ≤ maxInt64

theorem createVesting_cases (h : s.Backed) {name : AccountName} {steem : ℤ} {p : Staking × ℤ}
    (hsteem : 0 ≤ steem) (hfits : s.Fits steem) (hp : s.createVesting name steem = .ok p) :
    ∃ vests, 0 ≤ vests ∧ MovesShares s p.1 (Pi.single name vests) vests vests steem ∧
      p.1.Backed ∧ Grows s p.1 := by
  simp only [Staking.createVesting, bind_eq_ok, pure_eq_ok] at hp
  obtain ⟨vests, hvests, s₁, hs₁, fund, hfund, shares, hshares, rfl⟩ := hp
  have hadded : MovesShares s s₁ (Pi.single name vests) vests 0 0 := by
    refine MovesShares.modifyAccount ?_ hs₁
    intro a a' ha
    simp only [bind_eq_ok, pure_eq_ok] at ha
    obtain ⟨x, hx, rfl⟩ := ha
    exact ⟨rfl, eq_of_add64_eq_ok hx⟩
  have hsame := hadded.totalVestingFundSteem
  have hsame' := hadded.totalVestingShares
  rw [Int.add_zero] at hsame hsame'
  rw [hsame] at hfund
  rw [hsame'] at hshares
  have hfund_le := le_maxInt64_of_add64_eq_ok h.fund_le hfund
  have hshares_le := le_maxInt64_of_add64_eq_ok h.shares_le hshares
  have hfund := eq_of_add64_eq_ok hfund
  have hshares := eq_of_add64_eq_ok hshares
  have hle : steem ≤ maxInt64 := by
    have := h.fund_nonneg
    omega
  have hvests := toVests_eq h hsteem hle hfits hvests
  have hnonneg : 0 ≤ vests := by
    rw [hvests]
    unfold newShares
    split
    . exact Int.ediv_nonneg (by omega) (by decide)
    . exact Int.ediv_nonneg (Int.mul_nonneg hsteem h.shares_nonneg) h.fund_nonneg
  have hratio : 0 < s.totalVestingShares →
      vests * s.totalVestingFundSteem ≤ steem * s.totalVestingShares := by
    intro hpos
    have hbacked := h.backed hpos
    rw [hvests]
    unfold newShares
    rw [if_neg (not_or.mpr ⟨hbacked.ne', hpos.ne'⟩)]
    exact Int.ediv_mul_le _ hbacked.ne'
  -- no shares are created for nothing
  have hbacked : 0 < shares → 0 < fund := by
    intro hpos
    have := h.fund_nonneg
    rcases h.shares_nonneg.lt_or_eq with hold | hnone
    . have := h.backed hold
      omega
    . rcases hsteem.lt_or_eq with hsteem | hzero
      . omega
      . have : vests = 0 := by
          rw [hvests, ← hzero]
          unfold newShares
          split
          . rfl
          . rw [Int.zero_mul, Int.zero_ediv]
        omega
  refine ⟨vests, hnonneg, ?_, ?_, ?_⟩
  . have hmoves : MovesShares s₁
        { s₁ with totalVestingFundSteem := fund, totalVestingShares := shares } 0 0 vests steem :=
      ⟨fun _ => (Int.add_zero _).symm, (Int.add_zero _).symm, by rw [hsame']; exact hshares,
        by rw [hsame]; exact hfund⟩
    apply (hadded.trans hmoves).congr
    . intro n
      rw [add_zero]
    . omega
    . omega
    . omega
  . have := h.fund_nonneg
    have := h.shares_nonneg
    exact ⟨by dsimp only; omega, hfund_le, by dsimp only; omega, hshares_le, hbacked⟩
  . refine ⟨by dsimp only; omega, by dsimp only; omega, ?_⟩
    intro hpos
    dsimp only
    rw [hfund, hshares]
    linarith [hratio hpos]

end createVesting

end Staking

end Golos
