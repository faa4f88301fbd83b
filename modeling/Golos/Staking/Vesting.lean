import Golos.Staking.Lemmas.Vesting
import Golos.Staking.Routes

/-!
This module contains what runs do to the worth of vesting shares: rounding never dilutes those who
hold them, as long as new shares fit into 63 bits and withdrawals take no more than there is.
-/

namespace Golos

open Checked

namespace StakeAccountObject

/-- What remains of a withdrawal. -/
def remaining (a : StakeAccountObject) : ℤ :=
  a.toWithdraw - a.withdrawn

/-- What a turn is to take, whatever the account has. -/
def part (a : StakeAccountObject) : ℤ :=
  if a.remaining < a.vestingWithdrawRate then
    a.toWithdraw.tmod a.vestingWithdrawRate
  else
    a.vestingWithdrawRate

/-- The account has all that remains, or a whole rate remains for later. -/
def Covers (a : StakeAccountObject) : Prop :=
  a.remaining ≤ a.vestingShares ∨
    a.vestingWithdrawRate ≤ a.remaining - min a.vestingShares a.part

instance (a : StakeAccountObject) : Decidable a.Covers :=
  inferInstanceAs (Decidable (_ ∨ _))

theorem dueWithdrawal_le {a : StakeAccountObject} {due : ℤ} (hnonneg : 0 ≤ a.vestingShares)
    (hcovers : a.Covers) (h : a.dueWithdrawal = .ok due) : 0 ≤ due ∧ due ≤ a.vestingShares := by
  simp only [dueWithdrawal, bind_eq_ok, int64_eq_ok] at h
  obtain ⟨_, ⟨_, rfl⟩, x, hx, h⟩ := h
  have hpart : x = min a.vestingShares a.part := by
    unfold part remaining
    split at hx
    . next hlt =>
      simp only [bind_eq_ok, pure_eq_ok] at hx
      obtain ⟨_, _, rfl⟩ := hx
      rw [if_pos hlt]
    . next hlt =>
      rw [pure_eq_ok] at hx
      rw [if_neg hlt, hx]
  have hle : x ≤ a.vestingShares := hpart ▸ min_le_left _ _
  split at h
  . cases h
    exact ⟨le_rfl, hnonneg⟩
  . simp only [bind_eq_ok, int64_eq_ok] at h
    obtain ⟨_, ⟨_, rfl⟩, _, ⟨_, rfl⟩, h⟩ := h
    split at h
    . next hnonneg hremainder =>
      rw [int64_eq_ok] at h
      obtain ⟨_, rfl⟩ := h
      -- the rest is taken as well, so it is covered
      unfold Covers at hcovers
      rw [← hpart] at hcovers
      unfold remaining at hcovers
      omega
    . rw [pure_eq_ok] at h
      omega

end StakeAccountObject

namespace Staking

variable {s s' s'' : Staking}

section routes

/-- What the routes of an account that are seen add up to. -/
def sumSeen (s : Staking) (name : AccountName) : ℤ :=
  s.sumRoutes name fun r => if 0 < s.accountId r.toAccount then (r.percent : ℤ) else 0

/-- The routes that are seen add up to the whole at most. -/
structure RoutesBounded (s : Staking) : Prop where
  toAccount : ∀ r ∈ s.routes.rows, r.toAccount ∈ s.names
  percent : ∀ name, s.sumSeen name ≤ steemit100Percent

theorem sum_routesOf_seen (s : Staking) (name : AccountName) :
    (((s.routesOf name).map WithdrawVestingRouteObject.percent).sum : ℤ) = s.sumSeen name := by
  unfold routesOf sumSeen sumRoutes Table.sum
  rw [((List.perm_insertionSort _ _).map _).sum_eq]
  induction s.routes.rows with
  | nil => rfl
  | cons r l ih =>
    rw [List.map_cons, List.sum_cons, ← ih, List.filter_cons]
    split
    . next hr =>
      rw [decide_eq_true_eq] at hr
      rw [if_pos hr.1]
      dsimp only
      rw [if_pos hr.2, List.map_cons, List.sum_cons]
      push_cast
      rfl
    . next hr =>
      rw [decide_eq_true_eq, not_and] at hr
      split
      . next hname =>
        dsimp only
        rw [if_neg (hr hname), Int.zero_add]
      . rw [Int.zero_add]

theorem RoutesBounded.congr (h : s.RoutesBounded) (hkeeps : KeepsRoutes s s') :
    s'.RoutesBounded where
  toAccount := by
    rw [hkeeps.routes]
    intro r hr
    exact hkeeps.names.subset (h.toAccount r hr)
  percent := by
    intro name
    have hsame : s'.sumSeen name = s.sumSeen name := by
      unfold sumSeen sumRoutes
      rw [hkeeps.routes]
      apply Table.sum_congr
      intro r hr
      dsimp only
      rw [accountId_of_names hkeeps.names (h.toAccount r hr)]
    rw [hsame]
    exact h.percent name

/-- The routes of others are as before. -/
theorem routes_setWithdrawVestingRoute {op : SetWithdrawVestingRouteOperation}
    (h : s.setWithdrawVestingRoute op = .ok s') :
    s'.names = s.names ∧ op.toAccount ∈ s.names ∧
      ((s'.routesOf op.fromAccount).map WithdrawVestingRouteObject.percent).sum
        ≤ steemit100Percent ∧
      (∀ r ∈ s'.routes.rows, r ∈ s.routes.rows ∨ r.toAccount = op.toAccount) ∧
      ∀ f : WithdrawVestingRouteObject → ℤ, (∀ r, r.fromAccount = op.fromAccount → f r = 0) →
        s'.routes.sum f = s.routes.sum f := by
  simp only [Staking.setWithdrawVestingRoute, getAccount, bind_eq_ok, ensure_eq_ok, get_eq_ok,
    pure_eq_ok] at h
  obtain ⟨_, _, _, _, b, hb, s₁, hs₁, _, hsum, rfl⟩ := h
  have hto := mem_names_iff.mpr ⟨b, hb⟩
  split at hs₁
  . simp only [bind_eq_ok, get_eq_ok] at hs₁
    obtain ⟨_, _, _, _, t, ht, hs₁⟩ := hs₁
    have hinserts := Table.Inserts.emplace ht
    have hnames := names_modifyAccount hs₁
    have hroutes := routes_modifyAccount hs₁
    refine ⟨hnames, hto, hsum, ?_, ?_⟩
    . rw [hroutes]
      intro r hr
      rcases (hinserts.mem r).mp hr with hr | rfl
      . exact .inl hr
      . exact .inr rfl
    . intro f hf
      rw [hroutes, hinserts.sum, hf _ rfl, Int.add_zero]
  . next r hr =>
    have hkey := Table.key_of_find? hr
    have hfrom : r.fromAccount = op.fromAccount := congrArg Prod.fst hkey
    have hrto : r.toAccount = op.toAccount := congrArg Prod.snd hkey
    split at hs₁
    . have hnames := names_modifyAccount hs₁
      have hroutes := routes_modifyAccount hs₁
      refine ⟨hnames, hto, hsum, ?_, ?_⟩
      . rw [hroutes]
        intro r' hr'
        exact .inl (Table.mem_erase.mp hr').1
      . intro f hf
        rw [hroutes, Table.sum_erase _ _ hr, hf _ hfrom, Int.sub_zero]
    . rw [pure_eq_ok] at hs₁
      subst hs₁
      have hupdates := Table.Updates.modify (fun r : WithdrawVestingRouteObject =>
        { r with percent := op.percent, autoVest := op.autoVest }) hr
      refine ⟨rfl, hto, hsum, ?_, ?_⟩
      . intro r' hr'
        rcases (hupdates.mem_rows rfl).mp hr' with ⟨hr', _⟩ | rfl
        . exact .inl hr'
        . exact .inr hrto
      . intro f hf
        rw [hupdates.sum, hf r hfrom,
          hf { r with percent := op.percent, autoVest := op.autoVest } hfrom, Int.sub_self,
          Int.add_zero]

theorem RoutesBounded.setWithdrawVestingRoute {op : SetWithdrawVestingRouteOperation}
    (h : s.RoutesBounded) (hset : s.setWithdrawVestingRoute op = .ok s') : s'.RoutesBounded := by
  obtain ⟨hnames, hto, hsum, hmem, hothers⟩ := routes_setWithdrawVestingRoute hset
  refine ⟨?_, ?_⟩
  . rw [hnames]
    intro r hr
    rcases hmem r hr with hr | heq
    . exact h.toAccount r hr
    . exact heq ▸ hto
  . intro name
    by_cases heq : name = op.fromAccount
    . rw [heq, ← sum_routesOf_seen]
      exact_mod_cast hsum
    . have hgrown : s.names <+: s'.names := ⟨[], by rw [hnames, List.append_nil]⟩
      have hsame : s'.sumSeen name = s.sumSeen name := by
        unfold sumSeen sumRoutes
        rw [hothers]
        . apply Table.sum_congr
          intro r hr
          dsimp only
          rw [accountId_of_names hgrown (h.toAccount r hr)]
        . intro r hfrom
          rw [if_neg fun hname => heq (hname.symm.trans hfrom)]
      rw [hsame]
      exact h.percent name

end routes

section deposits

/-- The part of a withdrawal that goes along a route. -/
def deposit (due : ℤ) (r : WithdrawVestingRouteObject) : ℤ :=
  due * r.percent / steemit100Percent

theorem routeDeposit_eq {due x : ℤ} {r : WithdrawVestingRouteObject} (hdue : 0 ≤ due)
    (hle : due ≤ maxInt64) (hpercent : r.percent ≤ steemit100Percent)
    (h : routeDeposit due r = .ok x) : x = deposit due r ∧ 0 ≤ x := by
  have hnonneg : 0 ≤ due * r.percent := Int.mul_nonneg hdue (Int.natCast_nonneg _)
  have hquotient : 0 ≤ deposit due r := Int.ediv_nonneg hnonneg (by decide)
  have hdeposit : deposit due r ≤ due := by
    apply Int.ediv_le_of_le_mul (by decide)
    apply Int.mul_le_mul_of_nonneg_left _ hdue
    exact_mod_cast hpercent
  have hpercent' : (r.percent : ℤ) ≤ maxInt64 := by
    unfold steemit100Percent at hpercent
    unfold maxInt64
    omega
  have hmul := toUint128_mul hdue hle (Int.natCast_nonneg r.percent) hpercent'
  rw [toUint128_of_nonneg (Int.natCast_nonneg r.percent) hpercent', Int.toNat_natCast] at hmul
  unfold routeDeposit at h
  rw [hmul, show steemit100Percent = (steemit100Percent : ℤ).toNat from rfl,
    ← toNat_ediv hnonneg (by decide)] at h
  have h : ofUint128 (deposit due r).toNat = .ok x := h
  rw [ofUint128_of_le hquotient (hdeposit.trans hle)] at h
  exact ⟨(Except.ok.inj h).symm, Except.ok.inj h ▸ hquotient⟩

/-- Routes that add up to the whole at most take no more than there is. -/
theorem sum_deposit_le {due : ℤ} (hdue : 0 ≤ due) {l : List WithdrawVestingRouteObject}
    (hl : (l.map WithdrawVestingRouteObject.percent).sum ≤ steemit100Percent) :
    (l.map (deposit due)).sum ≤ due := by
  have hscaled : (l.map (deposit due)).sum * steemit100Percent ≤
      due * ((l.map WithdrawVestingRouteObject.percent).sum : Nat) := by
    clear hl
    induction l with
    | nil => rw [List.map_nil, List.map_nil, List.sum_nil, List.sum_nil, Int.zero_mul]; simp
    | cons r l ih =>
      have hr : deposit due r * steemit100Percent ≤ due * r.percent :=
        Int.ediv_mul_le _ (by decide)
      rw [List.map_cons, List.map_cons, List.sum_cons, List.sum_cons, Int.natCast_add]
      linarith
  have hwhole : due * ((l.map WithdrawVestingRouteObject.percent).sum : Nat) ≤
      due * steemit100Percent := by
    apply Int.mul_le_mul_of_nonneg_left _ hdue
    exact_mod_cast hl
  exact le_of_mul_le_mul_right (hscaled.trans hwhole) (by decide)

/-- The first pass makes vests of others, and takes them from nobody. -/
theorem depositAsVests_moves {due : ℤ} (hdue : 0 ≤ due) (hle : due ≤ maxInt64)
    {l : List WithdrawVestingRouteObject} (hl : ∀ r ∈ l, r.percent ≤ steemit100Percent) {v : ℤ}
    {p : Staking × ℤ} (h : l.foldlM (depositAsVests due) (s, v) = .ok p) :
    p.2 = v + (l.map (deposit due)).sum ∧ ∃ f : AccountName → ℤ, (∀ n, 0 ≤ f n) ∧
      MovesShares s p.1 f (l.map (deposit due)).sum 0 0 := by
  induction l generalizing s v with
  | nil =>
    cases h
    exact ⟨(Int.add_zero _).symm, 0, fun _ => le_rfl, .of_eq rfl rfl rfl⟩
  | cons r l ih =>
    rw [List.foldlM_cons, bind_eq_ok] at h
    obtain ⟨p₁, hp₁, h⟩ := h
    simp only [depositAsVests, bind_eq_ok] at hp₁
    obtain ⟨x, hx, v', hv', hp₁⟩ := hp₁
    obtain ⟨hx, hnonneg⟩ := routeDeposit_eq hdue hle (hl r List.mem_cons_self) hx
    have hv' := eq_of_add64_eq_ok hv'
    have hmoves : p₁.2 = v + x ∧ MovesShares s p₁.1 (Pi.single r.toAccount x) x 0 0 := by
      split at hp₁
      . simp only [bind_eq_ok, pure_eq_ok] at hp₁
        obtain ⟨s₁, hs₁, rfl⟩ := hp₁
        refine ⟨hv', @MovesShares.addVestingShares _ _ r.toAccount _ ?_⟩
        simp only [addVestingShares]
        exact hs₁
      . rw [pure_eq_ok] at hp₁
        subst hp₁
        obtain rfl : x = 0 := by omega
        rw [Pi.single_zero]
        exact ⟨hv', .of_eq rfl rfl rfl⟩
    obtain ⟨htotal, f, hf, hrest⟩ := ih (fun r' hr' => hl r' (List.mem_cons_of_mem r hr')) h
    rw [List.map_cons, List.sum_cons]
    refine ⟨by omega, _, ?_, (hmoves.2.trans hrest).congr (fun _ => rfl) (by omega) rfl rfl⟩
    intro n
    have := hf n
    rw [Pi.add_apply, Pi.single_apply]
    split
    . omega
    . omega

/-- The second pass takes shares and their worth out of the totals. -/
theorem depositAsSteem_moves {due : ℤ} (hdue : 0 ≤ due) (hle : due ≤ maxInt64)
    {l : List WithdrawVestingRouteObject} (hl : ∀ r ∈ l, r.percent ≤ steemit100Percent) {v : ℤ}
    {p : Staking × ℤ} (hbacked : s.Backed)
    (hshares : (l.map (deposit due)).sum ≤ s.totalVestingShares)
    (h : l.foldlM (depositAsSteem due) (s, v) = .ok p) :
    p.2 = v + (l.map (deposit due)).sum ∧ p.1.Backed ∧ Draws s p.1 ∧
      ∃ fund, MovesShares s p.1 0 0 (-(l.map (deposit due)).sum) fund := by
  have hnonneg : ∀ r ∈ l, 0 ≤ deposit due r := fun r _ =>
    Int.ediv_nonneg (Int.mul_nonneg hdue (Int.natCast_nonneg _)) (by decide)
  induction l generalizing s v with
  | nil =>
    cases h
    exact ⟨(Int.add_zero _).symm, hbacked, .refl s, 0, .of_eq rfl rfl rfl⟩
  | cons r l ih =>
    rw [List.foldlM_cons, bind_eq_ok] at h
    obtain ⟨p₁, hp₁, h⟩ := h
    simp only [depositAsSteem, bind_eq_ok] at hp₁
    obtain ⟨x, hx, v', hv', steem, hsteem, hp₁⟩ := hp₁
    obtain ⟨hx, hxnonneg⟩ := routeDeposit_eq hdue hle (hl r List.mem_cons_self) hx
    have hv' := eq_of_add64_eq_ok hv'
    have hlater : 0 ≤ (l.map (deposit due)).sum := by
      apply List.sum_nonneg
      intro y hy
      obtain ⟨r', hr', rfl⟩ := List.mem_map.mp hy
      exact hnonneg r' (List.mem_cons_of_mem r hr')
    rw [List.map_cons, List.sum_cons] at hshares ⊢
    have hmoves : p₁.2 = v + x ∧ p₁.1.Backed ∧ Draws s p₁.1 ∧
        ∃ fund, MovesShares s p₁.1 0 0 (-x) fund := by
      split at hp₁
      . simp only [bind_eq_ok, pure_eq_ok] at hp₁
        obtain ⟨s₁, hs₁, s₂, hs₂, rfl⟩ := hp₁
        have hpaid : MovesShares s s₂ 0 0 (-x) (-steem) := by
          apply ((overlooks_movesShares.addBalance hs₁).trans (.subTotals hs₂)).congr
          . intro n
            rw [add_zero]
          . rfl
          . omega
          . omega
        obtain ⟨hbacked₂, hdraws⟩ :=
          draws_of_toSteem hbacked hxnonneg (by omega) hsteem hpaid
        exact ⟨hv', hbacked₂, hdraws, _, hpaid⟩
      . rw [pure_eq_ok] at hp₁
        subst hp₁
        obtain rfl : x = 0 := by omega
        exact ⟨hv', hbacked, .refl s, 0, .of_eq rfl rfl rfl⟩
    obtain ⟨hv₁, hbacked₁, hdraws₁, fund, hmoves₁⟩ := hmoves
    have hshares₁ := hmoves₁.totalVestingShares
    obtain ⟨htotal, hbacked', hdraws', fund', hmoves'⟩ :=
      ih (fun r' hr' => hl r' (List.mem_cons_of_mem r hr')) hbacked₁ (by omega) h
        (fun r' hr' => hnonneg r' (List.mem_cons_of_mem r hr'))
    refine ⟨by omega, hbacked', hdraws₁.trans hdraws', _,
      (hmoves₁.trans hmoves').congr ?_ rfl (by omega) rfl⟩
    intro n
    rw [add_zero]

end deposits

section turns

/-- The shares of all accounts are in order and add up to the total. -/
structure Solvent (s : Staking) : Prop extends Backed s where
  sum : s.sumShares = s.totalVestingShares
  nonneg : ∀ n, 0 ≤ s.sharesOf n

theorem Solvent.le_total (h : s.Solvent) {name : AccountName} {a : StakeAccountObject}
    (ha : s.accounts.find? name = some a) : 0 ≤ a.vestingShares ∧
      a.vestingShares ≤ s.totalVestingShares := by
  have hrows : ∀ b ∈ s.accounts.rows, 0 ≤ b.vestingShares := by
    intro b hb
    rw [← sharesOf_of_find? (Table.find?_of_mem hb)]
    exact h.nonneg b.name
  have hmem := Table.mem_of_find? ha
  refine ⟨hrows a hmem, ?_⟩
  rw [← h.sum]
  exact s.accounts.le_sum hrows hmem

theorem Solvent.moves {f : AccountName → ℤ} {sum shares fund : ℤ} (h : s.Solvent)
    (hmoves : MovesShares s s' f sum shares fund) (hbacked : s'.Backed) (hsum : sum = shares)
    (hf : ∀ n, 0 ≤ s.sharesOf n + f n) : s'.Solvent := by
  refine ⟨hbacked, ?_, ?_⟩
  . rw [hmoves.sumShares, hmoves.totalVestingShares, h.sum, hsum]
  . intro n
    rw [hmoves.sharesOf]
    exact hf n

theorem Solvent.congr (h : s.Solvent) (hmoves : MovesShares s s' 0 0 0 0) : s'.Solvent := by
  apply h.moves hmoves (h.toBacked.congr hmoves) rfl
  intro n
  rw [Pi.zero_apply, Int.add_zero]
  exact h.nonneg n

theorem sum_partition {l : List WithdrawVestingRouteObject} (p : WithdrawVestingRouteObject → Bool)
    (f : WithdrawVestingRouteObject → ℤ) :
    ((l.filter p).map f).sum + ((l.filter (not ∘ p)).map f).sum = (l.map f).sum := by
  rw [← List.sum_append, ← List.map_append]
  exact ((List.filter_append_perm p l).map f).sum_eq

/-- One turn of the loop takes no more than the account has, and rounds in favour of the others. -/
theorem solvent_of_turn {name : AccountName} {a : StakeAccountObject} (h : s.Solvent)
    (hroutes : s.RoutesBounded) (ha : s.accounts.find? name = some a) (hcovers : a.Covers)
    (hturn : s.processVestingWithdrawal name = .ok s') : s'.Solvent ∧ Draws s s' := by
  simp only [Staking.processVestingWithdrawal, getAccount, bind_eq_ok, get_eq_ok] at hturn
  obtain ⟨b, hb, due, hdue, ⟨s₁, asVests⟩, hs₁, ⟨s₂, asSteem⟩, hs₂, _, htoConvert, steem, hsteem, s₃,
    hs₃, hs'⟩ := hturn
  obtain rfl := Option.some.inj (ha.symm.trans hb)
  obtain ⟨hdue_nonneg, hdue_le⟩ := StakeAccountObject.dueWithdrawal_le (h.le_total ha).1 hcovers hdue
  have hdue_total := hdue_le.trans (h.le_total ha).2
  have hdue_max := hdue_total.trans h.shares_le
  rw [List.partition_eq_filter_filter] at hs₁ hs₂
  -- all routes together take no more than is due
  have hpercents : ((s.routesOf name).map WithdrawVestingRouteObject.percent).sum ≤
      steemit100Percent := by
    have := hroutes.percent name
    rw [← sum_routesOf_seen] at this
    exact_mod_cast this
  have hpercent : ∀ r ∈ s.routesOf name, r.percent ≤ steemit100Percent := by
    intro r hr
    exact (List.single_le_sum (fun _ _ => Nat.zero_le _) _ (List.mem_map_of_mem hr)).trans hpercents
  have hdeposits := sum_deposit_le hdue_nonneg hpercents
  rw [← sum_partition WithdrawVestingRouteObject.autoVest] at hdeposits
  obtain ⟨hasVests, f, hf, hmoves₁⟩ := depositAsVests_moves hdue_nonneg hdue_max
    (fun r hr => hpercent r (List.mem_of_mem_filter hr)) hs₁
  dsimp only at hasVests hmoves₁
  rw [Int.zero_add] at hasVests
  rw [← hasVests] at hmoves₁ hdeposits
  have hvests_nonneg : 0 ≤ asVests := by
    rw [hasVests]
    apply List.sum_nonneg
    intro x hx
    obtain ⟨r, _, rfl⟩ := List.mem_map.mp hx
    exact Int.ediv_nonneg (Int.mul_nonneg hdue_nonneg (Int.natCast_nonneg _)) (by decide)
  have hshares₁ := hmoves₁.totalVestingShares
  rw [Int.add_zero] at hshares₁
  have hbacked₁ := h.toBacked.congr hmoves₁
  obtain ⟨hasSteem, hbacked₂, hdraws₂, fund, hmoves₂⟩ := depositAsSteem_moves hdue_nonneg hdue_max
    (fun r hr => hpercent r (List.mem_of_mem_filter hr)) hbacked₁ (by rw [hshares₁]; omega) hs₂
  dsimp only at hasSteem hbacked₂ hdraws₂ hmoves₂
  rw [Int.zero_add] at hasSteem
  rw [← hasSteem] at hmoves₂ hdeposits
  have hshares₂ := hmoves₂.totalVestingShares
  -- the rest is what is due less all deposits
  have hrest : max (due - asSteem - asVests) 0 = due - asSteem - asVests := by
    apply max_eq_left
    omega
  simp only [int64_eq_ok] at htoConvert
  obtain ⟨_, rfl⟩ := htoConvert
  rw [hrest] at hsteem hs'
  have hmoves₃ : MovesShares s₂ s₃ (Pi.single name (-due)) (-due) 0 0 :=
    MovesShares.modifyAccount
      (fun a a' ha => ⟨(payWithdrawal_changes ha).1, (payWithdrawal_changes ha).2.1⟩) hs₃
  have hmoves₄ : MovesShares s₂ s' (Pi.single name (-due)) (-due)
      (-(due - asSteem - asVests)) (-steem) := by
    apply (hmoves₃.trans (.subTotals hs')).congr
    . intro n
      rw [add_zero]
    . omega
    . omega
    . omega
  obtain ⟨hbacked', hdraws'⟩ :=
    draws_of_toSteem hbacked₂ (by omega) (by omega) hsteem hmoves₄
  have hshares' := hmoves₄.totalVestingShares
  have hsum := h.sum
  have hsum₁ := hmoves₁.sumShares
  have hsum₂ := hmoves₂.sumShares
  have hsum' := hmoves₄.sumShares
  refine ⟨⟨hbacked', by omega, ?_⟩, hmoves₁.draws.trans (hdraws₂.trans hdraws')⟩
  intro n
  have hn := h.nonneg n
  have hfn := hf n
  rw [hmoves₄.sharesOf, hmoves₂.sharesOf, hmoves₁.sharesOf, Pi.zero_apply, Pi.single_apply]
  split
  . next heq =>
    subst heq
    rw [sharesOf_of_find? ha]
    omega
  . omega

/-- Whenever it is the turn of an account it covers its withdrawal. -/
def CoversFrom : Nat → Staking → Option AccountName → Prop
  | 0, _, _ => True
  | _, _, none => True
  | fuel + 1, s, some name =>
    ∀ a, s.accounts.find? name = some a → a.nextVestingWithdrawal ≤ s.headBlockTime →
      a.Covers ∧ ∀ s', s.processVestingWithdrawal name = .ok s' →
        CoversFrom fuel s' (s.nextInWithdrawals name)

instance decidableCoversFrom : (fuel : Nat) → (s : Staking) → (current : Option AccountName) →
    Decidable (CoversFrom fuel s current)
  | 0, _, _ => .isTrue trivial
  | _ + 1, _, none => .isTrue trivial
  | fuel + 1, s, some name =>
    have := decidableCoversFrom fuel
    inferInstanceAs (Decidable (∀ a ∈ s.accounts.find? name,
      a.nextVestingWithdrawal ≤ s.headBlockTime →
        a.Covers ∧ ∀ s', s.processVestingWithdrawal name = .ok s' →
          CoversFrom fuel s' (s.nextInWithdrawals name)))

theorem solvent_of_turns {fuel : Nat} {current : Option AccountName} (h : s.Solvent)
    (hroutes : s.RoutesBounded) (hcovers : CoversFrom fuel s current)
    (hturns : processVestingWithdrawalsFrom fuel s current = .ok s') : s'.Solvent ∧ Draws s s' := by
  induction fuel generalizing s current with
  | zero =>
    rw [processVestingWithdrawalsFrom, pure_eq_ok] at hturns
    exact hturns ▸ ⟨h, .refl s⟩
  | succ fuel ih =>
    cases current with
    | none =>
      simp only [processVestingWithdrawalsFrom, pure_eq_ok] at hturns
      exact hturns ▸ ⟨h, .refl s⟩
    | some name =>
      simp only [processVestingWithdrawalsFrom, getAccount, bind_eq_ok, get_eq_ok] at hturns
      obtain ⟨a, ha, hturns⟩ := hturns
      split at hturns
      . next hdue =>
        simp only [bind_eq_ok] at hturns
        obtain ⟨s₁, hs₁, hturns⟩ := hturns
        obtain ⟨hcovered, hlater⟩ := hcovers a ha hdue
        obtain ⟨hsolvent₁, hdraws₁⟩ := solvent_of_turn h hroutes ha hcovered hs₁
        obtain ⟨hsolvent', hdraws'⟩ := ih hsolvent₁
          (hroutes.congr (.processVestingWithdrawal hs₁)) (hlater s₁ hs₁) hturns
        exact ⟨hsolvent', hdraws₁.trans hdraws'⟩
      . rw [pure_eq_ok] at hturns
        exact hturns ▸ ⟨h, .refl s⟩

end turns

section events

/-- A share is never worth less than before. -/
def NotDiluted (s s' : Staking) : Prop :=
  0 < s.totalVestingShares → 0 < s'.totalVestingShares →
    s.totalVestingFundSteem * s'.totalVestingShares ≤
      s'.totalVestingFundSteem * s.totalVestingShares

theorem Solvent.createVesting (h : s.Solvent) {name : AccountName} {steem : ℤ} {p : Staking × ℤ}
    (hsteem : 0 ≤ steem) (hfits : s.Fits steem) (hp : s.createVesting name steem = .ok p) :
    p.1.Solvent ∧ Grows s p.1 := by
  obtain ⟨vests, hvests, hmoves, hbacked, hgrows⟩ :=
    createVesting_cases h.toBacked hsteem hfits hp
  refine ⟨h.moves hmoves hbacked rfl ?_, hgrows⟩
  intro n
  have := h.nonneg n
  rw [Pi.single_apply]
  split
  . omega
  . omega

theorem Solvent.accountCreateWithDelegation {op : AccountCreateWithDelegationOperation}
    (h : s.Solvent) (hfits : s.Fits (op.fee.amount - s.medianProps.createAccountMinGolosFee))
    (hop : s.accountCreateWithDelegation op = .ok s') : s'.Solvent ∧ Grows s s' := by
  have hoverlooks := overlooks_movesShares
  simp only [Staking.accountCreateWithDelegation, bind_eq_ok] at hop
  obtain ⟨-, -, _, -, -, -, -, -, _, -, _, -, _, -, -, -, -, -, s₁, hs₁, s₂, hs₂, s₃, hs₃, hop⟩ := hop
  have hpaid : MovesShares s s₁ 0 0 0 0 := by
    refine MovesShares.modifyAccount_same ?_ hs₁
    intro a a' ha
    simp only [bind_eq_ok] at ha
    obtain ⟨_, -, ha⟩ := ha
    rw [StakeAccountObject.delegateVs_eq_ok ha]
    exact ⟨rfl, rfl⟩
  have hcreated := hoverlooks.trans hpaid (.createAccount rfl hs₂)
  have hdelegated : MovesShares s s₃ 0 0 0 0 := by
    split at hs₃
    . exact hoverlooks.trans hcreated (hoverlooks.createDelegation hs₃)
    . rw [pure_eq_ok] at hs₃
      exact hs₃ ▸ hcreated
  split at hop
  . simp only [bind_eq_ok, int64_eq_ok] at hop
    obtain ⟨s₄, hs₄, _, ⟨_, rfl⟩, hop⟩ := hop
    have hshared := hoverlooks.trans hdelegated (hoverlooks.distributeAccountFee hs₄)
    have hfund := hshared.totalVestingFundSteem
    have hshares := hshared.totalVestingShares
    rw [Int.add_zero] at hfund hshares
    split at hop
    . next hpos =>
      simp only [bind_eq_ok, pure_eq_ok] at hop
      obtain ⟨p, hp, rfl⟩ := hop
      have hfits₄ : s₄.Fits (op.fee.amount - s.medianProps.createAccountMinGolosFee) := by
        unfold Fits newShares at hfits ⊢
        rw [hfund, hshares]
        exact hfits
      obtain ⟨hsolvent, hgrows⟩ := (h.congr hshared).createVesting hpos.le hfits₄ hp
      exact ⟨hsolvent, hshared.grows.trans hgrows⟩
    . rw [pure_eq_ok] at hop
      subst hop
      exact ⟨h.congr hshared, hshared.grows⟩
  . rw [pure_eq_ok] at hop
    subst hop
    exact ⟨h.congr hdelegated, hdelegated.grows⟩

/-- What a delegator is paid fits. -/
def PayFits (claim : Nat) (s : Staking) (dvir : DelegatorVoteInterestRate) : Prop :=
  s.Fits (claim * dvir.interestRate % 2 ^ 64 / steemit100Percent : Nat)

theorem Solvent.payDelegator {delegatee : AccountName} {claim : Nat}
    {dvir : DelegatorVoteInterestRate} (h : s.Solvent) (hfits : PayFits claim s dvir)
    (hpay : Staking.payDelegator delegatee claim s dvir = .ok s') : s'.Solvent ∧ Grows s s' := by
  have hoverlooks := overlooks_movesShares
  unfold Staking.payDelegator at hpay
  dsimp only at hpay
  split at hpay
  . rw [pure_eq_ok] at hpay
    exact hpay ▸ ⟨h, .refl s⟩
  . simp only [bind_eq_ok] at hpay
    obtain ⟨p, hp, hpay⟩ := hpay
    obtain ⟨hsolvent, hgrows⟩ := h.createVesting (Int.natCast_nonneg _) hfits hp
    split at hpay
    . simp only [bind_eq_ok, pure_eq_ok] at hpay
      obtain ⟨s₁, hs₁, s₂, hs₂, _, -, rfl⟩ := hpay
      have hmoves := hoverlooks.trans (hoverlooks.delegateVs hs₁) (hoverlooks.receiveVs hs₂)
      refine ⟨hsolvent.congr (hoverlooks.trans hmoves (.of_eq rfl rfl rfl)), hgrows.trans ?_⟩
      exact MovesShares.grows (hoverlooks.trans hmoves (.of_eq rfl rfl rfl))
    . rw [pure_eq_ok] at hpay
      exact hpay ▸ ⟨hsolvent, hgrows⟩

theorem Solvent.payDelegators {delegatee : AccountName} {claim : Nat}
    {rates : List DelegatorVoteInterestRate} (h : s.Solvent)
    (hfits : TransitionSystem.Along (Staking.payDelegator delegatee claim) (PayFits claim) s rates)
    (hpay : rates.foldlM (Staking.payDelegator delegatee claim) s = .ok s') :
    s'.Solvent ∧ Grows s s' := by
  induction rates generalizing s with
  | nil =>
    cases hpay
    exact ⟨h, .refl _⟩
  | cons dvir rates ih =>
    rw [List.foldlM_cons, bind_eq_ok] at hpay
    obtain ⟨s₁, hs₁, hpay⟩ := hpay
    unfold TransitionSystem.Along at hfits
    rw [hs₁] at hfits
    obtain ⟨hsolvent, hgrows⟩ := h.payDelegator hfits.1 hs₁
    obtain ⟨hsolvent', hgrows'⟩ := ih hsolvent hfits.2 hpay
    exact ⟨hsolvent', hgrows.trans hgrows'⟩

/-- The shares of an account are burnt at their price. -/
theorem Solvent.burn {name : AccountName} {vests steem fund : ℤ} (h : s.Solvent)
    (hvests : vests = s.sharesOf name) (hfund : fund = -steem)
    (hsteem : s.toSteem vests = .ok steem)
    (hmoves : MovesShares s s' (Pi.single name (-vests)) (-vests) (-vests) fund) :
    s'.Solvent ∧ Draws s s' := by
  subst hfund
  have hnonneg : 0 ≤ vests := by
    rw [hvests]
    exact h.nonneg name
  have hle : vests ≤ s.totalVestingShares := by
    rw [hvests]
    unfold sharesOf counter
    split
    . next a ha => exact (h.le_total ha).2
    . exact h.shares_nonneg
  obtain ⟨hbacked, hdraws⟩ := draws_of_toSteem h.toBacked hnonneg hle hsteem hmoves
  refine ⟨h.moves hmoves hbacked rfl ?_, hdraws⟩
  intro n
  have := h.nonneg n
  rw [Pi.single_apply]
  split
  . next heq =>
    rw [hvests, heq]
    omega
  . omega

theorem Solvent.clearNullAccountBalance (h : s.Solvent)
    (hclear : s.clearNullAccountBalance = .ok s') : s'.Solvent ∧ Draws s s' := by
  simp only [Staking.clearNullAccountBalance, getAccount, bind_eq_ok, get_eq_ok] at hclear
  obtain ⟨a, ha, s₁, hs₁, hclear⟩ := hclear
  have hmoves₁ : MovesShares s s₁ 0 0 0 0 := by
    refine MovesShares.modifyAccount_same ?_ hs₁
    intro a a' ha
    rw [pure_eq_ok] at ha
    exact ha ▸ ⟨rfl, rfl⟩
  split at hclear
  . simp only [bind_eq_ok] at hclear
    obtain ⟨steem, hsteem, s₂, hs₂, hclear⟩ := hclear
    have hmoves₂ := MovesShares.subTotals hs₂
    have hshares : s₁.sharesOf nullAccount = a.vestingShares := by
      rw [hmoves₁.sharesOf, sharesOf_of_find? ha, Pi.zero_apply, Int.add_zero]
    have hshares₂ : s₂.sharesOf nullAccount = a.vestingShares := by
      rw [hmoves₂.sharesOf, hshares, Pi.zero_apply, Int.add_zero]
    have hmoves₃ := MovesShares.clear hclear
    rw [hshares₂] at hmoves₃
    have hburnt : MovesShares s₁ s' (Pi.single nullAccount (-a.vestingShares)) (-a.vestingShares)
        (-a.vestingShares) (-steem) := by
      apply (hmoves₂.trans hmoves₃).congr
      . intro n
        rw [zero_add]
      . omega
      . omega
      . omega
    obtain ⟨hsolvent, hdraws⟩ := (h.congr hmoves₁).burn hshares.symm rfl hsteem hburnt
    exact ⟨hsolvent, hmoves₁.draws.trans hdraws⟩
  . rw [pure_eq_ok] at hclear
    exact hclear ▸ ⟨h.congr hmoves₁, hmoves₁.draws⟩

open LiberationHardfork in
theorem Solvent.freezeAccount {account : AccountName} (h : s.Solvent)
    (hne : account ≠ accReferendum) (hfreeze : s.freezeAccount account = .ok s') :
    s'.Solvent ∧ Draws s s' := by
  have hoverlooks := overlooks_movesShares
  simp only [Staking.freezeAccount, Staking.transferVestings, getAccount, bind_eq_ok, get_eq_ok]
    at hfreeze
  obtain ⟨s₁, hs₁, s₂, hs₂, a, ha, s₃, hs₃, hfreeze⟩ := hfreeze
  have hterminated := hoverlooks.trans (hoverlooks.transferGolos hs₁)
    (hoverlooks.terminateVestingActivities hs₂)
  have hsolvent₂ := h.congr hterminated
  have hmoves₃ := MovesShares.addVestingShares hs₃
  have hmoves₄ := MovesShares.clear hfreeze
  have hshares₂ := sharesOf_of_find? ha
  rw [hmoves₃.sharesOf, Pi.single_apply, if_neg hne, Int.add_zero, hshares₂] at hmoves₄
  have hmoved : MovesShares s₂ s'
      (Pi.single accReferendum a.vestingShares + Pi.single account (-a.vestingShares)) 0 0 0 := by
    apply (hmoves₃.trans hmoves₄).congr
    . exact fun _ => rfl
    . omega
    . rfl
    . rfl
  refine ⟨hsolvent₂.moves hmoved (hsolvent₂.toBacked.congr hmoved) rfl ?_,
    hterminated.draws.trans hmoved.draws⟩
  intro n
  have hn := hsolvent₂.nonneg n
  have hvests := hsolvent₂.nonneg account
  rw [hshares₂] at hvests
  rw [Pi.add_apply, Pi.single_apply, Pi.single_apply]
  by_cases heq : n = account
  . subst heq
    rw [if_neg hne, if_pos rfl, hshares₂]
    omega
  . rw [if_neg heq]
    split
    . omega
    . omega

open LiberationHardfork in
theorem Solvent.liberateGolosClassic (h : s.Solvent) (hliberate : s.liberateGolosClassic = .ok s') :
    s'.Solvent ∧ Draws s s' := by
  have hoverlooks := overlooks_movesShares
  unfold Staking.liberateGolosClassic at hliberate
  split at hliberate
  . rw [pure_eq_ok] at hliberate
    exact hliberate ▸ ⟨h, .refl s⟩
  . simp only [getAccount, bind_eq_ok, get_eq_ok] at hliberate
    obtain ⟨_, -, _, -, s₁, hs₁, a, ha, steem, hsteem, s₂, hs₂, s₃, hs₃, s₄, hs₄, _, -, _, -,
      hliberate⟩ := hliberate
    have hne : ∀ account ∈ accountsForFreeze, account ≠ accReferendum := by decide
    obtain ⟨hsolvent₁, hdraws₁, -⟩ := foldlM_invariant (P := fun t l => t.Solvent ∧ Draws s t ∧
      ∀ account ∈ l, account ≠ accReferendum) (by
        rintro t t' account l ⟨ht, hdraws, hl⟩ hfreeze
        obtain ⟨ht', hdraws'⟩ := ht.freezeAccount (hl account List.mem_cons_self) hfreeze
        exact ⟨ht', hdraws.trans hdraws', fun b hb => hl b (List.mem_cons_of_mem _ hb)⟩)
      ⟨h, .refl s, hne⟩ hs₁
    have hmoves : MovesShares s₁ s₄ (Pi.single accReferendum (-a.vestingShares))
        (-a.vestingShares) (-a.vestingShares) (-steem) := by
      apply ((hoverlooks.addBalance hs₂).trans
        ((MovesShares.addVestingShares hs₃).trans (.subTotals hs₄))).congr
      . intro n
        rw [zero_add, add_zero]
      . omega
      . omega
      . omega
    obtain ⟨hsolvent₄, hdraws₄⟩ :=
      hsolvent₁.burn (sharesOf_of_find? ha).symm rfl hsteem hmoves
    have hpaid := hoverlooks.foldlM (fun _ _ _ => hoverlooks.transferBeneficiary) hliberate
    exact ⟨hsolvent₄.congr hpaid, hdraws₁.trans (hdraws₄.trans hpaid.draws)⟩

theorem MovesShares.setWithdrawVestingRoute {op : SetWithdrawVestingRouteOperation}
    (h : s.setWithdrawVestingRoute op = .ok s') : MovesShares s s' 0 0 0 0 := by
  simp only [Staking.setWithdrawVestingRoute, bind_eq_ok, pure_eq_ok] at h
  obtain ⟨-, -, _, -, _, -, s₁, hs₁, -, -, rfl⟩ := h
  split at hs₁
  . simp only [bind_eq_ok] at hs₁
    obtain ⟨-, -, -, -, routes, -, hs₁⟩ := hs₁
    have hroutes : MovesShares s { s with routes := routes } 0 0 0 0 := .of_eq rfl rfl rfl
    have hmodify : MovesShares { s with routes := routes } s₁ 0 0 0 0 := by
      refine MovesShares.modifyAccount_same ?_ hs₁
      intro a a' ha
      rw [pure_eq_ok] at ha
      exact ha ▸ ⟨rfl, rfl⟩
    exact overlooks_movesShares.trans hroutes hmodify
  . split at hs₁
    . have hroutes : MovesShares s
          { s with routes := s.routes.erase (op.fromAccount, op.toAccount) } 0 0 0 0 :=
        .of_eq rfl rfl rfl
      have hmodify : MovesShares
          { s with routes := s.routes.erase (op.fromAccount, op.toAccount) } s₁ 0 0 0 0 := by
        refine MovesShares.modifyAccount_same ?_ hs₁
        intro a a' ha
        rw [pure_eq_ok] at ha
        exact ha ▸ ⟨rfl, rfl⟩
      exact overlooks_movesShares.trans hroutes hmodify
    . rw [pure_eq_ok] at hs₁
      subst hs₁
      exact .of_eq rfl rfl rfl

theorem MovesShares.resetVestingWithdraw {account : AccountName}
    (h : s.resetVestingWithdraw account = .ok s') : MovesShares s s' 0 0 0 0 := by
  simp only [Staking.resetVestingWithdraw, stopWithdraw, bind_eq_ok, pure_eq_ok] at h
  obtain ⟨s₁, hs₁, rfl⟩ := h
  rw [removeVestingRoutes_eq]
  refine MovesShares.modifyAccount_same ?_ hs₁
  intro a a' ha
  rw [pure_eq_ok] at ha
  exact ha ▸ ⟨rfl, rfl⟩

theorem sharesOf_elsewhere (h : s.Elsewhere s') (n : AccountName) :
    s'.sharesOf n = s.sharesOf n := by
  unfold sharesOf counter
  cases ha : s.accounts.find? n with
  | none =>
    cases ha' : s'.accounts.find? n with
    | none => rfl
    | some a' => exact (h.new n a' ha ha').2
  | some a =>
    obtain ⟨a', ha'⟩ := mem_names_iff.mp (h.names.subset (mem_names_iff.mpr ⟨a, ha⟩))
    rw [ha']
    exact (h.old n a a' ha ha').vestingShares

theorem sumShares_elsewhere (h : s.Elsewhere s') : s'.sumShares = s.sumShares := by
  obtain ⟨new, hnew⟩ := h.names
  rw [sumShares_eq, sumShares_eq, ← hnew, List.map_append, List.sum_append]
  have hold : s.names.map s'.sharesOf = s.names.map s.sharesOf := by
    apply List.map_congr_left
    intro n _
    exact sharesOf_elsewhere h n
  have hzero : (new.map s'.sharesOf).sum = 0 := by
    apply List.sum_eq_zero
    intro x hx
    obtain ⟨n, hn, rfl⟩ := List.mem_map.mp hx
    have hnodup : s'.names.Nodup := s'.accounts.nodup
    rw [← hnew, List.nodup_append] at hnodup
    rw [sharesOf_elsewhere h]
    unfold sharesOf counter
    split
    . next a ha => exact absurd rfl (hnodup.2.2 n (mem_names_iff.mpr ⟨a, ha⟩) n hn)
    . rfl
  rw [hold, hzero, Int.add_zero]

end events

section run

/-- Elsewhere, shares are not created and the fund is only added to. -/
def VestingStep (s : Staking) (e : StakeEvent) (s' : Staking) : Prop :=
  s.Step e s' ∧ (e = .other → s'.totalVestingShares = s.totalVestingShares ∧
    s.totalVestingFundSteem ≤ s'.totalVestingFundSteem ∧ s'.totalVestingFundSteem ≤ maxInt64)

def vesting : TransitionSystem Staking StakeEvent where
  initial s := s.Unused ∧ s.Backed ∧ s.sumShares = s.totalVestingShares
  step := VestingStep

/-- New shares fit, and withdrawals are covered. -/
def Safe (s : Staking) : StakeEvent → Prop
  | .accountCreateWithDelegation op =>
    s.Fits (op.fee.amount - s.medianProps.createAccountMinGolosFee)
  | .payDelegators delegatee rates claim =>
    TransitionSystem.Along (Staking.payDelegator delegatee claim) (PayFits claim) s rates
  | .createVesting _ steem => s.Fits steem
  | .processVestingWithdrawals =>
    CoversFrom
      (s.accounts.rows.length * (s.headBlockTime / steemitVestingWithdrawIntervalSeconds + 2)) s
      (s.byNextVestingWithdrawal.head?.map StakeAccountObject.name)
  | _ => True

theorem Grows.notDiluted (h : Grows s s') : NotDiluted s s' :=
  fun hpos _ => h.ratio hpos

theorem Draws.notDiluted (h : Draws s s') : NotDiluted s s' :=
  fun _ hpos => h.ratio hpos

theorem Solvent.elsewhere (h : s.Solvent) (hstep : VestingStep s .other s') :
    s'.Solvent ∧ NotDiluted s s' := by
  obtain ⟨helsewhere, hfund⟩ := hstep
  obtain ⟨hshares, hfund, hmax⟩ := hfund rfl
  refine ⟨⟨⟨h.fund_nonneg.trans hfund, hmax, hshares ▸ h.shares_nonneg, hshares ▸ h.shares_le, ?_⟩,
    ?_, ?_⟩, ?_⟩
  . rw [hshares]
    exact fun hpos => (h.backed hpos).trans_le hfund
  . rw [sumShares_elsewhere helsewhere, hshares]
    exact h.sum
  . intro n
    rw [sharesOf_elsewhere helsewhere]
    exact h.nonneg n
  . intro _ _
    rw [hshares]
    exact Int.mul_le_mul_of_nonneg_right hfund h.shares_nonneg

theorem Solvent.step {e : StakeEvent} (h : s.Solvent) (hroutes : s.RoutesBounded)
    (hsafe : s.Safe e) (hstep : VestingStep s e s') : s'.Solvent ∧ NotDiluted s s' := by
  have hoverlooks := overlooks_movesShares
  have hkept : MovesShares s s' 0 0 0 0 → s'.Solvent ∧ NotDiluted s s' := by
    intro hmoves
    exact ⟨h.congr hmoves, hmoves.grows.notDiluted⟩
  cases e with
  | delegateVestingShares op => exact hkept (hoverlooks.delegateVestingSharesOp hstep.1)
  | delegateVestingSharesWithInterest op =>
    exact hkept (hoverlooks.delegateVestingSharesWithInterest hstep.1)
  | rejectVestingSharesDelegation op =>
    exact hkept (hoverlooks.rejectVestingSharesDelegation hstep.1)
  | accountCreateWithDelegation op =>
    obtain ⟨hsolvent, hgrows⟩ := h.accountCreateWithDelegation hsafe hstep.1
    exact ⟨hsolvent, hgrows.notDiluted⟩
  | withdrawVesting op => exact hkept (hoverlooks.withdrawVesting hstep.1)
  | setWithdrawVestingRoute op => exact hkept (.setWithdrawVestingRoute hstep.1)
  | recoverAccount account => exact hkept (.resetVestingWithdraw hstep.1)
  | payDelegators delegatee rates claim =>
    obtain ⟨hsolvent, hgrows⟩ := h.payDelegators hsafe hstep.1
    exact ⟨hsolvent, hgrows.notDiluted⟩
  | createVesting toAccount steem =>
    obtain ⟨⟨hsteem, _, hcreate⟩, _⟩ := hstep
    obtain ⟨hsolvent, hgrows⟩ := h.createVesting hsteem hsafe hcreate
    exact ⟨hsolvent, hgrows.notDiluted⟩
  | clearExpiredDelegations => exact hkept (hoverlooks.clearExpiredDelegations hstep.1)
  | processVestingWithdrawals =>
    obtain ⟨hsolvent, hdraws⟩ := solvent_of_turns h hroutes hsafe hstep.1
    exact ⟨hsolvent, hdraws.notDiluted⟩
  | checkAccountIdleness => exact hkept (hoverlooks.checkAccountIdleness hstep.1)
  | clearNullAccountBalance =>
    obtain ⟨hsolvent, hdraws⟩ := h.clearNullAccountBalance hstep.1
    exact ⟨hsolvent, hdraws.notDiluted⟩
  | liberateGolosClassic =>
    obtain ⟨hsolvent, hdraws⟩ := h.liberateGolosClassic hstep.1
    exact ⟨hsolvent, hdraws.notDiluted⟩
  | other => exact h.elsewhere hstep

theorem RoutesBounded.step {e : StakeEvent} (h : s.RoutesBounded) (hstep : s.Step e s') :
    s'.RoutesBounded := by
  by_cases he : ∃ op, e = .setWithdrawVestingRoute op
  . obtain ⟨op, rfl⟩ := he
    exact h.setWithdrawVestingRoute hstep
  . apply h.congr (keepsRoutes_of_step _ hstep)
    intro op heq
    exact he ⟨op, heq⟩

theorem routesBounded_of_reach {ok : Staking → StakeEvent → Prop} (h : vesting.Reach ok s) :
    s.RoutesBounded := by
  apply h.invariant
  . rintro s ⟨hunused, -⟩
    refine ⟨?_, ?_⟩
    . rw [hunused.routes]
      exact fun r hr => absurd hr List.not_mem_nil
    . intro name
      unfold sumSeen sumRoutes
      rw [hunused.routes, Table.sum_empty]
      decide
  . intro s e s' hs _ hstep
    exact hs.step hstep.1

theorem solvent_of_reach (h : vesting.Reach Safe s) : s.Solvent := by
  refine h.invariant_of (fun _ => routesBounded_of_reach) ?_ ?_
  . rintro s ⟨hunused, hbacked, hsum⟩
    refine ⟨hbacked, hsum, ?_⟩
    intro n
    unfold sharesOf counter
    split
    . next a ha => exact (hunused.accounts a (Table.mem_of_find? ha)).2
    . exact le_rfl
  . intro s e s' hroutes hs hsafe hstep
    exact (hs.step hroutes hsafe hstep).1

/-- What a share is worth, exactly. -/
def vestingRatio (s : Staking) : ℚ :=
  s.totalVestingFundSteem / s.totalVestingShares

theorem NotDiluted.ratio_le (h : NotDiluted s s') (hpos : 0 < s.totalVestingShares)
    (hpos' : 0 < s'.totalVestingShares) : s.vestingRatio ≤ s'.vestingRatio := by
  unfold vestingRatio
  rw [div_le_div_iff₀ (by exact_mod_cast hpos) (by exact_mod_cast hpos')]
  exact_mod_cast h hpos hpos'

/--
As long as new shares fit and withdrawals are covered, the shares of all accounts add up to the
total, neither total is negative, and no step, nor any turn of the loop over withdrawals, makes a
share worth less.
-/
theorem vesting_of_reach (h : vesting.Reach Safe s) :
    s.sumShares = s.totalVestingShares ∧ 0 ≤ s.totalVestingShares ∧
      0 ≤ s.totalVestingFundSteem ∧
      (∀ e s', s.Safe e → vesting.step s e s' → 0 < s.totalVestingShares →
        0 < s'.totalVestingShares → s.vestingRatio ≤ s'.vestingRatio) ∧
      ∀ name a s', s.accounts.find? name = some a → a.Covers →
        s.processVestingWithdrawal name = .ok s' → 0 < s'.totalVestingShares →
        s.vestingRatio ≤ s'.vestingRatio := by
  have hsolvent := solvent_of_reach h
  have hroutes := routesBounded_of_reach h
  refine ⟨hsolvent.sum, hsolvent.shares_nonneg, hsolvent.fund_nonneg, ?_, ?_⟩
  . intro e s' hsafe hstep hpos hpos'
    exact (hsolvent.step hroutes hsafe hstep).2.ratio_le hpos hpos'
  . intro name a s' ha hcovers hturn hpos'
    have hdraws := (solvent_of_turn hsolvent hroutes ha hcovers hturn).2
    exact hdraws.notDiluted.ratio_le (hpos'.trans_le hdraws.shares) hpos'

/-- Time passes. -/
theorem elsewhere_headBlockTime (s : Staking) (time : Nat) :
    s.Elsewhere { s with headBlockTime := time } := by
  refine ⟨rfl, rfl, rfl, rfl, List.prefix_rfl, ?_, ?_⟩
  . intro name a a' ha ha'
    obtain rfl := Option.some.inj (ha.symm.trans ha')
    exact ⟨rfl, rfl, rfl, rfl, rfl, rfl, rfl, rfl, rfl, rfl⟩
  . intro name a' ha ha'
    cases ha.symm.trans ha'

section burnt

/-- Shares of Alice, in a fund that they do not divide. -/
def savedStake : Staking where
  accounts :=
    ⟨
      [
        { name := "miners" },
        { name := "null" },
        { name := "alice", vestingShares := 1000000000 },
        { name := "bob" }
      ],
      by decide
    ⟩
  totalVestingFundSteem := 1000003
  totalVestingShares := 1000000000
  headBlockTime := 1000

theorem initial_savedStake : vesting.initial savedStake :=
  ⟨.of_rows ⟨rfl, rfl, rfl⟩ (by decide),
    ⟨by decide, by decide, by decide, by decide, by decide⟩, by decide⟩

/-- Shares of Alice go to Bob in steem, and to null as they are. -/
def routeOfAlice (toAccount : AccountName) (autoVest : Bool) : SetWithdrawVestingRouteOperation where
  fromAccount := "alice"
  toAccount := toAccount
  percent := 2500
  autoVest := autoVest

def withdrawalOfAlice : WithdrawVestingOperation where
  account := "alice"
  vestingShares := ⟨400000000, vestsSymbol⟩

/-- Shares are created for Bob, and Alice's withdrawal is due. -/
def dueStake : Staking :=
  (do
    let (s, _) ← savedStake.createVesting "bob" 1000
    let s ← s.setWithdrawVestingRoute (routeOfAlice "bob" false)
    let s ← s.setWithdrawVestingRoute (routeOfAlice "null" true)
    let s ← s.withdrawVesting withdrawalOfAlice
    pure { s with headBlockTime := s.headBlockTime + 604800 }).toOption.getD {}

def drawnStake : Staking :=
  dueStake.processVestingWithdrawals.toOption.getD {}

/-- What null got of the withdrawal is burnt. -/
def burntStake : Staking :=
  drawnStake.clearNullAccountBalance.toOption.getD {}

theorem reach_dueStake : vesting.Reach Safe dueStake := by
  have hall : (do
      let (s, _) ← savedStake.createVesting "bob" 1000
      let s ← s.setWithdrawVestingRoute (routeOfAlice "bob" false)
      let s ← s.setWithdrawVestingRoute (routeOfAlice "null" true)
      let s ← s.withdrawVesting withdrawalOfAlice
      pure { s with headBlockTime := s.headBlockTime + 604800 }) = .ok dueStake :=
    eq_ok_of_isSome (by decide +kernel)
  simp only [bind_eq_ok, pure_eq_ok] at hall
  obtain ⟨p, hp, s₁, hs₁, s₂, hs₂, s₃, hs₃, hdue⟩ := hall
  have hcreated : vesting.Reach Safe p.1 :=
    .step (e := .createVesting "bob" 1000) (.initial initial_savedStake)
      (by unfold Safe Fits; decide) ⟨⟨by decide, p.2, hp⟩, by intro he; cases he⟩
  have hbob : vesting.Reach Safe s₁ :=
    .step (e := .setWithdrawVestingRoute _) hcreated trivial ⟨hs₁, by intro he; cases he⟩
  have hnull : vesting.Reach Safe s₂ :=
    .step (e := .setWithdrawVestingRoute _) hbob trivial ⟨hs₂, by intro he; cases he⟩
  have hwithdrawal : vesting.Reach Safe s₃ :=
    .step (e := .withdrawVesting _) hnull trivial ⟨hs₃, by intro he; cases he⟩
  rw [← hdue]
  have hfund : s₃.totalVestingFundSteem ≤ maxInt64 := (solvent_of_reach hwithdrawal).fund_le
  exact .step (e := .other) hwithdrawal trivial
    ⟨elsewhere_headBlockTime s₃ _, fun _ => ⟨rfl, le_rfl, hfund⟩⟩

theorem reach_burntStake : vesting.Reach Safe burntStake := by
  have hdrawn : vesting.Reach Safe drawnStake :=
    .step (e := .processVestingWithdrawals) reach_dueStake
      (show CoversFrom _ dueStake _ by decide +kernel)
      ⟨eq_ok_of_isSome (by decide +kernel), by intro he; cases he⟩
  exact .step (e := .clearNullAccountBalance) hdrawn trivial
    ⟨eq_ok_of_isSome (by decide +kernel), by intro he; cases he⟩

/-- Shares have been created, withdrawn over routes, and burnt. -/
theorem vesting_of_reach_burnt :
    savedStake.totalVestingShares < dueStake.totalVestingShares ∧
      drawnStake.totalVestingShares < dueStake.totalVestingShares ∧
      burntStake.totalVestingShares < drawnStake.totalVestingShares ∧
      burntStake.sumShares = burntStake.totalVestingShares ∧ 0 ≤ burntStake.totalVestingShares ∧
      0 ≤ burntStake.totalVestingFundSteem ∧
      (∀ e s', burntStake.Safe e → vesting.step burntStake e s' →
        0 < burntStake.totalVestingShares → 0 < s'.totalVestingShares →
        burntStake.vestingRatio ≤ s'.vestingRatio) ∧
      ∀ name a s', burntStake.accounts.find? name = some a → a.Covers →
        burntStake.processVestingWithdrawal name = .ok s' → 0 < s'.totalVestingShares →
        burntStake.vestingRatio ≤ s'.vestingRatio :=
  ⟨by decide +kernel, by decide +kernel, by decide +kernel, vesting_of_reach reach_burntStake⟩

end burnt

section overdrawn

/-- Only alice has shares, and null is idle. -/
def quietStake : Staking where
  accounts :=
    ⟨
      [
        { name := "miners" },
        { name := "null" },
        { name := "alice", vestingShares := 100000, lastActiveOperation := 1700000000 }
      ],
      by decide
    ⟩
  totalVestingFundSteem := 100
  totalVestingShares := 100000
  medianProps := { accountIdlenessTime := 1000 }
  headBlockNum := golosAccountIdlenessCheckInterval
  headBlockTime := 1700000000

theorem initial_quietStake : vesting.initial quietStake :=
  ⟨.of_rows ⟨rfl, rfl, rfl⟩ (by decide),
    ⟨by decide, by decide, by decide, by decide, by decide⟩, by decide⟩

/-- A block in which null is rewarded and then found idle. -/
def idleNull (s : Staking) : Result Staking := do
  let (s, _) ← s.createVesting nullAccount 30004000
  s.checkAccountIdleness

/-- A week later: what null has is burnt, it is rewarded, and its withdrawal is due. -/
def week (s : Staking) (reward : ℤ) : Result Staking := do
  let s : Staking := { s with headBlockTime := s.headBlockTime + 604800 }
  let s ← s.clearNullAccountBalance
  let (s, _) ← s.createVesting nullAccount reward
  s.processVestingWithdrawals

theorem reachable_week {reward : ℤ} (h : vesting.Reachable s) (hreward : 0 ≤ reward)
    (hfund : s.totalVestingFundSteem ≤ maxInt64) (hweek : s.week reward = .ok s') :
    vesting.Reachable s' := by
  simp only [week, bind_eq_ok] at hweek
  obtain ⟨s₁, hs₁, p, hp, hs'⟩ := hweek
  have htime : vesting.Reachable { s with headBlockTime := s.headBlockTime + 604800 } :=
    .step (e := .other) h trivial
      ⟨elsewhere_headBlockTime s _, fun _ => ⟨rfl, le_rfl, hfund⟩⟩
  have hburnt : vesting.Reachable s₁ :=
    .step (e := .clearNullAccountBalance) htime trivial ⟨hs₁, by intro he; cases he⟩
  have hrewarded : vesting.Reachable p.1 :=
    .step (e := .createVesting nullAccount reward) hburnt trivial
      ⟨⟨hreward, p.2, hp⟩, by intro he; cases he⟩
  exact .step (e := .processVestingWithdrawals) hrewarded trivial ⟨hs', by intro he; cases he⟩

def idleStake : Staking :=
  quietStake.idleNull.toOption.getD {}

def firstWeek : Staking :=
  (idleStake.week 1001).toOption.getD {}

def secondWeek : Staking :=
  (firstWeek.week 1001).toOption.getD {}

def thirdWeek : Staking :=
  (secondWeek.week 1001).toOption.getD {}

def fourthWeek : Staking :=
  (thirdWeek.week 1).toOption.getD {}

/-- The last turn withdraws all that remains, of which null has a thousandth. -/
theorem totals_overdrawn :
    vesting.Reachable fourthWeek ∧ fourthWeek.totalVestingShares < 0 ∧
      fourthWeek.totalVestingFundSteem < 0 := by
  have hidle : vesting.Reachable idleStake := by
    have hall : quietStake.idleNull = .ok idleStake := eq_ok_of_isSome (by decide +kernel)
    simp only [idleNull, bind_eq_ok] at hall
    obtain ⟨p, hp, hcheck⟩ := hall
    have hrewarded : vesting.Reachable p.1 :=
      .step (e := .createVesting nullAccount 30004000) (.initial initial_quietStake) trivial
        ⟨⟨by decide, p.2, hp⟩, by intro he; cases he⟩
    exact .step (e := .checkAccountIdleness) hrewarded trivial ⟨hcheck, by intro he; cases he⟩
  have hfirst : vesting.Reachable firstWeek :=
    reachable_week hidle (by decide) (by decide +kernel) (eq_ok_of_isSome (by decide +kernel))
  have hsecond : vesting.Reachable secondWeek :=
    reachable_week hfirst (by decide) (by decide +kernel) (eq_ok_of_isSome (by decide +kernel))
  have hthird : vesting.Reachable thirdWeek :=
    reachable_week hsecond (by decide) (by decide +kernel) (eq_ok_of_isSome (by decide +kernel))
  have hfourth : vesting.Reachable fourthWeek :=
    reachable_week hthird (by decide) (by decide +kernel) (eq_ok_of_isSome (by decide +kernel))
  exact ⟨hfourth, by decide +kernel, by decide +kernel⟩

end overdrawn

end run

end Staking

end Golos
