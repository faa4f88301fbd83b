import Golos.Staking.Lemmas.Routes

/-!
This module contains the routes of withdrawals over whole runs: how they are counted, what they add
up to, which of them a withdrawal follows, and what the recovery of an account does to them.
-/

namespace Golos

open Checked

namespace Staking

variable {s s' s'' : Staking}

/-- A property of all routes of an account, summed over them. -/
def sumRoutes (s : Staking) (name : AccountName) (f : WithdrawVestingRouteObject → ℤ) : ℤ :=
  s.routes.sum fun r => if r.fromAccount = name then f r else 0

section ids

theorem accountId_eq (s : Staking) (name : AccountName) :
    s.accountId name = s.names.findIdx fun n => n = name := by
  unfold accountId names
  rw [List.findIdx_map]
  rfl

theorem mem_names_iff {name : AccountName} :
    name ∈ s.names ↔ ∃ a, s.accounts.find? name = some a := by
  simp only [names, List.mem_map, Table.find?_eq_some_iff]

/-- An account keeps its id when others are created. -/
theorem accountId_of_names (h : s.names <+: s'.names) {name : AccountName} (hin : name ∈ s.names) :
    s'.accountId name = s.accountId name := by
  rw [accountId_eq, accountId_eq]
  apply List.IsPrefix.findIdx_eq_of_findIdx_lt_length h
  rw [List.findIdx_lt_length]
  exact ⟨name, hin, decide_eq_true rfl⟩

end ids

/-- The routes that the loop over an index with the id 0 as a bound takes are all of an account. -/
theorem perm_routesOf {name : AccountName} (hseen : ∀ r ∈ s.routes.rows, 0 < s.accountId r.toAccount) :
    (s.routesOf name).Perm (s.routes.rows.filter fun r => r.fromAccount = name) := by
  unfold routesOf
  apply (List.perm_insertionSort _ _).trans
  rw [List.filter_congr]
  intro r hr
  simp [hseen r hr]

theorem sum_routesOf {name : AccountName} (hseen : ∀ r ∈ s.routes.rows, 0 < s.accountId r.toAccount) :
    (((s.routesOf name).map WithdrawVestingRouteObject.percent).sum : ℤ)
      = s.sumRoutes name fun r => r.percent := by
  rw [((perm_routesOf hseen).map _).sum_eq]
  unfold sumRoutes Table.sum
  induction s.routes.rows with
  | nil => rfl
  | cons r l ih =>
    rw [List.map_cons, List.sum_cons, ← ih, List.filter_cons]
    split
    . next hr => simp [of_decide_eq_true hr]
    . next hr => simp [of_decide_eq_false (Bool.eq_false_iff.mpr hr)]

/-- Routes are counted, add up to no more than the whole, and lead to accounts that are seen. -/
structure RoutesInv (s : Staking) : Prop where
  count : ∀ name, s.counter (fun a => a.withdrawRoutes) name = s.sumRoutes name fun _ => 1
  percent : ∀ name, s.sumRoutes name (fun r => r.percent) ≤ steemit100Percent
  toAccount : ∀ r ∈ s.routes.rows, r.toAccount ∈ s.names
  seen : ∀ r ∈ s.routes.rows, 0 < s.accountId r.toAccount

/-- Routes to the account with the id 0 are left out. -/
def SeenRoutes (s : Staking) : StakeEvent → Prop
  | .setWithdrawVestingRoute op => 0 < s.accountId op.toAccount
  | _ => True

theorem RoutesInv.congr (h : s.RoutesInv) (hkeeps : KeepsRoutes s s') : s'.RoutesInv where
  count := by
    intro name
    unfold sumRoutes
    rw [hkeeps.withdrawRoutes, hkeeps.routes]
    exact h.count name
  percent := by
    unfold sumRoutes
    rw [hkeeps.routes]
    exact h.percent
  toAccount := by
    rw [hkeeps.routes]
    intro r hr
    exact hkeeps.names.subset (h.toAccount r hr)
  seen := by
    rw [hkeeps.routes]
    intro r hr
    rw [accountId_of_names hkeeps.names (h.toAccount r hr)]
    exact h.seen r hr

section setRoute

/-- What `set_withdraw_vesting_route` does to the routes and the number of routes of `name`. -/
structure SetsRoute (s s' : Staking) (name : AccountName)
    (t : Table WithdrawVestingRouteObject.byWithdrawRoute) (delta : ℤ) : Prop where
  routes : s'.routes = t
  names : s'.names = s.names
  withdrawRoutes : ∀ n, s'.counter (fun a => a.withdrawRoutes) n
    = s.counter (fun a => a.withdrawRoutes) n + if n = name then delta else 0

theorem SetsRoute.modifyAccount {name : AccountName} {f : Nat → Nat} {delta : ℤ}
    {t : Table WithdrawVestingRouteObject.byWithdrawRoute}
    (hf : ∀ a, s.accounts.find? name = some a →
      (f a.withdrawRoutes : ℤ) = a.withdrawRoutes + delta)
    (h : modifyAccount { s with routes := t } name (fun a => pure
      { a with withdrawRoutes := f a.withdrawRoutes }) = .ok s') : SetsRoute s s' name t delta := by
  have hnames := names_modifyAccount h
  obtain ⟨a, a', u, hrow, ha', hupdates, rfl⟩ := updates_of_modifyAccount (by
    intro a a' ha
    rw [pure_eq_ok] at ha
    exact ha ▸ rfl) h
  rw [pure_eq_ok] at ha'
  have hname : a.name = name := Table.key_of_find? hrow
  have hdelta := hf a hrow
  have hchange : (a'.withdrawRoutes : ℤ) - a.withdrawRoutes = delta := by
    rw [← ha']
    simp only
    omega
  refine ⟨rfl, hnames, ?_⟩
  intro n
  rw [counter_updates hupdates, hchange, hname]
  rfl

/-- A route is created, removed or changed, and then the routes that are seen are added up. -/
theorem setWithdrawVestingRoute_cases {op : SetWithdrawVestingRouteOperation}
    (hcount : 1 ≤ s.counter (fun a => a.withdrawRoutes) op.fromAccount ∨
      s.routes.find? (op.fromAccount, op.toAccount) = none)
    (h : s.setWithdrawVestingRoute op = .ok s') :
    op.toAccount ∈ s.names ∧
    ((s'.routesOf op.fromAccount).map WithdrawVestingRouteObject.percent).sum
      ≤ steemit100Percent ∧
    ((∃ t, s.routes.Inserts t ⟨op.fromAccount, op.toAccount, op.percent, op.autoVest⟩ ∧
        SetsRoute s s' op.fromAccount t 1) ∨
      (∃ r, s.routes.find? (op.fromAccount, op.toAccount) = some r ∧
        SetsRoute s s' op.fromAccount (s.routes.erase (op.fromAccount, op.toAccount)) (-1)) ∨
      (∃ r t, s.routes.find? (op.fromAccount, op.toAccount) = some r ∧
        s.routes.Updates t r { r with percent := op.percent, autoVest := op.autoVest } ∧
        SetsRoute s s' op.fromAccount t 0)) := by
  simp only [Staking.setWithdrawVestingRoute, getAccount, bind_eq_ok, ensure_eq_ok, get_eq_ok,
    pure_eq_ok] at h
  obtain ⟨-, -, a, ha, b, hb, s₁, hs₁, -, hsum, rfl⟩ := h
  refine ⟨mem_names_iff.mpr ⟨b, hb⟩, hsum, ?_⟩
  split at hs₁
  . simp only [bind_eq_ok, get_eq_ok] at hs₁
    obtain ⟨-, -, -, -, t, ht, hs₁⟩ := hs₁
    refine .inl ⟨t, .emplace ht, SetsRoute.modifyAccount (f := fun n => n + 1) ?_ hs₁⟩
    intro a _
    omega
  . next r hr =>
    split at hs₁
    . refine .inr (.inl ⟨r, hr, SetsRoute.modifyAccount (f := fun n => n - 1) ?_ hs₁⟩)
      intro a ha
      rcases hcount with hcount | hnone
      . simp only [counter, ha] at hcount
        omega
      . rw [hr] at hnone
        cases hnone
    . rw [pure_eq_ok] at hs₁
      subst hs₁
      refine .inr (.inr ⟨r, _, hr, .modify _ hr, rfl, rfl, ?_⟩)
      intro n
      simp [counter]

theorem RoutesInv.count_pos (h : s.RoutesInv) {r : WithdrawVestingRouteObject}
    (hr : r ∈ s.routes.rows) : 1 ≤ s.counter (fun a => a.withdrawRoutes) r.fromAccount := by
  rw [h.count]
  have := s.routes.le_sum (f := fun r' => if r'.fromAccount = r.fromAccount then 1 else 0)
    (by intro r' _; split <;> omega) hr
  simpa [sumRoutes] using this

/-- The routes after the operation lead to seen accounts, so the check has added up all of them. -/
theorem RoutesInv.setRoute {op : SetWithdrawVestingRouteOperation} {delta : ℤ}
    {t : Table WithdrawVestingRouteObject.byWithdrawRoute} (h : s.RoutesInv)
    (hset : SetsRoute s s' op.fromAccount t delta) (hto : op.toAccount ∈ s.names)
    (hseen : 0 < s.accountId op.toAccount)
    (hmem : ∀ r ∈ t.rows, r ∈ s.routes.rows ∨ r.toAccount = op.toAccount)
    (hcount : ∀ n, t.sum (fun r => if r.fromAccount = n then 1 else 0)
      = s.routes.sum (fun r => if r.fromAccount = n then 1 else 0)
        + if n = op.fromAccount then delta else 0)
    (hothers : ∀ n, n ≠ op.fromAccount →
      t.sum (fun r => if r.fromAccount = n then (r.percent : ℤ) else 0)
        = s.routes.sum (fun r => if r.fromAccount = n then (r.percent : ℤ) else 0))
    (hsum : ((s'.routesOf op.fromAccount).map WithdrawVestingRouteObject.percent).sum
      ≤ steemit100Percent) : s'.RoutesInv := by
  have hid : ∀ n ∈ s.names, s'.accountId n = s.accountId n := by
    intro n hn
    exact accountId_of_names (hset.names ▸ List.prefix_rfl) hn
  have hseen' : ∀ r ∈ s'.routes.rows, 0 < s'.accountId r.toAccount := by
    intro r hr
    rw [hset.routes] at hr
    rcases hmem r hr with hold | heq
    . rw [hid _ (h.toAccount r hold)]
      exact h.seen r hold
    . rw [heq, hid _ hto]
      exact hseen
  refine ⟨?_, ?_, ?_, hseen'⟩
  . intro n
    unfold sumRoutes
    rw [hset.withdrawRoutes, hset.routes, hcount, h.count]
    rfl
  . intro n
    by_cases heq : n = op.fromAccount
    . rw [heq, ← sum_routesOf hseen']
      exact_mod_cast hsum
    . unfold sumRoutes
      rw [hset.routes, hothers n heq]
      exact h.percent n
  . intro r hr
    rw [hset.names]
    rw [hset.routes] at hr
    rcases hmem r hr with hold | heq
    . exact h.toAccount r hold
    . exact heq ▸ hto

theorem RoutesInv.setWithdrawVestingRoute {op : SetWithdrawVestingRouteOperation}
    (h : s.RoutesInv) (hseen : 0 < s.accountId op.toAccount)
    (hset : s.setWithdrawVestingRoute op = .ok s') : s'.RoutesInv := by
  have hcount : 1 ≤ s.counter (fun a => a.withdrawRoutes) op.fromAccount ∨
      s.routes.find? (op.fromAccount, op.toAccount) = none := by
    cases hr : s.routes.find? (op.fromAccount, op.toAccount) with
    | none => exact .inr rfl
    | some r =>
      have hkey := Table.key_of_find? hr
      have := h.count_pos (Table.mem_of_find? hr)
      rw [show r.fromAccount = op.fromAccount from congrArg Prod.fst hkey] at this
      exact .inl this
  obtain ⟨hto, hsum, hcases⟩ := setWithdrawVestingRoute_cases hcount hset
  rcases hcases with ⟨t, hinserts, hset⟩ | ⟨r, hr, hset⟩ | ⟨r, t, hr, hupdates, hset⟩
  . apply h.setRoute hset hto hseen _ _ _ hsum
    . intro r hr
      rcases (hinserts.mem r).mp hr with hr | rfl
      . exact .inl hr
      . exact .inr rfl
    . intro n
      rw [hinserts.sum]
      simp only [eq_comm (a := n)]
    . intro n hn
      rw [hinserts.sum]
      simp [Ne.symm hn]
  . have hkey := Table.key_of_find? hr
    have hfrom : r.fromAccount = op.fromAccount := congrArg Prod.fst hkey
    apply h.setRoute hset hto hseen _ _ _ hsum
    . intro r' hr'
      exact .inl (Table.mem_erase.mp hr').1
    . intro n
      rw [Table.sum_erase _ _ hr, hfrom]
      simp only [eq_comm (a := n)]
      split <;> omega
    . intro n hn
      rw [Table.sum_erase _ _ hr, hfrom]
      simp [Ne.symm hn]
  . have hkey := Table.key_of_find? hr
    have hfrom : r.fromAccount = op.fromAccount := congrArg Prod.fst hkey
    have hto' : r.toAccount = op.toAccount := congrArg Prod.snd hkey
    apply h.setRoute hset hto hseen _ _ _ hsum
    . intro r' hr'
      have hfind := Table.find?_of_mem hr'
      rw [hupdates.find?] at hfind
      split at hfind
      . injection hfind with hfind
        rw [← hfind]
        exact .inr hto'
      . exact .inl (Table.mem_of_find? hfind)
    . intro n
      rw [hupdates.sum]
      simp
    . intro n hn
      rw [hupdates.sum, hfrom]
      simp [Ne.symm hn]

end setRoute

section recover

theorem takeWhile_dropWhile {p q : α → Bool} (h : ∀ a, q a = true → p a = true) (l : List α) :
    (l.dropWhile p).takeWhile q = [] := by
  induction l with
  | nil => rfl
  | cons a l ih =>
    rw [List.dropWhile_cons]
    split
    . exact ih
    . next hp =>
      rw [List.takeWhile_cons, if_neg]
      intro hq
      exact hp (h a hq)

/-- The loop begins behind the routes that it is about. -/
theorem removeVestingRoutes_eq (s : Staking) (account : AccountName) :
    s.removeVestingRoutes account = s := by
  unfold removeVestingRoutes upperBoundRoute
  rw [takeWhile_dropWhile]
  . rfl
  . intro r hr
    simp [of_decide_eq_true hr]

theorem KeepsRoutes.resetVestingWithdraw {account : AccountName}
    (h : s.resetVestingWithdraw account = .ok s') : KeepsRoutes s s' := by
  simp only [Staking.resetVestingWithdraw, stopWithdraw, bind_eq_ok, pure_eq_ok] at h
  obtain ⟨s₁, hs₁, rfl⟩ := h
  rw [removeVestingRoutes_eq]
  refine overlooks_keepsRoutes.modifyAccount_pure ?_ hs₁
  intro a
  exact ⟨rfl, rfl, rfl⟩

/-- The account withdraws nothing. -/
def Stopped (s : Staking) (account : AccountName) : Prop :=
  ∃ a, s.accounts.find? account = some a ∧ a.stopWithdrawal = a

def NoRoutes (s : Staking) (account : AccountName) : Prop :=
  ∀ r ∈ s.routes.rows, r.fromAccount ≠ account

theorem stopped_of_resetVestingWithdraw {account : AccountName}
    (h : s.resetVestingWithdraw account = .ok s') : s'.Stopped account := by
  simp only [Staking.resetVestingWithdraw, stopWithdraw, bind_eq_ok, pure_eq_ok] at h
  obtain ⟨s₁, hs₁, rfl⟩ := h
  rw [removeVestingRoutes_eq]
  obtain ⟨a, a', t, hrow, ha', hupdates, rfl⟩ := updates_of_modifyAccount (by
    intro a a' ha
    rw [pure_eq_ok] at ha
    exact ha ▸ rfl) hs₁
  rw [pure_eq_ok] at ha'
  refine ⟨a', ?_, ?_⟩
  . rw [show t.find? account = some a' by rw [hupdates.find?, Table.key_of_find? hrow, if_pos rfl]]
  . rw [← ha']
    rfl

/-- What `recover_account` does to withdrawals is what `reset_vesting_withdraw` does. -/
theorem resetVestingWithdraw_of_recoverAccount {c c' : Recovery} {op : RecoverAccountOperation}
    (h : c.recoverAccount op = .ok c') :
    c.staking.resetVestingWithdraw op.accountToRecover = .ok c'.staking := by
  simp only [Recovery.recoverAccount, Recovery.updateOwnerAuthority, bind_eq_ok, pure_eq_ok] at h
  obtain ⟨_, -, -, -, request, -, -, -, -, -, c₁, ⟨auth, -, rfl⟩, s₁, hs₁, rfl⟩ := h
  exact hs₁

end recover

section run

theorem KeepsRoutes.elsewhere (h : s.Elsewhere s') : KeepsRoutes s s' where
  routes := h.routes
  names := h.names
  withdrawRoutes := by
    intro name
    unfold counter
    cases ha : s.accounts.find? name with
    | none =>
      cases ha' : s'.accounts.find? name with
      | none => rfl
      | some a' => simp [(h.new name a' ha ha').1.withdrawRoutes]
    | some a =>
      obtain ⟨a', ha'⟩ := mem_names_iff.mp (h.names.subset (mem_names_iff.mpr ⟨a, ha⟩))
      rw [ha']
      simp [(h.old name a a' ha ha').withdrawRoutes]

/-- Only one event sets a route. -/
theorem keepsRoutes_of_step {e : StakeEvent} (he : ∀ op, e ≠ .setWithdrawVestingRoute op)
    (hstep : s.Step e s') : KeepsRoutes s s' := by
  have hoverlooks := overlooks_keepsRoutes
  cases e with
  | delegateVestingShares op => exact hoverlooks.delegateVestingSharesOp hstep
  | delegateVestingSharesWithInterest op =>
    exact hoverlooks.delegateVestingSharesWithInterest hstep
  | rejectVestingSharesDelegation op => exact hoverlooks.rejectVestingSharesDelegation hstep
  | accountCreateWithDelegation op => exact .accountCreateWithDelegation hstep
  | withdrawVesting op => exact hoverlooks.withdrawVesting hstep
  | setWithdrawVestingRoute op => exact absurd rfl (he op)
  | recoverAccount account => exact .resetVestingWithdraw hstep
  | payDelegators delegatee rates claim =>
    exact hoverlooks.foldlM (fun _ _ _ => KeepsRoutes.payDelegator) hstep
  | createVesting toAccount steem =>
    obtain ⟨-, _, hstep⟩ := hstep
    exact .createVesting hstep
  | clearExpiredDelegations => exact hoverlooks.clearExpiredDelegations hstep
  | processVestingWithdrawals => exact .processVestingWithdrawals hstep
  | checkAccountIdleness => exact hoverlooks.checkAccountIdleness hstep
  | clearNullAccountBalance => exact .clearNullAccountBalance hstep
  | liberateGolosClassic => exact .liberateGolosClassic hstep
  | other => exact .elsewhere hstep

theorem RoutesInv.step {e : StakeEvent} (h : s.RoutesInv) (hseen : SeenRoutes s e)
    (hstep : s.Step e s') : s'.RoutesInv := by
  by_cases he : ∃ op, e = .setWithdrawVestingRoute op
  . obtain ⟨op, rfl⟩ := he
    exact h.setWithdrawVestingRoute hseen hstep
  . apply h.congr (keepsRoutes_of_step _ hstep)
    intro op heq
    exact he ⟨op, heq⟩

theorem Unused.routesInv (h : s.Unused) : s.RoutesInv where
  count := by
    intro name
    unfold counter sumRoutes
    rw [h.routes, Table.sum_empty]
    split
    . next a ha =>
      simp [(h.accounts a (Table.mem_of_find? ha)).1.withdrawRoutes]
    . rfl
  percent := by
    intro name
    unfold sumRoutes
    rw [h.routes, Table.sum_empty]
    decide
  toAccount := by
    rw [h.routes]
    intro r hr
    cases hr
  seen := by
    rw [h.routes]
    intro r hr
    cases hr

theorem routesInv_of_reach (h : stake.Reach SeenRoutes s) : s.RoutesInv := by
  apply h.invariant
  . intro s hs
    exact Unused.routesInv hs
  . intro s e s' hs hok hstep
    exact hs.step hok hstep

end run

section honours

theorem counter_modifyAccount {name : AccountName} {g : StakeAccountObject → ℤ} {d : ℤ}
    {f : StakeAccountObject → Result StakeAccountObject}
    (hf : ∀ a a', f a = .ok a' → a'.name = a.name ∧ g a' = g a + d)
    (h : s.modifyAccount name f = .ok s') (n : AccountName) :
    s'.counter g n = s.counter g n + if n = name then d else 0 := by
  obtain ⟨a, a', t, hrow, ha', hupdates, rfl⟩ :=
    updates_of_modifyAccount (fun a a' h => (hf a a' h).1) h
  have hchange := (hf a a' ha').2
  rw [counter_updates hupdates, Table.key_of_find? hrow]
  split <;> omega

theorem counter_addVestingShares {name : AccountName} {delta : ℤ}
    (h : s.addVestingShares name delta = .ok s') (n : AccountName) :
    s'.counter (fun a => a.vestingShares) n
        = s.counter (fun a => a.vestingShares) n + (if n = name then delta else 0) ∧
      s'.counter (fun a => a.balance) n = s.counter (fun a => a.balance) n := by
  constructor
  . refine counter_modifyAccount ?_ h n
    intro a a' ha
    simp only [bind_eq_ok, pure_eq_ok] at ha
    obtain ⟨x, hx, rfl⟩ := ha
    exact ⟨rfl, eq_of_add64_eq_ok hx⟩
  . have := counter_modifyAccount (g := fun a => a.balance) (d := 0) (by
      intro a a' ha
      simp only [bind_eq_ok, pure_eq_ok] at ha
      obtain ⟨x, hx, rfl⟩ := ha
      exact ⟨rfl, (add_zero _).symm⟩) h n
    simpa using this

theorem counter_addBalance {name : AccountName} {delta : ℤ}
    (h : s.addBalance name delta = .ok s') (n : AccountName) :
    s'.counter (fun a => a.balance) n
        = s.counter (fun a => a.balance) n + (if n = name then delta else 0) ∧
      s'.counter (fun a => a.vestingShares) n = s.counter (fun a => a.vestingShares) n := by
  constructor
  . refine counter_modifyAccount ?_ h n
    intro a a' ha
    simp only [bind_eq_ok, pure_eq_ok] at ha
    obtain ⟨x, hx, rfl⟩ := ha
    exact ⟨rfl, eq_of_add64_eq_ok hx⟩
  . have := counter_modifyAccount (g := fun a => a.vestingShares) (d := 0) (by
      intro a a' ha
      simp only [bind_eq_ok, pure_eq_ok] at ha
      obtain ⟨x, hx, rfl⟩ := ha
      exact ⟨rfl, (add_zero _).symm⟩) h n
    simpa using this

theorem counter_subTotals {steem vests : ℤ} (h : s.subTotals steem vests = .ok s')
    (g : StakeAccountObject → ℤ) (n : AccountName) : s'.counter g n = s.counter g n := by
  simp only [Staking.subTotals, bind_eq_ok, pure_eq_ok] at h
  obtain ⟨_, -, _, -, rfl⟩ := h
  rfl

theorem payWithdrawal_changes {a a' : StakeAccountObject} {due steem : ℤ}
    (h : a.payWithdrawal due steem = .ok a') :
    a'.name = a.name ∧ a'.vestingShares = a.vestingShares + -due ∧
      a'.balance = a.balance + steem := by
  simp only [StakeAccountObject.payWithdrawal, bind_eq_ok] at h
  obtain ⟨x, hx, y, hy, z, -, h⟩ := h
  have hx := eq_of_add64_eq_ok hx
  have hy := eq_of_add64_eq_ok hy
  split at h
  . rw [pure_eq_ok] at h
    subst h
    exact ⟨rfl, hx, hy⟩
  . rw [pure_eq_ok] at h
    subst h
    exact ⟨rfl, hx, hy⟩

/-- The first pass pays the routes for vests, and nothing but vests. -/
theorem depositAsVests_pays {due : ℤ} {p p' : Staking × ℤ} {r : WithdrawVestingRouteObject}
    (h : depositAsVests due p r = .ok p') :
    ∃ deposit, routeDeposit due r = .ok deposit ∧ ∀ n,
      p'.1.counter (fun a => a.vestingShares) n = p.1.counter (fun a => a.vestingShares) n
        + (if n = r.toAccount then max deposit 0 else 0) ∧
      p'.1.counter (fun a => a.balance) n = p.1.counter (fun a => a.balance) n := by
  simp only [depositAsVests, bind_eq_ok] at h
  obtain ⟨deposit, hdeposit, _, -, h⟩ := h
  refine ⟨deposit, hdeposit, ?_⟩
  intro n
  split at h
  . next hpos =>
    simp only [bind_eq_ok, pure_eq_ok] at h
    obtain ⟨s₁, hs₁, rfl⟩ := h
    have hadd : p.1.addVestingShares r.toAccount deposit = .ok s₁ := by
      simp only [addVestingShares]
      exact hs₁
    rw [max_eq_left (by omega)]
    exact counter_addVestingShares hadd n
  . rw [pure_eq_ok] at h
    subst h
    rw [max_eq_right (by omega)]
    simp

/-- The second pass pays the routes for steem, and nothing but steem. -/
theorem depositAsSteem_pays {due : ℤ} {p p' : Staking × ℤ} {r : WithdrawVestingRouteObject}
    (h : depositAsSteem due p r = .ok p') :
    ∃ deposit steem, routeDeposit due r = .ok deposit ∧ p.1.toSteem deposit = .ok steem ∧ ∀ n,
      p'.1.counter (fun a => a.balance) n = p.1.counter (fun a => a.balance) n
        + (if n = r.toAccount then (if 0 < deposit then steem else 0) else 0) ∧
      p'.1.counter (fun a => a.vestingShares) n
        = p.1.counter (fun a => a.vestingShares) n := by
  simp only [depositAsSteem, bind_eq_ok] at h
  obtain ⟨deposit, hdeposit, _, -, steem, hsteem, h⟩ := h
  refine ⟨deposit, steem, hdeposit, hsteem, ?_⟩
  intro n
  split at h
  . next hpos =>
    simp only [bind_eq_ok, pure_eq_ok] at h
    obtain ⟨s₁, hs₁, s₂, hs₂, rfl⟩ := h
    simp only [counter_subTotals hs₂, if_pos hpos]
    exact counter_addBalance hs₁ n
  . next hpos =>
    rw [pure_eq_ok] at h
    subst h
    simp [hpos]

/-- What a turn of a loop starts from has been made by the turns before it. -/
theorem foldlM_append_of_mem {f : Staking × ℤ → WithdrawVestingRouteObject → Result (Staking × ℤ)}
    {l : List WithdrawVestingRouteObject} {r : WithdrawVestingRouteObject} {p p' : Staking × ℤ}
    (hr : r ∈ l) (h : l.foldlM f p = .ok p') :
    ∃ before after q q', l = before ++ r :: after ∧ before.foldlM f p = .ok q ∧
      f q r = .ok q' ∧ after.foldlM f q' = .ok p' := by
  obtain ⟨before, after, rfl⟩ := List.append_of_mem hr
  simp only [List.foldlM_append, List.foldlM_cons, bind_eq_ok] at h
  obtain ⟨q, hbefore, q', hturn, hafter⟩ := h
  exact ⟨before, after, q, q', rfl, hbefore, hturn, hafter⟩

/-- A loop over routes to different accounts pays each of them once. -/
theorem foldlM_pays {f : Staking × ℤ → WithdrawVestingRouteObject → Result (Staking × ℤ)}
    {g : StakeAccountObject → ℤ} {Q : Staking → WithdrawVestingRouteObject → ℤ → Prop}
    (hf : ∀ p p' r, f p r = .ok p' → ∃ x, Q p.1 r x ∧ ∀ n,
      p'.1.counter g n = p.1.counter g n + if n = r.toAccount then x else 0)
    {l : List WithdrawVestingRouteObject} {p p' : Staking × ℤ}
    (hnodup : (l.map WithdrawVestingRouteObject.toAccount).Nodup) (h : l.foldlM f p = .ok p') :
    ∀ r ∈ l, ∃ before after q x, l = before ++ r :: after ∧ before.foldlM f p = .ok q ∧ Q q.1 r x ∧
      p'.1.counter g r.toAccount = p.1.counter g r.toAccount + x := by
  have hothers : ∀ {l : List WithdrawVestingRouteObject} {p p' : Staking × ℤ} {n : AccountName},
      n ∉ l.map WithdrawVestingRouteObject.toAccount → l.foldlM f p = .ok p' →
        p'.1.counter g n = p.1.counter g n := by
    intro l p p' n hn h
    refine (foldlM_invariant (P := fun q rest =>
      n ∉ rest.map WithdrawVestingRouteObject.toAccount ∧
        q.1.counter g n = p.1.counter g n) ?_ ⟨hn, rfl⟩ h).2
    rintro q q' r rest ⟨hn, hq⟩ hturn
    rw [List.map_cons, List.mem_cons, not_or] at hn
    obtain ⟨x, -, hpaid⟩ := hf q q' r hturn
    rw [hpaid, if_neg hn.1, add_zero, hq]
    exact ⟨hn.2, rfl⟩
  intro r hr
  obtain ⟨before, after, q, q', rfl, hbefore, hturn, hafter⟩ := foldlM_append_of_mem hr h
  obtain ⟨x, hx, hpaid⟩ := hf q q' r hturn
  rw [List.map_append, List.map_cons, List.nodup_middle, List.nodup_cons, List.mem_append,
    not_or] at hnodup
  refine ⟨before, after, q, x, rfl, hbefore, hx, ?_⟩
  rw [hothers hnodup.1.2 hafter, hpaid, if_pos rfl, hothers hnodup.1.1 hbefore]

/-- The routes of an account for steem. -/
def steemRoutes (s : Staking) (name : AccountName) : List WithdrawVestingRouteObject :=
  (s.routesOf name).filter fun r => !r.autoVest

/-- The parts in steem of a withdrawal, each taken out of the totals that those before it have left. -/
def afterSteem (due : ℤ) (s : Staking) (routes : List WithdrawVestingRouteObject) :
    Result Staking :=
  routes.foldlM
    (fun s r => do
      let deposit ← routeDeposit due r
      let steem ← s.toSteem deposit
      if 0 < deposit then s.subTotals steem deposit else pure s)
    s

/-- What the routes of an account leave it of a withdrawal. -/
def ownPart (s : Staking) (name : AccountName) (due : ℤ) : ℤ :=
  max (due - ((s.routesOf name).map fun r => (routeDeposit due r).toOption.getD 0).sum) 0

/--
A withdrawal of `due` vests by `name` pays the destination of the route `r` its part, in vests or in
the steem that these are worth once the routes before it are paid; `name` itself also pays `due` and
gets the rest, at the price that all routes have left.
-/
def Honours (s s' : Staking) (name : AccountName) (due : ℤ) (r : WithdrawVestingRouteObject) :
    Prop :=
  ∃ deposit, routeDeposit due r = .ok deposit ∧
    if r.autoVest then
      s'.counter (fun a => a.vestingShares) r.toAccount
        = s.counter (fun a => a.vestingShares) r.toAccount + max deposit 0
          + if r.toAccount = name then -due else 0
    else
      ∃ before after u v steem rest, s.steemRoutes name = before ++ r :: after ∧
        s.afterSteem due before = .ok u ∧ u.toSteem deposit = .ok steem ∧
        s.afterSteem due (s.steemRoutes name) = .ok v ∧
        v.toSteem (s.ownPart name due) = .ok rest ∧
        s'.counter (fun a => a.balance) r.toAccount
          = s.counter (fun a => a.balance) r.toAccount + (if 0 < deposit then steem else 0)
            + if r.toAccount = name then rest else 0

section prices

/-- The price depends on nothing else. -/
structure SameTotals (s s' : Staking) : Prop where
  fund : s'.totalVestingFundSteem = s.totalVestingFundSteem
  shares : s'.totalVestingShares = s.totalVestingShares

theorem SameTotals.toSteem (h : SameTotals s s') (vests : ℤ) : s'.toSteem vests = s.toSteem vests := by
  unfold Staking.toSteem vestingSharePrice
  rw [h.fund, h.shares]

theorem SameTotals.modifyAccount {name : AccountName}
    {f : StakeAccountObject → Result StakeAccountObject} (h : s.modifyAccount name f = .ok s') :
    SameTotals s s' := by
  simp only [Staking.modifyAccount, bind_eq_ok, pure_eq_ok] at h
  obtain ⟨_, -, _, -, rfl⟩ := h
  exact ⟨rfl, rfl⟩

theorem SameTotals.subTotals {t : Staking} {steem vests : ℤ} (h : SameTotals t s)
    (hs : s.subTotals steem vests = .ok s') :
    ∃ t', t.subTotals steem vests = .ok t' ∧ SameTotals t' s' := by
  simp only [Staking.subTotals, bind_eq_ok, pure_eq_ok] at hs ⊢
  obtain ⟨fund, hfund, shares, hshares, rfl⟩ := hs
  rw [h.fund] at hfund
  rw [h.shares] at hshares
  exact ⟨_, ⟨fund, hfund, shares, hshares, rfl⟩, rfl, rfl⟩

/-- The first pass leaves the price. -/
theorem sameTotals_of_depositAsVests {due : ℤ} {l : List WithdrawVestingRouteObject}
    {p p' : Staking × ℤ} (h : l.foldlM (depositAsVests due) p = .ok p') : SameTotals p.1 p'.1 := by
  refine foldlM_invariant (P := fun q _ => SameTotals p.1 q.1) ?_ ⟨rfl, rfl⟩ h
  intro q q' r _ hq hturn
  simp only [depositAsVests, bind_eq_ok] at hturn
  obtain ⟨_, -, _, -, hturn⟩ := hturn
  split at hturn
  . simp only [bind_eq_ok, pure_eq_ok] at hturn
    obtain ⟨s₁, hs₁, rfl⟩ := hturn
    have hsame := SameTotals.modifyAccount hs₁
    exact ⟨hsame.fund.trans hq.fund, hsame.shares.trans hq.shares⟩
  . rw [pure_eq_ok] at hturn
    exact hturn ▸ hq

/-- The second pass takes the parts out of the totals. -/
theorem afterSteem_of_depositAsSteem {due asSteem : ℤ} {l : List WithdrawVestingRouteObject}
    {t : Staking} {p' : Staking × ℤ} (hsame : SameTotals t s)
    (h : l.foldlM (depositAsSteem due) (s, asSteem) = .ok p') :
    ∃ t', t.afterSteem due l = .ok t' ∧ SameTotals t' p'.1 := by
  induction l generalizing t s asSteem with
  | nil =>
    rw [List.foldlM_nil, pure_eq_ok] at h
    exact ⟨t, rfl, h ▸ hsame⟩
  | cons r l ih =>
    rw [List.foldlM_cons, bind_eq_ok] at h
    obtain ⟨⟨s₁, x⟩, hp₁, h⟩ := h
    simp only [depositAsSteem, bind_eq_ok] at hp₁
    obtain ⟨deposit, hdeposit, _, -, steem, hsteem, hp₁⟩ := hp₁
    rw [hsame.toSteem] at hsteem
    have hturn : ∃ t₁, (if 0 < deposit then t.subTotals steem deposit else pure t) = .ok t₁ ∧
        SameTotals t₁ s₁ := by
      split at hp₁
      . next hpos =>
        simp only [bind_eq_ok, pure_eq_ok] at hp₁
        obtain ⟨s₂, hs₂, s₃, hs₃, heq⟩ := hp₁
        obtain ⟨rfl, -⟩ := Prod.mk.inj heq
        have hpaid := SameTotals.modifyAccount hs₂
        rw [if_pos hpos]
        exact SameTotals.subTotals
          ⟨hpaid.fund.trans hsame.fund, hpaid.shares.trans hsame.shares⟩ hs₃
      . next hpos =>
        rw [pure_eq_ok] at hp₁
        obtain ⟨rfl, -⟩ := Prod.mk.inj hp₁
        rw [if_neg hpos]
        exact ⟨t, rfl, hsame⟩
    obtain ⟨t₁, ht₁, hsame₁⟩ := hturn
    obtain ⟨t', ht', hsame'⟩ := ih hsame₁ h
    refine ⟨t', ?_, hsame'⟩
    unfold afterSteem
    rw [List.foldlM_cons, hdeposit, ok_bind, hsteem, ok_bind, ht₁, ok_bind]
    exact ht'

/-- Both passes add up what they deposit. -/
theorem deposited_of_foldlM {due : ℤ}
    {f : Staking × ℤ → WithdrawVestingRouteObject → Result (Staking × ℤ)}
    (hf : ∀ p p' r, f p r = .ok p' → p'.2 = p.2 + (routeDeposit due r).toOption.getD 0)
    {l : List WithdrawVestingRouteObject} {p p' : Staking × ℤ} (h : l.foldlM f p = .ok p') :
    p'.2 = p.2 + (l.map fun r => (routeDeposit due r).toOption.getD 0).sum := by
  induction l generalizing p with
  | nil =>
    rw [List.foldlM_nil, pure_eq_ok] at h
    simp [h]
  | cons r l ih =>
    rw [List.foldlM_cons, bind_eq_ok] at h
    obtain ⟨p₁, hp₁, h⟩ := h
    rw [ih h, hf p p₁ r hp₁, List.map_cons, List.sum_cons]
    ring

theorem deposited_depositAsVests {due : ℤ} {p p' : Staking × ℤ} {r : WithdrawVestingRouteObject}
    (h : depositAsVests due p r = .ok p') :
    p'.2 = p.2 + (routeDeposit due r).toOption.getD 0 := by
  simp only [depositAsVests, bind_eq_ok] at h
  obtain ⟨deposit, hdeposit, x, hx, h⟩ := h
  rw [hdeposit]
  split at h
  . simp only [bind_eq_ok, pure_eq_ok] at h
    obtain ⟨_, -, rfl⟩ := h
    exact eq_of_add64_eq_ok hx
  . rw [pure_eq_ok] at h
    exact h ▸ eq_of_add64_eq_ok hx

theorem deposited_depositAsSteem {due : ℤ} {p p' : Staking × ℤ} {r : WithdrawVestingRouteObject}
    (h : depositAsSteem due p r = .ok p') :
    p'.2 = p.2 + (routeDeposit due r).toOption.getD 0 := by
  simp only [depositAsSteem, bind_eq_ok] at h
  obtain ⟨deposit, hdeposit, x, hx, _, -, h⟩ := h
  rw [hdeposit]
  split at h
  . simp only [bind_eq_ok, pure_eq_ok] at h
    obtain ⟨_, -, _, -, rfl⟩ := h
    exact eq_of_add64_eq_ok hx
  . rw [pure_eq_ok] at h
    exact h ▸ eq_of_add64_eq_ok hx

/-- What is converted for the account itself. -/
theorem ownPart_of_loops {name : AccountName} {due asVests asSteem toConvert : ℤ} {s₁ s₂ : Staking}
    (hvests : ((s.routesOf name).filter WithdrawVestingRouteObject.autoVest).foldlM
      (depositAsVests due) (s, 0) = .ok (s₁, asVests))
    (hsteem : (s.steemRoutes name).foldlM (depositAsSteem due) (s₁, 0) = .ok (s₂, asSteem))
    (h : int64 (due - asSteem - asVests) ChainException.overflowException = .ok toConvert) :
    max toConvert 0 = s.ownPart name due := by
  have hasVests := deposited_of_foldlM (fun _ _ _ => deposited_depositAsVests) hvests
  have hasSteem := deposited_of_foldlM (fun _ _ _ => deposited_depositAsSteem) hsteem
  have hsplit := ((List.filter_append_perm WithdrawVestingRouteObject.autoVest
    (s.routesOf name)).map fun r => (routeDeposit due r).toOption.getD 0).sum_eq
  rw [List.map_append, List.sum_append] at hsplit
  obtain ⟨-, rfl⟩ := int64_eq_ok.mp h
  unfold ownPart
  unfold steemRoutes at hasSteem
  dsimp only at hasVests hasSteem
  rw [← hsplit]
  congr 1
  omega

end prices

theorem nodup_toAccount_routesOf (s : Staking) (name : AccountName) :
    ((s.routesOf name).map WithdrawVestingRouteObject.toAccount).Nodup := by
  have hperm := List.perm_insertionSort
    (fun r r' => s.accountId r.toAccount ≤ s.accountId r'.toAccount)
    (s.routes.rows.filter fun r => r.fromAccount = name ∧ 0 < s.accountId r.toAccount)
  unfold routesOf
  rw [(hperm.map _).nodup_iff]
  have hnodup := s.routes.nodup.sublist ((List.filter_sublist
    (p := fun r => decide (r.fromAccount = name ∧ 0 < s.accountId r.toAccount))).map
      WithdrawVestingRouteObject.byWithdrawRoute)
  rw [List.nodup_map_iff_inj_on]
  . intro r hr r' hr' heq
    apply List.inj_on_of_nodup_map hnodup hr hr'
    simp only [List.mem_filter, decide_eq_true_eq] at hr hr'
    rw [WithdrawVestingRouteObject.byWithdrawRoute, WithdrawVestingRouteObject.byWithdrawRoute,
      hr.2.1, hr'.2.1, heq]
  . exact hnodup.of_map

/-- A turn of the loop honours every route that it sees. -/
theorem honours_of_mem_routesOf {name : AccountName} {a : StakeAccountObject} {due : ℤ}
    {r : WithdrawVestingRouteObject} (ha : s.accounts.find? name = some a)
    (hdue : a.dueWithdrawal = .ok due) (hr : r ∈ s.routesOf name)
    (h : s.processVestingWithdrawal name = .ok s') : Honours s s' name due r := by
  simp only [Staking.processVestingWithdrawal, getAccount, bind_eq_ok, get_eq_ok] at h
  obtain ⟨b, hb, due', hdue', ⟨s₁, asVests⟩, hs₁, ⟨s₂, asSteem⟩, hs₂, toConvert, htoConvert, rest,
    hrest, s₃, hs₃, h⟩ := h
  rw [ha] at hb
  injection hb with hb
  rw [← hb, hdue] at hdue'
  injection hdue' with hdue'
  subst hb hdue'
  have hnodup := nodup_toAccount_routesOf s name
  rw [List.partition_eq_filter_filter] at hs₁ hs₂
  have hvests := foldlM_pays (g := fun a => a.vestingShares)
    (Q := fun _ r x => ∃ deposit, routeDeposit due r = .ok deposit ∧ x = max deposit 0) (by
      intro p p' r hp
      obtain ⟨deposit, hdeposit, hpaid⟩ := depositAsVests_pays hp
      exact ⟨_, ⟨deposit, hdeposit, rfl⟩, fun n => (hpaid n).1⟩)
    (hnodup.sublist (List.filter_sublist.map _)) hs₁
  have hsteem := foldlM_pays (g := fun a => a.balance)
    (Q := fun u r x => ∃ deposit steem, routeDeposit due r = .ok deposit ∧
      u.toSteem deposit = .ok steem ∧ x = if 0 < deposit then steem else 0) (by
      intro p p' r hp
      obtain ⟨deposit, steem, hdeposit, hsteem, hpaid⟩ := depositAsSteem_pays hp
      exact ⟨_, ⟨deposit, steem, hdeposit, hsteem, rfl⟩, fun n => (hpaid n).1⟩)
    (hnodup.sublist (List.filter_sublist.map _)) hs₂
  have hbalance₁ : ∀ n, s₁.counter (fun a => a.balance) n = s.counter (fun a => a.balance) n := by
    refine fun n => foldlM_invariant (P := fun p _ =>
      p.1.counter (fun a => a.balance) n = s.counter (fun a => a.balance) n) ?_ rfl hs₁
    intro p p' r _ hp hturn
    obtain ⟨_, -, hpaid⟩ := depositAsVests_pays hturn
    rw [(hpaid n).2, hp]
  have hvesting₂ : ∀ n, s₂.counter (fun a => a.vestingShares) n
      = s₁.counter (fun a => a.vestingShares) n := by
    refine fun n => foldlM_invariant (P := fun p _ =>
      p.1.counter (fun a => a.vestingShares) n = s₁.counter (fun a => a.vestingShares) n) ?_ rfl hs₂
    intro p p' r _ hp hturn
    obtain ⟨_, _, -, -, hpaid⟩ := depositAsSteem_pays hturn
    rw [(hpaid n).2, hp]
  have hvesting₃ := counter_modifyAccount (g := fun a => a.vestingShares) (d := -due)
    (fun a a' ha => ⟨(payWithdrawal_changes ha).1, (payWithdrawal_changes ha).2.1⟩) hs₃
  have hbalance₃ := counter_modifyAccount (g := fun a => a.balance) (d := rest)
    (fun a a' ha => ⟨(payWithdrawal_changes ha).1, (payWithdrawal_changes ha).2.2⟩) hs₃
  by_cases hauto : r.autoVest = true
  . obtain ⟨-, -, -, x, -, -, ⟨deposit, hdeposit, rfl⟩, hpaid⟩ :=
      hvests r (List.mem_filter.mpr ⟨hr, hauto⟩)
    refine ⟨deposit, hdeposit, ?_⟩
    rw [if_pos hauto, counter_subTotals h, hvesting₃, hvesting₂, hpaid]
  . obtain ⟨before, after, q, x, hsplit, hq, ⟨deposit, steem, hdeposit, hsteem, rfl⟩, hpaid⟩ :=
      hsteem r (List.mem_filter.mpr ⟨hr, by simpa using hauto⟩)
    have hsame : SameTotals s s₁ := sameTotals_of_depositAsVests hs₁
    obtain ⟨u, hu, hsameu⟩ := afterSteem_of_depositAsSteem hsame hq
    obtain ⟨v, hv, hsamev⟩ := afterSteem_of_depositAsSteem hsame hs₂
    rw [hsameu.toSteem] at hsteem
    rw [hsamev.toSteem, ownPart_of_loops hs₁ hs₂ htoConvert] at hrest
    refine ⟨deposit, hdeposit, ?_⟩
    rw [if_neg hauto]
    refine ⟨before, after, u, v, steem, rest, hsplit, hu, hsteem, hv, hrest, ?_⟩
    rw [counter_subTotals h, hbalance₃, hpaid, hbalance₁]

end honours

/-- One turn of the loop of `process_vesting_withdrawals`. -/
def Turn (s s' : Staking) : Prop :=
  ∃ name, s.processVestingWithdrawal name = .ok s'

theorem KeepsRoutes.turns (h : Relation.ReflTransGen Turn s s') : KeepsRoutes s s' := by
  induction h with
  | refl => exact .refl s
  | tail _ hturn ih =>
    obtain ⟨name, hturn⟩ := hturn
    exact ih.trans (.processVestingWithdrawal hturn)

/--
In every run that sets no route to the account with the id 0, routes are counted, add up to at most
the whole and are all honoured by withdrawals; the recovery of an account stops its withdrawal,
leaves the routes of others alone, and leaves no route of the account if and only if there was none.
-/
theorem routes_of_reach (h : stake.Reach SeenRoutes s) :
    (∀ name, s.counter (fun a => a.withdrawRoutes) name = s.sumRoutes name (fun _ => 1) ∧
      s.sumRoutes name (fun r => r.percent) ≤ steemit100Percent) ∧
    (∀ t, Relation.ReflTransGen Turn s t → ∀ name a due t', t.accounts.find? name = some a →
      a.dueWithdrawal = .ok due → t.processVestingWithdrawal name = .ok t' →
      ∀ r ∈ t.routes.rows, r.fromAccount = name → Honours t t' name due r) ∧
    (∀ (c c' : Recovery) op, c.staking = s → c.recoverAccount op = .ok c' →
      c'.staking.Stopped op.accountToRecover ∧
      (∀ r, r.fromAccount ≠ op.accountToRecover →
        (r ∈ c'.staking.routes.rows ↔ r ∈ c.staking.routes.rows)) ∧
      (c'.staking.NoRoutes op.accountToRecover ↔ c.staking.NoRoutes op.accountToRecover)) := by
  have hinv := routesInv_of_reach h
  refine ⟨?_, ?_, ?_⟩
  . intro name
    exact ⟨hinv.count name, hinv.percent name⟩
  . intro t hturns name a due t' ha hdue hturn r hr hfrom
    refine honours_of_mem_routesOf ha hdue ?_ hturn
    rw [(perm_routesOf (hinv.congr (.turns hturns)).seen).mem_iff, List.mem_filter]
    exact ⟨hr, decide_eq_true hfrom⟩
  . intro c c' op _ hrecover
    have hreset := resetVestingWithdraw_of_recoverAccount hrecover
    have hroutes := (KeepsRoutes.resetVestingWithdraw hreset).routes
    refine ⟨stopped_of_resetVestingWithdraw hreset, ?_, ?_⟩
    . intro r _
      rw [hroutes]
    . unfold NoRoutes
      rw [hroutes]

/-- A chain with four accounts, the first of them with the id 0, and shares of Alice. -/
def firstStake : Staking where
  accounts :=
    ⟨
      [
        { name := "miners" },
        { name := "alice", vestingShares := 1000000000 },
        { name := "bob" },
        { name := "carol" }
      ],
      by decide
    ⟩
  totalVestingFundSteem := 1000000
  totalVestingShares := 1000000000
  headBlockNum := 80000000
  headBlockTime := 1700000000

theorem unused_firstStake : firstStake.Unused :=
  .of_rows ⟨rfl, rfl, rfl⟩ (by decide)

/-- Half of what Alice withdraws goes to Bob. -/
def routeToBob : SetWithdrawVestingRouteOperation :=
  { fromAccount := "alice", toAccount := "bob", percent := 5000, autoVest := true }

/-- And another part to Carol, in steem. -/
def routeToCarol : SetWithdrawVestingRouteOperation :=
  { fromAccount := "alice", toAccount := "carol", percent := 3000 }

def bobStake : Staking :=
  (firstStake.setWithdrawVestingRoute routeToBob).toOption.getD firstStake

def routedStake : Staking :=
  (bobStake.setWithdrawVestingRoute routeToCarol).toOption.getD firstStake

theorem routes_of_reach_routed :
    (∀ name, routedStake.counter (fun a => a.withdrawRoutes) name
        = routedStake.sumRoutes name (fun _ => 1) ∧
      routedStake.sumRoutes name (fun r => r.percent) ≤ steemit100Percent) ∧
    (∀ t, Relation.ReflTransGen Turn routedStake t → ∀ name a due t',
      t.accounts.find? name = some a → a.dueWithdrawal = .ok due →
      t.processVestingWithdrawal name = .ok t' →
      ∀ r ∈ t.routes.rows, r.fromAccount = name → Honours t t' name due r) ∧
    (∀ (c c' : Recovery) op, c.staking = routedStake → c.recoverAccount op = .ok c' →
      c'.staking.Stopped op.accountToRecover ∧
      (∀ r, r.fromAccount ≠ op.accountToRecover →
        (r ∈ c'.staking.routes.rows ↔ r ∈ c.staking.routes.rows)) ∧
      (c'.staking.NoRoutes op.accountToRecover ↔ c.staking.NoRoutes op.accountToRecover)) :=
  have hbob : firstStake.setWithdrawVestingRoute routeToBob = .ok bobStake :=
    eq_ok_of_isSome (by decide +kernel)
  have hcarol : bobStake.setWithdrawVestingRoute routeToCarol = .ok routedStake :=
    eq_ok_of_isSome (by decide +kernel)
  routes_of_reach
    (.step (e := .setWithdrawVestingRoute routeToCarol)
      (.step (e := .setWithdrawVestingRoute routeToBob) (.initial unused_firstStake)
        (show 0 < firstStake.accountId "bob" by decide) hbob)
      (show 0 < bobStake.accountId "carol" by decide +kernel) hcarol)

/-- An intruder routes all that Alice withdraws to the account with the id 0, and all of it to Bob. -/
def intruderRoute (toAccount : AccountName) : SetWithdrawVestingRouteOperation :=
  { fromAccount := "alice", toAccount := toAccount, percent := 10000, autoVest := true }

def intruderRoutes : Staking :=
  (do
    let s ← firstStake.setWithdrawVestingRoute (intruderRoute "miners")
    s.setWithdrawVestingRoute (intruderRoute "bob")).toOption.getD firstStake

/-- The old owner authority of Alice, that of the intruder, and the one she asks for. -/
def ownerAuthority (key : PublicKeyType) : Authority :=
  { weightThreshold := 1, keyAuths := [(key, 1)] }

/-- The recovery of Alice is requested. -/
def intrudedStake : Recovery where
  staking := intruderRoutes
  requests := ⟨[⟨"alice", ownerAuthority 3, 1700086400⟩], by decide⟩
  ownerAuthorityHistory := [⟨"alice", ownerAuthority 1, 1699990000⟩]
  authorities := ⟨[{ account := "alice", owner := ownerAuthority 2 }], by decide⟩

def recoverAlice : RecoverAccountOperation :=
  { accountToRecover := "alice"
    newOwnerAuthority := ownerAuthority 3
    recentOwnerAuthority := ownerAuthority 1 }

def recoveredStake : Recovery :=
  (intrudedStake.recoverAccount recoverAlice).toOption.getD intrudedStake

/-- The routes add up to 200 percent, and the recovered account keeps both of them. -/
theorem recoverAccount_keeps_routes :
    stake.Reachable intrudedStake.staking ∧
    intrudedStake.recoverAccount recoverAlice = .ok recoveredStake ∧
    intrudedStake.staking.sumRoutes "alice" (fun r => r.percent) = 20000 ∧
    recoveredStake.staking.sumRoutes "alice" (fun _ => 1) = 2 := by
  refine ⟨?_, ?_, ?_, ?_⟩
  . have hfirst : firstStake.setWithdrawVestingRoute (intruderRoute "miners") = .ok _ :=
      eq_ok_of_isSome (d := firstStake) (by decide +kernel)
    refine .step (e := .setWithdrawVestingRoute (intruderRoute "bob"))
      (.step (e := .setWithdrawVestingRoute (intruderRoute "miners"))
        (.initial unused_firstStake) trivial hfirst) trivial ?_
    have hall : (do
        let s ← firstStake.setWithdrawVestingRoute (intruderRoute "miners")
        s.setWithdrawVestingRoute (intruderRoute "bob")) = .ok intruderRoutes :=
      eq_ok_of_isSome (by decide +kernel)
    rw [hfirst] at hall
    exact hall
  . exact eq_ok_of_isSome (by decide +kernel)
  . decide +kernel
  . decide +kernel

end Staking

end Golos
