import Golos.Worker.Lemmas

/-!
This module contains what the pool pays for worker requests in a cashout: the same share at most for
each request, and never more than it has.
-/

namespace Golos

open Checked

namespace WorkerRequestObject

/-- What a payment leaves of a request. -/
def payOff (r : WorkerRequestObject) (payment : ℤ) : WorkerRequestObject :=
  if payment = 0 then
    r
  else if r.remainingPayment.amount - payment ≤ 0 then
    { r with remainingPayment := ⟨0, r.remainingPayment.symbol⟩, state := .paymentComplete }
  else
    { r with
      remainingPayment := ⟨r.remainingPayment.amount - payment, r.remainingPayment.symbol⟩ }

variable {r : WorkerRequestObject} {payment : ℤ}

theorem payOff_post : (r.payOff payment).post = r.post := by
  unfold payOff
  split
  . rfl
  . split <;> rfl

theorem payOff_totals : (r.payOff payment).stakeTotal = r.stakeTotal ∧
    (r.payOff payment).stakeRshares = r.stakeRshares := by
  unfold payOff
  split
  . exact ⟨rfl, rfl⟩
  . split <;> exact ⟨rfl, rfl⟩

/-- A request is paid in full just when nothing remains. -/
theorem payOff_complete_iff (h : r.Sound) (hpaying : r.state = .payment)
    (hle : payment ≤ r.remainingPayment.amount) :
    (r.payOff payment).remainingPayment.amount = r.remainingPayment.amount - payment ∧
      ((r.payOff payment).state = .paymentComplete ↔
        (r.payOff payment).remainingPayment.amount = 0) ∧
      ((r.payOff payment).state = .payment ∨ (r.payOff payment).state = .paymentComplete) := by
  have hpos := (h.paying hpaying).1
  unfold payOff
  split
  . next hzero =>
    rw [hpaying, hzero]
    refine ⟨by omega, ⟨nofun, fun heq => ?_⟩, .inl rfl⟩
    omega
  . split
    . next hfull =>
      refine ⟨?_, ⟨fun _ => rfl, fun _ => rfl⟩, .inr rfl⟩
      dsimp only
      omega
    . next hrest =>
      rw [hpaying]
      refine ⟨rfl, ⟨nofun, fun heq => ?_⟩, .inl rfl⟩
      dsimp only at heq
      omega

theorem Sound.payOff (h : r.Sound) (hpaying : r.state = .payment) :
    (r.payOff payment).Sound := by
  have hvoting : r.voteEndTime = maxTimePoint := by
    rcases h.voting with hcreated | hvoting
    . rw [hpaying] at hcreated
      cases hcreated
    . exact hvoting
  have hsymbol := (h.paying hpaying).2
  unfold WorkerRequestObject.payOff
  split
  . exact h
  . split
    . exact ⟨h.currency, h.symbols, h.min_pos, .inr hvoting, nofun, fun _ => rfl⟩
    . next hrest =>
      refine ⟨h.currency, h.symbols, h.min_pos, .inr hvoting, fun _ => ⟨?_, hsymbol⟩, ?_⟩
      . dsimp only
        omega
      . intro hcomplete
        dsimp only at hcomplete
        rw [hpaying] at hcomplete
        cases hcomplete

end WorkerRequestObject

namespace WorkerDatabase

variable {db db' db'' : WorkerDatabase} {r : WorkerRequestObject}
  {maxPayment : AssetSymbolType → Asset} {l done : List WorkerRequestObject}

/-- What a turn of the loop pays for its request. -/
def paymentOf (maxPayment : AssetSymbolType → Asset) (r : WorkerRequestObject) : ℤ :=
  min (maxPayment r.requiredAmountMax.symbol).amount r.remainingPayment.amount

/-- What the payments for requests do to the main balances. -/
def moved (payment : WorkerRequestObject → ℤ) (r : WorkerRequestObject) (name : AccountName)
    (symbol : AssetSymbolType) : ℤ :=
  (if name = workerPoolAccount ∧ symbol = r.remainingPayment.symbol then -payment r else 0) +
    if name = r.worker ∧ symbol = r.remainingPayment.symbol ∧ r.vestReward = false then
      payment r
    else
      0

theorem mainBalance_payWorker {payment : Asset} {p : WorkerDatabase × ℤ}
    (h : db.payWorker r payment = .ok p) (name : AccountName) (symbol : AssetSymbolType) :
    p.1.ledger.mainBalance name symbol = db.ledger.mainBalance name symbol +
      (if name = r.worker ∧ symbol = payment.symbol ∧ r.vestReward = false then
        payment.amount
      else
        0) ∧ p.1.requests = db.requests ∧ p.1.votes = db.votes ∧ p.1.comments = db.comments ∧
      p.1.workerRequestCreationFee = db.workerRequestCreationFee := by
  unfold payWorker at h
  split at h
  . next hvest =>
    simp only [bind_eq_ok, pure_eq_ok] at h
    obtain ⟨_, -, rfl⟩ := h
    simp [hvest]
  . next hvest =>
    simp only [bind_eq_ok, pure_eq_ok] at h
    obtain ⟨ledger, hadjust, rfl⟩ := h
    rw [Bool.not_eq_true] at hvest
    refine ⟨?_, rfl, rfl, rfl, rfl⟩
    rw [(Ledger.moves_adjustBalance hadjust).balance]
    simp [Ledger.single, hvest]

/-- What a turn of the loop does. -/
theorem payOff_of_payWorkerRequest (hfind : db.requests.find? r.post = some r)
    (h : db.payWorkerRequest maxPayment r = .ok db') :
    Table.Updates db.requests db'.requests r (r.payOff (paymentOf maxPayment r)) ∧
      (∀ a s, db'.ledger.mainBalance a s =
        db.ledger.mainBalance a s + moved (paymentOf maxPayment) r a s) ∧
      db'.votes = db.votes ∧ db'.comments = db.comments ∧
      db'.workerRequestCreationFee = db.workerRequestCreationFee := by
  simp only [payWorkerRequest, bind_eq_ok, getWorkerRequest_eq_ok, hfind, Asset.lt,
    Asset.sameSymbol, ensure_eq_ok, pure_eq_ok] at h
  obtain ⟨_, ⟨⟩, _, ⟨_, hsymbol, rfl⟩, h⟩ := h
  have hpayment : (if decide ((maxPayment r.requiredAmountMax.symbol).amount <
      r.remainingPayment.amount) = true then maxPayment r.requiredAmountMax.symbol
      else r.remainingPayment) = ⟨paymentOf maxPayment r, r.remainingPayment.symbol⟩ := by
    unfold paymentOf
    split
    . next hlt =>
      rw [decide_eq_true_iff] at hlt
      rw [min_eq_left hlt.le, ← hsymbol]
    . next hle =>
      rw [decide_eq_true_iff, not_lt] at hle
      rw [min_eq_right hle]
  rw [hpayment] at h
  split at h
  . next hzero =>
    rw [pure_eq_ok] at h
    subst h
    dsimp only at hzero
    unfold WorkerRequestObject.payOff moved
    rw [if_pos hzero, hzero]
    simp only [neg_zero, ite_self, add_zero, implies_true, and_true]
    exact .refl hfind
  . next hzero =>
    dsimp only at hzero
    simp only [bind_eq_ok, Asset.neg_eq_ok, Asset.sub_eq_ok] at h
    obtain ⟨c, -, _, -, _, ⟨-, rfl⟩, ledger, hcharge, ⟨db₁, vestReward⟩, hpay, _, ⟨-, -, rfl⟩, h⟩ := h
    have hbalance := mainBalance_payWorker hpay
    have hmoves := (Ledger.moves_adjustBalance hcharge).balance
    have hrequests := (hbalance "" steemSymbol).2
    dsimp only at hbalance hrequests
    have hfind₁ : db₁.requests.find? r.post = some r := by
      rw [hrequests.1]
      exact hfind
    have hmoved : ∀ a s, db₁.ledger.mainBalance a s =
        db.ledger.mainBalance a s + moved (paymentOf maxPayment) r a s := by
      intro a s
      rw [(hbalance a s).1, hmoves]
      unfold moved Ledger.single
      dsimp only
      omega
    unfold WorkerRequestObject.payOff
    rw [if_neg hzero]
    split at h
    . next hfull =>
      rw [pure_eq_ok] at h
      subst h
      dsimp only at hfull
      rw [if_pos hfull]
      refine ⟨?_, hmoved, hrequests.2⟩
      rw [← hrequests.1]
      exact .modify _ hfind₁
    . next hrest =>
      rw [pure_eq_ok] at h
      subst h
      dsimp only at hrest
      rw [if_neg hrest]
      refine ⟨?_, hmoved, hrequests.2⟩
      rw [← hrequests.1]
      exact .modify _ hfind₁

theorem mem_payingRequests :
    r ∈ db.payingRequests ↔ r ∈ db.requests.rows ∧ r.state = .payment := by
  unfold payingRequests
  rw [List.mem_insertionSort, List.mem_filter, decide_eq_true_iff]

theorem lists_payingRequests (db : WorkerDatabase) :
    Table.Lists db.requests db.payingRequests :=
  (Table.Lists.filter _ _).perm (List.perm_insertionSort _ _)

/-- What the loop has paid when the requests of `l` are left. -/
structure PaidBut (db : WorkerDatabase) (maxPayment : AssetSymbolType → Asset)
    (l : List WorkerRequestObject) (db' : WorkerDatabase) : Prop where
  tallied : db'.Tallied
  lists : Table.Lists db'.requests l
  requests : ∃ done, db.payingRequests = done ++ l ∧
    (∀ p, db'.requests.find? p = (db.requests.find? p).map fun r =>
      if r ∈ done then r.payOff (paymentOf maxPayment r) else r) ∧
    ∀ a s, db'.ledger.mainBalance a s = db.ledger.mainBalance a s +
      (done.map fun r => moved (paymentOf maxPayment) r a s).sum
  votes : db'.votes = db.votes
  comments : db'.comments = db.comments
  workerRequestCreationFee : db'.workerRequestCreationFee = db.workerRequestCreationFee

theorem PaidBut.start (h : db.Tallied) : PaidBut db maxPayment db.payingRequests db := by
  refine ⟨h, lists_payingRequests db, ⟨[], rfl, fun p => ?_, fun a s => ?_⟩, rfl, rfl, rfl⟩
  . simp
  . simp

theorem PaidBut.turn (h : PaidBut db maxPayment (r :: l) db')
    (hturn : db'.payWorkerRequest maxPayment r = .ok db'') : PaidBut db maxPayment l db'' := by
  have hfind := h.lists.row r List.mem_cons_self
  obtain ⟨hupdates, hbalance, hvotes, hcomments, hfee⟩ := payOff_of_payWorkerRequest hfind hturn
  obtain ⟨done, hsplit, hrequests, hmoved⟩ := h.requests
  have hmem : r ∈ db.payingRequests := by
    rw [hsplit]
    exact List.mem_append_right _ List.mem_cons_self
  have hpaying := (mem_payingRequests.mp hmem).2
  have hrow := (lists_payingRequests db).row r hmem
  have hposts := h.lists.nodup
  rw [List.map_cons, List.nodup_cons] at hposts
  refine ⟨?_, ⟨h.lists.tail.nodup, fun r₁ hr₁ => ?_⟩, ⟨done ++ [r], ?_, fun p => ?_, fun a s => ?_⟩,
    hvotes.trans h.votes, hcomments.trans h.comments, hfee.trans h.workerRequestCreationFee⟩
  . exact h.tallied.updates hupdates WorkerRequestObject.payOff_post
      ((h.tallied.sound r (Table.mem_of_find? hfind)).payOff hpaying)
      WorkerRequestObject.payOff_totals.1 WorkerRequestObject.payOff_totals.2 hvotes hcomments
  . have hne : r₁.post ≠ r.post := fun heq => hposts.1 (heq ▸ List.mem_map_of_mem hr₁)
    rw [hupdates.find?, if_neg hne]
    exact h.lists.row r₁ (List.mem_cons_of_mem _ hr₁)
  . rw [hsplit, List.append_assoc, List.singleton_append]
  . rw [hupdates.find?]
    split
    . next heq =>
      subst heq
      rw [hrow, Option.map_some, if_pos (List.mem_append_right _ List.mem_cons_self)]
    . next hne =>
      rw [hrequests]
      cases hold : db.requests.find? p with
      | none => rfl
      | some r₁ =>
        have hne₁ : r₁ ≠ r := by
          rintro rfl
          exact hne (Table.key_of_find? hold).symm
        simp [hne₁]
  . rw [hbalance, hmoved, List.map_append, List.sum_append, List.map_singleton,
      List.sum_singleton]
    omega

section bounds

/-- What the pool has of GOLOS or GBG. -/
def poolBalance (db : WorkerDatabase) (symbol : AssetSymbolType) : ℤ :=
  db.ledger.mainBalance workerPoolAccount symbol

/-- What a cashout pays for each request, and what it makes of requests and balances. -/
structure PaysOut (db : WorkerDatabase) (payment : WorkerRequestObject → ℤ)
    (db' : WorkerDatabase) : Prop where
  le_share : ∀ r ∈ db.payingRequests, 0 ≤ payment r ∧ payment r ≤ r.remainingPayment.amount ∧
    payment r ≤
      db.poolBalance r.requiredAmountMin.symbol / db.payingCount r.requiredAmountMin.symbol
  le_pool : ∀ symbol, 0 ≤ db.poolBalance symbol → ((db.payingRequests.filter fun r =>
    r.requiredAmountMin.symbol = symbol).map payment).sum ≤ db.poolBalance symbol
  requests : ∀ p, db'.requests.find? p = (db.requests.find? p).map fun r =>
    if r ∈ db.payingRequests then r.payOff (payment r) else r
  balances : ∀ a s, db'.ledger.mainBalance a s = db.ledger.mainBalance a s +
    (db.payingRequests.map fun r => moved payment r a s).sum
  votes : db'.votes = db.votes
  comments : db'.comments = db.comments
  workerRequestCreationFee : db'.workerRequestCreationFee = db.workerRequestCreationFee

/-- What is not above an equal share for each adds up to no more than what is shared. -/
theorem sum_le_of_le_share {total : ℤ} (htotal : 0 ≤ total) {f : WorkerRequestObject → ℤ}
    (h : ∀ r ∈ l, f r ≤ total / l.length) : (l.map f).sum ≤ total := by
  have hsum := List.sum_le_card_nsmul (l.map f) (total / l.length) (by simpa using h)
  rw [List.length_map, nsmul_eq_mul] at hsum
  apply hsum.trans
  rcases Nat.eq_zero_or_pos l.length with hzero | hpos
  . rw [hzero, Nat.cast_zero, Int.zero_mul]
    exact htotal
  . exact Int.mul_ediv_self_le (by omega)

theorem maxRequestPayment_amount {pool : AccountObject} {symbol : AssetSymbolType}
    (hpool : db.ledger.getAccount workerPoolAccount = .ok pool) (h : 0 ≤ db.poolBalance symbol)
    (hcurrency : symbol = steemSymbol ∨ symbol = sbdSymbol) :
    (db.maxRequestPayment pool symbol).amount =
      db.poolBalance symbol / db.payingCount symbol := by
  rw [Ledger.getAccount_eq_ok] at hpool
  have hshare : ∀ balance : ℤ, 0 ≤ balance →
      (if 0 < db.payingCount symbol then Int.tdiv balance (db.payingCount symbol) else 0) =
        balance / db.payingCount symbol := by
    intro balance hbalance
    split
    . exact Int.tdiv_eq_ediv_of_nonneg hbalance
    . next hzero =>
      rw [Nat.eq_zero_of_not_pos hzero, Nat.cast_zero, Int.ediv_zero]
  unfold poolBalance Ledger.mainBalance at h ⊢
  unfold maxRequestPayment
  rcases hcurrency with rfl | rfl
  . rw [if_pos rfl, hpool] at h
    rw [if_pos rfl, if_pos rfl, hpool]
    exact hshare _ h
  . rw [if_neg Ledger.sbdSymbol_ne_steemSymbol, if_pos rfl, hpool] at h
    rw [if_neg Ledger.sbdSymbol_ne_steemSymbol, if_pos rfl,
      if_neg Ledger.sbdSymbol_ne_steemSymbol, if_pos rfl, hpool]
    exact hshare _ h

theorem paysOut_zero (h : db.Tallied)
    (hpool : ∀ symbol, symbol = steemSymbol ∨ symbol = sbdSymbol → 0 ≤ db.poolBalance symbol) :
    PaysOut db (fun _ => 0) db where
  le_share r hr := by
    obtain ⟨hrow, hpaying⟩ := mem_payingRequests.mp hr
    have hsound := h.sound r hrow
    refine ⟨le_rfl, (hsound.paying hpaying).1.le, ?_⟩
    exact Int.ediv_nonneg (hpool _ hsound.currency) (Int.natCast_nonneg _)
  le_pool symbol hsymbol := by simpa using hsymbol
  requests p := by
    cases db.requests.find? p with
    | none => rfl
    | some r => simp [WorkerRequestObject.payOff]
  balances a s := by simp [moved]
  votes := rfl
  comments := rfl
  workerRequestCreationFee := rfl

/-- A cashout keeps to the equal shares of the pool. -/
theorem paysOut_of_processWorkerCashout (h : db.Tallied)
    (hpool : ∀ symbol, symbol = steemSymbol ∨ symbol = sbdSymbol → 0 ≤ db.poolBalance symbol)
    (hcashout : db.processWorkerCashout = .ok db') :
    (∃ payment, db.PaysOut payment db') ∧ db'.Tallied := by
  unfold processWorkerCashout at hcashout
  split at hcashout
  . rw [pure_eq_ok] at hcashout
    subst hcashout
    exact ⟨⟨_, paysOut_zero h hpool⟩, h⟩
  . rw [bind_eq_ok] at hcashout
    obtain ⟨pool, hget, hcashout⟩ := hcashout
    dsimp only at hcashout
    split at hcashout
    . rw [pure_eq_ok] at hcashout
      subst hcashout
      exact ⟨⟨_, paysOut_zero h hpool⟩, h⟩
    . have hpaid : PaidBut db (db.maxRequestPayment pool) [] db' :=
        foldlM_invariant (P := fun db' l => PaidBut db (db.maxRequestPayment pool) l db')
          (fun _ _ _ _ hpaid hturn => hpaid.turn hturn) (.start h) hcashout
      obtain ⟨done, hdone, hrequests, hbalances⟩ := hpaid.requests
      rw [List.append_nil] at hdone
      subst hdone
      have hshare : ∀ r ∈ db.payingRequests,
          0 ≤ paymentOf (db.maxRequestPayment pool) r ∧
          paymentOf (db.maxRequestPayment pool) r ≤ r.remainingPayment.amount ∧
          paymentOf (db.maxRequestPayment pool) r ≤ db.poolBalance r.requiredAmountMin.symbol /
            db.payingCount r.requiredAmountMin.symbol := by
        intro r hr
        obtain ⟨hrow, hpaying⟩ := mem_payingRequests.mp hr
        have hsound := h.sound r hrow
        have hnonneg := hpool _ hsound.currency
        unfold paymentOf
        rw [← hsound.symbols, maxRequestPayment_amount hget hnonneg hsound.currency]
        have := Int.ediv_nonneg hnonneg
          (Int.natCast_nonneg (db.payingCount r.requiredAmountMin.symbol))
        refine ⟨le_min this (hsound.paying hpaying).1.le, min_le_right _ _, min_le_left _ _⟩
      refine ⟨⟨_, hshare, fun symbol hsymbol => ?_, hrequests, hbalances, hpaid.votes,
        hpaid.comments, hpaid.workerRequestCreationFee⟩, hpaid.tallied⟩
      apply sum_le_of_le_share hsymbol
      intro r hr
      rw [List.mem_filter, decide_eq_true_iff] at hr
      have hle := (hshare r hr.1).2.2
      unfold payingCount at hle
      rw [hr.2, List.countP_eq_length_filter] at hle
      exact hle

end bounds

end WorkerDatabase

end Golos
