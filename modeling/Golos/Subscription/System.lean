import Golos.Subscription.Lemmas
import Golos.Lib.Transition

/-!
This module contains the payments that a block collects from subscribers, the runs of paid
subscriptions, and what holds of every row in them.
-/

namespace Golos.Subscription

open Checked

namespace SubscriptionDatabase

variable {db db' db'' : SubscriptionDatabase} {r : PaidSubscriberObject} {key : SubscriberKey}
  {keys rest : List SubscriberKey}

/-- The row of a subscriber who is not charged any more. -/
def deactivated (r : PaidSubscriberObject) (reason : PsroInactiveReason) : PaidSubscriberObject :=
  { r with active := false, nextPayment := 0, inactiveReason := reason }

/-- The row of a subscriber after a charge. -/
def charged (r : PaidSubscriberObject) (prepaid : ℤ) : PaidSubscriberObject :=
  { r with
    prepaid := ⟨r.prepaid.amount - (prepaid + restOf r prepaid), r.prepaid.symbol⟩
    prepaidSources :=
      if r.prepaid.amount - (prepaid + restOf r prepaid) = 0 then [] else r.prepaidSources
    executionsLeft := r.executionsLeft - 1
    nextPayment := addSeconds r.nextPayment r.interval }

structure Deactivates (r : PaidSubscriberObject) (reason : PsroInactiveReason)
    (db db' : SubscriptionDatabase) : Prop where
  quiet : Quiet db db'
  funds : ∀ t a s, db'.fund t a s = db.fund t a s
  subscribers : Table.Updates db.subscribers db'.subscribers r (deactivated r reason)
  subscriptions : ∃ pso, db.subscriptions.find? (r.author, r.oid) = some pso ∧
    Table.Updates db.subscriptions db'.subscriptions pso
      { pso with activeSubscribers := decrease pso.activeSubscribers 1 }
  sponsorCount? : ∀ name, db'.sponsorCount? name = db.sponsorCount? name
  returned : db'.returned = db.returned

/-- The cost, and on the last execution what is left of the prepaid money, goes to the author. As
much as there is of the cost comes from the prepaid money, and `amount` from the balance. -/
structure Charges (r : PaidSubscriberObject) (prepaid amount : ℤ) (db db' : SubscriptionDatabase) :
    Prop where
  share : prepaid = min r.cost.amount r.prepaid.amount
  sum : prepaid + amount = r.cost.amount
  enough : 0 < amount → amount ≤ db.fund r.tipCost r.subscriber r.cost.symbol
  funds : ∀ t a s, db'.fund t a s = db.fund t a s
    + onFund r.tipCost r.subscriber r.cost.symbol (-amount) t a s
    + onFund r.tipCost r.author r.cost.symbol (r.cost.amount + restOf r prepaid) t a s
  subscribers : Table.Updates db.subscribers db'.subscribers r (charged r prepaid)
  subscriptions : db'.subscriptions = db.subscriptions
  sponsorCount? : ∀ name, db'.sponsorCount? name = db.sponsorCount? name
  returned : db'.returned = db.returned
  headBlockTime : db'.headBlockTime = db.headBlockTime
  charges : ∀ key, db'.charges key =
    db.charges key + if key = r.byAuthorOidSubscriber then 1 else 0

/-- One turn of the loop. -/
inductive Turn (r : PaidSubscriberObject) (db db' : SubscriptionDatabase) : Prop
  | executionsEnd (hleft : r.executionsLeft = 0) (h : Deactivates r .executionsEnd db db')
  | insufficientFunds (hleft : 0 < r.executionsLeft)
    (hlt : db.fund r.tipCost r.subscriber r.cost.symbol + min r.cost.amount r.prepaid.amount
      < r.cost.amount) (h : Deactivates r .insufficientFunds db db')
  | charge (hleft : 0 < r.executionsLeft) (prepaid amount : ℤ) (h : Charges r prepaid amount db db')

theorem deactivates_of_deactivate {reason : PsroInactiveReason}
    (hr : db.subscribers.find? r.byAuthorOidSubscriber = some r)
    (h : db.deactivate r reason = .ok db') : Deactivates r reason db db' := by
  simp only [deactivate, bind_eq_ok, getPaidSubscription_eq_ok, pure_eq_ok] at h
  obtain ⟨pso, hpso, rfl⟩ := h
  have hkey := Table.key_of_find? hpso
  refine ⟨⟨rfl, fun _ => rfl⟩, fun _ _ _ => rfl, .modify _ hr, ⟨pso, hpso, ?_⟩, fun _ => rfl, rfl⟩
  have hpso' := hpso
  rw [← hkey] at hpso'
  exact .modify _ hpso'

theorem charges_of_collect {amount : ℤ} {db₁ : SubscriptionDatabase}
    (hr : db.subscribers.find? r.byAuthorOidSubscriber = some r)
    (hsum : amount = r.cost.amount - min r.cost.amount r.prepaid.amount)
    (henough : 0 < amount → amount ≤ db.fund r.tipCost r.subscriber r.cost.symbol)
    (hpays : Pays db db₁) (hfunds : ∀ t a s, db₁.fund t a s =
      db.fund t a s + onFund r.tipCost r.subscriber r.cost.symbol (-amount) t a s)
    (h : db₁.collect r (min r.cost.amount r.prepaid.amount) amount = .ok db') :
    Charges r (min r.cost.amount r.prepaid.amount) amount db db' := by
  simp only [collect, bind_eq_ok, int64_eq_ok, pure_eq_ok] at h
  obtain ⟨_, ⟨-, rfl⟩, _, ⟨-, rfl⟩, db₂, hpay, rfl⟩ := h
  obtain ⟨-, hpays', hfunds'⟩ := payForSubscription_cases hpay
  have hboth := hpays.trans hpays'
  have hcost : min r.cost.amount r.prepaid.amount + amount = r.cost.amount := by omega
  refine ⟨rfl, hcost, henough, fun t a s => ?_, ?_, hboth.subscriptions, hboth.sponsorCount?,
    hboth.returned, hboth.headBlockTime, fun key => ?_⟩
  . refine (hfunds' t a s).trans ?_
    rw [hfunds, hcost]
  . rw [← hboth.subscribers] at hr ⊢
    exact .modify _ hr
  . unfold SubscriptionDatabase.charges
    refine (@List.countP_append _ _ db₂.events _).trans ?_
    rw [hboth.events, List.countP_singleton]
    simp only [isCharge, decide_eq_true_eq, eq_comm (a := key)]

theorem billSubscriber_cases (hr : db.subscribers.find? r.byAuthorOidSubscriber = some r)
    (h : db.billSubscriber r = .ok db') : Turn r db db' := by
  unfold billSubscriber at h
  split at h
  . next hleft => exact .executionsEnd hleft (deactivates_of_deactivate hr h)
  . next hleft =>
    have hleft : 0 < r.executionsLeft := by omega
    simp only [bind_eq_ok, int64_eq_ok] at h
    obtain ⟨_, -, amount, ⟨-, hamount⟩, h⟩ := h
    split at h
    . next hlt =>
      simp only [bind_eq_ok] at h
      obtain ⟨claimed, hclaim, h⟩ := h
      rcases claimForSubscription_eq_ok hclaim with ⟨rfl, hpoor⟩ | ⟨db₁, rfl, hrich, hpays, hfunds⟩
      . simp only [bind_eq_ok, pure_eq_ok] at h
        obtain ⟨db₁, hdeactivate, rfl⟩ := h
        have hd := deactivates_of_deactivate hr hdeactivate
        dsimp only at hpoor
        refine .insufficientFunds hleft (by omega) ⟨?_, hd.funds, hd.subscribers,
          hd.subscriptions, hd.sponsorCount?, hd.returned⟩
        have hevents :
            (db₁.pushEvent (.inactive r.byAuthorOidSubscriber .insufficientFunds)).events =
              db₁.events ++ [.inactive r.byAuthorOidSubscriber .insufficientFunds] := rfl
        refine hd.quiet.trans (.of_append rfl hevents ?_)
        intro key e he
        rw [List.mem_singleton.mp he]
        rfl
      . exact .charge hleft _ amount
          (charges_of_collect hr hamount.symm (fun _ => hrich) hpays hfunds h)
    . next hfull =>
      have hzero : amount = 0 := by omega
      refine .charge hleft _ amount
        (charges_of_collect hr hamount.symm (fun hpos => by omega) (.refl db) (fun t a s => ?_) h)
      unfold onFund
      rw [hzero, Int.neg_zero, ite_self, Int.add_zero]

theorem Turn.headBlockTime (h : Turn r db db') : db'.headBlockTime = db.headBlockTime := by
  cases h with
  | executionsEnd _ h => exact h.quiet.headBlockTime
  | insufficientFunds _ _ h => exact h.quiet.headBlockTime
  | charge _ _ _ h => exact h.headBlockTime

/-- The other rows stay. -/
theorem Turn.find?_of_ne (h : Turn r db db') (hne : key ≠ r.byAuthorOidSubscriber) :
    db'.subscribers.find? key = db.subscribers.find? key := by
  cases h with
  | executionsEnd _ h => rw [h.subscribers.find?, if_neg hne]
  | insufficientFunds _ _ h => rw [h.subscribers.find?, if_neg hne]
  | charge _ _ _ h => rw [h.subscribers.find?, if_neg hne]

/-- The row itself is off the index, or has one execution less. -/
theorem Turn.find?_self (h : Turn r db db') :
    ∃ r', db'.subscribers.find? r.byAuthorOidSubscriber = some r' ∧
      (r'.nextPayment = 0 ∨ r'.executionsLeft + 1 = r.executionsLeft) := by
  cases h with
  | executionsEnd _ h => exact ⟨_, (h.subscribers.find? _).trans (if_pos rfl), .inl rfl⟩
  | insufficientFunds _ _ h => exact ⟨_, (h.subscribers.find? _).trans (if_pos rfl), .inl rfl⟩
  | charge hleft prepaid amount h =>
    refine ⟨_, (h.subscribers.find? _).trans (if_pos rfl), .inr ?_⟩
    unfold charged
    dsimp only
    omega

/-- The turns of the loop, one after another. -/
inductive Bills : SubscriptionDatabase → SubscriptionDatabase → Prop
  | refl (db : SubscriptionDatabase) : Bills db db
  | turn {db db' db'' : SubscriptionDatabase} {r : PaidSubscriberObject}
    (hr : db.subscribers.find? r.byAuthorOidSubscriber = some r) (hnext : r.nextPayment ≠ 0)
    (hdue : r.nextPayment ≤ db.headBlockTime) (h : Turn r db db') (hrest : Bills db' db'') :
    Bills db db''

/-- What every turn keeps, the whole loop keeps. -/
theorem Bills.invariant {P : SubscriptionDatabase → Prop} (h : Bills db db')
    (hturn : ∀ db db' r, P db → db.subscribers.find? r.byAuthorOidSubscriber = some r →
      r.nextPayment ≠ 0 → r.nextPayment ≤ db.headBlockTime → Turn r db db' → P db')
    (hdb : P db) : P db' := by
  induction h with
  | refl => exact hdb
  | turn hr hnext hdue h _ ih => exact ih (hturn _ _ _ hdb hr hnext hdue h)

/-- The keys that the loop still has before it: all of them are on the index, once. -/
structure Indexed (db : SubscriptionDatabase) (keys : List SubscriberKey) : Prop where
  nodup : keys.Nodup
  next : ∀ key ∈ keys, db.nextPaymentOf key ≠ 0

theorem nextPaymentOf_congr (h : db'.subscribers.find? key = db.subscribers.find? key) :
    db'.nextPaymentOf key = db.nextPaymentOf key := by
  unfold nextPaymentOf
  rw [h]

/-- A key comes up again only with a time that has not been cleared. -/
theorem requeue_cases (db : SubscriptionDatabase) (rest : List SubscriberKey)
    (key : SubscriberKey) :
    db.requeue rest key = rest ∨
      db.nextPaymentOf key ≠ 0 ∧ (db.requeue rest key).Perm (key :: rest) := by
  unfold requeue
  split
  . exact .inl rfl
  . next next rest' =>
    split
    . next hlt =>
      refine .inr ⟨by omega, ?_⟩
      refine List.perm_middle.trans (.cons _ ?_)
      rw [List.takeWhile_append_dropWhile]
    . exact .inl rfl

theorem Indexed.turn (h : Indexed db (key :: rest))
    (hkey : r.byAuthorOidSubscriber = key) (hturn : Turn r db db') :
    Indexed db' (db'.requeue rest key) := by
  obtain ⟨hfresh, hnodup⟩ := List.nodup_cons.mp h.nodup
  have hnext : ∀ k ∈ rest, db'.nextPaymentOf k ≠ 0 := by
    intro k hk
    have hne : k ≠ r.byAuthorOidSubscriber := by
      rintro rfl
      exact hfresh (hkey ▸ hk)
    rw [nextPaymentOf_congr (hturn.find?_of_ne hne)]
    exact h.next k (List.mem_cons_of_mem _ hk)
  rcases requeue_cases db' rest key with hsame | ⟨hne, hperm⟩
  . rw [hsame]
    exact ⟨hnodup, hnext⟩
  . refine ⟨hperm.nodup_iff.mpr h.nodup, fun k hk => ?_⟩
    rcases List.mem_cons.mp (hperm.mem_iff.mp hk) with rfl | hk
    . exact hne
    . exact hnext k hk

theorem bills_of_billFrom {fuel : Nat} (hindexed : Indexed db keys)
    (h : billFrom fuel db keys = .ok db') : Bills db db' := by
  induction fuel generalizing db keys with
  | zero =>
    cases h
    exact .refl _
  | succ fuel ih =>
    cases keys with
    | nil =>
      cases h
      exact .refl _
    | cons key rest =>
      simp only [billFrom, bind_eq_ok, getPaidSubscriber_eq_ok] at h
      obtain ⟨r, hr, h⟩ := h
      have hkey := Table.key_of_find? hr
      split at h
      . cases h
        exact .refl _
      . next hdue =>
        simp only [bind_eq_ok] at h
        obtain ⟨db₁, hbill, h⟩ := h
        have hnext := hindexed.next key List.mem_cons_self
        unfold nextPaymentOf at hnext
        rw [hr] at hnext
        rw [← hkey] at hr
        have hturn := billSubscriber_cases hr hbill
        exact .turn hr hnext (by omega) hturn (ih (hindexed.turn hkey hturn) h)

theorem Indexed.of_isNextPaymentIndex (h : db.IsNextPaymentIndex keys) : Indexed db keys := by
  have hlists : Table.Lists db.subscribers
      (db.subscribers.rows.filter fun r => r.nextPayment ≠ 0) := .filter _ _
  refine ⟨h.1.nodup_iff.mpr hlists.nodup, fun key hkey => ?_⟩
  obtain ⟨r, hr, rfl⟩ := List.mem_map.mp (h.1.mem_iff.mp hkey)
  have hnext := (List.mem_filter.mp hr).2
  rw [decide_eq_true_iff] at hnext
  unfold nextPaymentOf
  rw [hlists.row r hr]
  exact hnext

theorem bills_of_processPaidSubscribers (hindex : db.IsNextPaymentIndex keys)
    (h : db.processPaidSubscribers keys = .ok db') : Bills db db' :=
  bills_of_billFrom (.of_isNextPaymentIndex hindex) h

section fuel

/-- The turns that one key can take. -/
def turnsOfKey (db : SubscriptionDatabase) (key : SubscriberKey) : Nat :=
  match db.subscribers.find? key with
  | some r => r.executionsLeft + 1
  | none => 1

theorem turnsOf_cons (db : SubscriptionDatabase) (key : SubscriberKey)
    (rest : List SubscriberKey) :
    db.turnsOf (key :: rest) = db.turnsOfKey key + db.turnsOf rest := by
  unfold turnsOf
  rw [List.map_cons, List.sum_cons]
  rfl

theorem turnsOf_of_perm (db : SubscriptionDatabase) (h : keys.Perm rest) :
    db.turnsOf keys = db.turnsOf rest := by
  unfold turnsOf
  exact (h.map _).sum_eq

/-- Every turn uses up one of those that the loop has left. -/
theorem turnsOf_requeue (hindexed : Indexed db (key :: rest))
    (hr : db.subscribers.find? r.byAuthorOidSubscriber = some r)
    (hkey : r.byAuthorOidSubscriber = key) (hturn : Turn r db db') :
    db'.turnsOf (db'.requeue rest key) + 1 ≤ db.turnsOf (key :: rest) := by
  have hfresh := (List.nodup_cons.mp hindexed.nodup).1
  have hrest : db'.turnsOf rest = db.turnsOf rest := by
    unfold turnsOf
    congr 1
    apply List.map_congr_left
    intro k hk
    rw [hturn.find?_of_ne]
    rintro rfl
    exact hfresh (hkey ▸ hk)
  have hself : db.turnsOfKey key = r.executionsLeft + 1 := by
    unfold turnsOfKey
    rw [← hkey, hr]
  rw [turnsOf_cons, hself]
  rcases requeue_cases db' rest key with hsame | ⟨hne, hperm⟩
  . rw [hsame, hrest]
    omega
  . obtain ⟨r', hr', hleft⟩ := hturn.find?_self
    rw [hkey] at hr'
    have hself' : db'.turnsOfKey key = r'.executionsLeft + 1 := by
      unfold turnsOfKey
      rw [hr']
    unfold nextPaymentOf at hne
    rw [hr'] at hne
    dsimp only at hne
    rw [turnsOf_of_perm db' hperm, turnsOf_cons, hself', hrest]
    omega

/-- The loop ends by itself within the turns it is given: more of them change nothing. -/
theorem billFrom_succ {fuel : Nat} (hindexed : Indexed db keys) (hfuel : db.turnsOf keys ≤ fuel) :
    billFrom (fuel + 1) db keys = billFrom fuel db keys := by
  induction fuel generalizing db keys with
  | zero =>
    cases keys with
    | nil => rfl
    | cons key rest =>
      rw [turnsOf_cons] at hfuel
      have hpos : 0 < db.turnsOfKey key := by
        unfold turnsOfKey
        split
        . omega
        . omega
      omega
  | succ fuel ih =>
    cases keys with
    | nil => rfl
    | cons key rest =>
      unfold billFrom
      cases hfind : db.getPaidSubscriber key with
      | error e => rfl
      | ok r =>
        rw [ok_bind, ok_bind]
        split
        . rfl
        . cases hbill : db.billSubscriber r with
          | error e => rfl
          | ok db₁ =>
            rw [ok_bind, ok_bind]
            rw [getPaidSubscriber_eq_ok] at hfind
            have hkey := Table.key_of_find? hfind
            have hr := hfind
            rw [← hkey] at hr
            have hturn := billSubscriber_cases hr hbill
            have hless := turnsOf_requeue hindexed hr hkey hturn
            exact ih (hindexed.turn hkey hturn) (by omega)

theorem processPaidSubscribers_eq_billFrom {fuel : Nat} (hindex : db.IsNextPaymentIndex keys)
    (hfuel : db.turnsOf keys ≤ fuel) : billFrom fuel db keys = db.processPaidSubscribers keys := by
  unfold processPaidSubscribers
  obtain ⟨k, rfl⟩ := Nat.exists_eq_add_of_le hfuel
  induction k with
  | zero => rfl
  | succ k ih =>
    rw [← ih (Nat.le_add_right _ _)]
    exact billFrom_succ (.of_isNextPaymentIndex hindex) (Nat.le_add_right _ _)

end fuel

end SubscriptionDatabase

namespace SubscriptionDatabase

inductive Event where
  | paidSubscriptionCreate (op : PaidSubscriptionCreateOperation)
  | paidSubscriptionUpdate (op : PaidSubscriptionUpdateOperation)
  | paidSubscriptionDelete (op : PaidSubscriptionDeleteOperation)
  | paidSubscriptionTransfer (op : PaidSubscriptionTransferOperation)
  | paidSubscriptionCancel (op : PaidSubscriptionCancelOperation)
  | processPaidSubscribers (index : List SubscriberKey)
  /-- Everything else: passing blocks, balances, assets and new accounts. -/
  | elsewhere

/-- Time passes, and accounts stay. New ones have not been sponsored. -/
structure Elsewhere (db db' : SubscriptionDatabase) : Prop where
  subscriptions : db'.subscriptions = db.subscriptions
  subscribers : db'.subscribers = db.subscribers
  events : db'.events = db.events
  returned : db'.returned = db.returned
  headBlockTime : db.headBlockTime ≤ db'.headBlockTime
  sponsorCount : ∀ name n, db.sponsorCount? name = some n → db'.sponsorCount? name = some n
  newSponsor : ∀ name n, db.sponsorCount? name = none → db'.sponsorCount? name = some n → n = 0

def Step (db : SubscriptionDatabase) : Event → SubscriptionDatabase → Prop
  | .paidSubscriptionCreate op, db' => db.paidSubscriptionCreate op = .ok db'
  | .paidSubscriptionUpdate op, db' => db.paidSubscriptionUpdate op = .ok db'
  | .paidSubscriptionDelete op, db' => db.paidSubscriptionDelete op = .ok db'
  | .paidSubscriptionTransfer op, db' => db.paidSubscriptionTransfer op = .ok db'
  | .paidSubscriptionCancel op, db' => db.paidSubscriptionCancel op = .ok db'
  | .processPaidSubscribers index, db' =>
    db.IsNextPaymentIndex index ∧ db.processPaidSubscribers index = .ok db'
  | .elsewhere, db' => db.Elsewhere db'

end SubscriptionDatabase

/-- At first there are no subscriptions. -/
def system : TransitionSystem SubscriptionDatabase SubscriptionDatabase.Event where
  initial db := db.subscriptions = .empty ∧ db.subscribers = .empty ∧ db.returned = [] ∧
    ∀ name n, db.sponsorCount? name = some n → n = 0
  step := SubscriptionDatabase.Step

structure PaidSubscriberObject.Sound (r : PaidSubscriberObject) : Prop where
  symbol : r.prepaid.symbol = r.cost.symbol
  prepaid : 0 ≤ r.prepaid.amount
  cost : 0 < r.cost.amount
  active : r.nextPayment ≠ 0 → r.active = true
  interval : 0 < r.executionsLeft → 0 < r.interval

namespace SubscriptionDatabase

variable {db db' : SubscriptionDatabase} {r r' : PaidSubscriberObject}
  {pso : PaidSubscriptionObject} {op : PaidSubscriptionTransferOperation}

structure Sound (db : SubscriptionDatabase) : Prop where
  rows : ∀ r ∈ db.subscribers.rows, r.Sound
  terms : ∀ pso ∈ db.subscriptions.rows, Terms pso.cost pso.interval pso.executions

theorem Sound.of_rows (h : db.Sound) (hsubscriptions : db'.subscriptions = db.subscriptions)
    (hrows : ∀ r ∈ db'.subscribers.rows, r ∈ db.subscribers.rows) : db'.Sound :=
  ⟨fun r hr => h.rows r (hrows r hr), fun pso hpso => h.terms pso (hsubscriptions ▸ hpso)⟩

theorem rows_of_updates {t t' : Table PaidSubscriberObject.byAuthorOidSubscriber}
    {P : PaidSubscriberObject → Prop} (h : t.Updates t' r r')
    (hkey : r'.byAuthorOidSubscriber = r.byAuthorOidSubscriber) (hrows : ∀ r ∈ t.rows, P r)
    (hr' : P r') : ∀ r ∈ t'.rows, P r := by
  intro o ho
  rcases (h.mem_rows hkey).mp ho with ⟨ho, -⟩ | rfl
  . exact hrows o ho
  . exact hr'

theorem terms_of_updates {t t' : Table PaidSubscriptionObject.byAuthorOid}
    {pso' : PaidSubscriptionObject} {P : PaidSubscriptionObject → Prop} (h : t.Updates t' pso pso')
    (hkey : pso'.byAuthorOid = pso.byAuthorOid) (hrows : ∀ pso ∈ t.rows, P pso) (hpso' : P pso') :
    ∀ pso ∈ t'.rows, P pso := by
  intro o ho
  rcases (h.mem_rows hkey).mp ho with ⟨ho, -⟩ | rfl
  . exact hrows o ho
  . exact hpso'

theorem sound_updateSubscriber {cost : Asset} (h : r.Sound) (hcost : 0 < cost.amount) :
    (updateSubscriber cost r).Sound where
  symbol := by
    unfold updateSubscriber
    dsimp only
    split
    . rfl
    . next hsame => exact h.symbol.trans (not_not.mp hsame).symm
  prepaid := by
    unfold updateSubscriber
    dsimp only
    split
    . exact le_rfl
    . exact h.prepaid
  cost := hcost
  active := by
    intro hnext
    unfold updateSubscriber at hnext
    dsimp only at hnext
    split at hnext
    . exact absurd rfl hnext
    . next hactive => exact absurd (h.active hnext) hactive
  interval := h.interval

theorem sound_newSubscriber {now : Nat} {toPrepaid : ℤ} (hprepaid : 0 ≤ toPrepaid)
    (hterms : Terms pso.cost pso.interval pso.executions) :
    (newSubscriber pso op now toPrepaid).Sound :=
  ⟨rfl, hprepaid, hterms.cost, fun _ => rfl, hterms.interval⟩

theorem keptPrepaid_nonneg (h : r.Sound) : 0 ≤ keptPrepaid pso r := by
  unfold keptPrepaid
  split
  . exact h.prepaid
  . exact le_rfl

theorem sound_of_renews {now : Nat} (h : r.Sound)
    (hterms : Terms pso.cost pso.interval pso.executions) (hamount : 0 < op.amount.amount)
    (hrenews : Renews pso now r r') (hdeposits : Deposits pso op.amount.amount r r') :
    r'.Sound := by
  have hactive : r'.nextPayment ≠ 0 → r'.active = true := fun _ => hrenews.active
  have hinterval : 0 < r'.executionsLeft → 0 < r'.interval := by
    rw [hrenews.executionsLeft, hrenews.interval]
    exact hterms.interval
  have hkept : 0 ≤ keptPrepaid pso r := keptPrepaid_nonneg h
  unfold Deposits at hdeposits
  split at hdeposits
  . obtain ⟨hcost, -, hprepaid, -⟩ := hdeposits
    refine ⟨?_, ?_, ?_, hactive, hinterval⟩
    . rw [hprepaid, hcost]
    . rw [hprepaid]
      dsimp only
      omega
    . rw [hcost]
      exact hterms.cost
  . obtain ⟨hcost, -, hprepaid, -⟩ := hdeposits
    refine ⟨?_, ?_, ?_, hactive, hinterval⟩
    . rw [hprepaid, hcost]
      exact h.symbol
    . rw [hprepaid]
      exact h.prepaid
    . rw [hcost]
      exact h.cost

theorem restOf_nonneg (r : PaidSubscriberObject) (prepaid : ℤ) : 0 ≤ restOf r prepaid := by
  unfold restOf
  split
  . omega
  . exact le_rfl

/-- A charge takes no more of the prepaid money than there is. -/
theorem charged_prepaid_nonneg {prepaid : ℤ} (h : prepaid ≤ r.prepaid.amount) :
    0 ≤ (charged r prepaid).prepaid.amount := by
  unfold charged restOf
  dsimp only
  split
  . omega
  . omega

theorem sound_charged {prepaid amount : ℤ} (h : r.Sound) (hnext : r.nextPayment ≠ 0)
    (hcharges : Charges r prepaid amount db db') : (charged r prepaid).Sound where
  symbol := h.symbol
  prepaid := by
    apply charged_prepaid_nonneg
    have := hcharges.share
    omega
  cost := h.cost
  active := fun _ => h.active hnext
  interval := by
    intro hleft
    apply h.interval
    unfold charged at hleft
    dsimp only at hleft
    omega

theorem Sound.deactivates {reason : PsroInactiveReason} (h : db.Sound)
    (hr : db.subscribers.find? r.byAuthorOidSubscriber = some r)
    (hd : Deactivates r reason db db') : db'.Sound := by
  have hsound := h.rows r (Table.mem_of_find? hr)
  obtain ⟨pso, hpso, hupdates⟩ := hd.subscriptions
  refine ⟨rows_of_updates hd.subscribers rfl h.rows ⟨hsound.symbol, hsound.prepaid, hsound.cost,
    fun hnext => absurd rfl hnext, hsound.interval⟩, ?_⟩
  exact terms_of_updates (P := fun pso => Terms pso.cost pso.interval pso.executions) hupdates rfl
    h.terms (h.terms pso (Table.mem_of_find? hpso))

theorem Sound.turn (h : db.Sound) (hr : db.subscribers.find? r.byAuthorOidSubscriber = some r)
    (hnext : r.nextPayment ≠ 0) (hturn : Turn r db db') : db'.Sound := by
  cases hturn with
  | executionsEnd _ hd => exact h.deactivates hr hd
  | insufficientFunds _ _ hd => exact h.deactivates hr hd
  | charge _ prepaid amount hcharges =>
    have hsound := h.rows r (Table.mem_of_find? hr)
    refine ⟨rows_of_updates hcharges.subscribers rfl h.rows (sound_charged hsound hnext hcharges),
      fun pso hpso => h.terms pso (hcharges.subscriptions ▸ hpso)⟩

theorem Sound.bills (h : db.Sound) (hbills : Bills db db') : db'.Sound :=
  hbills.invariant (fun _ _ _ hsound hr hnext _ hturn => hsound.turn hr hnext hturn) h

theorem Sound.update {op : PaidSubscriptionUpdateOperation} (h : db.Sound)
    (hupdate : db.paidSubscriptionUpdate op = .ok db') : db'.Sound := by
  obtain ⟨pso, -, hterms, -, -, -, ⟨hsame, hupdates⟩ | ⟨hrows, hupdates⟩⟩ :=
    paidSubscriptionUpdate_cases hupdate
  . exact ⟨fun r hr => h.rows r (hsame ▸ hr), terms_of_updates hupdates rfl h.terms hterms⟩
  . refine ⟨fun r hr => ?_, terms_of_updates hupdates rfl h.terms hterms⟩
    rw [hrows] at hr
    obtain ⟨o, ho, rfl⟩ := mem_updateSubscribers.mp hr
    split
    . exact sound_updateSubscriber (h.rows o ho) hterms.cost
    . exact h.rows o ho

theorem Sound.transfer (h : db.Sound) (htransfer : db.paidSubscriptionTransfer op = .ok db') :
    db'.Sound := by
  obtain ⟨pso, db₁, hamount, hmatches, hpso, hsettles, hcases⟩ :=
    paidSubscriptionTransfer_cases htransfer
  have hterms := h.terms pso (Table.mem_of_find? hpso)
  rw [← hsettles.subscriptions] at hpso
  have h₁ : db₁.Sound := h.of_rows hsettles.subscriptions fun r hr => hsettles.subscribers ▸ hr
  rcases hcases with ⟨-, hadd⟩ | ⟨r, hr, hprolong⟩
  . obtain ⟨toPrepaid, -, hprepaid, -, -, hinserts, hupdates, -⟩ :=
      addSubscriber_cases hmatches hpso hadd
    refine ⟨fun r hr => ?_, terms_of_updates hupdates rfl h₁.terms hterms⟩
    rcases (hinserts.mem r).mp hr with hr | rfl
    . exact h₁.rows r hr
    . exact sound_newSubscriber hprepaid hterms
  . rw [← hsettles.subscribers] at hr
    obtain ⟨r', hrenews, hdeposits, -, -, -, -, hrows, hupdates⟩ :=
      prolongSubscriber_cases hmatches hpso hr hprolong
    have hsound := h₁.rows r (Table.mem_of_find? hr)
    exact ⟨rows_of_updates hrows hrenews.key h₁.rows
      (sound_of_renews hsound hterms hamount hrenews hdeposits),
      terms_of_updates hupdates rfl h₁.terms hterms⟩

/-- One step keeps the rows sound. -/
theorem Sound.step {e : Event} (h : db.Sound) (hstep : db.Step e db') : db'.Sound := by
  cases e with
  | paidSubscriptionCreate op =>
    obtain ⟨pso, hterms, -, -, -, hinserts, hdb'⟩ := paidSubscriptionCreate_cases hstep
    have hrows : db'.subscribers = db.subscribers := by rw [hdb']
    refine ⟨fun r hr => h.rows r (hrows ▸ hr), fun o ho => ?_⟩
    rcases (hinserts.mem o).mp ho with ho | rfl
    . exact h.terms o ho
    . exact hterms
  | paidSubscriptionUpdate op => exact h.update hstep
  | paidSubscriptionDelete op =>
    obtain ⟨pso, n, -, -, hremoves, -, herase, -⟩ := paidSubscriptionDelete_cases hstep
    refine ⟨fun r hr => h.rows r ((hremoves.mem r).mp hr).1, fun o ho => ?_⟩
    rw [herase] at ho
    exact h.terms o (Table.mem_erase.mp ho).1
  | paidSubscriptionTransfer op => exact h.transfer hstep
  | paidSubscriptionCancel op =>
    obtain ⟨r, pso, n, -, hpso, -, herase, -, hupdates, -⟩ := paidSubscriptionCancel_cases hstep
    refine ⟨fun o ho => ?_, ?_⟩
    . rw [herase] at ho
      exact h.rows o (Table.mem_erase.mp ho).1
    . exact terms_of_updates (P := fun pso => Terms pso.cost pso.interval pso.executions) hupdates
        rfl h.terms (h.terms pso (Table.mem_of_find? hpso))
  | processPaidSubscribers index => exact h.bills (bills_of_processPaidSubscribers hstep.1 hstep.2)
  | elsewhere => exact h.of_rows hstep.subscriptions fun r hr => hstep.subscribers ▸ hr

theorem sound_of_reach {ok : SubscriptionDatabase → Event → Prop} (h : system.Reach ok db) :
    db.Sound := by
  refine h.invariant (fun db hinitial => ?_) fun _ _ _ hsound _ hstep => hsound.step hstep
  obtain ⟨hsubscriptions, hsubscribers, -⟩ := hinitial
  have hrows : ∀ r, r ∉ db.subscribers.rows := by
    intro r
    rw [hsubscribers]
    exact List.not_mem_nil
  have hterms : ∀ pso, pso ∉ db.subscriptions.rows := by
    intro pso
    rw [hsubscriptions]
    exact List.not_mem_nil
  exact ⟨fun r hr => absurd hr (hrows r), fun pso hpso => absurd hpso (hterms pso)⟩

end SubscriptionDatabase

end Golos.Subscription
