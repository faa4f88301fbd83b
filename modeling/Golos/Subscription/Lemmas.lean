import Golos.Ledger.Lemmas
import Golos.Subscription.Impl

/-!
This module contains what the operations on paid subscriptions write, and the effect of their
payments on liquid and TIP balances.
-/

namespace Golos.Subscription

open Checked

namespace SubscriptionDatabase

variable {db db' : SubscriptionDatabase} {name : AccountName} {symbol : AssetSymbolType}
  {tip : Bool} {r : PaidSubscriberObject} {pso : PaidSubscriptionObject} {key : SubscriberKey}

theorem getPaidSubscriber_eq_ok :
    db.getPaidSubscriber key = .ok r ↔ db.subscribers.find? key = some r := by
  unfold getPaidSubscriber
  rw [get_eq_ok]

theorem getPaidSubscription_eq_ok {author : AccountName} {oid : PaidSubscriptionId} :
    db.getPaidSubscription author oid = .ok pso ↔
      db.subscriptions.find? (author, oid) = some pso := by
  unfold getPaidSubscription
  rw [get_eq_ok]

section fund

/-- What one object holds of a balance, 0 where there is no object. -/
def held (l : Ledger) (f : AccountBalanceObject → ℤ) (name : AccountName)
    (symbol : AssetSymbolType) : ℤ :=
  match l.accountBalances.find? (symbol, name) with
  | some o => f o
  | none => 0

/-- The TIP balance of an account in one symbol. -/
def tipFund (db : SubscriptionDatabase) (name : AccountName) (symbol : AssetSymbolType) : ℤ :=
  if symbol = steemSymbol then
    match db.accounts.find? name with
    | some a => a.tipBalance
    | none => 0
  else
    held db.ledger AccountBalanceObject.tipBalance name symbol

/-- What an account has of one kind in one symbol. -/
def fund (db : SubscriptionDatabase) (tip : Bool) (name : AccountName) (symbol : AssetSymbolType) :
    ℤ :=
  if tip = true then db.tipFund name symbol else db.ledger.mainBalance name symbol

/-- A change of one fund. -/
def onFund (tip : Bool) (name : AccountName) (symbol : AssetSymbolType) (amount : ℤ)
    (tip' : Bool) (name' : AccountName) (symbol' : AssetSymbolType) : ℤ :=
  if tip' = tip ∧ name' = name ∧ symbol' = symbol then amount else 0

def sponsorCount? (db : SubscriptionDatabase) (name : AccountName) : Option Nat :=
  (db.accounts.find? name).map SponsorAccountObject.sponsorCount

/-- Nothing but funds differs. -/
structure Pays (db db' : SubscriptionDatabase) : Prop where
  subscriptions : db'.subscriptions = db.subscriptions
  subscribers : db'.subscribers = db.subscribers
  sponsorCount? : ∀ name, db'.sponsorCount? name = db.sponsorCount? name
  headBlockTime : db'.headBlockTime = db.headBlockTime
  events : db'.events = db.events
  returned : db'.returned = db.returned

theorem Pays.refl (db : SubscriptionDatabase) : Pays db db :=
  ⟨rfl, rfl, fun _ => rfl, rfl, rfl, rfl⟩

theorem Pays.trans {db'' : SubscriptionDatabase} (h : Pays db db') (h' : Pays db' db'') :
    Pays db db'' :=
  ⟨h'.subscriptions.trans h.subscriptions, h'.subscribers.trans h.subscribers,
    fun name => (h'.sponsorCount? name).trans (h.sponsorCount? name),
    h'.headBlockTime.trans h.headBlockTime, h'.events.trans h.events,
    h'.returned.trans h.returned⟩

theorem find?_of_adjustAccountBalance {l l' : Ledger} {delta deltaTip deltaMarket : ℤ}
    (h : l.adjustAccountBalance name symbol delta deltaTip deltaMarket = .ok l') :
    l'.accounts = l.accounts ∧
      (∀ k, k ≠ (symbol, name) → l'.accountBalances.find? k = l.accountBalances.find? k) ∧
      ∃ o, l'.accountBalances.find? (symbol, name) = some o ∧
        o.balance = held l AccountBalanceObject.balance name symbol + delta ∧
        o.tipBalance = held l AccountBalanceObject.tipBalance name symbol + deltaTip := by
  unfold Ledger.adjustAccountBalance at h
  split at h
  . next o ho =>
    simp only [bind_eq_ok, pure_eq_ok] at h
    obtain ⟨balance, hbalance, tipBalance, htip, marketBalance, -, rfl⟩ := h
    have hheld : ∀ f, held l f name symbol = f o := fun f => by simp only [held, ho]
    refine ⟨rfl, fun k hk => ?_,
      { o with balance := balance, tipBalance := tipBalance, marketBalance := marketBalance },
      ?_, ?_, ?_⟩
    . rw [Table.find?_modify_of_ne _ _ _ hk]
    . rw [Table.find?_modify_self, ho, Option.map_some]
    . rw [hheld]
      exact eq_of_add64_eq_ok hbalance
    . rw [hheld]
      exact eq_of_add64_eq_ok htip
  . next hnone =>
    simp only [bind_eq_ok, pure_eq_ok] at h
    obtain ⟨_, -, rfl⟩ := h
    have hheld : ∀ f, held l f name symbol = 0 := fun f => by simp only [held, hnone]
    refine ⟨rfl, fun k hk => ?_, ⟨name, symbol, delta, deltaTip, deltaMarket⟩, ?_, ?_, ?_⟩
    . rw [Table.find?_insert _ _ hnone, if_neg (Ne.symm hk)]
    . rw [Table.find?_insert _ _ hnone, if_pos rfl]
    . rw [hheld, Int.zero_add]
    . rw [hheld, Int.zero_add]

theorem held_of_adjustAccountBalance {l l' : Ledger} {delta deltaTip deltaMarket : ℤ}
    (h : l.adjustAccountBalance name symbol delta deltaTip deltaMarket = .ok l')
    (a : AccountName) (s : AssetSymbolType) :
    held l' AccountBalanceObject.balance a s = held l AccountBalanceObject.balance a s
        + (if a = name ∧ s = symbol then delta else 0) ∧
      held l' AccountBalanceObject.tipBalance a s = held l AccountBalanceObject.tipBalance a s
        + (if a = name ∧ s = symbol then deltaTip else 0) := by
  obtain ⟨-, hne, o, ho, hbalance, htip⟩ := find?_of_adjustAccountBalance h
  by_cases heq : a = name ∧ s = symbol
  . obtain ⟨rfl, rfl⟩ := heq
    rw [if_pos ⟨rfl, rfl⟩, if_pos ⟨rfl, rfl⟩, ← hbalance, ← htip]
    simp only [held, ho, and_self]
  . rw [if_neg heq, if_neg heq, Int.add_zero, Int.add_zero]
    have hkey : (s, a) ≠ (symbol, name) := fun h => heq ⟨congrArg Prod.snd h, congrArg Prod.fst h⟩
    simp only [held, hne _ hkey, and_self]

theorem mainBalance_eq (l : Ledger) (a : AccountName) (s : AssetSymbolType) :
    l.mainBalance a s =
      if s = steemSymbol then
        ((l.accounts.find? a).map AccountObject.balance).getD 0
      else if s = sbdSymbol then
        ((l.accounts.find? a).map AccountObject.sbdBalance).getD 0
      else
        held l AccountBalanceObject.balance a s := by
  unfold Ledger.mainBalance held
  cases l.accounts.find? a <;> rfl

/-- Liquid money does not reach the TIP balances. -/
theorem tip_of_adjustBalance {l l' : Ledger} {delta : Asset}
    (h : l.adjustBalance name delta = .ok l') (a : AccountName) (s : AssetSymbolType) :
    held l' AccountBalanceObject.tipBalance a s = held l AccountBalanceObject.tipBalance a s := by
  unfold Ledger.adjustBalance at h
  simp only [bind_eq_ok] at h
  obtain ⟨account, -, h⟩ := h
  split at h
  . simp only [bind_eq_ok, pure_eq_ok] at h
    obtain ⟨balance, -, rfl⟩ := h
    rfl
  . split at h
    . simp only [bind_eq_ok, pure_eq_ok] at h
      obtain ⟨balance, -, rfl⟩ := h
      rfl
    . rw [(held_of_adjustAccountBalance h a s).2, ite_self, Int.add_zero]

/-- The whole effect of `pay_for_subscription`, and of a claim. -/
theorem pays_of_adjustFund {amount : ℤ} (h : db.adjustFund name amount symbol tip = .ok db') :
    Pays db db' ∧ ∀ t a s, db'.fund t a s = db.fund t a s + onFund tip name symbol amount t a s := by
  unfold adjustFund at h
  split at h
  . next htip =>
    subst htip
    split at h
    . next hsteem =>
      subst hsteem
      simp only [bind_eq_ok, pure_eq_ok, getSponsor, get_eq_ok] at h
      obtain ⟨account, haccount, tipBalance, hadd, rfl⟩ := h
      have hadd := eq_of_add64_eq_ok hadd
      refine ⟨⟨rfl, rfl, fun a => ?_, rfl, rfl, rfl⟩, fun t a s => ?_⟩
      . unfold SubscriptionDatabase.sponsorCount? modifySponsor
        rw [Table.find?_modify]
        split
        . next heq => rw [heq, haccount]
                      rfl
        . rfl
      . unfold fund onFund tipFund modifySponsor
        dsimp only
        rw [Table.find?_modify]
        by_cases heq : a = name
        . subst heq
          rw [if_pos rfl, haccount, Option.map_some]
          cases t <;> by_cases hs : s = steemSymbol <;> simp [hs, hadd]
        . simp [heq]
    . next hsteem =>
      simp only [bind_eq_ok, pure_eq_ok] at h
      obtain ⟨ledger, hadjust, rfl⟩ := h
      have hheld := held_of_adjustAccountBalance hadjust
      have haccounts := (find?_of_adjustAccountBalance hadjust).1
      refine ⟨⟨rfl, rfl, fun _ => rfl, rfl, rfl, rfl⟩, fun t a s => ?_⟩
      unfold fund onFund tipFund
      dsimp only
      rw [mainBalance_eq, mainBalance_eq, haccounts, (hheld a s).1, (hheld a s).2]
      by_cases hs : s = steemSymbol
      . have hne : s ≠ symbol := fun heq => hsteem (heq ▸ hs)
        subst hs
        simp [hne]
      . cases t <;> simp [hs]
  . next htip =>
    rw [Bool.not_eq_true] at htip
    subst htip
    simp only [bind_eq_ok, pure_eq_ok] at h
    obtain ⟨ledger, hadjust, rfl⟩ := h
    refine ⟨⟨rfl, rfl, fun _ => rfl, rfl, rfl, rfl⟩, fun t a s => ?_⟩
    have hmoves := (Ledger.moves_adjustBalance hadjust).balance a s
    unfold fund onFund tipFund
    dsimp only
    rw [hmoves, tip_of_adjustBalance hadjust]
    cases t <;> simp [Ledger.single]

theorem getBalance_eq_ok {balance : ℤ} (h : db.getBalance name symbol tip = .ok balance) :
    balance = db.fund tip name symbol := by
  have hheld : ∀ {o : AccountBalanceObject} (f : AccountBalanceObject → ℤ),
      f { account := name, symbol := symbol } = 0 →
      db.ledger.getOrDefaultAccountBalance name symbol = .ok o →
      f o = held db.ledger f name symbol := by
    intro o f hf ho
    unfold Ledger.getOrDefaultAccountBalance at ho
    unfold held
    cases hfind : db.ledger.accountBalances.find? (symbol, name) with
    | some o' =>
      simp only [hfind] at ho
      cases ho
      rfl
    | none =>
      simp only [hfind, bind_eq_ok, pure_eq_ok] at ho
      obtain ⟨_, -, rfl⟩ := ho
      exact hf
  unfold getBalance at h
  unfold fund
  split at h
  . next htip =>
    rw [if_pos htip]
    unfold tipFund
    split at h
    . next hsteem =>
      simp only [getSponsor, bind_eq_ok, get_eq_ok, pure_eq_ok] at h
      obtain ⟨account, haccount, rfl⟩ := h
      rw [if_pos hsteem, haccount]
    . next hsteem =>
      simp only [bind_eq_ok, pure_eq_ok] at h
      obtain ⟨o, ho, rfl⟩ := h
      rw [if_neg hsteem]
      exact hheld AccountBalanceObject.tipBalance rfl ho
  . next htip =>
    rw [if_neg htip, mainBalance_eq]
    simp only [bind_eq_ok, Ledger.getAccount_eq_ok, pure_eq_ok] at h
    obtain ⟨account, haccount, b, hb, rfl⟩ := h
    have hname := Table.key_of_find? haccount
    unfold Ledger.getBalance at hb
    rw [haccount]
    split at hb
    . next hsteem =>
      cases hb
      rw [if_pos hsteem]
      rfl
    . next hsteem =>
      rw [if_neg hsteem]
      split at hb
      . next hsbd =>
        cases hb
        rw [if_pos hsbd]
        rfl
      . next hsbd =>
        rw [if_neg hsbd]
        simp only [bind_eq_ok, pure_eq_ok] at hb
        obtain ⟨o, ho, rfl⟩ := hb
        rw [hname] at ho
        exact hheld AccountBalanceObject.balance rfl ho

theorem payForSubscription_cases {amount : Asset}
    (h : db.payForSubscription name amount tip = .ok db') :
    (db.accounts.find? name).isSome ∧ Pays db db' ∧ ∀ t a s, db'.fund t a s =
      db.fund t a s + onFund tip name amount.symbol amount.amount t a s := by
  simp only [payForSubscription, bind_eq_ok, getSponsor, get_eq_ok] at h
  obtain ⟨a, ha, hadjust⟩ := h
  refine ⟨?_, pays_of_adjustFund hadjust⟩
  rw [ha]
  rfl

/-- A claim takes what there is, or nothing. -/
theorem claimForSubscription_eq_ok {amount : Asset} {claimed : Option SubscriptionDatabase}
    (h : db.claimForSubscription name amount tip = .ok claimed) :
    (claimed = none ∧ db.fund tip name amount.symbol < amount.amount) ∨
      ∃ db₁, claimed = some db₁ ∧ amount.amount ≤ db.fund tip name amount.symbol ∧
        Pays db db₁ ∧ ∀ t a s, db₁.fund t a s =
          db.fund t a s + onFund tip name amount.symbol (-amount.amount) t a s := by
  simp only [claimForSubscription, bind_eq_ok] at h
  obtain ⟨_, -, balance, hbalance, h⟩ := h
  rw [getBalance_eq_ok hbalance] at h
  split at h
  . next hlt =>
    cases h
    exact .inl ⟨rfl, hlt⟩
  . next hlt =>
    simp only [bind_eq_ok, Asset.neg_eq_ok, pure_eq_ok] at h
    obtain ⟨_, ⟨-, rfl⟩, db₁, hadjust, rfl⟩ := h
    have hpays := pays_of_adjustFund hadjust
    exact .inr ⟨db₁, rfl, by omega, hpays.1, hpays.2⟩

end fund

/-- A payment that `process_paid_subscribers` has taken from a subscriber. -/
def isCharge (key : SubscriberKey) : SubscriptionEvent → Bool
  | .payment k .regular _ _ _ _ _ => k = key
  | _ => false

def charges (db : SubscriptionDatabase) (key : SubscriberKey) : Nat :=
  db.events.countP (isCharge key)

/-- What all operations leave as it is. -/
structure Quiet (db db' : SubscriptionDatabase) : Prop where
  headBlockTime : db'.headBlockTime = db.headBlockTime
  charges : ∀ key, db'.charges key = db.charges key

theorem Quiet.of_events (htime : db'.headBlockTime = db.headBlockTime)
    (hevents : db'.events = db.events) : Quiet db db' := by
  refine ⟨htime, fun key => ?_⟩
  unfold SubscriptionDatabase.charges
  rw [hevents]

theorem Quiet.of_append {events : List SubscriptionEvent}
    (htime : db'.headBlockTime = db.headBlockTime) (hevents : db'.events = db.events ++ events)
    (hcharge : ∀ key, ∀ e ∈ events, isCharge key e = false) : Quiet db db' := by
  refine ⟨htime, fun key => ?_⟩
  unfold SubscriptionDatabase.charges
  have hzero : events.countP (isCharge key) = 0 := by
    rw [List.countP_eq_zero]
    intro e he
    rw [hcharge key e he]
    exact Bool.false_ne_true
  rw [hevents, List.countP_append, hzero, Nat.add_zero]

theorem Quiet.trans {db'' : SubscriptionDatabase} (h : Quiet db db') (h' : Quiet db' db'') :
    Quiet db db'' :=
  ⟨h'.headBlockTime.trans h.headBlockTime, fun key => (h'.charges key).trans (h.charges key)⟩

section terms

variable {cost : Asset} {tipCost : Bool} {interval executions : Nat}

/-- Terms that the checks of creation and update let through. -/
structure Terms (cost : Asset) (interval executions : Nat) : Prop where
  cost : 0 < cost.amount
  interval : 0 < executions → 0 < interval

theorem terms_of_validateTerms (h : validateTerms cost tipCost interval executions = .ok ()) :
    Terms cost interval executions := by
  simp only [validateTerms, bind_eq_ok, ensure_eq_ok] at h
  obtain ⟨_, hcost, _, -, _, -, hinterval⟩ := h
  exact ⟨hcost, hinterval⟩

end terms

theorem sponsorCount?_isSome (h : (db.accounts.find? name).isSome) :
    (db.sponsorCount? name).isSome := by
  unfold sponsorCount?
  rw [Option.isSome_map]
  exact h

theorem sponsorCount?_of_modify (g : Nat → Nat) {a : SponsorAccountObject} {other : AccountName}
    (ha : db.accounts.find? name = some a)
    (h : db'.accounts = db.accounts.modify name
      (fun a => { a with sponsorCount := g a.sponsorCount }) fun _ => rfl) :
    db'.sponsorCount? other =
      if other = name then some (g a.sponsorCount) else db.sponsorCount? other := by
  unfold sponsorCount?
  rw [h, Table.find?_modify]
  split
  . next heq => rw [heq, ha, Option.map_some, Option.map_some]
  . rfl

/-- A new subscription has terms that are valid, an author, and no subscribers. -/
theorem paidSubscriptionCreate_cases {op : PaidSubscriptionCreateOperation}
    (h : db.paidSubscriptionCreate op = .ok db') :
    ∃ pso : PaidSubscriptionObject, Terms pso.cost pso.interval pso.executions ∧
      pso.subscribers = 0 ∧ pso.activeSubscribers = 0 ∧ (db.sponsorCount? pso.author).isSome ∧
      Table.Inserts db.subscriptions db'.subscriptions pso ∧
      db' = { db with subscriptions := db'.subscriptions } := by
  simp only [paidSubscriptionCreate, PaidSubscriptionCreateOperation.validate, getSponsor,
    bind_eq_ok, get_eq_ok, pure_eq_ok] at h
  obtain ⟨_, ⟨_, -, _, -, _, hterms, -⟩, account, haccount, _, -, subscriptions, hemplace, rfl⟩ := h
  refine ⟨_, terms_of_validateTerms hterms, rfl, rfl, ?_, .emplace hemplace, rfl⟩
  apply sponsorCount?_isSome
  rw [haccount]
  rfl

theorem mem_updateSubscribers {op : PaidSubscriptionUpdateOperation} :
    r ∈ (db.updateSubscribers op).subscribers.rows ↔ ∃ o ∈ db.subscribers.rows,
      (if o.author = op.author ∧ o.oid = op.oid then updateSubscriber op.cost o else o) = r := by
  unfold updateSubscribers
  dsimp only
  rw [Table.mem_modifyWhere]
  simp only [decide_eq_true_eq]

/-- What an update writes into the subscription. -/
def updateSubscription (op : PaidSubscriptionUpdateOperation) (inactivated : Nat)
    (pso : PaidSubscriptionObject) : PaidSubscriptionObject :=
  { pso with
    cost := op.cost
    tipCost := op.tipCost
    interval := op.interval
    executions := op.executions
    activeSubscribers := decrease pso.activeSubscribers inactivated }

/-- Where prepayment is allowed, an update leaves the subscribers alone. -/
theorem paidSubscriptionUpdate_cases {op : PaidSubscriptionUpdateOperation}
    (h : db.paidSubscriptionUpdate op = .ok db') :
    ∃ pso, db.subscriptions.find? (op.author, op.oid) = some pso ∧
      Terms op.cost op.interval op.executions ∧ Quiet db db' ∧
      db'.returned = db.returned ∧ (∀ name, db'.sponsorCount? name = db.sponsorCount? name) ∧
      ((db'.subscribers = db.subscribers ∧
          Table.Updates db.subscriptions db'.subscriptions pso (updateSubscription op 0 pso)) ∨
        (db'.subscribers = (db.updateSubscribers op).subscribers ∧
          Table.Updates db.subscriptions db'.subscriptions pso
            (updateSubscription op
              ((db.subscribersOf op.author op.oid).countP fun r => r.active) pso))) := by
  simp only [paidSubscriptionUpdate, PaidSubscriptionUpdateOperation.validate, bind_eq_ok,
    getPaidSubscription_eq_ok, pure_eq_ok] at h
  obtain ⟨_, ⟨_, -, _, -, hterms⟩, pso, hfind, _, -, _, -, _, -, rfl⟩ := h
  have hterms := terms_of_validateTerms hterms
  refine ⟨pso, hfind, hterms, ?_⟩
  split
  . exact ⟨.of_events rfl rfl, rfl, fun _ => rfl, .inl ⟨rfl, .modify _ hfind⟩⟩
  . refine ⟨.of_append rfl rfl ?_, rfl, fun _ => rfl, .inr ⟨rfl, .modify _ hfind⟩⟩
    intro key e he
    obtain ⟨r, -, rfl⟩ := List.mem_map.mp he
    rfl

/-- A step that pays, and only adds to the events and to what has been returned. -/
structure Settles (db : SubscriptionDatabase) (returned : List PaidSubscriberObject)
    (db' : SubscriptionDatabase) : Prop where
  quiet : Quiet db db'
  subscriptions : db'.subscriptions = db.subscriptions
  subscribers : db'.subscribers = db.subscribers
  sponsorCount? : ∀ name, db'.sponsorCount? name = db.sponsorCount? name
  returned : db'.returned = db.returned ++ returned

theorem Pays.settles (h : Pays db db') : Settles db [] db' :=
  ⟨.of_events h.headBlockTime h.events, h.subscriptions, h.subscribers, h.sponsorCount?,
    by rw [h.returned, List.append_nil]⟩

theorem Settles.pushEvent {returned : List PaidSubscriberObject} (h : Settles db returned db')
    {e : SubscriptionEvent} (he : ∀ key, isCharge key e = false) :
    Settles db returned (db'.pushEvent e) where
  quiet := by
    have hpush : Quiet db' (db'.pushEvent e) := by
      refine .of_append rfl (rfl : _ = _ ++ [e]) fun key e' he' => ?_
      rw [List.mem_singleton.mp he']
      exact he key
    exact h.quiet.trans hpush
  subscriptions := h.subscriptions
  subscribers := h.subscribers
  sponsorCount? := h.sponsorCount?
  returned := h.returned

/-- Prepaid money goes to the balance that the row names. -/
theorem returnPrepaid_cases (h : db.returnPrepaid r = .ok db') :
    Settles db [r] db' ∧ ∀ t a s, db'.fund t a s =
      db.fund t a s + onFund r.tipCost r.subscriber r.prepaid.symbol r.prepaid.amount t a s := by
  simp only [returnPrepaid, bind_eq_ok, pure_eq_ok] at h
  obtain ⟨db₁, hpay, rfl⟩ := h
  obtain ⟨-, hpays, hfunds⟩ := payForSubscription_cases hpay
  refine ⟨⟨.of_events hpays.headBlockTime hpays.events, hpays.subscriptions, hpays.subscribers,
    hpays.sponsorCount?, ?_⟩, hfunds⟩
  rw [hpays.returned]

/-- What there is to return of a row. -/
def unspent (removed : List PaidSubscriberObject) : List PaidSubscriberObject :=
  removed.filter fun r => r.prepaid.amount ≠ 0

theorem settles_of_returnRemaining (h : db.returnRemaining r = .ok db') :
    Settles db (unspent [r]) db' := by
  unfold returnRemaining at h
  unfold unspent
  split at h
  . next hne =>
    rw [List.filter_cons_of_pos (by rwa [decide_eq_true_iff]), List.filter_nil]
    exact (returnPrepaid_cases h).1
  . next heq =>
    cases h
    rw [List.filter_cons_of_neg (by rwa [decide_eq_true_iff]), List.filter_nil]
    exact (Pays.refl db).settles

/-- Rows that are removed, and their prepaid money. -/
structure RemovesAll (db : SubscriptionDatabase) (removed : List PaidSubscriberObject)
    (db' : SubscriptionDatabase) : Prop where
  quiet : Quiet db db'
  subscribers : Table.Removes db.subscribers db'.subscribers removed
  subscriptions : db'.subscriptions = db.subscriptions
  sponsorCount? : ∀ name, db'.sponsorCount? name = db.sponsorCount? name
  returned : db'.returned = db.returned ++ unspent removed

theorem removesAll_of_removeSubscriber {removed : List PaidSubscriberObject}
    (hlists : Table.Lists db.subscribers removed)
    (h : removed.foldlM removeSubscriber db = .ok db') : RemovesAll db removed db' := by
  induction removed generalizing db with
  | nil =>
    cases h
    exact ⟨.of_events rfl rfl, .nil _, rfl, fun _ => rfl, (List.append_nil _).symm⟩
  | cons r removed ih =>
    rw [List.foldlM_cons] at h
    simp only [removeSubscriber, bind_eq_ok, pure_eq_ok] at h
    obtain ⟨_, ⟨db₁, hreturn, rfl⟩, h⟩ := h
    have hsettles := settles_of_returnRemaining hreturn
    have hr := Table.mem_of_find? (hlists.row r List.mem_cons_self)
    have hrest := ih ?_ h
    . refine ⟨hsettles.quiet.trans ⟨hrest.quiet.headBlockTime, hrest.quiet.charges⟩, .cons hr ?_,
        hrest.subscriptions.trans hsettles.subscriptions,
        fun name => (hrest.sponsorCount? name).trans (hsettles.sponsorCount? name), ?_⟩
      . rw [← hsettles.subscribers]
        exact hrest.subscribers
      . rw [hrest.returned]
        dsimp only
        unfold unspent
        rw [hsettles.returned, List.append_assoc, unspent, ← List.filter_append,
          List.singleton_append]
    . dsimp only
      rw [hsettles.subscribers]
      exact hlists.erase

/-- A deleted subscription takes all of its subscribers along. -/
theorem paidSubscriptionDelete_cases {op : PaidSubscriptionDeleteOperation}
    (h : db.paidSubscriptionDelete op = .ok db') :
    ∃ pso n, db.subscriptions.find? (op.author, op.oid) = some pso ∧ Quiet db db' ∧
      Table.Removes db.subscribers db'.subscribers (db.subscribersOf op.author op.oid) ∧
      db'.returned = db.returned ++
        unspent (db.subscribersOf op.author op.oid) ∧
      db'.subscriptions = db.subscriptions.erase (op.author, op.oid) ∧
      db.sponsorCount? op.author = some n ∧ ∀ name, db'.sponsorCount? name =
        if name = op.author then
          some (decrease n (db.subscribersOf op.author op.oid).length)
        else
          db.sponsorCount? name := by
  simp only [paidSubscriptionDelete, bind_eq_ok, getPaidSubscription_eq_ok, getSponsor, get_eq_ok,
    pure_eq_ok] at h
  obtain ⟨_, -, pso, hfind, db₁, hfold, a, ha, rfl⟩ := h
  have hremoves := removesAll_of_removeSubscriber (.filter _ _) hfold
  have hkey := Table.key_of_find? hfind
  refine ⟨pso, a.sponsorCount, hfind, ⟨hremoves.quiet.headBlockTime, hremoves.quiet.charges⟩,
    hremoves.subscribers, hremoves.returned, ?_, ?_, fun name => ?_⟩
  . rw [← hkey, ← hremoves.subscriptions]
    rfl
  . rw [← hremoves.sponsorCount?]
    unfold SubscriptionDatabase.sponsorCount?
    rw [ha]
    rfl
  . rw [← hremoves.sponsorCount?]
    exact sponsorCount?_of_modify (decrease · (db.subscribersOf op.author op.oid).length) ha rfl

/-- What a cancelled subscription loses. -/
def unsubscribe (r : PaidSubscriberObject) (pso : PaidSubscriptionObject) :
    PaidSubscriptionObject :=
  { pso with
    subscribers := decrease pso.subscribers 1
    activeSubscribers :=
      if r.active = true then decrease pso.activeSubscribers 1 else pso.activeSubscribers }

theorem paidSubscriptionCancel_cases {op : PaidSubscriptionCancelOperation}
    (h : db.paidSubscriptionCancel op = .ok db') :
    ∃ r pso n, db.subscribers.find? (op.author, op.oid, op.subscriber) = some r ∧
      db.subscriptions.find? (op.author, op.oid) = some pso ∧ Quiet db db' ∧
      db'.subscribers = db.subscribers.erase r.byAuthorOidSubscriber ∧
      db'.returned = db.returned ++ unspent [r] ∧
      Table.Updates db.subscriptions db'.subscriptions pso (unsubscribe r pso) ∧
      db.sponsorCount? op.author = some n ∧ ∀ name, db'.sponsorCount? name =
        if name = op.author then some (decrease n 1) else db.sponsorCount? name := by
  simp only [paidSubscriptionCancel, bind_eq_ok, getPaidSubscriber_eq_ok, pure_eq_ok] at h
  obtain ⟨_, -, r, hr, returned, hreturn, pso, hpso, a, ha, rfl⟩ := h
  have hsettles := settles_of_returnRemaining hreturn
  generalize hpushed : (if r.prepaid.amount ≠ 0 then _ else _ : SubscriptionDatabase) = pushed
    at hpso ha
  have hsettles : Settles db (unspent [r]) pushed := by
    subst hpushed
    split
    . exact hsettles.pushEvent fun _ => rfl
    . exact hsettles
  rw [getPaidSubscription_eq_ok, hsettles.subscriptions] at hpso
  simp only [getSponsor, get_eq_ok] at ha
  refine ⟨r, pso, a.sponsorCount, hr, hpso,
    ⟨hsettles.quiet.headBlockTime, hsettles.quiet.charges⟩, ?_, hsettles.returned, ?_, ?_,
    fun name => ?_⟩
  . rw [← hsettles.subscribers]
    rfl
  . rw [← hsettles.subscriptions] at hpso ⊢
    exact .modify _ hpso
  . rw [← hsettles.sponsorCount?]
    unfold SubscriptionDatabase.sponsorCount?
    rw [ha]
    rfl
  . rw [← hsettles.sponsorCount?]
    exact sponsorCount?_of_modify (decrease · 1) ha rfl

/-- The row of a new subscriber. -/
def newSubscriber (pso : PaidSubscriptionObject) (op : PaidSubscriptionTransferOperation)
    (now : Nat) (toPrepaid : ℤ) : PaidSubscriberObject where
  subscriber := op.fromAccount
  author := op.toAccount
  oid := op.oid
  cost := pso.cost
  tipCost := pso.tipCost
  interval := pso.interval
  executions := pso.executions
  executionsLeft := pso.executions
  prepaid := ⟨toPrepaid, pso.cost.symbol⟩
  nextPayment := if 0 < pso.executions then addSeconds now pso.interval else 0
  prepaidSources := if toPrepaid = 0 then [] else [(pso.tipCost, pso.cost.symbol)]

def subscribe (pso : PaidSubscriptionObject) : PaidSubscriptionObject :=
  { pso with
    subscribers := increase pso.subscribers
    activeSubscribers := increase pso.activeSubscribers }

/-- The payment has the kind and the symbol that the subscription asks for. -/
structure Matches (op : PaidSubscriptionTransferOperation) (pso : PaidSubscriptionObject) :
    Prop where
  fromTip : op.fromTip = pso.tipCost
  symbol : op.amount.symbol = pso.cost.symbol
  amount : pso.cost.amount ≤ op.amount.amount

theorem addSubscriber_cases {op : PaidSubscriptionTransferOperation} (hmatches : Matches op pso)
    (hfind : db.subscriptions.find? (op.toAccount, op.oid) = some pso)
    (h : db.addSubscriber pso op = .ok db') :
    ∃ toPrepaid n, 0 ≤ toPrepaid ∧ Quiet db db' ∧ db'.returned = db.returned ∧
      Table.Inserts db.subscribers db'.subscribers
        (newSubscriber pso op db.headBlockTime toPrepaid) ∧
      Table.Updates db.subscriptions db'.subscriptions pso (subscribe pso) ∧
      db.sponsorCount? op.toAccount = some n ∧ ∀ name, db'.sponsorCount? name =
        if name = op.toAccount then some (increase n) else db.sponsorCount? name := by
  simp only [addSubscriber, bind_eq_ok, Asset.sub_eq_ok, get_eq_ok, pure_eq_ok] at h
  obtain ⟨db₁, hpay, _, ⟨-, -, rfl⟩, subscribers, hemplace, rest, -, rfl⟩ := h
  obtain ⟨haccount, hpays, -⟩ := payForSubscription_cases hpay
  obtain ⟨a, ha⟩ := Option.isSome_iff_exists.mp haccount
  have hn : db.sponsorCount? op.toAccount = some a.sponsorCount := by
    unfold sponsorCount?
    rw [ha]
    rfl
  have hn₁ := hpays.sponsorCount? op.toAccount
  rw [hn] at hn₁
  obtain ⟨a₁, ha₁, hcount⟩ := Option.map_eq_some_iff.mp hn₁
  rw [← hpays.subscriptions] at hfind
  refine ⟨(op.amount.amount - (if pso.executions = 0 then op.amount else pso.cost).amount),
    a.sponsorCount, ?_, ?_, hpays.returned, ?_, ?_, hn, fun name => ?_⟩
  . have := hmatches.amount
    split
    . omega
    . omega
  . exact ⟨hpays.headBlockTime, (hpays.settles.pushEvent fun _ => rfl).quiet.charges⟩
  . rw [← hpays.subscribers]
    have hinserts := Table.Inserts.emplace hemplace
    rw [hpays.headBlockTime, hmatches.symbol, hmatches.fromTip] at hinserts
    exact hinserts
  . rw [← hpays.subscriptions]
    exact .modify _ hfind
  . rw [← hpays.sponsorCount?, ← hcount]
    exact sponsorCount?_of_modify increase ha₁ rfl

theorem settles_of_payProlonged {op : PaidSubscriptionTransferOperation}
    (h : db.payProlonged pso op r = .ok db') :
    (pso.allowPrepaid = false → r.active = false) ∧ Settles db [] db' := by
  simp only [payProlonged, bind_eq_ok] at h
  obtain ⟨_, -, h⟩ := h
  split at h
  . simp only [bind_eq_ok, ensure_eq_ok, pure_eq_ok] at h
    obtain ⟨_, hinactive, db₁, hpay, rest, -, rfl⟩ := h
    refine ⟨fun _ => hinactive, ?_⟩
    exact (payForSubscription_cases hpay).2.1.settles.pushEvent fun _ => rfl
  . next hallow =>
    cases h
    refine ⟨fun hdeny => absurd hdeny hallow, (Pays.refl db).settles.pushEvent fun key => ?_⟩
    split
    . rfl
    . rfl

/-- What goes back because the symbol of the cost is another one by now. -/
def otherSymbol (pso : PaidSubscriptionObject) (r : PaidSubscriberObject) :
    List PaidSubscriberObject :=
  if 0 < r.prepaid.amount ∧ r.prepaid.symbol ≠ pso.cost.symbol then [r] else []

theorem settles_of_returnOtherSymbol (h : db.returnOtherSymbol pso r = .ok db') :
    Settles db (otherSymbol pso r) db' := by
  unfold returnOtherSymbol at h
  unfold otherSymbol
  split at h
  . next hreturn =>
    simp only [bind_eq_ok, pure_eq_ok] at h
    obtain ⟨db₁, hpay, rfl⟩ := h
    rw [if_pos hreturn]
    exact (returnPrepaid_cases hpay).1.pushEvent fun _ => rfl
  . next hkeep =>
    cases h
    rw [if_neg hkeep]
    exact (Pays.refl db).settles

/-- The terms and the schedule of a subscriber who has paid again. -/
structure Renews (pso : PaidSubscriptionObject) (now : Nat) (r r' : PaidSubscriberObject) :
    Prop where
  key : r'.byAuthorOidSubscriber = r.byAuthorOidSubscriber
  active : r'.active = true
  executionsLeft : r'.executionsLeft = pso.executions
  interval : r'.interval = pso.interval
  nextPayment : r'.nextPayment =
    if r.active = false ∧ 0 < pso.executions then addSeconds now pso.interval else r.nextPayment

/-- The prepaid money that stays prepaid. -/
def keptPrepaid (pso : PaidSubscriptionObject) (r : PaidSubscriberObject) : ℤ :=
  if r.prepaid.symbol = pso.cost.symbol then r.prepaid.amount else 0

/-- Where there is prepayment, the payment is added to it, under the terms of now. -/
def Deposits (pso : PaidSubscriptionObject) (amount : ℤ) (r r' : PaidSubscriberObject) : Prop :=
  if pso.allowPrepaid = true then
    r'.cost = pso.cost ∧ r'.tipCost = pso.tipCost ∧
      r'.prepaid = ⟨keptPrepaid pso r + amount, pso.cost.symbol⟩ ∧
      r'.prepaidSources =
        (if keptPrepaid pso r = 0 then [] else r.prepaidSources) ++ [(pso.tipCost, pso.cost.symbol)]
  else
    r'.cost = r.cost ∧ r'.tipCost = r.tipCost ∧ r'.prepaid = r.prepaid ∧
      r'.prepaidSources = r.prepaidSources

/-- What a subscription with a subscriber that pays again has in active ones. -/
def reactivate (r : PaidSubscriberObject) (pso : PaidSubscriptionObject) :
    PaidSubscriptionObject :=
  { pso with
    activeSubscribers :=
      if r.active = false then increase pso.activeSubscribers else pso.activeSubscribers }

theorem renew_cases {op : PaidSubscriptionTransferOperation} {now : Nat}
    {r' : PaidSubscriberObject} (hmatches : Matches op pso)
    (hactive : pso.allowPrepaid = false → r.active = false) (h : renew pso op now r = .ok r') :
    Renews pso now r
        { r' with
          subscriber := r.subscriber
          author := r.author
          oid := r.oid
          executionsLeft := r'.executions } ∧
      Deposits pso op.amount.amount r r' := by
  have hnext : (activate pso now r).nextPayment =
      if r.active = false ∧ 0 < pso.executions then addSeconds now pso.interval
      else r.nextPayment := by
    unfold activate
    by_cases hr : r.active = false
    . simp only [hr, ↓reduceIte, true_and]
    . rw [if_neg hr, if_neg fun h => hr h.1]
  have hpaid : (activate pso now r).active = true := by
    unfold activate
    cases hr : r.active with
    | false => rfl
    | true => exact hr
  have hmoney : (activate pso now r).prepaid = r.prepaid ∧
      (activate pso now r).prepaidSources = r.prepaidSources ∧
      (activate pso now r).cost = r.cost ∧ (activate pso now r).tipCost = r.tipCost := by
    unfold activate
    split
    . exact ⟨rfl, rfl, rfl, rfl⟩
    . exact ⟨rfl, rfl, rfl, rfl⟩
  unfold renew at h
  unfold Deposits
  split at h
  . next hallow =>
    simp only [addPrepaid, bind_eq_ok, Asset.add_eq_ok, pure_eq_ok, hmoney] at h
    obtain ⟨_, ⟨-, -, rfl⟩, rfl⟩ := h
    refine ⟨⟨rfl, hpaid, rfl, rfl, hnext⟩, ?_⟩
    rw [if_pos hallow]
    unfold keptPrepaid
    rw [hmatches.fromTip, hmatches.symbol]
    by_cases hsymbol : r.prepaid.symbol = pso.cost.symbol
    . simp [hsymbol]
    . simp [hsymbol]
  . next hallow =>
    cases h
    have hr := hactive (by rwa [Bool.not_eq_true] at hallow)
    have hterms : (activate pso now r).executions = pso.executions ∧
        (activate pso now r).interval = pso.interval := by
      unfold activate
      rw [if_pos hr]
      exact ⟨rfl, rfl⟩
    refine ⟨⟨rfl, hpaid, hterms.1, hterms.2, hnext⟩, ?_⟩
    rw [if_neg hallow]
    exact ⟨hmoney.2.2.1, hmoney.2.2.2, hmoney.1, hmoney.2.1⟩

theorem prolongSubscriber_cases {op : PaidSubscriptionTransferOperation} (hmatches : Matches op pso)
    (hpso : db.subscriptions.find? (op.toAccount, op.oid) = some pso)
    (hr : db.subscribers.find? op.key = some r) (h : db.prolongSubscriber pso op r = .ok db') :
    ∃ r', Renews pso db.headBlockTime r r' ∧ Deposits pso op.amount.amount r r' ∧
      r'.executions = r'.executionsLeft ∧ Quiet db db' ∧
      (∀ name, db'.sponsorCount? name = db.sponsorCount? name) ∧
      db'.returned = db.returned ++ otherSymbol pso r ∧
      Table.Updates db.subscribers db'.subscribers r r' ∧
      Table.Updates db.subscriptions db'.subscriptions pso (reactivate r pso) := by
  simp only [prolongSubscriber, bind_eq_ok, pure_eq_ok] at h
  obtain ⟨db₁, hpay, db₂, hreturn, r', hrenew, rfl⟩ := h
  obtain ⟨hactive, hsettles₁⟩ := settles_of_payProlonged hpay
  have hsettles₂ := settles_of_returnOtherSymbol hreturn
  obtain ⟨hrenews, hdeposits⟩ := renew_cases hmatches hactive hrenew
  have htime : db₂.headBlockTime = db.headBlockTime :=
    hsettles₂.quiet.headBlockTime.trans hsettles₁.quiet.headBlockTime
  rw [htime] at hrenews
  refine ⟨_, hrenews, hdeposits, rfl, ⟨htime, fun key => ?_⟩, fun name => ?_, ?_, ?_, ?_⟩
  . exact (hsettles₂.quiet.charges key).trans (hsettles₁.quiet.charges key)
  . exact (hsettles₂.sponsorCount? name).trans (hsettles₁.sponsorCount? name)
  . refine hsettles₂.returned.trans ?_
    exact congrArg (· ++ _) (hsettles₁.returned.trans (List.append_nil _))
  . have hsame : db₂.subscribers = db.subscribers :=
      hsettles₂.subscribers.trans hsettles₁.subscribers
    rw [← hsame] at hr ⊢
    exact .modify _ hr
  . rw [← hsettles₁.subscriptions] at hpso ⊢
    unfold modifySubscriber
    dsimp only
    rw [hsettles₂.subscriptions]
    exact .modify _ hpso

/-- What a transfer does, to a new subscriber and to one that is there already. -/
theorem paidSubscriptionTransfer_cases {op : PaidSubscriptionTransferOperation}
    (h : db.paidSubscriptionTransfer op = .ok db') :
    ∃ pso, ∃ db₁, 0 < op.amount.amount ∧ Matches op pso ∧
      db.subscriptions.find? (op.toAccount, op.oid) = some pso ∧ Settles db [] db₁ ∧
      ((db.subscribers.find? op.key = none ∧ db₁.addSubscriber pso op = .ok db') ∨
        ∃ r, db.subscribers.find? op.key = some r ∧ db₁.prolongSubscriber pso op r = .ok db') := by
  simp only [paidSubscriptionTransfer, bind_eq_ok, ensure_eq_ok, getPaidSubscription_eq_ok] at h
  obtain ⟨_, hvalid, _, -, pso, hpso, _, htip, balance, hbalance, _, henough, _, hsymbol, _,
    hamount, _, -, claimed, hclaim, h⟩ := h
  have hpositive : 0 < op.amount.amount := by
    simp only [PaidSubscriptionTransferOperation.validate, bind_eq_ok, ensure_eq_ok] at hvalid
    obtain ⟨_, -, _, -, _, -, _, hpositive, -⟩ := hvalid
    exact hpositive
  have hfund := getBalance_eq_ok hbalance
  rcases claimForSubscription_eq_ok hclaim with ⟨-, hlt⟩ | ⟨db₁, rfl, -, hpays, -⟩
  . omega
  rw [Option.getD_some] at h
  refine ⟨pso, db₁, hpositive, ⟨htip, hsymbol, hamount⟩, hpso, hpays.settles, ?_⟩
  rw [hpays.subscribers] at h
  cases hfind : db.subscribers.find? op.key with
  | none =>
    rw [hfind] at h
    exact .inl ⟨rfl, h⟩
  | some r =>
    rw [hfind] at h
    exact .inr ⟨r, rfl, h⟩

end SubscriptionDatabase

end Golos.Subscription
