import Golos.Subscription.System

/-!
This module contains how often a subscriber is charged, and what one block takes, as long as no time
of a payment is too large for 32 bits.
-/

namespace Golos.Subscription

open Checked

/-- The charges that a block at this time makes of a row that is due. -/
def PaidSubscriberObject.chargesDue (r : PaidSubscriberObject) (now : Nat) : Nat :=
  min r.executionsLeft ((now - r.nextPayment) / r.interval + 1)

namespace SubscriptionDatabase

variable {db db' db₀ : SubscriptionDatabase} {r r₀ : PaidSubscriberObject} {key : SubscriberKey}
  {e : Event} {op : PaidSubscriptionTransferOperation}

/-- The time of the first payment that a block does not take any more. -/
def DueFit (db : SubscriptionDatabase) : Prop :=
  ∀ r ∈ db.subscribers.rows, r.nextPayment ≠ 0 → r.nextPayment ≤ db.headBlockTime →
    r.nextPayment + r.chargesDue db.headBlockTime * r.interval < 2 ^ 32

/-- Whoever is due and has more than one payment before him is due in this very block. -/
def OnTime (db : SubscriptionDatabase) : Prop :=
  ∀ r ∈ db.subscribers.rows, r.nextPayment ≠ 0 → r.nextPayment ≤ db.headBlockTime →
    1 < r.executionsLeft → r.nextPayment = db.headBlockTime

/-- A transfer schedules the next payment. -/
def Schedules (db : SubscriptionDatabase) (op : PaidSubscriptionTransferOperation)
    (pso : PaidSubscriptionObject) : Prop :=
  db.subscriptions.find? (op.toAccount, op.oid) = some pso ∧ 0 < pso.executions ∧
    ∀ r, db.subscribers.find? op.key = some r → r.active = false

/-- No time that the step writes into `next_payment` is too large. -/
def FitsTime (db : SubscriptionDatabase) : Event → Prop
  | .paidSubscriptionTransfer op =>
    ∀ pso, db.Schedules op pso → db.headBlockTime + pso.interval < 2 ^ 32
  | .processPaidSubscribers _ => db.DueFit
  | _ => True

theorem addSeconds_of_lt {time interval : Nat} (h : time + interval < 2 ^ 32) :
    addSeconds time interval = time + interval :=
  Nat.mod_eq_of_lt h

theorem chargesDue_charged {now : Nat} {prepaid : ℤ} (hleft : 0 < r.executionsLeft)
    (hinterval : 0 < r.interval) (hfits : r.nextPayment + r.interval < 2 ^ 32)
    (hdue : (charged r prepaid).nextPayment ≤ now) :
    r.chargesDue now = (charged r prepaid).chargesDue now + 1 := by
  have hnext : (charged r prepaid).nextPayment = r.nextPayment + r.interval :=
    addSeconds_of_lt hfits
  rw [hnext] at hdue
  unfold PaidSubscriberObject.chargesDue
  rw [hnext]
  unfold charged
  dsimp only
  have hsub : now - r.nextPayment = now - (r.nextPayment + r.interval) + r.interval := by omega
  rw [hsub, Nat.add_div_right _ hinterval]
  omega

/-- The next time fits if the last one does. -/
theorem DueFit.add_lt (h : db.DueFit) (hr : r ∈ db.subscribers.rows) (hnext : r.nextPayment ≠ 0)
    (hdue : r.nextPayment ≤ db.headBlockTime) (hleft : 0 < r.executionsLeft) :
    r.nextPayment + r.interval < 2 ^ 32 := by
  have hfits := h r hr hnext hdue
  have hone : 1 ≤ r.chargesDue db.headBlockTime :=
    Nat.le_min.mpr ⟨hleft, Nat.le_add_left _ _⟩
  have hle := Nat.mul_le_mul_right r.interval hone
  omega

theorem DueFit.turn (h : db.DueFit) (hsound : db.Sound)
    (hr : db.subscribers.find? r.byAuthorOidSubscriber = some r) (hnext : r.nextPayment ≠ 0)
    (hdue : r.nextPayment ≤ db.headBlockTime) (hturn : Turn r db db') : db'.DueFit := by
  have hrow := Table.mem_of_find? hr
  have htime := hturn.headBlockTime
  unfold DueFit
  rw [htime]
  cases hturn with
  | executionsEnd _ hd =>
    exact rows_of_updates hd.subscribers rfl h fun hne => absurd rfl hne
  | insufficientFunds _ _ hd =>
    exact rows_of_updates hd.subscribers rfl h fun hne => absurd rfl hne
  | charge hleft prepaid amount hcharges =>
    have hinterval := (hsound.rows r hrow).interval hleft
    have hfits := h.add_lt hrow hnext hdue hleft
    refine rows_of_updates hcharges.subscribers rfl h fun _ hdue' => ?_
    have hall := h r hrow hnext hdue
    rw [chargesDue_charged hleft hinterval hfits hdue'] at hall
    have hnext' : (charged r prepaid).nextPayment = r.nextPayment + r.interval :=
      addSeconds_of_lt hfits
    rw [hnext']
    unfold charged at hall ⊢
    dsimp only at hall ⊢
    rw [Nat.add_mul, Nat.one_mul] at hall
    omega

/-- The charges of a subscriber since the state `db₀`, in which its row was `r₀`. -/
structure Tracks (db₀ : SubscriptionDatabase) (key : SubscriberKey) (r₀ : PaidSubscriberObject)
    (n : Nat) (db : SubscriptionDatabase) : Prop where
  charges : db.charges key = db₀.charges key + n
  executions : n ≤ r₀.executionsLeft
  time : 0 < n → r₀.nextPayment ≠ 0 ∧ r₀.nextPayment + (n - 1) * r₀.interval ≤ db.headBlockTime
  row : ∀ r, db.subscribers.find? key = some r → r.nextPayment ≠ 0 →
    r₀.nextPayment ≠ 0 ∧ r.nextPayment = r₀.nextPayment + n * r₀.interval ∧
      r.executionsLeft + n = r₀.executionsLeft ∧ r.interval = r₀.interval

/-- The row of a subscriber stays, except that its payments may be stopped. -/
def Persists (db db' : SubscriptionDatabase) (key : SubscriberKey) : Prop :=
  ∀ r', db'.subscribers.find? key = some r' → r'.nextPayment ≠ 0 →
    ∃ r, db.subscribers.find? key = some r ∧ r'.nextPayment = r.nextPayment ∧
      r'.executionsLeft = r.executionsLeft ∧ r'.interval = r.interval

theorem Persists.of_subset (h : ∀ r ∈ db'.subscribers.rows, r ∈ db.subscribers.rows) :
    Persists db db' key := by
  intro r' hr' _
  have hmem := Table.find?_of_mem (h r' (Table.mem_of_find? hr'))
  rw [Table.key_of_find? hr'] at hmem
  exact ⟨r', hmem, rfl, rfl, rfl⟩

theorem Tracks.of_persists {n : Nat} (h : Tracks db₀ key r₀ n db)
    (hcharges : db'.charges key = db.charges key) (htime : db.headBlockTime ≤ db'.headBlockTime)
    (hpersists : Persists db db' key) : Tracks db₀ key r₀ n db' where
  charges := hcharges.trans h.charges
  executions := h.executions
  time := fun hpos => ⟨(h.time hpos).1, (h.time hpos).2.trans htime⟩
  row := by
    intro r' hr' hne
    obtain ⟨r, hr, hnext, hleft, hinterval⟩ := hpersists r' hr' hne
    rw [hnext] at hne ⊢
    rw [hleft, hinterval]
    exact h.row r hr hne

theorem persists_of_update {op : PaidSubscriptionUpdateOperation}
    (h : db.paidSubscriptionUpdate op = .ok db') : Persists db db' key := by
  obtain ⟨pso, -, -, -, -, -, ⟨hsame, -⟩ | ⟨hrows, -⟩⟩ := paidSubscriptionUpdate_cases h
  . exact .of_subset fun r hr => hsame ▸ hr
  . intro r' hr' hne
    have hkey := Table.key_of_find? hr'
    have hmem := Table.mem_of_find? hr'
    rw [hrows] at hmem
    obtain ⟨r, hr, heq⟩ := mem_updateSubscribers.mp hmem
    have hfind := Table.find?_of_mem hr
    split at heq
    . have hkey' : r.byAuthorOidSubscriber = key := by
        rw [← hkey, ← heq]
        rfl
      refine ⟨r, hkey' ▸ hfind, ?_⟩
      rw [← heq] at hne ⊢
      unfold updateSubscriber at hne ⊢
      dsimp only at hne ⊢
      split at hne
      . exact absurd rfl hne
      . next hactive => exact ⟨if_neg hactive, rfl, rfl⟩
    . subst heq
      exact ⟨r, hkey ▸ hfind, rfl, rfl, rfl⟩

/-- A transfer of somebody else. -/
theorem persists_of_transfer (h : db.paidSubscriptionTransfer op = .ok db') (hne : key ≠ op.key) :
    Quiet db db' ∧ Persists db db' key := by
  obtain ⟨pso, db₁, -, hmatches, hpso, hsettles, hcases⟩ := paidSubscriptionTransfer_cases h
  rw [← hsettles.subscriptions] at hpso
  have hsame : Quiet db₁ db' ∧ db'.subscribers.find? key = db₁.subscribers.find? key := by
    rcases hcases with ⟨-, hadd⟩ | ⟨r, hr, hprolong⟩
    . obtain ⟨toPrepaid, n, -, hquiet, -, hinserts, -⟩ := addSubscriber_cases hmatches hpso hadd
      refine ⟨hquiet, Option.ext fun r => ?_⟩
      rw [hinserts.find?_eq_some_iff]
      constructor
      . rintro (hr | ⟨-, hkey⟩)
        . exact hr
        . exact absurd hkey.symm hne
      . exact .inl
    . rw [← hsettles.subscribers] at hr
      obtain ⟨r', -, -, -, hquiet, -, -, hupdates, -⟩ :=
        prolongSubscriber_cases hmatches hpso hr hprolong
      refine ⟨hquiet, ?_⟩
      rw [hupdates.find?, if_neg]
      rw [Table.key_of_find? hr]
      exact hne
  refine ⟨hsettles.quiet.trans hsame.1, fun r' hr' _ => ?_⟩
  rw [hsame.2, hsettles.subscribers] at hr'
  exact ⟨r', hr', rfl, rfl, rfl⟩

/-- One more charge, when it is due and there is an execution left for it. -/
theorem Tracks.charge {n : Nat} {prepaid amount : ℤ} (h : Tracks db₀ key r₀ n db)
    (hr : db.subscribers.find? r.byAuthorOidSubscriber = some r)
    (hkey : key = r.byAuthorOidSubscriber) (hnext : r.nextPayment ≠ 0)
    (hdue : r.nextPayment ≤ db.headBlockTime) (hleft : 0 < r.executionsLeft)
    (hfits : r.nextPayment + r.interval < 2 ^ 32) (hcharges : Charges r prepaid amount db db') :
    Tracks db₀ key r₀ (n + 1) db' := by
  obtain ⟨hnext₀, hsum, hleft₀, hinterval⟩ := h.row r (hkey ▸ hr) hnext
  refine ⟨?_, ?_, fun _ => ⟨hnext₀, ?_⟩, fun r' hr' _ => ?_⟩
  . rw [hcharges.charges, if_pos hkey, h.charges]
    omega
  . omega
  . rw [hcharges.headBlockTime, Nat.add_sub_cancel]
    omega
  . rw [hcharges.subscribers.find?, if_pos hkey, Option.some.injEq] at hr'
    subst hr'
    refine ⟨hnext₀, ?_, ?_, hinterval⟩
    . refine (addSeconds_of_lt hfits).trans ?_
      rw [Nat.add_mul, Nat.one_mul, ← hinterval]
      rw [← hinterval] at hsum
      omega
    . unfold charged
      dsimp only
      omega

/-- A turn charges nobody but the subscriber whose turn it is. -/
theorem Tracks.turn_cases {n : Nat} (h : Tracks db₀ key r₀ n db) (hfit : db.DueFit)
    (hr : db.subscribers.find? r.byAuthorOidSubscriber = some r) (hnext : r.nextPayment ≠ 0)
    (hdue : r.nextPayment ≤ db.headBlockTime) (hturn : Turn r db db') :
    Tracks db₀ key r₀ n db' ∨
      key = r.byAuthorOidSubscriber ∧ 0 < r.executionsLeft ∧ Tracks db₀ key r₀ (n + 1) db' := by
  have hother : key ≠ r.byAuthorOidSubscriber → Persists db db' key := by
    intro hne r' hr' _
    rw [hturn.find?_of_ne hne] at hr'
    exact ⟨r', hr', rfl, rfl, rfl⟩
  -- the row of a subscriber whose payments are stopped
  have hstopped : ∀ reason, Deactivates r reason db db' → Persists db db' key := by
    intro reason hd
    by_cases hkey : key = r.byAuthorOidSubscriber
    . intro r' hr' hne
      rw [hd.subscribers.find?, if_pos hkey, Option.some.injEq] at hr'
      subst hr'
      exact absurd rfl hne
    . exact hother hkey
  have htime := hturn.headBlockTime.ge
  cases hturn with
  | executionsEnd _ hd => exact .inl (h.of_persists (hd.quiet.charges key) htime (hstopped _ hd))
  | insufficientFunds _ _ hd =>
    exact .inl (h.of_persists (hd.quiet.charges key) htime (hstopped _ hd))
  | charge hleft prepaid amount hcharges =>
    by_cases hkey : key = r.byAuthorOidSubscriber
    . have hfits := hfit.add_lt (Table.mem_of_find? hr) hnext hdue hleft
      exact .inr ⟨hkey, hleft, h.charge hr hkey hnext hdue hleft hfits hcharges⟩
    . refine .inl (h.of_persists ?_ htime (hother hkey))
      rw [hcharges.charges, if_neg hkey, Nat.add_zero]

theorem tracks_of_bills {n : Nat} (h : Tracks db₀ key r₀ n db) (hsound : db.Sound)
    (hfit : db.DueFit) (hbills : Bills db db') : ∃ n, Tracks db₀ key r₀ n db' := by
  have hall := hbills.invariant
    (P := fun db => db.Sound ∧ db.DueFit ∧ ∃ n, Tracks db₀ key r₀ n db) ?_ ⟨hsound, hfit, n, h⟩
  . exact hall.2.2
  . rintro db db' r ⟨hsound, hfit, n, h⟩ hr hnext hdue hturn
    refine ⟨hsound.turn hr hnext hturn, hfit.turn hsound hr hnext hdue hturn, ?_⟩
    rcases h.turn_cases hfit hr hnext hdue hturn with h | ⟨-, -, h⟩
    . exact ⟨n, h⟩
    . exact ⟨n + 1, h⟩

theorem persists_of_eq (h : db'.subscribers = db.subscribers) : Persists db db' key :=
  .of_subset fun _ hr => h ▸ hr

/-- One step charges the subscriber no sooner than it is due. -/
theorem Tracks.step {n : Nat} (h : Tracks db₀ key r₀ n db) (hsound : db.Sound)
    (hfits : db.FitsTime e) (hother : ∀ op, e = .paidSubscriptionTransfer op → op.key ≠ key)
    (hstep : db.Step e db') : ∃ n, Tracks db₀ key r₀ n db' := by
  cases e with
  | paidSubscriptionCreate op =>
    obtain ⟨pso, -, -, -, -, -, hdb'⟩ := paidSubscriptionCreate_cases hstep
    rw [hdb']
    exact ⟨n, h.of_persists rfl le_rfl (persists_of_eq rfl)⟩
  | paidSubscriptionUpdate op =>
    obtain ⟨pso, -, -, hquiet, -⟩ := paidSubscriptionUpdate_cases hstep
    exact ⟨n, h.of_persists (hquiet.charges key) hquiet.headBlockTime.ge
      (persists_of_update hstep)⟩
  | paidSubscriptionDelete op =>
    obtain ⟨pso, m, -, hquiet, hremoves, -⟩ := paidSubscriptionDelete_cases hstep
    exact ⟨n, h.of_persists (hquiet.charges key) hquiet.headBlockTime.ge
      (.of_subset fun r hr => ((hremoves.mem r).mp hr).1)⟩
  | paidSubscriptionTransfer op =>
    obtain ⟨hquiet, hpersists⟩ := persists_of_transfer hstep (hother op rfl).symm
    exact ⟨n, h.of_persists (hquiet.charges key) hquiet.headBlockTime.ge hpersists⟩
  | paidSubscriptionCancel op =>
    obtain ⟨r, pso, m, -, -, hquiet, herase, -⟩ := paidSubscriptionCancel_cases hstep
    refine ⟨n, h.of_persists (hquiet.charges key) hquiet.headBlockTime.ge (.of_subset ?_)⟩
    intro r hr
    rw [herase] at hr
    exact (Table.mem_erase.mp hr).1
  | processPaidSubscribers index =>
    exact tracks_of_bills h hsound hfits (bills_of_processPaidSubscribers hstep.1 hstep.2)
  | elsewhere =>
    refine ⟨n, h.of_persists ?_ hstep.headBlockTime (persists_of_eq hstep.subscribers)⟩
    unfold SubscriptionDatabase.charges
    rw [hstep.events]

/-- The steps that leave the subscriber with what was paid for. -/
def WithoutTransfer (key : SubscriberKey) (db : SubscriptionDatabase) (e : Event) : Prop :=
  db.FitsTime e ∧ ∀ op, e = .paidSubscriptionTransfer op → op.key ≠ key

theorem tracks_of_find? (h : db.subscribers.find? key = some r) : Tracks db key r 0 db where
  charges := rfl
  executions := Nat.zero_le _
  time := fun hpos => absurd hpos (lt_irrefl 0)
  row := by
    intro r' hr' hne
    rw [h, Option.some.injEq] at hr'
    subst hr'
    exact ⟨hne, by omega, rfl, rfl⟩

theorem tracks_of_startedIn {n : Nat} (hsound : db.Sound) (htracks : Tracks db₀ key r n db)
    (h : (system.startedIn db).Reach (WithoutTransfer key) db') : ∃ n, Tracks db₀ key r n db' := by
  have hall : db'.Sound ∧ ∃ n, Tracks db₀ key r n db' := by
    apply h.invariant
    . rintro _ rfl
      exact ⟨hsound, n, htracks⟩
    . rintro db₁ e db₂ ⟨hsound, n, h⟩ ⟨hfits, hother⟩ hstep
      exact ⟨hsound.step hstep, h.step hsound hfits hother hstep⟩
  exact hall.2

/-- A block that charges a subscriber on time, or for the last time, charges him once. -/
theorem once_of_bills (hsound : db.Sound) (hfit : db.DueFit) (htime : db.OnTime)
    (hr : db.subscribers.find? key = some r) (hbills : Bills db db') :
    db'.headBlockTime = db.headBlockTime ∧ (Tracks db key r 0 db' ∨
      Tracks db key r 1 db' ∧ (1 < r.executionsLeft → r.nextPayment = db.headBlockTime)) := by
  have hall := hbills.invariant
    (P := fun x => x.Sound ∧ x.DueFit ∧ x.headBlockTime = db.headBlockTime ∧
      (Tracks db key r 0 x ∨
        Tracks db key r 1 x ∧ (1 < r.executionsLeft → r.nextPayment = db.headBlockTime))) ?_
    ⟨hsound, hfit, rfl, .inl (tracks_of_find? hr)⟩
  . exact hall.2.2
  . rintro x x' o ⟨hsound, hfit, hhead, hcharged⟩ ho hnext hdue hturn
    refine ⟨hsound.turn ho hnext hturn, hfit.turn hsound ho hnext hdue hturn,
      hturn.headBlockTime.trans hhead, ?_⟩
    rcases hcharged with h | ⟨h, hontime⟩
    . rcases h.turn_cases hfit ho hnext hdue hturn with h' | ⟨hkey, -, h'⟩
      . exact .inl h'
      . obtain ⟨hnext₀, hsame, hleft₀, -⟩ := h.row o (hkey ▸ ho) hnext
        refine .inr ⟨h', htime r (Table.mem_of_find? hr) hnext₀ ?_⟩
        rw [Nat.zero_mul] at hsame
        omega
    . rcases h.turn_cases hfit ho hnext hdue hturn with h' | ⟨hkey, hleft, -⟩
      . exact .inr ⟨h', hontime⟩
      -- one interval later the row is not due in this block
      . obtain ⟨-, hsame, hleft₀, hinterval⟩ := h.row o (hkey ▸ ho) hnext
        have hpos := (hsound.rows o (Table.mem_of_find? ho)).interval hleft
        have := hontime (by omega)
        rw [Nat.one_mul] at hsame
        omega

/-- The next charge comes an interval later at the earliest. -/
theorem later_of_charge {db'' : SubscriptionDatabase} (h : Tracks db key r 1 db')
    (hsound : db'.Sound) (htime : 1 < r.executionsLeft → r.nextPayment = db.headBlockTime)
    (hrun : (system.startedIn db').Reach (WithoutTransfer key) db'')
    (hcharges : db'.charges key < db''.charges key) :
    db.headBlockTime + r.interval ≤ db''.headBlockTime := by
  obtain ⟨n, htracks⟩ := tracks_of_startedIn hsound h hrun
  have hfirst := h.charges
  have hlast := htracks.charges
  have hn : 2 ≤ n := by omega
  obtain ⟨-, hle⟩ := htracks.time (by omega)
  have hinterval : r.interval ≤ (n - 1) * r.interval := Nat.le_mul_of_pos_left _ (by omega)
  have := htime (by have := htracks.executions; omega)
  omega

/-- What a transfer buys: as many executions as the terms say, the first of them an interval from
now, if the subscription was not active. -/
theorem renewed_of_transfer (hfits : db.FitsTime (.paidSubscriptionTransfer op))
    (h : db.paidSubscriptionTransfer op = .ok db') :
    ∃ pso r, db.subscriptions.find? (op.toAccount, op.oid) = some pso ∧
      db'.subscribers.find? op.key = some r ∧ r.active = true ∧
      r.executionsLeft = pso.executions ∧ r.interval = pso.interval ∧
      (db.Schedules op pso → r.nextPayment = db.headBlockTime + pso.interval) := by
  obtain ⟨pso, db₁, -, hmatches, hpso, hsettles, hcases⟩ := paidSubscriptionTransfer_cases h
  have hfits := hfits pso
  have hpso₁ := hpso
  rw [← hsettles.subscriptions] at hpso₁
  rcases hcases with ⟨-, hadd⟩ | ⟨r, hr, hprolong⟩
  . obtain ⟨toPrepaid, n, -, -, -, hinserts, -⟩ := addSubscriber_cases hmatches hpso₁ hadd
    refine ⟨pso, _, hpso, hinserts.find?_eq_some_iff.mpr (.inr ⟨rfl, rfl⟩), rfl, rfl, rfl, ?_⟩
    intro hschedules
    unfold newSubscriber
    dsimp only
    rw [if_pos hschedules.2.1, hsettles.quiet.headBlockTime]
    exact addSeconds_of_lt (hfits hschedules)
  . have hr₁ := hr
    rw [← hsettles.subscribers] at hr₁
    obtain ⟨r', hrenews, -, -, -, -, -, hupdates, -⟩ :=
      prolongSubscriber_cases hmatches hpso₁ hr₁ hprolong
    have hkey := Table.key_of_find? hr
    refine ⟨pso, r', hpso, (hupdates.find? _).trans (if_pos hkey.symm), hrenews.active,
      hrenews.executionsLeft, hrenews.interval, fun hschedules => ?_⟩
    rw [hrenews.nextPayment, if_pos ⟨hschedules.2.2 r hr, hschedules.2.1⟩,
      hsettles.quiet.headBlockTime]
    exact addSeconds_of_lt (hfits hschedules)

/-- A charge leaves what is left. -/
theorem fund_nonneg_of_turn (hsound : r.Sound) (hturn : Turn r db db')
    (h : ∀ t a s, 0 ≤ db.fund t a s) : ∀ t a s, 0 ≤ db'.fund t a s := by
  intro t a s
  cases hturn with
  | executionsEnd _ hd => exact hd.funds t a s ▸ h t a s
  | insufficientFunds _ _ hd => exact hd.funds t a s ▸ h t a s
  | charge _ prepaid amount hcharges =>
    have hbefore := h t a s
    have hrest := restOf_nonneg r prepaid
    have hcost := hsound.cost
    have henough := hcharges.enough
    rw [hcharges.funds]
    have hauthor : 0 ≤ onFund r.tipCost r.author r.cost.symbol
        (r.cost.amount + restOf r prepaid) t a s := by
      unfold onFund
      split
      . omega
      . exact le_rfl
    have hsubscriber : 0 ≤ db.fund t a s +
        onFund r.tipCost r.subscriber r.cost.symbol (-amount) t a s := by
      unfold onFund
      split
      . next heq =>
        obtain ⟨rfl, rfl, rfl⟩ := heq
        by_cases hpos : 0 < amount
        . have := henough hpos
          omega
        . omega
      . omega
    omega

theorem fund_nonneg_of_bills (hsound : db.Sound) (hbills : Bills db db')
    (h : ∀ t a s, 0 ≤ db.fund t a s) : ∀ t a s, 0 ≤ db'.fund t a s := by
  refine (hbills.invariant (P := fun db => db.Sound ∧ ∀ t a s, 0 ≤ db.fund t a s) ?_
    ⟨hsound, h⟩).2
  rintro db db' r ⟨hsound, h⟩ hr hnext _ hturn
  exact ⟨hsound.turn hr hnext hturn,
    fund_nonneg_of_turn (hsound.rows r (Table.mem_of_find? hr)) hturn h⟩

section runs

instance (index : List SubscriberKey) : Decidable (db.IsNextPaymentIndex index) :=
  inferInstanceAs (Decidable (_ ∧ _))

def orDefault (x : Result SubscriptionDatabase) : SubscriptionDatabase :=
  x.toOption.getD {}

/-- An author, and somebody with money. -/
def twoAccounts : SubscriptionDatabase where
  ledger :=
    { accounts := ⟨[{ name := "alice" }, { name := "bobby", balance := 100 }], by decide⟩ }
  accounts := ⟨[{ name := "alice" }, { name := "bobby", tipBalance := 100 }], by decide⟩
  headBlockTime := 1000

def oidOfAlice : PaidSubscriptionId where
  app := "golos"
  name := "blog"

def createOf (interval : Nat) : PaidSubscriptionCreateOperation where
  author := "alice"
  oid := oidOfAlice
  cost := ⟨5, steemSymbol⟩
  interval := interval
  executions := 4

def transferOf (amount : ℤ) (fromTip : Bool) : PaidSubscriptionTransferOperation where
  fromAccount := "bobby"
  toAccount := "alice"
  oid := oidOfAlice
  amount := ⟨amount, steemSymbol⟩
  fromTip := fromTip

/-- Alice has a subscription with this interval. -/
def offered (interval : Nat) : SubscriptionDatabase :=
  orDefault (twoAccounts.paidSubscriptionCreate (createOf interval))

/-- Bobby has paid for it. -/
def subscribed (interval : Nat) : SubscriptionDatabase :=
  orDefault ((offered interval).paidSubscriptionTransfer (transferOf 5 false))

def keyOfBobby : SubscriberKey :=
  (transferOf 5 false).key

def billed (db : SubscriptionDatabase) : SubscriptionDatabase :=
  orDefault (db.processPaidSubscribers [keyOfBobby])

/-- Time has passed. -/
def later (db : SubscriptionDatabase) (seconds : Nat) : SubscriptionDatabase :=
  { db with headBlockTime := db.headBlockTime + seconds }

variable {ok : SubscriptionDatabase → Event → Prop} {interval : Nat}

theorem elsewhere_later (db : SubscriptionDatabase) (seconds : Nat) :
    db.Elsewhere (db.later seconds) :=
  ⟨rfl, rfl, rfl, rfl, Nat.le_add_right _ _, fun _ _ h => h, fun name n hnone hsome => by
    cases hnone.symm.trans hsome⟩

theorem initial_twoAccounts : system.initial twoAccounts := by
  refine ⟨rfl, rfl, rfl, fun name n h => ?_⟩
  obtain ⟨a, ha, rfl⟩ := Option.map_eq_some_iff.mp h
  have hall : ∀ a ∈ twoAccounts.accounts.rows, a.sponsorCount = 0 := by decide
  exact hall a (Table.mem_of_find? ha)

theorem reach_offered (hok : ok twoAccounts (.paidSubscriptionCreate (createOf interval)))
    (h : (twoAccounts.paidSubscriptionCreate (createOf interval)).toOption.isSome) :
    system.Reach ok (offered interval) :=
  .step (.initial initial_twoAccounts) hok (eq_ok_of_isSome h)

theorem reach_subscribed (h : system.Reach ok (offered interval))
    (hok : ok (offered interval) (.paidSubscriptionTransfer (transferOf 5 false)))
    (htransfer : ((offered interval).paidSubscriptionTransfer
      (transferOf 5 false)).toOption.isSome) : system.Reach ok (subscribed interval) :=
  .step h hok (eq_ok_of_isSome htransfer)

theorem reach_billed {S : TransitionSystem SubscriptionDatabase Event}
    (hstep : S.step = SubscriptionDatabase.Step) (h : S.Reach ok db)
    (hok : ok db (.processPaidSubscribers [keyOfBobby]))
    (hindex : db.IsNextPaymentIndex [keyOfBobby])
    (hprocess : (db.processPaidSubscribers [keyOfBobby]).toOption.isSome) :
    S.Reach ok db.billed := by
  refine .step (e := .processPaidSubscribers [keyOfBobby]) h hok ?_
  rw [hstep]
  exact ⟨hindex, eq_ok_of_isSome hprocess⟩

end runs

end SubscriptionDatabase

open SubscriptionDatabase in
theorem reach_subscribed_ten : system.Reach FitsTime (subscribed 10) := by
  have hoffered : system.Reach FitsTime (offered 10) := reach_offered trivial (by decide +kernel)
  refine reach_subscribed hoffered (fun pso hschedules => ?_) (by decide +kernel)
  have hfind : (offered 10).subscriptions.find? ("alice", oidOfAlice) =
      some { author := "alice", oid := oidOfAlice, cost := ⟨5, steemSymbol⟩, interval := 10,
             executions := 4 } := by
    decide +kernel
  cases hschedules.1.symm.trans hfind
  decide +kernel

end Golos.Subscription
