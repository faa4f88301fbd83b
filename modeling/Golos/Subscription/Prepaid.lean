import Golos.Subscription.Schedule

/-!
This module contains where prepaid money comes from and goes to, and the counters of subscribers, as
long as the kind of a prepayment does not change and the counters have room.
-/

namespace Golos.Subscription

open Checked

/-- All of the prepaid money has been taken from the kind of balance, and in the symbol, that a
return of it would go to. -/
structure PaidSubscriberObject.Sourced (r : PaidSubscriberObject) : Prop where
  recorded : r.prepaid.amount ≠ 0 → r.prepaidSources ≠ []
  same : ∀ src ∈ r.prepaidSources, src = (r.tipCost, r.prepaid.symbol)

namespace SubscriptionDatabase

variable {db db' : SubscriptionDatabase} {r r' : PaidSubscriberObject}
  {pso pso' : PaidSubscriptionObject} {op : PaidSubscriptionTransferOperation} {e : Event}
  {author name : AccountName} {oid : PaidSubscriptionId}

def subscriberCount (db : SubscriptionDatabase) (author : AccountName) (oid : PaidSubscriptionId) :
    Nat :=
  db.subscribers.rows.countP fun r => r.author = author ∧ r.oid = oid

def activeCount (db : SubscriptionDatabase) (author : AccountName) (oid : PaidSubscriptionId) :
    Nat :=
  db.subscribers.rows.countP fun r => (r.author = author ∧ r.oid = oid) ∧ r.active = true

/-- The number of subscribers that an author has in all. -/
def sponsored (db : SubscriptionDatabase) (name : AccountName) : Nat :=
  db.subscribers.rows.countP fun r => r.author = name

/-- A transfer leaves the kind of the money that is prepaid already as it is. -/
def KeepsKind (db : SubscriptionDatabase) (op : PaidSubscriptionTransferOperation) : Prop :=
  ∀ pso ∈ db.subscriptions.find? (op.toAccount, op.oid), ∀ r ∈ db.subscribers.find? op.key,
    0 < r.prepaid.amount → r.prepaid.symbol = pso.cost.symbol → r.tipCost = pso.tipCost

/-- The steps that change no kind of prepaid money and let no counter overflow. -/
def Consistent (db : SubscriptionDatabase) : Event → Prop
  | .paidSubscriptionTransfer op =>
    db.KeepsKind op ∧ (db.subscribers.find? op.key = none → db.sponsored op.toAccount + 1 < 2 ^ 32)
  | _ => True

instance : Decidable (db.KeepsKind op) :=
  inferInstanceAs (Decidable (∀ pso ∈ _, ∀ r ∈ _, _))

structure Sourced (db : SubscriptionDatabase) : Prop where
  rows : ∀ r ∈ db.subscribers.rows, r.Sourced
  returned : ∀ r ∈ db.returned, r.prepaid.amount ≠ 0 ∧ r.Sourced

section sources

theorem Sourced.of_subset (h : db.Sourced)
    (hrows : ∀ r ∈ db'.subscribers.rows, r ∈ db.subscribers.rows)
    {removed : List PaidSubscriberObject} (hreturned : db'.returned = db.returned ++ removed)
    (hremoved : ∀ r ∈ removed, r ∈ db.subscribers.rows ∧ r.prepaid.amount ≠ 0) : db'.Sourced := by
  refine ⟨fun r hr => h.rows r (hrows r hr), fun r hr => ?_⟩
  rw [hreturned] at hr
  rcases List.mem_append.mp hr with hr | hr
  . exact h.returned r hr
  . obtain ⟨hrow, hne⟩ := hremoved r hr
    exact ⟨hne, h.rows r hrow⟩

theorem mem_unspent {removed : List PaidSubscriberObject} (h : r ∈ unspent removed) :
    r ∈ removed ∧ r.prepaid.amount ≠ 0 := by
  obtain ⟨hr, hne⟩ := List.mem_filter.mp h
  exact ⟨hr, of_decide_eq_true hne⟩

theorem sourced_updateSubscriber (cost : Asset) (h : r.Sourced) :
    (updateSubscriber cost r).Sourced := by
  unfold updateSubscriber
  by_cases hsymbol : cost.symbol = r.cost.symbol
  . refine ⟨fun hne => ?_, fun src hsrc => ?_⟩
    . simp only [hsymbol, ne_eq, not_true_eq_false, ↓reduceIte] at hne ⊢
      exact h.recorded hne
    . simp only [hsymbol, ne_eq, not_true_eq_false, ↓reduceIte] at hsrc ⊢
      exact h.same src hsrc
  . refine ⟨fun hne => ?_, fun src hsrc => ?_⟩
    . simp only [hsymbol, ne_eq, not_false_eq_true, ↓reduceIte, not_true_eq_false] at hne
    . simp only [hsymbol, ne_eq, not_false_eq_true, ↓reduceIte, List.not_mem_nil] at hsrc

theorem sourced_newSubscriber (now : Nat) (toPrepaid : ℤ) :
    (newSubscriber pso op now toPrepaid).Sourced := by
  unfold newSubscriber
  refine ⟨fun hne => ?_, fun src hsrc => ?_⟩
  . dsimp only at hne ⊢
    rw [if_neg hne]
    exact List.cons_ne_nil _ _
  . dsimp only at hsrc ⊢
    split at hsrc
    . exact absurd hsrc List.not_mem_nil
    . exact List.mem_singleton.mp hsrc

/-- The new payment has the kind that the terms ask for, and the old one has it already. -/
theorem sourced_of_deposits {amount : ℤ} (hsound : r.Sound) (h : r.Sourced)
    (hkind : 0 < r.prepaid.amount → r.prepaid.symbol = pso.cost.symbol → r.tipCost = pso.tipCost)
    (hdeposits : Deposits pso amount r r') : r'.Sourced := by
  unfold Deposits at hdeposits
  split at hdeposits
  . obtain ⟨-, htip, hprepaid, hsources⟩ := hdeposits
    refine ⟨fun _ => ?_, fun src hsrc => ?_⟩
    . rw [hsources]
      exact List.append_ne_nil_of_right_ne_nil _ (List.cons_ne_nil _ _)
    . rw [hsources, List.mem_append] at hsrc
      rw [htip, hprepaid]
      dsimp only
      rcases hsrc with hsrc | hsrc
      . split at hsrc
        . exact absurd hsrc List.not_mem_nil
        . next hkept =>
          unfold keptPrepaid at hkept
          split at hkept
          . next hsymbol =>
            have hpos : 0 < r.prepaid.amount := by
              have := hsound.prepaid
              omega
            rw [h.same src hsrc, hkind hpos hsymbol, hsymbol]
          . exact absurd rfl hkept
      . exact List.mem_singleton.mp hsrc
  . obtain ⟨-, htip, hprepaid, hsources⟩ := hdeposits
    refine ⟨?_, ?_⟩
    . rw [hprepaid, hsources]
      exact h.recorded
    . rw [hprepaid, hsources, htip]
      exact h.same

theorem sourced_charged {prepaid : ℤ} (h : r.Sourced) (hprepaid : prepaid ≤ r.prepaid.amount)
    (hnonneg : 0 ≤ prepaid) : (charged r prepaid).Sourced := by
  have hrest := restOf_nonneg r prepaid
  have hleft := charged_prepaid_nonneg hprepaid
  unfold charged at hleft ⊢
  dsimp only at hleft
  refine ⟨fun hne => ?_, fun src hsrc => ?_⟩
  . dsimp only at hne ⊢
    rw [if_neg hne]
    exact h.recorded (by omega)
  . dsimp only at hsrc ⊢
    split at hsrc
    . exact absurd hsrc List.not_mem_nil
    . exact h.same src hsrc

theorem Sourced.turn (h : db.Sourced) (hsound : db.Sound)
    (hr : db.subscribers.find? r.byAuthorOidSubscriber = some r) (hturn : Turn r db db') :
    db'.Sourced := by
  have hrow := Table.mem_of_find? hr
  have hsourced := h.rows r hrow
  cases hturn with
  | executionsEnd _ hd =>
    exact ⟨rows_of_updates hd.subscribers rfl h.rows ⟨hsourced.recorded, hsourced.same⟩,
      hd.returned ▸ h.returned⟩
  | insufficientFunds _ _ hd =>
    exact ⟨rows_of_updates hd.subscribers rfl h.rows ⟨hsourced.recorded, hsourced.same⟩,
      hd.returned ▸ h.returned⟩
  | charge _ prepaid amount hcharges =>
    have hsoundRow := hsound.rows r hrow
    have hshare := hcharges.share
    have hprepaid := hsoundRow.prepaid
    have hcost := hsoundRow.cost
    exact ⟨rows_of_updates hcharges.subscribers rfl h.rows
      (sourced_charged hsourced (by omega) (by omega)), hcharges.returned ▸ h.returned⟩

theorem Sourced.transfer (h : db.Sourced) (hsound : db.Sound) (hkind : db.KeepsKind op)
    (htransfer : db.paidSubscriptionTransfer op = .ok db') : db'.Sourced := by
  obtain ⟨pso, db₁, -, hmatches, hpso, hsettles, hcases⟩ := paidSubscriptionTransfer_cases htransfer
  have h₁ : db₁.Sourced :=
    h.of_subset (fun r hr => hsettles.subscribers ▸ hr) hsettles.returned
      fun r hr => absurd hr List.not_mem_nil
  have hkind := hkind pso hpso
  rw [← hsettles.subscriptions] at hpso
  rcases hcases with ⟨-, hadd⟩ | ⟨r, hr, hprolong⟩
  . obtain ⟨toPrepaid, n, -, -, hreturned, hinserts, -⟩ := addSubscriber_cases hmatches hpso hadd
    refine ⟨fun r hr => ?_, hreturned ▸ h₁.returned⟩
    rcases (hinserts.mem r).mp hr with hr | rfl
    . exact h₁.rows r hr
    . exact sourced_newSubscriber _ _
  . have hkind := hkind r hr
    have hsoundRow := hsound.rows r (Table.mem_of_find? hr)
    rw [← hsettles.subscribers] at hr
    have hsourced := h₁.rows r (Table.mem_of_find? hr)
    obtain ⟨r', hrenews, hdeposits, -, -, -, hreturned, hrows, -⟩ :=
      prolongSubscriber_cases hmatches hpso hr hprolong
    refine ⟨rows_of_updates hrows hrenews.key h₁.rows
      (sourced_of_deposits hsoundRow hsourced hkind hdeposits), fun o ho => ?_⟩
    rw [hreturned] at ho
    rcases List.mem_append.mp ho with ho | ho
    . exact h₁.returned o ho
    . unfold otherSymbol at ho
      split at ho
      . next hreturn =>
        rw [List.mem_singleton.mp ho]
        exact ⟨by omega, hsourced⟩
      . exact absurd ho List.not_mem_nil

/-- One step returns prepaid money to where it comes from. -/
theorem Sourced.step (h : db.Sourced) (hsound : db.Sound) (hconsistent : db.Consistent e)
    (hstep : db.Step e db') : db'.Sourced := by
  cases e with
  | paidSubscriptionCreate op =>
    obtain ⟨pso, -, -, -, -, -, hdb'⟩ := paidSubscriptionCreate_cases hstep
    rw [hdb']
    exact ⟨h.rows, h.returned⟩
  | paidSubscriptionUpdate op =>
    obtain ⟨pso, -, -, -, hreturned, -, ⟨hsame, -⟩ | ⟨hrows, -⟩⟩ :=
      paidSubscriptionUpdate_cases hstep
    . exact ⟨hsame ▸ h.rows, hreturned ▸ h.returned⟩
    . refine ⟨fun r hr => ?_, hreturned ▸ h.returned⟩
      rw [hrows] at hr
      obtain ⟨o, ho, rfl⟩ := mem_updateSubscribers.mp hr
      split
      . exact sourced_updateSubscriber op.cost (h.rows o ho)
      . exact h.rows o ho
  | paidSubscriptionDelete op =>
    obtain ⟨pso, n, -, -, hremoves, hreturned, -⟩ := paidSubscriptionDelete_cases hstep
    refine h.of_subset (fun r hr => ((hremoves.mem r).mp hr).1) hreturned fun r hr => ?_
    obtain ⟨hr, hne⟩ := mem_unspent hr
    exact ⟨List.mem_of_mem_filter hr, hne⟩
  | paidSubscriptionTransfer op => exact h.transfer hsound hconsistent.1 hstep
  | paidSubscriptionCancel op =>
    obtain ⟨r, pso, n, hr, -, -, herase, hreturned, -⟩ := paidSubscriptionCancel_cases hstep
    refine h.of_subset (fun o ho => ?_) hreturned fun o ho => ?_
    . rw [herase] at ho
      exact (Table.mem_erase.mp ho).1
    . obtain ⟨ho, hne⟩ := mem_unspent ho
      rw [List.mem_singleton.mp ho] at hne ⊢
      exact ⟨Table.mem_of_find? hr, hne⟩
  | processPaidSubscribers index =>
    have hbills := bills_of_processPaidSubscribers hstep.1 hstep.2
    refine (hbills.invariant (P := fun db => db.Sound ∧ db.Sourced) ?_ ⟨hsound, h⟩).2
    rintro db db' r ⟨hsound, h⟩ hr hnext _ hturn
    exact ⟨hsound.turn hr hnext hturn, h.turn hsound hr hturn⟩
  | elsewhere => exact ⟨hstep.subscribers ▸ h.rows, hstep.returned ▸ h.returned⟩

end sources

section counters

theorem increase_of_lt {n : Nat} (h : n + 1 < 2 ^ 32) : increase n = n + 1 :=
  Nat.mod_eq_of_lt h

theorem decrease_of_le {n k : Nat} (hk : k ≤ n) (hn : n < 2 ^ 32) : decrease n k = n - k := by
  unfold decrease
  rw [Nat.mod_eq_of_lt (by omega), if_pos hk]

theorem activeCount_le (db : SubscriptionDatabase) (author : AccountName)
    (oid : PaidSubscriptionId) : db.activeCount author oid ≤ db.subscriberCount author oid := by
  apply List.countP_mono_left
  intro r _ hr
  rw [decide_eq_true_iff] at hr ⊢
  exact hr.1

theorem subscriberCount_le (db : SubscriptionDatabase) (author : AccountName)
    (oid : PaidSubscriptionId) : db.subscriberCount author oid ≤ db.sponsored author := by
  apply List.countP_mono_left
  intro r _ hr
  rw [decide_eq_true_iff] at hr ⊢
  exact hr.1

/-- The counters are those of the rows, and none of them overflows. -/
structure Counted (db : SubscriptionDatabase) : Prop where
  owned : ∀ r ∈ db.subscribers.rows, (db.subscriptions.find? (r.author, r.oid)).isSome
  subscribers : ∀ pso ∈ db.subscriptions.rows,
    pso.subscribers = db.subscriberCount pso.author pso.oid
  activeSubscribers : ∀ pso ∈ db.subscriptions.rows,
    pso.activeSubscribers = db.activeCount pso.author pso.oid
  authors : ∀ pso ∈ db.subscriptions.rows, (db.sponsorCount? pso.author).isSome
  sponsorCount : ∀ name n, db.sponsorCount? name = some n → n = db.sponsored name
  room : ∀ name, db.sponsored name < 2 ^ 32

/-- What a row counts for. -/
def counts (r : PaidSubscriberObject) (author : AccountName) (oid : PaidSubscriptionId) : Nat :=
  if r.author = author ∧ r.oid = oid then 1 else 0

def countsActive (r : PaidSubscriberObject) (author : AccountName) (oid : PaidSubscriptionId) :
    Nat :=
  if (r.author = author ∧ r.oid = oid) ∧ r.active = true then 1 else 0

/-- A row that is rewritten stays with its subscription. -/
theorem counts_of_updates (h : db.subscribers.Updates db'.subscribers r r')
    (hkey : r'.byAuthorOidSubscriber = r.byAuthorOidSubscriber) :
    (∀ author oid, db'.subscriberCount author oid = db.subscriberCount author oid) ∧
      (∀ name, db'.sponsored name = db.sponsored name) ∧
      ∀ author oid, db'.activeCount author oid + countsActive r author oid =
        db.activeCount author oid + countsActive r' author oid := by
  simp only [Prod.mk.injEq] at hkey
  refine ⟨fun author oid => ?_, fun name => ?_, fun author oid => ?_⟩
  . have hcount := h.countP fun r => r.author = author ∧ r.oid = oid
    simp only [hkey] at hcount
    exact Nat.add_right_cancel hcount
  . have hcount := h.countP fun r => r.author = name
    simp only [hkey] at hcount
    exact Nat.add_right_cancel hcount
  . exact h.countP fun r => (r.author = author ∧ r.oid = oid) ∧ r.active = true

theorem owned_of_updates (h : db.Counted) (hupdates : db.subscribers.Updates db'.subscribers r r')
    (hkey : r'.byAuthorOidSubscriber = r.byAuthorOidSubscriber)
    (hfind : ∀ k, (db.subscriptions.find? k).isSome → (db'.subscriptions.find? k).isSome) :
    ∀ r ∈ db'.subscribers.rows, (db'.subscriptions.find? (r.author, r.oid)).isSome := by
  have hrow := h.owned r (Table.mem_of_find? hupdates.row)
  refine rows_of_updates hupdates hkey (fun o ho => hfind _ (h.owned o ho)) ?_
  simp only [Prod.mk.injEq] at hkey
  rw [hkey.1, hkey.2.1]
  exact hfind _ hrow

theorem isSome_of_updates (h : db.subscriptions.Updates db'.subscriptions pso pso')
    {k : AccountName × PaidSubscriptionId} (hk : (db.subscriptions.find? k).isSome) :
    (db'.subscriptions.find? k).isSome := by
  rw [h.find?]
  split
  . rfl
  . exact hk

/-- Another subscription than the one that is rewritten. -/
theorem other_of_updates (h : db.subscriptions.Updates db'.subscriptions pso pso')
    (hkey : pso'.byAuthorOid = pso.byAuthorOid) {o : PaidSubscriptionObject}
    (ho : o ∈ db'.subscriptions.rows) :
    o = pso' ∨ o ∈ db.subscriptions.rows ∧ ¬(pso.author = o.author ∧ pso.oid = o.oid) := by
  rcases (h.mem_rows hkey).mp ho with ⟨ho, hne⟩ | rfl
  . exact .inr ⟨ho, fun heq => hne (Prod.ext heq.1.symm heq.2.symm)⟩
  . exact .inl rfl

/-- A step that rewrites one row and one subscription, and moves its number of active ones along. -/
theorem Counted.of_updates (h : db.Counted) (hrows : db.subscribers.Updates db'.subscribers r r')
    (hkey : r'.byAuthorOidSubscriber = r.byAuthorOidSubscriber)
    (hupdates : db.subscriptions.Updates db'.subscriptions pso pso')
    (hkey' : pso'.byAuthorOid = pso.byAuthorOid) (hown : r.author = pso.author ∧ r.oid = pso.oid)
    (hsubscribers : pso'.subscribers = pso.subscribers)
    (hactive : pso'.activeSubscribers + (if r.active = true then 1 else 0) =
      pso.activeSubscribers + if r'.active = true then 1 else 0)
    (hsponsor : ∀ name, db'.sponsorCount? name = db.sponsorCount? name) : db'.Counted := by
  obtain ⟨hcount, hsponsored, hactives⟩ := counts_of_updates hrows hkey
  have hpso : pso ∈ db.subscriptions.rows := Table.mem_of_find? hupdates.row
  have hname := hkey
  have hname' := hkey'
  simp only [Prod.mk.injEq] at hname hname'
  refine ⟨?_, fun o ho => ?_, fun o ho => ?_, fun o ho => ?_, fun name n hn => ?_, fun name => ?_⟩
  . exact owned_of_updates h hrows hkey fun k hk => isSome_of_updates hupdates hk
  . rw [hcount]
    rcases other_of_updates hupdates hkey' ho with rfl | ⟨ho, -⟩
    . rw [hsubscribers, hname'.1, hname'.2]
      exact h.subscribers pso hpso
    . exact h.subscribers o ho
  . have hactives := hactives o.author o.oid
    unfold countsActive at hactives
    rw [hname.1, hname.2.1, hown.1, hown.2] at hactives
    rcases other_of_updates hupdates hkey' ho with rfl | ⟨ho, hne⟩
    . simp only [hname', and_self, true_and] at hactives ⊢
      have := h.activeSubscribers pso hpso
      omega
    . simp only [hne, false_and, ↓reduceIte, Nat.add_zero] at hactives
      rw [hactives]
      exact h.activeSubscribers o ho
  . rw [hsponsor]
    rcases other_of_updates hupdates hkey' ho with rfl | ⟨ho, -⟩
    . rw [hname'.1]
      exact h.authors pso hpso
    . exact h.authors o ho
  . rw [hsponsor] at hn
    rw [hsponsored]
    exact h.sponsorCount name n hn
  . rw [hsponsored]
    exact h.room name

theorem Counted.active_pos (h : db.Counted) (hr : r ∈ db.subscribers.rows)
    (hpso : db.subscriptions.find? (r.author, r.oid) = some pso) (hactive : r.active = true) :
    0 < pso.activeSubscribers := by
  rw [h.activeSubscribers pso (Table.mem_of_find? hpso)]
  have hkey := Table.key_of_find? hpso
  simp only [Prod.mk.injEq] at hkey
  refine List.countP_pos_iff.mpr ⟨r, hr, ?_⟩
  rw [decide_eq_true_iff]
  exact ⟨⟨hkey.1.symm, hkey.2.symm⟩, hactive⟩

theorem Counted.active_lt (h : db.Counted) (hpso : pso ∈ db.subscriptions.rows) :
    pso.activeSubscribers < 2 ^ 32 := by
  rw [h.activeSubscribers pso hpso]
  have hroom := h.room pso.author
  have hle := db.activeCount_le pso.author pso.oid
  have hle' := db.subscriberCount_le pso.author pso.oid
  omega

theorem owner_of_find? (hr : db.subscribers.find? (author, oid, name) = some r)
    (hpso : db.subscriptions.find? (author, oid) = some pso) :
    r.author = pso.author ∧ r.oid = pso.oid := by
  have hkey := Table.key_of_find? hr
  have hkey' := Table.key_of_find? hpso
  simp only [Prod.mk.injEq] at hkey hkey'
  exact ⟨hkey.1.trans hkey'.1.symm, hkey.2.1.trans hkey'.2.symm⟩

theorem Counted.deactivates {reason : PsroInactiveReason} (h : db.Counted)
    (hr : r ∈ db.subscribers.rows) (hactive : r.active = true)
    (hd : Deactivates r reason db db') : db'.Counted := by
  obtain ⟨pso, hpso, hupdates⟩ := hd.subscriptions
  have hkey := Table.key_of_find? hpso
  simp only [Prod.mk.injEq] at hkey
  have hpos := h.active_pos hr hpso hactive
  have hlt := h.active_lt (Table.mem_of_find? hpso)
  refine h.of_updates hd.subscribers rfl hupdates rfl ⟨hkey.1.symm, hkey.2.symm⟩ rfl ?_
    hd.sponsorCount?
  unfold deactivated
  dsimp only
  rw [decrease_of_le hpos hlt, if_pos hactive, if_neg Bool.false_ne_true]
  omega

theorem Counted.turn (h : db.Counted) (hsound : db.Sound)
    (hr : db.subscribers.find? r.byAuthorOidSubscriber = some r) (hnext : r.nextPayment ≠ 0)
    (hturn : Turn r db db') : db'.Counted := by
  have hrow := Table.mem_of_find? hr
  have hactive := (hsound.rows r hrow).active hnext
  cases hturn with
  | executionsEnd _ hd => exact h.deactivates hrow hactive hd
  | insufficientFunds _ _ hd => exact h.deactivates hrow hactive hd
  | charge _ prepaid amount hcharges =>
    obtain ⟨pso, hpso⟩ := Option.isSome_iff_exists.mp (h.owned r hrow)
    have hkey := Table.key_of_find? hpso
    have hsame : db.subscriptions.Updates db'.subscriptions pso pso := by
      rw [hcharges.subscriptions]
      exact .refl (hkey ▸ hpso)
    simp only [Prod.mk.injEq] at hkey
    exact h.of_updates hcharges.subscribers rfl hsame rfl ⟨hkey.1.symm, hkey.2.symm⟩ rfl rfl
      hcharges.sponsorCount?

theorem Counted.settles {returned : List PaidSubscriberObject} (h : db.Counted)
    (hsettles : Settles db returned db') : db'.Counted := by
  have hcounts : ∀ author oid, db'.subscriberCount author oid = db.subscriberCount author oid ∧
      db'.activeCount author oid = db.activeCount author oid ∧
      db'.sponsored author = db.sponsored author := by
    intro author oid
    unfold subscriberCount activeCount sponsored
    rw [hsettles.subscribers]
    exact ⟨rfl, rfl, rfl⟩
  refine ⟨fun r hr => ?_, fun o ho => ?_, fun o ho => ?_, fun o ho => ?_, fun name n hn => ?_,
    fun name => ?_⟩
  . rw [hsettles.subscriptions]
    exact h.owned r (hsettles.subscribers ▸ hr)
  . rw [(hcounts _ _).1]
    exact h.subscribers o (hsettles.subscriptions ▸ ho)
  . rw [(hcounts _ _).2.1]
    exact h.activeSubscribers o (hsettles.subscriptions ▸ ho)
  . rw [hsettles.sponsorCount?]
    exact h.authors o (hsettles.subscriptions ▸ ho)
  . rw [hsettles.sponsorCount?] at hn
    rw [(hcounts name ⟨"", "", 0⟩).2.2]
    exact h.sponsorCount name n hn
  . rw [(hcounts name ⟨"", "", 0⟩).2.2]
    exact h.room name

theorem Counted.prolong (h : db.Counted) (hmatches : Matches op pso)
    (hpso : db.subscriptions.find? (op.toAccount, op.oid) = some pso)
    (hr : db.subscribers.find? op.key = some r) (hprolong : db.prolongSubscriber pso op r = .ok db') :
    db'.Counted := by
  obtain ⟨r', hrenews, -, -, -, hsponsor, -, hrows, hupdates⟩ :=
    prolongSubscriber_cases hmatches hpso hr hprolong
  refine h.of_updates hrows hrenews.key hupdates rfl (owner_of_find? hr hpso) rfl ?_ hsponsor
  unfold reactivate
  dsimp only
  rw [if_pos hrenews.active]
  by_cases hactive : r.active = false
  . -- one more than before are no more than there are subscribers
    have hcount := h.activeSubscribers pso (Table.mem_of_find? hpso)
    obtain ⟨hall, -, hactives⟩ := counts_of_updates hrows hrenews.key
    have hactives := hactives pso.author pso.oid
    have howner := owner_of_find? hr hpso
    have howner' : r'.author = pso.author ∧ r'.oid = pso.oid := by
      have hkey := hrenews.key
      simp only [Prod.mk.injEq] at hkey
      exact ⟨hkey.1.trans howner.1, hkey.2.1.trans howner.2⟩
    unfold countsActive at hactives
    rw [if_neg fun hr => Bool.eq_false_iff.mp hactive hr.2, if_pos ⟨howner', hrenews.active⟩]
      at hactives
    have hle := db'.activeCount_le pso.author pso.oid
    rw [hall] at hle
    have hle' := db.subscriberCount_le pso.author pso.oid
    have hlt := h.room pso.author
    rw [if_pos hactive, increase_of_lt (by omega), if_neg (Bool.eq_false_iff.mp hactive)]
  . rw [if_neg hactive, if_pos (by rwa [Bool.not_eq_false] at hactive)]

theorem Counted.add (h : db.Counted) (hmatches : Matches op pso)
    (hpso : db.subscriptions.find? (op.toAccount, op.oid) = some pso)
    (hroom : db.sponsored op.toAccount + 1 < 2 ^ 32)
    (hadd : db.addSubscriber pso op = .ok db') : db'.Counted := by
  obtain ⟨toPrepaid, n, -, -, -, hinserts, hupdates, hn, hsponsor⟩ :=
    addSubscriber_cases hmatches hpso hadd
  have hrow := Table.mem_of_find? hpso
  have hkey := Table.key_of_find? hpso
  simp only [Prod.mk.injEq] at hkey
  have hsubscribers : ∀ author oid, db'.subscriberCount author oid =
      db.subscriberCount author oid + if op.toAccount = author ∧ op.oid = oid then 1 else 0 :=
    fun author oid => hinserts.countP fun r : PaidSubscriberObject =>
      r.author = author ∧ r.oid = oid
  have hactives : ∀ author oid, db'.activeCount author oid =
      db.activeCount author oid +
        if (op.toAccount = author ∧ op.oid = oid) ∧ true = true then 1 else 0 :=
    fun author oid =>
      hinserts.countP fun r : PaidSubscriberObject =>
        (r.author = author ∧ r.oid = oid) ∧ r.active = true
  have hsponsored : ∀ name, db'.sponsored name =
      db.sponsored name + if op.toAccount = name then 1 else 0 :=
    fun name => hinserts.countP fun r : PaidSubscriberObject => r.author = name
  have hle := db.subscriberCount_le pso.author pso.oid
  have hle' := db.activeCount_le pso.author pso.oid
  rw [← hkey.1] at hroom
  refine ⟨fun r hr => ?_, fun o ho => ?_, fun o ho => ?_, fun o ho => ?_, fun name m hm => ?_,
    fun name => ?_⟩
  . rcases (hinserts.mem r).mp hr with hr | rfl
    . exact isSome_of_updates hupdates (h.owned r hr)
    . apply isSome_of_updates hupdates
      unfold newSubscriber
      rw [hpso]
      rfl
  . rw [hsubscribers]
    rcases other_of_updates hupdates rfl ho with rfl | ⟨ho, hne⟩
    . unfold subscribe
      dsimp only
      rw [h.subscribers pso hrow, increase_of_lt (by omega), if_pos ⟨hkey.1.symm, hkey.2.symm⟩]
    . rw [hkey.1, hkey.2] at hne
      rw [if_neg hne]
      exact h.subscribers o ho
  . rw [hactives]
    rcases other_of_updates hupdates rfl ho with rfl | ⟨ho, hne⟩
    . unfold subscribe
      dsimp only
      rw [h.activeSubscribers pso hrow, increase_of_lt (by omega),
        if_pos ⟨⟨hkey.1.symm, hkey.2.symm⟩, rfl⟩]
    . rw [hkey.1, hkey.2] at hne
      rw [if_neg fun heq => hne heq.1]
      exact h.activeSubscribers o ho
  . rw [hsponsor]
    split
    . rfl
    . rcases other_of_updates hupdates rfl ho with rfl | ⟨ho, -⟩
      . exact h.authors pso hrow
      . exact h.authors o ho
  . rw [hsponsor] at hm
    rw [hsponsored]
    split at hm
    . next heq =>
      cases hm
      have hcount := h.sponsorCount op.toAccount n hn
      rw [heq, if_pos rfl, ← hcount]
      rw [hkey.1, ← hcount] at hroom
      exact increase_of_lt hroom
    . next hne =>
      rw [if_neg (Ne.symm hne)]
      exact h.sponsorCount name m hm
  . rw [hsponsored]
    split
    . next heq =>
      rw [← heq, ← hkey.1]
      exact hroom
    . exact h.room name

theorem Counted.transfer (h : db.Counted)
    (hroom : db.subscribers.find? op.key = none → db.sponsored op.toAccount + 1 < 2 ^ 32)
    (htransfer : db.paidSubscriptionTransfer op = .ok db') : db'.Counted := by
  obtain ⟨pso, db₁, -, hmatches, hpso, hsettles, hcases⟩ := paidSubscriptionTransfer_cases htransfer
  have h₁ := h.settles hsettles
  rw [← hsettles.subscriptions] at hpso
  rcases hcases with ⟨hnone, hadd⟩ | ⟨r, hr, hprolong⟩
  . refine h₁.add hmatches hpso ?_ hadd
    unfold sponsored
    rw [hsettles.subscribers]
    exact hroom hnone
  . rw [← hsettles.subscribers] at hr
    exact h₁.prolong hmatches hpso hr hprolong

/-- The rows of one subscription, and those of others. -/
theorem countP_subscribersOf (db : SubscriptionDatabase) (author : AccountName)
    (oid : PaidSubscriptionId) (p : PaidSubscriberObject → Prop) [DecidablePred p] :
    ((db.subscribersOf author oid).countP fun r => p r) =
      db.subscribers.rows.countP fun r => (r.author = author ∧ r.oid = oid) ∧ p r := by
  unfold subscribersOf
  rw [List.countP_filter]
  congr 1
  funext r
  rw [← Bool.decide_and, decide_eq_decide]
  tauto

/-- Rows are removed together with what counts them. -/
theorem Counted.delete {op : PaidSubscriptionDeleteOperation} (h : db.Counted)
    (hdelete : db.paidSubscriptionDelete op = .ok db') : db'.Counted := by
  obtain ⟨pso, n, hpso, -, hremoves, -, herase, hn, hsponsor⟩ := paidSubscriptionDelete_cases hdelete
  have hmem : ∀ o, o ∈ db'.subscriptions.rows ↔
      o ∈ db.subscriptions.rows ∧ o.byAuthorOid ≠ (op.author, op.oid) := by
    intro o
    rw [herase]
    exact Table.mem_erase
  -- nothing of another subscription is removed
  have hnone : ∀ p : PaidSubscriberObject → Prop, [DecidablePred p] →
      (∀ r, r.author = op.author ∧ r.oid = op.oid → ¬p r) →
      (db'.subscribers.rows.countP fun r => p r) = db.subscribers.rows.countP fun r => p r := by
    intro p _ hp
    have hzero : ((db.subscribersOf op.author op.oid).countP fun r => p r) = 0 := by
      refine List.countP_eq_zero.mpr fun r hr => ?_
      rw [decide_eq_true_iff]
      exact hp r (of_decide_eq_true (List.mem_filter.mp hr).2)
    have hcount := hremoves.countP p
    rwa [hzero, Nat.add_zero] at hcount
  have hsponsored : db'.sponsored op.author + (db.subscribersOf op.author op.oid).length =
      db.sponsored op.author := by
    have hall : ((db.subscribersOf op.author op.oid).countP fun r => r.author = op.author) =
        (db.subscribersOf op.author op.oid).length := by
      refine List.countP_eq_length.mpr fun r hr => ?_
      rw [decide_eq_true_iff]
      exact (of_decide_eq_true (List.mem_filter.mp hr).2 : r.author = op.author ∧ r.oid = op.oid).1
    rw [← hall]
    exact hremoves.countP fun r => r.author = op.author
  have hother : ∀ name, name ≠ op.author → db'.sponsored name = db.sponsored name :=
    fun name hne => hnone _ fun r hr heq => hne (heq.symm.trans hr.1)
  refine ⟨fun r hr => ?_, fun o ho => ?_, fun o ho => ?_, fun o ho => ?_, fun name m hm => ?_,
    fun name => ?_⟩
  . obtain ⟨hr, hkeep⟩ := (hremoves.mem r).mp hr
    rw [herase, Table.find?_erase_of_ne]
    . exact h.owned r hr
    . intro heq
      simp only [Prod.mk.injEq] at heq
      exact hkeep (List.mem_filter.mpr ⟨hr, decide_eq_true heq⟩)
  . obtain ⟨ho, hne⟩ := (hmem o).mp ho
    refine (h.subscribers o ho).trans (hnone _ fun r hr heq => hne ?_).symm
    exact Prod.ext (heq.1.symm.trans hr.1) (heq.2.symm.trans hr.2)
  . obtain ⟨ho, hne⟩ := (hmem o).mp ho
    refine (h.activeSubscribers o ho).trans (hnone _ fun r hr heq => hne ?_).symm
    exact Prod.ext (heq.1.1.symm.trans hr.1) (heq.1.2.symm.trans hr.2)
  . rw [hsponsor]
    split
    . rfl
    . exact h.authors o ((hmem o).mp ho).1
  . rw [hsponsor] at hm
    split at hm
    . next heq =>
      cases hm
      have hcount := h.sponsorCount op.author n hn
      have hroom := h.room op.author
      rw [heq, decrease_of_le (by omega) (by omega)]
      omega
    . next hne =>
      rw [hother name hne]
      exact h.sponsorCount name m hm
  . have hroom := h.room name
    by_cases heq : name = op.author
    . subst heq
      omega
    . rw [hother name heq]
      exact hroom

theorem Counted.cancel {op : PaidSubscriptionCancelOperation} (h : db.Counted)
    (hcancel : db.paidSubscriptionCancel op = .ok db') : db'.Counted := by
  obtain ⟨r, pso, n, hr, hpso, -, herase, -, hupdates, hn, hsponsor⟩ :=
    paidSubscriptionCancel_cases hcancel
  have howner := owner_of_find? hr hpso
  have hrow := Table.mem_of_find? hr
  have hpsoRow := Table.mem_of_find? hpso
  have hkey := Table.key_of_find? hpso
  simp only [Prod.mk.injEq] at hkey
  have hremoves : db.subscribers.Removes db'.subscribers [r] := herase ▸ .erase hrow
  have hcount : ∀ p : PaidSubscriberObject → Prop, [DecidablePred p] →
      (db'.subscribers.rows.countP fun r => p r) + (if p r then 1 else 0) =
        db.subscribers.rows.countP fun r => p r := by
    intro p _
    rw [← hremoves.countP p, List.countP_singleton]
    simp only [decide_eq_true_eq]
  have hsubscribers := fun author oid => hcount fun r => r.author = author ∧ r.oid = oid
  have hactives := fun author oid =>
    hcount fun r => (r.author = author ∧ r.oid = oid) ∧ r.active = true
  have hsponsored := fun name => hcount fun r => r.author = name
  have hlt := h.room pso.author
  have hle := db.subscriberCount_le pso.author pso.oid
  have hle' := db.activeCount_le pso.author pso.oid
  refine ⟨fun o ho => ?_, fun o ho => ?_, fun o ho => ?_, fun o ho => ?_, fun name m hm => ?_,
    fun name => ?_⟩
  . rw [herase] at ho
    exact isSome_of_updates hupdates (h.owned o (Table.mem_erase.mp ho).1)
  . have hsubscribers := hsubscribers o.author o.oid
    rw [howner.1, howner.2] at hsubscribers
    rcases other_of_updates hupdates rfl ho with rfl | ⟨ho, hne⟩
    . have hbefore := h.subscribers pso hpsoRow
      unfold unsubscribe at hsubscribers ⊢
      unfold subscriberCount at hbefore hle ⊢
      dsimp only at hsubscribers ⊢
      simp only [and_self, ↓reduceIte] at hsubscribers
      rw [decrease_of_le (by omega) (by omega)]
      omega
    . rw [if_neg hne, Nat.add_zero] at hsubscribers
      exact (h.subscribers o ho).trans hsubscribers.symm
  . have hactives := hactives o.author o.oid
    rw [howner.1, howner.2] at hactives
    rcases other_of_updates hupdates rfl ho with rfl | ⟨ho, hne⟩
    . have hbefore := h.activeSubscribers pso hpsoRow
      unfold unsubscribe at hactives ⊢
      unfold activeCount at hbefore hle' ⊢
      dsimp only at hactives ⊢
      by_cases hactive : r.active = true
      . simp only [hactive, and_self, ↓reduceIte] at hactives
        rw [if_pos hactive, decrease_of_le (by omega) (by omega)]
        omega
      . simp only [hactive, Bool.false_eq_true, and_false, ↓reduceIte, Nat.add_zero] at hactives
        rw [if_neg hactive]
        omega
    . rw [if_neg fun heq => hne heq.1, Nat.add_zero] at hactives
      exact (h.activeSubscribers o ho).trans hactives.symm
  . rw [hsponsor]
    split
    . rfl
    . rcases other_of_updates hupdates rfl ho with rfl | ⟨ho, -⟩
      . exact h.authors pso hpsoRow
      . exact h.authors o ho
  . have hsponsored := hsponsored name
    rw [hsponsor] at hm
    split at hm
    . next heq =>
      cases hm
      have hbefore := h.sponsorCount op.author n hn
      rw [howner.1, heq, hkey.1, if_pos rfl] at hsponsored
      rw [hkey.1] at hlt
      unfold sponsored at hbefore hlt ⊢
      rw [heq, decrease_of_le (by omega) (by omega)]
      omega
    . next hne =>
      rw [howner.1, hkey.1, if_neg (Ne.symm hne), Nat.add_zero] at hsponsored
      exact (h.sponsorCount name m hm).trans hsponsored.symm
  . have hsponsored := hsponsored name
    have hroom := h.room name
    unfold sponsored at hroom ⊢
    omega

/-- An update without prepayment leaves the subscription without active subscribers. -/
theorem counts_of_updateSubscribers {op : PaidSubscriptionUpdateOperation}
    (hrows : db'.subscribers = (db.updateSubscribers op).subscribers) :
    (∀ author oid, db'.subscriberCount author oid = db.subscriberCount author oid) ∧
      (∀ name, db'.sponsored name = db.sponsored name) ∧
      ∀ author oid, db'.activeCount author oid =
        if op.author = author ∧ op.oid = oid then 0 else db.activeCount author oid := by
  have hmap : ∀ p : PaidSubscriberObject → Prop, [DecidablePred p] →
      (db'.subscribers.rows.countP fun r => p r) = db.subscribers.rows.countP fun r =>
        p (if r.author = op.author ∧ r.oid = op.oid then updateSubscriber op.cost r else r) := by
    intro p _
    rw [hrows]
    unfold updateSubscribers Table.modifyWhere
    dsimp only
    rw [List.countP_map]
    simp only [decide_eq_true_eq, Function.comp_def]
  have hkey : ∀ r : PaidSubscriberObject,
      (if r.author = op.author ∧ r.oid = op.oid then updateSubscriber op.cost r else r).author =
        r.author ∧
      (if r.author = op.author ∧ r.oid = op.oid then updateSubscriber op.cost r else r).oid =
        r.oid := by
    intro r
    split
    . exact ⟨rfl, rfl⟩
    . exact ⟨rfl, rfl⟩
  refine ⟨fun author oid => ?_, fun name => ?_, fun author oid => ?_⟩
  . refine (hmap _).trans ?_
    simp only [hkey]
    rfl
  . refine (hmap _).trans ?_
    simp only [hkey]
    rfl
  . refine (hmap _).trans ?_
    simp only [hkey]
    split
    . next heq =>
      refine List.countP_eq_zero.mpr fun r _ => ?_
      rw [decide_eq_true_iff]
      rintro ⟨hown, hactive⟩
      rw [heq.1, heq.2, if_pos hown] at hactive
      exact Bool.false_ne_true hactive
    . next hne =>
      refine List.countP_congr fun r _ => ?_
      rw [decide_eq_true_iff, decide_eq_true_iff]
      constructor
      . rintro ⟨hown, hactive⟩
        rw [if_neg fun heq => hne ⟨heq.1.symm.trans hown.1, heq.2.symm.trans hown.2⟩] at hactive
        exact ⟨hown, hactive⟩
      . rintro ⟨hown, hactive⟩
        refine ⟨hown, ?_⟩
        rw [if_neg fun heq => hne ⟨heq.1.symm.trans hown.1, heq.2.symm.trans hown.2⟩]
        exact hactive

theorem Counted.update {op : PaidSubscriptionUpdateOperation} (h : db.Counted)
    (hupdate : db.paidSubscriptionUpdate op = .ok db') : db'.Counted := by
  obtain ⟨pso, hpso, -, -, -, hsponsor, hcases⟩ := paidSubscriptionUpdate_cases hupdate
  have hkey := Table.key_of_find? hpso
  have hrow := Table.mem_of_find? hpso
  simp only [Prod.mk.injEq] at hkey
  have hlt := h.active_lt hrow
  have hbefore := h.activeSubscribers pso hrow
  -- either way, the new number of active subscribers is that of the rows
  have hall : ∃ n, Table.Updates db.subscriptions db'.subscriptions pso
        (updateSubscription op n pso) ∧
      (∀ author oid, db'.subscriberCount author oid = db.subscriberCount author oid) ∧
      (∀ name, db'.sponsored name = db.sponsored name) ∧
      (∀ author oid, ¬(op.author = author ∧ op.oid = oid) →
        db'.activeCount author oid = db.activeCount author oid) ∧
      decrease pso.activeSubscribers n = db'.activeCount pso.author pso.oid ∧
      ∀ r ∈ db'.subscribers.rows, ∃ o ∈ db.subscribers.rows, r.author = o.author ∧ r.oid = o.oid := by
    rcases hcases with ⟨hsame, hupdates⟩ | ⟨hrows, hupdates⟩
    . refine ⟨0, hupdates, fun _ _ => ?_, fun _ => ?_, fun _ _ _ => ?_, ?_, fun r hr => ?_⟩
      . unfold subscriberCount
        rw [hsame]
      . unfold sponsored
        rw [hsame]
      . unfold activeCount
        rw [hsame]
      . rw [decrease_of_le (Nat.zero_le _) hlt, hbefore]
        unfold activeCount
        rw [hsame]
        rfl
      . exact ⟨r, hsame ▸ hr, rfl, rfl⟩
    . obtain ⟨hsubscribers, hsponsored, hactives⟩ := counts_of_updateSubscribers hrows
      refine ⟨_, hupdates, hsubscribers, hsponsored, fun author oid hne => ?_, ?_, fun r hr => ?_⟩
      . rw [hactives, if_neg hne]
      . have hall : ((db.subscribersOf op.author op.oid).countP fun r => r.active) =
            pso.activeSubscribers := by
          rw [hbefore, hkey.1, hkey.2]
          refine Eq.trans ?_ (countP_subscribersOf db op.author op.oid fun r => r.active = true)
          simp only [Bool.decide_eq_true]
        rw [hall, decrease_of_le le_rfl hlt, Nat.sub_self, hactives,
          if_pos ⟨hkey.1.symm, hkey.2.symm⟩]
      . rw [hrows] at hr
        obtain ⟨o, ho, rfl⟩ := mem_updateSubscribers.mp hr
        refine ⟨o, ho, ?_⟩
        split
        . exact ⟨rfl, rfl⟩
        . exact ⟨rfl, rfl⟩
  obtain ⟨n, hupdates, hsubscribers, hsponsored, hactives, hself, howned⟩ := hall
  refine ⟨fun r hr => ?_, fun o ho => ?_, fun o ho => ?_, fun o ho => ?_, fun name m hm => ?_,
    fun name => ?_⟩
  . obtain ⟨o, ho, hauthor, hoid⟩ := howned r hr
    rw [hauthor, hoid]
    exact isSome_of_updates hupdates (h.owned o ho)
  . rw [hsubscribers]
    rcases other_of_updates hupdates rfl ho with rfl | ⟨ho, -⟩
    . exact h.subscribers pso hrow
    . exact h.subscribers o ho
  . rcases other_of_updates hupdates rfl ho with rfl | ⟨ho, hne⟩
    . exact hself
    . rw [hkey.1, hkey.2] at hne
      rw [hactives _ _ hne]
      exact h.activeSubscribers o ho
  . rw [hsponsor]
    rcases other_of_updates hupdates rfl ho with rfl | ⟨ho, -⟩
    . exact h.authors pso hrow
    . exact h.authors o ho
  . rw [hsponsor] at hm
    rw [hsponsored]
    exact h.sponsorCount name m hm
  . rw [hsponsored]
    exact h.room name

theorem Counted.create {op : PaidSubscriptionCreateOperation} (h : db.Counted)
    (hcreate : db.paidSubscriptionCreate op = .ok db') : db'.Counted := by
  obtain ⟨pso, -, hzero, hzero', hauthor, hinserts, hdb'⟩ := paidSubscriptionCreate_cases hcreate
  have hrows : db'.subscribers = db.subscribers := by rw [hdb']
  have hsponsor : ∀ name, db'.sponsorCount? name = db.sponsorCount? name := by
    intro name
    rw [hdb']
    rfl
  -- nobody has subscribed to what was not there
  have hnobody : db.subscriberCount pso.author pso.oid = 0 := by
    refine List.countP_eq_zero.mpr fun r hr => ?_
    rw [decide_eq_true_iff]
    rintro ⟨hauthor, hoid⟩
    have hown := h.owned r hr
    rw [hauthor, hoid, hinserts.fresh] at hown
    exact Bool.false_ne_true hown
  have hinactive := db.activeCount_le pso.author pso.oid
  refine ⟨fun r hr => ?_, fun o ho => ?_, fun o ho => ?_, fun o ho => ?_, fun name n hn => ?_,
    fun name => ?_⟩
  . rw [hrows] at hr
    obtain ⟨o, ho⟩ := Option.isSome_iff_exists.mp (h.owned r hr)
    exact Option.isSome_iff_exists.mpr ⟨o, hinserts.find?_eq_some_iff.mpr (.inl ho)⟩
  . unfold subscriberCount
    rw [hrows]
    rcases (hinserts.mem o).mp ho with ho | rfl
    . exact h.subscribers o ho
    . exact hzero.trans hnobody.symm
  . unfold activeCount at hinactive ⊢
    rw [hrows]
    rcases (hinserts.mem o).mp ho with ho | rfl
    . exact h.activeSubscribers o ho
    . omega
  . rw [hsponsor]
    rcases (hinserts.mem o).mp ho with ho | rfl
    . exact h.authors o ho
    . exact hauthor
  . rw [hsponsor] at hn
    unfold sponsored
    rw [hrows]
    exact h.sponsorCount name n hn
  . unfold sponsored
    rw [hrows]
    exact h.room name

theorem Counted.elsewhere (h : db.Counted) (helse : db.Elsewhere db') : db'.Counted := by
  refine ⟨fun r hr => ?_, fun o ho => ?_, fun o ho => ?_, fun o ho => ?_, fun name n hn => ?_,
    fun name => ?_⟩
  . rw [helse.subscriptions]
    exact h.owned r (helse.subscribers ▸ hr)
  . unfold subscriberCount
    rw [helse.subscribers]
    exact h.subscribers o (helse.subscriptions ▸ ho)
  . unfold activeCount
    rw [helse.subscribers]
    exact h.activeSubscribers o (helse.subscriptions ▸ ho)
  . obtain ⟨n, hn⟩ := Option.isSome_iff_exists.mp (h.authors o (helse.subscriptions ▸ ho))
    exact Option.isSome_iff_exists.mpr ⟨n, helse.sponsorCount _ n hn⟩
  . unfold sponsored
    rw [helse.subscribers]
    cases hbefore : db.sponsorCount? name with
    | some m =>
      cases (helse.sponsorCount name m hbefore).symm.trans hn
      exact h.sponsorCount name _ hbefore
    | none =>
      -- a new account has no subscriptions, hence no subscribers
      rw [helse.newSponsor name n hbefore hn]
      refine (List.countP_eq_zero.mpr fun r hr => ?_).symm
      rw [decide_eq_true_iff]
      rintro rfl
      obtain ⟨pso, hpso⟩ := Option.isSome_iff_exists.mp (h.owned r hr)
      have hauthor := h.authors pso (Table.mem_of_find? hpso)
      have hkey := Table.key_of_find? hpso
      simp only [Prod.mk.injEq] at hkey
      rw [hkey.1, hbefore] at hauthor
      exact Bool.false_ne_true hauthor
  . unfold sponsored
    rw [helse.subscribers]
    exact h.room name

/-- One step keeps the counters exact. -/
theorem Counted.step (h : db.Counted) (hsound : db.Sound) (hconsistent : db.Consistent e)
    (hstep : db.Step e db') : db'.Counted := by
  cases e with
  | paidSubscriptionCreate op => exact h.create hstep
  | paidSubscriptionUpdate op => exact h.update hstep
  | paidSubscriptionDelete op => exact h.delete hstep
  | paidSubscriptionTransfer op => exact h.transfer hconsistent.2 hstep
  | paidSubscriptionCancel op => exact h.cancel hstep
  | processPaidSubscribers index =>
    have hbills := bills_of_processPaidSubscribers hstep.1 hstep.2
    refine (hbills.invariant (P := fun db => db.Sound ∧ db.Counted) ?_ ⟨hsound, h⟩).2
    rintro db db' r ⟨hsound, h⟩ hr hnext _ hturn
    exact ⟨hsound.turn hr hnext hturn, h.turn hsound hr hnext hturn⟩
  | elsewhere => exact h.elsewhere hstep

end counters

structure Accounted (db : SubscriptionDatabase) : Prop where
  sound : db.Sound
  sourced : db.Sourced
  counted : db.Counted

theorem accounted_of_initial (h : system.initial db) : db.Accounted := by
  have hreach : system.Reachable db := .initial h
  obtain ⟨hsubscriptions, hsubscribers, hreturned, hsponsor⟩ := h
  have hrows : db.subscribers.rows = [] := by
    rw [hsubscribers]
    rfl
  have hpsos : db.subscriptions.rows = [] := by
    rw [hsubscriptions]
    rfl
  have hnone : ∀ name, db.sponsored name = 0 := by
    intro name
    unfold sponsored
    rw [hrows]
    rfl
  refine ⟨sound_of_reach hreach, ⟨fun r hr => ?_, fun r hr => ?_⟩, fun r hr => ?_, fun o ho => ?_,
    fun o ho => ?_, fun o ho => ?_, fun name n hn => ?_, fun name => ?_⟩
  . rw [hrows] at hr
    exact absurd hr List.not_mem_nil
  . rw [hreturned] at hr
    exact absurd hr List.not_mem_nil
  . rw [hrows] at hr
    exact absurd hr List.not_mem_nil
  . rw [hpsos] at ho
    exact absurd ho List.not_mem_nil
  . rw [hpsos] at ho
    exact absurd ho List.not_mem_nil
  . rw [hpsos] at ho
    exact absurd ho List.not_mem_nil
  . rw [hnone]
    exact hsponsor name n hn
  . rw [hnone]
    decide

theorem accounted_of_reach (h : system.Reach Consistent db) : db.Accounted :=
  h.invariant (fun _ => accounted_of_initial) fun _ _ _ h hconsistent hstep =>
    ⟨h.sound.step hstep, h.sourced.step h.sound hconsistent hstep,
      h.counted.step h.sound hconsistent hstep⟩

section runs

/-- Bobby has prepaid with liquid money. -/
def paidAhead : SubscriptionDatabase :=
  orDefault ((offered 10).paidSubscriptionTransfer (transferOf 15 false))

/-- Alice asks for TIP tokens by now. -/
def updateOf : PaidSubscriptionUpdateOperation where
  author := "alice"
  oid := oidOfAlice
  cost := ⟨5, steemSymbol⟩
  tipCost := true
  interval := 10
  executions := 4

def updated : SubscriptionDatabase :=
  orDefault (paidAhead.paidSubscriptionUpdate updateOf)

/-- Bobby has paid again, with TIP tokens. -/
def mixed : SubscriptionDatabase :=
  orDefault (updated.paidSubscriptionTransfer (transferOf 5 true))

def cancelOf : PaidSubscriptionCancelOperation where
  subscriber := "bobby"
  author := "alice"
  oid := oidOfAlice

def cancelled : SubscriptionDatabase :=
  orDefault (mixed.paidSubscriptionCancel cancelOf)

theorem reach_paidAhead : system.Reach Consistent paidAhead := by
  have hoffered : system.Reach Consistent (offered 10) :=
    reach_offered trivial (by decide +kernel)
  exact .step (e := .paidSubscriptionTransfer (transferOf 15 false)) hoffered
    ⟨by decide +kernel, fun _ => by decide +kernel⟩ (eq_ok_of_isSome (d := {}) (by decide +kernel))

/-- Bobby cancels while the cost is what it was. -/
def givenBack : SubscriptionDatabase :=
  orDefault (paidAhead.paidSubscriptionCancel cancelOf)

theorem reach_givenBack : system.Reach Consistent givenBack :=
  .step (e := .paidSubscriptionCancel cancelOf) reach_paidAhead trivial
    (eq_ok_of_isSome (d := {}) (by decide +kernel))

theorem reachable_cancelled : system.Reachable cancelled := by
  have hupdated : system.Reachable updated :=
    .step (e := .paidSubscriptionUpdate updateOf) reach_paidAhead.reachable trivial
      (eq_ok_of_isSome (d := {}) (by decide +kernel))
  have hmixed : system.Reachable mixed :=
    .step (e := .paidSubscriptionTransfer (transferOf 5 true)) hupdated trivial
      (eq_ok_of_isSome (d := {}) (by decide +kernel))
  exact .step (e := .paidSubscriptionCancel cancelOf) hmixed trivial
    (eq_ok_of_isSome (d := {}) (by decide +kernel))

end runs

end SubscriptionDatabase

open SubscriptionDatabase in
/-- While no kind of prepaid money changes and no counter overflows, prepaid money goes back to where
it was taken from, it has the symbol of the cost, and the counters are those of the rows. -/
theorem prepaid_right {db : SubscriptionDatabase} (h : system.Reach Consistent db) :
    (∀ r ∈ db.returned, r.prepaidSources ≠ [] ∧
      ∀ src ∈ r.prepaidSources, src = (r.tipCost, r.prepaid.symbol)) ∧
    (∀ r db', db.returnPrepaid r = .ok db' → db'.returned = db.returned ++ [r] ∧
      ∀ t a s, db'.fund t a s =
        db.fund t a s + onFund r.tipCost r.subscriber r.prepaid.symbol r.prepaid.amount t a s) ∧
    (∀ r ∈ db.subscribers.rows, r.prepaid.symbol = r.cost.symbol) ∧
    (∀ pso ∈ db.subscriptions.rows,
      pso.subscribers = db.subscriberCount pso.author pso.oid ∧
      pso.activeSubscribers = db.activeCount pso.author pso.oid) ∧
    ∀ name n, db.sponsorCount? name = some n → n = db.sponsored name := by
  obtain ⟨hsound, hsourced, hcounted⟩ := accounted_of_reach h
  refine ⟨fun r hr => ?_, fun r db' hreturn => ?_, fun r hr => ?_, fun pso hpso => ?_,
    hcounted.sponsorCount⟩
  . obtain ⟨hne, hrow⟩ := hsourced.returned r hr
    exact ⟨hrow.recorded hne, hrow.same⟩
  . obtain ⟨hsettles, hfunds⟩ := returnPrepaid_cases hreturn
    exact ⟨hsettles.returned, hfunds⟩
  . exact (hsound.rows r hr).symbol
  . exact ⟨hcounted.subscribers pso hpso, hcounted.activeSubscribers pso hpso⟩

open SubscriptionDatabase in
theorem prepaid_right_givenBack :
    (givenBack.returned.map fun r => r.prepaid.amount) = [10] ∧
      (∀ r ∈ givenBack.returned, r.prepaidSources ≠ [] ∧
        ∀ src ∈ r.prepaidSources, src = (r.tipCost, r.prepaid.symbol)) ∧
      givenBack.fund false "bobby" steemSymbol = 95 :=
  ⟨by decide +kernel, (prepaid_right reach_givenBack).1, by decide +kernel⟩

open SubscriptionDatabase in
/-- Liquid money comes back as TIP tokens after the author has changed the kind of the cost. -/
theorem prepaid_of_mixed : system.Reachable cancelled ∧
    (∃ r ∈ cancelled.returned, r.tipCost = true ∧ (false, steemSymbol) ∈ r.prepaidSources) ∧
    cancelled.fund false "bobby" steemSymbol = 85 ∧
    cancelled.fund true "bobby" steemSymbol = 110 ∧
    cancelled.fund false "alice" steemSymbol = 5 := by
  refine ⟨reachable_cancelled, ?_, by decide +kernel, by decide +kernel, by decide +kernel⟩
  decide +kernel

end Golos.Subscription
