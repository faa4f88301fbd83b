import Golos.Notification.Impl.Database
import Golos.Notification.Lemmas.Application
import Golos.Proposal.Execution

/-!
This module contains when the notifications sent while a transaction is applied identify the
operations they are about.
-/

namespace Golos

open Effect ChainAction

section transaction

variable {D O T : Type} {c : NotifyingChain D O T} {trxId : TransactionIdType}

theorem traced_applyNext {index : Nat} {x : NotifyingAction D O T Unit}
    (hx : x.Keeps (Stands c trxId index)) {l : List (ApplicationEvent O T)} {s : Positioned D}
    (h : Stands c trxId index l s) :
    (NotifyingChain.applyNext x).Traced l s fun r l' s' =>
      match r with
      | .ok _ => Stands c trxId (index + 1) l' s'
      | .error _ => Recorded c trxId l' := by
  apply Traced.handle
  apply Traced.bind
  apply (hx l s h).mono
  intro r l' s' h'
  cases r with
  | ok _ =>
    apply Traced.modify
    refine ⟨h'.recorded, ?_, h'.virtual, h'.lost⟩
    intro hl
    obtain ⟨htrxId, hopInTrx⟩ := h'.position hl
    refine ⟨htrxId, ?_⟩
    change s'.current.opInTrx + 1 = _
    rw [hopInTrx, UInt16.ofNat_add]
    rfl
  | error interrupt =>
    cases interrupt with
    | exception e =>
      apply Traced.bind
      apply Traced.read
      exact Traced.fail h'.recorded
    | dangling => exact Traced.fail h'.recorded
    | stackOverflow => exact Traced.fail h'.recorded

variable (c)

theorem recorded_events (levels : Nat) (trx : T) (skip : Skip) (s : Positioned D) :
    Recorded c (c.id trx) (c.events levels trx skip s) := by
  change (c.applyTransaction (fun index => c.applyOperation levels ⟨index, false⟩ false) trx
    skip).Traced [] s fun _ l _ => Recorded c (c.id trx) l
  apply Traced.bind
  apply Traced.modify
  apply Traced.bind
  apply traced_objects
  intro r db
  cases r with
  | error e => exact .nil
  | ok _ =>
    apply Traced.bind
    apply Traced.modify
    apply Traced.bind
    -- the operations that are left, from the number of the first one on
    apply Traced.forM (I := fun todo l s => ∃ (ops : List O) (index : Nat),
      todo = ops.zipIdx index ∧ Stands c (c.id trx) index l s)
    . rintro ⟨op, index'⟩ todo l s ⟨ops, index, htodo, hstands⟩
      cases ops with
      | nil => cases htodo
      | cons op' ops =>
        rw [List.zipIdx_cons] at htodo
        cases htodo
        have hkeeps : (c.applyOperation levels ⟨index', false⟩ false op).Keeps
            (Stands c (c.id trx) index') := by
          apply keeps_applyOperation
          rfl
        apply (traced_applyNext hkeeps hstands).mono
        intro r l' s' h
        cases r with
        | ok _ => exact ⟨ops, index' + 1, rfl, h⟩
        | error e => exact h
    . rintro l s ⟨_, _, _, hstands⟩
      exact Traced.modify hstands.recorded
    . refine ⟨c.operations trx, 0, rfl, .nil, fun _ => ⟨rfl, rfl⟩, fun _ _ => rfl, ?_⟩
      intro hdivided
      exact absurd (fun _ he => (nomatch he)) hdivided

/--
The notifications identify their operations if and only if nothing is announced after a proposed
transaction began to be tried out, and no number is too great; here ids that are equal by accident
are left aside.
-/
theorem events_identify (levels : Nat) (trx : T) (skip : Skip) (s : Positioned D) :
    (Undisturbed (c.events levels trx skip s) → Identified (c.id trx) (c.events levels trx skip s)) ∧
      (Distinct c (c.id trx) (c.events levels trx skip s) →
        Identified (c.id trx) (c.events levels trx skip s) →
          Undisturbed (c.events levels trx skip s)) :=
  ⟨(recorded_events c levels trx skip s).identified_of_undisturbed,
    (recorded_events c levels trx skip s).undisturbed_of_identified⟩

end transaction

section runs

def ApplicationEvent.Meets {O T : Type} (P : SentNotification O → Prop) (Q : T → Prop) :
    ApplicationEvent O T → Prop
  | .sent n => P n
  | .preApplication trx => Q trx

instance {O T : Type} (P : SentNotification O → Prop) (Q : T → Prop) [DecidablePred P]
    [DecidablePred Q] (e : ApplicationEvent O T) : Decidable (e.Meets P Q) :=
  match e with
  | .sent n => inferInstanceAs (Decidable (P n))
  | .preApplication trx => inferInstanceAs (Decidable (Q trx))

theorem forall_meets_iff {O T : Type} {l : List (ApplicationEvent O T)}
    {P : SentNotification O → Prop} {Q : T → Prop} :
    (∀ e ∈ l, e.Meets P Q) ↔
      (∀ n, .sent n ∈ l → P n) ∧ ∀ trx, .preApplication trx ∈ l → Q trx := by
  constructor
  . intro h
    exact ⟨fun n hn => h _ hn, fun trx htrx => h _ htrx⟩
  . rintro ⟨hsent, hpre⟩ e he
    cases e with
    | sent n => exact hsent n he
    | preApplication trx => exact hpre trx he

instance {O T : Type} (l : List (ApplicationEvent O T)) (P : SentNotification O → Prop)
    [DecidablePred P] : Decidable (∀ n, .sent n ∈ l → P n) :=
  decidable_of_iff (∀ e ∈ l, e.Meets P fun _ => True) (by simp [forall_meets_iff])

instance {O T : Type} (l : List (ApplicationEvent O T)) (Q : T → Prop) [DecidablePred Q] :
    Decidable (∀ trx, .preApplication trx ∈ l → Q trx) :=
  decidable_of_iff (∀ e ∈ l, e.Meets (fun _ => True) Q) (by simp [forall_meets_iff])

instance {O T : Type} (trxId : TransactionIdType) (l : List (ApplicationEvent O T)) :
    Decidable (Identified trxId l) :=
  inferInstanceAs (Decidable (_ ∧ _))

/-- A chain whose other operations do nothing, and whose ids tell transactions of different length. -/
def aliceNotifications : NotifyingChain (Execution Unit Unit) (Operation Unit) (PlainTransaction Unit)
    where
  isVirtualOperation _ := false
  id trx := .ofNat 160 trx.operations.length
  operations trx := trx.operations
  validate _ _ _ := .ok ()
  startTransaction _ _ e := (.ok (), e)
  evaluate := evaluateOperation aliceChain fun _ e => .done (.ok ()) e
  preApplyOperation _ e := (.ok (false, 0), e)
  postApplyOperation _ e := (.ok (), e)

def aliceTransaction (operations : List (Operation Unit)) : PlainTransaction Unit where
  expiration := 2000
  operations := operations

def aliceEvents (operations : List (Operation Unit)) :
    List (ApplicationEvent (Operation Unit) (PlainTransaction Unit)) :=
  aliceNotifications.events 9 (aliceTransaction operations) {} { db := beforeProposals.start false }

/-- The operation that follows the creation of a proposal is notified with no id and another number. -/
theorem create_loses_position :
    ¬∀ (levels : Nat) (trx : PlainTransaction Unit) (skip : Skip)
      (s : Positioned (Execution Unit Unit)),
        Identified (aliceNotifications.id trx) (aliceNotifications.events levels trx skip s) := by
  intro h
  have := h 9 (aliceTransaction [createAliceProposal, .other ()]) {}
    { db := beforeProposals.start false }
  revert this
  decide +kernel

/-- Where the creation comes last, all is well; the other way round it is not. -/
theorem create_last_identified :
    Identified 2 (aliceEvents [.other (), createAliceProposal]) ∧
      ¬Identified 2 (aliceEvents [createAliceProposal, .other ()]) := by
  constructor
  . apply (events_identify aliceNotifications 9 (aliceTransaction [.other (), createAliceProposal]) {}
      { db := beforeProposals.start false }).1
    exact ⟨by decide +kernel, by decide +kernel, by decide +kernel⟩
  . intro hidentified
    have hdistinct : Distinct aliceNotifications 2 (aliceEvents [createAliceProposal, .other ()]) :=
      ⟨by decide, by decide +kernel⟩
    have hundisturbed := (events_identify aliceNotifications 9
      (aliceTransaction [createAliceProposal, .other ()]) {}
      { db := beforeProposals.start false }).2 hdistinct hidentified
    exact absurd hundisturbed.after (by decide +kernel)

end runs

end Golos
