import Golos.Notification.Lemmas.Recorded

/-!
This module contains what the application of operations, and of transactions that are tried out in
its course, does to the position and to the record of the notifications.
-/

namespace Golos

open Effect

variable {D O T : Type} {c : NotifyingChain D O T} {trxId : TransactionIdType} {index : Nat}
  {l : List (ApplicationEvent O T)} {s : Positioned D}

/--
The position is that of the operation `index`, unless a proposed transaction was tried out: then the
id of the transaction is lost.
-/
structure Stands (c : NotifyingChain D O T) (trxId : TransactionIdType) (index : Nat)
    (l : List (ApplicationEvent O T)) (s : Positioned D) : Prop where
  recorded : Recorded c trxId l
  position : Undivided l → s.current.trxId = trxId ∧ s.current.opInTrx = .ofNat index
  virtual : Undivided l → c.notifies = true → s.current.virtualOp = .ofNat (virtualOps l).length
  lost : ¬Undivided l → Distinct c trxId l → s.current.trxId ≠ trxId

/-- A notification of this sort with the position of this one was sent. -/
def Sent (l : List (ApplicationEvent O T)) (place : Place) (isVirtual : Bool)
    (note : OperationNote O) : Prop :=
  ∃ n, .sent n ∈ l ∧ place = n.place ∧ isVirtual = n.isVirtual ∧ note.trxId = n.note.trxId ∧
    note.opInTrx = n.note.opInTrx

theorem Sent.append {place : Place} {isVirtual : Bool} {note : OperationNote O}
    (h : Sent l place isVirtual note) (l' : List (ApplicationEvent O T)) :
    Sent (l ++ l') place isVirtual note := by
  obtain ⟨n, hn, hsame⟩ := h
  exact ⟨n, List.mem_append_left l' hn, hsame⟩

namespace Stands

theorem setDb (h : Stands c trxId index l s) (db : D) : Stands c trxId index l (s.setDb db) :=
  ⟨h.recorded, h.position, h.virtual, h.lost⟩

theorem of_preApplication {trx : T} (hrecorded : Recorded c trxId l)
    (htrx : .preApplication trx ∈ l) (hlost : Distinct c trxId l → s.current.trxId ≠ trxId) :
    Stands c trxId index l s := by
  have hdivided : ¬Undivided l := by
    intro h
    cases h _ htrx
  exact ⟨hrecorded, fun h => absurd h hdivided, fun h => absurd h hdivided, fun _ => hlost⟩

end Stands

theorem traced_objects {α : Type} {f : D → Except TransactionException α × D}
    {Q : Except Interrupt α → List (ApplicationEvent O T) → Positioned D → Prop}
    (hQ : ∀ r db, Q r l (s.setDb db)) :
    (NotifyingAction.objects f : NotifyingAction D O T α).Traced l s Q := by
  apply Traced.bind
  apply Traced.read
  apply Traced.bind
  apply Traced.modify
  apply Traced.lift
  exact hQ _ _

theorem keeps_objects {α : Type} (f : D → Except TransactionException α × D) :
    (NotifyingAction.objects f : NotifyingAction D O T α).Keeps (Stands c trxId index) :=
  fun _ _ h => traced_objects fun _ db => h.setDb db

/-- The number that a virtual operation is given is the next one. -/
def Numbered (c : NotifyingChain D O T) (isVirtual : Bool) (note : OperationNote O)
    (l : List (ApplicationEvent O T)) (s : Positioned D) : Prop :=
  Undivided l → c.notifies = true →
    if isVirtual = true then
      s.current.virtualOp = .ofNat ((virtualOps l).length + 1) ∧
        note.virtualOp = .ofNat ((virtualOps l).length + 1)
    else
      s.current.virtualOp = .ofNat (virtualOps l).length

section notify

variable {place : Place} {isVirtual : Bool} {note : OperationNote O}

theorem recorded_pre (hindex : place.index = index) (hrecorded : Recorded c trxId l)
    (hposition : Undivided l → s.current.trxId = trxId ∧ s.current.opInTrx = .ofNat index)
    (hnotifies : c.notifies = true) (hnumbered : Numbered c isVirtual note l s)
    (hlost : ¬Undivided l → Distinct c trxId l → s.current.trxId ≠ trxId) :
    Recorded c trxId
      (l ++ [.sent ⟨place, .pre, isVirtual, NotifyingChain.position note s.current⟩]) := by
  by_cases hidentifying : isVirtual = true ∨ place.nested = false
  . apply Recorded.announced hrecorded
      ⟨place, .pre, isVirtual, NotifyingChain.position note s.current⟩ ⟨hidentifying, rfl⟩
    . intro hl
      obtain ⟨htrxId, hopInTrx⟩ := hposition hl
      refine ⟨htrxId, ?_, ?_⟩
      . rw [hindex]
        exact hopInTrx
      . intro hvirtual
        have := hnumbered hl hnotifies
        rw [if_pos hvirtual] at this
        exact this.2
    . exact hlost
  . exact Recorded.nested hrecorded _ hidentifying

theorem traced_notifyPre (hindex : place.index = index) (hrecorded : Recorded c trxId l)
    (hposition : Undivided l → s.current.trxId = trxId ∧ s.current.opInTrx = .ofNat index)
    (hnumbered : Numbered c isVirtual note l s)
    (hlost : ¬Undivided l → Distinct c trxId l → s.current.trxId ≠ trxId) :
    (c.notifyPreApplyOperation place isVirtual note : NotifyingAction D O T _).Traced l s
      fun r l' s' => Stands c trxId index l' s' ∧
        ∀ note', r = .ok note' → c.notifies = true → Sent l' place isVirtual note' := by
  unfold NotifyingChain.notifyPreApplyOperation
  apply Traced.bind
  apply Traced.read
  dsimp only
  split
  . next hnotifies =>
    apply Traced.bind
    apply Traced.note
    dsimp only
    generalize hn : (⟨place, .pre, isVirtual, NotifyingChain.position note s.current⟩ :
      SentNotification O) = n
    have hstands : Stands c trxId index (l ++ [.sent n]) s := by
      constructor
      . rw [← hn]
        exact recorded_pre hindex hrecorded hposition hnotifies hnumbered hlost
      . intro hl
        exact hposition (undivided_snoc.mp hl).1
      . intro hl _
        have hnumber := hnumbered (undivided_snoc.mp hl).1 hnotifies
        rw [virtualOps_snoc, ← hn]
        cases isVirtual with
        | true => simpa [ApplicationEvent.virtualOp] using hnumber.1
        | false => simpa [ApplicationEvent.virtualOp] using hnumber
      . intro hdivided hdistinct
        apply hlost _ hdistinct.of_snoc
        intro hl
        exact hdivided (undivided_snoc.mpr ⟨hl, rfl⟩)
    apply Traced.bind
    apply ((keeps_objects _).remember (.sent n) _ _ ⟨hstands, by simp⟩).mono
    rintro r l' s' ⟨hstands', hmem⟩
    cases r with
    | error e => exact ⟨hstands', fun _ h => (nomatch h)⟩
    | ok ids =>
      apply Traced.pure
      refine ⟨hstands', ?_⟩
      rintro note' ⟨⟩ _
      subst hn
      exact ⟨_, hmem, rfl, rfl, rfl, rfl⟩
  . next hsilent =>
    apply Traced.pure
    refine ⟨⟨hrecorded, hposition, ?_, hlost⟩, ?_⟩
    . intro _ hnotifies
      exact absurd hnotifies hsilent
    . intro _ _ hnotifies
      exact absurd hnotifies hsilent

theorem traced_notifyPost (h : Stands c trxId index l s)
    (hsent : c.notifies = true → Sent l place isVirtual note) :
    (c.notifyPostApplyOperation place isVirtual note : NotifyingAction D O T _).Traced l s
      fun _ l' s' => Stands c trxId index l' s' := by
  unfold NotifyingChain.notifyPostApplyOperation
  split
  . next hnotifies =>
    apply Traced.bind
    apply Traced.note
    dsimp only
    apply keeps_objects
    obtain ⟨n, hn, hplace, hvirtual, htrxId, hopInTrx⟩ := hsent hnotifies
    have hnumbers : virtualOps (l ++ [.sent ⟨place, .post, isVirtual, note⟩]) = virtualOps l := by
      rw [virtualOps_snoc, SentNotification.virtualOp_sent_eq_none (.inr rfl)]
      exact List.append_nil _
    constructor
    . exact h.recorded.repeated _ n rfl hn hplace hvirtual htrxId hopInTrx
    . intro hl
      exact h.position (undivided_snoc.mp hl).1
    . intro hl
      rw [hnumbers]
      exact h.virtual (undivided_snoc.mp hl).1
    . intro hdivided hdistinct
      apply h.lost _ hdistinct.of_snoc
      intro hl
      exact hdivided (undivided_snoc.mpr ⟨hl, rfl⟩)
  . exact Traced.pure h

end notify

theorem keeps_attempt {I : List (ApplicationEvent O T) → Positioned D → Prop}
    {x : NotifyingAction D O T Unit} (hx : x.Keeps I) : x.attempt.Keeps I := by
  apply Keeps.handle
  . apply Keeps.bind hx
    intro _
    exact Keeps.pure
  . intro interrupt
    cases interrupt with
    | exception e => exact Keeps.pure
    | dangling => exact Keeps.fail
    | stackOverflow => exact Keeps.fail

theorem traced_nextVirtualOp
    {Q : Except Interrupt UInt32 → List (ApplicationEvent O T) → Positioned D → Prop}
    (hQ : Q (.ok (s.current.virtualOp + 1)) l (s.setVirtualOp (s.current.virtualOp + 1))) :
    (NotifyingChain.nextVirtualOp : NotifyingAction D O T UInt32).Traced l s Q := by
  apply Traced.bind
  apply Traced.modify
  apply Traced.bind
  apply Traced.read
  exact Traced.pure hQ

/-- The number of a virtual operation is the next one. -/
theorem Stands.numbered (h : Stands c trxId index l s) (op : O) :
    Numbered c true { op := op, virtualOp := s.current.virtualOp + 1 } l
      (s.setVirtualOp (s.current.virtualOp + 1)) := by
  intro hl hnotifies
  have hnext : s.current.virtualOp + 1 = .ofNat ((virtualOps l).length + 1) := by
    rw [h.virtual hl hnotifies, UInt32.ofNat_add]
    rfl
  rw [if_pos rfl]
  exact ⟨hnext, hnext⟩

section calls

variable {place : Place}

theorem keeps_pushVirtualOperation (hindex : place.index = index) (op : O) (force : Bool) :
    (c.pushVirtualOperation place op force : NotifyingAction D O T Unit).Keeps
      (Stands c trxId index) := by
  unfold NotifyingChain.pushVirtualOperation
  split
  . exact Keeps.pure
  . apply Keeps.bind Keeps.lift
    intro _ l s h
    apply Traced.bind
    apply traced_nextVirtualOp
    apply Traced.bind
    apply (traced_notifyPre (s := s.setVirtualOp (s.current.virtualOp + 1)) hindex h.recorded
      h.position (h.numbered op) h.lost).mono
    rintro r l' s' ⟨h', hsent⟩
    cases r with
    | error e => exact h'
    | ok note => exact traced_notifyPost h' (hsent note rfl)

theorem keeps_call {x : NotifyingAction D O T Unit} (hx : x.Keeps (Stands c trxId index)) (db : D) :
    (NotifyingChain.call db x).Keeps (Stands c trxId index) := by
  apply Keeps.bind
  . apply Keeps.modify
    intro l s h
    exact h.setDb db
  . intro _
    apply Keeps.bind (keeps_attempt hx)
    intro _
    apply Keeps.bind Keeps.read
    intro _
    exact Keeps.pure

theorem keeps_applyNext {I : List (ApplicationEvent O T) → Positioned D → Prop}
    {x : NotifyingAction D O T Unit} (hx : x.Keeps I)
    (hI : ∀ l s opInTrx, I l s → I l (s.setOpInTrx opInTrx)) :
    (NotifyingChain.applyNext x).Keeps I := by
  apply Keeps.handle
  . apply Keeps.bind hx
    intro _
    exact Keeps.modify fun l s h => hI l s _ h
  . intro interrupt
    cases interrupt with
    | exception e =>
      apply Keeps.bind Keeps.read
      intro _
      exact Keeps.fail
    | dangling => exact Keeps.fail
    | stackOverflow => exact Keeps.fail

/-- After a proposed transaction began to be tried out, only its id matters, which is another. -/
theorem traced_applyTransaction_nested {apply : O → NotifyingAction D O T Unit}
    (happly : ∀ op, (apply op).Keeps (Stands c trxId index)) {trx : T} (skip : Skip)
    (hrecorded : Recorded c trxId l) (htrx : .preApplication trx ∈ l) :
    (c.applyTransaction (fun _ => apply) trx skip).Traced l s
      fun _ l' s' => Stands c trxId index l' s' := by
  -- the record may lose nothing more
  have hset : ∀ (f : Positioned D → Positioned D), (∀ s, (f s).current.trxId = s.current.trxId) →
      ∀ l s, Stands c trxId index l s ∧ ApplicationEvent.preApplication trx ∈ l →
        Stands c trxId index l (f s) ∧ ApplicationEvent.preApplication trx ∈ l := by
    rintro f hf l s ⟨h, hmem⟩
    refine ⟨.of_preApplication h.recorded hmem ?_, hmem⟩
    rw [hf]
    apply h.lost
    intro hl
    cases hl _ hmem
  have hkeeps : ((do
      NotifyingAction.objects (c.startTransaction trx skip)
      Effect.modify fun s => s.setOpInTrx 0
      (c.operations trx).zipIdx.forM fun p => NotifyingChain.applyNext (apply p.1)
      Effect.modify fun s => s.setTrxId 0) : NotifyingAction D O T Unit).Keeps
        fun l s => Stands c trxId index l s ∧ ApplicationEvent.preApplication trx ∈ l := by
    apply Keeps.bind ((keeps_objects _).remember _)
    intro _
    apply Keeps.bind (Keeps.modify (hset (fun s => s.setOpInTrx 0) fun _ => rfl))
    intro _
    apply Keeps.bind
    . apply Keeps.forM
      intro p
      apply keeps_applyNext ((happly p.1).remember _)
      intro l s opInTrx
      exact hset (fun s => s.setOpInTrx opInTrx) (fun _ => rfl) l s
    . intro _
      apply Keeps.modify
      rintro l s ⟨h, hmem⟩
      refine ⟨.of_preApplication h.recorded hmem ?_, hmem⟩
      intro hdistinct
      exact hdistinct.ne_zero.symm
  apply Traced.bind
  apply Traced.modify
  apply (hkeeps l _ ⟨.of_preApplication hrecorded htrx fun h => h.ne_id trx htrx, htrx⟩).mono
  intro r l' s' h
  exact h.1

theorem keeps_validateTransaction {apply : O → NotifyingAction D O T Unit}
    (happly : ∀ op, (apply op).Keeps (Stands c trxId index)) (trx : T) (skip : Skip) :
    (c.validateTransaction apply trx skip).Keeps (Stands c trxId index) := by
  apply Keeps.bind Keeps.read
  intro _
  apply Keeps.bind Keeps.lift
  intro _ l s h
  apply Traced.bind
  apply Traced.note
  apply Traced.within
  apply (traced_applyTransaction_nested happly _ (h.recorded.preApplication trx) (by simp)).mono
  intro r l' s' h'
  exact h'.setDb _

theorem keeps_run {applyVirtual applyNested : O → NotifyingAction D O T Unit}
    (hindex : place.index = index) (hvirtual : ∀ op, (applyVirtual op).Keeps (Stands c trxId index))
    (hnested : ∀ op, (applyNested op).Keeps (Stands c trxId index)) (evaluation : Evaluation D O T) :
    (c.run place applyVirtual applyNested evaluation).Keeps (Stands c trxId index) := by
  induction evaluation with
  | done result db =>
    apply Keeps.bind (Keeps.modify fun l s h => h.setDb db)
    intro _
    exact Keeps.lift
  | pushVirtualOperation op force db next ih =>
    apply Keeps.bind (keeps_call (keeps_pushVirtualOperation hindex op force) db)
    rintro ⟨result, db⟩
    exact ih result db
  | validateTransaction trx skip db next ih =>
    apply Keeps.bind (keeps_call (keeps_validateTransaction hnested trx skip) db)
    rintro ⟨result, db⟩
    exact ih result db
  | applyProposed ops db next ih =>
    apply Keeps.bind
    . apply keeps_call
      apply Keeps.undoOnError (Keeps.forM hvirtual ops)
      intro l s s' h
      exact h.setDb s.db
    . rintro ⟨result, db⟩
      exact ih result db

end calls

theorem traced_newNote (h : Stands c trxId index l s) (op : O) (isVirtual : Bool) :
    (NotifyingChain.newNote op isVirtual : NotifyingAction D O T _).Traced l s fun r l' s' =>
      l' = l ∧ ∃ note, r = .ok note ∧ Numbered c isVirtual note l s' ∧
        s'.current.trxId = s.current.trxId ∧ s'.current.opInTrx = s.current.opInTrx := by
  unfold NotifyingChain.newNote
  cases isVirtual with
  | true =>
    apply Traced.bind
    apply traced_nextVirtualOp
    apply Traced.pure
    exact ⟨rfl, _, rfl, h.numbered op, rfl, rfl⟩
  | false =>
    apply Traced.pure
    exact ⟨rfl, _, rfl, h.virtual, rfl, rfl⟩

theorem keeps_applyOperation (levels : Nat) {place : Place} (hindex : place.index = index)
    (isVirtual : Bool) (op : O) :
    (c.applyOperation levels place isVirtual op).Keeps (Stands c trxId index) := by
  induction levels generalizing place isVirtual op with
  | zero => exact Keeps.fail
  | succ levels ih =>
    intro l s h
    unfold NotifyingChain.applyOperation
    apply Traced.bind
    apply (traced_newNote h op isVirtual).mono
    rintro r l₁ s₁ ⟨rfl, note, rfl, hnumbered, htrxId, hopInTrx⟩
    apply Traced.bind
    apply (traced_notifyPre hindex h.recorded (by rw [htrxId, hopInTrx]; exact h.position) hnumbered
      (by rw [htrxId]; exact h.lost)).mono
    rintro r l₂ s₂ ⟨h₂, hsent⟩
    cases r with
    | error e => exact h₂
    | ok note =>
      apply Traced.bind
      apply Traced.read
      apply Traced.bind
      have hrun := keeps_run hindex (fun op => ih hindex true op)
        (fun op => @ih { place with nested := true } hindex false op) (c.evaluate op s₂.db)
      have hkeeps := hrun.and (P := fun l => c.notifies = true → Sent l place isVirtual note)
        fun l l' hl hnotifies => (hl hnotifies).append l'
      apply Traced.mono (hkeeps l₂ s₂ ⟨h₂, hsent note rfl⟩)
      rintro r l₃ s₃ ⟨h₃, hsent₃⟩
      cases r with
      | error e => exact h₃
      | ok _ => exact traced_notifyPost h₃ hsent₃

end Golos
