import Golos.Chain.Lemmas.Settled
import Golos.Chain.Replay

/-!
This module contains the pending transactions of a node: the session they are applied in on top of
the state of the head block, and what the restorer makes of those it tries to apply again.
-/

namespace Golos

open Checked Relation

variable {σ : Type} {p : Protocol σ}

section recorded

variable {s t u : ChainState σ} {b : SignedBlock} {trx : SignedTransaction}
  {trxs : List SignedTransaction} {ids : List Nat}

/-- The index knows no other transactions. -/
def ChainState.Recorded (s : ChainState σ) (ids : List Nat) : Prop :=
  ∀ o ∈ s.transactions.rows, o.trxId ∈ ids

theorem recorded_of_transactions (h : s.Recorded ids) (heq : t.transactions = s.transactions) :
    t.Recorded ids := by
  unfold ChainState.Recorded
  rw [heq]
  exact h

theorem recorded_of_applyTransaction' (h : s.Recorded ids)
    (hok : p.applyTransaction' {} s trx = .ok t) : t.Recorded (p.transactionId trx :: ids) := by
  unfold Protocol.applyTransaction' Protocol.createTransactionObject at hok
  simp only [bind_eq_ok, pure_eq_ok, ensure_eq_ok, Bool.false_eq_true, if_false, false_or,
    get_eq_ok] at hok
  obtain ⟨_, -, _, -, s', ⟨transactions, hinsert, rfl⟩, shared, -, rfl⟩ := hok
  intro o ho
  rcases ((Table.Inserts.emplace hinsert).mem o).mp ho with ho | rfl
  . exact List.mem_cons_of_mem _ (h o ho)
  . exact List.mem_cons_self

theorem recorded_of_applyTransactions (h : s.Recorded ids)
    (hok : p.applyTransactions {} s trxs = .ok t) :
    t.Recorded (trxs.map p.transactionId ++ ids) := by
  induction trxs generalizing s ids with
  | nil =>
    simp only [Protocol.applyTransactions, pure_eq_ok] at hok
    rw [← hok]
    exact h
  | cons trx trxs ih =>
    simp only [Protocol.applyTransactions, bind_eq_ok] at hok
    obtain ⟨s', hs', hok⟩ := hok
    intro o ho
    have hin := ih (recorded_of_applyTransaction' h hs') hok o ho
    simp only [List.map_cons, List.cons_append, List.mem_append, List.mem_cons] at hin ⊢
    tauto

theorem recorded_of_applyBlock' (h : s.Recorded ids) (hok : p.applyBlock' {} s b = .ok t) :
    t.Recorded (b.transactions.map p.transactionId ++ ids) := by
  obtain ⟨u, hu, hafter⟩ := applyBlock'_eq_ok_iff.mp hok
  unfold Protocol.applyUntilIrreversible Protocol.updateGlobalDynamicData at hu
  simp only [bind_eq_ok, ensure_eq_ok, pure_eq_ok] at hu
  obtain ⟨s₁, hcontents, _, ⟨s₂, hmissed, _, -, rfl⟩, hupdate⟩ := hu
  unfold Protocol.applyContents at hcontents
  simp only [bind_eq_ok, ensure_eq_ok] at hcontents
  obtain ⟨_, -, _, -, s₀, hextensions, _, -, _, -, htrxs⟩ := hcontents
  have hbefore := (onlyWitnesses_of_processHeaderExtensions hextensions).transactions
  have hs₀ : s₀.Recorded ids := recorded_of_transactions h hbefore
  have hs₁ := recorded_of_applyTransactions hs₀ htrxs
  have hu : u.transactions = s₁.transactions := by
    rw [(ChainState.advances_of_updateLastIrreversibleBlockNum hupdate).1,
      ← (ChainState.onlyWitnesses_of_missSlots hmissed).transactions]
    rfl
  have ht : t.transactions = u.clearExpiredTransactions.transactions := by
    unfold Protocol.applyAfterIrreversible at hafter
    dsimp only at hafter
    split at hafter
    . cases hafter
    . injection hafter with hafter
      rw [← hafter]
      rfl
  intro o ho
  rw [ht] at ho
  unfold ChainState.clearExpiredTransactions at ho
  have hin := (Table.mem_filter.mp ho).1
  rw [hu] at hin
  exact hs₁ o hin

theorem chainTransactions_of_applyBlock' (h : p.applyBlock' {} s b = .ok t) :
    t.chainTransactions = b.transactions ++ s.chainTransactions := by
  unfold ChainState.chainTransactions
  rw [history_of_applyBlock' h, List.flatMap_cons]

variable {x : ChainState σ}

theorem recorded_of_reaches (hx : x.transactions = .empty) (h : ReflTransGen p.Grows x s) :
    s.Recorded (s.chainTransactions.map p.transactionId) := by
  induction h with
  | refl =>
    intro o ho
    rw [hx] at ho
    cases ho
  | tail _ hgrows ih =>
    obtain ⟨b, hb⟩ := hgrows.block
    rw [chainTransactions_of_applyBlock' hb, List.map_append]
    exact recorded_of_applyBlock' ih hb

theorem replayInv_of_reaches (hid : p.IdsTell) (hx : ReplayInv p x)
    (h : ReflTransGen p.Grows x s) : ReplayInv p s := by
  induction h with
  | refl => exact hx
  | tail _ hgrows ih =>
    obtain ⟨b, hb⟩ := hgrows.block
    exact ih.applyBlock' hid hb

theorem applyTransactions_append_ok {rest : List SignedTransaction} :
    p.applyTransactions {} s (trxs ++ rest) = .ok t ↔
      ∃ u, p.applyTransactions {} s trxs = .ok u ∧ p.applyTransactions {} u rest = .ok t := by
  induction trxs generalizing s with
  | nil => simp [Protocol.applyTransactions]
  | cons trx trxs ih =>
    simp only [List.cons_append, Protocol.applyTransactions, bind_eq_ok, ih]
    constructor
    . rintro ⟨s', hs', u, hu, ht⟩
      exact ⟨u, ⟨s', hs', hu⟩, ht⟩
    . rintro ⟨u, ⟨s', hs', hu⟩, ht⟩
      exact ⟨s', hs', u, hu, ht⟩

theorem applyTransactions_singleton :
    p.applyTransactions {} s [trx] = p.applyTransaction' {} s trx := by
  unfold Protocol.applyTransactions Protocol.applyTransactions
  cases p.applyTransaction' {} s trx <;> rfl

end recorded

namespace Node

variable {P : SignedBlock → Prop} {H : List SignedBlock} {x : ChainState σ} {n n' : Node σ}
  {trx : SignedTransaction} {trxs : List SignedTransaction}

/-- The state of the head block, without pending transactions. -/
def chainState (n : Node σ) : ChainState σ :=
  n.resetPendingSession.db.value

/-- What a transaction does that is pushed, however it ends. -/
structure Opens (n n' : Node σ) : Prop where
  pendingSession : n'.pendingSession = true
  saved : n'.db.saved ≠ []
  undo : n'.db.undo = n.resetPendingSession.db
  forkDb : n'.forkDb = n.forkDb
  blockLog : n'.blockLog = n.blockLog
  poppedTx : n'.poppedTx = n.poppedTx

theorem pushTransaction'_cases {r : Result Unit} (hsession : n.pendingSession = true → n.db.saved ≠ [])
    (hpush : n.pushTransaction' p {} trx = (r, n')) :
    Opens n n' ∧
      ((∃ e, p.applyTransaction' {} n.db.value trx = .error e ∧ n'.db.value = n.db.value ∧
          n'.pendingTx = n.pendingTx) ∨
        (p.applyTransaction' {} n.db.value trx = .ok n'.db.value ∧
          n'.pendingTx = n.pendingTx ++ [trx])) := by
  have hopened : ∃ n₁ : Node σ,
      (if n.pendingSession then n else { n with db := n.db.start, pendingSession := true }) = n₁ ∧
        Opens n n₁ ∧ n₁.db.value = n.db.value ∧ n₁.pendingTx = n.pendingTx := by
    split
    . next hpending =>
      refine ⟨n, rfl, ⟨hpending, hsession hpending, ?_, rfl, rfl, rfl⟩, rfl, rfl⟩
      unfold resetPendingSession
      rw [if_pos hpending]
    . next hpending =>
      refine ⟨_, rfl, ⟨rfl, List.cons_ne_nil _ _, ?_, rfl, rfl, rfl⟩, rfl, rfl⟩
      unfold resetPendingSession
      rw [if_neg hpending]
      exact UndoStack.undo_set_start n.db n.db.value
  obtain ⟨n₁, hn₁, hopens, hvalue, hpendingTx⟩ := hopened
  unfold Node.pushTransaction' at hpush
  rw [hn₁] at hpush
  dsimp only at hpush
  rw [hvalue] at hpush
  split at hpush
  . next e he =>
    cases hpush
    exact ⟨hopens, .inl ⟨e, he, hvalue, hpendingTx⟩⟩
  . next s hs =>
    cases hpush
    obtain ⟨session, saved, hsaved⟩ := List.exists_cons_of_ne_nil hopens.saved
    have hdb : (n₁.db.start.set s).squash = n₁.db.set s := UndoStack.squash_set_start hsaved s
    refine ⟨⟨hopens.pendingSession, ?_, ?_, hopens.forkDb, hopens.blockLog, hopens.poppedTx⟩,
      .inr ⟨?_, ?_⟩⟩
    . dsimp only
      rw [hdb]
      exact hopens.saved
    . dsimp only
      rw [hdb, UndoStack.undo_set hopens.saved]
      exact hopens.undo
    . dsimp only
      rw [hdb, hs]
      rfl
    . rw [hpendingTx]

theorem Opens.reset_db (h : Opens n n') : n'.resetPendingSession.db = n.resetPendingSession.db := by
  rw [← h.undo]
  unfold resetPendingSession
  rw [if_pos h.pendingSession]

theorem reset_idle : n.resetPendingSession.pendingSession = false := by
  unfold resetPendingSession
  split
  . rfl
  . next h => exact eq_false_of_ne_true h

theorem reset_forkDb : n.resetPendingSession.forkDb = n.forkDb := by
  unfold resetPendingSession
  split <;> rfl

theorem reset_blockLog : n.resetPendingSession.blockLog = n.blockLog := by
  unfold resetPendingSession
  split <;> rfl

theorem reset_poppedTx : n.resetPendingSession.poppedTx = n.poppedTx := by
  unfold resetPendingSession
  split <;> rfl

theorem reset_pendingTx : n.resetPendingSession.pendingTx = n.pendingTx := by
  unfold resetPendingSession
  split <;> rfl

theorem reset_of_idle (h : n.pendingSession = false) : n.resetPendingSession = n := by
  unfold resetPendingSession
  rw [if_neg (ne_true_of_eq_false h)]

/-- The transactions `trxs` are applied in a session of their own on top of the head block. -/
structure PendingOn (p : Protocol σ) (x : ChainState σ) (P : SignedBlock → Prop)
    (H : List SignedBlock) (trxs : List SignedTransaction) (n : Node σ) : Prop where
  settled : Settled p x P H n.pendingTx n.resetPendingSession
  session : n.pendingSession = true → n.db.saved ≠ []
  applied : p.applyTransactions {} n.chainState trxs = .ok n.db.value

theorem PendingOn.of_settled (h : Settled p x P H trxs n) : PendingOn p x P H [] n := by
  have hreset := reset_of_idle h.idle
  refine ⟨?_, ?_, ?_⟩
  . rw [hreset, h.pendingTx]
    exact h
  . intro hpending
    exact absurd hpending (ne_true_of_eq_false h.idle)
  . unfold chainState
    rw [hreset]
    rfl

theorem settled_of_opens (h : Settled p x P H n.pendingTx n.resetPendingSession) (hopens : Opens n n') :
    Settled p x P H n'.pendingTx n'.resetPendingSession := by
  constructor
  . exact reset_idle
  . exact reset_pendingTx
  . rw [hopens.reset_db]
    exact h.sessions
  . constructor
    . rw [reset_forkDb, hopens.forkDb, ← reset_forkDb]
      exact h.blocks.forkDb
    . rw [reset_blockLog, hopens.blockLog, ← reset_blockLog]
      exact h.blocks.blockLog
  . rw [hopens.reset_db, reset_poppedTx, hopens.poppedTx, ← reset_poppedTx]
    exact h.returned

/-- On top of the head block and of some pending transactions, the transaction fails. -/
def Refused (p : Protocol σ) (n : Node σ) (trx : SignedTransaction) : Prop :=
  ∃ front s e, front <+: n.pendingTx ∧ p.applyTransactions {} n.chainState front = .ok s ∧
    p.applyTransaction' {} s trx = .error e

/-- The transaction is in the index, or was refused. -/
def Accounted (p : Protocol σ) (n : Node σ) (trx : SignedTransaction) : Prop :=
  n.isKnownTransaction (p.transactionId trx) = true ∨ n.Refused p trx

/-- What becomes of the transactions `trxs` that are to be applied again. -/
structure Restores (p : Protocol σ) (x : ChainState σ) (P : SignedBlock → Prop)
    (H : List SignedBlock) (trxs : List SignedTransaction) (n n' : Node σ) : Prop where
  pending : PendingOn p x P H n'.pendingTx n'
  db : n'.resetPendingSession.db = n.resetPendingSession.db
  grown : n.pendingTx <+: n'.pendingTx
  accounted : ∀ trx, n.Accounted p trx → n'.Accounted p trx
  all : ∀ trx ∈ trxs, n'.Accounted p trx

theorem chainState_of_db (h : n'.resetPendingSession.db = n.resetPendingSession.db) :
    n'.chainState = n.chainState := by
  unfold chainState
  rw [h]

theorem isKnownTransaction_of_admitted {id : Nat} {t : ChainState σ}
    (h : Admitted p n.db.value trx t) (hvalue : n'.db.value = t)
    (hknown : n.isKnownTransaction id = true) : n'.isKnownTransaction id = true := by
  obtain ⟨o, ho⟩ := Option.isSome_iff_exists.mp hknown
  have hkept := h.kept id o.expiration (by
    unfold ChainState.known
    rw [ho]
    rfl)
  unfold isKnownTransaction
  rw [hvalue]
  obtain ⟨o', ho', -⟩ := Option.map_eq_some_iff.mp hkept
  rw [ho']
  rfl

/-- Pushing one transaction accounts for it, and forgets none. -/
theorem restores_pushTransaction' {r : Result Unit} (h : PendingOn p x P H n.pendingTx n)
    (hpush : n.pushTransaction' p {} trx = (r, n')) : Restores p x P H [trx] n n' := by
  obtain ⟨hopens, hcases⟩ := pushTransaction'_cases h.session hpush
  have hstate := chainState_of_db hopens.reset_db
  have refused_of_grown (hgrown : n.pendingTx <+: n'.pendingTx) (trx' : SignedTransaction)
      (hrefused : n.Refused p trx') : n'.Refused p trx' := by
    obtain ⟨front, s, e, hfront, hs, he⟩ := hrefused
    refine ⟨front, s, e, hfront.trans hgrown, ?_, he⟩
    rw [hstate]
    exact hs
  rcases hcases with ⟨e, he, hvalue, hpendingTx⟩ | ⟨hok, hpendingTx⟩
  . have hgrown : n.pendingTx <+: n'.pendingTx := hpendingTx ▸ List.prefix_refl _
    refine ⟨⟨settled_of_opens h.settled hopens, fun _ => hopens.saved, ?_⟩, hopens.reset_db, hgrown,
      ?_, ?_⟩
    . rw [hstate, hvalue, hpendingTx]
      exact h.applied
    . rintro trx' (hknown | hrefused)
      . left
        unfold isKnownTransaction at hknown ⊢
        rw [hvalue]
        exact hknown
      . exact .inr (refused_of_grown hgrown trx' hrefused)
    . intro trx' htrx'
      rw [List.mem_singleton.mp htrx']
      right
      refine ⟨n.pendingTx, n.db.value, e, hgrown, ?_, he⟩
      rw [hstate]
      exact h.applied
  . have hgrown : n.pendingTx <+: n'.pendingTx := hpendingTx ▸ List.prefix_append _ _
    have hadmitted := admitted_of_applyTransaction' hok
    refine ⟨⟨settled_of_opens h.settled hopens, fun _ => hopens.saved, ?_⟩, hopens.reset_db, hgrown,
      ?_, ?_⟩
    . rw [hstate, hpendingTx, applyTransactions_append_ok]
      refine ⟨n.db.value, h.applied, ?_⟩
      rw [applyTransactions_singleton]
      exact hok
    . rintro trx' (hknown | hrefused)
      . exact .inl (isKnownTransaction_of_admitted hadmitted rfl hknown)
      . exact .inr (refused_of_grown hgrown trx' hrefused)
    . intro trx' htrx'
      rw [List.mem_singleton.mp htrx']
      left
      obtain ⟨o, ho, -⟩ := Option.map_eq_some_iff.mp hadmitted.new
      unfold isKnownTransaction
      rw [ho]
      rfl

theorem Restores.refl (h : PendingOn p x P H n.pendingTx n) : Restores p x P H [] n n :=
  ⟨h, rfl, List.prefix_refl _, fun _ h => h, List.forall_mem_nil _⟩

theorem Restores.trans {rest : List SignedTransaction} {n'' : Node σ}
    (h : Restores p x P H trxs n n') (h' : Restores p x P H rest n' n'') :
    Restores p x P H (trxs ++ rest) n n'' := by
  refine ⟨h'.pending, h'.db.trans h.db, h.grown.trans h'.grown, ?_, ?_⟩
  . intro trx htrx
    exact h'.accounted trx (h.accounted trx htrx)
  . intro trx htrx
    rcases List.mem_append.mp htrx with htrx | htrx
    . exact h'.accounted trx (h.all trx htrx)
    . exact h'.all trx htrx

theorem restores_restoreTransactions (h : PendingOn p x P H n.pendingTx n) :
    Restores p x P H trxs n (n.restoreTransactions p {} trxs) := by
  induction trxs generalizing n with
  | nil => exact .refl h
  | cons trx trxs ih =>
    unfold restoreTransactions
    split
    . next hknown =>
      have hrest := ih h
      refine ⟨hrest.pending, hrest.db, hrest.grown, hrest.accounted, ?_⟩
      intro trx' htrx'
      rcases List.mem_cons.mp htrx' with rfl | htrx'
      . exact hrest.accounted _ (.inl hknown)
      . exact hrest.all trx' htrx'
    . cases hpush : n.pushTransaction' p {} trx with
      | mk r n₁ =>
        have hfirst := restores_pushTransaction' h hpush
        exact hfirst.trans (ih hfirst.pending)

end Node

end Golos
