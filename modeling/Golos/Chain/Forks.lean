import Golos.Chain.Lemmas.Pending
import Golos.Chain.Replay
import Mathlib.Logic.Encodable.Pi

/-!
This module contains the runs of a node that is pushed blocks and transactions and makes blocks of its
own: whatever forks it saw and whichever blocks failed, its state is that of the blocks of its chain.
-/

namespace Golos

open Checked Relation TransitionSystem

namespace Node

inductive Event where
  | pushBlock (memory : Memory) (b : SignedBlock)
  | pushTransaction (trx : SignedTransaction)
  | generateBlock (memory : Memory) (when : Nat) (witnessOwner : AccountName) (key : Nat)

variable {σ : Type} (p : Protocol σ)

def step (n : Node σ) : Event → Node σ
  | .pushBlock memory b => (n.pushBlock p memory {} b).2
  | .pushTransaction trx => (n.pushTransaction p {} trx).2
  | .generateBlock memory when witnessOwner key =>
    (n.generateBlock' p memory {} when witnessOwner key).2

/-- The runs from the state before the first block on, without skip flags. -/
def system (x : ChainState σ) : TransitionSystem (Node σ) Event where
  initial n := n = { db := ⟨x, x.headBlockNumber, []⟩ }
  step n e n' := n' = n.step p e

variable {p} {P : SignedBlock → Prop} {H : List SignedBlock} {x : ChainState σ} {n n' : Node σ}
  {trxs : List SignedTransaction} {b : SignedBlock}

/-- Some of the pending transactions are applied on top of the chain. -/
def Inv (p : Protocol σ) (x : ChainState σ) (P : SignedBlock → Prop) (n : Node σ) : Prop :=
  ∃ trxs, trxs.Sublist n.pendingTx ∧ PendingOn p x P [] trxs n

section step

theorem core_of_pendingOn (h : PendingOn p x P H trxs n) : n.db.value.core = n.chainState.core :=
  core_of_applyTransactions h.applied

theorem settled_clearPending (h : PendingOn p x P [] trxs n)
    (hH : ∀ c ∈ H, c ∈ n.chainState.history) : Settled p x P H [] n.clearPending := by
  have hdb : n.clearPending.db = n.resetPendingSession.db := by
    unfold clearPending resetPendingSession
    dsimp only
    split <;> rfl
  have hsettled := h.settled
  constructor
  . exact reset_idle
  . exact reset_pendingTx
  . rw [hdb]
    exact hsettled.sessions
  . constructor
    . unfold clearPending
      rw [reset_forkDb, ← @reset_forkDb _ n]
      exact hsettled.blocks.forkDb
    . unfold clearPending
      rw [reset_blockLog, ← @reset_blockLog _ n]
      exact hsettled.blocks.blockLog
  . rw [hdb]
    intro c hc
    exact .inl (hH c hc)

/-- Past blocks are no longer of interest, nor are their transactions. -/
theorem Restores.with_poppedTx (h : Restores p x P [] trxs n n')
    (popped : List SignedTransaction) : Restores p x P [] trxs n { n' with poppedTx := popped } := by
  have hreset : { n' with poppedTx := popped }.resetPendingSession
      = { n'.resetPendingSession with poppedTx := popped } := by
    unfold resetPendingSession
    dsimp only
    split <;> rfl
  have hdb : { n' with poppedTx := popped }.resetPendingSession.db = n'.resetPendingSession.db := by
    rw [hreset]
  have hstate := chainState_of_db hdb
  have accounted {trx : SignedTransaction} (htrx : n'.Accounted p trx) :
      { n' with poppedTx := popped }.Accounted p trx := by
    rcases htrx with hknown | ⟨front, s, e, hfront, hs, he⟩
    . exact .inl hknown
    . refine .inr ⟨front, s, e, hfront, ?_, he⟩
      rw [hstate]
      exact hs
  have hpending := h.pending
  refine ⟨⟨?_, hpending.session, ?_⟩, hdb.trans h.db, h.grown, ?_, ?_⟩
  . rw [hreset]
    exact ⟨hpending.settled.idle, hpending.settled.pendingTx, hpending.settled.sessions,
      ⟨hpending.settled.blocks.forkDb, hpending.settled.blocks.blockLog⟩, List.forall_mem_nil _⟩
  . rw [hstate]
    exact hpending.applied
  . intro trx htrx
    exact accounted (h.accounted trx htrx)
  . intro trx htrx
    exact accounted (h.all trx htrx)

variable (hx : ChainInv p {} x) (hnone : p.NoneAlone x)
include hx hnone

/-- After a block is pushed, with any outcome, the transactions are restored that were popped and
pending. -/
theorem restores_pushBlock (memory : Memory)
    (hP : ∀ b c, P b → c ∈ H → p.MerkleValid c → p.blockId b = p.blockId c → b = c)
    (hb : P b) (h : Settled p x P H [] n.clearPending) :
    ∃ n₁, Settled p x P H [] n₁ ∧
      Restores p x P [] (n₁.poppedTx ++ n.pendingTx) n₁ (n.pushBlock p memory {} b).2 := by
  unfold pushBlock
  cases hpush : n.clearPending.pushBlockOrRetry p memory {} b with
  | mk r n₁ =>
    have hn₁ := h.pushBlockOrRetry hx hnone hP hb hpush
    have hsettled : Settled p x P [] [] n₁ :=
      ⟨hn₁.idle, hn₁.pendingTx, hn₁.sessions, hn₁.blocks, List.forall_mem_nil _⟩
    have hstart : PendingOn p x P [] n₁.pendingTx n₁ := by
      rw [hn₁.pendingTx]
      exact .of_settled hsettled
    have hrestored : Restores p x P [] n₁.poppedTx n₁ (n₁.restoreTransactions p {} n₁.poppedTx) :=
      restores_restoreTransactions hstart
    have hpopped := hrestored.with_poppedTx []
    exact ⟨n₁, hn₁, hpopped.trans (restores_restoreTransactions hpopped.pending)⟩

theorem inv_pushBlock (memory : Memory) (hb : P b) (h : n.Inv p x P) :
    (n.pushBlock p memory {} b).2.Inv p x P := by
  obtain ⟨trxs, -, hpending⟩ := h
  have hclear := settled_clearPending (H := []) hpending (List.forall_mem_nil _)
  obtain ⟨n₁, -, hrestores⟩ := restores_pushBlock hx hnone memory
    (by intro b c _ hc; cases hc) hb hclear
  exact ⟨_, List.Sublist.refl _, hrestores.pending⟩

omit hx hnone in
theorem inv_pushTransaction {trx : SignedTransaction} (h : n.Inv p x P) :
    (n.pushTransaction p {} trx).2.Inv p x P := by
  unfold pushTransaction
  split
  . obtain ⟨trxs, hsublist, hpending⟩ := h
    cases hpush : n.pushTransaction' p {} trx with
    | mk r n' =>
      obtain ⟨hopens, hcases⟩ := pushTransaction'_cases hpending.session hpush
      have hsettled := settled_of_opens hpending.settled hopens
      have hstate := chainState_of_db hopens.reset_db
      rcases hcases with ⟨e, -, hvalue, hpendingTx⟩ | ⟨hok, hpendingTx⟩
      . refine ⟨trxs, hpendingTx ▸ hsublist, hsettled, fun _ => hopens.saved, ?_⟩
        rw [hstate, hvalue]
        exact hpending.applied
      . refine ⟨trxs ++ [trx], ?_, hsettled, fun _ => hopens.saved, ?_⟩
        . rw [hpendingTx]
          exact hsublist.append (List.Sublist.refl _)
        . rw [hstate, applyTransactions_append_ok]
          refine ⟨_, hpending.applied, ?_⟩
          rw [applyTransactions_singleton]
          exact hok
  . exact h

omit hx hnone in
theorem merkleValid_of_assembleBlock {skip : Skip} {when maximumBlockSize key : Nat}
    {witnessOwner : AccountName} {s : ChainState σ}
    (h : assembleBlock p skip when witnessOwner key maximumBlockSize s trxs = .ok b) :
    p.MerkleValid b := by
  unfold assembleBlock at h
  simp only [bind_eq_ok] at h
  obtain ⟨witness, -, h⟩ := h
  left
  split at h
  . simp only [bind_eq_ok, pure_eq_ok] at h
    obtain ⟨-, -, rfl⟩ := h
    split <;> rfl
  . rw [pure_eq_ok] at h
    rw [← h]
    split <;> rfl

theorem inv_generateBlock' (hgenerated : ∀ b, p.MerkleValid b → P b) {memory : Memory}
    {when key : Nat} {witnessOwner : AccountName} (h : n.Inv p x P) :
    (n.generateBlock' p memory {} when witnessOwner key).2.Inv p x P := by
  have hreset : n.resetPendingSession.Inv p x P := by
    obtain ⟨trxs, hsublist, hpending⟩ := h
    exact ⟨[], List.nil_sublist _, .of_settled hpending.settled⟩
  unfold generateBlock'
  split
  . exact h
  . dsimp only
    split
    . exact hreset
    . next pendingBlock hassemble =>
      have hpush := inv_pushBlock hx hnone memory
        (hgenerated _ (merkleValid_of_assembleBlock hassemble)) hreset
      split
      . next heq =>
        rw [heq] at hpush
        exact hpush
      . next heq =>
        rw [heq] at hpush
        exact hpush

theorem inv_step (hgenerated : ∀ b, p.MerkleValid b → P b) {e : Event}
    (hpushed : ∀ memory b, e = .pushBlock memory b → P b) (h : n.Inv p x P) :
    (n.step p e).Inv p x P := by
  cases e with
  | pushBlock memory b => exact inv_pushBlock hx hnone memory (hpushed memory b rfl) h
  | pushTransaction trx => exact inv_pushTransaction h
  | generateBlock memory when witnessOwner key => exact inv_generateBlock' hx hnone hgenerated h

end step

section runs

theorem inv_initial (hx : ChainInv p {} x) (h : (system p x).initial n) : n.Inv p x P := by
  have hn : n = { db := ⟨x, x.headBlockNumber, []⟩ } := h
  subst hn
  suffices hsettled : Settled p x P [] [] { db := ⟨x, x.headBlockNumber, []⟩ } from
    ⟨[], List.nil_sublist _, .of_settled hsettled⟩
  refine ⟨rfl, rfl, ?_, ⟨.empty, ?_⟩, ?_⟩
  . exact UndoStack.Anchored.initial hx.irreversible_le
  . exact List.forall_mem_nil _
  . exact List.forall_mem_nil _

/-- Only blocks that meet `P` are pushed. -/
def Pushes (P : SignedBlock → Prop) : Node σ → Event → Prop
  | _, .pushBlock _ b => P b
  | _, _ => True

theorem inv_of_reach (hx : ChainInv p {} x) (hnone : p.NoneAlone x)
    (hgenerated : ∀ b, p.MerkleValid b → P b) (h : (system p x).Reach (Pushes P) n) :
    n.Inv p x P := by
  apply h.invariant
  . exact fun n hn => inv_initial hx hn
  . rintro n e _ hinv hok rfl
    apply inv_step hx hnone hgenerated _ hinv
    rintro memory b rfl
    exact hok

theorem inv_of_reachable (hx : ChainInv p {} x) (hnone : p.NoneAlone x)
    (h : (system p x).Reachable n) : n.Inv p x fun _ => True := by
  apply inv_of_reach hx hnone (fun _ _ => trivial)
  apply h.mono
  rintro _ (_ | _ | _) _ <;> trivial

theorem Inv.reaches (h : n.Inv p x P) : ReflTransGen p.Grows x n.chainState := by
  obtain ⟨trxs, -, hpending⟩ := h
  exact hpending.settled.sessions.reaches

theorem Inv.core (h : n.Inv p x P) : n.db.value.core = n.chainState.core := by
  obtain ⟨trxs, -, hpending⟩ := h
  exact core_of_pendingOn hpending

theorem chainInv_of_genesis (hx : Replay.Genesis x) : ChainInv p {} x :=
  (Replay.replayInv_genesis hx).chain

theorem replay_of_reaches {s : ChainState σ} (hx : x.history = [])
    (h : ReflTransGen p.Grows x s) : s.history.reverse.foldlM (p.applyBlock' {}) x = .ok s := by
  induction h with
  | refl =>
    rw [hx]
    rfl
  | tail _ hgrows ih =>
    obtain ⟨b, hb⟩ := hgrows.block
    rw [history_of_applyBlock' hb, List.reverse_cons, List.foldlM_append, ih, ok_bind,
      List.foldlM_cons, hb]
    rfl

/--
Whatever was pushed, failed or was undone, the state of the head block is that of its chain applied
anew, and the visible state adds pending transactions to it, in their order.
-/
theorem replayed_of_reachable (hx : Replay.Genesis x) (hnone : p.NoneAlone x)
    (h : (system p x).Reachable n) :
    n.chainState.history.reverse.foldlM (p.applyBlock' {}) x = .ok n.chainState ∧
      ∃ trxs, trxs.Sublist n.pendingTx ∧
        p.applyTransactions {} n.chainState trxs = .ok n.db.value := by
  have hinv := inv_of_reachable (chainInv_of_genesis hx) hnone h
  refine ⟨replay_of_reaches hx.history hinv.reaches, ?_⟩
  obtain ⟨trxs, hsublist, hpending⟩ := hinv
  exact ⟨trxs, hsublist, hpending.applied⟩

/-- Two nodes at the same head block agree on the whole state. -/
theorem agree_of_reachable (hid : p.BlockIdsTell) (hx : Replay.Genesis x) (hnone : p.NoneAlone x)
    (h : (system p x).Reachable n) (h' : (system p x).Reachable n')
    (hhead : n.headBlockId = n'.headBlockId) : n.chainState = n'.chainState := by
  have hchain := chainInv_of_genesis (p := p) hx
  have hinv := inv_of_reachable hchain hnone h
  have hinv' := inv_of_reachable hchain hnone h'
  have hid₁ : n.headBlockId = n.chainState.headBlockId :=
    congrArg ChainState.Core.headBlockId hinv.core
  have hid₂ : n'.headBlockId = n'.chainState.headBlockId :=
    congrArg ChainState.Core.headBlockId hinv'.core
  apply eq_of_headBlockId hid hchain hinv.reaches hinv'.reaches
  rw [← hid₁, ← hid₂, hhead]

theorem NoneAlone.of_reaches {y : ChainState σ} (hnone : p.NoneAlone x)
    (h : ReflTransGen p.Grows x y) : p.NoneAlone y := by
  intro s b u hs
  exact hnone s b u (h.trans hs)

theorem Inv.again (h : n.Inv p x P) : n.Inv p n.resetPendingSession.db.oldest P := by
  obtain ⟨trxs, hsublist, hpending⟩ := h
  have hsettled := hpending.settled
  exact ⟨trxs, hsublist, ⟨hsettled.idle, hsettled.pendingTx, hsettled.sessions.again,
    hsettled.blocks, hsettled.returned⟩, hpending.session, hpending.applied⟩

/-- What is irreversible stays the beginning of the chain. -/
theorem irreversible_of_reachable (hx : Replay.Genesis x) (hnone : p.NoneAlone x)
    (h : (system p x).Reachable n) (h' : ((system p x).startedIn n).Reachable n') :
    n.db.value.history.reverse.take n.db.value.lastIrreversibleBlockNum
      <+: n'.db.value.history.reverse := by
  have hchain := chainInv_of_genesis (p := p) hx
  have hinv := inv_of_reachable hchain hnone h
  generalize hy : n.resetPendingSession.db.oldest = y
  have hagain : n.Inv p y fun _ => True := hy ▸ hinv.again
  have hxy : ReflTransGen p.Grows x y := by
    obtain ⟨trxs, -, hpending⟩ := hinv
    exact hy ▸ hpending.settled.sessions.anchor
  have hchainy := chainInv_of_reaches hchain hxy
  have hinv' : n'.Inv p y fun _ => True := by
    apply h'.invariant
    . rintro _ rfl
      exact hagain
    . rintro n e _ hn - rfl
      exact inv_step hchainy (NoneAlone.of_reaches hnone hxy) (fun _ _ => trivial)
        (fun _ _ _ => trivial) hn
  have hfloor : n.db.value.lastIrreversibleBlockNum ≤ y.history.length := by
    have hlib : n.db.value.lastIrreversibleBlockNum = n.chainState.lastIrreversibleBlockNum :=
      congrArg ChainState.Core.lastIrreversibleBlockNum hinv.core
    rw [hlib, ← hchainy.headBlockNumber, ← hy]
    obtain ⟨trxs, -, hpending⟩ := hinv
    exact hpending.settled.sessions.floor_le.value
  have hhistory : n.db.value.history = n.chainState.history :=
    congrArg ChainState.Core.history hinv.core
  have hhistory' : n'.db.value.history = n'.chainState.history :=
    congrArg ChainState.Core.history hinv'.core
  obtain ⟨rest, hrest⟩ := List.reverse_prefix.mpr (history_of_reaches hagain.reaches)
  rw [hhistory, hhistory', ← hrest, List.take_append_of_le_length (by simpa using hfloor)]
  exact (List.take_prefix _ _).trans (List.reverse_prefix.mpr (history_of_reaches hinv'.reaches))

/-- A block that is pushed loses no transaction and doubles none. -/
structure KeepsTransactions (p : Protocol σ) (n n' : Node σ) : Prop where
  applied : p.applyTransactions {} n'.chainState n'.pendingTx = .ok n'.db.value
  distinct : ((n'.pendingTx ++ n'.chainState.chainTransactions).map p.transactionId).Nodup
  kept : ∀ trx ∈ n.pendingTx ++ n.chainState.chainTransactions,
    p.transactionId trx ∈ (n'.pendingTx ++ n'.chainState.chainTransactions).map p.transactionId ∨
      n'.Refused p trx

theorem keepsTransactions_pushBlock (hblocks : p.BlockIdsTell) (hid : p.IdsTell)
    (hx : Replay.Genesis x) (hempty : x.transactions = .empty) (hnone : p.NoneAlone x)
    (h : (system p x).Reach (Pushes p.MerkleValid) n) {memory : Memory} (hb : p.MerkleValid b) :
    KeepsTransactions p n (n.pushBlock p memory {} b).2 := by
  have hchain := chainInv_of_genesis (p := p) hx
  obtain ⟨trxs, -, hpending⟩ := inv_of_reach hchain hnone (fun _ h => h) h
  have hclear := settled_clearPending (H := n.chainState.history) hpending (fun _ hc => hc)
  obtain ⟨n₁, hn₁, hrestores⟩ := restores_pushBlock hchain hnone memory
    (fun b c hb _ hc heq => hblocks b c hb hc heq) hb hclear
  generalize (n.pushBlock p memory {} b).2 = n' at hrestores ⊢
  have hreaches : ReflTransGen p.Grows x n'.chainState :=
    hrestores.pending.settled.sessions.reaches
  have hrecorded := recorded_of_applyTransactions (recorded_of_reaches hempty hreaches)
    hrestores.pending.applied
  have kept_of_accounted {trx : SignedTransaction} (htrx : n'.Accounted p trx) :
      p.transactionId trx ∈
          (n'.pendingTx ++ n'.chainState.chainTransactions).map p.transactionId ∨
        n'.Refused p trx := by
    rcases htrx with hknown | hrefused
    . left
      obtain ⟨o, ho⟩ := Option.isSome_iff_exists.mp hknown
      obtain ⟨hmem, hkey⟩ := Table.find?_eq_some_iff.mp ho
      rw [List.map_append, ← hkey]
      exact hrecorded o hmem
    . exact .inr hrefused
  constructor
  . exact hrestores.pending.applied
  . have hinv := replayInv_of_reaches hid (Replay.replayInv_genesis hx) hreaches
    exact (guards_of_applyTransactions hid hinv.guards hrestores.pending.applied).distinct
  . intro trx htrx
    rcases List.mem_append.mp htrx with htrx | htrx
    . exact kept_of_accounted (hrestores.all trx (List.mem_append_right _ htrx))
    . obtain ⟨c, hc, htrxc⟩ := List.mem_flatMap.mp htrx
      rcases hn₁.returned c hc with hin | hpopped
      . left
        apply List.mem_map_of_mem
        apply List.mem_append_right
        have hdb : n'.chainState = n₁.db.value := by
          show n'.resetPendingSession.db.value = n₁.db.value
          rw [hrestores.db, reset_of_idle hn₁.idle]
        rw [hdb]
        exact List.mem_flatMap.mpr ⟨c, hin, htrxc⟩
      . exact kept_of_accounted (hrestores.all trx (List.mem_append_left _ (hpopped htrxc)))

end runs

end Node

section schedule

variable {σ : Type} {p : Protocol σ} {s t u x : ChainState σ} {b : SignedBlock}
  {trxs : List SignedTransaction}

/-- Neither evaluators nor the processing at block ends change the schedule. -/
structure Protocol.KeepsSchedule (p : Protocol σ) : Prop where
  applyOperations : ∀ s trx shared, p.applyOperations s trx = .ok shared →
    shared.schedule = s.shared.schedule
  endOfBlock : ∀ s b shared, p.endOfBlock s b = .ok shared → shared.schedule = s.shared.schedule

theorem schedule_of_applyTransactions (hp : p.KeepsSchedule)
    (h : p.applyTransactions {} s trxs = .ok t) : t.shared.schedule = s.shared.schedule := by
  induction trxs generalizing s with
  | nil =>
    simp only [Protocol.applyTransactions, pure_eq_ok] at h
    rw [h]
  | cons trx trxs ih =>
    simp only [Protocol.applyTransactions, bind_eq_ok] at h
    obtain ⟨s', hs', h⟩ := h
    rw [ih h]
    unfold Protocol.applyTransaction' Protocol.createTransactionObject at hs'
    simp only [bind_eq_ok, pure_eq_ok, Bool.false_eq_true, if_false] at hs'
    obtain ⟨_, -, _, -, _, ⟨transactions, -, rfl⟩, shared, hshared, rfl⟩ := hs'
    have hkept := hp.applyOperations _ _ _ hshared
    exact hkept

theorem schedule_of_onlyWitnesses (h : s.OnlyWitnesses t) : t.shared.schedule = s.shared.schedule := by
  obtain ⟨_, rfl⟩ := h
  rfl

theorem schedule_of_applyUntilIrreversible (hp : p.KeepsSchedule)
    (h : p.applyUntilIrreversible {} s b = .ok u) : u.shared.schedule = s.shared.schedule := by
  unfold Protocol.applyUntilIrreversible Protocol.updateGlobalDynamicData at h
  simp only [bind_eq_ok, ensure_eq_ok, pure_eq_ok] at h
  obtain ⟨s₁, hcontents, _, ⟨s₂, hmissed, _, -, rfl⟩, hupdate⟩ := h
  unfold Protocol.applyContents at hcontents
  simp only [bind_eq_ok, ensure_eq_ok] at hcontents
  obtain ⟨_, -, _, -, s₀, hextensions, _, -, _, -, htrxs⟩ := hcontents
  have hbefore := schedule_of_onlyWitnesses (onlyWitnesses_of_processHeaderExtensions hextensions)
  rw [(ChainState.advances_of_updateLastIrreversibleBlockNum hupdate).1]
  show s₂.shared.schedule = s.shared.schedule
  rw [schedule_of_onlyWitnesses (ChainState.onlyWitnesses_of_missSlots hmissed), schedule_of_applyTransactions hp htrxs, hbefore]

theorem schedule_of_reaches (hp : p.KeepsSchedule) (h : ReflTransGen p.Grows x s) :
    s.shared.schedule = x.shared.schedule := by
  induction h with
  | refl => rfl
  | tail _ hgrows ih =>
    obtain ⟨b, hb⟩ := hgrows.block
    obtain ⟨u, hu, hafter⟩ := applyBlock'_eq_ok_iff.mp hb
    rw [← ih, ← schedule_of_applyUntilIrreversible hp hu]
    unfold Protocol.applyAfterIrreversible at hafter
    dsimp only at hafter
    split at hafter
    . cases hafter
    . next shared hend =>
      injection hafter with hafter
      rw [← hafter]
      have hkept := hp.endOfBlock _ _ _ hend
      exact hkept

/-- It is enough that two witnesses are scheduled, and stay so. -/
theorem noneAlone_of_keepsSchedule (hp : p.KeepsSchedule) (hnodup : x.scheduledWitnesses.Nodup)
    (htwo : 2 ≤ x.scheduledWitnesses.length) : p.NoneAlone x := by
  intro s b u hs hu _
  have hschedule : u.scheduledWitnesses = x.scheduledWitnesses := by
    unfold ChainState.scheduledWitnesses
    rw [schedule_of_applyUntilIrreversible hp hu, schedule_of_reaches hp hs]
  rw [hschedule]
  exact ⟨hnodup, htwo⟩

end schedule

namespace Node

section twoWitnesses

def extensionContent : BlockHeaderExtension → Nat × Nat × Nat
  | .void => (0, 0, 0)
  | .version version => (1, version, 0)
  | .hardforkVersionVote hfVersion hfTime => (2, hfVersion, hfTime)

def transactionContent (trx : SignedTransaction) : List Nat :=
  [trx.refBlockNum, trx.refBlockPrefix, trx.expiration, trx.operations.size, trx.operations.bytes,
    trx.signatures.size, trx.signatures.bytes]

/-- All that a block consists of. -/
def blockContent (b : SignedBlock) :
    List Nat × List Nat × List (Nat × Nat × Nat) × List (List Nat) :=
  ([b.previous.num, b.previous.hash, b.timestamp, b.transactionMerkleRoot, b.witnessSignature],
    b.witness.toList.map Char.toNat, b.extensions.map extensionContent,
    b.transactions.map transactionContent)

theorem extensionContent_injective : Function.Injective extensionContent := by
  intro e e' h
  cases e <;> cases e' <;> simp_all [extensionContent]

theorem transactionContent_injective : Function.Injective transactionContent := by
  intro trx trx' h
  obtain ⟨_, _, _, ⟨_, _⟩, ⟨_, _⟩⟩ := trx
  obtain ⟨_, _, _, ⟨_, _⟩, ⟨_, _⟩⟩ := trx'
  simpa [transactionContent, and_assoc] using h

theorem blockContent_injective : Function.Injective blockContent := by
  intro b c h
  obtain ⟨⟨_, _⟩, _, witness, _, _, _, _⟩ := b
  obtain ⟨⟨_, _⟩, _, witness', _, _, _, _⟩ := c
  simp only [blockContent, Prod.mk.injEq, List.cons.injEq, and_true] at h
  obtain ⟨⟨rfl, rfl, rfl, rfl, rfl⟩, hwitness, hextensions, htransactions⟩ := h
  have hwitness : witness = witness' := by
    rw [← String.toList_inj]
    exact List.map_injective_iff.mpr (fun _ _ => Char.toNat_inj.mp) hwitness
  rw [hwitness, List.map_injective_iff.mpr extensionContent_injective hextensions,
    List.map_injective_iff.mpr transactionContent_injective htransactions]

/-- The id of a block tells all of its content. -/
def tellingProtocol : Protocol Unit :=
  { Replay.plainProtocol with blockHash := fun b => Encodable.encode (blockContent b) }

theorem blockIdsTell_tellingProtocol : tellingProtocol.BlockIdsTell := by
  intro b c _ _ h
  injection h with _ h
  exact blockContent_injective (Encodable.encode_injective h)

/-- No operation of these protocols touches the schedule. -/
theorem keepsSchedule_withHash (blockHash : SignedBlock → Nat) :
    Protocol.KeepsSchedule { Replay.plainProtocol with blockHash := blockHash } := by
  constructor
  . intro s trx shared h
    injection h with h
    rw [← h]
  . intro s b shared h
    injection h with h
    rw [← h]

def twoWitnesses : ChainState Unit where
  time := 0
  shared :=
    { witnesses := ⟨[{ owner := "bob" }, { owner := "alice" }], by decide⟩
      schedule := ⟨["alice", "bob"], 2, by decide, 0⟩
      rest := () }

theorem genesis_twoWitnesses : Replay.Genesis twoWitnesses :=
  ⟨rfl, rfl, rfl, rfl, fun _ => rfl, fun _ => rfl⟩

theorem noneAlone_twoWitnesses : tellingProtocol.NoneAlone twoWitnesses :=
  noneAlone_of_keepsSchedule (keepsSchedule_withHash _) (by decide) (by decide)

/-- A block on top of the genesis. -/
def firstBlock (witness : AccountName) (timestamp : Nat) : SignedBlock where
  previous := {}
  timestamp := timestamp
  witness := witness

def roomy : Memory where
  resize := .ok false
  checkFreeMemory := .ok ()

def startNode : Node Unit :=
  { db := ⟨twoWitnesses, 0, []⟩ }

def pushedNode : Node Unit :=
  startNode.step tellingProtocol (.pushBlock roomy (firstBlock "bob" 3))

/-- It names the block. -/
def laterTransaction : SignedTransaction where
  refBlockNum := 1
  refBlockPrefix := (tellingProtocol.blockId (firstBlock "bob" 3)).hash % 2 ^ 32
  expiration := 60
  operations := {}

def pendingNode : Node Unit :=
  pushedNode.step tellingProtocol (.pushTransaction laterTransaction)

theorem reachable_startNode : (system tellingProtocol twoWitnesses).Reachable startNode :=
  .initial rfl

theorem reachable_pushedNode : (system tellingProtocol twoWitnesses).Reachable pushedNode :=
  .step reachable_startNode trivial rfl

theorem reachable_pendingNode : (system tellingProtocol twoWitnesses).Reachable pendingNode :=
  .step reachable_pushedNode trivial rfl

theorem replayed_pendingNode :
    pendingNode.chainState.history.reverse.foldlM (tellingProtocol.applyBlock' {}) twoWitnesses
        = .ok pendingNode.chainState ∧
      ∃ trxs, trxs.Sublist pendingNode.pendingTx ∧
        tellingProtocol.applyTransactions {} pendingNode.chainState trxs
          = .ok pendingNode.db.value :=
  replayed_of_reachable genesis_twoWitnesses noneAlone_twoWitnesses reachable_pendingNode

def nextBlock (p : Protocol Unit) (b : SignedBlock) (witness : AccountName) (timestamp : Nat) :
    SignedBlock where
  previous := p.blockId b
  timestamp := timestamp
  witness := witness

def pushAll (p : Protocol Unit) (blocks : List SignedBlock) (n : Node Unit) : Node Unit :=
  blocks.foldl (fun n b => n.step p (.pushBlock roomy b)) n

theorem reachable_pushAll {p : Protocol Unit} {S : TransitionSystem (Node Unit) Event}
    (hstep : S.step = (system p twoWitnesses).step) (blocks : List SignedBlock) {n : Node Unit}
    (h : S.Reachable n) : S.Reachable (pushAll p blocks n) := by
  induction blocks generalizing n with
  | nil => exact h
  | cons b blocks ih =>
    refine ih (.step (e := .pushBlock roomy b) h trivial ?_)
    rw [hstep]
    rfl

/-- The second block of the longer fork. -/
def forkBlock : SignedBlock :=
  nextBlock tellingProtocol (firstBlock "bob" 3) "bob" 9

/-- A short fork and a longer one, on top of the first block. -/
def shortFork : List SignedBlock :=
  [nextBlock tellingProtocol (firstBlock "bob" 3) "alice" 6]

def longFork : List SignedBlock :=
  [forkBlock, nextBlock tellingProtocol forkBlock "alice" 12]

/-- A node that switches to the longer fork agrees with one that was pushed it first. -/
theorem agree_switchedNode :
    (pushAll tellingProtocol (shortFork ++ longFork) pushedNode).chainState =
      (pushAll tellingProtocol (longFork ++ shortFork) pushedNode).chainState :=
  agree_of_reachable blockIdsTell_tellingProtocol genesis_twoWitnesses noneAlone_twoWitnesses
    (reachable_pushAll rfl _ reachable_pushedNode) (reachable_pushAll rfl _ reachable_pushedNode)
    (by decide +kernel)

/-- The witnesses make a block in turn. -/
def blockInTurn : Nat → SignedBlock
  | 0 => firstBlock "bob" 3
  | k + 1 =>
    nextBlock Replay.plainProtocol (blockInTurn k) (if k % 2 = 0 then "alice" else "bob") (3 * (k + 2))

def grownNode : Node Unit :=
  pushAll Replay.plainProtocol ((List.range 22).map blockInTurn) startNode

/-- A fork that leaves out its last block. -/
def lateFork : List SignedBlock :=
  let b := nextBlock Replay.plainProtocol (blockInTurn 20) "bob" 69
  [b, nextBlock Replay.plainProtocol b "alice" 72]

/-- The first of 22 blocks is irreversible, and stays when the last one is replaced. -/
theorem irreversible_grownNode : grownNode.db.value.lastIrreversibleBlockNum = 1 ∧
    (pushAll Replay.plainProtocol lateFork grownNode).db.value.lastIrreversibleBlockNum = 2 ∧
    ¬grownNode.db.value.history.reverse <+:
      (pushAll Replay.plainProtocol lateFork grownNode).db.value.history.reverse ∧
    grownNode.db.value.history.reverse.take 1 <+:
      (pushAll Replay.plainProtocol lateFork grownNode).db.value.history.reverse := by
  have hgrown : (system Replay.plainProtocol twoWitnesses).Reachable grownNode :=
    reachable_pushAll rfl _ (.initial rfl)
  have hlib : grownNode.db.value.lastIrreversibleBlockNum = 1 := by decide +kernel
  have hnone : Replay.plainProtocol.NoneAlone twoWitnesses :=
    noneAlone_of_keepsSchedule (keepsSchedule_withHash Replay.plainProtocol.blockHash) (by decide)
      (by decide)
  have hlater : ((system Replay.plainProtocol twoWitnesses).startedIn grownNode).Reachable
      (pushAll Replay.plainProtocol lateFork grownNode) :=
    reachable_pushAll (S := (system Replay.plainProtocol twoWitnesses).startedIn grownNode)
      (p := Replay.plainProtocol) (n := grownNode) rfl lateFork (.initial rfl)
  have hprefix := irreversible_of_reachable genesis_twoWitnesses hnone hgrown hlater
  rw [hlib] at hprefix
  exact ⟨hlib, by decide +kernel, by decide +kernel, hprefix⟩

theorem merkleValid_firstBlock (witness : AccountName) (timestamp : Nat) :
    tellingProtocol.MerkleValid (firstBlock witness timestamp) :=
  .inl rfl

theorem reach_pendingNode :
    (system tellingProtocol twoWitnesses).Reach (Pushes tellingProtocol.MerkleValid) pendingNode := by
  have hpushed : (system tellingProtocol twoWitnesses).Reach (Pushes tellingProtocol.MerkleValid)
      pushedNode :=
    .step (e := .pushBlock roomy (firstBlock "bob" 3)) (.initial rfl) (merkleValid_firstBlock _ _) rfl
  exact .step (e := .pushTransaction laterTransaction) hpushed trivial rfl

theorem keepsTransactions_pendingNode :
    KeepsTransactions tellingProtocol pendingNode
      (pendingNode.pushBlock tellingProtocol roomy {} (firstBlock "alice" 6)).2 :=
  keepsTransactions_pushBlock blockIdsTell_tellingProtocol Replay.idsTell_plainProtocol
    genesis_twoWitnesses rfl noneAlone_twoWitnesses reach_pendingNode (merkleValid_firstBlock _ _)

end twoWitnesses

end Node

end Golos
