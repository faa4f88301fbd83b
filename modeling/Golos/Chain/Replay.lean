import Mathlib.Data.Nat.Pairing
import Golos.Chain.Lemmas.History
import Golos.Lib.ReplayGuard
import Golos.Chain.Impl.Node
import Golos.Lib.Transition

/-!
This module contains what keeps the transactions of a chain apart: no run in which blocks are applied
and undone applies a transaction twice in its chain, and each names a block of that chain below its own.
-/

namespace Golos

open Checked

variable {σ : Type} {p : Protocol σ} {skip : Skip}

section transactions

variable {s t u : ChainState σ} {b : SignedBlock}

namespace ChainState

/-- The transactions of the current chain. -/
def chainTransactions (s : ChainState σ) : List SignedTransaction :=
  s.history.flatMap SignedBlock.transactions

/-- What the index of transactions knows: the expirations by the ids. -/
def known (s : ChainState σ) (id : Nat) : Option Nat :=
  (s.transactions.find? id).map TransactionObject.expiration

theorem OnlyWitnesses.transactions (h : OnlyWitnesses s t) : t.transactions = s.transactions := by
  obtain ⟨_, rfl⟩ := h
  rfl

end ChainState

theorem checks_of_validateTransaction' {trx : SignedTransaction} {x : Unit}
    (h : p.validateTransaction' {} s trx = .ok x) (hhead : 0 < s.headBlockNumber) :
    trx.refBlockPrefix = (s.blockSummary trx.refBlockNum).hash % 2 ^ 32 ∧
      s.time < trx.expiration := by
  simp only [Protocol.validateTransaction', Bool.or_self, Bool.not_false, if_true, gt_iff_lt,
    if_pos hhead, bind_eq_ok, ensure_eq_ok] at h
  obtain ⟨-, -, -, -, -, hnamed, -, -, hlive⟩ := h
  exact ⟨hnamed, hlive⟩

/-- What the checks of a transaction let through, and what it leaves in the index. -/
structure Admitted (p : Protocol σ) (s : ChainState σ) (trx : SignedTransaction) (t : ChainState σ) :
    Prop where
  core : t.core = s.core
  fresh : s.known (p.transactionId trx) = none
  live : 0 < s.headBlockNumber → s.time < trx.expiration
  named : 0 < s.headBlockNumber →
    trx.refBlockPrefix = (s.blockSummary trx.refBlockNum).hash % 2 ^ 32
  new : t.known (p.transactionId trx) = some trx.expiration
  kept : ∀ id e, s.known id = some e → t.known id = some e

theorem admitted_of_applyTransaction' {trx : SignedTransaction}
    (h : p.applyTransaction' {} s trx = .ok t) : Admitted p s trx t := by
  have hcore := core_of_applyTransaction' h
  unfold Protocol.applyTransaction' Protocol.createTransactionObject at h
  simp only [bind_eq_ok, pure_eq_ok, ensure_eq_ok, Bool.false_eq_true, if_false, false_or,
    get_eq_ok] at h
  obtain ⟨_, hfresh, _, hvalid, s', ⟨transactions, hinsert, rfl⟩, shared, -, rfl⟩ := h
  have hinserts := Table.Inserts.emplace hinsert
  constructor
  . exact hcore
  . unfold ChainState.known
    rw [hfresh]
    rfl
  . intro hhead
    exact (checks_of_validateTransaction' hvalid hhead).2
  . intro hhead
    exact (checks_of_validateTransaction' hvalid hhead).1
  . unfold ChainState.known
    dsimp only
    rw [hinserts.find?_eq_some_iff.mpr (.inr ⟨rfl, rfl⟩), Option.map_some]
  . intro id e hknown
    unfold ChainState.known at hknown ⊢
    obtain ⟨o, ho, rfl⟩ := Option.map_eq_some_iff.mp hknown
    dsimp only
    rw [hinserts.find?_eq_some_iff.mpr (.inl ho), Option.map_some]

end transactions

section blocks

variable {s t u : ChainState σ} {b : SignedBlock} {trxs accepted : List SignedTransaction}

/-- The time up to which the index of transactions has forgotten what expired. -/
def ChainState.forgotten (s : ChainState σ) : Nat :=
  if s.headBlockNumber = 0 then 0 else s.time

theorem forgotten_of_core (h : t.core = s.core) : t.forgotten = s.forgotten := by
  have hnum : t.headBlockNumber = s.headBlockNumber :=
    congrArg ChainState.Core.headBlockNumber h
  have htime : t.time = s.time := congrArg ChainState.Core.time h
  unfold ChainState.forgotten
  rw [hnum, htime]

/-- Two transactions of the same id expire at the same time, as the id is a hash of the content. -/
def Protocol.IdsTell (p : Protocol σ) : Prop :=
  ∀ trx trx', p.transactionId trx = p.transactionId trx' → trx.expiration = trx'.expiration

/-- The transactions have different ids, and the index knows all that have not expired. -/
def Protocol.Guards (p : Protocol σ) (s : ChainState σ) (accepted : List SignedTransaction) : Prop :=
  ReplayGuard.Guarded p.transactionId SignedTransaction.expiration accepted s.known s.forgotten

theorem Admitted.forgotten_le {trx : SignedTransaction} (h : Admitted p s trx t) :
    s.forgotten ≤ trx.expiration := by
  unfold ChainState.forgotten
  split
  . exact Nat.zero_le _
  . next hhead => exact Nat.le_of_lt (h.live (Nat.pos_of_ne_zero hhead))

theorem guards_of_admitted {trx : SignedTransaction} (hid : p.IdsTell) (h : Admitted p s trx t)
    (hguards : p.Guards s accepted) : p.Guards t (trx :: accepted) := by
  unfold Protocol.Guards at hguards ⊢
  rw [forgotten_of_core h.core]
  exact hguards.accept hid h.fresh h.forgotten_le h.new h.kept

theorem guards_of_applyTransactions (hid : p.IdsTell) (hguards : p.Guards s accepted)
    (h : p.applyTransactions {} s trxs = .ok t) : p.Guards t (trxs ++ accepted) := by
  induction trxs generalizing s accepted with
  | nil =>
    simp only [Protocol.applyTransactions, pure_eq_ok] at h
    rw [← h]
    exact hguards
  | cons trx trxs ih =>
    simp only [Protocol.applyTransactions, bind_eq_ok] at h
    obtain ⟨s', hs', h⟩ := h
    have hrest := ih (guards_of_admitted hid (admitted_of_applyTransaction' hs') hguards) h
    exact ReplayGuard.Guarded.perm hrest List.perm_middle

theorem named_of_applyTransactions (h : p.applyTransactions {} s trxs = .ok t)
    (hhead : 0 < s.headBlockNumber) {trx : SignedTransaction} (htrx : trx ∈ trxs) :
    trx.refBlockPrefix = (s.blockSummary trx.refBlockNum).hash % 2 ^ 32 := by
  induction trxs generalizing s with
  | nil => cases htrx
  | cons trx' trxs ih =>
    simp only [Protocol.applyTransactions, bind_eq_ok] at h
    obtain ⟨s', hs', h⟩ := h
    have hadmitted := admitted_of_applyTransaction' hs'
    rcases List.mem_cons.mp htrx with rfl | htrx
    . exact hadmitted.named hhead
    . have hnum : s'.headBlockNumber = s.headBlockNumber :=
        congrArg ChainState.Core.headBlockNumber hadmitted.core
      have hsummary : s'.blockSummary = s.blockSummary :=
        congrArg ChainState.Core.blockSummary hadmitted.core
      rw [← hsummary]
      exact ih h (by rwa [hnum]) htrx

/-- What the transactions of a block have done by the time the index forgets what has expired. -/
structure Includes (p : Protocol σ) (s : ChainState σ) (b : SignedBlock) (u : ChainState σ) :
    Prop where
  time_lt : s.time < b.timestamp
  time : u.time = b.timestamp
  guards : p.IdsTell → ∀ accepted, p.Guards s accepted →
    ReplayGuard.Guarded p.transactionId SignedTransaction.expiration (b.transactions ++ accepted)
      u.known s.forgotten
  named : 0 < s.headBlockNumber → ∀ trx ∈ b.transactions,
    trx.refBlockPrefix = (s.blockSummary trx.refBlockNum).hash % 2 ^ 32

theorem includes_of_applyUntilIrreversible (h : p.applyUntilIrreversible {} s b = .ok u) :
    Includes p s b u := by
  unfold Protocol.applyUntilIrreversible Protocol.updateGlobalDynamicData at h
  simp only [bind_eq_ok, ensure_eq_ok, pure_eq_ok] at h
  obtain ⟨s₁, hcontents, _, ⟨s₂, hmissed, _, -, rfl⟩, hupdate⟩ := h
  have htime := (core_of_applyContents hcontents).2.1
  unfold Protocol.applyContents at hcontents
  simp only [bind_eq_ok, ensure_eq_ok] at hcontents
  obtain ⟨_, -, _, -, s₀, hextensions, _, -, _, -, htrxs⟩ := hcontents
  have hcore₀ := (onlyWitnesses_of_processHeaderExtensions hextensions).core
  have hcore : s₀.core = s.core := hcore₀
  have hknown₀ : s₀.known = s.known := by
    unfold ChainState.known
    rw [(onlyWitnesses_of_processHeaderExtensions hextensions).transactions]
  have hupdated := (ChainState.advances_of_updateLastIrreversibleBlockNum hupdate).1
  have hknown : u.known = s₁.known := by
    rw [hupdated]
    funext id
    show (s₂.transactions.find? id).map TransactionObject.expiration = s₁.known id
    rw [(ChainState.onlyWitnesses_of_missSlots hmissed).transactions]
    rfl
  constructor
  . exact htime
  . rw [hupdated]
    rfl
  . intro hid accepted hguards
    have hguards₀ : p.Guards s₀ accepted := by
      unfold Protocol.Guards at hguards ⊢
      rw [hknown₀, forgotten_of_core hcore]
      exact hguards
    have hguards₁ := guards_of_applyTransactions hid hguards₀ htrxs
    unfold Protocol.Guards at hguards₁
    rw [hknown, ← forgotten_of_core hcore, ← forgotten_of_core (core_of_applyTransactions htrxs)]
    exact hguards₁
  . intro hhead trx htrx
    have hnum : s₀.headBlockNumber = s.headBlockNumber :=
      congrArg ChainState.Core.headBlockNumber hcore
    have hsummary : s₀.blockSummary = s.blockSummary :=
      congrArg ChainState.Core.blockSummary hcore
    rw [← hsummary]
    exact named_of_applyTransactions htrxs (by rwa [hnum]) htrx

/-- What remains in the index after a block has been applied. -/
theorem known_of_applyAfterIrreversible (h : p.applyAfterIrreversible u b = .ok t) {id e : Nat}
    (hknown : u.known id = some e) (hlive : u.time ≤ e) : t.known id = some e := by
  have htransactions : t.transactions = u.clearExpiredTransactions.transactions := by
    unfold Protocol.applyAfterIrreversible at h
    dsimp only at h
    split at h
    . cases h
    . injection h with h
      rw [← h]
      rfl
  unfold ChainState.known at hknown ⊢
  obtain ⟨o, ho, rfl⟩ := Option.map_eq_some_iff.mp hknown
  obtain ⟨hin, hkey⟩ := Table.find?_eq_some_iff.mp ho
  have hkept : t.transactions.find? id = some o := by
    rw [htransactions, Table.find?_eq_some_iff]
    refine ⟨?_, hkey⟩
    unfold ChainState.clearExpiredTransactions
    rw [Table.mem_filter]
    refine ⟨hin, ?_⟩
    simp only [Bool.not_eq_true', decide_eq_false_iff_not]
    omega
  rw [hkept, Option.map_some]

end blocks

section chain

variable {s t : ChainState σ} {b : SignedBlock}

/--
The transaction names a block among `bs`, at most 65535 blocks below the newest, by its number and the
second word of its id.
-/
def Protocol.NamesRecent (p : Protocol σ) (bs : List SignedBlock) (trx : SignedTransaction) : Prop :=
  ∃ b ∈ bs, b.blockNum % 2 ^ 16 = trx.refBlockNum ∧ bs.length ≤ b.blockNum + 65535 ∧
    trx.refBlockPrefix = (p.blockId b).hash % 2 ^ 32

/-- Every entry of a ring that has gone round once is of a recent block. -/
theorem ChainInv.exists_recent (h : ChainInv p skip s) (hround : 2 ^ 16 ≤ s.history.length)
    {ref : Nat} (href : ref < 2 ^ 16) :
    ∃ b ∈ s.history, b.blockNum % 2 ^ 16 = ref ∧ s.history.length ≤ b.blockNum + 65535 ∧
      s.blockSummary ref = p.blockId b := by
  -- the latest block number that is `ref` modulo the size of the ring
  have hrest := Nat.mod_lt (s.history.length - ref) (show 0 < 2 ^ 16 by decide)
  generalize hi : s.history.length - (s.history.length - ref) % 2 ^ 16 - 1 = i
  have hlt : i < s.history.reverse.length := by
    rw [List.length_reverse]
    omega
  have hb := List.getElem?_eq_getElem hlt
  have hnum := h.linked.blockNum_of_getElem? hb
  have hsummary := h.blockSummary i _ hb (by rw [h.headBlockNumber]; omega)
  refine ⟨_, List.mem_reverse.mp (List.getElem_mem hlt), ?_, ?_, ?_⟩
  . rw [hnum]
    omega
  . rw [hnum]
    omega
  . rw [← hsummary]
    congr 1
    omega

theorem ChainInv.of_core (h : ChainInv p skip s) (hcore : t.core = s.core) : ChainInv p skip t := by
  have hhead : t.headBlockNumber = s.headBlockNumber :=
    congrArg ChainState.Core.headBlockNumber hcore
  have hid : t.headBlockId = s.headBlockId := congrArg ChainState.Core.headBlockId hcore
  have hlib : t.lastIrreversibleBlockNum = s.lastIrreversibleBlockNum :=
    congrArg ChainState.Core.lastIrreversibleBlockNum hcore
  have hsummary : t.blockSummary = s.blockSummary :=
    congrArg ChainState.Core.blockSummary hcore
  have hconfirmed : t.lastConfirmedBlockNum = s.lastConfirmedBlockNum :=
    congrArg ChainState.Core.lastConfirmedBlockNum hcore
  have hhistory : t.history = s.history := congrArg ChainState.Core.history hcore
  constructor
  . exact hhistory ▸ h.linked
  . rw [hhead, hhistory]
    exact h.headBlockNumber
  . rw [hid, hhistory]
    exact h.headBlockId
  . rw [hhead, hlib]
    exact h.irreversible_le
  . rw [hhead, hlib]
    exact h.early
  . rw [hhead, hconfirmed]
    exact h.lastConfirmed_le
  . rw [hhead, hlib]
    exact h.undoHistory
  . rw [hhead, hsummary]
    exact h.blockSummary_num_le
  . rw [hhead, hsummary, hhistory]
    exact h.blockSummary

/-- What the state of the chain tells of its transactions. -/
structure ReplayInv (p : Protocol σ) (s : ChainState σ) : Prop where
  chain : ChainInv p {} s
  guards : p.Guards s s.chainTransactions
  named : ∀ b bs, b :: bs <:+ s.history → 2 ^ 16 ≤ bs.length → ∀ trx ∈ b.transactions,
    trx.refBlockNum < 2 ^ 16 → p.NamesRecent bs trx

namespace ReplayInv

theorem of_core (h : ReplayInv p s) (hcore : t.core = s.core)
    (hknown : ∀ id e, s.known id = some e → t.known id = some e) : ReplayInv p t := by
  have hhistory : t.history = s.history := congrArg ChainState.Core.history hcore
  constructor
  . exact h.chain.of_core hcore
  . unfold Protocol.Guards ChainState.chainTransactions
    rw [hhistory, forgotten_of_core hcore]
    apply h.guards.prune (Nat.le_refl _)
    intro trx _ hin _
    exact hknown _ _ hin
  . rw [hhistory]
    exact h.named

theorem applyTransaction' (h : ReplayInv p s) {trx : SignedTransaction}
    (hok : p.applyTransaction' {} s trx = .ok t) : ReplayInv p t := by
  have hadmitted := admitted_of_applyTransaction' hok
  exact h.of_core hadmitted.core hadmitted.kept

theorem namesRecent (h : ReplayInv p s) (hround : 2 ^ 16 ≤ s.history.length)
    {trx : SignedTransaction} (href : trx.refBlockNum < 2 ^ 16)
    (hnamed : trx.refBlockPrefix = (s.blockSummary trx.refBlockNum).hash % 2 ^ 32) :
    p.NamesRecent s.history trx := by
  obtain ⟨b, hb, hnum, hrecent, hsummary⟩ := h.chain.exists_recent hround href
  rw [hsummary] at hnamed
  exact ⟨b, hb, hnum, hrecent, hnamed⟩

theorem applyBlock' (hid : p.IdsTell) (h : ReplayInv p s) (hok : p.applyBlock' {} s b = .ok t) :
    ReplayInv p t := by
  have hchain := h.chain.applyBlock' hok
  obtain ⟨u, hu, hafter⟩ := applyBlock'_eq_ok_iff.mp hok
  have hextends := extends_of_applyUntilIrreversible hu
  have hincludes := includes_of_applyUntilIrreversible hu
  have hcore := core_of_applyAfterIrreversible_ok hafter
  have hhistory : t.history = b :: s.history :=
    (congrArg ChainState.Core.history hcore).trans hextends.history
  have htime : t.time = b.timestamp :=
    (congrArg ChainState.Core.time hcore).trans hincludes.time
  have hnum := h.chain.headBlockNumber
  have hforgotten : t.forgotten = b.timestamp := by
    unfold ChainState.forgotten
    rw [if_neg, htime]
    rw [hchain.headBlockNumber, hhistory, List.length_cons]
    exact Nat.succ_ne_zero _
  constructor
  . exact hchain
  . unfold Protocol.Guards ChainState.chainTransactions
    rw [hhistory, List.flatMap_cons]
    apply (hincludes.guards hid _ h.guards).prune
    . have htime_lt := hincludes.time_lt
      rw [hforgotten]
      unfold ChainState.forgotten
      split <;> omega
    . intro trx _ hknown hlive
      apply known_of_applyAfterIrreversible hafter hknown
      rw [hincludes.time, ← hforgotten]
      exact hlive
  . rw [hhistory]
    intro b' bs hsuffix hround trx htrx href
    rcases List.suffix_cons_iff.mp hsuffix with heq | hsuffix
    . cases heq
      apply h.namesRecent hround href
      apply hincludes.named _ trx htrx
      omega
    . exact h.named b' bs hsuffix hround trx htrx href

end ReplayInv

end chain

end Golos

namespace Golos

open Checked

variable {σ : Type} {p : Protocol σ}

namespace Replay

inductive Event where
  /-- The session of a block, or of pending transactions. -/
  | startSession
  | applyBlock (b : SignedBlock)
  /-- A block that fails, whatever it has done to the state. -/
  | failBlock (b : SignedBlock)
  | applyTransaction (trx : SignedTransaction)
  | undo
  | squash
  | commit (revision : Nat)

def Step (p : Protocol σ) (db : UndoStack (ChainState σ)) : Event → UndoStack (ChainState σ) → Prop
  | .startSession, db' => db' = db.start
  | .applyBlock b, db' => ∃ t, p.applyBlock' {} db.value b = .ok t ∧ db' = db.set t
  | .failBlock b, db' =>
    ∃ e t, p.applyBlock' {} db.value b = .error e ∧ db' = (db.start.set t).undo
  | .applyTransaction trx, db' => ∃ t, p.applyTransaction' {} db.value trx = .ok t ∧ db' = db.set t
  | .undo, db' => db' = db.undo
  | .squash, db' => db' = db.squash
  | .commit revision, db' => db' = db.commit revision

/-- The state before the first block. -/
structure Genesis (s : ChainState σ) : Prop where
  history : s.history = []
  headBlockNumber : s.headBlockNumber = 0
  headBlockId : s.headBlockId = {}
  lastIrreversibleBlockNum : s.lastIrreversibleBlockNum = 0
  blockSummary : ∀ i, s.blockSummary i = {}
  lastConfirmedBlockNum : ∀ name, s.lastConfirmedBlockNum name = 0

/-- Blocks and transactions are applied without skip flags, in sessions that are undone, squashed and
committed in any order. -/
def sessions (p : Protocol σ) : TransitionSystem (UndoStack (ChainState σ)) Event where
  initial db := Genesis db.value ∧ db.saved = []
  step := Step p

variable {db db' : UndoStack (ChainState σ)} {s : ChainState σ} {e : Event}

section invariant

theorem replayInv_genesis (h : Genesis s) : ReplayInv p s := by
  constructor
  . constructor
    . rw [h.history]
      trivial
    . rw [h.history, h.headBlockNumber]
      rfl
    . rw [h.history]
      exact h.headBlockId
    . rw [h.lastIrreversibleBlockNum]
      exact Nat.zero_le _
    . rw [h.lastIrreversibleBlockNum]
      exact fun _ => Nat.zero_le _
    . intro name
      rw [h.lastConfirmedBlockNum]
      exact Nat.zero_le _
    . rw [h.headBlockNumber, h.lastIrreversibleBlockNum]
      intro _
      decide
    . intro i
      rw [h.blockSummary]
      exact Nat.zero_le _
    . rw [h.history]
      intro i b hb
      cases hb
  . unfold ChainState.chainTransactions
    rw [h.history]
    exact .nil
  . rw [h.history]
    intro b bs hsuffix
    cases List.suffix_nil.mp hsuffix

theorem all_of_step (hid : p.IdsTell) (h : db.All (ReplayInv p)) (hstep : Step p db e db') :
    db'.All (ReplayInv p) := by
  cases e with
  | startSession => exact hstep ▸ h.start
  | applyBlock b =>
    obtain ⟨t, hok, rfl⟩ := hstep
    exact h.set (h.value.applyBlock' hid hok)
  | failBlock b =>
    obtain ⟨_, t, -, rfl⟩ := hstep
    rw [UndoStack.undo_set_start]
    exact h
  | applyTransaction trx =>
    obtain ⟨t, hok, rfl⟩ := hstep
    exact h.set (h.value.applyTransaction' hok)
  | undo => exact hstep ▸ h.undo
  | squash => exact hstep ▸ h.squash
  | commit revision => exact hstep ▸ h.commit revision

theorem all_of_reachable (hid : p.IdsTell) (h : (sessions p).Reachable db) :
    db.All (ReplayInv p) := by
  apply TransitionSystem.Reach.invariant _ _ h
  . intro db hdb
    refine ⟨replayInv_genesis hdb.1, ?_⟩
    rw [hdb.2]
    intro session hsession
    cases hsession
  . intro db e db' hall _ hstep
    exact all_of_step hid hall hstep

/-- The transactions of the chain cannot be applied again, and stay on their branch. -/
structure ReplayProtected (p : Protocol σ) (s : ChainState σ) : Prop where
  distinct : (s.chainTransactions.map p.transactionId).Nodup
  known : ∀ trx ∈ s.chainTransactions,
    s.transactions.find? (p.transactionId trx) =
        some ⟨p.transactionId trx, trx.expiration⟩ ∨
      ∀ now, s.time ≤ now → ¬now < trx.expiration
  named : ∀ b bs, b :: bs <:+ s.history → 2 ^ 16 ≤ bs.length → ∀ trx ∈ b.transactions,
    trx.refBlockNum < 2 ^ 16 → p.NamesRecent bs trx
  pending : ∀ trx t, p.applyTransaction' {} s trx = .ok t → 2 ^ 16 ≤ s.history.length →
    trx.refBlockNum < 2 ^ 16 → p.NamesRecent s.history trx

theorem replayProtected_of_replayInv (h : ReplayInv p s) : ReplayProtected p s := by
  constructor
  . exact h.guards.distinct
  . intro trx htrx
    rcases h.guards.known trx htrx with hknown | hexpired
    . left
      obtain ⟨o, ho, hexpiration⟩ := Option.map_eq_some_iff.mp hknown
      rw [ho, ← hexpiration]
      have hkey : o.trxId = p.transactionId trx := Table.key_of_find? ho
      rw [← hkey]
    . right
      intro now hnow hlive
      unfold ChainState.forgotten at hexpired
      split at hexpired <;> omega
  . exact h.named
  . intro trx t hok hround href
    apply h.namesRecent hround href
    apply (admitted_of_applyTransaction' hok).named
    rw [h.chain.headBlockNumber]
    omega

/-- In every run, and in every state that undoing can bring back. -/
theorem replayProtected_of_reachable (hid : p.IdsTell) (h : (sessions p).Reachable db) :
    db.All (ReplayProtected p) := by
  have hall := all_of_reachable hid h
  constructor
  . exact replayProtected_of_replayInv hall.value
  . intro session hsession
    exact replayProtected_of_replayInv (hall.saved session hsession)

end invariant

section node

variable {n n' : Node σ} {b : SignedBlock}

/-- The state of the node and its sessions come from such a run. -/
def Runs (p : Protocol σ) (n : Node σ) : Prop :=
  (sessions p).Reachable n.db

theorem reachable_step (h : (sessions p).Reachable db) (hstep : Step p db e db') :
    (sessions p).Reachable db' :=
  .step h trivial hstep

theorem runs_resetPendingSession (h : Runs p n) : Runs p n.resetPendingSession := by
  unfold Node.resetPendingSession
  split
  . exact reachable_step (e := .undo) h rfl
  . exact h

theorem runs_clearPending (h : Runs p n) : Runs p n.clearPending := by
  apply runs_resetPendingSession
  exact h

theorem runs_popBlock {r : Result Unit} (h : Runs p n) (hpop : n.popBlock p = (r, n')) :
    Runs p n' := by
  have hreset := runs_resetPendingSession h
  unfold Node.popBlock at hpop
  dsimp only at hpop
  split at hpop
  . cases hpop
    exact hreset
  . split at hpop
    . cases hpop
      exact hreset
    . cases hpop
      exact reachable_step (e := .undo) hreset rfl

theorem runs_popUntil {id : BlockId} {fuel : Nat} {r : Result Unit} (h : Runs p n)
    (hpop : n.popUntil p id fuel = (r, n')) : Runs p n' := by
  induction fuel generalizing n with
  | zero =>
    cases hpop
    exact h
  | succ fuel ih =>
    unfold Node.popUntil at hpop
    split at hpop
    . cases hpop
      exact h
    . split at hpop
      . next hfirst =>
        cases hpop
        exact runs_popBlock h hfirst
      . next hfirst => exact ih (runs_popBlock h hfirst) hpop

theorem db_of_writeBlockLog {r : Result Unit} (h : Node.writeBlockLog {} n = (r, n')) :
    n'.db = n.db := by
  unfold Node.writeBlockLog at h
  rw [if_neg Bool.false_ne_true] at h
  dsimp only at h
  injection h with _ h
  rw [← h]

/-- A block that is applied in its session. -/
theorem runs_inSession (h : Runs p n)
    (hok : Node.inSession (Node.applyBlock p {} b) n = (.ok (), n')) : Runs p n' := by
  unfold Node.inSession at hok
  split at hok
  . next n₁ happly =>
    cases hok
    unfold Node.applyBlock at happly
    split at happly
    . cases happly
    . next s hs =>
      split at happly
      . cases happly
      . next n₂ hwrite =>
        dsimp only at happly
        split at happly
        . cases happly
        . next t ht =>
          cases happly
          unfold Runs
          dsimp only
          rw [db_of_writeBlockLog hwrite]
          have hstart := reachable_step (e := .startSession) h rfl
          have hcommit := reachable_step (e := .commit s.lastIrreversibleBlockNum) hstart rfl
          apply reachable_step (e := .applyBlock b) hcommit
          exact ⟨t, applyBlock'_eq_ok_iff.mpr ⟨s, hs, ht⟩, rfl⟩
  . cases hok

/-- A block that fails is undone, unless it has made itself irreversible. -/
theorem runs_inSession_error {exception : ChainException} (h : Runs p n)
    (hlib : ∀ u, p.applyUntilIrreversible {} n.db.value b = .ok u →
      u.lastIrreversibleBlockNum ≤ n.db.revision)
    (herror : Node.inSession (Node.applyBlock p {} b) n = (.error exception, n')) : Runs p n' := by
  have hcommitted : ∀ u v, p.applyUntilIrreversible {} n.db.value b = .ok u →
      (sessions p).Reachable ((n.db.start.set v).commit u.lastIrreversibleBlockNum).undo := by
    intro u v hu
    rw [UndoStack.undo_commit_start (hlib u hu)]
    exact reachable_step (e := .commit u.lastIrreversibleBlockNum) h rfl
  unfold Node.inSession at herror
  split at herror
  . cases herror
  . next n₁ happly =>
    cases herror
    unfold Node.applyBlock at happly
    split at happly
    . cases happly
      unfold Runs
      exact (UndoStack.undo_set_start n.db n.db.value).symm ▸ h
    . next s hs =>
      split at happly
      . next hwrite =>
        cases happly
        unfold Runs
        dsimp only
        rw [db_of_writeBlockLog hwrite]
        exact hcommitted s s hs
      . next n₂ hwrite =>
        dsimp only at happly
        split at happly
        . next t _ =>
          cases happly
          unfold Runs
          dsimp only
          rw [db_of_writeBlockLog hwrite]
          exact hcommitted s t hs
        . cases happly

theorem runs_extendChain {r : Result Bool} (h : Runs p n)
    (hlib : ∀ u, p.applyUntilIrreversible {} n.db.value b = .ok u →
      u.lastIrreversibleBlockNum ≤ n.db.revision)
    (hextend : n.extendChain p {} b = (r, n')) : Runs p n' := by
  unfold Node.extendChain at hextend
  split at hextend
  . next hsession =>
    have hruns := runs_inSession_error h hlib hsession
    cases hextend
    exact hruns
  . next hsession =>
    cases hextend
    exact runs_inSession h hsession

theorem runs_applyBranch {items : List ForkItem} (h : Runs p n)
    (hok : n.applyBranch p {} items = (none, n')) : Runs p n' := by
  induction items generalizing n with
  | nil =>
    cases hok
    exact h
  | cons item items ih =>
    unfold Node.applyBranch at hok
    split at hok
    . cases hok
    . next hfirst => exact ih (runs_inSession h hfirst) hok

/-- Whether or not the old branch can be restored, the exception goes on. -/
theorem restoreBranch_ne_ok {exception : ChainException} {rest second : List ForkItem} {r : Bool} :
    n.restoreBranch p {} exception rest second ≠ (.ok r, n') := by
  unfold Node.restoreBranch
  dsimp only
  split
  . exact fun h => by cases h
  . split
    . exact fun h => by cases h
    . exact fun h => by cases h

theorem runs_switchBranch {first second : List ForkItem} {r : Bool} (h : Runs p n)
    (hok : n.switchBranch p {} first second = (.ok r, n')) : Runs p n' := by
  unfold Node.switchBranch at hok
  split at hok
  . cases hok
  . next hpop =>
    split at hok
    . next happly =>
      cases hok
      exact runs_applyBranch (runs_popUntil h hpop) happly
    . exact absurd hok restoreBranch_ne_ok

theorem runs_switchForks {newHead : ForkItem} {r : Bool} (h : Runs p n)
    (hok : n.switchForks p {} newHead = (.ok r, n')) : Runs p n' := by
  unfold Node.switchForks at hok
  split at hok
  . cases hok
  . next first second _ =>
    unfold Node.holding at hok
    split at hok
    next r' n₁ hswitch =>
    injection hok with hr hok
    subst hr hok
    have hruns : Runs p n₁ :=
      runs_switchBranch
        (n := { n with forkDb := { n.forkDb with held := newHead :: first ++ second } }) h hswitch
    exact hruns

/-- A block that is pushed, whether it extends the chain or makes the node switch forks. -/
theorem runs_pushBlock' {r : Bool} (h : Runs p n) (hok : n.pushBlock' p {} b = (.ok r, n')) :
    Runs p n' := by
  unfold Node.pushBlock' at hok
  rw [if_neg Bool.false_ne_true] at hok
  split at hok
  . cases hok
  . next newHead forkDb _ =>
    dsimp only at hok
    split at hok
    . split at hok
      . exact runs_switchForks (n := { n with forkDb := forkDb }) h hok
      . cases hok
        exact h
    . unfold Node.extendChain at hok
      split at hok
      . cases hok
      . next hsession =>
        cases hok
        exact runs_inSession (n := { n with forkDb := forkDb }) h hsession

theorem runs_pushTransaction' {trx : SignedTransaction} (h : Runs p n) :
    Runs p (n.pushTransaction' p {} trx).2 := by
  have hpending : Runs p
      (if n.pendingSession then n else { n with db := n.db.start, pendingSession := true }) := by
    split
    . exact h
    . exact reachable_step (e := .startSession) h rfl
  unfold Node.pushTransaction'
  dsimp only
  split
  . exact hpending
  . next s hs =>
    have hstart := reachable_step (e := .startSession) hpending rfl
    have happlied := reachable_step (e := .applyTransaction trx) hstart ⟨s, hs, rfl⟩
    exact reachable_step (e := .squash) happlied rfl

theorem runs_restoreTransactions {trxs : List SignedTransaction} (h : Runs p n) :
    Runs p (n.restoreTransactions p {} trxs) := by
  induction trxs generalizing n with
  | nil => exact h
  | cons trx trxs ih =>
    unfold Node.restoreTransactions
    split
    . exact ih h
    . exact ih (runs_pushTransaction' h)

theorem runs_pushBlock {memory : Memory} {r : Bool} (h : Runs p n)
    (hmemory : memory.checkFreeMemory = .ok ())
    (hok : (n.clearPending.pushBlock' p {} b).1 = .ok r) :
    Runs p (n.pushBlock p memory {} b).2 := by
  cases hpush : n.clearPending.pushBlock' p {} b with
  | mk result n₁ =>
    rw [hpush] at hok
    dsimp only at hok
    subst hok
    have hruns := runs_pushBlock' (runs_clearPending h) hpush
    unfold Node.pushBlock Node.pushBlockOrRetry
    rw [hpush]
    dsimp only
    rw [hmemory]
    unfold Node.restorePending
    apply runs_restoreTransactions
    exact runs_restoreTransactions hruns

end node

section forked

/-- Ids are pairs of the expiration and the operations. -/
def plainProtocol : Protocol Unit where
  transactionId trx := Nat.pair trx.expiration trx.operations.bytes
  blockHash b := b.timestamp
  merkleRoot _ := 0
  publicKey _ := 0
  sign _ _ := 0
  signee _ := 0
  validate _ := .ok ()
  verifyAuthority _ _ := .ok ()
  applyOperations s _ := .ok s.shared
  endOfBlock s _ := .ok s.shared

def genesisState : ChainState Unit where
  time := 0
  shared :=
    { witnesses := ⟨[{ owner := "initminer" }], by decide⟩
      schedule := ⟨["initminer"], 1, by decide, 0⟩
      rest := () }

def blockAfter (s : ChainState Unit) (timestamp expiration : Nat) : SignedBlock where
  previous := s.headBlockId
  timestamp := timestamp
  witness := "initminer"
  transactions := [⟨s.headBlockId.num, s.headBlockId.hash, expiration, {}, {}⟩]

def extended (s : ChainState Unit) (timestamp expiration : Nat) : ChainState Unit :=
  (plainProtocol.applyBlock' {} s (blockAfter s timestamp expiration)).toOption.getD s

def firstState : ChainState Unit :=
  extended genesisState 3 9

def abandonedState : ChainState Unit :=
  extended firstState 6 12

def forkState : ChainState Unit :=
  extended firstState 9 15

theorem applyBlock'_genesisState :
    plainProtocol.applyBlock' {} genesisState (blockAfter genesisState 3 9) = .ok firstState :=
  eq_ok_of_isSome (d := genesisState) (by decide +kernel)

theorem applyBlock'_abandoned :
    plainProtocol.applyBlock' {} firstState (blockAfter firstState 6 12) = .ok abandonedState :=
  eq_ok_of_isSome (d := firstState) (by decide +kernel)

theorem applyBlock'_fork :
    plainProtocol.applyBlock' {} firstState (blockAfter firstState 9 15) = .ok forkState :=
  eq_ok_of_isSome (d := firstState) (by decide +kernel)

theorem idsTell_plainProtocol : plainProtocol.IdsTell := by
  intro trx trx' h
  exact (Nat.pair_eq_pair.mp h).1

/-- The second block is undone and another takes its place. -/
def forkedSessions : UndoStack (ChainState Unit) :=
  let first := (UndoStack.start ⟨genesisState, 0, []⟩).set firstState
  (first.start.set abandonedState).undo.start.set forkState

theorem reachable_forkedSessions : (sessions plainProtocol).Reachable forkedSessions := by
  have hgenesis : (sessions plainProtocol).Reachable ⟨genesisState, 0, []⟩ :=
    .initial ⟨⟨rfl, rfl, rfl, rfl, fun _ => rfl, fun _ => rfl⟩, rfl⟩
  have hstart := reachable_step (e := .startSession) hgenesis rfl
  have hfirst := reachable_step (e := .applyBlock _) hstart ⟨_, applyBlock'_genesisState, rfl⟩
  have hstart := reachable_step (e := .startSession) hfirst rfl
  have habandoned := reachable_step (e := .applyBlock _) hstart ⟨_, applyBlock'_abandoned, rfl⟩
  have hundone := reachable_step (e := .undo) habandoned rfl
  have hstart := reachable_step (e := .startSession) hundone rfl
  exact reachable_step (e := .applyBlock _) hstart ⟨_, applyBlock'_fork, rfl⟩

theorem replayProtected_forkedSessions : forkedSessions.All (ReplayProtected plainProtocol) :=
  replayProtected_of_reachable idsTell_plainProtocol reachable_forkedSessions

end forked

end Replay

end Golos
