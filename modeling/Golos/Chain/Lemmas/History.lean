import Golos.Chain.Impl.Apply

/-!
This module contains what a block does to the fields of the state that only the processing of blocks
writes, and the invariant that follows: the state describes the blocks that led to it.
-/

namespace Golos

open Checked

variable {σ : Type} {p : Protocol σ} {skip : Skip}

namespace ChainState

variable {s t : ChainState σ} {b : SignedBlock}

/-- The fields that neither evaluators nor the processing at block ends write. -/
structure Core where
  headBlockNumber : Nat
  headBlockId : BlockId
  time : Nat
  lastIrreversibleBlockNum : Nat
  blockSummary : Nat → BlockId
  lastConfirmedBlockNum : AccountName → Nat
  history : List SignedBlock

def core (s : ChainState σ) : Core where
  headBlockNumber := s.headBlockNumber
  headBlockId := s.headBlockId
  time := s.time
  lastIrreversibleBlockNum := s.lastIrreversibleBlockNum
  blockSummary := s.blockSummary
  lastConfirmedBlockNum := s.lastConfirmedBlockNum
  history := s.history

/-- Nothing but the objects of witnesses differs. -/
def OnlyWitnesses (s t : ChainState σ) : Prop :=
  ∃ witnesses, t = { s with shared := { s.shared with witnesses := witnesses } }

theorem OnlyWitnesses.refl (s : ChainState σ) : OnlyWitnesses s s :=
  ⟨s.shared.witnesses, rfl⟩

theorem OnlyWitnesses.trans {u : ChainState σ} (h : OnlyWitnesses s t) (h' : OnlyWitnesses t u) :
    OnlyWitnesses s u := by
  obtain ⟨_, rfl⟩ := h
  obtain ⟨_, rfl⟩ := h'
  exact ⟨_, rfl⟩

theorem onlyWitnesses_of_missSlots {slots : List Nat} (h : s.missSlots b slots = .ok t) :
    OnlyWitnesses s t := by
  induction slots generalizing s with
  | nil =>
    simp only [missSlots, pure_eq_ok] at h
    exact h ▸ .refl s
  | cons slotNum slots ih =>
    simp only [missSlots, missSlot, bind_eq_ok] at h
    obtain ⟨s', ⟨w, -, hslot⟩, h⟩ := h
    apply OnlyWitnesses.trans ?_ (ih h)
    rcases ite_eq_iff.mp hslot with ⟨-, hslot⟩ | ⟨-, hslot⟩
    all_goals
      rw [pure_eq_ok] at hslot
      subst hslot
      exact ⟨_, rfl⟩

theorem OnlyWitnesses.core (h : OnlyWitnesses s t) : t.core = s.core := by
  obtain ⟨_, rfl⟩ := h
  rfl

/-- The witnesses of the current round. -/
def scheduledWitnesses (s : ChainState σ) : List AccountName :=
  s.shared.schedule.currentShuffledWitnesses.take s.shared.schedule.numScheduledWitnesses

/-- What `update_last_irreversible_block` does to the number of the last irreversible block. -/
inductive Advances (s : ChainState σ) : Nat → Prop
  | stays : Advances s s.lastIrreversibleBlockNum
  /-- Before the witnesses vote, it follows the head block at a distance. -/
  | early (hhead : s.headBlockNumber < startMinerVotingBlock)
      (hmax : maxWitnesses < s.headBlockNumber) : Advances s (s.headBlockNumber - maxWitnesses)
  /-- All but a fourth of the scheduled witnesses have confirmed the new one. -/
  | voting {num newNum : Nat} (hhead : startMinerVotingBlock ≤ s.headBlockNumber)
      (hlt : s.lastIrreversibleBlockNum < num) (hle : num ≤ newNum)
      (hvoted : newNum ∈ s.scheduledWitnesses.map s.lastConfirmedBlockNum)
      (hvotes : s.scheduledWitnesses.length - s.scheduledWitnesses.length / 4
        ≤ (s.scheduledWitnesses.filter fun w => newNum ≤ s.lastConfirmedBlockNum w).length) :
      Advances s num

theorem owner_of_getWitness {name : AccountName} {w : WitnessObject}
    (h : s.getWitness name = .ok w) : w.owner = name := by
  unfold getWitness at h
  rw [get_eq_ok] at h
  exact Table.key_of_find? h

theorem map_owner_of_mapM {names : List AccountName} {ws : List WitnessObject}
    (h : names.mapM s.getWitness = .ok ws) : ws.map WitnessObject.owner = names := by
  induction names generalizing ws with
  | nil =>
    rw [List.mapM_nil, pure_eq_ok] at h
    rw [← h]
    rfl
  | cons name names ih =>
    simp only [List.mapM_cons, bind_eq_ok, pure_eq_ok] at h
    obtain ⟨w, hw, ws, hws, rfl⟩ := h
    rw [List.map_cons, owner_of_getWitness hw, ih hws]

theorem advances_of_updateLastIrreversibleBlockNum
    (h : s.updateLastIrreversibleBlockNum = .ok t) :
    t = { s with lastIrreversibleBlockNum := t.lastIrreversibleBlockNum }
      ∧ s.Advances t.lastIrreversibleBlockNum := by
  unfold updateLastIrreversibleBlockNum at h
  split at h
  . next hhead =>
    split at h
    all_goals
      rw [pure_eq_ok] at h
      subst h
    . next hmax => exact ⟨rfl, .early hhead hmax⟩
    . exact ⟨rfl, .stays⟩
  . next hhead =>
    simp only [bind_eq_ok] at h
    obtain ⟨witObjs, hwit, h⟩ := h
    have howners := map_owner_of_mapM hwit
    have hconfirmed : (witObjs.map fun w => s.lastConfirmedBlockNum w.owner)
        = s.scheduledWitnesses.map s.lastConfirmedBlockNum := by
      unfold scheduledWitnesses
      rw [← howners, List.map_map]
      rfl
    have hlength : witObjs.length = s.scheduledWitnesses.length := by
      unfold scheduledWitnesses
      rw [← howners, List.length_map]
    rw [hconfirmed, hlength] at h
    split at h
    . rw [throw_eq_ok] at h
      contradiction
    . next newNum hnth =>
      have hoffset : (percent100 - irreversibleThreshold) * s.scheduledWitnesses.length / percent100
          = s.scheduledWitnesses.length / 4 := by
        simp only [percent100, irreversibleThreshold]
        omega
      rw [hoffset] at hnth
      have hvotes := OrderStat.length_le_of_nthElement hnth
      rw [List.length_map, List.filter_map, List.length_map] at hvotes
      have hvoted := OrderStat.mem_of_nthElement hnth
      split at h
      . next hlt =>
        rw [pure_eq_ok] at h
        subst h
        refine ⟨rfl, ?_⟩
        dsimp only
        split
        . next htransit =>
          exact .voting (by omega) htransit.2.1 htransit.2.2 hvoted hvotes
        . exact .voting (by omega) hlt (by omega) hvoted hvotes
      . rw [pure_eq_ok] at h
        subst h
        exact ⟨rfl, .stays⟩

end ChainState

section

variable {s t : ChainState σ} {b : SignedBlock}

/-- The extensions change what a witness runs and votes for. -/
theorem onlyWitnesses_of_processHeaderExtensions {extensions : List BlockHeaderExtension}
    (h : Protocol.processHeaderExtensions s b extensions = .ok t) : s.OnlyWitnesses t := by
  induction extensions generalizing s with
  | nil =>
    simp only [Protocol.processHeaderExtensions, pure_eq_ok] at h
    exact h ▸ .refl s
  | cons extension extensions ih =>
    simp only [Protocol.processHeaderExtensions, bind_eq_ok] at h
    obtain ⟨s', hs', h⟩ := h
    apply ChainState.OnlyWitnesses.trans ?_ (ih h)
    cases extension with
    | void =>
      simp only [Protocol.processHeaderExtension, pure_eq_ok] at hs'
      exact hs' ▸ .refl s
    | version version =>
      simp only [Protocol.processHeaderExtension, bind_eq_ok, pure_eq_ok] at hs'
      obtain ⟨w, _, rfl⟩ := hs'
      exact ⟨_, rfl⟩
    | hardforkVersionVote hfVersion hfTime =>
      simp only [Protocol.processHeaderExtension, bind_eq_ok, pure_eq_ok] at hs'
      obtain ⟨w, _, rfl⟩ := hs'
      exact ⟨_, rfl⟩

theorem core_of_applyTransaction' {trx : SignedTransaction}
    (h : p.applyTransaction' skip s trx = .ok t) : t.core = s.core := by
  unfold Protocol.applyTransaction' Protocol.createTransactionObject at h
  simp only [bind_eq_ok, pure_eq_ok] at h
  obtain ⟨_, _, _, _, s', hs', shared, _, rfl⟩ := h
  split at hs'
  . rw [pure_eq_ok] at hs'
    rw [← hs']
    rfl
  . simp only [bind_eq_ok, pure_eq_ok] at hs'
    obtain ⟨transactions, _, rfl⟩ := hs'
    rfl

theorem core_of_applyTransactions {trxs : List SignedTransaction}
    (h : p.applyTransactions skip s trxs = .ok t) : t.core = s.core := by
  induction trxs generalizing s with
  | nil =>
    simp only [Protocol.applyTransactions, pure_eq_ok] at h
    rw [h]
  | cons trx trxs ih =>
    simp only [Protocol.applyTransactions, bind_eq_ok] at h
    obtain ⟨s', hs', h⟩ := h
    rw [ih h, core_of_applyTransaction' hs']

theorem core_of_applyContents (h : p.applyContents skip s b = .ok t) :
    s.headBlockId = b.previous ∧ s.time < b.timestamp ∧ t.core = s.core := by
  unfold Protocol.applyContents Protocol.validateBlockHeader at h
  simp only [bind_eq_ok, ensure_eq_ok] at h
  obtain ⟨_, _, _, ⟨_, hprevious, _, htime, _⟩, s', hs', _, _, _, _, h⟩ := h
  have hcore := core_of_applyTransactions h
  rw [(onlyWitnesses_of_processHeaderExtensions hs').core] at hcore
  exact ⟨hprevious, htime, hcore⟩

/-- What a block has done by the time `update_last_irreversible_block` ends. -/
structure Extends (p : Protocol σ) (skip : Skip) (s : ChainState σ) (b : SignedBlock)
    (u : ChainState σ) : Prop where
  previous : s.headBlockId = b.previous
  headBlockNumber : u.headBlockNumber = b.blockNum
  headBlockId : u.headBlockId = p.blockId b
  history : u.history = b :: s.history
  lastConfirmed : u.lastConfirmedBlockNum =
    fun name => if name = b.witness then b.blockNum else s.lastConfirmedBlockNum name
  blockSummary : u.blockSummary = s.blockSummary
  undoHistory : skip.undoHistoryCheck = false →
    b.blockNum - s.lastIrreversibleBlockNum < maxUndoHistory
  advances : { u with lastIrreversibleBlockNum := s.lastIrreversibleBlockNum }.Advances
    u.lastIrreversibleBlockNum

theorem extends_of_applyUntilIrreversible (h : p.applyUntilIrreversible skip s b = .ok t) :
    Extends p skip s b t := by
  unfold Protocol.applyUntilIrreversible Protocol.updateGlobalDynamicData at h
  simp only [bind_eq_ok, ensure_eq_ok, pure_eq_ok] at h
  obtain ⟨s₁, hcontents, _, ⟨s₂, hmissed, _, hundo, rfl⟩, hupdate⟩ := h
  obtain ⟨hprevious, _, hcore₁⟩ := core_of_applyContents hcontents
  have hcore := (ChainState.onlyWitnesses_of_missSlots hmissed).core.trans hcore₁
  have hlib : s₂.lastIrreversibleBlockNum = s.lastIrreversibleBlockNum :=
    congrArg ChainState.Core.lastIrreversibleBlockNum hcore
  have hhistory : s₂.history = s.history := congrArg ChainState.Core.history hcore
  have hsummary : s₂.blockSummary = s.blockSummary :=
    congrArg ChainState.Core.blockSummary hcore
  have hconfirmed : s₂.lastConfirmedBlockNum = s.lastConfirmedBlockNum :=
    congrArg ChainState.Core.lastConfirmedBlockNum hcore
  obtain ⟨ht, hadvances⟩ := ChainState.advances_of_updateLastIrreversibleBlockNum hupdate
  generalize t.lastIrreversibleBlockNum = num at ht hadvances
  subst ht
  rw [hlib] at hundo
  refine ⟨hprevious, rfl, rfl, ?_, ?_, hsummary, ?_, ?_⟩
  . show b :: s₂.history = b :: s.history
    rw [hhistory]
  . show (fun name => if name = b.witness then b.blockNum else s₂.lastConfirmedBlockNum name) = _
    rw [hconfirmed]
  . intro hskip
    rw [hskip] at hundo
    simpa using hundo
  . rw [← hlib]
    exact hadvances

theorem core_of_applyAfterIrreversible_ok (h : p.applyAfterIrreversible s b = .ok t) :
    t.core = (p.createBlockSummary s b).core := by
  unfold Protocol.applyAfterIrreversible at h
  dsimp only at h
  split at h
  . contradiction
  . injection h with h
    rw [← h]
    rfl

theorem applyBlock'_eq_ok_iff :
    p.applyBlock' skip s b = .ok t
      ↔ ∃ u, p.applyUntilIrreversible skip s b = .ok u ∧ p.applyAfterIrreversible u b = .ok t := by
  unfold Protocol.applyBlock'
  rw [bind_eq_ok]
  constructor
  . intro ⟨u, hu, h⟩
    refine ⟨u, hu, ?_⟩
    cases hafter : p.applyAfterIrreversible u b with
    | error e =>
      rw [hafter] at h
      cases h
    | ok t' =>
      rw [hafter] at h
      injection h with h
      rw [h]
  . intro ⟨u, hu, h⟩
    refine ⟨u, hu, ?_⟩
    rw [h]
    rfl

end

namespace Protocol

variable {b : SignedBlock} {bs : List SignedBlock}

/-- The id of the newest of some blocks. -/
def tipId (p : Protocol σ) : List SignedBlock → BlockId
  | [] => {}
  | b :: _ => p.blockId b

/-- Blocks that form a chain, newest first. -/
def Linked (p : Protocol σ) : List SignedBlock → Prop
  | [] => True
  | b :: bs => b.previous = p.tipId bs ∧ p.Linked bs

theorem num_tipId (h : p.Linked bs) : (p.tipId bs).num = bs.length := by
  induction bs with
  | nil => rfl
  | cons b bs ih =>
    have hnum := ih h.2
    rw [← h.1] at hnum
    show b.previous.num + 1 = _
    rw [hnum, List.length_cons]

theorem Linked.blockNum (h : p.Linked (b :: bs)) : b.blockNum = bs.length + 1 := by
  have := num_tipId h
  rwa [List.length_cons] at this

/-- Block `n` of a chain is at place `n - 1`, oldest first. -/
theorem Linked.blockNum_of_getElem? (h : p.Linked bs) {i : Nat} (hb : bs.reverse[i]? = some b) :
    b.blockNum = i + 1 := by
  induction bs with
  | nil => simp at hb
  | cons c bs ih =>
    rw [List.reverse_cons, List.getElem?_append] at hb
    split at hb
    . exact ih h.2 hb
    . next hi =>
      rw [List.getElem?_singleton] at hb
      split at hb
      . next hzero =>
        injection hb with hb
        rw [← hb, h.blockNum]
        rw [List.length_reverse] at hi hzero
        omega
      . contradiction

end Protocol

structure ChainInv (p : Protocol σ) (skip : Skip) (s : ChainState σ) : Prop where
  linked : p.Linked s.history
  headBlockNumber : s.headBlockNumber = s.history.length
  headBlockId : s.headBlockId = p.tipId s.history
  irreversible_le : s.lastIrreversibleBlockNum ≤ s.headBlockNumber
  early : s.headBlockNumber < startMinerVotingBlock →
    s.lastIrreversibleBlockNum ≤ s.headBlockNumber - maxWitnesses
  lastConfirmed_le : ∀ name, s.lastConfirmedBlockNum name ≤ s.headBlockNumber
  undoHistory : skip.undoHistoryCheck = false →
    s.headBlockNumber - s.lastIrreversibleBlockNum < maxUndoHistory
  blockSummary_num_le : ∀ i, (s.blockSummary i).num ≤ s.headBlockNumber
  blockSummary : ∀ i b, s.history.reverse[i]? = some b → s.headBlockNumber ≤ i + 2 ^ 16 →
    s.blockSummary ((i + 1) % 2 ^ 16) = p.blockId b

namespace ChainInv

variable {s t u : ChainState σ} {b : SignedBlock}

theorem headBlockId_num (h : ChainInv p skip s) : s.headBlockId.num = s.headBlockNumber := by
  rw [h.headBlockId, Protocol.num_tipId h.linked, h.headBlockNumber]

theorem blockNum (h : ChainInv p skip s) (hext : Extends p skip s b u) :
    b.blockNum = s.headBlockNumber + 1 := by
  have := h.headBlockId_num
  rw [hext.previous] at this
  rw [← this]
  rfl

theorem irreversible_mono (h : ChainInv p skip s) (hext : Extends p skip s b u) :
    s.lastIrreversibleBlockNum ≤ u.lastIrreversibleBlockNum := by
  have hadv := hext.advances
  have hnum := h.blockNum hext
  have hhead := hext.headBlockNumber
  generalize u.lastIrreversibleBlockNum = num at hadv ⊢
  cases hadv with
  | stays => exact Nat.le_refl _
  | early hhead' hmax =>
    have := h.early
    dsimp only at hhead' ⊢
    omega
  | voting hhead' hlt hle hvoted hvotes => exact Nat.le_of_lt hlt

theorem irreversible_le_of_extends (h : ChainInv p skip s) (hext : Extends p skip s b u) :
    u.lastIrreversibleBlockNum ≤ b.blockNum := by
  have hadv := hext.advances
  have hnum := h.blockNum hext
  have hhead := hext.headBlockNumber
  generalize u.lastIrreversibleBlockNum = num at hadv ⊢
  cases hadv with
  | stays =>
    have := h.irreversible_le
    dsimp only
    omega
  | early hhead' hmax =>
    dsimp only
    omega
  | voting hhead' hlt hle hvoted hvotes =>
    rw [List.mem_map] at hvoted
    have ⟨name, _, hname⟩ := hvoted
    have hconfirmed := h.lastConfirmed_le name
    dsimp only at hname
    rw [hext.lastConfirmed] at hname
    dsimp only at hname
    split at hname
    all_goals omega

/-- A block that is applied keeps the invariant, also when the processing at its end fails. -/
theorem extend (h : ChainInv p skip s) (hext : Extends p skip s b u)
    (hcore : t.core = (p.createBlockSummary u b).core) : ChainInv p skip t := by
  have hnum := h.blockNum hext
  have hheadNum : t.headBlockNumber = b.blockNum :=
    (congrArg ChainState.Core.headBlockNumber hcore).trans hext.headBlockNumber
  have hheadId : t.headBlockId = p.blockId b :=
    (congrArg ChainState.Core.headBlockId hcore).trans hext.headBlockId
  have hhistory : t.history = b :: s.history :=
    (congrArg ChainState.Core.history hcore).trans hext.history
  have hlib : t.lastIrreversibleBlockNum = u.lastIrreversibleBlockNum :=
    congrArg ChainState.Core.lastIrreversibleBlockNum hcore
  have hconfirmed : t.lastConfirmedBlockNum = u.lastConfirmedBlockNum :=
    congrArg ChainState.Core.lastConfirmedBlockNum hcore
  have hsummary : t.blockSummary =
      fun i => if i = b.blockNum % 2 ^ 16 then p.blockId b else u.blockSummary i :=
    congrArg ChainState.Core.blockSummary hcore
  rw [hext.blockSummary] at hsummary
  rw [hext.lastConfirmed] at hconfirmed
  have hle := h.irreversible_le_of_extends hext
  have hmono := h.irreversible_mono hext
  have hlinked : p.Linked (b :: s.history) := by
    refine ⟨?_, h.linked⟩
    rw [← hext.previous, h.headBlockId]
  have hlength := h.headBlockNumber
  constructor
  case linked => rwa [hhistory]
  case headBlockNumber => rw [hhistory, hheadNum, hnum, List.length_cons, hlength]
  case headBlockId => rw [hhistory, hheadId]; rfl
  case irreversible_le => omega
  case early =>
    intro hearly
    have := h.early (by omega)
    have hadv := hext.advances
    have hhead := hext.headBlockNumber
    rw [hlib]
    generalize u.lastIrreversibleBlockNum = num at hadv ⊢
    cases hadv with
    | stays => dsimp only; omega
    | early hhead' hmax => dsimp only; omega
    | voting hhead' hlt hle hvoted hvotes => dsimp only at hhead'; omega
  case lastConfirmed_le =>
    intro name
    have := h.lastConfirmed_le name
    rw [hconfirmed]
    dsimp only
    split
    all_goals omega
  case undoHistory =>
    intro hskip
    have := hext.undoHistory hskip
    omega
  case blockSummary_num_le =>
    intro i
    have := h.blockSummary_num_le i
    rw [hsummary]
    dsimp only
    split
    . show b.blockNum ≤ _
      omega
    . omega
  case blockSummary =>
    intro i c hc hrecent
    rw [hhistory, List.reverse_cons, List.getElem?_append, List.length_reverse] at hc
    rw [hsummary]
    dsimp only
    split at hc
    . next hi =>
      rw [if_neg (by omega)]
      exact h.blockSummary i c hc (by omega)
    . next hi =>
      rw [List.getElem?_singleton] at hc
      split at hc
      . next hzero =>
        injection hc with hc
        rw [← hc, if_pos]
        congr 1
        omega
      . contradiction

theorem applyBlock' (h : ChainInv p skip s) (hok : p.applyBlock' skip s b = .ok t) :
    ChainInv p skip t := by
  have ⟨u, hu, hafter⟩ := applyBlock'_eq_ok_iff.mp hok
  exact h.extend (extends_of_applyUntilIrreversible hu) (core_of_applyAfterIrreversible_ok hafter)

end ChainInv

end Golos
