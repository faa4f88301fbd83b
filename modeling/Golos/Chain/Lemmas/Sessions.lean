import Mathlib.Data.List.Perm.Subperm
import Golos.Chain.Impl.Node
import Golos.Chain.Lemmas.History

/-!
This module contains the undo sessions of a node: each is a block on top of the one before it, and
what becomes irreversible is never undone.
-/

namespace Golos

open Checked Relation

variable {σ : Type} {p : Protocol σ}

section chain

variable {skip : Skip} {x s t u : ChainState σ} {b c : SignedBlock}

/-- One block on top of a state that describes its chain. -/
structure Protocol.Grows (p : Protocol σ) (s t : ChainState σ) : Prop where
  chain : ChainInv p {} s
  block : ∃ b, p.applyBlock' {} s b = .ok t

theorem history_of_applyBlock' (h : p.applyBlock' skip s b = .ok t) : t.history = b :: s.history := by
  obtain ⟨u, hu, hafter⟩ := applyBlock'_eq_ok_iff.mp h
  have hextends := extends_of_applyUntilIrreversible hu
  have hcore := core_of_applyAfterIrreversible_ok hafter
  exact (congrArg ChainState.Core.history hcore).trans hextends.history

theorem previous_of_applyBlock' (h : p.applyBlock' skip s b = .ok t) : s.headBlockId = b.previous := by
  obtain ⟨u, hu, -⟩ := applyBlock'_eq_ok_iff.mp h
  exact (extends_of_applyUntilIrreversible hu).previous

theorem headBlockId_of_applyBlock' (h : p.applyBlock' skip s b = .ok t) :
    t.headBlockId = p.blockId b := by
  obtain ⟨u, hu, hafter⟩ := applyBlock'_eq_ok_iff.mp h
  have hextends := extends_of_applyUntilIrreversible hu
  have hcore := core_of_applyAfterIrreversible_ok hafter
  exact (congrArg ChainState.Core.headBlockId hcore).trans hextends.headBlockId

namespace Protocol.Grows

theorem next (h : p.Grows s t) : ChainInv p {} t := by
  obtain ⟨b, hb⟩ := h.block
  exact h.chain.applyBlock' hb

theorem headBlockNumber : ∀ s t, p.Grows s t → t.headBlockNumber = s.headBlockNumber + 1 := by
  intro s t h
  obtain ⟨b, hb⟩ := h.block
  rw [h.next.headBlockNumber, history_of_applyBlock' hb, List.length_cons, h.chain.headBlockNumber]

end Protocol.Grows

theorem chainInv_of_reaches (hx : ChainInv p {} x) (h : ReflTransGen p.Grows x s) :
    ChainInv p {} s := by
  cases h with
  | refl => exact hx
  | tail _ hgrows => exact hgrows.next

/-- The blocks of a chain stay on it as it grows. -/
theorem history_of_reaches (h : ReflTransGen p.Grows x s) : x.history <:+ s.history := by
  induction h with
  | refl => exact List.suffix_refl _
  | tail _ hgrows ih =>
    obtain ⟨b, hb⟩ := hgrows.block
    rw [history_of_applyBlock' hb]
    exact ih.trans (List.suffix_cons _ _)

/--
Once the witnesses vote, at least two different ones are scheduled: none of them alone makes its own
block irreversible.
-/
def Protocol.NoneAlone (p : Protocol σ) (x : ChainState σ) : Prop :=
  ∀ s b u, ReflTransGen p.Grows x s → p.applyUntilIrreversible {} s b = .ok u →
    startMinerVotingBlock ≤ u.headBlockNumber →
      u.scheduledWitnesses.Nodup ∧ 2 ≤ u.scheduledWitnesses.length

/-- Only the witness of the block itself has confirmed it. -/
theorem length_confirmed_le (h : ChainInv p {} s) (hextends : Extends p {} s b u)
    (hnodup : u.scheduledWitnesses.Nodup) {num : Nat} (hnum : s.headBlockNumber < num) :
    (u.scheduledWitnesses.filter fun w => num ≤ u.lastConfirmedBlockNum w).length ≤ 1 := by
  have hsubset : (u.scheduledWitnesses.filter fun w => num ≤ u.lastConfirmedBlockNum w)
      ⊆ [b.witness] := by
    intro w hw
    have hconfirmed : num ≤ u.lastConfirmedBlockNum w := by
      simpa using (List.mem_filter.mp hw).2
    rw [hextends.lastConfirmed] at hconfirmed
    dsimp only at hconfirmed
    split at hconfirmed
    . next hwitness => exact List.mem_singleton.mpr hwitness
    . have := h.lastConfirmed_le w
      omega
  exact (List.subperm_of_subset (hnodup.filter _) hsubset).length_le

theorem irreversible_le_of_noneAlone (hx : ChainInv p {} x) (hnone : p.NoneAlone x)
    (hs : ReflTransGen p.Grows x s) (hu : p.applyUntilIrreversible {} s b = .ok u) :
    u.lastIrreversibleBlockNum ≤ s.headBlockNumber := by
  have h := chainInv_of_reaches hx hs
  have hextends := extends_of_applyUntilIrreversible hu
  have hscheduled := hnone s b u hs hu
  have hnum := h.blockNum hextends
  have hhead := hextends.headBlockNumber
  have hle := length_confirmed_le h hextends
  have hadvances := hextends.advances
  generalize u.lastIrreversibleBlockNum = num at hadvances ⊢
  cases hadvances with
  | stays => exact h.irreversible_le
  | early hearly hmax =>
    dsimp only
    unfold maxWitnesses at *
    omega
  | @voting _ newNum hvoting hlt hnew hvoted hvotes =>
    obtain ⟨hnodup, htwo⟩ := hscheduled hvoting
    by_contra hgt
    have hone := hle hnodup (show s.headBlockNumber < newNum by omega)
    have htwo' : 2 ≤ u.scheduledWitnesses.length - u.scheduledWitnesses.length / 4 := by omega
    exact absurd (htwo'.trans (hvotes.trans hone)) (by decide)

/-- The merkle root of a block is that of its transactions, or stored for blocks that it is not for. -/
def Protocol.MerkleValid (p : Protocol σ) (b : SignedBlock) : Prop :=
  b.transactionMerkleRoot = p.merkleRoot b.transactions ∨
    p.sharedDbMerkle b.blockNum = some (p.merkleRoot b.transactions)

theorem merkleValid_of_applyBlock' (h : p.applyBlock' {} s b = .ok t) : p.MerkleValid b := by
  obtain ⟨u, hu, -⟩ := applyBlock'_eq_ok_iff.mp h
  unfold Protocol.applyUntilIrreversible Protocol.applyContents Protocol.validateBlock' at hu
  simp only [bind_eq_ok, ensure_eq_ok, Bool.not_false, if_true] at hu
  obtain ⟨_, ⟨_, ⟨_, hmerkle, -⟩, -⟩, -⟩ := hu
  exact hmerkle

/-- Hashes do not collide: the header has the merkle root, and that the transactions. -/
def Protocol.BlockIdsTell (p : Protocol σ) : Prop :=
  ∀ b c, p.MerkleValid b → p.MerkleValid c → p.blockId b = p.blockId c → b = c

/-- The id of the head block tells the whole state. -/
theorem eq_of_headBlockId (hid : p.BlockIdsTell) (hx : ChainInv p {} x)
    (hs : ReflTransGen p.Grows x s) (ht : ReflTransGen p.Grows x t)
    (hhead : s.headBlockId = t.headBlockId) : s = t := by
  have num_eq {s t : ChainState σ} (hs : ReflTransGen p.Grows x s) (ht : ReflTransGen p.Grows x t)
      (hhead : s.headBlockId = t.headBlockId) : s.headBlockNumber = t.headBlockNumber := by
    rw [← (chainInv_of_reaches hx hs).headBlockId_num, hhead,
      (chainInv_of_reaches hx ht).headBlockId_num]
  have hmono {s : ChainState σ} (hs : ReflTransGen p.Grows x s) :
      x.headBlockNumber ≤ s.headBlockNumber :=
    UndoStack.rank_le_of_reaches Protocol.Grows.headBlockNumber hs
  induction hs generalizing t with
  | refl =>
    have hnum := num_eq .refl ht hhead
    cases ht with
    | refl => rfl
    | tail ht hgrows =>
      have hnext := Protocol.Grows.headBlockNumber _ _ hgrows
      have := hmono ht
      omega
  | @tail s s' hs hgrows ih =>
    have hnum := num_eq (hs.tail hgrows) ht hhead
    have hnext := Protocol.Grows.headBlockNumber _ _ hgrows
    have hle := hmono hs
    cases ht with
    | refl => omega
    | @tail t t' ht hgrows' =>
      obtain ⟨b, hb⟩ := hgrows.block
      obtain ⟨c, hc⟩ := hgrows'.block
      rw [headBlockId_of_applyBlock' hb, headBlockId_of_applyBlock' hc] at hhead
      have hbc := hid b c (merkleValid_of_applyBlock' hb) (merkleValid_of_applyBlock' hc) hhead
      subst hbc
      have hprevious := (previous_of_applyBlock' hb).trans (previous_of_applyBlock' hc).symm
      rw [ih ht hprevious, hc] at hb
      injection hb with hb
      exact hb.symm

end chain

end Golos
