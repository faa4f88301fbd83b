import Golos.Chain.Impl.Slots
import Golos.Chain.Lemmas.History

/-!
This module contains the accounting of slots along the chain: every block fills a slot of its own,
and the state says which of the latest ones were filled.
-/

namespace Golos

open Checked

variable {σ : Type} {p : Protocol σ} {skip : Skip} {s t : ChainState σ} {b : SignedBlock}

namespace ChainState

theorem getSlotTime_one (h : s.headBlockNumber = 0 → s.time % blockInterval = 0) :
    s.getSlotTime 1 = s.time / blockInterval * blockInterval + blockInterval := by
  unfold getSlotTime
  rw [if_neg Nat.one_ne_zero]
  split
  . next hhead =>
    have := h hhead
    unfold blockInterval at this ⊢
    omega
  . rw [Nat.one_mul]

/-- A block falls in the slot that as many intervals lie between as begin after the head block. -/
theorem getSlotAtTime_eq (h : s.headBlockNumber = 0 → s.time % blockInterval = 0) {when : Nat}
    (hpos : 0 < s.getSlotAtTime when) :
    s.time / blockInterval < when / blockInterval ∧
      s.getSlotAtTime when = when / blockInterval - s.time / blockInterval := by
  unfold getSlotAtTime at hpos ⊢
  rw [getSlotTime_one h] at hpos ⊢
  split at hpos
  . contradiction
  . next hwhen =>
    rw [if_neg hwhen]
    unfold blockInterval at hwhen ⊢
    omega

theorem OnlyWitnesses.currentAslot (h : OnlyWitnesses s t) : t.currentAslot = s.currentAslot := by
  obtain ⟨_, rfl⟩ := h
  rfl

end ChainState

theorem currentAslot_of_applyTransactions {trxs : List SignedTransaction}
    (h : p.applyTransactions skip s trxs = .ok t) : t.currentAslot = s.currentAslot := by
  induction trxs generalizing s with
  | nil =>
    simp only [Protocol.applyTransactions, pure_eq_ok] at h
    rw [h]
  | cons trx trxs ih =>
    simp only [Protocol.applyTransactions, bind_eq_ok] at h
    obtain ⟨s', hs', h⟩ := h
    rw [ih h]
    unfold Protocol.applyTransaction' Protocol.createTransactionObject at hs'
    simp only [bind_eq_ok, pure_eq_ok] at hs'
    obtain ⟨_, _, _, _, s₁, hs₁, shared, _, rfl⟩ := hs'
    split at hs₁
    . rw [pure_eq_ok] at hs₁
      rw [← hs₁]
    . simp only [bind_eq_ok, pure_eq_ok] at hs₁
      obtain ⟨transactions, _, rfl⟩ := hs₁
      rfl

/-- What a block accepted with no skip flags is, and what it does to the clock of the chain. -/
structure Ticks (s : ChainState σ) (b : SignedBlock) (t : ChainState σ) : Prop where
  slot : 0 < s.getSlotAtTime b.timestamp
  witness : ¬SlotState.Unscheduled b →
    b.witness = s.getScheduledWitness (s.getSlotAtTime b.timestamp)
  headBlockNumber : t.headBlockNumber = b.blockNum
  time : t.time = b.timestamp
  currentAslot : t.currentAslot = s.currentAslot + s.missedBlocks b + 1
  history : t.history = b :: s.history

theorem slot_of_validateBlockHeader (h : p.validateBlockHeader {} s b = .ok ()) :
    0 < s.getSlotAtTime b.timestamp ∧ (¬SlotState.Unscheduled b →
      b.witness = s.getScheduledWitness (s.getSlotAtTime b.timestamp)) := by
  unfold Protocol.validateBlockHeader at h
  simp only [bind_eq_ok, ensure_eq_ok, Bool.not_false, if_true] at h
  obtain ⟨_, _, _, _, w, hw, _, _, _, hslot, hwitness⟩ := h
  refine ⟨hslot, ?_⟩
  intro hnum
  unfold SlotState.Unscheduled at hnum
  rw [← ChainState.owner_of_getWitness hw]
  apply hwitness.resolve_left
  omega

theorem ticks_of_applyContents (h : p.applyContents {} s b = .ok t) :
    0 < s.getSlotAtTime b.timestamp ∧ (¬SlotState.Unscheduled b →
      b.witness = s.getScheduledWitness (s.getSlotAtTime b.timestamp)) ∧
      t.currentAslot = s.currentAslot := by
  unfold Protocol.applyContents at h
  simp only [bind_eq_ok, ensure_eq_ok] at h
  obtain ⟨_, _, _, hheader, s₁, hs₁, _, _, _, _, h⟩ := h
  obtain ⟨hslot, hwitness⟩ := slot_of_validateBlockHeader hheader
  have haslot := currentAslot_of_applyTransactions h
  rw [(onlyWitnesses_of_processHeaderExtensions hs₁).currentAslot] at haslot
  exact ⟨hslot, hwitness, haslot⟩

theorem currentAslot_of_updateLastIrreversibleBlockNum
    (h : s.updateLastIrreversibleBlockNum = .ok t) : t.currentAslot = s.currentAslot := by
  have ⟨ht, _⟩ := ChainState.advances_of_updateLastIrreversibleBlockNum h
  rw [ht]

theorem currentAslot_of_applyAfterIrreversible (h : p.applyAfterIrreversible s b = .ok t) :
    t.currentAslot = s.currentAslot := by
  unfold Protocol.applyAfterIrreversible at h
  dsimp only at h
  split at h
  . contradiction
  . injection h with h
    rw [← h]
    rfl

theorem ticks_of_applyBlock' (h : p.applyBlock' {} s b = .ok t) : Ticks s b t := by
  rw [applyBlock'_eq_ok_iff] at h
  obtain ⟨u, hu, hafter⟩ := h
  have hextends := extends_of_applyUntilIrreversible hu
  have hcore := core_of_applyAfterIrreversible_ok hafter
  unfold Protocol.applyUntilIrreversible Protocol.updateGlobalDynamicData at hu
  simp only [bind_eq_ok, ensure_eq_ok, pure_eq_ok] at hu
  obtain ⟨s₁, hcontents, _, ⟨s₂, hmissed, _, _, rfl⟩, hupdate⟩ := hu
  obtain ⟨hslot, hwitness, haslot₁⟩ := ticks_of_applyContents hcontents
  have hcore₁ := (core_of_applyContents hcontents).2.2
  have haslot₂ := (ChainState.onlyWitnesses_of_missSlots hmissed).currentAslot
  have hmissedBlocks : (if s₁.time = 0 then 0 else s₁.getSlotAtTime b.timestamp - 1)
      = s.missedBlocks b := by
    have htime : s₁.time = s.time := congrArg ChainState.Core.time hcore₁
    have hhead : s₁.headBlockNumber = s.headBlockNumber :=
      congrArg ChainState.Core.headBlockNumber hcore₁
    unfold ChainState.missedBlocks ChainState.getSlotAtTime ChainState.getSlotTime
    rw [htime, hhead]
  constructor
  . exact hslot
  . exact hwitness
  . exact (congrArg ChainState.Core.headBlockNumber hcore).trans hextends.headBlockNumber
  . have hadvances := (ChainState.advances_of_updateLastIrreversibleBlockNum hupdate).1
    apply (congrArg ChainState.Core.time hcore).trans
    show u.time = b.timestamp
    rw [hadvances]
    rfl
  . rw [currentAslot_of_applyAfterIrreversible hafter,
      currentAslot_of_updateLastIrreversibleBlockNum hupdate, ← hmissedBlocks, ← haslot₁, ← haslot₂]
    rfl
  . exact (congrArg ChainState.Core.history hcore).trans hextends.history

namespace SlotHistory

variable (h : SlotHistory)

theorem recentSlotsFilled_foldl_shift (flags : List Bool) :
    (flags.foldl shift h).recentSlotsFilled =
      flags.foldl ShiftRegister.push h.recentSlotsFilled := by
  induction flags generalizing h with
  | nil => rfl
  | cons filled flags ih => exact ih (h.shift filled)

/-- The word after a block: what was missed, the slot that is filled, what was there. -/
theorem getLsbD_update (m : Nat) {k : Nat} (hk : k < 128) :
    (h.update m).recentSlotsFilled.getLsbD k =
      if k < m then false else if k = m then true else h.recentSlotsFilled.getLsbD (k - (m + 1)) := by
  unfold update
  rw [recentSlotsFilled_foldl_shift, ShiftRegister.getLsbD_foldl_push _ _ hk, ← List.map_reverse,
    List.getElem?_map, List.length_map, List.length_range]
  by_cases hm : k < m + 1
  . rw [List.getElem?_reverse (by rwa [List.length_range]), List.length_range,
      List.getElem?_range (by omega)]
    show decide (m + 1 - 1 - k = 0) = _
    split
    . exact decide_eq_false (by omega)
    . rw [if_pos (by omega)]
      exact decide_eq_true (by omega)
  . rw [List.getElem?_eq_none (by rw [List.length_reverse, List.length_range]; omega)]
    rw [if_neg (by omega), if_neg (by omega)]
    rfl

/-- The count of the slots that are filled. -/
def Counted : Prop :=
  h.participationCount.toNat = ShiftRegister.popcount h.recentSlotsFilled

variable {h}

theorem Counted.shift (hcount : h.Counted) (filled : Bool) : (h.shift filled).Counted := by
  unfold Counted at hcount ⊢
  have hpush := ShiftRegister.popcount_push (w := 127) h.recentSlotsFilled filled
  have hle := ShiftRegister.popcount_le (ShiftRegister.push h.recentSlotsFilled filled)
  unfold SlotHistory.shift
  dsimp only
  have hmsb : (if h.recentSlotsFilled.msb then 1 else 0 : BitVec 8).toNat =
      h.recentSlotsFilled.msb.toNat := by
    cases h.recentSlotsFilled.msb <;> rfl
  have hfilled : (if filled then 1 else 0 : BitVec 8).toNat = filled.toNat := by
    cases filled <;> rfl
  rw [BitVec.toNat_add, BitVec.toNat_sub, hmsb, hfilled, hcount]
  have := Bool.toNat_le h.recentSlotsFilled.msb
  have := Bool.toNat_le filled
  omega

theorem Counted.update (hcount : h.Counted) (m : Nat) : (h.update m).Counted := by
  unfold SlotHistory.update
  generalize (List.range (m + 1)).map (fun i => decide (i = 0)) = flags
  induction flags generalizing h with
  | nil => exact hcount
  | cons filled flags ih => exact ih (hcount.shift filled)

end SlotHistory

end Golos

namespace Golos

open Checked

variable {σ : Type} {p : Protocol σ}

namespace ChainState

variable {s : ChainState σ}

theorem toNat_slotTime (h : s.headBlockNumber = 0 → s.time % blockInterval = 0) {n : BitVec 32}
    (hn : n ≠ 0)
    (hfit : s.time / blockInterval * blockInterval + n.toNat * blockInterval < 2 ^ 32) :
    (s.slotTime n).toNat = s.time / blockInterval * blockInterval + n.toNat * blockInterval := by
  unfold slotTime
  rw [if_neg hn]
  unfold blockInterval at h hfit ⊢
  split
  . next hhead =>
    have := h hhead
    rw [BitVec.toNat_add, BitVec.toNat_mul, BitVec.toNat_ofNat, BitVec.toNat_ofNat]
    omega
  . rw [BitVec.toNat_add, BitVec.toNat_mul, BitVec.toNat_ofNat, BitVec.toNat_ofNat]
    omega

/-- The number of a slot is that of its time, while times fit into 32 bits. -/
theorem slotAtTime_slotTime (h : s.headBlockNumber = 0 → s.time % blockInterval = 0)
    {n : BitVec 32} (hn : n ≠ 0)
    (hfit : s.time / blockInterval * blockInterval + n.toNat * blockInterval < 2 ^ 32) :
    s.slotAtTime (s.slotTime n) = n := by
  have hpos : 0 < n.toNat := by
    apply Nat.pos_of_ne_zero
    intro hzero
    exact hn (BitVec.eq_of_toNat_eq hzero)
  have htime := toNat_slotTime h hn hfit
  have hfirst := toNat_slotTime (s := s) (n := 1) h (by decide) (by
    unfold blockInterval at hfit ⊢
    show _ + 1 * 3 < _
    omega)
  rw [show (1 : BitVec 32).toNat = 1 from rfl] at hfirst
  have hle : s.slotTime 1 ≤ s.slotTime n := by
    rw [BitVec.le_def, htime, hfirst]
    unfold blockInterval
    omega
  have hdiff : (s.slotTime n - s.slotTime 1).toNat / blockInterval + 1 = n.toNat := by
    rw [BitVec.toNat_sub_of_le hle, htime, hfirst]
    unfold blockInterval
    omega
  unfold slotAtTime
  rw [if_neg (BitVec.not_lt.mpr hle), hdiff, BitVec.ofNat_toNat, BitVec.setWidth_eq]

/-- The numbers of slots are the same on 32 bit numbers. -/
theorem toNat_slotAtTime (h : s.headBlockNumber = 0 → s.time % blockInterval = 0)
    {when : BitVec 32} (hlt : s.time < when.toNat) :
    (s.slotAtTime when).toNat = s.getSlotAtTime when.toNat := by
  have hwhen := when.isLt
  have hfirst := toNat_slotTime (s := s) (n := 1) h (by decide) (by
    unfold blockInterval
    show _ + 1 * 3 < _
    omega)
  rw [show (1 : BitVec 32).toNat = 1 from rfl] at hfirst
  unfold slotAtTime getSlotAtTime
  rw [getSlotTime_one h]
  rw [Nat.one_mul] at hfirst
  by_cases hle : s.slotTime 1 ≤ when
  . rw [if_neg (BitVec.not_lt.mpr hle), BitVec.toNat_ofNat, BitVec.toNat_sub_of_le hle, hfirst]
    rw [BitVec.le_def, hfirst] at hle
    rw [if_neg (Nat.not_lt.mpr hle)]
    unfold blockInterval at hle ⊢
    omega
  . have hlt := BitVec.not_le.mp hle
    rw [if_pos hlt]
    rw [BitVec.lt_def, hfirst] at hlt
    rw [if_pos hlt]
    rfl

end ChainState

namespace SlotState

/-- What holds of the slots in every state. -/
structure Inv (s : SlotState σ) : Prop where
  aligned : s.chain.headBlockNumber = 0 → s.chain.time % blockInterval = 0
  genesis_le : steemitGenesisTime ≤ s.chain.time
  currentAslot : s.chain.currentAslot =
    s.chain.time / blockInterval - steemitGenesisTime / blockInterval
  head : s.chain.currentAslot = 0 ∨ ∃ b ∈ s.chain.history, b.absoluteSlot = s.chain.currentAslot
  le : ∀ b ∈ s.chain.history, b.absoluteSlot ≤ s.chain.currentAslot
  accounted : Accounted s

theorem Genesis.inv {s : SlotState σ} (h : s.Genesis) : s.Inv := by
  have haligned : s.chain.headBlockNumber = 0 → s.chain.time % blockInterval = 0 := by
    intro _
    rw [h.time]
    rfl
  constructor
  . exact haligned
  . rw [h.time]
  . rw [h.currentAslot, h.time, Nat.sub_self]
  . exact .inl h.currentAslot
  . rw [h.history]
    intro b hb
    cases hb
  . constructor
    . rw [h.history]
      exact .nil
    . rw [h.slots, ShiftRegister.popcount_allOnes]
      rfl
    . intro k hk
      rw [h.slots, h.currentAslot, BitVec.getLsbD_allOnes]
      simp [hk]
    . intro n hn hfit
      exact ChainState.slotAtTime_slotTime haligned hn hfit

variable {s s' : SlotState σ} {b : SignedBlock}

theorem Inv.missedBlocks (h : s.Inv) :
    s.chain.missedBlocks b = s.chain.getSlotAtTime b.timestamp - 1 := by
  have := h.genesis_le
  unfold ChainState.missedBlocks
  rw [if_neg]
  unfold steemitGenesisTime at this
  omega

theorem Inv.produced (h : s.Inv) (hstep : Step p s b s') : Produced s b s' := by
  have hticks := ticks_of_applyBlock' hstep.2.1
  obtain ⟨hlater, hslot⟩ := ChainState.getSlotAtTime_eq h.aligned hticks.slot
  have hpos := hticks.slot
  have hgenesis := h.genesis_le
  have haslot := hticks.currentAslot
  rw [h.missedBlocks] at haslot
  constructor
  . omega
  . exact hlater
  . rw [haslot, h.currentAslot, hslot]
    unfold SignedBlock.absoluteSlot blockInterval at *
    omega
  . have hwhen : (BitVec.ofNat 32 b.timestamp).toNat = b.timestamp := by
      rw [BitVec.toNat_ofNat, Nat.mod_eq_of_lt hstep.1]
    have htime : s.chain.time < b.timestamp := by
      unfold blockInterval at hlater
      omega
    rw [ChainState.toNat_slotAtTime h.aligned (by rwa [hwhen]), hwhen]
    omega
  . intro hnum
    rw [hticks.witness hnum]
    unfold ChainState.getScheduledWitness
    rw [haslot]
    congr 2
    omega

/-- The new block fills its slot, and those that it passed over stay empty. -/
theorem Inv.recentSlotsFilled (h : s.Inv) (hstep : Step p s b s') {k : Nat} (hk : k < 128) :
    s'.slots.recentSlotsFilled.getLsbD k = true ↔
      s'.chain.currentAslot ≤ 1 + k ∨
        ∃ b ∈ s'.chain.history, b.absoluteSlot + 1 + k = s'.chain.currentAslot := by
  have hticks := ticks_of_applyBlock' hstep.2.1
  have hproduced := h.produced hstep
  have haslot := hticks.currentAslot
  have hnew := hproduced.absoluteSlot
  rw [hstep.2.2, SlotHistory.getLsbD_update _ _ hk, hticks.history]
  generalize s.chain.missedBlocks b = m at haslot ⊢
  split
  . next hlt =>
    apply iff_of_false Bool.false_ne_true
    rintro (hle | ⟨c, hc, heq⟩)
    . omega
    . rcases List.mem_cons.mp hc with rfl | hc
      . omega
      . have := h.le c hc
        omega
  . split
    . next heq =>
      apply iff_of_true rfl
      rcases h.head with hzero | ⟨c, hc, hhead⟩
      . left
        omega
      . right
        refine ⟨c, List.mem_cons_of_mem b hc, ?_⟩
        omega
    . next hne =>
      rw [h.accounted.recentSlotsFilled (k - (m + 1)) (by omega)]
      constructor
      . rintro (hle | ⟨c, hc, heq⟩)
        . left
          omega
        . right
          refine ⟨c, List.mem_cons_of_mem b hc, ?_⟩
          omega
      . rintro (hle | ⟨c, hc, heq⟩)
        . left
          omega
        . rcases List.mem_cons.mp hc with rfl | hc
          . omega
          . right
            refine ⟨c, hc, ?_⟩
            omega

theorem Inv.step (h : s.Inv) (hstep : Step p s b s') : s'.Inv := by
  have hticks := ticks_of_applyBlock' hstep.2.1
  have hproduced := h.produced hstep
  have hgenesis := h.genesis_le
  have hgrows := hproduced.currentAslot
  have hlater := hproduced.later
  have haslot : s'.chain.currentAslot =
      s'.chain.time / blockInterval - steemitGenesisTime / blockInterval := by
    rw [hticks.time, ← hproduced.absoluteSlot]
    rfl
  have haligned : s'.chain.headBlockNumber = 0 → s'.chain.time % blockInterval = 0 := by
    rw [hticks.headBlockNumber]
    intro hzero
    cases hzero
  have hle : ∀ c ∈ s'.chain.history, c.absoluteSlot ≤ s'.chain.currentAslot := by
    rw [hticks.history]
    intro c hc
    rcases List.mem_cons.mp hc with rfl | hc
    . exact hproduced.absoluteSlot.le
    . have := h.le c hc
      omega
  constructor
  . exact haligned
  . rw [hticks.time]
    unfold blockInterval at hlater
    omega
  . exact haslot
  . right
    refine ⟨b, ?_, hproduced.absoluteSlot⟩
    rw [hticks.history]
    exact List.mem_cons_self
  . exact hle
  . constructor
    . rw [hticks.history, List.pairwise_cons]
      refine ⟨?_, h.accounted.distinct⟩
      intro c hc
      have := h.le c hc
      rw [hproduced.absoluteSlot]
      omega
    . rw [hstep.2.2]
      exact SlotHistory.Counted.update h.accounted.participationCount _
    . intro k hk
      exact h.recentSlotsFilled hstep hk
    . intro n hn hfit
      exact ChainState.slotAtTime_slotTime haligned hn hfit

/--
Along every chain of blocks the slots are accounted for, and every block is produced in a slot of its
own by the witness that the schedule has for it.
-/
theorem slots_of_reachable (h : (system p).Reachable s) :
    s.Accounted ∧ ∀ b s', (system p).step s b s' → Produced s b s' := by
  have hinv : s.Inv := by
    apply h.invariant
    . intro s hs
      exact hs.inv
    . intro s b s' hs _ hstep
      exact Inv.step hs hstep
  exact ⟨hinv.accounted, fun b s' hstep => hinv.produced hstep⟩

/-- A protocol without operations, whose blocks anyone may sign. -/
def emptyProtocol : Protocol Unit where
  transactionId _ := 0
  blockHash _ := 0
  merkleRoot _ := 0
  publicKey := id
  sign key _ := key
  signee b := b.witnessSignature
  validate _ := .ok ()
  verifyAuthority _ _ := .ok ()
  applyOperations s _ := .ok s.shared
  endOfBlock s _ := .ok s.shared

/-- Two witnesses, one of whom is scheduled. -/
def genesisState : SlotState Unit where
  chain :=
    { time := steemitGenesisTime
      shared :=
        { witnesses := ⟨[{ owner := "alice" }, { owner := "bob" }], by decide⟩
          schedule :=
            { currentShuffledWitnesses := ["alice"]
              numScheduledWitnesses := 1
              numScheduledWitnesses_le := by decide }
          rest := () } }

/-- The first slot is missed. -/
def lateBlock : SignedBlock where
  previous := {}
  timestamp := steemitGenesisTime + 6
  witness := "alice"

def afterLateBlock : SlotState Unit where
  chain := (emptyProtocol.applyBlock' {} genesisState.chain lateBlock).toOption.getD
    genesisState.chain
  slots := genesisState.slots.update (genesisState.chain.missedBlocks lateBlock)

theorem reachable_afterLateBlock : (system emptyProtocol).Reachable afterLateBlock := by
  have hinitial : genesisState.Genesis := ⟨rfl, rfl, rfl, rfl, rfl⟩
  have happly : emptyProtocol.applyBlock' {} genesisState.chain lateBlock =
      .ok ((emptyProtocol.applyBlock' {} genesisState.chain lateBlock).toOption.getD
        genesisState.chain) :=
    eq_ok_of_isSome (by decide +kernel)
  exact .step (e := lateBlock) (.initial hinitial) trivial ⟨by decide, happly, rfl⟩

theorem slots_of_reachable_late :
    afterLateBlock.Accounted ∧ ∀ b s', (system emptyProtocol).step afterLateBlock b s' →
      Produced afterLateBlock b s' :=
  slots_of_reachable reachable_afterLateBlock

/-- A state before the blocks that any witness may produce. -/
def beforeStrayBlock : ChainState Unit :=
  { genesisState.chain with
    headBlockNumber := 65693820
    headBlockId := { num := 65693820 }
    time := 1674259200 }

def strayBlock : SignedBlock where
  previous := { num := 65693820 }
  timestamp := 1674259203
  witness := "bob"

/--
The lowest bit is not that of the slot of the head block, the time of a far slot does not fit into 32
bits, and there are blocks that a witness produces out of turn.
-/
theorem slots_trail_head :
    (system emptyProtocol).Reachable afterLateBlock ∧
    (¬∀ k < 128, afterLateBlock.slots.recentSlotsFilled.getLsbD k = true ↔
      ∃ b ∈ afterLateBlock.chain.history,
        b.absoluteSlot + k = afterLateBlock.chain.currentAslot) ∧
    afterLateBlock.chain.slotAtTime (afterLateBlock.chain.slotTime 0x55555556) ≠ 0x55555556 ∧
    emptyProtocol.validateBlockHeader {} beforeStrayBlock strayBlock = .ok () ∧
    strayBlock.witness ≠
      beforeStrayBlock.getScheduledWitness (beforeStrayBlock.getSlotAtTime strayBlock.timestamp) := by
  refine ⟨reachable_afterLateBlock, ?_, ?_, ?_, ?_⟩
  . intro h
    have hbit := (h 0 (by decide)).mpr ⟨lateBlock, by decide +kernel, by decide +kernel⟩
    have hnot : afterLateBlock.slots.recentSlotsFilled.getLsbD 0 = false := by decide +kernel
    rw [hnot] at hbit
    cases hbit
  . decide +kernel
  . rfl
  . decide +kernel

end SlotState

end Golos
