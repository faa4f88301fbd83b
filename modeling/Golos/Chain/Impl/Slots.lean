import Golos.Lib.ShiftRegister
import Golos.Lib.Transition
import Golos.Chain.Impl.Apply

/-!
This module contains the accounting of the slots that blocks fall in: their times, the history of the
latest slots, and the runs of the chain that fill it.
-/

namespace Golos

/-- `STEEMIT_GENESIS_TIME` -/
def steemitGenesisTime : Nat := 1476788400

namespace ChainState

variable {σ : Type} (s : ChainState σ)

/-- `get_slot_time` on the 32 bit numbers of the source. -/
def slotTime (slotNum : BitVec 32) : BitVec 32 :=
  if slotNum = 0 then
    0
  else if s.headBlockNumber = 0 then
    BitVec.ofNat 32 s.time + slotNum * BitVec.ofNat 32 blockInterval
  else
    BitVec.ofNat 32 (s.time / blockInterval * blockInterval) +
      slotNum * BitVec.ofNat 32 blockInterval

/-- `get_slot_at_time` on the 32 bit numbers of the source. -/
def slotAtTime (when : BitVec 32) : BitVec 32 :=
  if when < s.slotTime 1 then
    0
  else
    BitVec.ofNat 32 ((when - s.slotTime 1).toNat / blockInterval + 1)

/-- The slots without a block between the head block and `b`. -/
def missedBlocks (b : SignedBlock) : Nat :=
  if s.time = 0 then 0 else s.getSlotAtTime b.timestamp - 1

end ChainState

/-- The fields of the dynamic global properties that remember which slots were filled. -/
structure SlotHistory where
  recentSlotsFilled : BitVec 128 := BitVec.allOnes 128
  participationCount : BitVec 8 := 128
  deriving DecidableEq

namespace SlotHistory

/-- A turn of the loop of `update_global_dynamic_data`. -/
def shift (h : SlotHistory) (filled : Bool) : SlotHistory where
  participationCount :=
    h.participationCount - (if h.recentSlotsFilled.msb then 1 else 0) + (if filled then 1 else 0)
  recentSlotsFilled := ShiftRegister.push h.recentSlotsFilled filled

/-- The loop: the slot that is entered as filled comes first. -/
def update (h : SlotHistory) (missedBlocks : Nat) : SlotHistory :=
  ((List.range (missedBlocks + 1)).map fun i => decide (i = 0)).foldl shift h

end SlotHistory

structure SlotState (σ : Type) where
  chain : ChainState σ
  slots : SlotHistory := {}

/-- The number of the slot of a block, counted from the genesis time. -/
def SignedBlock.absoluteSlot (b : SignedBlock) : Nat :=
  b.timestamp / blockInterval - steemitGenesisTime / blockInterval

namespace SlotState

variable {σ : Type}

/-- What `init_genesis` leaves. -/
structure Genesis (s : SlotState σ) : Prop where
  headBlockNumber : s.chain.headBlockNumber = 0
  time : s.chain.time = steemitGenesisTime
  currentAslot : s.chain.currentAslot = 0
  history : s.chain.history = []
  slots : s.slots = {}

/-- A block whose timestamp is a 32 bit number is accepted with no skip flags. -/
def Step (p : Protocol σ) (s : SlotState σ) (b : SignedBlock) (s' : SlotState σ) : Prop :=
  b.timestamp < 2 ^ 32 ∧ p.applyBlock' {} s.chain b = .ok s'.chain ∧
    s'.slots = s.slots.update (s.chain.missedBlocks b)

def system (p : Protocol σ) : TransitionSystem (SlotState σ) SignedBlock where
  initial := Genesis
  step := Step p

/-- The numbers of blocks that any witness may produce. -/
def Unscheduled (b : SignedBlock) : Prop :=
  65693821 ≤ b.blockNum ∧ b.blockNum ≤ 65893852

/-- What the slots of the blocks of a chain say of its state. -/
structure Accounted (s : SlotState σ) : Prop where
  distinct : s.chain.history.Pairwise fun b b' => b'.absoluteSlot < b.absoluteSlot
  participationCount :
    s.slots.participationCount.toNat = ShiftRegister.popcount s.slots.recentSlotsFilled
  /-- The slot of the head block is not in the history yet, those up to the genesis are filled. -/
  recentSlotsFilled : ∀ k < 128, s.slots.recentSlotsFilled.getLsbD k = true ↔
    s.chain.currentAslot ≤ 1 + k ∨
      ∃ b ∈ s.chain.history, b.absoluteSlot + 1 + k = s.chain.currentAslot
  slotAtTime : ∀ n : BitVec 32, n ≠ 0 →
    s.chain.time / blockInterval * blockInterval + n.toNat * blockInterval < 2 ^ 32 →
      s.chain.slotAtTime (s.chain.slotTime n) = n

/-- What an accepted block says of its slot. -/
structure Produced (s : SlotState σ) (b : SignedBlock) (s' : SlotState σ) : Prop where
  currentAslot : s'.chain.currentAslot =
    s.chain.currentAslot + (b.timestamp / blockInterval - s.chain.time / blockInterval)
  later : s.chain.time / blockInterval < b.timestamp / blockInterval
  absoluteSlot : b.absoluteSlot = s'.chain.currentAslot
  slotAtTime : (s.chain.slotAtTime (BitVec.ofNat 32 b.timestamp)).toNat =
    s'.chain.currentAslot - s.chain.currentAslot
  witness : ¬Unscheduled b → b.witness =
    s.chain.shared.schedule.currentShuffledWitnesses.getD
      (s'.chain.currentAslot % s.chain.shared.schedule.numScheduledWitnesses) ""

end SlotState

end Golos
