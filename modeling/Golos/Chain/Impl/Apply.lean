import Golos.Lib.UndoStack
import Golos.Ledger.Basic
import Golos.Lib.Sorting

/-!
This module contains blocks, transactions and the part of the state of the chain that their processing
reads and writes, and this processing, under the rules of the latest hardfork. Times are seconds, block
numbers are natural numbers.
-/

namespace Golos

/-- `block_id_type`: the number of the block and the rest of the hash. -/
structure BlockId where
  num : Nat := 0
  hash : Nat := 0
  deriving DecidableEq

/-- Packed data: how many bytes, and which. -/
structure Packed where
  size : Nat := 0
  bytes : Nat := 0
  deriving DecidableEq

structure SignedTransaction where
  refBlockNum : Nat
  refBlockPrefix : Nat
  expiration : Nat
  /-- The operations and extensions. -/
  operations : Packed
  signatures : Packed := {}
  deriving DecidableEq

inductive BlockHeaderExtension where
  | void
  | version (version : Nat)
  | hardforkVersionVote (hfVersion hfTime : Nat)
  deriving DecidableEq

structure SignedBlock where
  previous : BlockId
  timestamp : Nat
  witness : AccountName
  transactionMerkleRoot : Nat := 0
  extensions : List BlockHeaderExtension := []
  witnessSignature : Nat := 0
  transactions : List SignedTransaction := []
  deriving DecidableEq

def SignedBlock.blockNum (b : SignedBlock) : Nat :=
  b.previous.num + 1

/-- How many bytes `unsigned_int`, a number of 32 bits, takes: seven bits in each. -/
def varintSize (n : Nat) : Nat :=
  if n < 2 ^ 7 then 1
  else if n < 2 ^ 14 then 2
  else if n < 2 ^ 21 then 3
  else if n < 2 ^ 28 then 4
  else 5

/-- `fc::raw::pack_size(trx)` -/
def SignedTransaction.packSize (trx : SignedTransaction) : Nat :=
  2 + 4 + 4 + trx.operations.size + trx.signatures.size

def BlockHeaderExtension.packSize : BlockHeaderExtension → Nat
  | .void => 1
  | .version _ => 1 + 4
  | .hardforkVersionVote _ _ => 1 + 4 + 4

def SignedBlock.headerPackSize (b : SignedBlock) : Nat :=
  20 + 4 + (varintSize b.witness.utf8ByteSize + b.witness.utf8ByteSize) + 20
    + (varintSize b.extensions.length + (b.extensions.map BlockHeaderExtension.packSize).sum) + 65

/-- `fc::raw::pack_size(block)` -/
def SignedBlock.packSize (b : SignedBlock) : Nat :=
  b.headerPackSize
    + (varintSize b.transactions.length + (b.transactions.map SignedTransaction.packSize).sum)

structure WitnessObject where
  owner : AccountName
  /-- `public_key_type()` is 0. -/
  signingKey : Nat := 0
  runningVersion : Nat := 0
  hardforkVersionVote : Nat := 0
  hardforkTimeVote : Nat := 0
  deriving DecidableEq

structure WitnessScheduleObject where
  currentShuffledWitnesses : List AccountName
  numScheduledWitnesses : Nat
  numScheduledWitnesses_le : numScheduledWitnesses ≤ currentShuffledWitnesses.length
  witnessSkippingResetTime : Nat := 60 * 60 * 24
  deriving DecidableEq

structure HardforkPropertyObject where
  lastHardfork : Nat := 0
  currentHardforkVersion : Nat := 0
  deriving DecidableEq

/-- What evaluators and the processing at block ends write, with the rest of the state `σ`. -/
structure SharedState (σ : Type) where
  witnesses : Table WitnessObject.owner
  schedule : WitnessScheduleObject
  hardfork : HardforkPropertyObject := {}
  maximumBlockSize : Nat := 2 * 65536
  transitBlockNum : Nat := 2 ^ 32 - 1
  rest : σ

structure TransactionObject where
  trxId : Nat
  expiration : Nat
  deriving DecidableEq

/--
The state of the chain. Evaluators cannot write the fields of this structure other than `shared`, as
they do not in the source.
-/
structure ChainState (σ : Type) where
  headBlockNumber : Nat := 0
  headBlockId : BlockId := {}
  time : Nat
  currentAslot : Nat := 0
  lastIrreversibleBlockNum : Nat := 0
  currentWitness : AccountName := ""
  blockSummary : Nat → BlockId := fun _ => {}
  transactions : Table TransactionObject.trxId := .empty
  /-- `last_confirmed_block_num` of the witnesses. -/
  lastConfirmedBlockNum : AccountName → Nat := fun _ => 0
  shared : SharedState σ
  /-- The blocks of the current chain, newest first. No function reads them. -/
  history : List SignedBlock := []

/-- Which steps of the validation are left out. -/
structure Skip where
  witnessSignature : Bool := false
  transactionSignatures : Bool := false
  transactionDupeCheck : Bool := false
  forkDb : Bool := false
  blockSizeCheck : Bool := false
  taposCheck : Bool := false
  authorityCheck : Bool := false
  merkleCheck : Bool := false
  undoHistoryCheck : Bool := false
  witnessScheduleCheck : Bool := false
  validateOperations : Bool := false
  blockLog : Bool := false
  deriving DecidableEq

/--
What is not part of this model: hash functions and signatures, tables of constants, evaluators and
the processing at block ends.
-/
structure Protocol (σ : Type) where
  transactionId : SignedTransaction → Nat
  blockHash : SignedBlock → Nat
  merkleRoot : List SignedTransaction → Nat
  publicKey : Nat → Nat
  sign : Nat → SignedBlock → Nat
  signee : SignedBlock → Nat
  /-- `get_shared_db_merkle` -/
  sharedDbMerkle : Nat → Option Nat := fun _ => none
  hardforkVersions : Nat → Nat := fun _ => 0
  hardforkTimes : Nat → Nat := fun _ => 0
  /-- `trx.validate()` -/
  validate : SignedTransaction → Result Unit
  verifyAuthority : ChainState σ → SignedTransaction → Result Unit
  /-- The bandwidth of the signers, and the operations of the transaction. -/
  applyOperations : ChainState σ → SignedTransaction → Result (SharedState σ)
  /-- Everything that follows `create_block_summary`; a failure leaves some state behind. -/
  endOfBlock : ChainState σ → SignedBlock → Except (ChainException × SharedState σ) (SharedState σ)

/-- `signed_block_header::id` -/
def Protocol.blockId {σ : Type} (p : Protocol σ) (b : SignedBlock) : BlockId :=
  ⟨b.blockNum, p.blockHash b⟩

open Checked

def blockInterval : Nat := 3

/-- `STEEMIT_START_MINER_VOTING_BLOCK` -/
def startMinerVotingBlock : Nat := 60 * 10 / blockInterval

/-- `STEEMIT_MAX_WITNESSES` -/
def maxWitnesses : Nat := 19 + 1 + 1

/-- `STEEMIT_100_PERCENT` -/
def percent100 : Nat := 10000

/-- `STEEMIT_IRREVERSIBLE_THRESHOLD` -/
def irreversibleThreshold : Nat := 75 * (percent100 / 100)

/-- `STEEMIT_MAX_UNDO_HISTORY` -/
def maxUndoHistory : Nat := 10000

/-- `STEEMIT_MAX_TIME_UNTIL_EXPIRATION` -/
def maxTimeUntilExpiration : Nat := 60 * 60

/-- `STEEMIT_BLOCKS_PER_DAY` -/
def blocksPerDay : Nat := 24 * 60 * 60 / blockInterval

/-- `STEEMIT_MAX_BLOCK_SIZE` -/
def maxBlockSize : Nat := 1024 * 64 * blockInterval * 2000

/-- `STEEMIT_BLOCKCHAIN_VERSION`, `version(0, 30, 0)` -/
def blockchainVersion : Nat := 30 * 2 ^ 16

/-- `STEEMIT_BLOCKCHAIN_HARDFORK_VERSION`: a version without its last part. -/
def blockchainHardforkVersion : Nat := blockchainVersion / 2 ^ 16 * 2 ^ 16

namespace ChainState

variable {σ : Type}

def getWitness (s : ChainState σ) (name : AccountName) : Result WitnessObject :=
  get (s.shared.witnesses.find? name) (.missingObject "witness")

def getSlotTime (s : ChainState σ) (slotNum : Nat) : Nat :=
  if slotNum = 0 then
    0
  else if s.headBlockNumber = 0 then
    s.time + slotNum * blockInterval
  else
    s.time / blockInterval * blockInterval + slotNum * blockInterval

def getSlotAtTime (s : ChainState σ) (when : Nat) : Nat :=
  if when < s.getSlotTime 1 then 0 else (when - s.getSlotTime 1) / blockInterval + 1

def getScheduledWitness (s : ChainState σ) (slotNum : Nat) : AccountName :=
  s.shared.schedule.currentShuffledWitnesses.getD
    ((s.currentAslot + slotNum) % s.shared.schedule.numScheduledWitnesses) ""

def isTransitEnabled (s : ChainState σ) : Bool :=
  s.shared.transitBlockNum ≠ 2 ^ 32 - 1

def modifyWitness (s : ChainState σ) (name : AccountName) (f : WitnessObject → WitnessObject)
    (hf : autoParam (∀ w, (f w).owner = w.owner) Monoid.npow_zero._autoParam) : ChainState σ :=
  { s with shared := { s.shared with witnesses := s.shared.witnesses.modify name f hf } }

/-- The witness of a missed slot loses its key when it has not produced blocks for long. -/
def missSlot (s : ChainState σ) (b : SignedBlock) (slotNum : Nat) : Result (ChainState σ) := do
  let w ← s.getWitness (s.getScheduledWitness slotNum)
  let unconfirmed := s.headBlockNumber - s.lastConfirmedBlockNum w.owner
  let resetBlocks := s.shared.schedule.witnessSkippingResetTime / blockInterval
  let shutdown : Bool :=
    if s.isTransitEnabled then
      if s.headBlockNumber - s.shared.transitBlockNum < 210 then
        30 < unconfirmed
      else
        resetBlocks < unconfirmed ∨ blocksPerDay < unconfirmed
    else
      resetBlocks < unconfirmed
  if w.owner ≠ b.witness ∧ shutdown then
    pure (s.modifyWitness w.owner fun w => { w with signingKey := 0 })
  else
    pure s

def missSlots (s : ChainState σ) (b : SignedBlock) : List Nat → Result (ChainState σ)
  | [] => pure s
  | slotNum :: slots => do
    let s ← s.missSlot b slotNum
    s.missSlots b slots

/-- The step of `update_last_irreversible_block` on the state. -/
def updateLastIrreversibleBlockNum (s : ChainState σ) : Result (ChainState σ) := do
  if s.headBlockNumber < startMinerVotingBlock then
    if s.headBlockNumber > maxWitnesses then
      pure { s with lastIrreversibleBlockNum := s.headBlockNumber - maxWitnesses }
    else
      pure s
  else
    let wso := s.shared.schedule
    let witObjs ← (wso.currentShuffledWitnesses.take wso.numScheduledWitnesses).mapM s.getWitness
    let confirmed := witObjs.map fun w => s.lastConfirmedBlockNum w.owner
    let offset := (percent100 - irreversibleThreshold) * witObjs.length / percent100
    match OrderStat.nthElement confirmed offset with
    | none => throw (.assertException "no scheduled witnesses")
    | some newNum =>
      if newNum > s.lastIrreversibleBlockNum then
        let newNum :=
          if s.isTransitEnabled ∧ s.shared.transitBlockNum > s.lastIrreversibleBlockNum
              ∧ s.shared.transitBlockNum ≤ newNum then
            s.shared.transitBlockNum
          else
            newNum
        pure { s with lastIrreversibleBlockNum := newNum }
      else
        pure s

def clearExpiredTransactions (s : ChainState σ) : ChainState σ :=
  { s with transactions := s.transactions.filter fun trx => !(s.time > trx.expiration) }

end ChainState

namespace Protocol

variable {σ : Type} (p : Protocol σ)

def validateBlock' (skip : Skip) (s : ChainState σ) (b : SignedBlock) : Result Unit := do
  if !skip.merkleCheck then
    let merkleRoot := p.merkleRoot b.transactions
    ensure (b.transactionMerkleRoot = merkleRoot ∨ p.sharedDbMerkle b.blockNum = some merkleRoot)
      (.assertException "Merkle check failed")
  if !skip.blockSizeCheck then
    ensure (b.packSize ≤ s.shared.maximumBlockSize) (.assertException "Block Size is too Big")

def validateBlockHeader (skip : Skip) (s : ChainState σ) (b : SignedBlock) : Result Unit := do
  ensure (s.headBlockId = b.previous) (.assertException "head_block_id() == next_block.previous")
  ensure (s.time < b.timestamp) (.assertException "head_block_time() < next_block.timestamp")
  let witness ← s.getWitness b.witness
  if !skip.witnessSignature then
    ensure (p.signee b = witness.signingKey) (.assertException "validate_signee")
  if !skip.witnessScheduleCheck then
    let slotNum := s.getSlotAtTime b.timestamp
    ensure (slotNum > 0) (.assertException "slot_num > 0")
    ensure (¬(b.blockNum < 65693821 ∨ b.blockNum > 65893852)
        ∨ witness.owner = s.getScheduledWitness slotNum)
      (.assertException "Witness produced block at wrong time")

/-- One turn of the loop of `process_header_extensions`. -/
def processHeaderExtension (s : ChainState σ) (b : SignedBlock) :
    BlockHeaderExtension → Result (ChainState σ)
  | .void => pure s
  | .version version => do
    let w ← s.getWitness b.witness
    pure (s.modifyWitness w.owner fun w => { w with runningVersion := version })
  | .hardforkVersionVote hfVersion hfTime => do
    let w ← s.getWitness b.witness
    pure (s.modifyWitness w.owner fun w =>
      { w with hardforkVersionVote := hfVersion, hardforkTimeVote := hfTime })

def processHeaderExtensions (s : ChainState σ) (b : SignedBlock) :
    List BlockHeaderExtension → Result (ChainState σ)
  | [] => pure s
  | extension :: extensions => do
    let s ← processHeaderExtension s b extension
    processHeaderExtensions s b extensions

def validateTransaction' (skip : Skip) (s : ChainState σ) (trx : SignedTransaction) :
    Result Unit := do
  if !skip.validateOperations then
    p.validate trx
  if !(skip.transactionSignatures || skip.authorityCheck) then
    p.verifyAuthority s trx
  if s.headBlockNumber > 0 then
    if !skip.taposCheck then
      ensure (trx.refBlockPrefix = (s.blockSummary trx.refBlockNum).hash % 2 ^ 32)
        (.txInvalidField "ref_block_prefix")
    ensure (trx.expiration ≤ s.time + maxTimeUntilExpiration) (.txInvalidField "expiration")
    ensure (s.time < trx.expiration) .txExpired

/-- Create the object of the transaction, unless `skip_transaction_dupe_check` is set. -/
def createTransactionObject (skip : Skip) (s : ChainState σ) (trx : SignedTransaction) :
    Result (ChainState σ) := do
  if skip.transactionDupeCheck then
    pure s
  else
    let transactions ←
      get (s.transactions.emplace ⟨p.transactionId trx, trx.expiration⟩) .uniquenessViolated
    pure { s with transactions := transactions }

def applyTransaction' (skip : Skip) (s : ChainState σ) (trx : SignedTransaction) :
    Result (ChainState σ) := do
  ensure (skip.transactionDupeCheck ∨ s.transactions.find? (p.transactionId trx) = none)
    .txDuplicateTransaction
  p.validateTransaction' skip s trx
  let s ← p.createTransactionObject skip s trx
  let shared ← p.applyOperations s trx
  pure { s with shared := shared }

def applyTransactions (skip : Skip) (s : ChainState σ) :
    List SignedTransaction → Result (ChainState σ)
  | [] => pure s
  | trx :: trxs => do
    let s ← p.applyTransaction' skip s trx
    applyTransactions skip s trxs

def updateGlobalDynamicData (skip : Skip) (s : ChainState σ) (b : SignedBlock) :
    Result (ChainState σ) := do
  let missedBlocks := if s.time = 0 then 0 else s.getSlotAtTime b.timestamp - 1
  let s ← s.missSlots b ((List.range missedBlocks).map (· + 1))
  let s :=
    { s with
      headBlockNumber := b.blockNum
      headBlockId := p.blockId b
      time := b.timestamp
      currentAslot := s.currentAslot + missedBlocks + 1
      history := b :: s.history }
  ensure (skip.undoHistoryCheck
      ∨ s.headBlockNumber - s.lastIrreversibleBlockNum < maxUndoHistory)
    (.undoDatabaseException "The database does not have enough undo history")
  pure s

def updateSigningWitness (s : ChainState σ) (b : SignedBlock) : ChainState σ :=
  { s with
    lastConfirmedBlockNum := fun name =>
      if name = b.witness then b.blockNum else s.lastConfirmedBlockNum name }

/-- The checks of `_apply_block` on the block and its transactions. -/
def applyContents (skip : Skip) (s : ChainState σ) (b : SignedBlock) : Result (ChainState σ) := do
  p.validateBlock' skip s b
  p.validateBlockHeader skip s b
  let s := { s with currentWitness := b.witness }
  let s ← processHeaderExtensions s b b.extensions
  let witness ← s.getWitness b.witness
  ensure (s.shared.hardfork.currentHardforkVersion ≤ witness.runningVersion)
    (.assertException "Block produced by witness that is not running current hardfork")
  p.applyTransactions skip s b.transactions

/-- `_apply_block` up to the new `last_irreversible_block_num`. -/
def applyUntilIrreversible (skip : Skip) (s : ChainState σ) (b : SignedBlock) :
    Result (ChainState σ) := do
  let s ← p.applyContents skip s b
  let s ← p.updateGlobalDynamicData skip s b
  (updateSigningWitness s b).updateLastIrreversibleBlockNum

def createBlockSummary (s : ChainState σ) (b : SignedBlock) : ChainState σ :=
  { s with
    blockSummary := fun i => if i = b.blockNum % 2 ^ 16 then p.blockId b else s.blockSummary i }

/-- `_apply_block` after `update_last_irreversible_block`. -/
def applyAfterIrreversible (s : ChainState σ) (b : SignedBlock) :
    Except (ChainException × ChainState σ) (ChainState σ) :=
  let s := (p.createBlockSummary s b).clearExpiredTransactions
  match p.endOfBlock s b with
  | .error (e, shared) => .error (e, { s with shared := shared })
  | .ok shared => .ok { s with shared := shared }

/-- What `_apply_block` does to the state of the chain. -/
def applyBlock' (skip : Skip) (s : ChainState σ) (b : SignedBlock) : Result (ChainState σ) := do
  let s ← p.applyUntilIrreversible skip s b
  (p.applyAfterIrreversible s b).mapError Prod.fst

end Protocol

end Golos
