import Golos.Chain.Impl.Apply
import Golos.Chain.Impl.ForkDatabase

/-!
This module contains what a node keeps next to the state of the chain: `database` with its undo
sessions, its fork database, its block log and its pending transactions.
-/

namespace Golos

open Checked

/-- The entries of the block log are found by their numbers. -/
structure BlockLog where
  blocks : List SignedBlock
  numbered : ∀ i b, blocks[i]? = some b → b.blockNum = i + 1

namespace BlockLog

def empty : BlockLog :=
  ⟨[], by simp⟩

def headNum (log : BlockLog) : Nat :=
  match log.blocks.getLast? with
  | some head => head.blockNum
  | none => 0

/-- A block whose number is not the next one would be at the wrong position of the index file. -/
def append (log : BlockLog) (b : SignedBlock) : Result BlockLog :=
  if h : b.blockNum = log.blocks.length + 1 then
    .ok ⟨log.blocks ++ [b], by
      intro i c hc
      rw [List.getElem?_append] at hc
      split at hc
      . exact log.numbered i c hc
      . next hi =>
        have := List.getElem?_eq_some_iff.mp hc
        grind⟩
  else
    .error (.databaseCorrupted "wrong position in the index file")

def readBlockByNum (log : BlockLog) (num : Nat) : Option SignedBlock :=
  if num = 0 then none else log.blocks[num - 1]?

end BlockLog

structure Node (σ : Type) where
  db : UndoStack (ChainState σ)
  forkDb : ForkDatabase := {}
  blockLog : BlockLog := .empty
  pendingTx : List SignedTransaction := []
  /-- Whether `_pending_tx_session` is valid; it is then the newest session. -/
  pendingSession : Bool := false
  poppedTx : List SignedTransaction := []

namespace Node

variable {σ : Type} (p : Protocol σ)

def headBlockId (n : Node σ) : BlockId :=
  n.db.value.headBlockId

def headBlockNum (n : Node σ) : Nat :=
  n.db.value.headBlockNumber

/-- `_pending_tx_session.reset()` -/
def resetPendingSession (n : Node σ) : Node σ :=
  if n.pendingSession then { n with db := n.db.undo, pendingSession := false } else n

def clearPending (n : Node σ) : Node σ :=
  { n with pendingTx := [] }.resetPendingSession

def fetchBlockById (n : Node σ) (id : BlockId) : Option SignedBlock :=
  match n.forkDb.fetchBlock p id with
  | some item => some item.data
  | none => (n.blockLog.readBlockByNum id.num).filter fun b => p.blockId b = id

def fetchBlockByNumber (n : Node σ) (num : Nat) : Option SignedBlock :=
  match n.forkDb.fetchBlockByNumber num with
  | [item] => some item.data
  | _ => n.blockLog.readBlockByNum num

def findBlockIdForNum (n : Node σ) (num : Nat) : BlockId :=
  if num = 0 then
    {}
  else if (n.db.value.blockSummary (num % 2 ^ 16)).num = num then
    n.db.value.blockSummary (num % 2 ^ 16)
  else
    match n.blockLog.readBlockByNum num with
    | some b => p.blockId b
    | none =>
      match n.forkDb.fetchBlockOnMainBranchByNumber num with
      | some item => p.itemId item
      | none => {}

/-- Run `f` in a session of its own, which stays open when `f` succeeds. -/
def inSession (f : Node σ → Result Unit × Node σ) (n : Node σ) : Result Unit × Node σ :=
  match f { n with db := n.db.start } with
  | (.ok (), n) => (.ok (), n)
  | (.error e, n) => (.error e, { n with db := n.db.undo })

/-- The loop of `update_last_irreversible_block` that outputs `count` blocks to the block log. -/
def writeBlocks (forkDb : ForkDatabase) : Nat → BlockLog → Result Unit × BlockLog
  | 0, log => (.ok (), log)
  | count + 1, log =>
    match forkDb.fetchBlockOnMainBranchByNumber (log.headNum + 1) with
    | none =>
      (.error (.assertException
        "Current fork in the fork database does not contain the last_irreversible_block"), log)
    | some block =>
      match log.append block.data with
      | .error e => (.error e, log)
      | .ok log => writeBlocks forkDb count log

/-- The step of `update_last_irreversible_block` on the block log. -/
def writeBlockLog (skip : Skip) (n : Node σ) : Result Unit × Node σ :=
  if skip.blockLog then
    (.ok (), n)
  else
    let count := n.db.value.lastIrreversibleBlockNum - n.blockLog.headNum
    let (r, blockLog) := writeBlocks n.forkDb count n.blockLog
    (r, { n with blockLog := blockLog })

/-- Which part of the state a block leaves behind that fails early is of no interest: its session is
undone. -/
def applyBlock (skip : Skip) (b : SignedBlock) (n : Node σ) : Result Unit × Node σ :=
  match p.applyUntilIrreversible skip n.db.value b with
  | .error e => (.error e, n)
  | .ok s =>
    match writeBlockLog skip { n with db := (n.db.set s).commit s.lastIrreversibleBlockNum } with
    | (.error e, n) => (.error e, n)
    | (.ok (), n) =>
      let size := s.headBlockNumber - s.lastIrreversibleBlockNum + 1
      let n := { n with forkDb := n.forkDb.setMaxSize size }
      match p.applyAfterIrreversible s b with
      | .error (e, s) => (.error e, { n with db := n.db.set s })
      | .ok s => (.ok (), { n with db := n.db.set s })

def popBlock (n : Node σ) : Result Unit × Node σ :=
  let n := n.resetPendingSession
  match n.fetchBlockById p n.headBlockId with
  | none => (.error (.popEmptyChain "there are no blocks to pop"), n)
  | some headBlock =>
    match n.forkDb.popBlock with
    | .error e => (.error e, n)
    | .ok forkDb =>
      (.ok (),
        { n with
          forkDb := forkDb
          db := n.db.undo
          poppedTx := headBlock.transactions ++ n.poppedTx })

/-- Pop blocks until the head block has the given id. Every pop moves the head of the fork database
to an item that its `prev` leads to, so that `fuel` above its depth is never used up. -/
def popUntil (id : BlockId) : Nat → Node σ → Result Unit × Node σ
  | 0, n => (.error (.assertException "popping head block would leave fork DB empty"), n)
  | fuel + 1, n =>
    if n.headBlockId = id then
      (.ok (), n)
    else
      match popBlock p n with
      | (.error e, n) => (.error e, n)
      | (.ok (), n) => popUntil id fuel n

/-- `branches.second.back()->data.previous` -/
def forkPoint (branch : List ForkItem) : BlockId :=
  match branch.getLast? with
  | some item => item.previousId
  | none => {}

def popBranch (branch : List ForkItem) (n : Node σ) : Result Unit × Node σ :=
  popUntil p (forkPoint branch) ((n.forkDb.head.map ForkItem.depth).getD 0 + 1) n

/-- Push the blocks of a branch, oldest first; where one fails, with the branch from there on. -/
def applyBranch (skip : Skip) :
    List ForkItem → Node σ → Option (ChainException × List ForkItem) × Node σ
  | [], n => (none, n)
  | item :: items, n =>
    match inSession (applyBlock p skip item.data) n with
    | (.error e, n) => (some (e, item :: items), n)
    | (.ok (), n) => applyBranch skip items n

def removeBranch (forkDb : ForkDatabase) : List ForkItem → ForkDatabase
  | [] => forkDb
  | item :: items => removeBranch (forkDb.remove p (p.itemId item)) items

/-- After the block before `rest` failed with `e`: return to the branch `second`. -/
def restoreBranch (skip : Skip) (e : ChainException) (rest second : List ForkItem) (n : Node σ) :
    Result Bool × Node σ :=
  let forkDb := removeBranch p n.forkDb rest
  let forkDb :=
    match second.head? with
    | some item => forkDb.setHead item
    | none => forkDb
  match popBranch p second { n with forkDb := forkDb } with
  | (.error e, n) => (.error e, n)
  | (.ok (), n) =>
    match applyBranch p skip second.reverse n with
    | (some (e, _), n) => (.error e, n)
    | (none, n) => (.error e, n)

def switchBranch (skip : Skip) (first second : List ForkItem) (n : Node σ) :
    Result Bool × Node σ :=
  match popBranch p second n with
  | (.error e, n) => (.error e, n)
  | (.ok (), n) =>
    match applyBranch p skip first.reverse n with
    | (none, n) => (.ok true, n)
    | (some (e, rest), n) => restoreBranch p skip e rest second n

/-- Run `f` while variables point to `items`. -/
def holding (items : List ForkItem) (f : Node σ → Result Bool × Node σ) (n : Node σ) :
    Result Bool × Node σ :=
  let (r, n) := f { n with forkDb := { n.forkDb with held := items } }
  (r, { n with forkDb := { n.forkDb with held := [] } })

/-- The branch of `_push_block` that switches to another fork. -/
def switchForks (skip : Skip) (newHead : ForkItem) (n : Node σ) : Result Bool × Node σ :=
  match n.forkDb.fetchBranchFrom p (p.itemId newHead) n.headBlockId with
  | .error e => (.error e, n)
  | .ok (first, second) => holding (newHead :: first ++ second) (switchBranch p skip first second) n

/-- The branch of `_push_block` that extends the current chain. -/
def extendChain (skip : Skip) (b : SignedBlock) (n : Node σ) : Result Bool × Node σ :=
  match inSession (applyBlock p skip b) n with
  | (.error e, n) => (.error e, { n with forkDb := n.forkDb.remove p (p.blockId b) })
  | (.ok (), n) => (.ok false, n)

/-- The result is whether the node switched forks. -/
def pushBlock' (skip : Skip) (b : SignedBlock) (n : Node σ) : Result Bool × Node σ :=
  if skip.forkDb then
    extendChain p skip b n
  else
    match n.forkDb.pushBlock p b with
    | .error e => (.error e, n)
    | .ok (newHead, forkDb) =>
      let n := { n with forkDb := forkDb }
      if newHead.previousId ≠ n.headBlockId then
        if newHead.num > n.headBlockNum then
          switchForks p skip newHead n
        else
          (.ok false, n)
      else
        extendChain p skip b n

end Node

/-- How the requests for more shared memory end. -/
structure Memory where
  /-- `_resize` -/
  resize : Result Bool
  checkFreeMemory : Result Unit

namespace Node

variable {σ : Type} (p : Protocol σ)

/-- The state of the temporary session of a transaction that fails is undone. -/
def pushTransaction' (skip : Skip) (trx : SignedTransaction) (n : Node σ) : Result Unit × Node σ :=
  let n := if n.pendingSession then n else { n with db := n.db.start, pendingSession := true }
  match p.applyTransaction' skip n.db.value trx with
  | .error e => (.error e, n)
  | .ok s => (.ok (), { n with db := (n.db.start.set s).squash, pendingTx := n.pendingTx ++ [trx] })

def pushTransaction (skip : Skip) (trx : SignedTransaction) (n : Node σ) : Result Unit × Node σ :=
  if trx.packSize ≤ n.db.value.shared.maximumBlockSize - 256 then
    pushTransaction' p skip trx n
  else
    (.error .txTooLong, n)

def isKnownTransaction (n : Node σ) (id : Nat) : Bool :=
  (n.db.value.transactions.find? id).isSome

/-- A loop of `~pending_transactions_restorer`. -/
def restoreTransactions (skip : Skip) : List SignedTransaction → Node σ → Node σ
  | [], n => n
  | trx :: trxs, n =>
    if n.isKnownTransaction (p.transactionId trx) then
      restoreTransactions skip trxs n
    else
      restoreTransactions skip trxs (pushTransaction' p skip trx n).2

/-- `~pending_transactions_restorer` -/
def restorePending (skip : Skip) (pending : List SignedTransaction) (n : Node σ) : Node σ :=
  let n := restoreTransactions p skip n.poppedTx n
  let n := { n with poppedTx := [] }
  restoreTransactions p skip pending n

/-- The handler of the exceptions of `push_block`. -/
def retryPushBlock (memory : Memory) (skip : Skip) (b : SignedBlock) (e : ChainException)
    (n : Node σ) : Result Bool × Node σ :=
  if e = .badAlloc then
    match memory.resize with
    | .error e => (.error e, n)
    | .ok resized => if resized then pushBlock' p skip b n else (.error e, n)
  else
    (.error e, n)

def pushBlockOrRetry (memory : Memory) (skip : Skip) (b : SignedBlock) (n : Node σ) :
    Result Bool × Node σ :=
  match pushBlock' p skip b n with
  | (.error e, n) => retryPushBlock p memory skip b e n
  | (.ok switched, n) =>
    match memory.checkFreeMemory with
    | .error e => retryPushBlock p memory skip b e n
    | .ok () => (.ok switched, n)

/-- The result is whether the node switched forks. -/
def pushBlock (memory : Memory) (skip : Skip) (b : SignedBlock) (n : Node σ) :
    Result Bool × Node σ :=
  let pending := n.pendingTx
  let (r, n) := pushBlockOrRetry p memory skip b n.clearPending
  (r, restorePending p skip pending n)

/-- `max_block_header_size` -/
def maxBlockHeaderSize : Nat :=
  ({ previous := {}, timestamp := 0, witness := "" } : SignedBlock).headerPackSize + 4

/-- The transactions that go into a block, each applied on top of the ones before it. -/
def selectTransactions (skip : Skip) (when maximumBlockSize : Nat) :
    Nat → ChainState σ → List SignedTransaction → List SignedTransaction
  | _, _, [] => []
  | totalBlockSize, s, trx :: trxs =>
    if trx.expiration < when then
      selectTransactions skip when maximumBlockSize totalBlockSize s trxs
    else if totalBlockSize + trx.packSize ≥ maximumBlockSize then
      selectTransactions skip when maximumBlockSize totalBlockSize s trxs
    else
      match p.applyTransaction' skip s trx with
      | .error _ => selectTransactions skip when maximumBlockSize totalBlockSize s trxs
      | .ok s =>
        trx :: selectTransactions skip when maximumBlockSize (totalBlockSize + trx.packSize) s trxs

/-- The extensions that tell the version of the witness, and what it votes for. -/
def headerExtensions (s : ChainState σ) (witness : WitnessObject) : List BlockHeaderExtension :=
  let hfp := s.shared.hardfork
  let version :=
    if witness.runningVersion ≠ blockchainVersion then [.version blockchainVersion] else []
  let vote :=
    if hfp.currentHardforkVersion < blockchainHardforkVersion
        ∧ (witness.hardforkVersionVote ≠ p.hardforkVersions (hfp.lastHardfork + 1)
          ∨ witness.hardforkTimeVote ≠ p.hardforkTimes (hfp.lastHardfork + 1)) then
      [.hardforkVersionVote (p.hardforkVersions (hfp.lastHardfork + 1))
        (p.hardforkTimes (hfp.lastHardfork + 1))]
    else if hfp.currentHardforkVersion = blockchainHardforkVersion
        ∧ witness.hardforkVersionVote > blockchainHardforkVersion then
      [.hardforkVersionVote (p.hardforkVersions hfp.lastHardfork)
        (p.hardforkTimes hfp.lastHardfork)]
    else
      []
  version ++ vote

/-- The checks that `_generate_block` makes before it drops the pending session. -/
def checkProducer (skip : Skip) (when : Nat) (witnessOwner : AccountName) (key : Nat)
    (s : ChainState σ) : Result Unit := do
  let slotNum := s.getSlotAtTime when
  ensure (slotNum > 0) (.assertException "slot_num > 0")
  ensure (s.getScheduledWitness slotNum = witnessOwner)
    (.assertException "scheduled_witness == witness_owner")
  let witnessObj ← s.getWitness witnessOwner
  if !skip.witnessSignature then
    ensure (witnessObj.signingKey = p.publicKey key) (.assertException "witness_obj.signing_key")

/-- The pending block on top of the state of the head block. -/
def assembleBlock (skip : Skip) (when : Nat) (witnessOwner : AccountName) (key : Nat)
    (maximumBlockSize : Nat) (s : ChainState σ) (pending : List SignedTransaction) :
    Result SignedBlock := do
  let transactions := selectTransactions p skip when maximumBlockSize maxBlockHeaderSize s pending
  let witness ← s.getWitness witnessOwner
  let pendingBlock :=
    { previous := s.headBlockId
      timestamp := when
      witness := witnessOwner
      transactionMerkleRoot := p.merkleRoot transactions
      extensions := headerExtensions p s witness
      transactions := transactions }
  let pendingBlock :=
    if skip.witnessSignature then
      pendingBlock
    else
      { pendingBlock with witnessSignature := p.sign key pendingBlock }
  if !skip.blockSizeCheck then
    ensure (pendingBlock.packSize ≤ maxBlockSize) (.assertException "STEEMIT_MAX_BLOCK_SIZE")
  pure pendingBlock

def generateBlock' (memory : Memory) (skip : Skip) (when : Nat) (witnessOwner : AccountName)
    (key : Nat) (n : Node σ) : Result SignedBlock × Node σ :=
  match checkProducer p skip when witnessOwner key n.db.value with
  | .error e => (.error e, n)
  | .ok () =>
    let maximumBlockSize := n.db.value.shared.maximumBlockSize
    let n := n.resetPendingSession
    match assembleBlock p skip when witnessOwner key maximumBlockSize n.db.value n.pendingTx with
    | .error e => (.error e, n)
    | .ok pendingBlock =>
      match pushBlock p memory skip pendingBlock n with
      | (.error e, n) => (.error e, n)
      | (.ok _, n) => (.ok pendingBlock, n)

end Node

end Golos
