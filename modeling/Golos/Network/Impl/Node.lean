import Mathlib.Data.Finset.Card
import Golos.Lib.Checked
import Golos.Lib.Table

/-!
This module contains what the network asks the chain for, what a node knows about its peers, the
blocks it asks them for and the blocks it hands to the chain, and what its handlers share.
-/

namespace Golos

open Checked

/-- `fc::ripemd160`, a number of 160 bits whose first word is the number of the block. -/
abbrev ItemHash := Nat

/-- `block_header::num_from_id` -/
def numFromId (id : ItemHash) : Nat :=
  id / 2 ^ 128 % 2 ^ 32

inductive ItemType where
  | trx
  | block
  deriving DecidableEq

structure ItemId where
  itemType : ItemType
  itemHash : ItemHash
  deriving DecidableEq

inductive DelegateError where
  | blockOlderThanUndoHistory
  | peerIsOnAnUnreachableFork
  | exception
  /-- An element outside of a vector is read. -/
  | outOfRange
  /-- A loop does not end. -/
  | endless
  deriving DecidableEq

/-- What the plugin reads of the chain at a moment. -/
structure ChainView where
  headBlockNum : Nat
  lastNonUndoableBlockNum : Nat := 0
  /-- `find_block_id_for_num`, where it finds one. -/
  blockIdForNum : Nat → Option ItemHash
  isKnownBlock : ItemHash → Bool
  isKnownTransaction : ItemHash → Bool := fun _ => false
  /-- The time of a block that `fetch_block_by_id` finds. -/
  timestamp : ItemHash → Option Nat := fun _ => none
  /-- `get_block_ids_on_fork`, unless it throws. -/
  blockIdsOnFork : ItemHash → Option (List ItemHash) := fun _ => none
  now : Nat := 0

/--
The loops over the numbers of a synopsis, which take half of the way to `trueHigh` in every turn. They
visit a number before they compare the next one with `high`; the numbers have 32 bits.
-/
def halvingLoop (visit : Nat → Except DelegateError (Option ItemHash)) (trueHigh high : Nat) :
    Nat → Nat → Except DelegateError (List ItemHash)
  | 0, _ => throw .endless
  | turns + 1, low => do
    let item ← visit low
    let next := (low + (trueHigh + 2 ^ 32 - low + 2) % 2 ^ 32 / 2) % 2 ^ 32
    if next ≤ high then
      let rest ← halvingLoop visit trueHigh high turns next
      pure (item.toList ++ rest)
    else
      pure item.toList

namespace ChainView

variable (v : ChainView)

def hasItem (id : ItemId) : Bool :=
  match id.itemType with
  | .block => v.isKnownBlock id.itemHash
  | .trx => v.isKnownTransaction id.itemHash

/-- `time_point_sec::min` is 0. -/
def getBlockTime (id : ItemHash) : Nat :=
  (v.timestamp id).getD 0

def getBlockIdForNum (num : Nat) : Except DelegateError ItemHash :=
  get (if num = 0 then none else v.blockIdForNum num) .exception

def isIncludedBlock (id : ItemHash) : Except DelegateError Bool := do
  let included ← v.getBlockIdForNum (numFromId id)
  pure (id = included)

/-- The loop of `get_block_ids` for the last block of the synopsis, read from its end, that we have. -/
def findLastKnown : List ItemHash → Except DelegateError ItemHash
  | [] => throw .peerIsOnAnUnreachableFork
  | id :: ids =>
    if id = 0 then
      pure id
    else if v.isKnownBlock id then do
      let included ← v.isIncludedBlock id
      if included then pure id else findLastKnown ids
    else
      findLastKnown ids

/-- With the number of items that remain. -/
def getBlockIds (synopsis : List ItemHash) (limit : Nat) :
    Except DelegateError (List ItemHash × Nat) :=
  if v.headBlockNum = 0 then
    pure ([], 0)
  else do
    let lastKnown ←
      if synopsis = [] ∨ synopsis = [0] then pure 0 else v.findLastKnown synopsis.reverse
    let first := max 1 (numFromId lastKnown)
    let nums := (List.range' first (v.headBlockNum + 1 - first)).take limit
    let result ← nums.mapM v.getBlockIdForNum
    let remaining := match result.getLast? with
      | some last => v.headBlockNum - numFromId last
      | none => 0
    pure (result, remaining)

/-- The blocks that a synopsis has for a reference point: the first, the last of the current chain, those
of a fork above it, and the number of the last. -/
structure SynopsisRange where
  low : Nat
  nonForkHigh : Nat
  forkHistory : List ItemHash := []
  high : Nat

/-- A reference point that is not 0. -/
def forkRange (reference : ItemHash) : Except DelegateError SynopsisRange := do
  let low := v.lastNonUndoableBlockNum
  let included ← v.isIncludedBlock reference
  if included then
    let num := numFromId reference
    pure { low := min low num, nonForkHigh := num, high := num }
  else
    let history ← get (v.blockIdsOnFork reference) .exception
    -- the last one is the common ancestor with the current chain
    let nonForkHigh := numFromId (history.getLast?.getD 0)
    let forkHistory := history.dropLast.reverse
    if nonForkHigh < low then
      throw .blockOlderThanUndoHistory
    else
      pure { low := low, nonForkHigh := nonForkHigh, forkHistory := forkHistory,
             high := nonForkHigh + forkHistory.length }

def synopsisItem (range : SynopsisRange) (num : Nat) : Except DelegateError (Option ItemHash) := do
  let item ←
    if num ≤ range.nonForkHigh then v.getBlockIdForNum num
    else get range.forkHistory[num - range.nonForkHigh - 1]? .outOfRange
  pure (some item)

def synopsisOfRange (range : SynopsisRange) (numberOfBlocksAfter : Nat) :
    Except DelegateError (List ItemHash) :=
  halvingLoop (v.synopsisItem range) ((range.high + numberOfBlocksAfter) % 2 ^ 32) range.high
    (2 ^ 32) (if range.low = 0 then 1 else range.low)

def getBlockchainSynopsis (reference : ItemHash) (numberOfBlocksAfter : Nat) :
    Except DelegateError (List ItemHash) :=
  if reference ≠ 0 then do
    let range ← v.forkRange reference
    v.synopsisOfRange range numberOfBlocksAfter
  else if v.headBlockNum = 0 then
    pure []
  else
    v.synopsisOfRange
      { low := v.lastNonUndoableBlockNum, nonForkHigh := v.headBlockNum, high := v.headBlockNum }
      numberOfBlocksAfter

end ChainView

/-- A block message: the id that the message gives, and of the block its id, number and time. -/
structure BlockMessage where
  blockId : ItemHash
  block : ItemHash
  blockNum : Nat
  timestamp : Nat := 0
  deriving DecidableEq

/-- The list of connections that a peer is in. -/
inductive ConnectionList where
  | handshaking
  | active
  | closing
  | terminating
  deriving DecidableEq

/-- What the node knows of the blocks of a peer. -/
structure SyncState where
  idsOfItemsToGet : List ItemHash := []
  numberOfUnfetchedItemIds : Nat := 0
  /-- The synopsis that the peer owes an answer to. -/
  itemIdsRequestedFromPeer : Option (List ItemHash) := none
  lastBlockDelegateHasSeen : ItemHash := 0
  lastBlockTimeDelegateHasSeen : Nat := 0
  deriving DecidableEq

structure PeerConnection extends SyncState where
  id : Nat
  list : ConnectionList := .handshaking
  peerNeedsSyncItemsFromUs : Bool := true
  weNeedSyncItemsFromPeer : Bool := true
  inhibitFetchingSyncBlocks : Bool := false
  lastKnownForkBlockNumber : Nat := 0
  idsOfItemsBeingProcessed : Finset ItemHash := ∅
  syncItemsRequestedFromPeer : Finset ItemHash := ∅
  inventoryPeerAdvertisedToUs : Finset ItemId := ∅
  inventoryAdvertisedToPeer : Finset ItemId := ∅
  itemsRequestedFromPeer : Finset ItemId := ∅
  theyHaveRequestedClose : Bool := false
  weHaveRequestedClose : Bool := false
  deriving DecidableEq

def grapheneNetMaxInventorySizeInMinutes : Nat := 2

def grapheneNetMaxTrxPerSecond : Nat := 1000

def grapheneNetMinBlockIdsToPrefetch : Nat := 10000

def steemitBlockIntervalSec : Nat := 3

namespace PeerConnection

variable (p : PeerConnection)

def isActive : Bool :=
  p.list = .active

def idle : Bool :=
  p.itemsRequestedFromPeer = ∅ ∧ p.syncItemsRequestedFromPeer = ∅ ∧
    p.itemIdsRequestedFromPeer = none

def isInventoryAdvertisedToUsListFullForTransactions : Bool :=
  grapheneNetMaxInventorySizeInMinutes * grapheneNetMaxTrxPerSecond * 60 <
    p.inventoryPeerAdvertisedToUs.card

def isInventoryAdvertisedToUsListFull : Bool :=
  grapheneNetMaxInventorySizeInMinutes * grapheneNetMaxTrxPerSecond * 60 +
      (grapheneNetMaxInventorySizeInMinutes + 1) * 60 / steemitBlockIntervalSec <
    p.inventoryPeerAdvertisedToUs.card

/-- The inventory that is not old. -/
def clearOldInventory (recent : ItemId → Bool) : PeerConnection :=
  { p with
    inventoryPeerAdvertisedToUs := p.inventoryPeerAdvertisedToUs.filter fun i => recent i
    inventoryAdvertisedToPeer := p.inventoryAdvertisedToPeer.filter fun i => recent i }

/-- The peer is at this block, as the next one it has for us. -/
def offersFirst (blockId : ItemHash) : Bool :=
  p.idsOfItemsToGet.head? = some blockId

def startProcessing (blockId : ItemHash) : PeerConnection :=
  { p with
    idsOfItemsToGet := p.idsOfItemsToGet.tail
    idsOfItemsBeingProcessed := insert blockId p.idsOfItemsBeingProcessed }

/-- `start_synchronizing_with_peer` up to the request for ids. -/
def startSynchronizing : PeerConnection :=
  { p with
    idsOfItemsToGet := []
    numberOfUnfetchedItemIds := 0
    weNeedSyncItemsFromPeer := true
    lastBlockDelegateHasSeen := 0
    lastBlockTimeDelegateHasSeen := 0
    inhibitFetchingSyncBlocks := false }

def disconnect : PeerConnection :=
  { p with
    list := .closing
    weHaveRequestedClose := p.weHaveRequestedClose || !p.theyHaveRequestedClose }

end PeerConnection

/-- What the handler of a list of ids waits for. -/
inductive IdsStage where
  /-- Whether we have the only id. -/
  | checking
  /-- Whether we have the first of the ids that are left. -/
  | flushing
  /-- The time of the first of the ids, which is a block that we have. -/
  | switching
  deriving DecidableEq

/-- The tasks of the node that have yielded. -/
inductive NodeTask where
  /-- `send_sync_block_to_node_delegate`, in or before the call of the delegate. -/
  | handlingSyncBlock (m : BlockMessage)
  /-- `process_block_during_normal_operation`, in the call of the delegate. -/
  | handlingBlock (peer : Nat) (m : BlockMessage) (messageHash : ItemHash)
  /-- The loops at the end of both, with the peers that are left. -/
  | finishing (sync : Bool) (disconnect fetch start : List Nat)
  /-- `create_blockchain_synopsis_for_peer`, in the call of the delegate. -/
  | creatingSynopsis (peer : Nat) (referencePoint : ItemHash) (idsOfItemsToGet : List ItemHash)
  /-- `on_blockchain_item_ids_inventory_message`, with the ids that are left. -/
  | receivingIds (stage : IdsStage) (peer : Nat) (itemType : ItemType)
      (itemHashesReceived : List ItemHash) (totalRemainingItemCount : Nat)
  deriving DecidableEq

/-- The task is a call in `_handle_message_calls_in_progress`. -/
def NodeTask.isSync : NodeTask → Bool
  | handlingSyncBlock _ => true
  | handlingBlock .. => false
  | finishing sync .. => sync
  | creatingSynopsis .. => false
  | receivingIds .. => false

/-- The task handles a list of ids of the peer. -/
def NodeTask.receivesIdsOf (peer : Nat) : NodeTask → Bool
  | receivingIds _ peer' _ _ _ => peer' = peer
  | _ => false

structure NetworkConfig where
  maximumNumberOfConnections : Nat := 200
  maximumNumberOfBlocksToHandleAtOneTime : Nat := 200
  maximumNumberOfSyncBlocksToPrefetch : Nat := 2000
  maximumBlocksPerPeerDuringSyncing : Nat := 200
  /-- In ascending order. -/
  hardForkBlockNumbers : List Nat := []

namespace NetworkConfig

variable (config : NetworkConfig)

def isHardForkBlock (blockNumber : Nat) : Bool :=
  blockNumber ∈ config.hardForkBlockNumbers

def getNextKnownHardForkBlockNumber (blockNumber : Nat) : Nat :=
  (config.hardForkBlockNumbers.find? (blockNumber < ·)).getD 0

/-- The peer will not be able to process blocks after this one. -/
def isOutdated (blockNumber : Nat) (p : PeerConnection) : Bool :=
  let next := config.getNextKnownHardForkBlockNumber p.lastKnownForkBlockNumber
  config.isHardForkBlock blockNumber ∧ p.lastKnownForkBlockNumber ≠ 0 ∧ next ≠ 0 ∧
    next ≤ blockNumber

end NetworkConfig

/-- `node_impl`. A peer whose connection is closed is no longer among its peers. -/
structure NodeImpl where
  peers : Table PeerConnection.id := .empty
  activeSyncRequests : Finset ItemHash := ∅
  newReceivedSyncItems : List BlockMessage := []
  receivedSyncItems : List BlockMessage := []
  mostRecentBlocksAccepted : List ItemHash := []
  itemsToFetch : Finset ItemId := ∅
  recentlyFailedItems : Finset ItemId := ∅
  newInventory : Finset ItemId := ∅
  /-- The hashes of the messages in `_message_cache`, and the ids that block messages give. -/
  messageCache : List (ItemHash × Option ItemHash) := []
  messageIdsCurrentlyBeingProcessed : Finset ItemHash := ∅
  suspendFetchingSyncBlocks : Bool := false
  tasks : List NodeTask := []

namespace NodeImpl

variable (n : NodeImpl)

/-- `_active_connections` -/
def activeConnections : List PeerConnection :=
  n.peers.rows.filter PeerConnection.isActive

def modifyPeer (peer : Nat) (f : PeerConnection → PeerConnection)
    (hf : autoParam (∀ p, (f p).id = p.id) Monoid.npow_zero._autoParam) : NodeImpl :=
  { n with peers := n.peers.modify peer f hf }

def modifyPeers (select : PeerConnection → Bool) (f : PeerConnection → PeerConnection)
    (hf : autoParam (∀ p, (f p).id = p.id) Monoid.npow_zero._autoParam) : NodeImpl :=
  { n with peers := n.peers.modifyWhere select f hf }

def addTask (task : NodeTask) : NodeImpl :=
  { n with tasks := n.tasks ++ [task] }

def endTask (task : NodeTask) : NodeImpl :=
  { n with tasks := n.tasks.erase task }

def disconnectFromPeer (peer : Nat) : NodeImpl :=
  n.modifyPeer peer PeerConnection.disconnect

/-- `fetch_next_batch_of_item_ids_from_peer` up to the call of the delegate. -/
def fetchNextBatchOfItemIdsFromPeer (peer : Nat) : NodeImpl :=
  match n.peers.find? peer with
  | none => n
  | some p => n.addTask (.creatingSynopsis peer p.lastBlockDelegateHasSeen p.idsOfItemsToGet)

def startSynchronizingWithPeer (peer : Nat) : NodeImpl :=
  (n.modifyPeer peer PeerConnection.startSynchronizing).fetchNextBatchOfItemIdsFromPeer peer

def isItemInAnyPeersInventory (item : ItemId) : Bool :=
  n.activeConnections.any fun p => item ∈ p.inventoryPeerAdvertisedToUs

def haveAlreadyReceivedSyncItem (itemHash : ItemHash) : Bool :=
  n.receivedSyncItems.any (·.blockId = itemHash) ||
    n.newReceivedSyncItems.any (·.blockId = itemHash)

/-- The circular buffer of accepted blocks has as many places as there may be connections. -/
def acceptBlock (config : NetworkConfig) (blockId : ItemHash) : NodeImpl :=
  let blocks := n.mostRecentBlocksAccepted ++ [blockId]
  { n with
    mostRecentBlocksAccepted := blocks.drop (blocks.length - config.maximumNumberOfConnections) }

/-- `broadcast`, told the id that the message gives for its block if it is one. -/
def broadcast (config : NetworkConfig) (item : ItemId) (blockId : Option ItemHash) : NodeImpl :=
  let n := match blockId with
    | some blockId => n.acceptBlock config blockId
    | none => n
  { n with
    messageCache := (item.itemHash, blockId) :: n.messageCache
    newInventory := insert item n.newInventory }

/--
The loops at the end of the functions that hand blocks to the delegate. Disconnecting from a peer
yields, after the peer is moved to the other list, and so do the rest.
-/
def finish (sync : Bool) : List Nat → List Nat → List Nat → NodeImpl
  | peer :: disconnect, fetch, start =>
    (n.disconnectFromPeer peer).addTask (.finishing sync disconnect fetch start)
  | [], peer :: fetch, start =>
    (n.fetchNextBatchOfItemIdsFromPeer peer).addTask (.finishing sync [] fetch start)
  | [], [], peer :: start =>
    (n.startSynchronizingWithPeer peer).addTask (.finishing sync [] [] start)
  | [], [], [] => n

end NodeImpl

end Golos
