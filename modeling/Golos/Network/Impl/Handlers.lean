import Golos.Network.Impl.Node

/-!
This module contains the handlers of the messages of peers and of connections that are closed, the
loop that asks peers for sync blocks, and how a node and a peer tell each other their blocks.
-/

namespace Golos

namespace NodeImpl

variable (config : NetworkConfig) (n : NodeImpl)

section requests

/--
What `fetch_sync_items_loop` schedules for one peer out of the ids the peer has told us, after what is
already scheduled for it.
-/
def chooseItems (wanted : ItemHash → Bool) : List ItemHash → List ItemHash → List ItemHash
  | [], chosen => chosen
  | id :: ids, chosen =>
    if wanted id ∧ id ∉ chosen then
      let chosen := chosen ++ [id]
      if config.maximumBlocksPerPeerDuringSyncing ≤ chosen.length then
        chosen
      else
        chooseItems wanted ids chosen
    else
      chooseItems wanted ids chosen

/-- The requests that are scheduled for the peers, one after the other. -/
def scheduleRequests : List PeerConnection → List ItemHash → List (Nat × List ItemHash)
  | [], _ => []
  | p :: ps, itemsToRequest =>
    if p.weNeedSyncItemsFromPeer ∧ p.idle ∧ ¬p.inhibitFetchingSyncBlocks then
      let wanted := fun id =>
        !n.haveAlreadyReceivedSyncItem id && id ∉ itemsToRequest && id ∉ n.activeSyncRequests
      let items := chooseItems config wanted p.idsOfItemsToGet []
      (p.id, items) :: scheduleRequests ps (itemsToRequest ++ items)
    else
      scheduleRequests ps itemsToRequest

def requestSyncItemsFromPeer (peer : Nat) (items : List ItemHash) : NodeImpl :=
  let n := n.modifyPeer peer fun p =>
    { p with syncItemsRequestedFromPeer := p.syncItemsRequestedFromPeer ∪ items.toFinset }
  { n with activeSyncRequests := n.activeSyncRequests ∪ items.toFinset }

/-- One pass of `fetch_sync_items_loop`, over the active peers in some order. It does not yield. -/
def fetchSyncItems (order : List PeerConnection) : NodeImpl :=
  if n.suspendFetchingSyncBlocks then
    n
  else
    (n.scheduleRequests config order []).foldl (fun n (peer, items) =>
      n.requestSyncItemsFromPeer peer items) n

/-- `fetch_items_loop` asks a peer for an item it has advertised. -/
def fetchItem (peer : Nat) (item : ItemId) : NodeImpl :=
  let n := n.modifyPeer peer fun p =>
    { p with itemsRequestedFromPeer := insert item p.itemsRequestedFromPeer }
  { n with itemsToFetch := n.itemsToFetch.erase item }

end requests

section messages

def onItemNotAvailableMessage (peer : Nat) (requestedItem : ItemId) : NodeImpl :=
  match n.peers.find? peer with
  | none => n
  | some p =>
    if requestedItem ∈ p.itemsRequestedFromPeer then
      let n := n.modifyPeer peer fun p =>
        { p with
          itemsRequestedFromPeer := p.itemsRequestedFromPeer.erase requestedItem
          inventoryPeerAdvertisedToUs := p.inventoryPeerAdvertisedToUs.erase requestedItem }
      if n.isItemInAnyPeersInventory requestedItem then
        { n with itemsToFetch := insert requestedItem n.itemsToFetch }
      else
        n
    else if requestedItem.itemHash ∈ p.syncItemsRequestedFromPeer then
      -- the request stays among the active ones
      let n := n.modifyPeer peer fun p =>
        { p with
          syncItemsRequestedFromPeer := p.syncItemsRequestedFromPeer.erase requestedItem.itemHash }
      if p.peerNeedsSyncItemsFromUs then
        n.modifyPeer peer (fun p => { p with inhibitFetchingSyncBlocks := true })
          fun p => (rfl : p.id = p.id)
      else
        n.disconnectFromPeer peer
    else
      n

/-- The loop of `on_item_ids_inventory_message` over the items that are left. -/
def onItemsAdvertised (peer : Nat) (itemType : ItemType) : List ItemHash → NodeImpl → NodeImpl
  | [], n => n
  | itemHash :: hashes, n =>
    let item : ItemId := ⟨itemType, itemHash⟩
    if itemHash ∈ n.messageIdsCurrentlyBeingProcessed ∨ item ∈ n.newInventory ∨
        n.activeConnections.any (item ∈ ·.inventoryAdvertisedToPeer) then
      onItemsAdvertised peer itemType hashes n
    else
      match n.peers.find? peer with
      | none => n
      | some p =>
        if itemType = .trx ∧ p.isInventoryAdvertisedToUsListFullForTransactions ∨
            p.isInventoryAdvertisedToUsListFull then
          n
        else
          let requested := n.activeConnections.any (item ∈ ·.itemsRequestedFromPeer)
          let n := n.modifyPeer peer fun p =>
            { p with inventoryPeerAdvertisedToUs := insert item p.inventoryPeerAdvertisedToUs }
          if requested ∨ item ∈ n.recentlyFailedItems then
            onItemsAdvertised peer itemType hashes n
          else
            onItemsAdvertised peer itemType hashes
              { n with itemsToFetch := insert item n.itemsToFetch }

def onItemIdsInventoryMessage (peer : Nat) (itemType : ItemType) (hashes : List ItemHash)
    (recent : ItemId → Bool) : NodeImpl :=
  onItemsAdvertised peer itemType hashes (n.modifyPeer peer fun p => p.clearOldInventory recent)

def onClosingConnectionMessage (peer : Nat) : NodeImpl :=
  n.modifyPeer peer fun p => { p with theyHaveRequestedClose := true }

def onConnectionClosed (peer : Nat) : NodeImpl :=
  match n.peers.find? peer with
  | none => n
  | some p =>
    let n :=
      { n with
        peers := n.peers.erase peer
        activeSyncRequests := n.activeSyncRequests \ p.syncItemsRequestedFromPeer }
    { n with
      itemsToFetch := n.itemsToFetch ∪
        p.itemsRequestedFromPeer.filter fun item => n.isItemInAnyPeersInventory item }

end messages

section blocks

/-- The peer has told us of the message, and so it has the block. -/
def markSeen (m : BlockMessage) (messageHash : ItemHash) (p : PeerConnection) : PeerConnection :=
  if ⟨.block, messageHash⟩ ∈ p.inventoryPeerAdvertisedToUs then
    { p with
      lastBlockDelegateHasSeen := m.blockId
      lastBlockTimeDelegateHasSeen := m.timestamp }
  else
    p

theorem id_markSeen (m : BlockMessage) (messageHash : ItemHash) (p : PeerConnection) :
    (markSeen m messageHash p).id = p.id := by
  unfold markSeen
  split
  . rfl
  . rfl

/-- What `process_block_during_normal_operation` does with a block that is valid. -/
def blockValidated (m : BlockMessage) (messageHash : ItemHash) (recent : ItemId → Bool) :
    NodeImpl :=
  let n := n.modifyPeers PeerConnection.isActive
    (fun p => (markSeen m messageHash p).clearOldInventory recent) (id_markSeen m messageHash)
  let n := n.broadcast config ⟨.block, messageHash⟩ (some m.blockId)
  let disconnect := (n.activeConnections.filter (config.isOutdated m.blockNum)).map (·.id)
  n.finish false disconnect [] []

/-- `process_block_during_normal_operation` up to the call of the delegate. -/
def processBlockDuringNormalOperation (peer : Nat) (m : BlockMessage) (messageHash : ItemHash)
    (recent : ItemId → Bool) : NodeImpl :=
  if m.blockId ∈ n.mostRecentBlocksAccepted then
    n.blockValidated config m messageHash recent
  else
    { n with
      messageIdsCurrentlyBeingProcessed := insert messageHash n.messageIdsCurrentlyBeingProcessed
      tasks := n.tasks ++ [.handlingBlock peer m messageHash] }

/-- After a block of a batch has come, the ids of the next batch may be asked for. -/
def afterSyncBlock (peer : Nat) : NodeImpl :=
  match n.peers.find? peer with
  | none => n
  | some p =>
    if p.idle ∧ 0 < p.numberOfUnfetchedItemIds ∧
        p.idsOfItemsToGet.length < grapheneNetMinBlockIdsToPrefetch then
      n.fetchNextBatchOfItemIdsFromPeer peer
    else
      n

def processBlockDuringSync (m : BlockMessage) : NodeImpl :=
  { n with newReceivedSyncItems := m :: n.newReceivedSyncItems }

def processBlockMessage (peer : Nat) (m : BlockMessage) (messageHash : ItemHash)
    (recent : ItemId → Bool) : NodeImpl :=
  match n.peers.find? peer with
  | none => n
  | some p =>
    if ⟨.block, messageHash⟩ ∈ p.itemsRequestedFromPeer then
      let n := n.modifyPeer peer fun p =>
        { p with itemsRequestedFromPeer := p.itemsRequestedFromPeer.erase ⟨.block, messageHash⟩ }
      n.processBlockDuringNormalOperation config peer m messageHash recent
    else if m.blockId ∈ p.syncItemsRequestedFromPeer then
      let n := n.modifyPeer peer fun p =>
        { p with syncItemsRequestedFromPeer := p.syncItemsRequestedFromPeer.erase m.blockId }
      let n := { n with activeSyncRequests := n.activeSyncRequests.erase m.blockId }
      (n.processBlockDuringSync m).afterSyncBlock peer
    else
      n.disconnectFromPeer peer

/-- `process_ordinary_message`, told whether the delegate accepts it. -/
def processOrdinaryMessage (peer : Nat) (item : ItemId) (accepted : Bool) : NodeImpl :=
  match n.peers.find? peer with
  | none => n
  | some p =>
    if item ∈ p.itemsRequestedFromPeer then
      let n := n.modifyPeer peer fun p =>
        { p with itemsRequestedFromPeer := p.itemsRequestedFromPeer.erase item }
      if accepted then
        n.broadcast config item none
      else
        { n with recentlyFailedItems := insert item n.recentlyFailedItems }
    else
      n.disconnectFromPeer peer

end blocks

end NodeImpl

open Checked

/-- `GRAPHENE_NET_FUTURE_SYNC_BLOCKS_GRACE_PERIOD_SEC` -/
def grapheneNetFutureSyncBlocksGracePeriodSec : Nat := 60 * 60

/-- The limit of `get_block_ids`. -/
def blockIdsLimit : Nat := 2000

section synopsis

variable (v : ChainView) (referencePoint : ItemHash) (idsOfItemsToGet : List ItemHash)

/-- The ids of a list whose first has the given number. -/
def listedItem (firstBlockNum num : Nat) : Except DelegateError (Option ItemHash) :=
  if firstBlockNum ≤ num then do
    let id ← get idsOfItemsToGet[num - firstBlockNum]? .outOfRange
    pure (some id)
  else
    pure none

/-- The numbers of ids have 32 bits. -/
def createBlockchainSynopsis : Except DelegateError (List ItemHash) := do
  let synopsis ← v.getBlockchainSynopsis referencePoint (idsOfItemsToGet.length % 2 ^ 32)
  match idsOfItemsToGet with
  | [] => pure synopsis
  | first :: _ =>
    let firstBlockNum := numFromId first
    let trueHigh := (firstBlockNum + idsOfItemsToGet.length - 1) % 2 ^ 32
    let low := match synopsis with
      | [] => 1
      | id :: _ => numFromId id
    let listed ← halvingLoop (listedItem idsOfItemsToGet firstBlockNum) trueHigh trueHigh (2 ^ 32) low
    pure (synopsis ++ listed)

end synopsis

/-- The numbers of the ids follow one another, as numbers of 32 bits. -/
def isSequential : List ItemHash → Bool
  | [] => true
  | first :: ids =>
    (ids.zipIdx 1).all fun (id, i) => numFromId id = (numFromId first + i) % 2 ^ 32

/-- A list of ids is a possible answer to a synopsis. -/
def isValidReply (synopsis itemHashesAvailable : List ItemHash) : Bool :=
  match itemHashesAvailable with
  | [] => true
  | first :: _ =>
    isSequential itemHashesAvailable &&
      if synopsis = [] then numFromId first = 1 else first ∈ synopsis

/-- The list without its end from the last occurrence of an id on. -/
def popBackTo (id : ItemHash) (ids : List ItemHash) : List ItemHash :=
  (ids.reverse.dropWhile (· ≠ id)).reverse.dropLast

namespace PeerConnection

variable (v : ChainView) (p : PeerConnection)

/-- The peer has nothing that we have not seen. -/
def isUpToDate (itemType : ItemType) (itemHashesAvailable : List ItemHash)
    (totalRemainingItemCount : Nat) : Bool :=
  totalRemainingItemCount = 0 ∧
    (itemHashesAvailable = [] ∨
      ∃ id ∈ itemHashesAvailable.head?, itemHashesAvailable.length = 1 ∧ v.hasItem ⟨itemType, id⟩) ∧
    p.idsOfItemsToGet = [] ∧ p.numberOfUnfetchedItemIds = 0

/-- `minimum_time_of_last_offered_block`, in 32 bits. -/
def minimumTimeOfLastOfferedBlock : Nat :=
  (p.lastBlockTimeDelegateHasSeen +
    p.numberOfUnfetchedItemIds * steemitBlockIntervalSec % 2 ^ 32) % 2 ^ 32

def offersImplausiblyMany : Bool :=
  (v.now + grapheneNetFutureSyncBlocksGracePeriodSec) % 2 ^ 32 < p.minimumTimeOfLastOfferedBlock

end PeerConnection

namespace NodeImpl

variable (v : ChainView) (n : NodeImpl)

section ids

/-- `fetch_next_batch_of_item_ids_from_peer` after the call of the delegate. -/
def onSynopsisCreated (peer : Nat) (referencePoint : ItemHash) (idsOfItemsToGet : List ItemHash) :
    NodeImpl :=
  let n := n.endTask (.creatingSynopsis peer referencePoint idsOfItemsToGet)
  match createBlockchainSynopsis v referencePoint idsOfItemsToGet with
  | .ok synopsis => n.modifyPeer peer fun p => { p with itemIdsRequestedFromPeer := some synopsis }
  | .error .blockOlderThanUndoHistory => n.disconnectFromPeer peer
  | .error _ => n

/-- What `on_blockchain_item_ids_inventory_message` asks for when the ids are in the list. -/
def afterIds (peer : Nat) (totalRemainingItemCount : Nat) (p : PeerConnection) : NodeImpl :=
  if totalRemainingItemCount ≠ 0 then
    if grapheneNetMinBlockIdsToPrefetch < p.idsOfItemsToGet.length then n
    else n.fetchNextBatchOfItemIdsFromPeer peer
  else if p.idsOfItemsToGet ≠ [] then
    n
  else
    n.fetchNextBatchOfItemIdsFromPeer peer

/-- The ids that a peer is told. -/
def itemIdsFor (blockchainSynopsis : List ItemHash) : Except DelegateError (List ItemHash × Nat) :=
  match v.getBlockIds blockchainSynopsis blockIdsLimit with
  | .error .peerIsOnAnUnreachableFork => .ok ([], 0)
  | reply => reply

/-- We wait for the first of the ids from another peer. -/
def isFirstItemForOtherPeer (peer : Nat) (first : ItemHash) : Bool :=
  n.activeConnections.any fun p => p.id ≠ peer && p.idsOfItemsToGet.head? = some first

/-- The end of `on_blockchain_item_ids_inventory_message`: the ids are joined to the list. -/
def appendIds (peer : Nat) (itemHashesReceived : List ItemHash) (totalRemainingItemCount : Nat) :
    NodeImpl :=
  match n.peers.find? peer with
  | none => n
  | some p =>
    let p' :=
      { p with
        idsOfItemsToGet := p.idsOfItemsToGet ++ itemHashesReceived
        numberOfUnfetchedItemIds := totalRemainingItemCount }
    let n := n.modifyPeer peer fun p =>
      { p with
        idsOfItemsToGet := p.idsOfItemsToGet ++ itemHashesReceived
        numberOfUnfetchedItemIds := totalRemainingItemCount }
    if p'.offersImplausiblyMany v then n.disconnectFromPeer peer
    else n.afterIds peer totalRemainingItemCount p'

/-- `on_blockchain_item_ids_inventory_message` when it knows whether we have the only id. -/
def onIdsChecked (peer : Nat) (itemType : ItemType) (itemHashesAvailable : List ItemHash)
    (totalRemainingItemCount : Nat) : NodeImpl :=
  match n.peers.find? peer with
  | none => n
  | some p =>
    if p.isUpToDate v itemType itemHashesAvailable totalRemainingItemCount then
      n.modifyPeer peer fun p => { p with weNeedSyncItemsFromPeer := false }
    else
      let n := n.modifyPeer peer fun p =>
        { p with numberOfUnfetchedItemIds := totalRemainingItemCount }
      match itemHashesAvailable with
      | [] => n.appendIds v peer [] totalRemainingItemCount
      | first :: _ =>
        if p.idsOfItemsToGet = [] then
          if n.isFirstItemForOtherPeer peer first then
            n.appendIds v peer itemHashesAvailable totalRemainingItemCount
          else
            n.addTask
              (.receivingIds .flushing peer itemType itemHashesAvailable totalRemainingItemCount)
        else if first ∈ p.idsOfItemsToGet then
          (n.modifyPeer peer fun p =>
            { p with idsOfItemsToGet := popBackTo first p.idsOfItemsToGet }).appendIds v peer
              itemHashesAvailable totalRemainingItemCount
        else
          -- the peer has switched forks, and the first one is taken for a block that we have
          (n.modifyPeer peer fun p =>
            { p with idsOfItemsToGet := [], lastBlockDelegateHasSeen := first }).addTask
              (.receivingIds .switching peer itemType itemHashesAvailable totalRemainingItemCount)

/-- The loop that takes the ids away that we have. -/
def flushSeen (peer : Nat) (itemType : ItemType) (itemHashesReceived : List ItemHash)
    (totalRemainingItemCount : Nat) : NodeImpl :=
  match itemHashesReceived with
  | [] => n.appendIds v peer [] totalRemainingItemCount
  | id :: ids =>
    if v.hasItem ⟨itemType, id⟩ then
      (n.modifyPeer peer fun p =>
        { p with
          lastBlockDelegateHasSeen := id
          lastBlockTimeDelegateHasSeen := v.getBlockTime id }).addTask
            (.receivingIds .flushing peer itemType ids totalRemainingItemCount)
    else
      n.appendIds v peer itemHashesReceived totalRemainingItemCount

/-- The first of the ids is the block that the peer has switched at. -/
def switchForks (peer : Nat) (itemHashesReceived : List ItemHash) (totalRemainingItemCount : Nat) :
    NodeImpl :=
  match itemHashesReceived with
  | [] => n
  | first :: rest =>
    (n.modifyPeer peer fun p =>
      { p with lastBlockTimeDelegateHasSeen := v.getBlockTime first }).appendIds v peer rest
        totalRemainingItemCount

/-- `on_blockchain_item_ids_inventory_message` after a call of the delegate. -/
def onIdsReceived (stage : IdsStage) (peer : Nat) (itemType : ItemType)
    (itemHashesReceived : List ItemHash) (totalRemainingItemCount : Nat) : NodeImpl :=
  let n := n.endTask (.receivingIds stage peer itemType itemHashesReceived totalRemainingItemCount)
  match stage with
  | .checking => n.onIdsChecked v peer itemType itemHashesReceived totalRemainingItemCount
  | .flushing => n.flushSeen v peer itemType itemHashesReceived totalRemainingItemCount
  | .switching => n.switchForks v peer itemHashesReceived totalRemainingItemCount

/-- `on_blockchain_item_ids_inventory_message` up to the first call of the delegate. -/
def onBlockchainItemIdsInventoryMessage (peer : Nat) (itemType : ItemType)
    (itemHashesAvailable : List ItemHash) (totalRemainingItemCount : Nat) : NodeImpl :=
  match (n.peers.find? peer).bind (·.itemIdsRequestedFromPeer) with
  | none => n
  | some synopsis =>
    if isValidReply synopsis itemHashesAvailable then
      (n.modifyPeer peer fun p => { p with itemIdsRequestedFromPeer := none }).addTask
        (.receivingIds .checking peer itemType itemHashesAvailable totalRemainingItemCount)
    else
      n.disconnectFromPeer peer

/-- What we have for a peer, and what it lacks. -/
def onFetchBlockchainItemIdsMessage (peer : Nat) (itemType : ItemType)
    (blockchainSynopsis : List ItemHash) : NodeImpl :=
  match n.peers.find? peer with
  | none => n
  | some p =>
    match itemIdsFor v blockchainSynopsis with
    | .error _ => n
    | .ok (ids, _) =>
      let isLast : Bool := blockchainSynopsis ≠ [] ∧ ids.length = 1 ∧ ∀ id ∈ ids, id ∈ blockchainSynopsis
      let n := n.modifyPeer peer fun p =>
        { p with peerNeedsSyncItemsFromUs := ids ≠ [] && !isLast }
      let n :=
        if ¬p.weNeedSyncItemsFromPeer ∧ blockchainSynopsis ≠ [] ∧
            ¬v.hasItem ⟨itemType, blockchainSynopsis.getLast?.getD 0⟩ then
          n.startSynchronizingWithPeer peer
        else
          n
      if ids ≠ [] ∧ isLast ∧ p.inhibitFetchingSyncBlocks then n.disconnectFromPeer peer else n

end ids

section blocks

/-- The id of a block that is sent for a request; the delegate throws for what it has not. -/
def blockMessageFor (itemHash : ItemHash) : Except DelegateError (Option ItemHash) :=
  match n.messageCache.find? fun entry => entry.1 = itemHash with
  | some entry => pure entry.2
  | none => if v.isKnownBlock itemHash then pure (some itemHash) else throw .exception

/-- A request for blocks; a message that is sent for it and is not of a block is an error. -/
def onFetchItemsMessage (peer : Nat) (itemsToFetch : List ItemHash) : NodeImpl :=
  match itemsToFetch.mapM (n.blockMessageFor v) with
  | .error _ => n
  | .ok sent =>
    match sent.getLast?.join with
    | none => n
    | some blockId =>
      n.modifyPeer peer fun p =>
        { p with
          lastBlockDelegateHasSeen := blockId
          lastBlockTimeDelegateHasSeen := v.getBlockTime blockId }

end blocks

end NodeImpl

end Golos
