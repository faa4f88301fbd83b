import Golos.Network.Impl.Handlers

/-!
This module contains what a node does with the blocks it has received and with the answers of the
delegate it hands them to, and the events that a run of a node consists of.
-/

namespace Golos

/-- How a call of `handle_block` ends. -/
inductive HandleBlockResult where
  | accepted (containedTransactions : List ItemHash)
  | blockOlderThanUndoHistory
  | unlinkableBlockException
  /-- The task is canceled, which happens when the node is closed. -/
  | canceledException
  /-- Any other `fc::exception`. -/
  | exception
  deriving DecidableEq

namespace NodeImpl

variable (config : NetworkConfig) (n : NodeImpl)

section backlog

/-- Blocks that have come since are considered first. -/
def gatherReceived : NodeImpl :=
  { n with
    receivedSyncItems := n.newReceivedSyncItems.reverse ++ n.receivedSyncItems
    newReceivedSyncItems := [] }

/-- The first block that is the next one of some active peer. -/
def potentialFirstBlock : Option BlockMessage :=
  n.receivedSyncItems.find? fun m => n.activeConnections.any (·.offersFirst m.blockId)

def startProcessing (blockId : ItemHash) : NodeImpl :=
  n.modifyPeers (fun p => p.isActive && p.offersFirst blockId) fun p => p.startProcessing blockId

/-- What the loop of `process_backlog_of_sync_blocks` does with the block that it finds. -/
def processFirstBlock (m : BlockMessage) : NodeImpl :=
  let n := n.startProcessing m.blockId
  if m.blockId ∈ n.mostRecentBlocksAccepted then
    -- it is treated as accepted, and stays in the lists of the peers
    n
  else
    { n with
      receivedSyncItems := n.receivedSyncItems.erase m
      tasks := n.tasks ++ [.handlingSyncBlock m] }

def handleMessageCallsInProgress : Nat :=
  n.tasks.countP NodeTask.isSync

def suspendIfFull : NodeImpl :=
  if config.maximumNumberOfSyncBlocksToPrefetch ≤ n.receivedSyncItems.length then
    { n with suspendFetchingSyncBlocks := true }
  else
    n

/-- The loop of `process_backlog_of_sync_blocks`, with the turns that are left. -/
def processBlocks : Nat → NodeImpl → NodeImpl
  | 0, n => n
  | turns + 1, n =>
    let n := n.gatherReceived
    match n.potentialFirstBlock with
    | none =>
      if config.maximumNumberOfBlocksToHandleAtOneTime ≤ n.handleMessageCallsInProgress then
        n.suspendIfFull config
      else
        n
    | some m =>
      let accepted : Bool := m.blockId ∈ n.mostRecentBlocksAccepted
      let n := n.processFirstBlock m
      if config.maximumNumberOfBlocksToHandleAtOneTime ≤ n.handleMessageCallsInProgress then
        n.suspendIfFull config
      else if accepted then
        n
      else
        processBlocks turns n

/-- Every turn but the last one takes a block away. -/
def processBacklogOfSyncBlocks : NodeImpl :=
  if config.maximumNumberOfBlocksToHandleAtOneTime ≤ n.handleMessageCallsInProgress then
    n
  else
    processBlocks config (n.receivedSyncItems.length + n.newReceivedSyncItems.length + 1)
      { n with suspendFetchingSyncBlocks := false }

end backlog

section delegate

/-- The peer has nothing for us and is not being synchronized with. -/
def mustRestart (p : PeerConnection) : Bool :=
  p.idsOfItemsToGet = [] ∧ p.idsOfItemsBeingProcessed = ∅ ∧ ¬p.peerNeedsSyncItemsFromUs ∧
    ¬p.weNeedSyncItemsFromPeer

/-- The block is the last one that the peer has told us of. -/
def isLast (blockId : ItemHash) (p : PeerConnection) : Bool :=
  p.idsOfItemsToGet = [] ∧ p.numberOfUnfetchedItemIds = 0 ∧
    blockId ∈ p.idsOfItemsBeingProcessed ∧ p.idsOfItemsBeingProcessed.erase blockId = ∅

/-- A peer for which the block is being processed has it. -/
def endProcessing (m : BlockMessage) (p : PeerConnection) : PeerConnection :=
  if m.blockId ∈ p.idsOfItemsBeingProcessed then
    { p with
      lastBlockDelegateHasSeen := m.blockId
      lastBlockTimeDelegateHasSeen := m.timestamp
      idsOfItemsBeingProcessed := p.idsOfItemsBeingProcessed.erase m.blockId }
  else
    p

theorem id_endProcessing (m : BlockMessage) (p : PeerConnection) :
    (endProcessing m p).id = p.id := by
  unfold endProcessing
  split
  . rfl
  . rfl

/-- `send_sync_block_to_node_delegate` after the call of the delegate. -/
def onSyncBlockHandled (m : BlockMessage) (result : HandleBlockResult) : NodeImpl :=
  let n := n.endTask (.handlingSyncBlock m)
  match result with
  | .accepted _ =>
    let n := n.acceptBlock config m.blockId
    let outdated := n.activeConnections.filter (config.isOutdated m.blockNum)
    let others := n.activeConnections.filter fun p => !config.isOutdated m.blockNum p
    let n := n.modifyPeers (fun p => p.isActive && !config.isOutdated m.blockNum p)
      (endProcessing m) (id_endProcessing m)
    n.finish true (outdated.map (·.id)) ((others.filter (isLast m.blockId)).map (·.id))
      ((others.filter mustRestart).map (·.id))
  | .blockOlderThanUndoHistory =>
    let n := n.modifyPeers (fun p => p.isActive && m.blockId ∈ p.idsOfItemsBeingProcessed) fun p =>
      { p with inhibitFetchingSyncBlocks := true }
    n.finish true [] [] []
  | .canceledException => n
  | _ =>
    let offering := n.activeConnections.filter (m.blockId ∈ ·.idsOfItemsBeingProcessed)
    n.finish true (offering.map (·.id)) [] []

/-- `process_block_during_normal_operation` after the call of the delegate. -/
def onBlockHandled (peer : Nat) (m : BlockMessage) (messageHash : ItemHash)
    (result : HandleBlockResult) (recent : ItemId → Bool) : NodeImpl :=
  let n := n.endTask (.handlingBlock peer m messageHash)
  match result with
  | .accepted containedTransactions =>
    let n := { n with
      messageIdsCurrentlyBeingProcessed := n.messageIdsCurrentlyBeingProcessed.erase messageHash }
    let n := n.acceptBlock config m.blockId
    let n := { n with
      itemsToFetch := n.itemsToFetch.filter fun item : ItemId =>
        ¬(item.itemType = ItemType.trx ∧ item.itemHash ∈ containedTransactions) }
    n.blockValidated config m messageHash recent
  | .canceledException => n
  | .unlinkableBlockException => n.finish false [] [] [peer]
  | _ =>
    let offering := n.activeConnections.filter fun p => p.id ≠ peer ∧ p.offersFirst m.blockId
    n.finish false (peer :: offering.map (·.id)) [] []

end delegate

end NodeImpl

/--
What happens to a node. Tasks that wait may go on whenever another one yields, and passes of the loops
may come at any time.
-/
inductive NodeEvent where
  | connected (peer : Nat)
  /-- The hello of a peer tells the last fork that it knows. -/
  | hello (peer : Nat) (lastKnownForkBlockNumber : Nat)
  /-- A handshake is complete. -/
  | becameActive (peer : Nat)
  | fetchBlockchainItemIds (v : ChainView) (peer : Nat) (itemType : ItemType)
      (blockchainSynopsis : List ItemHash)
  | blockchainItemIdsInventory (peer : Nat) (itemType : ItemType)
      (itemHashesAvailable : List ItemHash) (totalRemainingItemCount : Nat)
  | idsReceived (v : ChainView) (stage : IdsStage) (peer : Nat) (itemType : ItemType)
      (itemHashesReceived : List ItemHash) (totalRemainingItemCount : Nat)
  | fetchItems (v : ChainView) (peer : Nat) (itemsToFetch : List ItemHash)
  | synopsisCreated (v : ChainView) (peer : Nat) (referencePoint : ItemHash)
      (idsOfItemsToGet : List ItemHash)
  | fetchSyncItems (order : List PeerConnection)
  | fetchItem (peer : Nat) (item : ItemId)
  | itemExpired (item : ItemId)
  | itemNotAvailable (peer : Nat) (requestedItem : ItemId)
  | itemIdsInventory (peer : Nat) (itemType : ItemType) (hashes : List ItemHash)
      (recent : ItemId → Bool)
  | closingConnection (peer : Nat)
  | connectionClosed (peer : Nat)
  | blockMessage (peer : Nat) (m : BlockMessage) (messageHash : ItemHash) (recent : ItemId → Bool)
  | ordinaryMessage (peer : Nat) (item : ItemId) (accepted : Bool)
  | processBacklog
  | syncBlockHandled (m : BlockMessage) (result : HandleBlockResult)
  | blockHandled (peer : Nat) (m : BlockMessage) (messageHash : ItemHash)
      (result : HandleBlockResult) (recent : ItemId → Bool)
  | resumed (sync : Bool) (disconnect fetch start : List Nat)
  /-- The node disconnects for another reason. -/
  | disconnected (peer : Nat)
  /-- An inactive connection is terminated. -/
  | terminated (peer : Nat)
  /-- The client has a transaction for the network. -/
  | broadcastTransaction (messageHash : ItemHash)
  /-- The client has a block for the network, and makes the message of it. -/
  | broadcastBlock (messageHash block : ItemHash)
  /-- `advertise_inventory_loop`, which tells some peers. -/
  | advertised (told : PeerConnection → ItemId → Bool)
  | failedItemsForgotten (recent : ItemId → Bool)
  | messagesForgotten (recent : ItemHash → Bool)
  | syncFrom (head : ItemHash)

namespace NodeImpl

variable (config : NetworkConfig) (n : NodeImpl)

def onConnected (peer : Nat) : Option NodeImpl :=
  (n.peers.emplace { id := peer }).map fun peers => { n with peers := peers }

def onBecameActive (peer : Nat) : Option NodeImpl :=
  (n.peers.find? peer).bind fun p =>
    if p.list = .handshaking then
      some ((n.modifyPeer peer fun p => { p with list := .active }).startSynchronizingWithPeer peer)
    else
      none

/-- `advertise_inventory_loop` -/
def advertiseInventory (told : PeerConnection → ItemId → Bool) : NodeImpl :=
  let inventory := n.newInventory
  let n := n.modifyPeers PeerConnection.isActive fun p =>
    { p with
      inventoryAdvertisedToPeer := p.inventoryAdvertisedToPeer ∪
        inventory.filter fun i => told p i && i ∉ p.inventoryPeerAdvertisedToUs }
  { n with newInventory := ∅ }

/-- A task goes on, if it waits. -/
def resume (task : NodeTask) (f : NodeImpl) : Option NodeImpl :=
  if task ∈ n.tasks then some f else none

/-- The node after an event, where it can happen. -/
def handle : NodeEvent → Option NodeImpl
  | .connected peer => n.onConnected peer
  | .hello peer lastKnownForkBlockNumber =>
    some (n.modifyPeer peer fun p =>
      { p with lastKnownForkBlockNumber := lastKnownForkBlockNumber })
  | .becameActive peer => n.onBecameActive peer
  | .fetchBlockchainItemIds v peer itemType blockchainSynopsis =>
    some (n.onFetchBlockchainItemIdsMessage v peer itemType blockchainSynopsis)
  | .blockchainItemIdsInventory peer itemType itemHashesAvailable totalRemainingItemCount =>
    -- a peer's messages are handled one after the other
    if n.tasks.any (·.receivesIdsOf peer) then none
    else some (n.onBlockchainItemIdsInventoryMessage peer itemType itemHashesAvailable
      totalRemainingItemCount)
  | .idsReceived v stage peer itemType itemHashesReceived totalRemainingItemCount =>
    n.resume (.receivingIds stage peer itemType itemHashesReceived totalRemainingItemCount)
      (n.onIdsReceived v stage peer itemType itemHashesReceived totalRemainingItemCount)
  | .fetchItems v peer itemsToFetch => some (n.onFetchItemsMessage v peer itemsToFetch)
  | .synopsisCreated v peer referencePoint idsOfItemsToGet =>
    n.resume (.creatingSynopsis peer referencePoint idsOfItemsToGet)
      (n.onSynopsisCreated v peer referencePoint idsOfItemsToGet)
  | .fetchSyncItems order =>
    if order.Perm n.activeConnections then some (n.fetchSyncItems config order) else none
  | .fetchItem peer item =>
    (n.peers.find? peer).bind fun p =>
      if p.isActive ∧ item ∈ n.itemsToFetch ∧ item ∈ p.inventoryPeerAdvertisedToUs then
        some (n.fetchItem peer item)
      else
        none
  | .itemExpired item => some { n with itemsToFetch := n.itemsToFetch.erase item }
  | .itemNotAvailable peer requestedItem => some (n.onItemNotAvailableMessage peer requestedItem)
  | .itemIdsInventory peer itemType hashes recent =>
    some (n.onItemIdsInventoryMessage peer itemType hashes recent)
  | .closingConnection peer => some (n.onClosingConnectionMessage peer)
  | .connectionClosed peer => some (n.onConnectionClosed peer)
  | .blockMessage peer m messageHash recent =>
    some (n.processBlockMessage config peer m messageHash recent)
  | .ordinaryMessage peer item accepted =>
    some (n.processOrdinaryMessage config peer item accepted)
  | .processBacklog => some (n.processBacklogOfSyncBlocks config)
  | .syncBlockHandled m result =>
    n.resume (.handlingSyncBlock m) (n.onSyncBlockHandled config m result)
  | .blockHandled peer m messageHash result recent =>
    n.resume (.handlingBlock peer m messageHash)
      (n.onBlockHandled config peer m messageHash result recent)
  | .resumed sync disconnect fetch start =>
    n.resume (.finishing sync disconnect fetch start)
      ((n.endTask (.finishing sync disconnect fetch start)).finish sync disconnect fetch start)
  | .disconnected peer => some (n.disconnectFromPeer peer)
  | .terminated peer => some (n.modifyPeer peer fun p => { p with list := .terminating })
  | .broadcastTransaction messageHash => some (n.broadcast config ⟨.trx, messageHash⟩ none)
  | .broadcastBlock messageHash block =>
    some (n.broadcast config ⟨.block, messageHash⟩ (some block))
  | .advertised told => some (n.advertiseInventory told)
  | .failedItemsForgotten recent =>
    some { n with recentlyFailedItems := n.recentlyFailedItems.filter fun i => recent i }
  | .messagesForgotten recent =>
    some { n with messageCache := n.messageCache.filter fun entry => recent entry.1 }
  | .syncFrom head => some { n with mostRecentBlocksAccepted := [head] }

end NodeImpl

end Golos
