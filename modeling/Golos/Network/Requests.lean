import Golos.Lib.RequestBook
import Golos.Lib.Transition
import Golos.Network.Impl.Backlog

/-!
This module contains the blocks that a node asks its peers for while it synchronizes: it asks one peer
at a time, and never again for a block that a peer says it has not.
-/

namespace Golos

/-- A node that starts with no peers. Its peers say what they like, at any time. -/
def network (config : NetworkConfig) : TransitionSystem NodeImpl NodeEvent where
  initial n := n = {}
  step n e n' := n.handle config e = some n'

namespace NodeImpl

variable {config : NetworkConfig} {v : ChainView} {n n' : NodeImpl} {peer : Nat} {id : ItemHash}

/-- The blocks that peers are asked for during synchronization. -/
def requests (n : NodeImpl) : RequestBook Nat ItemHash where
  asked peer := (n.peers.find? peer).elim ∅ PeerConnection.syncItemsRequestedFromPeer
  active := n.activeSyncRequests

section frame

/-- Nothing else counts. -/
@[simp]
theorem requests_mk {receiving received : List BlockMessage} {accepted : List ItemHash}
    {fetch failed inventory : Finset ItemId} {cache : List (ItemHash × Option ItemHash)}
    {processed : Finset ItemHash} {suspend : Bool} {tasks : List NodeTask} :
    requests ⟨n.peers, n.activeSyncRequests, receiving, received, accepted, fetch, failed, inventory,
      cache, processed, suspend, tasks⟩ = n.requests := rfl

@[simp]
theorem requests_modifyPeer {f : PeerConnection → PeerConnection} {hf : ∀ p, (f p).id = p.id}
    (h : ∀ p, (f p).syncItemsRequestedFromPeer = p.syncItemsRequestedFromPeer) :
    (n.modifyPeer peer f hf).requests = n.requests := by
  unfold requests modifyPeer
  congr 1
  funext k
  rw [Table.find?_modify]
  split
  . cases n.peers.find? k with
    | none => rfl
    | some p => exact h p
  . rfl

@[simp]
theorem requests_modifyPeers {select : PeerConnection → Bool}
    {f : PeerConnection → PeerConnection} {hf : ∀ p, (f p).id = p.id}
    (h : ∀ p, (f p).syncItemsRequestedFromPeer = p.syncItemsRequestedFromPeer) :
    (n.modifyPeers select f hf).requests = n.requests := by
  unfold requests modifyPeers
  congr 1
  funext k
  rw [Table.find?_modifyWhere]
  cases n.peers.find? k with
  | none => rfl
  | some p =>
    rw [Option.map_some, Option.elim_some, Option.elim_some]
    split
    . exact h p
    . rfl

@[simp]
theorem requests_addTask {task : NodeTask} : (n.addTask task).requests = n.requests := rfl

@[simp]
theorem requests_endTask {task : NodeTask} : (n.endTask task).requests = n.requests := rfl

@[simp]
theorem requests_acceptBlock : (n.acceptBlock config id).requests = n.requests := rfl

@[simp]
theorem requests_disconnectFromPeer : (n.disconnectFromPeer peer).requests = n.requests :=
  requests_modifyPeer fun _ => rfl

@[simp]
theorem requests_fetchNextBatchOfItemIdsFromPeer :
    (n.fetchNextBatchOfItemIdsFromPeer peer).requests = n.requests := by
  unfold fetchNextBatchOfItemIdsFromPeer
  split <;> rfl

@[simp]
theorem requests_startSynchronizingWithPeer :
    (n.startSynchronizingWithPeer peer).requests = n.requests := by
  unfold startSynchronizingWithPeer
  rw [requests_fetchNextBatchOfItemIdsFromPeer]
  exact requests_modifyPeer fun _ => rfl

@[simp]
theorem requests_broadcast {item : ItemId} {blockId : Option ItemHash} :
    (n.broadcast config item blockId).requests = n.requests := by
  cases blockId <;> rfl

@[simp]
theorem requests_finish {sync : Bool} {disconnect fetch start : List Nat} :
    (n.finish sync disconnect fetch start).requests = n.requests := by
  unfold finish
  split <;> simp

@[simp]
theorem requests_onItemsAdvertised {itemType : ItemType} {hashes : List ItemHash} :
    (onItemsAdvertised peer itemType hashes n).requests = n.requests := by
  induction hashes generalizing n with
  | nil => rfl
  | cons hash hashes ih =>
    unfold onItemsAdvertised
    dsimp only
    split
    . exact ih
    . split
      . rfl
      . split
        . rfl
        . split
          . simp [ih]
          . simp [ih]

@[simp]
theorem requests_afterIds {total : Nat} {p : PeerConnection} :
    (n.afterIds peer total p).requests = n.requests := by
  unfold afterIds
  split
  . split <;> simp
  . split <;> simp

@[simp]
theorem requests_appendIds {ids : List ItemHash} {total : Nat} :
    (n.appendIds v peer ids total).requests = n.requests := by
  unfold appendIds
  split
  . rfl
  . dsimp only
    split
    . simp
    . rw [requests_afterIds]
      simp

@[simp]
theorem requests_onIdsReceived {stage : IdsStage} {itemType : ItemType} {ids : List ItemHash}
    {total : Nat} : (n.onIdsReceived v stage peer itemType ids total).requests = n.requests := by
  unfold onIdsReceived
  cases stage with
  | checking =>
    dsimp only
    unfold onIdsChecked
    split
    . rfl
    . split
      . simp
      . dsimp only
        split
        . simp
        . split
          . split <;> simp
          . split <;> simp
  | flushing =>
    dsimp only
    unfold flushSeen
    split
    . simp
    . split <;> simp
  | switching =>
    dsimp only
    unfold switchForks
    split <;> simp

@[simp]
theorem requests_onFetchBlockchainItemIdsMessage {itemType : ItemType} {synopsis : List ItemHash} :
    (n.onFetchBlockchainItemIdsMessage v peer itemType synopsis).requests = n.requests := by
  unfold onFetchBlockchainItemIdsMessage
  split
  . rfl
  . split
    . rfl
    . dsimp only
      split
      . rw [requests_disconnectFromPeer]
        split <;> simp
      . split <;> simp

@[simp]
theorem requests_blockValidated {m : BlockMessage} {hash : ItemHash} {recent : ItemId → Bool} :
    (n.blockValidated config m hash recent).requests = n.requests := by
  unfold blockValidated
  rw [requests_finish, requests_broadcast]
  apply requests_modifyPeers
  intro p
  unfold markSeen
  split <;> rfl

@[simp]
theorem requests_afterSyncBlock : (n.afterSyncBlock peer).requests = n.requests := by
  unfold afterSyncBlock
  split
  . rfl
  . split <;> simp

@[simp]
theorem requests_processFirstBlock {m : BlockMessage} :
    (n.processFirstBlock m).requests = n.requests := by
  have hstart : (n.startProcessing m.blockId).requests = n.requests :=
    requests_modifyPeers fun _ => rfl
  unfold processFirstBlock
  dsimp only
  split
  . exact hstart
  . exact hstart

@[simp]
theorem requests_suspendIfFull : (n.suspendIfFull config).requests = n.requests := by
  unfold suspendIfFull
  split <;> rfl

@[simp]
theorem requests_processBlocks {turns : Nat} :
    (processBlocks config turns n).requests = n.requests := by
  induction turns generalizing n with
  | zero => rfl
  | succ turns ih =>
    have hgather : n.gatherReceived.requests = n.requests := rfl
    unfold processBlocks
    dsimp only
    split
    . split
      . rw [requests_suspendIfFull, hgather]
      . exact hgather
    . split
      . rw [requests_suspendIfFull, requests_processFirstBlock, hgather]
      . split
        . rw [requests_processFirstBlock, hgather]
        . rw [ih, requests_processFirstBlock, hgather]

@[simp]
theorem requests_onSyncBlockHandled {m : BlockMessage} {result : HandleBlockResult} :
    (n.onSyncBlockHandled config m result).requests = n.requests := by
  unfold onSyncBlockHandled
  split
  . rw [requests_finish]
    apply requests_modifyPeers
    intro p
    unfold endProcessing
    split <;> rfl
  . simp
  . rfl
  . simp

@[simp]
theorem requests_onBlockHandled {m : BlockMessage} {hash : ItemHash} {result : HandleBlockResult}
    {recent : ItemId → Bool} :
    (n.onBlockHandled config peer m hash result recent).requests = n.requests := by
  unfold onBlockHandled
  split <;> simp

end frame

section refine

variable {p : PeerConnection} {items : List ItemHash}

theorem asked_of_find? (hp : n.peers.find? peer = some p) :
    n.requests.asked peer = p.syncItemsRequestedFromPeer := by
  show (n.peers.find? peer).elim ∅ _ = _
  rw [hp]
  rfl

/-- What one peer is asked for changes. -/
theorem requests_of_modify (n' : NodeImpl) {f : PeerConnection → PeerConnection}
    (hf : ∀ p, (f p).id = p.id) (hp : n.peers.find? peer = some p)
    (hpeers : n'.peers = n.peers.modify peer f hf) :
    n'.requests = ⟨Function.update n.requests.asked peer (f p).syncItemsRequestedFromPeer,
      n'.activeSyncRequests⟩ := by
  unfold requests
  congr 1
  funext k
  rw [hpeers, Table.find?_modify]
  split
  . next hk =>
    rw [hk, hp, Function.update_self]
    rfl
  . next hk => rw [Function.update_of_ne hk]

theorem requests_requestSyncItemsFromPeer (hp : n.peers.find? peer = some p) :
    (n.requestSyncItemsFromPeer peer items).requests =
      ⟨Function.update n.requests.asked peer (n.requests.asked peer ∪ items.toFinset),
        n.activeSyncRequests ∪ items.toFinset⟩ := by
  rw [asked_of_find? hp]
  exact requests_of_modify (n.requestSyncItemsFromPeer peer items) (fun p => by rfl) hp rfl

theorem isSome_find?_requestSyncItemsFromPeer {k : Nat} :
    ((n.requestSyncItemsFromPeer peer items).peers.find? k).isSome = (n.peers.find? k).isSome := by
  unfold requestSyncItemsFromPeer modifyPeer
  dsimp only
  rw [Table.find?_modify]
  split
  . rw [Option.isSome_map]
  . rfl

theorem mem_chooseItems {wanted : ItemHash → Bool} {ids chosen : List ItemHash}
    (h : id ∈ chooseItems config wanted ids chosen) : id ∈ chosen ∨ wanted id := by
  induction ids generalizing chosen with
  | nil => exact .inl h
  | cons id' ids ih =>
    have hnew : wanted id' → id ∈ chosen ++ [id'] → id ∈ chosen ∨ wanted id := by
      intro hwanted hid
      rw [List.mem_append, List.mem_singleton] at hid
      rcases hid with hid | rfl
      . exact .inl hid
      . exact .inr hwanted
    unfold chooseItems at h
    split at h
    . next hid =>
      dsimp only at h
      split at h
      . exact hnew hid.1 h
      . rcases ih h with h | h
        . exact hnew hid.1 h
        . exact .inr h
    . exact ih h

/-- Different peers are asked for different blocks, none of which is being asked for. -/
theorem scheduleRequests_spec {ps : List PeerConnection} {itemsToRequest : List ItemHash} :
    (∀ r ∈ n.scheduleRequests config ps itemsToRequest, (∃ p ∈ ps, p.id = r.1) ∧
        ∀ id ∈ r.2, id ∉ n.activeSyncRequests ∧ id ∉ itemsToRequest) ∧
      (n.scheduleRequests config ps itemsToRequest).Pairwise fun r r' => ∀ id ∈ r.2, id ∉ r'.2 := by
  induction ps generalizing itemsToRequest with
  | nil => exact ⟨List.forall_mem_nil _, .nil⟩
  | cons p ps ih =>
    unfold scheduleRequests
    split
    . dsimp only
      obtain ⟨hrest, hpairwise⟩ := ih
      refine ⟨?_, List.pairwise_cons.mpr ⟨?_, hpairwise⟩⟩
      . rw [List.forall_mem_cons]
        refine ⟨⟨⟨p, List.mem_cons_self, rfl⟩, ?_⟩, ?_⟩
        . intro id hid
          rcases mem_chooseItems hid with hid | hid
          . cases hid
          . simp only [Bool.and_eq_true, decide_eq_true_eq] at hid
            exact ⟨hid.2, hid.1.2⟩
        . intro r hr
          obtain ⟨⟨q, hq, hid⟩, hfresh⟩ := hrest r hr
          refine ⟨⟨q, List.mem_cons_of_mem _ hq, hid⟩, fun id hin => ⟨(hfresh id hin).1, ?_⟩⟩
          exact fun hmem => (hfresh id hin).2 (List.mem_append_left _ hmem)
      . intro r hr id hid hin
        exact ((hrest r hr).2 id hin).2 (List.mem_append_right _ hid)
    . refine ⟨fun r hr => ?_, ih.2⟩
      obtain ⟨⟨q, hq, hid⟩, hfresh⟩ := ih.1 r hr
      exact ⟨⟨q, List.mem_cons_of_mem _ hq, hid⟩, hfresh⟩

theorem steps_foldl {l : List (Nat × List ItemHash)}
    (hl : ∀ r ∈ l, (n.peers.find? r.1).isSome ∧ ∀ id ∈ r.2, id ∉ n.activeSyncRequests)
    (hpairwise : l.Pairwise fun r r' => ∀ id ∈ r.2, id ∉ r'.2) :
    n.requests.Steps
      (l.foldl (fun n (peer, items) => n.requestSyncItemsFromPeer peer items) n).requests := by
  induction l generalizing n with
  | nil => exact .refl
  | cons r l ih =>
    rw [List.forall_mem_cons] at hl
    rw [List.pairwise_cons] at hpairwise
    obtain ⟨⟨hfound, hfresh⟩, hl⟩ := hl
    obtain ⟨p, hp⟩ := Option.isSome_iff_exists.mp hfound
    refine .head ?_ (ih ?_ hpairwise.2)
    . rw [requests_requestSyncItemsFromPeer hp]
      apply RequestBook.Step.ask
      rw [Finset.disjoint_left]
      intro id hid
      exact hfresh id (List.mem_toFinset.mp hid)
    . intro r' hr'
      constructor
      . rw [isSome_find?_requestSyncItemsFromPeer]
        exact (hl r' hr').1
      . intro id hid hactive
        rcases Finset.mem_union.mp hactive with hactive | hitem
        . exact (hl r' hr').2 id hid hactive
        . exact hpairwise.1 r' hr' id (List.mem_toFinset.mp hitem) hid

theorem steps_fetchSyncItems {order : List PeerConnection} (h : order.Perm n.activeConnections) :
    n.requests.Steps (n.fetchSyncItems config order).requests := by
  unfold fetchSyncItems
  split
  . exact .refl
  . obtain ⟨hspec, hpairwise⟩ := @scheduleRequests_spec config n order []
    refine steps_foldl (fun r hr => ?_) hpairwise
    obtain ⟨⟨q, hq, hid⟩, hfresh⟩ := hspec r hr
    refine ⟨?_, fun id hin => (hfresh id hin).1⟩
    rw [← hid, Table.find?_of_mem (List.mem_filter.mp (h.mem_iff.mp hq)).1]
    rfl

/-- One peer is no longer asked for a block, which ends the request or not. -/
theorem step_of_modify (n' : NodeImpl) {f : PeerConnection → PeerConnection}
    (hf : ∀ p, (f p).id = p.id) (hp : n.peers.find? peer = some p)
    (hpeers : n'.peers = n.peers.modify peer f hf) (hid : id ∈ p.syncItemsRequestedFromPeer)
    (hsync : (f p).syncItemsRequestedFromPeer = p.syncItemsRequestedFromPeer.erase id) :
    (n'.activeSyncRequests = n.activeSyncRequests.erase id → n.requests.Step none n'.requests) ∧
      (n'.activeSyncRequests = n.activeSyncRequests →
        n.requests.Step (some (peer, id)) n'.requests) := by
  rw [requests_of_modify n' hf hp hpeers, hsync]
  rw [← asked_of_find? hp] at hid ⊢
  constructor
  . intro hactive
    rw [hactive]
    exact .answer hid
  . intro hactive
    rw [hactive]
    exact .refuse hid

theorem steps_processBlockMessage {m : BlockMessage} {hash : ItemHash} {recent : ItemId → Bool} :
    n.requests.Steps (n.processBlockMessage config peer m hash recent).requests := by
  unfold processBlockMessage
  split
  . exact .refl
  . next p hp =>
    split
    . unfold processBlockDuringNormalOperation
      dsimp only
      split
      . simpa using .refl
      . simpa using .refl
    . split
      . next hid =>
        rw [requests_afterSyncBlock]
        exact .single ((step_of_modify _ (fun p => by rfl) hp rfl hid rfl).1 rfl)
      . simpa using .refl

theorem leave_of_erase (n' : NodeImpl) (hp : n.peers.find? peer = some p)
    (hpeers : n'.peers = n.peers.erase peer)
    (hactive : n'.activeSyncRequests = n.activeSyncRequests \ p.syncItemsRequestedFromPeer) :
    n.requests.Step none n'.requests := by
  have hrequests : n'.requests =
      ⟨Function.update n.requests.asked peer ∅, n.activeSyncRequests \ n.requests.asked peer⟩ := by
    rw [asked_of_find? hp, ← hactive]
    unfold requests
    congr 1
    funext k
    rw [hpeers]
    by_cases hk : k = peer
    . rw [hk, Table.find?_erase_self, Function.update_self]
      rfl
    . rw [Table.find?_erase_of_ne _ hk, Function.update_of_ne hk]
  rw [hrequests]
  exact .leave

theorem steps_onConnectionClosed : n.requests.Steps (n.onConnectionClosed peer).requests := by
  unfold onConnectionClosed
  split
  . exact .refl
  . next p hp => exact .single (leave_of_erase _ hp rfl rfl)

/-- What a peer says it has not. -/
def refuses (n : NodeImpl) : NodeEvent → Option (Nat × ItemHash)
  | .itemNotAvailable peer item =>
    (n.peers.find? peer).bind fun p =>
      if item ∉ p.itemsRequestedFromPeer ∧ item.itemHash ∈ p.syncItemsRequestedFromPeer then
        some (peer, item.itemHash)
      else
        none
  | _ => none

theorem steps_of_eq (h : n'.requests = n.requests) : n.requests.Steps n'.requests :=
  h ▸ .refl

theorem steps_of_some {m : NodeImpl} (h : some m = some n') (hm : m.requests = n.requests) :
    n.requests.Steps n'.requests := by
  injection h with h
  exact steps_of_eq (h ▸ hm)

theorem steps_of_resume {task : NodeTask} {m : NodeImpl} (h : n.resume task m = some n')
    (hm : m.requests = n.requests) : n.requests.Steps n'.requests := by
  unfold resume at h
  split at h
  . exact steps_of_some h hm
  . cases h

/-- What happens to the requests is what happens to a book of them. -/
theorem steps_handle {e : NodeEvent} (h : n.handle config e = some n')
    (hrefuse : n.refuses e = none) : n.requests.Steps n'.requests := by
  cases e with
  | connected peer =>
    obtain ⟨peers, hpeers, rfl⟩ := Option.map_eq_some_iff.mp h
    obtain ⟨hnew, rfl⟩ := Table.emplace_eq_some_iff.mp hpeers
    apply steps_of_eq
    unfold requests
    congr 1
    funext k
    rw [Table.find?_insert]
    split
    . next hk =>
      rw [← hk, hnew]
      rfl
    . rfl
  | becameActive peer | fetchItem peer item =>
    obtain ⟨p, -, h⟩ := Option.bind_eq_some_iff.mp h
    split at h
    . apply steps_of_some h
      simp [fetchItem]
    . cases h
  | blockchainItemIdsInventory peer itemType ids total =>
    simp only [handle] at h
    split at h
    . cases h
    . apply steps_of_some h
      unfold onBlockchainItemIdsInventoryMessage
      split
      . rfl
      . split <;> simp
  | fetchItems v peer items =>
    apply steps_of_some h
    unfold onFetchItemsMessage
    split
    . rfl
    . split <;> simp
  | synopsisCreated v peer reference ids =>
    apply steps_of_resume h
    unfold onSynopsisCreated
    dsimp only
    split <;> simp
  | fetchSyncItems order =>
    simp only [handle] at h
    split at h
    . next horder =>
      injection h with h
      exact h ▸ steps_fetchSyncItems horder
    . cases h
  | itemNotAvailable peer item =>
    apply steps_of_some h
    unfold onItemNotAvailableMessage
    split
    . rfl
    . next p hp =>
      split
      . dsimp only
        split <;> simp
      . next hitem =>
        split
        . next hsync =>
          simp only [refuses, hp, Option.bind_some, hitem, hsync, not_false_eq_true, and_self,
            if_true] at hrefuse
          cases hrefuse
        . rfl
  | connectionClosed peer =>
    injection h with h
    exact h ▸ steps_onConnectionClosed
  | blockMessage peer m hash recent =>
    injection h with h
    exact h ▸ steps_processBlockMessage
  | ordinaryMessage peer item accepted =>
    apply steps_of_some h
    unfold processOrdinaryMessage
    split
    . rfl
    . split
      . dsimp only
        split <;> simp
      . simp
  | processBacklog =>
    apply steps_of_some h
    unfold processBacklogOfSyncBlocks
    split <;> simp
  | idsReceived | syncBlockHandled | blockHandled | resumed =>
    apply steps_of_resume h
    simp
  | _ =>
    apply steps_of_some h
    simp [onClosingConnectionMessage, onItemIdsInventoryMessage, advertiseInventory,
      PeerConnection.clearOldInventory]

theorem step_handle {e : NodeEvent} (h : n.handle config e = some n')
    (hrefuse : n.refuses e = some (peer, id)) : n.requests.Step (some (peer, id)) n'.requests := by
  cases e with
  | itemNotAvailable peer' item =>
    injection h with h
    rw [← h]
    obtain ⟨p, hp, hitem⟩ := Option.bind_eq_some_iff.mp hrefuse
    split at hitem
    . next hsync =>
      injection hitem with hitem
      injection hitem with hpeer hid
      subst hpeer hid
      suffices heq : (n.onItemNotAvailableMessage peer' item).requests =
          (n.modifyPeer peer' fun p =>
            { p with
              syncItemsRequestedFromPeer :=
                p.syncItemsRequestedFromPeer.erase item.itemHash }).requests by
        rw [heq]
        exact (step_of_modify _ (fun p => by rfl) hp rfl hsync.2 rfl).2 rfl
      unfold onItemNotAvailableMessage
      rw [hp]
      dsimp only
      rw [if_neg hsync.1, if_pos hsync.2]
      split
      . exact requests_modifyPeer fun _ => rfl
      . exact requests_disconnectFromPeer
    . cases hitem
  | _ => cases hrefuse

end refine

section runs

variable {p q : PeerConnection} {e : NodeEvent}

theorem sound_of_reachable (h : (network config).Reachable n) : n.requests.Sound := by
  apply h.invariant
  . rintro n rfl
    exact ⟨fun _ => Finset.Subset.refl _, fun _ _ _ hid => absurd hid (Finset.notMem_empty _)⟩
  . intro n e n' hsound _ hstep
    cases hrefuse : n.refuses e with
    | none => exact (steps_handle hstep hrefuse).sound hsound
    | some r => exact hsound.step (step_handle hstep hrefuse)

/-- No block is asked for twice at a time, and every one that is asked for is known to be. -/
theorem requested_of_reachable (h : (network config).Reachable n) (hp : p ∈ n.peers.rows)
    (hid : id ∈ p.syncItemsRequestedFromPeer) :
    id ∈ n.activeSyncRequests ∧
      ∀ q ∈ n.peers.rows, id ∈ q.syncItemsRequestedFromPeer → q = p := by
  have hsound := sound_of_reachable h
  have hfound := Table.find?_of_mem hp
  rw [← asked_of_find? hfound] at hid
  refine ⟨hsound.active _ hid, ?_⟩
  intro q hq hid'
  rw [← asked_of_find? (Table.find?_of_mem hq)] at hid'
  exact n.peers.mem_rows_inj hq hp (hsound.unique _ _ _ hid' hid)

theorem exists_peer_of_asked (h : id ∈ n.requests.asked peer) :
    ∃ p ∈ n.peers.rows, id ∈ p.syncItemsRequestedFromPeer := by
  unfold requests at h
  cases hp : n.peers.find? peer with
  | none =>
    simp only [hp, Option.elim_none] at h
    exact absurd h (Finset.notMem_empty _)
  | some p =>
    simp only [hp, Option.elim_some] at h
    exact ⟨p, Table.mem_of_find? hp, h⟩

/-- As long as no peer says that it has not what it is asked for, all requests are open. -/
theorem open_of_reach (h : (network config).Reach (fun n e => n.refuses e = none) n)
    (hid : id ∈ n.activeSyncRequests) :
    ∃ p ∈ n.peers.rows, id ∈ p.syncItemsRequestedFromPeer := by
  have hknown : n.requests.Known := by
    apply h.invariant
    . rintro n rfl id hid
      exact absurd hid (Finset.notMem_empty _)
    . intro n e n' hknown hrefuse hstep
      exact (steps_handle hstep hrefuse).known hknown
  obtain ⟨peer, hpeer⟩ := hknown id hid
  exact exists_peer_of_asked hpeer

/-- What a peer says that it has not is never asked for again, whoever has it. -/
theorem lost_of_reachable (h : (network config).Reachable n) (hrefuse : n.refuses e = some (peer, id))
    (hstep : n.handle config e = some n') {m : NodeImpl}
    (hlater : ((network config).startedIn n').Reachable m) :
    id ∈ m.activeSyncRequests ∧ ∀ p ∈ m.peers.rows, id ∉ p.syncItemsRequestedFromPeer := by
  have hlost : m.requests.Lost id := by
    induction hlater with
    | initial hm =>
      rw [hm]
      exact (sound_of_reachable h).lost (step_handle hstep hrefuse)
    | @step n _ e _ _ hstep hlost =>
      cases hrefuse : n.refuses e with
      | none => exact (steps_handle hstep hrefuse).lost hlost
      | some r => exact hlost.step (step_handle hstep hrefuse)
  refine ⟨hlost.1, ?_⟩
  intro p hp hid
  apply hlost.2 p.id
  rw [asked_of_find? (Table.find?_of_mem hp)]
  exact hid

end runs

section asking

/-- A node without blocks. -/
def noBlocks : ChainView where
  headBlockNum := 0
  blockIdForNum _ := none
  isKnownBlock _ := false

def firstBlock : ItemHash :=
  2 ^ 128

/-- A peer tells the node of a block. -/
def telling (peer : Nat) : List NodeEvent :=
  [.connected peer, .becameActive peer, .synopsisCreated noBlocks peer 0 [],
    .blockchainItemIdsInventory peer .block [firstBlock] 0,
    .idsReceived noBlocks .checking peer .block [firstBlock] 0]

/-- Two peers tell the node of the same block, which is new only for the first of them. -/
def tellingTwice : List NodeEvent :=
  telling 1 ++ .idsReceived noBlocks .flushing 1 .block [firstBlock] 0 :: telling 2

def told : NodeImpl :=
  (tellingTwice.foldlM (NodeImpl.handle {}) {}).getD {}

/-- The node asks the first peer for the block. -/
def asking : NodeImpl :=
  told.fetchSyncItems {} told.activeConnections

theorem reach_of_foldlM {ok : NodeImpl → NodeEvent → Prop} {events : List NodeEvent}
    (h : (network config).Reach ok n) (hok : ∀ e ∈ events, ∀ n, ok n e)
    (hevents : events.foldlM (NodeImpl.handle config) n = some n') :
    (network config).Reach ok n' := by
  induction events generalizing n with
  | nil =>
    injection hevents with hevents
    exact hevents ▸ h
  | cons e events ih =>
    rw [List.forall_mem_cons] at hok
    obtain ⟨n₁, he, hevents⟩ := Option.bind_eq_some_iff.mp hevents
    exact ih (.step h (hok.1 n) he) hok.2 hevents

theorem reach_asking : (network {}).Reach (fun n e => n.refuses e = none) asking := by
  have htelling : tellingTwice.foldlM (NodeImpl.handle {}) {} = some told :=
    (Option.getD_of_ne_none (by decide +kernel) _).symm
  have hstep : told.handle {} (.fetchSyncItems told.activeConnections) = some asking := by
    rw [handle, if_pos (List.Perm.refl _), asking]
  refine .step (reach_of_foldlM (.initial rfl) ?_ htelling) rfl hstep
  simp [tellingTwice, telling, refuses]

def source : PeerConnection :=
  asking.peers.rows.getD 0 { id := 0 }

theorem requested_asking :
    (asking.peers.rows.map fun p => p.idsOfItemsToGet) = [[firstBlock], [firstBlock]] ∧
      firstBlock ∈ asking.activeSyncRequests ∧
      ∀ q ∈ asking.peers.rows, firstBlock ∈ q.syncItemsRequestedFromPeer → q = source :=
  ⟨by decide +kernel,
    requested_of_reachable reach_asking.reachable (by decide +kernel) (by decide +kernel)⟩

theorem open_asking : ∃ p ∈ asking.peers.rows, firstBlock ∈ p.syncItemsRequestedFromPeer :=
  open_of_reach reach_asking (by decide +kernel)

/-- The peer says that it has not the block. -/
def refused : NodeImpl :=
  asking.onItemNotAvailableMessage 1 ⟨.block, firstBlock⟩

theorem lost_refused : firstBlock ∈ (refused.onConnectionClosed 1).activeSyncRequests ∧
    ∀ p ∈ (refused.onConnectionClosed 1).peers.rows, firstBlock ∉ p.syncItemsRequestedFromPeer := by
  have hrefuse : asking.refuses (.itemNotAvailable 1 ⟨.block, firstBlock⟩) = some (1, firstBlock) := by
    decide +kernel
  have hleft : ((network {}).startedIn refused).Reachable (refused.onConnectionClosed 1) :=
    .step (e := .connectionClosed 1) (.initial rfl) trivial rfl
  exact lost_of_reachable reach_asking.reachable hrefuse rfl hleft

end asking

end NodeImpl

end Golos
