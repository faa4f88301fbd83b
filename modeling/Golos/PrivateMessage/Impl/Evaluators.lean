import Golos.PrivateMessage.Impl.Objects

/-!
This module contains the evaluators of the plugin `private_message`.
-/

namespace Golos

open Checked

namespace PrivateMessageDatabase

variable {W Json : Type} (fc : Fc Json) (db : PrivateMessageDatabase W) (plugin : PrivateMessagePlugin)

section visitor

/-- `is_moder` of the visitor: the owner of the group counts as a moderator. -/
def isModer (account : AccountName) (pgo : PrivateGroupObject) : Bool :=
  pgo.owner = account || db.memberType account pgo.name = some .moder

/-- `private_message_extension_visitor`, without the values it hands out. -/
def visitOptions (requester deleteFrom : AccountName) (o : PrivateGroupOptions) : Result Unit := do
  db.chain.assertReqHf 30 "private_group_options"
  let pgo ← db.getGroup o.group
  let req := if o.requester ≠ "" then o.requester else requester
  ensure (db.memberType req pgo.name ≠ some .banned) (.logicException "You are banned.")
  ensure (pgo.privacy ≠ .publicGroup →
      db.memberType req pgo.name = some .member ∨ db.isModer req pgo = true)
    (.logicException "You should be member of the group.")
  ensure (o.requester ≠ "" → db.isModer req pgo = true)
    (.logicException "You should be moder to update foreign messages.")
  ensure (deleteFrom ≠ "" → requester ≠ deleteFrom → db.isModer req pgo = true)
    (.logicException "You should be moder to delete foreign messages.")

end visitor

section message

/-- The checks of `private_message_evaluator` on who writes to whom. -/
def checkRecipient (o : PrivateMessageOperation) : Result Unit :=
  if o.toAccount = "" then
    pure ()
  else do
    let _ ← db.chain.getAccount o.toAccount
    let contact := db.contacts.find? (o.fromAccount, o.toAccount)
    ensure (contact.all fun c => c.type ≠ .ignored)
      (.logicException "Sender is in the ignore list of recipient")
    db.chain.checkNoBlocking o.toAccount o.fromAccount
    ensure ((db.settings.find? o.toAccount).all (fun s => !s.ignoreMessagesFromUnknownContact) ∨
        contact.any fun c => c.type = .pinned)
      (.logicException "Recipient accepts messages only from his contact list")

/-- `set_message` -/
def setMessage (o : PrivateMessageOperation) (mentions : List AccountName) (m : MessageObject) :
    MessageObject :=
  { m with
    fromMemoKey := o.fromMemoKey
    toMemoKey := o.toMemoKey
    checksum := o.checksum
    receiveDate := db.chain.headBlockTime
    encryptedMessage := o.encryptedMessage
    mentions := mentions }

def createMessage (o : PrivateMessageOperation) (group : String) (mentions : List AccountName) :
    Result (PrivateMessageDatabase W) := do
  let now := db.chain.headBlockTime
  let m : MessageObject := db.setMessage o mentions
    { id := db.nextMessageId
      group := group
      fromAccount := o.fromAccount
      toAccount := o.toAccount
      nonce := o.nonce
      inboxCreateDate := now
      outboxCreateDate := now
      receiveDate := now
      readDate := if group ≠ "" ∧ o.toAccount = "" then now else 0 }
  let messages ← get (db.messages.emplace m) .uniquenessViolated
  pure { db with messages := messages, nextMessageId := db.nextMessageId + 1 }

/-- The part of `private_message_evaluator` that creates or updates the message. -/
def storeMessage (o : PrivateMessageOperation) (group : String) (mentions : List AccountName) :
    Result (PrivateMessageDatabase W) :=
  match db.messages.find? (group, o.fromAccount, o.toAccount, o.nonce) with
  | none =>
    if group ≠ "" then do
      let _ ← db.chain.getAccount o.fromAccount
      db.chain.checkGolosPower o.fromAccount
      let _ ← db.getGroup group
      (db.modifyGroup group fun pgo =>
        { pgo with totalMessages := pgo.totalMessages + 1 }).createMessage o group mentions
    else
      db.createMessage o group mentions
  | some m => pure (db.modifyMessage m (db.setMessage o mentions))

/-- `modify_counters` -/
def modifyCounters (unreadOutbox isNewContact isSend isMention : Bool) (o : ContactSizeObject) :
    ContactSizeObject :=
  { o with
    size := o.size.inc unreadOutbox isSend isMention
    totalContacts := o.totalContacts + if isNewContact then 1 else 0 }

/-- `modify_size` -/
def modifySize (owner : AccountName) (type : PrivateContactType)
    (unreadOutbox isNewContact isSend isMention : Bool) : Result (PrivateMessageDatabase W) :=
  match db.contactSizes.find? (owner, type) with
  | none => do
    let sizes ← get (db.contactSizes.emplace
        (modifyCounters unreadOutbox isNewContact isSend isMention { owner := owner, type := type }))
      .uniquenessViolated
    pure { db with contactSizes := sizes }
  | some o =>
    pure (db.modifyContactSize o (modifyCounters unreadOutbox isNewContact isSend isMention))

/-- `contact_at` -/
def contactAt (kind : ContactKind) (contact : String) : String :=
  if kind = .account then withDog contact else contact

/-- `modify_contact`, for a contact that is unknown when it is new. -/
def countContact (owner : AccountName) (contact : String) (kind : ContactKind)
    (unreadOutbox isSend isMention : Bool) : Result (PrivateMessageDatabase W) :=
  match db.contacts.find? (contactAt kind contact, owner) with
  | some o =>
    (db.modifyContact o fun o =>
      { o with isHidden := false, size := o.size.inc unreadOutbox isSend isMention }).modifySize
        owner o.type unreadOutbox false isSend isMention
  | none => do
    let contacts ← get (db.contacts.emplace
        { owner := owner
          contact := contactAt kind contact
          kind := kind
          type := .unknown
          size := ({} : ContactSizeInfo).inc unreadOutbox isSend isMention })
      .uniquenessViolated
    { db with contacts := contacts }.modifySize owner .unknown unreadOutbox true isSend isMention

/-- The updates of contacts and their sizes for a new message. -/
def countContacts (o : PrivateMessageOperation) (group : String) (mentions : List AccountName) :
    Result (PrivateMessageDatabase W) :=
  if group = "" then do
    let db ← db.countContact o.fromAccount o.toAccount .account true true false
    db.countContact o.toAccount o.fromAccount .account true false false
  else do
    let unreadOutbox := o.toAccount ≠ ""
    let db ← db.countContact o.fromAccount group .group unreadOutbox true false
    let db ← if o.toAccount ≠ "" then
        db.countContact o.toAccount group .group unreadOutbox false false
      else
        pure db
    (mentions.filter fun men => o.toAccount ≠ men).foldlM
      (fun db men => db.countContact men group .group unreadOutbox false true) db

def privateMessage (o : PrivateMessageOperation) : Result (PrivateMessageDatabase W) :=
  if !plugin.isTrackedAccount o.fromAccount ∧ !plugin.isTrackedAccount o.toAccount then
    pure db
  else do
    db.checkRecipient o
    o.extensions.forM (db.visitOptions o.fromAccount "")
    let options := lastOptions o.extensions
    options.mentions.forM fun acc => do
      let _ ← db.chain.getAccount acc
      pure ()
    let known := (db.messages.find?
      (options.group, o.fromAccount, o.toAccount, o.nonce)).isSome
    ensure (o.update = true → known = true) (.missingObject "private_message")
    ensure (o.update = false → known = false) (.objectAlreadyExist "private_message")
    options.mentions.forM fun men => db.chain.checkNoBlocking men o.fromAccount
    let stored ← db.storeMessage o options.group options.mentions
    if o.update then
      pure stored
    else
      stored.countContacts o options.group options.mentions

end message

section processing

/-- What `process_action` changes: the database, the map of counters and `total_marked_messages`. -/
structure Processing (W : Type) where
  db : PrivateMessageDatabase W
  map : StatMap := []
  totalMarkedMessages : UInt32 := 0

/-- `process_private_messages`, and whether there were messages. -/
def Processing.along (s : Processing W) (q : MessageQuery)
    (action : Processing W → MessageObject → Processing W) (d : Direction) :
    Processing W × Bool :=
  let messages := s.db.messagesOf q d
  (messages.foldl action s, !messages.isEmpty)

/-- Calls of `process_private_messages` one after the other. -/
def Processing.alongAll (s : Processing W) (q : MessageQuery)
    (action : Processing W → MessageObject → Processing W) : List Direction → Processing W × Bool
  | [] => (s, false)
  | d :: ds =>
    let first := s.along q action d
    let rest := first.1.alongAll q action ds
    (rest.1, first.2 || rest.2)

/--
The first half of `process_group_message_operation`, which chooses the messages. The two calls of
its last branch can run in any order; here they run from left to right.
-/
def Processing.process (s : Processing W) (q : MessageQuery) (group : String)
    (requester : AccountName) (action : Processing W → MessageObject → Processing W)
    (noMsgs : Processing W → Option (Processing W)) (deleteContact : Bool) :
    Result (Processing W) :=
  if q.nonce ≠ 0 then
    match s.db.messages.find? (group, q.fromAccount, q.toAccount, q.nonce) with
    | none => get (noMsgs s) (.missingObject "private_message")
    | some m => pure (action s m)
  else
    let processed := s.alongAll q action (q.directions group requester deleteContact)
    if processed.2 then
      pure processed.1
    else
      get (noMsgs processed.1) (.missingObject "private_message")

/-- The second half, which settles the counters of the contacts. -/
def settleContacts (db : PrivateMessageDatabase W) (map : StatMap)
    (contactAction : PrivateMessageDatabase W → ContactObject → ContactSizeObject →
      ContactSizeInfo → Result (PrivateMessageDatabase W × Bool)) :
    Result (PrivateMessageDatabase W) :=
  map.foldlM
    (fun db (key, size) => do
      let contact ← get (db.contacts.find? key) (.assertException "Invalid size")
      let sizes ← get (db.contactSizes.find? (key.2, contact.type)) (.assertException "Invalid size")
      let (db, done) ← contactAction db contact sizes size
      if done then
        pure db
      else
        pure ((db.modifyContact contact fun o =>
          { o with size := o.size.sub size }).modifyContactSize sizes fun o =>
            { o with size := o.size.sub size }))
    db

end processing

section delete

/-- `process_action` of `private_delete_message_evaluator` -/
def deleteAction (requester : AccountName) (group : String) (s : Processing W)
    (m : MessageObject) : Processing W :=
  let unread : UInt32 := if m.readDate = 0 then 1 else 0
  let countInbox (size : ContactSizeInfo) : ContactSizeInfo :=
    { size with
      unreadInboxMessages := size.unreadInboxMessages + unread
      totalInboxMessages := size.totalInboxMessages + 1 }
  let map :=
    if group = "" then
      let map := s.map.update fc (withDog m.fromAccount, m.toAccount) countInbox
      map.update fc (withDog m.toAccount, m.fromAccount) fun size =>
        { size with
          unreadOutboxMessages := size.unreadOutboxMessages + unread
          totalOutboxMessages := size.totalOutboxMessages + 1 }
    else
      let map :=
        if m.toAccount ≠ "" then s.map.update fc (group, m.toAccount) countInbox else s.map
      let map := (m.mentions.filter fun men => men ≠ m.toAccount).foldl
        (fun map men => map.update fc (group, men) fun size =>
          { size with unreadMentions := size.unreadMentions + 1 })
        map
      map.update fc (group, m.fromAccount) fun size =>
        { size with totalOutboxMessages := size.totalOutboxMessages + 1 }
  { db := s.db.removeMessage requester m, map := map }

/-- `no_msgs_action` of `private_delete_message_evaluator` -/
def deleteNoMsgs (o : PrivateDeleteMessageOperation) (s : Processing W) : Option (Processing W) :=
  if o.deleteContact = some true then
    let map := s.map.update fc (withDog o.fromAccount, o.toAccount) fun _ => {}
    some { s with map := map.update fc (withDog o.toAccount, o.fromAccount) fun _ => {} }
  else
    none

/-- `contact_action` of `private_delete_message_evaluator` -/
def deleteContactAction (o : PrivateDeleteMessageOperation) (db : PrivateMessageDatabase W)
    (contact : ContactObject) (sizes : ContactSizeObject) (size : ContactSizeInfo) :
    Result (PrivateMessageDatabase W × Bool) := do
  if contact.size ≠ size ∨ contact.type ≠ .unknown then
    ensure (o.deleteContact ≠ some true)
      (.invalidValue "Cannot delete contact without deleting all messages.")
    pure (db, false)
  else if o.deleteContact = some false then
    pure (db, false)
  else
    let db := { db with contacts := db.contacts.erase contact.byContact }
    if sizes.totalContacts = 1 then
      pure ({ db with contactSizes := db.contactSizes.erase sizes.byOwner }, true)
    else
      pure (db.modifyContactSize sizes fun o =>
        { o with totalContacts := o.totalContacts - 1, size := o.size.sub size }, true)

def privateDeleteMessage (o : PrivateDeleteMessageOperation) : Result (PrivateMessageDatabase W) :=
  if !plugin.isTrackedAccount o.fromAccount ∧ !plugin.isTrackedAccount o.toAccount ∧
      !plugin.isTrackedAccount o.requester then
    pure db
  else do
    o.extensions.forM fun
      | .privateGroupOptions options => db.visitOptions o.requester o.fromAccount options
      | .deleteOptions _ => db.chain.assertReqHf 30 "delete_options"
    let s ← Processing.process { db := db } o.query o.group o.requester
      (deleteAction fc o.requester o.group) (deleteNoMsgs fc o) o.deleteContact.isSome
    s.db.settleContacts s.map (deleteContactAction o)

end delete

section mark

/-- `process_action` of `private_mark_message_evaluator` -/
def markAction (options : PrivateGroupOptions) (s : Processing W) (m : MessageObject) :
    Processing W :=
  let requester := options.requester
  let now := s.db.chain.headBlockTime
  let unread := m.readDate = 0
  if options.group = "" then
    if unread then
      let map := s.map.update fc (withDog m.fromAccount, m.toAccount) fun size =>
        { size with unreadInboxMessages := size.unreadInboxMessages + 1 }
      { db := s.db.modifyMessage m fun m => { m with readDate := now }
        map := map.update fc (withDog m.toAccount, m.fromAccount) fun size =>
          { size with unreadOutboxMessages := size.unreadOutboxMessages + 1 }
        totalMarkedMessages := s.totalMarkedMessages + 1 }
    else
      s
  else
    let replied := m.toAccount = requester
    let mentioned := requester ∈ options.mentions ∧ requester ∈ m.mentions
    if (unread ∧ replied) ∨ mentioned then
      { db := s.db.modifyMessage m fun m =>
          { m with
            readDate := if replied then now else m.readDate
            mentions := if mentioned then m.mentions.erase requester else m.mentions }
        map := s.map.update fc (options.group, requester) fun size =>
          if replied then
            { size with unreadInboxMessages := size.unreadInboxMessages + 1 }
          else
            { size with unreadMentions := size.unreadMentions + 1 }
        totalMarkedMessages := s.totalMarkedMessages + 1 }
    else
      s

/-- The visitor only looks the groups up. -/
def privateMarkMessage (o : PrivateMarkMessageOperation) : Result (PrivateMessageDatabase W) :=
  if !plugin.isTrackedAccount o.fromAccount ∧ !plugin.isTrackedAccount o.toAccount then
    pure db
  else do
    o.extensions.forM fun options => do
      db.chain.assertReqHf 30 "private_group_options"
      let _ ← db.getGroup options.group
      pure ()
    let options := lastOptions o.extensions
    let requester := if options.group ≠ "" then options.requester else o.toAccount
    let s ← Processing.process { db := db } o.query options.group requester
      (markAction fc options) (fun _ => none) false
    let db ← s.db.settleContacts s.map fun db _ _ _ => pure (db, false)
    ensure (s.totalMarkedMessages > 0) (.logicException "No unread messages in requested range")
    pure db

end mark

section groups

def maxGroupsLimit : Nat := 100

/--
`private_group_evaluator` for a group that exists. The loop over the pending members ends after the
first of them: its new type moves it in the index, and the iterator with it, behind the others.
-/
def updateGroup (o : PrivateGroupOperation) (pgo : PrivateGroupObject) :
    Result (PrivateMessageDatabase W) := do
  ensure (pgo.owner = o.creator) (.logicException "Group already exists.")
  ensure (pgo.isEncrypted = o.isEncrypted)
    (.logicException "Cannot make encrypted group not encrypted or vice-versa.")
  ensure (o.privacy = .privateGroup → pgo.isEncrypted = true) (.logicException
    "Cannot make group private - messages in this group are not encrypted.")
  let opened := pgo.privacy ≠ .publicGroup ∧ o.privacy = .publicGroup
  let isPending (m : PrivateGroupMemberObject) : Bool :=
    opened ∧ m.group = pgo.name ∧ m.memberType = .pending
  let pend := db.members.rows.find? isPending
  let pendings : UInt32 := if pend.isSome then 1 else 0
  let members := pend.elim db.members fun m =>
    db.members.modify m.byAccountGroup fun m =>
      { m with memberType := .member, updated := db.chain.headBlockTime }
  pure ({ db with members := members }.modifyGroup pgo.name fun pgo =>
    { pgo with
      pendings := pgo.pendings - pendings
      members := pgo.members + pendings
      jsonMetadata := o.jsonMetadata
      privacy := o.privacy })

/-- The fee of `private_group_evaluator`, which the creator pays to the workers' pool. -/
def payGroupCost (creator : AccountName) : Result (PrivateMessageDatabase W) :=
  let fee := db.chain.medianProps.privateGroupCost
  if fee.amount ≠ 0 then do
    let account ← db.chain.getAccount creator
    db.chain.ledger.checkBalance account fee
    let cost ← fee.neg
    let ledger ← db.chain.ledger.adjustBalance creator cost
    let _ ← ledger.getAccount workerPoolAccount
    let ledger ← ledger.adjustBalance workerPoolAccount fee
    pure { db with chain := { db.chain with ledger := ledger } }
  else
    pure db

def createGroup (o : PrivateGroupOperation) : Result (PrivateMessageDatabase W) := do
  let db ← db.payGroupCost o.creator
  ensure (o.privacy = .privateGroup → o.isEncrypted = true)
    (.logicException "Cannot create private group not encrypted.")
  ensure (db.groups.rows.countP (fun g => g.owner = o.creator) < maxGroupsLimit)
    (.logicException "Too many groups.")
  let groups ← get (db.groups.emplace
      { owner := o.creator
        name := o.name
        jsonMetadata := o.jsonMetadata
        isEncrypted := o.isEncrypted
        privacy := o.privacy
        created := db.chain.headBlockTime })
    .uniquenessViolated
  pure { db with groups := groups }

def privateGroup (o : PrivateGroupOperation) : Result (PrivateMessageDatabase W) := do
  db.chain.assertReqHf 30 "private_group_operation"
  match db.groups.find? o.name with
  | some pgo => db.updateGroup o pgo
  | none => db.createGroup o

def privateGroupDelete (o : PrivateGroupDeleteOperation) : Result (PrivateMessageDatabase W) := do
  db.chain.assertReqHf 30 "private_group_delete_operation"
  let pgo ← db.getGroup o.name
  ensure (pgo.owner = o.owner) (.logicException "Not your group.")
  pure
    { db with
      members := db.members.filter fun m => m.group ≠ pgo.name
      contacts := db.contacts.filter fun c => c.contact ≠ pgo.name
      messages := db.messages.filter fun m => m.group ≠ pgo.name
      groups := db.groups.erase pgo.name }

/-- The checks of `private_group_member_evaluator` on who makes whom what. -/
def checkMember (o : PrivateGroupMemberOperation) (pgo : PrivateGroupObject) : Result Unit := do
  let isOwner := pgo.owner = o.requester
  let isModer := isOwner ∨ db.memberType o.requester o.name = some .moder
  let isSame := o.requester = o.member
  ensure (o.member ≠ pgo.owner)
    (.logicException "Group owner is special status, it can not be member.")
  match o.memberType with
  | .member =>
    ensure (pgo.privacy ≠ .publicGroup → isModer)
      (.logicException "Only moderators can add members to group or unban them.")
  | .pending => do
    ensure (pgo.privacy ≠ .publicGroup) (.logicException "Group is public.")
    ensure isSame (.logicException "User can request membership only by theirself.")
    db.chain.checkGolosPower o.member
  | .moder => ensure isOwner (.logicException "Only owner can make members moderators.")
  | .retired => do
    ensure isSame (.logicException "User can retire only by theirself.")
    ensure (db.memberType o.requester o.name ≠ some .banned) (.logicException "You are banned.")
    ensure (db.memberType o.requester o.name ≠ none) (.logicException "You are not in group.")
  | .banned => ensure (isModer ∧ ¬isSame) (.logicException "Only moderators can ban members.")
  | .size => pure ()
  | .other => pure ()
  match db.memberType o.member o.name with
  | none => pure ()
  | some type => do
    ensure (o.memberType ≠ .pending)
      (.logicException "Cannot make pending if member already in group.")
    ensure (type = .moder → isOwner) (.logicException "Only owner can update moders.")
    ensure (type = .banned → isModer) (.logicException "Only moder can unban.")

/-- The counter of a group that counts the members of a type. -/
def count (type : PrivateGroupMemberType) (d : UInt32) (pgo : PrivateGroupObject) :
    PrivateGroupObject :=
  match type with
  | .member => { pgo with members := pgo.members + d }
  | .pending => { pgo with pendings := pgo.pendings + d }
  | .moder => { pgo with moders := pgo.moders + d }
  | .banned => { pgo with banneds := pgo.banneds + d }
  | .retired => pgo
  | .size => pgo
  | .other => pgo

theorem name_count (type : PrivateGroupMemberType) (d : UInt32) (pgo : PrivateGroupObject) :
    (count type d pgo).name = pgo.name := by
  cases type
  all_goals rfl

def privateGroupMember (o : PrivateGroupMemberOperation) : Result (PrivateMessageDatabase W) := do
  db.chain.assertReqHf 30 "private_group_member_operation"
  let _ ← db.chain.getAccount o.member
  let pgo ← db.getGroup o.name
  db.checkMember o pgo
  let now := db.chain.headBlockTime
  match db.members.find? (o.member, o.name) with
  | some m =>
    let members :=
      if o.memberType = .retired then
        db.members.erase m.byAccountGroup
      else
        db.members.modify m.byAccountGroup fun m =>
          { m with memberType := o.memberType, updated := now }
    pure ({ db with members := members }.modifyGroup pgo.name
      (fun pgo => count m.memberType (-1) (count o.memberType 1 pgo))
      fun pgo => by rw [name_count, name_count])
  | none => do
    let members ← get (db.members.emplace
        { group := o.name
          account := o.member
          jsonMetadata := o.jsonMetadata
          memberType := o.memberType
          invited := o.requester
          joined := now
          updated := now })
      .uniquenessViolated
    pure ({ db with members := members }.modifyGroup pgo.name (count o.memberType 1)
      (name_count o.memberType 1))

end groups

/-- The evaluators of the plugin. -/
def apply : PrivateMessagePluginOperation → Result (PrivateMessageDatabase W)
  | .privateMessage o => db.privateMessage plugin o
  | .privateDeleteMessage o => db.privateDeleteMessage fc plugin o
  | .privateMarkMessage o => db.privateMarkMessage fc plugin o
  | .privateSettings _ =>
    throw (.logicException "private_settings_operation is not yet supported")
  | .privateContact _ => throw (.logicException "private_contact_operation is not yet supported")
  | .privateGroup o => db.privateGroup o
  | .privateGroupDelete o => db.privateGroupDelete o
  | .privateGroupMember o => db.privateGroupMember o

end PrivateMessageDatabase

end Golos
