import Mathlib.Data.List.Sort
import Golos.PrivateMessage.Impl.Operations

/-!
This module contains the objects of the plugin `private_message`, the ranges of messages its
operations go through, and the counters of contacts.
-/

namespace Golos

open Checked

structure MessageObject where
  id : Nat
  group : String
  fromAccount : AccountName
  toAccount : AccountName
  nonce : Nat
  fromMemoKey : PublicKeyType := 0
  toMemoKey : PublicKeyType := 0
  checksum : Nat := 0
  encryptedMessage : List UInt8 := []
  mentions : List AccountName := []
  inboxCreateDate : Nat
  outboxCreateDate : Nat
  receiveDate : Nat
  readDate : Nat := 0
  removeDate : Nat := 0
  deriving DecidableEq

abbrev MessageObject.byNonce (m : MessageObject) : String × AccountName × AccountName × Nat :=
  (m.group, m.fromAccount, m.toAccount, m.nonce)

structure SettingsObject where
  owner : AccountName
  ignoreMessagesFromUnknownContact : Bool := false

structure ContactSizeInfo where
  totalOutboxMessages : UInt32 := 0
  unreadOutboxMessages : UInt32 := 0
  totalInboxMessages : UInt32 := 0
  unreadInboxMessages : UInt32 := 0
  unreadMentions : UInt32 := 0
  deriving DecidableEq

def ContactSizeInfo.sub (s t : ContactSizeInfo) : ContactSizeInfo where
  totalOutboxMessages := s.totalOutboxMessages - t.totalOutboxMessages
  unreadOutboxMessages := s.unreadOutboxMessages - t.unreadOutboxMessages
  totalInboxMessages := s.totalInboxMessages - t.totalInboxMessages
  unreadInboxMessages := s.unreadInboxMessages - t.unreadInboxMessages
  unreadMentions := s.unreadMentions - t.unreadMentions

inductive ContactKind where
  | account
  | group
  deriving DecidableEq

structure ContactObject where
  owner : AccountName
  contact : String
  kind : ContactKind
  type : PrivateContactType
  size : ContactSizeInfo := {}
  isHidden : Bool := false

abbrev ContactObject.byContact (o : ContactObject) : String × AccountName :=
  (o.contact, o.owner)

structure ContactSizeObject where
  owner : AccountName
  type : PrivateContactType
  size : ContactSizeInfo := {}
  totalContacts : UInt32 := 0

abbrev ContactSizeObject.byOwner (o : ContactSizeObject) : AccountName × PrivateContactType :=
  (o.owner, o.type)

structure PrivateGroupObject where
  owner : AccountName
  name : String
  jsonMetadata : String := ""
  isEncrypted : Bool := false
  privacy : PrivateGroupPrivacy
  created : Nat := 0
  moders : UInt32 := 0
  members : UInt32 := 0
  pendings : UInt32 := 0
  banneds : UInt32 := 0
  totalMessages : UInt32 := 0

structure PrivateGroupMemberObject where
  group : String
  account : AccountName
  jsonMetadata : String := ""
  memberType : PrivateGroupMemberType
  invited : AccountName
  joined : Nat
  updated : Nat

abbrev PrivateGroupMemberObject.byAccountGroup (o : PrivateGroupMemberObject) :
    AccountName × String :=
  (o.account, o.group)

/-- The record of a message that `private_delete_message` removes, and of the groups then. -/
structure Removal where
  requester : AccountName
  message : MessageObject
  groups : Table PrivateGroupObject.name
  members : Table PrivateGroupMemberObject.byAccountGroup

/-- The settings `pm-account-range` and `pm-account-list` of a node. -/
structure PrivateMessagePlugin where
  trackedAccountRanges : List (String × String) := []
  trackedAccountList : List String := []

/-- The ranges are in the order of their first names. -/
def PrivateMessagePlugin.isTrackedAccount (p : PrivateMessagePlugin) (name : AccountName) : Bool :=
  (p.trackedAccountRanges.isEmpty && p.trackedAccountList.isEmpty) ||
    p.trackedAccountList.contains name ||
      (p.trackedAccountRanges.find? fun r => name ≤ r.1).any fun r => r.1 ≤ name ∧ name ≤ r.2

/-- The objects of the plugin. The last field only records what happens. -/
structure PrivateMessageDatabase (W : Type) where
  chain : ChainDatabase W
  messages : Table MessageObject.byNonce := .empty
  nextMessageId : Nat := 0
  settings : Table SettingsObject.owner := .empty
  contacts : Table ContactObject.byContact := .empty
  contactSizes : Table ContactSizeObject.byOwner := .empty
  groups : Table PrivateGroupObject.name := .empty
  members : Table PrivateGroupMemberObject.byAccountGroup := .empty
  removals : List Removal := []

def withDog (name : String) : String :=
  if name.toList.head? = some '@' then name else "@" ++ name

section ranges

/-- A prefix of the key of an index of messages, whose next component is a date. -/
inductive Direction where
  | byInbox (toAccount : AccountName)
  | byInboxAccount (group : String) (toAccount fromAccount : AccountName)
  | byOutbox (fromAccount : AccountName)
  | byOutboxAccount (group : String) (fromAccount toAccount : AccountName)
  | byGroup (group : String)

/-- The message has the prefix. -/
def Direction.Matches (m : MessageObject) : Direction → Prop
  | .byInbox toAccount => m.toAccount = toAccount
  | .byInboxAccount group toAccount fromAccount =>
    m.group = group ∧ m.toAccount = toAccount ∧ m.fromAccount = fromAccount
  | .byOutbox fromAccount => m.fromAccount = fromAccount
  | .byOutboxAccount group fromAccount toAccount =>
    m.group = group ∧ m.fromAccount = fromAccount ∧ m.toAccount = toAccount
  | .byGroup group => m.group = group

instance (m : MessageObject) : (d : Direction) → Decidable (d.Matches m)
  | .byInbox _ => inferInstanceAs (Decidable (_ = _))
  | .byInboxAccount _ _ _ => inferInstanceAs (Decidable (_ ∧ _))
  | .byOutbox _ => inferInstanceAs (Decidable (_ = _))
  | .byOutboxAccount _ _ _ => inferInstanceAs (Decidable (_ ∧ _))
  | .byGroup _ => inferInstanceAs (Decidable (_ = _))

def Direction.date (m : MessageObject) : Direction → Nat
  | .byInbox _ => m.inboxCreateDate
  | .byInboxAccount _ _ _ => m.inboxCreateDate
  | .byOutbox _ => m.outboxCreateDate
  | .byOutboxAccount _ _ _ => m.outboxCreateDate
  | .byGroup _ => m.outboxCreateDate

/-- The fields that choose the messages of an operation. -/
structure MessageQuery where
  fromAccount : AccountName
  toAccount : AccountName
  nonce : Nat
  startDate : Nat
  stopDate : Nat

def PrivateDeleteMessageOperation.query (o : PrivateDeleteMessageOperation) : MessageQuery :=
  ⟨o.fromAccount, o.toAccount, o.nonce, o.startDate, o.stopDate⟩

def PrivateMarkMessageOperation.query (o : PrivateMarkMessageOperation) : MessageQuery :=
  ⟨o.fromAccount, o.toAccount, o.nonce, o.startDate, o.stopDate⟩

/-- `min_create_date()` -/
def minCreateDate : Nat := 1

/-- The dates between the two bounds of `process_private_messages`; they go down along an index. -/
def MessageQuery.Covers (q : MessageQuery) (date : Nat) : Prop :=
  max q.startDate minCreateDate < date ∧ date ≤ max q.stopDate minCreateDate

instance (q : MessageQuery) (date : Nat) : Decidable (q.Covers date) :=
  inferInstanceAs (Decidable (_ ∧ _))

/--
The branches of `process_group_message_operation` for an operation without a nonce, as the indices
that each of them goes through.
-/
def MessageQuery.directions (q : MessageQuery) (group : String) (requester : AccountName)
    (deleteContact : Bool) : List Direction :=
  if group ≠ "" then
    [.byGroup group]
  else if q.fromAccount ≠ "" ∧ q.toAccount ≠ "" ∧ q.fromAccount = requester then
    .byOutboxAccount group q.fromAccount q.toAccount ::
      if deleteContact then [.byInboxAccount group q.fromAccount q.toAccount] else []
  else if q.fromAccount ≠ "" ∧ q.toAccount ≠ "" then
    [.byInboxAccount group q.toAccount q.fromAccount]
  else if q.fromAccount ≠ "" then
    [.byOutbox q.fromAccount]
  else if q.toAccount ≠ "" then
    [.byInbox q.toAccount]
  else
    [.byInbox requester, .byOutbox requester]

end ranges

section counters

/-- `flat_map<std::tuple<std::string, account_name_type>, contact_size_info>` -/
abbrev StatMap := List ((String × AccountName) × ContactSizeInfo)

variable {Json : Type} (fc : Fc Json)

/-- The order of the keys. -/
def statLess (k k' : String × AccountName) : Bool :=
  k.1 < k'.1 || (k.1 = k'.1 && fc.accountLess k.2 k'.2)

/-- `f(map[key])` -/
def StatMap.update (map : StatMap) (key : String × AccountName)
    (f : ContactSizeInfo → ContactSizeInfo) : StatMap :=
  match map with
  | [] => [(key, f {})]
  | (k, size) :: rest =>
    if k = key then
      (k, f size) :: rest
    else if statLess fc key k then
      (key, f {}) :: (k, size) :: rest
    else
      (k, size) :: StatMap.update rest key f

/-- `inc_counters` -/
def ContactSizeInfo.inc (size : ContactSizeInfo) (unreadOutbox isSend isMention : Bool) :
    ContactSizeInfo :=
  if isSend then
    { size with
      totalOutboxMessages := size.totalOutboxMessages + 1
      unreadOutboxMessages := size.unreadOutboxMessages + if unreadOutbox then 1 else 0 }
  else if isMention then
    { size with unreadMentions := size.unreadMentions + 1 }
  else
    { size with
      totalInboxMessages := size.totalInboxMessages + 1
      unreadInboxMessages := size.unreadInboxMessages + 1 }

end counters

namespace PrivateMessageDatabase

variable {W : Type} (db : PrivateMessageDatabase W)

def getGroup (name : String) : Result PrivateGroupObject :=
  get (db.groups.find? name) (.missingObject "private_group")

/-- The type of an account's membership in a group, if it is in the table of members. -/
def memberType (account : AccountName) (group : String) : Option PrivateGroupMemberType :=
  (db.members.find? (account, group)).map (·.memberType)

/-- The messages that `process_private_messages` goes through, in its order. -/
def messagesOf (q : MessageQuery) (d : Direction) : List MessageObject :=
  (db.messages.rows.filter fun m => d.Matches m ∧ q.Covers (d.date m)).insertionSort fun m m' =>
    d.date m' < d.date m ∨ (d.date m' = d.date m ∧ m'.id ≤ m.id)

/-- Remove a message and record it. -/
def removeMessage (requester : AccountName) (m : MessageObject) : PrivateMessageDatabase W :=
  { db with
    messages := db.messages.erase m.byNonce
    removals := db.removals ++ [⟨requester, m, db.groups, db.members⟩] }

def modifyMessage (m : MessageObject) (f : MessageObject → MessageObject)
    (hf : autoParam (∀ m, (f m).byNonce = m.byNonce) Monoid.npow_zero._autoParam) :
    PrivateMessageDatabase W :=
  { db with messages := db.messages.modify m.byNonce f hf }

def modifyContact (o : ContactObject) (f : ContactObject → ContactObject)
    (hf : autoParam (∀ o, (f o).byContact = o.byContact) Monoid.npow_zero._autoParam) :
    PrivateMessageDatabase W :=
  { db with contacts := db.contacts.modify o.byContact f hf }

def modifyContactSize (o : ContactSizeObject) (f : ContactSizeObject → ContactSizeObject)
    (hf : autoParam (∀ o, (f o).byOwner = o.byOwner) Monoid.npow_zero._autoParam) :
    PrivateMessageDatabase W :=
  { db with contactSizes := db.contactSizes.modify o.byOwner f hf }

def modifyGroup (name : String) (f : PrivateGroupObject → PrivateGroupObject)
    (hf : autoParam (∀ o, (f o).name = o.name) Monoid.npow_zero._autoParam) :
    PrivateMessageDatabase W :=
  { db with groups := db.groups.modify name f hf }

end PrivateMessageDatabase

end Golos
