import Golos.Plugins.Impl.Database

/-!
This module contains the operations of the plugin `private_message` and their checks.
-/

namespace Golos

open Checked

structure PrivateGroupOptions where
  group : String
  requester : AccountName := ""
  mentions : List AccountName := []

structure PrivateMessageOperation where
  fromAccount : AccountName
  toAccount : AccountName
  nonce : Nat
  fromMemoKey : PublicKeyType := 0
  toMemoKey : PublicKeyType := 0
  checksum : Nat := 0
  update : Bool := false
  encryptedMessage : List UInt8 := []
  extensions : List PrivateGroupOptions := []

inductive DeleteExtension where
  | privateGroupOptions (o : PrivateGroupOptions)
  | deleteOptions (deleteContact : Bool)

structure PrivateDeleteMessageOperation where
  requester : AccountName
  fromAccount : AccountName := ""
  toAccount : AccountName := ""
  nonce : Nat := 0
  startDate : Nat := 0
  stopDate : Nat := 0
  extensions : List DeleteExtension := []

structure PrivateMarkMessageOperation where
  fromAccount : AccountName := ""
  toAccount : AccountName := ""
  nonce : Nat := 0
  startDate : Nat := 0
  stopDate : Nat := 0
  extensions : List PrivateGroupOptions := []

structure PrivateSettingsOperation where
  owner : AccountName
  /-- The values of `ignore_messages_from_unknown_contact`. -/
  settings : List Bool

inductive PrivateContactType where
  | unknown
  | pinned
  | ignored
  /-- Any other value of the byte. -/
  | other
  deriving DecidableEq

structure PrivateContactOperation where
  owner : AccountName
  contact : AccountName
  type : PrivateContactType := .pinned
  jsonMetadata : String := ""

inductive PrivateGroupPrivacy where
  | publicGroup
  | publicReadOnly
  | privateGroup
  | size
  /-- Any other value of the byte. -/
  | other
  deriving DecidableEq

structure PrivateGroupOperation where
  creator : AccountName
  name : String
  jsonMetadata : String := ""
  isEncrypted : Bool := false
  privacy : PrivateGroupPrivacy := .publicGroup

structure PrivateGroupDeleteOperation where
  owner : AccountName
  name : String

inductive PrivateGroupMemberType where
  | pending
  | member
  | retired
  | banned
  | moder
  | size
  /-- Any other value of the byte. -/
  | other
  deriving DecidableEq

structure PrivateGroupMemberOperation where
  requester : AccountName
  name : String
  member : AccountName
  memberType : PrivateGroupMemberType
  jsonMetadata : String := ""

inductive PrivateMessagePluginOperation where
  | privateMessage (o : PrivateMessageOperation)
  | privateDeleteMessage (o : PrivateDeleteMessageOperation)
  | privateMarkMessage (o : PrivateMarkMessageOperation)
  | privateSettings (o : PrivateSettingsOperation)
  | privateContact (o : PrivateContactOperation)
  | privateGroup (o : PrivateGroupOperation)
  | privateGroupDelete (o : PrivateGroupDeleteOperation)
  | privateGroupMember (o : PrivateGroupMemberOperation)

/-- The options that the visitors of `extensions` keep, those visited last. -/
def lastOptions (extensions : List PrivateGroupOptions) : PrivateGroupOptions :=
  extensions.getLastD { group := "" }

namespace PrivateDeleteMessageOperation

variable (o : PrivateDeleteMessageOperation)

def groupOptions : List PrivateGroupOptions :=
  o.extensions.filterMap fun
    | .privateGroupOptions options => some options
    | .deleteOptions _ => none

/-- The group that the operation names. -/
def group : String :=
  (lastOptions o.groupOptions).group

def deleteContact : Option Bool :=
  (o.extensions.filterMap fun
    | .privateGroupOptions _ => none
    | .deleteOptions deleteContact => some deleteContact).getLast?

end PrivateDeleteMessageOperation

/-- `get_op_requester` -/
def getOpRequester (extensions : List PrivateGroupOptions) : AccountName :=
  (extensions.headD { group := "" }).requester

/-- The accounts that the operations of the plugin require the active authority of. -/
def PrivateMessagePluginOperation.requiredActive : PrivateMessagePluginOperation → List AccountName
  | .privateGroup o => [o.creator]
  | .privateGroupDelete o => [o.owner]
  | _ => []

/-- The accounts that the operations of the plugin require the posting authority of. -/
def PrivateMessagePluginOperation.requiredPosting : PrivateMessagePluginOperation → List AccountName
  | .privateMessage o =>
    if o.update ∧ getOpRequester o.extensions ≠ "" then
      [getOpRequester o.extensions]
    else
      [o.fromAccount]
  | .privateDeleteMessage o => [o.requester]
  | .privateMarkMessage o =>
    if getOpRequester o.extensions ≠ "" then [getOpRequester o.extensions] else [o.toAccount]
  | .privateSettings o => [o.owner]
  | .privateContact o => [o.owner]
  | .privateGroup _ => []
  | .privateGroupDelete _ => []
  | .privateGroupMember o => [o.requester]

section validate

variable {Json : Type} (fc : Fc Json)

def isGroupNameStart (c : Char) : Bool :=
  AccountName.isLetter c || AccountName.isDigit c

def validatePrivateGroupName (name : String) : Result Unit := do
  ensure (name ≠ "") (.invalidValue "Private group name should not be empty")
  ensure (name.utf8ByteSize ≤ 32)
    (.invalidValue "Private group name should not be longer than 32 bytes")
  ensure (name.toList.head?.all isGroupNameStart)
    (.invalidValue "Private group name can start only from a-z symbol, or 0-9 digit.")
  ensure (name.toList.tail.all fun c => isGroupNameStart c || c = '-' || c = '_')
    (.invalidValue "Private group name can contain only a-z, 0-9 symbols, - and _.")

/-- `if (name.size()) validate_account_name(name)` -/
def validatePresentName (name : AccountName) : Result Unit :=
  if name ≠ "" then validateAccountName name else pure ()

def PrivateGroupOptions.validate (o : PrivateGroupOptions) : Result Unit := do
  validatePrivateGroupName o.group
  validatePresentName o.requester
  ensure (o.mentions.length ≤ 10) (.invalidValue "Max mentions are 10.")
  o.mentions.forM validateAccountName

/-- The checks of a text that may be empty. -/
def validateGroupJson (jsonMetadata : String) : Result Unit :=
  if jsonMetadata = "" then
    pure ()
  else do
    ensure (jsonMetadata.utf8ByteSize ≤ 512) (.invalidValue "json_metadata is too long")
    ensure (fc.isUtf8 jsonMetadata = true) (.invalidValue "json_metadata is not valid UTF8")
    ensure (fc.isValid jsonMetadata = true) (.invalidValue "JSON Metadata not valid JSON")

def PrivateMessageOperation.validate (o : PrivateMessageOperation) : Result Unit := do
  validateAccountName o.fromAccount
  o.extensions.forM PrivateGroupOptions.validate
  let options := lastOptions o.extensions
  ensure (options.requester ≠ "" → o.update = true)
    (.invalidValue "Moderator can only edit messages, not send them as another user.")
  ensure (options.group = "" → o.toAccount ≠ "") (.invalidValue "`to` can't be empty")
  validatePresentName o.toAccount
  ensure (o.fromAccount ≠ o.toAccount) (.logicException "You cannot write to yourself")
  if options.group = "" then do
    ensure (o.toMemoKey ≠ 0) (.invalidValue "`to_key` can't be empty")
    ensure (o.fromMemoKey ≠ 0) (.invalidValue "`from_key` can't be empty")
    ensure (o.fromMemoKey ≠ o.toMemoKey)
      (.logicException "`from_key` can't be equal to `to_key`")
  else do
    ensure (o.toMemoKey = 0)
      (.invalidValue "`to_key` should be empty, it is only for private chats, not groups")
    ensure (o.fromMemoKey = 0)
      (.invalidValue "`from_key` should be empty, it is only for private chats, not groups")
  ensure (o.nonce ≠ 0) (.invalidValue "`nonce` can't be zero")
  ensure (16 ≤ o.encryptedMessage.length) (.invalidValue "Encrypted message is too small")

def PrivateDeleteMessageOperation.validate (o : PrivateDeleteMessageOperation) : Result Unit := do
  o.groupOptions.forM PrivateGroupOptions.validate
  let options := lastOptions o.groupOptions
  ensure (options.requester = "")
    (.invalidValue "For delete operations, use `requester` only from operation, not extension.")
  ensure (options.mentions = [])
    (.invalidValue "For delete operations, `mentions` are not applicable.")
  ensure (o.group ≠ "" → o.deleteContact.getD false = false)
    (.invalidValue "Cannot delete contact of group.")
  ensure (o.group ≠ "" → o.nonce = 0 → o.fromAccount = "")
    (.invalidValue "`from` not yet supported for groups")
  ensure (o.group ≠ "" → o.nonce = 0 → o.toAccount = "")
    (.invalidValue "`to` not yet supported for groups")
  validatePresentName o.fromAccount
  validatePresentName o.toAccount
  ensure (o.toAccount ≠ "" → o.toAccount ≠ o.fromAccount)
    (.invalidValue "You cannot delete messages to yourself")
  validateAccountName o.requester
  ensure (o.toAccount ≠ "" ∨ o.fromAccount ≠ "" →
      o.group ≠ "" ∨ o.requester = o.toAccount ∨ o.requester = o.fromAccount)
    (.invalidValue "`requester` can delete messages only from his inbox/outbox")
  ensure (o.startDate ≤ o.stopDate)
    (.invalidValue "`start_date` can't be greater then `stop_date`")
  ensure (o.nonce ≠ 0 → o.fromAccount ≠ "")
    (.invalidValue "Non-zero `nonce` requires `from` to be set too")
  ensure (o.nonce ≠ 0 → o.group = "" → o.toAccount ≠ "")
    (.invalidValue "Non-zero `nonce` requires `to` to be set too")
  ensure (o.nonce ≠ 0 → o.startDate = 0)
    (.invalidValue "Non-zero `nonce` can't be used with `start_date`")
  ensure (o.nonce ≠ 0 → o.stopDate = 0)
    (.invalidValue "Non-zero `nonce` can't be used with `stop_date`")

def PrivateMarkMessageOperation.validate (o : PrivateMarkMessageOperation) : Result Unit := do
  o.extensions.forM PrivateGroupOptions.validate
  let options := lastOptions o.extensions
  if options.group ≠ "" then do
    ensure (options.requester ≠ "")
      (.invalidValue "For group operations, you should use `requester` field.")
    ensure (options.mentions.length ≤ 1)
      (.invalidValue "For mark operations, `mentions` size cannot be > 1.")
    ensure (∀ men ∈ options.mentions, men = options.requester)
      (.invalidValue "You cannot read mention of another person.")
  else do
    ensure (options.requester = "")
      (.invalidValue "In private chats, `requester` not supported. Use `to` only.")
    ensure (options.mentions = []) (.invalidValue "In private chats, `mentions` not supported.")
  ensure (options.group = "" → o.toAccount ≠ "") (.invalidValue "`to` can't be empty")
  ensure (options.group ≠ "" → o.nonce = 0 → o.fromAccount = "")
    (.invalidValue "`from` not yet supported for groups")
  ensure (options.group ≠ "" → o.nonce = 0 → o.toAccount = "")
    (.invalidValue "`to` not yet supported for groups")
  validatePresentName o.toAccount
  validatePresentName o.fromAccount
  ensure (o.fromAccount ≠ "" → o.toAccount ≠ o.fromAccount)
    (.invalidValue "You cannot mark messages to yourself")
  ensure (o.startDate ≤ o.stopDate)
    (.invalidValue "`start_date` can't be greater then `stop_date`")
  ensure (o.nonce ≠ 0 → o.fromAccount ≠ "")
    (.invalidValue "Non-zero `nonce` requires `from` to be set too")
  ensure (o.nonce ≠ 0 → options.group = "" → o.toAccount ≠ "")
    (.invalidValue "Non-zero `nonce` requires `to` to be set too")
  ensure (o.nonce ≠ 0 → o.startDate = 0)
    (.invalidValue "Non-zero `nonce` can't be used with `start_date`")
  ensure (o.nonce ≠ 0 → o.stopDate = 0)
    (.invalidValue "Non-zero `nonce` can't be used with `stop_date`")

def PrivateSettingsOperation.validate (o : PrivateSettingsOperation) : Result Unit := do
  validateAccountName o.owner
  ensure (o.settings ≠ []) (.invalidValue "settings cannot be empty")

def PrivateContactOperation.validate (o : PrivateContactOperation) : Result Unit := do
  validateAccountName o.contact
  validateAccountName o.owner
  ensure (o.contact ≠ o.owner) (.logicException "You cannot add contact to yourself")
  ensure (o.type ≠ .other) (.invalidValue "Unknown contact type")
  ensure (o.jsonMetadata ≠ "" → fc.isValid o.jsonMetadata = true)
    (.invalidValue "JSON Metadata not valid JSON")
  ensure (o.jsonMetadata ≠ "" → o.type ≠ .unknown)
    (.invalidValue "JSON Metadata can't be set for unknown contact")

def PrivateGroupOperation.validate (o : PrivateGroupOperation) : Result Unit := do
  validateAccountName o.creator
  validatePrivateGroupName o.name
  validateGroupJson fc o.jsonMetadata
  ensure (o.privacy ≠ .size) (.invalidValue "Wrong privacy value.")
  ensure (o.privacy = .privateGroup → o.isEncrypted = true)
    (.invalidValue "Private group cannot be not encrypted.")

def PrivateGroupDeleteOperation.validate (o : PrivateGroupDeleteOperation) : Result Unit := do
  validateAccountName o.owner
  validatePrivateGroupName o.name

def PrivateGroupMemberOperation.validate (o : PrivateGroupMemberOperation) : Result Unit := do
  validateAccountName o.requester
  validatePrivateGroupName o.name
  validateAccountName o.member
  ensure (o.memberType ≠ .size) (.invalidValue "Wrong member type.")
  ensure (o.member = o.requester → o.memberType ≠ .banned)
    (.invalidValue "You cannot ban yourself.")
  ensure (o.member = o.requester → o.memberType ≠ .moder)
    (.invalidValue "You cannot make moder yourself.")
  validateGroupJson fc o.jsonMetadata

/-- `operation_validate` -/
def PrivateMessagePluginOperation.validate : PrivateMessagePluginOperation → Result Unit
  | .privateMessage o => o.validate
  | .privateDeleteMessage o => o.validate
  | .privateMarkMessage o => o.validate
  | .privateSettings o => o.validate
  | .privateContact o => o.validate fc
  | .privateGroup o => o.validate fc
  | .privateGroupDelete o => o.validate
  | .privateGroupMember o => o.validate fc

end validate

end Golos
