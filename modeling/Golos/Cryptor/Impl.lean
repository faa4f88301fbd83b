import Golos.PrivateMessage.Impl.Objects

/-!
This module contains the plugin `cryptor`: what it records of donations, and how it encrypts and
decrypts posts and the messages of groups.
-/

namespace Golos

open Checked

structure PaidSubscriptionId where
  app : AccountName
  name : AccountName
  version : UInt16 := 1
  deriving DecidableEq

structure PaidSubscriberObject where
  author : AccountName
  oid : PaidSubscriptionId
  subscriber : AccountName
  cost : Asset
  tipCost : Bool := false
  active : Bool := true

abbrev PaidSubscriberObject.byAuthorOidSubscriber (o : PaidSubscriberObject) :
    AccountName × PaidSubscriptionId × AccountName :=
  (o.author, o.oid, o.subscriber)

structure PaidSubscriptionObject where
  author : AccountName
  oid : PaidSubscriptionId
  cost : Asset
  tipCost : Bool := false

abbrev PaidSubscriptionObject.byAuthorOid (o : PaidSubscriptionObject) :
    AccountName × PaidSubscriptionId :=
  (o.author, o.oid)

/-- The fee is an amount of GOLOS. -/
structure CommentExtrasObject where
  id : Nat
  author : AccountName
  hashlink : Nat
  decryptFee : ℤ := 0

abbrev CommentExtrasObject.byHashlink (o : CommentExtrasObject) : AccountName × Nat :=
  (o.author, o.hashlink)

structure CommentContentObject where
  comment : Nat
  body : String

/-- The amount is one of GOLOS. -/
structure CryptoBuyerObject where
  donater : AccountName
  comment : Nat
  amount : ℤ
  buyed : Bool := false

abbrev CryptoBuyerObject.byCommentDonater (o : CryptoBuyerObject) : Nat × AccountName :=
  (o.comment, o.donater)

/--
What the plugin uses of the library `fc` besides: account names are cut to their length, and the
cipher is AES in base 64.
-/
structure CryptorFc (Json Key : Type) extends Fc Json where
  isString : Json → Bool
  /-- The number, where `is_uint64`. -/
  getUint64 : Json → Option Nat
  accountName : String → AccountName
  /-- The text that has these bytes. -/
  ofBytes : List UInt8 → String
  sha512 : String → Key
  encrypt : Key → String → String
  decrypt : Key → String → Option String
  /-- The key that signed the text of a number. -/
  publicKey : List UInt8 → Nat → Option PublicKeyType

/-- The part of `database` that the plugin reads and writes, and the number of the next extras. -/
structure CryptorDatabase (W : Type) where
  messenger : PrivateMessageDatabase W
  headBlockNum : Nat := 0
  /-- The keys of the posting authority of an account. -/
  postingKeys : AccountName → List PublicKeyType := fun _ => []
  hasContents : Bool := true
  contents : Table CommentContentObject.comment := .empty
  extras : Table CommentExtrasObject.byHashlink := .empty
  nextExtrasId : Nat := 0
  hasBuyers : Bool := true
  buyers : Table CryptoBuyerObject.byCommentDonater := .empty
  subscribers : Table PaidSubscriberObject.byAuthorOidSubscriber := .empty
  subscriptions : Table PaidSubscriptionObject.byAuthorOid := .empty
  hasMessages : Bool := true

structure DonateOperation (Json : Type) where
  fromAccount : AccountName
  toAccount : AccountName
  amount : Asset
  target : List (String × Json) := []

namespace CryptorDatabase

variable {W Json Key : Type} (fc : CryptorFc Json Key) (db : CryptorDatabase W)

def findField (object : List (String × Json)) (field : String) : Option Json :=
  (object.find? fun entry => entry.1 = field).map Prod.snd

/-- The author and the permlink that the donation is for. -/
def getBlogDonate (op : DonateOperation Json) : Option (AccountName × String) := do
  let author ← (findField op.target "author").bind fc.asString
  let permlink ← (findField op.target "permlink").bind fc.asString
  if AccountName.isValid author then some (author, permlink) else none

/-- The comment that a donation is recorded for, behind the early returns of `post_operation`. -/
def donationTo (op : DonateOperation Json) : Option CommentExtrasObject :=
  if !db.hasBuyers then
    none
  else
    match getBlogDonate fc op with
    | none => none
    | some (author, permlink) =>
      if op.amount.symbol ≠ steemSymbol ∨ op.toAccount ≠ author then
        none
      else
        match db.extras.find? (author, fc.hash64 permlink) with
        | none => none
        | some comment => if comment.decryptFee = 0 then none else some comment

def recordDonation (op : DonateOperation Json) (comment : CommentExtrasObject) :
    Result (CryptorDatabase W) :=
  match db.buyers.find? (comment.id, op.fromAccount) with
  | some cbo => do
    let amount ← add64 cbo.amount op.amount.amount .overflowException
    let buyers := db.buyers.modify (comment.id, op.fromAccount) fun cbo =>
      { cbo with amount := amount, buyed := cbo.buyed || decide (comment.decryptFee ≤ amount) }
    pure { db with buyers := buyers }
  | none => do
    let buyers ← get
      (db.buyers.emplace
        { donater := op.fromAccount
          comment := comment.id
          amount := op.amount.amount
          buyed := decide (comment.decryptFee ≤ op.amount.amount) })
      .uniquenessViolated
    pure { db with buyers := buyers }

/-- What the visitor of `post_operation` does with a donation. -/
def donate (op : DonateOperation Json) : Result (CryptorDatabase W) :=
  match donationTo fc db op with
  | none => pure db
  | some comment => recordDonation db op comment

end CryptorDatabase

structure EncryptQuery where
  author : AccountName := ""
  body : String
  group : String := ""

inductive CryptorStatus where
  | ok
  | err
  deriving DecidableEq

structure EncryptedApiObject where
  status : CryptorStatus := .ok
  error : String := ""
  encrypted : String := ""

structure LoginData where
  account : AccountName
  headBlockNumber : Nat := 0
  signature : List UInt8 := []

structure SubOptions where
  cost : Asset
  tipCost : Bool

structure DecryptedResult where
  author : Option String := none
  body : Option String := none
  err : Option String := none
  sub : Option SubOptions := none
  decryptFee : Option ℤ := none

structure DecryptedApiObject where
  status : CryptorStatus := .ok
  loginError : Option String := none
  error : Option String := none
  results : List DecryptedResult := []

/-- An entry once its fields are read; the hashlink 0 is none. -/
structure DecryptEntry where
  author : String
  permlink : String := ""
  hashlink : Nat := 0
  body : String := ""

structure DecryptQuery extends LoginData where
  entries : List DecryptEntry
  oid : PaidSubscriptionId

structure MessageToDecrypt where
  group : String
  fromAccount : AccountName := ""
  toAccount : AccountName := ""
  nonce : Nat := 0
  encryptedMessage : List UInt8 := []

structure DecryptMessagesQuery extends LoginData where
  entries : List MessageToDecrypt

/-- The settings of the plugin. -/
structure Cryptor where
  cryptorKey : String := ""
  groupsCryptorKey : String := ""

namespace Cryptor

def steemitBlocksPerHour : Nat := 60 * 60 / 3

def steemitBlocksPerDay : Nat := 24 * 60 * 60 / 3

def mark : String := "_m_:"

def markSep : Char := ':'

def markAuthor : Char := '@'

def markGroup : Char := 'g'

def markMaxLength : Nat := 128

variable {W Json Key : Type} (fc : CryptorFc Json Key) (c : Cryptor) (db : CryptorDatabase W)

section encrypt

/-- The text that is encrypted: the body behind the mark of its group or its author. -/
def markedBody (query : EncryptQuery) : String :=
  if query.group ≠ "" then
    mark ++ String.ofList [markGroup, markSep] ++ query.group ++ String.ofList [markSep] ++ query.body
  else
    mark ++ String.ofList [markAuthor, markSep] ++ query.author ++ String.ofList [markSep] ++
      query.body

def encryptKey (query : EncryptQuery) : Key :=
  if query.group ≠ "" then fc.sha512 c.groupsCryptorKey else fc.sha512 c.cryptorKey

def encryptBody (query : EncryptQuery) : EncryptedApiObject :=
  if (if query.group ≠ "" then c.groupsCryptorKey else c.cryptorKey).utf8ByteSize < 16 then
    { status := .err, error := "unavailable_no_key_in_config" }
  else
    { encrypted := fc.encrypt (c.encryptKey fc query) (markedBody query) }

end encrypt

section login

/-- The error of a login, if it has one. -/
def login (query : LoginData) (isGroup : Bool) : Option String :=
  if db.headBlockNum < query.headBlockNumber then
    some "head_block_num_in_future"
  else if (if isGroup then steemitBlocksPerDay else steemitBlocksPerHour) <
      db.headBlockNum - query.headBlockNumber then
    some "head_block_num_too_old"
  else if (db.messenger.chain.ledger.accounts.find? query.account).isNone then
    some "account_not_exists"
  else
    match fc.publicKey query.signature query.headBlockNumber with
    | none => some "illformed_signature"
    | some key => if key ∈ db.postingKeys query.account then none else some "wrong_signature"

end login

section body

/-- `get_encrypted_object` -/
def getEncryptedObject (body checkType : String) : Except String (List (String × Json)) :=
  match (fc.fromString body).bind fc.getObject with
  | none => .error "wrong_json_or_not_encrypted"
  | some jobj =>
    match CryptorDatabase.findField jobj "t" with
    | none => .error "no field `t` as valid string"
    | some t =>
      if !fc.isString t then
        .error "no field `t` as valid string"
      else if fc.asString t ≠ some checkType then
        .error "not_encrypted"
      else
        .ok jobj

def cipherField (jobj : List (String × Json)) : Except String String :=
  match (CryptorDatabase.findField jobj "c").filter fc.isString with
  | none => .error "no field `c` as valid string"
  | some text => get (fc.asString text) "no field `c` as valid string"

/-- What is encrypted in the body of a post. -/
def cipherOfPost (body : String) : Except String String := do
  let jobj ← getEncryptedObject fc body "e"
  let version ← get ((CryptorDatabase.findField jobj "v").bind fc.getUint64)
    "no field `v` as valid uint64"
  if version < 2 then
    .error "not_encrypted"
  else
    cipherField fc jobj

/-- What is encrypted in a message. -/
def cipherOfMessage (body : String) : Except String String := do
  let jobj ← getEncryptedObject fc body "em"
  cipherField fc jobj

/--
The loop that reads the mark: the type, whether the name has begun, the name so far, and the index of
the next letter. It ends at the separator behind the name.
-/
def readMark (markType found : Char) (nameStarted : Bool) (name : List Char) (i : Nat) :
    List Char → Except String (Option (List Char × Nat))
  | [] => .ok none
  | x :: rest =>
    if found = Char.ofNat 0 then
      readMark markType x nameStarted name (i + 1) rest
    else if nameStarted then
      if x = markSep then .ok (some (name, i + 1))
      else readMark markType found nameStarted (name ++ [x]) (i + 1) rest
    else if x ≠ markSep then
      .error "wrong_mark_type_length"
    else if found ≠ markType then
      .error "wrong_mark_type"
    else
      readMark markType found true name (i + 1) rest

def checkMark (dec : String) (markType : Char) (markName : String) : Except String String :=
  match readMark markType (Char.ofNat 0) false [] mark.length
      ((dec.toList.take markMaxLength).drop mark.length) with
  | .error e => .error e
  | .ok none => .error "wrong_mark_format"
  | .ok (some (name, markEnd)) =>
    if String.ofList name ≠ markName then .error "wrong_mark"
    else .ok (String.ofList (dec.toList.drop markEnd))

def decryptBody (dr : DecryptedResult) (body : String) (key : Key) (markType : Char)
    (markName : String) (markRequired : Bool) : DecryptedResult :=
  match fc.decrypt key body with
  | none => { dr with err := some "cannot_decrypt" }
  | some dec =>
    if !mark.toList.isPrefixOf dec.toList then
      if markRequired then { dr with err := some "no_mark" } else { dr with body := some dec }
    else
      match checkMark dec markType markName with
      | .error e => { dr with err := some e }
      | .ok body => { dr with body := some body }

end body

section comments

def entryHashlink (de : DecryptEntry) : Nat :=
  if de.hashlink ≠ 0 then de.hashlink else fc.hash64 de.permlink

/-- The content of a comment, or nothing. -/
def contentOf (author : AccountName) (hashlink : Nat) : String :=
  match db.messenger.chain.comments.find? (author, hashlink) with
  | none => ""
  | some post => if !db.hasContents then "" else ((db.contents.find? post.id).map (·.body)).getD ""

/-- The body that an entry brings, or that of the comment it names. -/
def postBody (de : DecryptEntry) : String :=
  if de.body ≠ "" then de.body
  else contentOf db (fc.accountName de.author) (entryHashlink fc de)

def decryptPost (de : DecryptEntry) (dr : DecryptedResult) : DecryptedResult :=
  match cipherOfPost fc (postBody fc db de) with
  | .error e => { dr with err := some e }
  | .ok text => decryptBody fc dr text (fc.sha512 c.cryptorKey) markAuthor de.author false

/-- The subscription of the account to the author of an entry. -/
def findSubscriber (query : DecryptQuery) (de : DecryptEntry) : Option PaidSubscriberObject :=
  let author := fc.accountName de.author
  if author = query.account then none
  else db.subscribers.find? (author, query.oid, query.account)

def authors (query : DecryptQuery) : List AccountName :=
  ((query.entries.filterMap (findSubscriber fc db query)).filter (·.active)).map (·.author)

def inactiveAuthors (query : DecryptQuery) : List (AccountName × SubOptions) :=
  ((query.entries.filterMap (findSubscriber fc db query)).filter (!·.active)).map fun s =>
    (s.author, ⟨s.cost, s.tipCost⟩)

/-- The author has an account that the query may not read as his or hers or a subscriber's. -/
def isRefused (query : DecryptQuery) (de : DecryptEntry) : Bool :=
  fc.accountName de.author ≠ query.account ∧ fc.accountName de.author ∉ authors fc db query

/-- The result of a refused entry. -/
def refusal (query : DecryptQuery) (de : DecryptEntry) : DecryptedResult :=
  let author := fc.accountName de.author
  match (inactiveAuthors fc db query).find? fun a => a.1 = author with
  | some a => { author := some de.author, err := some "inactive", sub := some a.2 }
  | none =>
    match db.subscriptions.find? (author, query.oid) with
    | some s =>
      { author := some de.author, err := some "no_sponsor", sub := some ⟨s.cost, s.tipCost⟩ }
    | none => { author := some de.author, err := some "no_sub" }

def findEntryExtras (de : DecryptEntry) : Option CommentExtrasObject :=
  db.extras.find? (fc.accountName de.author, entryHashlink fc de)

/-- Whether the comment is paid for, and what of the fee is left. -/
def donated (query : DecryptQuery) (de : DecryptEntry) : Bool × ℤ :=
  if !db.hasBuyers then
    (false, 0)
  else
    match findEntryExtras fc db de with
    | none => (false, 0)
    | some extras =>
      match db.buyers.find? (extras.id, query.account) with
      | none => (false, extras.decryptFee)
      | some cb =>
        if cb.buyed then (true, extras.decryptFee) else (false, extras.decryptFee - cb.amount)

/-- The results of both passes for one entry. Nothing is written between them. -/
def answerEntry (query : DecryptQuery) (de : DecryptEntry) : DecryptedResult :=
  if isRefused fc db query de then
    let dr := refusal fc db query de
    let paid := donated fc db query de
    if paid.1 then
      decryptPost fc c db de { dr with err := some "" }
    else if paid.2 ≠ 0 then
      { dr with decryptFee := some paid.2 }
    else
      dr
  else
    decryptPost fc c db de { author := some de.author }

def checkEntry (de : DecryptEntry) : Result Unit :=
  ensure (de.hashlink ≠ 0 ∨ de.permlink ≠ "" ∨ de.body ≠ "")
    (.invalidValue "Each entry should have hashlink or permlink")

def decryptComments (query : DecryptQuery) : Result DecryptedApiObject :=
  if c.cryptorKey.utf8ByteSize < 16 then
    pure { status := .err, error := some "unavailable_no_key_in_config" }
  else
    match login fc db query.toLoginData false with
    | some e => pure { status := .err, loginError := some e }
    | none => do
      query.entries.forM checkEntry
      pure { results := query.entries.map (answerEntry fc c db query) }

end comments

section messages

/-- Whether the account may read the messages of the group, or there is no such group. -/
def canRead (query : DecryptMessagesQuery) (group : String) : Option Bool :=
  (db.messenger.groups.find? group).map fun g =>
    if g.privacy = .privateGroup then
      g.owner = query.account ||
        (db.messenger.members.find? (query.account, group)).any fun pgm =>
          pgm.memberType = .member || pgm.memberType = .moder
    else
      true

def messageBody (de : MessageToDecrypt) : String :=
  if de.encryptedMessage ≠ [] then
    fc.ofBytes de.encryptedMessage
  else
    match db.messenger.messages.find? (de.group, de.fromAccount, de.toAccount, de.nonce) with
    | none => ""
    | some m => fc.ofBytes m.encryptedMessage

def decryptMessage (query : DecryptMessagesQuery) (de : MessageToDecrypt) : DecryptedResult :=
  match canRead db query de.group with
  | none => { err := some "no_group" }
  | some false => { err := some "not_member" }
  | some true =>
    let body := messageBody fc db de
    if body = "" then
      { err := some "no_such_message" }
    else
      match cipherOfMessage fc body with
      | .error e => { err := some e }
      | .ok text => decryptBody fc {} text (fc.sha512 c.groupsCryptorKey) markGroup de.group true

def decryptMessages (query : DecryptMessagesQuery) : DecryptedApiObject :=
  if c.groupsCryptorKey.utf8ByteSize < 16 then
    { status := .err, error := some "unavailable_no_key_in_config" }
  else
    match login fc db query.toLoginData true with
    | some e => { status := .err, loginError := some e }
    | none =>
      if !db.hasMessages then
        { status := .err, error := some "no_private_message_plugin" }
      else
        { results := query.entries.map (decryptMessage fc c db query) }

end messages

end Cryptor

end Golos
