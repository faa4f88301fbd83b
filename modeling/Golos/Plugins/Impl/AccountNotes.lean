import Golos.Lib.CString
import Golos.Plugins.Impl.Database

/-!
This module contains the custom operation of the plugin `account_notes`.
-/

namespace Golos

open Checked

structure SetValueOperation where
  account : AccountName
  key : String
  value : String

namespace SetValueOperation

variable (o : SetValueOperation)

def isPosting : Bool :=
  if 4 ≤ o.key.utf8ByteSize then o.key.startsWith "pst." || o.key.startsWith "g.pst." else false

def requiredActive : List AccountName :=
  if o.isPosting then [] else [o.account]

def requiredPosting : List AccountName :=
  if o.isPosting then [o.account] else []

def isGlobal : Bool :=
  o.key.startsWith "g."

def isAccs : Bool :=
  o.key.endsWith ".accs"

def isLst : Bool :=
  o.key.endsWith ".lst"

variable {Json : Type} (fc : Fc Json)

/-- A JSON array of texts. -/
def textsOf (v : Json) : Option (List String) := do
  let elements ← fc.getArray v
  elements.mapM fc.asString

def validateAccs (v : Json) : Result Unit := do
  ensure (fc.getArray v).isSome
    (.invalidValue "Value should be JSON array or empty string for .accs")
  let names ← get (textsOf fc v)
    (.invalidValue "Value should be JSON array of strings or empty string for .accs")
  if names = [".all"] then pure () else names.forM validateAccountName

def validate : Result Unit := do
  validateAccountName o.account
  ensure (1 ≤ o.key.utf8ByteSize ∧ o.key.utf8ByteSize ≤ 128) (.invalidValue "key")
  ensure (o.isAccs = true → o.isGlobal = true) (.invalidValue ".accs requires g.")
  -- the three affixes are taken off an unsigned length
  let keyLength : UInt64 := o.key.utf8ByteSize.toUInt64 - (if o.isGlobal then 2 else 0) -
    (if o.isAccs then 4 else 0) - if o.isLst then 3 else 0
  ensure (keyLength ≠ 0) (.invalidValue "Key should not be empty")
  if o.value ≠ "" ∧ (o.isLst = true ∨ o.isAccs = true) then
    let v ← get (fc.fromString o.value)
      (.invalidValue "Value should be valid JSON or empty string for .lst, .accs")
    if o.isLst then
      ensure (fc.getObject v).isSome
        (.invalidValue "Value should be JSON object or empty string for .lst")
    else
      validateAccs fc v
  else
    pure ()

end SetValueOperation

structure AccountNotesSettings where
  maxKeyLength : Nat := 0
  maxValueLength : Nat := 0
  maxNoteCount : UInt16 := 0
  trackedAccounts : List String := []
  untrackedAccounts : List String := []

def AccountNotesSettings.isTrackedAccount (s : AccountNotesSettings) (account : AccountName) :
    Bool :=
  (s.trackedAccounts.isEmpty || s.trackedAccounts.contains account) &&
    !s.untrackedAccounts.contains account

structure AccountNoteObject where
  account : AccountName
  key : String
  value : String

/-- The unique key of the index `by_account_key`, which compares keys with `strcmp_less`. -/
abbrev AccountNoteObject.byAccountKey (o : AccountNoteObject) : AccountName × String :=
  (o.account, cString o.key)

structure AccountNoteStatsObject where
  account : AccountName
  noteCount : UInt16 := 0

structure AccountNotesDatabase (W : Type) where
  chain : ChainDatabase W
  notes : Table AccountNoteObject.byAccountKey := .empty
  noteStats : Table AccountNoteStatsObject.account := .empty

namespace AccountNotesDatabase

variable {W Json : Type} (fc : Fc Json) (db : AccountNotesDatabase W)

/-- The set of the names is that of the single name `.all`. -/
def isAll (names : List String) : Bool :=
  !names.isEmpty && names.all fun name => name = ".all"

/--
`get_global_value_accs`. Several notes with one key, to `strcmp_less`, are in the order of their
creation, and a text that is no array of names gives the names before its first fault.
-/
def getGlobalValueAccs (key : String) : Option (AccountName × List AccountName) :=
  (db.notes.rows.find? fun n => cString n.key = cString (key ++ ".accs")).map fun n =>
    let elements := ((fc.fromString n.value).bind fc.getArray).getD []
    (n.account, ((elements.map fc.asString).takeWhile Option.isSome).filterMap id)

/-- The account whose note a global value is, unless the operation may not set it. -/
def noteAccount (o : SetValueOperation) : Option AccountName :=
  match if o.isGlobal then db.getGlobalValueAccs fc o.key else none with
  | none => some o.account
  | some (owner, accs) =>
    if owner = "" ∨ owner = o.account ∨ o.account ∈ accs ∨ isAll accs = true then
      some (if owner = "" then o.account else owner)
    else
      none

/-- `merge_objects` -/
def mergeObjects (res add : List (String × Json)) : List (String × Json) :=
  add.foldl
    (fun res entry =>
      if fc.isNull entry.2 then
        res.filter fun r => r.1 ≠ entry.1
      else if res.any fun r => r.1 = entry.1 then
        res.map fun r => if r.1 = entry.1 then entry else r
      else
        res ++ [entry])
    res

/-- The text that is stored for the value of the operation. -/
def storedValue (o : SetValueOperation) (note : Option AccountNoteObject) : Result String :=
  if o.isAccs then do
    let v ← get (fc.fromString o.value) (.assertException "parse_error")
    let names ← get (SetValueOperation.textsOf fc v) (.assertException "bad_cast")
    if isAll names then
      pure (fc.toString (fc.ofTexts names))
    else
      pure (fc.toString (fc.ofTexts
        (names.filter fun name => (db.chain.ledger.accounts.find? name).isSome)))
  else if o.isLst then do
    let v ← get (fc.fromString o.value) (.assertException "parse_error")
    let add ← get (fc.getObject v) (.assertException "bad_cast")
    let res := ((note.bind fun n => fc.fromString n.value).bind fc.getObject).getD []
    if add ≠ [] then
      pure (fc.toString (fc.ofObject (mergeObjects fc res add)))
    else
      pure "{}"
  else
    pure o.value

/-- The last part of `set_value_evaluator`, which edits or creates the note. -/
def storeNote (settings : AccountNotesSettings) (acc : AccountName) (key value : String) :
    Result (AccountNotesDatabase W) :=
  match db.notes.find? (acc, cString key) with
  | some _ =>
    pure { db with notes := db.notes.modify (acc, cString key) fun n => { n with value := value } }
  | none =>
    match db.noteStats.find? acc with
    | some stats =>
      if settings.maxNoteCount ≤ stats.noteCount then
        pure db
      else do
        let notes ← get (db.notes.emplace ⟨acc, key, value⟩) .uniquenessViolated
        pure
          { db with
            notes := notes
            noteStats := db.noteStats.modify acc fun s => { s with noteCount := s.noteCount + 1 } }
    | none => do
      let stats ← get (db.noteStats.emplace ⟨acc, 1⟩) .uniquenessViolated
      let notes ← get (db.notes.emplace ⟨acc, key, value⟩) .uniquenessViolated
      pure { db with notes := notes, noteStats := stats }

def removeNote (acc : AccountName) (key : String) : AccountNotesDatabase W :=
  match db.notes.find? (acc, cString key) with
  | none => db
  | some _ =>
    { db with
      notes := db.notes.erase (acc, cString key)
      noteStats := db.noteStats.modify acc fun s => { s with noteCount := s.noteCount - 1 } }

def setValue (settings : AccountNotesSettings) (o : SetValueOperation) :
    Result (AccountNotesDatabase W) :=
  if o.key.utf8ByteSize < 1 ∨ settings.maxKeyLength < o.key.utf8ByteSize then
    pure db
  else
    match db.noteAccount fc o with
    | none => pure db
    | some acc =>
      if !settings.isTrackedAccount acc then
        pure db
      else if o.value = "" then
        pure (db.removeNote acc o.key)
      else do
        let value ← db.storedValue fc o (db.notes.find? (acc, cString o.key))
        if settings.maxValueLength < value.utf8ByteSize then
          pure db
        else
          db.storeNote settings acc o.key value

end AccountNotesDatabase

end Golos
