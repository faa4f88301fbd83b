import Golos.Plugins.Impl.AccountNotes
import Golos.Plugins.Impl.Follow
import Golos.PrivateMessage.Impl.Evaluators

/-!
This module contains the interpreters of custom operations, the evaluators that call them, and the
application of blocks, in which the rest of the chain is a program that knows only the objects of the
chain.
-/

namespace Golos

open Checked

/-- The database of a node with the objects of its plugins. -/
structure NodeDatabase (W : Type) extends PrivateMessageDatabase W, FollowDatabase W,
  AccountNotesDatabase W

namespace NodeDatabase

variable {W : Type} (db : NodeDatabase W)

def setChain (chain : ChainDatabase W) : NodeDatabase W :=
  { db with chain := chain }

def setPrivateMessages (p : PrivateMessageDatabase W) : NodeDatabase W :=
  { p, db with }

def setFollow (f : FollowDatabase W) : NodeDatabase W :=
  { f, db with }

def setAccountNotes (n : AccountNotesDatabase W) : NodeDatabase W :=
  { n, db with }

@[simp]
theorem chain_setChain (chain : ChainDatabase W) : (db.setChain chain).chain = chain := rfl

@[simp]
theorem chain_setPrivateMessages (p : PrivateMessageDatabase W) :
    (db.setPrivateMessages p).chain = p.chain := rfl

@[simp]
theorem chain_setFollow (f : FollowDatabase W) : (db.setFollow f).chain = f.chain := rfl

@[simp]
theorem chain_setAccountNotes (n : AccountNotesDatabase W) :
    (db.setAccountNotes n).chain = n.chain := rfl

end NodeDatabase

structure CustomAuthorities where
  active : List AccountName := []
  owner : List AccountName := []
  posting : List AccountName := []
  other : List Authority := []

structure CustomJsonOperation where
  requiredAuths : List AccountName
  requiredPostingAuths : List AccountName
  id : String
  json : String

structure CustomBinaryOperation where
  requiredOwnerAuths : List AccountName
  requiredActiveAuths : List AccountName
  requiredPostingAuths : List AccountName
  requiredAuths : List Authority
  id : String
  data : List UInt8

inductive CustomOperation where
  | customJson (o : CustomJsonOperation)
  | customBinary (o : CustomBinaryOperation)

namespace CustomOperation

def id : CustomOperation → String
  | customJson o => o.id
  | customBinary o => o.id

/-- `operation_get_required_authorities` -/
def authorities : CustomOperation → CustomAuthorities
  | customJson o => { active := o.requiredAuths, posting := o.requiredPostingAuths }
  | customBinary o =>
    { active := o.requiredActiveAuths
      owner := o.requiredOwnerAuths
      posting := o.requiredPostingAuths
      other := o.requiredAuths }

end CustomOperation

section interpreter

/-- What `fc` makes of a parsed JSON text and of bytes, for a type of operations. -/
structure Reflection (Json P : Type) where
  fromVariant : Json → Option P
  unpack : List UInt8 → Option P
  unpackList : List UInt8 → Option (List P)

/--
`generic_custom_operation_interpreter`. The operations of the plugins require no authority of owners
and no others, which is why these are missing.
-/
structure Interpreter (Json S P : Type) where
  reflection : Reflection Json P
  validate : P → Result Unit
  requiredActive : P → List AccountName
  requiredPosting : P → List AccountName
  evaluate : S → P → Result S

/-- The two lists hold the same accounts. -/
def SameAccounts (l l' : List AccountName) : Prop :=
  l ⊆ l' ∧ l' ⊆ l

instance (l l' : List AccountName) : Decidable (SameAccounts l l') :=
  inferInstanceAs (Decidable (_ ∧ _))

namespace Interpreter

variable {Json S P : Type} (fc : Fc Json) (i : Interpreter Json S P)

/-- An undo session encloses the whole: after an exception nothing is changed. -/
def applyOperations (s : S) (customOperations : List P) (outer : CustomAuthorities) : Result S := do
  customOperations.forM i.validate
  ensure (outer.owner = []) (.logicException
    "Owner authorities for inner operations are not equal to those for operation")
  ensure (SameAccounts (customOperations.flatMap i.requiredActive) outer.active) (.logicException
    "Active authorities for inner operations are not equal to those for operation")
  ensure (SameAccounts (customOperations.flatMap i.requiredPosting) outer.posting) (.logicException
    "Posting authorities for inner operations are not equal to those for operation")
  ensure (outer.other = []) (.logicException
    "Other authorities for inner operations are not equal to those for operation")
  customOperations.foldlM i.evaluate s

/-- An array whose first element is an array is a list of operations. -/
def parseJson (json : String) : Option (List P) := do
  let v ← fc.fromString json
  match fc.getArray v with
  | some (first :: rest) =>
    if (fc.getArray first).isSome then
      (first :: rest).mapM i.reflection.fromVariant
    else
      (i.reflection.fromVariant v).map fun op => [op]
  | _ => (i.reflection.fromVariant v).map fun op => [op]

def parseBinary (data : List UInt8) : Option (List P) :=
  match i.reflection.unpackList data with
  | some ops => some ops
  | none => (i.reflection.unpack data).map fun op => [op]

def parse : CustomOperation → Option (List P)
  | .customJson o => i.parseJson fc o.json
  | .customBinary o => i.parseBinary o.data

def apply (s : S) (o : CustomOperation) : Result S := do
  let ops ← get (i.parse fc o) (.assertException "bad_cast")
  i.applyOperations s ops o.authorities

end Interpreter

end interpreter

/-- The plugins of a node that register interpreters, with their settings. -/
structure NodeConfig where
  privateMessage : Option PrivateMessagePlugin := none
  /-- `max_feed_size` -/
  follow : Option UInt32 := none
  accountNotes : Option AccountNotesSettings := none

/-- The library `fc` with what it makes of the operations of the plugins. -/
structure Library (Json : Type) extends Fc Json where
  privateMessage : Reflection Json PrivateMessagePluginOperation
  follow : Reflection Json FollowPluginOperation
  accountNotes : Reflection Json SetValueOperation

section plugins

variable {W Json : Type} (lib : Library Json)

def PrivateMessagePlugin.interpreter (plugin : PrivateMessagePlugin) :
    Interpreter Json (PrivateMessageDatabase W) PrivateMessagePluginOperation where
  reflection := lib.privateMessage
  validate := PrivateMessagePluginOperation.validate lib.toFc
  requiredActive := PrivateMessagePluginOperation.requiredActive
  requiredPosting := PrivateMessagePluginOperation.requiredPosting
  evaluate db o := db.apply lib.toFc plugin o

def followInterpreter (maxFeedSize : UInt32) :
    Interpreter Json (FollowDatabase W) FollowPluginOperation where
  reflection := lib.follow
  validate := FollowPluginOperation.validate lib.toFc
  requiredActive _ := []
  requiredPosting := FollowPluginOperation.requiredPosting
  evaluate db o := db.apply lib.toFc maxFeedSize o

def AccountNotesSettings.interpreter (settings : AccountNotesSettings) :
    Interpreter Json (AccountNotesDatabase W) SetValueOperation where
  reflection := lib.accountNotes
  validate o := o.validate lib.toFc
  requiredActive := SetValueOperation.requiredActive
  requiredPosting := SetValueOperation.requiredPosting
  evaluate db o := db.setValue lib.toFc settings o

def privateMessageName : String := "private_message"

def followName : String := "follow"

def accountNotesName : String := "account_notes"

variable (config : NodeConfig) (db : NodeDatabase W)

/-- The call of the interpreter that is registered under the name in the operation, if there is one. -/
def NodeDatabase.interpret (o : CustomOperation) : Option (Result (NodeDatabase W)) :=
  if o.id = privateMessageName then
    config.privateMessage.map fun plugin =>
      ((plugin.interpreter lib).apply lib.toFc db.toPrivateMessageDatabase o).map
        db.setPrivateMessages
  else if o.id = followName then
    config.follow.map fun maxFeedSize =>
      ((followInterpreter lib maxFeedSize).apply lib.toFc db.toFollowDatabase o).map db.setFollow
  else if o.id = accountNotesName then
    config.accountNotes.map fun settings =>
      ((settings.interpreter lib).apply lib.toFc db.toAccountNotesDatabase o).map
        db.setAccountNotes
  else
    none

/-- `custom_json_evaluator` and `custom_binary_evaluator` -/
def NodeDatabase.custom (isProducing : Bool) (o : CustomOperation) : Result (NodeDatabase W) :=
  match db.interpret lib config o with
  | none => pure db
  | some (.ok db') => pure db'
  | some (.error e) => if isProducing then throw e else pure db

end plugins

section chain

variable {W Json : Type}

/--
A piece of the chain's own code. Between the custom operations that it applies it reads and writes
only objects of the chain. A session undoes what is done in it, plugins included, if it fails.
-/
inductive ChainProgram (W : Type) where
  | done (result : Result (ChainDatabase W))
  | custom (o : CustomOperation) (chain : ChainDatabase W)
      (next : ChainDatabase W → ChainProgram W)
  | session (body : ChainProgram W) (next : Result (ChainDatabase W) → ChainProgram W)

namespace ChainProgram

def bind (next : ChainDatabase W → ChainProgram W) : ChainProgram W → ChainProgram W
  | done (.ok chain) => next chain
  | done (.error e) => done (.error e)
  | custom o chain next' => custom o chain fun chain => (next' chain).bind next
  | session body next' => session body fun result => (next' result).bind next

/-- Pieces of code one after the other, each for an element of a list. -/
def each {α : Type} (f : α → ChainDatabase W → ChainProgram W) :
    List α → ChainDatabase W → ChainProgram W
  | [], chain => done (.ok chain)
  | a :: as, chain => (f a chain).bind (each f as)

variable (lib : Library Json) (config : NodeConfig) (isProducing : Bool)

def run : ChainProgram W → NodeDatabase W → Result (NodeDatabase W)
  | done (.ok chain), db => .ok (db.setChain chain)
  | done (.error e), _ => .error e
  | custom o chain next, db =>
    match (db.setChain chain).custom lib config isProducing o with
    | .ok db' => (next db'.chain).run db'
    | .error e => .error e
  | session body next, db =>
    match body.run db with
    | .ok db' => (next (.ok db'.chain)).run db'
    | .error e => (next (.error e)).run db

end ChainProgram

inductive NodeOperation (O : Type) where
  | custom (o : CustomOperation)
  | other (o : O)

structure NodeTransaction (O T : Type) where
  transaction : T
  operations : List (NodeOperation O)

structure NodeBlock (O T B : Type) where
  block : B
  transactions : List (NodeTransaction O T)

/--
The chain's own code: what comes before and after the transactions of a block, what comes before the
operations of a transaction, and the evaluators of the operations that are not custom. Operations of
proposals are applied in the course of these.
-/
structure ChainCode (W O T B : Type) where
  startBlock : B → ChainDatabase W → ChainProgram W
  startTransaction : T → ChainDatabase W → ChainProgram W
  evaluate : O → ChainDatabase W → ChainProgram W
  endBlock : B → ChainDatabase W → ChainProgram W

namespace ChainCode

variable {O T B : Type} (code : ChainCode W O T B)

def applyOperation (o : NodeOperation O) (chain : ChainDatabase W) : ChainProgram W :=
  match o with
  | .custom o => .custom o chain fun chain => .done (.ok chain)
  | .other o => code.evaluate o chain

def applyTransaction (trx : NodeTransaction O T) (chain : ChainDatabase W) : ChainProgram W :=
  (code.startTransaction trx.transaction chain).bind
    (.each code.applyOperation trx.operations)

def applyBlock (b : NodeBlock O T B) (chain : ChainDatabase W) : ChainProgram W :=
  (code.startBlock b.block chain).bind fun chain =>
    (ChainProgram.each code.applyTransaction b.transactions chain).bind (code.endBlock b.block)

variable (lib : Library Json) (config : NodeConfig)

/-- A block that fails changes nothing. The node does not produce it. -/
def pushBlock (db : NodeDatabase W) (b : NodeBlock O T B) : NodeDatabase W :=
  match (code.applyBlock b db.chain).run lib config false db with
  | .ok db' => db'
  | .error _ => db

def pushBlocks (db : NodeDatabase W) (blocks : List (NodeBlock O T B)) : NodeDatabase W :=
  blocks.foldl (code.pushBlock lib config) db

end ChainCode

end chain

end Golos
