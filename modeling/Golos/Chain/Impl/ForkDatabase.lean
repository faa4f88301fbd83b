import Golos.Chain.Impl.Apply

/-!
This module contains the fork database: the blocks of all branches that were pushed, each linked to
the block it builds on. Nothing is ever put into `_unlinked_index`, and no item is flagged `invalid`.
-/

namespace Golos

open Checked

/--
Items do not change once they are in the index, so an item holds the item that its weak pointer
`prev` was set to. `ForkDatabase.lock` tells whether that one is still alive.
-/
inductive ForkItem where
  | root (ptr : Nat) (data : SignedBlock)
  | child (ptr : Nat) (data : SignedBlock) (prev : ForkItem)
  deriving DecidableEq

namespace ForkItem

def data : ForkItem → SignedBlock
  | root _ data => data
  | child _ data _ => data

def prev : ForkItem → Option ForkItem
  | root _ _ => none
  | child _ _ prev => some prev

def num (item : ForkItem) : Nat :=
  item.data.blockNum

def previousId (item : ForkItem) : BlockId :=
  item.data.previous

/-- How many items `prev` leads to. -/
def depth : ForkItem → Nat
  | root _ _ => 0
  | child _ _ prev => prev.depth + 1

end ForkItem

/-- The id that an item got when it was made. -/
def Protocol.itemId {σ : Type} (p : Protocol σ) (item : ForkItem) : BlockId :=
  p.blockId item.data

structure ForkDatabase where
  index : List ForkItem := []
  head : Option ForkItem := none
  maxSize : Nat := 1024
  /-- The items that variables of running functions point to. -/
  held : List ForkItem := []
  nextPtr : Nat := 0
  deriving DecidableEq

namespace ForkDatabase

variable {σ : Type} (p : Protocol σ)

/-- `weak_ptr::lock` -/
def lock (f : ForkDatabase) (prev : Option ForkItem) : Option ForkItem :=
  prev.filter fun item => item ∈ f.index ∨ f.head = some item ∨ item ∈ f.held

def find (f : ForkDatabase) (id : BlockId) : Option ForkItem :=
  f.index.find? fun item => p.itemId item = id

/-- The index is unique by id: inserting an item whose id is there does nothing. -/
def insert (f : ForkDatabase) (item : ForkItem) : ForkDatabase :=
  match f.find p (p.itemId item) with
  | some _ => f
  | none => { f with index := item :: f.index }

def reset (f : ForkDatabase) : ForkDatabase :=
  { f with head := none, index := [] }

def popBlock (f : ForkDatabase) : Result ForkDatabase := do
  let head ← get f.head (.assertException "cannot pop an empty fork database")
  let prev ← get (f.lock head.prev)
    (.assertException "popping head block would leave fork DB empty")
  pure { f with head := some prev }

def startBlock (f : ForkDatabase) (b : SignedBlock) : ForkDatabase :=
  let item := .root f.nextPtr b
  { f.insert p item with head := some item, nextPtr := f.nextPtr + 1 }

/-- A new item, whose `prev` is set when there is a head and the block is not a first one. -/
def link (f : ForkDatabase) (b : SignedBlock) : Result ForkItem :=
  if f.head.isSome ∧ b.previous ≠ {} then do
    let prev ← get (f.find p b.previous)
      (.unlinkableBlock "block does not link to known chain")
    pure (.child f.nextPtr b prev)
  else
    pure (.root f.nextPtr b)

/-- The block is the head if there was none, or a lower one. -/
def raiseHead (f : ForkDatabase) (item : ForkItem) : ForkDatabase :=
  match f.head with
  | some head => if item.num > head.num then { f with head := some item } else f
  | none => { f with head := some item }

def pushBlock' (f : ForkDatabase) (b : SignedBlock) : Result ForkDatabase := do
  ensure (∀ head ∈ f.head, b.blockNum > head.num - f.maxSize)
    (.assertException "attempting to push a block that is too old")
  let item ← f.link p b
  let f := { f with nextPtr := f.nextPtr + 1 }
  pure ((f.insert p item).raiseHead item)

/-- With the new head. -/
def pushBlock (f : ForkDatabase) (b : SignedBlock) : Result (ForkItem × ForkDatabase) := do
  let f ← f.pushBlock' p b
  let head ← Checked.get f.head (.assertException "head")
  pure (head, f)

def setMaxSize (f : ForkDatabase) (s : Nat) : ForkDatabase :=
  match f.head with
  | none => { f with maxSize := s }
  | some head =>
    { f with maxSize := s, index := f.index.filter fun item => ¬(item.num < head.num - s) }

def fetchBlock (f : ForkDatabase) (id : BlockId) : Option ForkItem :=
  f.find p id

def fetchBlockByNumber (f : ForkDatabase) (num : Nat) : List ForkItem :=
  f.index.filter fun item => item.num = num

/-- The first two loops of `fetch_branch_from`: the items above a number, and the one below them. -/
def descend (f : ForkDatabase) (num : Nat) (item : ForkItem) : Result (List ForkItem × ForkItem) :=
  if item.num > num then
    match item with
    | .root _ _ => throw (.assertException "first_branch")
    | .child _ _ prev =>
      if f.lock (some prev) = some prev then do
        let (branch, last) ← f.descend num prev
        pure (item :: branch, last)
      else
        throw (.assertException "first_branch")
  else
    pure ([], item)

/-- The last loop of `fetch_branch_from`. -/
def meet (f : ForkDatabase) (first second : ForkItem) : Result (List ForkItem × List ForkItem) :=
  if first.previousId ≠ second.previousId then
    match first, second with
    | .child _ _ firstPrev, .child _ _ secondPrev =>
      if f.lock (some firstPrev) = some firstPrev ∧ f.lock (some secondPrev) = some secondPrev then do
        let (firstBranch, secondBranch) ← f.meet firstPrev secondPrev
        pure (first :: firstBranch, second :: secondBranch)
      else
        throw (.assertException "first_branch")
    | _, _ => throw (.assertException "first_branch")
  else
    pure ([first], [second])

/-- Two branches, newest block first, from two blocks down to their common ancestor. -/
def fetchBranchFrom (f : ForkDatabase) (first second : BlockId) :
    Result (List ForkItem × List ForkItem) := do
  let firstItem ← get (f.find p first) (.assertException "first_branch_itr")
  let secondItem ← get (f.find p second) (.assertException "second_branch_itr")
  let (firstUpper, firstItem) ← f.descend secondItem.num firstItem
  let (secondUpper, secondItem) ← f.descend firstItem.num secondItem
  let (firstLower, secondLower) ← f.meet firstItem secondItem
  pure (firstUpper ++ firstLower, secondUpper ++ secondLower)

/-- The loop of `walk_main_branch_to_num`. -/
def walk (f : ForkDatabase) (num : Nat) (next : ForkItem) : Option ForkItem :=
  if next.num > num then
    match next with
    | .root _ _ => none
    | .child _ _ prev => if f.lock (some prev) = some prev then f.walk num prev else none
  else
    some next

def walkMainBranchToNum (f : ForkDatabase) (num : Nat) : Option ForkItem :=
  match f.head with
  | none => none
  | some head => if num > head.num then none else f.walk num head

def fetchBlockOnMainBranchByNumber (f : ForkDatabase) (num : Nat) : Option ForkItem :=
  match f.fetchBlockByNumber num with
  | [] => none
  | [block] => some block
  | _ => f.walkMainBranchToNum num

def setHead (f : ForkDatabase) (item : ForkItem) : ForkDatabase :=
  { f with head := some item }

def remove (f : ForkDatabase) (id : BlockId) : ForkDatabase :=
  { f with index := f.index.filter fun item => p.itemId item ≠ id }

end ForkDatabase

end Golos
