import Golos.Ledger.Basic
import Golos.Protocol.ChainProperties

/-!
This module contains the part of `database` that the evaluators of plugins read and write. All other
objects of the chain are a parameter.
-/

namespace Golos

open Checked

structure CommentObject where
  id : Nat
  author : AccountName
  hashlink : Nat
  parentAuthor : AccountName := ""

abbrev CommentObject.byHashlink (c : CommentObject) : AccountName × Nat :=
  (c.author, c.hashlink)

/--
What plugins use of the library `fc`: the order of account names, `is_utf8`, `hash64`, and the
functions of `fc::json`. A value of type `Json` is a parsed `fc::variant`. The array that `ofTexts`
makes holds the texts as a `std::set` does.
-/
structure Fc (Json : Type) where
  accountLess : AccountName → AccountName → Bool
  isUtf8 : String → Bool
  hash64 : String → Nat
  isValid : String → Bool
  fromString : String → Option Json
  toString : Json → String
  getArray : Json → Option (List Json)
  getObject : Json → Option (List (String × Json))
  isNull : Json → Bool
  asString : Json → Option String
  ofTexts : List String → Json
  ofObject : List (String × Json) → Json

/-- The objects of the chain, those that no plugin reads being `world`. -/
structure ChainDatabase (W : Type) where
  ledger : Ledger := {}
  vestingShares : AccountName → ℤ := fun _ => 0
  doNotBother : AccountName → Bool := fun _ => false
  reputation : AccountName → ℤ := fun _ => 0
  accountBlockings : List (AccountName × AccountName) := []
  comments : Table CommentObject.byHashlink := .empty
  medianProps : ChainProperties30 := {}
  totalVestingFundSteem : ℤ := 0
  totalVestingShares : ℤ := 0
  headBlockTime : Nat := 0
  lastHardfork : Nat := 0
  world : W

namespace ChainDatabase

variable {W : Type} (db : ChainDatabase W)

def hasHardfork (hardfork : Nat) : Prop :=
  hardfork ≤ db.lastHardfork

instance (hardfork : Nat) : Decidable (db.hasHardfork hardfork) :=
  inferInstanceAs (Decidable (_ ≤ _))

def assertReqHf (hardfork : Nat) (feature : String) : Result Unit :=
  ensure (db.hasHardfork hardfork)
    (.logicException (feature ++ " is not enabled until HF " ++ toString hardfork))

def getAccount (name : AccountName) : Result AccountObject :=
  db.ledger.getAccount name

def getAccountReputation (name : AccountName) : ℤ :=
  match db.ledger.accounts.find? name with
  | none => 0
  | some _ => db.reputation name

def isBlocking (account blocking : AccountName) : Result Nat :=
  if ¬db.hasHardfork 27 then
    pure 0
  else if (account, blocking) ∈ db.accountBlockings then
    pure 1
  else do
    let _ ← db.getAccount account
    pure (if db.doNotBother account ∧ db.getAccountReputation blocking < 27800000000000 then 2 else 0)

/-- `check_no_blocking` without a bypass. -/
def checkNoBlocking (account blocking : AccountName) : Result Unit :=
  if ¬db.hasHardfork 27 then
    pure ()
  else do
    let blocked ← db.isBlocking account blocking
    ensure (blocked ≠ 1) (.invalidValue
      s!"You are blocked by user (@{account}), and cannot bypass it with money in that case")
    ensure (blocked = 0) (.invalidValue
      s!"User (@{account}) tells to do not bother their, and you cannot bypass it with money in that case")

/-- `is_null` compares with the price of no GOLOS in no GOLOS, which is any price of GOLOS in GOLOS. -/
def isNullPrice (p : Price) : Bool :=
  p.base.symbol = steemSymbol ∧ p.quote.symbol = steemSymbol

def getVestingSharePrice : Price :=
  if db.totalVestingFundSteem = 0 ∨ db.totalVestingShares = 0 then
    ⟨⟨1000, steemSymbol⟩, ⟨1000000, vestsSymbol⟩⟩
  else
    ⟨⟨db.totalVestingShares, vestsSymbol⟩, ⟨db.totalVestingFundSteem, steemSymbol⟩⟩

/-- The first of the two amounts; the second is only printed. -/
def getMinGpForGroups : Result Asset :=
  if db.hasHardfork 30 ∧ ¬isNullPrice db.ledger.currentMedianHistory then do
    let minGolos ← db.medianProps.privateGroupGolosPower.mulPrice db.ledger.currentMedianHistory
    minGolos.mulPrice db.getVestingSharePrice
  else
    pure ⟨0, vestsSymbol⟩

def checkGolosPower (name : AccountName) : Result Unit := do
  let minGp ← db.getMinGpForGroups
  let enough ← minGp.le ⟨db.vestingShares name, vestsSymbol⟩
  ensure (enough = true) (.logicException "Too low golos power")

def getCommentByPerm {Json : Type} (fc : Fc Json) (author : AccountName) (permlink : String) :
    Result CommentObject :=
  get (db.comments.find? (author, fc.hash64 permlink)) (.missingObject "comment")

end ChainDatabase

end Golos
