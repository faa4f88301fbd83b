import Golos.Lib.Binary64
import Golos.Lib.Checked

/-!
This module contains the exceptions that the modelled functions throw, assets and their checked
arithmetic, the check of account names, and authorities.
-/

namespace Golos

inductive ChainException where
  /-- `FC_ASSERT` and `fc::assert_exception`. -/
  | assertException (msg : String)
  /-- An arithmetic operation on `fc::safe<int64_t>` left the range. -/
  | overflowException
  /-- `GOLOS_CHECK_VALUE`. -/
  | invalidValue (msg : String)
  /-- `GOLOS_THROW_MISSING_OBJECT`. -/
  | missingObject (type : String)
  /-- `GOLOS_THROW_OBJECT_ALREADY_EXIST`. -/
  | objectAlreadyExist (type : String)
  /-- `GOLOS_CHECK_BALANCE`. -/
  | insufficientFunds (account balance : String)
  /-- An index refused a row whose unique key is taken. -/
  | uniquenessViolated
  | unlinkableBlock (msg : String)
  | popEmptyChain (msg : String)
  | undoDatabaseException (msg : String)
  | databaseCorrupted (msg : String)
  | txDuplicateTransaction
  | txExpired
  | txInvalidField (field : String)
  | txInvalidOperation (index : Nat)
  | txTooLong
  /-- `GOLOS_CHECK_LOGIC`. -/
  | logicException (msg : String)
  | internalError (msg : String)
  /-- A stream of bytes ended before the value that is read from it. -/
  | outOfRange
  /-- The shared memory is used up. -/
  | badAlloc
  | unknownHardforkException
  deriving DecidableEq

abbrev Result (α : Type) :=
  Except ChainException α

open Checked

abbrev AccountName := String

instance : LawfulBEq (AccountName × AccountName) :=
  inferInstance

/-- The bytes of a symbol, the lowest one holding the decimals. -/
abbrev AssetSymbolType := BitVec 128

/-- A symbol from its bytes, lowest first. -/
def symbolOfBytes (bytes : List Nat) : AssetSymbolType :=
  BitVec.ofNat 128 (bytes.foldr (fun b acc => b % 256 + 256 * acc) 0)

def vestsSymbol : AssetSymbolType := 0x535453454706#128

def steemSymbol : AssetSymbolType := 0x534f4c4f4703#128

def sbdSymbol : AssetSymbolType := 0x47424703#128

structure Asset where
  amount : ℤ
  symbol : AssetSymbolType
  deriving DecidableEq

namespace Asset

def decimals (symbol : AssetSymbolType) : Nat :=
  let result := symbol.toNat % 256
  if 100 ≤ result then
    result - 100
  else
    result

def precision (symbol : AssetSymbolType) : Nat :=
  10 ^ decimals symbol

/-- `double(amount.value) / precision()`, both steps rounded as the 64 bit format rounds them. -/
def toReal (a : Asset) : ℚ :=
  Binary64.round (Binary64.round a.amount / precision a.symbol)

theorem toReal_mono {a b : Asset} (hsymbol : a.symbol = b.symbol) (h : a.amount ≤ b.amount) :
    a.toReal ≤ b.toReal := by
  unfold toReal
  rw [hsymbol]
  apply Binary64.round_mono
  apply div_le_div_of_nonneg_right
  . exact Binary64.round_mono (by exact_mod_cast h)
  . exact Nat.cast_nonneg _

theorem amount_lt_of_toReal_lt {a b : Asset} (hsymbol : a.symbol = b.symbol)
    (h : a.toReal < b.toReal) : a.amount < b.amount := by
  by_contra hle
  exact absurd (toReal_mono hsymbol.symm (not_lt.mp hle)) (not_le.mpr h)

/-- `FC_ASSERT(symbol == o.symbol)` -/
def sameSymbol (a b : Asset) : Result Unit :=
  ensure (a.symbol = b.symbol) (.assertException "symbol == o.symbol")

def add (a b : Asset) : Result Asset := do
  sameSymbol a b
  let amount ← int64 (a.amount + b.amount) .overflowException
  pure ⟨amount, a.symbol⟩

def sub (a b : Asset) : Result Asset := do
  sameSymbol a b
  let amount ← int64 (a.amount - b.amount) .overflowException
  pure ⟨amount, a.symbol⟩

def neg (a : Asset) : Result Asset := do
  let amount ← int64 (-a.amount) .overflowException
  pure ⟨amount, a.symbol⟩

def lt (a b : Asset) : Result Bool := do
  sameSymbol a b
  pure (a.amount < b.amount)

def le (a b : Asset) : Result Bool := do
  sameSymbol a b
  pure (a.amount ≤ b.amount)

theorem add_eq_ok {a b c : Asset} :
    add a b = .ok c ↔
      a.symbol = b.symbol ∧ (minInt64 ≤ a.amount + b.amount ∧ a.amount + b.amount ≤ maxInt64) ∧
        c = ⟨a.amount + b.amount, a.symbol⟩ := by
  simp only [add, sameSymbol, bind_eq_ok, ensure_eq_ok, int64_eq_ok, pure_eq_ok]
  constructor
  . rintro ⟨-, hsymbol, -, ⟨hrange, rfl⟩, rfl⟩
    exact ⟨hsymbol, hrange, rfl⟩
  . rintro ⟨hsymbol, hrange, rfl⟩
    exact ⟨(), hsymbol, _, ⟨hrange, rfl⟩, rfl⟩

theorem sub_eq_ok {a b c : Asset} :
    sub a b = .ok c ↔
      a.symbol = b.symbol ∧ (minInt64 ≤ a.amount - b.amount ∧ a.amount - b.amount ≤ maxInt64) ∧
        c = ⟨a.amount - b.amount, a.symbol⟩ := by
  simp only [sub, sameSymbol, bind_eq_ok, ensure_eq_ok, int64_eq_ok, pure_eq_ok]
  constructor
  . rintro ⟨-, hsymbol, -, ⟨hrange, rfl⟩, rfl⟩
    exact ⟨hsymbol, hrange, rfl⟩
  . rintro ⟨hsymbol, hrange, rfl⟩
    exact ⟨(), hsymbol, _, ⟨hrange, rfl⟩, rfl⟩

theorem neg_eq_ok {a b : Asset} :
    neg a = .ok b ↔ (minInt64 ≤ -a.amount ∧ -a.amount ≤ maxInt64) ∧ b = ⟨-a.amount, a.symbol⟩ := by
  simp only [neg, bind_eq_ok, int64_eq_ok, pure_eq_ok]
  constructor
  . rintro ⟨-, ⟨hrange, rfl⟩, rfl⟩
    exact ⟨hrange, rfl⟩
  . rintro ⟨hrange, rfl⟩
    exact ⟨_, ⟨hrange, rfl⟩, rfl⟩

end Asset

structure Price where
  base : Asset
  quote : Asset
  deriving DecidableEq

/-- The bytes of a symbol after its decimals, up to the first zero, as `symbol_name()` reads them. -/
def symbolName (symbol : AssetSymbolType) : List Nat :=
  ((List.range 15).map fun i => symbol.toNat / 256 ^ (i + 1) % 256).takeWhile (· ≠ 0)

/-- A 64 bit signed number as `uint128_t`. -/
def toUint128 (x : ℤ) : Nat :=
  (x % 2 ^ 128).toNat

/-- The low 64 bits of a result with an empty high half, read back as `int64_t`. -/
def ofUint128 (x : Nat) : Result ℤ :=
  if x < 2 ^ 64 then
    .ok (if x < 2 ^ 63 then x else x - 2 ^ 64)
  else
    .error (.assertException "result.hi == 0")

/-- `asset * price` -/
def Asset.mulPrice (a : Asset) (p : Price) : Result Asset := do
  if symbolName a.symbol = symbolName p.base.symbol then
    ensure (0 < p.base.amount) (.assertException "b.base.amount.value > 0")
    let amount ← ofUint128
      (toUint128 a.amount * toUint128 p.quote.amount % 2 ^ 128 / toUint128 p.base.amount)
    pure ⟨amount, p.quote.symbol⟩
  else if symbolName a.symbol = symbolName p.quote.symbol then
    ensure (0 < p.quote.amount) (.assertException "b.quote.amount.value > 0")
    let amount ← ofUint128
      (toUint128 a.amount * toUint128 p.base.amount % 2 ^ 128 / toUint128 p.quote.amount)
    pure ⟨amount, p.base.symbol⟩
  else
    throw (.assertException "invalid asset * price")

namespace AccountName

def isLetter (x : Char) : Bool :=
  'a' ≤ x ∧ x ≤ 'z'

def isDigit (x : Char) : Bool :=
  '0' ≤ x ∧ x ≤ '9'

/-- What the loop of `is_valid_account_name` checks of a part between dots. -/
def isValidPart (part : List Char) : Bool :=
  3 ≤ part.length ∧ part.head?.any isLetter ∧
    part.getLast?.any (fun t => isLetter t || isDigit t) ∧
      part.all fun t => isLetter t || isDigit t || t = '-'

def isValid (name : AccountName) : Bool :=
  3 ≤ name.utf8ByteSize ∧ name.utf8ByteSize ≤ 16 ∧ (name.toList.splitOn '.').all isValidPart

end AccountName

def validateAccountName (name : AccountName) : Result Unit :=
  ensure (AccountName.isValid name) (.invalidValue s!"Account name {name} is invalid")

theorem ne_empty_of_validateAccountName {name : AccountName} {u : Unit}
    (h : validateAccountName name = .ok u) : name ≠ "" := by
  rintro rfl
  unfold validateAccountName at h
  rw [ensure_eq_ok] at h
  revert h
  decide

/-- The 33 bytes of a compressed point. -/
abbrev PublicKeyType := BitVec 264

instance : LawfulBEq PublicKeyType :=
  inferInstance

/-- The flat maps are lists in the order of their keys. -/
structure Authority where
  weightThreshold : Nat := 0
  accountAuths : List (AccountName × Nat) := []
  keyAuths : List (PublicKeyType × Nat) := []
  deriving DecidableEq

end Golos
