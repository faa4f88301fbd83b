import Mathlib.Data.Prod.Lex
import Golos.Lib.FlatMap
import Golos.Market.Impl.Evaluators

/-!
This module contains the buckets of the plugin `market_history` and their update by a filled order.
-/

namespace Golos

open Checked

/-- The fields of `bucket_object` that make up the index `by_bucket`. -/
structure BucketKey where
  sym1 : AssetSymbolType
  sym2 : AssetSymbolType
  seconds : Nat
  openTime : Nat
  deriving DecidableEq

namespace BucketKey

def rank (k : BucketKey) : ℕ ×ₗ ℕ ×ₗ ℕ ×ₗ ℕ :=
  toLex (k.sym1.toNat, toLex (k.sym2.toNat, toLex (k.seconds, k.openTime)))

theorem rank_injective : Function.Injective rank := by
  rintro ⟨sym1, sym2, seconds, openTime⟩ ⟨sym1', sym2', seconds', openTime'⟩ h
  simp only [rank, EmbeddingLike.apply_eq_iff_eq, Prod.mk.injEq, BitVec.toNat_inj] at h
  obtain ⟨rfl, rfl, rfl, rfl⟩ := h
  rfl

instance : LinearOrder BucketKey :=
  LinearOrder.lift' rank rank_injective

end BucketKey

/-- The other fields of `bucket_object`. -/
structure BucketObject where
  highAsset1 : ℤ
  highAsset2 : ℤ
  lowAsset1 : ℤ
  lowAsset2 : ℤ
  openAsset1 : ℤ
  openAsset2 : ℤ
  closeAsset1 : ℤ
  closeAsset2 : ℤ
  asset1Volume : ℤ
  asset2Volume : ℤ
  deriving DecidableEq

structure OrderHistoryObject where
  time : Nat
  op : FillOrderOperation

/-- The settings of a node. No option of the node changes the maximum. -/
structure MarketHistoryPlugin where
  trackedBuckets : List Nat := [15, 60, 300, 3600, 86400]
  sorted : trackedBuckets.Pairwise (· < ·) := by decide
  maximumHistoryPerBucketSize : ℤ := 1000

structure MarketHistoryDatabase where
  headBlockTime : Nat := 0
  buckets : FlatMap BucketKey BucketObject := .empty
  orderHistory : List OrderHistoryObject := []

namespace BucketObject

def high (k : BucketKey) (b : BucketObject) : Result Price :=
  Price.div ⟨b.highAsset2, k.sym2⟩ ⟨b.highAsset1, k.sym1⟩

def low (k : BucketKey) (b : BucketObject) : Result Price :=
  Price.div ⟨b.lowAsset2, k.sym2⟩ ⟨b.lowAsset1, k.sym1⟩

/-- The bucket of one fill. -/
def ofFill (asset1 asset2 : ℤ) : BucketObject where
  highAsset1 := asset1
  highAsset2 := asset2
  lowAsset1 := asset1
  lowAsset2 := asset2
  openAsset1 := asset1
  openAsset2 := asset2
  closeAsset1 := asset1
  closeAsset2 := asset2
  asset1Volume := asset1
  asset2Volume := asset2

/-- The bucket after a fill at `fillPrice`. -/
def addFill (k : BucketKey) (b : BucketObject) (asset1 asset2 : ℤ) (fillPrice : Price) :
    Result BucketObject := do
  let asset1Volume ← int64 (b.asset1Volume + asset1) .overflowException
  let asset2Volume ← int64 (b.asset2Volume + asset2) .overflowException
  let high ← b.high k
  let low ← b.low k
  let b :=
    { b with
      asset1Volume := asset1Volume
      asset2Volume := asset2Volume
      closeAsset1 := asset1
      closeAsset2 := asset2 }
  let b := if high.lt fillPrice then { b with highAsset1 := asset1, highAsset2 := asset2 } else b
  pure (if low.gt fillPrice then { b with lowAsset1 := asset1, lowAsset2 := asset2 } else b)

def create (op : FillOrderOperation) (k : BucketKey) : BucketObject :=
  if op.openPays.symbol = k.sym1 then
    ofFill op.openPays.amount op.currentPays.amount
  else
    ofFill op.currentPays.amount op.openPays.amount

def modify (op : FillOrderOperation) (k : BucketKey) (b : BucketObject) : Result BucketObject :=
  if op.openPays.symbol = k.sym1 then
    b.addFill k op.openPays.amount op.currentPays.amount ⟨op.currentPays, op.openPays⟩
  else
    b.addFill k op.currentPays.amount op.openPays.amount ⟨op.openPays, op.currentPays⟩

end BucketObject

/-- `get_symbol_type_pair` -/
def getSymbolTypePair (asset1 asset2 : Asset) : AssetSymbolType × AssetSymbolType :=
  if asset2.symbol = steemSymbol ∨
      (symbolName asset2.symbol < symbolName asset1.symbol ∧ asset1.symbol ≠ steemSymbol) then
    (asset2.symbol, asset1.symbol)
  else
    (asset1.symbol, asset2.symbol)

namespace MarketHistoryDatabase

variable (plugin : MarketHistoryPlugin) (op : FillOrderOperation) (db : MarketHistoryDatabase)

/--
The product of an `uint32_t` and an `int32_t`, taken from the time as a number of seconds. The
`time_point` that this gives is compared as a `time_point_sec`, that is modulo 2^32.
-/
def cutoff (seconds : Nat) : ℤ :=
  (db.headBlockTime - seconds * plugin.maximumHistoryPerBucketSize % 2 ^ 32) % 2 ^ 32

/--
The loop that removes old buckets. It has no end test: a walk that meets no other bucket leaves the
index, which is undefined and fails here.
-/
def trim (k : BucketKey) : Result MarketHistoryDatabase := do
  let buckets ← get
    (db.buckets.eraseFrom { k with openTime := 0 } fun k' =>
      k'.sym1 = k.sym1 ∧ k'.sym2 = k.sym2 ∧ k'.seconds = k.seconds ∧
        k'.openTime < db.cutoff plugin k.seconds)
    (.internalError "past the end of the index")
  pure { db with buckets := buckets }

/-- The turn of the loop for one period. A division by zero fails here. -/
def updateBucket (sym1 sym2 : AssetSymbolType) (bucket : Nat) : Result MarketHistoryDatabase := do
  ensure (bucket ≠ 0) (.internalError "division by zero")
  let k : BucketKey := ⟨sym1, sym2, bucket, db.headBlockTime / bucket * bucket⟩
  match db.buckets.find? k with
  | none => pure { db with buckets := db.buckets.set k (.create op k) }
  | some b => do
    let b ← b.modify op k
    let db := { db with buckets := db.buckets.set k b }
    if 0 < plugin.maximumHistoryPerBucketSize then
      db.trim plugin k
    else
      pure db

def updateMarketHistories : Result MarketHistoryDatabase :=
  let db := { db with orderHistory := db.orderHistory ++ [⟨db.headBlockTime, op⟩] }
  if plugin.maximumHistoryPerBucketSize = 0 ∨ plugin.trackedBuckets = [] then
    pure db
  else
    let (sym1, sym2) := getSymbolTypePair op.openPays op.currentPays
    plugin.trackedBuckets.foldlM (fun db bucket => db.updateBucket plugin op sym1 sym2 bucket) db

end MarketHistoryDatabase

end Golos
