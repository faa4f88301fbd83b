import Golos.Market.Impl.Evaluators

/-!
This module contains the price feeds of witnesses and the median that is made from them every hour,
under the rules of hardfork 30.
-/

namespace Golos

open Checked

def steemitFeedIntervalBlocks : Nat := 60 * 60 / 3

def steemitFeedHistoryWindow : Nat := 12 * 7

def steemitMaxFeedAge : Nat := 7 * 24 * 60 * 60

def steemitMinFeeds : Nat := 21 / 3

namespace Price

/-- `price()` -/
def null : Price :=
  ⟨⟨0, steemSymbol⟩, ⟨0, steemSymbol⟩⟩

def isNull (p : Price) : Prop :=
  p.eq null

instance (p : Price) : Decidable p.isNull :=
  inferInstanceAs (Decidable (p.eq null))

/-- `std::sort` of prices by `operator<`. -/
def sort (prices : List Price) : List Price :=
  prices.insertionSort fun a b => ¬b.lt a

/-- What `sort` puts in the middle. -/
def median (prices : List Price) : Price :=
  ((sort prices)[prices.length / 2]?).getD null

end Price

structure FeedPublishOperation where
  publisher : AccountName
  exchangeRate : Price

def FeedPublishOperation.validate (o : FeedPublishOperation) : Result Unit := do
  validateAccountName o.publisher
  ensure ((o.exchangeRate.base.symbol = steemSymbol ∧ o.exchangeRate.quote.symbol = sbdSymbol) ∨
      (o.exchangeRate.base.symbol = sbdSymbol ∧ o.exchangeRate.quote.symbol = steemSymbol))
    (.logicException "Price feed must be a GOLOS/GBG price")
  o.exchangeRate.validate

/-- The part of `witness_object` that price feeds read and write. -/
structure FeedWitnessObject where
  owner : AccountName
  sbdExchangeRate : Price := .null
  lastSbdExchangeUpdate : Nat := 0
  deriving DecidableEq

structure FeedHistoryObject where
  currentMedianHistory : Price := .null
  witnessMedianHistory : Price := .null
  /-- The oldest price first. -/
  priceHistory : List Price := []
  deriving DecidableEq

/-- The part of `database` that price feeds read and write. -/
structure FeedDatabase where
  witnesses : Table FeedWitnessObject.owner := .empty
  /-- The scheduled ones of `current_shuffled_witnesses`. -/
  scheduledWitnesses : List AccountName := []
  feedHistory : FeedHistoryObject := {}
  headBlockNum : Nat := 0
  headBlockTime : Nat := 0
  currentSbdSupply : ℤ := 0
  currentSupply : ℤ := 0
  isForcedMinPrice : Bool := false

namespace FeedDatabase

variable (db : FeedDatabase)

def getWitness (name : AccountName) : Result FeedWitnessObject :=
  get (db.witnesses.find? name) (.missingObject "witness")

/-- `feed_publish_evaluator::do_apply` -/
def feedPublish (o : FeedPublishOperation) : Result FeedDatabase := do
  o.validate
  let _ ← db.getWitness o.publisher
  pure
    { db with
      witnesses := db.witnesses.modify o.publisher fun w =>
        { w with sbdExchangeRate := o.exchangeRate, lastSbdExchangeUpdate := db.headBlockTime } }

def IsFresh (w : FeedWitnessObject) : Prop :=
  db.headBlockTime < w.lastSbdExchangeUpdate + steemitMaxFeedAge ∧ ¬w.sbdExchangeRate.isNull

instance (w : FeedWitnessObject) : Decidable (db.IsFresh w) :=
  inferInstanceAs (Decidable (_ ∧ _))

/-- The feeds of the scheduled witnesses that are not too old. -/
def freshFeeds : Result (List Price) := do
  let scheduled ← db.scheduledWitnesses.mapM db.getWitness
  pure ((scheduled.filter fun w => db.IsFresh w).map FeedWitnessObject.sbdExchangeRate)

/-- The history with a new price, and without the oldest one if it gets too long. -/
def pushPrice (history : List Price) (price : Price) : List Price :=
  if steemitFeedHistoryWindow < (history ++ [price]).length then
    (history ++ [price]).tail
  else
    history ++ [price]

/-- The price that limits the debt to a tenth of the market cap. -/
def minPrice : Result Price := do
  let sbd ← int64 (10 * db.currentSbdSupply) .overflowException
  pure ⟨⟨sbd, sbdSymbol⟩, ⟨db.currentSupply, steemSymbol⟩⟩

/-- What `update_median_feed` does with the feeds when there are enough of them. -/
def pushMedianFeed (feeds : List Price) : Result FeedDatabase := do
  let medianFeed := Price.median feeds
  let history := pushPrice db.feedHistory.priceHistory medianFeed
  let witnessMedian := Price.median history
  let minPrice ← db.minPrice
  let isForcedMinPrice := decide (minPrice.gt witnessMedian)
  pure
    { db with
      feedHistory :=
        { currentMedianHistory := if isForcedMinPrice then minPrice else witnessMedian
          witnessMedianHistory := witnessMedian
          priceHistory := history }
      isForcedMinPrice := isForcedMinPrice }

def updateMedianFeed : Result FeedDatabase := do
  if db.headBlockNum % steemitFeedIntervalBlocks ≠ 0 then
    pure db
  else
    let feeds ← db.freshFeeds
    if steemitMinFeeds ≤ feeds.length then
      db.pushMedianFeed feeds
    else
      pure db

end FeedDatabase

end Golos
