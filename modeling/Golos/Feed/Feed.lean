import Golos.Feed.Impl
import Golos.Lib.Sorting
import Golos.Market.PriceOrder
import Golos.Lib.Transition

/-!
This module contains the runs of price feeds, and what an update makes of the feeds and of the
history: medians, unless a feed is GOLOS for GBG.
-/

namespace Golos

open Checked

namespace Price

/-- What a witness may publish. -/
structure IsFeed (p : Price) : Prop extends Valid p where
  symbols : (p.base.symbol = steemSymbol ∧ p.quote.symbol = sbdSymbol) ∨
    (p.base.symbol = sbdSymbol ∧ p.quote.symbol = steemSymbol)

/-- The price is so many GBG for some GOLOS, and not the other way round. -/
def IsGbgBased (p : Price) : Prop :=
  p.base.symbol = sbdSymbol

instance (p : Price) : Decidable p.IsGbgBased :=
  inferInstanceAs (Decidable (_ = _))

/-- The GBG of a feed. -/
def gbg (p : Price) : ℤ :=
  if p.IsGbgBased then p.base.amount else p.quote.amount

/-- The GOLOS of a feed. -/
def golos (p : Price) : ℤ :=
  if p.IsGbgBased then p.quote.amount else p.base.amount

/-- The GBG for one GOLOS. -/
def value (p : Price) : ℚ :=
  p.gbg / p.golos

variable {p q : Price} {prices : List Price}

theorem IsFeed.quote_of_gbgBased (h : p.IsFeed) (hp : p.IsGbgBased) :
    p.quote.symbol = steemSymbol := by
  rcases h.symbols with ⟨hbase, -⟩ | ⟨-, hquote⟩
  . unfold IsGbgBased at hp
    rw [hbase] at hp
    exact absurd hp (by decide)
  . exact hquote

theorem rank_of_gbgBased (h : p.IsFeed) (hp : p.IsGbgBased) :
    p.rank = toLex (sbdSymbol.toNat, toLex (steemSymbol.toNat, p.value)) := by
  unfold rank value gbg golos
  rw [if_pos hp, if_pos hp, h.quote_of_gbgBased hp, hp]

theorem lt_iff_value (hp : p.IsFeed) (hq : q.IsFeed) (hpgbg : p.IsGbgBased) (hqgbg : q.IsGbgBased) :
    p.lt q ↔ p.value < q.value := by
  rw [lt_iff_rank hp.toValid.positive hq.toValid.positive, rank_of_gbgBased hp hpgbg, rank_of_gbgBased hq hqgbg]
  simp [Prod.Lex.toLex_lt_toLex]

/-- The price is one of those, and has the median of their values. -/
def IsMedian (prices : List Price) (p : Price) : Prop :=
  p ∈ prices ∧ OrderStat.nthElement (prices.map value) (prices.length / 2) = some p.value

theorem median_mem (h : prices ≠ []) : median prices ∈ prices := by
  have hlt : prices.length / 2 < (sort prices).length := by
    unfold sort
    rw [List.length_insertionSort]
    have := List.length_pos_iff.mpr h
    omega
  unfold median
  rw [List.getElem?_eq_getElem hlt, Option.getD_some]
  have hmem := List.getElem_mem hlt
  unfold sort at hmem ⊢
  rwa [List.mem_insertionSort] at hmem

/-- The middle of prices of GBG is the median of their values. -/
theorem isMedian_median (h : prices ≠ []) (hfeeds : ∀ p ∈ prices, p.IsFeed)
    (hgbg : ∀ p ∈ prices, p.IsGbgBased) : IsMedian prices (median prices) := by
  refine ⟨median_mem h, ?_⟩
  have hsort : (sort prices).map value = (prices.map value).insertionSort (· ≤ ·) := by
    apply List.map_insertionSort
    intro p hp q hq
    rw [lt_iff_value (hfeeds q hq) (hfeeds p hp) (hgbg q hq) (hgbg p hp), not_lt]
  have hlt : prices.length / 2 < (sort prices).length := by
    unfold sort
    rw [List.length_insertionSort]
    have := List.length_pos_iff.mpr h
    omega
  unfold OrderStat.nthElement median
  rw [← hsort, List.getElem?_map, List.getElem?_eq_getElem hlt]
  rfl

theorem gt_iff_of_symbols (hbase : p.base.symbol = q.base.symbol)
    (hquote : p.quote.symbol = q.quote.symbol) (hp : 0 ≤ p.base.amount ∧ p.base.amount ≤ maxInt64)
    (hp' : 0 ≤ p.quote.amount ∧ p.quote.amount ≤ maxInt64)
    (hq : 0 ≤ q.base.amount ∧ q.base.amount ≤ maxInt64)
    (hq' : 0 ≤ q.quote.amount ∧ q.quote.amount ≤ maxInt64) :
    p.gt q ↔ p.quote.amount * q.base.amount < q.quote.amount * p.base.amount := by
  unfold gt eq lt
  rw [hbase, hquote, toUint128_mul hq'.1 hq'.2 hp.1 hp.2, toUint128_mul hp'.1 hp'.2 hq.1 hq.2]
  have hleft := Int.mul_nonneg hq'.1 hp.1
  have hright := Int.mul_nonneg hp'.1 hq.1
  simp only [true_and, BitVec.lt_irrefl, false_or]
  omega

end Price

namespace FeedDatabase

variable {db db' : FeedDatabase} {feeds : List Price} {p : Price}

inductive Event where
  | publish (o : FeedPublishOperation)
  | updateMedianFeed
  /-- Everything else: passing blocks, supplies, schedules and witnesses that come up. -/
  | elsewhere

/-- Supplies change, and no witness gets a feed it did not publish. -/
structure Elsewhere (db db' : FeedDatabase) : Prop where
  feedHistory : db'.feedHistory = db.feedHistory
  sbdExchangeRate : ∀ w ∈ db'.witnesses.rows, w.sbdExchangeRate = .null ∨
    ∃ w' ∈ db.witnesses.rows, w.sbdExchangeRate = w'.sbdExchangeRate
  currentSbdSupply : 0 ≤ db'.currentSbdSupply ∧ db'.currentSbdSupply ≤ maxInt64
  currentSupply : 0 ≤ db'.currentSupply ∧ db'.currentSupply ≤ maxInt64

def Step (db : FeedDatabase) : Event → FeedDatabase → Prop
  | .publish o, db' =>
    (o.exchangeRate.base.amount ≤ maxInt64 ∧ o.exchangeRate.quote.amount ≤ maxInt64) ∧
      db.feedPublish o = .ok db'
  | .updateMedianFeed, db' => db.updateMedianFeed = .ok db'
  | .elsewhere, db' => db.Elsewhere db'

end FeedDatabase

def feedSystem : TransitionSystem FeedDatabase FeedDatabase.Event where
  initial db := (∀ w ∈ db.witnesses.rows, w.sbdExchangeRate = .null) ∧ db.feedHistory = {} ∧
    (0 ≤ db.currentSbdSupply ∧ db.currentSbdSupply ≤ maxInt64) ∧
    0 ≤ db.currentSupply ∧ db.currentSupply ≤ maxInt64
  step := FeedDatabase.Step

namespace FeedDatabase

variable {db db' : FeedDatabase} {feeds : List Price} {p : Price}

/-- The event does not use a feed that is GOLOS for GBG. -/
def GbgBased (db : FeedDatabase) : Event → Prop
  | .updateMedianFeed => ∀ feeds, db.freshFeeds = .ok feeds → ∀ p ∈ feeds, p.IsGbgBased
  | _ => True

/-- Witnesses have published feeds, and the history is of GBG for GOLOS. -/
structure Priced (db : FeedDatabase) : Prop where
  sbdExchangeRate : ∀ w ∈ db.witnesses.rows, w.sbdExchangeRate = .null ∨ w.sbdExchangeRate.IsFeed
  priceHistory : ∀ p ∈ db.feedHistory.priceHistory, p.IsFeed ∧ p.IsGbgBased
  currentSbdSupply : 0 ≤ db.currentSbdSupply ∧ db.currentSbdSupply ≤ maxInt64
  currentSupply : 0 ≤ db.currentSupply ∧ db.currentSupply ≤ maxInt64

theorem isFeed_of_validate {o : FeedPublishOperation} (h : o.validate = .ok ())
    (hmax : o.exchangeRate.base.amount ≤ maxInt64 ∧ o.exchangeRate.quote.amount ≤ maxInt64) :
    o.exchangeRate.IsFeed := by
  simp only [FeedPublishOperation.validate, Price.validate, bind_eq_ok, ensure_eq_ok] at h
  obtain ⟨_, -, _, hsymbols, _, hbase, _, hquote, hnames⟩ := h
  exact ⟨⟨hbase, hmax.1, hquote, hmax.2, hnames⟩, hsymbols⟩

theorem priced_of_publish {o : FeedPublishOperation}
    (hmax : o.exchangeRate.base.amount ≤ maxInt64 ∧ o.exchangeRate.quote.amount ≤ maxInt64)
    (h : db.feedPublish o = .ok db') (hdb : db.Priced) : db'.Priced := by
  simp only [feedPublish, bind_eq_ok, pure_eq_ok] at h
  obtain ⟨_, hvalid, _, -, rfl⟩ := h
  refine ⟨fun w hw => ?_, hdb.priceHistory, hdb.currentSbdSupply, hdb.currentSupply⟩
  dsimp only at hw
  rw [Table.mem_modify] at hw
  rcases hw with ⟨hw, -⟩ | ⟨w', -, -, rfl⟩
  . exact hdb.sbdExchangeRate w hw
  . exact .inr (isFeed_of_validate hvalid hmax)

theorem priced_of_elsewhere (h : db.Elsewhere db') (hdb : db.Priced) : db'.Priced := by
  refine ⟨fun w hw => ?_, ?_, h.currentSbdSupply, h.currentSupply⟩
  . rcases h.sbdExchangeRate w hw with hnull | ⟨w', hw', heq⟩
    . exact .inl hnull
    . rw [heq]
      exact hdb.sbdExchangeRate w' hw'
  . rw [h.feedHistory]
    exact hdb.priceHistory

theorem isFeed_of_freshFeeds (hdb : db.Priced) (h : db.freshFeeds = .ok feeds) (hp : p ∈ feeds) :
    p.IsFeed := by
  simp only [freshFeeds, bind_eq_ok, pure_eq_ok] at h
  obtain ⟨scheduled, hscheduled, rfl⟩ := h
  obtain ⟨w, hw, rfl⟩ := List.mem_map.mp hp
  rw [List.mem_filter, decide_eq_true_iff] at hw
  obtain ⟨hw, -, hnull⟩ := hw
  rw [mapM_eq_ok] at hscheduled
  obtain ⟨name, hname⟩ : ∃ name, db.getWitness name = .ok w := by
    obtain ⟨i, hi, rfl⟩ := List.mem_iff_getElem.mp hw
    exact ⟨_, hscheduled.get (hscheduled.length_eq ▸ hi) hi⟩
  unfold getWitness at hname
  rw [get_eq_ok] at hname
  rcases hdb.sbdExchangeRate w (Table.mem_of_find? hname) with heq | hfeed
  . rw [heq] at hnull
    exact absurd ⟨rfl, rfl, rfl⟩ hnull
  . exact hfeed

theorem mem_pushPrice {history : List Price} {q : Price} (h : q ∈ pushPrice history p) :
    q ∈ history ∨ q = p := by
  unfold pushPrice at h
  split at h
  . have := List.mem_of_mem_tail h
    simpa using this
  . simpa using h

theorem pushPrice_ne_nil {history : List Price} : pushPrice history p ≠ [] := by
  unfold pushPrice
  split
  . next h =>
    rw [← List.length_pos_iff, List.length_tail]
    unfold steemitFeedHistoryWindow at h
    omega
  . simp

/-- The debt is worth more than a tenth of the market cap at the price. -/
def IsBelowMinPrice (db : FeedDatabase) (p : Price) : Prop :=
  p.gbg * db.currentSupply < 10 * db.currentSbdSupply * p.golos

instance : Decidable (db.IsBelowMinPrice p) :=
  inferInstanceAs (Decidable (_ < _))

/-- What an update has to make of the feeds it takes. -/
structure UpdatedWith (feeds : List Price) (db db' : FeedDatabase) : Prop where
  priceHistory : ∃ p, Price.IsMedian feeds p ∧
    db'.feedHistory.priceHistory = pushPrice db.feedHistory.priceHistory p
  witnessMedian : Price.IsMedian db'.feedHistory.priceHistory db'.feedHistory.witnessMedianHistory
  currentMedian : ¬db.IsBelowMinPrice db'.feedHistory.currentMedianHistory
  isForcedMinPrice : db'.isForcedMinPrice = true ↔
    db'.feedHistory.currentMedianHistory ≠ db'.feedHistory.witnessMedianHistory

/-- A valid price of GBG is below the bound just if the code finds it there. -/
theorem gt_iff_isBelowMinPrice {minPrice : Price} (hdb : db.Priced)
    (hmin : db.minPrice = .ok minPrice) (hfeed : p.IsFeed) (hgbg : p.IsGbgBased) :
    minPrice.gt p ↔ db.IsBelowMinPrice p := by
  simp only [FeedDatabase.minPrice, bind_eq_ok, pure_eq_ok, int64_eq_ok] at hmin
  obtain ⟨sbd, ⟨hsbd, rfl⟩, rfl⟩ := hmin
  have hvalid := hfeed.toValid
  have hsupply : 0 ≤ 10 * db.currentSbdSupply := Int.mul_nonneg (by decide) hdb.currentSbdSupply.1
  rw [Price.gt_iff_of_symbols hgbg.symm (hfeed.quote_of_gbgBased hgbg).symm
    ⟨hsupply, hsbd.2⟩ hdb.currentSupply
    ⟨hvalid.base_pos.le, hvalid.base_le⟩ ⟨hvalid.quote_pos.le, hvalid.quote_le⟩]
  unfold IsBelowMinPrice Price.gbg Price.golos
  rw [if_pos hgbg, if_pos hgbg, Int.mul_comm db.currentSupply, Int.mul_comm p.quote.amount]

theorem minPrice_isGbgBased {minPrice : Price} (h : db.minPrice = .ok minPrice) :
    minPrice.IsGbgBased ∧ minPrice.gbg = 10 * db.currentSbdSupply ∧
      minPrice.golos = db.currentSupply := by
  simp only [FeedDatabase.minPrice, bind_eq_ok, pure_eq_ok, int64_eq_ok] at h
  obtain ⟨_, ⟨-, rfl⟩, rfl⟩ := h
  exact ⟨rfl, rfl, rfl⟩

section pushMedianFeed

variable (hdb : db.Priced) (hfeeds : ∀ q ∈ feeds, q.IsFeed ∧ q.IsGbgBased) (hne : feeds ≠ [])
include hdb hfeeds hne

theorem isFeed_of_pushPrice :
    ∀ q ∈ pushPrice db.feedHistory.priceHistory (Price.median feeds),
      q.IsFeed ∧ q.IsGbgBased := by
  intro q hq
  rcases mem_pushPrice hq with hq | rfl
  . exact hdb.priceHistory q hq
  . exact hfeeds _ (Price.median_mem hne)

theorem priced_of_pushMedianFeed (h : db.pushMedianFeed feeds = .ok db') : db'.Priced := by
  simp only [pushMedianFeed, bind_eq_ok, pure_eq_ok] at h
  obtain ⟨_, -, rfl⟩ := h
  exact ⟨hdb.sbdExchangeRate, isFeed_of_pushPrice hdb hfeeds hne, hdb.currentSbdSupply,
    hdb.currentSupply⟩

/-- With feeds of GBG for GOLOS an update finds the medians, and keeps to the bound. -/
theorem updatedWith_of_pushMedianFeed (h : db.pushMedianFeed feeds = .ok db') :
    db.UpdatedWith feeds db' := by
  simp only [pushMedianFeed, bind_eq_ok, pure_eq_ok] at h
  obtain ⟨minPrice, hmin, rfl⟩ := h
  have hhistory := isFeed_of_pushPrice hdb hfeeds hne
  have hmedian := Price.isMedian_median pushPrice_ne_nil (fun q hq => (hhistory q hq).1)
    fun q hq => (hhistory q hq).2
  have hgbg := hhistory _ hmedian.1
  have hbelow := gt_iff_isBelowMinPrice hdb hmin hgbg.1 hgbg.2
  obtain ⟨-, hminGbg, hminGolos⟩ := minPrice_isGbgBased hmin
  refine ⟨⟨_, Price.isMedian_median hne (fun q hq => (hfeeds q hq).1) fun q hq => (hfeeds q hq).2,
    rfl⟩, hmedian, ?_, ?_⟩
  . dsimp only
    split
    . unfold IsBelowMinPrice
      rw [hminGbg, hminGolos]
      exact Int.lt_irrefl _
    . next hgt => rwa [decide_eq_true_iff, hbelow] at hgt
  . dsimp only
    constructor
    . intro hgt
      rw [if_pos hgt]
      intro heq
      rw [decide_eq_true_iff, hbelow, ← heq, IsBelowMinPrice, hminGbg, hminGolos] at hgt
      exact Int.lt_irrefl _ hgt
    . intro hcurrent
      by_contra hgt
      rw [if_neg hgt] at hcurrent
      exact hcurrent rfl

end pushMedianFeed

theorem ne_nil_of_minFeeds (h : steemitMinFeeds ≤ feeds.length) : feeds ≠ [] := by
  rintro rfl
  cases h

/-- An update takes place. -/
def Updates (db : FeedDatabase) (feeds : List Price) : Prop :=
  db.headBlockNum % steemitFeedIntervalBlocks = 0 ∧ steemitMinFeeds ≤ feeds.length

instance : Decidable (db.Updates feeds) :=
  inferInstanceAs (Decidable (_ ∧ _))

theorem updateMedianFeed_cases (h : db.updateMedianFeed = .ok db')
    (hfeeds : db.freshFeeds = .ok feeds) :
    (db.Updates feeds ∧ db.pushMedianFeed feeds = .ok db') ∨ (¬db.Updates feeds ∧ db' = db) := by
  unfold updateMedianFeed at h
  split at h
  . next hnum =>
    injection h with h
    exact .inr ⟨fun hupdates => hnum hupdates.1, h.symm⟩
  . next hnum =>
    rw [hfeeds, ok_bind] at h
    rw [not_not] at hnum
    split at h
    . next hmin => exact .inl ⟨⟨hnum, hmin⟩, h⟩
    . next hmin =>
      injection h with h
      exact .inr ⟨fun hupdates => hmin hupdates.2, h.symm⟩

theorem priced_of_updateMedianFeed (hdb : db.Priced) (hgbg : db.GbgBased .updateMedianFeed)
    (h : db.updateMedianFeed = .ok db') : db'.Priced := by
  cases hfeeds : db.freshFeeds with
  | error e =>
    unfold updateMedianFeed at h
    rw [hfeeds] at h
    split at h
    . injection h with h
      exact h ▸ hdb
    . cases h
  | ok feeds =>
    rcases updateMedianFeed_cases h hfeeds with ⟨hupdates, hpush⟩ | ⟨-, rfl⟩
    . exact priced_of_pushMedianFeed hdb
        (fun p hp => ⟨isFeed_of_freshFeeds hdb hfeeds hp, hgbg feeds hfeeds p hp⟩)
        (ne_nil_of_minFeeds hupdates.2) hpush
    . exact hdb

theorem priced_of_reach (h : feedSystem.Reach GbgBased db) : db.Priced := by
  apply h.invariant
  . rintro db ⟨hwitnesses, hhistory, hsbd, hsupply⟩
    refine ⟨fun w hw => .inl (hwitnesses w hw), ?_, hsbd, hsupply⟩
    rw [hhistory]
    intro p hp
    cases hp
  . rintro db (o | _ | _) db' hdb hok hstep
    . exact priced_of_publish hstep.1 hstep.2 hdb
    . exact priced_of_updateMedianFeed hdb hok hstep
    . exact priced_of_elsewhere hstep hdb

section seven

/-- Seven scheduled witnesses, before they publish. -/
def seven : FeedDatabase where
  witnesses :=
    ⟨[{ owner := "alice" }, { owner := "bobby" }, { owner := "carol" }, { owner := "david" },
      { owner := "emily" }, { owner := "frank" }, { owner := "grace" }], by decide⟩
  scheduledWitnesses := ["alice", "bobby", "carol", "david", "emily", "frank", "grace"]
  headBlockTime := 1
  currentSbdSupply := 1000
  currentSupply := 1000

def publishAll (db : FeedDatabase) (feeds : List FeedPublishOperation) : Result FeedDatabase :=
  feeds.foldlM feedPublish db

/-- Feeds of GBG for GOLOS. -/
def gbgFeeds : List FeedPublishOperation :=
  (seven.scheduledWitnesses.zip [1, 2, 3, 4, 5, 6, 7]).map fun x =>
    ⟨x.1, ⟨x.2, sbdSymbol⟩, ⟨1, steemSymbol⟩⟩

/-- Half a GBG for a GOLOS, and six feeds the other way round. -/
def mixedFeeds : List FeedPublishOperation :=
  ⟨"alice", ⟨1, sbdSymbol⟩, ⟨2, steemSymbol⟩⟩ ::
    (seven.scheduledWitnesses.tail.zip [1, 2, 3, 4, 5, 6]).map fun x =>
      ⟨x.1, ⟨1, steemSymbol⟩, ⟨x.2, sbdSymbol⟩⟩

theorem reach_publishAll {ok : FeedDatabase → Event → Prop} {ops : List FeedPublishOperation}
    (h : feedSystem.Reach ok db) (hok : ∀ db o, ok db (.publish o))
    (hmax : ∀ o ∈ ops, o.exchangeRate.base.amount ≤ maxInt64 ∧
      o.exchangeRate.quote.amount ≤ maxInt64)
    (hdb : db.publishAll ops = .ok db') : feedSystem.Reach ok db' := by
  have hevents : ∀ o ∈ ops, ∀ db db' : FeedDatabase, db.feedPublish o = .ok db' →
      feedSystem.step db (.publish o) db' :=
    fun o ho _ _ hpublish => ⟨hmax o ho, hpublish⟩
  exact h.operations hevents (.of_forall (fun db o => hok db o) _ _) hdb

theorem reach_seven {ok : FeedDatabase → Event → Prop} : feedSystem.Reach ok seven :=
  .initial ⟨by decide, rfl, by decide, by decide⟩

def gbgPublished : FeedDatabase :=
  (seven.publishAll gbgFeeds).toOption.getD seven

def mixedPublished : FeedDatabase :=
  (seven.publishAll mixedFeeds).toOption.getD seven

end seven

end FeedDatabase

end Golos
