import Golos.Lib.Transition
import Golos.Market.Lemmas.Match
import Golos.Plugins.Lemmas.MarketHistory

/-!
This module contains the runs of filled orders, and what the buckets are worth in all of them.
-/

namespace Golos

open Checked

/-- Both sides of a match pay something. -/
theorem Exchange.valid_filled {x : Exchange} {n o : LimitOrderObject} {m : Match}
    (hn : x.findLimitOrder n.id = some n) (ho : x.findLimitOrder o.id = some o)
    (hnlive : n.Live) (holive : o.Live) (hopp : n.sellPrice.Opposite o.sellPrice)
    (hcompat : n.sellPrice.Compatible o.sellPrice) (h : x.match' n o o.sellPrice = .ok m) :
    m.filled.Valid := by
  obtain ⟨newReceives, oldReceives, hamounts, hm⟩ := matches_of_match' hn ho hnlive holive h
  obtain ⟨hnew, hold⟩ := fair_of_matchAmounts hnlive holive hopp.1 hcompat hamounts
  have hpositive : 0 < newReceives.amount ∧ 0 < oldReceives.amount := by
    rcases hm.full with hfull | hfull
    . rw [hfull] at hnew ⊢
      exact ⟨hnlive.asks_pos.trans_le hnew, hnlive.forSale_pos⟩
    . rw [hfull] at hold ⊢
      exact ⟨holive.forSale_pos, holive.asks_pos.trans_le hold⟩
  constructor
  . rw [hm.openPays]
    exact hpositive.1
  . rw [hm.openPays]
    exact hm.old_le.trans holive.forSale_le
  . rw [hm.currentPays]
    exact hpositive.2
  . rw [hm.currentPays]
    exact hm.new_le.trans hnlive.forSale_le
  . rw [hm.openPays, hm.currentPays, hopp.1]
    exact holive.price.names

namespace MarketHistoryDatabase

variable {plugin : MarketHistoryPlugin} {db db' : MarketHistoryDatabase} {op : FillOrderOperation}

inductive Event where
  | fillOrder (op : FillOrderOperation)
  | block (time : Nat)

def Step (plugin : MarketHistoryPlugin) (db : MarketHistoryDatabase) :
    Event → MarketHistoryDatabase → Prop
  | .fillOrder op, db' => op.Valid ∧ db.updateMarketHistories plugin op = .ok db'
  | .block time, db' =>
    db.headBlockTime ≤ time ∧ time < 2 ^ 32 ∧ db' = { db with headBlockTime := time }

/-- The runs of fills, in blocks whose times are of 32 bits and do not go down. -/
def filling (plugin : MarketHistoryPlugin) : TransitionSystem MarketHistoryDatabase Event where
  initial db := db.buckets = .empty ∧ db.orderHistory = [] ∧ db.headBlockTime < 2 ^ 32
  step := Step plugin

/-- The window of a period that the current time is in. -/
def currentBucket (db : MarketHistoryDatabase) (op : FillOrderOperation) (seconds : Nat) :
    BucketKey :=
  let pair := getSymbolTypePair op.openPays op.currentPays
  ⟨pair.1, pair.2, seconds, db.headBlockTime / seconds * seconds⟩

/-- The fills so far, and one more. -/
def historyWith (db : MarketHistoryDatabase) (op : FillOrderOperation) : List OrderHistoryObject :=
  db.orderHistory ++ [⟨db.headBlockTime, op⟩]

/--
No period is zero, the time is past the maximum history of every period whose current window has a
bucket already, and the volumes of the current windows fit into 64 bits.
-/
structure InRange (plugin : MarketHistoryPlugin) (db : MarketHistoryDatabase)
    (op : FillOrderOperation) : Prop where
  history : plugin.maximumHistoryPerBucketSize ≠ 0
  period : ∀ seconds ∈ plugin.trackedBuckets, seconds ≠ 0 ∧
    ∀ b, (db.currentBucket op seconds, b) ∈ db.buckets →
      seconds * plugin.maximumHistoryPerBucketSize ≤ db.headBlockTime
  volume : ∀ seconds ∈ plugin.trackedBuckets,
    let fills := fillsOf (db.historyWith op) (db.currentBucket op seconds)
    (fills.map Prod.fst).sum ≤ maxInt64 ∧ (fills.map Prod.snd).sum ≤ maxInt64

def InRangeEvent (plugin : MarketHistoryPlugin) (db : MarketHistoryDatabase) : Event → Prop
  | .fillOrder op => db.InRange plugin op
  | .block _ => True

/-- One bucket for every window with a fill, unless it is outdated. -/
structure CandlesRight (plugin : MarketHistoryPlugin) (db : MarketHistoryDatabase) : Prop where
  bucket : ∀ k b, (k, b) ∈ db.buckets →
    k.seconds ∈ plugin.trackedBuckets ∧ IsCandle (fillsOf db.orderHistory k) b ∧
      fillRatio (b.lowAsset1, b.lowAsset2) ≤ fillRatio (b.highAsset1, b.highAsset2)
  unique : ∀ k b c, (k, b) ∈ db.buckets → (k, c) ∈ db.buckets → b = c
  present : ∀ k, k.seconds ∈ plugin.trackedBuckets → Oriented k.sym1 k.sym2 →
    fillsOf db.orderHistory k ≠ [] →
      (∃ b, (k, b) ∈ db.buckets) ∨ Outdated plugin db.orderHistory k

/-- A fill only removes buckets of its pair that are older than the maximum history. -/
def TrimsOld (plugin : MarketHistoryPlugin) (op : FillOrderOperation)
    (db db' : MarketHistoryDatabase) : Prop :=
  ∀ k b, (k, b) ∈ db.buckets → (∀ c, (k, c) ∉ db'.buckets) →
    (k.sym1, k.sym2) = getSymbolTypePair op.openPays op.currentPays ∧
      0 < plugin.maximumHistoryPerBucketSize ∧
        (k.openTime : ℤ) < db.headBlockTime - k.seconds * plugin.maximumHistoryPerBucketSize

section update

/-- The loop over the periods. -/
theorem foldlM_updateBucket {history : List OrderHistoryObject} {periods : List Nat}
    (h : ∀ seconds ∈ periods, Summarises plugin history db.buckets seconds)
    (hnodup : periods.Nodup) (hvalid : ∀ o ∈ history, o.op.Valid)
    (htimes : ∀ o ∈ history, o.time ≤ db.headBlockTime) (hop : op.Valid)
    (hclock : db.headBlockTime < 2 ^ 32)
    (hperiod : ∀ seconds ∈ periods, seconds ≠ 0 ∧
      ∀ b, (db.currentBucket op seconds, b) ∈ db.buckets →
        seconds * plugin.maximumHistoryPerBucketSize ≤ db.headBlockTime)
    (hvolume : ∀ seconds ∈ periods,
      let fills := fillsOf (history ++ [⟨db.headBlockTime, op⟩]) (db.currentBucket op seconds)
      (fills.map Prod.fst).sum ≤ maxInt64 ∧ (fills.map Prod.snd).sum ≤ maxInt64) :
    let pair := getSymbolTypePair op.openPays op.currentPays
    ∃ buckets',
      periods.foldlM (fun db bucket => db.updateBucket plugin op pair.1 pair.2 bucket) db =
        .ok { db with buckets := buckets' } ∧
      (∀ e, e.1.seconds ∉ periods → (e ∈ buckets' ↔ e ∈ db.buckets)) ∧
      (∀ seconds ∈ periods,
        Summarises plugin (history ++ [⟨db.headBlockTime, op⟩]) buckets' seconds) ∧
      TrimsOld plugin op db { db with buckets := buckets' } := by
  intro pair
  induction periods generalizing db with
  | nil =>
    refine ⟨db.buckets, rfl, fun _ _ => Iff.rfl, ?_, ?_⟩
    . intro seconds hmem
      cases hmem
    . intro k b hmem hgone
      exact absurd hmem (hgone b)
  | cons seconds periods ih =>
    obtain ⟨hnotin, hnodup⟩ := List.nodup_cons.mp hnodup
    obtain ⟨hseconds, hfits⟩ := hperiod seconds List.mem_cons_self
    obtain ⟨buckets₁, hturn, hkept, hsummarises, hremoved⟩ := updateBucket_eq_ok
      (h seconds List.mem_cons_self) hvalid htimes hop (Prod.mk.eta (p := pair)).symm hseconds hclock
      hfits (by
        rintro k rfl
        exact hvolume seconds List.mem_cons_self)
    have hne : ∀ s ∈ periods, s ≠ seconds := by
      rintro s hs rfl
      exact hnotin hs
    obtain ⟨buckets₂, hrest, hkept₂, hsummarises₂, hremoved₂⟩ := @ih
      { db with buckets := buckets₁ }
      (fun s hs => (h s (List.mem_cons_of_mem _ hs)).congr fun e he => hkept e (he ▸ hne s hs))
      hnodup htimes hclock
      (fun s hs =>
        ⟨(hperiod s (List.mem_cons_of_mem _ hs)).1, fun b hb =>
          (hperiod s (List.mem_cons_of_mem _ hs)).2 b ((hkept _ (hne s hs)).mp hb)⟩)
      (fun s hs => hvolume s (List.mem_cons_of_mem _ hs))
    refine ⟨buckets₂, ?_, ?_, ?_, ?_⟩
    . rw [List.foldlM_cons, hturn]
      exact hrest
    . intro e he
      rw [List.mem_cons, not_or] at he
      exact (hkept₂ e he.2).trans (hkept e he.1)
    . intro s hs
      rcases List.mem_cons.mp hs with rfl | hs
      . exact hsummarises.congr fun e he => hkept₂ e (he ▸ hnotin)
      . exact hsummarises₂ s hs
    . intro k b hmem hgone
      by_cases hfirst : ∃ c, (k, c) ∈ buckets₁
      . obtain ⟨c, hc⟩ := hfirst
        exact hremoved₂ k c hc hgone
      . have hk : k.seconds = seconds := by
          by_contra hk
          exact hfirst ⟨b, (hkept (k, b) hk).mpr hmem⟩
        obtain ⟨hpair, hpos, hold⟩ := hremoved k b hmem hk (fun c hc => hfirst ⟨c, hc⟩)
        exact ⟨hpair, hpos, by rw [hk]; exact hold⟩

end update

section runs

/-- What every run with fills in range keeps. -/
structure Summarised (plugin : MarketHistoryPlugin) (db : MarketHistoryDatabase) : Prop where
  summarises : ∀ seconds ∈ plugin.trackedBuckets,
    Summarises plugin db.orderHistory db.buckets seconds
  tracked : ∀ e ∈ db.buckets, e.1.seconds ∈ plugin.trackedBuckets
  valid : ∀ o ∈ db.orderHistory, o.op.Valid
  times : ∀ o ∈ db.orderHistory, o.time ≤ db.headBlockTime
  clock : db.headBlockTime < 2 ^ 32

theorem updateMarketHistories_eq_ok (hdb : db.Summarised plugin) (hop : op.Valid)
    (hrange : db.InRange plugin op) :
    ∃ db', db.updateMarketHistories plugin op = .ok db' ∧ db'.Summarised plugin ∧
      TrimsOld plugin op db db' := by
  obtain ⟨buckets', hfold, hkept, hsummarises, htrims⟩ := @foldlM_updateBucket plugin
    { db with orderHistory := db.historyWith op } op db.orderHistory plugin.trackedBuckets
    hdb.summarises (plugin.sorted.imp fun hlt => ne_of_lt hlt) hdb.valid hdb.times hop hdb.clock
    hrange.period hrange.volume
  have hvalid : ∀ o ∈ db.historyWith op, o.op.Valid := by
    intro o ho
    rcases List.mem_append.mp ho with ho | ho
    . exact hdb.valid o ho
    . rw [List.mem_singleton.mp ho]
      exact hop
  have htimes : ∀ o ∈ db.historyWith op, o.time ≤ db.headBlockTime := by
    intro o ho
    rcases List.mem_append.mp ho with ho | ho
    . exact hdb.times o ho
    . rw [List.mem_singleton.mp ho]
  refine ⟨{ db with orderHistory := db.historyWith op, buckets := buckets' }, ?_, ?_, htrims⟩
  . unfold updateMarketHistories
    split
    . next h =>
      have hnil := h.resolve_left hrange.history
      rw [hnil] at hfold
      exact hfold
    . exact hfold
  . refine ⟨hsummarises, ?_, hvalid, htimes, hdb.clock⟩
    intro e he
    by_contra hnot
    exact hnot (hdb.tracked e ((hkept e hnot).mp he))

theorem summarised_of_reach (h : (filling plugin).Reach (InRangeEvent plugin) db) :
    db.Summarised plugin := by
  apply h.invariant
  . rintro db ⟨hbuckets, hhistory, hclock⟩
    refine ⟨?_, ?_, ?_, ?_, hclock⟩
    . intro seconds _
      rw [hbuckets, hhistory]
      refine ⟨?_, ?_⟩
      . intro k b hmem
        cases hmem
      . intro k _ _ hfills
        exact absurd rfl hfills
    . rw [hbuckets]
      intro e he
      cases he
    . rw [hhistory]
      intro o ho
      cases ho
    . rw [hhistory]
      intro o ho
      cases ho
  . rintro db (op | time) db' hdb hok hstep
    . obtain ⟨hop, hupdate⟩ := hstep
      obtain ⟨db₁, hdb₁, hsummarised, -⟩ := updateMarketHistories_eq_ok hdb hop hok
      rw [hupdate] at hdb₁
      exact Except.ok.inj hdb₁ ▸ hsummarised
    . obtain ⟨hle, hclock, rfl⟩ := hstep
      refine ⟨hdb.summarises, hdb.tracked, hdb.valid, ?_, hclock⟩
      intro o ho
      exact (hdb.times o ho).trans hle

theorem Summarised.candlesRight (h : db.Summarised plugin) : db.CandlesRight plugin where
  bucket := by
    intro k b hmem
    have htracked := h.tracked _ hmem
    have hcandle := ((h.summarises _ htracked).bucket k b hmem rfl).2
    exact ⟨htracked, hcandle, hcandle.low_le_high⟩
  unique := by
    intro k b c hb hc
    exact congrArg Prod.snd (FlatMap.eq_of_mem hb hc rfl)
  present := by
    intro k htracked hpair hfills
    exact (h.summarises _ htracked).present k rfl hpair hfills

end runs

section sides

variable {op' : FillOrderOperation}

theorem amounts_of_swapped (hop : op.Valid) (hopen : op'.openPays = op.currentPays)
    (hcurrent : op'.currentPays = op.openPays) (sym1 sym2 : AssetSymbolType) :
    op'.amounts sym1 sym2 = op.amounts sym1 sym2 := by
  unfold FillOrderOperation.amounts
  rw [hopen, hcurrent]
  by_cases h : op.openPays.symbol = sym1 ∧ op.currentPays.symbol = sym2
  . rw [if_pos h, if_neg]
    . rw [if_pos h]
    . rintro ⟨h1, -⟩
      exact hop.names (congrArg symbolName (h.1.trans h1.symm))
  . rw [if_neg h, if_neg h]

theorem valid_of_swapped (hop : op.Valid) (hopen : op'.openPays = op.currentPays)
    (hcurrent : op'.currentPays = op.openPays) : op'.Valid := by
  constructor
  . rw [hopen]
    exact hop.current_pos
  . rw [hopen]
    exact hop.current_le
  . rw [hcurrent]
    exact hop.open_pos
  . rw [hcurrent]
    exact hop.open_le
  . rw [hopen, hcurrent]
    exact hop.names.symm

theorem trim_withHistory (history : List OrderHistoryObject) (k : BucketKey) :
    { db with orderHistory := history }.trim plugin k =
      (db.trim plugin k).map fun db => { db with orderHistory := history } := by
  have hmap : ∀ (x : Result (FlatMap BucketKey BucketObject))
      (f : FlatMap BucketKey BucketObject → Result MarketHistoryDatabase)
      (g : MarketHistoryDatabase → MarketHistoryDatabase),
      (x >>= f).map g = x >>= fun a => (f a).map g := by
    intro x f g
    cases x
    all_goals rfl
  unfold trim
  rw [hmap]
  rfl

/-- The turn of the loop for one period only looks at the amounts, and not at the history. -/
theorem updateBucket_swapped (hop : op.Valid) (hopen : op'.openPays = op.currentPays)
    (hcurrent : op'.currentPays = op.openPays) {sym1 sym2 : AssetSymbolType}
    (hpair : getSymbolTypePair op.openPays op.currentPays = (sym1, sym2))
    (history : List OrderHistoryObject) (seconds : Nat) :
    { db with orderHistory := history }.updateBucket plugin op' sym1 sym2 seconds =
      (db.updateBucket plugin op sym1 sym2 seconds).map fun db =>
        { db with orderHistory := history } := by
  generalize hk : (⟨sym1, sym2, seconds, db.headBlockTime / seconds * seconds⟩ : BucketKey) = k
  have horiented : Oriented k.sym1 k.sym2 := by
    have := oriented_getSymbolTypePair hop.names
    rw [hpair] at this
    rwa [← hk]
  have hkpair : getSymbolTypePair op.openPays op.currentPays = (k.sym1, k.sym2) := by
    rw [hpair, ← hk]
  obtain ⟨fill, hfill⟩ :=
    Option.isSome_iff_exists.mp ((hop.amounts_isSome_iff horiented).mpr hkpair)
  have hop' := valid_of_swapped hop hopen hcurrent
  have hfill' := (amounts_of_swapped hop hopen hcurrent k.sym1 k.sym2).trans hfill
  have hcreate : BucketObject.create op' k = .create op k := by
    rw [create_eq hop hfill, create_eq hop' hfill']
  have hmodify : ∀ b, BucketObject.modify op' k b = b.modify op k := by
    intro b
    rw [modify_eq hop hfill, modify_eq hop' hfill']
  unfold updateBucket
  dsimp only
  rw [hk, hcreate]
  cases (ensure (seconds ≠ 0) (.internalError "division by zero") : Result Unit) with
  | error e => rfl
  | ok _ =>
    rw [ok_bind, ok_bind]
    cases db.buckets.find? k with
    | none => rfl
    | some b =>
      dsimp only
      rw [hmodify]
      cases b.modify op k with
      | error e => rfl
      | ok b' =>
        rw [ok_bind, ok_bind]
        split
        . exact @trim_withHistory plugin { db with buckets := db.buckets.set k b' } history k
        . rfl

theorem foldlM_swapped (hop : op.Valid) (hopen : op'.openPays = op.currentPays)
    (hcurrent : op'.currentPays = op.openPays) {sym1 sym2 : AssetSymbolType}
    (hpair : getSymbolTypePair op.openPays op.currentPays = (sym1, sym2))
    (history : List OrderHistoryObject) (periods : List Nat) :
    periods.foldlM (fun db bucket => updateBucket plugin op' db sym1 sym2 bucket)
        { db with orderHistory := history } =
      (periods.foldlM (fun db bucket => updateBucket plugin op db sym1 sym2 bucket) db).map
        fun db => { db with orderHistory := history } := by
  induction periods generalizing db with
  | nil => rfl
  | cons seconds periods ih =>
    rw [List.foldlM_cons, List.foldlM_cons,
      updateBucket_swapped hop hopen hcurrent hpair history seconds]
    cases db.updateBucket plugin op sym1 sym2 seconds with
    | error e => rfl
    | ok db₁ => exact ih

/-- Which side of a fill rested makes no difference. -/
theorem updateMarketHistories_swapped (hop : op.Valid) (hopen : op'.openPays = op.currentPays)
    (hcurrent : op'.currentPays = op.openPays) (h : db.updateMarketHistories plugin op = .ok db') :
    db.updateMarketHistories plugin op' =
      .ok { db' with orderHistory := db.historyWith op' } := by
  unfold updateMarketHistories at h ⊢
  split at h
  . next hnone =>
    rw [if_pos hnone]
    obtain rfl := Except.ok.inj h
    rfl
  . next hsome =>
    rw [if_neg hsome, hopen, hcurrent, getSymbolTypePair_comm hop.names.symm]
    generalize hpair : getSymbolTypePair op.openPays op.currentPays = pair at h
    obtain ⟨sym1, sym2⟩ := pair
    have hfold := @foldlM_swapped plugin { db with orderHistory := db.historyWith op } op op' hop
      hopen hcurrent sym1 sym2 hpair (db.historyWith op') plugin.trackedBuckets
    have h : plugin.trackedBuckets.foldlM
        (fun db bucket => updateBucket plugin op db sym1 sym2 bucket)
        { db with orderHistory := db.historyWith op } = .ok db' := h
    rw [h] at hfold
    exact hfold

end sides

/--
In every run with fills in range the buckets are right, and every further fill in range is taken in,
trims only what is old, and does so whichever of its sides rested.
-/
theorem candles_right (h : (filling plugin).Reach (InRangeEvent plugin) db) :
    db.CandlesRight plugin ∧ ∀ op : FillOrderOperation, op.Valid → db.InRange plugin op →
      ∃ db', db.updateMarketHistories plugin op = .ok db' ∧ db'.CandlesRight plugin ∧
        TrimsOld plugin op db db' ∧
          ∀ op' : FillOrderOperation, op'.openPays = op.currentPays →
            op'.currentPays = op.openPays →
              ∃ db'', db.updateMarketHistories plugin op' = .ok db'' ∧ db''.buckets = db'.buckets := by
  have hdb := summarised_of_reach h
  refine ⟨hdb.candlesRight, ?_⟩
  intro op hop hrange
  obtain ⟨db', hupdate, hdb', htrims⟩ := updateMarketHistories_eq_ok hdb hop hrange
  refine ⟨db', hupdate, hdb'.candlesRight, htrims, ?_⟩
  intro op' hopen hcurrent
  exact ⟨_, updateMarketHistories_swapped hop hopen hcurrent hupdate, rfl⟩

section runs

/-- 1 GBG for 2 GOLOS. -/
def firstFill : FillOrderOperation where
  currentOwner := "alice"
  currentOrderid := 1
  currentPays := ⟨1000, sbdSymbol⟩
  currentTradeFee := ⟨0, steemSymbol⟩
  currentTradeFeeReceiver := ""
  openOwner := "bob"
  openOrderid := 2
  openPays := ⟨2000, steemSymbol⟩
  openTradeFee := ⟨0, sbdSymbol⟩
  openTradeFeeReceiver := ""
  openPrice := ⟨⟨2000, steemSymbol⟩, ⟨1000, sbdSymbol⟩⟩

theorem valid_firstFill : firstFill.Valid :=
  ⟨by decide, by decide, by decide, by decide, by decide +kernel⟩

/-- A period of 30 days. -/
def longPeriod : MarketHistoryPlugin :=
  { trackedBuckets := [2592000] }

def filledAt (plugin : MarketHistoryPlugin) (time : Nat) : MarketHistoryDatabase :=
  ((updateMarketHistories plugin firstFill { headBlockTime := time }).toOption.getD {})

/--
The history of the long period starts before 1970, which is a time to come as a number of 32 bits,
and the walk runs off the index.
-/
theorem long_period_fails :
    ¬∀ (plugin : MarketHistoryPlugin) (db : MarketHistoryDatabase), (filling plugin).Reachable db →
      ∀ op : FillOrderOperation, op.Valid → ∃ db', db.updateMarketHistories plugin op = .ok db' := by
  intro h
  have hstart : (filling longPeriod).Reachable {} := .initial ⟨rfl, rfl, by decide⟩
  have hblock : (filling longPeriod).Reachable { headBlockTime := 1600000000 } :=
    hstart.step (e := .block 1600000000) trivial ⟨by decide, by decide, rfl⟩
  have hfill : (filling longPeriod).Reachable (filledAt longPeriod 1600000000) :=
    hblock.step (e := .fillOrder firstFill) trivial
      ⟨valid_firstFill, eq_ok_of_isSome (by decide +kernel)⟩
  obtain ⟨db', hdb'⟩ := h longPeriod _ hfill firstFill valid_firstFill
  have hsome : (updateMarketHistories longPeriod firstFill
      (filledAt longPeriod 1600000000)).toOption.isSome = true := by
    rw [hdb']
    rfl
  revert hsome
  decide +kernel

/-- The first fill makes a bucket of every period, and one more is taken into these. -/
theorem candles_right_firstFill :
    (filledAt {} 1600000000).CandlesRight {} ∧
      ∃ db', (filledAt {} 1600000000).updateMarketHistories {} firstFill = .ok db' ∧
        db'.CandlesRight {} ∧ TrimsOld {} firstFill (filledAt {} 1600000000) db' := by
  have hstart : (filling {}).Reach (InRangeEvent {}) {} := .initial ⟨rfl, rfl, by decide⟩
  have hblock : (filling {}).Reach (InRangeEvent {}) { headBlockTime := 1600000000 } :=
    hstart.step (e := .block 1600000000) trivial ⟨by decide, by decide, rfl⟩
  have hlong : ∀ seconds ∈ ({} : MarketHistoryPlugin).trackedBuckets,
      seconds ≠ 0 ∧ seconds * (1000 : ℤ) ≤ (1600000000 : Nat) := by
    decide
  have hfirst : InRange {} { headBlockTime := 1600000000 } firstFill :=
    ⟨by decide, fun s hs => ⟨(hlong s hs).1, fun _ _ => (hlong s hs).2⟩, by decide +kernel⟩
  have hfill : (filling {}).Reach (InRangeEvent {}) (filledAt {} 1600000000) :=
    hblock.step (e := .fillOrder firstFill) hfirst
      ⟨valid_firstFill, eq_ok_of_isSome (by decide +kernel)⟩
  have htime : (filledAt {} 1600000000).headBlockTime = 1600000000 := by
    decide +kernel
  have hsecond : InRange {} (filledAt {} 1600000000) firstFill := by
    refine ⟨by decide, ?_, by decide +kernel⟩
    intro s hs
    rw [htime]
    exact ⟨(hlong s hs).1, fun _ _ => (hlong s hs).2⟩
  obtain ⟨hright, hnext⟩ := candles_right hfill
  obtain ⟨db', hupdate, hright', htrims, -⟩ := hnext firstFill valid_firstFill hsecond
  exact ⟨hright, db', hupdate, hright', htrims⟩

end runs

end MarketHistoryDatabase

end Golos
