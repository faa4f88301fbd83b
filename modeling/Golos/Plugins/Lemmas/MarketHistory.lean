import Mathlib.Data.List.Lex
import Golos.Market.PriceOrder
import Golos.Plugins.Impl.MarketHistory

/-!
This module contains candles as the summaries of lists of fills, and that the update of a bucket makes
the candle of one more fill.
-/

namespace Golos

open Checked

/-- What the market fills: positive amounts of two assets. -/
structure FillOrderOperation.Valid (op : FillOrderOperation) : Prop where
  open_pos : 0 < op.openPays.amount
  open_le : op.openPays.amount ≤ maxInt64
  current_pos : 0 < op.currentPays.amount
  current_le : op.currentPays.amount ≤ maxInt64
  names : symbolName op.openPays.symbol ≠ symbolName op.currentPays.symbol

/-- The amounts of `sym1` and `sym2` that a fill of the two exchanges, whichever rested. -/
def FillOrderOperation.amounts (op : FillOrderOperation) (sym1 sym2 : AssetSymbolType) :
    Option (ℤ × ℤ) :=
  if op.openPays.symbol = sym1 ∧ op.currentPays.symbol = sym2 then
    some (op.openPays.amount, op.currentPays.amount)
  else if op.currentPays.symbol = sym1 ∧ op.openPays.symbol = sym2 then
    some (op.currentPays.amount, op.openPays.amount)
  else
    none

/-- The price of a fill as an exact ratio. -/
def fillRatio (fill : ℤ × ℤ) : ℚ :=
  fill.2 / fill.1

/-- The bucket summarises the fills, which are in the order of time. -/
structure IsCandle (fills : List (ℤ × ℤ)) (b : BucketObject) : Prop where
  volume : (b.asset1Volume, b.asset2Volume) = ((fills.map Prod.fst).sum, (fills.map Prod.snd).sum)
  first : fills.head? = some (b.openAsset1, b.openAsset2)
  last : fills.getLast? = some (b.closeAsset1, b.closeAsset2)
  high_mem : (b.highAsset1, b.highAsset2) ∈ fills
  le_high : ∀ fill ∈ fills, fillRatio fill ≤ fillRatio (b.highAsset1, b.highAsset2)
  low_mem : (b.lowAsset1, b.lowAsset2) ∈ fills
  low_le : ∀ fill ∈ fills, fillRatio (b.lowAsset1, b.lowAsset2) ≤ fillRatio fill

theorem IsCandle.low_le_high {fills : List (ℤ × ℤ)} {b : BucketObject} (h : IsCandle fills b) :
    fillRatio (b.lowAsset1, b.lowAsset2) ≤ fillRatio (b.highAsset1, b.highAsset2) :=
  h.le_high _ h.low_mem

/-- The amounts of a fill. -/
def Fills (fill : ℤ × ℤ) : Prop :=
  (0 < fill.1 ∧ fill.1 ≤ maxInt64) ∧ 0 < fill.2 ∧ fill.2 ≤ maxInt64

section bucket

variable {k : BucketKey} {fill fill' : ℤ × ℤ}

theorem isCandle_ofFill (fill : ℤ × ℤ) : IsCandle [fill] (.ofFill fill.1 fill.2) where
  volume := by simp [BucketObject.ofFill]
  first := rfl
  last := rfl
  high_mem := List.mem_singleton_self fill
  le_high := by
    intro fill' hfill'
    rw [List.mem_singleton.mp hfill']
    exact le_refl _
  low_mem := List.mem_singleton_self fill
  low_le := by
    intro fill' hfill'
    rw [List.mem_singleton.mp hfill']
    exact le_refl _

/-- A price of the second asset of a pair in the first. -/
abbrev BucketKey.price (k : BucketKey) (fill : ℤ × ℤ) : Price :=
  ⟨⟨fill.2, k.sym2⟩, ⟨fill.1, k.sym1⟩⟩

theorem valid_price (hnames : symbolName k.sym1 ≠ symbolName k.sym2) (h : Fills fill) :
    (k.price fill).Valid :=
  ⟨h.2.1, h.2.2, h.1.1, h.1.2, hnames.symm⟩

theorem lt_price_iff (hnames : symbolName k.sym1 ≠ symbolName k.sym2) (h : Fills fill)
    (h' : Fills fill') : (k.price fill).lt (k.price fill') ↔ fillRatio fill < fillRatio fill' := by
  rw [Price.lt_iff_rank (valid_price hnames h).positive (valid_price hnames h').positive]
  simp only [Price.rank, Prod.Lex.toLex_lt_toLex, lt_self_iff_false, true_and, false_or]
  rfl

theorem gt_price_iff (hnames : symbolName k.sym1 ≠ symbolName k.sym2) (h : Fills fill)
    (h' : Fills fill') : (k.price fill).gt (k.price fill') ↔ fillRatio fill' < fillRatio fill := by
  rw [Price.gt_iff_rank (valid_price hnames h).positive (valid_price hnames h').positive]
  simp only [Price.rank, Prod.Lex.toLex_lt_toLex, lt_self_iff_false, true_and, false_or]
  rfl

/-- The fields that one more fill leads to. -/
theorem IsCandle.append {b b' : BucketObject} {fills : List (ℤ × ℤ)} (hb : IsCandle fills b)
    (hvolume1 : b'.asset1Volume = b.asset1Volume + fill.1)
    (hvolume2 : b'.asset2Volume = b.asset2Volume + fill.2)
    (hfirst : (b'.openAsset1, b'.openAsset2) = (b.openAsset1, b.openAsset2))
    (hlast : (b'.closeAsset1, b'.closeAsset2) = fill)
    (hhigh : (b'.highAsset1, b'.highAsset2) =
      if fillRatio (b.highAsset1, b.highAsset2) < fillRatio fill then fill
      else (b.highAsset1, b.highAsset2))
    (hlow : (b'.lowAsset1, b'.lowAsset2) =
      if fillRatio fill < fillRatio (b.lowAsset1, b.lowAsset2) then fill
      else (b.lowAsset1, b.lowAsset2)) : IsCandle (fills ++ [fill]) b' where
  volume := by
    obtain ⟨hsum1, hsum2⟩ := Prod.mk.inj hb.volume
    rw [hvolume1, hvolume2, hsum1, hsum2]
    simp
  first := by
    rw [hfirst, List.head?_append, hb.first]
    rfl
  last := by
    rw [hlast, List.getLast?_append]
    rfl
  high_mem := by
    rw [hhigh, List.mem_append]
    split
    . exact .inr (List.mem_singleton_self fill)
    . exact .inl hb.high_mem
  le_high := by
    intro fill' hfill'
    rw [hhigh]
    rcases List.mem_append.mp hfill' with hfill' | hfill'
    . split
      . next hlt => exact (hb.le_high fill' hfill').trans hlt.le
      . exact hb.le_high fill' hfill'
    . rw [List.mem_singleton.mp hfill']
      split
      . exact le_refl _
      . next hle => exact not_lt.mp hle
  low_mem := by
    rw [hlow, List.mem_append]
    split
    . exact .inr (List.mem_singleton_self fill)
    . exact .inl hb.low_mem
  low_le := by
    intro fill' hfill'
    rw [hlow]
    rcases List.mem_append.mp hfill' with hfill' | hfill'
    . split
      . next hlt => exact hlt.le.trans (hb.low_le fill' hfill')
      . exact hb.low_le fill' hfill'
    . rw [List.mem_singleton.mp hfill']
      split
      . exact le_refl _
      . next hle => exact not_lt.mp hle

theorem sum_nonneg_of_fills {fills : List (ℤ × ℤ)} (h : ∀ fill ∈ fills, Fills fill) :
    0 ≤ (fills.map Prod.fst).sum ∧ 0 ≤ (fills.map Prod.snd).sum := by
  constructor
  . apply List.sum_nonneg
    intro x hx
    obtain ⟨fill, hfill, rfl⟩ := List.mem_map.mp hx
    exact (h fill hfill).1.1.le
  . apply List.sum_nonneg
    intro x hx
    obtain ⟨fill, hfill, rfl⟩ := List.mem_map.mp hx
    exact (h fill hfill).2.1.le

/-- One more fill makes the candle of one more fill, unless a volume leaves the range. -/
theorem addFill_candle {b : BucketObject} {fills : List (ℤ × ℤ)} (hb : IsCandle fills b)
    (hfills : ∀ fill ∈ fills, Fills fill) (hnames : symbolName k.sym1 ≠ symbolName k.sym2)
    (hfill : Fills fill) (hvolume1 : ((fills ++ [fill]).map Prod.fst).sum ≤ maxInt64)
    (hvolume2 : ((fills ++ [fill]).map Prod.snd).sum ≤ maxInt64) :
    ∃ b', b.addFill k fill.1 fill.2 (k.price fill) = .ok b' ∧ IsCandle (fills ++ [fill]) b' := by
  have hhigh : b.high k = .ok (k.price (b.highAsset1, b.highAsset2)) := by
    rw [BucketObject.high, Price.div, ensure_eq_ok (u := ())|>.mpr hnames.symm, ok_bind]
    rfl
  have hlow : b.low k = .ok (k.price (b.lowAsset1, b.lowAsset2)) := by
    rw [BucketObject.low, Price.div, ensure_eq_ok (u := ())|>.mpr hnames.symm, ok_bind]
    rfl
  have hrange : ∀ {x : ℤ}, 0 ≤ x → minInt64 ≤ x := by
    intro x hx
    unfold minInt64
    omega
  obtain ⟨hsum1, hsum2⟩ := Prod.mk.inj hb.volume
  obtain ⟨hnonneg1, hnonneg2⟩ := sum_nonneg_of_fills hfills
  rw [List.map_append, List.sum_append, List.map_singleton, List.sum_singleton, ← hsum1] at hvolume1
  rw [List.map_append, List.sum_append, List.map_singleton, List.sum_singleton, ← hsum2] at hvolume2
  rw [← hsum1] at hnonneg1
  rw [← hsum2] at hnonneg2
  unfold BucketObject.addFill
  rw [int64_of_le (hrange (Int.add_nonneg hnonneg1 hfill.1.1.le)) hvolume1, ok_bind,
    int64_of_le (hrange (Int.add_nonneg hnonneg2 hfill.2.1.le)) hvolume2, ok_bind, hhigh, ok_bind,
    hlow, ok_bind]
  refine ⟨_, rfl, ?_⟩
  simp only [lt_price_iff hnames (hfills _ hb.high_mem) hfill,
    gt_price_iff hnames (hfills _ hb.low_mem) hfill]
  apply hb.append
  all_goals split
  all_goals split
  all_goals rfl

end bucket

section pairs

variable {op : FillOrderOperation} {sym1 sym2 : AssetSymbolType}

/-- The symbols are in the order that the plugin gives to a pair. -/
def Oriented (sym1 sym2 : AssetSymbolType) : Prop :=
  getSymbolTypePair ⟨0, sym1⟩ ⟨0, sym2⟩ = (sym1, sym2)

instance (sym1 sym2 : AssetSymbolType) : Decidable (Oriented sym1 sym2) :=
  inferInstanceAs (Decidable (_ = _))

/-- The order of a pair does not depend on which of its assets comes first. -/
theorem getSymbolTypePair_comm {a b : Asset} (h : symbolName a.symbol ≠ symbolName b.symbol) :
    getSymbolTypePair a b = getSymbolTypePair b a := by
  have hne : a.symbol ≠ b.symbol := by
    intro heq
    exact h (congrArg symbolName heq)
  unfold getSymbolTypePair
  by_cases ha : a.symbol = steemSymbol
  . have hb : b.symbol ≠ steemSymbol := by
      intro hb
      exact hne (ha.trans hb.symm)
    simp [ha, hb]
  . by_cases hb : b.symbol = steemSymbol
    . simp [ha, hb]
    . rcases lt_trichotomy (symbolName a.symbol) (symbolName b.symbol) with hlt | heq | hlt
      . simp [ha, hb, hlt, hlt.le.not_gt]
      . exact absurd heq h
      . simp [ha, hb, hlt, hlt.le.not_gt]

theorem getSymbolTypePair_cases (a b : Asset) :
    getSymbolTypePair a b = (a.symbol, b.symbol) ∨ getSymbolTypePair a b = (b.symbol, a.symbol) := by
  unfold getSymbolTypePair
  split
  . exact .inr rfl
  . exact .inl rfl

theorem oriented_getSymbolTypePair {a b : Asset} (h : symbolName a.symbol ≠ symbolName b.symbol) :
    Oriented (getSymbolTypePair a b).1 (getSymbolTypePair a b).2 := by
  have hzero : ∀ c d : Asset,
      getSymbolTypePair ⟨0, c.symbol⟩ ⟨0, d.symbol⟩ = getSymbolTypePair c d := fun _ _ => rfl
  unfold Oriented
  rcases getSymbolTypePair_cases a b with heq | heq
  . rw [heq]
    exact (hzero a b).trans heq
  . rw [heq]
    exact (hzero b a).trans ((getSymbolTypePair_comm h.symm).trans heq)

/-- A fill is of an oriented pair if the plugin gives it this pair. -/
theorem FillOrderOperation.Valid.amounts_isSome_iff (h : op.Valid) (hpair : Oriented sym1 sym2) :
    (op.amounts sym1 sym2).isSome ↔ getSymbolTypePair op.openPays op.currentPays = (sym1, sym2) := by
  unfold amounts
  constructor
  . intro hsome
    split at hsome
    . next heq =>
      obtain ⟨rfl, rfl⟩ := heq
      exact hpair
    . split at hsome
      . next heq =>
        obtain ⟨rfl, rfl⟩ := heq
        exact (getSymbolTypePair_comm h.names).trans hpair
      . cases hsome
  . intro heq
    rcases getSymbolTypePair_cases op.openPays op.currentPays with h | h
    . rw [h] at heq
      rw [if_pos (Prod.mk.inj heq)]
      rfl
    . rw [h] at heq
      split
      . rfl
      . rw [if_pos (Prod.mk.inj heq)]
        rfl

theorem FillOrderOperation.Valid.fills_of_amounts (h : op.Valid) {fill : ℤ × ℤ}
    (hfill : op.amounts sym1 sym2 = some fill) :
    Fills fill ∧ symbolName sym1 ≠ symbolName sym2 := by
  unfold amounts at hfill
  split at hfill
  . next hpair =>
    obtain ⟨rfl, rfl⟩ := hpair
    obtain rfl := Option.some.inj hfill
    exact ⟨⟨⟨h.open_pos, h.open_le⟩, h.current_pos, h.current_le⟩, h.names⟩
  . split at hfill
    . next hpair =>
      obtain ⟨rfl, rfl⟩ := hpair
      obtain rfl := Option.some.inj hfill
      exact ⟨⟨⟨h.current_pos, h.current_le⟩, h.open_pos, h.open_le⟩, h.names.symm⟩
    . cases hfill

/-- The two sides of a fill, either of which may have rested, make the same bucket. -/
theorem create_eq {k : BucketKey} {fill : ℤ × ℤ} (h : op.Valid)
    (hfill : op.amounts k.sym1 k.sym2 = some fill) :
    BucketObject.create op k = .ofFill fill.1 fill.2 := by
  unfold FillOrderOperation.amounts at hfill
  unfold BucketObject.create
  split at hfill
  . next heq =>
    obtain rfl := Option.some.inj hfill
    rw [if_pos heq.1]
  . split at hfill
    . next heq =>
      obtain rfl := Option.some.inj hfill
      rw [if_neg]
      intro hopen
      exact h.names (congrArg symbolName (hopen.trans heq.1.symm))
    . cases hfill

theorem modify_eq {k : BucketKey} {fill : ℤ × ℤ} (h : op.Valid)
    (hfill : op.amounts k.sym1 k.sym2 = some fill) (b : BucketObject) :
    b.modify op k = b.addFill k fill.1 fill.2 (k.price fill) := by
  unfold FillOrderOperation.amounts at hfill
  unfold BucketObject.modify
  split at hfill
  . next heq =>
    obtain rfl := Option.some.inj hfill
    rw [if_pos heq.1, BucketKey.price, ← heq.1, ← heq.2]
  . split at hfill
    . next heq =>
      obtain rfl := Option.some.inj hfill
      rw [if_neg, BucketKey.price, ← heq.1, ← heq.2]
      intro hopen
      exact h.names (congrArg symbolName (hopen.trans heq.1.symm))
    . cases hfill

end pairs

section windows

/-- The fills of a pair in a window of time, in the order of time. -/
def fillsOf (history : List OrderHistoryObject) (k : BucketKey) : List (ℤ × ℤ) :=
  history.filterMap fun o =>
    if o.time / k.seconds * k.seconds = k.openTime then o.op.amounts k.sym1 k.sym2 else none

/-- The bucket is older than the maximum history of the plugin at some fill of its pair. -/
def Outdated (plugin : MarketHistoryPlugin) (history : List OrderHistoryObject) (k : BucketKey) :
    Prop :=
  0 < plugin.maximumHistoryPerBucketSize ∧ ∃ o ∈ history, (o.op.amounts k.sym1 k.sym2).isSome ∧
    (k.openTime : ℤ) < o.time - k.seconds * plugin.maximumHistoryPerBucketSize

/-- The buckets of a period are the candles of its windows. -/
structure Summarises (plugin : MarketHistoryPlugin) (history : List OrderHistoryObject)
    (buckets : FlatMap BucketKey BucketObject) (seconds : Nat) : Prop where
  bucket : ∀ k b, (k, b) ∈ buckets → k.seconds = seconds →
    Oriented k.sym1 k.sym2 ∧ IsCandle (fillsOf history k) b
  present : ∀ k, k.seconds = seconds → Oriented k.sym1 k.sym2 → fillsOf history k ≠ [] →
    (∃ b, (k, b) ∈ buckets) ∨ Outdated plugin history k

variable {plugin : MarketHistoryPlugin} {history : List OrderHistoryObject}
  {op : FillOrderOperation} {k : BucketKey} {now : Nat}

theorem fillsOf_append (o : OrderHistoryObject) :
    fillsOf (history ++ [o]) k = fillsOf history k ++
      (if o.time / k.seconds * k.seconds = k.openTime then o.op.amounts k.sym1 k.sym2
        else none).toList := by
  unfold fillsOf
  rw [List.filterMap_append]
  congr 1

theorem Outdated.append (h : Outdated plugin history k) (o : OrderHistoryObject) :
    Outdated plugin (history ++ [o]) k := by
  obtain ⟨hpos, o', ho', hold⟩ := h
  exact ⟨hpos, o', List.mem_append_left _ ho', hold⟩

theorem fills_of_mem {fill : ℤ × ℤ} (hvalid : ∀ o ∈ history, o.op.Valid)
    (h : fill ∈ fillsOf history k) : Fills fill ∧ symbolName k.sym1 ≠ symbolName k.sym2 := by
  obtain ⟨o, ho, hfill⟩ := List.mem_filterMap.mp h
  split at hfill
  . exact (hvalid o ho).fills_of_amounts hfill
  . cases hfill

/-- The window of the current time is younger than one period. -/
theorem openTime_now (hseconds : k.seconds ≠ 0)
    (hopen : now / k.seconds * k.seconds = k.openTime)
    (hpos : 0 < plugin.maximumHistoryPerBucketSize) :
    (now : ℤ) - k.seconds * plugin.maximumHistoryPerBucketSize < k.openTime := by
  have hlt : now < k.openTime + k.seconds := by
    rw [← hopen]
    have hdiv := Nat.div_add_mod now k.seconds
    have hmod := Nat.mod_lt now (Nat.pos_of_ne_zero hseconds)
    rw [Nat.mul_comm] at hdiv
    omega
  have hmul : (k.seconds : ℤ) ≤ k.seconds * plugin.maximumHistoryPerBucketSize :=
    le_mul_of_one_le_right (Int.natCast_nonneg _) hpos
  omega

theorem not_outdated_now (htimes : ∀ o ∈ history, o.time ≤ now) (hseconds : k.seconds ≠ 0)
    (hopen : now / k.seconds * k.seconds = k.openTime) : ¬Outdated plugin history k := by
  rintro ⟨hpos, o, ho, -, hold⟩
  have hle := htimes o ho
  have hlt := openTime_now hseconds hopen hpos
  omega

end windows

namespace BucketKey

variable {k k' : BucketKey}

theorem lt_iff : k < k' ↔ k.rank < k'.rank :=
  Iff.rfl

theorem le_iff : k ≤ k' ↔ k.rank ≤ k'.rank :=
  Iff.rfl

/-- The buckets of one pair and period. -/
def SameSeries (k k' : BucketKey) : Prop :=
  k'.sym1 = k.sym1 ∧ k'.sym2 = k.sym2 ∧ k'.seconds = k.seconds

theorem first_le (h : SameSeries k k') : { k with openTime := 0 } ≤ k' := by
  obtain ⟨hsym1, hsym2, hseconds⟩ := h
  rw [le_iff]
  simp only [rank, hsym1, hsym2, hseconds, Prod.Lex.toLex_le_toLex, lt_self_iff_false, true_and,
    false_or]
  omega

/-- What lies between the first bucket of a series and one of its buckets is of the series. -/
theorem sameSeries_of_between {k'' : BucketKey} (hle : { k with openTime := 0 } ≤ k')
    (hlt : k' < k'') (h : SameSeries k k'') : SameSeries k k' ∧ k'.openTime < k''.openTime := by
  obtain ⟨hsym1, hsym2, hseconds⟩ := h
  rw [le_iff] at hle
  rw [lt_iff] at hlt
  simp only [rank, hsym1, hsym2, hseconds, Prod.Lex.toLex_le_toLex, Prod.Lex.toLex_lt_toLex]
    at hle hlt
  have h1 : k'.sym1.toNat = k.sym1.toNat := by omega
  have h2 : k'.sym2.toNat = k.sym2.toNat := by omega
  refine ⟨⟨BitVec.toNat_inj.mp h1, BitVec.toNat_inj.mp h2, by omega⟩, by omega⟩

end BucketKey

section update

variable {plugin : MarketHistoryPlugin} {history : List OrderHistoryObject}
  {buckets buckets' : FlatMap BucketKey BucketObject} {op : FillOrderOperation} {k : BucketKey}
  {now : Nat} {fill : ℤ × ℤ}

/-- A fill adds nothing to the windows of other pairs and times. -/
theorem fillsOf_other (hop : op.Valid) (hfill : op.amounts k.sym1 k.sym2 = some fill)
    (hpair : Oriented k.sym1 k.sym2) (hopen : now / k.seconds * k.seconds = k.openTime)
    {k' : BucketKey} (hpair' : Oriented k'.sym1 k'.sym2) (hseconds : k'.seconds = k.seconds)
    (hne : k' ≠ k) : fillsOf (history ++ [⟨now, op⟩]) k' = fillsOf history k' := by
  rw [fillsOf_append]
  split
  . next hopen' =>
    cases hfill' : op.amounts k'.sym1 k'.sym2 with
    | none => exact List.append_nil _
    | some fill' =>
      have hsome : (op.amounts k.sym1 k.sym2).isSome := by rw [hfill]; rfl
      have hsome' : (op.amounts k'.sym1 k'.sym2).isSome := by rw [hfill']; rfl
      rw [hop.amounts_isSome_iff hpair] at hsome
      rw [hop.amounts_isSome_iff hpair'] at hsome'
      obtain ⟨hsym1, hsym2⟩ := Prod.mk.inj (hsome'.symm.trans hsome)
      dsimp only at hopen'
      rw [hseconds, hopen] at hopen'
      refine absurd ?_ hne
      cases k
      cases k'
      simp_all
  . exact List.append_nil _

theorem Summarises.set (h : Summarises plugin history buckets k.seconds) (hop : op.Valid)
    (hfill : op.amounts k.sym1 k.sym2 = some fill) (hpair : Oriented k.sym1 k.sym2)
    (hopen : now / k.seconds * k.seconds = k.openTime) {b : BucketObject}
    (hb : IsCandle (fillsOf history k ++ [fill]) b) :
    Summarises plugin (history ++ [⟨now, op⟩]) (buckets.set k b) k.seconds where
  bucket := by
    intro k' b' hmem hseconds
    rcases FlatMap.mem_set.mp hmem with heq | ⟨hmem, hne⟩
    . obtain ⟨rfl, rfl⟩ := Prod.mk.inj heq
      rw [fillsOf_append, if_pos hopen, hfill]
      exact ⟨hpair, hb⟩
    . obtain ⟨hpair', hb'⟩ := h.bucket k' b' hmem hseconds
      rw [fillsOf_other hop hfill hpair hopen hpair' hseconds hne]
      exact ⟨hpair', hb'⟩
  present := by
    intro k' hseconds hpair' hfills
    by_cases heq : k' = k
    . subst heq
      exact .inl ⟨b, FlatMap.mem_set.mpr (.inl rfl)⟩
    . rw [fillsOf_other hop hfill hpair hopen hpair' hseconds heq] at hfills
      rcases h.present k' hseconds hpair' hfills with ⟨b', hb'⟩ | hold
      . exact .inl ⟨b', FlatMap.mem_set.mpr (.inr ⟨hb', heq⟩)⟩
      . exact .inr (hold.append _)

theorem Summarises.congr {seconds : Nat}
    (h : Summarises plugin history buckets seconds)
    (hsame : ∀ e, e.1.seconds = seconds → (e ∈ buckets' ↔ e ∈ buckets)) :
    Summarises plugin history buckets' seconds where
  bucket := by
    intro k b hmem hseconds
    exact h.bucket k b ((hsame (k, b) hseconds).mp hmem) hseconds
  present := by
    intro k hseconds hpair hfills
    rcases h.present k hseconds hpair hfills with ⟨b, hb⟩ | hold
    . exact .inl ⟨b, (hsame (k, b) hseconds).mpr hb⟩
    . exact .inr hold

/-- Removing outdated buckets. -/
theorem Summarises.remove {seconds : Nat} (h : Summarises plugin history buckets seconds)
    {p : BucketKey → Prop} (hbuckets : ∀ e, e ∈ buckets' ↔ e ∈ buckets ∧ ¬p e.1)
    (hold : ∀ k, k.seconds = seconds → p k → Outdated plugin history k) :
    Summarises plugin history buckets' seconds where
  bucket := by
    intro k b hmem
    exact h.bucket k b ((hbuckets _).mp hmem).1
  present := by
    intro k hseconds hpair hfills
    rcases h.present k hseconds hpair hfills with ⟨b, hb⟩ | h
    . by_cases hk : p k
      . exact .inr (hold k hseconds hk)
      . exact .inl ⟨b, (hbuckets _).mpr ⟨hb, hk⟩⟩
    . exact .inr h

namespace MarketHistoryDatabase

variable {db db' : MarketHistoryDatabase}

/-- The buckets of the series of `k` that are older than the maximum history. -/
def Old (plugin : MarketHistoryPlugin) (db : MarketHistoryDatabase) (k k' : BucketKey) : Prop :=
  BucketKey.SameSeries k k' ∧ (k'.openTime : ℤ) < db.cutoff plugin k.seconds

/-- The conversions do not wrap around when the time is past the maximum history. -/
theorem cutoff_eq {seconds : Nat} (hpos : 0 < plugin.maximumHistoryPerBucketSize)
    (hclock : db.headBlockTime < 2 ^ 32)
    (hfits : seconds * plugin.maximumHistoryPerBucketSize ≤ db.headBlockTime) :
    db.cutoff plugin seconds =
      db.headBlockTime - seconds * plugin.maximumHistoryPerBucketSize := by
  have hclock' : (db.headBlockTime : ℤ) < 2 ^ 32 := by exact_mod_cast hclock
  have hnonneg : (0 : ℤ) ≤ seconds * plugin.maximumHistoryPerBucketSize := by positivity
  unfold cutoff
  rw [Int.emod_eq_of_lt hnonneg (hfits.trans_lt hclock'),
    Int.emod_eq_of_lt (by linarith) (by linarith)]

theorem trim_eq_ok {b : BucketObject} (h : (k, b) ∈ db.buckets)
    (hopen : db.cutoff plugin k.seconds ≤ k.openTime) :
    ∃ buckets', db.trim plugin k = .ok { db with buckets := buckets' } ∧
      ∀ e, e ∈ buckets' ↔ e ∈ db.buckets ∧ ¬Old plugin db k e.1 := by
  have hsame : BucketKey.SameSeries k k := ⟨rfl, rfl, rfl⟩
  obtain ⟨buckets', herase, hbuckets⟩ := FlatMap.eraseFrom_eq_some
    (m := db.buckets) (a := { k with openTime := 0 })
    (p := fun k' => k'.sym1 = k.sym1 ∧ k'.sym2 = k.sym2 ∧ k'.seconds = k.seconds ∧
      k'.openTime < db.cutoff plugin k.seconds) (by
        intro x _ y _ hle hlt hy
        obtain ⟨hsym1, hsym2, hseconds, hy⟩ := of_decide_eq_true hy
        obtain ⟨⟨hx1, hx2, hx3⟩, hx⟩ :=
          BucketKey.sameSeries_of_between hle hlt ⟨hsym1, hsym2, hseconds⟩
        exact decide_eq_true ⟨hx1, hx2, hx3, by omega⟩) h (BucketKey.first_le hsame) (by
        apply decide_eq_false
        rintro ⟨-, -, -, hlt⟩
        exact absurd hopen (not_le.mpr hlt))
  refine ⟨buckets', ?_, ?_⟩
  . rw [trim, herase]
    rfl
  . intro e
    rw [hbuckets, decide_eq_true_eq]
    apply and_congr_right
    intro _
    rw [not_iff_not]
    constructor
    . rintro ⟨-, hsym1, hsym2, hseconds, hlt⟩
      exact ⟨⟨hsym1, hsym2, hseconds⟩, hlt⟩
    . rintro ⟨hseries, hlt⟩
      exact ⟨BucketKey.first_le hseries, hseries.1, hseries.2.1, hseries.2.2, hlt⟩

/-- The turn of the loop for one period, which makes a bucket or changes the one there is. -/
theorem updateBucket_eq {sym1 sym2 : AssetSymbolType} {seconds : Nat} (hseconds : seconds ≠ 0)
    (hk : (⟨sym1, sym2, seconds, db.headBlockTime / seconds * seconds⟩ : BucketKey) = k) :
    db.updateBucket plugin op sym1 sym2 seconds =
      (match db.buckets.find? k with
      | none => .ok { db with buckets := db.buckets.set k (.create op k) }
      | some b => do
        let b ← b.modify op k
        let db := { db with buckets := db.buckets.set k b }
        if 0 < plugin.maximumHistoryPerBucketSize then
          db.trim plugin k
        else
          pure db) := by
  unfold updateBucket
  rw [ensure_eq_ok (u := ())|>.mpr hseconds, ok_bind, ← hk]
  rfl

/-- The turn of the loop for one period summarises one more fill. -/
theorem updateBucket_eq_ok {sym1 sym2 : AssetSymbolType} {seconds : Nat}
    (h : Summarises plugin history db.buckets seconds) (hvalid : ∀ o ∈ history, o.op.Valid)
    (htimes : ∀ o ∈ history, o.time ≤ db.headBlockTime) (hop : op.Valid)
    (hpair : getSymbolTypePair op.openPays op.currentPays = (sym1, sym2)) (hseconds : seconds ≠ 0)
    (hclock : db.headBlockTime < 2 ^ 32)
    (hfits : ∀ b, (⟨sym1, sym2, seconds, db.headBlockTime / seconds * seconds⟩, b) ∈ db.buckets →
      seconds * plugin.maximumHistoryPerBucketSize ≤ db.headBlockTime)
    (hvolume : ∀ k : BucketKey, k = ⟨sym1, sym2, seconds, db.headBlockTime / seconds * seconds⟩ →
      ((fillsOf (history ++ [⟨db.headBlockTime, op⟩]) k).map Prod.fst).sum ≤ maxInt64 ∧
        ((fillsOf (history ++ [⟨db.headBlockTime, op⟩]) k).map Prod.snd).sum ≤ maxInt64) :
    ∃ buckets', db.updateBucket plugin op sym1 sym2 seconds = .ok { db with buckets := buckets' } ∧
      (∀ e, e.1.seconds ≠ seconds → (e ∈ buckets' ↔ e ∈ db.buckets)) ∧
      Summarises plugin (history ++ [⟨db.headBlockTime, op⟩]) buckets' seconds ∧
      ∀ k b, (k, b) ∈ db.buckets → k.seconds = seconds → (∀ c, (k, c) ∉ buckets') →
        (k.sym1, k.sym2) = (sym1, sym2) ∧ 0 < plugin.maximumHistoryPerBucketSize ∧
          (k.openTime : ℤ) < db.headBlockTime - seconds * plugin.maximumHistoryPerBucketSize := by
  generalize hk : (⟨sym1, sym2, seconds, db.headBlockTime / seconds * seconds⟩ : BucketKey) = k
    at hfits hvolume
  have hksym1 : k.sym1 = sym1 := by rw [← hk]
  have hksym2 : k.sym2 = sym2 := by rw [← hk]
  have hkseconds : k.seconds = seconds := by rw [← hk]
  have hopen : db.headBlockTime / k.seconds * k.seconds = k.openTime := by rw [← hk]
  obtain ⟨hvolume1, hvolume2⟩ := hvolume k rfl
  have horiented : Oriented k.sym1 k.sym2 := by
    rw [hksym1, hksym2]
    have := oriented_getSymbolTypePair hop.names
    rwa [hpair] at this
  rw [← hksym1, ← hksym2] at hpair
  obtain ⟨fill, hfill⟩ := Option.isSome_iff_exists.mp ((hop.amounts_isSome_iff horiented).mpr hpair)
  obtain ⟨hfills, hnames⟩ := hop.fills_of_amounts hfill
  rw [← hkseconds] at h hfits hseconds
  rw [fillsOf_append, if_pos hopen, hfill] at hvolume1 hvolume2
  rw [updateBucket_eq (hkseconds ▸ hseconds) hk, ← hkseconds, ← hksym1, ← hksym2]
  have hkept : ∀ b e, e.1.seconds ≠ k.seconds → (e ∈ db.buckets.set k b ↔ e ∈ db.buckets) := by
    intro b e hne
    rw [FlatMap.mem_set]
    constructor
    . rintro (rfl | h)
      . exact absurd rfl hne
      . exact h.1
    . intro he
      exact .inr ⟨he, fun heq => hne (by rw [heq])⟩
  have hin : ∀ b k' c, (k', c) ∈ db.buckets → ∃ d, (k', d) ∈ db.buckets.set k b := by
    intro b k' c hmem
    by_cases heq : k' = k
    . exact ⟨b, FlatMap.mem_set.mpr (.inl (by rw [heq]))⟩
    . exact ⟨c, FlatMap.mem_set.mpr (.inr ⟨hmem, heq⟩)⟩
  cases hfind : db.buckets.find? k with
  | none =>
    have hnone : fillsOf history k = [] := by
      by_contra hne
      rcases h.present k rfl horiented hne with ⟨b, hb⟩ | hold
      . exact FlatMap.find?_eq_none.mp hfind b hb
      . exact not_outdated_now htimes hseconds hopen hold
    refine ⟨_, rfl, hkept _, ?_, ?_⟩
    . apply h.set hop hfill horiented hopen
      rw [hnone, create_eq hop hfill]
      exact isCandle_ofFill fill
    . intro k' b hmem _ hgone
      obtain ⟨c, hc⟩ := hin _ k' b hmem
      exact absurd hc (hgone c)
  | some b =>
    obtain ⟨-, hcandle⟩ := h.bucket k b (FlatMap.find?_eq_some.mp hfind) rfl
    obtain ⟨b', hb', hcandle'⟩ := addFill_candle hcandle
      (fun fill hmem => (fills_of_mem hvalid hmem).1) hnames hfills hvolume1 hvolume2
    have hset := h.set hop hfill horiented hopen hcandle'
    dsimp only
    rw [modify_eq hop hfill, hb', ok_bind]
    split
    . next hpos =>
      have hcutoff := cutoff_eq hpos hclock (hfits b (FlatMap.find?_eq_some.mp hfind))
      have hle : db.cutoff plugin k.seconds ≤ k.openTime := by
        rw [hcutoff]
        exact (openTime_now hseconds hopen hpos).le
      obtain ⟨buckets', htrim, hbuckets⟩ := @trim_eq_ok plugin k
        { db with buckets := db.buckets.set k b' } b' (FlatMap.mem_set.mpr (.inl rfl)) hle
      refine ⟨buckets', htrim, ?_, ?_, ?_⟩
      . intro e hne
        rw [hbuckets, hkept _ e hne, and_iff_left]
        intro hold
        exact hne hold.1.2.2
      . apply hset.remove hbuckets
        rintro k' hseconds' ⟨⟨hsym1, hsym2, -⟩, hold⟩
        refine ⟨hpos, _, List.mem_append_right _ (List.mem_singleton_self _), ?_, ?_⟩
        . rw [hsym1, hsym2, hfill]
          rfl
        . rw [hseconds']
          exact hcutoff ▸ hold
      . intro k' c hmem hseconds' hgone
        obtain ⟨d, hd⟩ := hin b' k' c hmem
        have hnot := mt (hbuckets (k', d)).mpr (hgone d)
        rw [not_and, not_not] at hnot
        obtain ⟨⟨hsym1, hsym2, -⟩, hold⟩ := hnot hd
        dsimp only at hsym1 hsym2
        rw [hsym1, hsym2]
        exact ⟨rfl, hpos, hcutoff ▸ hold⟩
    . refine ⟨_, rfl, hkept _, hset, ?_⟩
      intro k' c hmem _ hgone
      obtain ⟨d, hd⟩ := hin _ k' c hmem
      exact absurd hd (hgone d)

end MarketHistoryDatabase

end update

end Golos
