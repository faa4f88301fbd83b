import Mathlib.Data.Finset.Max
import Mathlib.Data.Prod.Lex
import Mathlib.Data.String.Basic
import Golos.Lib.FlatMap
import Golos.PrivateMessage.Impl.Objects

/-!
This module contains how the plugins read the accounts to track from their options, and which
accounts they track: the search for a lower bound finds only the range that begins with the name
that is looked up.
-/

namespace Golos

/-- Ranges of account names by their beginnings. -/
abbrev AccountRanges :=
  FlatMap AccountName AccountName

/-- `LOAD_VALUE_SET`: inserting leaves the range alone that begins with the same name. -/
def loadValueSet (options : List (AccountName × AccountName)) : AccountRanges :=
  options.foldl (fun ranges option => ranges.insert option.1 option.2) FlatMap.empty

namespace AccountHistory

/-- The options `track-account-range` and `track-account`. -/
structure Options where
  trackAccountRange : List (AccountName × AccountName) := []
  trackAccount : List String := []

namespace Options

def isSeparator (c : Char) : Bool :=
  c = ' ' || c = '\t' || c = ','

/-- The single names: `boost::split`, less the empty ones. -/
def names (options : Options) : List AccountName :=
  options.trackAccount.flatMap fun a =>
    ((a.toList.splitOnP isSeparator).map String.ofList).filter fun n => n ≠ ""

/-- The ranges before the embedded ones are excluded. -/
def ranges (options : Options) : AccountRanges :=
  options.names.foldl (fun ranges n => ranges.set n n) (loadValueSet options.trackAccountRange)

end Options

/-- The inner loop over `j`: whether another range holds `i`. -/
def isEmbedded (ranges : AccountRanges) (i : AccountName × AccountName) : Bool :=
  (ranges.entries.takeWhile fun j => j.1 ≤ i.2).any fun j =>
    j.1 ≠ i.1 && (j.1 ≤ i.1 && i.2 ≤ j.2)

def trackedAccounts (options : Options) : AccountRanges :=
  options.ranges.filter fun i => !isEmbedded options.ranges i

/-- The condition of `on_operation` on an impacted account. -/
def tracks (tracked : AccountRanges) (name : AccountName) : Bool :=
  tracked.entries.isEmpty ||
    match tracked.lowerBound name with
    | none => false
    | some itr => itr.1 ≤ name && name ≤ itr.2

/-- The impacted accounts of an operation that `on_operation` records it for. -/
def recordedFor {δ : Type} (tracked : AccountRanges) (storedInDb : Bool)
    (impacted : List (AccountName × δ)) : List (AccountName × δ) :=
  if storedInDb then impacted.filter fun item => tracks tracked item.1 else []

end AccountHistory

namespace PrivateMessagePlugin

/-- The options `pm-account-range` and `pm-account-list`. -/
structure Options where
  pmAccountRange : List (AccountName × AccountName) := []
  pmAccountList : List AccountName := []

/-- What `plugin_initialize` makes of the options. -/
def initialized (options : Options) : PrivateMessagePlugin where
  trackedAccountRanges := (loadValueSet options.pmAccountRange).entries
  trackedAccountList := options.pmAccountList

end PrivateMessagePlugin

/-- What the options ask for: everything where nothing is given, else the single names and the names
in the closed ranges. -/
def ShouldTrack (ranges : List (AccountName × AccountName)) (names : List AccountName)
    (name : AccountName) : Prop :=
  (ranges = [] ∧ names = []) ∨ name ∈ names ∨ ∃ r ∈ ranges, r.1 ≤ name ∧ name ≤ r.2

section LoadValueSet

theorem mem_insertRanges {options : List (AccountName × AccountName)} {ranges : AccountRanges}
    {e : AccountName × AccountName} :
    e ∈ options.foldl (fun ranges option => ranges.insert option.1 option.2) ranges ↔
      e ∈ ranges ∨ ((∀ x ∈ ranges, x.1 ≠ e.1) ∧ options.find? (fun r => r.1 = e.1) = some e) := by
  induction options generalizing ranges with
  | nil => simp
  | cons option options ih =>
    rw [List.foldl_cons, ih, FlatMap.mem_insert, List.find?_cons]
    by_cases hkey : option.1 = e.1
    . -- the first range that begins so is the only one that can get in
      have hhas : ¬∀ x ∈ ranges.insert option.1 option.2, x.1 ≠ e.1 := by
        intro hall
        by_cases hin : ∀ x ∈ ranges, x.1 ≠ option.1
        . exact hall option (FlatMap.mem_insert.mpr (.inr ⟨rfl, hin⟩)) hkey
        . simp only [not_forall, not_not] at hin
          obtain ⟨x, hx, hx1⟩ := hin
          exact hall x (FlatMap.mem_insert.mpr (.inl hx)) (hx1.trans hkey)
      constructor
      . rintro ((h | ⟨he, hnot⟩) | ⟨hall, -⟩)
        . exact .inl h
        . refine .inr ⟨?_, ?_⟩
          . rwa [← hkey]
          . simp only [hkey, decide_true]
            rw [he]
        . exact absurd hall hhas
      . rintro (h | ⟨hnot, he⟩)
        . exact .inl (.inl h)
        . simp only [hkey, decide_true, Option.some.injEq] at he
          exact .inl (.inr ⟨he.symm, by rwa [hkey]⟩)
    . have hne : ∀ b, e ≠ (option.1, b) := by
        rintro b rfl
        exact hkey rfl
      have hkeys : (∀ x ∈ ranges.insert option.1 option.2, x.1 ≠ e.1) ↔
          ∀ x ∈ ranges, x.1 ≠ e.1 := by
        constructor
        . intro hall x hx
          exact hall x (FlatMap.mem_insert.mpr (.inl hx))
        . intro hall x hx
          rcases FlatMap.mem_insert.mp hx with hx | ⟨rfl, -⟩
          . exact hall x hx
          . exact hkey
      rw [hkeys]
      simp [hkey, hne]

theorem mem_loadValueSet {options : List (AccountName × AccountName)}
    {e : AccountName × AccountName} :
    e ∈ loadValueSet options ↔ options.find? (fun r => r.1 = e.1) = some e := by
  have hempty : ∀ x, x ∉ (FlatMap.empty : AccountRanges) := by
    intro x hx
    cases hx
  unfold loadValueSet
  rw [mem_insertRanges]
  constructor
  . rintro (h | ⟨-, h⟩)
    . exact absurd h (hempty e)
    . exact h
  . intro h
    exact .inr ⟨fun x hx => absurd hx (hempty x), h⟩

theorem mem_foldl_set {names : List AccountName} {ranges : AccountRanges}
    {e : AccountName × AccountName} :
    e ∈ names.foldl (fun ranges n => ranges.set n n) ranges ↔
      (e.1 ∈ names ∧ e.2 = e.1) ∨ (e.1 ∉ names ∧ e ∈ ranges) := by
  induction names generalizing ranges with
  | nil => simp
  | cons n names ih =>
    rw [List.foldl_cons, ih, FlatMap.mem_set, List.mem_cons]
    by_cases hin : e.1 ∈ names
    . simp [hin]
    . by_cases hn : e.1 = n
      . have hn' : n ∉ names := hn ▸ hin
        simp [hn, hn', Prod.ext_iff]
      . simp [hin, hn, Prod.ext_iff]

end LoadValueSet

/-- A range that is found for a name begins with it. -/
theorem lowerBound_contains_iff (ranges : AccountRanges) (name : AccountName) :
    (∃ itr, ranges.lowerBound name = some itr ∧ itr.1 ≤ name ∧ name ≤ itr.2) ↔
      ∃ hi, (name, hi) ∈ ranges ∧ name ≤ hi := by
  constructor
  . rintro ⟨itr, hitr, hle, hhi⟩
    obtain ⟨hmem, hge⟩ := FlatMap.lowerBound_eq_some hitr
    obtain rfl : itr.1 = name := le_antisymm hle hge
    exact ⟨itr.2, hmem, hhi⟩
  . rintro ⟨hi, hmem, hhi⟩
    exact ⟨(name, hi), FlatMap.lowerBound_of_mem hmem, le_refl name, hhi⟩

/-- In the order of the keys nothing stops before an entry whose key is small enough. -/
theorem mem_takeWhile_of_sorted {l : List (AccountName × AccountName)} {bound : AccountName}
    (hl : l.Pairwise fun x y => x.1 < y.1) {e : AccountName × AccountName} (he : e ∈ l)
    (hle : e.1 ≤ bound) : e ∈ l.takeWhile fun x => x.1 ≤ bound := by
  induction l with
  | nil => cases he
  | cons x rest ih =>
    obtain ⟨hx, hrest⟩ := List.pairwise_cons.mp hl
    have hxb : x.1 ≤ bound := by
      rcases List.mem_cons.mp he with rfl | he
      . exact hle
      . exact (hx e he).le.trans hle
    rw [List.takeWhile_cons_of_pos (by simpa using hxb), List.mem_cons]
    rcases List.mem_cons.mp he with rfl | he
    . exact .inl rfl
    . exact .inr (ih hrest he)

namespace AccountHistory

namespace Options

/-- The end of the range that begins with a name, as the options give it: a single name goes before
a range, and of two ranges the first. -/
def endOf (options : Options) (start : AccountName) : Option AccountName :=
  if start ∈ options.names then some start
  else (options.trackAccountRange.find? fun r => r.1 = start).map Prod.snd

/-- The name begins a range that holds it and does not lie in one that begins before. -/
def Begins (options : Options) (name : AccountName) : Prop :=
  ∃ hi, options.endOf name = some hi ∧ name ≤ hi ∧
    ∀ lo e, lo < name → options.endOf lo = some e → e < hi

theorem mem_ranges {options : Options} {e : AccountName × AccountName} :
    e ∈ options.ranges ↔ options.endOf e.1 = some e.2 := by
  unfold ranges endOf
  rw [mem_foldl_set, mem_loadValueSet]
  by_cases hin : e.1 ∈ options.names
  . simp [hin, eq_comm]
  . simp only [hin, false_and, not_false_eq_true, true_and, false_or, if_false,
      Option.map_eq_some_iff]
    constructor
    . intro h
      exact ⟨e, h, rfl⟩
    . rintro ⟨r, hr, hr2⟩
      have hr1 : r.1 = e.1 := by simpa using List.find?_some hr
      rw [hr, Prod.ext hr1 hr2]

end Options

/-- A name up to the end of the range that begins with it is asked for. -/
theorem shouldTrack_of_endOf {options : Options} {name hi : AccountName}
    (h : options.endOf name = some hi) (hle : name ≤ hi) :
    ShouldTrack options.trackAccountRange options.names name := by
  unfold Options.endOf at h
  split at h
  . next hin => exact .inr (.inl hin)
  . next hin =>
    obtain ⟨r, hr, rfl⟩ := Option.map_eq_some_iff.mp h
    have hname : r.1 = name := by simpa using List.find?_some hr
    exact .inr (.inr ⟨r, List.mem_of_find?_eq_some hr, hname.le, hle⟩)

/-- Of the ranges that reach furthest the longest one is not embedded in another. -/
theorem exists_not_embedded {ranges : AccountRanges} (h : ranges.entries ≠ []) :
    ∃ i ∈ ranges, isEmbedded ranges i = false := by
  let reach (e : AccountName × AccountName) := toLex (e.2, OrderDual.toDual e.1)
  obtain ⟨i, hi, hmax⟩ :=
    ranges.entries.toFinset.exists_max_image reach (by simpa using h)
  refine ⟨i, List.mem_toFinset.mp hi, ?_⟩
  by_contra hemb
  rw [Bool.not_eq_false, isEmbedded, List.any_eq_true] at hemb
  obtain ⟨j, hj, hin⟩ := hemb
  simp only [ne_eq, Bool.and_eq_true, decide_eq_true_eq] at hin
  have hle := hmax j (List.mem_toFinset.mpr ((List.takeWhile_sublist _).subset hj))
  have hlt : reach i < reach j := by
    rw [Prod.Lex.toLex_lt_toLex]
    rcases hin.2.2.lt_or_eq with hlt | heq
    . exact .inl hlt
    . exact .inr ⟨heq, OrderDual.toDual_lt_toDual.mpr (lt_of_le_of_ne hin.2.1 hin.1)⟩
  exact absurd hle (not_le.mpr hlt)

theorem isEmbedded_iff {ranges : AccountRanges} {i : AccountName × AccountName} (h : i.1 ≤ i.2) :
    isEmbedded ranges i = true ↔ ∃ j ∈ ranges, j.1 < i.1 ∧ i.2 ≤ j.2 := by
  unfold isEmbedded
  rw [List.any_eq_true]
  simp only [ne_eq, Bool.and_eq_true, decide_eq_true_eq]
  constructor
  . rintro ⟨j, hj, hne, hle, hhi⟩
    exact ⟨j, (List.takeWhile_sublist _).subset hj, lt_of_le_of_ne hle hne, hhi⟩
  . rintro ⟨j, hj, hlt, hhi⟩
    refine ⟨j, ?_, ne_of_lt hlt, hlt.le, hhi⟩
    -- the loop gets as far as `j`, which begins before `i` ends
    exact mem_takeWhile_of_sorted ranges.sorted hj (hlt.le.trans h)

theorem entries_ranges_eq_nil {options : Options} :
    options.ranges.entries = [] ↔ options.trackAccountRange = [] ∧ options.names = [] := by
  constructor
  . intro h
    have hnone : ∀ e, e ∉ options.ranges := by
      intro e he
      have he : e ∈ options.ranges.entries := he
      rw [h] at he
      cases he
    constructor
    . refine List.eq_nil_iff_forall_not_mem.mpr fun r hr => ?_
      by_cases hin : r.1 ∈ options.names
      . exact hnone (r.1, r.1) (Options.mem_ranges.mpr (by simp [Options.endOf, hin]))
      . have hsome : (options.trackAccountRange.find? fun x => x.1 = r.1).isSome := by
          rw [List.find?_isSome]
          exact ⟨r, hr, by simp⟩
        obtain ⟨x, hx⟩ := Option.isSome_iff_exists.mp hsome
        exact hnone (r.1, x.2) (Options.mem_ranges.mpr (by simp [Options.endOf, hin, hx]))
    . refine List.eq_nil_iff_forall_not_mem.mpr fun n hn => ?_
      exact hnone (n, n) (Options.mem_ranges.mpr (by simp [Options.endOf, hn]))
  . rintro ⟨hranges, hnames⟩
    refine List.eq_nil_iff_forall_not_mem.mpr fun e he => ?_
    have hend := Options.mem_ranges.mp he
    simp [Options.endOf, hranges, hnames] at hend

theorem tracks_eq_true {tracked : AccountRanges} {name : AccountName} :
    tracks tracked name = true ↔ tracked.entries = [] ∨
      ∃ itr, tracked.lowerBound name = some itr ∧ itr.1 ≤ name ∧ name ≤ itr.2 := by
  unfold tracks
  rw [Bool.or_eq_true, List.isEmpty_iff]
  cases tracked.lowerBound name with
  | none => simp
  | some itr => simp

/-- All accounts are tracked where nothing is given, else those that begin a range of their own. -/
theorem tracks_iff {options : Options} {name : AccountName} :
    tracks (trackedAccounts options) name = true ↔
      (options.trackAccountRange = [] ∧ options.names = []) ∨ options.Begins name := by
  have hempty : (trackedAccounts options).entries = [] ↔ options.ranges.entries = [] := by
    constructor
    . intro h
      by_contra hne
      obtain ⟨i, hi, hemb⟩ := exists_not_embedded hne
      have hin : i ∈ (trackedAccounts options).entries :=
        FlatMap.mem_filter.mpr ⟨hi, by simp [hemb]⟩
      rw [h] at hin
      cases hin
    . intro h
      simp [trackedAccounts, FlatMap.filter, h]
  have hfound : (∃ itr, (trackedAccounts options).lowerBound name = some itr ∧
      itr.1 ≤ name ∧ name ≤ itr.2) ↔ options.Begins name := by
    rw [lowerBound_contains_iff, Options.Begins]
    constructor
    . rintro ⟨hi, hmem, hle⟩
      obtain ⟨hranges, hnot⟩ := FlatMap.mem_filter.mp hmem
      refine ⟨hi, Options.mem_ranges.mp hranges, hle, fun lo e hlo hend => ?_⟩
      by_contra hge
      have hemb : isEmbedded options.ranges (name, hi) = true :=
        (isEmbedded_iff hle).mpr ⟨(lo, e), Options.mem_ranges.mpr hend, hlo, not_lt.mp hge⟩
      simp [hemb] at hnot
    . rintro ⟨hi, hend, hle, hall⟩
      refine ⟨hi, FlatMap.mem_filter.mpr ⟨Options.mem_ranges.mpr hend, ?_⟩, hle⟩
      by_contra hemb
      rw [Bool.not_eq_true', Bool.not_eq_false] at hemb
      obtain ⟨j, hj, hlt, hge⟩ := (isEmbedded_iff (i := (name, hi)) hle).mp hemb
      exact absurd (hall j.1 j.2 hlt (Options.mem_ranges.mp hj)) (not_lt.mpr hge)
  rw [tracks_eq_true, hempty, entries_ranges_eq_nil, hfound]

end AccountHistory

namespace PrivateMessagePlugin

/-- The name begins a range of the options that holds it. -/
def Options.Begins (options : Options) (name : AccountName) : Prop :=
  ∃ r, options.pmAccountRange.find? (fun r => r.1 = name) = some r ∧ name ≤ r.2

theorem entries_loadValueSet_eq_nil {options : List (AccountName × AccountName)} :
    (loadValueSet options).entries = [] ↔ options = [] := by
  constructor
  . intro h
    refine List.eq_nil_iff_forall_not_mem.mpr fun r hr => ?_
    have hsome : (options.find? fun x => x.1 = r.1).isSome := by
      rw [List.find?_isSome]
      exact ⟨r, hr, by simp⟩
    obtain ⟨x, hx⟩ := Option.isSome_iff_exists.mp hsome
    have hx1 : x.1 = r.1 := by simpa using List.find?_some hx
    have hmem : x ∈ (loadValueSet options).entries := mem_loadValueSet.mpr (by rw [hx1, hx])
    rw [h] at hmem
    cases hmem
  . rintro rfl
    rfl

theorem isTrackedAccount_iff {options : Options} {name : AccountName} :
    (initialized options).isTrackedAccount name = true ↔
      (options.pmAccountRange = [] ∧ options.pmAccountList = []) ∨
      name ∈ options.pmAccountList ∨ options.Begins name := by
  have hfound : ((loadValueSet options.pmAccountRange).entries.find? fun r => name ≤ r.1).any
      (fun r => r.1 ≤ name ∧ name ≤ r.2) = true ↔ options.Begins name := by
    have hcontains := lowerBound_contains_iff (loadValueSet options.pmAccountRange) name
    rw [Option.any_eq_true]
    simp only [decide_eq_true_eq]
    refine Iff.trans hcontains ?_
    constructor
    . rintro ⟨hi, hmem, hle⟩
      exact ⟨(name, hi), mem_loadValueSet.mp hmem, hle⟩
    . rintro ⟨r, hr, hle⟩
      obtain rfl : r.1 = name := by simpa using List.find?_some hr
      exact ⟨r.2, mem_loadValueSet.mpr hr, hle⟩
  unfold isTrackedAccount initialized
  simp only [Bool.or_eq_true, Bool.and_eq_true, List.isEmpty_iff, List.contains_iff_mem]
  rw [entries_loadValueSet_eq_nil, hfound, or_assoc]

end PrivateMessagePlugin

/-- A test that lets through nothing wrong is right exactly where it lets everything through. -/
theorem sound_iff_exact {n b s : Prop} (h : n ∨ b → s) : (n ∨ b ↔ s) ↔ n ∨ ¬s ∨ b := by
  by_cases hs : s
  . simp [hs]
  . have hnot : ¬(n ∨ b) := fun hnb => hs (h hnb)
    simp [hs, hnot]

/-- A range is given, and a name in it is not tracked by either plugin. -/
theorem not_tracked_in_range :
    ¬((("bob", ()) ∈ AccountHistory.recordedFor
          (AccountHistory.trackedAccounts { trackAccountRange := [("a", "m")] }) true
          [("bob", ())] ↔
        ShouldTrack [("a", "m")] [] "bob") ∧
      ((PrivateMessagePlugin.initialized
          { pmAccountRange := [("a", "m")] }).isTrackedAccount "bob" = true ↔
        ShouldTrack [("a", "m")] [] "bob")) := by
  rintro ⟨-, hpm⟩
  have hin : ShouldTrack [("a", "m")] [] "bob" :=
    .inr (.inr ⟨("a", "m"), by simp, by decide +kernel, by decide +kernel⟩)
  obtain ⟨h, -⟩ | h | ⟨r, hr, -⟩ := PrivateMessagePlugin.isTrackedAccount_iff.mp (hpm.mpr hin)
  . simp at h
  . simp at h
  . simp at hr

/-- An account that an operation stored by `operation_history` impacts is recorded, and an account
tracked by `private_message`, as the options ask for exactly if they ask for none, do not ask for it,
or it begins the range to be found. -/
theorem tracking_exact_iff (options : AccountHistory.Options) (pm : PrivateMessagePlugin.Options)
    {δ : Type} {impacted : List (AccountName × δ)} {item : AccountName × δ} (h : item ∈ impacted)
    (name : AccountName) :
    ((item ∈ AccountHistory.recordedFor (AccountHistory.trackedAccounts options) true impacted ↔
        ShouldTrack options.trackAccountRange options.names item.1) ↔
      (options.trackAccountRange = [] ∧ options.names = []) ∨
      ¬ShouldTrack options.trackAccountRange options.names item.1 ∨ options.Begins item.1) ∧
    (((PrivateMessagePlugin.initialized pm).isTrackedAccount name = true ↔
        ShouldTrack pm.pmAccountRange pm.pmAccountList name) ↔
      (pm.pmAccountRange = [] ∧ pm.pmAccountList = []) ∨
      ¬ShouldTrack pm.pmAccountRange pm.pmAccountList name ∨
      name ∈ pm.pmAccountList ∨ pm.Begins name) := by
  constructor
  . have hrecorded : item ∈ AccountHistory.recordedFor
        (AccountHistory.trackedAccounts options) true impacted ↔
        (options.trackAccountRange = [] ∧ options.names = []) ∨ options.Begins item.1 := by
      rw [AccountHistory.recordedFor, if_pos rfl, List.mem_filter, AccountHistory.tracks_iff]
      exact and_iff_right h
    have hsound : options.Begins item.1 →
        ShouldTrack options.trackAccountRange options.names item.1 := by
      rintro ⟨hi, hend, hle, -⟩
      exact AccountHistory.shouldTrack_of_endOf hend hle
    rw [hrecorded]
    exact sound_iff_exact (Or.rec .inl hsound)
  . have hsound : pm.Begins name → ShouldTrack pm.pmAccountRange pm.pmAccountList name := by
      rintro ⟨r, hr, hle⟩
      have hname : r.1 = name := by simpa using List.find?_some hr
      exact .inr (.inr ⟨r, List.mem_of_find?_eq_some hr, hname.le, hle⟩)
    have hlist : name ∈ pm.pmAccountList → ShouldTrack pm.pmAccountRange pm.pmAccountList name :=
      fun hin => .inr (.inl hin)
    rw [PrivateMessagePlugin.isTrackedAccount_iff]
    exact sound_iff_exact (Or.rec .inl (Or.rec hlist hsound))

/-- Of two ranges that overlap, none is embedded in the other. -/
def overlapping : List (AccountName × AccountName) :=
  [("a", "m"), ("c", "z")]

/-- The first name of a range is tracked, also in another range. -/
theorem tracking_exact_iff_overlapping :
    (("c", ()) ∈ AccountHistory.recordedFor
        (AccountHistory.trackedAccounts { trackAccountRange := overlapping }) true
          [("bob", ()), ("c", ())] ↔
      ShouldTrack overlapping [] "c") ∧
    ((PrivateMessagePlugin.initialized { pmAccountRange := overlapping }).isTrackedAccount "c" =
        true ↔ ShouldTrack overlapping [] "c") := by
  have hitem : (("c", ()) : AccountName × Unit) ∈ [("bob", ()), ("c", ())] := by simp
  obtain ⟨hhistory, hpm⟩ := tracking_exact_iff { trackAccountRange := overlapping }
    { pmAccountRange := overlapping } hitem "c"
  refine ⟨hhistory.mpr (.inr (.inr ⟨"z", ?_, by decide +kernel, ?_⟩)),
    hpm.mpr (.inr (.inr (.inr ⟨("c", "z"), by decide +kernel, by decide +kernel⟩)))⟩
  . simp [AccountHistory.Options.endOf, AccountHistory.Options.names, overlapping]
  . intro lo e hlo hend
    have hne : "c" ≠ lo := (ne_of_lt hlo).symm
    by_cases ha : "a" = lo
    . obtain rfl : "m" = e := by
        simpa [AccountHistory.Options.endOf, AccountHistory.Options.names, overlapping, ha] using hend
      decide +kernel
    . simp [AccountHistory.Options.endOf, AccountHistory.Options.names, overlapping, ha, hne] at hend

end Golos
