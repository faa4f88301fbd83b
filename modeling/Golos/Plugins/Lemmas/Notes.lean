import Golos.Plugins.Impl.AccountNotes

/-!
This module contains what an operation `set_value` can do to the notes, and to the numbers of notes
that are kept of the accounts.
-/

namespace Golos

open Checked

section keys

theorem endsWith_iff {s suffix : String} : s.endsWith suffix = true ↔ suffix.toList <:+ s.toList := by
  rw [← String.endsWith_toSlice, String.Slice.endsWith_string_iff]
  simp

namespace SetValueOperation

variable {o : SetValueOperation}

theorem isGlobal_iff : o.isGlobal = true ↔ "g.".toList <+: o.key.toList :=
  String.startsWith_string_iff

theorem isGlobal_of_cString {name : String} (h : cString o.key = cString ("g." ++ name)) :
    o.isGlobal = true := by
  rw [isGlobal_iff]
  refine List.IsPrefix.trans ?_ (cString.prefix_toList o.key)
  rw [h, cString.toList_cString, String.toList_append]
  simp

theorem not_isAccs_and_isLst : ¬(o.isAccs = true ∧ o.isLst = true) := by
  unfold isAccs isLst
  rw [endsWith_iff, endsWith_iff]
  rintro ⟨⟨front, hfront⟩, rest, hrest⟩
  -- the last letters of the two affixes differ
  have hlast := congrArg List.getLast? (hfront.trans hrest.symm)
  simp at hlast

end SetValueOperation

end keys

namespace SetValueOperation

variable {Json : Type} {fc : Fc Json} {o : SetValueOperation}

theorem account_ne_empty_of_validate (h : o.validate fc = .ok ()) : o.account ≠ "" := by
  simp only [validate, bind_eq_ok] at h
  obtain ⟨_, haccount, _⟩ := h
  exact ne_empty_of_validateAccountName haccount

theorem key_of_validate (h : o.validate fc = .ok ()) : 1 ≤ o.key.utf8ByteSize := by
  simp only [validate, bind_eq_ok, ensure_eq_ok] at h
  obtain ⟨_, _, _, hkey, _⟩ := h
  exact hkey.1

/-- Where a value may be set, it may be deleted. -/
theorem validate_empty (h : o.validate fc = .ok ()) :
    ({ o with value := "" } : SetValueOperation).validate fc = .ok () := by
  simp only [validate, bind_eq_ok] at h ⊢
  obtain ⟨_, haccount, _, hkey, _, haccs, _, hlength, _⟩ := h
  exact ⟨_, haccount, _, hkey, _, haccs, _, hlength, rfl⟩

end SetValueOperation

namespace AccountNotesDatabase

variable {W Json : Type} {fc : Fc Json} {db db' : AccountNotesDatabase W}
  {settings : AccountNotesSettings} {o : SetValueOperation}

section lookup

/-- The names that the value of a list gives to `get_global_value_accs`. -/
def accsIn (fc : Fc Json) (value : String) : List AccountName :=
  let elements := ((fc.fromString value).bind fc.getArray).getD []
  ((elements.map fc.asString).takeWhile Option.isSome).filterMap id

/-- The note that is met first under the key, which has no NUL. -/
def firstNote (db : AccountNotesDatabase W) (key : String) : Option AccountNoteObject :=
  db.notes.rows.find? fun n => cString n.key = key

/-- The key of the list that says who may set a global value, as the indexes see it. -/
def accsKey (key : String) : String :=
  cString (key ++ ".accs")

theorem getGlobalValueAccs_eq (key : String) :
    db.getGlobalValueAccs fc key =
      (db.firstNote (accsKey key)).map fun n => (n.account, accsIn fc n.value) := rfl

theorem firstNote_eq_some {key : String} {n : AccountNoteObject} (h : db.firstNote key = some n) :
    n ∈ db.notes.rows ∧ cString n.key = key := by
  unfold firstNote at h
  have hkey := List.find?_some h
  exact ⟨List.mem_of_find?_eq_some h, by simpa using hkey⟩

theorem find?_of_firstNote {key : String} {n : AccountNoteObject} (h : db.firstNote key = some n) :
    db.notes.find? (n.account, key) = some n := by
  obtain ⟨hin, rfl⟩ := firstNote_eq_some h
  exact Table.find?_of_mem hin

/-- The account may set what the list of the note gives it the right to. -/
def Grants (fc : Fc Json) (n : AccountNoteObject) (account : AccountName) : Prop :=
  n.account = account ∨ account ∈ accsIn fc n.value ∨ isAll (accsIn fc n.value) = true

instance (fc : Fc Json) (n : AccountNoteObject) (account : AccountName) :
    Decidable (Grants fc n account) :=
  inferInstanceAs (Decidable (_ ∨ _))

theorem noteAccount_of_none (hnone : db.firstNote (accsKey o.key) = none) :
    db.noteAccount fc o = some o.account := by
  unfold noteAccount
  rw [getGlobalValueAccs_eq, hnone, Option.map_none, ite_self]

/-- Where a list is met, its owner's note is set, by those who may. -/
theorem noteAccount_of_some {n : AccountNoteObject} (hglobal : o.isGlobal = true)
    (hfirst : db.firstNote (accsKey o.key) = some n) (hne : n.account ≠ "") :
    db.noteAccount fc o = if Grants fc n o.account then some n.account else none := by
  unfold noteAccount
  rw [if_pos hglobal, getGlobalValueAccs_eq, hfirst]
  simp only [Option.map_some, hne, false_or, if_false]
  rfl

end lookup

section counts

/-- The number that is kept of the notes of an account. -/
def countIn (stats : Table AccountNoteStatsObject.account) (account : AccountName) : Nat :=
  ((stats.find? account).map fun s => s.noteCount.toNat).getD 0

def notesOf (db : AccountNotesDatabase W) (account : AccountName) : Nat :=
  db.notes.rows.countP fun n => n.account = account

theorem notesOf_eq_sum (account : AccountName) :
    (db.notesOf account : ℤ) = db.notes.sum fun n => if n.account = account then 1 else 0 :=
  (db.notes.sum_eq_countP fun n => n.account = account).symm

theorem countIn_modify {stats : Table AccountNoteStatsObject.account} {acc : AccountName}
    {s : AccountNoteStatsObject} {f : UInt16 → UInt16} (hs : stats.find? acc = some s)
    (account : AccountName) :
    countIn (stats.modify acc fun s => { s with noteCount := f s.noteCount }) account =
      if account = acc then (f s.noteCount).toNat else countIn stats account := by
  unfold countIn
  rw [Table.find?_modify]
  by_cases h : account = acc
  . rw [if_pos h, if_pos h, h, hs]
    rfl
  . rw [if_neg h, if_neg h]

theorem countIn_insert {stats : Table AccountNoteStatsObject.account} {acc : AccountName}
    (hs : stats.find? acc = none) (account : AccountName) :
    countIn (stats.insert ⟨acc, 1⟩ hs) account =
      if account = acc then 1 else countIn stats account := by
  unfold countIn
  rw [Table.find?_insert]
  by_cases h : account = acc
  . rw [if_pos h, if_pos h.symm]
    rfl
  . rw [if_neg h, if_neg (Ne.symm h)]

end counts

section outcomes

/-- What the operation does. -/
inductive SetValueOutcome (fc : Fc Json) (settings : AccountNotesSettings)
    (db : AccountNotesDatabase W) (o : SetValueOperation) : AccountNotesDatabase W → Prop
  | ignored : SetValueOutcome fc settings db o db
  | removed (acc : AccountName) (n : AccountNoteObject)
      (hacc : db.noteAccount fc o = some acc) (hn : db.notes.find? (acc, cString o.key) = some n)
      (hvalue : o.value = "") :
      SetValueOutcome fc settings db o
        { db with
          notes := db.notes.erase (acc, cString o.key)
          noteStats := db.noteStats.modify acc fun s => { s with noteCount := s.noteCount - 1 } }
  | edited (acc : AccountName) (n : AccountNoteObject) (value : String)
      (hacc : db.noteAccount fc o = some acc) (hn : db.notes.find? (acc, cString o.key) = some n) :
      SetValueOutcome fc settings db o
        { db with notes := db.notes.modify (acc, cString o.key) fun n => { n with value := value } }
  | created (acc : AccountName) (value : String) (noteStats : Table AccountNoteStatsObject.account)
      (hacc : db.noteAccount fc o = some acc) (hn : db.notes.find? (acc, cString o.key) = none)
      (hkey : ¬(o.key.utf8ByteSize < 1 ∨ settings.maxKeyLength < o.key.utf8ByteSize))
      (htracked : settings.isTrackedAccount acc = true)
      (hstats : ∀ account, countIn noteStats account =
        countIn db.noteStats account + if account = acc then 1 else 0) :
      SetValueOutcome fc settings db o
        { db with notes := db.notes.insert ⟨acc, o.key, value⟩ hn, noteStats := noteStats }

theorem outcome_of_storeNote {acc : AccountName} {value : String}
    (hacc : db.noteAccount fc o = some acc)
    (hkey : ¬(o.key.utf8ByteSize < 1 ∨ settings.maxKeyLength < o.key.utf8ByteSize))
    (htracked : settings.isTrackedAccount acc = true)
    (h : db.storeNote settings acc o.key value = .ok db') :
    SetValueOutcome fc settings db o db' := by
  unfold storeNote at h
  split at h
  . next n hn =>
    cases h
    exact .edited acc n value hacc hn
  . next hn =>
    split at h
    . next stats hstats =>
      split at h
      . cases h
        exact .ignored
      . next hroom =>
        simp only [bind_eq_ok, pure_eq_ok, get_eq_ok, Table.emplace_eq_some_iff] at h
        obtain ⟨notes, ⟨_, rfl⟩, rfl⟩ := h
        refine .created acc value _ hacc hn hkey htracked ?_
        intro account
        rw [countIn_modify (f := fun c => c + 1) hstats]
        split
        . next heq =>
          -- the number is below the limit, which is of 16 bits too
          have hlt : stats.noteCount.toNat < settings.maxNoteCount.toNat := by
            rw [← UInt16.lt_iff_toNat_lt]
            exact UInt16.not_le.mp hroom
          have hlimit := settings.maxNoteCount.toNat_lt
          have hcount : countIn db.noteStats account = stats.noteCount.toNat := by
            unfold countIn
            rw [heq, hstats]
            rfl
          rw [hcount, UInt16.toNat_add, UInt16.toNat_one]
          omega
        . rfl
    . next hstats =>
      simp only [bind_eq_ok, pure_eq_ok, get_eq_ok, Table.emplace_eq_some_iff] at h
      obtain ⟨_, ⟨_, rfl⟩, _, ⟨_, rfl⟩, rfl⟩ := h
      refine .created acc value _ hacc hn hkey htracked ?_
      intro account
      rw [countIn_insert]
      split
      . next heq =>
        unfold countIn
        rw [heq, hstats]
        rfl
      . rfl

theorem outcome_of_setValue (h : db.setValue fc settings o = .ok db') :
    SetValueOutcome fc settings db o db' := by
  unfold setValue at h
  split at h
  . cases h
    exact .ignored
  . next hkey =>
    split at h
    . cases h
      exact .ignored
    . next acc hacc =>
      split at h
      . cases h
        exact .ignored
      . next htracked =>
        rw [Bool.not_eq_true, Bool.not_eq_false'] at htracked
        split at h
        . next hvalue =>
          cases h
          unfold removeNote
          split
          . exact .ignored
          . next n hn => exact .removed acc n hacc hn hvalue
        . rw [bind_eq_ok] at h
          obtain ⟨value, _, h⟩ := h
          split at h
          . cases h
            exact .ignored
          . exact outcome_of_storeNote hacc hkey htracked h

end outcomes

section effects

/-- Only the note that the operation is about changes. -/
theorem SetValueOutcome.of_find?_ne {account : AccountName} {key : String}
    (h : SetValueOutcome fc settings db o db')
    (hne : db'.notes.find? (account, key) ≠ db.notes.find? (account, key)) :
    cString o.key = key ∧ db.noteAccount fc o = some account := by
  cases h with
  | ignored => exact absurd rfl hne
  | removed acc n hacc =>
    by_cases heq : (account, key) = (acc, cString o.key)
    . cases heq
      exact ⟨rfl, hacc⟩
    . exact absurd (Table.find?_erase_of_ne _ heq) hne
  | edited acc n value hacc =>
    by_cases heq : (account, key) = (acc, cString o.key)
    . cases heq
      exact ⟨rfl, hacc⟩
    . refine absurd ?_ hne
      dsimp only
      rw [Table.find?_modify, if_neg heq]
  | created acc value noteStats hacc hn =>
    by_cases heq : (acc, cString o.key) = (account, key)
    . cases heq
      exact ⟨rfl, hacc⟩
    . refine absurd ?_ hne
      dsimp only
      rw [Table.find?_insert, if_neg heq]

/-- The note that is met first under a key is still met first, unless it is removed. -/
theorem SetValueOutcome.firstNote {key : String} {n : AccountNoteObject}
    (h : SetValueOutcome fc settings db o db') (hfirst : db.firstNote key = some n)
    (hkept : db'.notes.find? (n.account, key) ≠ none) :
    ∃ n', db'.firstNote key = some n' ∧ n'.account = n.account := by
  have hkey := (firstNote_eq_some hfirst).2
  unfold AccountNotesDatabase.firstNote at hfirst ⊢
  cases h with
  | ignored => exact ⟨n, hfirst, rfl⟩
  | removed acc =>
    refine ⟨n, ?_, rfl⟩
    have hother : n.byAccountKey ≠ (acc, cString o.key) := by
      intro heq
      have hpair : (n.account, key) = (acc, cString o.key) := by
        rw [← heq, ← hkey]
      apply hkept
      rw [hpair]
      apply Table.find?_erase_self
    rw [List.find?_eq_some_iff_append] at hfirst ⊢
    obtain ⟨hn, before, after, hrows, hbefore⟩ := hfirst
    refine ⟨hn, before.filter fun m => m.byAccountKey ≠ (acc, cString o.key),
      after.filter fun m => m.byAccountKey ≠ (acc, cString o.key), ?_, ?_⟩
    . unfold Table.erase Table.filter
      dsimp only
      rw [hrows, List.filter_append, List.filter_cons_of_pos]
      exact decide_eq_true hother
    . intro m hm
      exact hbefore m (List.mem_of_mem_filter hm)
  | edited acc m value =>
    refine ⟨if n.byAccountKey = (acc, cString o.key) then { n with value := value } else n, ?_, ?_⟩
    . unfold Table.modify
      dsimp only
      rw [List.find?_map]
      have hsame : ((fun n : AccountNoteObject => decide (cString n.key = key)) ∘ fun n =>
          if n.byAccountKey = (acc, cString o.key) then { n with value := value } else n) =
            fun n => decide (cString n.key = key) := by
        funext m
        simp only [Function.comp_apply]
        split
        . rfl
        . rfl
      rw [hsame, hfirst]
      rfl
    . split
      . rfl
      . rfl
  | created acc value =>
    refine ⟨n, ?_, rfl⟩
    unfold Table.insert
    dsimp only
    rw [List.find?_append, hfirst, Option.some_or]

theorem noteAccount_ne_empty {acc : AccountName} (haccount : o.account ≠ "")
    (hacc : db.noteAccount fc o = some acc) : acc ≠ "" := by
  unfold noteAccount at hacc
  split at hacc
  . cases hacc
    exact haccount
  . split at hacc
    . rw [Option.some.injEq] at hacc
      split at hacc
      . exact hacc ▸ haccount
      . next hne => exact hacc ▸ hne
    . cases hacc

/-- What every note and every number of notes meet. -/
structure WellKept (settings : AccountNotesSettings) (db : AccountNotesDatabase W) : Prop where
  counted : ∀ account, countIn db.noteStats account = db.notesOf account
  notes : ∀ n ∈ db.notes.rows, n.account ≠ "" ∧
    ¬(n.key.utf8ByteSize < 1 ∨ settings.maxKeyLength < n.key.utf8ByteSize) ∧
      settings.isTrackedAccount n.account = true

theorem WellKept.of_outcome (h : WellKept settings db) (haccount : o.account ≠ "")
    (houtcome : SetValueOutcome fc settings db o db') : WellKept settings db' := by
  cases houtcome with
  | ignored => exact h
  | removed acc n hacc hn =>
    obtain ⟨hin, hkey⟩ := Table.find?_eq_some_iff.mp hn
    have hnotes : ∀ account, (({ db with notes := db.notes.erase (acc, cString o.key) } :
        AccountNotesDatabase W).notesOf account : ℤ) + (if account = acc then 1 else 0) =
          db.notesOf account := by
      intro account
      rw [notesOf_eq_sum, notesOf_eq_sum, Table.sum_erase _ _ hn]
      have hacc : n.account = acc := congrArg Prod.fst hkey
      rw [hacc]
      simp only [eq_comm]
      omega
    constructor
    . intro account
      have hbefore := h.counted acc
      have hafter := hnotes acc
      have hothers := hnotes account
      rw [if_pos rfl] at hafter
      unfold countIn at hbefore
      cases hstats : db.noteStats.find? acc with
      | none =>
        rw [hstats] at hbefore
        simp only [Option.map_none, Option.getD_none] at hbefore
        omega
      | some stats =>
        rw [hstats] at hbefore
        simp only [Option.map_some, Option.getD_some] at hbefore
        dsimp only
        rw [countIn_modify (f := fun c => c - 1) hstats]
        split
        . next heq =>
          subst heq
          have hpos : (1 : UInt16) ≤ stats.noteCount := by
            rw [UInt16.le_iff_toNat_le, UInt16.toNat_one]
            omega
          rw [UInt16.toNat_sub_of_le _ _ hpos, UInt16.toNat_one]
          unfold notesOf at hafter hbefore ⊢
          dsimp only at hafter ⊢
          omega
        . next hne =>
          rw [if_neg hne] at hothers
          have := h.counted account
          unfold notesOf at hothers this ⊢
          dsimp only at hothers ⊢
          omega
    . intro m hm
      exact h.notes m (Table.mem_erase.mp hm).1
  | edited acc n value hacc hn =>
    constructor
    . intro account
      rw [← Nat.cast_inj (R := ℤ), h.counted account, notesOf_eq_sum, notesOf_eq_sum]
      dsimp only
      rw [Table.sum_modify _ _ _ _ hn]
      simp
    . intro m hm
      rw [Table.mem_modify] at hm
      rcases hm with ⟨hm, -⟩ | ⟨m', hm', -, rfl⟩
      . exact h.notes m hm
      . exact h.notes m' hm'
  | created acc value noteStats hacc hn hkey htracked hstats =>
    constructor
    . intro account
      rw [← Nat.cast_inj (R := ℤ)]
      dsimp only
      rw [hstats, Nat.cast_add, h.counted account, notesOf_eq_sum, notesOf_eq_sum]
      dsimp only
      rw [Table.sum_insert]
      simp [eq_comm]
    . intro m hm
      rw [Table.mem_insert] at hm
      rcases hm with hm | rfl
      . exact h.notes m hm
      . exact ⟨noteAccount_ne_empty haccount hacc, hkey, htracked⟩

/-- What the operation does with a note that is there, once it is clear whose that is. -/
theorem setValue_of_noteAccount {acc : AccountName} {n : AccountNoteObject}
    (h : WellKept settings db) (hvalidate : o.validate fc = .ok ())
    (hsize : o.key.utf8ByteSize ≤ settings.maxKeyLength) (hacc : db.noteAccount fc o = some acc)
    (hn : db.notes.find? (acc, cString o.key) = some n) :
    db.setValue fc settings o =
      if o.value = "" then pure (db.removeNote acc o.key)
      else (do
        let value ← db.storedValue fc o (db.notes.find? (acc, cString o.key))
        if settings.maxValueLength < value.utf8ByteSize then
          pure db
        else
          db.storeNote settings acc o.key value) := by
  obtain ⟨hin, hpair⟩ := Table.find?_eq_some_iff.mp hn
  obtain ⟨-, -, htracked⟩ := h.notes n hin
  obtain rfl : n.account = acc := congrArg Prod.fst hpair
  have hpos := SetValueOperation.key_of_validate hvalidate
  unfold setValue
  rw [if_neg (by omega), hacc]
  simp only [htracked, Bool.not_true, Bool.false_eq_true, if_false]

/-- Who may set a note that is there deletes it. -/
theorem find?_setValue_empty {acc : AccountName} {n : AccountNoteObject}
    (h : WellKept settings db) (hvalidate : o.validate fc = .ok ())
    (hsize : o.key.utf8ByteSize ≤ settings.maxKeyLength) (hacc : db.noteAccount fc o = some acc)
    (hn : db.notes.find? (acc, cString o.key) = some n) (hvalue : o.value = "") :
    ∃ db', db.setValue fc settings o = .ok db' ∧ db'.notes.find? (acc, cString o.key) = none := by
  refine ⟨db.removeNote acc o.key, ?_, ?_⟩
  . rw [setValue_of_noteAccount h hvalidate hsize hacc hn, if_pos hvalue]
    rfl
  . unfold removeNote
    rw [hn]
    apply Table.find?_erase_self

/-- What passes the check can be stored. -/
theorem storedValue_of_validate (h : o.validate fc = .ok ()) (hvalue : o.value ≠ "")
    (note : Option AccountNoteObject) : ∃ value, db.storedValue fc o note = .ok value := by
  simp only [SetValueOperation.validate, bind_eq_ok] at h
  obtain ⟨_, _, _, _, _, _, _, _, h⟩ := h
  unfold storedValue
  by_cases haccs : o.isAccs = true
  . have hlst : o.isLst = false := by
      rw [← Bool.not_eq_true]
      exact fun hlst => SetValueOperation.not_isAccs_and_isLst ⟨haccs, hlst⟩
    rw [if_pos ⟨hvalue, .inr haccs⟩] at h
    simp only [bind_eq_ok, get_eq_ok, hlst, Bool.false_eq_true, if_false,
      SetValueOperation.validateAccs] at h
    obtain ⟨v, hv, _, _, names, hnames, _⟩ := h
    rw [if_pos haccs, hv]
    simp only [Checked.get, ok_bind, hnames]
    split
    . exact ⟨_, rfl⟩
    . exact ⟨_, rfl⟩
  . rw [if_neg haccs]
    by_cases hlst : o.isLst = true
    . rw [if_pos ⟨hvalue, .inl hlst⟩] at h
      simp only [bind_eq_ok, get_eq_ok, hlst, if_true, ensure_eq_ok] at h
      obtain ⟨v, hv, hobject⟩ := h
      obtain ⟨add, hadd⟩ := Option.isSome_iff_exists.mp hobject
      rw [if_pos hlst, hv]
      simp only [Checked.get, ok_bind, hadd]
      split
      . exact ⟨_, rfl⟩
      . exact ⟨_, rfl⟩
    . rw [if_neg hlst]
      exact ⟨_, rfl⟩

/-- Who may set a note that is there puts another value in its place. -/
theorem find?_setValue {acc : AccountName} {n : AccountNoteObject}
    (h : WellKept settings db) (hvalidate : o.validate fc = .ok ())
    (hsize : o.key.utf8ByteSize ≤ settings.maxKeyLength) (hacc : db.noteAccount fc o = some acc)
    (hn : db.notes.find? (acc, cString o.key) = some n) (hvalue : o.value ≠ "") :
    ∃ db' value, db.setValue fc settings o = .ok db' ∧
      db.storedValue fc o (db.notes.find? (acc, cString o.key)) = .ok value ∧
      (value.utf8ByteSize ≤ settings.maxValueLength →
        (db'.notes.find? (acc, cString o.key)).map AccountNoteObject.value = some value) := by
  obtain ⟨value, hvalue'⟩ := @storedValue_of_validate _ _ fc db o hvalidate hvalue
    (db.notes.find? (acc, cString o.key))
  rw [setValue_of_noteAccount h hvalidate hsize hacc hn, if_neg hvalue, hvalue', ok_bind]
  split
  . next hlong => exact ⟨db, value, rfl, rfl, fun hle => absurd hlong (by omega)⟩
  . refine ⟨{ db with
        notes := db.notes.modify (acc, cString o.key) fun n => { n with value := value } },
      value, ?_, rfl, ?_⟩
    . unfold storeNote
      rw [hn]
      rfl
    . intro _
      rw [Table.find?_modify_self, hn]
      rfl

theorem setValue_of_long (hlong : settings.maxKeyLength < o.key.utf8ByteSize) :
    db.setValue fc settings o = .ok db := by
  unfold setValue
  rw [if_pos (.inr hlong)]
  rfl

end effects

end AccountNotesDatabase

end Golos
