import Golos.Lib.Transition
import Golos.Plugins.Lemmas.Notes

/-!
This module contains the runs in which notes are set and blocks are undone, and what the list that an
account stores for a global note of its own is worth in all of them.
-/

namespace Golos

open Checked

open AccountNotesDatabase

namespace Notebook

def globalKey (name : String) : String :=
  "g." ++ name

/-- The key of the note, as the indexes see it. -/
def noteKey (name : String) : String :=
  cString (globalKey name)

/-- The key of the list, as the indexes see it. -/
def listKey (name : String) : String :=
  accsKey (globalKey name)

end Notebook

/-- A session of the database: the notes before it, and the keys of those that it removed. -/
structure NotesSession (W : Type) where
  db : AccountNotesDatabase W
  held : Bool
  removed : List (AccountName × String) := []

/-- The notes, and whether the owner was the first that stored the list, and has not deleted it. -/
structure Notebook (W : Type) where
  db : AccountNotesDatabase W
  held : Bool
  /-- The open sessions, newest first. -/
  sessions : List (NotesSession W) := []

namespace NotesSession

variable {W : Type} (session : NotesSession W)

def kept : List AccountNoteObject :=
  session.db.notes.rows.filter fun n => n.byAccountKey ∉ session.removed

def lost : List AccountNoteObject :=
  session.db.notes.rows.filter fun n => n.byAccountKey ∈ session.removed

/--
Undoing a session inserts again what it removed, and an index that is not unique puts that after all
that has the same key.
-/
def Restores (back : List AccountNoteObject) (db : AccountNotesDatabase W) : Prop :=
  back.Perm session.lost ∧ db.notes.rows = session.kept ++ back ∧
    db = { session.db with notes := db.notes }

end NotesSession

namespace Notebook

inductive Event
  | setValue (o : SetValueOperation)
  /-- All that changes no note. -/
  | chain
  | start
  | squash
  | commit (count : Nat)
  | undo (back : List AccountNoteObject)

variable {W Json : Type} (fc : Fc Json) (settings : AccountNotesSettings) (owner : AccountName)
  (name : String)

/-- The newest session takes note of the notes that are gone. -/
def record (db' : AccountNotesDatabase W) (w : Notebook W) : List (NotesSession W) :=
  match w.sessions with
  | [] => []
  | session :: sessions =>
    let gone := (w.db.notes.rows.map AccountNoteObject.byAccountKey).filter fun key =>
      (db'.notes.find? key).isNone
    { session with removed := gone ++ session.removed } :: sessions

def Deletes (o : SetValueOperation) (db db' : AccountNotesDatabase W) : Prop :=
  o.account = owner ∧ (db.notes.find? (owner, listKey name)).isSome ∧
    (db'.notes.find? (owner, listKey name)).isNone

instance (o : SetValueOperation) (db db' : AccountNotesDatabase W) :
    Decidable (Deletes owner name o db db') :=
  inferInstanceAs (Decidable (_ ∧ _))

def StoresFirst (o : SetValueOperation) (db db' : AccountNotesDatabase W) : Prop :=
  o.account = owner ∧ (db.firstNote (listKey name)).isNone ∧
    (db'.notes.find? (owner, listKey name)).isSome

instance (o : SetValueOperation) (db db' : AccountNotesDatabase W) :
    Decidable (StoresFirst owner name o db db') :=
  inferInstanceAs (Decidable (_ ∧ _))

def Step (w : Notebook W) : Event → Notebook W → Prop
  | .setValue o, w' =>
    o.validate fc = .ok () ∧ w.db.setValue fc settings o = .ok w'.db ∧
      (w'.held = true ↔ (w.held = true ∧ ¬Deletes owner name o w.db w'.db) ∨
        StoresFirst owner name o w.db w'.db) ∧
      w'.sessions = w.record w'.db
  | .chain, w' => ∃ chain, w' = { w with db := { w.db with chain := chain } }
  | .start, w' => w' = { w with sessions := { db := w.db, held := w.held } :: w.sessions }
  | .squash, w' =>
    ∃ session below sessions, w.sessions = session :: below :: sessions ∧
      w' = { w with
        sessions := { below with removed := session.removed ++ below.removed } :: sessions }
  | .commit count, w' => w' = { w with sessions := w.sessions.take count }
  | .undo back, w' =>
    ∃ session, w.sessions = session :: w'.sessions ∧ session.Restores back w'.db ∧
      w'.held = session.held

/-- The runs from no notes at all. -/
def keeping : TransitionSystem (Notebook W) Event where
  initial w := w.db.notes = .empty ∧ w.db.noteStats = .empty ∧ w.held = false ∧ w.sessions = []
  step := Step fc settings owner name

/--
A key of the list is governed by a note of no one else where the owner sets it, and by none that gives
anyone else the right to set it; no note gives a right to set the owner's that the list does not give;
and a list that comes back is the first again.
-/
def Undisturbed (w : Notebook W) : Event → Prop
  | .setValue o =>
    w.held = true → o.key.utf8ByteSize ≤ settings.maxKeyLength →
      ∀ n ∈ w.db.firstNote (accsKey o.key),
        (cString o.key = listKey name →
          if o.account = owner then n.account = owner
          else n.account = owner → ¬Grants fc n o.account) ∧
        (cString o.key = noteKey name → n.account = owner → Grants fc n o.account →
          ∀ l ∈ w.db.notes.find? (owner, listKey name), Grants fc l o.account)
  | .undo back =>
    ∀ session ∈ w.sessions.head?, session.held = true →
      (owner, listKey name) ∈ session.removed →
        (∀ n ∈ session.db.notes.rows, cString n.key = listKey name →
          n.byAccountKey ∈ session.removed) ∧
          (back.find? fun n => cString n.key = listKey name).map AccountNoteObject.account =
            some owner
  | _ => True

/-- The owner's list, and no other, says who may set the owner's note. -/
def GovernedBy (db : AccountNotesDatabase W) : Prop :=
  ∃ n, db.notes.find? (owner, listKey name) = some n ∧
    db.getGlobalValueAccs fc (globalKey name) = some (owner, accsIn fc n.value) ∧
    ∀ o : SetValueOperation, o.key = globalKey name →
      db.noteAccount fc o = if Grants fc n o.account then some owner else none

/-- What the operation, if it succeeds, makes of the owner's note and of its list. -/
structure Obeys (db : AccountNotesDatabase W) (o : SetValueOperation) : Prop where
  note : ∀ db', db.setValue fc settings o = .ok db' →
    db'.notes.find? (owner, noteKey name) ≠ db.notes.find? (owner, noteKey name) →
      ∀ n, db.notes.find? (owner, listKey name) = some n → Grants fc n o.account
  list : ∀ db', db.setValue fc settings o = .ok db' →
    db'.notes.find? (owner, listKey name) ≠ db.notes.find? (owner, listKey name) →
      o.account = owner
  own : o.account = owner → cString o.key = listKey name →
    o.key.utf8ByteSize ≤ settings.maxKeyLength → ∃ db', db.setValue fc settings o = .ok db' ∧
      (o.value = "" → db'.notes.find? (owner, listKey name) = none) ∧
      (o.value ≠ "" → ∃ value,
        db.storedValue fc o (db.notes.find? (owner, listKey name)) = .ok value ∧
        (value.utf8ByteSize ≤ settings.maxValueLength →
          (db'.notes.find? (owner, listKey name)).map AccountNoteObject.value = some value))

section states

variable {fc settings owner name} {db db' : AccountNotesDatabase W}

/-- The note that is met first under the key of the list is the owner's. -/
def Governs (owner : AccountName) (name : String) (db : AccountNotesDatabase W) : Prop :=
  ∃ n, db.firstNote (listKey name) = some n ∧ n.account = owner

theorem Governs.find? (h : Governs owner name db) :
    ∃ n, db.firstNote (listKey name) = some n ∧
      db.notes.find? (owner, listKey name) = some n ∧ n.account = owner := by
  obtain ⟨n, hn, rfl⟩ := h
  exact ⟨n, hn, find?_of_firstNote hn, rfl⟩

theorem isGlobal_of_noteKey {o : SetValueOperation} (h : cString o.key = noteKey name) :
    o.isGlobal = true :=
  SetValueOperation.isGlobal_of_cString h

theorem isGlobal_of_listKey {o : SetValueOperation} (h : cString o.key = listKey name) :
    o.isGlobal = true := by
  have heq : cString o.key = cString ("g." ++ (name ++ ".accs")) := by
    rw [h]
    unfold listKey accsKey globalKey
    rw [String.append_assoc]
  exact SetValueOperation.isGlobal_of_cString heq

/-- Where a note governs, its owner's note is set, by those who may. -/
theorem noteAccount_of_firstNote {o : SetValueOperation} {n : AccountNoteObject}
    (h : WellKept settings db) (hglobal : o.isGlobal = true)
    (hn : db.firstNote (accsKey o.key) = some n) :
    db.noteAccount fc o = if Grants fc n o.account then some n.account else none :=
  noteAccount_of_some hglobal hn (h.notes n (firstNote_eq_some hn).1).1

theorem governedBy_iff (h : WellKept settings db) :
    GovernedBy fc owner name db ↔ Governs owner name db := by
  constructor
  . rintro ⟨n, -, hmet, -⟩
    rw [getGlobalValueAccs_eq] at hmet
    obtain ⟨m, hm, heq⟩ := Option.map_eq_some_iff.mp hmet
    exact ⟨m, hm, congrArg Prod.fst heq⟩
  . intro hgoverns
    obtain ⟨n, hfirst, hn, rfl⟩ := hgoverns.find?
    refine ⟨n, hn, ?_, ?_⟩
    . rw [getGlobalValueAccs_eq]
      unfold listKey at hfirst
      rw [hfirst]
      rfl
    . intro o hkey
      have hne := (h.notes n (firstNote_eq_some hfirst).1).1
      apply noteAccount_of_some (isGlobal_of_noteKey (congrArg cString hkey)) ?_ hne
      rw [hkey]
      exact hfirst

end states

section operations

variable {fc settings owner name} {w w' : Notebook W} {db db' : AccountNotesDatabase W}
  {o : SetValueOperation} {n : AccountNoteObject}

/-- Nobody else sets the list. -/
theorem account_of_undisturbed (h : WellKept settings w.db) (hheld : w.held = true)
    (hok : Undisturbed fc settings owner name w (.setValue o)) (hkey : cString o.key = listKey name)
    (hsize : o.key.utf8ByteSize ≤ settings.maxKeyLength)
    (hacc : w.db.noteAccount fc o = some owner) : o.account = owner := by
  cases hn : w.db.firstNote (accsKey o.key) with
  | none =>
    rw [noteAccount_of_none hn] at hacc
    exact Option.some.inj hacc
  | some n =>
    rw [noteAccount_of_firstNote h (isGlobal_of_listKey hkey) hn] at hacc
    have hnot := (hok hheld hsize n hn).1 hkey
    by_contra hother
    rw [if_neg hother] at hnot
    split at hacc
    . next hgrants => exact hnot (Option.some.inj hacc) hgrants
    . cases hacc

/-- The owner does. -/
theorem noteAccount_of_undisturbed (h : WellKept settings w.db) (hheld : w.held = true)
    (hok : Undisturbed fc settings owner name w (.setValue o)) (hkey : cString o.key = listKey name)
    (hsize : o.key.utf8ByteSize ≤ settings.maxKeyLength) (hacc : o.account = owner) :
    w.db.noteAccount fc o = some owner := by
  cases hn : w.db.firstNote (accsKey o.key) with
  | none => rw [noteAccount_of_none hn, hacc]
  | some n =>
    have howner := (hok hheld hsize n hn).1 hkey
    rw [if_pos hacc] at howner
    rw [noteAccount_of_firstNote h (isGlobal_of_listKey hkey) hn,
      if_pos (.inl (howner.trans hacc.symm)), howner]

/-- Whoever sets the owner's note has the right to by the list. -/
theorem grants_of_undisturbed (h : WellKept settings w.db) (hheld : w.held = true)
    (hok : Undisturbed fc settings owner name w (.setValue o)) (hkey : cString o.key = noteKey name)
    (hsize : o.key.utf8ByteSize ≤ settings.maxKeyLength)
    (hacc : w.db.noteAccount fc o = some owner)
    (hl : w.db.notes.find? (owner, listKey name) = some n) : Grants fc n o.account := by
  cases hm : w.db.firstNote (accsKey o.key) with
  | none =>
    rw [noteAccount_of_none hm, Option.some.injEq] at hacc
    have howner : n.account = owner := congrArg Prod.fst (Table.key_of_find? hl)
    exact .inl (howner.trans hacc.symm)
  | some m =>
    rw [noteAccount_of_firstNote h (isGlobal_of_noteKey hkey) hm] at hacc
    split at hacc
    . next hgrants => exact (hok hheld hsize m hm).2 hkey (Option.some.inj hacc) hgrants n hl
    . cases hacc

/-- An operation that changes anything has a key that is not too long. -/
theorem size_of_find?_ne {account : AccountName} {key : String}
    (hset : db.setValue fc settings o = .ok db')
    (hne : db'.notes.find? (account, key) ≠ db.notes.find? (account, key)) :
    o.key.utf8ByteSize ≤ settings.maxKeyLength := by
  by_contra hlong
  rw [setValue_of_long (Nat.lt_of_not_le hlong)] at hset
  exact hne (Except.ok.inj hset ▸ rfl)

theorem obeys_of_undisturbed (h : WellKept settings w.db) (hheld : w.held = true)
    (hgoverns : Governs owner name w.db) (hvalidate : o.validate fc = .ok ())
    (hok : Undisturbed fc settings owner name w (.setValue o)) :
    Obeys fc settings owner name w.db o := by
  obtain ⟨n, hfirst, hn, hnowner⟩ := hgoverns.find?
  constructor
  . intro db' hset hne m hm
    obtain ⟨hkey, hacc⟩ := (outcome_of_setValue hset).of_find?_ne hne
    exact grants_of_undisturbed h hheld hok hkey (size_of_find?_ne hset hne) hacc hm
  . intro db' hset hne
    obtain ⟨hkey, hacc⟩ := (outcome_of_setValue hset).of_find?_ne hne
    exact account_of_undisturbed h hheld hok hkey (size_of_find?_ne hset hne) hacc
  . intro haccount hkey hsize
    have hacc := noteAccount_of_undisturbed h hheld hok hkey hsize haccount
    rw [← hkey] at hn ⊢
    by_cases hvalue : o.value = ""
    . obtain ⟨db', hset, hgone⟩ := find?_setValue_empty h hvalidate hsize hacc hn hvalue
      exact ⟨db', hset, fun _ => hgone, fun hne => absurd hvalue hne⟩
    . obtain ⟨db', value, hset, hstored, hput⟩ := find?_setValue h hvalidate hsize hacc hn hvalue
      exact ⟨db', hset, fun hempty => absurd hempty hvalue, fun _ => ⟨value, hstored, hput⟩⟩

/-- The deletion of a note of the owner's, by who has the right to by the note that is met first. -/
theorem find?_of_deletion {key : String} {l : AccountNoteObject} (h : WellKept settings w.db)
    (hvalidate : ({ o with value := "" } : SetValueOperation).validate fc = .ok ())
    (hsize : o.key.utf8ByteSize ≤ settings.maxKeyLength) (hglobal : o.isGlobal = true)
    (hn : w.db.firstNote (accsKey o.key) = some n) (hnowner : n.account = owner)
    (hgrants : Grants fc n o.account) (hkey : cString o.key = key)
    (hl : w.db.notes.find? (owner, key) = some l) :
    ∃ db', w.db.setValue fc settings { o with value := "" } = .ok db' ∧
      db'.notes.find? (owner, key) ≠ w.db.notes.find? (owner, key) := by
  subst hkey
  have hacc : w.db.noteAccount fc { o with value := "" } = some owner := by
    rw [← hnowner]
    exact (noteAccount_of_firstNote h hglobal hn).trans (if_pos hgrants)
  obtain ⟨db', hset, hgone⟩ := find?_setValue_empty h hvalidate hsize hacc hl rfl
  refine ⟨db', hset, ?_⟩
  rw [hgone, hl]
  exact fun hnone => by cases hnone

/-- A deletion shows whose the list is taken for. -/
theorem undisturbed_of_obeys (h : WellKept settings w.db) (hgoverns : Governs owner name w.db)
    (hvalidate : ({ o with value := "" } : SetValueOperation).validate fc = .ok ())
    (hobeys : Obeys fc settings owner name w.db { o with value := "" }) :
    Undisturbed fc settings owner name w (.setValue o) := by
  intro hheld hsize n hn
  obtain ⟨m, hfirst, hm, hmowner⟩ := hgoverns.find?
  constructor
  . intro hkey
    have hglobal := isGlobal_of_listKey hkey
    split
    . next haccount =>
      obtain ⟨db', hset, hgone, -⟩ := hobeys.own haccount hkey hsize
      have hne : db'.notes.find? (owner, listKey name) ≠
          w.db.notes.find? (owner, listKey name) := by
        rw [hgone rfl, hm]
        exact fun hnone => by cases hnone
      obtain ⟨-, hacc⟩ := (outcome_of_setValue hset).of_find?_ne hne
      have hmet : w.db.noteAccount fc { o with value := "" } =
          if Grants fc n o.account then some n.account else none :=
        noteAccount_of_firstNote h hglobal hn
      rw [hmet] at hacc
      split at hacc
      . exact Option.some.inj hacc
      . cases hacc
    . next hother =>
      intro hnowner hgrants
      obtain ⟨db', hset, hne⟩ :=
        find?_of_deletion h hvalidate hsize hglobal hn hnowner hgrants hkey hm
      exact hother (hobeys.list db' hset hne)
  . intro hkey hnowner hgrants l hl
    cases hnote : w.db.notes.find? (owner, noteKey name) with
    | none =>
      -- then it is no other note than the list that governs
      by_cases hnul : '\x00' ∈ o.key.toList
      . have hmet := find?_of_firstNote hn
        rw [accsKey, cString.append_of_mem hnul, hkey, hnowner, hnote] at hmet
        cases hmet
      . rw [cString.eq_self hnul] at hkey
        by_cases hname : '\x00' ∈ (globalKey name).toList
        . have hsame : listKey name = noteKey name := cString.append_of_mem hname ".accs"
          rw [hsame, hnote] at hl
          cases hl
        . rw [hkey, noteKey, cString.eq_self hname] at hn
          have hmet := find?_of_firstNote hn
          rw [hnowner] at hmet
          have hsome : some n = some l := hmet.symm.trans hl
          exact Option.some.inj hsome ▸ hgrants
    | some x =>
      obtain ⟨db', hset, hne⟩ := find?_of_deletion h hvalidate hsize (isGlobal_of_noteKey hkey) hn
        hnowner hgrants hkey hnote
      exact hobeys.note db' hset hne l hl

end operations

section runs

variable {fc settings owner name} {w w' : Notebook W} {db db' : AccountNotesDatabase W}
  {o : SetValueOperation}

/-- The list that the owner stores where there is none is the first. -/
theorem governs_of_storesFirst (houtcome : SetValueOutcome fc settings db o db')
    (h : StoresFirst owner name o db db') : Governs owner name db' := by
  obtain ⟨-, hnone, hsome⟩ := h
  rw [Option.isNone_iff_eq_none] at hnone
  have hfresh : ∀ account, db.notes.find? (account, listKey name) = none := by
    intro account
    rw [Table.find?_eq_none_iff]
    intro n hn hpair
    have hkey : cString n.key = listKey name := congrArg Prod.snd hpair
    unfold firstNote at hnone
    rw [List.find?_eq_none] at hnone
    exact hnone n hn (decide_eq_true hkey)
  have hset : ∀ account, (db'.notes.find? (account, listKey name)).isSome →
      db.noteAccount fc o = some account := by
    intro account hsome
    have hne : db'.notes.find? (account, listKey name) ≠
        db.notes.find? (account, listKey name) := by
      rw [hfresh account]
      exact Option.isSome_iff_ne_none.mp hsome
    exact (houtcome.of_find?_ne hne).2
  cases hfirst : db'.firstNote (listKey name) with
  | none =>
    obtain ⟨n, hn⟩ := Option.isSome_iff_exists.mp hsome
    obtain ⟨hin, hpair⟩ := Table.find?_eq_some_iff.mp hn
    have hkey : cString n.key = listKey name := congrArg Prod.snd hpair
    unfold firstNote at hfirst
    rw [List.find?_eq_none] at hfirst
    exact absurd (decide_eq_true hkey) (hfirst n hin)
  | some n =>
    have hn := find?_of_firstNote hfirst
    have hacc := hset n.account (by rw [hn]; rfl)
    rw [hset owner hsome] at hacc
    exact ⟨n, hfirst, (Option.some.inj hacc).symm⟩

theorem governs_of_setValue (h : WellKept settings w.db) (hheld : w.held = true)
    (hgoverns : Governs owner name w.db) (hok : Undisturbed fc settings owner name w (.setValue o))
    (hset : w.db.setValue fc settings o = .ok db')
    (hkept : ¬Deletes owner name o w.db db') : Governs owner name db' := by
  have houtcome := outcome_of_setValue hset
  obtain ⟨n, hfirst, hn, rfl⟩ := hgoverns.find?
  apply houtcome.firstNote hfirst
  intro hgone
  have hne : db'.notes.find? (n.account, listKey name) ≠
      w.db.notes.find? (n.account, listKey name) := by
    rw [hgone, hn]
    exact fun hsome => by cases hsome
  obtain ⟨hkey, hacc⟩ := houtcome.of_find?_ne hne
  have haccount :=
    account_of_undisturbed h hheld hok hkey (size_of_find?_ne hset hne) hacc
  apply hkept
  refine ⟨haccount, ?_, ?_⟩
  . rw [hn]
    rfl
  . rw [hgone]
    rfl

section restores

variable {session : NotesSession W} {back : List AccountNoteObject}

theorem perm_of_restores (h : session.Restores back db) :
    db.notes.rows.Perm session.db.notes.rows := by
  obtain ⟨hback, hrows, -⟩ := h
  rw [hrows]
  refine (hback.append_left _).trans ?_
  apply List.Perm.trans List.perm_append_comm
  have hsplit := List.filter_append_perm (fun n => decide (n.byAccountKey ∈ session.removed))
    session.db.notes.rows
  unfold NotesSession.lost NotesSession.kept
  simpa only [decide_not] using hsplit

theorem wellKept_of_restores (h : WellKept settings session.db) (hback : session.Restores back db) :
    WellKept settings db := by
  have hperm := perm_of_restores hback
  obtain ⟨-, -, hdb⟩ := hback
  constructor
  . intro account
    have hcount : db.notesOf account = session.db.notesOf account := hperm.countP_eq _
    rw [hcount, ← h.counted account, hdb]
  . intro n hn
    exact h.notes n (hperm.mem_iff.mp hn)

/-- The list comes back as the first unless it was gone and another was not, or comes back earlier. -/
theorem governs_of_restores (h : Governs owner name session.db) (hback : session.Restores back db) :
    Governs owner name db ↔
      ((owner, listKey name) ∈ session.removed →
        (∀ n ∈ session.db.notes.rows, cString n.key = listKey name →
          n.byAccountKey ∈ session.removed) ∧
          (back.find? fun n => cString n.key = listKey name).map AccountNoteObject.account =
            some owner) := by
  obtain ⟨n, hfirst, hnowner⟩ := h
  obtain ⟨hin, hkey⟩ := firstNote_eq_some hfirst
  have hpair : n.byAccountKey = (owner, listKey name) := by
    rw [← hnowner, ← hkey]
  obtain ⟨-, hrows, -⟩ := hback
  have hmet : db.firstNote (listKey name) =
      (session.kept.find? fun n => cString n.key = listKey name).or
        (back.find? fun n => cString n.key = listKey name) := by
    unfold firstNote
    rw [hrows, List.find?_append]
  by_cases hgone : (owner, listKey name) ∈ session.removed
  . rw [imp_iff_right hgone]
    unfold Governs
    rw [hmet]
    cases hother : session.kept.find? fun n => cString n.key = listKey name with
    | none =>
      rw [List.find?_eq_none] at hother
      have hall : ∀ n ∈ session.db.notes.rows, cString n.key = listKey name →
          n.byAccountKey ∈ session.removed := by
        intro m hm hmkey
        by_contra hkept
        refine hother m ?_ (decide_eq_true hmkey)
        exact List.mem_filter.mpr ⟨hm, decide_eq_true hkept⟩
      rw [Option.none_or, Option.map_eq_some_iff, and_iff_right hall]
    | some m =>
      -- the one that stayed is another account's, and is now before the owner's
      have hm := List.mem_of_find?_eq_some hother
      have hmkey : cString m.key = listKey name := by simpa using List.find?_some hother
      obtain ⟨hmin, hmkept⟩ := List.mem_filter.mp hm
      rw [decide_eq_true_eq] at hmkept
      rw [Option.some_or]
      constructor
      . rintro ⟨m', hm', hmowner⟩
        cases hm'
        refine absurd ?_ hmkept
        unfold AccountNoteObject.byAccountKey
        rw [hmowner, hmkey]
        exact hgone
      . rintro ⟨hall, -⟩
        exact absurd (hall m hmin hmkey) hmkept
  . rw [iff_true_right fun hin => absurd hin hgone]
    refine ⟨n, ?_, hnowner⟩
    unfold firstNote at hfirst
    rw [List.find?_eq_some_iff_append] at hfirst
    obtain ⟨hn, before, after, hall, hbefore⟩ := hfirst
    have hkept : session.kept.find? (fun n => cString n.key = listKey name) = some n := by
      rw [List.find?_eq_some_iff_append]
      refine ⟨hn, before.filter fun n => n.byAccountKey ∉ session.removed,
        after.filter fun n => n.byAccountKey ∉ session.removed, ?_, ?_⟩
      . unfold NotesSession.kept
        rw [hall, List.filter_append, List.filter_cons_of_pos]
        rw [hpair]
        exact decide_eq_true hgone
      . intro m hm
        exact hbefore m (List.mem_of_mem_filter hm)
    rw [hmet, hkept, Option.some_or]

end restores

/-- What holds of the notes, and of those that every session would bring back. -/
structure Sound (settings : AccountNotesSettings) (owner : AccountName) (name : String)
    (db : AccountNotesDatabase W) (held : Bool) : Prop where
  kept : WellKept settings db
  governs : held = true → Governs owner name db

def Kept (settings : AccountNotesSettings) (owner : AccountName) (name : String) (w : Notebook W) :
    Prop :=
  Sound settings owner name w.db w.held ∧
    ∀ session ∈ w.sessions, Sound settings owner name session.db session.held

theorem kept_record (h : Kept settings owner name w) :
    ∀ session ∈ w.record db', Sound settings owner name session.db session.held := by
  obtain ⟨-, hsessions⟩ := h
  unfold record
  intro session hin
  split at hin
  . cases hin
  . next top sessions heq =>
    rw [heq] at hsessions
    rcases List.mem_cons.mp hin with rfl | hin
    . exact hsessions top List.mem_cons_self
    . exact hsessions session (List.mem_cons_of_mem _ hin)

theorem Kept.step {e : Event} (h : Kept settings owner name w)
    (hok : Undisturbed fc settings owner name w e) (hstep : Step fc settings owner name w e w') :
    Kept settings owner name w' := by
  obtain ⟨hnow, hsessions⟩ := h
  cases e with
  | setValue o =>
    obtain ⟨hvalidate, hset, hheld, hrecord⟩ := hstep
    have houtcome := outcome_of_setValue hset
    refine ⟨⟨?_, ?_⟩, ?_⟩
    . exact hnow.kept.of_outcome (SetValueOperation.account_ne_empty_of_validate hvalidate) houtcome
    . intro hheld'
      rcases hheld.mp hheld' with ⟨hheld, hkept⟩ | hfirst
      . exact governs_of_setValue hnow.kept hheld (hnow.governs hheld) hok hset hkept
      . exact governs_of_storesFirst houtcome hfirst
    . rw [hrecord]
      exact kept_record ⟨hnow, hsessions⟩
  | chain =>
    obtain ⟨chain, rfl⟩ := hstep
    exact ⟨⟨⟨hnow.kept.counted, hnow.kept.notes⟩, hnow.governs⟩, hsessions⟩
  | start =>
    cases hstep
    refine ⟨hnow, ?_⟩
    intro session hin
    rcases List.mem_cons.mp hin with rfl | hin
    . exact hnow
    . exact hsessions session hin
  | squash =>
    obtain ⟨session, below, sessions, heq, rfl⟩ := hstep
    rw [heq] at hsessions
    refine ⟨hnow, ?_⟩
    intro other hin
    rcases List.mem_cons.mp hin with rfl | hin
    . exact hsessions below (by simp)
    . exact hsessions other (by simp [hin])
  | commit count =>
    cases hstep
    refine ⟨hnow, ?_⟩
    intro session hin
    exact hsessions session (List.mem_of_mem_take hin)
  | undo back =>
    obtain ⟨session, heq, hback, hheld⟩ := hstep
    rw [heq] at hsessions
    have hsession := hsessions session List.mem_cons_self
    refine ⟨⟨wellKept_of_restores hsession.kept hback, ?_⟩, ?_⟩
    . intro hheld'
      rw [hheld] at hheld'
      rw [governs_of_restores (hsession.governs hheld') hback]
      apply hok session ?_ hheld'
      rw [heq]
      rfl
    . intro other hin
      exact hsessions other (List.mem_cons_of_mem _ hin)

theorem kept_of_reach
    (h : (keeping fc settings owner name).Reach (Undisturbed fc settings owner name) w) :
    Kept settings owner name w := by
  apply h.invariant
  . rintro w ⟨hnotes, hstats, hheld, hsessions⟩
    refine ⟨⟨⟨?_, ?_⟩, ?_⟩, ?_⟩
    . intro account
      unfold countIn notesOf
      rw [hnotes, hstats]
      rfl
    . rw [hnotes]
      intro n hn
      cases hn
    . rw [hheld]
      exact fun hfalse => by cases hfalse
    . rw [hsessions]
      intro session hin
      cases hin
  . intro w e w' hw hok hstep
    exact hw.step hok hstep

/--
In the runs that leave the list undisturbed, the number of every account's notes is right, the owner's
list governs its note, and what an operation would make of them is right exactly when it leaves the
list undisturbed too. An undone block brings back a list that governs exactly when it does so.
-/
theorem obeys_iff (fc : Fc Json) (settings : AccountNotesSettings) (owner : AccountName)
    (name : String) {w : Notebook W}
    (h : (keeping fc settings owner name).Reach (Undisturbed fc settings owner name) w) :
    (∀ account, countIn w.db.noteStats account = w.db.notesOf account) ∧
      (w.held = true → GovernedBy fc owner name w.db ∧
        ∀ o : SetValueOperation, o.validate fc = .ok () →
          ((∀ value, ({ o with value := value } : SetValueOperation).validate fc = .ok () →
            Obeys fc settings owner name w.db { o with value := value }) ↔
              Undisturbed fc settings owner name w (.setValue o))) ∧
      ∀ back w', (keeping fc settings owner name).step w (.undo back) w' → w'.held = true →
        (GovernedBy fc owner name w'.db ↔ Undisturbed fc settings owner name w (.undo back)) := by
  obtain ⟨hnow, hsessions⟩ := kept_of_reach h
  refine ⟨hnow.kept.counted, ?_, ?_⟩
  . intro hheld
    have hgoverns := hnow.governs hheld
    refine ⟨(governedBy_iff hnow.kept).mpr hgoverns, ?_⟩
    intro o hvalidate
    constructor
    . intro hobeys
      have hempty := SetValueOperation.validate_empty hvalidate
      exact undisturbed_of_obeys hnow.kept hgoverns hempty (hobeys "" hempty)
    . intro hok value hvalidate'
      exact obeys_of_undisturbed hnow.kept hheld hgoverns hvalidate' hok
  . rintro back w' ⟨session, heq, hback, hheld⟩ hheld'
    have hsession := hsessions session (by simp [heq])
    rw [hheld] at hheld'
    have hkept := wellKept_of_restores hsession.kept hback
    rw [governedBy_iff hkept, governs_of_restores (hsession.governs hheld') hback]
    unfold Undisturbed
    rw [heq]
    simp [hheld']

end runs

section lockedOut

inductive Texts
  | text (s : String)
  | array (texts : List String)

/-- JSON as far as arrays of these two names go. -/
def textsFc : Fc Texts where
  accountLess a b := a < b
  isUtf8 _ := true
  hash64 _ := 0
  isValid _ := true
  fromString s :=
    if s = "[\"alice\"]" then some (.array ["alice"])
    else if s = "[\"bobby\"]" then some (.array ["bobby"])
    else none
  toString
    | .text s => "\"" ++ s ++ "\""
    | .array texts => "[" ++ ",".intercalate (texts.map fun s => "\"" ++ s ++ "\"") ++ "]"
  getArray
    | .text _ => none
    | .array texts => some (texts.map .text)
  getObject _ := none
  isNull _ := false
  asString
    | .text s => some s
    | .array _ => none
  ofTexts texts := .array texts
  ofObject _ := .array []

def noteSettings : AccountNotesSettings where
  maxKeyLength := 50
  maxValueLength := 65535
  maxNoteCount := 10

def noNotes : AccountNotesDatabase Unit where
  chain :=
    { ledger :=
        { accounts :=
            ⟨
              [{ name := "alice" }, { name := "bobby" }],
              show ["alice", "bobby"].Nodup by decide
            ⟩ }
      headBlockTime := 1000
      lastHardfork := 30
      world := () }

def listOfAlice : SetValueOperation where
  account := "alice"
  key := "g.x.accs"
  value := "[\"alice\"]"

/-- The stranger's list for the list. -/
def listOfBobby : SetValueOperation where
  account := "bobby"
  key := "g.x.accs.accs"
  value := "[\"bobby\"]"

def deletionOfAlice : SetValueOperation :=
  { listOfAlice with value := "" }

def listed : AccountNotesDatabase Unit :=
  (noNotes.setValue textsFc noteSettings listOfAlice).toOption.getD noNotes

def lockedOut : AccountNotesDatabase Unit :=
  (listed.setValue textsFc noteSettings listOfBobby).toOption.getD noNotes

theorem setValue_noNotes : noNotes.setValue textsFc noteSettings listOfAlice = .ok listed :=
  eq_ok_of_isSome (by decide +kernel)

theorem setValue_listed : listed.setValue textsFc noteSettings listOfBobby = .ok lockedOut :=
  eq_ok_of_isSome (by decide +kernel)

/-- Alice has stored her list, and bobby has stored one for it. -/
def lockedOutNotebook : Notebook Unit where
  db := lockedOut
  held := true

theorem reach_lockedOut :
    (keeping textsFc noteSettings "alice" "x").Reach (Undisturbed textsFc noteSettings "alice" "x")
      lockedOutNotebook := by
  have hstart : (keeping textsFc noteSettings "alice" "x").Reach (Undisturbed textsFc noteSettings "alice" "x")
      { db := noNotes, held := false } :=
    .initial ⟨rfl, rfl, rfl, rfl⟩
  have hlisted : (keeping textsFc noteSettings "alice" "x").Reach (Undisturbed textsFc noteSettings "alice" "x")
      { db := listed, held := true } := by
    apply hstart.step (e := .setValue listOfAlice)
    . intro hheld
      cases hheld
    . exact ⟨by decide +kernel, setValue_noNotes, by decide +kernel, rfl⟩
  apply hlisted.step (e := .setValue listOfBobby)
  . intro _ hkey
    revert hkey
    decide +kernel
  . exact ⟨by decide +kernel, setValue_listed, by decide +kernel, rfl⟩

/-- Alice cannot delete her list any more: the one for it is not hers. -/
theorem lockedOut_not_obeys :
    (keeping textsFc noteSettings "alice" "x").Reachable lockedOutNotebook ∧
      lockedOutNotebook.held = true ∧ deletionOfAlice.validate textsFc = .ok () ∧
      ¬Obeys textsFc noteSettings "alice" "x" lockedOutNotebook.db deletionOfAlice := by
  refine ⟨reach_lockedOut.reachable, rfl, by decide +kernel, ?_⟩
  intro hobeys
  obtain ⟨db', hset, hgone, -⟩ := hobeys.own rfl (by decide +kernel) (by decide)
  have hthere : ((lockedOut.setValue textsFc noteSettings deletionOfAlice).toOption.bind fun db =>
      db.notes.find? ("alice", listKey "x")).isSome = true := by
    decide +kernel
  have hset' : lockedOut.setValue textsFc noteSettings deletionOfAlice = .ok db' := hset
  rw [hset'] at hthere
  have hnone : db'.notes.find? ("alice", listKey "x") = none := hgone rfl
  simp [Except.toOption, hnone] at hthere

theorem governedBy_lockedOut :
    GovernedBy textsFc "alice" "x" lockedOutNotebook.db :=
  ((obeys_iff textsFc noteSettings "alice" "x" reach_lockedOut).2.1 rfl).1

end lockedOut

end Notebook

end Golos
