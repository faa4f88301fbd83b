import Mathlib.Logic.Relation

/-!
This module contains a value with undo sessions: a session saves the value when it starts, and can
later be undone, squashed into the session below it, or committed, which forgets how to undo it.
Where the sessions are the steps of a relation, the oldest value that undoing can bring back only
ever goes forward.
-/

structure UndoStack (α : Type u) where
  value : α
  revision : Nat
  /-- The open sessions, newest first: the revision of each, and the value when it started. -/
  saved : List (Nat × α) := []

namespace UndoStack

variable {α : Type u} {s : UndoStack α}

def start (s : UndoStack α) : UndoStack α :=
  { s with revision := s.revision + 1, saved := (s.revision + 1, s.value) :: s.saved }

/-- Without a session there is nothing to undo. -/
def undo (s : UndoStack α) : UndoStack α :=
  match s.saved with
  | [] => s
  | (_, v) :: saved => { value := v, revision := s.revision - 1, saved := saved }

/-- The newest session becomes a part of the one below it. -/
def squash (s : UndoStack α) : UndoStack α :=
  match s.saved with
  | [] => s
  | [_] => { s with saved := [] }
  | _ :: saved => { s with revision := s.revision - 1, saved := saved }

/-- Sessions up to a revision can no longer be undone. -/
def commit (s : UndoStack α) (revision : Nat) : UndoStack α :=
  { s with saved := s.saved.filter fun session => revision < session.1 }

def set (s : UndoStack α) (v : α) : UndoStack α :=
  { s with value := v }

@[simp]
theorem value_start : s.start.value = s.value := rfl

@[simp]
theorem value_set (v : α) : (s.set v).value = v := rfl

@[simp]
theorem saved_set (v : α) : (s.set v).saved = s.saved := rfl

@[simp]
theorem revision_set (v : α) : (s.set v).revision = s.revision := rfl

@[simp]
theorem value_commit (revision : Nat) : (s.commit revision).value = s.value := rfl

@[simp]
theorem revision_commit (revision : Nat) : (s.commit revision).revision = s.revision := rfl

/-- Whatever happened to the value in the session, undoing it brings back the old one. -/
theorem undo_set_start (s : UndoStack α) (v : α) : (s.start.set v).undo = s := by
  simp [undo, set, start]

theorem undo_of_saved {r : Nat} {v : α} {saved : List (Nat × α)} (h : s.saved = (r, v) :: saved) :
    s.undo = { value := v, revision := s.revision - 1, saved := saved } := by
  unfold undo
  rw [h]

/-- In a session, what is undone does not depend on the value. -/
theorem undo_set (h : s.saved ≠ []) (v : α) : (s.set v).undo = s.undo := by
  unfold undo set
  split
  . next hsaved => exact absurd hsaved h
  . next hsaved =>
    dsimp only at hsaved
    rw [hsaved]

/-- A commit below a new session leaves it to be undone. -/
theorem undo_commit_start {revision : Nat} (h : revision ≤ s.revision) (v : α) :
    ((s.start.set v).commit revision).undo = s.commit revision := by
  have hkept : decide (revision < s.revision + 1) = true := decide_eq_true (Nat.lt_succ_of_le h)
  simp only [undo, commit, set, start, List.filter_cons, hkept, if_true, Nat.add_sub_cancel]

/-- Squashing a session on top of others keeps the value, and what lies below. -/
theorem squash_set_start {r : Nat} {w : α} {saved : List (Nat × α)} (h : s.saved = (r, w) :: saved)
    (v : α) : (s.start.set v).squash = s.set v := by
  simp [squash, set, start, h]

/-- The value meets `P`, and so does every value that undoing can bring back. -/
structure All (P : α → Prop) (s : UndoStack α) : Prop where
  value : P s.value
  saved : ∀ session ∈ s.saved, P session.2

namespace All

variable {P : α → Prop}

theorem start (h : s.All P) : s.start.All P := by
  refine ⟨h.value, ?_⟩
  intro session hsession
  rcases List.mem_cons.mp hsession with rfl | hsession
  . exact h.value
  . exact h.saved session hsession

theorem undo (h : s.All P) : s.undo.All P := by
  cases hsaved : s.saved with
  | nil =>
    unfold UndoStack.undo
    rw [hsaved]
    exact h
  | cons session saved =>
    rw [undo_of_saved hsaved]
    constructor
    . exact h.saved session (by rw [hsaved]; exact List.mem_cons_self)
    . intro session' hsession'
      exact h.saved session' (by rw [hsaved]; exact List.mem_cons_of_mem _ hsession')

theorem set (h : s.All P) {v : α} (hv : P v) : (s.set v).All P :=
  ⟨hv, h.saved⟩

theorem of_sublist {s' : UndoStack α} (h : s.All P) (hvalue : s'.value = s.value)
    (hsaved : ∀ session ∈ s'.saved, session ∈ s.saved) : s'.All P := by
  constructor
  . rw [hvalue]
    exact h.value
  . intro session hsession
    exact h.saved session (hsaved session hsession)

theorem commit (h : s.All P) (revision : Nat) : (s.commit revision).All P := by
  apply h.of_sublist
  . rfl
  . intro session hsession
    exact (List.mem_filter.mp hsession).1

theorem squash (h : s.All P) : s.squash.All P := by
  apply h.of_sublist
  . unfold UndoStack.squash
    split <;> rfl
  . intro session hsession
    unfold UndoStack.squash at hsession
    split at hsession
    . exact hsession
    . cases hsession
    . next hsaved =>
      rw [hsaved]
      exact List.mem_cons_of_mem _ hsession

end All

end UndoStack

namespace UndoStack

open Relation

variable {α : Type u} (R : α → α → Prop) (rank : α → Nat)

/-- The open sessions, newest first: the step of each led to the start of the next one. -/
inductive Ladder : List (Nat × α) → α → Prop
  | nil {v : α} : Ladder [] v
  | cons {saved : List (Nat × α)} {u v : α} (h : Ladder saved u) (hstep : R u v) :
    Ladder ((rank u + 1, u) :: saved) v

variable {R rank}
variable {saved : List (Nat × α)} {s : UndoStack α} {u v x : α}

/-- The value that undoing all sessions brings back. -/
def oldestOf (v : α) : List (Nat × α) → α
  | [] => v
  | (_, u) :: saved => oldestOf u saved

def oldest (s : UndoStack α) : α :=
  oldestOf s.value s.saved

theorem rank_le_of_reaches (hrank : ∀ u v, R u v → rank v = rank u + 1) (h : ReflTransGen R u v) :
    rank u ≤ rank v := by
  induction h with
  | refl => exact Nat.le_refl _
  | tail _ hstep ih =>
    have := hrank _ _ hstep
    omega

namespace Ladder

theorem reaches (h : Ladder R rank saved v) : ReflTransGen R (oldestOf v saved) v := by
  induction h with
  | nil => exact .refl
  | cons _ hstep ih => exact .tail ih hstep

/-- The sessions go down in steps of one. -/
theorem rank_lt (hrank : ∀ u v, R u v → rank v = rank u + 1) (h : Ladder R rank saved v)
    {session : Nat × α} (hin : session ∈ saved) : session.1 ≤ rank v := by
  induction h with
  | nil => cases hin
  | cons h hstep ih =>
    have hnext := hrank _ _ hstep
    rcases List.mem_cons.mp hin with rfl | hin
    . dsimp only
      omega
    . have := ih hin
      omega

/-- Committing forgets the lower sessions. -/
theorem commit (hrank : ∀ u v, R u v → rank v = rank u + 1) (h : Ladder R rank saved v)
    (revision : Nat) :
    Ladder R rank (saved.filter fun session => revision < session.1) v := by
  induction h with
  | nil => exact .nil
  | @cons saved u v h hstep ih =>
    rw [List.filter_cons]
    split
    . exact .cons ih hstep
    . next hle =>
      rw [List.filter_eq_nil_iff.mpr]
      . exact .nil
      . intro session hin
        have := h.rank_lt hrank hin
        simp only [decide_eq_true_eq] at hle ⊢
        omega

/-- What is left after a commit starts at a later value, and at none below the revision. -/
theorem oldest_commit (hrank : ∀ u v, R u v → rank v = rank u + 1) (h : Ladder R rank saved v)
    {revision : Nat} (hle : revision ≤ rank v) :
    ReflTransGen R (oldestOf v saved)
        (oldestOf v (saved.filter fun session => revision < session.1)) ∧
      revision ≤ rank (oldestOf v (saved.filter fun session => revision < session.1)) := by
  induction h with
  | nil => exact ⟨.refl, hle⟩
  | @cons saved u v h hstep ih =>
    rw [List.filter_cons]
    split
    . next hlt =>
      apply ih
      simp only [decide_eq_true_eq] at hlt
      omega
    . next hnot =>
      rw [List.filter_eq_nil_iff.mpr]
      . exact ⟨(h.reaches).tail hstep, hle⟩
      . intro session hin
        have := h.rank_lt hrank hin
        simp only [decide_eq_true_eq] at hnot ⊢
        omega

theorem of_saved {r : Nat} (h : Ladder R rank ((r, u) :: saved) v) :
    Ladder R rank saved u ∧ R u v ∧ r = rank u + 1 := by
  cases h with
  | cons h hstep => exact ⟨h, hstep, rfl⟩

end Ladder

variable (R rank) in
/--
The sessions are steps, nothing before `x` can be brought back any more, and neither can anything
below the floor of any value that is left.
-/
structure Anchored (floor : α → Nat) (x : α) (s : UndoStack α) : Prop where
  ladder : Ladder R rank s.saved s.value
  revision : s.revision = rank s.value
  anchor : ReflTransGen R x s.oldest
  floor_le : s.All fun v => floor v ≤ rank s.oldest

namespace Anchored

variable {floor : α → Nat}

theorem initial (hfloor : floor v ≤ rank v) :
    (UndoStack.mk v (rank v) []).Anchored R rank floor v :=
  ⟨.nil, rfl, .refl, hfloor, List.forall_mem_nil _⟩

/-- It can be anchored anew at the oldest value. -/
theorem again (h : s.Anchored R rank floor x) : s.Anchored R rank floor s.oldest :=
  ⟨h.ladder, h.revision, .refl, h.floor_le⟩

theorem reaches (h : s.Anchored R rank floor x) : ReflTransGen R x s.value :=
  h.anchor.trans h.ladder.reaches

theorem undo (hrank : ∀ u v, R u v → rank v = rank u + 1) (h : s.Anchored R rank floor x) :
    s.undo.Anchored R rank floor x := by
  obtain ⟨v, r, saved⟩ := s
  match saved, h with
  | [], h => exact h
  | (r', u) :: saved, h =>
    obtain ⟨hladder, hstep, -⟩ := h.ladder.of_saved
    have hrevision : r = rank v := h.revision
    rw [undo_of_saved rfl]
    refine ⟨hladder, ?_, h.anchor, ?_⟩
    . dsimp only
      rw [hrevision, hrank u v hstep, Nat.add_sub_cancel]
    . refine ⟨h.floor_le.saved _ List.mem_cons_self, ?_⟩
      intro session hin
      exact h.floor_le.saved session (List.mem_cons_of_mem _ hin)

/-- A step in a session of its own, after which all below its floor is committed. -/
theorem step (hrank : ∀ u v, R u v → rank v = rank u + 1) (h : s.Anchored R rank floor x)
    (hstep : R s.value v) (hfloor : floor v ≤ rank v) :
    ((s.start.set v).commit (floor v)).Anchored R rank floor x := by
  have hladder : Ladder R rank (s.start.set v).saved v := by
    show Ladder R rank ((s.revision + 1, s.value) :: s.saved) v
    rw [h.revision]
    exact .cons h.ladder hstep
  obtain ⟨hlater, hkept⟩ := hladder.oldest_commit hrank hfloor
  refine ⟨hladder.commit hrank _, ?_, h.anchor.trans hlater, hkept, ?_⟩
  . show s.revision + 1 = rank v
    rw [h.revision, hrank _ _ hstep]
  . intro session hin
    obtain ⟨hin, -⟩ := List.mem_filter.mp hin
    have hle : floor session.2 ≤ rank s.oldest := by
      rcases List.mem_cons.mp hin with rfl | hin
      . exact h.floor_le.value
      . exact h.floor_le.saved session hin
    exact Nat.le_trans hle (rank_le_of_reaches hrank hlater)

/-- A commit that keeps the value itself. -/
theorem commit (hrank : ∀ u v, R u v → rank v = rank u + 1) (h : s.Anchored R rank floor x)
    {revision : Nat} (hle : revision ≤ s.revision) :
    (s.commit revision).Anchored R rank floor x := by
  rw [h.revision] at hle
  obtain ⟨hlater, -⟩ := h.ladder.oldest_commit hrank hle
  have hmono := rank_le_of_reaches hrank hlater
  refine ⟨h.ladder.commit hrank _, h.revision, h.anchor.trans hlater, ?_, ?_⟩
  . exact Nat.le_trans h.floor_le.value hmono
  . intro session hin
    exact Nat.le_trans (h.floor_le.saved session (List.mem_filter.mp hin).1) hmono

end Anchored

end UndoStack
