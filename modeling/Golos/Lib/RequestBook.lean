import Mathlib.Data.Finset.Card

/-!
This module contains books of requests: what each of several parties has been asked for, and what is
being asked for. A request ends when it is answered, or when the party goes; a party can refuse it too,
and then it is no longer asked, but the book is not told.
-/

structure RequestBook (κ : Type u) (ι : Type v) where
  asked : κ → Finset ι
  active : Finset ι

namespace RequestBook

open Relation

variable {κ : Type u} {ι : Type v} [DecidableEq κ] [DecidableEq ι]

/-- What happens to a book, labelled with what is refused. -/
inductive Step (b : RequestBook κ ι) : Option (κ × ι) → RequestBook κ ι → Prop
  /-- A party is asked for what nobody is being asked for. -/
  | ask {k : κ} {items : Finset ι} (h : Disjoint items b.active) :
    Step b none ⟨Function.update b.asked k (b.asked k ∪ items), b.active ∪ items⟩
  | answer {k : κ} {i : ι} (h : i ∈ b.asked k) :
    Step b none ⟨Function.update b.asked k ((b.asked k).erase i), b.active.erase i⟩
  | refuse {k : κ} {i : ι} (h : i ∈ b.asked k) :
    Step b (some (k, i)) ⟨Function.update b.asked k ((b.asked k).erase i), b.active⟩
  | leave {k : κ} : Step b none ⟨Function.update b.asked k ∅, b.active \ b.asked k⟩

/-- Any number of steps, in which nothing is refused. -/
def Steps : RequestBook κ ι → RequestBook κ ι → Prop :=
  ReflTransGen fun b b' => b.Step none b'

variable {b b' : RequestBook κ ι} {label : Option (κ × ι)} {k : κ} {i : ι}

/-- Nothing is asked of two parties. -/
structure Sound (b : RequestBook κ ι) : Prop where
  active : ∀ k, b.asked k ⊆ b.active
  unique : ∀ k l i, i ∈ b.asked k → i ∈ b.asked l → k = l

/-- All that is being asked for is asked of somebody. -/
def Known (b : RequestBook κ ι) : Prop :=
  ∀ i ∈ b.active, ∃ k, i ∈ b.asked k

/-- It is being asked for, but nobody is asked. -/
def Lost (b : RequestBook κ ι) (i : ι) : Prop :=
  i ∈ b.active ∧ ∀ k, i ∉ b.asked k

omit [DecidableEq ι] in
theorem mem_update {asked : κ → Finset ι} {items : Finset ι} {l : κ} :
    i ∈ Function.update asked k items l ↔ (l = k ∧ i ∈ items) ∨ (l ≠ k ∧ i ∈ asked l) := by
  by_cases hl : l = k
  . subst hl
    simp
  . simp [hl]

theorem Sound.step (h : b.Sound) (hstep : b.Step label b') : b'.Sound := by
  have hactive := h.active
  have hunique := h.unique
  cases hstep with
  | ask hfresh =>
    have hnew := Finset.disjoint_left.mp hfresh
    constructor
    . grind [mem_update]
    . grind [mem_update]
  | answer hk =>
    constructor
    . grind [mem_update]
    . grind [mem_update]
  | refuse hk =>
    constructor
    . grind [mem_update]
    . grind [mem_update]
  | leave =>
    constructor
    . grind [mem_update]
    . grind [mem_update]

theorem Known.step (h : b.Known) (hstep : b.Step none b') : b'.Known := by
  intro i hi
  cases hstep with
  | @ask k items _ =>
    rcases Finset.mem_union.mp hi with hi | hi
    . obtain ⟨l, hl⟩ := h i hi
      exact ⟨l, by rw [mem_update]; grind⟩
    . exact ⟨k, by rw [mem_update]; grind⟩
  | answer _ =>
    obtain ⟨hne, hi⟩ := Finset.mem_erase.mp hi
    obtain ⟨l, hl⟩ := h i hi
    exact ⟨l, by rw [mem_update]; grind⟩
  | leave =>
    obtain ⟨hi, hout⟩ := Finset.mem_sdiff.mp hi
    obtain ⟨l, hl⟩ := h i hi
    exact ⟨l, by rw [mem_update]; grind⟩

/-- What is lost is never found. -/
theorem Lost.step (h : b.Lost i) (hstep : b.Step label b') : b'.Lost i := by
  obtain ⟨hactive, hnobody⟩ := h
  cases hstep with
  | ask hfresh =>
    have hold := Finset.disjoint_right.mp hfresh hactive
    refine ⟨Finset.mem_union_left _ hactive, fun l => ?_⟩
    rw [mem_update]
    grind
  | answer hk =>
    refine ⟨Finset.mem_erase.mpr ⟨?_, hactive⟩, fun l => ?_⟩
    . rintro rfl
      exact hnobody _ hk
    . rw [mem_update]
      grind
  | refuse hk =>
    refine ⟨hactive, fun l => ?_⟩
    rw [mem_update]
    grind
  | leave =>
    refine ⟨Finset.mem_sdiff.mpr ⟨hactive, hnobody _⟩, fun l => ?_⟩
    rw [mem_update]
    grind

theorem Sound.lost (h : b.Sound) (hstep : b.Step (some (k, i)) b') : b'.Lost i := by
  cases hstep with
  | refuse hk =>
    refine ⟨h.active _ hk, fun l => ?_⟩
    rw [mem_update]
    grind [h.unique]

namespace Steps

theorem sound (hsteps : b.Steps b') (h : b.Sound) : b'.Sound := by
  induction hsteps with
  | refl => exact h
  | tail _ hstep ih => exact ih.step hstep

theorem known (hsteps : b.Steps b') (h : b.Known) : b'.Known := by
  induction hsteps with
  | refl => exact h
  | tail _ hstep ih => exact ih.step hstep

theorem lost (hsteps : b.Steps b') (h : b.Lost i) : b'.Lost i := by
  induction hsteps with
  | refl => exact h
  | tail _ hstep ih => exact ih.step hstep

end Steps

end RequestBook
