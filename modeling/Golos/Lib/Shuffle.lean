import Mathlib.Data.Vector.Basic

/-!
This module contains the shuffle of the first places of an array, place by place from the front, and
the choice of the first elements of a queue that meet a condition.
-/

namespace Shuffle

variable {α : Type u} {m : Nat}

/-- Swap the element at a place with one from there on, which the draw of that place decides. -/
def step (draw : Nat → Nat) (n : Nat) (v : Vector α m) (i : Nat) : Vector α m :=
  v.swapIfInBounds i (i + draw i % (n - i))

/-- Shuffle the first `n` places. -/
def shuffle (draw : Nat → Nat) (n : Nat) (v : Vector α m) : Vector α m :=
  (List.range n).foldl (step draw n) v

theorem toList_swapIfInBounds {v : Vector α m} {i j : Nat} (hi : i < m) (hj : j < m) :
    (v.swapIfInBounds i j).toList = (v.toList.set i v[j]).set j v[i] := by
  have heq : v.swapIfInBounds i j = v.swap i j := by
    unfold Vector.swapIfInBounds Vector.swap
    simp [Array.swapIfInBounds_def, hi, hj]
  rw [heq, Vector.toList_swap]

theorem take_swapIfInBounds_perm {v : Vector α m} {n i j : Nat} (hi : i < n) (hj : j < n)
    (hn : n ≤ m) : ((v.swapIfInBounds i j).toList.take n).Perm (v.toList.take n) := by
  have hlength : (v.toList.take n).length = n := by simp [hn]
  have hget : ∀ k, (hk : k < n) → v[k] = (v.toList.take n)[k] := by
    intro k hk
    rw [List.getElem_take, Vector.getElem_toList]
  rw [toList_swapIfInBounds (by omega) (by omega), List.take_set, List.take_set, hget i hi,
    hget j hj]
  apply List.set_set_perm

theorem drop_swapIfInBounds {v : Vector α m} {n i j : Nat} (hi : i < n) (hj : j < n) (hn : n ≤ m) :
    (v.swapIfInBounds i j).toList.drop n = v.toList.drop n := by
  rw [toList_swapIfInBounds (by omega) (by omega), List.drop_set, if_pos hj, List.drop_set,
    if_pos hi]

theorem draw_lt (draw : Nat → Nat) {n i : Nat} (hi : i < n) : i + draw i % (n - i) < n := by
  have := Nat.mod_lt (draw i) (show 0 < n - i by omega)
  omega

theorem foldl_step (draw : Nat → Nat) {n : Nat} (hn : n ≤ m) {places : List Nat}
    (hplaces : ∀ i ∈ places, i < n) (v : Vector α m) :
    ((places.foldl (step draw n) v).toList.take n).Perm (v.toList.take n) ∧
      (places.foldl (step draw n) v).toList.drop n = v.toList.drop n := by
  induction places generalizing v with
  | nil => exact ⟨.refl _, rfl⟩
  | cons i places ih =>
    have hi := hplaces i List.mem_cons_self
    have hdraw := draw_lt draw hi
    obtain ⟨hperm, hdrop⟩ := ih (fun i hi => hplaces i (List.mem_cons_of_mem _ hi)) (step draw n v i)
    rw [List.foldl_cons]
    constructor
    . apply hperm.trans
      apply take_swapIfInBounds_perm hi hdraw hn
    . rw [hdrop]
      apply drop_swapIfInBounds hi hdraw hn

/-- No element of the first places is lost or doubled, whatever is drawn. -/
theorem take_shuffle_perm (draw : Nat → Nat) {n : Nat} (hn : n ≤ m) (v : Vector α m) :
    ((shuffle draw n v).toList.take n).Perm (v.toList.take n) :=
  (foldl_step draw hn (fun _ => List.mem_range.mp) v).1

theorem drop_shuffle (draw : Nat → Nat) {n : Nat} (hn : n ≤ m) (v : Vector α m) :
    (shuffle draw n v).toList.drop n = v.toList.drop n :=
  (foldl_step draw hn (fun _ => List.mem_range.mp) v).2

end Shuffle

namespace Queue

variable {α : Type u} (p : α → Bool)

/-- Go along the queue until `room` elements that satisfy `p` are met: all met, and these. -/
def select : Nat → List α → List α × List α
  | 0, _ => ([], [])
  | _, [] => ([], [])
  | room + 1, a :: queue =>
    if p a then
      let (met, selected) := select room queue
      (a :: met, a :: selected)
    else
      let (met, selected) := select (room + 1) queue
      (a :: met, selected)

theorem length_select (room : Nat) (queue : List α) : (select p room queue).2.length ≤ room := by
  induction queue generalizing room with
  | nil => cases room <;> exact Nat.zero_le _
  | cons a queue ih =>
    cases room with
    | zero => exact Nat.zero_le _
    | succ room =>
      rw [select]
      split
      . exact Nat.succ_le_succ (ih room)
      . exact ih (room + 1)

theorem exists_select_append (room : Nat) (queue : List α) :
    ∃ rest, queue = (select p room queue).1 ++ rest := by
  induction queue generalizing room with
  | nil =>
    refine ⟨[], ?_⟩
    cases room <;> rfl
  | cons a queue ih =>
    cases room with
    | zero => exact ⟨a :: queue, rfl⟩
    | succ room =>
      rw [select]
      split
      . obtain ⟨rest, hrest⟩ := ih room
        exact ⟨rest, congrArg (a :: ·) hrest⟩
      . obtain ⟨rest, hrest⟩ := ih (room + 1)
        exact ⟨rest, congrArg (a :: ·) hrest⟩

theorem select_eq_filter (room : Nat) (queue : List α) :
    (select p room queue).2 = (select p room queue).1.filter p := by
  induction queue generalizing room with
  | nil => cases room <;> rfl
  | cons a queue ih =>
    cases room with
    | zero => rfl
    | succ room =>
      rw [select]
      split
      . next h => simp [h, ih room]
      . next h => simp [h, ih (room + 1)]

theorem select_sublist (room : Nat) (queue : List α) :
    (select p room queue).2.Sublist queue := by
  obtain ⟨rest, hrest⟩ := exists_select_append p room queue
  rw [select_eq_filter]
  apply List.filter_sublist.trans
  conv => rhs; rw [hrest]
  exact List.sublist_append_left _ _

end Queue
