import Mathlib.Algebra.BigOperators.Group.Finset.Piecewise
import Mathlib.Algebra.BigOperators.Group.Finset.Sigma
import Mathlib.Algebra.Ring.Int.Defs

/-!
This module contains nodes that may point to one another, where following the pointers leads, and
tallies that every node keeps of the weights of the nodes that reach it in a number of steps.
-/

namespace Pointers

variable {κ : Type u} {next : κ → Option κ} {x y a q : κ}

/-- What following the pointers leads to in so many steps, nothing where they end before. -/
def climb (next : κ → Option κ) : Nat → κ → Option κ
  | 0, x => some x
  | n + 1, x => (next x).bind (climb next n)

@[simp]
theorem climb_zero : climb next 0 x = some x := rfl

theorem climb_succ (n : Nat) : climb next (n + 1) x = (next x).bind (climb next n) := rfl

theorem climb_succ_eq_bind (n : Nat) : climb next (n + 1) x = (climb next n x).bind next := by
  induction n generalizing x with
  | zero =>
    rw [climb_succ, climb_zero, Option.bind_some]
    cases next x <;> rfl
  | succ n ih =>
    rw [climb_succ, climb_succ]
    cases next x with
    | none => rfl
    | some y => exact ih

theorem climb_add (m n : Nat) : climb next (m + n) x = (climb next m x).bind (climb next n) := by
  induction m generalizing x with
  | zero => rw [Nat.zero_add, climb_zero, Option.bind_some]
  | succ m ih =>
    rw [Nat.add_right_comm, climb_succ, climb_succ]
    cases next x with
    | none => rfl
    | some y => exact ih

theorem climb_eq_none_of_le {m n : Nat} (h : climb next m x = none) (hle : m ≤ n) :
    climb next n x = none := by
  obtain ⟨k, rfl⟩ := Nat.exists_eq_add_of_le hle
  rw [climb_add, h]
  rfl

theorem climb_mem {nodes : Finset κ} (hclosed : ∀ y ∈ nodes, ∀ x, next y = some x → x ∈ nodes)
    {n : Nat} (hx : x ∈ nodes) (hy : climb next n x = some y) : y ∈ nodes := by
  induction n generalizing y with
  | zero =>
    injection hy with hy
    exact hy ▸ hx
  | succ n ih =>
    rw [climb_succ_eq_bind, Option.bind_eq_some_iff] at hy
    obtain ⟨z, hz, hzy⟩ := hy
    exact hclosed z (ih hz) y hzy

/-- The pointers from a node on come to an end. -/
def Ends (next : κ → Option κ) (x : κ) : Prop :=
  ∃ n, climb next n x = none

/-- A node whose pointers end does not reach itself. -/
theorem Ends.eq_zero (h : Ends next x) {n : Nat} (hx : climb next n x = some x) : n = 0 := by
  obtain ⟨m, hm⟩ := h
  have hround : ∀ k, climb next (k * n) x = some x := by
    intro k
    induction k with
    | zero => rw [Nat.zero_mul, climb_zero]
    | succ k ih => rw [Nat.succ_mul, climb_add, ih, Option.bind_some, hx]
  by_contra hn
  have hnone := climb_eq_none_of_le hm (Nat.le_mul_of_pos_right m (Nat.pos_of_ne_zero hn))
  rw [hround m] at hnone
  cases hnone

section update

variable [DecidableEq κ]

theorem climb_update {r : Option κ} (havoids : ∀ n, climb next n x ≠ some a) (n : Nat) :
    climb (Function.update next a r) n x = climb next n x := by
  induction n generalizing x with
  | zero => rfl
  | succ n ih =>
    have hx : x ≠ a := fun hxa => havoids 0 (congrArg some hxa)
    rw [climb_succ, climb_succ, Function.update_of_ne hx]
    cases hy : next x with
    | none => rfl
    | some y =>
      apply ih
      intro m hm
      apply havoids (m + 1)
      rw [climb_succ, hy]
      exact hm

/-- Pointing a node elsewhere makes no circle if it is not reached from there. -/
theorem Ends.update {r : Option κ} (hr : ∀ q ∈ r, Ends next q ∧ ∀ n, climb next n q ≠ some a)
    (h : Ends next x) : Ends (Function.update next a r) x := by
  obtain ⟨n, hn⟩ := h
  induction n generalizing x with
  | zero => cases hn
  | succ n ih =>
    by_cases hxa : x = a
    . rw [hxa]
      cases r with
      | none => exact ⟨1, by rw [climb_succ, Function.update_self]; rfl⟩
      | some q =>
        obtain ⟨⟨m, hm⟩, havoids⟩ := hr q rfl
        refine ⟨m + 1, ?_⟩
        rw [climb_succ, Function.update_self, Option.bind_some, climb_update havoids, hm]
    . rw [climb_succ] at hn
      cases hy : next x with
      | none =>
        refine ⟨1, ?_⟩
        rw [climb_succ, Function.update_of_ne hxa, hy]
        rfl
      | some y =>
        rw [hy] at hn
        obtain ⟨m, hm⟩ := ih hn
        refine ⟨m + 1, ?_⟩
        rw [climb_succ, Function.update_of_ne hxa, hy]
        exact hm

end update

section tally

variable [DecidableEq κ] (next) (nodes : Finset κ) (w : κ → ℤ)

/-- Every node has its weight, and tallies of those of the nodes that point to it, one level up. -/
structure Tallied (depth : Nat) (tally : Nat → κ → ℤ) : Prop where
  zero : ∀ x ∈ nodes, tally 0 x = w x
  succ : ∀ i < depth, ∀ x ∈ nodes,
    tally (i + 1) x = ∑ y ∈ nodes with next y = some x, tally i y

variable {next nodes w} {depth : Nat} {tally : Nat → κ → ℤ}

/-- The nodes that reach some nodes in so many steps, sorted by what they reach. -/
theorem sum_climb (hclosed : ∀ y ∈ nodes, ∀ x, next y = some x → x ∈ nodes) (i : Nat)
    (p : κ → Prop) [DecidablePred p] :
    ∑ y ∈ nodes with p y, ∑ z ∈ nodes with climb next i z = some y, w z =
      ∑ z ∈ nodes with (climb next i z).any (p ·), w z := by
  have hmem : ∀ y z, (y ∈ nodes.filter p ∧ z ∈ nodes.filter fun z => climb next i z = some y) ↔
      (y ∈ nodes.filter fun y => climb next i z = some y ∧ p y) ∧
        z ∈ nodes.filter fun z => (climb next i z).any (p ·) := by
    intro y z
    simp only [Finset.mem_filter, Option.any_eq_true, decide_eq_true_eq]
    constructor
    . rintro ⟨⟨hy, hp⟩, hz, hzy⟩
      exact ⟨⟨hy, hzy, hp⟩, hz, y, hzy, hp⟩
    . rintro ⟨⟨hy, hzy, hp⟩, hz, -⟩
      exact ⟨⟨hy, hp⟩, hz, hzy⟩
  rw [Finset.sum_comm' hmem]
  apply Finset.sum_congr rfl
  intro z hz
  obtain ⟨hz, hany⟩ := Finset.mem_filter.mp hz
  rw [Option.any_eq_true] at hany
  obtain ⟨y, hy, hp⟩ := hany
  apply Finset.sum_eq_single_of_mem y
  . exact Finset.mem_filter.mpr ⟨climb_mem hclosed hz hy, hy, of_decide_eq_true hp⟩
  . intro y' hy' hne
    obtain ⟨-, hy', -⟩ := Finset.mem_filter.mp hy'
    rw [hy] at hy'
    injection hy' with hy'
    exact absurd hy'.symm hne

/-- A tally counts the nodes that reach the node in so many steps. -/
theorem Tallied.eq_sum (h : Tallied next nodes w depth tally)
    (hclosed : ∀ y ∈ nodes, ∀ x, next y = some x → x ∈ nodes) {i : Nat} (hi : i ≤ depth)
    (hx : x ∈ nodes) : tally i x = ∑ z ∈ nodes with climb next i z = some x, w z := by
  induction i generalizing x with
  | zero =>
    rw [h.zero x hx, Finset.sum_filter]
    simp only [climb_zero, Option.some.injEq]
    rw [Finset.sum_ite_eq' nodes x w, if_pos hx]
  | succ i ih =>
    have hlevel : ∀ y ∈ nodes.filter (next · = some x),
        tally i y = ∑ z ∈ nodes with climb next i z = some y, w z := by
      intro y hy
      exact ih (by omega) (Finset.mem_filter.mp hy).1
    rw [h.succ i hi x hx, Finset.sum_congr rfl hlevel, sum_climb hclosed]
    congr 1
    apply Finset.filter_congr
    intro z _
    rw [climb_succ_eq_bind, Option.any_eq_true, Option.bind_eq_some_iff]
    simp only [decide_eq_true_eq]

/-- At the nodes that point nowhere, the weight of every node that is not too deep counts once. -/
theorem Tallied.sum_ends (h : Tallied next nodes w depth tally)
    (hclosed : ∀ y ∈ nodes, ∀ x, next y = some x → x ∈ nodes) :
    ∑ x ∈ nodes with next x = none, ∑ i ∈ Finset.range (depth + 1), tally i x =
      ∑ z ∈ nodes with climb next (depth + 1) z = none, w z := by
  suffices hlevels : ∀ d ≤ depth, ∑ x ∈ nodes with next x = none,
      ∑ i ∈ Finset.range (d + 1), tally i x = ∑ z ∈ nodes with climb next (d + 1) z = none, w z from
    hlevels depth (Nat.le_refl _)
  intro d hd
  induction d with
  | zero =>
    simp only [Nat.zero_add, Finset.sum_range_one]
    rw [Finset.sum_congr rfl fun x hx => h.zero x (Finset.mem_filter.mp hx).1]
    congr 1
    apply Finset.filter_congr
    intro z _
    rw [climb_succ_eq_bind, climb_zero, Option.bind_some]
  | succ d ih =>
    have hlevel : ∀ y ∈ nodes.filter (next · = none),
        tally (d + 1) y = ∑ z ∈ nodes with climb next (d + 1) z = some y, w z := by
      intro y hy
      exact h.eq_sum hclosed hd (Finset.mem_filter.mp hy).1
    simp only [Finset.sum_range_succ _ (d + 1), Finset.sum_add_distrib]
    rw [ih (by omega), Finset.sum_congr rfl hlevel, sum_climb hclosed, ← Finset.sum_union]
    . congr 1
      ext z
      simp only [Finset.mem_union, Finset.mem_filter, Option.any_eq_true, decide_eq_true_eq]
      rw [climb_succ_eq_bind (d + 1), Option.bind_eq_none_iff]
      cases climb next (d + 1) z with
      | none => simp
      | some y => simp
    . rw [Finset.disjoint_filter]
      intro z _ hz
      rw [hz]
      exact Bool.false_ne_true

/-- With what the other nodes have at the last level, the weight of every node counts once. -/
theorem Tallied.sum_all (h : Tallied next nodes w depth tally)
    (hclosed : ∀ y ∈ nodes, ∀ x, next y = some x → x ∈ nodes) :
    (∑ x ∈ nodes, if next x = none then ∑ i ∈ Finset.range (depth + 1), tally i x
      else tally depth x) = ∑ z ∈ nodes, w z := by
  have hlast : ∑ x ∈ nodes with next x ≠ none, tally depth x =
      ∑ z ∈ nodes with climb next (depth + 1) z ≠ none, w z := by
    have hlevel : ∀ y ∈ nodes.filter (next · ≠ none),
        tally depth y = ∑ z ∈ nodes with climb next depth z = some y, w z := by
      intro y hy
      exact h.eq_sum hclosed (Nat.le_refl _) (Finset.mem_filter.mp hy).1
    rw [Finset.sum_congr rfl hlevel, sum_climb hclosed]
    congr 1
    apply Finset.filter_congr
    intro z _
    rw [climb_succ_eq_bind, Option.any_eq_true, Ne, Option.bind_eq_none_iff]
    simp only [decide_eq_true_eq, not_forall, exists_prop]
  rw [Finset.sum_ite, h.sum_ends hclosed, hlast, Finset.sum_filter_add_sum_filter_not]

end tally

end Pointers
