import Mathlib.Logic.Function.Basic

/-!
This module contains trees over lists that are built level by level: neighbours are joined in pairs,
and the last one of an odd level is carried up as it is.
-/

namespace PairTree

variable {α : Type u}

/-- The next level. -/
def pairUp (f : α → α → α) : List α → List α
  | a :: b :: l => f a b :: pairUp f l
  | l => l

theorem length_pairUp (f : α → α → α) (l : List α) : (pairUp f l).length = (l.length + 1) / 2 := by
  induction l using pairUp.induct with
  | case1 a b l ih =>
    rw [pairUp, List.length_cons, ih, List.length_cons, List.length_cons]
    omega
  | case2 l hl =>
    match l, hl with
    | [], _ => simp [pairUp]
    | [a], _ => simp [pairUp]
    | a :: b :: l, hl => exact absurd rfl (hl a b l)

/-- Two neighbours are joined. -/
theorem getElem?_pairUp {f : α → α → α} {l : List α} {k : Nat} {a b : α} (ha : l[2 * k]? = some a)
    (hb : l[2 * k + 1]? = some b) : (pairUp f l)[k]? = some (f a b) := by
  induction k generalizing l with
  | zero =>
    match l with
    | [] => cases ha
    | [x] => cases hb
    | x :: y :: l =>
      injection ha with ha
      injection hb with hb
      rw [pairUp, ha, hb]
      rfl
  | succ k ih =>
    match l with
    | [] => cases ha
    | [x] => cases ha
    | x :: y :: l => exact ih (l := l) ha hb

/-- The last one of an odd level is carried up. -/
theorem getElem?_pairUp_last {f : α → α → α} {l : List α} {k : Nat} (hlength : l.length = 2 * k + 1) :
    (pairUp f l)[k]? = l[2 * k]? := by
  induction k generalizing l with
  | zero =>
    match l, hlength with
    | [x], _ => rfl
  | succ k ih =>
    match l, hlength with
    | x :: y :: l, hlength =>
      apply ih (l := l)
      rw [List.length_cons, List.length_cons] at hlength
      omega

/-- What is left when only one is. -/
def root (f : α → α → α) : List α → Option α
  | [] => none
  | [a] => some a
  | a :: b :: l => root f (pairUp f (a :: b :: l))
termination_by l => l.length
decreasing_by
  rw [length_pairUp]
  simp only [List.length_cons]
  omega

theorem root_pairUp (f : α → α → α) (l : List α) : root f (pairUp f l) = root f l := by
  match l with
  | [] => rfl
  | [a] => rfl
  | a :: b :: l =>
    conv =>
      rhs
      rw [root]

theorem exists_root (f : α → α → α) {l : List α} (h : l ≠ []) : ∃ a, root f l = some a := by
  induction l using (root.induct f) with
  | case1 => exact absurd rfl h
  | case2 a => exact ⟨a, root.eq_2 f a⟩
  | case3 a b l ih =>
    rw [← root_pairUp]
    apply ih
    rw [pairUp]
    exact List.cons_ne_nil _ _

section injective

variable {f : α → α → α}

theorem pairUp_injective (hf : Function.Injective2 f) {l l' : List α} (hlength : l.length = l'.length)
    (h : pairUp f l = pairUp f l') : l = l' := by
  induction l using pairUp.induct generalizing l' with
  | case1 a b l ih =>
    match l', hlength with
    | a' :: b' :: l', hlength =>
      rw [pairUp, pairUp, List.cons.injEq] at h
      obtain ⟨rfl, rfl⟩ := hf h.1
      rw [ih (by simpa using hlength) h.2]
  | case2 l hl =>
    match l, l', hlength, hl with
    | [], [], _, _ => rfl
    | [a], [a'], _, _ => exact h
    | a :: b :: l, _, _, hl => exact absurd rfl (hl a b l)

/-- The root of a tree of known size tells the list. -/
theorem root_injective (hf : Function.Injective2 f) {l l' : List α} (hlength : l.length = l'.length)
    (h : root f l = root f l') : l = l' := by
  induction l using (root.induct f) generalizing l' with
  | case1 =>
    rw [List.length_nil, eq_comm, List.length_eq_zero_iff] at hlength
    exact hlength.symm
  | case2 a =>
    match l', hlength with
    | [a'], _ =>
      rw [root, root] at h
      rw [Option.some.inj h]
  | case3 a b l ih =>
    apply pairUp_injective hf hlength
    apply ih
    . rw [length_pairUp, length_pairUp, hlength]
    . rw [root_pairUp, root_pairUp, h]

end injective

end PairTree
