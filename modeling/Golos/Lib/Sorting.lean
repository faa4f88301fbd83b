import Mathlib.Data.List.Sort
import Mathlib.Data.List.TakeWhile

/-!
This module contains insertion sort by a relation that orders the elements of one list only, what
`takeWhile` takes of a sorted list and `dropWhile` leaves, and the order statistics of a list.
-/

namespace List

variable {α : Type u} (r : α → α → Prop) [DecidableRel r]

theorem pairwise_orderedInsert_of {l : List α} {a : α} (htotal : ∀ b ∈ l, r a b ∨ r b a)
    (htrans : ∀ b ∈ l, ∀ c ∈ l, r a b → r b c → r a c) (h : l.Pairwise r) :
    (l.orderedInsert r a).Pairwise r := by
  induction l with
  | nil => simp
  | cons b l ih =>
    rw [pairwise_cons] at h
    rw [orderedInsert_cons]
    split
    . next hab =>
      rw [pairwise_cons]
      refine ⟨?_, pairwise_cons.mpr h⟩
      intro c hc
      rcases mem_cons.mp hc with rfl | hc
      . exact hab
      . apply htrans b mem_cons_self c (mem_cons_of_mem b hc) hab
        apply h.1
        exact hc
    . next hab =>
      rw [pairwise_cons]
      constructor
      . intro c hc
        rcases (mem_orderedInsert r).mp hc with rfl | hc
        . rcases htotal b mem_cons_self with hr | hr
          . exact absurd hr hab
          . exact hr
        . apply h.1
          exact hc
      . apply ih
        . intro c hc
          apply htotal
          exact mem_cons_of_mem b hc
        . intro c hc d hd
          apply htrans
          . exact mem_cons_of_mem b hc
          . exact mem_cons_of_mem b hd
        . exact h.2

/-- The relation need only be total and transitive on the list. -/
theorem pairwise_insertionSort_of {l : List α} (htotal : ∀ a ∈ l, ∀ b ∈ l, r a b ∨ r b a)
    (htrans : ∀ a ∈ l, ∀ b ∈ l, ∀ c ∈ l, r a b → r b c → r a c) :
    (l.insertionSort r).Pairwise r := by
  induction l with
  | nil => simp
  | cons a l ih =>
    rw [insertionSort_cons]
    have hmem : ∀ b ∈ l.insertionSort r, b ∈ a :: l := by
      intro b hb
      rw [mem_insertionSort] at hb
      exact mem_cons_of_mem a hb
    apply pairwise_orderedInsert_of
    . intro b hb
      exact htotal a mem_cons_self b (hmem b hb)
    . intro b hb c hc
      exact htrans a mem_cons_self b (hmem b hb) c (hmem c hc)
    . apply ih
      . intro b hb c hc
        exact htotal b (mem_cons_of_mem a hb) c (mem_cons_of_mem a hc)
      . intro b hb c hc d hd
        exact htrans b (mem_cons_of_mem a hb) c (mem_cons_of_mem a hc) d (mem_cons_of_mem a hd)

theorem mem_dropWhile_of_not {p : α → Bool} {l : List α} {a : α} (ha : a ∈ l) (hp : p a = false) :
    a ∈ l.dropWhile p := by
  induction l with
  | nil => simp at ha
  | cons b l ih =>
    rw [dropWhile_cons]
    split
    . next hb =>
      rcases mem_cons.mp ha with rfl | ha
      . rw [hp] at hb
        cases hb
      . exact ih ha
    . exact ha

omit [DecidableRel r] in
/-- In a sorted list, what satisfies a downward closed `p` is dropped. -/
theorem not_of_mem_dropWhile {p : α → Bool} {l : List α} (h : l.Pairwise r)
    (hp : ∀ a ∈ l, ∀ b ∈ l, r a b → p b = true → p a = true) {a : α} (ha : a ∈ l.dropWhile p) :
    p a = false := by
  induction l with
  | nil => simp at ha
  | cons b l ih =>
    rw [pairwise_cons] at h
    rw [dropWhile_cons] at ha
    split at ha
    . apply ih h.2 _ ha
      intro c hc d hd
      exact hp c (mem_cons_of_mem b hc) d (mem_cons_of_mem b hd)
    . next hb =>
      cases hpa : p a with
      | false => rfl
      | true =>
        rcases mem_cons.mp ha with rfl | ha
        . exact absurd hpa hb
        . have := hp b mem_cons_self a (mem_cons_of_mem b ha) (h.1 a ha) hpa
          exact absurd this hb

omit [DecidableRel r] in
/-- In a sorted list, what satisfies a downward closed `p` comes first. -/
theorem takeWhile_eq_filter {p : α → Bool} {l : List α} (h : l.Pairwise r)
    (hp : ∀ a ∈ l, ∀ b ∈ l, r a b → p b = true → p a = true) : l.takeWhile p = l.filter p := by
  conv_rhs => rw [← takeWhile_append_dropWhile (p := p) (l := l), filter_append]
  rw [filter_eq_self.mpr fun a ha => mem_takeWhile_imp ha, filter_eq_nil_iff.mpr, append_nil]
  intro a ha
  rw [not_of_mem_dropWhile r h hp ha]
  decide

/-- The elements whose value is positive, from a list in the order of falling values. -/
theorem takeWhile_insertionSort_perm {β : Type v} [LinearOrder β] [Zero β] (f : α → β)
    (l : List α) :
    ((l.insertionSort fun a b => f b ≤ f a).takeWhile fun a => 0 < f a).Perm
      (l.filter fun a => 0 < f a) := by
  have hsorted : (l.insertionSort fun a b => f b ≤ f a).Pairwise fun a b => f b ≤ f a := by
    apply pairwise_insertionSort_of
    . exact fun a _ b _ => le_total (f b) (f a)
    . exact fun a _ b _ c _ hab hbc => hbc.trans hab
  rw [takeWhile_eq_filter _ hsorted]
  . exact (perm_insertionSort _ l).filter _
  . intro a _ b _ hab hb
    rw [decide_eq_true_eq] at hb ⊢
    exact hb.trans_le hab

end List

namespace OrderStat

variable {α : Type u} [LinearOrder α]

def nthElement (l : List α) (k : Nat) : Option α :=
  (l.insertionSort (· ≤ ·))[k]?

theorem mem_of_nthElement {l : List α} {k : Nat} {x : α} (h : nthElement l k = some x) :
    x ∈ l := by
  have := List.mem_of_getElem? h
  rwa [List.mem_insertionSort] at this

/-- All but `k` elements are at least the one at place `k`. -/
theorem length_le_of_nthElement {l : List α} {k : Nat} {x : α} (h : nthElement l k = some x) :
    l.length - k ≤ (l.filter (x ≤ ·)).length := by
  unfold nthElement at h
  have hperm := List.perm_insertionSort (· ≤ ·) l
  have hsorted := List.pairwise_insertionSort (· ≤ ·) l
  rw [← (hperm.filter (x ≤ ·)).length_eq, ← hperm.length_eq]
  generalize l.insertionSort (· ≤ ·) = s at h hsorted
  -- What comes from place `k` on is not below `x`, and stays in the filter.
  have hdrop : ∀ y ∈ s.drop k, x ≤ y := by
    obtain ⟨hk, rfl⟩ := List.getElem?_eq_some_iff.mp h
    rw [List.drop_eq_getElem_cons hk]
    intro y hy
    rcases List.mem_cons.mp hy with rfl | hy
    . exact le_rfl
    . have htail := hsorted.sublist (List.drop_sublist k s)
      rw [List.drop_eq_getElem_cons hk, List.pairwise_cons] at htail
      exact htail.1 y hy
  have hfilter : (s.drop k).filter (x ≤ ·) = s.drop k := by
    rw [List.filter_eq_self]
    intro y hy
    simpa using hdrop y hy
  have hsub := (List.drop_sublist k s).filter (x ≤ ·)
  rw [hfilter] at hsub
  have := hsub.length_le
  rwa [List.length_drop] at this

/-- The element at place `k` is below `c` just if more than `k` elements are. -/
theorem lt_iff_of_nthElement {l : List α} {k : Nat} {x c : α} (h : nthElement l k = some x) :
    x < c ↔ k < (l.filter (· < c)).length := by
  unfold nthElement at h
  have hperm := List.perm_insertionSort (· ≤ ·) l
  have hsorted := List.pairwise_insertionSort (· ≤ ·) l
  rw [← (hperm.filter (· < c)).length_eq]
  generalize l.insertionSort (· ≤ ·) = s at h hsorted
  obtain ⟨hk, rfl⟩ := List.getElem?_eq_some_iff.mp h
  constructor
  . intro hlt
    -- what comes before place `k` is not above the element there
    have htake : (s.take (k + 1)).filter (· < c) = s.take (k + 1) := by
      rw [List.filter_eq_self]
      intro y hy
      obtain ⟨i, hi, rfl⟩ := List.mem_iff_getElem.mp hy
      rw [List.length_take] at hi
      rw [List.getElem_take, decide_eq_true_iff]
      have hle : s[i] ≤ s[k] := by
        have hle : i ≤ k := by omega
        rcases Nat.lt_or_eq_of_le hle with hlt | rfl
        . exact List.pairwise_iff_getElem.mp hsorted i k _ _ hlt
        . exact le_rfl
      exact lt_of_le_of_lt hle hlt
    have hlength := ((List.take_sublist (k + 1) s).filter (· < c)).length_le
    rw [htake, List.length_take] at hlength
    omega
  . intro hcount
    by_contra hge
    rw [not_lt] at hge
    have hdrop : (s.drop k).filter (· < c) = [] := by
      rw [List.filter_eq_nil_iff]
      intro y hy
      obtain ⟨i, hi, rfl⟩ := List.mem_iff_getElem.mp hy
      rw [List.length_drop] at hi
      have hki : k + i < s.length := by omega
      rw [List.getElem_drop, decide_eq_true_iff, not_lt]
      have hle : s[k] ≤ s[k + i] := by
        rcases Nat.eq_zero_or_pos i with rfl | hpos
        . exact le_rfl
        . exact List.pairwise_iff_getElem.mp hsorted k (k + i) _ _ (by omega)
      exact le_trans hge hle
    have hsplit : s.filter (· < c) = (s.take k).filter (· < c) := by
      rw [← List.append_nil ((s.take k).filter (· < c)), ← hdrop, ← List.filter_append,
        List.take_append_drop]
    have hlength := List.length_filter_le (· < c) (s.take k)
    rw [hsplit] at hcount
    rw [List.length_take] at hlength
    omega

/-- The element that `nth_element` puts at a place when it compares a value of the elements. -/
def nthElementOn {β : Type v} (f : β → α) (l : List β) (k : Nat) : Option β :=
  (l.insertionSort (f · ≤ f ·))[k]?

theorem map_nthElementOn {β : Type v} (f : β → α) (l : List β) (k : Nat) :
    (nthElementOn f l k).map f = nthElement (l.map f) k := by
  unfold nthElementOn nthElement
  rw [← List.getElem?_map]
  congr 1
  apply List.map_insertionSort
  intros
  rfl

theorem mem_of_nthElementOn {β : Type v} {f : β → α} {l : List β} {k : Nat} {b : β}
    (h : nthElementOn f l k = some b) : b ∈ l := by
  have := List.mem_of_getElem? h
  rwa [List.mem_insertionSort] at this

theorem nthElementOn_isSome {β : Type v} (f : β → α) {l : List β} {k : Nat} (h : k < l.length) :
    (nthElementOn f l k).isSome := by
  unfold nthElementOn
  rw [List.getElem?_eq_getElem (by rwa [List.length_insertionSort])]
  rfl

end OrderStat
