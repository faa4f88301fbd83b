import Golos.Lib.Sorting

/-!
This module contains maps that are kept as lists ordered by their keys, with the search for a lower
bound in them.
-/

structure FlatMap (α β : Type) [LinearOrder α] where
  entries : List (α × β)
  sorted : entries.Pairwise fun x y => x.1 < y.1

namespace FlatMap

variable {α β : Type} [LinearOrder α]

def empty : FlatMap α β :=
  ⟨[], List.Pairwise.nil⟩

instance : Membership (α × β) (FlatMap α β) :=
  ⟨fun m e => e ∈ m.entries⟩

instance [DecidableEq β] (e : α × β) (m : FlatMap α β) : Decidable (e ∈ m) :=
  inferInstanceAs (Decidable (e ∈ m.entries))

/-- Put an entry into its place; `overwrite` says whether one that has the key already gives way. -/
def insertEntries (overwrite : Bool) (a : α) (b : β) : List (α × β) → List (α × β)
  | [] => [(a, b)]
  | (k, v) :: rest =>
    if a < k then (a, b) :: (k, v) :: rest
    else if k < a then (k, v) :: insertEntries overwrite a b rest
    else (k, if overwrite then b else v) :: rest

theorem key_mem_insertEntries {overwrite : Bool} {a : α} {b : β} {l : List (α × β)} {e : α × β}
    (h : e ∈ insertEntries overwrite a b l) : e.1 = a ∨ ∃ x ∈ l, x.1 = e.1 := by
  induction l with
  | nil =>
    rw [insertEntries, List.mem_singleton] at h
    exact .inl (by rw [h])
  | cons x rest ih =>
    obtain ⟨k, v⟩ := x
    rw [insertEntries] at h
    split at h
    . rcases List.mem_cons.mp h with rfl | h
      . exact .inl rfl
      . exact .inr ⟨e, h, rfl⟩
    . split at h
      . rcases List.mem_cons.mp h with rfl | h
        . exact .inr ⟨_, by simp, rfl⟩
        . rcases ih h with h | ⟨x, hx, he⟩
          . exact .inl h
          . exact .inr ⟨x, List.mem_cons_of_mem _ hx, he⟩
      . rcases List.mem_cons.mp h with rfl | h
        . exact .inr ⟨(k, v), by simp, rfl⟩
        . exact .inr ⟨e, List.mem_cons_of_mem _ h, rfl⟩

theorem sorted_insertEntries {overwrite : Bool} {a : α} {b : β} {l : List (α × β)}
    (h : l.Pairwise fun x y => x.1 < y.1) :
    (insertEntries overwrite a b l).Pairwise fun x y => x.1 < y.1 := by
  induction l with
  | nil => exact List.pairwise_singleton _ _
  | cons x rest ih =>
    obtain ⟨k, v⟩ := x
    obtain ⟨hk, hrest⟩ := List.pairwise_cons.mp h
    rw [insertEntries]
    split
    . next hlt =>
      refine List.pairwise_cons.mpr ⟨?_, h⟩
      intro e he
      rcases List.mem_cons.mp he with rfl | he
      . exact hlt
      . exact hlt.trans (hk e he)
    . split
      . next hlt =>
        refine List.pairwise_cons.mpr ⟨?_, ih hrest⟩
        intro e he
        rcases key_mem_insertEntries he with he | ⟨x, hx, he⟩
        . simpa [he] using hlt
        . rw [← he]
          exact hk x hx
      . exact List.pairwise_cons.mpr ⟨hk, hrest⟩

/-- `insert`: an entry that is there stays. -/
def insert (m : FlatMap α β) (a : α) (b : β) : FlatMap α β :=
  ⟨insertEntries false a b m.entries, sorted_insertEntries m.sorted⟩

/-- Assignment through `operator[]`. -/
def set (m : FlatMap α β) (a : α) (b : β) : FlatMap α β :=
  ⟨insertEntries true a b m.entries, sorted_insertEntries m.sorted⟩

def filter (m : FlatMap α β) (p : α × β → Bool) : FlatMap α β :=
  ⟨m.entries.filter p, m.sorted.filter p⟩

/-- The first entry whose key is not less. -/
def lowerBound (m : FlatMap α β) (a : α) : Option (α × β) :=
  m.entries.find? fun e => a ≤ e.1

theorem eq_of_mem {m : FlatMap α β} {x y : α × β} (hx : x ∈ m) (hy : y ∈ m) (h : x.1 = y.1) :
    x = y := by
  have hnodup : (m.entries.map Prod.fst).Nodup :=
    List.pairwise_map.mpr (m.sorted.imp fun hlt => ne_of_lt hlt)
  exact List.inj_on_of_nodup_map hnodup hx hy h

theorem mem_insertEntries {overwrite : Bool} {a : α} {b : β} {l : List (α × β)}
    (h : l.Pairwise fun x y => x.1 < y.1) (e : α × β) :
    e ∈ insertEntries overwrite a b l ↔
      (e = (a, b) ∧ (overwrite = true ∨ ∀ x ∈ l, x.1 ≠ a)) ∨
      (e ∈ l ∧ (overwrite = false ∨ e.1 ≠ a)) := by
  induction l with
  | nil => simp [insertEntries]
  | cons x rest ih =>
    obtain ⟨k, v⟩ := x
    obtain ⟨hk, hrest⟩ := List.pairwise_cons.mp h
    have ih := ih hrest
    rw [insertEntries]
    split
    . next hlt =>
      have hne : ∀ x ∈ (k, v) :: rest, x.1 ≠ a := by
        intro x hx
        rcases List.mem_cons.mp hx with rfl | hx
        . exact ne_of_gt hlt
        . exact ne_of_gt (hlt.trans (hk x hx))
      rw [List.mem_cons]
      constructor
      . rintro (rfl | he)
        . exact .inl ⟨rfl, .inr hne⟩
        . exact .inr ⟨he, .inr (hne e he)⟩
      . rintro (⟨rfl, -⟩ | ⟨he, -⟩)
        . exact .inl rfl
        . exact .inr he
    . split
      . next hlt =>
        rw [List.mem_cons, ih, List.mem_cons]
        have hka : k ≠ a := ne_of_lt hlt
        constructor
        . rintro (rfl | ⟨rfl, hor⟩ | ⟨he, hor⟩)
          . exact .inr ⟨.inl rfl, .inr hka⟩
          . refine .inl ⟨rfl, hor.imp_right fun hall => ?_⟩
            exact List.forall_mem_cons.mpr ⟨hka, hall⟩
          . exact .inr ⟨.inr he, hor⟩
        . rintro (⟨rfl, hor⟩ | ⟨rfl | he, hor⟩)
          . exact .inr (.inl ⟨rfl, hor.imp_right fun hall => (List.forall_mem_cons.mp hall).2⟩)
          . exact .inl rfl
          . exact .inr (.inr ⟨he, hor⟩)
      . next hle hge =>
        have hka : k = a := le_antisymm (not_lt.mp hle) (not_lt.mp hge)
        subst hka
        have hne : ∀ x ∈ rest, x.1 ≠ k := fun x hx => ne_of_gt (hk x hx)
        rw [List.mem_cons, List.mem_cons]
        cases overwrite with
        | true =>
          constructor
          . rintro (rfl | he)
            . exact .inl ⟨rfl, .inl rfl⟩
            . exact .inr ⟨.inr he, .inr (hne e he)⟩
          . rintro (⟨rfl, -⟩ | ⟨rfl | he, hor⟩)
            . exact .inl rfl
            . simp at hor
            . exact .inr he
        | false =>
          constructor
          . rintro (rfl | he)
            . exact .inr ⟨.inl rfl, .inl rfl⟩
            . exact .inr ⟨.inr he, .inl rfl⟩
          . rintro (⟨rfl, hor⟩ | ⟨he, -⟩)
            . simp at hor
            . exact he

theorem mem_insert {m : FlatMap α β} {a : α} {b : β} {e : α × β} :
    e ∈ m.insert a b ↔ e ∈ m ∨ (e = (a, b) ∧ ∀ x ∈ m, x.1 ≠ a) := by
  have h := @mem_insertEntries α β _ false a b m.entries m.sorted e
  simp only [Bool.false_eq_true, false_or, true_or, and_true] at h
  exact h.trans Or.comm

theorem mem_set {m : FlatMap α β} {a : α} {b : β} {e : α × β} :
    e ∈ m.set a b ↔ e = (a, b) ∨ (e ∈ m ∧ e.1 ≠ a) := by
  have h := @mem_insertEntries α β _ true a b m.entries m.sorted e
  simp only [true_or, and_true, Bool.true_eq_false, false_or] at h
  exact h

theorem mem_filter {m : FlatMap α β} {p : α × β → Bool} {e : α × β} :
    e ∈ m.filter p ↔ e ∈ m ∧ p e = true :=
  List.mem_filter

/-- Where the lower bound of a key does not lie above it, it is the entry of the key. -/
theorem lowerBound_eq_some {m : FlatMap α β} {a : α} {e : α × β} (h : m.lowerBound a = some e) :
    e ∈ m ∧ a ≤ e.1 := by
  refine ⟨List.mem_of_find?_eq_some h, ?_⟩
  simpa using List.find?_some h

theorem lowerBound_of_mem {m : FlatMap α β} {e : α × β} (h : e ∈ m) :
    m.lowerBound e.1 = some e := by
  have hsome : (m.lowerBound e.1).isSome := by
    rw [lowerBound, List.find?_isSome]
    exact ⟨e, h, by simp⟩
  obtain ⟨x, hx⟩ := Option.isSome_iff_exists.mp hsome
  obtain ⟨hmem, hle⟩ := lowerBound_eq_some hx
  rw [hx]
  by_contra hne
  have hkey : x.1 ≠ e.1 := fun hkey => hne (by rw [eq_of_mem hmem h hkey])
  -- an entry before the one of the key would have a smaller key
  obtain ⟨-, as, bs, hsplit, hbefore⟩ := List.find?_eq_some_iff_append.mp hx
  have hsorted := m.sorted
  rw [hsplit] at hsorted
  have hlater : e ∈ as ++ x :: bs := hsplit ▸ h
  rcases List.mem_append.mp hlater with he | he
  . have hnot := hbefore e he
    simp at hnot
  . rcases List.mem_cons.mp he with rfl | he
    . exact hkey rfl
    . have hlt := (List.pairwise_cons.mp (List.pairwise_append.mp hsorted).2.1).1 e he
      exact absurd hle (not_le.mpr hlt)

/-- The value of a key. -/
def find? (m : FlatMap α β) (a : α) : Option β :=
  (m.entries.find? fun e => e.1 = a).map Prod.snd

theorem find?_eq_some {m : FlatMap α β} {a : α} {b : β} : m.find? a = some b ↔ (a, b) ∈ m := by
  unfold find?
  rw [Option.map_eq_some_iff]
  constructor
  . rintro ⟨⟨k, v⟩, hfind, rfl⟩
    have hkey : k = a := by simpa using List.find?_some hfind
    subst hkey
    exact List.mem_of_find?_eq_some hfind
  . intro h
    have hsome : (m.entries.find? fun e => e.1 = a).isSome := by
      rw [List.find?_isSome]
      exact ⟨(a, b), h, by simp⟩
    obtain ⟨e, he⟩ := Option.isSome_iff_exists.mp hsome
    have hkey : e.1 = a := by simpa using List.find?_some he
    refine ⟨e, he, ?_⟩
    rw [eq_of_mem (List.mem_of_find?_eq_some he) h hkey]

theorem find?_eq_none {m : FlatMap α β} {a : α} : m.find? a = none ↔ ∀ b, (a, b) ∉ m := by
  rw [Option.eq_none_iff_forall_not_mem]
  constructor
  . intro h b hb
    exact h b (find?_eq_some.mpr hb)
  . intro h b hb
    exact h b (find?_eq_some.mp hb)

/--
Erase the entries from a lower bound on, up to one where `p` does not hold. The walk does not look
for the end of the entries, so there is no result when it gets there.
-/
def eraseFrom (m : FlatMap α β) (a : α) (p : α → Bool) : Option (FlatMap α β) :=
  let rest := (m.entries.dropWhile fun e => e.1 < a).dropWhile fun e => p e.1
  if rest = [] then
    none
  else
    some
      ⟨
        (m.entries.takeWhile fun e => e.1 < a) ++ rest,
        by
          refine m.sorted.sublist ?_
          conv_rhs => rw [← List.takeWhile_append_dropWhile (p := fun e => e.1 < a) (l := m.entries)]
          exact (List.dropWhile_sublist _).append_left _
      ⟩

/-- Where `p` holds for an interval of keys from the lower bound on, its entries are erased. -/
theorem eraseFrom_eq_some {m : FlatMap α β} {a : α} {p : α → Bool}
    (hp : ∀ x ∈ m, ∀ y ∈ m, a ≤ x.1 → x.1 < y.1 → p y.1 = true → p x.1 = true)
    {e : α × β} (he : e ∈ m) (hle : a ≤ e.1) (hend : p e.1 = false) :
    ∃ m', m.eraseFrom a p = some m' ∧ ∀ x, x ∈ m' ↔ x ∈ m ∧ ¬(a ≤ x.1 ∧ p x.1 = true) := by
  have hmem : ∀ {q : α × β → Bool} {l : List (α × β)}, (l.Pairwise fun x y => x.1 < y.1) →
      (∀ x ∈ l, ∀ y ∈ l, x.1 < y.1 → q y = true → q x = true) →
        ∀ x, x ∈ l.dropWhile q ↔ x ∈ l ∧ q x = false := by
    intro q l hl hq x
    constructor
    . intro hx
      exact ⟨(List.dropWhile_sublist q).subset hx, List.not_of_mem_dropWhile _ hl hq hx⟩
    . rintro ⟨hx, hqx⟩
      exact List.mem_dropWhile_of_not hx hqx
  have hbelow : ∀ x ∈ m.entries, ∀ y ∈ m.entries, x.1 < y.1 → decide (y.1 < a) = true →
      decide (x.1 < a) = true := by
    intro x _ y _ hxy hy
    exact decide_eq_true (hxy.trans (of_decide_eq_true hy))
  have hafter := hmem m.sorted hbelow
  have hrest := hmem (m.sorted.sublist (List.dropWhile_sublist fun e => decide (e.1 < a)))
    (q := fun e => p e.1) (by
      intro x hx y hy hxy
      rw [hafter] at hx hy
      exact hp x hx.1 y hy.1 (not_lt.mp (of_decide_eq_false hx.2)) hxy)
  have hin : e ∈ (m.entries.dropWhile fun e => e.1 < a).dropWhile fun e => p e.1 := by
    rw [hrest, hafter]
    exact ⟨⟨he, decide_eq_false (not_lt.mpr hle)⟩, hend⟩
  unfold eraseFrom
  rw [if_neg (List.ne_nil_of_mem hin)]
  refine ⟨_, rfl, ?_⟩
  intro x
  show x ∈ List.takeWhile _ _ ++ _ ↔ _
  rw [List.mem_append, hrest, hafter, List.takeWhile_eq_filter _ m.sorted hbelow, List.mem_filter,
    decide_eq_true_eq, decide_eq_false_iff_not, not_lt]
  show x ∈ m.entries ∧ _ ∨ _ ↔ x ∈ m.entries ∧ _
  by_cases hlt : x.1 < a
  . simp [hlt, not_le.mpr hlt]
  . simp [hlt, not_lt.mp hlt]

end FlatMap
