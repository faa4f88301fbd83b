import Mathlib.Algebra.Order.BigOperators.Group.List
import Mathlib.Algebra.Order.Group.Int
import Mathlib.Algebra.Ring.Int.Defs
import Mathlib.Data.List.Nodup
import Mathlib.Tactic.Tauto

/-!
This module contains finite tables with a unique key, the common shape of an index of a multi-index
container. The uniqueness of the key is a field, so no operation can build a table with two rows
of one key.
-/

/--
The rows of an index in insertion order, no two of them with the same `key`.
-/
structure Table {κ : Type u} {α : Type v} (key : α → κ) where
  rows : List α
  nodup : (rows.map key).Nodup

namespace Table

variable {κ : Type u} {α : Type v} {key : α → κ}

theorem ext_rows {s t : Table key} (h : s.rows = t.rows) : s = t := by
  cases s
  cases t
  cases h
  rfl

def empty : Table key :=
  ⟨[], List.nodup_nil⟩

instance : Inhabited (Table key) where
  default := empty

/-- Keep the rows that satisfy `p`. -/
def filter (t : Table key) (p : α → Bool) : Table key :=
  ⟨t.rows.filter p, t.nodup.sublist (List.filter_sublist.map key)⟩

/-- The sum of `f` over the rows. -/
def sum (t : Table key) (f : α → ℤ) : ℤ :=
  (t.rows.map f).sum

theorem mem_rows_inj (t : Table key) {a b : α} (ha : a ∈ t.rows) (hb : b ∈ t.rows)
    (h : key a = key b) : a = b :=
  List.inj_on_of_nodup_map t.nodup ha hb h

@[simp]
theorem rows_empty : (empty : Table key).rows = [] := rfl

theorem mem_filter {t : Table key} {p : α → Bool} {a : α} :
    a ∈ (t.filter p).rows ↔ a ∈ t.rows ∧ p a = true := by
  simp [filter]

@[simp]
theorem sum_empty (f : α → ℤ) : (empty : Table key).sum f = 0 := rfl

theorem sum_congr (t : Table key) {f g : α → ℤ} (h : ∀ a ∈ t.rows, f a = g a) :
    t.sum f = t.sum g := by
  unfold sum
  rw [List.map_congr_left h]

theorem sum_nonneg (t : Table key) {f : α → ℤ} (h : ∀ a ∈ t.rows, 0 ≤ f a) : 0 ≤ t.sum f := by
  unfold sum
  apply List.sum_nonneg
  intro x hx
  obtain ⟨a, ha, rfl⟩ := List.mem_map.mp hx
  exact h a ha

theorem le_sum (t : Table key) {f : α → ℤ} (h : ∀ a ∈ t.rows, 0 ≤ f a) {a : α} (ha : a ∈ t.rows) :
    f a ≤ t.sum f := by
  unfold sum
  apply List.single_le_sum
  . intro x hx
    obtain ⟨b, hb, rfl⟩ := List.mem_map.mp hx
    exact h b hb
  . exact List.mem_map_of_mem ha

theorem sum_le_sum (t : Table key) {f g : α → ℤ} (h : ∀ a ∈ t.rows, f a ≤ g a) :
    t.sum f ≤ t.sum g := by
  unfold sum
  exact List.sum_le_sum h

/-- Some of the rows add up to at most all of them. -/
theorem sum_map_le_sum (t : Table key) {l : List α} {f : α → ℤ} (h : ∀ a ∈ t.rows, 0 ≤ f a)
    (hnodup : l.Nodup) (hmem : ∀ a ∈ l, a ∈ t.rows) : (l.map f).sum ≤ t.sum f := by
  obtain ⟨l', hperm, hsub⟩ := List.subperm_of_subset hnodup hmem
  rw [← (hperm.map f).sum_eq]
  apply (hsub.map f).sum_le_sum
  intro x hx
  obtain ⟨a, ha, rfl⟩ := List.mem_map.mp hx
  exact h a ha

/-- The number of rows that satisfy `p`, as a sum. -/
theorem sum_eq_countP (t : Table key) (p : α → Prop) [DecidablePred p] :
    t.sum (fun a => if p a then 1 else 0) = t.rows.countP fun a => p a := by
  unfold sum
  induction t.rows with
  | nil => rfl
  | cons a l ih =>
    rw [List.map_cons, List.sum_cons, ih, List.countP_cons]
    split
    . next h => simp [h, add_comm]
    . next h => simp [h]

/--
Rewrite the rows that satisfy `p`. That `f` keeps the key is proved by `intros; rfl` where no proof is
given, the tactic that Mathlib runs for `Monoid.npow_zero`.
-/
def modifyWhere (t : Table key) (p : α → Bool) (f : α → α)
    (hf : autoParam (∀ a, key (f a) = key a) Monoid.npow_zero._autoParam) : Table key :=
  ⟨
    t.rows.map (fun a => if p a then f a else a),
    by
      have : key ∘ (fun a => if p a then f a else a) = key := by
        funext a
        simp only [Function.comp_apply]
        split
        . exact hf a
        . rfl
      rw [List.map_map, this]
      exact t.nodup
  ⟩

/-- A sum over the rows that satisfy `p`, as a sum over all. -/
theorem sum_filter (t : Table key) (p : α → Bool) (f : α → ℤ) :
    (t.filter p).sum f = t.sum fun a => if p a then f a else 0 := by
  simp only [sum, filter]
  induction t.rows with
  | nil => rfl
  | cons a l ih =>
    by_cases h : p a
    . simpa [h] using ih
    . simpa [h] using ih

theorem sum_modifyWhere (t : Table key) {p : α → Bool} {f : α → α} {hf : ∀ a, key (f a) = key a}
    {g : α → ℤ} (h : ∀ a, g (f a) = g a) : (t.modifyWhere p f hf).sum g = t.sum g := by
  simp only [sum, modifyWhere, List.map_map]
  congr 1
  apply List.map_congr_left
  intro a _
  simp only [Function.comp_apply]
  split
  . exact h a
  . rfl

theorem mem_modifyWhere {t : Table key} {p : α → Bool} {f : α → α}
    {hf : ∀ a, key (f a) = key a} {b : α} :
    b ∈ (t.modifyWhere p f hf).rows ↔ ∃ a ∈ t.rows, (if p a then f a else a) = b := by
  unfold modifyWhere
  exact List.mem_map

variable [DecidableEq κ]

def find? (t : Table key) (k : κ) : Option α :=
  t.rows.find? (fun a => key a = k)

/-- Append a row whose key is not taken. -/
def insert (t : Table key) (a : α) (h : t.find? (key a) = none) : Table key :=
  ⟨
    t.rows ++ [a],
    by
      simp only [find?, List.find?_eq_none, decide_eq_true_eq] at h
      rw [List.map_append, List.map_singleton, List.nodup_append_comm]
      simp only [List.singleton_append, List.nodup_cons, List.mem_map, not_exists, not_and]
      exact ⟨h, t.nodup⟩
  ⟩

/-- Append a row unless its key is taken, as `emplace` of a unique index does. -/
def emplace (t : Table key) (a : α) : Option (Table key) :=
  if h : t.find? (key a) = none then
    some (t.insert a h)
  else
    none

/-- Rewrite the row with key `k`, if there is one. -/
def modify (t : Table key) (k : κ) (f : α → α)
    (hf : autoParam (∀ a, key (f a) = key a) Monoid.npow_zero._autoParam) :
    Table key :=
  ⟨
    t.rows.map (fun a => if key a = k then f a else a),
    by
      have : key ∘ (fun a => if key a = k then f a else a) = key := by
        funext a
        simp only [Function.comp_apply]
        split
        . exact hf a
        . rfl
      rw [List.map_map, this]
      exact t.nodup
  ⟩

/-- Remove the row with key `k`, if there is one. -/
def erase (t : Table key) (k : κ) : Table key :=
  t.filter (fun a => key a ≠ k)

theorem find?_eq_some_iff {t : Table key} {k : κ} {a : α} :
    t.find? k = some a ↔ a ∈ t.rows ∧ key a = k := by
  unfold find?
  constructor
  . intro h
    have hmem := List.mem_of_find?_eq_some h
    have hkey := List.find?_some h
    exact ⟨hmem, by simpa using hkey⟩
  . rintro ⟨hmem, rfl⟩
    cases hfind : t.rows.find? (fun b => decide (key b = key a)) with
    | none =>
      rw [List.find?_eq_none] at hfind
      simp at hfind
      exact absurd rfl (hfind a hmem)
    | some b =>
      have hb := List.mem_of_find?_eq_some hfind
      have hkey := List.find?_some hfind
      rw [t.mem_rows_inj hb hmem (by simpa using hkey)]

theorem find?_eq_none_iff {t : Table key} {k : κ} :
    t.find? k = none ↔ ∀ a ∈ t.rows, key a ≠ k := by
  simp [find?]

theorem find?_modifyWhere (t : Table key) (p : α → Bool) (f : α → α)
    (hf : ∀ a, key (f a) = key a) (k : κ) :
    (t.modifyWhere p f hf).find? k = (t.find? k).map fun a => if p a then f a else a := by
  unfold find? modifyWhere
  rw [List.find?_map]
  congr 2
  funext a
  simp only [Function.comp_apply]
  split
  . rw [hf]
  . rfl

theorem find?_of_mem {t : Table key} {a : α} (h : a ∈ t.rows) : t.find? (key a) = some a :=
  find?_eq_some_iff.mpr ⟨h, rfl⟩

theorem mem_of_find? {t : Table key} {k : κ} {a : α} (h : t.find? k = some a) : a ∈ t.rows :=
  (find?_eq_some_iff.mp h).1

theorem key_of_find? {t : Table key} {k : κ} {a : α} (h : t.find? k = some a) : key a = k :=
  (find?_eq_some_iff.mp h).2

@[simp]
theorem find?_empty (k : κ) : (empty : Table key).find? k = none := rfl

theorem mem_insert {t : Table key} {a b : α} (h : t.find? (key a) = none) :
    b ∈ (t.insert a h).rows ↔ b ∈ t.rows ∨ b = a := by
  simp [insert]

theorem emplace_eq_some_iff {t t' : Table key} {a : α} :
    t.emplace a = some t' ↔ ∃ h : t.find? (key a) = none, t.insert a h = t' := by
  unfold emplace
  split
  . next h => simp [h]
  . next h => simp [h]

theorem mem_modify {t : Table key} {k : κ} {f : α → α} {hf : ∀ a, key (f a) = key a} {b : α} :
    b ∈ (t.modify k f hf).rows ↔
      (b ∈ t.rows ∧ key b ≠ k) ∨ ∃ a ∈ t.rows, key a = k ∧ f a = b := by
  simp only [modify, List.mem_map]
  constructor
  . rintro ⟨a, ha, hb⟩
    split at hb
    . next hk => exact .inr ⟨a, ha, hk, hb⟩
    . next hk => exact .inl ⟨hb ▸ ha, hb ▸ hk⟩
  . rintro (⟨hb, hk⟩ | ⟨a, ha, hk, hb⟩)
    . exact ⟨b, hb, by simp [hk]⟩
    . exact ⟨a, ha, by simp [hk, hb]⟩

theorem find?_modify (t : Table key) (k k' : κ) (f : α → α) (hf : ∀ a, key (f a) = key a) :
    (t.modify k f hf).find? k' = if k' = k then (t.find? k').map f else t.find? k' := by
  unfold find? modify
  rw [List.find?_map]
  have hkey : ∀ a, key (if key a = k then f a else a) = key a := by
    intro a
    split
    . exact hf a
    . rfl
  have hcomp : ((fun a => decide (key a = k')) ∘ fun a => if key a = k then f a else a)
      = fun a => decide (key a = k') := by
    funext a
    simp [hkey]
  rw [hcomp]
  cases hfind : t.rows.find? (fun a => decide (key a = k')) with
  | none => simp
  | some a =>
    have hk : key a = k' := by simpa using List.find?_some hfind
    split
    . next h => simp [hk, h]
    . next h => simp [hk, h]

@[simp]
theorem find?_modify_self (t : Table key) (k : κ) (f : α → α) (hf : ∀ a, key (f a) = key a) :
    (t.modify k f hf).find? k = (t.find? k).map f := by
  simp [find?_modify]

theorem find?_modify_of_ne (t : Table key) {k k' : κ} (f : α → α)
    (hf : ∀ a, key (f a) = key a) (h : k' ≠ k) : (t.modify k f hf).find? k' = t.find? k' := by
  simp [find?_modify, h]

/-- What a rewrite does depends only on the row it finds. -/
theorem modify_congr {t : Table key} {k : κ} {a : α} {f g : α → α}
    (hf : ∀ a, key (f a) = key a) (hg : ∀ a, key (g a) = key a) (ha : t.find? k = some a)
    (h : f a = g a) : t.modify k f hf = t.modify k g hg := by
  apply ext_rows
  unfold modify
  apply List.map_congr_left
  intro b hb
  split
  . next hk =>
    have hba : b = a := t.mem_rows_inj hb (mem_of_find? ha) (hk.trans (key_of_find? ha).symm)
    rw [hba, h]
  . rfl

/-- A rewrite leaves its row where it is. -/
theorem rows_modify_of_append {t : Table key} {l l' : List α} {a : α} (f : α → α)
    (hf : ∀ a, key (f a) = key a) (h : t.rows = l ++ a :: l') :
    (t.modify (key a) f hf).rows = l ++ f a :: l' := by
  have hnodup := t.nodup
  rw [h, List.map_append, List.map_cons, List.nodup_middle, List.nodup_cons, ← List.map_append]
    at hnodup
  have hother : ∀ m : List α, (∀ b ∈ m, b ∈ l ++ l') →
      m.map (fun b => if key b = key a then f b else b) = m := by
    intro m hm
    conv_rhs => rw [← List.map_id m]
    apply List.map_congr_left
    intro b hb
    rw [if_neg, id_eq]
    intro heq
    apply hnodup.1
    rw [← heq]
    exact List.mem_map_of_mem (hm b hb)
  show t.rows.map (fun b => if key b = key a then f b else b) = _
  rw [h, List.map_append, List.map_cons, if_pos rfl,
    hother l fun b hb => List.mem_append_left _ hb,
    hother l' fun b hb => List.mem_append_right _ hb]

/-- One more row is rewritten. -/
theorem modifyWhere_modify (t : Table key) (f : α → α) (hf : ∀ a, key (f a) = key a) {k : κ}
    {l : List κ} (hk : k ∉ l) :
    (t.modify k f hf).modifyWhere (fun a => key a ∈ l) f hf =
      t.modifyWhere (fun a => key a ∈ k :: l) f hf := by
  apply ext_rows
  simp only [modifyWhere, modify, List.map_map]
  apply List.map_congr_left
  intro a _
  simp only [Function.comp_apply, List.mem_cons]
  by_cases ha : key a = k
  . simp [ha, hf, hk]
  . simp [ha]

/-- To rewrite one row after the other is to rewrite them all. -/
theorem foldl_modify (t : Table key) (f : α → α) (hf : ∀ a, key (f a) = key a) {l : List κ}
    (hl : l.Nodup) :
    l.foldl (fun t k => t.modify k f hf) t = t.modifyWhere (fun a => key a ∈ l) f hf := by
  induction l generalizing t with
  | nil =>
    apply ext_rows
    simp [modifyWhere]
  | cons k l ih =>
    rw [List.nodup_cons] at hl
    rw [List.foldl_cons, ih _ hl.2, modifyWhere_modify t f hf hl.1]

/-- A rewrite that leaves its row as it is. -/
theorem modify_eq_self {t : Table key} {k : κ} {a : α} {f : α → α} (hf : ∀ a, key (f a) = key a)
    (ha : t.find? k = some a) (h : f a = a) : t.modify k f hf = t := by
  rw [modify_congr hf (fun _ => rfl) ha h]
  apply ext_rows
  simp [modify]

theorem mem_erase {t : Table key} {k : κ} {a : α} :
    a ∈ (t.erase k).rows ↔ a ∈ t.rows ∧ key a ≠ k := by
  simp [erase, filter]

@[simp]
theorem find?_erase_self (t : Table key) (k : κ) : (t.erase k).find? k = none := by
  rw [find?_eq_none_iff]
  intro a ha
  exact (mem_erase.mp ha).2

theorem find?_insert (t : Table key) (a : α) (h : t.find? (key a) = none) (k : κ) :
    (t.insert a h).find? k = if key a = k then some a else t.find? k := by
  split
  . next hk => exact find?_eq_some_iff.mpr ⟨(mem_insert h).mpr (.inr rfl), hk⟩
  . next hk =>
    unfold find? insert
    rw [List.find?_append]
    simp [hk]

theorem find?_erase_of_ne (t : Table key) {k k' : κ} (h : k' ≠ k) :
    (t.erase k).find? k' = t.find? k' := by
  ext a
  simp only [find?_eq_some_iff, mem_erase]
  constructor
  . rintro ⟨⟨ha, -⟩, hk⟩
    exact ⟨ha, hk⟩
  . rintro ⟨ha, hk⟩
    exact ⟨⟨ha, hk ▸ h⟩, hk⟩

section sum

theorem sum_insert (t : Table key) (a : α) (h : t.find? (key a) = none) (f : α → ℤ) :
    (t.insert a h).sum f = t.sum f + f a := by
  simp [sum, insert]

private theorem sum_map_ite_of_ne {l : List α} {k : κ} {g : α → α} (f : α → ℤ)
    (h : ∀ a ∈ l, key a ≠ k) :
    (l.map (fun a => f (if key a = k then g a else a))).sum = (l.map f).sum := by
  rw [List.map_congr_left]
  intro a ha
  simp [h a ha]

theorem sum_modify_of_none (t : Table key) {k : κ} (g : α → α) (hg : ∀ a, key (g a) = key a)
    (f : α → ℤ) (h : t.find? k = none) : (t.modify k g hg).sum f = t.sum f := by
  rw [find?_eq_none_iff] at h
  simp only [sum, modify, List.map_map]
  exact sum_map_ite_of_ne f h

/-- Rewriting one row changes the sum by the change of that row. -/
theorem sum_modify (t : Table key) {k : κ} {a : α} (g : α → α) (hg : ∀ a, key (g a) = key a)
    (f : α → ℤ) (h : t.find? k = some a) :
    (t.modify k g hg).sum f = t.sum f + (f (g a) - f a) := by
  obtain ⟨hmem, rfl⟩ := find?_eq_some_iff.mp h
  simp only [sum, modify, List.map_map]
  have hnodup := t.nodup
  generalize t.rows = l at hmem hnodup
  induction l with
  | nil => simp at hmem
  | cons b l ih =>
    rw [List.map_cons, List.nodup_cons] at hnodup
    obtain ⟨hb, hl⟩ := hnodup
    rcases List.mem_cons.mp hmem with rfl | hmem
    . have hne : ∀ c ∈ l, key c ≠ key a := by
        intro c hc heq
        exact hb (heq ▸ List.mem_map_of_mem hc)
      have := sum_map_ite_of_ne (g := g) f hne
      simp only [List.map_cons, List.sum_cons, Function.comp_apply, ↓reduceIte]
      simp only [Function.comp_def, this]
      omega
    . have hne : key b ≠ key a := by
        intro heq
        exact hb (heq ▸ List.mem_map_of_mem hmem)
      simp only [List.map_cons, List.sum_cons, Function.comp_apply, hne, ↓reduceIte, ih hmem hl]
      omega

/-- The rows that stay, as a sum over all. -/
theorem sum_erase_ite (t : Table key) (k : κ) (f : α → ℤ) :
    (t.erase k).sum f = t.sum fun a => if key a = k then 0 else f a := by
  simp only [sum, erase, filter]
  induction t.rows with
  | nil => rfl
  | cons a l ih =>
    by_cases h : key a = k
    . simpa [h] using ih
    . simpa [h] using ih

theorem sum_erase (t : Table key) {k : κ} {a : α} (f : α → ℤ) (h : t.find? k = some a) :
    (t.erase k).sum f = t.sum f - f a := by
  obtain ⟨hmem, rfl⟩ := find?_eq_some_iff.mp h
  have hnodup := t.nodup
  simp only [sum, erase, filter]
  generalize t.rows = l at hmem hnodup
  induction l with
  | nil => simp at hmem
  | cons b l ih =>
    rw [List.map_cons, List.nodup_cons] at hnodup
    obtain ⟨hb, hl⟩ := hnodup
    rcases List.mem_cons.mp hmem with rfl | hmem
    . have : l.filter (fun c => decide (key c ≠ key a)) = l := by
        rw [List.filter_eq_self]
        intro c hc
        have hne : key c ≠ key a := fun heq => hb (heq ▸ List.mem_map_of_mem hc)
        simpa using hne
      rw [List.filter_cons, this]
      simp
    . have hne : key b ≠ key a := fun heq => hb (heq ▸ List.mem_map_of_mem hmem)
      simp only [List.filter_cons, hne, ne_eq, not_false_eq_true, decide_true, ↓reduceIte,
        List.map_cons, List.sum_cons] at ih ⊢
      rw [ih hmem hl]
      omega

end sum

/-- `t'` is `t` without the rows of `l`. -/
structure Removes (t t' : Table key) (l : List α) : Prop where
  mem : ∀ a, a ∈ t'.rows ↔ a ∈ t.rows ∧ a ∉ l
  sum : ∀ f : α → ℤ, t'.sum f = t.sum f - (l.map f).sum

namespace Removes

variable {t t' t'' : Table key} {l m : List α}

omit [DecidableEq κ] in
theorem nil (t : Table key) : Removes t t [] where
  mem := by simp
  sum := by simp

theorem cons {a : α} (ha : a ∈ t.rows) (h : Removes (t.erase (key a)) t' l) :
    Removes t t' (a :: l) where
  mem := by
    intro b
    rw [h.mem, mem_erase, List.mem_cons]
    constructor
    . rintro ⟨⟨hb, hne⟩, hl⟩
      refine ⟨hb, ?_⟩
      rintro (rfl | hb)
      . exact hne rfl
      . exact hl hb
    . rintro ⟨hb, hl⟩
      simp only [not_or] at hl
      refine ⟨⟨hb, ?_⟩, hl.2⟩
      intro heq
      exact hl.1 (t.mem_rows_inj hb ha heq)
  sum := by
    intro f
    rw [h.sum, sum_erase _ _ (find?_of_mem ha)]
    simp only [List.map_cons, List.sum_cons]
    omega

theorem erase {a : α} (ha : a ∈ t.rows) : Removes t (t.erase (key a)) [a] :=
  .cons ha (.nil _)

omit [DecidableEq κ] in
theorem trans (h : Removes t t' l) (h' : Removes t' t'' m) : Removes t t'' (l ++ m) where
  mem := by
    intro a
    rw [h'.mem, h.mem, List.mem_append, not_or, and_assoc]
  sum := by
    intro f
    rw [h'.sum, h.sum, List.map_append, List.sum_append]
    omega

end Removes

/-- Different rows of `t`, each as it stands there: what a loop over an index goes through. -/
structure Lists (t : Table key) (l : List α) : Prop where
  nodup : (l.map key).Nodup
  row : ∀ a ∈ l, t.find? (key a) = some a

namespace Lists

variable {t : Table key} {l l' : List α}

theorem filter (t : Table key) (p : α → Bool) : Lists t (t.rows.filter p) where
  nodup := t.nodup.sublist (List.filter_sublist.map key)
  row := by
    intro a ha
    exact find?_of_mem (List.mem_of_mem_filter ha)

theorem all (t : Table key) : Lists t t.rows :=
  ⟨t.nodup, fun _ ha => find?_of_mem ha⟩

theorem perm (h : Lists t l) (hperm : l'.Perm l) : Lists t l' where
  nodup := (hperm.map key).nodup_iff.mpr h.nodup
  row := by
    intro a ha
    exact h.row a (hperm.mem_iff.mp ha)

theorem tail {a : α} (h : Lists t (a :: l)) : Lists t l where
  nodup := by
    have := h.nodup
    rw [List.map_cons, List.nodup_cons] at this
    exact this.2
  row := by
    intro b hb
    exact h.row b (List.mem_cons_of_mem a hb)

/-- The others stay when one of the rows is removed. -/
theorem erase {a : α} (h : Lists t (a :: l)) : Lists (t.erase (key a)) l where
  nodup := h.tail.nodup
  row := by
    intro b hb
    have hnodup := h.nodup
    rw [List.map_cons, List.nodup_cons] at hnodup
    rw [find?_erase_of_ne]
    . exact h.tail.row b hb
    . intro heq
      apply hnodup.1
      rw [← heq]
      exact List.mem_map_of_mem hb

end Lists

/-- `t'` is `t` with one more row. -/
structure Inserts (t t' : Table key) (a : α) : Prop where
  fresh : t.find? (key a) = none
  mem : ∀ b, b ∈ t'.rows ↔ b ∈ t.rows ∨ b = a
  sum : ∀ f : α → ℤ, t'.sum f = t.sum f + f a

namespace Inserts

variable {t t' : Table key} {a : α}

theorem emplace (h : t.emplace a = some t') : Inserts t t' a := by
  obtain ⟨hfresh, rfl⟩ := emplace_eq_some_iff.mp h
  exact ⟨hfresh, fun _ => mem_insert hfresh, fun f => sum_insert t a hfresh f⟩

theorem find?_eq_some_iff (h : Inserts t t' a) {k : κ} {b : α} :
    t'.find? k = some b ↔ t.find? k = some b ∨ (b = a ∧ key a = k) := by
  simp only [Table.find?_eq_some_iff, h.mem]
  constructor
  . rintro ⟨hb | rfl, hk⟩
    . exact .inl ⟨hb, hk⟩
    . exact .inr ⟨rfl, hk⟩
  . rintro (⟨hb, hk⟩ | ⟨rfl, hk⟩)
    . exact ⟨.inl hb, hk⟩
    . exact ⟨.inr rfl, hk⟩

theorem find?_of_ne (h : Inserts t t' a) {k : κ} (hk : key a ≠ k) : t'.find? k = t.find? k := by
  apply Option.ext
  intro b
  rw [h.find?_eq_some_iff]
  exact or_iff_left fun hb => hk hb.2

end Inserts

/-- `t'` is `t` with the row `a` rewritten to `a'`. -/
structure Updates (t t' : Table key) (a a' : α) : Prop where
  row : t.find? (key a) = some a
  find? : ∀ k, t'.find? k = if k = key a then some a' else t.find? k
  sum : ∀ f : α → ℤ, t'.sum f = t.sum f + (f a' - f a)

theorem Updates.modify {t : Table key} {k : κ} {a : α} (f : α → α) (h : t.find? k = some a)
    (hf : autoParam (∀ a, key (f a) = key a) Monoid.npow_zero._autoParam) :
    Updates t (t.modify k f hf) a (f a) := by
  have hk := key_of_find? h
  subst hk
  refine ⟨h, ?_, ?_⟩
  . intro k
    rw [find?_modify]
    split
    . next heq => rw [heq, h, Option.map_some]
    . rfl
  . intro g
    exact sum_modify t f hf g h

theorem Updates.mem_rows {t t' : Table key} {a a' b : α} (h : Updates t t' a a')
    (hk : key a' = key a) : b ∈ t'.rows ↔ (b ∈ t.rows ∧ key b ≠ key a) ∨ b = a' := by
  have hfind : b ∈ t'.rows ↔ t'.find? (key b) = some b :=
    ⟨find?_of_mem, mem_of_find?⟩
  rw [hfind, h.find?]
  split
  . next heq =>
    constructor
    . rintro hb
      exact .inr (Option.some.inj hb).symm
    . rintro (⟨_, hne⟩ | rfl)
      . exact absurd heq hne
      . rfl
  . next hne =>
    constructor
    . intro hb
      exact .inl ⟨mem_of_find? hb, hne⟩
    . rintro (⟨hb, _⟩ | rfl)
      . exact find?_of_mem hb
      . exact absurd hk hne

theorem Updates.refl {t : Table key} {a : α} (h : t.find? (key a) = some a) :
    Updates t t a a where
  row := h
  find? := by
    intro k
    split
    . next heq => rw [heq, h]
    . rfl
  sum := by simp

theorem Updates.trans {t t' t'' : Table key} {a a' a'' : α} (h : Updates t t' a a')
    (h' : Updates t' t'' a' a'') (hk : key a' = key a) : Updates t t'' a a'' where
  row := h.row
  find? := by
    intro k
    rw [h'.find?, h.find?, hk]
    split
    . rfl
    . rfl
  sum := by
    intro f
    rw [h'.sum, h.sum]
    omega

section countP

variable {t t' : Table key} {a a' : α} (p : α → Prop) [DecidablePred p]

omit [DecidableEq κ] in
theorem cast_countP (t : Table key) :
    ((t.rows.countP fun a => p a : Nat) : ℤ) = t.sum fun a => if p a then 1 else 0 :=
  (t.sum_eq_countP p).symm

theorem Inserts.countP (h : Inserts t t' a) :
    (t'.rows.countP fun b => p b) = (t.rows.countP fun b => p b) + if p a then 1 else 0 := by
  have hsum := h.sum fun b => if p b then 1 else 0
  rw [← cast_countP, ← cast_countP] at hsum
  split
  . next hp =>
    rw [if_pos hp] at hsum
    omega
  . next hp =>
    rw [if_neg hp] at hsum
    omega

theorem Updates.countP (h : Updates t t' a a') :
    (t'.rows.countP fun b => p b) + (if p a then 1 else 0)
      = (t.rows.countP fun b => p b) + if p a' then 1 else 0 := by
  have hsum := h.sum fun b => if p b then 1 else 0
  rw [← cast_countP, ← cast_countP] at hsum
  have hcast : ∀ q : Prop, [Decidable q] →
      (((if q then 1 else 0 : Nat)) : ℤ) = if q then 1 else 0 := by
    intro q _
    split
    . rfl
    . rfl
  have h₁ := hcast (p a)
  have h₂ := hcast (p a')
  omega

omit [DecidableEq κ] in
theorem Removes.countP {l : List α} (h : Removes t t' l) :
    (t'.rows.countP fun b => p b) + (l.countP fun b => p b) = t.rows.countP fun b => p b := by
  have hsum := h.sum fun b => if p b then 1 else 0
  rw [← cast_countP, ← cast_countP] at hsum
  have hl : (l.map fun b => if p b then (1 : ℤ) else 0).sum = (l.countP fun b => p b : Nat) := by
    clear h hsum
    induction l with
    | nil => rfl
    | cons b l ih =>
      rw [List.map_cons, List.sum_cons, ih, List.countP_cons]
      split
      . next hp =>
        simp only [hp, decide_true, ↓reduceIte]
        omega
      . next hp =>
        simp only [hp, decide_false, Bool.false_eq_true, ↓reduceIte]
        omega
  omega

end countP

theorem Updates.modify_of_eq {t : Table key} {k : κ} {a a' : α} (f : α → α)
    (h : t.find? k = some a) (ha : f a = a')
    (hf : autoParam (∀ a, key (f a) = key a) Monoid.npow_zero._autoParam) :
    Updates t (t.modify k f hf) a a' := by
  rw [← ha]
  exact .modify f h hf

end Table
