import Mathlib.Algebra.GroupWithZero.Nat
import Mathlib.Algebra.Order.BigOperators.Group.List

/-!
This module contains rules that ask for a weight of leaves and nodes, where a node counts when it is
given or when a rule of its own is met, and derivations by such rules of a bounded and of any depth.
-/

/-- Weighted leaves and nodes, and the weight that is required of them. -/
structure ThresholdRule (κ : Type u) (α : Type v) where
  threshold : Nat
  leaves : List (κ × Nat)
  nodes : List (α × Nat)

namespace ThresholdRule

variable {κ : Type u} {α : Type v}

/-- The weights of the entries that satisfy `p`. -/
def weight {β : Type w} (l : List (β × Nat)) (p : β → Bool) : Nat :=
  ((l.filter fun e => p e.1).map Prod.snd).sum

@[simp]
theorem weight_nil {β : Type w} (p : β → Bool) : weight [] p = 0 := rfl

theorem weight_cons {β : Type w} (e : β × Nat) (l : List (β × Nat)) (p : β → Bool) :
    weight (e :: l) p = (if p e.1 then e.2 else 0) + weight l p := by
  unfold weight
  rw [List.filter_cons]
  split
  . simp
  . simp

theorem weight_cons_of_pos {β : Type w} {b : β} {n : Nat} {l : List (β × Nat)} {p : β → Bool}
    (h : p b = true) : weight ((b, n) :: l) p = n + weight l p := by
  rw [weight_cons, if_pos h]

theorem weight_mono {β : Type w} {l : List (β × Nat)} {p q : β → Bool}
    (h : ∀ e ∈ l, p e.1 = true → q e.1 = true) : weight l p ≤ weight l q := by
  induction l with
  | nil => simp
  | cons e l ih =>
    have htail := ih fun e' he' => h e' (List.mem_cons_of_mem e he')
    have hhead := h e List.mem_cons_self
    rw [weight_cons, weight_cons]
    split
    . next hp =>
      rw [if_pos (hhead hp)]
      omega
    . omega

theorem weight_le_sum {β : Type w} (l : List (β × Nat)) (p : β → Bool) :
    weight l p ≤ (l.map Prod.snd).sum := by
  induction l with
  | nil => simp
  | cons e l ih =>
    rw [weight_cons, List.map_cons, List.sum_cons]
    split <;> omega

theorem weight_append {β : Type w} (l l' : List (β × Nat)) (p : β → Bool) :
    weight (l ++ l') p = weight l p + weight l' p := by
  simp [weight]

theorem weight_map_const {β : Type w} {l : List β} {p : β → Bool} {n : Nat}
    (h : ∀ b ∈ l, p b = true) : weight (l.map (·, n)) p = l.length * n := by
  induction l with
  | nil => simp
  | cons b l ih =>
    rw [List.map_cons, weight_cons_of_pos (h b List.mem_cons_self),
      ih fun b' hb' => h b' (List.mem_cons_of_mem b hb'), List.length_cons, Nat.succ_mul]
    omega

/-- The weight of all leaves and nodes. -/
def total (r : ThresholdRule κ α) : Nat :=
  (r.leaves.map Prod.snd).sum + (r.nodes.map Prod.snd).sum

def met (r : ThresholdRule κ α) (leaf : κ → Bool) (node : α → Bool) : Bool :=
  r.threshold ≤ weight r.leaves leaf + weight r.nodes node

theorem met_mono {r : ThresholdRule κ α} {leaf : κ → Bool} {p q : α → Bool}
    (h : ∀ a, p a = true → q a = true) (hp : r.met leaf p = true) : r.met leaf q = true := by
  have : weight r.nodes p ≤ weight r.nodes q := weight_mono fun e _ => h e.1
  simp only [met, decide_eq_true_eq] at hp ⊢
  omega

section derivations

variable (rules : α → List (ThresholdRule κ α)) (leaf : κ → Bool) (given : α → Bool)

/-- The rule is met by a derivation through at most `n` nested nodes. -/
def metWithin : Nat → ThresholdRule κ α → Bool
  | 0, r => r.met leaf given
  | n + 1, r => r.met leaf fun a => given a || (rules a).any (metWithin n)

/-- The node is given, or a rule of its own is met by a derivation of any depth. -/
def Derivable (a : α) : Prop :=
  given a = true ∨ ∃ r ∈ rules a, ∃ n, metWithin rules leaf given n r = true

variable {rules leaf given}

theorem metWithin_succ {n : Nat} {r : ThresholdRule κ α}
    (h : metWithin rules leaf given n r = true) : metWithin rules leaf given (n + 1) r = true := by
  induction n generalizing r with
  | zero =>
    apply met_mono _ h
    intro a ha
    simp [ha]
  | succ n ih =>
    apply met_mono _ h
    intro a ha
    rw [Bool.or_eq_true, List.any_eq_true] at ha ⊢
    apply ha.imp_right
    intro hr
    obtain ⟨r', hmem, hr'⟩ := hr
    exact ⟨r', hmem, ih hr'⟩

theorem metWithin_mono {n m : Nat} (hnm : n ≤ m) {r : ThresholdRule κ α}
    (h : metWithin rules leaf given n r = true) : metWithin rules leaf given m r = true := by
  induction hnm with
  | refl => exact h
  | step _ ih => exact metWithin_succ ih

/-- One depth is enough for all derivable nodes of a list. -/
private theorem exists_depth (l : List (α × Nat)) {p : α → Bool}
    (hp : ∀ a, p a = true → Derivable rules leaf given a) :
    ∃ n, ∀ e ∈ l, p e.1 = true →
      (given e.1 || (rules e.1).any (metWithin rules leaf given n)) = true := by
  induction l with
  | nil => exact ⟨0, by simp⟩
  | cons e l ih =>
    obtain ⟨n, hn⟩ := ih
    have hlift : ∀ m, n ≤ m → ∀ e' ∈ l, p e'.1 = true →
        (given e'.1 || (rules e'.1).any (metWithin rules leaf given m)) = true := by
      intro m hm e' he' hpe
      have := hn e' he' hpe
      rw [Bool.or_eq_true, List.any_eq_true] at this ⊢
      apply this.imp_right
      intro hr
      obtain ⟨r, hmem, hr⟩ := hr
      exact ⟨r, hmem, metWithin_mono hm hr⟩
    cases hpe : p e.1 with
    | false =>
      refine ⟨n, ?_⟩
      intro e' he' hpe'
      rcases List.mem_cons.mp he' with rfl | he'
      . rw [hpe] at hpe'
        cases hpe'
      . exact hn e' he' hpe'
    | true =>
      rcases hp e.1 hpe with hgiven | ⟨r, hmem, m, hr⟩
      . refine ⟨n, ?_⟩
        intro e' he' hpe'
        rcases List.mem_cons.mp he' with rfl | he'
        . simp [hgiven]
        . exact hn e' he' hpe'
      . refine ⟨max n m, ?_⟩
        intro e' he' hpe'
        rcases List.mem_cons.mp he' with rfl | he'
        . rw [Bool.or_eq_true, List.any_eq_true]
          right
          exact ⟨r, hmem, metWithin_mono (Nat.le_max_right n m) hr⟩
        . exact hlift _ (Nat.le_max_left n m) e' he' hpe'

/-- What is met by derivable nodes has a derivation. -/
theorem exists_metWithin {r : ThresholdRule κ α} {p : α → Bool}
    (hp : ∀ a, p a = true → Derivable rules leaf given a) (h : r.met leaf p = true) :
    ∃ n, metWithin rules leaf given n r = true := by
  obtain ⟨n, hn⟩ := exists_depth r.nodes hp
  have hle : weight r.nodes p ≤
      weight r.nodes fun a => given a || (rules a).any (metWithin rules leaf given n) :=
    weight_mono hn
  refine ⟨n + 1, ?_⟩
  simp only [metWithin, met, decide_eq_true_eq] at h ⊢
  omega

end derivations

end ThresholdRule
