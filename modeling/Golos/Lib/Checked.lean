import Mathlib.Algebra.Group.Int.Defs
import Mathlib.Data.List.Forall2

/-!
This module contains the inversion rules of fallible computations in `Except`, guards, and 64 bit
signed arithmetic that fails instead of wrapping.
-/

namespace Checked

variable {ε : Type u} {α β : Type v}

@[simp]
theorem bind_eq_ok {x : Except ε α} {f : α → Except ε β} {b : β} :
    (x >>= f) = .ok b ↔ ∃ a, x = .ok a ∧ f a = .ok b := by
  cases x with
  | error e => simp [bind, Except.bind]
  | ok a => simp [bind, Except.bind]

@[simp]
theorem ok_bind {a : α} {f : α → Except ε β} : (Except.ok a >>= f) = f a := rfl

theorem bind_eq_error {x : Except ε α} {f : α → Except ε β} {e : ε} :
    (x >>= f) = .error e ↔ x = .error e ∨ ∃ a, x = .ok a ∧ f a = .error e := by
  cases x with
  | error e => simp [bind, Except.bind]
  | ok a => simp [bind, Except.bind]

@[simp]
theorem pure_eq_ok {a b : α} : (pure a : Except ε α) = .ok b ↔ a = b := by
  simp [pure, Except.pure]

@[simp]
theorem throw_eq_ok {e : ε} {a : α} : (throw e : Except ε α) = .ok a ↔ False := by
  simp [throw, throwThe, MonadExceptOf.throw]

theorem map_eq_ok {f : α → β} {x : Except ε α} {b : β} :
    x.map f = .ok b ↔ ∃ a, x = .ok a ∧ f a = b := by
  cases x with
  | error e => simp [Except.map]
  | ok a => simp [Except.map]

/-- A computation that succeeds, and the value it succeeds with. -/
theorem eq_ok_of_isSome {x : Except ε α} {d : α} (h : x.toOption.isSome = true) :
    x = .ok (x.toOption.getD d) := by
  cases x with
  | error e => cases h
  | ok a => rfl

/-- What a computation fails with, if it fails. -/
def error? : Except ε α → Option ε
  | .error e => some e
  | .ok _ => none

theorem eq_error_of_error? {x : Except ε α} {e : ε} (h : error? x = some e) : x = .error e := by
  cases x with
  | error e' =>
    injection h with h
    rw [h]
  | ok a => cases h

instance decidableForallOk {x : Except ε α} {p : α → Prop} [DecidablePred p] :
    Decidable (∀ a, x = .ok a → p a) :=
  match x with
  | .ok a => decidable_of_iff (p a) (by simp)
  | .error _ => .isTrue (by simp)

instance decidableExistsOk {x : Except ε α} {p : α → Prop} [DecidablePred p] :
    Decidable (∃ a, x = .ok a ∧ p a) :=
  match x with
  | .ok a => decidable_of_iff (p a) (by simp)
  | .error _ => .isFalse (by simp)

/-- What every turn of a loop keeps, said of the state and the elements that are left. -/
theorem foldlM_invariant {σ : Type v} {γ : Type w} {f : σ → γ → Except ε σ}
    {P : σ → List γ → Prop}
    (hstep : ∀ s s' a l, P s (a :: l) → f s a = .ok s' → P s' l) {s s' : σ} {l : List γ}
    (hs : P s l) (h : l.foldlM f s = .ok s') : P s' [] := by
  induction l generalizing s with
  | nil =>
    injection h with h
    exact h ▸ hs
  | cons a l ih =>
    rw [List.foldlM_cons, bind_eq_ok] at h
    obtain ⟨s₁, hs₁, h⟩ := h
    exact ih (hstep s s₁ a l hs hs₁) h

/-- A loop ends if each of its turns does, and keeps what the next one needs. -/
theorem foldlM_total {σ : Type v} {γ : Type w} {f : σ → γ → Except ε σ} {P : σ → List γ → Prop}
    (hstep : ∀ s a l, P s (a :: l) → ∃ s', f s a = .ok s' ∧ P s' l) {s : σ} {l : List γ}
    (hs : P s l) : ∃ s', l.foldlM f s = .ok s' := by
  induction l generalizing s with
  | nil => exact ⟨s, rfl⟩
  | cons a l ih =>
    obtain ⟨s₁, hs₁, hP⟩ := hstep s a l hs
    rw [List.foldlM_cons, hs₁, ok_bind]
    exact ih hP

theorem mapM_eq_ok {γ : Type v} {f : γ → Except ε α} {l : List γ} {as : List α} :
    l.mapM f = .ok as ↔ List.Forall₂ (fun c a => f c = .ok a) l as := by
  induction l generalizing as with
  | nil => simp
  | cons c l ih =>
    rw [List.mapM_cons]
    simp only [bind_eq_ok, pure_eq_ok, List.forall₂_cons_left_iff, ih]
    constructor
    . rintro ⟨a, ha, as, has, rfl⟩
      exact ⟨a, as, ha, has, rfl⟩
    . rintro ⟨a, as, ha, has, rfl⟩
      exact ⟨a, ha, as, has, rfl⟩

theorem forM_eq_ok {f : α → Except ε PUnit} {l : List α} {u : PUnit} :
    l.forM f = .ok u ↔ ∀ a ∈ l, f a = .ok ⟨⟩ := by
  induction l with
  | nil => simp [List.forM]
  | cons a l ih =>
    show (f a >>= fun _ => l.forM f) = .ok u ↔ _
    rw [bind_eq_ok, List.forall_mem_cons, ← ih]
    constructor
    . rintro ⟨⟨⟩, ha, hl⟩
      exact ⟨ha, hl⟩
    . rintro ⟨ha, hl⟩
      exact ⟨⟨⟩, ha, hl⟩

/-- Fail with `e` unless `p` holds. -/
def ensure (p : Prop) [Decidable p] (e : ε) : Except ε Unit :=
  if p then .ok () else .error e

@[simp]
theorem ensure_eq_ok {p : Prop} [Decidable p] {e : ε} {u : Unit} :
    ensure p e = .ok u ↔ p := by
  simp [ensure]

theorem ensure_eq_error {p : Prop} [Decidable p] {e e' : ε} :
    ensure p e = .error e' ↔ ¬p ∧ e = e' := by
  unfold ensure
  split
  . next h => simp [h]
  . next h => simp [h]

section ne_error

variable {e : ε}

theorem bind_ne_error {x : Except ε α} {f : α → Except ε β} (hx : x ≠ .error e)
    (hf : ∀ a, x = .ok a → f a ≠ .error e) : (x >>= f) ≠ .error e := by
  rw [Ne, bind_eq_error, not_or, not_exists]
  constructor
  . exact hx
  . rintro a ⟨ha, hfa⟩
    exact hf a ha hfa

theorem pure_ne_error (a : α) : (pure a : Except ε α) ≠ .error e := by
  intro h
  cases h

theorem ensure_ne_error {p : Prop} [Decidable p] {e' : ε} (h : e' ≠ e) :
    ensure p e' ≠ .error e := by
  rw [Ne, ensure_eq_error]
  exact fun he => h he.2

/-- A loop fails only with what one of its turns fails with. -/
theorem foldlM_ne_error {σ : Type v} {γ : Type w} {f : σ → γ → Except ε σ}
    (hf : ∀ s a, f s a ≠ .error e) (s : σ) (l : List γ) : l.foldlM f s ≠ .error e := by
  induction l generalizing s with
  | nil => exact pure_ne_error s
  | cons a l ih =>
    rw [List.foldlM_cons]
    apply bind_ne_error (hf s a)
    intro s' _
    exact ih s'

end ne_error

/-- `some a` as a result, `none` as the failure `e`. -/
def get (x : Option α) (e : ε) : Except ε α :=
  match x with
  | some a => .ok a
  | none => .error e

@[simp]
theorem get_eq_ok {x : Option α} {e : ε} {a : α} : get x e = .ok a ↔ x = some a := by
  cases x with
  | none => simp [get]
  | some b => simp [get]

theorem get_ne_error {x : Option α} {e e' : ε} (h : e' ≠ e) : get x e' ≠ .error e := by
  cases x with
  | none => exact fun he => h (Except.error.inj he)
  | some a => exact fun he => nomatch he

def maxInt64 : ℤ := 2 ^ 63 - 1

def minInt64 : ℤ := -2 ^ 63

/-- The value of an arithmetic operation on 64 bit signed numbers, or `e` if it has none. -/
def int64 (x : ℤ) (e : ε) : Except ε ℤ :=
  if minInt64 ≤ x ∧ x ≤ maxInt64 then .ok x else .error e

theorem int64_eq_ok {x y : ℤ} {e : ε} :
    int64 x e = .ok y ↔ (minInt64 ≤ x ∧ x ≤ maxInt64) ∧ x = y := by
  unfold int64
  split
  . next h => simp [h]
  . next h => simp [h]

theorem int64_of_le {x : ℤ} {e : ε} (hmin : minInt64 ≤ x) (hmax : x ≤ maxInt64) :
    int64 x e = .ok x :=
  int64_eq_ok.mpr ⟨⟨hmin, hmax⟩, rfl⟩

/-- `x += d` on a 64 bit signed `x`, which cannot fail when `d` is zero. -/
def add64 (x d : ℤ) (e : ε) : Except ε ℤ :=
  if d = 0 then .ok x else int64 (x + d) e

theorem eq_of_add64_eq_ok {x d y : ℤ} {e : ε} (h : add64 x d e = .ok y) : y = x + d := by
  unfold add64 at h
  split at h
  . next hd =>
    injection h with h
    omega
  . exact (int64_eq_ok.mp h).2.symm

theorem le_maxInt64_of_add64_eq_ok {x d y : ℤ} {e : ε} (hx : x ≤ maxInt64)
    (h : add64 x d e = .ok y) : y ≤ maxInt64 := by
  unfold add64 at h
  split at h
  . injection h with h
    omega
  . have := (int64_eq_ok.mp h).1.2
    have := (int64_eq_ok.mp h).2
    omega

theorem add64_of_le {x d : ℤ} {e : ε} (hmin : minInt64 ≤ x + d) (hmax : x + d ≤ maxInt64) :
    add64 x d e = .ok (x + d) := by
  unfold add64
  split
  . next hd => simp [hd]
  . exact int64_of_le hmin hmax

@[simp]
theorem add64_zero (x : ℤ) (e : ε) : add64 x 0 e = .ok x := by
  simp [add64]

end Checked
