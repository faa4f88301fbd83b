/-!
This module contains transition systems whose steps are labelled with events, the states they reach
by runs that avoid given events, the runs with their past, and the induction rules for them.
-/

structure TransitionSystem (σ : Type u) (ε : Type v) where
  initial : σ → Prop
  step : σ → ε → σ → Prop

namespace TransitionSystem

variable {σ : Type u} {ε : Type v} (S : TransitionSystem σ ε)

/-- The states reached by the runs all of whose events meet `ok` in the state they occur in. -/
inductive Reach (ok : σ → ε → Prop) : σ → Prop
  | initial {s : σ} (h : S.initial s) : Reach ok s
  | step {s s' : σ} {e : ε} (hs : Reach ok s) (hok : ok s e) (h : S.step s e s') : Reach ok s'

/-- The states reached by any run. -/
def Reachable : σ → Prop :=
  S.Reach fun _ _ => True

variable {S}

theorem Reach.mono {ok ok' : σ → ε → Prop} (himp : ∀ s e, ok s e → ok' s e) {s : σ}
    (h : S.Reach ok s) : S.Reach ok' s := by
  induction h with
  | initial h => exact .initial h
  | step _ hok h ih => exact .step ih (himp _ _ hok) h

theorem Reach.reachable {ok : σ → ε → Prop} {s : σ} (h : S.Reach ok s) : S.Reachable s := by
  apply h.mono
  intros
  trivial

/-- What holds initially and is kept by every allowed step holds in every state reached. -/
theorem Reach.invariant {ok : σ → ε → Prop} {inv : σ → Prop}
    (hinitial : ∀ s, S.initial s → inv s)
    (hstep : ∀ s e s', inv s → ok s e → S.step s e s' → inv s') {s : σ} (h : S.Reach ok s) :
    inv s := by
  induction h with
  | initial h => exact hinitial _ h
  | step _ hok h ih => exact hstep _ _ _ ih hok h

/-- The same for an invariant whose preservation rests on one that is already known. -/
theorem Reach.invariant_of {ok : σ → ε → Prop} {known inv : σ → Prop}
    (hknown : ∀ s, S.Reach ok s → known s) (hinitial : ∀ s, S.initial s → inv s)
    (hstep : ∀ s e s', known s → inv s → ok s e → S.step s e s' → inv s') {s : σ}
    (h : S.Reach ok s) : inv s := by
  induction h with
  | initial h => exact hinitial _ h
  | step hs hok h ih => exact hstep _ _ _ (hknown _ hs) ih hok h

variable (S) in
/-- The same steps, from one state on. -/
def startedIn (s : σ) : TransitionSystem σ ε where
  initial s' := s' = s
  step := S.step

section past

variable (S) in
/-- The runs with the steps taken, newest first: the state before each, and its event. -/
inductive Run : List (σ × ε) → σ → Prop
  | initial {s : σ} (h : S.initial s) : Run [] s
  | step {past : List (σ × ε)} {s s' : σ} {e : ε} (hs : Run past s) (h : S.step s e s') :
    Run ((s, e) :: past) s'

theorem Run.reachable {past : List (σ × ε)} {s : σ} (h : S.Run past s) : S.Reachable s := by
  induction h with
  | initial h => exact .initial h
  | step _ h ih => exact .step ih trivial h

/-- What is kept about the past and the present. -/
theorem Run.invariant {inv : List (σ × ε) → σ → Prop} (hinitial : ∀ s, S.initial s → inv [] s)
    (hstep : ∀ past s e s', inv past s → S.step s e s' → inv ((s, e) :: past) s')
    {past : List (σ × ε)} {s : σ} (h : S.Run past s) : inv past s := by
  induction h with
  | initial h => exact hinitial _ h
  | step _ h ih => exact hstep _ _ _ _ ih h

end past

section operations

variable {α : Type w} {ε' : Type x} (apply : σ → α → Except ε' σ)

/-- Every operation of a list meets `ok` in the state it is applied to. -/
def Along (ok : σ → α → Prop) (s : σ) : List α → Prop
  | [] => True
  | a :: as =>
    ok s a ∧
      match apply s a with
      | .ok s' => Along ok s' as
      | .error _ => True

instance Along.decidable (ok : σ → α → Prop) [∀ s a, Decidable (ok s a)] :
    (as : List α) → (s : σ) → Decidable (Along apply ok s as)
  | [], _ => .isTrue trivial
  | a :: as, s =>
    let _rest : Decidable (match apply s a with
        | .ok s' => Along apply ok s' as
        | .error _ => True) :=
      match apply s a with
      | .ok s' => Along.decidable ok as s'
      | .error _ => .isTrue trivial
    inferInstanceAs (Decidable (_ ∧ _))

variable {apply}

theorem Along.of_forall {ok : σ → α → Prop} (h : ∀ s a, ok s a) (s : σ) (as : List α) :
    Along apply ok s as := by
  induction as generalizing s with
  | nil => trivial
  | cons a as ih =>
    refine ⟨h s a, ?_⟩
    split
    . exact ih _
    . trivial

/-- Applying a list of operations is a run. -/
theorem Reach.operations {event : α → ε} {ok : σ → ε → Prop} {s s' : σ} {as : List α}
    (h : S.Reach ok s) (hstep : ∀ a ∈ as, ∀ s s', apply s a = .ok s' → S.step s (event a) s')
    (hok : Along apply (fun s a => ok s (event a)) s as) (has : as.foldlM apply s = .ok s') :
    S.Reach ok s' := by
  induction as generalizing s with
  | nil =>
    injection has with has
    exact has ▸ h
  | cons a as ih =>
    rw [List.foldlM_cons] at has
    unfold Along at hok
    cases happly : apply s a with
    | error e =>
      rw [happly] at has
      cases has
    | ok s₁ =>
      rw [happly] at hok has
      apply ih
      . exact .step h hok.1 (hstep a List.mem_cons_self s s₁ happly)
      . intro a' ha'
        exact hstep a' (List.mem_cons_of_mem a ha')
      . exact hok.2
      . exact has

end operations

end TransitionSystem
