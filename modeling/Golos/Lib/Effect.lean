/-!
This module contains actions on a state that may fail and leave notes of what they did, and the rules
of their pre- and postconditions. An action that fails keeps the state it failed in, and nothing is
promised of an action some note of which is not acceptable.
-/

structure Outcome (ν ε σ α : Type) where
  notes : List ν
  result : Except ε α
  state : σ

def Effect (ν ε σ α : Type) :=
  σ → Outcome ν ε σ α

namespace Effect

variable {ν ε σ α β : Type}

protected def pure (a : α) : Effect ν ε σ α := fun s =>
  ⟨[], .ok a, s⟩

protected def bind (x : Effect ν ε σ α) (f : α → Effect ν ε σ β) : Effect ν ε σ β := fun s =>
  match x s with
  | ⟨notes, .error e, s'⟩ => ⟨notes, .error e, s'⟩
  | ⟨notes, .ok a, s'⟩ =>
    let rest := f a s'
    ⟨notes ++ rest.notes, rest.result, rest.state⟩

instance : Monad (Effect ν ε σ) where
  pure := Effect.pure
  bind := Effect.bind

def fail (e : ε) : Effect ν ε σ α := fun s =>
  ⟨[], .error e, s⟩

def read : Effect ν ε σ σ := fun s =>
  ⟨[], .ok s, s⟩

def modify (f : σ → σ) : Effect ν ε σ Unit := fun s =>
  ⟨[], .ok (), f s⟩

def note (f : σ → ν) : Effect ν ε σ Unit := fun s =>
  ⟨[f s], .ok (), s⟩

def lift (x : Except ε α) : Effect ν ε σ α := fun s =>
  ⟨[], x, s⟩

def ensure (p : Prop) [Decidable p] (e : ε) : Effect ν ε σ Unit :=
  lift (if p then .ok () else .error e)

/-- What goes on after an action that succeeds without a note. -/
theorem bind_run {x : Effect ν ε σ α} {f : α → Effect ν ε σ β} {s s' : σ} {a : α}
    (h : x s = ⟨[], .ok a, s'⟩) : (x >>= f) s = f a s' := by
  change Effect.bind x f s = f a s'
  unfold Effect.bind
  rw [h]
  rfl

theorem read_bind_run {f : σ → Effect ν ε σ β} {s : σ} : (read >>= f) s = f s s :=
  bind_run rfl

theorem modify_bind_run {g : σ → σ} {f : Unit → Effect ν ε σ β} {s : σ} :
    (modify g >>= f) s = f () (g s) :=
  bind_run rfl

/-- Run another action after a failure. -/
def handle (x : Effect ν ε σ α) (handler : ε → Effect ν ε σ α) : Effect ν ε σ α := fun s =>
  match x s with
  | ⟨notes, .ok a, s'⟩ => ⟨notes, .ok a, s'⟩
  | ⟨notes, .error e, s'⟩ =>
    let rest := handler e s'
    ⟨notes ++ rest.notes, rest.result, rest.state⟩

/-- Run an action in a scope that is left by success and by failure, told the state before it. -/
def within (enter : σ → σ) (leave : σ → σ → σ) (x : Effect ν ε σ α) : Effect ν ε σ α := fun s =>
  let inner := x (enter s)
  ⟨inner.notes, inner.result, leave s inner.state⟩

/-- Run an action and undo it if it fails, told the state before it. -/
def undoOnError (undo : σ → σ → σ) (x : Effect ν ε σ α) : Effect ν ε σ α := fun s =>
  match x s with
  | ⟨notes, .ok a, s'⟩ => ⟨notes, .ok a, s'⟩
  | ⟨notes, .error e, s'⟩ => ⟨notes, .error e, undo s s'⟩

/-- Change what an action fails with. -/
def mapError (f : ε → ε) (x : Effect ν ε σ α) : Effect ν ε σ α := fun s =>
  let inner := x s
  ⟨inner.notes, inner.result.mapError f, inner.state⟩

/--
If all notes are acceptable, `x` run in `s` ends with `Q` when it succeeds, with `E` when it fails.
-/
def Spec (ok : ν → Prop) (x : Effect ν ε σ α) (s : σ) (Q : α → σ → Prop) (E : ε → σ → Prop) : Prop :=
  (∀ n ∈ (x s).notes, ok n) →
    match (x s).result with
    | .ok a => Q a (x s).state
    | .error e => E e (x s).state

namespace Spec

variable {ok : ν → Prop} {s : σ} {Q : α → σ → Prop} {E : ε → σ → Prop}

theorem of_ok {x : Effect ν ε σ α} (h : Spec ok x s Q E) (hok : ∀ n ∈ (x s).notes, ok n) {a : α}
    (ha : (x s).result = .ok a) : Q a (x s).state := by
  have := h hok
  rw [ha] at this
  exact this

theorem of_error {x : Effect ν ε σ α} (h : Spec ok x s Q E) (hok : ∀ n ∈ (x s).notes, ok n) {e : ε}
    (he : (x s).result = .error e) : E e (x s).state := by
  have := h hok
  rw [he] at this
  exact this

theorem mono {x : Effect ν ε σ α} {Q' : α → σ → Prop} {E' : ε → σ → Prop} (h : Spec ok x s Q E)
    (hQ : ∀ a s', Q a s' → Q' a s') (hE : ∀ e s', E e s' → E' e s') : Spec ok x s Q' E' := by
  intro hok
  have := h hok
  split at this
  . exact hQ _ _ this
  . exact hE _ _ this

/-- The end state is the one that the action was run to. -/
theorem run {x : Effect ν ε σ α} (h : Spec ok x s Q E) :
    Spec ok x s (fun a s' => Q a s' ∧ (x s).result = .ok a ∧ (x s).state = s') E := by
  intro hok
  have := h hok
  split at this
  . next heq =>
    rw [heq]
    exact ⟨this, rfl, rfl⟩
  . next heq => exact this

theorem pure {a : α} (h : Q a s) : Spec ok (Pure.pure a : Effect ν ε σ α) s Q E :=
  fun _ => h

theorem fail {e : ε} (h : E e s) : Spec ok (Effect.fail e : Effect ν ε σ α) s Q E :=
  fun _ => h

theorem bind {x : Effect ν ε σ α} {f : α → Effect ν ε σ β} {Q : β → σ → Prop}
    (h : Spec ok x s (fun a s' => Spec ok (f a) s' Q E) E) : Spec ok (x >>= f) s Q E := by
  intro hok
  change ∀ n ∈ (Effect.bind x f s).notes, ok n at hok
  change match (Effect.bind x f s).result with
    | .ok b => Q b (Effect.bind x f s).state
    | .error e => E e (Effect.bind x f s).state
  unfold Effect.bind at hok ⊢
  unfold Spec at h
  generalize x s = outcome at h hok ⊢
  obtain ⟨notes, result, s'⟩ := outcome
  cases result with
  | error e => exact h hok
  | ok a =>
    simp only [List.mem_append] at hok
    exact h (fun n hn => hok n (.inl hn)) fun n hn => hok n (.inr hn)

theorem read {Q : σ → σ → Prop} (h : Q s s) : Spec ok (Effect.read : Effect ν ε σ σ) s Q E :=
  fun _ => h

theorem modify {f : σ → σ} {Q : Unit → σ → Prop} (h : Q () (f s)) :
    Spec ok (Effect.modify f : Effect ν ε σ Unit) s Q E :=
  fun _ => h

theorem note {f : σ → ν} {Q : Unit → σ → Prop} (h : ok (f s) → Q () s) :
    Spec ok (Effect.note f : Effect ν ε σ Unit) s Q E :=
  fun hok => h (hok _ List.mem_cons_self)

theorem lift {x : Except ε α} (hok : ∀ a, x = .ok a → Q a s) (herror : ∀ e, x = .error e → E e s) :
    Spec ok (Effect.lift x : Effect ν ε σ α) s Q E := by
  intro _
  cases x with
  | ok a => exact hok a rfl
  | error e => exact herror e rfl

theorem ensure {p : Prop} [Decidable p] {e : ε} {Q : Unit → σ → Prop} (hp : p → Q () s)
    (hnot : E e s) : Spec ok (Effect.ensure p e : Effect ν ε σ Unit) s Q E := by
  unfold Effect.ensure
  split
  . next h => exact fun _ => hp h
  . exact fun _ => hnot

theorem handle {x : Effect ν ε σ α} {handler : ε → Effect ν ε σ α}
    (h : Spec ok x s Q fun e s' => Spec ok (handler e) s' Q E) :
    Spec ok (x.handle handler) s Q E := by
  intro hok
  unfold Effect.handle at hok ⊢
  unfold Spec at h
  generalize x s = outcome at h hok ⊢
  obtain ⟨notes, result, s'⟩ := outcome
  cases result with
  | ok a => exact h hok
  | error e =>
    simp only [List.mem_append] at hok
    exact h (fun n hn => hok n (.inl hn)) fun n hn => hok n (.inr hn)

theorem within {enter : σ → σ} {leave : σ → σ → σ} {x : Effect ν ε σ α}
    (h : Spec ok x (enter s) (fun a s' => Q a (leave s s')) fun e s' => E e (leave s s')) :
    Spec ok (x.within enter leave) s Q E :=
  h

theorem undoOnError {undo : σ → σ → σ} {x : Effect ν ε σ α}
    (h : Spec ok x s Q fun e s' => E e (undo s s')) : Spec ok (x.undoOnError undo) s Q E := by
  intro hok
  unfold Effect.undoOnError at hok ⊢
  unfold Spec at h
  generalize x s = outcome at h hok ⊢
  obtain ⟨notes, result, s'⟩ := outcome
  cases result with
  | ok a => exact h hok
  | error e => exact h hok

theorem mapError {f : ε → ε} {x : Effect ν ε σ α} (h : Spec ok x s Q fun e s' => E (f e) s') :
    Spec ok (x.mapError f) s Q E := by
  intro hok
  unfold Effect.mapError at hok ⊢
  unfold Spec at h
  generalize x s = outcome at h hok ⊢
  obtain ⟨notes, result, s'⟩ := outcome
  cases result with
  | ok a => exact h hok
  | error e => exact h hok

/-- What every turn of a loop keeps, said of the elements that are left and the state. -/
theorem forM {f : β → Effect ν ε σ PUnit} {I : List β → σ → Prop} {l : List β}
    (hstep : ∀ b l s, I (b :: l) s → Spec ok (f b) s (fun _ s' => I l s') E) (h : I l s) :
    Spec ok (l.forM f) s (fun _ s' => I [] s') E := by
  induction l generalizing s with
  | nil => exact pure h
  | cons b l ih =>
    apply bind
    apply (hstep b l s h).mono
    . intro _ s' hs'
      exact ih hs'
    . exact fun _ _ he => he

end Spec

end Effect
