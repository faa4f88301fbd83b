import Golos.Lib.Effect

/-!
This module contains the rules for properties of the notes that actions leave, together with the
state. An action is told the notes that were left before it.
-/

namespace Effect

variable {ν ε σ α β : Type}

/-- Where `x` is run in `s` after the notes `l`, `Q` holds of its result, all notes and its state. -/
def Traced (x : Effect ν ε σ α) (l : List ν) (s : σ) (Q : Except ε α → List ν → σ → Prop) : Prop :=
  Q (x s).result (l ++ (x s).notes) (x s).state

/-- What holds of the notes and the state before `x` holds after it, whether it succeeds or not. -/
def Keeps (I : List ν → σ → Prop) (x : Effect ν ε σ α) : Prop :=
  ∀ l s, I l s → x.Traced l s fun _ l' s' => I l' s'

namespace Traced

variable {l : List ν} {s : σ}

theorem mono {x : Effect ν ε σ α} {Q Q' : Except ε α → List ν → σ → Prop} (h : x.Traced l s Q)
    (hQ : ∀ r l' s', Q r l' s' → Q' r l' s') : x.Traced l s Q' :=
  hQ _ _ _ h

theorem bind {x : Effect ν ε σ α} {f : α → Effect ν ε σ β} {Q : Except ε β → List ν → σ → Prop}
    (h : x.Traced l s fun r l' s' =>
      match r with
      | .ok a => (f a).Traced l' s' Q
      | .error e => Q (.error e) l' s') : (x >>= f).Traced l s Q := by
  change Q (Effect.bind x f s).result (l ++ (Effect.bind x f s).notes) (Effect.bind x f s).state
  unfold Traced at h
  unfold Effect.bind
  generalize x s = outcome at h
  obtain ⟨notes, result, s'⟩ := outcome
  cases result with
  | error e => exact h
  | ok a =>
    simp only [List.append_assoc] at h
    exact h

theorem handle {x : Effect ν ε σ α} {handler : ε → Effect ν ε σ α}
    {Q : Except ε α → List ν → σ → Prop}
    (h : x.Traced l s fun r l' s' =>
      match r with
      | .ok a => Q (.ok a) l' s'
      | .error e => (handler e).Traced l' s' Q) : (x.handle handler).Traced l s Q := by
  unfold Traced Effect.handle
  unfold Traced at h
  generalize x s = outcome at h
  obtain ⟨notes, result, s'⟩ := outcome
  cases result with
  | ok a => exact h
  | error e =>
    simp only [List.append_assoc] at h
    exact h

theorem pure {a : α} {Q : Except ε α → List ν → σ → Prop} (h : Q (.ok a) l s) :
    Traced (Pure.pure a : Effect ν ε σ α) l s Q := by
  change Q (.ok a) (l ++ []) s
  rw [List.append_nil]
  exact h

theorem fail {e : ε} {Q : Except ε α → List ν → σ → Prop} (h : Q (.error e) l s) :
    Traced (Effect.fail e : Effect ν ε σ α) l s Q := by
  change Q (.error e) (l ++ []) s
  rw [List.append_nil]
  exact h

theorem lift {x : Except ε α} {Q : Except ε α → List ν → σ → Prop} (h : Q x l s) :
    Traced (Effect.lift x : Effect ν ε σ α) l s Q := by
  change Q x (l ++ []) s
  rw [List.append_nil]
  exact h

theorem read {Q : Except ε σ → List ν → σ → Prop} (h : Q (.ok s) l s) :
    Traced (Effect.read : Effect ν ε σ σ) l s Q := by
  change Q (.ok s) (l ++ []) s
  rw [List.append_nil]
  exact h

theorem modify {f : σ → σ} {Q : Except ε Unit → List ν → σ → Prop} (h : Q (.ok ()) l (f s)) :
    Traced (Effect.modify f : Effect ν ε σ Unit) l s Q := by
  change Q (.ok ()) (l ++ []) (f s)
  rw [List.append_nil]
  exact h

theorem note {f : σ → ν} {Q : Except ε Unit → List ν → σ → Prop}
    (h : Q (.ok ()) (l ++ [f s]) s) : Traced (Effect.note f : Effect ν ε σ Unit) l s Q :=
  h

theorem within {enter : σ → σ} {leave : σ → σ → σ} {x : Effect ν ε σ α}
    {Q : Except ε α → List ν → σ → Prop}
    (h : x.Traced l (enter s) fun r l' s' => Q r l' (leave s s')) :
    (x.within enter leave).Traced l s Q :=
  h

theorem undoOnError {undo : σ → σ → σ} {x : Effect ν ε σ α} {Q : Except ε α → List ν → σ → Prop}
    (h : x.Traced l s fun r l' s' =>
      match r with
      | .ok a => Q (.ok a) l' s'
      | .error e => Q (.error e) l' (undo s s')) : (x.undoOnError undo).Traced l s Q := by
  unfold Traced Effect.undoOnError
  unfold Traced at h
  generalize x s = outcome at h
  obtain ⟨notes, result, s'⟩ := outcome
  cases result with
  | ok a => exact h
  | error e => exact h

/--
What every turn of a loop does, said of the elements that are left, the notes and the state. A turn
that fails ends the loop.
-/
theorem forM {f : β → Effect ν ε σ PUnit} {I : List β → List ν → σ → Prop}
    {Q : Except ε PUnit → List ν → σ → Prop} {todo : List β}
    (hstep : ∀ b todo l s, I (b :: todo) l s → (f b).Traced l s fun r l' s' =>
      match r with
      | .ok _ => I todo l' s'
      | .error e => Q (.error e) l' s')
    (hend : ∀ l s, I [] l s → Q (.ok ⟨⟩) l s) (h : I todo l s) : (todo.forM f).Traced l s Q := by
  induction todo generalizing l s with
  | nil => exact pure (hend l s h)
  | cons b todo ih =>
    apply bind
    apply (hstep b todo l s h).mono
    intro r l' s' hr
    cases r with
    | ok _ => exact ih hr
    | error e => exact hr

end Traced

namespace Keeps

variable {I : List ν → σ → Prop}

theorem bind {x : Effect ν ε σ α} {f : α → Effect ν ε σ β} (hx : x.Keeps I)
    (hf : ∀ a, (f a).Keeps I) : (x >>= f).Keeps I := by
  intro l s h
  apply Traced.bind
  apply (hx l s h).mono
  intro r l' s' h'
  cases r with
  | ok a => exact hf a l' s' h'
  | error e => exact h'

theorem handle {x : Effect ν ε σ α} {handler : ε → Effect ν ε σ α} (hx : x.Keeps I)
    (hhandler : ∀ e, (handler e).Keeps I) : (x.handle handler).Keeps I := by
  intro l s h
  apply Traced.handle
  apply (hx l s h).mono
  intro r l' s' h'
  cases r with
  | ok a => exact h'
  | error e => exact hhandler e l' s' h'

theorem pure {a : α} : Keeps I (Pure.pure a : Effect ν ε σ α) :=
  fun _ _ h => Traced.pure h

theorem fail {e : ε} : Keeps I (Effect.fail e : Effect ν ε σ α) :=
  fun _ _ h => Traced.fail h

theorem lift {x : Except ε α} : Keeps I (Effect.lift x : Effect ν ε σ α) :=
  fun _ _ h => Traced.lift h

theorem read : Keeps I (Effect.read : Effect ν ε σ σ) :=
  fun _ _ h => Traced.read h

theorem modify {f : σ → σ} (hf : ∀ l s, I l s → I l (f s)) :
    Keeps I (Effect.modify f : Effect ν ε σ Unit) :=
  fun l s h => Traced.modify (hf l s h)

/-- An action that is undone in part, where what is undone does not matter. -/
theorem undoOnError {undo : σ → σ → σ} {x : Effect ν ε σ α} (hx : x.Keeps I)
    (hundo : ∀ l s s', I l s' → I l (undo s s')) : (x.undoOnError undo).Keeps I := by
  intro l s h
  apply Traced.undoOnError
  apply (hx l s h).mono
  intro r l' s' h'
  cases r with
  | ok a => exact h'
  | error e => exact hundo l' s s' h'

theorem forM {f : β → Effect ν ε σ PUnit} (hf : ∀ b, (f b).Keeps I) (todo : List β) :
    Keeps I (todo.forM f) := by
  intro l s h
  apply Traced.forM (I := fun _ => I)
  . intro b todo l s h
    apply (hf b l s h).mono
    intro r l' s' h'
    cases r with
    | ok _ => exact h'
    | error e => exact h'
  . intro l s h
    exact h
  . exact h

/-- What more notes do not change is kept. -/
theorem and {x : Effect ν ε σ α} (hx : x.Keeps I) {P : List ν → Prop}
    (hP : ∀ l l', P l → P (l ++ l')) : Keeps (fun l s => I l s ∧ P l) x :=
  fun l s h => ⟨hx l s h.1, hP l (x s).notes h.2⟩

/-- Notes that were left stay. -/
theorem remember {x : Effect ν ε σ α} (hx : x.Keeps I) (n : ν) :
    Keeps (fun l s => I l s ∧ n ∈ l) x :=
  hx.and fun _ _ => List.mem_append_left _

end Keeps

end Effect
