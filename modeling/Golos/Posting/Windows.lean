import Golos.Posting.Lemmas
import Golos.Witness.Windows

/-!
This module contains the runs of posts, comments and votes, and how many of them their windows let
pass for nothing.
-/

namespace Golos

open Checked Witness

namespace Posting

variable {s s' : Posting}

inductive Event where
  | comment (op : CommentOperation)
  | vote (op : VoteOperation)
  /-- Everything else: passing blocks, other operations, accounts that come up and new medians. -/
  | elsewhere

/-- Time goes on, and no account loses or gains capacity. -/
structure Elsewhere (s s' : Posting) : Prop where
  headBlockTime_le : s.headBlockTime ≤ s'.headBlockTime
  bucket? : ∀ kind name b, s.bucket? kind name = some b → s'.bucket? kind name = some b

def Step (s : Posting) : Event → Posting → Prop
  | .comment op, s' => s.comment op = .ok s'
  | .vote op, s' => s.vote op = .ok s'
  | .elsewhere, s' => s.Elsewhere s'

/-- The runs from a state on. -/
def runsFrom (s : Posting) : TransitionSystem Posting Event where
  initial s' := s' = s
  step := Step

/-- The event is an action of the account that its window is for. -/
def Does (s : Posting) (kind : WindowKind) (name : AccountName) : Event → Prop
  | .comment op =>
    s.voting.findCommentByPerm op.author op.hashlink = none ∧ op.kind = kind ∧ op.author = name
  | .vote op => ¬s.Archived op ∧ .votes = kind ∧ op.voter = name
  | .elsewhere => False

instance (kind : WindowKind) (name : AccountName) : (e : Event) → Decidable (s.Does kind name e)
  | .comment _ => inferInstanceAs (Decidable (_ ∧ _))
  | .vote _ => inferInstanceAs (Decidable (_ ∧ _))
  | .elsewhere => inferInstanceAs (Decidable False)

/-- The event is such an action, and the account does not pay for it. -/
def DoesFree (kind : WindowKind) (name : AccountName) (x : Posting × Event) : Prop :=
  x.1.Does kind name x.2 ∧ x.1.Free kind name

instance (kind : WindowKind) (name : AccountName) : DecidablePred (DoesFree kind name) :=
  fun _ => inferInstanceAs (Decidable (_ ∧ _))

/-- An event is an action of the account, or leaves what the account has in its window. -/
theorem step_cases {e : Event} (h : s.Step e s') (kind : WindowKind) (name : AccountName) :
    (s.Does kind name e ∧ Acts s s' kind name) ∨ (¬s.Does kind name e ∧
      s.headBlockTime ≤ s'.headBlockTime ∧
      ∀ b, s.bucket? kind name = some b → s'.bucket? kind name = some b) := by
  have hothers : ∀ kind' name', Acts s s' kind' name' → ¬(kind' = kind ∧ name' = name) →
      s.headBlockTime ≤ s'.headBlockTime ∧
        ∀ b, s.bucket? kind name = some b → s'.bucket? kind name = some b := by
    intro kind' name' hacts hne
    refine ⟨hacts.headBlockTime.ge, fun b hb => ?_⟩
    rw [hacts.others kind name fun heq => hne ⟨heq.1.symm, heq.2.symm⟩]
    exact hb
  have hrests : Rests s s' → s.headBlockTime ≤ s'.headBlockTime ∧
      ∀ b, s.bucket? kind name = some b → s'.bucket? kind name = some b := by
    intro hrests
    refine ⟨hrests.headBlockTime.ge, fun b hb => ?_⟩
    rw [hrests.bucket?]
    exact hb
  cases e with
  | comment op =>
    cases hfound : s.voting.findCommentByPerm op.author op.hashlink with
    | none =>
      have hacts := acts_of_comment hfound h
      by_cases heq : op.kind = kind ∧ op.author = name
      . exact .inl ⟨⟨hfound, heq⟩, heq.1 ▸ heq.2 ▸ hacts⟩
      . exact .inr ⟨fun hdoes => heq hdoes.2, hothers _ _ hacts heq⟩
    | some c =>
      refine .inr ⟨fun hdoes => ?_, hrests (rests_of_editComment hfound h)⟩
      rw [hdoes.1] at hfound
      cases hfound
  | vote op =>
    by_cases hlate : s.Archived op
    . exact .inr ⟨fun hdoes => hdoes.1 hlate, hrests (rests_of_archivedVote hlate h)⟩
    . have hacts := acts_of_vote hlate h
      by_cases heq : .votes = kind ∧ op.voter = name
      . exact .inl ⟨⟨hlate, heq⟩, heq.1 ▸ heq.2 ▸ hacts⟩
      . exact .inr ⟨fun hdoes => heq hdoes.2, hothers _ _ hacts heq⟩
  | elsewhere => exact .inr ⟨id, h.headBlockTime_le, h.bucket? kind name⟩

/-- An action takes from the bucket, if it is free. -/
theorem act_of_acts {kind : WindowKind} {name : AccountName} (h : Acts s s' kind name) :
    ∃ b b', s.bucket? kind name = some b ∧ s'.bucket? kind name = some b' ∧
      b'.last = s.headBlockTime ∧
      TokenBucket.Act (s.window kind) (s.consumption kind) 60 b s.headBlockTime
        (decide (s.Free kind name)) b' := by
  obtain ⟨b, left, hb, htakes, hleft⟩ := h.takes
  refine ⟨b, _, hb, hleft, rfl, ?_⟩
  cases htakes with
  | free htakes =>
    have hfree : s.Free kind name := ⟨b, hb, by omega⟩
    have heq : left = s.currentCapacity kind b - s.consumption kind := by omega
    rw [decide_eq_true hfree, heq]
    exact .take (s.currentCapacity_le kind b) (by omega)
  | paid htakes =>
    have hpaid : ¬s.Free kind name := by
      rintro ⟨b', hb', hle⟩
      rw [Option.mem_def, hb] at hb'
      cases hb'
      omega
    rw [decide_eq_false hpaid]
    exact .pass

section span

-- The window and the span of time that actions are counted in.
variable (kind : WindowKind) (name : AccountName) (window perWindow start minutes : Nat)

/-- The state is in the span of time, and the window is what it is all through it. -/
structure InSpan (s : Posting) : Prop where
  window : s.window kind = window
  perWindow : s.perWindow kind = perWindow
  start_le : start ≤ s.headBlockTime
  le : s.headBlockTime ≤ start + 60 * minutes

/-- The free actions that are counted have been taken from the bucket. -/
def Counted (past : List (Posting × Event)) (s : Posting) : Prop :=
  (∀ x ∈ past, InSpan kind window perWindow start minutes x.1) →
    past.countP (DoesFree kind name ·) = 0 ∨ ∃ b, s.bucket? kind name = some b ∧
      TokenBucket.Budget window (window / perWindow) 60 start
        (past.countP (DoesFree kind name ·)) b ∧
      b.last ≤ s.headBlockTime ∧ b.last ≤ start + 60 * minutes

variable {kind name window perWindow start minutes}

theorem Counted.step {past : List (Posting × Event)} {e : Event}
    (h : Counted kind name window perWindow start minutes past s) (hstep : s.Step e s') :
    Counted kind name window perWindow start minutes ((s, e) :: past) s' := by
  intro hspan
  rw [List.forall_mem_cons] at hspan
  obtain ⟨hnow, hpast⟩ := hspan
  have h := h hpast
  have hstart : start ≤ s.headBlockTime := hnow.start_le
  have hend : s.headBlockTime ≤ start + 60 * minutes := hnow.le
  rw [List.countP_cons]
  generalize past.countP (DoesFree kind name ·) = taken at h
  rcases step_cases hstep kind name with ⟨hdoes, hacts⟩ | ⟨hother, htime, hbucket⟩
  . obtain ⟨b, b', hb, hb', hlast, hact⟩ := act_of_acts hacts
    have htime := hacts.headBlockTime
    have hfree : (if decide (DoesFree kind name (s, e)) = true then 1 else 0) =
        (decide (s.Free kind name)).toNat := by
      have hiff : DoesFree kind name (s, e) ↔ s.Free kind name := and_iff_right hdoes
      by_cases hfree : s.Free kind name
      . simp [hiff, hfree]
      . simp [hiff, hfree]
    rw [hfree]
    unfold consumption at hact
    rw [hnow.window, hnow.perWindow] at hact
    rcases h with rfl | ⟨b₀, hb₀, hbudget, hlast₀, -⟩
    . cases htakes : decide (s.Free kind name) with
      | false => exact .inl rfl
      | true =>
        rw [htakes] at hact
        exact .inr ⟨b', hb', .first hstart hact, by omega, by omega⟩
    . rw [hb] at hb₀
      cases hb₀
      exact .inr ⟨b', hb', hbudget.act hlast₀ hact, by omega, by omega⟩
  . rw [if_neg (by simpa using fun hboth : DoesFree kind name (s, e) => hother hboth.1),
      Nat.add_zero]
    rcases h with rfl | ⟨b, hb, hbudget, hlast, hle⟩
    . exact .inl rfl
    . exact .inr ⟨b, hbucket b hb, hbudget, by omega, hle⟩

theorem counted_of_run {first : Posting} {past : List (Posting × Event)}
    (h : (runsFrom first).Run past s) : Counted kind name window perWindow start minutes past s :=
  h.invariant (fun _ _ _ => .inl rfl) fun _ _ _ _ hcounted hstep => hcounted.step hstep

end span

/-- A free action takes exactly its part of the capacity. -/
theorem level_of_doesFree {e : Event} {kind : WindowKind} {name : AccountName}
    (hstep : s.Step e s') (hfree : DoesFree kind name (s, e)) :
    ∃ b b', s.bucket? kind name = some b ∧ s'.bucket? kind name = some b' ∧
      b'.level + s.consumption kind = s.currentCapacity kind b := by
  obtain ⟨hdoes, b₀, hb₀, hle⟩ := hfree
  rcases step_cases hstep kind name with ⟨-, hacts⟩ | ⟨hother, -⟩
  . obtain ⟨b, left, hb, htakes, hleft⟩ := hacts.takes
    refine ⟨b, _, hb, hleft, ?_⟩
    cases htakes with
    | free htakes => exact htakes
    | paid hlt =>
      have heq : b₀ = b := Option.some.inj (hb₀.symm.trans hb)
      rw [heq] at hle
      dsimp only at hle
      omega
  . exact absurd hdoes hother

end Posting

section limits

def WindowKind.window (p : ChainProperties) : WindowKind → Nat
  | .posts => p.postsWindow
  | .comments => p.commentsWindow
  | .votes => p.votesWindow

def WindowKind.perWindow (p : ChainProperties) : WindowKind → Nat
  | .posts => p.postsPerWindow
  | .comments => p.commentsPerWindow
  | .votes => p.votesPerWindow

theorem WindowKind.perWindow_le {p : ChainProperties} (h : InWindows p) (kind : WindowKind) :
    1 ≤ kind.perWindow p ∧ kind.perWindow p ≤ kind.window p := by
  obtain ⟨hposts, hcomments, hvotes⟩ := inWindows_iff.mp h
  cases kind with
  | posts => exact ⟨Nat.pos_of_ne_zero hposts.1, hposts.2⟩
  | comments => exact ⟨Nat.pos_of_ne_zero hcomments.1, hcomments.2⟩
  | votes => exact ⟨Nat.pos_of_ne_zero hvotes.1, hvotes.2⟩

/-- While most of the scheduled witnesses leave time for their operations, a window lets no more
actions pass for nothing than it has capacity for. -/
theorem free_actions_le {db : WitnessDatabase}
    (h : witnessSystem.Reach WitnessDatabase.LeavesTime db) (kind : WindowKind) :
    let window := kind.window db.schedule.medianProps
    let perWindow := kind.perWindow db.schedule.medianProps
    (1 ≤ perWindow ∧ perWindow ≤ window ∧ 1 ≤ window / perWindow) ∧
      (∀ first past s name start minutes, (Posting.runsFrom first).Run past s →
        (∀ x ∈ past, Posting.InSpan kind window perWindow start minutes x.1) →
        past.countP (Posting.DoesFree kind name ·) ≤
          (window + minutes + 1) / (window / perWindow)) ∧
      ∀ s e s' name, Posting.Step s e s' → Posting.DoesFree kind name (s, e) →
        ∃ b b', s.bucket? kind name = some b ∧ s'.bucket? kind name = some b' ∧
          b'.level + s.consumption kind = s.currentCapacity kind b := by
  intro window perWindow
  obtain ⟨hpos, hle⟩ :=
    WindowKind.perWindow_le (WitnessDatabase.windowed_of_reach h).medianProps kind
  have hconsumption : 1 ≤ window / perWindow := Nat.div_pos hle hpos
  refine ⟨⟨hpos, hle, hconsumption⟩, ?_, ?_⟩
  . intro first past s name start minutes hrun hspan
    rcases Posting.counted_of_run hrun hspan with hnone | ⟨b, -, hbudget, -, hlast⟩
    . rw [hnone]
      exact Nat.zero_le _
    . apply (hbudget.taken_le (by decide) hconsumption hlast).trans
      exact Nat.div_le_div_right (Nat.le_succ _)
  . intro s e s' name hstep hfree
    exact Posting.level_of_doesFree hstep hfree

theorem free_actions_le_timely :
    WitnessDatabase.timely.schedule.medianProps.commentsWindow = 10 ∧
      1 ≤ WindowKind.comments.window WitnessDatabase.timely.schedule.medianProps /
        WindowKind.comments.perWindow WitnessDatabase.timely.schedule.medianProps :=
  ⟨by decide +kernel,
    (free_actions_le WitnessDatabase.reach_timely .comments).1.2.2⟩

/-- Without votes for properties the windows shrink below their numbers, and limit nothing. -/
theorem windows_of_untouched : ∃ db, witnessSystem.Reachable db ∧ db.hasHardfork 27 ∧
    WindowKind.comments.window db.schedule.medianProps = 3 ∧
      WindowKind.comments.perWindow db.schedule.medianProps = 10 ∧
      ¬∀ kind : WindowKind, kind.perWindow db.schedule.medianProps ≤
        kind.window db.schedule.medianProps ∧
        1 ≤ kind.window db.schedule.medianProps / kind.perWindow db.schedule.medianProps := by
  refine ⟨WitnessDatabase.untouched, WitnessDatabase.reachable_untouched, by decide +kernel,
    by decide +kernel, by decide +kernel, ?_⟩
  intro hall
  exact absurd (hall .comments).1 (by decide +kernel)

end limits

end Golos
