import Golos.Lib.Transition
import Golos.Voting.Lemmas.Outcome

/-!
This module contains what the votes of one voter on one comment do to the reputation of its author, from
the first vote through every change of it.
-/

namespace Golos

open Checked

namespace Voting

variable {s s' : Voting} {voter author : AccountName} {comment : Nat}

section table

theorem findVote_insert {t t' : Table CommentVoteObject.byCommentVoter} {v : CommentVoteObject}
    (h : ∃ hnone, t' = t.insert v hnone) : t'.find? v.byCommentVoter = some v := by
  obtain ⟨hnone, rfl⟩ := h
  rw [Table.find?_insert, if_pos rfl]

end table

/-- The reputations without the vote of the voter on the comment. -/
def unvoted (s : Voting) (voter author : AccountName) (comment : Nat) : AccountName → Option ℤ :=
  match s.findVote comment voter with
  | some v => raised s.reputation author (-reputationDelta v.rshares)
  | none => s.reputation

/-- A node that keeps account of what one voter's votes on one comment ought to be worth. -/
structure Watch where
  db : Voting
  /-- The reputation of the author without the votes of the voter on the comment. -/
  others : ℤ
  /-- The last vote was allowed to count when it was cast. -/
  counted : Bool

namespace Watch

variable {w w' : Watch}

inductive Event where
  /-- The voter votes on the comment. -/
  | vote (op : VoteOperation)
  /-- Anything else, which changes the reputation of the author in its own way. -/
  | other

/-- The comment is one that waits for its payout. -/
def Pending (w : Watch) (op : VoteOperation) (comment : Nat) : Prop :=
  ∃ c, w.db.findCommentByPerm op.author op.hashlink = some c ∧ c.id = comment ∧
    c.cashoutTime ≠ maxTimePoint

/-- The comment has been paid out. -/
def Late (w : Watch) (op : VoteOperation) (comment : Nat) : Prop :=
  ∃ c, w.db.findCommentByPerm op.author op.hashlink = some c ∧ c.id = comment ∧
    c.cashoutTime = maxTimePoint

def Step (voter author : AccountName) (comment : Nat) (w : Watch) : Event → Watch → Prop
  | .vote op, w' =>
    op.voter = voter ∧ op.author = author ∧ w.db.vote op = .ok w'.db ∧ w'.others = w.others ∧
      ((w.Late op comment ∧ w'.counted = w.counted) ∨
        (w.Pending op comment ∧ ∀ v, w'.db.findVote comment voter = some v →
          (w'.counted ↔ Counts (w.db.unvoted voter author comment) voter author v.rshares)))
  | .other, w' =>
    w'.db.findVote comment voter = w.db.findVote comment voter ∧ w'.counted = w.counted ∧
      ∃ r r', w.db.reputation author = some r ∧ w'.db.reputation author = some r' ∧
        w'.others = w.others + (r' - r)

/-- The runs that begin before the first vote of the voter on the comment. -/
def votes (voter author : AccountName) (comment : Nat) : TransitionSystem Watch Event where
  initial w := w.db.findVote comment voter = none ∧ w.db.reputation author = some w.others
  step := Step voter author comment

/-- What the vote ought to be worth. -/
def worth (w : Watch) (v : CommentVoteObject) : ℤ :=
  if w.counted then reputationDelta v.rshares else 0

/-- The author's reputation is that without the voter's votes and what the last vote is worth. -/
def Settled (voter author : AccountName) (comment : Nat) (w : Watch) : Prop :=
  ∀ v, w.db.findVote comment voter = some v →
    w.db.reputation author = some (w.others + w.worth v)

/-- The same, and without a vote it is that of the others. -/
def Accounted (voter author : AccountName) (comment : Nat) (w : Watch) : Prop :=
  w.db.reputation author =
    some (w.others + ((w.db.findVote comment voter).map w.worth).getD 0)

theorem Accounted.settled (h : Accounted voter author comment w) :
    Settled voter author comment w := by
  intro v hv
  unfold Accounted at h
  rw [h, hv]
  rfl

/-- A vote is changed only if it counted, or could not make a difference. -/
def Undoable (voter : AccountName) (comment : Nat) (w : Watch) : Event → Prop
  | .vote op => w.Pending op comment → ∀ v, w.db.findVote comment voter = some v →
      w.counted ∨ reputationDelta v.rshares = 0
  | .other => True

section steps

theorem reputationDelta_zero : reputationDelta 0 = 0 := rfl

theorem raised_self {rep : AccountName → Option ℤ} {r delta : ℤ} (h : rep author = some r) :
    raised rep author delta author = some (r + delta) := by
  unfold raised
  rw [if_pos rfl, h]
  rfl

/-- What a vote adds to the reputation that its author has without it. -/
theorem reputation_of_reputed {rep rep' : AccountName → Option ℤ} {rshares r : ℤ} {counted : Bool}
    (h : Reputed rep voter author rshares rep') (hr : rep author = some r)
    (hcounted : counted ↔ Counts rep voter author rshares) :
    rep' author = some (r + if counted then reputationDelta rshares else 0) := by
  cases h with
  | counted hcounts => rw [raised_self hr, if_pos (hcounted.mpr hcounts)]
  | ignored hignored =>
    rw [hr, if_neg fun hc => hignored (hcounted.mp hc), add_zero]

/-- The reputation that the author has when the vote is added, without the vote before. -/
theorem unvoted_of_accounted (h : Accounted voter author comment w) :
    w.db.unvoted voter author comment author =
      some (w.others + ((w.db.findVote comment voter).map fun v =>
        w.worth v - reputationDelta v.rshares).getD 0) := by
  unfold Accounted at h
  unfold unvoted
  cases hv : w.db.findVote comment voter with
  | none =>
    rw [hv] at h
    exact h
  | some v =>
    rw [hv] at h
    dsimp only
    rw [raised_self h]
    simp only [Option.map_some, Option.getD_some, Option.some.injEq]
    omega

/-- A vote that waits for the payout puts its own worth in the place of the one before. -/
theorem reputation_of_pending {op : VoteOperation} (h : Accounted voter author comment w)
    (hpending : w.Pending op comment) (hvoter : op.voter = voter) (hauthor : op.author = author)
    (hvote : w.db.vote op = .ok w'.db)
    (hcounted : ∀ v, w'.db.findVote comment voter = some v →
      (w'.counted ↔ Counts (w.db.unvoted voter author comment) voter author v.rshares)) :
    ∃ v', w'.db.findVote comment voter = some v' ∧ w'.db.reputation author =
      some (w.others + ((w.db.findVote comment voter).map fun v =>
        w.worth v - reputationDelta v.rshares).getD 0 + w'.worth v') := by
  subst hvoter hauthor
  obtain ⟨c, hc, rfl, hcashout⟩ := hpending
  have hbefore := unvoted_of_accounted h
  cases outcome_of_vote hvote with
  | account rshares hcomment hsame hrep =>
    rw [hc] at hcomment
    cases hcomment
  | lateFirst c' hcomment hlate =>
    rw [hc] at hcomment
    cases hcomment
    exact absurd hlate hcashout
  | lateChange c' v hcomment hlate =>
    rw [hc] at hcomment
    cases hcomment
    exact absurd hlate hcashout
  | first c' rshares rates hcomment _ hvotes hadds helsewhere habs hpos hrep =>
    rw [hc] at hcomment
    cases hcomment
    have hkey := byCommentVoter_newVote (s := w.db) c op rshares rates
    have hfind : w'.db.findVote c.id op.voter = some (w.db.newVote c op rshares rates) := by
      unfold findVote
      rw [← hkey]
      exact findVote_insert hvotes
    refine ⟨_, hfind, ?_⟩
    have hnone : w.db.findVote c.id op.voter = none := by
      obtain ⟨hnone, -⟩ := hvotes
      rw [hkey] at hnone
      exact hnone
    have hcounts := hcounted _ hfind
    rw [rshares_newVote] at hcounts
    have hunvoted : w.db.unvoted op.voter op.author c.id = w.db.reputation := by
      unfold unvoted
      rw [hnone]
    rw [hunvoted] at hcounts hbefore
    unfold worth
    rw [rshares_newVote]
    exact reputation_of_reputed hrep hbefore hcounts
  | changed c' v rshares hcomment _ hold hvotes hadds helsewhere hchanges habs hrep =>
    rw [hc] at hcomment
    cases hcomment
    have hfind : w'.db.findVote c.id op.voter =
        some (changedVote op rshares w.db.headBlockTime v) := by
      unfold findVote
      rw [hvotes, Table.find?_modify_self, hold]
      rfl
    refine ⟨_, hfind, ?_⟩
    have hcounts := hcounted _ hfind
    have hunvoted : w.db.unvoted op.voter op.author c.id =
        raised w.db.reputation op.author (-reputationDelta v.rshares) := by
      unfold unvoted findVote
      rw [hold]
    rw [hunvoted] at hcounts hbefore
    exact reputation_of_reputed hrep hbefore hcounts

/-- A vote after the payout has no shares, and the change of one leaves its shares. -/
theorem accounted_of_late {op : VoteOperation} (h : Accounted voter author comment w)
    (hlate : w.Late op comment) (hvoter : op.voter = voter)
    (hvote : w.db.vote op = .ok w'.db) (hothers : w'.others = w.others)
    (hcounted : w'.counted = w.counted) : Accounted voter author comment w' := by
  subst hvoter
  obtain ⟨c, hc, rfl, hcashout⟩ := hlate
  unfold Accounted at h ⊢
  cases outcome_of_vote hvote with
  | account rshares hcomment hsame hrep =>
    rw [hc] at hcomment
    cases hcomment
  | lateFirst c' hcomment _ hvotes hadds helsewhere hrep =>
    rw [hc] at hcomment
    cases hcomment
    have hfind : w'.db.findVote c.id op.voter = some (lateVote op c.id w.db.headBlockTime) :=
      findVote_insert hvotes
    have hnone : w.db.findVote c.id op.voter = none := by
      obtain ⟨hnone, -⟩ := hvotes
      exact hnone
    rw [hnone] at h
    rw [hrep, hfind, h, hothers]
    simp only [Option.map_none, Option.map_some, Option.getD_none, Option.getD_some, worth,
      lateVote, reputationDelta_zero, ite_self]
  | lateChange c' v hcomment _ hold hvotes hadds helsewhere hrep =>
    rw [hc] at hcomment
    cases hcomment
    have hfind : w'.db.findVote c.id op.voter = some (lateChange op w.db.headBlockTime v) := by
      unfold findVote
      rw [hvotes, Table.find?_modify_self, hold]
      rfl
    have hsome : w.db.findVote c.id op.voter = some v := hold
    rw [hsome] at h
    rw [hrep, hfind, h, hothers]
    simp only [Option.map_some, Option.getD_some, worth, lateChange, hcounted]
  | first c' rshares rates hcomment hpending =>
    rw [hc] at hcomment
    cases hcomment
    exact absurd hcashout hpending
  | changed c' v rshares hcomment hpending =>
    rw [hc] at hcomment
    cases hcomment
    exact absurd hcashout hpending

theorem Accounted.step {e : Event} (h : Accounted voter author comment w)
    (hundoable : Undoable voter comment w e) (hstep : Step voter author comment w e w') :
    Accounted voter author comment w' := by
  cases e with
  | vote op =>
    obtain ⟨hvoter, hauthor, hvote, hothers, ⟨hlate, hcounted⟩ | ⟨hpending, hcounted⟩⟩ := hstep
    . exact accounted_of_late h hlate hvoter hvote hothers hcounted
    . obtain ⟨v', hv', hrep⟩ := reputation_of_pending h hpending hvoter hauthor hvote hcounted
      unfold Accounted
      rw [hrep, hv', hothers]
      cases hv : w.db.findVote comment voter with
      | none => simp
      | some v =>
        -- the vote before is taken back as it was given
        have hundone : w.worth v - reputationDelta v.rshares = 0 := by
          unfold worth
          rcases hundoable hpending v hv with hc | hzero
          . rw [if_pos hc, sub_self]
          . rw [hzero, ite_self, sub_self]
        simp [hundone]
  | other =>
    obtain ⟨hvotes, hcounted, r, r', hr, hr', hothers⟩ := hstep
    unfold Accounted at h ⊢
    have hworth : w'.worth = w.worth := by
      unfold worth
      rw [hcounted]
    rw [hr, Option.some.injEq] at h
    rw [hr', hvotes, hworth, hothers, h, Option.some.injEq]
    omega

/-- A vote that did not count is taken back all the same when it is changed. -/
theorem not_settled_of_not_undoable {e : Event} (h : Accounted voter author comment w)
    (hundoable : ¬Undoable voter comment w e) (hstep : Step voter author comment w e w') :
    ¬Settled voter author comment w' := by
  cases e with
  | other => exact absurd trivial hundoable
  | vote op =>
    simp only [Undoable, not_forall, not_or] at hundoable
    obtain ⟨hpending, v, hv, hnot, hne⟩ := hundoable
    obtain ⟨hvoter, hauthor, hvote, hothers, ⟨hlate, -⟩ | ⟨-, hcounted⟩⟩ := hstep
    . obtain ⟨c, hc, -, hcashout⟩ := hpending
      obtain ⟨c', hc', -, hcashout'⟩ := hlate
      rw [hc] at hc'
      cases hc'
      exact absurd hcashout' hcashout
    . intro hsettled
      obtain ⟨v', hv', hrep⟩ := reputation_of_pending h hpending hvoter hauthor hvote hcounted
      have := hsettled v' hv'
      rw [hrep, hv, hothers] at this
      unfold worth at this
      simp only [Option.map_some, Option.getD_some, if_neg hnot, Option.some.injEq] at this
      omega

end steps

theorem accounted_of_reach
    (h : (votes voter author comment).Reach (Undoable voter comment) w) :
    Accounted voter author comment w := by
  apply h.invariant
  . rintro w ⟨hnone, hrep⟩
    unfold Accounted
    rw [hnone, hrep]
    simp
  . intro w e w' hw hundoable hstep
    exact hw.step hundoable hstep

/--
As long as only votes that counted are changed, the author's reputation is what it would be without
the voter, and the last vote's share of it; and the first change of any other vote ends this.
-/
theorem settled_of_reach (voter author : AccountName) (comment : Nat) :
    (∀ w, (votes voter author comment).Reach (Undoable voter comment) w →
      Settled voter author comment w) ∧
    ∀ w e w', (votes voter author comment).Reach (Undoable voter comment) w →
      ¬Undoable voter comment w e → (votes voter author comment).step w e w' →
      ¬Settled voter author comment w' := by
  constructor
  . intro w hw
    exact (accounted_of_reach hw).settled
  . intro w e w' hw hundoable hstep
    exact not_settled_of_not_undoable (accounted_of_reach hw) hundoable hstep

section overridden

/-- Alice has written a comment, and bob has no better reputation than she has. -/
def equals : Voting where
  staking :=
    { accounts :=
        ⟨
          [
            { name := "null" },
            { name := "alice" },
            { name := "bob", vestingShares := 1000000000000 }
          ],
          show ["null", "alice", "bob"].Nodup by decide
        ⟩
      headBlockTime := 1700000000 }
  voters :=
    ⟨
      [{ name := "null" }, { name := "alice" }, { name := "bob" }],
      show ["null", "alice", "bob"].Nodup by decide
    ⟩
  comments :=
    ⟨
      [
        { id := 0, author := "alice", hashlink := 7, created := 1700000000,
          cashoutTime := 1700604800, rootComment := 0 }
      ],
      by decide
    ⟩
  bills := ⟨[{ comment := 0, bill := {} }], by decide⟩

def voteOfBob (weight : ℤ) : VoteOperation where
  voter := "bob"
  author := "alice"
  permlinkSize := 4
  hashlink := 7
  weight := weight

def downvoted : Voting :=
  (equals.vote (voteOfBob (-10000))).toOption.getD {}

def upvoted : Voting :=
  (downvoted.vote (voteOfBob 10000)).toOption.getD {}

theorem vote_equals : equals.vote (voteOfBob (-10000)) = .ok downvoted :=
  eq_ok_of_isSome (by decide +kernel)

theorem vote_downvoted : downvoted.vote (voteOfBob 10000) = .ok upvoted :=
  eq_ok_of_isSome (by decide +kernel)

theorem initial_equals : (votes "bob" "alice" 0).initial ⟨equals, 0, false⟩ :=
  ⟨rfl, rfl⟩

theorem pending_of_rows {w : Watch} {op : VoteOperation} {comment : Nat}
    (h : ∃ c ∈ w.db.findCommentByPerm op.author op.hashlink,
      c.id = comment ∧ c.cashoutTime ≠ maxTimePoint) : w.Pending op comment :=
  h

/-- A step in which the vote of so many shares does or does not count. -/
theorem step_of_vote {w w' : Watch} {op : VoteOperation} (rshares : ℤ)
    (hvote : w.db.vote op = .ok w'.db) (hothers : w'.others = w.others)
    (hpending : w.Pending op comment)
    (hrshares : (w'.db.findVote comment op.voter).map CommentVoteObject.rshares = some rshares)
    (hcounted : w'.counted ↔
      Counts (w.db.unvoted op.voter op.author comment) op.voter op.author rshares) :
    (votes op.voter op.author comment).step w (.vote op) w' := by
  refine ⟨rfl, rfl, hvote, hothers, .inr ⟨hpending, ?_⟩⟩
  intro v hv
  rw [hv, Option.map_some, Option.some.injEq] at hrshares
  rw [hrshares]
  exact hcounted

theorem reach_downvoted :
    (votes "bob" "alice" 0).Reach (Undoable "bob" 0) ⟨downvoted, 0, false⟩ := by
  refine .step (e := .vote (voteOfBob (-10000))) (.initial initial_equals) ?_ ?_
  . intro _ v hv
    cases hv
  . exact step_of_vote (-20000000000) vote_equals rfl (pending_of_rows (by decide +kernel))
      (by decide +kernel) (by decide +kernel)

/-- The downvote did not count, and taking it back raises the reputation once more. -/
theorem upvoted_not_settled :
    (votes "bob" "alice" 0).Reachable ⟨upvoted, 0, true⟩ ∧
      ¬Settled "bob" "alice" 0 ⟨upvoted, 0, true⟩ := by
  constructor
  . refine .step (e := .vote (voteOfBob 10000)) reach_downvoted.reachable trivial ?_
    exact step_of_vote 19600000000 vote_downvoted rfl (pending_of_rows (by decide +kernel))
      (by decide +kernel) (by decide +kernel)
  . intro h
    have hrshares : (upvoted.findVote 0 "bob").map CommentVoteObject.rshares = some 19600000000 := by
      decide +kernel
    have hrep : upvoted.reputation "alice" = some (312500000 + 306250000) := by
      decide +kernel
    obtain ⟨v, hv, hv'⟩ := Option.map_eq_some_iff.mp hrshares
    have := h v hv
    rw [hrep] at this
    simp [worth, hv', reputationDelta] at this

/-- Bob upvotes first, which counts, and then takes half of the vote back. -/
def supported : Voting :=
  (equals.vote (voteOfBob 10000)).toOption.getD {}

def halved : Voting :=
  (supported.vote (voteOfBob 5000)).toOption.getD {}

theorem reach_halved : (votes "bob" "alice" 0).Reach (Undoable "bob" 0) ⟨halved, 0, true⟩ := by
  have hvote : equals.vote (voteOfBob 10000) = .ok supported := eq_ok_of_isSome (by decide +kernel)
  have hchange : supported.vote (voteOfBob 5000) = .ok halved := eq_ok_of_isSome (by decide +kernel)
  have hsupported : (votes "bob" "alice" 0).Reach (Undoable "bob" 0) ⟨supported, 0, true⟩ := by
    refine .step (e := .vote (voteOfBob 10000)) (.initial initial_equals) ?_ ?_
    . intro _ v hv
      cases hv
    . exact step_of_vote 20000000000 hvote rfl (pending_of_rows (by decide +kernel))
        (by decide +kernel) (by decide +kernel)
  refine .step (e := .vote (voteOfBob 5000)) hsupported (fun _ _ _ => .inl rfl) ?_
  exact step_of_vote 9800000000 hchange rfl (pending_of_rows (by decide +kernel))
    (by decide +kernel) (by decide +kernel)

theorem settled_of_reach_halved :
    Settled "bob" "alice" 0 ⟨halved, 0, true⟩ ∧ halved.reputation "alice" = some 153125000 :=
  ⟨(settled_of_reach "bob" "alice" 0).1 _ reach_halved, by decide +kernel⟩

end overridden

end Watch

end Voting

end Golos
