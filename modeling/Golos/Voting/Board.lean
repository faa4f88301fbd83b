import Golos.Lib.Transition
import Golos.Voting.Impl.Payout
import Golos.Voting.Lemmas.Outcome

/-!
This module contains the runs in which comments are written, voted on, paid out and deleted, and what the
votes on a comment keep to in all of them.
-/

namespace Golos

open Checked

namespace Voting

variable {s s' : Voting}

section bills

/-- The window that the votes on a comment are cast in. -/
abbrev window (s : Voting) (comment : Nat) : Nat :=
  (s.getCommentBill comment).auctionWindowSize

theorem window_eq (s : Voting) (comment : Nat) :
    s.window comment =
      ((s.bills.find? comment).map fun o => o.bill.auctionWindowSize).getD (60 * 30) := by
  unfold window getCommentBill findCommentBill
  cases s.bills.find? comment with
  | none => rfl
  | some o => rfl

/-- The bills have windows of 16 bits. -/
def ShortWindows (s : Voting) : Prop :=
  ∀ o ∈ s.bills.rows, o.bill.auctionWindowSize < 2 ^ 16

theorem ShortWindows.window_lt (h : ShortWindows s) (comment : Nat) : s.window comment < 2 ^ 16 := by
  rw [window_eq]
  cases hfind : s.bills.find? comment with
  | none => decide
  | some o => exact h o (Table.mem_of_find? hfind)

theorem window_upsertCommentBill {comment : Nat} {f : CommentBill → CommentBill}
    (hf : ∀ b, (f b).auctionWindowSize = b.auctionWindowSize) (id : Nat) :
    (s.upsertCommentBill comment f).window id = s.window id := by
  rw [window_eq, window_eq]
  unfold upsertCommentBill
  split
  . next o ho =>
    dsimp only
    rw [Table.find?_modify]
    by_cases heq : id = comment
    . rw [if_pos heq, heq, ho]
      exact hf o.bill
    . rw [if_neg heq]
  . next hnone =>
    dsimp only
    rw [Table.find?_insert]
    by_cases heq : comment = id
    . rw [if_pos heq, ← heq, hnone]
      exact hf {}
    . rw [if_neg heq]

theorem ShortWindows.upsertCommentBill (h : ShortWindows s) {comment : Nat}
    {f : CommentBill → CommentBill} (hf : ∀ b, (f b).auctionWindowSize = b.auctionWindowSize) :
    ShortWindows (s.upsertCommentBill comment f) := by
  intro o' ho'
  unfold Voting.upsertCommentBill at ho'
  split at ho'
  . dsimp only at ho'
    rw [Table.mem_modify] at ho'
    rcases ho' with ⟨ho, -⟩ | ⟨o, ho, -, rfl⟩
    . exact h o' ho
    . rw [hf]
      exact h o ho
  . dsimp only at ho'
    rw [Table.mem_insert] at ho'
    rcases ho' with ho | rfl
    . exact h _ ho
    . rw [hf]
      decide

theorem same_upsertCommentBill (s : Voting) (comment : Nat) (f : CommentBill → CommentBill) :
    (s.upsertCommentBill comment f).comments = s.comments ∧
      (s.upsertCommentBill comment f).votes = s.votes := by
  unfold upsertCommentBill
  split
  . exact ⟨rfl, rfl⟩
  . exact ⟨rfl, rfl⟩

end bills

section shares

/-- The shares that the votes on a comment have by now. -/
def absOf (s : Voting) (comment : Nat) : ℤ :=
  s.votes.sum fun v => if v.comment = comment then |v.rshares| else 0

/-- The shares that they have in the curation reward. -/
def curationOf (s : Voting) (comment : Nat) : ℤ :=
  s.votes.sum fun v => if v.comment = comment then max v.origRshares 0 else 0

/-- What is kept of the votes on a comment that is there. -/
structure Booked (s : Voting) (c : CommentObject) : Prop where
  absOf_le : s.absOf c.id ≤ maxInt64
  curationOf_le : s.curationOf c.id ≤ maxInt64
  pending : c.lastPayout = 0 → s.absOf c.id ≤ c.absRshares ∧ c.absRshares ≤ maxInt64 ∧
    s.curationOf c.id ≤ c.voteRshares ∧ c.voteRshares ≤ maxInt64
  inWindow : c.lastPayout = 0 → ∀ v ∈ s.votes.rows, v.comment = c.id →
    v.auctionTime ≤ s.window c.id
  paid : c.lastPayout ≠ 0 → c.cashoutTime = maxTimePoint

/-- The comment has the same votes, and its row and its window are the same as far as they matter. -/
theorem Booked.congr {c c' : CommentObject} (h : Booked s c) (hid : c'.id = c.id)
    (habs : s'.absOf c.id = s.absOf c.id) (hcuration : s'.curationOf c.id = s.curationOf c.id)
    (hrow : c'.absRshares = c.absRshares ∧ c'.voteRshares = c.voteRshares ∧
      c'.lastPayout = c.lastPayout ∧ c'.cashoutTime = c.cashoutTime)
    (htimes : ∀ v' ∈ s'.votes.rows, v'.comment = c.id →
      ∃ v ∈ s.votes.rows, v.comment = v'.comment ∧ v.auctionTime = v'.auctionTime)
    (hwindow : s'.window c.id = s.window c.id) : Booked s' c' := by
  obtain ⟨habsRow, hvoteRow, hpayout, hcashout⟩ := hrow
  exact {
    absOf_le := by
      rw [hid, habs]
      exact h.absOf_le
    curationOf_le := by
      rw [hid, hcuration]
      exact h.curationOf_le
    pending := by
      rw [hid, habs, hcuration, habsRow, hvoteRow, hpayout]
      exact h.pending
    inWindow := by
      intro hpending v' hv' heq
      rw [hid] at heq ⊢
      obtain ⟨v, hv, hcomment, htime⟩ := htimes v' hv' heq
      rw [hwindow, ← htime]
      exact h.inWindow (hpayout ▸ hpending) v hv (hcomment.trans heq)
    paid := by
      rw [hpayout, hcashout]
      exact h.paid
  }

end shares

end Voting

/-- The database with the generator of the ids of comments. -/
structure Board where
  db : Voting
  nextComment : Nat

namespace Board

variable {w w' : Board}

inductive Event where
  | vote (op : VoteOperation)
  | comment (author : AccountName) (hashlink : Nat) (rootComment : Option Nat) (bill : CommentBill)
  | options (comment : Voting.CommentObject) (allowVotes allowCurationRewards : Bool)
    (destination : Option AuctionWindowRewardDestination)
  | cashout (comment : Nat) (curve : CurationCurve)
  | delete (comment : Voting.CommentObject)
  /-- Anything that is not about comments. -/
  | other

def Step (w : Board) : Event → Board → Prop
  | .vote op, w' => w.db.vote op = .ok w'.db ∧ w'.nextComment = w.nextComment
  | .comment author hashlink rootComment bill, w' =>
    bill.auctionWindowSize < 2 ^ 16 ∧
      w.db.createComment w.nextComment author hashlink rootComment bill = .ok w'.db ∧
      w'.nextComment = w.nextComment + 1
  | .options comment allowVotes allowCurationRewards destination, w' =>
    comment ∈ w.db.comments.rows ∧
      w.db.commentOptions comment allowVotes allowCurationRewards destination = .ok w'.db ∧
      w'.nextComment = w.nextComment
  | .cashout comment curve, w' =>
    steemitFirstCashoutTime < w.db.headBlockTime ∧ w'.db = w.db.archiveComment comment curve ∧
      w'.nextComment = w.nextComment
  | .delete comment, w' =>
    comment ∈ w.db.comments.rows ∧ w'.db = w.db.deleteComment comment ∧
      w'.nextComment = w.nextComment
  | .other, w' =>
    w'.db.comments = w.db.comments ∧ w'.db.bills = w.db.bills ∧ w'.db.votes = w.db.votes ∧
      w'.nextComment = w.nextComment

/-- The runs that begin before the first comment. -/
def publishing : TransitionSystem Board Event where
  initial w := w.db.comments.rows = [] ∧ w.db.bills.rows = [] ∧ w.db.votes.rows = []
  step := Step

structure Invariant (w : Board) : Prop where
  comments : ∀ c ∈ w.db.comments.rows, c.id < w.nextComment
  votes : ∀ v ∈ w.db.votes.rows, v.comment < w.nextComment ∧ v.auctionTime < 2 ^ 16
  windows : w.db.ShortWindows
  booked : ∀ c ∈ w.db.comments.rows, w.db.Booked c

theorem Invariant.initial (h : publishing.initial w) : Invariant w := by
  obtain ⟨hcomments, hbills, hvotes⟩ := h
  constructor
  . simp [hcomments]
  . simp [hvotes]
  . simp [Voting.ShortWindows, hbills]
  . simp [hcomments]

section votes

open Voting

/-- What a comment has room for: nothing when it is paid out, and else what its row can hold. -/
def Room (c : Voting.CommentObject) (absRshares voteRshares : ℤ) : Prop :=
  (absRshares = 0 ∧ voteRshares = 0) ∨
    (c.lastPayout = 0 ∧ (c.absRshares ≤ maxInt64 → c.absRshares + absRshares ≤ maxInt64) ∧
      (c.voteRshares ≤ maxInt64 → c.voteRshares + voteRshares ≤ maxInt64))

theorem booked_of_grown {s s' : Voting} {c c' : Voting.CommentObject} {comment : Nat}
    {absRshares voteRshares : ℤ} (h : Booked s c) (hgrown : Grown comment absRshares voteRshares c c')
    (hroom : c.id = comment → Room c absRshares voteRshares)
    (habs : s'.absOf c.id ≤ s.absOf c.id + if c.id = comment then absRshares else 0)
    (hcuration : s'.curationOf c.id ≤
      s.curationOf c.id + if c.id = comment then voteRshares else 0)
    (hwindow : s'.window c.id = s.window c.id)
    (hvotes : ∀ v' ∈ s'.votes.rows, v'.comment = c.id →
      (∃ v ∈ s.votes.rows, v.comment = v'.comment ∧ v.auctionTime = v'.auctionTime) ∨
        v'.auctionTime ≤ s.window c.id) :
    Booked s' c' := by
  have hbounds : (c.lastPayout = 0 → s'.absOf c.id ≤ c'.absRshares ∧ c'.absRshares ≤ maxInt64 ∧
      s'.curationOf c.id ≤ c'.voteRshares ∧ c'.voteRshares ≤ maxInt64) ∧
      s'.absOf c.id ≤ maxInt64 ∧ s'.curationOf c.id ≤ maxInt64 := by
    have habsOf := h.absOf_le
    have hcurationOf := h.curationOf_le
    have hpending := h.pending
    rw [hgrown.absRshares, hgrown.voteRshares]
    by_cases hid : c.id = comment
    . rw [if_pos hid] at habs hcuration ⊢
      rw [if_pos hid]
      rcases hroom hid with ⟨rfl, rfl⟩ | ⟨hzero, habsRoom, hvoteRoom⟩
      . rw [add_zero] at habs hcuration ⊢
        rw [add_zero]
        refine ⟨fun hzero => ?_, by omega, by omega⟩
        obtain ⟨hle, hmax, hle', hmax'⟩ := hpending hzero
        exact ⟨habs.trans hle, hmax, hcuration.trans hle', hmax'⟩
      . obtain ⟨hle, hmax, hle', hmax'⟩ := hpending hzero
        have := habsRoom hmax
        have := hvoteRoom hmax'
        exact ⟨fun _ => ⟨by omega, by omega, by omega, by omega⟩, by omega, by omega⟩
    . rw [if_neg hid, add_zero] at habs hcuration ⊢
      rw [if_neg hid, add_zero]
      refine ⟨fun hzero => ?_, by omega, by omega⟩
      obtain ⟨hle, hmax, hle', hmax'⟩ := hpending hzero
      exact ⟨habs.trans hle, hmax, hcuration.trans hle', hmax'⟩
  exact {
    absOf_le := by
      rw [hgrown.id]
      exact hbounds.2.1
    curationOf_le := by
      rw [hgrown.id]
      exact hbounds.2.2
    pending := by
      rw [hgrown.id, hgrown.lastPayout]
      exact hbounds.1
    inWindow := by
      intro hpending v' hv' hid
      rw [hgrown.id] at hid ⊢
      rw [hgrown.lastPayout] at hpending
      rw [hwindow]
      rcases hvotes v' hv' hid with ⟨v, hv, hcomment, htime⟩ | hle
      . rw [← htime]
        exact h.inWindow hpending v hv (hcomment.trans hid)
      . exact hle
    paid := by
      rw [hgrown.lastPayout, hgrown.cashoutTime]
      exact h.paid
  }

theorem mem_of_adds {s s' : Voting} {comment : Nat} {absRshares voteRshares : ℤ}
    (h : Adds s s' comment absRshares voteRshares) {c' : Voting.CommentObject}
    (hc' : c' ∈ s'.comments.rows) :
    ∃ c ∈ s.comments.rows, Grown comment absRshares voteRshares c c' := by
  unfold Adds at h
  generalize s.comments.rows = rows, s'.comments.rows = rows' at h hc' ⊢
  induction h with
  | nil => cases hc'
  | cons hgrown _ ih =>
    rcases List.mem_cons.mp hc' with rfl | hc'
    . exact ⟨_, List.mem_cons_self, hgrown⟩
    . obtain ⟨c, hc, hgrown⟩ := ih hc'
      exact ⟨c, List.mem_cons_of_mem _ hc, hgrown⟩

/-- A vote adds to the sums of its comment what it adds to the row of the comment. -/
theorem Invariant.of_adds (h : Invariant w) (hnext : w'.nextComment = w.nextComment) {comment : Nat}
    {absRshares voteRshares : ℤ} (hadds : Adds w.db w'.db comment absRshares voteRshares)
    (hbills : w'.db.bills = w.db.bills)
    (habs : ∀ id, w'.db.absOf id ≤ w.db.absOf id + if id = comment then absRshares else 0)
    (hcuration : ∀ id,
      w'.db.curationOf id ≤ w.db.curationOf id + if id = comment then voteRshares else 0)
    (hvotes : ∀ v' ∈ w'.db.votes.rows,
      (∃ v ∈ w.db.votes.rows, v.comment = v'.comment ∧ v.auctionTime = v'.auctionTime) ∨
        (v'.comment = comment ∧ v'.auctionTime ≤ w.db.window comment))
    (hcomment : ∃ c ∈ w.db.comments.rows, c.id = comment ∧ Room c absRshares voteRshares) :
    Invariant w' := by
  obtain ⟨c₀, hc₀, rfl, hroom⟩ := hcomment
  have hwindow : ∀ id, w'.db.window id = w.db.window id := by
    intro id
    rw [window_eq, window_eq, hbills]
  have hgrown : ∀ c' ∈ w'.db.comments.rows,
      ∃ c ∈ w.db.comments.rows, Grown c₀.id absRshares voteRshares c c' :=
    fun c' hc' => mem_of_adds hadds hc'
  exact {
    comments := by
      intro c' hc'
      obtain ⟨c, hc, hgrown⟩ := hgrown c' hc'
      rw [hgrown.id, hnext]
      exact h.comments c hc
    votes := by
      intro v' hv'
      rw [hnext]
      rcases hvotes v' hv' with ⟨v, hv, hid, htime⟩ | ⟨hid, htime⟩
      . rw [← hid, ← htime]
        exact h.votes v hv
      . rw [hid]
        exact ⟨h.comments c₀ hc₀, htime.trans_lt (h.windows.window_lt c₀.id)⟩
    windows := by
      unfold ShortWindows
      rw [hbills]
      exact h.windows
    booked := by
      intro c' hc'
      obtain ⟨c, hc, hgrown⟩ := hgrown c' hc'
      apply booked_of_grown (h.booked c hc) hgrown ?_ (habs c.id) (hcuration c.id) (hwindow c.id)
      . intro v' hv' hid
        rcases hvotes v' hv' with hold | ⟨hnew, htime⟩
        . exact .inl hold
        . rw [← hid, hnew]
          exact .inr htime
      . intro hid
        obtain rfl := w.db.comments.mem_rows_inj hc hc₀ hid
        exact hroom
  }

/-- Rows that are the same as far as they matter keep the invariant. -/
theorem Invariant.of_rows (h : Invariant w) (hnext : w'.nextComment = w.nextComment)
    (hwindows : ShortWindows w'.db)
    (hvotes : ∀ v' ∈ w'.db.votes.rows,
      ∃ v ∈ w.db.votes.rows, v.comment = v'.comment ∧ v.auctionTime = v'.auctionTime)
    (hcomments : ∀ c' ∈ w'.db.comments.rows, ∃ c ∈ w.db.comments.rows, c'.id = c.id ∧
      (c'.absRshares = c.absRshares ∧ c'.voteRshares = c.voteRshares ∧
        c'.lastPayout = c.lastPayout ∧ c'.cashoutTime = c.cashoutTime) ∧
      w'.db.absOf c.id = w.db.absOf c.id ∧ w'.db.curationOf c.id = w.db.curationOf c.id ∧
      w'.db.window c.id = w.db.window c.id) : Invariant w' where
  comments := by
    intro c' hc'
    obtain ⟨c, hc, hid, -⟩ := hcomments c' hc'
    rw [hid, hnext]
    exact h.comments c hc
  votes := by
    intro v' hv'
    obtain ⟨v, hv, hcomment, htime⟩ := hvotes v' hv'
    rw [← hcomment, ← htime, hnext]
    exact h.votes v hv
  windows := hwindows
  booked := by
    intro c' hc'
    obtain ⟨c, hc, hid, hrow, habs, hcuration, hwindow⟩ := hcomments c' hc'
    exact (h.booked c hc).congr hid habs hcuration hrow (fun v' hv' _ => hvotes v' hv') hwindow

theorem sums_congr {s s' : Voting} (h : s'.votes = s.votes) (id : Nat) :
    s'.absOf id = s.absOf id ∧ s'.curationOf id = s.curationOf id := by
  unfold absOf curationOf
  rw [h]
  exact ⟨rfl, rfl⟩

theorem Invariant.congr (h : Invariant w) (hnext : w'.nextComment = w.nextComment)
    (hcomments : w'.db.comments = w.db.comments) (hbills : w'.db.bills = w.db.bills)
    (hvotes : w'.db.votes = w.db.votes) : Invariant w' := by
  apply h.of_rows hnext
  . unfold ShortWindows
    rw [hbills]
    exact h.windows
  . intro v hv
    rw [hvotes] at hv
    exact ⟨v, hv, rfl, rfl⟩
  . intro c hc
    rw [hcomments] at hc
    obtain ⟨habs, hcuration⟩ := sums_congr hvotes c.id
    refine ⟨c, hc, rfl, ⟨rfl, rfl, rfl, rfl⟩, habs, hcuration, ?_⟩
    rw [window_eq, window_eq, hbills]

theorem auctionTime_newVote_le (s : Voting) (c : Voting.CommentObject) (op : VoteOperation) (rshares : ℤ)
    (rates : List DelegatorVoteInterestRate) :
    (s.newVote c op rshares rates).auctionTime ≤ s.window c.id := by
  unfold newVote
  dsimp only
  split
  . dsimp only
    unfold auctionTime
    dsimp only
    split
    . split
      . exact le_rfl
      . exact (Nat.mod_le _ _).trans (min_le_right _ _)
    . exact Nat.zero_le _
  . exact Nat.zero_le _

theorem origRshares_newVote_le (s : Voting) (c : Voting.CommentObject) (op : VoteOperation) (rshares : ℤ)
    (rates : List DelegatorVoteInterestRate) :
    max (s.newVote c op rshares rates).origRshares 0 ≤ max rshares 0 := by
  unfold newVote
  dsimp only
  split
  . exact le_rfl
  . exact le_max_right _ _

theorem comment_newVote (s : Voting) (c : Voting.CommentObject) (op : VoteOperation) (rshares : ℤ)
    (rates : List DelegatorVoteInterestRate) : (s.newVote c op rshares rates).comment = c.id :=
  congrArg Prod.fst (byCommentVoter_newVote c op rshares rates)

/-- What is inserted adds its own to the sums. -/
theorem sums_of_insert {s s' : Voting} {v : CommentVoteObject}
    (h : ∃ hnone, s'.votes = s.votes.insert v hnone) (id : Nat) :
    s'.absOf id = s.absOf id + (if v.comment = id then |v.rshares| else 0) ∧
      s'.curationOf id = s.curationOf id + if v.comment = id then max v.origRshares 0 else 0 := by
  obtain ⟨hnone, hvotes⟩ := h
  unfold absOf curationOf
  rw [hvotes, Table.sum_insert, Table.sum_insert]
  exact ⟨rfl, rfl⟩

theorem mem_of_insert {s s' : Voting} {v v' : CommentVoteObject}
    (h : ∃ hnone, s'.votes = s.votes.insert v hnone) (hv' : v' ∈ s'.votes.rows) :
    v' ∈ s.votes.rows ∨ v' = v := by
  obtain ⟨hnone, hvotes⟩ := h
  rw [hvotes, Table.mem_insert] at hv'
  exact hv'

/-- A vote that is changed has no more than its new shares. -/
theorem sums_of_modify {s s' : Voting} {v : CommentVoteObject} {id : Nat} {voter : AccountName}
    {f : CommentVoteObject → CommentVoteObject} {hf : ∀ v, (f v).byCommentVoter = v.byCommentVoter}
    (hvote : s.votes.find? (id, voter) = some v) (hvotes : s'.votes = s.votes.modify (id, voter) f hf)
    (horig : (f v).origRshares = v.origRshares) (id' : Nat) :
    s'.absOf id' = s.absOf id' + (if id' = id then |(f v).rshares| - |v.rshares| else 0) ∧
      s'.curationOf id' = s.curationOf id' := by
  have hkey : v.comment = id := congrArg Prod.fst (Table.key_of_find? hvote)
  have hcomment : (f v).comment = id := (congrArg Prod.fst (hf v)).trans hkey
  unfold absOf curationOf
  rw [hvotes, Table.sum_modify _ _ _ _ hvote, Table.sum_modify _ _ _ _ hvote, hcomment, hkey, horig]
  constructor
  . by_cases heq : id' = id
    . rw [if_pos heq, if_pos heq.symm, if_pos heq.symm]
    . rw [if_neg heq, if_neg (Ne.symm heq), if_neg (Ne.symm heq), sub_zero]
  . rw [sub_self, add_zero]

theorem mem_of_modify {s s' : Voting} {v' : CommentVoteObject} {key : Nat × AccountName}
    {f : CommentVoteObject → CommentVoteObject} {hf : ∀ v, (f v).byCommentVoter = v.byCommentVoter}
    (hvotes : s'.votes = s.votes.modify key f hf) (htime : ∀ v, (f v).auctionTime = v.auctionTime)
    (hv' : v' ∈ s'.votes.rows) :
    ∃ v ∈ s.votes.rows, v.comment = v'.comment ∧ v.auctionTime = v'.auctionTime := by
  rw [hvotes, Table.mem_modify] at hv'
  rcases hv' with ⟨hv, -⟩ | ⟨v, hv, -, rfl⟩
  . exact ⟨v', hv, rfl, rfl⟩
  . exact ⟨v, hv, (congrArg Prod.fst (hf v)).symm, (htime v).symm⟩

theorem Invariant.vote (h : Invariant w) (hnext : w'.nextComment = w.nextComment)
    {op : VoteOperation} (hvote : w.db.vote op = .ok w'.db) : Invariant w' := by
  cases outcome_of_vote hvote with
  | account rshares hcomment hsame hrep =>
    exact h.congr hnext hsame.comments hsame.bills hsame.votes
  | lateFirst c hcomment hlate hvotes hadds helsewhere hrep =>
    apply h.of_adds hnext hadds helsewhere.bills
    . intro id
      rw [(sums_of_insert hvotes id).1]
      simp [lateVote]
    . intro id
      rw [(sums_of_insert hvotes id).2]
      simp [lateVote]
    . intro v' hv'
      rcases mem_of_insert hvotes hv' with hv | rfl
      . exact .inl ⟨v', hv, rfl, rfl⟩
      . exact .inr ⟨rfl, Nat.zero_le _⟩
    . exact ⟨c, mem_of_findCommentByPerm hcomment, rfl, .inl ⟨rfl, rfl⟩⟩
  | lateChange c v hcomment hlate hfind hvotes hadds helsewhere hrep =>
    apply h.of_adds hnext hadds helsewhere.bills
    . intro id
      rw [(sums_of_modify hfind hvotes rfl id).1]
      simp [lateChange]
    . intro id
      rw [(sums_of_modify hfind hvotes rfl id).2, ite_self, add_zero]
    . intro v' hv'
      exact .inl (mem_of_modify hvotes (fun _ => rfl) hv')
    . exact ⟨c, mem_of_findCommentByPerm hcomment, rfl, .inl ⟨rfl, rfl⟩⟩
  | first c rshares rates hcomment hpending hvotes hadds helsewhere habs hpos hrep =>
    have hc := mem_of_findCommentByPerm hcomment
    apply h.of_adds hnext hadds helsewhere.bills
    . intro id
      rw [(sums_of_insert hvotes id).1, comment_newVote, rshares_newVote]
      by_cases heq : id = c.id
      . rw [if_pos heq, if_pos heq.symm]
      . rw [if_neg heq, if_neg (Ne.symm heq)]
    . intro id
      rw [(sums_of_insert hvotes id).2, comment_newVote]
      by_cases heq : id = c.id
      . rw [if_pos heq, if_pos heq.symm]
        exact Int.add_le_add_left (origRshares_newVote_le ..) _
      . rw [if_neg heq, if_neg (Ne.symm heq)]
    . intro v' hv'
      rcases mem_of_insert hvotes hv' with hv | rfl
      . exact .inl ⟨v', hv, rfl, rfl⟩
      . exact .inr ⟨comment_newVote .., auctionTime_newVote_le ..⟩
    . refine ⟨c, hc, rfl, .inr ⟨?_, habs, hpos⟩⟩
      by_contra hpaid
      exact hpending ((h.booked c hc).paid hpaid)
  | changed c v rshares hcomment hpending hfind hvotes hadds helsewhere hchanges habs hrep =>
    have hc := mem_of_findCommentByPerm hcomment
    apply h.of_adds hnext hadds helsewhere.bills
    . intro id
      rw [(sums_of_modify hfind hvotes rfl id).1]
      have := abs_nonneg v.rshares
      split
      . show _ + (|rshares| - |v.rshares|) ≤ _
        omega
      . exact le_rfl
    . intro id
      rw [(sums_of_modify hfind hvotes rfl id).2, ite_self, add_zero]
    . intro v' hv'
      exact .inl (mem_of_modify hvotes (fun _ => rfl) hv')
    . refine ⟨c, hc, rfl, .inr ⟨?_, habs, by rw [add_zero]; exact id⟩⟩
      by_contra hpaid
      exact hpending ((h.booked c hc).paid hpaid)

end votes

section comments

open Voting

/-- Where there are no votes, there are no shares. -/
theorem sum_eq_zero_of_forall_ne {s : Voting} {id : Nat} (h : ∀ v ∈ s.votes.rows, v.comment ≠ id)
    (f : CommentVoteObject → ℤ) : (s.votes.sum fun v => if v.comment = id then f v else 0) = 0 := by
  rw [Table.sum_congr s.votes fun v hv => if_neg (h v hv)]
  simp [Table.sum]

theorem Invariant.comment (h : Invariant w) {author : AccountName} {hashlink : Nat}
    {rootComment : Option Nat} {bill : CommentBill} (hbill : bill.auctionWindowSize < 2 ^ 16)
    (hcreate : w.db.createComment w.nextComment author hashlink rootComment bill = .ok w'.db)
    (hnext : w'.nextComment = w.nextComment + 1) : Invariant w' := by
  simp only [createComment, bind_eq_ok, get_eq_ok, pure_eq_ok, Table.emplace_eq_some_iff] at hcreate
  obtain ⟨comments, ⟨hnoComment, hcomments⟩, bills, ⟨hnoBill, hbills⟩, hdb⟩ := hcreate
  have hvotes : w'.db.votes = w.db.votes := by rw [← hdb]
  have hbills' : w'.db.bills = w.db.bills.insert ⟨w.nextComment, bill⟩ hnoBill := by rw [← hdb, hbills]
  have hmem : ∀ c ∈ w'.db.comments.rows, c ∈ w.db.comments.rows ∨
      c.id = w.nextComment ∧ c.lastPayout = 0 ∧ c.absRshares = 0 ∧ c.voteRshares = 0 := by
    intro c hc
    rw [← hdb, ← hcomments] at hc
    dsimp only at hc
    rw [Table.mem_insert] at hc
    rcases hc with hc | rfl
    . exact .inl hc
    . exact .inr ⟨rfl, rfl, rfl, rfl⟩
  have hnew : ∀ v ∈ w'.db.votes.rows, v.comment ≠ w.nextComment := by
    intro v hv
    rw [hvotes] at hv
    exact (h.votes v hv).1.ne
  exact {
    comments := by
      intro c hc
      rw [hnext]
      rcases hmem c hc with hc | ⟨hid, -⟩
      . exact (h.comments c hc).trans (Nat.lt_succ_self _)
      . omega
    votes := by
      intro v hv
      rw [hvotes] at hv
      rw [hnext]
      exact ⟨(h.votes v hv).1.trans (Nat.lt_succ_self _), (h.votes v hv).2⟩
    windows := by
      intro o ho
      rw [hbills', Table.mem_insert] at ho
      rcases ho with ho | rfl
      . exact h.windows o ho
      . exact hbill
    booked := by
      intro c hc
      rcases hmem c hc with hc | ⟨hid, hpayout, habs, hvote⟩
      . obtain ⟨habs, hcuration⟩ := sums_congr hvotes c.id
        apply (h.booked c hc).congr rfl habs hcuration ⟨rfl, rfl, rfl, rfl⟩
        . intro v hv _
          rw [hvotes] at hv
          exact ⟨v, hv, rfl, rfl⟩
        . rw [window_eq, window_eq, hbills', Table.find?_insert, if_neg (h.comments c hc).ne']
      . have habsOf : w'.db.absOf c.id = 0 := by
          rw [hid]
          exact sum_eq_zero_of_forall_ne hnew _
        have hcurationOf : w'.db.curationOf c.id = 0 := by
          rw [hid]
          exact sum_eq_zero_of_forall_ne hnew _
        exact {
          absOf_le := by
            rw [habsOf]
            decide
          curationOf_le := by
            rw [hcurationOf]
            decide
          pending := by
            intro _
            rw [habsOf, hcurationOf, habs, hvote]
            decide
          inWindow := by
            intro _ v hv heq
            exact absurd (heq.trans hid) (hnew v hv)
          paid := fun hpaid => absurd hpayout hpaid
        }
  }

theorem Invariant.upsert {s : Voting} {next : Nat} (h : Invariant ⟨s, next⟩) (comment : Nat)
    {f : CommentBill → CommentBill} (hf : ∀ b, (f b).auctionWindowSize = b.auctionWindowSize) :
    Invariant ⟨s.upsertCommentBill comment f, next⟩ := by
  obtain ⟨hcomments, hvotes⟩ := same_upsertCommentBill s comment f
  apply h.of_rows
  . rfl
  . exact ShortWindows.upsertCommentBill h.windows hf
  . intro v hv
    dsimp only at hv
    rw [hvotes] at hv
    exact ⟨v, hv, rfl, rfl⟩
  . intro c hc
    dsimp only at hc
    rw [hcomments] at hc
    obtain ⟨habs, hcuration⟩ := sums_congr hvotes c.id
    exact ⟨c, hc, rfl, ⟨rfl, rfl, rfl, rfl⟩, habs, hcuration, window_upsertCommentBill hf c.id⟩

theorem Invariant.allowVotes {s : Voting} {next : Nat} (h : Invariant ⟨s, next⟩) (id : Nat)
    (allowVotes : Bool) :
    Invariant ⟨s.modifyComment id fun c => { c with allowVotes := allowVotes }, next⟩ := by
  apply h.of_rows
  . rfl
  . exact h.windows
  . intro v hv
    exact ⟨v, hv, rfl, rfl⟩
  . intro c' hc'
    unfold modifyComment at hc'
    dsimp only at hc'
    rw [Table.mem_modify] at hc'
    rcases hc' with ⟨hc, -⟩ | ⟨c, hc, -, rfl⟩
    . exact ⟨c', hc, rfl, ⟨rfl, rfl, rfl, rfl⟩, rfl, rfl, rfl⟩
    . exact ⟨c, hc, rfl, ⟨rfl, rfl, rfl, rfl⟩, rfl, rfl, rfl⟩

theorem Invariant.options (h : Invariant w) {comment : Voting.CommentObject} {allowVotes allowCuration : Bool}
    {destination : Option AuctionWindowRewardDestination}
    (hoptions : w.db.commentOptions comment allowVotes allowCuration destination = .ok w'.db)
    (hnext : w'.nextComment = w.nextComment) : Invariant w' := by
  simp only [commentOptions, bind_eq_ok] at hoptions
  obtain ⟨-, -, -, -, -, -, hoptions⟩ := hoptions
  have hvotes : Invariant ⟨_, w.nextComment⟩ := h.allowVotes comment.id allowVotes
  have hcuration := hvotes.upsert comment.id
    (f := fun b => { b with allowCurationRewards := allowCuration }) fun _ => rfl
  obtain ⟨db, next⟩ := w'
  dsimp only at hnext hoptions
  subst hnext
  cases destination with
  | none =>
    simp only [pure_eq_ok] at hoptions
    subst hoptions
    exact hcuration
  | some destination =>
    simp only [bind_eq_ok, pure_eq_ok] at hoptions
    obtain ⟨-, -, rfl⟩ := hoptions
    exact hcuration.upsert comment.id fun _ => rfl

theorem Invariant.cashout (h : Invariant w) {comment : Nat} {curve : CurationCurve}
    (htime : steemitFirstCashoutTime < w.db.headBlockTime)
    (hdb : w'.db = w.db.archiveComment comment curve)
    (hnext : w'.nextComment = w.nextComment) : Invariant w' := by
  have hmarked : w'.db.votes = w.db.votes.modifyWhere (fun v => v.comment = comment)
      fun v => { v with numChanges := -1 - v.numChanges } := by
    rw [hdb]
    rfl
  have hvotes : ∀ v' ∈ w'.db.votes.rows,
      ∃ v ∈ w.db.votes.rows, v.comment = v'.comment ∧ v.auctionTime = v'.auctionTime := by
    intro v' hv'
    rw [hmarked, Table.mem_modifyWhere] at hv'
    obtain ⟨v, hv, rfl⟩ := hv'
    refine ⟨v, hv, ?_⟩
    split
    . exact ⟨rfl, rfl⟩
    . exact ⟨rfl, rfl⟩
  have hsums : ∀ id, w'.db.absOf id = w.db.absOf id ∧ w'.db.curationOf id = w.db.curationOf id := by
    intro id
    unfold absOf curationOf
    rw [hmarked]
    constructor
    . apply Table.sum_modifyWhere
      intros
      rfl
    . apply Table.sum_modifyWhere
      intros
      rfl
  have hbills : w'.db.bills = w.db.bills.erase comment := by
    rw [hdb]
    rfl
  have hcomments : ∀ c' ∈ w'.db.comments.rows, ∃ c ∈ w.db.comments.rows, c'.id = c.id ∧
      ((c'.lastPayout = w.db.headBlockTime ∧ c'.cashoutTime = maxTimePoint) ∨
        (c.id ≠ comment ∧ c' = c)) := by
    intro c' hc'
    rw [hdb] at hc'
    unfold archiveComment modifyComment at hc'
    dsimp only at hc'
    rw [Table.mem_modify] at hc'
    rcases hc' with ⟨hc, hne⟩ | ⟨c, hc, -, rfl⟩
    . exact ⟨c', hc, rfl, .inr ⟨hne, rfl⟩⟩
    . exact ⟨c, hc, rfl, .inl ⟨rfl, rfl⟩⟩
  exact {
    comments := by
      intro c' hc'
      obtain ⟨c, hc, hid, -⟩ := hcomments c' hc'
      rw [hid, hnext]
      exact h.comments c hc
    votes := by
      intro v' hv'
      obtain ⟨v, hv, hcomment, htime⟩ := hvotes v' hv'
      rw [← hcomment, ← htime, hnext]
      exact h.votes v hv
    windows := by
      intro o ho
      rw [hbills, Table.mem_erase] at ho
      exact h.windows o ho.1
    booked := by
      intro c' hc'
      obtain ⟨c, hc, hid, ⟨hpayout, hcashout⟩ | ⟨hne, rfl⟩⟩ := hcomments c' hc'
      . have hpaid : c'.lastPayout ≠ 0 := by
          rw [hpayout]
          omega
        exact {
          absOf_le := by
            rw [hid, (hsums c.id).1]
            exact (h.booked c hc).absOf_le
          curationOf_le := by
            rw [hid, (hsums c.id).2]
            exact (h.booked c hc).curationOf_le
          pending := fun hzero => absurd hzero hpaid
          inWindow := fun hzero => absurd hzero hpaid
          paid := fun _ => hcashout
        }
      . apply (h.booked c' hc).congr rfl (hsums c'.id).1 (hsums c'.id).2 ⟨rfl, rfl, rfl, rfl⟩
          (fun v' hv' _ => hvotes v' hv')
        rw [window_eq, window_eq, hbills, Table.find?_erase_of_ne _ hne]
  }

theorem Invariant.delete (h : Invariant w) {comment : Voting.CommentObject}
    (hdb : w'.db = w.db.deleteComment comment) (hnext : w'.nextComment = w.nextComment) :
    Invariant w' := by
  unfold deleteComment at hdb
  split at hdb
  . exact h.congr hnext (by rw [hdb]) (by rw [hdb]) (by rw [hdb])
  . have hsum : ∀ id, id ≠ comment.id → ∀ f : CommentVoteObject → ℤ,
        (w'.db.votes.sum fun v => if v.comment = id then f v else 0) =
          w.db.votes.sum fun v => if v.comment = id then f v else 0 := by
      intro id hne f
      rw [hdb]
      refine (Table.sum_filter ..).trans (Table.sum_congr _ ?_)
      intro v _
      split
      . rfl
      . next hdeleted =>
        have heq : v.comment = comment.id := by simpa using hdeleted
        rw [if_neg (heq ▸ hne.symm)]
    apply h.of_rows hnext
    . rw [hdb]
      exact h.windows
    . intro v hv
      rw [hdb] at hv
      exact ⟨v, (Table.mem_filter.mp hv).1, rfl, rfl⟩
    . intro c hc
      rw [hdb] at hc
      obtain ⟨hc, hne⟩ := Table.mem_erase.mp hc
      refine ⟨c, hc, rfl, ⟨rfl, rfl, rfl, rfl⟩, hsum c.id hne _, hsum c.id hne _, ?_⟩
      rw [window_eq, window_eq, hdb]

end comments

theorem Invariant.step {e : Event} (h : Invariant w) (hstep : Step w e w') : Invariant w' := by
  cases e with
  | vote op => exact h.vote hstep.2 hstep.1
  | comment author hashlink rootComment bill => exact h.comment hstep.1 hstep.2.1 hstep.2.2
  | options comment allowVotes allowCurationRewards destination =>
    exact h.options hstep.2.1 hstep.2.2
  | cashout comment curve => exact h.cashout hstep.1 hstep.2.1 hstep.2.2
  | delete comment => exact h.delete hstep.2.1 hstep.2.2
  | other => exact h.congr hstep.2.2.2 hstep.1 hstep.2.1 hstep.2.2.1

theorem invariant_of_reachable (h : publishing.Reachable w) : Invariant w := by
  apply h.invariant
  . intro w hw
    exact .initial hw
  . intro w e w' hw _ hstep
    exact hw.step hstep

end Board

end Golos
