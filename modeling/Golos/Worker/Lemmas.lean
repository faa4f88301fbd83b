import Golos.Ledger.Lemmas
import Golos.Worker.Impl

/-!
This module contains what every operation on worker requests and every turn of the loops over them
keeps: requests are well formed, and their totals are those of their votes.
-/

namespace Golos

open Checked

namespace WorkerRequestObject

/-- What the checks of the operations and the order of the states leave of a request. -/
structure Sound (r : WorkerRequestObject) : Prop where
  currency : r.requiredAmountMin.symbol = steemSymbol ∨ r.requiredAmountMin.symbol = sbdSymbol
  symbols : r.requiredAmountMin.symbol = r.requiredAmountMax.symbol
  min_pos : 0 < r.requiredAmountMin.amount
  voting : r.state = .created ∨ r.voteEndTime = maxTimePoint
  paying : r.state = .payment →
    0 < r.remainingPayment.amount ∧ r.remainingPayment.symbol = r.requiredAmountMin.symbol
  complete : r.state = .paymentComplete → r.remainingPayment.amount = 0

end WorkerRequestObject

namespace WorkerDatabase

variable {db db' : WorkerDatabase} {r wro : WorkerRequestObject} {post : Nat}

/-- The sum of the stakes of the votes for a request, and of what they give it. -/
def votedStake (db : WorkerDatabase) (post : Nat) : ℤ :=
  db.votes.sum fun v => if v.post = post then v.stake else 0

def votedRshares (db : WorkerDatabase) (post : Nat) : ℤ :=
  db.votes.sum fun v => if v.post = post then v.rshares else 0

/-- Requests are sound, have a comment, and have the totals of their votes. -/
structure Tallied (db : WorkerDatabase) : Prop where
  sound : ∀ r ∈ db.requests.rows, r.Sound
  stakeTotal : ∀ r ∈ db.requests.rows, r.stakeTotal = db.votedStake r.post
  stakeRshares : ∀ r ∈ db.requests.rows, r.stakeRshares = db.votedRshares r.post
  voted : ∀ v ∈ db.votes.rows, ∃ r ∈ db.requests.rows, r.post = v.post
  commented : ∀ r ∈ db.requests.rows, (db.comments.find? r.post).isSome

theorem getWorkerRequest_eq_ok :
    db.getWorkerRequest post = .ok r ↔ db.requests.find? post = some r := by
  unfold getWorkerRequest
  rw [get_eq_ok]

/-- Whether the post of a request has votes does not depend on anything else. -/
theorem not_hasVotes_of_find?_eq_none (h : db.Tallied) (hfind : db.requests.find? post = none) :
    ¬db.HasVotes post := by
  rintro ⟨v, hv, rfl⟩
  obtain ⟨r, hr, hpost⟩ := h.voted v hv
  rw [← hpost, Table.find?_of_mem hr] at hfind
  cases hfind

theorem votedStake_of_not_hasVotes (h : ¬db.HasVotes post) : db.votedStake post = 0 := by
  unfold votedStake
  rw [Table.sum_congr (g := fun _ => 0)]
  . simp [Table.sum]
  . intro v hv
    rw [if_neg fun heq => h ⟨v, hv, heq⟩]

theorem votedRshares_of_not_hasVotes (h : ¬db.HasVotes post) : db.votedRshares post = 0 := by
  unfold votedRshares
  rw [Table.sum_congr (g := fun _ => 0)]
  . simp [Table.sum]
  . intro v hv
    rw [if_neg fun heq => h ⟨v, hv, heq⟩]

theorem Tallied.congr (h : db.Tallied) (hrequests : db'.requests = db.requests)
    (hvotes : db'.votes = db.votes) (hcomments : db'.comments = db.comments) : db'.Tallied := by
  refine ⟨?_, ?_, ?_, ?_, ?_⟩
  . rw [hrequests]
    exact h.sound
  . unfold votedStake
    rw [hrequests, hvotes]
    exact h.stakeTotal
  . unfold votedRshares
    rw [hrequests, hvotes]
    exact h.stakeRshares
  . rw [hrequests, hvotes]
    exact h.voted
  . rw [hrequests, hcomments]
    exact h.commented

/-- A request is rewritten, and keeps its totals. -/
theorem Tallied.updates (h : db.Tallied) {r' : WorkerRequestObject}
    (hupdates : Table.Updates db.requests db'.requests r r') (hpost : r'.post = r.post)
    (hsound : r'.Sound) (htotal : r'.stakeTotal = r.stakeTotal)
    (hrshares : r'.stakeRshares = r.stakeRshares) (hvotes : db'.votes = db.votes)
    (hcomments : db'.comments = db.comments) : db'.Tallied := by
  have hmem : ∀ r'', r'' ∈ db'.requests.rows → r'' ∈ db.requests.rows ∨ r'' = r' := by
    intro r'' hr''
    rcases (hupdates.mem_rows hpost).mp hr'' with ⟨hr'', -⟩ | heq
    . exact .inl hr''
    . exact .inr heq
  have hr := Table.mem_of_find? hupdates.row
  refine ⟨fun r'' hr'' => ?_, fun r'' hr'' => ?_, fun r'' hr'' => ?_, fun v hv => ?_,
    fun r'' hr'' => ?_⟩
  . rcases hmem r'' hr'' with hr'' | rfl
    . exact h.sound r'' hr''
    . exact hsound
  . unfold votedStake
    rw [hvotes]
    rcases hmem r'' hr'' with hr'' | rfl
    . exact h.stakeTotal r'' hr''
    . rw [htotal, hpost]
      exact h.stakeTotal r hr
  . unfold votedRshares
    rw [hvotes]
    rcases hmem r'' hr'' with hr'' | rfl
    . exact h.stakeRshares r'' hr''
    . rw [hrshares, hpost]
      exact h.stakeRshares r hr
  . rw [hvotes] at hv
    obtain ⟨r'', hr'', hpost'⟩ := h.voted v hv
    by_cases heq : r''.post = r.post
    . refine ⟨r', (hupdates.mem_rows hpost).mpr (.inr rfl), ?_⟩
      rw [hpost, ← heq, hpost']
    . exact ⟨r'', (hupdates.mem_rows hpost).mpr (.inl ⟨hr'', heq⟩), hpost'⟩
  . rw [hcomments]
    rcases hmem r'' hr'' with hr'' | rfl
    . exact h.commented r'' hr''
    . rw [hpost]
      exact h.commented r hr

section close

/-- Closing the request has no votes to remove, neither its own nor those of the first comment. -/
def Voteless (db : WorkerDatabase) (post : Nat) : Prop :=
  ¬db.HasVotes post ∧ (db.clearOldWorkerVotes = true → ¬db.HasVotes 0)

instance : Decidable (db.Voteless post) :=
  inferInstanceAs (Decidable (_ ∧ _))

theorem clearWorkerRequestVotes_of_voteless (h : db.Voteless post) :
    db.clearWorkerRequestVotes = db := by
  unfold clearWorkerRequestVotes
  split
  . next hclear =>
    have hfilter : (db.votes.filter fun v => v.post ≠ 0) = db.votes := by
      apply Table.ext_rows
      unfold Table.filter
      rw [List.filter_eq_self]
      intro v hv
      rw [decide_eq_true_iff]
      exact fun heq => h.2 hclear ⟨v, hv, heq⟩
    rw [hfilter]
  . rfl

theorem closeWorkerRequest_of_voteless (h : db.Voteless wro.post) (state : WorkerRequestState) :
    db.closeWorkerRequest wro state =
      if state = .closedByAuthor ∧ wro.state.value < WorkerRequestState.payment.value then
        { db with requests := db.requests.erase wro.post }
      else
        db.modifyRequest wro.post fun o =>
          { o with voteEndTime := maxTimePoint, state := state } := by
  unfold closeWorkerRequest
  rw [clearWorkerRequestVotes_of_voteless h]
  simp only [h.1, or_false, not_le]

theorem Tallied.eraseRequest (h : db.Tallied) (hvotes : ¬db.HasVotes post) :
    Tallied { db with requests := db.requests.erase post } := by
  have hmem : ∀ r ∈ (db.requests.erase post).rows, r ∈ db.requests.rows :=
    fun r hr => (Table.mem_erase.mp hr).1
  refine ⟨fun r hr => h.sound r (hmem r hr), fun r hr => h.stakeTotal r (hmem r hr),
    fun r hr => h.stakeRshares r (hmem r hr), fun v hv => ?_,
    fun r hr => h.commented r (hmem r hr)⟩
  obtain ⟨r, hr, hpost⟩ := h.voted v hv
  refine ⟨r, Table.mem_erase.mpr ⟨hr, fun heq => hvotes ⟨v, hv, ?_⟩⟩, hpost⟩
  rw [← hpost]
  exact heq

end close

section request

variable {op : WorkerRequestOperation}

theorem getCommentByPerm_mem {author : AccountName} {hashlink : Nat} {c : Worker.CommentObject}
    (h : db.getCommentByPerm author hashlink = .ok c) : db.comments.find? c.id = some c := by
  unfold getCommentByPerm at h
  rw [get_eq_ok] at h
  exact Table.find?_of_mem (List.mem_of_find?_eq_some h)

/-- What the checks of the operation say. -/
structure Valid (op : WorkerRequestOperation) : Prop where
  currency : op.requiredAmountMin.symbol = steemSymbol ∨ op.requiredAmountMin.symbol = sbdSymbol
  symbols : op.requiredAmountMin.symbol = op.requiredAmountMax.symbol
  min_pos : 0 < op.requiredAmountMin.amount

theorem valid_of_validate (h : op.validate = .ok ()) : Valid op := by
  simp only [WorkerRequestOperation.validate, bind_eq_ok, ensure_eq_ok] at h
  obtain ⟨_, -, _, -, _, hcurrency, _, hpos, _, hsymbols, -⟩ := h
  exact ⟨hcurrency, hsymbols, hpos⟩

/-- Only open requests are changed by operations. -/
theorem state_of_lt_payment (h : wro.state.value < WorkerRequestState.payment.value) :
    wro.state = .created := by
  revert h
  cases wro.state <;> decide

theorem Tallied.editWorkerRequest (h : db.Tallied) (hvalid : Valid op)
    (hfind : db.requests.find? post = some wro) (hedit : db.editWorkerRequest wro op = .ok db') :
    db'.Tallied ∧ db'.votes = db.votes ∧ db'.ledger = db.ledger := by
  simp only [WorkerDatabase.editWorkerRequest, bind_eq_ok, ensure_eq_ok, pure_eq_ok] at hedit
  obtain ⟨_, hstate, _, -, rfl⟩ := hedit
  have hcreated := state_of_lt_payment hstate
  have hpost := Table.key_of_find? hfind
  subst hpost
  refine ⟨h.updates (.modify _ hfind) rfl ?_ rfl rfl rfl rfl, rfl, rfl⟩
  refine ⟨hvalid.currency, hvalid.symbols, hvalid.min_pos, .inl hcreated, ?_, ?_⟩
  . intro hpaying
    dsimp only at hpaying
    rw [hcreated] at hpaying
    cases hpaying
  . intro hcomplete
    dsimp only at hcomplete
    rw [hcreated] at hcomplete
    cases hcomplete

/-- A new request has no totals, as its post has no votes. -/
theorem Tallied.createWorkerRequest (h : db.Tallied) (hvalid : Valid op)
    {c : Worker.CommentObject} (hcomment : db.comments.find? c.id = some c)
    (hcreate : db.createWorkerRequest c op = .ok db') :
    db'.Tallied ∧ db'.votes = db.votes := by
  simp only [WorkerDatabase.createWorkerRequest, bind_eq_ok, ensure_eq_ok, get_eq_ok,
    pure_eq_ok] at hcreate
  obtain ⟨_, -, _, -, ledger, -, requests, hrequests, rfl⟩ := hcreate
  have hinserts := Table.Inserts.emplace hrequests
  have hvotes := not_hasVotes_of_find?_eq_none h hinserts.fresh
  refine ⟨⟨?_, ?_, ?_, ?_, ?_⟩, rfl⟩
  . intro r hr
    rcases (hinserts.mem r).mp hr with hr | rfl
    . exact h.sound r hr
    . refine ⟨hvalid.currency, hvalid.symbols, hvalid.min_pos, .inl rfl, ?_, ?_⟩
      . intro hstate
        cases hstate
      . intro hstate
        cases hstate
  . intro r hr
    rcases (hinserts.mem r).mp hr with hr | rfl
    . exact h.stakeTotal r hr
    . exact (votedStake_of_not_hasVotes hvotes).symm
  . intro r hr
    rcases (hinserts.mem r).mp hr with hr | rfl
    . exact h.stakeRshares r hr
    . exact (votedRshares_of_not_hasVotes hvotes).symm
  . intro v hv
    obtain ⟨r, hr, hpost⟩ := h.voted v hv
    exact ⟨r, (hinserts.mem r).mpr (.inl hr), hpost⟩
  . intro r hr
    rcases (hinserts.mem r).mp hr with hr | rfl
    . exact h.commented r hr
    . rw [hcomment]
      rfl

theorem Tallied.workerRequest (h : db.Tallied) (hrequest : db.workerRequest op = .ok db') :
    db'.Tallied ∧ db'.votes = db.votes := by
  simp only [WorkerDatabase.workerRequest, bind_eq_ok] at hrequest
  obtain ⟨_, hvalid, c, hcomment, _, -, hrequest⟩ := hrequest
  have hvalid := valid_of_validate hvalid
  split at hrequest
  . next wro hfind =>
    obtain ⟨htallied, hvotes, -⟩ := h.editWorkerRequest hvalid hfind hrequest
    exact ⟨htallied, hvotes⟩
  . exact h.createWorkerRequest hvalid (getCommentByPerm_mem hcomment) hrequest

end request

section vote

/-- The votes of one request change, and its totals change with them. -/
theorem Tallied.adjustStakes (h : db.Tallied) {votes : Table WorkerRequestVoteObject.byRequestVoter}
    {rshares stake : ℤ}
    (hvoted : ∀ v ∈ votes.rows, v.post = post ∨ ∃ v' ∈ db.votes.rows, v'.post = v.post)
    (hstake : ∀ p, { db with votes := votes }.votedStake p =
      db.votedStake p + if post = p then stake else 0)
    (hrshares : ∀ p, { db with votes := votes }.votedRshares p =
      db.votedRshares p + if post = p then rshares else 0)
    (hadjust : { db with votes := votes }.adjustStakes post rshares stake = .ok db') :
    db'.Tallied := by
  simp only [WorkerDatabase.adjustStakes, bind_eq_ok, getWorkerRequest_eq_ok, int64_eq_ok,
    pure_eq_ok] at hadjust
  obtain ⟨r, hfind, _, ⟨-, rfl⟩, _, ⟨-, rfl⟩, rfl⟩ := hadjust
  have hpost := Table.key_of_find? hfind
  subst hpost
  have hrow := Table.mem_of_find? hfind
  have hmem : ∀ r', r' ∈ (db.requests.modify r.post fun o =>
      { o with
        stakeRshares := r.stakeRshares + rshares
        stakeTotal := r.stakeTotal + stake }).rows ↔
      (r' ∈ db.requests.rows ∧ r'.post ≠ r.post) ∨
        r' = { r with
          stakeRshares := r.stakeRshares + rshares
          stakeTotal := r.stakeTotal + stake } :=
    fun r' => (Table.Updates.modify _ hfind).mem_rows rfl
  refine ⟨?_, ?_, ?_, ?_, ?_⟩
  . intro r' hr'
    rcases (hmem r').mp hr' with ⟨hr', -⟩ | rfl
    . exact h.sound r' hr'
    . have := h.sound r hrow
      exact ⟨this.currency, this.symbols, this.min_pos, this.voting, this.paying, this.complete⟩
  . intro r' hr'
    refine Eq.trans ?_ (hstake r'.post).symm
    rcases (hmem r').mp hr' with ⟨hr', hne⟩ | rfl
    . rw [if_neg hne.symm, h.stakeTotal r' hr', Int.add_zero]
    . rw [if_pos rfl, ← h.stakeTotal r hrow]
  . intro r' hr'
    refine Eq.trans ?_ (hrshares r'.post).symm
    rcases (hmem r').mp hr' with ⟨hr', hne⟩ | rfl
    . rw [if_neg hne.symm, h.stakeRshares r' hr', Int.add_zero]
    . rw [if_pos rfl, ← h.stakeRshares r hrow]
  . intro v hv
    have hstays : ∀ r' ∈ db.requests.rows, r'.post = v.post →
        ∃ r'' ∈ (db.requests.modify r.post fun o =>
          { o with
            stakeRshares := r.stakeRshares + rshares
            stakeTotal := r.stakeTotal + stake }).rows, r''.post = v.post := by
      intro r' hr' hpost
      by_cases heq : r'.post = r.post
      . exact ⟨_, (hmem _).mpr (.inr rfl), heq.symm.trans hpost⟩
      . exact ⟨r', (hmem r').mpr (.inl ⟨hr', heq⟩), hpost⟩
    rcases hvoted v hv with hpost | ⟨v', hv', hpost⟩
    . exact hstays r hrow hpost.symm
    . obtain ⟨r', hr', hpost'⟩ := h.voted v' hv'
      exact hstays r' hr' (hpost'.trans hpost)
  . intro r' hr'
    rcases (hmem r').mp hr' with ⟨hr', -⟩ | rfl
    . exact h.commented r' hr'
    . exact h.commented r hrow

/-- The totals of a request do not depend on the votes that are there. -/
theorem adjustStakes_votes {rshares stake : ℤ} (h : db.adjustStakes post rshares stake = .ok db')
    (votes : Table WorkerRequestVoteObject.byRequestVoter) :
    { db with votes := votes }.adjustStakes post rshares stake =
      .ok { db' with votes := votes } := by
  simp only [WorkerDatabase.adjustStakes, bind_eq_ok, getWorkerRequest_eq_ok, pure_eq_ok] at h ⊢
  obtain ⟨r, hfind, total, htotal, shares, hshares, rfl⟩ := h
  exact ⟨r, hfind, total, htotal, shares, hshares, rfl⟩

theorem ledger_of_adjustStakes {rshares stake : ℤ}
    (h : db.adjustStakes post rshares stake = .ok db') :
    db'.ledger = db.ledger ∧ db'.votes = db.votes ∧
      db'.workerRequestCreationFee = db.workerRequestCreationFee := by
  simp only [WorkerDatabase.adjustStakes, bind_eq_ok, pure_eq_ok] at h
  obtain ⟨_, -, _, -, _, -, rfl⟩ := h
  exact ⟨rfl, rfl, rfl⟩

theorem Tallied.cancelVote (h : db.Tallied) {voter : AccountName}
    (hcancel : db.cancelVote wro voter = .ok db') : db'.Tallied := by
  simp only [WorkerDatabase.cancelVote, bind_eq_ok, get_eq_ok, pure_eq_ok] at hcancel
  obtain ⟨vote, hvote, db₁, hadjust, rfl⟩ := hcancel
  have hkey := Table.key_of_find? hvote
  simp only [WorkerRequestVoteObject.byRequestVoter, Prod.mk.injEq] at hkey
  rw [(ledger_of_adjustStakes hadjust).2.1]
  apply h.adjustStakes ?_ ?_ ?_ (adjustStakes_votes hadjust (db.votes.erase (wro.post, voter)))
  . intro v hv
    exact .inr ⟨v, (Table.mem_erase.mp hv).1, rfl⟩
  . intro p
    unfold votedStake
    rw [Table.sum_erase _ _ hvote, hkey.1]
    split
    . omega
    . omega
  . intro p
    unfold votedRshares
    rw [Table.sum_erase _ _ hvote, hkey.1]
    split
    . omega
    . omega

theorem Tallied.castVote (h : db.Tallied) {voter : AccountName} {votePercent : ℤ}
    (hcast : db.castVote wro voter votePercent = .ok db') : db'.Tallied := by
  simp only [WorkerDatabase.castVote, bind_eq_ok] at hcast
  obtain ⟨account, -, hcast⟩ := hcast
  split at hcast
  . next vote hvote =>
    simp only [bind_eq_ok, int64_eq_ok] at hcast
    obtain ⟨_, -, _, ⟨-, rfl⟩, _, ⟨-, rfl⟩, hadjust⟩ := hcast
    have hkey := Table.key_of_find? hvote
    simp only [WorkerRequestVoteObject.byRequestVoter, Prod.mk.injEq] at hkey
    apply h.adjustStakes ?_ ?_ ?_ hadjust
    . intro v hv
      rw [Table.mem_modify] at hv
      rcases hv with ⟨hv, -⟩ | ⟨v', hv', -, rfl⟩
      . exact .inr ⟨v, hv, rfl⟩
      . exact .inr ⟨v', hv', rfl⟩
    . intro p
      unfold votedStake
      rw [Table.sum_modify _ _ _ _ hvote]
      dsimp only
      rw [hkey.1]
      split
      . omega
      . omega
    . intro p
      unfold votedRshares
      rw [Table.sum_modify _ _ _ _ hvote]
      dsimp only
      rw [hkey.1]
      split
      . omega
      . omega
  . next hvote =>
    apply h.adjustStakes ?_ ?_ ?_ hcast
    . intro v hv
      rcases (Table.mem_insert hvote).mp hv with hv | rfl
      . exact .inr ⟨v, hv, rfl⟩
      . exact .inl rfl
    . intro p
      unfold votedStake
      rw [Table.sum_insert]
    . intro p
      unfold votedRshares
      rw [Table.sum_insert]

theorem Tallied.workerRequestVote (h : db.Tallied) {op : WorkerRequestVoteOperation}
    (hvote : db.workerRequestVote op = .ok db') : db'.Tallied := by
  simp only [WorkerDatabase.workerRequestVote, bind_eq_ok] at hvote
  obtain ⟨_, -, _, -, _, -, _, -, _, -, _, -, _, -, _, -, hvote⟩ := hvote
  split at hvote
  . exact h.cancelVote hvote
  . exact h.castVote hvote

end vote

section processWorkerVotes

/-- The votes for the request are enough, and give it what it needs. -/
def IsApproved (db : WorkerDatabase) (r : WorkerRequestObject) : Prop :=
  ∃ minVoted, db.minVoted = .ok minVoted ∧ minVoted ≤ r.stakeTotal ∧
    ∃ payment, calculatedPayment r = .ok payment ∧ r.requiredAmountMin.amount ≤ payment

instance : Decidable (db.IsApproved r) :=
  decidableExistsOk

/-- Counting the votes for the request does not divide by zero. -/
def IsCountable (db : WorkerDatabase) (r : WorkerRequestObject) : Prop :=
  ∃ minVoted, db.minVoted = .ok minVoted ∧ (minVoted ≤ r.stakeTotal → r.stakeTotal ≠ 0)

instance : Decidable (db.IsCountable r) :=
  decidableExistsOk

/-- What a turn of the loop makes of its request. -/
inductive Decides (db : WorkerDatabase) (r : WorkerRequestObject) : WorkerRequestObject → Prop
  | approve {payment : ℤ} (happroved : db.IsApproved r) (hpayment : calculatedPayment r = .ok payment)
      (hmin : r.requiredAmountMin.amount ≤ payment) :
    Decides db r
      { r with
        voteEndTime := maxTimePoint
        remainingPayment := ⟨payment, r.requiredAmountMin.symbol⟩
        state := .payment }
  | close {remaining : Asset} {state : WorkerRequestState} (happroved : ¬db.IsApproved r)
      (hstate : state = .closedByExpiration ∨ state = .closedByVoters) :
    Decides db r
      { r with remainingPayment := remaining, voteEndTime := maxTimePoint, state := state }

/-- Nothing but requests and virtual operations differs. -/
structure Keeps (db db' : WorkerDatabase) : Prop where
  ledger : db'.ledger = db.ledger
  staking : db'.staking = db.staking
  comments : db'.comments = db.comments
  votes : db'.votes = db.votes
  headBlockTime : db'.headBlockTime = db.headBlockTime
  workerRequestCreationFee : db'.workerRequestCreationFee = db.workerRequestCreationFee
  workerRequestApproveMinPercent :
    db'.workerRequestApproveMinPercent = db.workerRequestApproveMinPercent
  clearOldWorkerVotes : db'.clearOldWorkerVotes = db.clearOldWorkerVotes

theorem Keeps.refl (db : WorkerDatabase) : Keeps db db :=
  ⟨rfl, rfl, rfl, rfl, rfl, rfl, rfl, rfl⟩

theorem Keeps.trans {db'' : WorkerDatabase} (h : Keeps db db') (h' : Keeps db' db'') :
    Keeps db db'' :=
  ⟨h'.ledger.trans h.ledger, h'.staking.trans h.staking, h'.comments.trans h.comments,
    h'.votes.trans h.votes, h'.headBlockTime.trans h.headBlockTime,
    h'.workerRequestCreationFee.trans h.workerRequestCreationFee,
    h'.workerRequestApproveMinPercent.trans h.workerRequestApproveMinPercent,
    h'.clearOldWorkerVotes.trans h.clearOldWorkerVotes⟩

theorem Keeps.minVoted (h : Keeps db db') : db'.minVoted = db.minVoted := by
  unfold WorkerDatabase.minVoted
  rw [h.staking, h.workerRequestApproveMinPercent]

theorem Keeps.isApproved (h : Keeps db db') : db'.IsApproved r ↔ db.IsApproved r := by
  unfold IsApproved
  rw [h.minVoted]

theorem Keeps.voteless (h : Keeps db db') : db'.Voteless post ↔ db.Voteless post := by
  unfold Voteless HasVotes
  rw [h.votes, h.clearOldWorkerVotes]

theorem Decides.post_eq {r' : WorkerRequestObject} (h : db.Decides r r') : r'.post = r.post := by
  cases h <;> rfl

theorem Decides.totals {r' : WorkerRequestObject} (h : db.Decides r r') :
    r'.stakeTotal = r.stakeTotal ∧ r'.stakeRshares = r.stakeRshares := by
  cases h <;> exact ⟨rfl, rfl⟩

theorem Decides.sound {r' : WorkerRequestObject} (h : db.Decides r r') (hr : r.Sound) :
    r'.Sound := by
  cases h with
  | approve _ _ hmin =>
    have hpos := hr.min_pos
    exact ⟨hr.currency, hr.symbols, hr.min_pos, .inr rfl, fun _ => ⟨by dsimp only; omega, rfl⟩,
      nofun⟩
  | close _ hstate =>
    rcases hstate with rfl | rfl
    . exact ⟨hr.currency, hr.symbols, hr.min_pos, .inr rfl, nofun, nofun⟩
    . exact ⟨hr.currency, hr.symbols, hr.min_pos, .inr rfl, nofun, nofun⟩

/-- What a turn of the loop does. -/
structure Turn (db : WorkerDatabase) (r : WorkerRequestObject) (db' : WorkerDatabase) : Prop where
  keeps : Keeps db db'
  request : ∃ r', db.Decides r r' ∧ Table.Updates db.requests db'.requests r r'

theorem turn_of_processWorkerVote (hfind : db.requests.find? r.post = some r)
    (hvoteless : ¬db.IsApproved r → db.Voteless r.post) (h : db.processWorkerVote r = .ok db') :
    db.Turn r db' ∧ db.IsCountable r := by
  simp only [processWorkerVote, bind_eq_ok, getWorkerRequest_eq_ok, hfind] at h
  obtain ⟨_, ⟨⟩, c, -, minVoted, hmin, h⟩ := h
  split at h
  . next hlt =>
    have happroved : ¬db.IsApproved r := by
      rintro ⟨_, hmin', hle, -⟩
      rw [hmin] at hmin'
      cases hmin'
      omega
    rw [pure_eq_ok, closeWorkerRequest_of_voteless (hvoteless happroved)] at h
    subst h
    refine ⟨⟨⟨rfl, rfl, rfl, rfl, rfl, rfl, rfl, rfl⟩, _, .close happroved (.inl rfl),
      .modify _ hfind⟩, minVoted, hmin, fun hle => ?_⟩
    omega
  . next hle =>
    rw [not_lt] at hle
    rw [bind_eq_ok] at h
    obtain ⟨payment, hpayment, h⟩ := h
    have hcountable : db.IsCountable r := by
      simp only [calculatedPayment, bind_eq_ok, ensure_eq_ok] at hpayment
      obtain ⟨_, hzero, -⟩ := hpayment
      exact ⟨minVoted, hmin, fun _ => hzero⟩
    split at h
    . next hless =>
      have happroved : ¬db.IsApproved r := by
        rintro ⟨_, -, -, _, hpayment', hmin'⟩
        rw [hpayment] at hpayment'
        cases hpayment'
        omega
      have hfirst := Table.Updates.modify (fun o : WorkerRequestObject =>
        { o with remainingPayment := ⟨payment, o.requiredAmountMin.symbol⟩ }) hfind
      have hfind' := hfirst.find? r.post
      rw [if_pos rfl] at hfind'
      have hmodified : Voteless (db.modifyRequest r.post fun o =>
          { o with remainingPayment := ⟨payment, o.requiredAmountMin.symbol⟩ }) r.post :=
        hvoteless happroved
      rw [pure_eq_ok, closeWorkerRequest_of_voteless hmodified] at h
      subst h
      exact ⟨⟨⟨rfl, rfl, rfl, rfl, rfl, rfl, rfl, rfl⟩, _, .close happroved (.inr rfl),
        hfirst.trans (.modify _ hfind') rfl⟩, hcountable⟩
    . next hless =>
      rw [pure_eq_ok] at h
      subst h
      rw [not_lt] at hless
      exact ⟨⟨⟨rfl, rfl, rfl, rfl, rfl, rfl, rfl, rfl⟩, _,
        .approve ⟨minVoted, hmin, hle, payment, hpayment, hless⟩ hpayment hless,
        .modify _ hfind⟩, hcountable⟩

theorem processWorkerVote_total (hfind : db.requests.find? r.post = some r)
    (hcomment : (db.comments.find? r.post).isSome) (hcountable : db.IsCountable r) :
    ∃ db', db.processWorkerVote r = .ok db' := by
  obtain ⟨minVoted, hmin, hzero⟩ := hcountable
  obtain ⟨c, hc⟩ := Option.isSome_iff_exists.mp hcomment
  have hget : db.getComment r.post = .ok c := get_eq_ok.mpr hc
  unfold processWorkerVote
  rw [getWorkerRequest_eq_ok.mpr hfind, ok_bind, hget, ok_bind, hmin, ok_bind]
  split
  . exact ⟨_, rfl⟩
  . next hle =>
    rw [not_lt] at hle
    have hpayment : calculatedPayment r =
        .ok (castInt64 (Int.tdiv (r.requiredAmountMax.amount * r.stakeRshares) r.stakeTotal)) := by
      simp [calculatedPayment, ensure, hzero hle]
    rw [hpayment, ok_bind]
    split
    . exact ⟨_, rfl⟩
    . exact ⟨_, rfl⟩

theorem lists_dueRequests (db : WorkerDatabase) : Table.Lists db.requests db.dueRequests :=
  (Table.Lists.filter _ _).perm (List.perm_insertionSort _ _)

/-- What the loop has done when the requests of `l` are left. -/
structure Counted (db : WorkerDatabase) (l : List WorkerRequestObject) (db' : WorkerDatabase) :
    Prop where
  keeps : Keeps db db'
  tallied : db'.Tallied
  lists : Table.Lists db'.requests l
  due : ∀ r ∈ l, r ∈ db.dueRequests
  countable : ∀ r ∈ db.dueRequests, r ∈ l ∨ db.IsCountable r
  find? : ∀ p, db'.requests.find? p = db.requests.find? p ∨
    ∃ r ∈ db.dueRequests, r.post = p ∧ ∃ r', db.Decides r r' ∧ db'.requests.find? p = some r'

theorem Counted.start (h : db.Tallied) : Counted db db.dueRequests db :=
  ⟨.refl db, h, lists_dueRequests db, fun _ hr => hr, fun _ hr => .inl hr, fun _ => .inl rfl⟩

variable {l : List WorkerRequestObject} {db'' : WorkerDatabase}

theorem Keeps.decides (h : Keeps db db') {r' : WorkerRequestObject} (hdecides : db'.Decides r r') :
    db.Decides r r' := by
  cases hdecides with
  | approve happroved hpayment hmin => exact .approve (h.isApproved.mp happroved) hpayment hmin
  | close happroved hstate => exact .close (fun h' => happroved (h.isApproved.mpr h')) hstate

theorem Counted.turn (h : Counted db (r :: l) db')
    (hvoteless : ¬db.IsApproved r → db.Voteless r.post)
    (hturn : db'.processWorkerVote r = .ok db'') : Counted db l db'' := by
  have hfind := h.lists.row r List.mem_cons_self
  have hvoteless' : ¬db'.IsApproved r → db'.Voteless r.post := by
    rw [h.keeps.isApproved, h.keeps.voteless]
    exact hvoteless
  obtain ⟨⟨hkeeps, r', hdecides, hupdates⟩, hcountable⟩ :=
    turn_of_processWorkerVote hfind hvoteless' hturn
  have hpost := hdecides.post_eq
  refine ⟨h.keeps.trans hkeeps, ?_, ?_, fun r hr => h.due r (List.mem_cons_of_mem _ hr), ?_, ?_⟩
  . exact h.tallied.updates hupdates hpost (hdecides.sound (h.tallied.sound r
      (Table.mem_of_find? hfind))) hdecides.totals.1 hdecides.totals.2 hkeeps.votes hkeeps.comments
  . refine ⟨h.lists.tail.nodup, fun r₁ hr₁ => ?_⟩
    have hnodup := h.lists.nodup
    rw [List.map_cons, List.nodup_cons] at hnodup
    have hne : r₁.post ≠ r.post := fun heq => hnodup.1 (heq ▸ List.mem_map_of_mem hr₁)
    rw [hupdates.find?, if_neg hne]
    exact h.lists.row r₁ (List.mem_cons_of_mem _ hr₁)
  . intro r₁ hr₁
    rcases h.countable r₁ hr₁ with hmem | hcountable₁
    . rcases List.mem_cons.mp hmem with rfl | hmem
      . right
        unfold IsCountable at hcountable ⊢
        rwa [h.keeps.minVoted] at hcountable
      . exact .inl hmem
    . exact .inr hcountable₁
  . intro p
    rw [hupdates.find?]
    split
    . next heq =>
      exact .inr ⟨r, h.due r List.mem_cons_self, heq.symm, r', h.keeps.decides hdecides, rfl⟩
    . exact h.find? p

/-- Where nothing that is closed has votes, the loop leaves the votes as they are. -/
theorem counted_of_processWorkerVotes (h : db.Tallied)
    (hvoteless : ∀ r ∈ db.dueRequests, ¬db.IsApproved r → db.Voteless r.post)
    (hprocess : db.processWorkerVotes = .ok db') : Counted db [] db' := by
  apply foldlM_invariant (P := fun db' l => Counted db l db') ?_ (.start h) hprocess
  intro db₁ db₂ r l hcounted hturn
  exact hcounted.turn (hvoteless r (hcounted.due r List.mem_cons_self)) hturn

/-- The loop ends just if it can count the votes for every request. -/
theorem processWorkerVotes_total_iff (h : db.Tallied)
    (hvoteless : ∀ r ∈ db.dueRequests, ¬db.IsApproved r → db.Voteless r.post) :
    (∃ db', db.processWorkerVotes = .ok db') ↔ ∀ r ∈ db.dueRequests, db.IsCountable r := by
  constructor
  . rintro ⟨db', hprocess⟩ r hr
    rcases (counted_of_processWorkerVotes h hvoteless hprocess).countable r hr with hmem | hcountable
    . cases hmem
    . exact hcountable
  . intro hcountable
    apply foldlM_total (P := fun db' l => Counted db l db') ?_ (.start h)
    intro db₁ r l hcounted
    have hdue := hcounted.due r List.mem_cons_self
    have hfind := hcounted.lists.row r List.mem_cons_self
    have hcountable₁ : db₁.IsCountable r := by
      unfold IsCountable
      rw [hcounted.keeps.minVoted]
      exact hcountable r hdue
    obtain ⟨db₂, hturn⟩ := processWorkerVote_total hfind
      (hcounted.tallied.commented r (Table.mem_of_find? hfind)) hcountable₁
    exact ⟨db₂, hturn, hcounted.turn (hvoteless r hdue) hturn⟩

end processWorkerVotes

end WorkerDatabase

end Golos
