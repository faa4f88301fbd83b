import Golos.Lib.Transition
import Golos.Worker.Cashout

/-!
This module contains the runs of worker requests, and what holds in them as long as no votes are
divided by zero and no request is closed with votes.
-/

namespace Golos

open Checked

namespace WorkerDatabase

inductive Event where
  | workerRequest (op : WorkerRequestOperation)
  | workerRequestDelete (op : WorkerRequestDeleteOperation)
  | workerRequestVote (op : WorkerRequestVoteOperation)
  | processWorkerVotes
  | processWorkerCashout
  /-- Everything else: passing blocks, balances, stakes, comments and properties. -/
  | elsewhere

/-- The pool is not overdrawn, and the fee for a request is not negative. -/
structure Funded (db : WorkerDatabase) : Prop where
  pool : ∀ symbol, symbol = steemSymbol ∨ symbol = sbdSymbol → 0 ≤ db.poolBalance symbol
  fee : 0 ≤ db.workerRequestCreationFee.amount

/-- Comments with a request stay, and balances and properties are as the chain allows them. -/
structure Elsewhere (db db' : WorkerDatabase) : Prop where
  requests : db'.requests = db.requests
  votes : db'.votes = db.votes
  comments : ∀ r ∈ db.requests.rows, db'.comments.find? r.post = db.comments.find? r.post
  funded : db'.Funded

def Step (db : WorkerDatabase) : Event → WorkerDatabase → Prop
  | .workerRequest op, db' => db.workerRequest op = .ok db'
  | .workerRequestDelete op, db' => db.workerRequestDelete op = .ok db'
  | .workerRequestVote op, db' => db.workerRequestVote op = .ok db'
  | .processWorkerVotes, db' => db.processWorkerVotes = .ok db'
  | .processWorkerCashout, db' => db.processWorkerCashout = .ok db'
  | .elsewhere, db' => db.Elsewhere db'

/-- The step divides no votes by zero, and closes no request with votes. -/
def Careful (db : WorkerDatabase) : Event → Prop
  | .workerRequestDelete op =>
    ∀ post, db.getCommentByPerm op.author op.hashlink = .ok post → db.Voteless post.id
  | .processWorkerVotes =>
    ∀ r ∈ db.dueRequests, db.IsCountable r ∧ (¬db.IsApproved r → db.Voteless r.post)
  | _ => True

end WorkerDatabase

def workerSystem : TransitionSystem WorkerDatabase WorkerDatabase.Event where
  initial db := db.requests = .empty ∧ db.votes = .empty ∧ db.Funded
  step := WorkerDatabase.Step

namespace WorkerDatabase

variable {db db' : WorkerDatabase} {e : Event} {r wro : WorkerRequestObject} {post : Nat}

theorem Funded.of_ledger (h : db.Funded) (hledger : db'.ledger = db.ledger)
    (hfee : db'.workerRequestCreationFee = db.workerRequestCreationFee) : db'.Funded := by
  refine ⟨fun symbol hsymbol => ?_, ?_⟩
  . unfold poolBalance
    rw [hledger]
    exact h.pool symbol hsymbol
  . rw [hfee]
    exact h.fee

/-- The fee comes from a balance that has it, and stays in the pool. -/
theorem Funded.payCreationFee (h : db.Funded) {name : AccountName} {ledger : Ledger}
    (hpay : db.payCreationFee name = .ok ledger) : Funded { db with ledger := ledger } := by
  refine ⟨fun symbol hsymbol => ?_, h.fee⟩
  have hpool := h.pool symbol hsymbol
  have hfee := h.fee
  unfold poolBalance at hpool ⊢
  unfold WorkerDatabase.payCreationFee at hpay
  dsimp only at hpay
  split at hpay
  . simp only [bind_eq_ok, Asset.neg_eq_ok] at hpay
    obtain ⟨author, hauthor, _, hcheck, _, ⟨-, rfl⟩, ledger₁, hcharge, hcredit⟩ := hpay
    rw [(Ledger.moves_adjustBalance hcredit).balance,
      (Ledger.moves_adjustBalance hcharge).balance]
    unfold Ledger.single
    dsimp only
    by_cases hsame : symbol = db.workerRequestCreationFee.symbol
    . simp only [hsame, and_true, ↓reduceIte]
      rw [hsame] at hpool
      split
      . omega
      . omega
    . simp only [hsame, and_false, ↓reduceIte]
      omega
  . rw [pure_eq_ok] at hpay
    subst hpay
    exact hpool

theorem Funded.workerRequest (h : db.Funded) {op : WorkerRequestOperation}
    (hrequest : db.workerRequest op = .ok db') : db'.Funded := by
  simp only [WorkerDatabase.workerRequest, bind_eq_ok] at hrequest
  obtain ⟨_, -, c, -, _, -, hrequest⟩ := hrequest
  split at hrequest
  . simp only [WorkerDatabase.editWorkerRequest, bind_eq_ok, pure_eq_ok] at hrequest
    obtain ⟨_, -, _, -, rfl⟩ := hrequest
    exact h.of_ledger rfl rfl
  . simp only [WorkerDatabase.createWorkerRequest, bind_eq_ok, pure_eq_ok] at hrequest
    obtain ⟨_, -, _, -, ledger, hpay, _, -, rfl⟩ := hrequest
    exact (h.payCreationFee hpay).of_ledger rfl rfl

theorem ledger_of_workerRequestVote {op : WorkerRequestVoteOperation}
    (h : db.workerRequestVote op = .ok db') : db'.ledger = db.ledger ∧
      db'.workerRequestCreationFee = db.workerRequestCreationFee := by
  simp only [workerRequestVote, bind_eq_ok] at h
  obtain ⟨_, -, _, -, _, -, _, -, _, -, wro, -, _, -, _, -, h⟩ := h
  split at h
  . simp only [cancelVote, bind_eq_ok, pure_eq_ok] at h
    obtain ⟨vote, -, db₁, hadjust, rfl⟩ := h
    have hsame := ledger_of_adjustStakes hadjust
    exact ⟨hsame.1, hsame.2.2⟩
  . simp only [castVote, bind_eq_ok] at h
    obtain ⟨_, -, h⟩ := h
    split at h
    . simp only [bind_eq_ok] at h
      obtain ⟨_, -, _, -, _, -, hadjust⟩ := h
      have hsame := ledger_of_adjustStakes hadjust
      exact ⟨hsame.1, hsame.2.2⟩
    . have hsame := ledger_of_adjustStakes h
      exact ⟨hsame.1, hsame.2.2⟩

theorem state_of_delete {op : WorkerRequestDeleteOperation}
    (h : db.workerRequestDelete op = .ok db') :
    ∃ post wro, db.getCommentByPerm op.author op.hashlink = .ok post ∧
      db.requests.find? post.id = some wro ∧ wro.state = .created ∧
      db' = db.closeWorkerRequest wro .closedByAuthor := by
  simp only [workerRequestDelete, bind_eq_ok, ensure_eq_ok, getWorkerRequest_eq_ok,
    pure_eq_ok] at h
  obtain ⟨_, -, post, hpost, wro, hfind, _, -, _, hstate, rfl⟩ := h
  exact ⟨post, wro, hpost, hfind, state_of_lt_payment hstate, rfl⟩

/-- A request without votes is removed by its author. -/
theorem eraseRequest_of_delete {op : WorkerRequestDeleteOperation}
    (hcareful : db.Careful (.workerRequestDelete op)) (h : db.workerRequestDelete op = .ok db') :
    ∃ post, db.Voteless post ∧ db' = { db with requests := db.requests.erase post } := by
  obtain ⟨post, wro, hpost, hfind, hcreated, rfl⟩ := state_of_delete h
  have hkey := Table.key_of_find? hfind
  have hvoteless : db.Voteless wro.post := by
    rw [hkey]
    exact hcareful post hpost
  refine ⟨wro.post, hvoteless, ?_⟩
  rw [closeWorkerRequest_of_voteless hvoteless, if_pos]
  rw [hcreated]
  exact ⟨rfl, by decide⟩

/-- The pool pays at most what the request gets, and gets it back as the worker. -/
theorem neg_le_moved {payment : WorkerRequestObject → ℤ} (hnonneg : 0 ≤ payment r)
    (hremaining : r.remainingPayment.symbol = r.requiredAmountMin.symbol)
    (symbol : AssetSymbolType) :
    (if r.requiredAmountMin.symbol = symbol then -payment r else 0) ≤
      moved payment r workerPoolAccount symbol := by
  unfold moved
  rw [hremaining]
  by_cases hsame : r.requiredAmountMin.symbol = symbol
  . simp only [hsame, ↓reduceIte, and_self, true_and]
    split
    . omega
    . omega
  . have hne : symbol ≠ r.requiredAmountMin.symbol := fun heq => hsame heq.symm
    simp [hsame, hne]

theorem Funded.processWorkerCashout (h : db.Funded) (htallied : db.Tallied)
    {payment : WorkerRequestObject → ℤ} (hpays : db.PaysOut payment db') : db'.Funded := by
  refine ⟨fun symbol hsymbol => ?_, hpays.workerRequestCreationFee ▸ h.fee⟩
  have hle := hpays.le_pool symbol (h.pool symbol hsymbol)
  unfold poolBalance at hle ⊢
  rw [hpays.balances]
  -- what the pool pays, less what it pays to itself
  have hmoved : ∀ l : List WorkerRequestObject, (∀ r ∈ l, r ∈ db.payingRequests) →
      -((l.filter fun r => r.requiredAmountMin.symbol = symbol).map payment).sum ≤
        (l.map fun r => moved payment r workerPoolAccount symbol).sum := by
    intro l hl
    induction l with
    | nil => exact le_rfl
    | cons r l ih =>
      have hr := hl r List.mem_cons_self
      have hnonneg := (hpays.le_share r hr).1
      obtain ⟨hrow, hpaying⟩ := mem_payingRequests.mp hr
      have hremaining := ((htallied.sound r hrow).paying hpaying).2
      have ih := ih fun r hr => hl r (List.mem_cons_of_mem _ hr)
      have hle := neg_le_moved hnonneg hremaining symbol
      rw [List.map_cons, List.sum_cons, List.filter_cons]
      by_cases hsame : r.requiredAmountMin.symbol = symbol
      . rw [if_pos hsame] at hle
        rw [if_pos (decide_eq_true hsame), List.map_cons, List.sum_cons]
        omega
      . rw [if_neg hsame] at hle
        rw [if_neg (by rwa [decide_eq_true_iff])]
        omega
  have := hmoved db.payingRequests fun _ hr => hr
  omega

structure Kept (db : WorkerDatabase) : Prop where
  tallied : db.Tallied
  funded : db.Funded

theorem kept_of_initial (h : workerSystem.initial db) : db.Kept := by
  obtain ⟨hrequests, hvotes, hfunded⟩ := h
  have hrows : ∀ r, r ∉ db.requests.rows := by
    intro r
    rw [hrequests]
    exact List.not_mem_nil
  have hvoted : ∀ v, v ∉ db.votes.rows := by
    intro v
    rw [hvotes]
    exact List.not_mem_nil
  exact ⟨⟨fun r hr => absurd hr (hrows r), fun r hr => absurd hr (hrows r),
    fun r hr => absurd hr (hrows r), fun v hv => absurd hv (hvoted v),
    fun r hr => absurd hr (hrows r)⟩, hfunded⟩

theorem Tallied.elsewhere (h : db.Tallied) (helse : db.Elsewhere db') : db'.Tallied := by
  have hcongr : Tallied { db' with comments := db.comments } :=
    h.congr helse.requests helse.votes rfl
  refine ⟨hcongr.sound, hcongr.stakeTotal, hcongr.stakeRshares, hcongr.voted, fun r hr => ?_⟩
  rw [helse.requests] at hr
  rw [helse.comments r hr]
  exact h.commented r hr

/-- One step keeps the totals and the pool. -/
theorem Kept.step (h : db.Kept) (hcareful : db.Careful e) (hstep : db.Step e db') : db'.Kept := by
  cases e with
  | workerRequest op =>
    exact ⟨(h.tallied.workerRequest hstep).1, h.funded.workerRequest hstep⟩
  | workerRequestDelete op =>
    obtain ⟨post, hvoteless, rfl⟩ := eraseRequest_of_delete hcareful hstep
    exact ⟨h.tallied.eraseRequest hvoteless.1, h.funded.of_ledger rfl rfl⟩
  | workerRequestVote op =>
    have hsame := ledger_of_workerRequestVote hstep
    exact ⟨h.tallied.workerRequestVote hstep, h.funded.of_ledger hsame.1 hsame.2⟩
  | processWorkerVotes =>
    have hcounted := counted_of_processWorkerVotes h.tallied (fun r hr => (hcareful r hr).2) hstep
    exact ⟨hcounted.tallied, h.funded.of_ledger hcounted.keeps.ledger
      hcounted.keeps.workerRequestCreationFee⟩
  | processWorkerCashout =>
    obtain ⟨⟨payment, hpays⟩, htallied⟩ :=
      paysOut_of_processWorkerCashout h.tallied h.funded.pool hstep
    exact ⟨htallied, h.funded.processWorkerCashout h.tallied hpays⟩
  | elsewhere => exact ⟨h.tallied.elsewhere hstep, hstep.funded⟩

theorem kept_of_reach (h : workerSystem.Reach Careful db) : db.Kept :=
  h.invariant (fun _ => kept_of_initial) fun _ _ _ hkept hcareful hstep =>
    hkept.step hcareful hstep

section closes

/-- There is a request for the post that is not closed. -/
def HasOpen (db : WorkerDatabase) (post : Nat) : Prop :=
  ∃ r, db.requests.find? post = some r ∧ r.state.value < WorkerRequestState.closedByAuthor.value

instance : Decidable (db.HasOpen post) :=
  match h : db.requests.find? post with
  | some r =>
    decidable_of_iff (r.state.value < WorkerRequestState.closedByAuthor.value)
      (by simp [HasOpen, h])
  | none => .isFalse (by simp [HasOpen, h])

/-- The step closes the request of the post. -/
def Closes (db db' : WorkerDatabase) (post : Nat) : Prop :=
  db.HasOpen post ∧ ¬db'.HasOpen post

instance : Decidable (db.Closes db' post) :=
  inferInstanceAs (Decidable (_ ∧ _))

/-- Votes go with the request they are for, and only with it. -/
def ClearsClosed (db db' : WorkerDatabase) : Prop :=
  ∀ v, v ∈ db'.votes.rows ↔ v ∈ db.votes.rows ∧ ¬db.Closes db' v.post

theorem clearsClosed_of_voteless (hvotes : db'.votes = db.votes)
    (h : ∀ post, db.Closes db' post → ¬db.HasVotes post) : db.ClearsClosed db' := by
  intro v
  rw [hvotes]
  constructor
  . intro hv
    exact ⟨hv, fun hcloses => h v.post hcloses ⟨v, hv, rfl⟩⟩
  . exact fun hv => hv.1

/-- A step that closes nothing. -/
theorem clearsClosed_of_open (hvotes : db'.votes = db.votes)
    (h : ∀ post, db.HasOpen post → db'.HasOpen post) : db.ClearsClosed db' :=
  clearsClosed_of_voteless hvotes fun post hcloses => absurd (h post hcloses.1) hcloses.2

theorem hasOpen_of_workerRequest {op : WorkerRequestOperation}
    (h : db.workerRequest op = .ok db') (hopen : db.HasOpen post) : db'.HasOpen post := by
  obtain ⟨r, hfind, hstate⟩ := hopen
  simp only [workerRequest, bind_eq_ok] at h
  obtain ⟨_, -, c, -, _, -, h⟩ := h
  split at h
  . next wro hwro =>
    simp only [editWorkerRequest, bind_eq_ok, ensure_eq_ok, pure_eq_ok] at h
    obtain ⟨_, hlt, _, -, rfl⟩ := h
    have hkey := Table.key_of_find? hwro
    rw [← hkey] at hwro
    have hupdates := Table.Updates.modify (fun o : WorkerRequestObject =>
      { o with
        worker := op.worker
        requiredAmountMin := op.requiredAmountMin
        requiredAmountMax := op.requiredAmountMax
        vestReward := op.vestReward
        duration := op.duration
        voteEndTime := o.created + op.duration }) hwro
    by_cases heq : post = wro.post
    . subst heq
      rw [hfind] at hwro
      cases hwro
      exact ⟨_, (hupdates.find? _).trans (if_pos rfl), hstate⟩
    . exact ⟨r, ((hupdates.find? _).trans (if_neg heq)).trans hfind, hstate⟩
  . simp only [createWorkerRequest, bind_eq_ok, get_eq_ok, pure_eq_ok] at h
    obtain ⟨_, -, _, -, _, -, requests, hrequests, rfl⟩ := h
    exact ⟨r, (Table.Inserts.emplace hrequests).find?_eq_some_iff.mpr (.inl hfind), hstate⟩

theorem hasOpen_of_paysOut (htallied : db.Tallied) {payment : WorkerRequestObject → ℤ}
    (hpays : db.PaysOut payment db') (hopen : db.HasOpen post) : db'.HasOpen post := by
  obtain ⟨r, hfind, hstate⟩ := hopen
  have hfind' := hpays.requests post
  rw [hfind, Option.map_some] at hfind'
  split at hfind'
  . next hr =>
    obtain ⟨hrow, hpaying⟩ := mem_payingRequests.mp hr
    refine ⟨_, hfind', ?_⟩
    rcases (WorkerRequestObject.payOff_complete_iff (htallied.sound r hrow) hpaying
      (hpays.le_share r hr).2.1).2.2 with heq | heq
    . rw [heq]
      decide
    . rw [heq]
      decide
  . exact ⟨r, hfind', hstate⟩

theorem hasVotes_of_counted (hcareful : db.Careful .processWorkerVotes)
    (hcounted : db.Counted [] db') (hcloses : db.Closes db' post) : ¬db.HasVotes post := by
  obtain ⟨⟨r, hfind, hstate⟩, hclosed⟩ := hcloses
  rcases hcounted.find? post with hsame | ⟨r₁, hr₁, hpost, r', hdecides, hfind'⟩
  . exact absurd ⟨r, hsame.trans hfind, hstate⟩ hclosed
  . cases hdecides with
    | approve =>
      have hlt : WorkerRequestState.payment.value < WorkerRequestState.closedByAuthor.value := by
        decide
      exact absurd ⟨_, hfind', hlt⟩ hclosed
    | close happroved => exact hpost ▸ ((hcareful r₁ hr₁).2 happroved).1

/-- A careful step that does not vote has no votes to remove where it closes a request. -/
theorem clearsClosed_of_step (h : db.Kept) (hcareful : db.Careful e) (hstep : db.Step e db')
    (hvote : ∀ op, e ≠ .workerRequestVote op) : db.ClearsClosed db' := by
  cases e with
  | workerRequest op =>
    exact clearsClosed_of_open (h.tallied.workerRequest hstep).2
      fun post => hasOpen_of_workerRequest hstep
  | workerRequestDelete op =>
    obtain ⟨post, hvoteless, rfl⟩ := eraseRequest_of_delete hcareful hstep
    refine clearsClosed_of_voteless rfl fun post' hcloses => ?_
    obtain ⟨⟨r, hfind, hstate⟩, hclosed⟩ := hcloses
    by_cases heq : post' = post
    . exact heq ▸ hvoteless.1
    . refine absurd ⟨r, ?_, hstate⟩ hclosed
      dsimp only
      rw [Table.find?_erase_of_ne _ heq]
      exact hfind
  | workerRequestVote op => exact absurd rfl (hvote op)
  | processWorkerVotes =>
    have hcounted := counted_of_processWorkerVotes h.tallied (fun r hr => (hcareful r hr).2) hstep
    exact clearsClosed_of_voteless hcounted.keeps.votes fun post =>
      hasVotes_of_counted hcareful hcounted
  | processWorkerCashout =>
    obtain ⟨⟨payment, hpays⟩, -⟩ :=
      paysOut_of_processWorkerCashout h.tallied h.funded.pool hstep
    exact clearsClosed_of_open hpays.votes fun post => hasOpen_of_paysOut h.tallied hpays
  | elsewhere =>
    refine clearsClosed_of_open hstep.votes fun post hopen => ?_
    unfold HasOpen
    rw [hstep.requests]
    exact hopen

end closes

section runs

/-- Two posts of one author, and a voter with all of the stake. -/
def twoPosts : WorkerDatabase where
  ledger := { accounts := ⟨[{ name := "alice" }, { name := workerPoolAccount }], by decide⟩ }
  staking :=
    { accounts := ⟨[{ name := "bobby", vestingShares := 10 }], by decide⟩
      totalVestingShares := 10 }
  comments :=
    ⟨[{ id := 0, author := "alice", hashlink := 0, cashoutTime := 1 },
      { id := 1, author := "alice", hashlink := 1, cashoutTime := 1 }], by decide⟩
  workerRequestCreationFee := ⟨0, sbdSymbol⟩

def requestOf (hashlink : Nat) : WorkerRequestOperation where
  author := "alice"
  hashlink := hashlink
  worker := "alice"
  requiredAmountMin := ⟨5, steemSymbol⟩
  requiredAmountMax := ⟨10, steemSymbol⟩
  duration := golosWorkerRequestMinDuration

def voteOf (hashlink : Nat) : WorkerRequestVoteOperation where
  voter := "bobby"
  author := "alice"
  hashlink := hashlink
  votePercent := 10000

/-- The state once the votes are over. -/
def later (db : WorkerDatabase) : WorkerDatabase :=
  { db with headBlockTime := golosWorkerRequestMinDuration }

/-- The state once the pool has something for a cashout. -/
def filled (db : WorkerDatabase) : WorkerDatabase :=
  { db with
    ledger := db.ledger.modifyAccount workerPoolAccount fun a => { a with balance := 7 } }

def orDefault (x : Result WorkerDatabase) : WorkerDatabase :=
  x.toOption.getD {}

def asked (db : WorkerDatabase) : WorkerDatabase :=
  orDefault (db.workerRequest (requestOf 0))

/-- The request that is voted for, when the votes are over. -/
def supported : WorkerDatabase :=
  (orDefault ((asked twoPosts).workerRequestVote (voteOf 0))).later

/-- The request that is to be paid. -/
def approved : WorkerDatabase :=
  (orDefault supported.processWorkerVotes).filled

/-- A request that nobody has voted for, and that needs no votes. -/
def ignored : WorkerDatabase :=
  (asked { twoPosts with workerRequestApproveMinPercent := 0 }).later

/-- Requests for both posts, and a vote for each, where old votes are to be cleared. -/
def bothAsked : WorkerDatabase :=
  orDefault ((asked { twoPosts with clearOldWorkerVotes := true }).workerRequest (requestOf 1))

def bothVoted : WorkerDatabase :=
  orDefault ([voteOf 0, voteOf 1].foldlM workerRequestVote bothAsked)

variable {ok : WorkerDatabase → Event → Prop}

theorem reach_asked (hinitial : workerSystem.initial db)
    (hok : ok db (.workerRequest (requestOf 0)))
    (h : (db.workerRequest (requestOf 0)).toOption.isSome) : workerSystem.Reach ok db.asked :=
  .step (.initial hinitial) hok (eq_ok_of_isSome h)

theorem funded_of_decide (hgolos : 0 ≤ db.poolBalance steemSymbol)
    (hgbg : 0 ≤ db.poolBalance sbdSymbol) (hfee : 0 ≤ db.workerRequestCreationFee.amount) :
    db.Funded := by
  refine ⟨fun symbol hsymbol => ?_, hfee⟩
  rcases hsymbol with rfl | rfl
  . exact hgolos
  . exact hgbg

theorem elsewhere_later (h : db.Funded) : db.Elsewhere db.later :=
  ⟨rfl, rfl, fun _ _ => rfl, h.of_ledger rfl rfl⟩

theorem elsewhere_filled (h : db.filled.Funded) : db.Elsewhere db.filled :=
  ⟨rfl, rfl, fun _ _ => rfl, h⟩

theorem funded_twoPosts : twoPosts.Funded :=
  funded_of_decide (by decide) (by decide) (by decide)

theorem reach_approved : workerSystem.Reach Careful approved := by
  have hasked : workerSystem.Reach Careful (asked twoPosts) :=
    reach_asked ⟨rfl, rfl, funded_twoPosts.of_ledger rfl rfl⟩ trivial (by decide +kernel)
  have hvoted : workerSystem.Reach Careful (orDefault ((asked twoPosts).workerRequestVote
      (voteOf 0))) :=
    .step (e := .workerRequestVote (voteOf 0)) hasked trivial (eq_ok_of_isSome (by decide +kernel))
  have hsupported : workerSystem.Reach Careful supported :=
    .step (e := .elsewhere) hvoted trivial (elsewhere_later
      (funded_of_decide (by decide +kernel) (by decide +kernel) (by decide +kernel)))
  have hcounted : workerSystem.Reach Careful (orDefault supported.processWorkerVotes) := by
    refine .step (e := .processWorkerVotes) hsupported ?_ (eq_ok_of_isSome (by decide +kernel))
    unfold Careful
    decide +kernel
  exact .step (e := .elsewhere) hcounted trivial (elsewhere_filled
    (funded_of_decide (by decide +kernel) (by decide +kernel) (by decide +kernel)))

theorem reachable_ignored : workerSystem.Reachable ignored := by
  have hasked : workerSystem.Reachable
      (asked { twoPosts with workerRequestApproveMinPercent := 0 }) :=
    reach_asked ⟨rfl, rfl, funded_twoPosts.of_ledger rfl rfl⟩ trivial (by decide +kernel)
  exact .step (e := .elsewhere) hasked trivial (elsewhere_later
    (funded_of_decide (by decide +kernel) (by decide +kernel) (by decide +kernel)))

theorem reachable_bothVoted : workerSystem.Reachable bothVoted := by
  have hasked : workerSystem.Reachable (asked { twoPosts with clearOldWorkerVotes := true }) :=
    reach_asked ⟨rfl, rfl, funded_twoPosts.of_ledger rfl rfl⟩ trivial (by decide +kernel)
  have hboth : workerSystem.Reachable bothAsked :=
    .step (e := .workerRequest (requestOf 1)) hasked trivial
      (eq_ok_of_isSome (d := {}) (by decide +kernel))
  have hevents : ∀ op ∈ [voteOf 0, voteOf 1], ∀ db db' : WorkerDatabase,
      db.workerRequestVote op = .ok db' → workerSystem.step db (.workerRequestVote op) db' :=
    fun _ _ _ _ hvote => hvote
  exact hboth.operations hevents (.of_forall (fun _ _ => trivial) _ _)
    (eq_ok_of_isSome (d := {}) (by decide +kernel))

end runs

end WorkerDatabase

open WorkerDatabase in
/-- While no votes are divided by zero and no request is closed with votes, totals are those of the
votes, votes are always counted, they go with their requests, and a cashout keeps to equal shares of
the pool. -/
theorem worker_requests_right {db : WorkerDatabase} (h : workerSystem.Reach Careful db) :
    (∀ r ∈ db.requests.rows,
      r.stakeTotal = db.votedStake r.post ∧ r.stakeRshares = db.votedRshares r.post) ∧
    ((∀ r ∈ db.dueRequests, ¬db.IsApproved r → db.Voteless r.post) →
      ((∃ db', db.processWorkerVotes = .ok db') ↔ ∀ r ∈ db.dueRequests, db.IsCountable r)) ∧
    (∀ e db', db.Careful e → db.Step e db' → (∀ op, e ≠ .workerRequestVote op) →
      db.ClearsClosed db') ∧
    ∀ db', db.processWorkerCashout = .ok db' → ∃ payment, db.PaysOut payment db' ∧
      ∀ r ∈ db.payingRequests,
        (r.payOff (payment r)).remainingPayment.amount = r.remainingPayment.amount - payment r ∧
        ((r.payOff (payment r)).state = .paymentComplete ↔
          (r.payOff (payment r)).remainingPayment.amount = 0) := by
  have hkept := kept_of_reach h
  refine ⟨fun r hr => ⟨hkept.tallied.stakeTotal r hr, hkept.tallied.stakeRshares r hr⟩,
    processWorkerVotes_total_iff hkept.tallied,
    fun e db' hcareful hstep => clearsClosed_of_step hkept hcareful hstep, fun db' hcashout => ?_⟩
  obtain ⟨⟨payment, hpays⟩, -⟩ :=
    paysOut_of_processWorkerCashout hkept.tallied hkept.funded.pool hcashout
  refine ⟨payment, hpays, fun r hr => ?_⟩
  obtain ⟨hrow, hpaying⟩ := mem_payingRequests.mp hr
  have hpaid := WorkerRequestObject.payOff_complete_iff (hkept.tallied.sound r hrow) hpaying
    (hpays.le_share r hr).2.1
  exact ⟨hpaid.1, hpaid.2.1⟩

open WorkerDatabase in
theorem worker_requests_right_approved : ∃ db', approved.processWorkerCashout = .ok db' ∧
    ∃ payment, approved.PaysOut payment db' ∧
      ∀ r ∈ approved.payingRequests, payment r ≤ r.remainingPayment.amount := by
  have hcashout : approved.processWorkerCashout = .ok _ :=
    eq_ok_of_isSome (d := {}) (by decide +kernel)
  obtain ⟨payment, hpays, -⟩ := (worker_requests_right reach_approved).2.2.2 _ hcashout
  exact ⟨_, hcashout, payment, hpays, fun r hr => (hpays.le_share r hr).2.1⟩

open WorkerDatabase in
/-- A request without votes divides by zero where no votes are needed. A request that is deleted
keeps its votes, and the request for the first comment loses those that its totals count. -/
theorem worker_requests_of_ignored :
    (workerSystem.Reachable ignored ∧
      ignored.processWorkerVotes = .error (.internalError "Division by zero.")) ∧
    ∃ db', workerSystem.Reachable bothVoted ∧ bothVoted.workerRequestDelete ⟨"alice", 1⟩ = .ok db' ∧
      bothVoted.Closes db' 1 ∧ db'.HasVotes 1 ∧ ¬bothVoted.ClearsClosed db' ∧
      ∃ r ∈ db'.requests.rows, r.post = 0 ∧ r.stakeTotal ≠ db'.votedStake 0 := by
  have hdelete : bothVoted.workerRequestDelete ⟨"alice", 1⟩ = .ok _ :=
    eq_ok_of_isSome (d := {}) (by decide +kernel)
  have hcloses : bothVoted.Closes (orDefault (bothVoted.workerRequestDelete ⟨"alice", 1⟩)) 1 := by
    decide +kernel
  have hvotes : (orDefault (bothVoted.workerRequestDelete ⟨"alice", 1⟩)).HasVotes 1 := by
    decide +kernel
  refine ⟨⟨reachable_ignored, eq_error_of_error? (by decide +kernel)⟩, _, reachable_bothVoted,
    hdelete, hcloses, hvotes, fun hclears => ?_, by decide +kernel⟩
  obtain ⟨v, hv, hpost⟩ := hvotes
  exact ((hclears v).mp hv).2 (hpost ▸ hcloses)

end Golos
