import Golos.Proposal.Run

/-!
This module contains what the application of an operation keeps while proposals are in execution, as
long as no operation removes or starts again a proposal that is being executed.
-/

namespace Golos

open Checked ChainAction

variable {W O : Type}

namespace ProposalDatabase

/-- Every required approval is about a proposal there is, and about an account it requires. -/
structure Valid (db : ProposalDatabase W O) : Prop where
  ids : ∀ p ∈ db.proposals.rows, p.id < db.nextProposalId
  approvals : ∀ r ∈ db.requiredApprovals.rows,
    ∃ p, db.proposals.find? r.proposal = some p ∧ r.account ∈ p.requiredTotal

theorem mem_of_findProposal {db : ProposalDatabase W O} {author : AccountName} {title : String}
    {p : ProposalObject O} (h : db.findProposal author title = some p) :
    p ∈ db.proposals.rows :=
  List.mem_of_find?_eq_some h

theorem rows_removeApprovals (db : ProposalDatabase W O) (id : Nat) (accounts : List AccountName) :
    (db.removeApprovals id accounts).requiredApprovals.rows =
      db.requiredApprovals.rows.filter fun r => !(r.proposal = id && r.account ∈ accounts) := by
  unfold removeApprovals
  generalize db.requiredApprovals = t
  induction accounts generalizing t with
  | nil => simp
  | cons account accounts ih =>
    rw [List.foldl_cons, ih]
    simp only [Table.erase, Table.filter, List.filter_filter]
    apply List.filter_congr
    intro r _
    simp only [RequiredApprovalObject.byAccount, List.mem_cons]
    grind

/-- All required approvals of the proposal go with it. -/
theorem removeApprovals_eq {db : ProposalDatabase W O} (hdb : db.Valid) {p : ProposalObject O}
    (hp : db.proposals.find? p.id = some p) :
    db.removeApprovals p.id p.requiredTotal =
      { db with requiredApprovals := db.requiredApprovals.filter (·.proposal ≠ p.id) } := by
  have hrows := db.rows_removeApprovals p.id p.requiredTotal
  have : (db.removeApprovals p.id p.requiredTotal).requiredApprovals =
      db.requiredApprovals.filter (·.proposal ≠ p.id) := by
    apply Table.ext_rows
    rw [hrows]
    apply List.filter_congr
    intro r hr
    obtain ⟨p', hp', haccount⟩ := hdb.approvals r hr
    by_cases hid : r.proposal = p.id
    . rw [hid, hp] at hp'
      injection hp' with hp'
      subst hp'
      simp [hid, haccount]
    . simp [hid]
  rw [← this]
  rfl

end ProposalDatabase

namespace Execution

/-- The proposals in execution still exist. -/
structure Valid (e : Execution W O) : Prop where
  db : e.db.Valid
  executing : ∀ id ∈ e.executing, (e.db.proposals.find? id).isSome

/-- What is left to apply of the proposals that are not being executed. -/
noncomputable def pending (e : Execution W O) : ℤ :=
  e.db.proposals.sum fun p =>
    if p.id ∈ e.executing then 0 else (sizeOf p.proposedOperations : ℤ)

/-- What an action that succeeds keeps, and by how much it may add to what is pending. -/
structure Progress (e e' : Execution W O) (cost : ℤ) : Prop where
  valid : e'.Valid
  executing : e'.executing = e.executing
  headBlockTime : e'.db.headBlockTime = e.db.headBlockTime
  pending : e'.pending ≤ e.pending + cost
  expired : ∀ p' ∈ e'.db.proposals.rows, p'.expirationTime ≤ e.db.headBlockTime →
    ∃ p ∈ e.db.proposals.rows, p.id = p'.id ∧ p.expirationTime = p'.expirationTime

theorem Progress.refl {e : Execution W O} (h : e.Valid) : e.Progress e 0 where
  valid := h
  executing := rfl
  headBlockTime := rfl
  pending := by omega
  expired := by
    intro p hp _
    exact ⟨p, hp, rfl, rfl⟩

theorem Progress.trans {e e₁ e₂ : Execution W O} {c₁ c₂ : ℤ} (h₁ : e.Progress e₁ c₁)
    (h₂ : e₁.Progress e₂ c₂) : e.Progress e₂ (c₁ + c₂) where
  valid := h₂.valid
  executing := h₂.executing.trans h₁.executing
  headBlockTime := h₂.headBlockTime.trans h₁.headBlockTime
  pending := by
    have := h₁.pending
    have := h₂.pending
    omega
  expired := by
    intro p₂ hp₂ hexpired
    obtain ⟨p₁, hp₁, hid₁, htime₁⟩ := h₂.expired p₂ hp₂ (by rw [h₁.headBlockTime]; exact hexpired)
    obtain ⟨p, hp, hid, htime⟩ := h₁.expired p₁ hp₁ (by rw [htime₁]; exact hexpired)
    exact ⟨p, hp, hid.trans hid₁, htime.trans htime₁⟩

theorem Progress.mono {e e' : Execution W O} {c c' : ℤ} (h : e.Progress e' c) (hle : c ≤ c') :
    e.Progress e' c' where
  valid := h.valid
  executing := h.executing
  headBlockTime := h.headBlockTime
  pending := by
    have := h.pending
    omega
  expired := h.expired

/-- The same database and the same proposals in execution. -/
structure Same (e e' : Execution W O) : Prop where
  db : e'.db = e.db
  executing : e'.executing = e.executing

theorem Same.pending {e e' : Execution W O} (h : e.Same e') : e'.pending = e.pending := by
  unfold Execution.pending
  rw [h.db, h.executing]

theorem Same.valid {e e' : Execution W O} (h : e.Same e') (he : e.Valid) : e'.Valid where
  db := h.db ▸ he.db
  executing := by
    rw [h.db, h.executing]
    exact he.executing

theorem Same.progress {e e' : Execution W O} (h : e.Same e') (he : e.Valid) : e.Progress e' 0 where
  valid := h.valid he
  executing := h.executing
  headBlockTime := by rw [h.db]
  pending := by
    rw [h.pending]
    omega
  expired := by
    rw [h.db]
    intro p hp _
    exact ⟨p, hp, rfl, rfl⟩

theorem Same.symm {e e' : Execution W O} (h : e.Same e') : e'.Same e where
  db := h.db.symm
  executing := h.executing.symm

theorem Progress.congr {e e' e₁ e₁' : Execution W O} {cost : ℤ} (h : e.Progress e' cost)
    (hbefore : e.Same e₁) (hafter : e'.Same e₁') : e₁.Progress e₁' cost where
  valid := hafter.valid h.valid
  executing := by rw [hbefore.executing, hafter.executing, h.executing]
  headBlockTime := by rw [hbefore.db, hafter.db, h.headBlockTime]
  pending := by
    rw [hbefore.pending, hafter.pending]
    exact h.pending
  expired := by
    rw [hbefore.db, hafter.db]
    exact h.expired

theorem pending_nonneg (e : Execution W O) : 0 ≤ e.pending := by
  apply Table.sum_nonneg
  intro p _
  split
  . exact le_refl 0
  . exact Int.natCast_nonneg _

/-- Removing a proposal, with what was pending of it when it is being executed. -/
theorem pending_erase {e : Execution W O} {id : Nat} {db : ProposalDatabase W O}
    (h : db.proposals = e.db.proposals.erase id) :
    Execution.pending { e with db := db } =
      Execution.pending { e with executing := id :: e.executing } := by
  unfold pending
  simp only [h]
  rw [Table.sum_erase_ite]
  apply Table.sum_congr
  intro p _
  simp only [List.mem_cons]
  by_cases hid : p.id = id
  . simp [hid]
  . simp [hid]

theorem pending_cons_le (e : Execution W O) (id : Nat) :
    Execution.pending { e with executing := id :: e.executing } ≤ e.pending := by
  apply Table.sum_le_sum
  intro p _
  simp only [List.mem_cons]
  by_cases hid : p.id = id
  . rw [if_pos (.inl hid)]
    split
    . exact le_refl 0
    . exact Int.natCast_nonneg _
  . simp [hid]

/-- Taking a proposal in execution takes what it does from what is pending. -/
theorem pending_execute {e : Execution W O} {p : ProposalObject O}
    (hp : e.db.proposals.find? p.id = some p) (hid : p.id ∉ e.executing) :
    Execution.pending { e with executing := p.id :: e.executing } +
      sizeOf p.proposedOperations = e.pending := by
  rw [← pending_erase (rfl : ({ e.db with proposals := e.db.proposals.erase p.id } :
    ProposalDatabase W O).proposals = _)]
  unfold pending
  rw [Table.sum_erase _ _ hp, if_neg hid]
  exact Int.sub_add_cancel _ _

end Execution

namespace ProposalDatabase

theorem Valid.withoutProposal {db : ProposalDatabase W O} (h : db.Valid) (id : Nat) :
    (db.withoutProposal id).Valid where
  ids := by
    intro p hp
    exact h.ids p (Table.mem_erase.mp hp).1
  approvals := by
    intro r hr
    obtain ⟨hr, hne⟩ := Table.mem_filter.mp hr
    rw [decide_eq_true_eq] at hne
    obtain ⟨p, hp, haccount⟩ := h.approvals r hr
    exact ⟨p, by rw [ProposalDatabase.withoutProposal, Table.find?_erase_of_ne _ hne, hp], haccount⟩

end ProposalDatabase

section remove

variable {ok : OperationNotification W O → Prop} {e : Execution W O} {p : ProposalObject O}

theorem remove_eq (he : e.db.Valid) (hp : e.db.proposals.find? p.id = some p) :
    remove p.id e = ⟨[], .ok (), { e with db := e.db.withoutProposal p.id }⟩ := by
  have := ProposalDatabase.removeApprovals_eq he hp
  unfold remove
  change Effect.bind Effect.read _ e = _
  simp only [Effect.bind, Effect.read, hp, Effect.modify, this, List.nil_append]
  rfl

theorem Execution.Progress.remove (he : e.Valid) (hid : p.id ∉ e.executing) :
    e.Progress { e with db := e.db.withoutProposal p.id } 0 where
  valid := by
    refine ⟨he.db.withoutProposal p.id, ?_⟩
    intro id hmem
    have hne : id ≠ p.id := by
      rintro rfl
      exact hid hmem
    change ((e.db.proposals.erase p.id).find? id).isSome
    rw [Table.find?_erase_of_ne _ hne]
    exact he.executing id hmem
  executing := rfl
  headBlockTime := rfl
  pending := by
    rw [Execution.pending_erase rfl, add_zero]
    exact Execution.pending_cons_le e p.id
  expired := by
    intro p' hp' _
    exact ⟨p', (Table.mem_erase.mp hp').1, rfl, rfl⟩

theorem spec_remove {Q : Unit → Execution W O → Prop} {E : Interrupt → Execution W O → Prop}
    {id : Nat} (he : e.db.Valid) (hp : e.db.proposals.find? id = some p)
    (h : Q () { e with db := e.db.withoutProposal id }) : Effect.Spec ok (remove id) e Q E := by
  obtain rfl := Table.key_of_find? hp
  intro _
  rw [remove_eq he hp]
  exact h

end remove

/-- What a fuel of `levels` is enough for. -/
def Interrupt.Avoided (levels : Nat) (need : ℤ) (i : Interrupt) : Prop :=
  i ≠ .dangling ∧ (need ≤ levels → i ≠ .stackOverflow)

/--
The application of one operation, from any state with proposals in execution, when no notification is
of an operation that does harm to them.
-/
def Sound (ok : OperationNotification W O → Prop) (levels : Nat)
    (apply : Operation O → ChainAction W O Unit) : Prop :=
  ∀ op e, e.Valid → Effect.Spec ok (apply op) e (fun _ e' => e.Progress e' (sizeOf op - 1))
    fun i _ => i.Avoided levels (e.pending + sizeOf op)

section push

variable {ok : OperationNotification W O → Prop} {levels : Nat} {e : Execution W O}
variable {apply : Operation O → ChainAction W O Unit} {p : ProposalObject O}

theorem Interrupt.Avoided.mono {need need' : ℤ} {i : Interrupt} (h : i.Avoided levels need)
    (hle : need ≤ need') : i.Avoided levels need' :=
  ⟨h.1, fun hneed => h.2 (le_trans hle hneed)⟩

/-- A level that is used up, for an operation that is used up. -/
theorem Interrupt.Avoided.succ {need need' : ℤ} {i : Interrupt} (h : i.Avoided levels need)
    (hle : need + 1 ≤ need') : i.Avoided (levels + 1) need' := by
  refine ⟨h.1, fun hneed => h.2 ?_⟩
  push_cast at hneed
  omega

theorem Interrupt.avoided_exception (ex : TransactionException) (need : ℤ) :
    (Interrupt.exception ex).Avoided levels need :=
  ⟨by simp, by simp⟩

variable (levels) in
/-- Operations one after the other, each applied in whatever way keeps what its application keeps. -/
theorem spec_forM {β : Type} {f : β → ChainAction W O Unit} {g : β → Operation O}
    (h : ∀ b e, e.Valid → Effect.Spec ok (f b) e (fun _ e' => e.Progress e' (sizeOf (g b) - 1))
      fun i _ => i.Avoided levels (e.pending + sizeOf (g b))) (he : e.Valid) (l : List β) :
    Effect.Spec ok (l.forM f) e (fun _ e' => e.Progress e' (sizeOf (l.map g)))
      fun i _ => i.Avoided levels (e.pending + sizeOf (l.map g)) := by
  apply (Effect.Spec.forM
    (I := fun rest e' => e.Progress e' (sizeOf (l.map g) - sizeOf (rest.map g))) _ _).mono
  . intro _ e' he'
    exact he'.mono (by simp)
  . exact fun _ _ hi => hi
  . intro b rest e₁ he₁
    have hsize : (sizeOf ((b :: rest).map g) : ℤ) = 1 + sizeOf (g b) + sizeOf (rest.map g) := by
      simp [List.cons.sizeOf_spec]
    apply (h b e₁ he₁.valid).mono
    . intro _ e₂ he₂
      apply (he₁.trans he₂).mono
      omega
    . intro i _ hi
      apply hi.mono
      have := he₁.pending
      omega
  . exact (Execution.Progress.refl he).mono (by simp)

theorem Sound.forM (h : Sound ok levels apply) (he : e.Valid) (ops : List (Operation O)) :
    Effect.Spec ok (ops.forM apply) e (fun _ e' => e.Progress e' (sizeOf ops))
      fun i _ => i.Avoided levels (e.pending + sizeOf ops) := by
  have := spec_forM levels (g := id) h he ops
  rw [List.map_id] at this
  exact this

theorem Execution.Valid.execute (he : e.Valid) (hp : e.db.proposals.find? p.id = some p) :
    Execution.Valid { e with executing := p.id :: e.executing } where
  db := he.db
  executing := by
    intro id hid
    rcases List.mem_cons.mp hid with rfl | hid
    . simp [hp]
    . exact he.executing id hid

/-- The end of an execution: the proposal is removed, and so are its operations. -/
theorem Execution.Progress.leave {e₁ : Execution W O} {id : Nat} {cost : ℤ}
    (h : Execution.Progress { e with executing := id :: e.executing } e₁ cost)
    (hid : id ∉ e.executing) :
    e.Progress { e₁ with executing := e.executing, db := e₁.db.withoutProposal id }
      (Execution.pending { e with executing := id :: e.executing } + cost - e.pending) where
  valid := by
    refine ⟨h.valid.db.withoutProposal id, ?_⟩
    intro id' hid'
    have hne : id' ≠ id := by
      rintro rfl
      exact hid hid'
    change ((e₁.db.proposals.erase id).find? id').isSome
    rw [Table.find?_erase_of_ne _ hne]
    apply h.valid.executing
    rw [h.executing]
    exact List.mem_cons_of_mem id hid'
  executing := rfl
  headBlockTime := h.headBlockTime
  pending := by
    have hsame : Execution.Same e₁ { e₁ with executing := id :: e.executing } :=
      ⟨rfl, h.executing.symm⟩
    have := h.pending
    rw [← hsame.pending] at this
    have herase :
        Execution.pending { e₁ with executing := e.executing, db := e₁.db.withoutProposal id } =
          Execution.pending { e₁ with executing := id :: e.executing } :=
      Execution.pending_erase (e := { e₁ with executing := e.executing }) rfl
    omega
  expired := by
    intro p' hp' hexpired
    exact h.expired p' (Table.mem_erase.mp hp').1 hexpired

/-- A proposal that is not being executed yet is executed and removed, or nothing is changed. -/
theorem Sound.pushProposal (h : Sound ok levels apply) (he : e.Valid) {id : Nat}
    (hp : e.db.proposals.find? id = some p) (hid : id ∉ e.executing) :
    Effect.Spec ok (pushProposal apply id) e
      (fun _ e' => e.Progress e' 0 ∧ e'.db.proposals.find? id = none ∧ Executed apply e p e')
      fun i e' => i.Avoided levels e.pending ∧ e.Same e' := by
  obtain rfl := Table.key_of_find? hp
  have hexecute := Execution.pending_execute hp hid
  apply Effect.Spec.bind
  apply Effect.Spec.read
  simp only [hp]
  apply Effect.Spec.bind
  apply Effect.Spec.within
  apply Effect.Spec.undoOnError
  apply (h.forM (he.execute hp) p.proposedOperations).run.mono
  . intro _ e₁ hrun
    obtain ⟨he₁, hresult, hstate⟩ := hrun
    have hsome := he₁.valid.executing p.id (by rw [he₁.executing]; exact List.mem_cons_self)
    obtain ⟨p₁, hp₁⟩ := Option.isSome_iff_exists.mp hsome
    refine spec_remove he₁.valid.db hp₁ ⟨?_, Table.find?_erase_self _ _, ?_⟩
    . apply (he₁.leave hid).mono
      omega
    . exact ⟨e₁, hresult, hstate, hsome, rfl⟩
  . intro i e₁ hi
    refine ⟨hi.mono (by omega), rfl, rfl⟩

end push

section evaluators

variable {ok : OperationNotification W O → Prop} {levels : Nat} {e : Execution W O}
variable {apply : Operation O → ChainAction W O Unit} (c : Chain W O)

theorem Execution.Progress.world (he : e.Valid) (world : W) :
    e.Progress { e with db := { e.db with world := world } } 0 where
  valid := ⟨⟨he.db.ids, he.db.approvals⟩, he.executing⟩
  executing := rfl
  headBlockTime := rfl
  pending := by
    rw [add_zero]
    exact le_refl _
  expired := by
    intro p hp _
    exact ⟨p, hp, rfl, rfl⟩

/-- A check that fails throws an exception. -/
theorem spec_check {Q : Unit → Execution W O → Prop} {p : Prop} [Decidable p] {ex : ChainException}
    {need : ℤ} (h : p → Q () e) :
    Effect.Spec ok (check p ex) e Q fun i _ => i.Avoided levels need :=
  .ensure h (Interrupt.avoided_exception _ _)

theorem spec_check_bind {α : Type} {Q : α → Execution W O → Prop} {p : Prop} [Decidable p]
    {ex : ChainException} {f : Unit → ChainAction W O α} {need : ℤ}
    (h : p → Effect.Spec ok (f ()) e Q fun i _ => i.Avoided levels need) :
    Effect.Spec ok (check p ex >>= f) e Q fun i _ => i.Avoided levels need :=
  .bind (spec_check h)

theorem spec_lift {ε α : Type} {Q : α → Execution W O → Prop} {x : Except ε α}
    {f : ε → TransactionException} {need : ℤ} (h : ∀ a, x = .ok a → Q a e) :
    Effect.Spec ok (Effect.lift (x.mapError fun ex => Interrupt.exception (f ex))) e Q
      fun i _ => i.Avoided levels need := by
  cases x with
  | ok a =>
    apply Effect.Spec.lift
    . rintro _ ⟨⟩
      exact h a rfl
    . rintro _ ⟨⟩
  | error ex =>
    apply Effect.Spec.lift
    . rintro _ ⟨⟩
    . rintro _ ⟨⟩
      exact Interrupt.avoided_exception (f ex) need

theorem spec_otherEvaluator (he : e.Valid) (o : O) (need : ℤ) :
    Effect.Spec ok (otherEvaluator c o) e (fun _ e' => e.Progress e' 0)
      fun i _ => i.Avoided levels need := by
  apply Effect.Spec.bind
  apply Effect.Spec.read
  dsimp only
  apply Effect.Spec.bind
  apply Effect.Spec.modify
  apply spec_lift (f := id)
  intro _ _
  exact .world he _

theorem spec_deleteEvaluator (he : e.Valid) (o : ProposalDeleteOperation) (need : ℤ)
    (hharmless : OperationNotification.Harmless c ⟨e, .proposalDelete o⟩) :
    Effect.Spec ok (deleteEvaluator o) e (fun _ e' => e.Progress e' 0)
      fun i _ => i.Avoided levels need := by
  apply Effect.Spec.bind
  apply Effect.Spec.read
  cases hfind : e.db.findProposal o.author o.title with
  | none => exact .fail (Interrupt.avoided_exception _ _)
  | some p =>
    apply spec_check_bind
    intro hentitled
    have hp := Table.find?_of_mem (ProposalDatabase.mem_of_findProposal hfind)
    have hid : p.id ∉ e.executing := fun hid => hharmless p hfind hid hentitled
    exact spec_remove he.db hp (.remove he hid)

section changeApprovals

variable (t : Table (ProposalObject.id (O := O))) (o : ProposalUpdateOperation) (id : Nat)

theorem find?_changeApprovals (id' : Nat) :
    (t.modify id o.changeApprovals).find? id' =
      if id' = id then (t.find? id').map o.changeApprovals else t.find? id' :=
  Table.find?_modify _ _ _ _ _

theorem exists_of_mem_changeApprovals {p : ProposalObject O}
    (h : p ∈ (t.modify id o.changeApprovals).rows) :
    ∃ p' ∈ t.rows, p'.id = p.id ∧ p'.expirationTime = p.expirationTime := by
  rcases Table.mem_modify.mp h with ⟨hp, _⟩ | ⟨p', hp', _, rfl⟩
  . exact ⟨p, hp, rfl, rfl⟩
  . exact ⟨p', hp', rfl, rfl⟩

/-- The approvals have no part in a sum. -/
theorem sum_changeApprovals {f : ProposalObject O → ℤ} (h : ∀ p, f (o.changeApprovals p) = f p) :
    (t.modify id o.changeApprovals).sum f = t.sum f := by
  cases hfind : t.find? id with
  | none => exact Table.sum_modify_of_none _ _ _ _ hfind
  | some p =>
    refine Eq.trans (Table.sum_modify _ _ _ _ hfind) ?_
    rw [h]
    omega

end changeApprovals

theorem ProposalDatabase.Valid.changeApprovals {db : ProposalDatabase W O} (h : db.Valid)
    (o : ProposalUpdateOperation) (id : Nat) :
    ProposalDatabase.Valid { db with proposals := db.proposals.modify id o.changeApprovals } where
  ids := by
    intro p hp
    obtain ⟨p', hp', hid, _⟩ := exists_of_mem_changeApprovals _ _ _ hp
    rw [← hid]
    exact h.ids p' hp'
  approvals := by
    intro r hr
    obtain ⟨p, hp, haccount⟩ := h.approvals r hr
    have hfind := find?_changeApprovals db.proposals o id r.proposal
    rw [hp] at hfind
    split at hfind
    . exact ⟨_, hfind, haccount⟩
    . exact ⟨p, hfind, haccount⟩

theorem Execution.Progress.changeApprovals (he : e.Valid) (o : ProposalUpdateOperation) (id : Nat) :
    e.Progress
      { e with db := { e.db with proposals := e.db.proposals.modify id o.changeApprovals } } 0 where
  valid := by
    refine ⟨he.db.changeApprovals o id, ?_⟩
    intro id' hid'
    have hsome := he.executing id' hid'
    have hfind := find?_changeApprovals e.db.proposals o id id'
    change ((e.db.proposals.modify id o.changeApprovals).find? id').isSome
    rw [hfind]
    split
    . simpa using hsome
    . exact hsome
  executing := rfl
  headBlockTime := rfl
  pending := by
    rw [add_zero]
    exact le_of_eq (sum_changeApprovals _ _ _ fun p => rfl)
  expired := by
    intro p hp _
    obtain ⟨p', hp', hid, htime⟩ := exists_of_mem_changeApprovals _ _ _ hp
    exact ⟨p', hp', hid, htime⟩

/-- What `proposal_update_evaluator` may meet, told without the notification. -/
def UpdateHarmless (e : Execution W O) (o : ProposalUpdateOperation) : Prop :=
  ∀ p, e.db.findProposal o.author o.title = some p → p.id ∈ e.executing →
    (e.isProducing → e.updateDepth ≤ steemitMaxProposalDepth) →
      o.checkApprovals e.db.headBlockTime p = .ok () →
        c.updateOutcome e.db o (o.changeApprovals p) ≠ .ok .remove ∧
          c.updateOutcome e.db o (o.changeApprovals p) ≠ .ok .execute

theorem Sound.updateEvaluator (h : Sound ok levels apply) (he : e.Valid)
    (o : ProposalUpdateOperation) (hharmless : UpdateHarmless c e o) :
    Effect.Spec ok (updateEvaluator c apply o) e (fun _ e' => e.Progress e' 0)
      fun i _ => i.Avoided levels e.pending := by
  apply Effect.Spec.bind
  apply Effect.Spec.read
  dsimp only
  apply spec_check_bind
  intro hdepth
  cases hfind : e.db.findProposal o.author o.title with
  | none => exact .fail (Interrupt.avoided_exception _ _)
  | some p =>
    have hp := Table.find?_of_mem (ProposalDatabase.mem_of_findProposal hfind)
    apply Effect.Spec.bind
    apply spec_lift (f := TransactionException.exception)
    intro _ hcheck
    have hharmless := fun hid => hharmless p hfind hid hdepth hcheck
    apply Effect.Spec.bind
    apply Effect.Spec.modify
    have hprogress := Execution.Progress.changeApprovals he o p.id
    apply Effect.Spec.bind
    apply Effect.Spec.read
    apply Effect.Spec.bind
    apply spec_lift (f := id)
    intro outcome houtcome
    have hfind₁ := (find?_changeApprovals e.db.proposals o p.id p.id).trans (if_pos rfl)
    rw [hp, Option.map_some] at hfind₁
    cases outcome with
    | keep => exact .pure hprogress
    | remove =>
      have hid : p.id ∉ e.executing := fun hid => (hharmless hid).1 houtcome
      exact spec_remove hprogress.valid.db hfind₁ (hprogress.trans (.remove hprogress.valid hid))
    | execute =>
      have hid : p.id ∉ e.executing := fun hid => (hharmless hid).2 houtcome
      apply Effect.Spec.handle
      apply (h.pushProposal hprogress.valid hfind₁ hid).mono
      . intro _ e' he'
        exact hprogress.trans he'.1
      . intro i e' hi
        obtain ⟨hi, hsame⟩ := hi
        cases i with
        | exception ex => exact .pure (hprogress.trans (hsame.progress hprogress.valid))
        | dangling => exact absurd rfl hi.1
        | stackOverflow =>
          refine .fail (hi.mono ?_)
          have := hprogress.pending
          omega

theorem Sound.applyTransactionOperations (h : Sound ok levels apply) (he : e.Valid)
    (ops : List (Operation O)) :
    Effect.Spec ok (applyTransactionOperations c apply ops) e
      (fun _ e' => e.Progress e' (sizeOf ops))
      fun i _ => i.Avoided levels (e.pending + sizeOf ops) := by
  apply Effect.Spec.bind
  apply Effect.Spec.read
  dsimp only
  apply Effect.Spec.bind
  apply Effect.Spec.modify
  apply Effect.Spec.bind
  apply spec_lift (f := id)
  intro _ _
  have hworld := Execution.Progress.world he
    (c.beginTransaction ops e.db.headBlockTime e.db.world).2
  have hops : ops.zipIdx.map Prod.fst = ops := List.zipIdx_map_fst 0 ops
  refine (spec_forM levels (g := Prod.fst) ?_ hworld.valid ops.zipIdx).mono ?_ ?_
  . intro b e' he'
    apply Effect.Spec.mapError
    apply (h b.1 e' he').mono
    . exact fun _ _ h => h
    . intro i _ hi
      cases i with
      | exception ex => exact Interrupt.avoided_exception _ _
      | dangling => exact hi
      | stackOverflow => exact hi
  . rw [hops]
    intro _ e' he'
    exact (hworld.trans he').mono (by omega)
  . rw [hops]
    intro i _ hi
    apply hi.mono
    have := hworld.pending
    omega

theorem Sound.validateTransaction (h : Sound ok levels apply) (he : e.Valid)
    (ops : List (Operation O)) :
    Effect.Spec ok (validateTransaction c apply ops) e (fun _ e' => e.Same e')
      fun i _ => i.Avoided levels (e.pending + sizeOf ops) := by
  unfold Golos.validateTransaction undoneSession
  apply Effect.Spec.within
  apply (h.applyTransactionOperations c he ops).mono
  . intro _ e' he'
    exact ⟨rfl, he'.executing⟩
  . exact fun _ _ hi => hi

theorem Execution.Progress.createProposal (he : e.Valid)
    {proposals : Table (ProposalObject.id (O := O))} {p : ProposalObject O}
    (hemplace : e.db.proposals.emplace p = some proposals) (hid : p.id = e.db.nextProposalId)
    (htime : e.db.headBlockTime < p.expirationTime) :
    e.Progress { e with db := { e.db with proposals := proposals, nextProposalId := p.id + 1 } }
      (sizeOf p.proposedOperations) := by
  obtain ⟨hnone, rfl⟩ := Table.emplace_eq_some_iff.mp hemplace
  have hfind : ∀ id q, e.db.proposals.find? id = some q →
      (e.db.proposals.insert p hnone).find? id = some q := by
    intro id q hq
    rw [Table.find?_insert]
    split
    . next heq =>
      subst heq
      rw [hnone] at hq
      cases hq
    . exact hq
  constructor
  . refine ⟨⟨?_, ?_⟩, ?_⟩
    . intro q hq
      rcases (Table.mem_insert hnone).mp hq with hq | rfl
      . have := he.db.ids q hq
        change q.id < p.id + 1
        omega
      . exact Nat.lt_succ_self _
    . intro r hr
      obtain ⟨q, hq, haccount⟩ := he.db.approvals r hr
      exact ⟨q, hfind _ q hq, haccount⟩
    . intro id hid
      obtain ⟨q, hq⟩ := Option.isSome_iff_exists.mp (he.executing id hid)
      change ((e.db.proposals.insert p hnone).find? id).isSome
      rw [hfind id q hq]
      rfl
  . rfl
  . rfl
  . change (e.db.proposals.insert p hnone).sum _ ≤ _
    rw [Table.sum_insert]
    change e.pending + _ ≤ _
    split
    . have := Int.natCast_nonneg (sizeOf p.proposedOperations)
      omega
    . exact le_refl _
  . intro q hq hexpired
    rcases (Table.mem_insert hnone).mp hq with hq | rfl
    . exact ⟨q, hq, rfl, rfl⟩
    . omega

theorem spec_createProposal (he : e.Valid) {p : ProposalObject O}
    (hid : p.id = e.db.nextProposalId) (htime : e.db.headBlockTime < p.expirationTime) (need : ℤ) :
    Effect.Spec ok (createProposal p) e
      (fun _ e' => e.Progress e' (sizeOf p.proposedOperations) ∧
        e'.db.proposals.find? p.id = some p)
      fun i _ => i.Avoided levels need := by
  apply Effect.Spec.bind
  apply Effect.Spec.read
  apply spec_check_bind
  intro _
  cases hemplace : e.db.proposals.emplace p with
  | none => exact .fail (Interrupt.avoided_exception _ _)
  | some proposals =>
    apply Effect.Spec.modify
    refine ⟨.createProposal he hemplace hid htime, ?_⟩
    obtain ⟨hnone, rfl⟩ := Table.emplace_eq_some_iff.mp hemplace
    exact Table.find?_of_mem ((Table.mem_insert hnone).mpr (.inr rfl))

theorem spec_createRequiredApproval (he : e.Valid) {p : ProposalObject O} {id : Nat}
    (hp : e.db.proposals.find? id = some p) {account : AccountName}
    (haccount : account ∈ p.requiredTotal) (need : ℤ) :
    Effect.Spec ok (createRequiredApproval id account) e
      (fun _ e' => e.Progress e' 0 ∧ e'.db.proposals = e.db.proposals)
      fun i _ => i.Avoided levels need := by
  apply Effect.Spec.bind
  apply Effect.Spec.read
  cases hemplace : e.db.requiredApprovals.emplace ⟨account, id⟩ with
  | none => exact .fail (Interrupt.avoided_exception _ _)
  | some requiredApprovals =>
    apply Effect.Spec.modify
    refine ⟨⟨⟨⟨he.db.ids, ?_⟩, he.executing⟩, rfl, rfl, ?_, ?_⟩, rfl⟩
    . intro r hr
      obtain ⟨hnone, rfl⟩ := Table.emplace_eq_some_iff.mp hemplace
      rcases (Table.mem_insert hnone).mp hr with hr | rfl
      . exact he.db.approvals r hr
      . exact ⟨p, hp, haccount⟩
    . rw [add_zero]
      exact le_refl _
    . intro q hq _
      exact ⟨q, hq, rfl, rfl⟩

/-- The approvals that `proposal_create_evaluator` notes are all of accounts the proposal requires. -/
theorem spec_createRequiredApprovals (he : e.Valid) {p : ProposalObject O} {id : Nat}
    (hp : e.db.proposals.find? id = some p) {accounts : List AccountName}
    (haccounts : ∀ account ∈ accounts, account ∈ p.requiredTotal) (need : ℤ) :
    Effect.Spec ok (accounts.forM (createRequiredApproval id)) e (fun _ e' => e.Progress e' 0)
      fun i _ => i.Avoided levels need := by
  apply (Effect.Spec.forM (I := fun rest e' => e.Progress e' 0 ∧
    e'.db.proposals.find? id = some p ∧ ∀ account ∈ rest, account ∈ p.requiredTotal) _ _).mono
  . exact fun _ _ h => h.1
  . exact fun _ _ h => h
  . intro account rest e₁ he₁
    obtain ⟨hprogress, hp₁, hrest⟩ := he₁
    apply (spec_createRequiredApproval hprogress.valid hp₁ (hrest account List.mem_cons_self)
      need).mono
    . intro _ e₂ he₂
      refine ⟨hprogress.trans he₂.1, ?_, ?_⟩
      . rw [he₂.2, hp₁]
      . intro account' haccount'
        exact hrest account' (List.mem_cons_of_mem account haccount')
    . exact fun _ _ h => h
  . exact ⟨.refl he, hp, haccounts⟩

theorem Sound.createEvaluator (h : Sound ok levels apply) (he : e.Valid) (author : AccountName)
    (title memo : String) (expirationTime : Nat) (reviewPeriodTime : Option Nat)
    (ops : List (Operation O)) :
    Effect.Spec ok
      (createEvaluator c apply author title memo expirationTime reviewPeriodTime ops) e
      (fun _ e' => e.Progress e' (sizeOf ops))
      fun i _ => i.Avoided levels (e.pending + sizeOf ops) := by
  apply Effect.Spec.bind
  apply Effect.Spec.read
  dsimp only
  apply spec_check_bind
  intro _
  apply spec_check_bind
  intro _
  apply spec_check_bind
  intro htime
  apply spec_check_bind
  intro _
  apply spec_check_bind
  intro _
  apply spec_check_bind
  intro _
  apply spec_check_bind
  intro _
  apply spec_check_bind
  intro _
  apply spec_check_bind
  intro _
  apply spec_check_bind
  intro _
  apply Effect.Spec.bind
  apply (h.validateTransaction c he ops).mono
  . intro _ e₁ hsame
    have hprogress₁ := hsame.progress he
    apply Effect.Spec.bind
    apply Effect.Spec.read
    apply Effect.Spec.bind
    apply (spec_createProposal hprogress₁.valid _ _ _).mono
    . intro _ e₂ he₂
      apply (spec_createRequiredApprovals he₂.1.valid he₂.2 _ _).mono
      . intro _ e₃ he₃
        exact ((hprogress₁.trans he₂.1).trans he₃).mono (by dsimp only; omega)
      . exact fun _ _ h => h
      . intro account haccount
        rw [c.mem_flatSet] at haccount
        simp only [ProposalObject.requiredTotal, List.mem_append] at haccount ⊢
        tauto
    . exact fun _ _ h => h
    . rfl
    . rw [hsame.db]
      exact htime
  . exact fun _ _ h => h

/-- One more level of the stack. -/
theorem Sound.applyOperation (levels : Nat) :
    Sound (OperationNotification.Harmless c) levels (applyOperation c levels) := by
  induction levels with
  | zero =>
    intro op e _
    apply Effect.Spec.fail
    refine ⟨by simp, ?_⟩
    intro hneed
    have := e.pending_nonneg
    have : 0 < sizeOf op := by cases op <;> simp
    omega
  | succ levels ih =>
    intro op e he
    apply Effect.Spec.bind
    apply Effect.Spec.note
    intro hharmless
    cases op with
    | proposalCreate author title memo expirationTime reviewPeriodTime ops =>
      have hsize : (sizeOf ops : ℤ) ≤ sizeOf (Operation.proposalCreate author title memo
          expirationTime reviewPeriodTime ops) - 1 := by
        simp only [Operation.proposalCreate.sizeOf_spec]
        omega
      have hsame : e.Same { e with createDepth := e.createDepth + 1 } := ⟨rfl, rfl⟩
      apply Effect.Spec.within
      apply (ih.createEvaluator c (hsame.valid he) author title memo expirationTime
        reviewPeriodTime ops).mono
      . intro _ e' he'
        refine Execution.Progress.mono ?_ hsize
        apply he'.congr hsame.symm
        exact ⟨rfl, rfl⟩
      . intro i _ hi
        apply hi.succ
        rw [hsame.pending]
        omega
    | proposalUpdate o =>
      have hsize : (0 : ℤ) ≤ sizeOf (Operation.proposalUpdate o : Operation O) - 1 := by
        simp only [Operation.proposalUpdate.sizeOf_spec]
        omega
      have hsame : e.Same { e with updateDepth := e.updateDepth + 1 } := ⟨rfl, rfl⟩
      apply Effect.Spec.within
      apply (ih.updateEvaluator c (hsame.valid he) o hharmless).mono
      . intro _ e' he'
        refine Execution.Progress.mono ?_ hsize
        apply he'.congr hsame.symm
        exact ⟨rfl, rfl⟩
      . intro i _ hi
        apply hi.succ
        rw [hsame.pending]
        omega
    | proposalDelete o =>
      apply (spec_deleteEvaluator c he o _ hharmless).mono
      . intro _ e' he'
        apply he'.mono
        simp only [Operation.proposalDelete.sizeOf_spec]
        omega
      . exact fun _ _ hi => hi
    | other o =>
      apply (spec_otherEvaluator c he o _).mono
      . intro _ e' he'
        apply he'.mono
        simp only [Operation.other.sizeOf_spec]
        omega
      . exact fun _ _ hi => hi

end evaluators

end Golos
