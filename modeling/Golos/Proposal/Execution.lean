import Golos.Lib.Sorting
import Golos.Proposal.Lemmas.Execution

/-!
This module contains what execution means for proposals: all of one or nothing, once, and at its
expiration at the latest.
-/

namespace Golos

open Checked ChainAction

variable {W O : Type} (c : Chain W O)

namespace Execution

/-- The proposals that `clear_expired_proposals` has before it. -/
def expiredIds (e : Execution W O) : List Nat :=
  (e.db.proposals.rows.filter fun p => p.expirationTime ≤ e.db.headBlockTime).map ProposalObject.id

theorem mem_expiredIds {e : Execution W O} {p : ProposalObject O} (hp : p ∈ e.db.proposals.rows)
    (h : p.expirationTime ≤ e.db.headBlockTime) : p.id ∈ e.expiredIds :=
  List.mem_map_of_mem (List.mem_filter.mpr ⟨hp, by simpa using h⟩)

theorem Progress.expired_lt {e e' : Execution W O} {cost : ℤ} (h : e.Progress e' cost)
    {p : ProposalObject O} (hp : p ∈ e.db.proposals.rows)
    (hexpired : p.expirationTime ≤ e.db.headBlockTime)
    (hgone : e'.db.proposals.find? p.id = none) :
    e'.expiredIds.length < e.expiredIds.length := by
  have hnodup : e'.expiredIds.Nodup :=
    e'.db.proposals.nodup.sublist (List.filter_sublist.map ProposalObject.id)
  have hmem := mem_expiredIds hp hexpired
  have hsub : e'.expiredIds ⊆ e.expiredIds.erase p.id := by
    intro id hid
    obtain ⟨p', hp', rfl⟩ := List.mem_map.mp hid
    obtain ⟨hp', hexpired'⟩ := List.mem_filter.mp hp'
    rw [decide_eq_true_eq, h.headBlockTime] at hexpired'
    have hne : p'.id ≠ p.id := by
      intro heq
      have := Table.find?_of_mem hp'
      rw [heq, hgone] at this
      cases this
    obtain ⟨q, hq, hid, htime⟩ := h.expired p' hp' hexpired'
    rw [List.mem_erase_of_ne hne, ← hid]
    apply mem_expiredIds hq
    rw [htime]
    exact hexpired'
  have hle := (List.subperm_of_subset hnodup hsub).length_le
  rw [List.length_erase_of_mem hmem] at hle
  have := List.length_pos_of_mem hmem
  omega

theorem byExpiration_nil {db : ProposalDatabase W O} (h : db.byExpiration = []) :
    db.proposals.rows = [] := by
  have := List.perm_insertionSort (fun p p' : ProposalObject O => p.expirationTime ≤ p'.expirationTime)
    db.proposals.rows
  unfold ProposalDatabase.byExpiration at h
  rw [h] at this
  exact this.nil_eq.symm

/-- The first proposal of the index expires first. -/
theorem head_le {db : ProposalDatabase W O} {p : ProposalObject O} {rest : List (ProposalObject O)}
    (h : db.byExpiration = p :: rest) :
    ∀ p' ∈ db.proposals.rows, p.expirationTime ≤ p'.expirationTime := by
  intro p' hp'
  have hsorted := List.pairwise_insertionSort_of
    (fun p p' : ProposalObject O => p.expirationTime ≤ p'.expirationTime) (l := db.proposals.rows)
    (fun a _ b _ => le_total _ _) (fun a _ b _ c _ => le_trans)
  have hmem := (List.perm_insertionSort
    (fun p p' : ProposalObject O => p.expirationTime ≤ p'.expirationTime)
    db.proposals.rows).mem_iff.mpr hp'
  change p' ∈ db.byExpiration at hmem
  change db.byExpiration.Pairwise _ at hsorted
  rw [h] at hsorted hmem
  rcases List.mem_cons.mp hmem with rfl | hmem
  . exact le_refl _
  . exact (List.pairwise_cons.mp hsorted).1 p' hmem

end Execution

/-- One turn of the loop: the first proposal is executed, or it is left to be removed. -/
theorem spec_pushExpired (levels : Nat) {e : Execution W O} (he : e.Valid)
    (hexecuting : e.executing = []) {p : ProposalObject O}
    (hp : e.db.proposals.find? p.id = some p) :
    Effect.Spec (OperationNotification.Harmless c)
      (tryCatch
        (do
          if c.isAuthorizedToExecute e.db p then
            pushProposal (applyOperation c levels) p.id
            pure true
          else
            pure false)
        (pure false)) e
      (fun pushed e₁ =>
        (pushed = true ∧ e.Progress e₁ 0 ∧ e₁.db.proposals.find? p.id = none) ∨
          (pushed = false ∧ e.Same e₁))
      fun _ _ => ¬e.pending ≤ levels := by
  apply Effect.Spec.handle
  split
  . apply Effect.Spec.bind
    apply ((Sound.applyOperation c levels).pushProposal he hp (by simp [hexecuting])).mono
    . intro _ e₁ he₁
      exact .pure (.inl ⟨rfl, he₁.1, he₁.2.1⟩)
    . intro i e₁ hi
      cases i with
      | exception ex => exact .pure (.inr ⟨rfl, hi.2⟩)
      | dangling => exact absurd rfl hi.1.1
      | stackOverflow => exact .fail fun hneed => hi.1.2 hneed rfl
  . exact .pure (.inr ⟨rfl, rfl, rfl⟩)

theorem spec_clearExpiredProposals (levels turns : Nat) {e : Execution W O} (he : e.Valid)
    (hexecuting : e.executing = []) :
    Effect.Spec (OperationNotification.Harmless c) (clearExpiredProposals c levels turns) e
      (fun _ e' => e'.db.Valid ∧
        ∀ p ∈ e'.db.proposals.rows, e.db.headBlockTime < p.expirationTime)
      fun _ _ => e.pending ≤ levels → e.expiredIds.length < turns → False := by
  induction turns generalizing e with
  | zero =>
    apply Effect.Spec.fail
    intro _ hlt
    omega
  | succ turns ih =>
    unfold clearExpiredProposals
    apply Effect.Spec.bind
    apply Effect.Spec.read
    split
    . next h =>
      apply Effect.Spec.pure
      refine ⟨he.db, ?_⟩
      rw [Execution.byExpiration_nil h]
      simp
    . next p rest h =>
      split
      . next hexpired =>
        have hperm := List.perm_insertionSort
          (fun p p' : ProposalObject O => p.expirationTime ≤ p'.expirationTime) e.db.proposals.rows
        have hmem : p ∈ e.db.proposals.rows := by
          apply hperm.mem_iff.mp
          change p ∈ e.db.byExpiration
          rw [h]
          exact List.mem_cons_self
        have hp := Table.find?_of_mem hmem
        have hrest : ∀ e₁ : Execution W O, e.Progress e₁ 0 → e₁.db.proposals.find? p.id = none →
            Effect.Spec (OperationNotification.Harmless c) (clearExpiredProposals c levels turns) e₁
              (fun _ e' => e'.db.Valid ∧
                ∀ p ∈ e'.db.proposals.rows, e.db.headBlockTime < p.expirationTime)
              fun _ _ => e.pending ≤ levels → e.expiredIds.length < turns + 1 → False := by
          intro e₁ he₁ hgone
          apply (ih he₁.valid (he₁.executing.trans hexecuting)).mono
          . intro _ e' he'
            rw [← he₁.headBlockTime]
            exact he'
          . intro _ _ hfail hpending hturns
            have := he₁.expired_lt hmem hexpired hgone
            have := he₁.pending
            exact hfail (by omega) (by omega)
        apply Effect.Spec.bind
        apply (spec_pushExpired c levels he hexecuting hp).mono
        . intro pushed e₁ he₁
          rcases he₁ with ⟨rfl, hprogress, hgone⟩ | ⟨rfl, hsame⟩
          . exact hrest e₁ hprogress hgone
          . have hp₁ : e₁.db.proposals.find? p.id = some p := by rw [hsame.db, hp]
            have hid : p.id ∉ e₁.executing := by simp [hsame.executing, hexecuting]
            have he₁ := hsame.valid he
            apply Effect.Spec.bind
            apply spec_remove he₁.db hp₁
            apply hrest
            . exact (hsame.progress he).trans (.remove he₁ hid)
            . exact Table.find?_erase_self _ _
        . intro _ _ hfail hpending _
          exact hfail hpending
      . next hexpired =>
        apply Effect.Spec.pure
        refine ⟨he.db, ?_⟩
        intro p' hp'
        have := Execution.head_le h p' hp'
        omega

theorem ProposalDatabase.Valid.start {db : ProposalDatabase W O} (h : db.Valid)
    (isProducing : Bool) : (db.start isProducing).Valid :=
  ⟨h, by simp [ProposalDatabase.start]⟩

theorem ProposalDatabase.Valid.step {db db' : ProposalDatabase W O} {event : ProposalEvent O}
    (h : db.Valid) (hharmless : db.HarmlessEvent c event) (hstep : db.Step c event db') :
    db'.Valid := by
  cases event with
  | transaction isProducing levels ops =>
    obtain ⟨hresult, rfl⟩ := hstep
    have hspec : Effect.Spec (OperationNotification.Harmless c)
        (session (applyTransactionOperations c (applyOperation c levels) ops))
        (db.start isProducing) (fun _ e' => e'.db.Valid) fun _ _ => True := by
      apply Effect.Spec.undoOnError
      apply ((Sound.applyOperation c levels).applyTransactionOperations c (h.start _) ops).mono
      . exact fun _ _ he' => he'.valid.db
      . exact fun _ _ _ => trivial
    exact hspec.of_ok hharmless hresult
  | clearExpiredProposals isProducing levels turns =>
    obtain ⟨hresult, rfl⟩ := hstep
    exact ((spec_clearExpiredProposals c levels turns (h.start isProducing) rfl).of_ok hharmless
      hresult).1
  | other =>
    obtain ⟨world, headBlockTime, _, rfl⟩ := hstep
    exact ⟨h.ids, h.approvals⟩

theorem ProposalDatabase.valid_of_reach {db : ProposalDatabase W O}
    (h : (proposalSystem c).Reach (ProposalDatabase.HarmlessEvent c) db) : db.Valid := by
  apply h.invariant
  . rintro db ⟨hproposals, happrovals⟩
    constructor
    . simp [hproposals]
    . simp [happrovals]
  . intro db event db' hdb hharmless hstep
    exact hdb.step c hharmless hstep

theorem allOrNothing_of_valid {db : ProposalDatabase W O} (h : db.Valid) (isProducing : Bool)
    {p : ProposalObject O} (hp : p ∈ db.proposals.rows) {levels : Nat}
    (hlevels : (db.start isProducing).pending ≤ levels)
    (hharmless : ∀ n ∈ (pushProposal (applyOperation c levels) p.id (db.start isProducing)).notes,
      n.Harmless c) :
    AllOrNothing (applyOperation c levels) (db.start isProducing) p := by
  have hspec := (Sound.applyOperation c levels).pushProposal (h.start isProducing)
    (Table.find?_of_mem hp) List.not_mem_nil
  cases hresult : (pushProposal (applyOperation c levels) p.id (db.start isProducing)).result with
  | ok u => exact .inl ⟨hresult, (hspec.of_ok hharmless hresult).2.2⟩
  | error i =>
    obtain ⟨hi, hsame⟩ := hspec.of_error hharmless hresult
    cases i with
    | exception ex => exact .inr ⟨ex, hresult, hsame.db⟩
    | dangling => exact absurd rfl hi.1
    | stackOverflow => exact absurd rfl (hi.2 hlevels)

/--
In every state of a run without harmful operations: a proposal whose operations do no harm either is
executed completely or not at all, and clearing the expired proposals ends and leaves none of them.
-/
theorem proposals_of_reach {db : ProposalDatabase W O}
    (h : (proposalSystem c).Reach (ProposalDatabase.HarmlessEvent c) db) (isProducing : Bool) :
    (∀ p ∈ db.proposals.rows, ∃ least, ∀ levels, least ≤ levels →
      (∀ n ∈ (pushProposal (applyOperation c levels) p.id (db.start isProducing)).notes,
        n.Harmless c) →
      AllOrNothing (applyOperation c levels) (db.start isProducing) p) ∧
    ∃ least, ∀ levels turns, least ≤ levels → least ≤ turns →
      (∀ n ∈ (clearExpiredProposals c levels turns (db.start isProducing)).notes, n.Harmless c) →
      (clearExpiredProposals c levels turns (db.start isProducing)).result = .ok () ∧
        ∀ p ∈ (clearExpiredProposals c levels turns (db.start isProducing)).state.db.proposals.rows,
          db.headBlockTime < p.expirationTime := by
  have hdb := ProposalDatabase.valid_of_reach c h
  have hpending : ∀ least : Nat, (db.start isProducing).pending.toNat ≤ least →
      (db.start isProducing).pending ≤ least := by
    intro least hleast
    omega
  constructor
  . intro p hp
    refine ⟨(db.start isProducing).pending.toNat, ?_⟩
    intro levels hlevels
    exact allOrNothing_of_valid c hdb isProducing hp (hpending levels hlevels)
  . refine ⟨max (db.start isProducing).pending.toNat ((db.start isProducing).expiredIds.length + 1),
      ?_⟩
    intro levels turns hlevels hturns hharmless
    have hspec := spec_clearExpiredProposals c levels turns (hdb.start isProducing) rfl
    cases hresult : (clearExpiredProposals c levels turns (db.start isProducing)).result with
    | ok u => exact ⟨rfl, (hspec.of_ok hharmless hresult).2⟩
    | error i =>
      exact absurd (hspec.of_error hharmless hresult (hpending levels (by omega)) (by omega)) id

theorem reach_pushTransaction {ok : ProposalDatabase W O → ProposalEvent O → Prop}
    {db : ProposalDatabase W O} (h : (proposalSystem c).Reach ok db) {isProducing : Bool}
    {levels : Nat} {ops : List (Operation O)} (hok : ok db (.transaction isProducing levels ops))
    (hresult : (db.pushTransaction c isProducing levels ops).result = .ok ()) :
    (proposalSystem c).Reach ok (db.pushTransaction c isProducing levels ops).state.db :=
  .step h hok ⟨hresult, rfl⟩

section examples

/-- A chain whose other operations do nothing and require the active authority of alice. -/
def aliceChain : Chain Unit Unit where
  flatSet := List.dedup
  mem_flatSet := List.mem_dedup
  nodup_flatSet := List.nodup_dedup
  hasAccount _ _ := true
  getters _ :=
    { getActive := fun _ => .ok { weightThreshold := 1 }
      getOwner := fun _ => .ok { weightThreshold := 1 }
      getPosting := fun _ => .ok { weightThreshold := 1 } }
  requiredAuthorities _ := { active := ["alice"] }
  applyOther _ _ _ := (.ok (), ())
  beginTransaction _ _ _ := (.ok (), ())

def beforeProposals : ProposalDatabase Unit Unit where
  world := ()
  headBlockTime := 1000

def ProposalDatabase.afterOperation (db : ProposalDatabase Unit Unit) (op : Operation Unit) :
    ProposalDatabase Unit Unit :=
  (db.pushTransaction aliceChain false 9 [op]).state.db

def createAliceProposal : Operation Unit :=
  .proposalCreate "alice" "t" "" 2000 none [.other ()]

def createBobProposal : Operation Unit :=
  .proposalCreate "bob" "u" "" 2000 none [.proposalDelete ⟨"alice", "t", "alice"⟩]

/-- What this proposes is the approval that bob's proposal waits for. -/
def createApprovingProposal : Operation Unit :=
  .proposalCreate "alice" "t" "" 2000 none
    [.proposalUpdate { author := "bob", title := "u", activeApprovalsToAdd := ["alice"] }]

def deleteAliceProposal : Operation Unit :=
  .proposalDelete ⟨"alice", "t", "alice"⟩

def afterCreations : ProposalDatabase Unit Unit :=
  (beforeProposals.afterOperation createAliceProposal).afterOperation createBobProposal

def afterApproving : ProposalDatabase Unit Unit :=
  (afterCreations.afterOperation deleteAliceProposal).afterOperation createApprovingProposal

theorem proposals_of_reach_alice :
    ∃ p ∈ (beforeProposals.afterOperation createAliceProposal).proposals.rows, ∃ least, ∀ levels,
      least ≤ levels → AllOrNothing (applyOperation aliceChain levels)
        ((beforeProposals.afterOperation createAliceProposal).start true) p := by
  have hreach : (proposalSystem aliceChain).Reach (ProposalDatabase.HarmlessEvent aliceChain)
      (beforeProposals.afterOperation createAliceProposal) :=
    reach_pushTransaction aliceChain (.initial ⟨rfl, rfl⟩) (by decide +kernel) (by decide +kernel)
  refine ⟨_, List.mem_cons_self, ?_⟩
  obtain ⟨least, h⟩ := (proposals_of_reach aliceChain hreach true).1 _ List.mem_cons_self
  refine ⟨least + 1, ?_⟩
  intro levels hlevels
  apply h levels (by omega)
  obtain ⟨n, rfl⟩ := Nat.exists_eq_add_of_le' (Nat.le_of_add_left_le hlevels)
  intro n hn
  rw [List.mem_singleton.mp hn]
  trivial

/-- The last proposal approves bob's, whose execution deletes the proposal that approves. -/
theorem pushProposal_follows_dangling :
    ∃ db : ProposalDatabase Unit Unit, (proposalSystem aliceChain).Reachable db ∧
      ∃ p ∈ db.proposals.rows, ∀ levels, 4 ≤ levels →
        ¬AllOrNothing (applyOperation aliceChain levels) (db.start false) p := by
  have h₁ : (proposalSystem aliceChain).Reachable
      (beforeProposals.afterOperation createAliceProposal) :=
    reach_pushTransaction aliceChain (.initial ⟨rfl, rfl⟩) trivial rfl
  have h₂ : (proposalSystem aliceChain).Reachable afterCreations :=
    reach_pushTransaction aliceChain h₁ trivial rfl
  have h₃ : (proposalSystem aliceChain).Reachable
      (afterCreations.afterOperation deleteAliceProposal) :=
    reach_pushTransaction aliceChain h₂ trivial rfl
  have h₄ : (proposalSystem aliceChain).Reachable afterApproving :=
    reach_pushTransaction aliceChain h₃ trivial rfl
  refine ⟨afterApproving, h₄, _, List.mem_cons_of_mem _ List.mem_cons_self, ?_⟩
  intro levels hlevels
  obtain ⟨n, rfl⟩ := Nat.exists_eq_add_of_le' hlevels
  have hdangling : (pushProposal (applyOperation aliceChain (n + 4)) 2
      (afterApproving.start false)).result = .error .dangling := rfl
  rintro (⟨hok, _⟩ | ⟨ex, herror, _⟩)
  . cases hdangling.symm.trans hok
  . cases hdangling.symm.trans herror

end examples

end Golos
