import Golos.Witness.Votes

/-!
This module contains what is done about the votes for witnesses who are idle: they are taken away, and
no others.
-/

namespace Golos.Witness

open Checked

namespace VoteDatabase

variable {db db' : VoteDatabase} {name witness : AccountName} {v : WitnessVoteObject}

/-- Who votes for whom, in the order of the votes. -/
def voteKeys (db : VoteDatabase) : List (AccountName × AccountName) :=
  db.witnessVotes.rows.map WitnessVoteObject.key

theorem voteKeys_removeVote :
    (db.removeVote name witness).voteKeys = db.voteKeys.filter fun k => k ≠ (name, witness) := by
  unfold voteKeys
  rw [List.filter_map]
  rfl

theorem voteKeys_clearIdleVote (hop : db.clearIdleVote v = .ok db') :
    db'.voteKeys = db.voteKeys.filter fun k => k ≠ v.key := by
  unfold clearIdleVote at hop
  simp only [bind_eq_ok, pure_eq_ok] at hop
  obtain ⟨_, -, _, -, db₁, hspread, rfl⟩ := hop
  rw [voteKeys_removeVote]
  unfold voteKeys
  rw [(Recounted.spreadWithout hspread).witnessVotes]
  rfl

/-- A loop each turn of which takes votes away. -/
theorem voteKeys_foldlM {γ : Type} {f : VoteDatabase → γ → Result VoteDatabase}
    (takes : γ → AccountName × AccountName → Prop) [∀ x k, Decidable (takes x k)] {l : List γ}
    (hf : ∀ db db' x, f db x = .ok db' → db'.voteKeys = db.voteKeys.filter fun k => ¬takes x k)
    (hop : l.foldlM f db = .ok db') :
    db'.voteKeys = db.voteKeys.filter fun k => ∀ x ∈ l, ¬takes x k := by
  induction l generalizing db with
  | nil =>
    injection hop with hop
    simp [hop]
  | cons x l ih =>
    rw [List.foldlM_cons, bind_eq_ok] at hop
    obtain ⟨db₁, hx, hop⟩ := hop
    rw [ih hop, hf _ _ _ hx, List.filter_filter]
    apply List.filter_congr
    intro k _
    simp only [List.forall_mem_cons, Bool.decide_and]
    exact Bool.and_comm _ _

theorem mem_byWitnessAccount : v ∈ db.byWitnessAccount witness ↔
    v ∈ db.witnessVotes.rows ∧ v.witness = witness := by
  unfold byWitnessAccount
  rw [(List.perm_insertionSort _ _).mem_iff, List.mem_filter, decide_eq_true_eq]

theorem voteKeys_clearWitness (hop : db.clearWitness witness = .ok db') :
    db'.voteKeys = db.voteKeys.filter fun k => k.2 ≠ witness := by
  rw [voteKeys_foldlM (fun v k => k = v.key) (fun _ _ _ => voteKeys_clearIdleVote) hop]
  apply List.filter_congr
  intro k hk
  apply decide_eq_decide.mpr
  constructor
  . intro hkept hwitness
    obtain ⟨v, hv, rfl⟩ := List.mem_map.mp hk
    exact hkept v (mem_byWitnessAccount.mpr ⟨hv, hwitness⟩) rfl
  . rintro hother v hv rfl
    exact hother (mem_byWitnessAccount.mp hv).2

/--
The check takes away all votes for the idle ones of the witnesses that it looks at and no other votes,
and changes neither proxies nor what accounts vote with.
-/
theorem voteKeys_checkWitnessIdleness {periodically : Bool}
    (hdue : periodically = true →
      db.properties.headBlockNumber % golosWitnessIdlenessCheckInterval = 0 ∧ db.hasHardfork 22)
    (hop : db.checkWitnessIdleness periodically = .ok db') :
    db'.voteKeys = db.voteKeys.filter (fun k => k.2 ∉ db.witnessesToClear periodically) ∧
      SameTree db.voters db'.voters := by
  refine ⟨?_, sameTree_checkWitnessIdleness hop⟩
  unfold VoteDatabase.checkWitnessIdleness at hop
  rw [if_neg] at hop
  . rw [voteKeys_foldlM (fun witness k => k.2 = witness)
      (fun _ _ _ => voteKeys_clearWitness) hop]
    apply List.filter_congr
    intro k _
    simp only [List.forall_mem_ne]
  . rintro ⟨hperiodically, hnot⟩
    obtain ⟨hinterval, hhf⟩ := hdue hperiodically
    exact hnot.elim (fun h => h hinterval) fun h => h hhf

/-- So many hardforks one after the other. -/
def applyHardforks (db : VoteDatabase) (n : Nat) : Result VoteDatabase :=
  (List.replicate n ()).foldlM (fun db _ => db.applyHardfork 0) db

/-- An account with vesting shares votes for the initial witness, after hardfork 22. -/
def approval : Result VoteDatabase := do
  let db ← (initGenesis 1 .empty).createAccount "alice"
  let db ← db.changeVesting "alice" 10 10
  let db ← db.applyHardforks 22
  db.accountWitnessVote ⟨"alice", steemitInitMinerName, true⟩

def approved : VoteDatabase :=
  approval.toOption.getD {}

/-- For twenty days the witness has confirmed no block after the first one. -/
def idle : VoteDatabase :=
  { approved with
    witnesses := approved.witnesses.modifyWhere (fun _ => true) fun w =>
      { w with lastConfirmedBlockNum := 1 }
    properties := { approved.properties with headBlockNumber := 20 * 28800 } }

def cleared : VoteDatabase :=
  (idle.checkWitnessIdleness true).toOption.getD {}

theorem voteKeys_idle : cleared.voteKeys =
      idle.voteKeys.filter (fun k => k.2 ∉ idle.witnessesToClear true) ∧
    SameTree idle.voters cleared.voters :=
  voteKeys_checkWitnessIdleness (fun _ => by decide +kernel) (eq_ok_of_isSome (by decide +kernel))

example : idle.voteKeys = [("alice", steemitInitMinerName)] ∧ cleared.voteKeys = [] := by
  decide +kernel

end VoteDatabase

end Golos.Witness
