import Golos.Witness.Windows

/-!
This module contains the places and the virtual time of the schedule over the runs of the chain: no
witness is ever behind the time, and every new schedule names different witnesses that exist.
-/

namespace Golos.Witness

open Checked

namespace WitnessDatabase

variable {db db' db'' : WitnessDatabase}

section frame

/-- The virtual time, and that of every witness, is the same. -/
structure SameTimes (db db' : WitnessDatabase) : Prop where
  witnesses : WitnessTable.Keeps WitnessObject.virtualScheduledTime db.witnesses db'.witnesses
  current : db'.schedule.currentVirtualTime = db.schedule.currentVirtualTime

theorem InTime.of_same (h : db.InTime) (hsame : db.SameTimes db') : db'.InTime where
  current_le := by
    rw [hsame.current]
    exact h.current_le
  le := by
    intro w hw
    obtain ⟨w₀, hw₀, heq⟩ := hsame.witnesses w hw
    rw [hsame.current, heq]
    exact h.le w₀ hw₀
  le_max := by
    intro w hw
    obtain ⟨w₀, hw₀, heq⟩ := hsame.witnesses w hw
    rw [heq]
    exact h.le_max w₀ hw₀

theorem SameTimes.modifyWitness {name : AccountName} {f : WitnessObject → WitnessObject}
    {hf : ∀ w, (f w).owner = w.owner}
    (hread : ∀ w, (f w).virtualScheduledTime = w.virtualScheduledTime) :
    db.SameTimes (db.modifyWitness name f hf) := by
  constructor
  . apply WitnessTable.Keeps.modify (.refl db.witnesses) hread
    exact hf
  . rfl

theorem InTime.createWitness {w : WitnessObject} (h : db.InTime)
    (htime : w.virtualScheduledTime = maxUint128) (hdb : db.createWitness w = .ok db') :
    db'.InTime := by
  simp only [WitnessDatabase.createWitness, bind_eq_ok, get_eq_ok, pure_eq_ok] at hdb
  obtain ⟨witnesses, hwitnesses, rfl⟩ := hdb
  obtain ⟨hnone, rfl⟩ := Table.emplace_eq_some_iff.mp hwitnesses
  constructor
  . exact h.current_le
  . intro w' hw'
    rcases (Table.mem_insert hnone).mp hw' with hw' | rfl
    . exact h.le w' hw'
    . dsimp only
      rw [htime]
      exact h.current_le
  . intro w' hw'
    rcases (Table.mem_insert hnone).mp hw' with hw' | rfl
    . exact h.le_max w' hw'
    . exact htime.le

theorem inTime_resetVirtualScheduleTime (db : WitnessDatabase) :
    db.resetVirtualScheduleTime.InTime where
  current_le := Nat.zero_le _
  le := fun _ hw => (mem_resetVirtualScheduleTime hw).1
  le_max := fun _ hw => (mem_resetVirtualScheduleTime hw).2

theorem virtualScheduledTime_updateWitness {o : WitnessUpdateOperation} (w : WitnessObject) :
    (db.updateWitness o w).virtualScheduledTime = w.virtualScheduledTime := by
  unfold updateWitness
  rfl

theorem InTime.witnessUpdate {o : WitnessUpdateOperation} (h : db.InTime)
    (hdb : db.witnessUpdate o = .ok db') : db'.InTime := by
  simp only [WitnessDatabase.witnessUpdate, bind_eq_ok] at hdb
  obtain ⟨-, -, -, -, -, -, hdb⟩ := hdb
  split at hdb
  . rw [pure_eq_ok] at hdb
    subst hdb
    exact h.of_same (.modifyWitness virtualScheduledTime_updateWitness)
  . apply h.createWitness _ hdb
    dsimp only
    rw [virtualScheduledTime_updateWitness]

theorem InTime.updateChainProperties {o : ChainPropertiesUpdateOperation} (h : db.InTime)
    (hdb : db.updateChainProperties o = .ok db') : db'.InTime := by
  simp only [WitnessDatabase.updateChainProperties, bind_eq_ok] at hdb
  obtain ⟨-, -, -, -, hdb⟩ := hdb
  split at hdb
  . simp only [bind_eq_ok, pure_eq_ok] at hdb
    obtain ⟨_, -, rfl⟩ := hdb
    exact h.of_same (.modifyWitness fun _ => rfl)
  . simp only [bind_eq_ok] at hdb
    obtain ⟨_, -, hdb⟩ := hdb
    exact h.createWitness rfl hdb

theorem InTime.applyPow {o : PowOperation} (h : db.InTime) (hdb : db.applyPow o = .ok db') :
    db'.InTime := by
  simp only [WitnessDatabase.applyPow, bind_eq_ok] at hdb
  obtain ⟨-, -, -, -, hdb⟩ := hdb
  have hcounted : ∀ properties, { db with properties := properties : WitnessDatabase }.InTime :=
    fun properties => ⟨h.current_le, h.le, h.le_max⟩
  split at hdb
  . simp only [bind_eq_ok, pure_eq_ok] at hdb
    obtain ⟨-, -, rfl⟩ := hdb
    exact (hcounted _).of_same (.modifyWitness fun _ => rfl)
  . exact (hcounted _).createWitness rfl hdb

/-- A witness whose next turn would wrap around waits for the end of the virtual time. -/
theorem InTime.adjustWitnessVote {name : AccountName} {delta : ℤ} (h : db.InTime)
    (hhf : db.hasHardfork 4) (hdb : db.adjustWitnessVote name delta = .ok db') : db'.InTime := by
  simp only [WitnessDatabase.adjustWitnessVote, bind_eq_ok, pure_eq_ok, hhf, true_and] at hdb
  obtain ⟨w, -, votes, -, -, -, rfl⟩ := hdb
  have htime : ∀ time : Nat, db.schedule.currentVirtualTime ≤
        (if time % 2 ^ 128 < db.schedule.currentVirtualTime then maxUint128 else time % 2 ^ 128) ∧
      (if time % 2 ^ 128 < db.schedule.currentVirtualTime then maxUint128 else time % 2 ^ 128)
        ≤ maxUint128 := by
    intro time
    split
    . exact ⟨h.current_le, Nat.le_refl _⟩
    . next hle => exact ⟨Nat.le_of_not_lt hle, mod_le_maxUint128 _⟩
  constructor
  . exact h.current_le
  . intro w' hw'
    unfold WitnessDatabase.modifyWitness at hw'
    dsimp only at hw'
    rcases Table.mem_modify.mp hw' with ⟨hw', -⟩ | ⟨w₀, -, -, rfl⟩
    . exact h.le w' hw'
    . exact (htime _).1
  . intro w' hw'
    unfold WitnessDatabase.modifyWitness at hw'
    dsimp only at hw'
    rcases Table.mem_modify.mp hw' with ⟨hw', -⟩ | ⟨w₀, -, -, rfl⟩
    . exact h.le_max w' hw'
    . exact (htime _).2

theorem InTime.applyVotes {votes : List (AccountName × ℤ)} (h : db.InTime)
    (hhf : db.hasHardfork 4) (hdb : db.applyVotes votes = .ok db') : db'.InTime := by
  have hinv := foldlM_invariant (P := fun db' _ => db'.hasHardfork 4 ∧ db'.InTime) (by
    rintro db₁ db₂ v _ ⟨hhf₁, h₁⟩ h₂
    refine ⟨?_, h₁.adjustWitnessVote hhf₁ h₂⟩
    unfold hasHardfork
    rw [(SameHardforks.adjustWitnessVote h₂).hardforks]
    exact hhf₁) ⟨hhf, h⟩ hdb
  exact hinv.2

theorem sameTimes_clearWitnessVotes (db : WitnessDatabase) :
    db.SameTimes db.clearWitnessVotes := by
  constructor
  . apply WitnessTable.Keeps.modifyWhere (.refl db.witnesses)
    . intro w
      rfl
    . intro w
      rfl
  . rfl

theorem sameTimes_updateWitnessWindowsSecToMin (db : WitnessDatabase) :
    db.SameTimes db.updateWitnessWindowsSecToMin := by
  constructor
  . apply WitnessTable.Keeps.modifyWhere (.refl db.witnesses)
    . intro w
      rfl
    . intro w
      rfl
  . rfl

theorem sameTimes_convertMinCurateGolosPower (hdb : db.convertMinCurateGolosPower = .ok db') :
    db.SameTimes db' := by
  simp only [WitnessDatabase.convertMinCurateGolosPower, bind_eq_ok, pure_eq_ok] at hdb
  obtain ⟨db₁, hloop, _, -, rfl⟩ := hdb
  have hloop : db.SameTimes db₁ := by
    refine foldlM_invariant (P := fun db' _ => db.SameTimes db') ?_ ⟨.refl _, rfl⟩ hloop
    intro db₁ db₂ w _ h₁ h₂
    simp only [bind_eq_ok, pure_eq_ok] at h₂
    obtain ⟨_, -, rfl⟩ := h₂
    refine ⟨?_, h₁.current⟩
    apply h₁.witnesses.modify
    . intro w
      rfl
    . intro w
      rfl
  exact ⟨hloop.witnesses, hloop.current⟩

end frame

section runs

/-- From hardfork 4 on, no witness is behind the virtual time. -/
def Timely (db : WitnessDatabase) : Prop :=
  db.hasHardfork 4 → db.InTime

theorem Timely.applyHardfork {version : Nat} {votes : List (AccountName × ℤ)} (h : db.Timely)
    (hdb : db.applyHardfork version votes = .ok db') : db'.Timely := by
  simp only [WitnessDatabase.applyHardfork, bind_eq_ok, pure_eq_ok] at hdb
  obtain ⟨db₁, hperform, rfl⟩ := hdb
  intro hlater
  have hlater : 4 ≤ db.hardforks.lastHardfork + 1 := hlater
  have hdb₁ : db₁.InTime := by
    by_cases hlast : db.hardforks.lastHardfork + 1 = 4
    . rw [hlast] at hperform
      simp only [WitnessDatabase.performHardfork, pure_eq_ok] at hperform
      exact hperform ▸ inTime_resetVirtualScheduleTime db
    . have hhf : db.hasHardfork 4 := by
        unfold hasHardfork
        omega
      have hcleared := (h hhf).of_same (sameTimes_clearWitnessVotes db)
      unfold WitnessDatabase.performHardfork at hperform
      split at hperform
      . exact hcleared.applyVotes hhf hperform
      . exact hcleared.applyVotes hhf hperform
      . next heq => exact absurd heq hlast
      . exact hcleared.applyVotes hhf hperform
      . rw [pure_eq_ok] at hperform
        exact hperform ▸ (h hhf).of_same (sameTimes_updateWitnessWindowsSecToMin db)
      . exact (h hhf).of_same (sameTimes_convertMinCurateGolosPower hperform)
      . rw [pure_eq_ok] at hperform
        exact hperform ▸ h hhf
  exact ⟨hdb₁.current_le, hdb₁.le, hdb₁.le_max⟩

/-- What a new schedule makes of the time. -/
theorem InTime.updateWitnessSchedule4 (h : db.InTime) (hdb : db.updateWitnessSchedule4 = .ok db') :
    db'.InTime ∧ (db.schedule.currentVirtualTime ≤ db'.schedule.currentVirtualTime ∨
      (db.resetsVirtualTime = true ∧ db'.schedule.currentVirtualTime = 0)) := by
  simp only [WitnessDatabase.updateWitnessSchedule4, WitnessDatabase.updateMedianWitnessProps,
    bind_eq_ok, pure_eq_ok] at hdb
  obtain ⟨scheduled, hmake, active, -, medianProps, -, rfl⟩ := hdb
  obtain ⟨hwitnesses, hcurrent, hgoes⟩ := h.advance
  obtain ⟨_, _, rfl, -⟩ := makeSchedule_cases hmake
  exact ⟨⟨hcurrent, fun w hw => (hwitnesses w hw).1, fun w hw => (hwitnesses w hw).2⟩, hgoes⟩

theorem hardforks_createWitness {w : WitnessObject} (h : db.createWitness w = .ok db') :
    db'.hardforks = db.hardforks := by
  simp only [WitnessDatabase.createWitness, bind_eq_ok, pure_eq_ok] at h
  obtain ⟨_, -, rfl⟩ := h
  rfl

/-- Only hardforks raise the number of the last one. -/
theorem lastHardfork_of_step {e : WitnessEvent} (hstep : db.Step e db') :
    db'.hardforks.lastHardfork = db.hardforks.lastHardfork ∨
      ∃ version votes, e = .applyHardfork version votes := by
  cases e with
  | witnessUpdate o =>
    simp only [Step, WitnessDatabase.witnessUpdate, bind_eq_ok] at hstep
    obtain ⟨-, -, -, -, -, -, hstep⟩ := hstep
    split at hstep
    . rw [pure_eq_ok] at hstep
      exact .inl (hstep ▸ rfl)
    . exact .inl (congrArg _ (hardforks_createWitness hstep))
  | chainPropertiesUpdate o =>
    simp only [Step, WitnessDatabase.updateChainProperties, bind_eq_ok] at hstep
    obtain ⟨-, -, -, -, hstep⟩ := hstep
    split at hstep
    . simp only [bind_eq_ok, pure_eq_ok] at hstep
      obtain ⟨_, -, rfl⟩ := hstep
      exact .inl rfl
    . simp only [bind_eq_ok] at hstep
      obtain ⟨_, -, hstep⟩ := hstep
      exact .inl (congrArg _ (hardforks_createWitness hstep))
  | pow o =>
    simp only [Step, WitnessDatabase.applyPow, bind_eq_ok] at hstep
    obtain ⟨-, -, -, -, hstep⟩ := hstep
    split at hstep
    . simp only [bind_eq_ok, pure_eq_ok] at hstep
      obtain ⟨-, -, rfl⟩ := hstep
      exact .inl rfl
    . have hhardforks := hardforks_createWitness hstep
      exact .inl (congrArg _ hhardforks)
  | adjustWitnessVote name delta =>
    exact .inl (congrArg _ (SameHardforks.adjustWitnessVote hstep).hardforks)
  | updateWitnessSchedule4 =>
    obtain ⟨-, hstep⟩ := hstep
    simp only [WitnessDatabase.updateWitnessSchedule4, bind_eq_ok] at hstep
    obtain ⟨scheduled, hmake, hmedian⟩ := hstep
    left
    rw [(SameHardforks.updateMedianWitnessProps hmedian).1, lastHardfork_makeSchedule hmake]
  | applyHardfork version votes => exact .inr ⟨version, votes, rfl⟩
  | earlySchedule =>
    obtain ⟨-, changed, ⟨f, -, -, -, -, hhardforks, -⟩, hmedian⟩ := hstep
    left
    rw [(SameHardforks.updateMedianWitnessProps hmedian).1, hhardforks]
  | other =>
    obtain ⟨f, -, -, -, hlast, -⟩ := hstep
    exact .inl hlast

theorem Timely.step {e : WitnessEvent} (h : db.Timely) (hstep : db.Step e db') : db'.Timely := by
  intro hhf
  -- but for hardforks, what holds from hardfork 4 on holds before the step
  have hbefore : (∀ version votes, e ≠ .applyHardfork version votes) → db.hasHardfork 4 := by
    intro hother
    rcases lastHardfork_of_step hstep with hlast | ⟨version, votes, rfl⟩
    . unfold hasHardfork at hhf ⊢
      rwa [hlast] at hhf
    . exact absurd rfl (hother version votes)
  cases e with
  | witnessUpdate o => exact (h (hbefore (by simp))).witnessUpdate hstep
  | chainPropertiesUpdate o => exact (h (hbefore (by simp))).updateChainProperties hstep
  | pow o => exact (h (hbefore (by simp))).applyPow hstep
  | adjustWitnessVote name delta =>
    have hhf := hbefore (by simp)
    exact (h hhf).adjustWitnessVote hhf hstep
  | updateWitnessSchedule4 => exact ((h hstep.1).updateWitnessSchedule4 hstep.2).1
  | applyHardfork version votes => exact h.applyHardfork hstep hhf
  | earlySchedule => exact absurd (hbefore (by simp)) hstep.1
  | other =>
    have hhf := hbefore (by simp)
    obtain ⟨f, hf, hrows, hschedule, -, -⟩ := hstep
    apply (h hhf).of_same
    refine ⟨?_, by rw [hschedule]⟩
    intro w hw
    rw [hrows] at hw
    obtain ⟨w₀, hw₀, rfl⟩ := List.mem_map.mp hw
    exact ⟨w₀, hw₀, (hf w₀).2.2⟩

theorem timely_of_reachable (h : witnessSystem.Reachable db) : db.Timely := by
  apply h.invariant
  . rintro db ⟨key, accounts, rfl⟩ hhf
    exact absurd hhf (Nat.not_succ_le_zero 3)
  . intro db e db' htimely _ hstep
    exact htimely.step hstep

/-- The places, and the time, that a new schedule comes to. -/
structure Scheduled (db db' : WitnessDatabase) : Prop where
  distinct : db'.scheduledWitnesses.Nodup
  chosen : db'.scheduledWitnesses.Perm db.select.names
  exist : ∀ name ∈ db'.scheduledWitnesses, (db'.witnesses.find? name).isSome
  length : db'.scheduledWitnesses.length = db'.schedule.numScheduledWitnesses ∧
    1 ≤ db'.schedule.numScheduledWitnesses ∧
    db'.schedule.numScheduledWitnesses ≤ steemitMaxWitnesses
  rest : ∀ name ∈ db'.schedule.currentShuffledWitnesses.toList.drop
    db'.schedule.numScheduledWitnesses, name = ""
  time : db.schedule.currentVirtualTime ≤ db'.schedule.currentVirtualTime ∨
    (db.resetsVirtualTime = true ∧ db'.schedule.currentVirtualTime = 0)
  inTime : db'.InTime

/-- Behind the chosen names, all places are empty. -/
theorem Selection.drop_ofFn (s : Selection) {name : AccountName}
    (hname : name ∈ (Vector.ofFn (n := steemitMaxWitnesses) fun i : Fin steemitMaxWitnesses =>
      (s.active.map WitnessObject.owner).getD i "").toList.drop (max (s.active.length % 256) 1))
    (hlength : s.active.length ≤ steemitMaxWitnesses) : name = "" := by
  obtain ⟨i, hi, rfl⟩ := List.getElem_of_mem hname
  rw [List.getElem_drop, Vector.getElem_toList, Vector.getElem_ofFn]
  have hmax : steemitMaxWitnesses = 21 := rfl
  rw [List.getD_eq_getElem?_getD, List.getElem?_eq_none, Option.getD_none]
  rw [List.length_map]
  dsimp only
  omega

theorem isSome_of_mapM_getWitness {names : List AccountName} {active : List WitnessObject}
    (h : names.mapM db.getWitness = .ok active) {name : AccountName} (hname : name ∈ names) :
    (db.witnesses.find? name).isSome := by
  rw [mapM_eq_ok] at h
  induction h with
  | nil => cases hname
  | cons hw _ ih =>
    rcases List.mem_cons.mp hname with rfl | hname
    . exact Option.isSome_iff_exists.mpr ⟨_, get_eq_ok.mp hw⟩
    . exact ih hname

/-- Every schedule of every run. -/
theorem scheduled_of_reachable (h : witnessSystem.Reachable db)
    (hstep : witnessSystem.step db .updateWitnessSchedule4 db') : db.Scheduled db' := by
  obtain ⟨hhf, hdb⟩ := hstep
  obtain ⟨hinTime, htime⟩ := (timely_of_reachable h hhf).updateWitnessSchedule4 hdb
  simp only [WitnessDatabase.updateWitnessSchedule4, WitnessDatabase.updateMedianWitnessProps,
    bind_eq_ok, pure_eq_ok] at hdb
  obtain ⟨scheduled, hmake, active, hactive, medianProps, -, rfl⟩ := hdb
  have hperm := scheduledWitnesses_makeSchedule hmake
  have hchosen := db.chosen_select
  have hlength := hchosen.length_names
  have hplaces : scheduled.schedule.numScheduledWitnesses = db.select.names.length := by
    obtain ⟨_, _, rfl, -⟩ := makeSchedule_cases hmake
    rw [hlength.1]
    unfold WitnessScheduleObject.fill
    dsimp only
    rw [List.length_map]
  constructor
  . exact hperm.nodup_iff.mpr hchosen.nodup_names
  . exact hperm
  . intro name hname
    exact isSome_of_mapM_getWitness hactive hname
  . refine ⟨hperm.length_eq.trans hplaces.symm, ?_, ?_⟩
    . dsimp only
      rw [hplaces, hlength.1]
      exact Nat.le_max_right _ _
    . dsimp only
      rw [hplaces]
      exact hlength.2
  . intro name hname
    dsimp only at hname
    obtain ⟨_, _, rfl, -⟩ := makeSchedule_cases hmake
    unfold WitnessScheduleObject.fill at hname
    dsimp only at hname
    rw [List.length_map, Shuffle.drop_shuffle _ (hlength.1 ▸ hlength.2)] at hname
    exact db.select.drop_ofFn hname hchosen.length_active
  . exact htime
  . exact hinTime

def candidacy (owner : AccountName) : WitnessUpdateOperation where
  owner := owner
  url := "url"
  blockSigningKey := 1
  props := {}
  fee := ⟨0, steemSymbol⟩

def stand (db : WitnessDatabase) (name : AccountName) : Result WitnessDatabase :=
  db.witnessUpdate (candidacy name)

def candidates : List AccountName :=
  ["alice", "bob", "carol"]

/-- The candidates are witnesses beside the initial one, before the first hardfork. -/
def standing : WitnessDatabase :=
  (candidates.foldlM stand (initGenesis 1 candidates)).toOption.getD {}

def fourHardforks : WitnessDatabase :=
  (standing.applyHardforks 4).toOption.getD {}

def fourScheduled : WitnessDatabase :=
  fourHardforks.updateWitnessSchedule4.toOption.getD {}

theorem reachable_fourHardforks : witnessSystem.Reachable fourHardforks := by
  have hinitial : witnessSystem.Reachable (initGenesis 1 candidates) := .initial ⟨1, _, rfl⟩
  have hevents : ∀ name ∈ candidates, ∀ db db', stand db name = .ok db' →
      witnessSystem.step db (.witnessUpdate (candidacy name)) db' := fun _ _ _ _ h => h
  have hstanding : witnessSystem.Reachable standing :=
    hinitial.operations hevents (.of_forall (fun _ _ => trivial) _ _)
      (eq_ok_of_isSome (by decide +kernel))
  apply reach_applyHardforks (n := 4) hstanding
  . exact .of_forall (fun _ _ => trivial) _ _
  . exact eq_ok_of_isSome (by decide +kernel)

/-- The schedule has four witnesses, each of them once. -/
theorem scheduled_of_reachable_four :
    fourHardforks.Scheduled fourScheduled ∧ fourScheduled.scheduledWitnesses.length = 4 := by
  have hstep : witnessSystem.step fourHardforks .updateWitnessSchedule4 fourScheduled :=
    ⟨by decide +kernel, eq_ok_of_isSome (by decide +kernel)⟩
  exact ⟨scheduled_of_reachable reachable_fourHardforks hstep, by decide +kernel⟩

end runs

end WitnessDatabase

end Golos.Witness
