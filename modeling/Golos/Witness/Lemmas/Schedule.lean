import Golos.Witness.Impl.Schedule

/-!
This module contains what the loops of the schedule choose and what they do to the witnesses.
-/

namespace Golos.Witness

open Checked

/-- The names of the witnesses. -/
def WitnessTable.names (t : WitnessTable) : List AccountName :=
  t.rows.map WitnessObject.owner

section select

variable (db : WitnessDatabase)

theorem WitnessDatabase.byVoteName_perm : db.byVoteName.Perm db.witnesses.rows :=
  List.perm_insertionSort _ _

theorem WitnessDatabase.byScheduleTime_perm : db.byScheduleTime.Perm db.witnesses.rows :=
  List.perm_insertionSort _ _

theorem WitnessDatabase.powQueue_perm :
    db.powQueue.Perm (db.witnesses.rows.filter fun w => 0 < w.powWorker) :=
  List.perm_insertionSort _ _

/-- A part of an index names every witness once. -/
theorem nodup_names_of_sublist {l index : List WitnessObject} (hsub : l.Sublist index)
    (hperm : (index.map WitnessObject.owner).Perm (WitnessTable.names db.witnesses)) :
    (l.map WitnessObject.owner).Nodup :=
  (hperm.nodup_iff.mpr db.witnesses.nodup).sublist (hsub.map _)

theorem nodup_names_of_powQueue {l : List WitnessObject} (hsub : l.Sublist db.powQueue) :
    (l.map WitnessObject.owner).Nodup := by
  have hfilter := db.witnesses.nodup.sublist
    ((List.filter_sublist (p := fun w : WitnessObject => 0 < w.powWorker)).map WitnessObject.owner)
  exact ((db.powQueue_perm.map WitnessObject.owner).nodup_iff.mpr hfilter).sublist (hsub.map _)

/-- Witnesses of the table with different ids have different names. -/
theorem owner_ne_of_id {w w' : WitnessObject} (hw : w ∈ db.witnesses.rows)
    (hw' : w' ∈ db.witnesses.rows) {l : List WitnessObject} (hl : w' ∈ l)
    (hid : w.id ∉ l.map WitnessObject.id) : w.owner ≠ w'.owner := by
  intro heq
  have := db.witnesses.mem_rows_inj hw hw' heq
  subst this
  exact hid (List.mem_map_of_mem hl)

/-- What the rules make of the indices. -/
structure WitnessDatabase.Chosen (s : WitnessDatabase.Selection) : Prop where
  voted : s.voted.Sublist db.byVoteName
  length_voted : s.voted.length ≤ steemitMaxVotedWitnesses
  miners : s.miners.Sublist db.powQueue
  length_miners : s.miners.length ≤ steemitMaxMinerWitnesses
  miner_not_voted : ∀ w ∈ s.miners, w.id ∉ s.voted.map WitnessObject.id
  timeshare : s.timeshare.Sublist db.byScheduleTime
  length_timeshare : s.timeshare.length ≤ steemitMaxWitnesses - (s.voted.length + s.miners.length)
  timeshare_not_miner : ∀ w ∈ s.timeshare, w.id ∉ s.miners.map WitnessObject.id
  timeshare_not_voted : ∀ w ∈ s.timeshare, w.id ∉ s.voted.map WitnessObject.id
  processed : ∃ rest, db.byScheduleTime = s.processedWitnesses ++ rest

theorem WitnessDatabase.chosen_select : db.Chosen db.select := by
  have hminer : ∀ voted : List WitnessObject, ∀ l,
      l = (if db.hasHardfork 28 then ([], []) else
        Queue.select (fun w => w.id ∉ voted.map WitnessObject.id && db.canSign w)
          steemitMaxMinerWitnesses db.powQueue) →
      l.2.Sublist db.powQueue ∧ l.2.length ≤ steemitMaxMinerWitnesses ∧
        ∀ w ∈ l.2, w.id ∉ voted.map WitnessObject.id := by
    rintro voted l rfl
    split
    . exact ⟨List.nil_sublist _, Nat.zero_le _, by simp⟩
    . refine ⟨Queue.select_sublist _ _ _, Queue.length_select _ _ _, ?_⟩
      intro w hw
      rw [Queue.select_eq_filter, List.mem_filter, Bool.and_eq_true, decide_eq_true_eq] at hw
      exact hw.2.1
  obtain ⟨hsub, hlength, hnot⟩ := hminer (Queue.select db.canSign steemitMaxVotedWitnesses
    db.byVoteName).2 _ rfl
  constructor
  . exact Queue.select_sublist _ _ _
  . exact Queue.length_select _ _ _
  . exact hsub
  . exact hlength
  . exact hnot
  . exact Queue.select_sublist _ _ _
  . exact Queue.length_select _ _ _
  . intro w hw
    have hw : w ∈ (Queue.select _ _ _).2 := hw
    rw [Queue.select_eq_filter, List.mem_filter] at hw
    simp only [Bool.and_eq_true, decide_eq_true_eq] at hw
    exact hw.2.2.1
  . intro w hw
    have hw : w ∈ (Queue.select _ _ _).2 := hw
    rw [Queue.select_eq_filter, List.mem_filter] at hw
    simp only [Bool.and_eq_true, decide_eq_true_eq] at hw
    exact hw.2.2.2
  . exact Queue.exists_select_append _ _ _

variable {db} {s : WitnessDatabase.Selection}

theorem WitnessDatabase.Chosen.mem_rows (h : db.Chosen s) {w : WitnessObject} (hw : w ∈ s.active) :
    w ∈ db.witnesses.rows := by
  unfold Selection.active at hw
  rw [List.append_assoc, List.mem_append, List.mem_append] at hw
  rcases hw with hw | hw | hw
  . exact db.byVoteName_perm.mem_iff.mp (h.voted.subset hw)
  . exact List.mem_of_mem_filter (db.powQueue_perm.mem_iff.mp (h.miners.subset hw))
  . exact db.byScheduleTime_perm.mem_iff.mp (h.timeshare.subset hw)

theorem WitnessDatabase.Chosen.length_active (h : db.Chosen s) :
    s.active.length ≤ steemitMaxWitnesses := by
  have h₁ := h.length_voted
  have h₂ := h.length_miners
  have h₃ := h.length_timeshare
  unfold Selection.active
  rw [List.length_append, List.length_append]
  unfold steemitMaxWitnesses at h₃ ⊢
  omega

/-- No witness is chosen twice. -/
theorem WitnessDatabase.Chosen.nodup (h : db.Chosen s) :
    (s.active.map WitnessObject.owner).Nodup := by
  have hmem : ∀ w, w ∈ s.voted ∨ w ∈ s.miners ∨ w ∈ s.timeshare → w ∈ db.witnesses.rows := by
    intro w hw
    apply h.mem_rows
    unfold Selection.active
    rw [List.append_assoc, List.mem_append, List.mem_append]
    exact hw
  unfold Selection.active
  rw [List.map_append, List.map_append, List.nodup_append', List.nodup_append']
  refine ⟨⟨?_, ?_, ?_⟩, ?_, ?_⟩
  . exact nodup_names_of_sublist db h.voted (db.byVoteName_perm.map _)
  . exact nodup_names_of_powQueue db h.miners
  . intro name hvoted hminer
    obtain ⟨w', hw', rfl⟩ := List.mem_map.mp hvoted
    obtain ⟨w, hw, heq⟩ := List.mem_map.mp hminer
    exact owner_ne_of_id db (hmem w (.inr (.inl hw))) (hmem w' (.inl hw')) hw'
      (h.miner_not_voted w hw) heq
  . exact nodup_names_of_sublist db h.timeshare (db.byScheduleTime_perm.map _)
  . intro name hbefore htimeshare
    obtain ⟨w, hw, rfl⟩ := List.mem_map.mp htimeshare
    rw [List.mem_append] at hbefore
    rcases hbefore with hvoted | hminer
    . obtain ⟨w', hw', heq⟩ := List.mem_map.mp hvoted
      exact owner_ne_of_id db (hmem w (.inr (.inr hw))) (hmem w' (.inl hw')) hw'
        (h.timeshare_not_voted w hw) heq.symm
    . obtain ⟨w', hw', heq⟩ := List.mem_map.mp hminer
      exact owner_ne_of_id db (hmem w (.inr (.inr hw))) (hmem w' (.inr (.inl hw'))) hw'
        (h.timeshare_not_miner w hw) heq.symm

end select

section names

variable {db db' : WitnessDatabase}

/-- The names in the places that the schedule has: those of the chosen, or the empty one if there
are none. -/
def WitnessDatabase.Selection.names (s : WitnessDatabase.Selection) : List AccountName :=
  if s.active = [] then [""] else s.active.map WitnessObject.owner

theorem WitnessDatabase.Chosen.nodup_names {s : WitnessDatabase.Selection} (h : db.Chosen s) :
    s.names.Nodup := by
  unfold Selection.names
  split
  . exact List.nodup_singleton ""
  . exact h.nodup

theorem WitnessDatabase.Chosen.length_names {s : WitnessDatabase.Selection} (h : db.Chosen s) :
    s.names.length = max (s.active.length % 256) 1 ∧ s.names.length ≤ steemitMaxWitnesses := by
  have hlength := h.length_active
  have hmax : steemitMaxWitnesses = 21 := rfl
  unfold Selection.names
  split
  . next hnil =>
    rw [hnil, hmax]
    decide
  . next hnil =>
    have := List.length_pos_iff.mpr hnil
    rw [List.length_map]
    omega

/-- The places before the shuffle. -/
theorem WitnessDatabase.Selection.take_ofFn (s : WitnessDatabase.Selection)
    (h : s.names.length ≤ steemitMaxWitnesses) :
    (Vector.ofFn (n := steemitMaxWitnesses) fun i : Fin steemitMaxWitnesses =>
      (s.active.map WitnessObject.owner).getD i "").toList.take s.names.length = s.names := by
  apply List.ext_getElem
  . rw [List.length_take, Vector.length_toList]
    omega
  . intro i hi hi'
    rw [List.getElem_take, Vector.getElem_toList, Vector.getElem_ofFn]
    unfold names at hi' ⊢
    split at hi'
    . next hnil =>
      simp only [hnil, if_true, List.map_nil, List.getD_nil]
      rw [List.getElem_singleton]
    . next hnil =>
      simp only [hnil, if_false]
      rw [List.getD_eq_getElem?_getD, List.getElem?_eq_getElem hi', Option.getD_some]

/-- All that the schedule does before the medians. -/
theorem WitnessDatabase.makeSchedule_cases (h : db.makeSchedule = .ok db') :
    ∃ majorityVersion hardforks,
      db' =
        { db.advance.1 with
          hardforks := hardforks
          schedule :=
            db.advance.1.schedule.fill db.select db.advance.2 majorityVersion db.properties } ∧
      (14400 < db.properties.headBlockNumber →
        db.select.active.length = min steemitMaxWitnesses db.witnesses.rows.length) ∧
      (db.hasHardfork 5 → ∃ scheduled,
        db.advance.1.scheduledWitnesses.mapM db.advance.1.getWitness = .ok scheduled ∧
        tallyVersions scheduled db.schedule.majorityVersion db.hardforks =
          (majorityVersion, hardforks)) ∧
      (¬db.hasHardfork 5 → hardforks = db.hardforks) := by
  simp only [makeSchedule, bind_eq_ok, ensure_eq_ok] at h
  obtain ⟨_, hlength, h⟩ := h
  split at h
  . next hhf =>
    simp only [bind_eq_ok, pure_eq_ok] at h
    obtain ⟨scheduled, hscheduled, ⟨majorityVersion, hardforks⟩, htally, rfl⟩ := h
    exact ⟨_, _, rfl, hlength, fun _ => ⟨scheduled, hscheduled, htally⟩, fun hnot => absurd hhf hnot⟩
  . next hhf =>
    simp only [bind_eq_ok, pure_eq_ok] at h
    obtain ⟨⟨majorityVersion, hardforks⟩, htally, rfl⟩ := h
    obtain ⟨rfl, rfl⟩ := Prod.mk.inj htally
    exact ⟨_, _, rfl, hlength, fun hhas => absurd hhas hhf, fun _ => rfl⟩

/-- The schedule names the chosen witnesses, each once. -/
theorem WitnessDatabase.scheduledWitnesses_makeSchedule (h : db.makeSchedule = .ok db') :
    db'.scheduledWitnesses.Perm db.select.names := by
  have hlength := db.chosen_select.length_names
  obtain ⟨_, _, rfl, _⟩ := makeSchedule_cases h
  unfold scheduledWitnesses WitnessScheduleObject.fill
  dsimp only
  rw [List.length_map, ← hlength.1]
  apply (Shuffle.take_shuffle_perm _ hlength.2 _).trans
  rw [db.select.take_ofFn hlength.2]

end names

section keeps

/-- What is read from a witness of `t'` was read from one of `t`. -/
def WitnessTable.Keeps {κ : Type} (read : WitnessObject → κ) (t t' : WitnessTable) : Prop :=
  ∀ w ∈ t'.rows, ∃ w₀ ∈ t.rows, read w = read w₀

variable {κ : Type} {read : WitnessObject → κ} {t t' t'' : WitnessTable}

theorem WitnessTable.Keeps.refl (t : WitnessTable) : WitnessTable.Keeps read t t :=
  fun w hw => ⟨w, hw, rfl⟩

theorem WitnessTable.Keeps.trans (h : WitnessTable.Keeps read t t')
    (h' : WitnessTable.Keeps read t' t'') : WitnessTable.Keeps read t t'' := by
  intro w hw
  obtain ⟨w', hw', heq'⟩ := h' w hw
  obtain ⟨w₀, hw₀, heq⟩ := h w' hw'
  exact ⟨w₀, hw₀, heq'.trans heq⟩

theorem WitnessTable.Keeps.modifyWhere {p : WitnessObject → Bool}
    {f : WitnessObject → WitnessObject} {hf : ∀ w, (f w).owner = w.owner}
    (h : WitnessTable.Keeps read t t') (hread : ∀ w, read (f w) = read w) :
    WitnessTable.Keeps read t (t'.modifyWhere p f hf) := by
  apply h.trans
  intro w hw
  obtain ⟨w₀, hw₀, rfl⟩ := Table.mem_modifyWhere.mp hw
  refine ⟨w₀, hw₀, ?_⟩
  split
  . exact hread w₀
  . rfl

theorem WitnessTable.Keeps.modify {name : AccountName} {f : WitnessObject → WitnessObject}
    {hf : ∀ w, (f w).owner = w.owner} (h : WitnessTable.Keeps read t t')
    (hread : ∀ w, read (f w) = read w) : WitnessTable.Keeps read t (t'.modify name f hf) := by
  apply h.trans
  intro w hw
  rcases Table.mem_modify.mp hw with ⟨hw, _⟩ | ⟨w₀, hw₀, _, rfl⟩
  . exact ⟨w, hw, rfl⟩
  . exact ⟨w₀, hw₀, hread w₀⟩

theorem WitnessDatabase.Selection.keeps_mark (s : WitnessDatabase.Selection)
    (hread : ∀ w schedule powWorker,
      read { w with schedule := schedule, powWorker := powWorker } = read w) :
    WitnessTable.Keeps read t (s.mark t) := by
  unfold mark WitnessTable.modifyAll
  apply WitnessTable.Keeps.modifyWhere
  . apply WitnessTable.Keeps.modifyWhere
    . apply WitnessTable.Keeps.modifyWhere
      . apply WitnessTable.Keeps.modifyWhere (.refl t)
        exact fun w => hread w .top19 w.powWorker
      . exact fun w => hread w .miner w.powWorker
    . exact fun w => hread w w.schedule 0
  . exact fun w => hread w .timeshare w.powWorker

theorem keeps_updateVirtualSchedule {newVirtualTime : Nat} {processed : List WitnessObject}
    (hread : ∀ w position update time, read
      { w with
        virtualPosition := position
        virtualLastUpdate := update
        virtualScheduledTime := time } = read w) :
    WitnessTable.Keeps read t (updateVirtualSchedule newVirtualTime processed t).2 := by
  induction processed generalizing t with
  | nil => exact .refl t
  | cons w processed ih =>
    unfold updateVirtualSchedule
    dsimp only
    split
    . exact .refl t
    . apply WitnessTable.Keeps.trans _ ih
      apply WitnessTable.Keeps.modify (.refl t)
      exact fun w => hread w _ _ _

/-- The schedule changes nothing of the witnesses but their places in it. -/
theorem WitnessDatabase.keeps_advance (db : WitnessDatabase) :
    WitnessTable.Keeps (fun w => (w.owner, w.props)) db.witnesses db.advance.1.witnesses := by
  have hlap : WitnessTable.Keeps (fun w => (w.owner, w.props)) db.witnesses db.runLap.2 := by
    apply WitnessTable.Keeps.trans (db.select.keeps_mark fun _ _ _ => rfl)
    exact keeps_updateVirtualSchedule fun _ _ _ _ => rfl
  unfold advance
  dsimp only
  split
  . apply hlap.modifyWhere
    . intro w
      rfl
    . intro w
      rfl
  . exact hlap

end keeps

section time

/-- No witness is behind the virtual time, and all fit into their numbers. -/
structure WitnessDatabase.InTime (db : WitnessDatabase) : Prop where
  current_le : db.schedule.currentVirtualTime ≤ maxUint128
  le : ∀ w ∈ db.witnesses.rows, db.schedule.currentVirtualTime ≤ w.virtualScheduledTime
  le_max : ∀ w ∈ db.witnesses.rows, w.virtualScheduledTime ≤ maxUint128

theorem mod_le_maxUint128 (x : Nat) : x % 2 ^ 128 ≤ maxUint128 :=
  Nat.le_sub_one_of_lt (Nat.mod_lt _ (Nat.two_pow_pos 128))

theorem WitnessDatabase.byScheduleTime_sorted (db : WitnessDatabase) :
    db.byScheduleTime.Pairwise fun w w' => w.virtualScheduledTime ≤ w'.virtualScheduledTime := by
  have hsorted := List.pairwise_insertionSort_of
    (fun w w' : WitnessObject => w.virtualScheduledTime < w'.virtualScheduledTime ∨
      (w.virtualScheduledTime = w'.virtualScheduledTime ∧ w.id ≤ w'.id))
    (l := db.witnesses.rows) (by intros; omega) (by intros; omega)
  apply hsorted.imp
  intros
  omega

variable {db : WitnessDatabase}

theorem mem_resetVirtualScheduleTime {w : WitnessObject}
    (hw : w ∈ db.resetVirtualScheduleTime.witnesses.rows) :
    0 ≤ w.virtualScheduledTime ∧ w.virtualScheduledTime ≤ maxUint128 := by
  unfold WitnessDatabase.resetVirtualScheduleTime Table.modifyWhere at hw
  obtain ⟨w₀, _, rfl⟩ := List.mem_map.mp hw
  exact ⟨Nat.zero_le _, Nat.div_le_self _ _⟩

/-- The time that everyone advances to is not before the last one, nor after anyone's who waits. -/
theorem WitnessDatabase.InTime.newVirtualTime {s : WitnessDatabase.Selection} (h : db.InTime)
    (hs : db.Chosen s) :
    db.schedule.currentVirtualTime ≤ s.newVirtualTime db.schedule.currentVirtualTime ∧
      s.newVirtualTime db.schedule.currentVirtualTime ≤ maxUint128 ∧
      ∀ w ∈ db.witnesses.rows, w.owner ∉ s.processedWitnesses.map WitnessObject.owner →
        s.newVirtualTime db.schedule.currentVirtualTime ≤ w.virtualScheduledTime := by
  obtain ⟨rest, hrest⟩ := hs.processed
  unfold Selection.newVirtualTime
  cases hlast : s.processedWitnesses.getLast? with
  | none => exact ⟨le_refl _, h.current_le, fun w hw _ => h.le w hw⟩
  | some last =>
    have hmem := List.mem_of_getLast? hlast
    have hrows : last ∈ db.witnesses.rows := by
      apply db.byScheduleTime_perm.mem_iff.mp
      rw [hrest]
      exact List.mem_append_left _ hmem
    refine ⟨h.le last hrows, h.le_max last hrows, ?_⟩
    intro w hw hnot
    have hw := db.byScheduleTime_perm.mem_iff.mpr hw
    have hsorted := db.byScheduleTime_sorted
    rw [hrest] at hw hsorted
    rcases List.mem_append.mp hw with hw | hw
    . exact absurd (List.mem_map_of_mem hw) hnot
    . exact (List.pairwise_append.mp hsorted).2.2 last hmem w hw

/-- Without an overflow the loop leaves nobody behind. -/
theorem updateVirtualSchedule_le {newVirtualTime : Nat} {processed : List WitnessObject}
    {t t' : WitnessTable} (h : updateVirtualSchedule newVirtualTime processed t = (false, t'))
    (ht : ∀ w ∈ t.rows, w.owner ∈ processed.map WitnessObject.owner ∨
      (newVirtualTime ≤ w.virtualScheduledTime ∧ w.virtualScheduledTime ≤ maxUint128)) :
    ∀ w ∈ t'.rows, newVirtualTime ≤ w.virtualScheduledTime ∧
      w.virtualScheduledTime ≤ maxUint128 := by
  induction processed generalizing t with
  | nil =>
    cases h
    intro w hw
    exact (ht w hw).resolve_left List.not_mem_nil
  | cons v processed ih =>
    unfold updateVirtualSchedule at h
    dsimp only at h
    split at h
    . cases h
    . next htime =>
      apply ih h
      intro w hw
      rcases Table.mem_modify.mp hw with ⟨hw, hne⟩ | ⟨w₀, hw₀, _, rfl⟩
      . apply (ht w hw).imp_left
        intro hmem
        exact (List.mem_cons.mp hmem).resolve_left hne
      . right
        exact ⟨not_lt.mp htime, mod_le_maxUint128 _⟩

theorem WitnessDatabase.InTime.advance (h : db.InTime) :
    (∀ w ∈ db.advance.1.witnesses.rows, db.advance.2 ≤ w.virtualScheduledTime ∧
      w.virtualScheduledTime ≤ maxUint128) ∧ db.advance.2 ≤ maxUint128 ∧
      (db.schedule.currentVirtualTime ≤ db.advance.2 ∨
        (db.resetsVirtualTime = true ∧ db.advance.2 = 0)) := by
  obtain ⟨hcurrent, hmax, hwaits⟩ := h.newVirtualTime db.chosen_select
  unfold WitnessDatabase.advance
  dsimp only
  split
  . next hreset =>
    refine ⟨?_, Nat.zero_le _, .inr ⟨hreset, rfl⟩⟩
    intro w hw
    exact mem_resetVirtualScheduleTime hw
  . next hreset =>
    refine ⟨?_, hmax, .inl hcurrent⟩
    have hlap : updateVirtualSchedule (db.select.newVirtualTime db.schedule.currentVirtualTime)
        db.select.processedWitnesses (db.select.mark db.witnesses) = (false, db.runLap.2) := by
      apply Prod.ext
      . exact Bool.not_eq_true _ ▸ hreset
      . rfl
    have hkeeps : WitnessTable.Keeps (fun w => (w.owner, w.virtualScheduledTime)) db.witnesses
        (db.select.mark db.witnesses) :=
      db.select.keeps_mark fun _ _ _ => rfl
    apply updateVirtualSchedule_le hlap
    . intro w hw
      obtain ⟨w₀, hw₀, heq⟩ := hkeeps w hw
      obtain ⟨howner, htime⟩ := Prod.mk.inj heq
      rw [howner, htime]
      by_cases hmem : w₀.owner ∈ db.select.processedWitnesses.map WitnessObject.owner
      . exact .inl hmem
      . exact .inr ⟨hwaits w₀ hw₀ hmem, h.le_max w₀ hw₀⟩

end time

end Golos.Witness
