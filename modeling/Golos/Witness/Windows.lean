import Golos.Witness.Hardforks
import Golos.Witness.Lemmas.Median

/-!
This module contains the windows that witnesses vote for, with the numbers of operations in them, and
the windows of the median over the runs of the chain: as long as most of the scheduled witnesses leave
time for their operations, the median does.
-/

namespace Golos.Witness

open Checked

section batteries

/-- The windows of the properties and their numbers of operations. -/
def batteries (p : ChainProperties) : List (Nat × Nat) :=
  batteryParams.map fun b => (b.1 p, b.2 p)

/-- There are operations in the windows. -/
def HasItems (p : ChainProperties) : Prop :=
  ∀ b ∈ batteries p, b.2 ≠ 0

/-- There are no more operations in the windows than units of time. -/
def InWindows (p : ChainProperties) : Prop :=
  ∀ b ∈ batteries p, b.2 ≠ 0 ∧ b.2 ≤ b.1

variable {p p' : ChainProperties}

theorem InWindows.hasItems (h : InWindows p) : HasItems p :=
  fun b hb => (h b hb).1

theorem HasItems.congr (h : HasItems p) (heq : batteries p' = batteries p) : HasItems p' := by
  unfold HasItems
  rw [heq]
  exact h

theorem InWindows.congr (h : InWindows p) (heq : batteries p' = batteries p) : InWindows p' := by
  unfold InWindows
  rw [heq]
  exact h

theorem inWindows_iff : InWindows p ↔
    (p.postsPerWindow ≠ 0 ∧ p.postsPerWindow ≤ p.postsWindow) ∧
      (p.commentsPerWindow ≠ 0 ∧ p.commentsPerWindow ≤ p.commentsWindow) ∧
      p.votesPerWindow ≠ 0 ∧ p.votesPerWindow ≤ p.votesWindow := by
  simp [InWindows, batteries, batteryParams]

theorem hasItems_iff : HasItems p ↔
    p.postsPerWindow ≠ 0 ∧ p.commentsPerWindow ≠ 0 ∧ p.votesPerWindow ≠ 0 := by
  simp [HasItems, batteries, batteryParams]

/-- What has no properties of its own has windows that its operations fit into. -/
theorem inWindows_default : InWindows {} := by
  rw [inWindows_iff]
  decide

theorem HasItems.hf26WindowsSecToMin (h : HasItems p) : HasItems p.hf26WindowsSecToMin := by
  rw [hasItems_iff] at h ⊢
  exact h

/-- The part of a version of the properties that has the windows. -/
def props19 : VersionedChainProperties → Option ChainProperties19
  | .chainProperties17 _ => none
  | .chainProperties18 _ => none
  | .chainProperties19 p => some p
  | .chainProperties22 p => some p.toChainProperties19
  | .chainProperties23 p => some p.toChainProperties19
  | .chainProperties24 p => some p.toChainProperties19
  | .chainProperties26 p => some p.toChainProperties19
  | .chainProperties27 p => some p.toChainProperties19
  | .chainProperties28 p => some p.toChainProperties19
  | .chainProperties29 p => some p.toChainProperties19
  | .chainProperties30 p => some p.toChainProperties19

theorem validate_of_props19 {src : VersionedChainProperties} {q : ChainProperties19} {u : Unit}
    (h : src.validate = .ok u) (hq : props19 src = some q) : q.validate = .ok () := by
  cases src with
  | chainProperties17 src => cases hq
  | chainProperties18 src => cases hq
  | chainProperties19 src =>
    cases hq
    exact h
  | chainProperties22 src =>
    cases hq
    simp only [VersionedChainProperties.validate, ChainProperties22.validate, bind_eq_ok] at h
    exact h.elim fun _ h => h.1
  | chainProperties23 src =>
    cases hq
    simp only [VersionedChainProperties.validate, ChainProperties23.validate,
      ChainProperties22.validate, bind_eq_ok] at h
    obtain ⟨_, ⟨_, h, -⟩, -⟩ := h
    exact h
  | chainProperties24 src =>
    cases hq
    simp only [VersionedChainProperties.validate, ChainProperties24.validate,
      ChainProperties23.validate, ChainProperties22.validate, bind_eq_ok] at h
    obtain ⟨_, ⟨_, ⟨_, h, -⟩, -⟩, -⟩ := h
    exact h
  | chainProperties26 src =>
    cases hq
    simp only [VersionedChainProperties.validate, ChainProperties26.validate,
      ChainProperties24.validate, ChainProperties23.validate, ChainProperties22.validate,
      bind_eq_ok] at h
    obtain ⟨_, ⟨_, ⟨_, ⟨_, h, -⟩, -⟩, -⟩, -⟩ := h
    exact h
  | chainProperties27 src =>
    cases hq
    simp only [VersionedChainProperties.validate, ChainProperties27.validate,
      ChainProperties26.validate, ChainProperties24.validate, ChainProperties23.validate,
      ChainProperties22.validate, bind_eq_ok] at h
    obtain ⟨_, ⟨_, ⟨_, ⟨_, ⟨_, h, -⟩, -⟩, -⟩, -⟩, -⟩ := h
    exact h
  | chainProperties28 src =>
    cases hq
    simp only [VersionedChainProperties.validate, ChainProperties28.validate,
      ChainProperties27.validate, ChainProperties26.validate, ChainProperties24.validate,
      ChainProperties23.validate, ChainProperties22.validate, bind_eq_ok] at h
    obtain ⟨_, ⟨_, ⟨_, ⟨_, ⟨_, ⟨_, h, -⟩, -⟩, -⟩, -⟩, -⟩, -⟩ := h
    exact h
  | chainProperties29 src =>
    cases hq
    simp only [VersionedChainProperties.validate, ChainProperties29.validate,
      ChainProperties28.validate, ChainProperties27.validate, ChainProperties26.validate,
      ChainProperties24.validate, ChainProperties23.validate, ChainProperties22.validate,
      bind_eq_ok] at h
    obtain ⟨_, ⟨_, ⟨_, ⟨_, ⟨_, ⟨_, ⟨_, h, -⟩, -⟩, -⟩, -⟩, -⟩, -⟩, -⟩ := h
    exact h
  | chainProperties30 src =>
    cases hq
    simp only [VersionedChainProperties.validate, ChainProperties30.validate,
      ChainProperties29.validate, ChainProperties28.validate, ChainProperties27.validate,
      ChainProperties26.validate, ChainProperties24.validate, ChainProperties23.validate,
      ChainProperties22.validate, bind_eq_ok] at h
    obtain ⟨_, ⟨_, ⟨_, ⟨_, ⟨_, ⟨_, ⟨_, ⟨_, h, -⟩, -⟩, -⟩, -⟩, -⟩, -⟩, -⟩, -⟩ := h
    exact h

/-- An assignment leaves the windows as they are, or puts valid ones in their place. -/
theorem batteries_assign {src : VersionedChainProperties} {u : Unit} (h : src.validate = .ok u) :
    batteries (p.assign src) = batteries p ∨ InWindows (p.assign src) := by
  cases hq : props19 src with
  | none =>
    left
    cases src with
    | chainProperties17 src => rfl
    | chainProperties18 src => rfl
    | _ => cases hq
  | some q =>
    right
    have hvalidate := validate_of_props19 h hq
    simp only [ChainProperties19.validate, bind_eq_ok, ensure_eq_ok, checkWindow_eq_ok] at hvalidate
    obtain ⟨-, -, -, -, -, -, -, -, -, -, -, -, -, -, -, hposts, -, hcomments, -, hvotes, -⟩ :=
      hvalidate
    have hwindows : (q.postsPerWindow ≠ 0 ∧ q.postsPerWindow ≤ q.postsWindow) ∧
        (q.commentsPerWindow ≠ 0 ∧ q.commentsPerWindow ≤ q.commentsWindow) ∧
        q.votesPerWindow ≠ 0 ∧ q.votesPerWindow ≤ q.votesWindow := by
      omega
    rw [inWindows_iff]
    cases src with
    | chainProperties17 src => cases hq
    | chainProperties18 src => cases hq
    | _ =>
      cases hq
      exact hwindows

theorem HasItems.assign {src : VersionedChainProperties} {u : Unit} (hp : HasItems p)
    (h : src.validate = .ok u) : HasItems (p.assign src) := by
  rcases batteries_assign (p := p) h with heq | hin
  . exact hp.congr heq
  . exact hin.hasItems

theorem InWindows.assign {src : VersionedChainProperties} {u : Unit} (hp : InWindows p)
    (h : src.validate = .ok u) : InWindows (p.assign src) := by
  rcases batteries_assign (p := p) h with heq | hin
  . exact hp.congr heq
  . exact hin

end batteries

section median

variable {active : List ChainProperties}

/-- No more than half of the properties have more operations than time in the window. -/
def MostInWindow (active : List ChainProperties)
    (b : (ChainProperties → Nat) × (ChainProperties → Nat)) : Prop :=
  (active.filter fun p => b.1 p < b.2 p).length ≤ active.length / 2

instance (b : (ChainProperties → Nat) × (ChainProperties → Nat)) :
    Decidable (MostInWindow active b) :=
  inferInstanceAs (Decidable (_ ≤ _))

theorem batteryKey_lt_iff {window items : ChainProperties → Nat} {p : ChainProperties}
    (h : items p ≠ 0) : batteryKey window items p < toLex (1, 0) ↔ window p < items p := by
  unfold batteryKey
  rw [Prod.Lex.toLex_lt_toLex]
  dsimp only
  rw [or_iff_left fun heq => absurd heq.2 (Nat.not_lt_zero _), Nat.lt_one_iff]
  exact Nat.div_eq_zero_iff.trans (or_iff_right h)

/-- The median of a window is in it just if most of the properties are. -/
theorem inWindow_iff_of_isMedianOf {b : (ChainProperties → Nat) × (ChainProperties → Nat)}
    {m : ChainProperties} (hitems : ∀ p ∈ active, b.2 p ≠ 0) (hm : b.2 m ≠ 0)
    (h : IsMedianOf (batteryKey b.1 b.2) active (batteryKey b.1 b.2 m)) :
    b.2 m ≤ b.1 m ↔ MostInWindow active b := by
  have hiff := OrderStat.lt_iff_of_nthElement (c := toLex (1, 0)) h
  rw [batteryKey_lt_iff hm, List.filter_map, List.length_map] at hiff
  have hfilter : active.filter ((fun x : ℕ ×ₗ ℕ => decide (x < toLex (1, 0))) ∘
      batteryKey b.1 b.2) = active.filter fun p => b.1 p < b.2 p := by
    apply List.filter_congr
    intro p hp
    simp only [Function.comp_apply, batteryKey_lt_iff (hitems p hp)]
  rw [hfilter] at hiff
  unfold MostInWindow
  omega

/-- Each window of the median comes from one of the properties. -/
theorem batteries_of_calcMedianProps {hf23 hf26 hf27 : Bool} {m : ChainProperties}
    (h : active ≠ []) (hm : calcMedianProps active hf23 hf26 hf27 = .ok m) :
    ∀ b ∈ batteryParams, IsMedianOf (batteryKey b.1 b.2) active (batteryKey b.1 b.2 m) ∧
      ∃ p ∈ active, b.1 p = b.1 m ∧ b.2 p = b.2 m := by
  simp only [calcMedianProps, bind_eq_ok, pure_eq_ok, Prod.exists] at hm
  obtain ⟨_, -, _, -, _, -, _, -, _, -, _, -, _, _, hposts, _, _, hcomments, _, _, hvotes,
    _, -, _, -, _, -, _, -, _, _, -, _, -, _, -, _, -, _, -, _, -, _, -, rfl⟩ := hm
  simp only [batteryParams, List.forall_mem_cons, List.not_mem_nil, false_imp_iff, implies_true,
    and_true]
  exact ⟨battery_of_eq (calcMedianBattery_spec h hposts),
    battery_of_eq (calcMedianBattery_spec h hcomments),
    battery_of_eq (calcMedianBattery_spec h hvotes)⟩

theorem inWindows_of_calcMedianProps_nil {hf23 hf26 hf27 : Bool} {m : ChainProperties}
    (hm : calcMedianProps [] hf23 hf26 hf27 = .ok m) : InWindows m := by
  simp only [calcMedianProps, calcMedianBattery, bind_eq_ok, pure_eq_ok, Prod.exists,
    Prod.mk.injEq] at hm
  obtain ⟨_, -, _, -, _, -, _, -, _, -, _, -, _, _, ⟨-, -, rfl, rfl⟩, _, _, ⟨-, -, rfl, rfl⟩, _, _,
    ⟨-, -, rfl, rfl⟩, _, -, _, -, _, -, _, -, _, _, -, _, -, _, -, _, -, _, -, _, -, _, -, rfl⟩ := hm
  rw [inWindows_iff]
  exact inWindows_iff.mp inWindows_default

end median

namespace WitnessDatabase

variable {db db' db'' : WitnessDatabase}

section frame

/-- The windows of the witnesses and of the median are the same. -/
structure SameBatteries (db db' : WitnessDatabase) : Prop where
  witnesses : WitnessTable.Keeps (fun w => batteries w.props) db.witnesses db'.witnesses
  medianProps : batteries db'.schedule.medianProps = batteries db.schedule.medianProps

theorem SameBatteries.refl (db : WitnessDatabase) : db.SameBatteries db :=
  ⟨.refl _, rfl⟩

theorem SameBatteries.trans (h : db.SameBatteries db') (h' : db'.SameBatteries db'') :
    db.SameBatteries db'' :=
  ⟨h.witnesses.trans h'.witnesses, h'.medianProps.trans h.medianProps⟩

theorem SameBatteries.modifyWitness {name : AccountName} {f : WitnessObject → WitnessObject}
    {hf : ∀ w, (f w).owner = w.owner} (hread : ∀ w, batteries (f w).props = batteries w.props) :
    db.SameBatteries (db.modifyWitness name f hf) := by
  constructor
  . apply WitnessTable.Keeps.modify (.refl db.witnesses) hread
    exact hf
  . rfl

theorem SameBatteries.adjustWitnessVote {name : AccountName} {delta : ℤ}
    (h : db.adjustWitnessVote name delta = .ok db') : db.SameBatteries db' := by
  simp only [WitnessDatabase.adjustWitnessVote, bind_eq_ok, pure_eq_ok] at h
  obtain ⟨_, -, _, -, _, -, rfl⟩ := h
  apply modifyWitness
  intro w
  rfl

theorem SameBatteries.applyVotes {votes : List (AccountName × ℤ)}
    (h : db.applyVotes votes = .ok db') : db.SameBatteries db' := by
  refine foldlM_invariant (P := fun db' _ => db.SameBatteries db') ?_ (.refl db) h
  intro db₁ db₂ v _ h₁ h₂
  exact h₁.trans (.adjustWitnessVote h₂)

theorem SameBatteries.clearWitnessVotes (db : WitnessDatabase) :
    db.SameBatteries db.clearWitnessVotes := by
  constructor
  . apply WitnessTable.Keeps.modifyWhere (.refl db.witnesses)
    . intro w
      rfl
    . intro w
      rfl
  . rfl

theorem SameBatteries.resetVirtualScheduleTime (db : WitnessDatabase) :
    db.SameBatteries db.resetVirtualScheduleTime := by
  constructor
  . apply WitnessTable.Keeps.modifyWhere (.refl db.witnesses)
    . intro w
      rfl
    . intro w
      rfl
  . rfl

theorem SameBatteries.convertMinCurateGolosPower (h : db.convertMinCurateGolosPower = .ok db') :
    db.SameBatteries db' := by
  simp only [WitnessDatabase.convertMinCurateGolosPower, bind_eq_ok, pure_eq_ok] at h
  obtain ⟨db₁, hloop, _, -, rfl⟩ := h
  have hloop : db.SameBatteries db₁ := by
    refine foldlM_invariant (P := fun db' _ => db.SameBatteries db') ?_ (.refl db) hloop
    intro db₁ db₂ w _ h₁ h₂
    simp only [bind_eq_ok, pure_eq_ok] at h₂
    obtain ⟨_, -, rfl⟩ := h₂
    apply h₁.trans
    apply modifyWitness
    intro w
    rfl
  exact hloop.trans ⟨.refl _, rfl⟩

/-- Only the hardfork that makes minutes of seconds touches the windows. -/
theorem SameBatteries.performHardfork {hardfork : Nat} {votes : List (AccountName × ℤ)}
    (hne : hardfork ≠ 26) (h : db.performHardfork hardfork votes = .ok db') :
    db.SameBatteries db' := by
  unfold WitnessDatabase.performHardfork at h
  split at h
  . exact (clearWitnessVotes db).trans (.applyVotes h)
  . exact (clearWitnessVotes db).trans (.applyVotes h)
  . rw [pure_eq_ok] at h
    exact h ▸ resetVirtualScheduleTime db
  . exact (clearWitnessVotes db).trans (.applyVotes h)
  . exact absurd rfl hne
  . exact .convertMinCurateGolosPower h
  . rw [pure_eq_ok] at h
    exact h ▸ .refl db

theorem SameBatteries.makeSchedule (h : db.makeSchedule = .ok db') : db.SameBatteries db' := by
  have hkeeps := db.keeps_advance
  have hmedian : db.advance.1.schedule.medianProps = db.schedule.medianProps := by
    unfold advance
    dsimp only
    split
    . rfl
    . rfl
  obtain ⟨_, _, rfl, -⟩ := makeSchedule_cases h
  constructor
  . intro w hw
    obtain ⟨w₀, hw₀, heq⟩ := hkeeps w hw
    exact ⟨w₀, hw₀, congrArg (fun x => batteries x.2) heq⟩
  . exact congrArg batteries hmedian

theorem lastHardfork_makeSchedule (h : db.makeSchedule = .ok db') :
    db'.hardforks.lastHardfork = db.hardforks.lastHardfork := by
  obtain ⟨_, _, rfl, -, htally, hkeep⟩ := makeSchedule_cases h
  by_cases hhf : db.hasHardfork 5
  . obtain ⟨_, -, htally⟩ := htally hhf
    exact (tallyVersions_cases htally).1.1
  . exact congrArg HardforkPropertyObject.lastHardfork (hkeep hhf)

end frame

section windowed

/-- The windows of the median leave time for their operations, and before the hardfork that makes
minutes of seconds those of all witnesses do. -/
structure Windowed (db : WitnessDatabase) : Prop where
  medianProps : InWindows db.schedule.medianProps
  witnesses : ∀ w ∈ db.witnesses.rows, HasItems w.props
  early : ¬db.hasHardfork 26 → ∀ w ∈ db.witnesses.rows, InWindows w.props

theorem Windowed.of_same (h : db.Windowed) (hsame : db.SameBatteries db')
    (hlast : db'.hardforks.lastHardfork = db.hardforks.lastHardfork) : db'.Windowed where
  medianProps := h.medianProps.congr hsame.medianProps
  witnesses := by
    intro w hw
    obtain ⟨w₀, hw₀, heq⟩ := hsame.witnesses w hw
    exact (h.witnesses w₀ hw₀).congr heq
  early := by
    unfold hasHardfork
    rw [hlast]
    intro hearly w hw
    obtain ⟨w₀, hw₀, heq⟩ := hsame.witnesses w hw
    exact (h.early hearly w₀ hw₀).congr heq

/-- A witness gets other properties. -/
theorem Windowed.modifyWitness {name : AccountName} {f : WitnessObject → WitnessObject}
    {hf : ∀ w, (f w).owner = w.owner} (h : db.Windowed)
    (hitems : ∀ w ∈ db.witnesses.rows, HasItems (f w).props)
    (hwindows : ¬db.hasHardfork 26 → ∀ w ∈ db.witnesses.rows, InWindows (f w).props) :
    (db.modifyWitness name f hf).Windowed where
  medianProps := h.medianProps
  witnesses := by
    intro w hw
    unfold WitnessDatabase.modifyWitness at hw
    dsimp only at hw
    rw [Table.mem_modify] at hw
    rcases hw with ⟨hw, -⟩ | ⟨w₀, hw₀, -, rfl⟩
    . exact h.witnesses w hw
    . exact hitems w₀ hw₀
  early := by
    intro hearly w hw
    unfold WitnessDatabase.modifyWitness at hw
    dsimp only at hw
    rw [Table.mem_modify] at hw
    rcases hw with ⟨hw, -⟩ | ⟨w₀, hw₀, -, rfl⟩
    . exact h.early hearly w hw
    . exact hwindows hearly w₀ hw₀

theorem Windowed.createWitness {w : WitnessObject} (h : db.Windowed) (hitems : HasItems w.props)
    (hwindows : ¬db.hasHardfork 26 → InWindows w.props) (hdb : db.createWitness w = .ok db') :
    db'.Windowed := by
  simp only [WitnessDatabase.createWitness, bind_eq_ok, get_eq_ok, pure_eq_ok] at hdb
  obtain ⟨witnesses, hwitnesses, rfl⟩ := hdb
  obtain ⟨hnone, rfl⟩ := Table.emplace_eq_some_iff.mp hwitnesses
  constructor
  . exact h.medianProps
  . intro w' hw'
    rcases (Table.mem_insert hnone).mp hw' with hw' | rfl
    . exact h.witnesses w' hw'
    . exact hitems
  . intro hearly w' hw'
    rcases (Table.mem_insert hnone).mp hw' with hw' | rfl
    . exact h.early hearly w' hw'
    . exact hwindows hearly

theorem props_updateWitness {o : WitnessUpdateOperation} (w : WitnessObject) :
    batteries (db.updateWitness o w).props = batteries w.props := by
  unfold updateWitness
  dsimp only
  split
  . rfl
  . rfl

theorem Windowed.witnessUpdate {o : WitnessUpdateOperation} (h : db.Windowed)
    (hdb : db.witnessUpdate o = .ok db') : db'.Windowed := by
  simp only [WitnessDatabase.witnessUpdate, bind_eq_ok] at hdb
  obtain ⟨-, -, -, -, -, -, hdb⟩ := hdb
  split at hdb
  . rw [pure_eq_ok] at hdb
    subst hdb
    apply h.modifyWitness
    . intro w hw
      exact (h.witnesses w hw).congr (props_updateWitness w)
    . intro hearly w hw
      exact (h.early hearly w hw).congr (props_updateWitness w)
  . have hdefault : ∀ id created, InWindows (db.updateWitness o
        { id := id, owner := o.owner, created := created }).props := fun id created =>
      inWindows_default.congr (props_updateWitness _)
    refine h.createWitness ?_ ?_ hdb
    . -- the minutes and the golos power to curate change no numbers of operations
      rw [hasItems_iff]
      have hitems := hasItems_iff.mp (hdefault db.nextWitnessId db.properties.time).hasItems
      dsimp only
      split
      . split
        . exact hitems
        . exact hitems
      . split
        . exact hitems
        . exact hitems
    . intro hearly
      apply (hdefault db.nextWitnessId db.properties.time).congr
      have hlater : ¬db.hasHardfork 28 := by
        unfold hasHardfork at hearly ⊢
        omega
      dsimp only
      rw [if_neg hearly, if_neg hlater]

theorem Windowed.updateChainProperties {o : ChainPropertiesUpdateOperation} (h : db.Windowed)
    (hdb : db.updateChainProperties o = .ok db') : db'.Windowed := by
  simp only [WitnessDatabase.updateChainProperties, ChainPropertiesUpdateOperation.validate,
    chainPropertiesUpdate, bind_eq_ok] at hdb
  obtain ⟨_, ⟨-, -, hvalidate⟩, -, -, hdb⟩ := hdb
  split at hdb
  . next w hw =>
    simp only [bind_eq_ok, pure_eq_ok] at hdb
    obtain ⟨_, ⟨-, -, rfl⟩, rfl⟩ := hdb
    have hrow := Table.mem_of_find? hw
    apply h.modifyWitness
    . intro _ _
      exact (h.witnesses w hrow).assign hvalidate
    . intro hearly _ _
      exact (h.early hearly w hrow).assign hvalidate
  . simp only [bind_eq_ok, pure_eq_ok] at hdb
    obtain ⟨_, ⟨-, -, rfl⟩, hdb⟩ := hdb
    refine h.createWitness ?_ ?_ hdb
    . exact (inWindows_default.assign hvalidate).hasItems
    . intro _
      exact inWindows_default.assign hvalidate

theorem Windowed.applyPow {o : PowOperation} (h : db.Windowed) (hdb : db.applyPow o = .ok db') :
    db'.Windowed := by
  simp only [WitnessDatabase.applyPow, bind_eq_ok] at hdb
  obtain ⟨-, -, -, -, hdb⟩ := hdb
  have hcounted : ∀ properties, { db with properties := properties : WitnessDatabase }.Windowed :=
    fun properties => ⟨h.medianProps, h.witnesses, h.early⟩
  split at hdb
  . simp only [bind_eq_ok, pure_eq_ok] at hdb
    obtain ⟨-, -, rfl⟩ := hdb
    apply (hcounted _).modifyWitness
    . exact h.witnesses
    . exact h.early
  . refine (hcounted _).createWitness ?_ ?_ hdb
    . rw [hasItems_iff]
      have hitems := hasItems_iff.mp inWindows_default.hasItems
      dsimp only
      split
      . exact hitems
      . exact hitems
    . intro hearly
      have hearly : ¬db.hasHardfork 26 := hearly
      have hearly' : ¬({ db with
          properties :=
            { db.properties with
              totalPow := (db.properties.totalPow + 1) % 2 ^ 64
              numPowWitnesses := (db.properties.numPowWitnesses + 1) % 2 ^ 32 } :
          WitnessDatabase }).hasHardfork 26 := hearly
      dsimp only
      rw [if_neg hearly']
      exact inWindows_default

theorem mem_props_of_mapM_getWitness {names : List AccountName} {active : List WitnessObject}
    (h : names.mapM db.getWitness = .ok active) :
    ∀ p ∈ active.map WitnessObject.props, ∃ w ∈ db.witnesses.rows, w.props = p := by
  rw [mapM_eq_ok] at h
  induction h with
  | nil =>
    intro p hp
    cases hp
  | cons hw _ ih =>
    rw [List.map_cons, List.forall_mem_cons]
    exact ⟨⟨_, Table.mem_of_find? (get_eq_ok.mp hw), rfl⟩, ih⟩

/-- The median is taken anew, which needs most of the scheduled witnesses to leave time. -/
theorem Windowed.updateMedianWitnessProps (hitems : ∀ w ∈ db.witnesses.rows, HasItems w.props)
    (hearly : ¬db.hasHardfork 26 → ∀ w ∈ db.witnesses.rows, InWindows w.props)
    (hmost : db.hasHardfork 26 → ∀ active, db.scheduledWitnesses.mapM db.getWitness = .ok active →
      ∀ b ∈ batteryParams, MostInWindow (active.map WitnessObject.props) b)
    (hdb : db.updateMedianWitnessProps = .ok db') : db'.Windowed := by
  simp only [WitnessDatabase.updateMedianWitnessProps, bind_eq_ok, pure_eq_ok] at hdb
  obtain ⟨active, hactive, medianProps, hmedian, rfl⟩ := hdb
  have hrows : ∀ p ∈ active.map WitnessObject.props, ∃ w ∈ db.witnesses.rows, w.props = p :=
    mem_props_of_mapM_getWitness hactive
  refine ⟨?_, hitems, hearly⟩
  dsimp only
  by_cases hnil : active.map WitnessObject.props = []
  . rw [hnil] at hmedian
    exact inWindows_of_calcMedianProps_nil hmedian
  . intro x hx
    obtain ⟨b, hb, rfl⟩ := List.mem_map.mp hx
    obtain ⟨hkey, p, hp, hwindow, hcount⟩ := batteries_of_calcMedianProps hnil hmedian b hb
    obtain ⟨w, hw, rfl⟩ := hrows p hp
    have hitem : b.2 medianProps ≠ 0 := by
      rw [← hcount]
      exact hitems w hw _ (List.mem_map_of_mem hb)
    refine ⟨hitem, ?_⟩
    by_cases hhf : db.hasHardfork 26
    . refine (inWindow_iff_of_isMedianOf ?_ hitem hkey).mpr (hmost hhf active hactive b hb)
      intro p hp
      obtain ⟨w, hw, rfl⟩ := hrows p hp
      exact hitems w hw _ (List.mem_map_of_mem hb)
    . dsimp only
      rw [← hwindow, ← hcount]
      exact (hearly hhf w hw _ (List.mem_map_of_mem hb)).2

/-- What must hold for the median to leave time for its operations: most of the witnesses that are
scheduled now leave time, and so did the median when its seconds became minutes. -/
def LeavesTime (db : WitnessDatabase) : WitnessEvent → Prop
  | .updateWitnessSchedule4 => db.hasHardfork 26 →
    ∀ scheduled active, db.makeSchedule = .ok scheduled →
      scheduled.scheduledWitnesses.mapM scheduled.getWitness = .ok active →
      ∀ b ∈ batteryParams, MostInWindow (active.map WitnessObject.props) b
  | .applyHardfork _ _ => db.hardforks.lastHardfork = 25 →
    ∀ b ∈ batteries db.schedule.medianProps, b.2 ≤ max (b.1 / 60) 1
  | _ => True

instance (version : Nat) (votes : List (AccountName × ℤ)) :
    Decidable (db.LeavesTime (.applyHardfork version votes)) :=
  inferInstanceAs (Decidable (_ → ∀ b ∈ batteries db.schedule.medianProps, _))

theorem Windowed.applyHardfork {version : Nat} {votes : List (AccountName × ℤ)} (h : db.Windowed)
    (hok : db.LeavesTime (.applyHardfork version votes))
    (hdb : db.applyHardfork version votes = .ok db') : db'.Windowed := by
  simp only [WitnessDatabase.applyHardfork, bind_eq_ok, pure_eq_ok] at hdb
  obtain ⟨db₁, hperform, rfl⟩ := hdb
  have hhardforks := (SameHardforks.performHardfork hperform).hardforks
  by_cases hlast : db.hardforks.lastHardfork = 25
  . have hok := hok hlast
    rw [hlast] at hperform
    simp only [WitnessDatabase.performHardfork, pure_eq_ok] at hperform
    subst hperform
    have hhas : ∀ hardforks : HardforkPropertyObject, hardforks.lastHardfork = 26 →
        26 ≤ hardforks.lastHardfork := fun _ heq => heq.ge
    constructor
    . rw [inWindows_iff]
      obtain ⟨⟨hposts, -⟩, ⟨hcomments, -⟩, hvotes, -⟩ := inWindows_iff.mp h.medianProps
      simp only [batteries, batteryParams, List.map_cons, List.map_nil, List.forall_mem_cons,
        List.not_mem_nil, false_imp_iff, implies_true, and_true] at hok
      exact ⟨⟨hposts, hok.1⟩, ⟨hcomments, hok.2.1⟩, hvotes, hok.2.2⟩
    . intro w hw
      unfold updateWitnessWindowsSecToMin WitnessTable.modifyAll at hw
      dsimp only at hw
      rw [Table.mem_modifyWhere] at hw
      obtain ⟨w₀, hw₀, rfl⟩ := hw
      split
      . exact (h.witnesses w₀ hw₀).hf26WindowsSecToMin
      . exact h.witnesses w₀ hw₀
    . intro hearly
      exact absurd (hhas _ (congrArg (· + 1) hlast)) hearly
  . have hsame := SameBatteries.performHardfork (fun heq => hlast (by omega)) hperform
    constructor
    . exact h.medianProps.congr hsame.medianProps
    . intro w hw
      obtain ⟨w₀, hw₀, heq⟩ := hsame.witnesses w hw
      exact (h.witnesses w₀ hw₀).congr heq
    . intro hearly w hw
      obtain ⟨w₀, hw₀, heq⟩ := hsame.witnesses w hw
      refine (h.early ?_ w₀ hw₀).congr heq
      unfold hasHardfork at hearly ⊢
      dsimp only at hearly
      omega

theorem Windowed.initial (h : witnessSystem.initial db) : db.Windowed := by
  obtain ⟨key, accounts, rfl⟩ := h
  have hrow : ∀ w ∈ (initGenesis key accounts).witnesses.rows, w.props = {} := by
    intro w hw
    have hrows : (initGenesis key accounts).witnesses.rows =
        [{ id := 0, owner := steemitInitMinerName, signingKey := key, schedule := .miner }] := rfl
    rw [hrows, List.mem_singleton] at hw
    rw [hw]
  constructor
  . exact inWindows_default
  . intro w hw
    rw [hrow w hw]
    exact inWindows_default.hasItems
  . intro _ w hw
    rw [hrow w hw]
    exact inWindows_default

theorem Windowed.step {e : WitnessEvent} (h : db.Windowed) (hok : db.LeavesTime e)
    (hstep : db.Step e db') : db'.Windowed := by
  cases e with
  | witnessUpdate o => exact h.witnessUpdate hstep
  | chainPropertiesUpdate o => exact h.updateChainProperties hstep
  | pow o => exact h.applyPow hstep
  | adjustWitnessVote name delta =>
    have hhardforks := (SameHardforks.adjustWitnessVote hstep).hardforks
    exact h.of_same (.adjustWitnessVote hstep) (congrArg _ hhardforks)
  | updateWitnessSchedule4 =>
    obtain ⟨-, hstep⟩ := hstep
    simp only [WitnessDatabase.updateWitnessSchedule4, bind_eq_ok] at hstep
    obtain ⟨scheduled, hmake, hmedian⟩ := hstep
    have hlast := lastHardfork_makeSchedule hmake
    have hscheduled := h.of_same (.makeSchedule hmake) hlast
    refine updateMedianWitnessProps hscheduled.witnesses hscheduled.early ?_ hmedian
    intro hhf active hactive
    unfold hasHardfork at hhf
    rw [hlast] at hhf
    exact hok hhf scheduled active hmake hactive
  | applyHardfork version votes => exact h.applyHardfork hok hstep
  | earlySchedule =>
    obtain ⟨hearly, changed, ⟨f, hf, hrows, -, -, hhardforks, -⟩, hmedian⟩ := hstep
    have hhf : ¬db.hasHardfork 26 := by
      unfold hasHardfork at hearly ⊢
      omega
    have hchanged : ∀ w ∈ changed.witnesses.rows, InWindows w.props := by
      intro w hw
      rw [hrows] at hw
      obtain ⟨w₀, hw₀, rfl⟩ := List.mem_map.mp hw
      rw [(hf w₀).2]
      exact h.early hhf w₀ hw₀
    refine updateMedianWitnessProps (fun w hw => (hchanged w hw).hasItems) (fun _ => hchanged) ?_
      hmedian
    intro hhas
    unfold hasHardfork at hhas hhf
    rw [hhardforks] at hhas
    exact absurd hhas hhf
  | other =>
    obtain ⟨f, hf, hrows, hschedule, hlast, -⟩ := hstep
    apply h.of_same ⟨?_, by rw [hschedule]⟩ hlast
    intro w hw
    rw [hrows] at hw
    obtain ⟨w₀, hw₀, rfl⟩ := List.mem_map.mp hw
    exact ⟨w₀, hw₀, congrArg batteries (hf w₀).2.1⟩

theorem windowed_of_reach (h : witnessSystem.Reach LeavesTime db) : db.Windowed :=
  h.invariant (fun _ => .initial) fun _ _ _ hwindowed hok hstep => hwindowed.step hok hstep

end windowed

section hardforks

/-- So many hardforks one after the other, with no votes to count anew. -/
def applyHardforks (db : WitnessDatabase) (n : Nat) : Result WitnessDatabase :=
  (List.replicate n ()).foldlM (fun db _ => db.applyHardfork 0 []) db

theorem reach_applyHardforks {ok : WitnessDatabase → WitnessEvent → Prop} {n : Nat}
    (h : witnessSystem.Reach ok db)
    (hok : TransitionSystem.Along (fun (db : WitnessDatabase) (_ : Unit) => db.applyHardfork 0 [])
      (fun db _ => ok db (.applyHardfork 0 [])) db (List.replicate n ()))
    (hdb : db.applyHardforks n = .ok db') : witnessSystem.Reach ok db' := by
  have hevents : ∀ u ∈ List.replicate n (), ∀ db db', (fun (db : WitnessDatabase) (_ : Unit) =>
      db.applyHardfork 0 []) db u = .ok db' →
        witnessSystem.step db ((fun _ => WitnessEvent.applyHardfork 0 []) u) db' :=
    fun _ _ _ _ hstep => hstep
  exact h.operations hevents hok hdb

/-- A chain whose witness has never voted for properties, after hardfork 27. -/
def untouched : WitnessDatabase :=
  ((initGenesis 1 []).applyHardforks 27).toOption.getD {}

theorem reachable_untouched : witnessSystem.Reachable untouched := by
  have hinitial : witnessSystem.Reachable (initGenesis 1 []) := .initial ⟨1, [], rfl⟩
  apply reach_applyHardforks (n := 27) hinitial
  . exact .of_forall (fun _ _ => trivial) _ _
  . exact eq_ok_of_isSome (by decide +kernel)

/-- A chain whose witness has voted for windows that stay long enough in minutes. -/
def early : WitnessDatabase :=
  ((initGenesis 1 [steemitInitMinerName]).applyHardforks 4).toOption.getD {}

def timelyOperation : ChainPropertiesUpdateOperation where
  owner := steemitInitMinerName
  props := .chainProperties19
    { postsWindow := 300
      commentsWindow := 600
      votesWindow := 300
      minReferralBreakFee := ⟨1, steemSymbol⟩
      createAccountMinGolosFee := ⟨1, steemSymbol⟩ }

def voted : WitnessDatabase :=
  (early.updateChainProperties timelyOperation).toOption.getD {}

def scheduled : WitnessDatabase :=
  voted.updateWitnessSchedule4.toOption.getD {}

def timely : WitnessDatabase :=
  (scheduled.applyHardforks 23).toOption.getD {}

theorem reach_timely : witnessSystem.Reach LeavesTime timely := by
  have hinitial : witnessSystem.Reach LeavesTime (initGenesis 1 [steemitInitMinerName]) :=
    .initial ⟨1, _, rfl⟩
  have hearly : witnessSystem.Reach LeavesTime early :=
    reach_applyHardforks (n := 4) hinitial (by decide +kernel)
      (eq_ok_of_isSome (by decide +kernel))
  have hvoted : witnessSystem.Reach LeavesTime voted :=
    .step (e := .chainPropertiesUpdate timelyOperation) hearly trivial
      (eq_ok_of_isSome (by decide +kernel))
  have hscheduled : witnessSystem.Reach LeavesTime scheduled := by
    refine .step (e := .updateWitnessSchedule4) hvoted ?_
      ⟨by decide +kernel, eq_ok_of_isSome (by decide +kernel)⟩
    intro hlate
    exact absurd hlate (by decide +kernel)
  exact reach_applyHardforks (n := 23) hscheduled (by decide +kernel)
    (eq_ok_of_isSome (by decide +kernel))

end hardforks

end WitnessDatabase

end Golos.Witness
