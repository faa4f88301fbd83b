import Golos.Witness.Lemmas.Schedule
import Golos.Witness.Run

/-!
This module contains what the schedule, the extensions of a block and the loop over the hardforks do
to the hardforks, and the order in which they are applied in all runs of blocks.
-/

namespace Golos.Witness

open Checked

namespace WitnessDatabase

/-- Nothing that the hardforks are decided by differs. -/
structure SameHardforks (db db' : WitnessDatabase) : Prop where
  hardforks : db'.hardforks = db.hardforks
  properties : db'.properties = db.properties
  scheduledWitnesses : db'.scheduledWitnesses = db.scheduledWitnesses

variable {db db' db'' : WitnessDatabase}

theorem SameHardforks.refl (db : WitnessDatabase) : db.SameHardforks db :=
  ⟨rfl, rfl, rfl⟩

theorem SameHardforks.trans (h : db.SameHardforks db') (h' : db'.SameHardforks db'') :
    db.SameHardforks db'' :=
  ⟨h'.hardforks.trans h.hardforks, h'.properties.trans h.properties,
    h'.scheduledWitnesses.trans h.scheduledWitnesses⟩

theorem SameHardforks.adjustWitnessVote {name : AccountName} {delta : ℤ}
    (h : db.adjustWitnessVote name delta = .ok db') : db.SameHardforks db' := by
  simp only [WitnessDatabase.adjustWitnessVote, bind_eq_ok, pure_eq_ok] at h
  obtain ⟨_, _, _, _, _, _, rfl⟩ := h
  exact ⟨rfl, rfl, rfl⟩

theorem SameHardforks.applyVotes {votes : List (AccountName × ℤ)}
    (h : db.applyVotes votes = .ok db') : db.SameHardforks db' := by
  apply foldlM_invariant (P := fun db' _ => db.SameHardforks db') _ (.refl db) h
  intro db₁ db₂ v _ h₁ h₂
  exact h₁.trans (.adjustWitnessVote h₂)

theorem SameHardforks.convertMinCurateGolosPower (h : db.convertMinCurateGolosPower = .ok db') :
    db.SameHardforks db' := by
  simp only [WitnessDatabase.convertMinCurateGolosPower, bind_eq_ok, pure_eq_ok] at h
  obtain ⟨db₁, hloop, _, _, rfl⟩ := h
  have hloop : db.SameHardforks db₁ := by
    apply foldlM_invariant (P := fun db' _ => db.SameHardforks db') _ (.refl db) hloop
    intro db₁ db₂ w _ h₁ h₂
    simp only [bind_eq_ok, pure_eq_ok] at h₂
    obtain ⟨_, _, rfl⟩ := h₂
    exact h₁.trans ⟨rfl, rfl, rfl⟩
  exact hloop.trans ⟨rfl, rfl, rfl⟩

/-- No hardfork decides on hardforks itself. -/
theorem SameHardforks.performHardfork {hardfork : Nat} {votes : List (AccountName × ℤ)}
    (h : db.performHardfork hardfork votes = .ok db') : db.SameHardforks db' := by
  have hclear : db.SameHardforks db.clearWitnessVotes := ⟨rfl, rfl, rfl⟩
  unfold WitnessDatabase.performHardfork at h
  split at h
  . exact hclear.trans (.applyVotes h)
  . exact hclear.trans (.applyVotes h)
  . rw [pure_eq_ok] at h
    subst h
    exact ⟨rfl, rfl, rfl⟩
  . exact hclear.trans (.applyVotes h)
  . rw [pure_eq_ok] at h
    subst h
    exact ⟨rfl, rfl, rfl⟩
  . exact .convertMinCurateGolosPower h
  . rw [pure_eq_ok] at h
    exact h ▸ .refl db

theorem SameHardforks.updateMedianWitnessProps (h : db.updateMedianWitnessProps = .ok db') :
    db'.hardforks = db.hardforks ∧ db'.scheduledWitnesses = db.scheduledWitnesses := by
  simp only [WitnessDatabase.updateMedianWitnessProps, bind_eq_ok, pure_eq_ok] at h
  obtain ⟨_, _, _, _, rfl⟩ := h
  exact ⟨rfl, rfl⟩

section unknown

theorem applyVotes_ne_unknown (db : WitnessDatabase) (votes : List (AccountName × ℤ)) :
    db.applyVotes votes ≠ .error .unknownHardforkException := by
  apply foldlM_ne_error
  intro db v
  unfold adjustWitnessVote getWitness int64
  apply bind_ne_error (get_ne_error (by decide))
  intro w _
  apply bind_ne_error
  . split
    . exact pure_ne_error _
    . exact fun h => nomatch h
  . intro votes _
    apply bind_ne_error (ensure_ne_error (by decide))
    intro _ _
    exact pure_ne_error _

theorem convertToGbg_ne_unknown (db : WitnessDatabase) (a : Asset) :
    db.convertToGbg a ≠ .error .unknownHardforkException := by
  have hof : ∀ x, ofUint128 x ≠ .error .unknownHardforkException := by
    intro x
    unfold ofUint128
    split
    . exact pure_ne_error _
    . intro h
      cases h
  unfold convertToGbg
  split
  . unfold Asset.mulPrice
    split
    . apply bind_ne_error (ensure_ne_error (by decide))
      intro _ _
      apply bind_ne_error (hof _)
      intro _ _
      exact pure_ne_error _
    . split
      . apply bind_ne_error (ensure_ne_error (by decide))
        intro _ _
        apply bind_ne_error (hof _)
        intro _ _
        exact pure_ne_error _
      . intro h
        cases h
  . exact pure_ne_error _

/-- No hardfork that the node knows is unknown to it. -/
theorem performHardfork_ne_unknown (db : WitnessDatabase) (hardfork : Nat)
    (votes : List (AccountName × ℤ)) :
    db.performHardfork hardfork votes ≠ .error .unknownHardforkException := by
  unfold performHardfork
  split
  . exact applyVotes_ne_unknown _ votes
  . exact applyVotes_ne_unknown _ votes
  . exact pure_ne_error _
  . exact applyVotes_ne_unknown _ votes
  . exact pure_ne_error _
  . unfold convertMinCurateGolosPower
    apply bind_ne_error
    . apply foldlM_ne_error
      intro _ w
      apply bind_ne_error (convertToGbg_ne_unknown db _)
      intro _ _
      exact pure_ne_error _
    . intro _ _
      apply bind_ne_error (convertToGbg_ne_unknown db _)
      intro _ _
      exact pure_ne_error _
  . exact pure_ne_error _

end unknown

end WitnessDatabase

section tally

variable {scheduled : List WitnessObject} {majorityVersion majorityVersion' : Nat}
  {hfp hfp' : HardforkPropertyObject}

def hardforkVotes (scheduled : List WitnessObject) : List (Nat × Nat) :=
  scheduled.map fun w => (w.hardforkVersionVote, w.hardforkTimeVote)

/-- The next hardfork is what enough of the counted witnesses vote for, or none at all. -/
theorem tallyVersions_cases
    (h : tallyVersions scheduled majorityVersion hfp = (majorityVersion', hfp')) :
    (hfp'.lastHardfork = hfp.lastHardfork ∧
      hfp'.currentHardforkVersion = hfp.currentHardforkVersion) ∧
      (hfp'.nextHardfork = hfp.currentHardforkVersion ∨
        steemitHardforkRequiredWitnesses ≤
          (hardforkVotes scheduled).count (hfp'.nextHardfork, hfp'.nextHardforkTime)) := by
  unfold tallyVersions at h
  dsimp only at h
  split at h
  . next v hfind =>
    obtain ⟨rfl, rfl⟩ := Prod.mk.inj h
    have := List.find?_some hfind
    exact ⟨⟨rfl, rfl⟩, .inr (of_decide_eq_true this)⟩
  . obtain ⟨rfl, rfl⟩ := Prod.mk.inj h
    exact ⟨⟨rfl, rfl⟩, .inl rfl⟩

end tally

namespace HardforkDatabase

/-- Enough of the witnesses whose votes are counted last have agreed. -/
def Majority (db : HardforkDatabase) (version time : Nat) : Prop :=
  steemitHardforkRequiredWitnesses ≤ (hardforkVotes db.evaluated).count (version, time)

/-- They have agreed on a hardfork above the one before `hardfork`, whose time has come. -/
def Agreed (db : HardforkDatabase) (hardfork : Nat) : Prop :=
  ∃ version time, db.Majority version time ∧ hardforkVersions (hardfork - 1) < version ∧
    time ≤ db.properties.time

/-- The hardforks have been applied in their order, and the next one is decided by votes. -/
structure Ordered (db : HardforkDatabase) : Prop where
  processedHardforks :
    db.processedHardforks = (List.range (db.hardforks.lastHardfork + 1)).map hardforkTimes
  applied : db.applied = List.range' 1 db.hardforks.lastHardfork
  known : db.hardforks.lastHardfork ≤ steemitNumHardforks
  current : db.hardforks.currentHardforkVersion = hardforkVersions db.hardforks.lastHardfork
  voted : hardforkVersions db.hardforks.lastHardfork < db.hardforks.nextHardfork →
    db.Majority db.hardforks.nextHardfork db.hardforks.nextHardforkTime
  drawn : db.drawn = true → db.scheduledWitnesses.Nodup
  evaluatedDrawn : db.evaluatedDrawn = true → (db.evaluated.map WitnessObject.owner).Nodup

/-- What the loops over the hardforks leave alone. -/
structure SameVotes (db db' : HardforkDatabase) : Prop where
  nextHardfork : db'.hardforks.nextHardfork = db.hardforks.nextHardfork
  nextHardforkTime : db'.hardforks.nextHardforkTime = db.hardforks.nextHardforkTime
  properties : db'.properties = db.properties
  scheduledWitnesses : db'.scheduledWitnesses = db.scheduledWitnesses
  evaluated : db'.evaluated = db.evaluated
  drawn : db'.drawn = db.drawn
  evaluatedDrawn : db'.evaluatedDrawn = db.evaluatedDrawn

variable {db db' db'' : HardforkDatabase} {votes : Nat → List (AccountName × ℤ)} {hardfork : Nat}

theorem SameVotes.refl (db : HardforkDatabase) : db.SameVotes db :=
  ⟨rfl, rfl, rfl, rfl, rfl, rfl, rfl⟩

theorem SameVotes.trans (h : db.SameVotes db') (h' : db'.SameVotes db'') : db.SameVotes db'' :=
  ⟨h'.nextHardfork.trans h.nextHardfork, h'.nextHardforkTime.trans h.nextHardforkTime,
    h'.properties.trans h.properties, h'.scheduledWitnesses.trans h.scheduledWitnesses,
    h'.evaluated.trans h.evaluated, h'.drawn.trans h.drawn,
    h'.evaluatedDrawn.trans h.evaluatedDrawn⟩

theorem SameVotes.majority (h : db.SameVotes db') {version time : Nat} :
    db'.Majority version time ↔ db.Majority version time := by
  unfold Majority
  rw [h.evaluated]

theorem SameVotes.agreed (h : db.SameVotes db') : db'.Agreed hardfork ↔ db.Agreed hardfork := by
  unfold Agreed
  simp only [h.majority, h.properties]

theorem Ordered.hasHardfork_iff (h : db.Ordered) : db.hasHardfork hardfork ↔
    hardfork ≤ db.hardforks.lastHardfork := by
  unfold hasHardfork
  rw [h.processedHardforks, List.length_map, List.length_range, Nat.lt_succ_iff]

theorem hardforkVersions_eq {hardfork : Nat} (h : hardfork ≤ steemitNumHardforks) :
    hardforkVersions hardfork = hardfork * 2 ^ 16 ∧
      hardforkVersion (hardforkVersions hardfork) = hardforkVersions hardfork := by
  have hcases : ∀ n ≤ steemitNumHardforks, hardforkVersions n = n * 2 ^ 16 ∧
      hardforkVersion (hardforkVersions n) = hardforkVersions n := by
    decide
  exact hcases hardfork h

/-- What the application of one hardfork does. -/
theorem applyHardfork_cases {votes : List (AccountName × ℤ)}
    (h : db.applyHardfork hardfork votes = .ok db') :
    db.SameVotes db' ∧ hardfork = db.hardforks.lastHardfork + 1 ∧
      db'.hardforks.lastHardfork = hardfork ∧
      db'.hardforks.currentHardforkVersion = hardforkVersion (hardforkVersions hardfork) ∧
      db'.processedHardforks = db.processedHardforks ++ [hardforkTimes hardfork] ∧
      db'.applied = db.applied ++ [hardfork] := by
  simp only [applyHardfork, bind_eq_ok, ensure_eq_ok, pure_eq_ok] at h
  obtain ⟨db₁, hperform, _, horder, _, _, _, _, rfl⟩ := h
  have hsame := WitnessDatabase.SameHardforks.performHardfork hperform
  rw [hsame.hardforks] at horder
  refine ⟨⟨?_, ?_, ?_, ?_, rfl, rfl, rfl⟩, horder, rfl, rfl, rfl, rfl⟩
  . show db₁.hardforks.nextHardfork = _
    rw [hsame.hardforks]
  . show db₁.hardforks.nextHardforkTime = _
    rw [hsame.hardforks]
  . exact hsame.properties
  . exact hsame.scheduledWitnesses

theorem applyHardfork_ne_unknown (db : HardforkDatabase) (hardfork : Nat)
    (votes : List (AccountName × ℤ)) :
    db.applyHardfork hardfork votes ≠ .error .unknownHardforkException := by
  unfold applyHardfork
  apply bind_ne_error (WitnessDatabase.performHardfork_ne_unknown _ _ _)
  intro _ _
  apply bind_ne_error (ensure_ne_error (by decide))
  intro _ _
  apply bind_ne_error (ensure_ne_error (by decide))
  intro _ _
  apply bind_ne_error (ensure_ne_error (by decide))
  intro _ _
  exact pure_ne_error _

theorem Ordered.applyHardfork {votes : List (AccountName × ℤ)} (h : db.Ordered)
    (hknown : db.hardforks.lastHardfork < steemitNumHardforks)
    (happly : db.applyHardfork hardfork votes = .ok db') : db'.Ordered := by
  obtain ⟨hsame, hhardfork, hlast, hcurrent, hprocessed, happlied⟩ := applyHardfork_cases happly
  have hle : hardfork ≤ steemitNumHardforks := by omega
  constructor
  . have hrange : List.range (hardfork + 1) = List.range hardfork ++ [hardfork] :=
      List.range_succ
    rw [hprocessed, hlast, hrange, List.map_append, h.processedHardforks, hhardfork]
    rfl
  . rw [happlied, hlast, h.applied, hhardfork, List.range'_1_concat, Nat.add_comm]
  . rw [hlast]
    exact hle
  . rw [hcurrent, hlast]
    exact (hardforkVersions_eq hle).2
  . rw [hlast, hsame.nextHardfork, hsame.nextHardforkTime, hsame.majority]
    intro hnext
    apply h.voted
    have hlower := (hardforkVersions_eq h.known).1
    have hupper := (hardforkVersions_eq hle).1
    omega
  . rw [hsame.drawn, hsame.scheduledWitnesses]
    exact h.drawn
  . rw [hsame.evaluatedDrawn, hsame.evaluated]
    exact h.evaluatedDrawn

/-- What a loop over the hardforks comes to, if none of those it applies does without votes. -/
structure Upgraded (db db' : HardforkDatabase) : Prop where
  sameVotes : db.SameVotes db'
  ordered : db'.Ordered
  le : db.hardforks.lastHardfork ≤ db'.hardforks.lastHardfork
  agreed : ∀ hardfork, db.hardforks.lastHardfork < hardfork →
    hardfork ≤ db'.hardforks.lastHardfork → 5 < hardfork → db.Agreed hardfork

theorem Ordered.upgraded (h : db.Ordered) : db.Upgraded db :=
  ⟨.refl db, h, le_refl _, fun _ hlt hle => absurd hlt (not_lt.mpr hle)⟩

/-- One turn of a loop, and the turns that follow. -/
theorem Upgraded.cons (hsame : db.SameVotes db')
    (hlast : db'.hardforks.lastHardfork = db.hardforks.lastHardfork + 1)
    (hagreed : 5 < db.hardforks.lastHardfork + 1 → db.Agreed (db.hardforks.lastHardfork + 1))
    (h : db'.Upgraded db'') : db.Upgraded db'' := by
  constructor
  . exact hsame.trans h.sameVotes
  . exact h.ordered
  . have := h.le
    omega
  . intro hardfork hlt hle hfive
    by_cases heq : hardfork = db.hardforks.lastHardfork + 1
    . subst heq
      exact hagreed hfive
    . apply hsame.agreed.mp
      exact h.agreed hardfork (by omega) hle hfive

/-- The condition of the loop holds by the votes only. -/
theorem Ordered.agreed (h : db.Ordered)
    (hcondition : hardforkVersions db.hardforks.lastHardfork < db.hardforks.nextHardfork ∧
      db.hardforks.nextHardforkTime ≤ db.properties.time) :
    db.Agreed (db.hardforks.lastHardfork + 1) :=
  ⟨_, _, h.voted hcondition.1, hcondition.1, hcondition.2⟩

theorem Ordered.processVoted {left : Nat} (h : db.Ordered)
    (hleft : db.hardforks.lastHardfork + left = steemitNumHardforks) :
    (∀ db', processVoted votes left db = .ok db' → db.Upgraded db') ∧
      (processVoted votes left db = .error .unknownHardforkException →
        db.Agreed (steemitNumHardforks + 1)) := by
  induction left generalizing db with
  | zero =>
    unfold Witness.processVoted
    split
    . next hcondition =>
      rw [Nat.add_zero] at hleft
      constructor
      . intro db' hdb
        cases hdb
      . intro _
        exact hleft ▸ h.agreed hcondition
    . constructor
      . intro db' hdb
        rw [pure_eq_ok] at hdb
        exact hdb ▸ h.upgraded
      . intro hdb
        exact absurd hdb (pure_ne_error db)
  | succ left ih =>
    unfold Witness.processVoted
    split
    . next hcondition =>
      dsimp only
      constructor
      . intro db' hdb
        rw [bind_eq_ok] at hdb
        obtain ⟨db₁, happly, hdb⟩ := hdb
        obtain ⟨hsame, _, hlast, _⟩ := applyHardfork_cases happly
        have h₁ := h.applyHardfork (by omega) happly
        apply Upgraded.cons hsame hlast (fun _ => h.agreed hcondition)
        exact (ih h₁ (by omega)).1 db' hdb
      . intro hdb
        rw [bind_eq_error] at hdb
        rcases hdb with hdb | ⟨db₁, happly, hdb⟩
        . exact absurd hdb (applyHardfork_ne_unknown db _ _)
        . obtain ⟨hsame, _, hlast, _⟩ := applyHardfork_cases happly
          have h₁ := h.applyHardfork (by omega) happly
          exact hsame.agreed.mp ((ih h₁ (by omega)).2 hdb)
    . constructor
      . intro db' hdb
        rw [pure_eq_ok] at hdb
        exact hdb ▸ h.upgraded
      . intro hdb
        exact absurd hdb (pure_ne_error db)

/-- Before hardfork 5 the times decide, and no later hardfork is reached. -/
theorem Ordered.processTimed {left : Nat} (h : db.Ordered)
    (hleft : db.hardforks.lastHardfork + left ≤ 5) :
    (∀ db', processTimed votes left db = .ok db' → db.Upgraded db') ∧
      processTimed votes left db ≠ .error .unknownHardforkException := by
  have hnum : steemitNumHardforks = 30 := rfl
  induction left generalizing db with
  | zero =>
    unfold Witness.processTimed
    constructor
    . intro db' hdb
      rw [pure_eq_ok] at hdb
      exact hdb ▸ h.upgraded
    . exact pure_ne_error db
  | succ left ih =>
    unfold Witness.processTimed
    split
    . constructor
      . intro db' hdb
        rw [bind_eq_ok] at hdb
        obtain ⟨db₁, happly, hdb⟩ := hdb
        obtain ⟨hsame, _, hlast, _⟩ := applyHardfork_cases happly
        have h₁ := h.applyHardfork (by omega) happly
        apply Upgraded.cons hsame hlast
        . intro hfive
          omega
        . exact (ih h₁ (by omega)).1 db' hdb
      . apply bind_ne_error (applyHardfork_ne_unknown db _ _)
        intro db₁ happly
        obtain ⟨hsame, _, hlast, _⟩ := applyHardfork_cases happly
        have h₁ := h.applyHardfork (by omega) happly
        exact (ih h₁ (by omega)).2
    . constructor
      . intro db' hdb
        rw [pure_eq_ok] at hdb
        exact hdb ▸ h.upgraded
      . exact pure_ne_error db

theorem Ordered.processHardforks (h : db.Ordered) :
    (∀ db', db.processHardforks votes = .ok db' → db.Upgraded db') ∧
      (db.processHardforks votes = .error .unknownHardforkException →
        db.Agreed (steemitNumHardforks + 1)) := by
  have hknown := h.known
  unfold HardforkDatabase.processHardforks
  split
  . exact h.processVoted (by omega)
  . next hhf =>
    rw [h.hasHardfork_iff] at hhf
    have hleft : db.hardforks.lastHardfork + (5 - db.hardforks.lastHardfork) ≤ 5 := by omega
    exact ⟨(h.processTimed hleft).1, fun hdb => absurd hdb (h.processTimed hleft).2⟩

section block

theorem Ordered.otherChange (h : db.Ordered) (hchange : db.OtherChange db') : db'.Ordered := by
  constructor
  . rw [hchange.processedHardforks, hchange.hardforks]
    exact h.processedHardforks
  . rw [hchange.applied, hchange.hardforks]
    exact h.applied
  . rw [hchange.hardforks]
    exact h.known
  . rw [hchange.hardforks]
    exact h.current
  . unfold Majority
    rw [hchange.hardforks, hchange.evaluated]
    exact h.voted
  . rw [hchange.drawn, hchange.scheduledWitnesses]
    exact h.drawn
  . rw [hchange.evaluatedDrawn, hchange.evaluated]
    exact h.evaluatedDrawn

/-- The extensions of a block change what a witness votes for, and no decision. -/
theorem otherChange_processHeaderExtension {witness : AccountName} {e : BlockHeaderExtension}
    (h : db.processHeaderExtension witness e = .ok db') : db.OtherChange db' := by
  cases e with
  | void =>
    cases h
    exact ⟨rfl, rfl, rfl, rfl, rfl, rfl, rfl⟩
  | version v =>
    simp only [processHeaderExtension, bind_eq_ok] at h
    obtain ⟨_, _, h⟩ := h
    split at h
    . cases h
      exact ⟨rfl, rfl, rfl, rfl, rfl, rfl, rfl⟩
    . cases h
      exact ⟨rfl, rfl, rfl, rfl, rfl, rfl, rfl⟩
  | hardforkVersionVote hfVersion hfTime =>
    simp only [processHeaderExtension, bind_eq_ok] at h
    obtain ⟨_, _, h⟩ := h
    split at h
    . cases h
      exact ⟨rfl, rfl, rfl, rfl, rfl, rfl, rfl⟩
    . cases h
      exact ⟨rfl, rfl, rfl, rfl, rfl, rfl, rfl⟩

theorem Ordered.processHeaderExtensions {b : SignedBlock} (h : db.Ordered)
    (hdb : db.processHeaderExtensions b = .ok db') : db'.Ordered := by
  apply foldlM_invariant (P := fun db _ => db.Ordered) _ h hdb
  intro db₁ db₂ e _ h₁ h₂
  exact h₁.otherChange (otherChange_processHeaderExtension h₂)

/-- The names of the witnesses that are found. -/
theorem names_of_mapM_getWitness {db : WitnessDatabase} {names : List AccountName}
    {ws : List WitnessObject} (h : names.mapM db.getWitness = .ok ws) :
    ws.map WitnessObject.owner = names := by
  rw [mapM_eq_ok] at h
  induction h with
  | nil => rfl
  | cons hw _ ih =>
    rw [List.map_cons, ih]
    congr 1
    exact Table.key_of_find? (get_eq_ok.mp hw)

/-- The schedule, and with it the count of the votes. -/
theorem Ordered.updateWitnessSchedule4 (h : db.Ordered)
    (hdb : db.updateWitnessSchedule4 = .ok db') : db'.Ordered := by
  simp only [HardforkDatabase.updateWitnessSchedule4, bind_eq_ok,
    WitnessDatabase.updateWitnessSchedule4] at hdb
  obtain ⟨db₂, ⟨db₁, hmake, hmedian⟩, hdb⟩ := hdb
  have hperm := WitnessDatabase.scheduledWitnesses_makeSchedule hmake
  obtain ⟨majorityVersion, hardforks, rfl, _, htally, hkeep⟩ :=
    WitnessDatabase.makeSchedule_cases hmake
  obtain ⟨hhardforks, hnames⟩ := WitnessDatabase.SameHardforks.updateMedianWitnessProps hmedian
  have hdrawn : db₂.scheduledWitnesses.Nodup := by
    rw [hnames]
    exact hperm.nodup_iff.mpr db.chosen_select.nodup_names
  -- the older part of the database tells of its hardforks by the number of the last one
  have hhas : db.toWitnessDatabase.hasHardfork 5 ↔ db.hasHardfork 5 := h.hasHardfork_iff.symm
  split at hdb
  . next hhf =>
    simp only [bind_eq_ok, pure_eq_ok] at hdb
    obtain ⟨evaluated, hevaluated, rfl⟩ := hdb
    obtain ⟨scheduled, hscheduled, htally⟩ := htally (hhas.mpr hhf)
    have heq : scheduled = evaluated := Except.ok.inj (hscheduled.symm.trans hevaluated)
    subst heq
    obtain ⟨⟨hlast, hcurrent⟩, hnext⟩ := tallyVersions_cases htally
    have hbefore : db.toWitnessDatabase.advance.1.scheduledWitnesses = db.scheduledWitnesses := by
      unfold WitnessDatabase.advance
      dsimp only
      split
      . rfl
      . rfl
    constructor
    . show db.processedHardforks = (List.range (db₂.hardforks.lastHardfork + 1)).map hardforkTimes
      rw [hhardforks, hlast]
      exact h.processedHardforks
    . show db.applied = List.range' 1 db₂.hardforks.lastHardfork
      rw [hhardforks, hlast]
      exact h.applied
    . show db₂.hardforks.lastHardfork ≤ steemitNumHardforks
      rw [hhardforks, hlast]
      exact h.known
    . show db₂.hardforks.currentHardforkVersion = hardforkVersions db₂.hardforks.lastHardfork
      rw [hhardforks, hlast, hcurrent]
      exact h.current
    . show hardforkVersions db₂.hardforks.lastHardfork < db₂.hardforks.nextHardfork →
        steemitHardforkRequiredWitnesses ≤ (hardforkVotes scheduled).count
          (db₂.hardforks.nextHardfork, db₂.hardforks.nextHardforkTime)
      rw [hhardforks, hlast]
      intro habove
      apply hnext.resolve_left
      intro hnone
      dsimp only at habove
      rw [hnone, h.current] at habove
      exact lt_irrefl _ habove
    . intro _
      exact hdrawn
    . intro hdrawn
      show (scheduled.map WitnessObject.owner).Nodup
      rw [names_of_mapM_getWitness hscheduled, hbefore]
      exact h.drawn hdrawn
  . next hhf =>
    rw [pure_eq_ok] at hdb
    subst hdb
    have hkeep := hkeep (fun hnot => hhf (hhas.mp hnot))
    have hhardforks : db₂.hardforks = db.hardforks := hhardforks.trans hkeep
    constructor
    . show db.processedHardforks = (List.range (db₂.hardforks.lastHardfork + 1)).map hardforkTimes
      rw [hhardforks]
      exact h.processedHardforks
    . show db.applied = List.range' 1 db₂.hardforks.lastHardfork
      rw [hhardforks]
      exact h.applied
    . show db₂.hardforks.lastHardfork ≤ steemitNumHardforks
      rw [hhardforks]
      exact h.known
    . show db₂.hardforks.currentHardforkVersion = hardforkVersions db₂.hardforks.lastHardfork
      rw [hhardforks]
      exact h.current
    . show hardforkVersions db₂.hardforks.lastHardfork < db₂.hardforks.nextHardfork →
        db.Majority db₂.hardforks.nextHardfork db₂.hardforks.nextHardforkTime
      rw [hhardforks]
      exact h.voted
    . intro _
      exact hdrawn
    . exact h.evaluatedDrawn

theorem Ordered.updateWitnessSchedule (h : db.Ordered) (hdb : db.UpdateWitnessSchedule db') :
    db'.Ordered := by
  unfold HardforkDatabase.UpdateWitnessSchedule at hdb
  split at hdb
  . split at hdb
    . exact h.updateWitnessSchedule4 hdb
    . constructor
      . rw [hdb.processedHardforks, hdb.hardforks]
        exact h.processedHardforks
      . rw [hdb.applied, hdb.hardforks]
        exact h.applied
      . rw [hdb.hardforks]
        exact h.known
      . rw [hdb.hardforks]
        exact h.current
      . unfold Majority
        rw [hdb.hardforks, hdb.evaluated]
        exact h.voted
      . intro hdrawn
        rw [hdb.drawn] at hdrawn
        cases hdrawn
      . rw [hdb.evaluatedDrawn, hdb.evaluated]
        exact h.evaluatedDrawn
  . exact hdb ▸ h

theorem Ordered.reachesHardforks {b : SignedBlock} (h : db.Ordered)
    (hdb : db.ReachesHardforks b db') : db'.Ordered := by
  obtain ⟨_, _, _, hreported, _, htransacted, hscheduled, hother⟩ := hdb
  exact (((h.processHeaderExtensions hreported).otherChange htransacted).updateWitnessSchedule
    hscheduled).otherChange hother

end block

end HardforkDatabase

def hardforkSystem : TransitionSystem HardforkDatabase SignedBlock where
  initial db := ∃ initPublicKey accounts,
    db = { toWitnessDatabase := .initGenesis initPublicKey accounts }
  step := HardforkDatabase.Step

namespace HardforkDatabase

variable {db db' : HardforkDatabase}

theorem Ordered.initial (h : hardforkSystem.initial db) : db.Ordered := by
  obtain ⟨_, _, rfl⟩ := h
  constructor
  . rfl
  . rfl
  . exact Nat.zero_le _
  . show 0 = hardforkVersions 0
    decide
  . intro hnext
    exact absurd hnext (Nat.not_lt_zero _)
  . intro hdrawn
    cases hdrawn
  . intro hdrawn
    cases hdrawn

theorem Ordered.step {b : SignedBlock} (h : db.Ordered) (hstep : db.Step b db') : db'.Ordered := by
  obtain ⟨_, _, _, hreaches, hprocess, hother⟩ := hstep
  exact (((h.reachesHardforks hreaches).processHardforks.1 _ hprocess).ordered).otherChange hother

theorem Ordered.of_reachable (h : hardforkSystem.Reachable db) : db.Ordered :=
  h.invariant (fun _ => .initial) fun _ _ _ hordered _ hstep => hordered.step hstep

/-- Hardforks come in their order, each once, and from hardfork 5 on only by the votes that the last
count finds a majority for; so does the stop of a node that does not know the next one. -/
theorem hardforks_of_reachable (h : hardforkSystem.Reachable db) :
    (db.processedHardforks.length = db.hardforks.lastHardfork + 1 ∧
      (∀ hardfork, db.hasHardfork hardfork ↔ hardfork ≤ db.hardforks.lastHardfork) ∧
      db.applied = List.range' 1 db.hardforks.lastHardfork) ∧
    ∀ b before, db.ReachesHardforks b before →
      (∀ version time, before.Majority version time → before.evaluatedDrawn = true →
        (before.evaluated.map WitnessObject.owner).Nodup) ∧
      ∀ votes,
        (∀ after, before.processHardforks votes = .ok after →
          (∃ added, after.applied = before.applied ++ added) ∧
          after.applied = List.range' 1 after.hardforks.lastHardfork ∧
          ∀ hardfork, hardfork ∈ after.applied → hardfork ∉ before.applied → 5 < hardfork →
            before.Agreed hardfork) ∧
        (before.processHardforks votes = .error .unknownHardforkException →
          before.Agreed (steemitNumHardforks + 1)) := by
  have hordered := Ordered.of_reachable h
  refine ⟨⟨?_, fun hardfork => hordered.hasHardfork_iff, hordered.applied⟩, ?_⟩
  . rw [hordered.processedHardforks, List.length_map, List.length_range]
  . intro b before hbefore
    have hbefore := hordered.reachesHardforks hbefore
    refine ⟨fun _ _ _ => hbefore.evaluatedDrawn, ?_⟩
    intro votes
    refine ⟨?_, hbefore.processHardforks.2⟩
    intro after hafter
    have hupgraded := hbefore.processHardforks.1 after hafter
    have hle := hupgraded.le
    rw [hbefore.applied, hupgraded.ordered.applied]
    refine ⟨?_, rfl, ?_⟩
    . -- the numbers that follow those of before
      refine ⟨List.range' (before.hardforks.lastHardfork + 1)
        (after.hardforks.lastHardfork - before.hardforks.lastHardfork), ?_⟩
      rw [Nat.add_comm before.hardforks.lastHardfork, List.range'_append_1]
      congr 1
      omega
    . intro hardfork hmem hnot hfive
      rw [List.mem_range'_1] at hmem hnot
      exact hupgraded.agreed hardfork (by omega) (by omega) hfive

/-- A first block late enough for the first five hardforks, before they are processed. -/
def lateBlock : HardforkDatabase where
  toWitnessDatabase :=
    { WitnessDatabase.initGenesis 1 [] with
      properties := { headBlockNumber := 1, time := hardforkTimes 5 } }

def fiveHardforks : HardforkDatabase :=
  (lateBlock.processHardforks fun _ => []).toOption.getD {}

theorem otherChange_refl (db : HardforkDatabase) : db.OtherChange db :=
  ⟨rfl, rfl, rfl, rfl, rfl, rfl, rfl⟩

theorem reachesHardforks_of_schedule {witness : AccountName}
    (hcheck : db.checkRunningVersion ⟨witness, []⟩ = .ok ())
    (hround : db.properties.headBlockNumber % steemitMaxWitnesses = 0) (hhf : db.hasHardfork 4)
    (hschedule : db.updateWitnessSchedule4 = .ok db') : db.ReachesHardforks ⟨witness, []⟩ db' := by
  refine ⟨db, db, db', rfl, hcheck, otherChange_refl db, ?_, otherChange_refl db'⟩
  rw [UpdateWitnessSchedule, if_pos hround, if_pos hhf]
  exact hschedule

/-- A witness who votes for the next hardfork. -/
def elector (i : Nat) : WitnessObject where
  id := i
  owner := if i = 0 then steemitInitMinerName else "w" ++ toString i
  votes := i
  runningVersion := hardforkVersions 6
  hardforkVersionVote := hardforkVersion (hardforkVersions 6)
  hardforkTimeVote := hardforkTimes 6

/-- Seventeen of them come up after the first block, and one more who was there. -/
def electorate : HardforkDatabase :=
  { fiveHardforks with
    witnesses := ⟨(List.range 18).map elector, by decide +kernel⟩
    properties :=
      { fiveHardforks.properties with headBlockNumber := 21, time := hardforkTimes 6 } }

/-- All of them are scheduled, but the votes are those of the schedule before. -/
def elected : HardforkDatabase :=
  electorate.updateWitnessSchedule4.toOption.getD {}

def nextRound : HardforkDatabase :=
  { elected with properties := { elected.properties with headBlockNumber := 42 } }

def counted : HardforkDatabase :=
  nextRound.updateWitnessSchedule4.toOption.getD {}

def sixHardforks : HardforkDatabase :=
  (counted.processHardforks fun _ => []).toOption.getD {}

theorem reachable_electorate : hardforkSystem.Reachable electorate := by
  let genesis : HardforkDatabase := { toWitnessDatabase := .initGenesis 1 [] }
  have hok : lateBlock.processHardforks (fun _ => []) = .ok fiveHardforks :=
    eq_ok_of_isSome (by decide +kernel)
  have hreaches : genesis.ReachesHardforks ⟨steemitInitMinerName, []⟩ lateBlock :=
    ⟨genesis, lateBlock, lateBlock, rfl, rfl, ⟨rfl, rfl, rfl, rfl, rfl, rfl, rfl⟩, rfl,
      otherChange_refl lateBlock⟩
  have hstep : genesis.Step ⟨steemitInitMinerName, []⟩ electorate :=
    ⟨lateBlock, _, fiveHardforks, hreaches, hok, ⟨rfl, rfl, rfl, rfl, rfl, rfl, rfl⟩⟩
  exact .step (.initial ⟨1, [], rfl⟩) trivial hstep

theorem reachable_nextRound : hardforkSystem.Reachable nextRound := by
  have hschedule : electorate.updateWitnessSchedule4 = .ok elected :=
    eq_ok_of_isSome (by decide +kernel)
  have hquiet : elected.hasHardfork 5 ∧
      ¬(hardforkVersions elected.hardforks.lastHardfork < elected.hardforks.nextHardfork ∧
        elected.hardforks.nextHardforkTime ≤ elected.properties.time) := by
    decide +kernel
  have hok : elected.processHardforks (fun _ => []) = .ok elected := by
    rw [HardforkDatabase.processHardforks, if_pos hquiet.1]
    unfold processVoted
    rw [if_neg hquiet.2]
    rfl
  have hreaches : electorate.ReachesHardforks ⟨"w1", []⟩ elected :=
    reachesHardforks_of_schedule (by decide +kernel) (by decide) (by decide +kernel) hschedule
  have hstep : electorate.Step ⟨"w1", []⟩ nextRound :=
    ⟨elected, _, elected, hreaches, hok, ⟨rfl, rfl, rfl, rfl, rfl, rfl, rfl⟩⟩
  exact .step reachable_electorate trivial hstep

/-- The sixth hardfork is applied when the votes of seventeen scheduled witnesses are counted. -/
theorem hardforks_of_reachable_six :
    sixHardforks.applied = [1, 2, 3, 4, 5, 6] ∧ counted.Agreed 6 := by
  have hround : nextRound.updateWitnessSchedule4.toOption.isSome = true ∧
      nextRound.checkRunningVersion ⟨"w1", []⟩ = .ok () ∧ nextRound.hasHardfork 4 := by
    decide +kernel
  have hsix : (counted.processHardforks fun _ => []).toOption.isSome = true ∧
      sixHardforks.hardforks.lastHardfork = 6 ∧ 6 ∉ counted.applied := by
    decide +kernel
  have hreaches : nextRound.ReachesHardforks ⟨"w1", []⟩ counted :=
    reachesHardforks_of_schedule hround.2.1 (by decide) hround.2.2 (eq_ok_of_isSome hround.1)
  obtain ⟨-, happlied, hagreed⟩ :=
    (((hardforks_of_reachable reachable_nextRound).2 _ counted hreaches).2 fun _ => []).1
      sixHardforks (eq_ok_of_isSome hsix.1)
  rw [hsix.2.1] at happlied
  refine ⟨happlied, hagreed 6 ?_ hsix.2.2 (by decide)⟩
  rw [happlied]
  decide

end HardforkDatabase

end Golos.Witness
