import Golos.Witness.Impl.Evaluators
import Golos.Lib.Transition

/-!
This module contains the runs of the chain as witnesses see them, and the loop that applies the
hardforks they vote for.
-/

namespace Golos.Witness

open Checked

def steemitNumHardforks : Nat := 30

/-- The number that the constructor of `version` makes. -/
def version (m h r : Nat) : Nat :=
  ((m <<< 8 ||| h) <<< 16) ||| r

/-- A `hardfork_version` drops the revision. -/
def hardforkVersion (v : Nat) : Nat :=
  v &&& 0xFFFF0000

/-- `_hardfork_versions` -/
def hardforkVersions (hardfork : Nat) : Nat :=
  version 0 hardfork 0

/-- `_hardfork_times` -/
def hardforkTimes (hardfork : Nat) : Nat :=
  [steemitGenesisTime, 1476788420, 1476788440, 1476788460, 1476788480, 1476788500, 1476788520,
    1476788540, 1476788560, 1476788580, 1476788600, 1476788620, 1476788640, 1476788660, 1476788680,
    1488369000, 1488369600, 1522832400, 1529485200, 1544778000, 1547787600, 1565859600, 1577293200,
    1590426000, 1603645200, 1608483600, 1632070800, 1662915600, 1674320400, 1699203600,
    1734195600].getD hardfork 0

/-- The database with the whole of `hardfork_property_object`. The last three fields only record
what happens: the hardforks that `hardfork_operation` tells of, the witnesses whose votes are
counted last, and whether `update_witness_schedule4` made the schedule that named them. -/
structure HardforkDatabase extends WitnessDatabase where
  processedHardforks : List Nat := [steemitGenesisTime]
  applied : List Nat := []
  evaluated : List WitnessObject := []
  drawn : Bool := false
  evaluatedDrawn : Bool := false

inductive BlockHeaderExtension where
  | void
  | version (v : Nat)
  | hardforkVersionVote (hfVersion hfTime : Nat)
  deriving DecidableEq

structure SignedBlock where
  witness : AccountName
  extensions : List BlockHeaderExtension

namespace HardforkDatabase

variable (db : HardforkDatabase)

def hasHardfork (hardfork : Nat) : Prop :=
  hardfork < db.processedHardforks.length

instance (hardfork : Nat) : Decidable (db.hasHardfork hardfork) :=
  inferInstanceAs (Decidable (_ < _))

def processHeaderExtension (witness : AccountName) :
    BlockHeaderExtension → Result HardforkDatabase
  | .void => pure db
  | .version reportedVersion => do
    let signingWitness ← db.getWitness witness
    if reportedVersion ≠ signingWitness.runningVersion then
      pure
        { db with
          toWitnessDatabase := db.modifyWitness witness fun w =>
            { w with runningVersion := reportedVersion } }
    else
      pure db
  | .hardforkVersionVote hfVersion hfTime => do
    let signingWitness ← db.getWitness witness
    if hfVersion ≠ signingWitness.hardforkVersionVote ∨
        hfTime ≠ signingWitness.hardforkTimeVote then
      pure
        { db with
          toWitnessDatabase := db.modifyWitness witness fun w =>
            { w with
              hardforkVersionVote := hardforkVersion hfVersion
              hardforkTimeVote := hfTime } }
    else
      pure db

def processHeaderExtensions (b : SignedBlock) : Result HardforkDatabase :=
  b.extensions.foldlM (fun db e => db.processHeaderExtension b.witness e) db

/-- The check of `_apply_block` that follows the extensions. -/
def checkRunningVersion (b : SignedBlock) : Result Unit :=
  if db.hasHardfork 5 then do
    let witness ← db.getWitness b.witness
    ensure (db.hardforks.currentHardforkVersion ≤ witness.runningVersion)
      (.assertException "Block produced by witness that is not running current hardfork")
  else
    pure ()

/-- `update_witness_schedule4`, with a record of whom the votes are counted of. -/
def updateWitnessSchedule4 : Result HardforkDatabase := do
  let db' ← db.toWitnessDatabase.updateWitnessSchedule4
  if db.hasHardfork 5 then do
    let before := db.toWitnessDatabase.advance.1
    let evaluated ← before.scheduledWitnesses.mapM before.getWitness
    pure
      { db with
        toWitnessDatabase := db'
        evaluated := evaluated
        drawn := true
        evaluatedDrawn := db.drawn }
  else
    pure { db with toWitnessDatabase := db', drawn := true }

/-- `apply_hardfork`, told the votes of the accounts. -/
def applyHardfork (hardfork : Nat) (votes : List (AccountName × ℤ)) : Result HardforkDatabase := do
  let db' ← db.performHardfork hardfork votes
  ensure (hardfork = db'.hardforks.lastHardfork + 1)
    (.assertException "Hardfork being applied out of order")
  ensure (db.processedHardforks.length = hardfork)
    (.assertException "Hardfork being applied out of order")
  let processedHardforks := db.processedHardforks ++ [hardforkTimes hardfork]
  ensure (processedHardforks[hardfork]? = some (hardforkTimes hardfork))
    (.assertException "Hardfork processing failed sanity check...")
  pure
    { db with
      toWitnessDatabase :=
        { db' with
          hardforks :=
            { db'.hardforks with
              lastHardfork := hardfork
              currentHardforkVersion := hardforkVersion (hardforkVersions hardfork) } }
      processedHardforks := processedHardforks
      applied := db.applied ++ [hardfork] }

end HardforkDatabase

/-- The loop of `process_hardforks` from hardfork 5 on, told how many hardforks are left of those
that the node knows. -/
def processVoted (votes : Nat → List (AccountName × ℤ)) :
    Nat → HardforkDatabase → Result HardforkDatabase
  | left, db =>
    if hardforkVersions db.hardforks.lastHardfork < db.hardforks.nextHardfork ∧
        db.hardforks.nextHardforkTime ≤ db.properties.time then
      match left with
      | left + 1 => do
        let db ← db.applyHardfork (db.hardforks.lastHardfork + 1)
          (votes (db.hardforks.lastHardfork + 1))
        processVoted votes left db
      | 0 => throw .unknownHardforkException
    else
      pure db

/-- The loop of `process_hardforks` before hardfork 5, told how many hardforks are left until it. -/
def processTimed (votes : Nat → List (AccountName × ℤ)) :
    Nat → HardforkDatabase → Result HardforkDatabase
  | 0, db => pure db
  | left + 1, db =>
    if hardforkTimes (db.hardforks.lastHardfork + 1) ≤ db.properties.time then do
      let db ← db.applyHardfork (db.hardforks.lastHardfork + 1)
        (votes (db.hardforks.lastHardfork + 1))
      processTimed votes left db
    else
      pure db

namespace HardforkDatabase

variable (db : HardforkDatabase)

def processHardforks (votes : Nat → List (AccountName × ℤ)) : Result HardforkDatabase :=
  if db.hasHardfork 5 then
    processVoted votes (steemitNumHardforks - db.hardforks.lastHardfork) db
  else
    processTimed votes (5 - db.hardforks.lastHardfork) db

/-- What the transactions and the other ends of a block change: nothing of the hardforks, and
nothing of whom the schedule names. -/
structure OtherChange (db' : HardforkDatabase) : Prop where
  hardforks : db'.hardforks = db.hardforks
  processedHardforks : db'.processedHardforks = db.processedHardforks
  applied : db'.applied = db.applied
  scheduledWitnesses : db'.scheduledWitnesses = db.scheduledWitnesses
  evaluated : db'.evaluated = db.evaluated
  drawn : db'.drawn = db.drawn
  evaluatedDrawn : db'.evaluatedDrawn = db.evaluatedDrawn

/-- What the rules for the schedule before hardfork 4 change: the schedule, the witnesses, but
nothing of the hardforks. -/
structure EarlySchedule (db' : HardforkDatabase) : Prop where
  hardforks : db'.hardforks = db.hardforks
  processedHardforks : db'.processedHardforks = db.processedHardforks
  applied : db'.applied = db.applied
  evaluated : db'.evaluated = db.evaluated
  drawn : db'.drawn = false
  evaluatedDrawn : db'.evaluatedDrawn = db.evaluatedDrawn

/-- `update_witness_schedule` -/
def UpdateWitnessSchedule (db' : HardforkDatabase) : Prop :=
  if db.properties.headBlockNumber % steemitMaxWitnesses = 0 then
    if db.hasHardfork 4 then db.updateWitnessSchedule4 = .ok db' else db.EarlySchedule db'
  else
    db' = db

/-- How far `_apply_block` has come when it turns to `process_hardforks`. -/
def ReachesHardforks (b : SignedBlock) (db' : HardforkDatabase) : Prop :=
  ∃ reported transacted scheduled : HardforkDatabase,
    db.processHeaderExtensions b = .ok reported ∧
    reported.checkRunningVersion b = .ok () ∧
    reported.OtherChange transacted ∧
    transacted.UpdateWitnessSchedule scheduled ∧
    scheduled.OtherChange db'

def Step (b : SignedBlock) (db' : HardforkDatabase) : Prop :=
  ∃ before votes after, db.ReachesHardforks b before ∧ before.processHardforks votes = .ok after ∧
    after.OtherChange db'

end HardforkDatabase

inductive WitnessEvent where
  | witnessUpdate (o : WitnessUpdateOperation)
  | chainPropertiesUpdate (o : ChainPropertiesUpdateOperation)
  | pow (o : PowOperation)
  /-- What every operation with votes for witnesses and every change of vesting come down to. -/
  | adjustWitnessVote (name : AccountName) (delta : ℤ)
  | updateWitnessSchedule4
  | applyHardfork (version : Nat) (votes : List (AccountName × ℤ))
  /-- The rules for the schedule before hardfork 4. -/
  | earlySchedule
  /-- Everything else: other operations, passing blocks, accounts and feeds that come up. -/
  | other

/-- What a price feed must be to be published. -/
def IsGbgPrice (p : Price) : Prop :=
  (p.base.symbol = steemSymbol ∧ p.quote.symbol = sbdSymbol) ∨
    (p.base.symbol = sbdSymbol ∧ p.quote.symbol = steemSymbol)

namespace WitnessDatabase

/-- The witnesses are the same but for what the older rules for the schedule change. -/
def EarlyChange (db db' : WitnessDatabase) : Prop :=
  ∃ f : WitnessObject → WitnessObject, (∀ w, (f w).owner = w.owner ∧ (f w).props = w.props) ∧
    db'.witnesses.rows = db.witnesses.rows.map f ∧
    db'.schedule.medianProps = db.schedule.medianProps ∧
    1 ≤ db'.schedule.numScheduledWitnesses ∧ db'.hardforks = db.hardforks ∧
    db'.currentMedianHistory = db.currentMedianHistory

/-- The witnesses are the same but for their keys and for what they report. -/
def OtherChange (db db' : WitnessDatabase) : Prop :=
  ∃ f : WitnessObject → WitnessObject, (∀ w, (f w).owner = w.owner ∧ (f w).props = w.props ∧
      (f w).virtualScheduledTime = w.virtualScheduledTime) ∧
    db'.witnesses.rows = db.witnesses.rows.map f ∧ db'.schedule = db.schedule ∧
    db'.hardforks.lastHardfork = db.hardforks.lastHardfork ∧
    ∀ p ∈ db'.currentMedianHistory, IsGbgPrice p

def Step (db : WitnessDatabase) : WitnessEvent → WitnessDatabase → Prop
  | .witnessUpdate o, db' => db.witnessUpdate o = .ok db'
  | .chainPropertiesUpdate o, db' => db.updateChainProperties o = .ok db'
  | .pow o, db' => db.applyPow o = .ok db'
  | .adjustWitnessVote name delta, db' => db.adjustWitnessVote name delta = .ok db'
  | .updateWitnessSchedule4, db' => db.hasHardfork 4 ∧ db.updateWitnessSchedule4 = .ok db'
  | .applyHardfork version votes, db' => db.applyHardfork version votes = .ok db'
  | .earlySchedule, db' => ¬db.hasHardfork 4 ∧
    ∃ changed, db.EarlyChange changed ∧ changed.updateMedianWitnessProps = .ok db'
  | .other, db' => db.OtherChange db'

/-- `init_genesis`, told the key of the initial witness. -/
def initGenesis (initPublicKey : PublicKeyType) (accounts : List AccountName) : WitnessDatabase where
  witnesses := Table.empty.insert
    { id := 0
      owner := steemitInitMinerName
      signingKey := initPublicKey
      schedule := .miner } rfl
  nextWitnessId := 1
  accounts := accounts

end WitnessDatabase

def witnessSystem : TransitionSystem WitnessDatabase WitnessEvent where
  initial db := ∃ initPublicKey accounts, db = .initGenesis initPublicKey accounts
  step := WitnessDatabase.Step

end Golos.Witness
