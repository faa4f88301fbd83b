import Mathlib.Data.List.Dedup
import Mathlib.Data.Prod.Lex
import Golos.Lib.Table
import Golos.Protocol.ChainProperties
import Golos.Lib.Sorting
import Golos.Lib.Shuffle

/-!
This module contains the witnesses and the votes for them, the medians of the chain properties that
the scheduled ones vote for, and the schedule that is made of the votes every round.
-/

namespace Golos.Witness

open Checked

def steemitMaxVotedWitnesses : Nat := 19

def steemitMaxMinerWitnesses : Nat := 1

def steemitMaxRunnerWitnesses : Nat := 1

abbrev steemitMaxWitnesses : Nat :=
  steemitMaxVotedWitnesses + steemitMaxMinerWitnesses + steemitMaxRunnerWitnesses

theorem steemitMaxWitnesses_pos : 0 < steemitMaxWitnesses := by
  decide

def steemitHardforkRequiredWitnesses : Nat := 17

def steemitInitMinerName : AccountName := "cyberfounder"

def steemitGenesisTime : Nat := 1476788400

/-- `fc::uint128_t::max_value()` -/
def maxUint128 : Nat := 2 ^ 128 - 1

def virtualScheduleLapLength : Nat := 2 ^ 64 - 1

def virtualScheduleLapLength2 : Nat := maxUint128

/-- `public_key_type()` -/
def noKey : PublicKeyType := 0

inductive WitnessScheduleType where
  | top19
  | timeshare
  | miner
  | none
  deriving DecidableEq

structure WitnessObject where
  id : Nat
  owner : AccountName
  created : Nat := 0
  url : String := ""
  lastConfirmedBlockNum : Nat := 0
  powWorker : Nat := 0
  signingKey : PublicKeyType := noKey
  props : ChainProperties := {}
  votes : ℤ := 0
  schedule : WitnessScheduleType := .none
  virtualLastUpdate : Nat := 0
  virtualPosition : Nat := 0
  virtualScheduledTime : Nat := maxUint128
  runningVersion : Nat := 0
  hardforkVersionVote : Nat := 0
  hardforkTimeVote : Nat := steemitGenesisTime
  deriving DecidableEq

structure WitnessScheduleObject where
  currentVirtualTime : Nat := 0
  nextShuffleBlockNum : Nat := 1
  currentShuffledWitnesses : Vector AccountName steemitMaxWitnesses :=
    (Vector.replicate steemitMaxWitnesses "").set 0 steemitInitMinerName steemitMaxWitnesses_pos
  numScheduledWitnesses : Nat := 1
  top19Weight : Nat := 1
  timeshareWeight : Nat := 5
  minerWeight : Nat := 1
  witnessPayNormalizationFactor : Nat := 25
  medianProps : ChainProperties := {}
  majorityVersion : Nat := 0
  deriving DecidableEq

structure HardforkPropertyObject where
  lastHardfork : Nat := 0
  currentHardforkVersion : Nat := 0
  nextHardfork : Nat := 0
  nextHardforkTime : Nat := 0
  deriving DecidableEq

structure DynamicGlobalPropertyObject where
  headBlockNumber : Nat := 0
  time : Nat := steemitGenesisTime
  totalPow : Nat := 2 ^ 64 - 1
  numPowWitnesses : Nat := 0
  totalVestingShares : ℤ := 0
  maximumBlockSize : Nat := 0
  sbdInterestRate : Nat := 0
  customOpsBandwidthMultiplier : Nat := 100
  deriving DecidableEq

/-- The part of `database` that the schedule is made from. -/
structure WitnessDatabase where
  witnesses : Table WitnessObject.owner := .empty
  nextWitnessId : Nat := 0
  schedule : WitnessScheduleObject := {}
  hardforks : HardforkPropertyObject := {}
  properties : DynamicGlobalPropertyObject := {}
  /-- `current_median_history` of the feed history, nothing at all if it is null. -/
  currentMedianHistory : Option Price := none
  accounts : List AccountName := []

namespace WitnessDatabase

variable (db : WitnessDatabase)

def hasHardfork (hardfork : Nat) : Prop :=
  hardfork ≤ db.hardforks.lastHardfork

instance (hardfork : Nat) : Decidable (db.hasHardfork hardfork) :=
  inferInstanceAs (Decidable (_ ≤ _))

def getWitness (name : AccountName) : Result WitnessObject :=
  get (db.witnesses.find? name) (.missingObject "witness")

def getAccount (name : AccountName) : Result Unit :=
  ensure (name ∈ db.accounts) (.missingObject "account")

/-- The index `by_vote_name`. -/
def byVoteName : List WitnessObject :=
  db.witnesses.rows.insertionSort fun w w' =>
    w'.votes < w.votes ∨ (w.votes = w'.votes ∧ w.owner ≤ w'.owner)

/-- The index `by_pow` from `upper_bound(0)` on. -/
def powQueue : List WitnessObject :=
  (db.witnesses.rows.filter fun w => 0 < w.powWorker).insertionSort fun w w' =>
    w.powWorker ≤ w'.powWorker

/-- The index `by_schedule_time`. -/
def byScheduleTime : List WitnessObject :=
  db.witnesses.rows.insertionSort fun w w' =>
    w.virtualScheduledTime < w'.virtualScheduledTime ∨
      (w.virtualScheduledTime = w'.virtualScheduledTime ∧ w.id ≤ w'.id)

/-- The names that the schedule has. -/
def scheduledWitnesses : List AccountName :=
  db.schedule.currentShuffledWitnesses.toList.take db.schedule.numScheduledWitnesses

def modifyWitness (name : AccountName) (f : WitnessObject → WitnessObject)
    (hf : autoParam (∀ w, (f w).owner = w.owner) Monoid.npow_zero._autoParam) : WitnessDatabase :=
  { db with witnesses := db.witnesses.modify name f hf }

/-- `create<witness_object>`, which gives the object its id. -/
def createWitness (w : WitnessObject) : Result WitnessDatabase := do
  let witnesses ← get (db.witnesses.emplace { w with id := db.nextWitnessId }) .uniquenessViolated
  pure { db with witnesses := witnesses, nextWitnessId := db.nextWitnessId + 1 }

end WitnessDatabase

section median

-- The properties of the scheduled witnesses, of which there is one at least.
variable (active : List ChainProperties)

/-- What `nth_element` by a value of the properties puts in the middle. -/
def medianBy {κ : Type} [LinearOrder κ] (key : ChainProperties → κ) : ChainProperties :=
  (OrderStat.nthElementOn key active (active.length / 2)).getD {}

def calcMedian (param : ChainProperties → Nat) : Nat :=
  param (medianBy active param)

/-- Every element is compared on the way, which fails if the symbols differ. -/
def calcMedianAsset (param : ChainProperties → Asset) : Result Asset := do
  ensure (∀ a ∈ active, ∀ b ∈ active, (param a).symbol = (param b).symbol)
    (.assertException "symbol == o.symbol")
  pure (param (medianBy active fun p => (param p).amount))

/-- The value that the comparator of `calc_median_battery` ties. -/
def batteryKey (window items : ChainProperties → Nat) (p : ChainProperties) : ℕ ×ₗ ℕ :=
  toLex (window p / items p, items p)

/-- The comparison divides by the number of items. -/
def calcMedianBattery (window items : ChainProperties → Nat) : Result (Nat × Nat) := do
  ensure (∀ p ∈ active, items p ≠ 0) (.assertException "division by zero")
  let p := medianBy active (batteryKey window items)
  pure (window p, items p)

def calcMedianMinMax (min max : ChainProperties → Nat) : Nat × Nat :=
  let p := medianBy active fun p => toLex (min p, max p)
  (min p, max p)

/-- `COPY_ALL_MEDIAN` -/
def copyAllMedian (field : ChainProperties → Nat) : List ChainProperties :=
  active.filter fun p => field p = field (medianBy active field)

/-- The percents for workers, witnesses and vesting. -/
def calcMedianRewardPercents (hf23 hf26 : Bool) : Nat × Nat × Nat :=
  if hf26 then
    (calcMedian active (·.workerRewardPercent), calcMedian active (·.witnessRewardPercent),
      calcMedian active (·.vestingRewardPercent))
  else if hf23 then
    let actWorker := copyAllMedian active (·.workerRewardPercent)
    let actWitness := copyAllMedian actWorker (·.witnessRewardPercent)
    let p := medianBy actWitness (·.vestingRewardPercent)
    (p.workerRewardPercent, p.witnessRewardPercent, p.vestingRewardPercent)
  else
    let p := medianBy active fun p =>
      (toLex (p.workerRewardPercent, toLex (p.witnessRewardPercent, p.vestingRewardPercent)) :
        ℕ ×ₗ (ℕ ×ₗ ℕ))
    (p.workerRewardPercent, p.witnessRewardPercent, p.vestingRewardPercent)

/-- The window for negative reputations, which is no battery any more after a hardfork. -/
def calcMedianNegrepPosting (hf27 : Bool) : Result (Nat × Nat) :=
  if hf27 then
    pure (calcMedian active (·.negrepPostingWindow), calcMedian active (·.negrepPostingPerWindow))
  else
    calcMedianBattery active (·.negrepPostingWindow) (·.negrepPostingPerWindow)

def calcMedianProps (hf23 hf26 hf27 : Bool) : Result ChainProperties := do
  let accountCreationFee ← calcMedianAsset active (·.accountCreationFee)
  let createAccountMinGolosFee ← calcMedianAsset active (·.createAccountMinGolosFee)
  let createAccountMinDelegation ← calcMedianAsset active (·.createAccountMinDelegation)
  let minDelegation ← calcMedianAsset active (·.minDelegation)
  let minReferralBreakFee ← calcMedianAsset active (·.minReferralBreakFee)
  let maxReferralBreakFee ← calcMedianAsset active (·.maxReferralBreakFee)
  let (postsWindow, postsPerWindow) ← calcMedianBattery active (·.postsWindow) (·.postsPerWindow)
  let (commentsWindow, commentsPerWindow) ←
    calcMedianBattery active (·.commentsWindow) (·.commentsPerWindow)
  let (votesWindow, votesPerWindow) ← calcMedianBattery active (·.votesWindow) (·.votesPerWindow)
  let (minCurationPercent, maxCurationPercent) :=
    calcMedianMinMax active (·.minCurationPercent) (·.maxCurationPercent)
  let workerRequestCreationFee ← calcMedianAsset active (·.workerRequestCreationFee)
  let minInviteBalance ← calcMedianAsset active (·.minInviteBalance)
  let assetCreationFee ← calcMedianAsset active (·.assetCreationFee)
  let minGolosPowerToCurate ← calcMedianAsset active (·.minGolosPowerToCurate)
  let (workerRewardPercent, witnessRewardPercent, vestingRewardPercent) :=
    calcMedianRewardPercents active hf23 hf26
  let (negrepPostingWindow, negrepPostingPerWindow) ← calcMedianNegrepPosting active hf27
  let unwantedOperationCost ← calcMedianAsset active (·.unwantedOperationCost)
  let unlimitOperationCost ← calcMedianAsset active (·.unlimitOperationCost)
  let minGolosPowerToEmission ← calcMedianAsset active (·.minGolosPowerToEmission)
  let nftIssueCost ← calcMedianAsset active (·.nftIssueCost)
  let privateGroupGolosPower ← calcMedianAsset active (·.privateGroupGolosPower)
  let privateGroupCost ← calcMedianAsset active (·.privateGroupCost)
  pure
    { accountCreationFee := accountCreationFee
      maximumBlockSize := calcMedian active (·.maximumBlockSize)
      sbdInterestRate := calcMedian active (·.sbdInterestRate)
      createAccountMinGolosFee := createAccountMinGolosFee
      createAccountMinDelegation := createAccountMinDelegation
      createAccountDelegationTime := calcMedian active (·.createAccountDelegationTime)
      minDelegation := minDelegation
      auctionWindowSize := calcMedian active (·.auctionWindowSize)
      maxReferralInterestRate := calcMedian active (·.maxReferralInterestRate)
      maxReferralTermSec := calcMedian active (·.maxReferralTermSec)
      minReferralBreakFee := minReferralBreakFee
      maxReferralBreakFee := maxReferralBreakFee
      postsWindow := postsWindow
      postsPerWindow := postsPerWindow
      commentsWindow := commentsWindow
      commentsPerWindow := commentsPerWindow
      votesWindow := votesWindow
      votesPerWindow := votesPerWindow
      maxDelegatedVestingInterestRate := calcMedian active (·.maxDelegatedVestingInterestRate)
      customOpsBandwidthMultiplier := calcMedian active (·.customOpsBandwidthMultiplier)
      minCurationPercent := minCurationPercent
      maxCurationPercent := maxCurationPercent
      curationRewardCurve := (medianBy active (·.curationRewardCurve.toNat)).curationRewardCurve
      allowDistributeAuctionReward :=
        (medianBy active (·.allowDistributeAuctionReward.toNat)).allowDistributeAuctionReward
      allowReturnAuctionRewardToFund :=
        (medianBy active (·.allowReturnAuctionRewardToFund.toNat)).allowReturnAuctionRewardToFund
      workerRewardPercent := workerRewardPercent
      witnessRewardPercent := witnessRewardPercent
      vestingRewardPercent := vestingRewardPercent
      workerRequestCreationFee := workerRequestCreationFee
      workerRequestApproveMinPercent := calcMedian active (·.workerRequestApproveMinPercent)
      sbdDebtConvertRate := calcMedian active (·.sbdDebtConvertRate)
      voteRegenerationPerDay := calcMedian active (·.voteRegenerationPerDay)
      witnessSkippingResetTime := calcMedian active (·.witnessSkippingResetTime)
      witnessIdlenessTime := calcMedian active (·.witnessIdlenessTime)
      accountIdlenessTime := calcMedian active (·.accountIdlenessTime)
      claimIdlenessTime := calcMedian active (·.claimIdlenessTime)
      minInviteBalance := minInviteBalance
      assetCreationFee := assetCreationFee
      inviteTransferIntervalSec := calcMedian active (·.inviteTransferIntervalSec)
      convertFeePercent := calcMedian active (·.convertFeePercent)
      minGolosPowerToCurate := minGolosPowerToCurate
      workerEmissionPercent := calcMedian active (·.workerEmissionPercent)
      vestingOfRemainPercent := calcMedian active (·.vestingOfRemainPercent)
      negrepPostingWindow := negrepPostingWindow
      negrepPostingPerWindow := negrepPostingPerWindow
      unwantedOperationCost := unwantedOperationCost
      unlimitOperationCost := unlimitOperationCost
      minGolosPowerToEmission := minGolosPowerToEmission
      nftIssueCost := nftIssueCost
      privateGroupGolosPower := privateGroupGolosPower
      privateGroupCost := privateGroupCost }

end median

def WitnessDatabase.updateMedianWitnessProps (db : WitnessDatabase) : Result WitnessDatabase := do
  let active ← db.scheduledWitnesses.mapM db.getWitness
  let medianProps ← calcMedianProps (active.map WitnessObject.props) (db.hasHardfork 23)
    (db.hasHardfork 26) (db.hasHardfork 27)
  pure
    { db with
      schedule := { db.schedule with medianProps := medianProps }
      properties :=
        { db.properties with
          maximumBlockSize := medianProps.maximumBlockSize
          sbdInterestRate := medianProps.sbdInterestRate
          customOpsBandwidthMultiplier := medianProps.customOpsBandwidthMultiplier } }

/-- The difference of two `uint128_t`. -/
def subUint128 (x y : Nat) : Nat :=
  (x + 2 ^ 128 - y) % 2 ^ 128

/-- The time that a lap takes a witness, less the part that is behind it. -/
def lapTime (lap position : Nat) (votes : ℤ) : Nat :=
  subUint128 lap position / toUint128 (votes + 1)

namespace WitnessDatabase

variable (db : WitnessDatabase)

def adjustWitnessVote (name : AccountName) (delta : ℤ) : Result WitnessDatabase := do
  let w ← db.getWitness name
  let now := db.schedule.currentVirtualTime
  let deltaPos := toUint128 w.votes * subUint128 now w.virtualLastUpdate % 2 ^ 128
  let position := (w.virtualPosition + deltaPos) % 2 ^ 128
  let votes ← int64 (w.votes + delta) .overflowException
  let votes := max votes 0
  ensure (votes ≤ db.properties.totalVestingShares)
    (.assertException "w.votes <= get_dynamic_global_properties().total_vesting_shares.amount")
  let lap := if db.hasHardfork 2 then virtualScheduleLapLength2 else virtualScheduleLapLength
  let time := (now + lapTime lap position votes) % 2 ^ 128
  let time := if db.hasHardfork 4 ∧ time < now then maxUint128 else time
  pure <| db.modifyWitness name fun w =>
    { w with
      votes := votes
      virtualPosition := position
      virtualLastUpdate := now
      virtualScheduledTime := time }

def resetVirtualScheduleTime : WitnessDatabase :=
  { db with
    schedule := { db.schedule with currentVirtualTime := 0 }
    witnesses := db.witnesses.modifyWhere (fun _ => true) fun w =>
      { w with
        virtualPosition := 0
        virtualLastUpdate := 0
        virtualScheduledTime := virtualScheduleLapLength2 / toUint128 (w.votes + 1) } }

def canSign (w : WitnessObject) : Bool :=
  db.hasHardfork 14 → w.signingKey ≠ noKey

/-- The witnesses that the rules choose, and those that they come across. -/
structure Selection where
  voted : List WitnessObject
  miners : List WitnessObject
  timeshare : List WitnessObject
  processedMiners : List WitnessObject
  processedWitnesses : List WitnessObject

def Selection.active (s : Selection) : List WitnessObject :=
  s.voted ++ s.miners ++ s.timeshare

/-- The three loops over the indices. -/
def select : Selection :=
  let (_, voted) := Queue.select db.canSign steemitMaxVotedWitnesses db.byVoteName
  let (processedMiners, miners) :=
    if db.hasHardfork 28 then
      ([], [])
    else
      Queue.select (fun w => w.id ∉ voted.map WitnessObject.id && db.canSign w)
        steemitMaxMinerWitnesses db.powQueue
  let (processedWitnesses, timeshare) :=
    Queue.select
      (fun w => db.canSign w &&
        (w.id ∉ miners.map WitnessObject.id && w.id ∉ voted.map WitnessObject.id))
      (steemitMaxWitnesses - (voted.length + miners.length)) db.byScheduleTime
  { voted := voted
    miners := miners
    timeshare := timeshare
    processedMiners := processedMiners
    processedWitnesses := processedWitnesses }

end WitnessDatabase

abbrev WitnessTable := Table WitnessObject.owner

/-- Change the witnesses of a list. -/
def WitnessTable.modifyAll (t : WitnessTable) (ws : List WitnessObject)
    (f : WitnessObject → WitnessObject)
    (hf : autoParam (∀ w, (f w).owner = w.owner) Monoid.npow_zero._autoParam) :
    WitnessTable :=
  t.modifyWhere (fun w => w.owner ∈ ws.map WitnessObject.owner) f hf

/-- How the loops leave the witnesses. -/
def WitnessDatabase.Selection.mark (s : Selection) (t : WitnessTable) : WitnessTable :=
  (((WitnessTable.modifyAll t s.voted fun w => { w with schedule := .top19 }).modifyAll s.miners
    fun w => { w with schedule := .miner }).modifyAll s.processedMiners
      fun w => { w with powWorker := 0 }).modifyAll s.timeshare
        fun w => { w with schedule := .timeshare }

/-- The virtual time that everyone advances to at least. -/
def WitnessDatabase.Selection.newVirtualTime (s : Selection) (now : Nat) : Nat :=
  match s.processedWitnesses.getLast? with
  | some w => w.virtualScheduledTime
  | none => now

/-- The loop over the processed witnesses, which stops at an overflow and tells of it. -/
def updateVirtualSchedule (newVirtualTime : Nat) : List WitnessObject → WitnessTable →
    Bool × WitnessTable
  | [], t => (false, t)
  | w :: processed, t =>
    let time := (newVirtualTime + virtualScheduleLapLength2 / toUint128 (w.votes + 1)) % 2 ^ 128
    if time < newVirtualTime then
      (true, t)
    else
      updateVirtualSchedule newVirtualTime processed <| t.modify w.owner fun w =>
        { w with
          virtualPosition := 0
          virtualLastUpdate := newVirtualTime
          virtualScheduledTime := time }

/-- The first version, from the greatest on, that enough witnesses run at least. -/
def findMajorityVersion (versions : List Nat) : List Nat → Nat → Option Nat
  | [], _ => none
  | v :: rest, count =>
    let count := count + versions.count v
    if steemitHardforkRequiredWitnesses ≤ count then
      some v
    else
      findMajorityVersion versions rest count

/-- The majority version and the next hardfork that the scheduled witnesses make. -/
def tallyVersions (scheduled : List WitnessObject) (majorityVersion : Nat)
    (hfp : HardforkPropertyObject) : Nat × HardforkPropertyObject :=
  let versions := scheduled.map WitnessObject.runningVersion
  let majorityVersion := (findMajorityVersion versions
    (versions.dedup.insertionSort (· ≥ ·)) 0).getD majorityVersion
  let votes := scheduled.map fun w => (w.hardforkVersionVote, w.hardforkTimeVote)
  let sorted := votes.dedup.insertionSort fun v v' => v.1 < v'.1 ∨ (v.1 = v'.1 ∧ v.2 ≤ v'.2)
  match sorted.find? fun v => steemitHardforkRequiredWitnesses ≤ votes.count v with
  | some v => (majorityVersion, { hfp with nextHardfork := v.1, nextHardforkTime := v.2 })
  | none => (majorityVersion, { hfp with nextHardfork := hfp.currentHardforkVersion })

/-- The random number of the turn `i` of the shuffle. -/
def shuffleDraw (headBlockTime i : Nat) : Nat :=
  let k : BitVec 64 := (BitVec.ofNat 64 headBlockTime <<< 32) +
    BitVec.ofNat 64 i * 2685821657736338717
  let k := k ^^^ (k >>> 12)
  let k := k ^^^ (k <<< 25)
  let k := k ^^^ (k >>> 27)
  (k * 2685821657736338717).toNat

namespace WitnessDatabase

variable (db : WitnessDatabase)

/-- The processed witnesses have gone their lap, which may leave the range of the virtual time. -/
def runLap : Bool × WitnessTable :=
  updateVirtualSchedule (db.select.newVirtualTime db.schedule.currentVirtualTime)
    db.select.processedWitnesses (db.select.mark db.witnesses)

/-- `reset_virtual_time` -/
def resetsVirtualTime : Bool :=
  db.runLap.1

/-- The database after the loops, and the virtual time that they lead to. -/
def advance : WitnessDatabase × Nat :=
  let db' :=
    { db with
      witnesses := db.runLap.2
      properties :=
        { db.properties with
          numPowWitnesses :=
            (db.properties.numPowWitnesses + 2 ^ 32 - db.select.processedMiners.length) % 2 ^ 32 } }
  if db.resetsVirtualTime then
    (db'.resetVirtualScheduleTime, 0)
  else
    (db', db.select.newVirtualTime db.schedule.currentVirtualTime)

end WitnessDatabase

/-- The changes that `update_witness_schedule4` makes to the schedule object. -/
def WitnessScheduleObject.fill (wso : WitnessScheduleObject) (s : WitnessDatabase.Selection)
    (newVirtualTime majorityVersion : Nat) (properties : DynamicGlobalPropertyObject) :
    WitnessScheduleObject :=
  let activeWitnesses := s.active.map WitnessObject.owner
  let numScheduledWitnesses := max (activeWitnesses.length % 256) 1
  { wso with
    numScheduledWitnesses := numScheduledWitnesses
    witnessPayNormalizationFactor :=
      (wso.top19Weight * s.voted.length + wso.minerWeight * s.miners.length +
        wso.timeshareWeight * s.timeshare.length) % 2 ^ 32
    currentShuffledWitnesses := Shuffle.shuffle (shuffleDraw properties.time) numScheduledWitnesses
      (Vector.ofFn fun i => activeWitnesses.getD i "")
    currentVirtualTime := newVirtualTime
    nextShuffleBlockNum := (properties.headBlockNumber + numScheduledWitnesses) % 2 ^ 32
    majorityVersion := majorityVersion }

/-- What `update_witness_schedule4` does before it turns to the medians. -/
def WitnessDatabase.makeSchedule (db : WitnessDatabase) : Result WitnessDatabase := do
  let s := db.select
  let (db', newVirtualTime) := db.advance
  ensure (14400 < db.properties.headBlockNumber →
      s.active.length = min steemitMaxWitnesses db.witnesses.rows.length)
    (.assertException "number of active witnesses does not equal expected_active_witnesses")
  let (majorityVersion, hardforks) ←
    if db.hasHardfork 5 then do
      let scheduled ← db'.scheduledWitnesses.mapM db'.getWitness
      pure (tallyVersions scheduled db.schedule.majorityVersion db.hardforks)
    else
      pure (db.schedule.majorityVersion, db.hardforks)
  pure
    { db' with
      hardforks := hardforks
      schedule := db'.schedule.fill s newVirtualTime majorityVersion db.properties }

def WitnessDatabase.updateWitnessSchedule4 (db : WitnessDatabase) : Result WitnessDatabase := do
  let db ← db.makeSchedule
  db.updateMedianWitnessProps

end Golos.Witness
