import Golos.Witness.Impl.Schedule

/-!
This module contains the operations by which witnesses come up and vote for chain properties, and
what hardforks do to witnesses.
-/

namespace Golos.Witness

open Checked

structure WitnessUpdateOperation where
  owner : AccountName
  url : String
  blockSigningKey : PublicKeyType
  props : ChainProperties17
  fee : Asset

def WitnessUpdateOperation.validate (o : WitnessUpdateOperation) : Result Unit := do
  validateAccountName o.owner
  ensure (o.url ≠ "") (.invalidValue "url cannot be empty")
  checkAssetGe o.fee "fee" steemSymbol "GOLOS" 0
  o.props.validate

structure ChainPropertiesUpdateOperation where
  owner : AccountName
  props : VersionedChainProperties

def ChainPropertiesUpdateOperation.validate (o : ChainPropertiesUpdateOperation) : Result Unit := do
  validateAccountName o.owner
  o.props.validate

/-- What `pow` and `pow2` carry of the witness that they are done for. -/
structure PowOperation where
  worker : AccountName
  key : PublicKeyType
  props : ChainProperties17

def PowOperation.validate (o : PowOperation) : Result Unit := do
  validateAccountName o.worker
  o.props.validate

namespace WitnessDatabase

variable (db : WitnessDatabase)

def assertReqHf (hardfork : Nat) (feature : String) : Result Unit :=
  ensure (db.hasHardfork hardfork)
    (.logicException (feature ++ " is not enabled until HF " ++ toString hardfork))

def hf23Check (props : ChainProperties23) : Result Unit :=
  if db.hasHardfork 27 then
    pure ()
  else
    checkValueGe props.claimIdlenessTime "claim_idleness_time" (60 * 60 * 24 * 1)

def hf26Check (props : ChainProperties26) : Result Unit := do
  (if db.hasHardfork 27 then
    pure ()
  else
    checkValueLege props.negrepPostingWindow "negrep_posting_window" 1 (65535 / 2) "1"
      "std::numeric_limits<uint16_t>::max() / 2")
  if db.hasHardfork 28 then
    checkAssetGe props.minGolosPowerToCurate "min_golos_power_to_curate" sbdSymbol "GBG" 0
  else
    checkAssetGe props.minGolosPowerToCurate "min_golos_power_to_curate" steemSymbol "GOLOS" 0

/-- The checks of the visitor `chain_properties_update`. -/
def checkChainProperties : VersionedChainProperties → Result Unit
  | .chainProperties17 _ => pure ()
  | .chainProperties18 _ => pure ()
  | .chainProperties19 props => do
    (if db.hasHardfork 22 then
      pure ()
    else do
      checkValueLe props.maxDelegatedVestingInterestRate "max_delegated_vesting_interest_rate"
        (80 * steemit1Percent)
      checkValueLege props.minCurationPercent "min_curation_percent" (25 * steemit1Percent)
        props.maxCurationPercent "(25*STEEMIT_1_PERCENT)" "max_curation_percent")
    if db.hasHardfork 23 then
      pure ()
    else
      ensure (props.maxReferralBreakFee.amount ≤ golosMaxReferralBreakFeePreHf22.amount)
        (.invalidValue "Maximum break free cann't be more than asset(100000, STEEM_SYMBOL)")
  | .chainProperties22 _ => db.assertReqHf 22 "chain_properties_22"
  | .chainProperties23 props => do
    db.assertReqHf 23 "chain_properties_23"
    db.hf23Check props
  | .chainProperties24 props => do
    db.assertReqHf 24 "chain_properties_24"
    db.hf23Check props.toChainProperties23
  | .chainProperties26 props => do
    db.assertReqHf 26 "chain_properties_26"
    db.hf23Check props.toChainProperties23
    db.hf26Check props
  | .chainProperties27 props => do
    db.assertReqHf 27 "chain_properties_27"
    db.hf23Check props.toChainProperties23
    db.hf26Check props.toChainProperties26
  | .chainProperties28 props => do
    db.assertReqHf 28 "chain_properties_28"
    db.hf23Check props.toChainProperties23
    db.hf26Check props.toChainProperties26
  | .chainProperties29 props => do
    db.assertReqHf 29 "chain_properties_29"
    db.hf23Check props.toChainProperties23
    db.hf26Check props.toChainProperties26
  | .chainProperties30 props => do
    db.assertReqHf 30 "chain_properties_30"
    db.hf23Check props.toChainProperties23
    db.hf26Check props.toChainProperties26

def chainPropertiesUpdate (wprops : ChainProperties) (props : VersionedChainProperties) :
    Result ChainProperties := do
  db.checkChainProperties props
  pure (wprops.assign props)

/-- The lambda `update_witness`. -/
def updateWitness (o : WitnessUpdateOperation) (w : WitnessObject) : WitnessObject :=
  { w with
    url := o.url
    signingKey := o.blockSigningKey
    props :=
      if db.hasHardfork 18 then
        w.props
      else
        w.props.assign (.chainProperties17 o.props) }

def witnessUpdate (o : WitnessUpdateOperation) : Result WitnessDatabase := do
  o.validate
  db.getAccount o.owner
  ensure (db.hasHardfork 1 → o.url.utf8ByteSize ≤ 2048)
    (.invalidValue "url is too long, it must be <= 2048")
  match db.witnesses.find? o.owner with
  | some _ => pure (db.modifyWitness o.owner (db.updateWitness o))
  | none =>
    let w := db.updateWitness o
      { id := db.nextWitnessId, owner := o.owner, created := db.properties.time }
    let props := if db.hasHardfork 26 then w.props.hf26WindowsSecToMin else w.props
    let props :=
      if db.hasHardfork 28 then
        { props with
          minGolosPowerToCurate := db.schedule.medianProps.minGolosPowerToCurate }
      else
        props
    db.createWitness { w with props := props }

def updateChainProperties (o : ChainPropertiesUpdateOperation) : Result WitnessDatabase := do
  o.validate
  db.getAccount o.owner
  match db.witnesses.find? o.owner with
  | some w => do
    let props ← db.chainPropertiesUpdate w.props o.props
    pure (db.modifyWitness o.owner fun w => { w with props := props })
  | none => do
    let props ← db.chainPropertiesUpdate {} o.props
    db.createWitness
      { id := db.nextWitnessId
        owner := o.owner
        created := db.properties.time
        props := props }

/-- What `pow` and `pow2` do to witnesses when the work is accepted. -/
def applyPow (o : PowOperation) : Result WitnessDatabase := do
  o.validate
  ensure (¬db.hasHardfork 28) (.logicException "Miners are deprecated in HF28.")
  let totalPow := (db.properties.totalPow + 1) % 2 ^ 64
  let db :=
    { db with
      properties :=
        { db.properties with
          totalPow := totalPow
          numPowWitnesses := (db.properties.numPowWitnesses + 1) % 2 ^ 32 } }
  match db.witnesses.find? o.worker with
  | some w => do
    ensure (w.powWorker = 0)
      (.logicException "This account is already scheduled for pow block production.")
    pure <| db.modifyWitness o.worker fun w =>
      { w with
        props := w.props.assign (.chainProperties17 o.props)
        powWorker := totalPow }
  | none =>
    let props := ChainProperties.assign {} (.chainProperties17 o.props)
    db.createWitness
      { id := db.nextWitnessId
        owner := o.worker
        props := if db.hasHardfork 26 then props.hf26WindowsSecToMin else props
        signingKey := o.key
        powWorker := totalPow }

/-- What `retally_witness_votes` does before it applies the votes anew. -/
def clearWitnessVotes : WitnessDatabase :=
  { db with
    witnesses := db.witnesses.modifyWhere (fun _ => true) fun w =>
      { w with
        votes := 0
        virtualPosition := 0 } }

/-- `update_witness_windows_sec_to_min`, which reaches the first 50 witnesses. -/
def updateWitnessWindowsSecToMin : WitnessDatabase :=
  { db with
    witnesses := WitnessTable.modifyAll db.witnesses (db.byVoteName.take 50) fun w =>
      { w with props := w.props.hf26WindowsSecToMin }
    schedule :=
      { db.schedule with
        medianProps := db.schedule.medianProps.hf26WindowsSecToMin } }

def convertToGbg (a : Asset) : Result Asset :=
  match db.currentMedianHistory with
  | some gbgMedian => a.mulPrice gbgMedian
  | none => pure ⟨a.amount, sbdSymbol⟩

def convertMinCurateGolosPower : Result WitnessDatabase := do
  let db' ← db.witnesses.rows.foldlM (fun db' w => do
    let a ← db.convertToGbg w.props.minGolosPowerToCurate
    pure (WitnessDatabase.modifyWitness db' w.owner fun w =>
      { w with props := { w.props with minGolosPowerToCurate := a } })) db
  let a ← db.convertToGbg db.schedule.medianProps.minGolosPowerToCurate
  pure
    { db' with
      schedule :=
        { db'.schedule with
          medianProps := { db'.schedule.medianProps with minGolosPowerToCurate := a } } }

/-- The votes that a hardfork counts anew, or takes away. -/
def applyVotes (votes : List (AccountName × ℤ)) : Result WitnessDatabase :=
  votes.foldlM (fun db v => db.adjustWitnessVote v.1 v.2) db

def performHardfork (hardfork : Nat) (votes : List (AccountName × ℤ)) : Result WitnessDatabase :=
  match hardfork with
  | 2 => db.clearWitnessVotes.applyVotes votes
  | 3 => db.clearWitnessVotes.applyVotes votes
  | 4 => pure db.resetVirtualScheduleTime
  | 22 => db.clearWitnessVotes.applyVotes votes
  | 26 => pure db.updateWitnessWindowsSecToMin
  | 28 => db.convertMinCurateGolosPower
  | _ => pure db

/-- `apply_hardfork`, told the votes of the accounts and the version of the hardfork. -/
def applyHardfork (version : Nat) (votes : List (AccountName × ℤ)) : Result WitnessDatabase := do
  let hardfork := db.hardforks.lastHardfork + 1
  let db' ← db.performHardfork hardfork votes
  pure
    { db' with
      hardforks :=
        { db'.hardforks with
          lastHardfork := hardfork
          currentHardforkVersion := version } }

end WitnessDatabase

end Golos.Witness
