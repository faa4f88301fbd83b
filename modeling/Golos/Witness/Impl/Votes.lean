import Golos.Witness.Impl.Evaluators

/-!
This module contains the votes of accounts for witnesses, the proxies who vote with the vesting
shares of others, and what is done about witnesses who produce no blocks any more.
-/

namespace Golos.Witness

open Checked

abbrev steemitMaxProxyRecursionDepth : Nat := 4

def steemitMaxAccountWitnessVotes : Nat := 30

def steemitProxyToSelfAccount : AccountName := ""

def golosWitnessIdlenessCheckInterval : Nat := 60 * 60 / 3 * 24

def golosWitnessIdlenessTopCount : Nat := 100

/-- The part of `account_object` that the votes for witnesses are made of. -/
structure AccountObject where
  name : AccountName
  proxy : AccountName := steemitProxyToSelfAccount
  vestingShares : ℤ := 0
  proxiedVsfVotes : Vector ℤ steemitMaxProxyRecursionDepth := Vector.replicate _ 0
  witnessesVotedFor : Nat := 0
  canVote : Bool := true
  deriving DecidableEq

/-- It tells the account and the witness by their names instead of their ids. -/
structure WitnessVoteObject where
  witness : AccountName
  account : AccountName
  rshares : ℤ := 0
  deriving DecidableEq

def WitnessVoteObject.key (v : WitnessVoteObject) : AccountName × AccountName :=
  (v.account, v.witness)

structure DeclineVotingRightsRequestObject where
  account : AccountName
  effectiveDate : Nat
  deriving DecidableEq

/-- The part of `database` that the votes for witnesses are counted in. -/
structure VoteDatabase extends WitnessDatabase where
  voters : Table AccountObject.name := .empty
  witnessVotes : Table WitnessVoteObject.key := .empty
  declineVotingRightsRequests : Table DeclineVotingRightsRequestObject.account := .empty

/-- `std::array<share_type, STEEMIT_MAX_PROXY_RECURSION_DEPTH + 1>` -/
abbrev VoteDelta :=
  Fin (steemitMaxProxyRecursionDepth + 1) → ℤ

def divide64 (x : ℤ) (n : Nat) : Result ℤ := do
  ensure (n ≠ 0) (.internalError "divide_by_zero_exception")
  pure (x.tdiv n)

def VoteDelta.negate (delta : VoteDelta) : Result VoteDelta := do
  ensure (∀ i, -delta i ≤ maxInt64) .overflowException
  pure fun i => -delta i

namespace AccountObject

def witnessVoteWeight (a : AccountObject) : Result ℤ :=
  a.proxiedVsfVotes.toList.foldlM (fun sum x => int64 (sum + x) .overflowException) a.vestingShares

/-- The vesting shares of the account, and then those that are proxied to it. -/
def votes (a : AccountObject) : VoteDelta :=
  Fin.cons a.vestingShares a.proxiedVsfVotes.get

/-- What is not to be added cannot overflow. -/
def addProxiedVsfVotes (a : AccountObject) (delta : Fin steemitMaxProxyRecursionDepth → ℤ) :
    Result (Vector ℤ steemitMaxProxyRecursionDepth) := do
  let sums := fun i => a.proxiedVsfVotes.get i + delta i
  ensure (∀ i, delta i ≠ 0 → minInt64 ≤ sums i ∧ sums i ≤ maxInt64) .overflowException
  pure (Vector.ofFn sums)

end AccountObject

structure AccountWitnessProxyOperation where
  account : AccountName
  proxy : AccountName

def AccountWitnessProxyOperation.validate (o : AccountWitnessProxyOperation) : Result Unit := do
  validateAccountName o.account
  if o.proxy = "" then
    pure ()
  else do
    validateAccountName o.proxy
    ensure (o.proxy ≠ o.account) (.invalidValue "Cannot proxy to self")

structure AccountWitnessVoteOperation where
  account : AccountName
  witness : AccountName
  approve : Bool

def AccountWitnessVoteOperation.validate (o : AccountWitnessVoteOperation) : Result Unit := do
  validateAccountName o.account
  validateAccountName o.witness

structure DeclineVotingRightsOperation where
  account : AccountName
  decline : Bool

def DeclineVotingRightsOperation.validate (o : DeclineVotingRightsOperation) : Result Unit :=
  validateAccountName o.account

namespace VoteDatabase

variable (db : VoteDatabase)

def getVoter (name : AccountName) : Result AccountObject :=
  get (db.voters.find? name) (.missingObject "account")

def modifyVoter (name : AccountName) (f : AccountObject → AccountObject)
    (hf : autoParam (∀ a, (f a).name = a.name) Monoid.npow_zero._autoParam) : VoteDatabase :=
  { db with voters := db.voters.modify name f hf }

def witnessId (name : AccountName) : Nat :=
  (db.witnesses.find? name).elim 0 WitnessObject.id

/-- Accounts get their ids in the order in which they are created. -/
def accountId (name : AccountName) : Nat :=
  db.voters.rows.findIdx fun a => a.name = name

/-- The index `by_account_witness` at an account. -/
def byAccountWitness (account : AccountName) : List WitnessVoteObject :=
  (db.witnessVotes.rows.filter fun v => v.account = account).insertionSort fun v v' =>
    db.witnessId v.witness ≤ db.witnessId v'.witness

/-- The index `by_witness_account` at a witness. -/
def byWitnessAccount (witness : AccountName) : List WitnessVoteObject :=
  (db.witnessVotes.rows.filter fun v => v.witness = witness).insertionSort fun v v' =>
    db.accountId v.account ≤ db.accountId v'.account

/-- What `adjust_witness_vote` makes of the vote object. -/
def adjustRshares (account witness : AccountName) (delta : ℤ) (overwrite : Bool) :
    Result VoteDatabase :=
  match db.witnessVotes.find? (account, witness) with
  | none => pure db
  | some v => do
    let rshares ← int64 ((if overwrite then 0 else v.rshares) + delta) .overflowException
    pure
      { db with
        witnessVotes := db.witnessVotes.modify (account, witness) fun v =>
          { v with rshares := max rshares 0 } }

def adjustWitnessVote (account witness : AccountName) (delta : ℤ) (overwrite : Bool) :
    Result VoteDatabase := do
  let inner ← db.toWitnessDatabase.adjustWitnessVote witness delta
  adjustRshares { db with toWitnessDatabase := inner } account witness delta overwrite

def adjustWitnessVotes (account : AccountName) (delta : ℤ) : Result VoteDatabase :=
  (db.byAccountWitness account).foldlM
    (fun db v => adjustWitnessVote db account v.witness delta false) db

/--
The recursion of both functions `adjust_proxied_witness_votes`, told what they add to the votes
proxied to an account at some depth, and what they give to the witnesses there. The depth can grow
`left` times more.
-/
def adjustProxied (votes : Nat → Fin steemitMaxProxyRecursionDepth → ℤ) (total : Nat → Result ℤ) :
    Nat → AccountObject → VoteDatabase → Result VoteDatabase
  | left, a, db =>
    let depth := steemitMaxProxyRecursionDepth - left
    if a.proxy = steemitProxyToSelfAccount then do
      let delta ← total depth
      let delta ←
        (if db.hasHardfork 22 then divide64 delta (max a.witnessesVotedFor 1) else pure delta)
      db.adjustWitnessVotes a.name delta
    else
      match left with
      | 0 => pure db
      | left + 1 => do
        let proxy ← db.getVoter a.proxy
        let proxied ← proxy.addProxiedVsfVotes (votes depth)
        adjustProxied votes total left { proxy with proxiedVsfVotes := proxied }
          (db.modifyVoter proxy.name fun a => { a with proxiedVsfVotes := proxied })

/-- `adjust_proxied_witness_votes` with votes for all the levels below the account. -/
def adjustProxiedWitnessVotes (a : AccountObject) (delta : VoteDelta) : Result VoteDatabase :=
  adjustProxied (fun depth i => if depth ≤ i then delta ⟨i - depth, by omega⟩ else 0)
    (fun depth =>
      ((List.ofFn delta).take (steemitMaxProxyRecursionDepth - depth + 1)).reverse.foldlM
        (fun sum x => int64 (sum + x) .overflowException) 0)
    steemitMaxProxyRecursionDepth a db

/-- `adjust_proxied_witness_votes` with votes of the account alone. -/
def adjustProxiedWitnessVotesBy (a : AccountObject) (delta : ℤ) : Result VoteDatabase :=
  adjustProxied (fun depth i => if i = depth then delta else 0) (fun _ => pure delta)
    steemitMaxProxyRecursionDepth a db

def clearVotes (account : AccountName) : VoteDatabase :=
  let db :=
    { db with witnessVotes := db.witnessVotes.filter fun v => v.account ≠ account }
  if db.hasHardfork 6 then
    db.modifyVoter account fun a => { a with witnessesVotedFor := 0 }
  else
    db

/-- The loop that looks for proxy loops, where the chain can have `left` accounts more. -/
def checkProxyChain : Nat → List AccountName → AccountObject → Result Unit
  | left, chain, cprox =>
    if cprox.proxy = "" then
      pure ()
    else do
      let nextProxy ← db.getVoter cprox.proxy
      ensure (nextProxy.name ∉ chain) (.logicException "This proxy would create a proxy loop.")
      match left with
      | 0 => throw (.logicException "Proxy chain is too long.")
      | left + 1 => checkProxyChain left (nextProxy.name :: chain) nextProxy

def accountWitnessProxy (o : AccountWitnessProxyOperation) : Result VoteDatabase := do
  o.validate
  let account ← db.getVoter o.account
  ensure (account.proxy ≠ o.proxy) (.logicException "Proxy must change.")
  ensure (account.canVote = true)
    (.logicException "Account has declined the ability to vote and cannot proxy votes.")
  let delta ← account.votes.negate
  let db ← db.adjustProxiedWitnessVotes account delta
  if o.proxy = "" then
    pure (db.modifyVoter o.account fun a => { a with proxy := o.proxy })
  else do
    let newProxy ← db.getVoter o.proxy
    -- the chain starts with two accounts
    db.checkProxyChain (steemitMaxProxyRecursionDepth - 2) [newProxy.name, account.name] newProxy
    let db := (db.clearVotes o.account).modifyVoter o.account fun a => { a with proxy := o.proxy }
    let account ← db.getVoter o.account
    let delta ← delta.negate
    db.adjustProxiedWitnessVotes account delta

def createWitnessVote (v : WitnessVoteObject) : Result VoteDatabase := do
  let witnessVotes ← get (db.witnessVotes.emplace v) .uniquenessViolated
  pure { db with witnessVotes := witnessVotes }

/-- Count a vote that is there, or no longer there, in the account. -/
def countVote (account : AccountName) (change : Nat) : VoteDatabase :=
  db.modifyVoter account fun a =>
    { a with witnessesVotedFor := (a.witnessesVotedFor + change) % 2 ^ 16 }

def removeVote (account witness : AccountName) : VoteDatabase :=
  let db := db.countVote account (2 ^ 16 - 1)
  { db with witnessVotes := db.witnessVotes.erase (account, witness) }

/-- Before hardfork 2 the votes of a witness are changed in place. -/
def addWitnessVotes (witness : AccountName) (delta : ℤ) : Result VoteDatabase := do
  let w ← db.getWitness witness
  let votes ← int64 (w.votes + delta) .overflowException
  pure
    { db with
      toWitnessDatabase := db.modifyWitness witness fun w => { w with votes := votes } }

/-- The votes of the account are spread over one more witness. -/
def approveWitness (voter : AccountObject) (weight : ℤ) (witness : AccountName) :
    Result VoteDatabase :=
  let vote : WitnessVoteObject := { witness := witness, account := voter.name }
  if db.hasHardfork 2 then do
    ensure (voter.witnessesVotedFor < steemitMaxAccountWitnessVotes)
      (.logicException "Account has voted for too many witnesses.")
    if db.hasHardfork 22 then do
      let oldDelta ← divide64 weight (max voter.witnessesVotedFor 1)
      let newDelta ← divide64 weight (voter.witnessesVotedFor + 1)
      let change ← int64 (-oldDelta + newDelta) .overflowException
      let db ← db.adjustWitnessVotes voter.name change
      let db ← db.createWitnessVote vote
      db.adjustWitnessVote voter.name witness newDelta false
    else do
      let db ← db.createWitnessVote vote
      if db.hasHardfork 3 then
        db.adjustWitnessVote voter.name witness weight false
      else
        db.adjustProxiedWitnessVotesBy voter weight
  else do
    let db ← db.createWitnessVote { vote with rshares := weight }
    db.addWitnessVotes witness weight

/-- The votes of the account are spread over one witness less. -/
def spreadWithout (voter : AccountObject) (weight : ℤ) (witness : AccountName) :
    Result VoteDatabase := do
  let oldDelta ← divide64 weight voter.witnessesVotedFor
  let newDelta ← divide64 weight (max ((voter.witnessesVotedFor + (2 ^ 16 - 1)) % 2 ^ 16) 1)
  let change ← int64 (-oldDelta + newDelta) .overflowException
  let db ← db.adjustWitnessVotes voter.name change
  db.adjustWitnessVote voter.name witness (-newDelta) false

def rejectWitness (voter : AccountObject) (weight : ℤ) (witness : AccountName) :
    Result VoteDatabase :=
  if db.hasHardfork 2 then
    if db.hasHardfork 22 then
      db.spreadWithout voter weight witness
    else if db.hasHardfork 3 then
      db.adjustWitnessVote voter.name witness (-weight) false
    else
      db.adjustProxiedWitnessVotesBy voter (-weight)
  else
    db.addWitnessVotes witness (-weight)

def accountWitnessVote (o : AccountWitnessVoteOperation) : Result VoteDatabase := do
  o.validate
  let voter ← db.getVoter o.account
  ensure (voter.proxy = "")
    (.logicException
      "A proxy is currently set, please clear the proxy before voting for a witness.")
  let weight ← voter.witnessVoteWeight
  ensure (o.approve = true → voter.canVote = true)
    (.logicException "Account has declined its voting rights.")
  let witness ← db.getWitness o.witness
  match db.witnessVotes.find? (voter.name, witness.owner) with
  | none => do
    ensure (o.approve = true)
      (.logicException "Vote doesn't exist, user must indicate a desire to approve witness.")
    let db ← db.approveWitness voter weight witness.owner
    pure (db.countVote voter.name 1)
  | some _ => do
    ensure (o.approve = false)
      (.logicException "Vote currently exists, user must indicate a desire to reject witness.")
    let db ← db.rejectWitness voter weight witness.owner
    pure (db.removeVote voter.name witness.owner)

def steemitOwnerAuthRecoveryPeriod : Nat := 60 * 60 * 24 * 30

def declineVotingRights (o : DeclineVotingRightsOperation) : Result VoteDatabase := do
  o.validate
  let account ← db.getVoter o.account
  let requests := db.declineVotingRightsRequests
  if o.decline then do
    ensure (requests.find? account.name = none)
      (.objectAlreadyExist "decline_voting_rights_request")
    let requests ← get
      (requests.emplace
        { account := account.name
          effectiveDate := db.properties.time + steemitOwnerAuthRecoveryPeriod })
      .uniquenessViolated
    pure { db with declineVotingRightsRequests := requests }
  else do
    ensure (requests.find? account.name ≠ none) (.missingObject "decline_voting_rights_request")
    pure { db with declineVotingRightsRequests := requests.erase account.name }

/-- The requests that have come into effect, in the order of `by_effective_date`. -/
def dueRequests : List DeclineVotingRightsRequestObject :=
  (db.declineVotingRightsRequests.rows.filter fun r => r.effectiveDate ≤ db.properties.time).insertionSort
    fun r r' => r.effectiveDate < r'.effectiveDate ∨
      (r.effectiveDate = r'.effectiveDate ∧ db.accountId r.account ≤ db.accountId r'.account)

def takeVotingRights (r : DeclineVotingRightsRequestObject) : Result VoteDatabase := do
  let account ← db.getVoter r.account
  let delta ← account.votes.negate
  let db ← db.adjustProxiedWitnessVotes account delta
  let db := (db.clearVotes account.name).modifyVoter account.name fun a =>
    { a with
      canVote := false
      proxy := steemitProxyToSelfAccount }
  pure { db with declineVotingRightsRequests := db.declineVotingRightsRequests.erase r.account }

/-- No request comes up while the due ones are processed. -/
def processDeclineVotingRights : Result VoteDatabase :=
  db.dueRequests.foldlM takeVotingRights db

/-- The number of the block that witnesses must have confirmed one after, which wraps around on a
chain that is too short. -/
def oldBlockNum : Nat :=
  (db.properties.headBlockNumber + 2 ^ 32 -
    db.schedule.medianProps.witnessIdlenessTime / 3 % 2 ^ 32) % 2 ^ 32

def IsIdle (w : WitnessObject) : Prop :=
  w.lastConfirmedBlockNum ≠ 0 ∧ w.lastConfirmedBlockNum ≤ db.oldBlockNum

instance (w : WitnessObject) : Decidable (db.IsIdle w) :=
  inferInstanceAs (Decidable (_ ∧ _))

/-- The idle ones of the witnesses that are looked at. -/
def witnessesToClear (periodically : Bool) : List AccountName :=
  let examined :=
    if periodically then db.byVoteName.take golosWitnessIdlenessTopCount else db.byVoteName
  (examined.filter fun w => db.IsIdle w).map WitnessObject.owner

def clearIdleVote (v : WitnessVoteObject) : Result VoteDatabase := do
  let voter ← db.getVoter v.account
  let weight ← voter.witnessVoteWeight
  let db ← db.spreadWithout voter weight v.witness
  pure (db.removeVote v.account v.witness)

def clearWitness (witness : AccountName) : Result VoteDatabase :=
  (db.byWitnessAccount witness).foldlM clearIdleVote db

def checkWitnessIdleness (periodically : Bool) : Result VoteDatabase :=
  if periodically = true ∧
      (db.properties.headBlockNumber % golosWitnessIdlenessCheckInterval ≠ 0 ∨
        ¬db.hasHardfork 22) then
    pure db
  else
    (db.witnessesToClear periodically).foldlM clearWitness db

/-- What every change of vesting shares comes down to, told the new total. The moves of
`process_transit_to_cyberway`, which leave out the proxied votes, are left out. -/
def changeVesting (name : AccountName) (delta totalVestingShares : ℤ) : Result VoteDatabase := do
  let a ← db.getVoter name
  let vestingShares ← int64 (a.vestingShares + delta) .overflowException
  let db := db.modifyVoter name fun a => { a with vestingShares := vestingShares }
  let db :=
    { db with
      properties := { db.properties with totalVestingShares := totalVestingShares } }
  let a ← db.getVoter name
  db.adjustProxiedWitnessVotesBy a delta

/-- `perform_vesting_share_split` -/
def performVestingShareSplit (magnitude : Nat) : Result VoteDatabase := do
  let total ← int64 (db.properties.totalVestingShares * magnitude) .overflowException
  ensure
    (∀ a ∈ db.voters.rows, ∀ i, minInt64 ≤ a.votes i * magnitude ∧ a.votes i * magnitude ≤ maxInt64)
    .overflowException
  pure
    { db with
      properties := { db.properties with totalVestingShares := total }
      voters := db.voters.modifyWhere (fun _ => true) fun a =>
        { a with
          vestingShares := a.vestingShares * magnitude
          proxiedVsfVotes := a.proxiedVsfVotes.map (· * magnitude) } }

/-- The loop over the votes of an account, told what each of them is worth. -/
def retallyAccount (account : AccountName) (weight : Result ℤ) : Result VoteDatabase :=
  (db.byAccountWitness account).foldlM
    (fun db v => do
      let weight ← weight
      adjustWitnessVote db account v.witness weight true) db

/-- Both functions `retally_witness_votes`, told what is done about an account. -/
def retally (account : VoteDatabase → AccountObject → Result VoteDatabase) : Result VoteDatabase :=
  (db.voters.rows.filter fun a => a.proxy = steemitProxyToSelfAccount).foldlM account
    { db with toWitnessDatabase := db.clearWitnessVotes }

def retallyWitnessVotes : Result VoteDatabase :=
  db.retally fun db a => db.retallyAccount a.name a.witnessVoteWeight

def retallyWitnessVotesHf22 : Result VoteDatabase :=
  db.retally fun db a => do
    let weight ← a.witnessVoteWeight
    let weight ← divide64 weight (max a.witnessesVotedFor 1)
    db.retallyAccount a.name (pure weight)

def retallyWitnessVoteCounts (force : Bool) : VoteDatabase :=
  { db with
    voters := db.voters.modifyWhere (fun _ => true) fun a =>
      { a with
        witnessesVotedFor :=
          if force = true ∨ a.proxy ≠ steemitProxyToSelfAccount then
            (db.byAccountWitness a.name).length % 2 ^ 16
          else
            0 } }

def performHardfork (hardfork : Nat) : Result VoteDatabase :=
  match hardfork with
  | 1 => db.performVestingShareSplit 10000
  | 2 => db.retallyWitnessVotes
  | 3 => db.retallyWitnessVotes
  | 6 => pure (db.retallyWitnessVoteCounts false)
  | 8 => pure (db.retallyWitnessVoteCounts true)
  | 22 => do
    let db ← db.retallyWitnessVotesHf22
    db.checkWitnessIdleness false
  | _ => do
    let inner ← db.toWitnessDatabase.performHardfork hardfork []
    pure { db with toWitnessDatabase := inner }

/-- `apply_hardfork`, told the version of the hardfork. -/
def applyHardfork (version : Nat) : Result VoteDatabase := do
  let hardfork := db.hardforks.lastHardfork + 1
  let db ← db.performHardfork hardfork
  pure
    { db with
      hardforks :=
        { db.hardforks with
          lastHardfork := hardfork
          currentHardforkVersion := version } }

/-- What an operation that creates an account does to the votes: nobody votes with it yet. -/
def createAccount (name : AccountName) : Result VoteDatabase := do
  validateAccountName name
  let voters ← get (db.voters.emplace { name := name }) .uniquenessViolated
  pure
    { db with
      voters := voters
      accounts := name :: db.accounts }

/-- The `total_vsf_votes` of `validate_invariants`. -/
def totalVsfVotes : Result ℤ :=
  db.voters.rows.foldlM
    (fun total a => do
      let votes ←
        (if a.proxy = steemitProxyToSelfAccount then a.witnessVoteWeight
          else pure (a.proxiedVsfVotes.get (Fin.last _)))
      int64 (total + votes) .overflowException) 0

end VoteDatabase

end Golos.Witness
