import Golos.Staking.Impl.Delegation

/-!
This module contains the functions that withdraw Golos Power: on request, after long idleness, from
the null account and in the transit, under the rules of hardfork 30.
-/

namespace Golos

open Checked

def steemitVestingWithdrawIntervals : ℤ := 4

def steemitVestingWithdrawIntervalSeconds : Nat := 604800

def steemitMaxWithdrawRoutes : Nat := 10

def golosAccountIdlenessCheckInterval : Nat := 28800

structure WithdrawVestingOperation where
  account : AccountName
  vestingShares : Asset

structure SetWithdrawVestingRouteOperation where
  fromAccount : AccountName
  toAccount : AccountName
  percent : Nat := 0
  autoVest : Bool := false

def WithdrawVestingOperation.validate (op : WithdrawVestingOperation) : Result Unit := do
  ensure (op.vestingShares.symbol = vestsSymbol) (.invalidValue "Amount must be GESTS")
  ensure (0 ≤ op.vestingShares.amount) (.invalidValue "Cannot withdraw negative GESTS")

def SetWithdrawVestingRouteOperation.validate (op : SetWithdrawVestingRouteOperation) :
    Result Unit :=
  ensure (op.percent ≤ steemit100Percent) (.invalidValue "percent")

namespace StakeAccountObject

/-- The rate of a withdrawal of `shares`. -/
def withdrawRate (shares : ℤ) : ℤ :=
  let rate := shares.tdiv steemitVestingWithdrawIntervals
  if rate = 0 then 1 else rate

def stopWithdrawal (a : StakeAccountObject) : StakeAccountObject :=
  { a with
    vestingWithdrawRate := 0
    nextVestingWithdrawal := maxTimePoint
    toWithdraw := 0
    withdrawn := 0 }

def startWithdrawal (a : StakeAccountObject) (shares : ℤ) (now : Nat) : StakeAccountObject :=
  { a with
    vestingWithdrawRate := withdrawRate shares
    nextVestingWithdrawal := now + steemitVestingWithdrawIntervalSeconds
    toWithdraw := shares
    withdrawn := 0 }

/-- What `process_vesting_withdrawals` takes from the account. -/
def dueWithdrawal (a : StakeAccountObject) : Result ℤ := do
  let remaining ← int64 (a.toWithdraw - a.withdrawn) .overflowException
  let due ← (if remaining < a.vestingWithdrawRate then do
      ensure (a.vestingWithdrawRate ≠ 0) .overflowException
      pure (min a.vestingShares (a.toWithdraw.tmod a.vestingWithdrawRate))
    else
      pure (min a.vestingShares a.vestingWithdrawRate))
  if due < 0 then
    pure 0
  else
    let withdrawn ← int64 (a.withdrawn + due) .overflowException
    let remainder ← int64 (a.toWithdraw - withdrawn) .overflowException
    if 0 < remainder ∧ remainder < a.vestingWithdrawRate then
      int64 (due + remainder) .overflowException
    else
      pure due

/-- The update of the account that `process_vesting_withdrawals` withdraws from. -/
def payWithdrawal (a : StakeAccountObject) (due convertedSteem : ℤ) :
    Result StakeAccountObject := do
  let vestingShares ← add64 a.vestingShares (-due) .overflowException
  let balance ← add64 a.balance convertedSteem .overflowException
  let withdrawn ← add64 a.withdrawn due .overflowException
  let a : StakeAccountObject :=
    { a with vestingShares := vestingShares, balance := balance, withdrawn := withdrawn }
  if a.toWithdraw ≤ a.withdrawn ∨ a.vestingShares = 0 then
    pure a.stopWithdrawal
  else
    pure
      { a with
        nextVestingWithdrawal := a.nextVestingWithdrawal + steemitVestingWithdrawIntervalSeconds }

end StakeAccountObject

namespace Staking

/-- The place of an account in the order of ids, which is the order of creation. -/
def accountId (s : Staking) (name : AccountName) : Nat :=
  s.accounts.rows.findIdx fun a => a.name = name

/-- The routes after `upper_bound(from, account_id_type())`, which passes over the account 0. -/
def routesOf (s : Staking) (fromAccount : AccountName) : List WithdrawVestingRouteObject :=
  (s.routes.rows.filter fun r => r.fromAccount = fromAccount ∧ 0 < s.accountId r.toAccount).insertionSort
    fun r r' => s.accountId r.toAccount ≤ s.accountId r'.toAccount

def withdrawVesting (s : Staking) (op : WithdrawVestingOperation) : Result Staking := do
  op.validate
  let shares := op.vestingShares.amount
  let account ← s.getAccount op.account
  ensure (0 ≤ account.vestingShares) (.insufficientFunds account.name "vesting shares")
  let having_ ← account.availableVestingShares false
  ensure (shares ≤ having_) (.insufficientFunds account.name "having vesting shares")
  (if account.mined = false then do
    let minVests ← s.toVests s.medianProps.accountCreationFee
    let minVests ← int64 (minVests * 10) .overflowException
    ensure (minVests < account.vestingShares ∨ shares = 0)
      (.assertException "insufficient_fee_for_powerdown_registered_account")
  else
    pure ())
  if shares = 0 then
    ensure (account.vestingWithdrawRate ≠ 0)
      (.assertException "operation_would_not_change_vesting_withdraw_rate")
    s.modifyAccount op.account fun a => pure a.stopWithdrawal
  else
    ensure (account.vestingWithdrawRate ≠ StakeAccountObject.withdrawRate shares)
      (.assertException "operation_would_not_change_vesting_withdraw_rate")
    s.modifyAccount op.account fun a => pure (a.startWithdrawal shares s.headBlockTime)

def setWithdrawVestingRoute (s : Staking) (op : SetWithdrawVestingRouteOperation) :
    Result Staking := do
  op.validate
  let fromAccount ← s.getAccount op.fromAccount
  let _ ← s.getAccount op.toAccount
  let route : WithdrawVestingRouteObject :=
    ⟨op.fromAccount, op.toAccount, op.percent, op.autoVest⟩
  let s ← (match s.routes.find? (op.fromAccount, op.toAccount) with
    | none => do
      ensure (op.percent ≠ 0) (.assertException "Cannot create a 0% destination.")
      ensure (fromAccount.withdrawRoutes < steemitMaxWithdrawRoutes)
        (.assertException "reached_maxumum_number_of_routes")
      let routes ← get (s.routes.emplace route) .uniquenessViolated
      let s : Staking := { s with routes := routes }
      s.modifyAccount op.fromAccount fun a =>
        pure { a with withdrawRoutes := a.withdrawRoutes + 1 }
    | some _ =>
      if op.percent = 0 then
        let s : Staking := { s with routes := s.routes.erase (op.fromAccount, op.toAccount) }
        s.modifyAccount op.fromAccount fun a =>
          pure { a with withdrawRoutes := a.withdrawRoutes - 1 }
      else
        pure
          { s with
            routes := s.routes.modify (op.fromAccount, op.toAccount) fun r =>
              { r with percent := op.percent, autoVest := op.autoVest } })
  ensure (((s.routesOf op.fromAccount).map WithdrawVestingRouteObject.percent).sum
      ≤ steemit100Percent)
    (.assertException "More than 100% of vesting withdrawals allocated to destinations.")
  pure s

/-- `uint128_t(to_withdraw) * percent / STEEMIT_100_PERCENT` -/
def routeDeposit (due : ℤ) (r : WithdrawVestingRouteObject) : Result ℤ :=
  ofUint128 (toUint128 due * r.percent % 2 ^ 128 / steemit100Percent)

/-- The first pass over the routes, for vests; the second component is what it deposited. -/
def depositAsVests (due : ℤ) (p : Staking × ℤ) (r : WithdrawVestingRouteObject) :
    Result (Staking × ℤ) := do
  let toDeposit ← routeDeposit due r
  let deposited ← add64 p.2 toDeposit .overflowException
  if 0 < toDeposit then
    let s ← p.1.modifyAccount r.toAccount fun a => do
      let vestingShares ← add64 a.vestingShares toDeposit .overflowException
      pure { a with vestingShares := vestingShares }
    pure (s, deposited)
  else
    pure (p.1, deposited)

/-- `total_vesting_fund_steem -= steem` and `total_vesting_shares.amount -= vests` -/
def subTotals (s : Staking) (steem vests : ℤ) : Result Staking := do
  let fund ← add64 s.totalVestingFundSteem (-steem) .overflowException
  let shares ← add64 s.totalVestingShares (-vests) .overflowException
  pure { s with totalVestingFundSteem := fund, totalVestingShares := shares }

def addBalance (s : Staking) (name : AccountName) (delta : ℤ) : Result Staking :=
  s.modifyAccount name fun a => do
    let balance ← add64 a.balance delta .overflowException
    pure { a with balance := balance }

/-- The second pass over the routes, for steem. -/
def depositAsSteem (due : ℤ) (p : Staking × ℤ) (r : WithdrawVestingRouteObject) :
    Result (Staking × ℤ) := do
  let toDeposit ← routeDeposit due r
  let deposited ← add64 p.2 toDeposit .overflowException
  let convertedSteem ← p.1.toSteem toDeposit
  if 0 < toDeposit then
    let s ← p.1.addBalance r.toAccount convertedSteem
    let s ← s.subTotals convertedSteem toDeposit
    pure (s, deposited)
  else
    pure (p.1, deposited)

/-- The body of the loop of `process_vesting_withdrawals`. -/
def processVestingWithdrawal (s : Staking) (name : AccountName) : Result Staking := do
  let a ← s.getAccount name
  let due ← a.dueWithdrawal
  let (vestRoutes, steemRoutes) := (s.routesOf name).partition WithdrawVestingRouteObject.autoVest
  let (s, asVests) ← vestRoutes.foldlM (depositAsVests due) (s, 0)
  let (s, asSteem) ← steemRoutes.foldlM (depositAsSteem due) (s, 0)
  let toConvert ← int64 (due - asSteem - asVests) .overflowException
  let toConvert := max toConvert 0
  let convertedSteem ← s.toSteem toConvert
  let s ← s.modifyAccount name fun a => a.payWithdrawal due convertedSteem
  s.subTotals convertedSteem toConvert

/-- The index `by_next_vesting_withdrawal`. -/
def byNextVestingWithdrawal (s : Staking) : List StakeAccountObject :=
  s.accounts.rows.insertionSort fun a b => a.nextVestingWithdrawal ≤ b.nextVestingWithdrawal

/-- `++current` -/
def nextInWithdrawals (s : Staking) (name : AccountName) : Option AccountName :=
  (((s.byNextVestingWithdrawal.dropWhile fun a => a.name ≠ name).drop 1).head?).map
    StakeAccountObject.name

/-- The loop of `process_vesting_withdrawals` from `current`, at most `fuel` times. -/
def processVestingWithdrawalsFrom : Nat → Staking → Option AccountName → Result Staking
  | 0, s, _ => pure s
  | _, s, none => pure s
  | fuel + 1, s, some name => do
    let a ← s.getAccount name
    if a.nextVestingWithdrawal ≤ s.headBlockTime then
      let current := s.nextInWithdrawals name
      let s ← s.processVestingWithdrawal name
      processVestingWithdrawalsFrom fuel s current
    else
      pure s

/-- Each turn moves an account by an interval past the time of the block at most. -/
def processVestingWithdrawals (s : Staking) : Result Staking :=
  processVestingWithdrawalsFrom
    (s.accounts.rows.length * (s.headBlockTime / steemitVestingWithdrawIntervalSeconds + 2)) s
    (s.byNextVestingWithdrawal.head?.map StakeAccountObject.name)

/-- The delegations of an account in the order of the index `by_delegation`. -/
def delegationsOf (s : Staking) (delegator : AccountName) : List VestingDelegationObject :=
  (s.delegations.rows.filter fun d => d.delegator = delegator).insertionSort
    fun d d' => d.delegatee ≤ d'.delegatee

def returnDelegation (s : Staking) (d : VestingDelegationObject) : Result Staking := do
  let minusShares ← int64 (-d.vestingShares) .overflowException
  let s ← s.delegateVs d.delegator minusShares d.isEmission
  let s ← s.receiveVs d.delegatee minusShares d.isEmission
  pure (s.removeDelegation d.delegator d.delegatee)

/-- `process_acc` of `check_account_idleness`. -/
def processAcc (s : Staking) (name : AccountName) : Result Staking := do
  let minVs : ℤ := 30000000000
  let acc ← s.getAccount name
  if acc.vestingShares = 0 ∨ acc.toWithdraw ≠ 0 then
    pure s
  else
    let accVs ← acc.effectiveVestingShares
    if accVs < 30000000 then
      pure s
    else
      let s ← (s.delegationsOf name).foldlM returnDelegation s
      if accVs - minVs ≤ 0 then
        pure s
      else
        s.modifyAccount name fun a =>
          pure (a.startWithdrawal (min (accVs - minVs) a.vestingShares) s.headBlockTime)

/-- The accounts that `check_account_idleness` processes, in the order of the index `by_proved`. -/
def idleAccounts (s : Staking) : List AccountName :=
  let oldTime := (s.headBlockTime + 2 ^ 32 - s.medianProps.accountIdlenessTime) % 2 ^ 32
  (((s.accounts.rows.filter fun a => a.frozen = false).insertionSort
      fun a b => a.provedHf ≤ b.provedHf).filter
    fun a => a.lastActiveOperation ≤ oldTime).map StakeAccountObject.name

def checkAccountIdleness (s : Staking) : Result Staking :=
  if s.headBlockNum % golosAccountIdlenessCheckInterval ≠ 0 then
    pure s
  else
    s.idleAccounts.foldlM processAcc s

/-- `clear_null_account_balance` -/
def clearNullAccountBalance (s : Staking) : Result Staking := do
  let nullObject ← s.getAccount nullAccount
  let s ← s.modifyAccount nullAccount fun a => pure
    { a with balance := min a.balance 0, savingsBalance := min a.savingsBalance 0 }
  if 0 < nullObject.vestingShares then
    let convertedSteem ← s.toSteem nullObject.vestingShares
    let s ← s.subTotals convertedSteem nullObject.vestingShares
    s.modifyAccount nullAccount fun a => pure { a with vestingShares := 0 }
  else
    pure s

end Staking

/-- `liberation_hardfork::reward` -/
structure LiberationReward where
  amount : ℤ
  beneficiary : AccountName

namespace LiberationHardfork

def accWorker : LiberationReward := ⟨85000000, "ropox"⟩

def accMm : LiberationReward := ⟨4000000000, "coinbank"⟩

def accRegfund : LiberationReward := ⟨4000000000, "gc-regfund"⟩

def accTransit : LiberationReward := ⟨10000000000, "gc-transit"⟩

def accReferendum : AccountName := "gc-referendum"

def accountsForFreeze : List AccountName :=
  ["bender", "bizvoice-gp", "bond", "creat0r", "creator", "cyberanalyticsgp", "cyberfounder",
    "cyberfund", "founder", "fractal-gp", "golos", "goloschina", "goloscore", "golosio", "hipster",
    "insider", "istfak-gp", "just-life-gp", "kristina", "litvintech", "marina", "my-vox-video-gp",
    "poesie-gp", "rblogger-gp", "recenzent-gp", "satoshigolos", "satoshipie", "serejandmyself",
    "speculator", "steemit", "vitaly-lvov", "vox-populi-gp", "vox.mens-gp", "vp-actionlife-gp",
    "vp-bodyform-gp", "vp-golos-est-gp", "vp-golos-tv-gp", "vp-handmade-gp", "vp-kulinarclubgp",
    "vp-magic-indiagp", "vp-magik-indiagp", "vp-mir-kino-gp", "vp-painting-gp", "vp-pedsovet-gp",
    "vp-pedsovetgp", "vp-photo.pro-gp", "vp-webdev-gp", "vp-zarubezhje-gp", "vp-zarubezhjegp",
    "vpodessa-gp", "vpwomensnaturegp"]

end LiberationHardfork

namespace Staking

open LiberationHardfork

/-- `transfer_golos` -/
def transferGolos (s : Staking) (account receiver : AccountName) : Result Staking := do
  let a ← s.getAccount account
  let s ← s.modifyAccount account fun a => pure { a with balance := 0, savingsBalance := 0 }
  let balance ← int64 (a.balance + a.savingsBalance) .overflowException
  s.addBalance receiver balance

/-- The loop of `terminate_vesting_activities` over the delegations of the account. -/
def terminateDelegation (s : Staking) (d : VestingDelegationObject) : Result Staking := do
  let s ← s.modifyAccount d.delegatee fun a => do
    let shares ← add64 a.receivedVestingShares (-d.vestingShares) .overflowException
    pure { a with receivedVestingShares := shares }
  let s ← s.modifyAccount d.delegator fun a => pure { a with delegatedVestingShares := 0 }
  pure (s.removeDelegation d.delegator d.delegatee)

/-- The loop over the expiring delegations. -/
def terminateExpiration (s : Staking) (o : VestingDelegationExpirationObject) :
    Result Staking := do
  let s ← s.modifyAccount o.delegator fun a => pure { a with delegatedVestingShares := 0 }
  pure { s with expirations := s.expirations.erase o.id }

def terminateVestingActivities (s : Staking) (account : AccountName) : Result Staking := do
  let s ← (s.delegationsOf account).foldlM terminateDelegation s
  let s ← (s.expirations.rows.filter fun o => o.delegator = account).foldlM terminateExpiration s
  s.modifyAccount account fun a => pure a.stopWithdrawal

def addVestingShares (s : Staking) (name : AccountName) (delta : ℤ) : Result Staking :=
  s.modifyAccount name fun a => do
    let vestingShares ← add64 a.vestingShares delta .overflowException
    pure { a with vestingShares := vestingShares }

def transferVestings (s : Staking) (account receiver : AccountName) : Result Staking := do
  let s ← s.terminateVestingActivities account
  let a ← s.getAccount account
  let s ← s.addVestingShares receiver a.vestingShares
  s.modifyAccount account fun a => pure { a with vestingShares := 0 }

def freezeAccount (s : Staking) (account : AccountName) : Result Staking := do
  let s ← s.transferGolos account accReferendum
  s.transferVestings account accReferendum

def transferBeneficiary (s : Staking) (reward : LiberationReward) : Result Staking := do
  let referendum ← s.getAccount accReferendum
  if reward.amount < referendum.balance then
    let s ← s.addBalance accReferendum (-reward.amount)
    s.addBalance reward.beneficiary reward.amount
  else
    pure s

/-- `liberate_golos_classic` -/
def liberateGolosClassic (s : Staking) : Result Staking := do
  match s.accounts.find? accRegfund.beneficiary with
  | none => pure s
  | some _ =>
    let _ ← s.getAccount accReferendum
    let _ ← s.getAccount accTransit.beneficiary
    let s ← accountsForFreeze.foldlM freezeAccount s
    let referendum ← s.getAccount accReferendum
    let convertedSteem ← s.toSteem referendum.vestingShares
    let s ← s.addBalance accReferendum convertedSteem
    let s ← s.addVestingShares accReferendum (-referendum.vestingShares)
    let s ← s.subTotals convertedSteem referendum.vestingShares
    let _ ← s.getAccount accWorker.beneficiary
    let _ ← s.getAccount accMm.beneficiary
    [accWorker, accMm, accRegfund, accTransit].foldlM transferBeneficiary s

end Staking

end Golos
