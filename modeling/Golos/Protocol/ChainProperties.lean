import Golos.Protocol.Types

/-!
This module contains the chain properties that witnesses vote on, a structure for each hardfork that
added some, and their validation.
-/

namespace Golos

open Checked

def steemit1Percent : Nat := 100

def steemitMinBlockSizeLimit : Nat := 1024 * 64

def golosMaxReferralBreakFeePreHf22 : Asset := ⟨100000, steemSymbol⟩

inductive CurationCurve where
  | bounded
  | linear
  | squareRoot
  | detect
  deriving DecidableEq

/-- The number behind the enumerator. -/
def CurationCurve.toNat : CurationCurve → Nat
  | .bounded => 0
  | .linear => 1
  | .squareRoot => 2
  | .detect => 100

structure ChainProperties17 where
  accountCreationFee : Asset := ⟨1, steemSymbol⟩
  maximumBlockSize : Nat := steemitMinBlockSizeLimit * 2
  sbdInterestRate : Nat := 10 * steemit1Percent
  deriving DecidableEq

structure ChainProperties18 extends ChainProperties17 where
  createAccountMinGolosFee : Asset := ⟨1 * 30, steemSymbol⟩
  createAccountMinDelegation : Asset := ⟨1 * 30 * 5, steemSymbol⟩
  createAccountDelegationTime : Nat := 60 * 60 * 24 * 30
  minDelegation : Asset := ⟨1 * 10, steemSymbol⟩
  deriving DecidableEq

structure ChainProperties19 extends ChainProperties18 where
  maxReferralInterestRate : Nat := 10 * steemit1Percent
  maxReferralTermSec : Nat := 60 * 60 * 24 * 30 * 6
  minReferralBreakFee : Asset := ⟨1, steemSymbol⟩
  maxReferralBreakFee : Asset := golosMaxReferralBreakFeePreHf22
  postsWindow : Nat := 3
  postsPerWindow : Nat := 1
  commentsWindow : Nat := 200
  commentsPerWindow : Nat := 10
  votesWindow : Nat := 15
  votesPerWindow : Nat := 5
  auctionWindowSize : Nat := 60 * 30
  maxDelegatedVestingInterestRate : Nat := 25 * steemit1Percent
  customOpsBandwidthMultiplier : Nat := 100
  minCurationPercent : Nat := 25 * steemit1Percent
  maxCurationPercent : Nat := 25 * steemit1Percent
  curationRewardCurve : CurationCurve := .linear
  allowReturnAuctionRewardToFund : Bool := true
  allowDistributeAuctionReward : Bool := true
  deriving DecidableEq

structure ChainProperties22 extends ChainProperties19 where
  workerRewardPercent : Nat := 15 * steemit1Percent
  witnessRewardPercent : Nat := 10 * steemit1Percent
  vestingRewardPercent : Nat := 10 * steemit1Percent
  workerRequestCreationFee : Asset := ⟨100000, sbdSymbol⟩
  workerRequestApproveMinPercent : Nat := 10 * steemit1Percent
  sbdDebtConvertRate : Nat := steemit1Percent
  voteRegenerationPerDay : Nat := 10
  witnessSkippingResetTime : Nat := 60 * 60 * 6
  witnessIdlenessTime : Nat := 60 * 60 * 24 * 30 * 12
  accountIdlenessTime : Nat := 60 * 60 * 24 * 30 * 12
  deriving DecidableEq

structure ChainProperties23 extends ChainProperties22 where
  claimIdlenessTime : Nat := 60 * 60 * 24 * 1
  minInviteBalance : Asset := ⟨10000, steemSymbol⟩
  deriving DecidableEq

structure ChainProperties24 extends ChainProperties23 where
  assetCreationFee : Asset := ⟨2000000, sbdSymbol⟩
  inviteTransferIntervalSec : Nat := 60
  deriving DecidableEq

structure ChainProperties26 extends ChainProperties24 where
  convertFeePercent : Nat := 5 * steemit1Percent
  minGolosPowerToCurate : Asset := ⟨1000000, steemSymbol⟩
  workerEmissionPercent : Nat := 1 * steemit1Percent
  vestingOfRemainPercent : Nat := 80 * steemit1Percent
  negrepPostingWindow : Nat := 24 * 60
  negrepPostingPerWindow : Nat := 3
  deriving DecidableEq

structure ChainProperties27 extends ChainProperties26 where
  unwantedOperationCost : Asset := ⟨100000, steemSymbol⟩
  unlimitOperationCost : Asset := ⟨10000, steemSymbol⟩
  deriving DecidableEq

structure ChainProperties28 extends ChainProperties27 where
  minGolosPowerToEmission : Asset := ⟨1000000, sbdSymbol⟩
  deriving DecidableEq

structure ChainProperties29 extends ChainProperties28 where
  nftIssueCost : Asset := ⟨5000, sbdSymbol⟩
  deriving DecidableEq

structure ChainProperties30 extends ChainProperties29 where
  privateGroupGolosPower : Asset := ⟨1000000, sbdSymbol⟩
  privateGroupCost : Asset := ⟨0, sbdSymbol⟩
  deriving DecidableEq

abbrev ChainProperties := ChainProperties30

/-- `hf26_windows_sec_to_min` -/
def ChainProperties.hf26WindowsSecToMin (p : ChainProperties) : ChainProperties :=
  { p with
    postsWindow := max (p.postsWindow / 60) 1
    commentsWindow := max (p.commentsWindow / 60) 1
    votesWindow := max (p.votesWindow / 60) 1 }

inductive VersionedChainProperties where
  | chainProperties17 (p : ChainProperties17)
  | chainProperties18 (p : ChainProperties18)
  | chainProperties19 (p : ChainProperties19)
  | chainProperties22 (p : ChainProperties22)
  | chainProperties23 (p : ChainProperties23)
  | chainProperties24 (p : ChainProperties24)
  | chainProperties26 (p : ChainProperties26)
  | chainProperties27 (p : ChainProperties27)
  | chainProperties28 (p : ChainProperties28)
  | chainProperties29 (p : ChainProperties29)
  | chainProperties30 (p : ChainProperties30)
  deriving DecidableEq

/-- The overloads of `chain_properties_30::operator=`, each of which copies what its source has. -/
def ChainProperties.assign (p : ChainProperties) : VersionedChainProperties → ChainProperties
  | .chainProperties17 src => { p with toChainProperties17 := src }
  | .chainProperties18 src => { p with toChainProperties18 := src }
  | .chainProperties19 src => { p with toChainProperties19 := src }
  | .chainProperties22 src => { p with toChainProperties22 := src }
  | .chainProperties23 src => { p with toChainProperties23 := src }
  | .chainProperties24 src => { p with toChainProperties24 := src }
  | .chainProperties26 src => { p with toChainProperties26 := src }
  | .chainProperties27 src => { p with toChainProperties27 := src }
  | .chainProperties28 src => { p with toChainProperties28 := src }
  | .chainProperties29 src => { p with toChainProperties29 := src }
  | .chainProperties30 src => src

/-- `GOLOS_CHECK_VALUE` with `MUST_BE`. -/
def checkMustBe (p : Prop) [Decidable p] (name requirement : String) : Result Unit :=
  ensure p (.invalidValue (name ++ " must be " ++ requirement))

theorem checkMustBe_eq_ok {p : Prop} [Decidable p] {name requirement : String} {u : Unit} :
    checkMustBe p name requirement = .ok u ↔ p := by
  simp [checkMustBe]

/-- `GOLOS_CHECK_ASSET_GE` -/
def checkAssetGe (a : Asset) (name : String) (symbol : AssetSymbolType) (symbolName : String)
    (least : ℤ) : Result Unit := do
  checkMustBe (a.symbol = symbol) name symbolName
  checkMustBe (least ≤ a.amount) name s!">={least}"

theorem checkAssetGe_eq_ok {a : Asset} {name symbolName : String} {symbol : AssetSymbolType}
    {least : ℤ} {u : Unit} :
    checkAssetGe a name symbol symbolName least = .ok u ↔ a.symbol = symbol ∧ least ≤ a.amount := by
  simp [checkAssetGe, checkMustBe_eq_ok]

/-- `GOLOS_CHECK_ASSET_GT0` -/
def checkAssetGt0 (a : Asset) (name : String) (symbol : AssetSymbolType) (symbolName : String) :
    Result Unit := do
  checkMustBe (a.symbol = symbol) name symbolName
  checkMustBe (0 < a.amount) name ">0"

/-- `GOLOS_CHECK_VALUE_LE` -/
def checkValueLe (x : Nat) (name : String) (greatest : Nat) : Result Unit :=
  checkMustBe (x ≤ greatest) name s!"<={greatest}"

/-- `GOLOS_CHECK_VALUE_GE` -/
def checkValueGe (x : Nat) (name : String) (least : Nat) : Result Unit :=
  checkMustBe (least ≤ x) name s!">={least}"

/-- `GOLOS_CHECK_VALUE_LEGE` with the texts of the bounds. -/
def checkValueLege (x : Nat) (name : String) (least greatest : Nat)
    (leastText greatestText : String) : Result Unit :=
  checkMustBe (least ≤ x ∧ x ≤ greatest) name s!"between {leastText} and {greatestText}"

def ChainProperties17.validate (p : ChainProperties17) : Result Unit := do
  checkAssetGe p.accountCreationFee "account_creation_fee" steemSymbol "GOLOS" 1
  checkValueGe p.maximumBlockSize "maximum_block_size" steemitMinBlockSizeLimit
  checkValueLege p.sbdInterestRate "sbd_interest_rate" 0 10000 "0" "10000"

def ChainProperties18.validate (p : ChainProperties18) : Result Unit := do
  p.toChainProperties17.validate
  checkAssetGt0 p.createAccountMinGolosFee "create_account_min_golos_fee" steemSymbol "GOLOS"
  checkAssetGt0 p.createAccountMinDelegation "create_account_min_delegation" steemSymbol "GOLOS"
  checkAssetGt0 p.minDelegation "min_delegation" steemSymbol "GOLOS"
  checkMustBe (60 * 60 * 24 * 30 / 2 < p.createAccountDelegationTime)
    "create_account_delegation_time" ">(fc::days(30)).to_seconds() / 2"

/-- The window and the number of operations in it. -/
def checkWindow (window perWindow : Nat) (name perName : String) : Result Unit := do
  checkValueLege window name 1 (65535 / 2) "1" "std::numeric_limits<uint16_t>::max() / 2"
  checkValueLege perWindow perName 1 window "1" name

theorem checkWindow_eq_ok {window perWindow : Nat} {name perName : String} {u : Unit} :
    checkWindow window perWindow name perName = .ok u ↔
      (1 ≤ window ∧ window ≤ 65535 / 2) ∧ 1 ≤ perWindow ∧ perWindow ≤ window := by
  simp [checkWindow, checkValueLege, checkMustBe_eq_ok]

def ChainProperties19.validate (p : ChainProperties19) : Result Unit := do
  p.toChainProperties18.validate
  checkValueLe p.maxReferralInterestRate "max_referral_interest_rate" 10000
  checkValueLe p.maxReferralTermSec "max_referral_term_sec" (60 * 60 * 24 * 30 * 12)
  ensure (p.minReferralBreakFee.symbol = steemSymbol)
    (.invalidValue "Minimum break free must be GOLOS")
  ensure (0 ≤ p.minReferralBreakFee.amount)
    (.invalidValue "Break free must be more or equal 0 GOLOS ")
  ensure (p.maxReferralBreakFee.symbol = steemSymbol)
    (.invalidValue "Maximum break free must be GOLOS")
  ensure (p.minReferralBreakFee.amount ≤ p.maxReferralBreakFee.amount)
    (.invalidValue "Maximum break free cann't be more than minimum break free")
  checkWindow p.postsWindow p.postsPerWindow "posts_window" "posts_per_window"
  checkWindow p.commentsWindow p.commentsPerWindow "comments_window" "comments_per_window"
  checkWindow p.votesWindow p.votesPerWindow "votes_window" "votes_per_window"
  checkValueLe p.maxDelegatedVestingInterestRate "max_delegated_vesting_interest_rate" 10000
  checkValueGe p.customOpsBandwidthMultiplier "custom_ops_bandwidth_multiplier" 1
  checkValueLege p.minCurationPercent "min_curation_percent" 0 p.maxCurationPercent "0"
    "max_curation_percent"
  checkValueLege p.maxCurationPercent "max_curation_percent" p.minCurationPercent 10000
    "min_curation_percent" "10000"
  ensure (p.curationRewardCurve = .bounded ∨ p.curationRewardCurve = .linear ∨
      p.curationRewardCurve = .squareRoot)
    (.invalidValue "Curation curve should bounded or liner, or square_root")
  ensure (p.allowReturnAuctionRewardToFund ∨ p.allowDistributeAuctionReward)
    (.invalidValue ("One or both options should be enabled: " ++
      "allow_return_auction_reward_to_fund and allow_distribute_auction_reward"))

def ChainProperties22.validate (p : ChainProperties22) : Result Unit := do
  p.toChainProperties19.validate
  checkValueLe (p.workerRewardPercent + p.witnessRewardPercent + p.vestingRewardPercent)
    "worker_reward_percent + witness_reward_percent + vesting_reward_percent" 10000
  checkAssetGe p.workerRequestCreationFee "worker_request_creation_fee" sbdSymbol "GBG" 0
  checkValueLe p.workerRequestApproveMinPercent "worker_request_approve_min_percent" 10000
  checkValueLe p.sbdDebtConvertRate "sbd_debt_convert_rate" 10000
  checkValueLe p.voteRegenerationPerDay "vote_regeneration_per_day" 10000
  checkValueGe p.witnessSkippingResetTime "witness_skipping_reset_time" (60 * 60 * 1)
  checkValueGe p.witnessIdlenessTime "witness_idleness_time" (60 * 60 * 24 * 30 * 1)
  checkValueGe p.accountIdlenessTime "account_idleness_time" (60 * 60 * 24 * 30 * 1)

def ChainProperties23.validate (p : ChainProperties23) : Result Unit := do
  p.toChainProperties22.validate
  checkAssetGe p.minInviteBalance "min_invite_balance" steemSymbol "GOLOS" 1000

def ChainProperties24.validate (p : ChainProperties24) : Result Unit := do
  p.toChainProperties23.validate
  checkAssetGe p.assetCreationFee "asset_creation_fee" sbdSymbol "GBG" 100000
  checkValueGe p.inviteTransferIntervalSec "invite_transfer_interval_sec" 1

def ChainProperties26.validate (p : ChainProperties26) : Result Unit := do
  p.toChainProperties24.validate
  checkValueLege p.convertFeePercent "convert_fee_percent" 0 10000 "0" "10000"
  checkValueLe p.workerEmissionPercent "worker_emission_percent" (50 * steemit1Percent)
  checkValueLe p.vestingOfRemainPercent "vesting_of_remain_percent" 10000

def ChainProperties27.validate (p : ChainProperties27) : Result Unit := do
  p.toChainProperties26.validate
  checkAssetGe p.unwantedOperationCost "unwanted_operation_cost" steemSymbol "GOLOS" 0
  checkAssetGe p.unlimitOperationCost "unlimit_operation_cost" steemSymbol "GOLOS" 0

def ChainProperties28.validate (p : ChainProperties28) : Result Unit := do
  p.toChainProperties27.validate
  checkAssetGe p.minGolosPowerToEmission "min_golos_power_to_emission" sbdSymbol "GBG" 0

def ChainProperties29.validate (p : ChainProperties29) : Result Unit := do
  p.toChainProperties28.validate
  checkAssetGe p.nftIssueCost "nft_issue_cost" sbdSymbol "GBG" 0

def ChainProperties30.validate (p : ChainProperties30) : Result Unit := do
  p.toChainProperties29.validate
  checkAssetGe p.privateGroupGolosPower "private_group_golos_power" sbdSymbol "GBG" 0
  checkAssetGe p.privateGroupCost "private_group_cost" sbdSymbol "GBG" 0

/-- `chain_properties_validator` -/
def VersionedChainProperties.validate : VersionedChainProperties → Result Unit
  | .chainProperties17 p => p.validate
  | .chainProperties18 p => p.validate
  | .chainProperties19 p => p.validate
  | .chainProperties22 p => p.validate
  | .chainProperties23 p => p.validate
  | .chainProperties24 p => p.validate
  | .chainProperties26 p => p.validate
  | .chainProperties27 p => p.validate
  | .chainProperties28 p => p.validate
  | .chainProperties29 p => p.validate
  | .chainProperties30 p => p.validate

end Golos
