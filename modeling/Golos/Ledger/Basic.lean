import Golos.Lib.Table
import Golos.Protocol.Types

/-!
This module contains the objects that hold liquid money and the functions of `database` that move
it, under the rules of hardfork 30.
-/

namespace Golos

open Checked

def nullAccount : AccountName := "null"

def workerPoolAccount : AccountName := "workers"

def steemitRegistratorAccount : AccountName := "newacc"

structure AccountObject where
  name : AccountName
  balance : ℤ := 0
  sbdBalance : ℤ := 0
  marketBalance : ℤ := 0
  marketSbdBalance : ℤ := 0
  nftHoldBalance : ℤ := 0
  deriving DecidableEq

structure AccountBalanceObject where
  account : AccountName
  symbol : AssetSymbolType
  balance : ℤ := 0
  tipBalance : ℤ := 0
  marketBalance : ℤ := 0
  deriving DecidableEq

abbrev AccountBalanceObject.bySymbolAccount (o : AccountBalanceObject) :
    AssetSymbolType × AccountName :=
  (o.symbol, o.account)

structure AssetObject where
  symbol : AssetSymbolType
  creator : AccountName := ""
  maxSupply : ℤ := 0
  supply : ℤ := 0
  symbolsWhitelist : List AssetSymbolType := []
  feePercent : Nat := 0
  deriving DecidableEq

def AssetObject.whitelists (o : AssetObject) (symbol : AssetSymbolType) : Prop :=
  o.symbolsWhitelist = [] ∨ symbol ∈ o.symbolsWhitelist

instance (o : AssetObject) (symbol : AssetSymbolType) : Decidable (o.whitelists symbol) :=
  inferInstanceAs (Decidable (_ ∨ _))

structure Ledger where
  accounts : Table AccountObject.name := .empty
  accountBalances : Table AccountBalanceObject.bySymbolAccount := .empty
  assets : Table AssetObject.symbol := .empty
  currentSupply : ℤ := 0
  currentSbdSupply : ℤ := 0
  virtualSupply : ℤ := 0
  currentMedianHistory : Price := ⟨⟨0, steemSymbol⟩, ⟨0, steemSymbol⟩⟩

namespace Ledger

def getAccount (l : Ledger) (name : AccountName) : Result AccountObject :=
  get (l.accounts.find? name) (.missingObject "account")

def getAsset (l : Ledger) (symbol : AssetSymbolType) : Result AssetObject :=
  get (l.assets.find? symbol) (.missingObject "asset")

def getOrDefaultAccountBalance (l : Ledger) (account : AccountName) (symbol : AssetSymbolType) :
    Result AccountBalanceObject :=
  match l.accountBalances.find? (symbol, account) with
  | some o => .ok o
  | none => do
    ensure (l.assets.find? symbol).isSome (.invalidValue "invalid symbol")
    pure { account := account, symbol := symbol }

/-- `get_balance(db, account, MAIN_BALANCE, symbol)` -/
def getBalance (l : Ledger) (account : AccountObject) (symbol : AssetSymbolType) : Result Asset :=
  if symbol = steemSymbol then
    .ok ⟨account.balance, steemSymbol⟩
  else if symbol = sbdSymbol then
    .ok ⟨account.sbdBalance, sbdSymbol⟩
  else do
    let o ← l.getOrDefaultAccountBalance account.name symbol
    pure ⟨o.balance, symbol⟩

/-- `GOLOS_CHECK_BALANCE(db, account, MAIN_BALANCE, required)` -/
def checkBalance (l : Ledger) (account : AccountObject) (required : Asset) : Result Unit := do
  let exist ← l.getBalance account required.symbol
  ensure (required.amount ≤ exist.amount) (.insufficientFunds account.name "fund")

def modifyAccount (l : Ledger) (name : AccountName) (f : AccountObject → AccountObject)
    (hf : autoParam (∀ a, (f a).name = a.name) Monoid.npow_zero._autoParam) : Ledger :=
  { l with accounts := l.accounts.modify name f hf }

def adjustAccountBalance (l : Ledger) (account : AccountName) (symbol : AssetSymbolType)
    (delta deltaTip deltaMarket : ℤ) : Result Ledger :=
  match h : l.accountBalances.find? (symbol, account) with
  | some o => do
    let balance ← add64 o.balance delta .overflowException
    let tipBalance ← add64 o.tipBalance deltaTip .overflowException
    let marketBalance ← add64 o.marketBalance deltaMarket .overflowException
    pure
      { l with
        accountBalances := l.accountBalances.modify (symbol, account) fun o =>
          { o with
            balance := balance
            tipBalance := tipBalance
            marketBalance := marketBalance } }
  | none => do
    ensure (l.assets.find? symbol).isSome (.invalidValue "invalid symbol")
    let o : AccountBalanceObject := ⟨account, symbol, delta, deltaTip, deltaMarket⟩
    pure { l with accountBalances := l.accountBalances.insert o h }

def adjustBalance (l : Ledger) (name : AccountName) (delta : Asset) : Result Ledger := do
  let a ← l.getAccount name
  if delta.symbol = steemSymbol then
    let balance ← add64 a.balance delta.amount .overflowException
    pure (l.modifyAccount name fun a => { a with balance := balance })
  else if delta.symbol = sbdSymbol then
    let sbdBalance ← add64 a.sbdBalance delta.amount .overflowException
    pure (l.modifyAccount name fun a => { a with sbdBalance := sbdBalance })
  else
    l.adjustAccountBalance name delta.symbol delta.amount 0 0

def adjustMarketBalance (l : Ledger) (name : AccountName) (delta : Asset) : Result Ledger := do
  let a ← l.getAccount name
  if delta.symbol = steemSymbol then
    let marketBalance ← add64 a.marketBalance delta.amount .overflowException
    pure (l.modifyAccount name fun a => { a with marketBalance := marketBalance })
  else if delta.symbol = sbdSymbol then
    let marketSbdBalance ← add64 a.marketSbdBalance delta.amount .overflowException
    pure (l.modifyAccount name fun a => { a with marketSbdBalance := marketSbdBalance })
  else
    l.adjustAccountBalance name delta.symbol 0 0 delta.amount

/-- `modify(account, [&](auto& a) { a.nft_hold_balance += delta; })` -/
def adjustNftHoldBalance (l : Ledger) (name : AccountName) (delta : ℤ) : Result Ledger := do
  let a ← l.getAccount name
  let nftHoldBalance ← add64 a.nftHoldBalance delta .overflowException
  pure (l.modifyAccount name fun a => { a with nftHoldBalance := nftHoldBalance })

/-- `adjust_supply(delta)` without `adjust_vesting`, for GBG, the only symbol it is called with. -/
def adjustSbdSupply (l : Ledger) (delta : ℤ) : Result Ledger := do
  let currentSbdSupply ← add64 l.currentSbdSupply delta .overflowException
  let inGolos ← Asset.mulPrice ⟨currentSbdSupply, sbdSymbol⟩ l.currentMedianHistory
  let virtualSupply ← Asset.add inGolos ⟨l.currentSupply, steemSymbol⟩
  pure { l with currentSbdSupply := currentSbdSupply, virtualSupply := virtualSupply.amount }

end Ledger

end Golos
