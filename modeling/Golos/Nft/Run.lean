import Golos.Lib.Transition
import Golos.Ledger.Lemmas
import Golos.Nft.Impl.Evaluators

/-!
This module contains the runs of the chain as the NFT market sees them: NFT operations and ends of
blocks in any order, with anything else that the chain does in between.
-/

namespace Golos

open Checked Ledger

inductive MarketEvent where
  | operation (op : NftOperation)
  /-- `process_nft_bets` over a queue of expired auctions, and what removed bets read as. -/
  | endOfBlock (removed : Database.Removed) (queue : List Nat)
  /-- Everything that is not an NFT operation: other operations, other work at block ends. -/
  | other

namespace Database

/-- The money of a symbol that is held by orders and bets. -/
def locked (db : Database) (symbol : AssetSymbolType) : ℤ :=
  db.nftOrders.sum (fun o => if o.holds then inSymbol o.price symbol else 0)
    + db.nftBets.sum (fun b => inSymbol b.price symbol)

/-- The GOLOS of one account that is held by its orders and bets. -/
def lockedBy (db : Database) (name : AccountName) : ℤ :=
  db.nftOrders.sum (fun o => if o.holds then single o.owner o.price name steemSymbol else 0)
    + db.nftBets.sum (fun b => single b.owner b.price name steemSymbol)

/-- No balance is negative, and the supply covers all balances and all that the market holds. -/
structure Solvent (db : Database) : Prop where
  nonneg : ∀ name symbol, 0 ≤ db.ledger.mainBalance name symbol
  covered : ∀ symbol, db.ledger.totalBalance symbol + db.locked symbol ≤ db.ledger.supply symbol
  fits : ∀ symbol, db.ledger.supply symbol ≤ maxInt64
  cost : 0 ≤ db.nftIssueCost.amount

/-- The market before its first operation. -/
structure NoMarket (db : Database) : Prop where
  nftCollections : db.nftCollections = .empty
  nfts : db.nfts = .empty
  nftOrders : db.nftOrders = .empty
  nftBets : db.nftBets = .empty
  lastNftTokenId : db.lastNftTokenId = 0
  hold : ∀ name, db.ledger.nftHold name = 0
  solvent : db.Solvent

/--
What the rest of the chain does to the state: it leaves the market and its holds alone, removes no
account and no asset, and does not create money.
-/
structure Elsewhere (db db' : Database) : Prop where
  nftCollections : db'.nftCollections = db.nftCollections
  nfts : db'.nfts = db.nfts
  nftOrders : db'.nftOrders = db.nftOrders
  nftBets : db'.nftBets = db.nftBets
  lastNftTokenId : db'.lastNftTokenId = db.lastNftTokenId
  hold : ∀ name, db'.ledger.nftHold name = db.ledger.nftHold name
  account : ∀ name, (db.ledger.accounts.find? name).isSome →
    (db'.ledger.accounts.find? name).isSome
  symbol : ∀ symbol, db.ledger.Holdable symbol → db'.ledger.Holdable symbol
  solvent : db.Solvent → db'.Solvent

/-- One event. A failed operation leaves no trace, so it is no event. -/
def Step (db : Database) : MarketEvent → Database → Prop
  | .operation op, db' => db.applyNftOperation op = .ok db'
  | .endOfBlock removed queue, db' =>
    db.AuctionQueue queue ∧ processNftBets removed db queue = .ok db'
  | .other, db' => db.Elsewhere db'

def market : TransitionSystem Database MarketEvent where
  initial := NoMarket
  step := Step

theorem reachable_step {db db' : Database} (e : MarketEvent) (h : market.Reachable db)
    (hstep : db.Step e db') : market.Reachable db' :=
  .step h trivial hstep

/-- Every operation of a list meets `ok` in the state it is applied to. -/
def Along (ok : Database → MarketEvent → Prop) (db : Database) : List NftOperation → Prop
  | [] => True
  | op :: ops =>
    ok db (.operation op) ∧
      match db.applyNftOperation op with
      | .ok db' => Along ok db' ops
      | .error _ => True

instance Along.decidable (ok : Database → MarketEvent → Prop) [∀ db e, Decidable (ok db e)] :
    (ops : List NftOperation) → (db : Database) → Decidable (Along ok db ops)
  | [], _ => .isTrue trivial
  | op :: ops, db =>
    let _rest : Decidable (match db.applyNftOperation op with
        | .ok db' => Along ok db' ops
        | .error _ => True) :=
      match db.applyNftOperation op with
      | .ok db' => Along.decidable ok ops db'
      | .error _ => .isTrue trivial
    inferInstanceAs (Decidable (_ ∧ _))

theorem along_of_forall {ok : Database → MarketEvent → Prop}
    (hok : ∀ db op, ok db (.operation op)) (db : Database) (ops : List NftOperation) :
    Along ok db ops := by
  induction ops generalizing db with
  | nil => trivial
  | cons op ops ih =>
    refine ⟨hok db op, ?_⟩
    split
    . exact ih _
    . trivial

theorem reach_of_operations {ok : Database → MarketEvent → Prop} {db db' : Database}
    {ops : List NftOperation} (h : market.Reach ok db) (hok : Along ok db ops)
    (hops : ops.foldlM applyNftOperation db = .ok db') : market.Reach ok db' := by
  induction ops generalizing db with
  | nil =>
    simp only [List.foldlM_nil, pure_eq_ok] at hops
    exact hops ▸ h
  | cons op ops ih =>
    simp only [List.foldlM_cons, bind_eq_ok] at hops
    obtain ⟨db₁, hop, hrest⟩ := hops
    unfold Along at hok
    rw [hop] at hok
    have hstep : db.Step (.operation op) db₁ := hop
    exact ih (.step h hok.1 hstep) hok.2 hrest

theorem reachable_of_operations {db db' : Database} {ops : List NftOperation}
    (h : market.Reachable db) (hops : ops.foldlM applyNftOperation db = .ok db') :
    market.Reachable db' :=
  reach_of_operations h (along_of_forall (fun _ _ => trivial) db ops) hops

/-- Time passes. -/
theorem elsewhere_headBlockTime (db : Database) (time : Nat) :
    db.Elsewhere { db with headBlockTime := time } := by
  refine ⟨rfl, rfl, rfl, rfl, rfl, fun _ => rfl, fun _ => id, fun _ => id, ?_⟩
  intro hsolvent
  exact ⟨hsolvent.nonneg, hsolvent.covered, hsolvent.fits, hsolvent.cost⟩

theorem reachable_of_headBlockTime {db : Database} (h : market.Reachable db) (time : Nat) :
    market.Reachable { db with headBlockTime := time } :=
  reachable_step .other h (db.elsewhere_headBlockTime time)

/-- A list of rows is enough to see that a queue is the queue of expired auctions. -/
theorem auctionQueue_of_rows {db : Database} {queue : List Nat} (hnodup : queue.Nodup)
    (hexpired : ∀ tokenId ∈ queue, ∃ no ∈ db.nfts.rows, no.tokenId = tokenId ∧ db.Expired no)
    (hall : ∀ no ∈ db.nfts.rows, db.Expired no → no.tokenId ∈ queue)
    (hsorted : queue.Pairwise fun t u => ∀ no ∈ db.nfts.rows, ∀ no' ∈ db.nfts.rows,
      no.tokenId = t → no'.tokenId = u → no.auctionExpiration ≤ no'.auctionExpiration) :
    db.AuctionQueue queue where
  nodup := hnodup
  mem := by
    intro tokenId
    constructor
    . intro hin
      obtain ⟨no, hmem, htoken, hno⟩ := hexpired tokenId hin
      exact ⟨no, Table.find?_eq_some_iff.mpr ⟨hmem, htoken⟩, hno⟩
    . intro ⟨no, hfind, hno⟩
      obtain ⟨hmem, htoken⟩ := Table.find?_eq_some_iff.mp hfind
      exact htoken ▸ hall no hmem hno
  sorted := by
    apply hsorted.imp
    intro t u h no no' hno hno'
    obtain ⟨hmem, htoken⟩ := Table.find?_eq_some_iff.mp hno
    obtain ⟨hmem', htoken'⟩ := Table.find?_eq_some_iff.mp hno'
    exact h no hmem no' hmem' htoken htoken'

/-- A chain with three users before the first NFT operation. -/
def firstMarket : Database where
  ledger :=
    { accounts :=
        ⟨
          [
            { name := "alice", balance := 100000 },
            { name := "bob", balance := 100000 },
            { name := "carol", balance := 100000 },
            { name := nullAccount },
            { name := workerPoolAccount }
          ],
          by decide
        ⟩
      currentSupply := 1000000 }
  headBlockNum := 80000000
  headBlockTime := 1700000000

theorem noMarket_firstMarket : firstMarket.NoMarket where
  nftCollections := rfl
  nfts := rfl
  nftOrders := rfl
  nftBets := rfl
  lastNftTokenId := rfl
  hold := by
    intro name
    unfold nftHold
    split
    . next a ha =>
      have : ∀ a ∈ firstMarket.ledger.accounts.rows, a.nftHoldBalance = 0 := by decide
      exact this a (Table.mem_of_find? ha)
    . rfl
  solvent := by
    refine ⟨?_, ?_, ?_, by decide⟩
    . apply mainBalance_nonneg <;> decide
    . intro symbol
      by_cases hsteem : symbol = steemSymbol
      . subst hsteem
        decide
      . by_cases hsbd : symbol = sbdSymbol
        . subst hsbd
          decide
        . simp [totalBalance, supply, locked, hsteem, hsbd, firstMarket]
    . intro symbol
      unfold supply
      split
      . decide
      . split
        . decide
        . simp [firstMarket, maxInt64]

theorem reachable_firstMarket : market.Reachable firstMarket :=
  .initial noMarket_firstMarket

end Database
end Golos
