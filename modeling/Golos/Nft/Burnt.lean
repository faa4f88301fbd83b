import Golos.Nft.Settlement

/-!
This module contains the burnt tokens: which runs keep them out of the market, and why the
settlement of auctions completes in these runs.
-/

namespace Golos
namespace Database

open Checked Ledger

/-- The tokens of a collection that are not burnt. -/
def liveCount (db : Database) (name : AssetSymbolType) : ℤ :=
  db.nfts.sum fun no => if no.name = name ∧ no.burnt = false then 1 else 0

/-- Tokens are counted by their collections. -/
structure Counted (db : Database) : Prop where
  count : ∀ name, ((tokenCounts db.nftCollections name).getD 0 : ℤ) = db.liveCount name
  issued : db.nfts.sum (fun _ => 1) ≤ db.lastNftTokenId
  last : db.lastNftTokenId < 2 ^ 32
  nonzero : ∀ tokenId no, db.nfts.find? tokenId = some no → tokenId ≠ 0

/-- Burnt tokens have no orders and are not in auction. -/
structure BurntOut (db : Database) : Prop where
  order : ∀ o ∈ db.nftOrders.rows, ∀ no, db.nfts.find? o.tokenId = some no → no.burnt = false
  auction : ∀ tokenId no, db.nfts.find? tokenId = some no → no.burnt = true →
    no.auctionExpiration = 0

/--
The events that keep burnt tokens out of the market: the counter of tokens does not wrap, nobody
starts an auction or makes an offer for a burnt token, and auctions are settled from their own bets.
-/
def KeepsBurnt (db : Database) : MarketEvent → Prop
  | .operation (.nftIssue _) => inc32 db.lastNftTokenId ≠ 0
  | .operation (.nftAuction op) => op.expiration ≠ 0 → op.minPrice.amount ≠ 0 →
    ∀ no ∈ db.nfts.find? op.tokenId, no.burnt = false
  | .operation (.nftBuy op) => op.orderId ≠ 0 → op.tokenId ≠ 0 →
    ∀ no ∈ db.nfts.find? op.tokenId, db.findNftOrder no.owner op.orderId = none → no.burnt = false
  | .endOfBlock _ queue => OwnBetsOnly db [] queue
  | _ => True

section step

variable {removed : Removed} {db db' : Database}

/-- A collection with a token that is not burnt exists. -/
theorem Counted.isSome_of_live {tokenId : Nat} {no : NftObject} (h : db.Counted)
    (hno : db.nfts.find? tokenId = some no) (hlive : no.burnt = false) :
    (db.nftCollections.find? no.name).isSome := by
  have hcount := h.count no.name
  have hone : (1 : ℤ) ≤ db.liveCount no.name := by
    have := db.nfts.le_sum (f := fun no' => if no'.name = no.name ∧ no'.burnt = false then 1 else 0)
      (by intro no' _; split <;> omega) (Table.mem_of_find? hno)
    simpa [liveCount, hlive] using this
  rw [← hcount] at hone
  unfold tokenCounts at hone
  cases hnco : db.nftCollections.find? no.name with
  | none =>
    rw [hnco] at hone
    simp at hone
  | some nco => rfl

theorem Counted.liveCount_le (h : db.Counted) (name : AssetSymbolType) :
    0 ≤ db.liveCount name ∧ db.liveCount name ≤ db.lastNftTokenId := by
  constructor
  . apply Table.sum_nonneg
    intro no _
    split <;> omega
  . apply le_trans _ h.issued
    apply Table.sum_le_sum
    intro no _
    split <;> omega

/-- Steps that rewrite a token without burning it, or leave all tokens alone. -/
theorem Counted.update {no no' : NftObject} (h : db.Counted)
    (hnfts : db.nfts.Updates db'.nfts no no') (hname : no'.name = no.name)
    (hburnt : no'.burnt = no.burnt)
    (hcounts : ∀ n, tokenCounts db'.nftCollections n = tokenCounts db.nftCollections n)
    (hlast : db'.lastNftTokenId = db.lastNftTokenId) : db'.Counted where
  count := by
    intro name
    unfold liveCount
    rw [hcounts, h.count, hnfts.sum, hname, hburnt]
    unfold liveCount
    omega
  issued := by
    rw [hnfts.sum, hlast]
    have := h.issued
    omega
  last := by
    rw [hlast]
    exact h.last
  nonzero := by
    intro tokenId no₁ hno₁
    rw [hnfts.find?] at hno₁
    split at hno₁
    . next heq => exact heq ▸ h.nonzero _ _ hnfts.row
    . exact h.nonzero tokenId no₁ hno₁

theorem Counted.congr (h : db.Counted) (hnfts : db'.nfts = db.nfts)
    (hcounts : ∀ n, (tokenCounts db'.nftCollections n).getD 0
      = (tokenCounts db.nftCollections n).getD 0)
    (hlast : db'.lastNftTokenId = db.lastNftTokenId) : db'.Counted where
  count := by
    intro name
    unfold liveCount
    rw [hcounts, hnfts]
    exact h.count name
  issued := by
    rw [hnfts, hlast]
    exact h.issued
  last := by
    rw [hlast]
    exact h.last
  nonzero := by
    rw [hnfts]
    exact h.nonzero

/-- Steps that rewrite a token and let only its own orders appear. -/
theorem BurntOut.update {no no' : NftObject} (h : db.BurntOut)
    (hnfts : db.nfts.Updates db'.nfts no no')
    (horders : ∀ o ∈ db'.nftOrders.rows, o ∈ db.nftOrders.rows ∨ o.tokenId = no.tokenId)
    (hburnt : no'.burnt = true → no'.auctionExpiration = 0
      ∧ ∀ o ∈ db'.nftOrders.rows, o.tokenId ≠ no.tokenId) : db'.BurntOut where
  order := by
    intro o ho no₁ hno₁
    rw [hnfts.find?] at hno₁
    split at hno₁
    . next heq =>
      injection hno₁ with hno₁
      subst hno₁
      rw [Bool.eq_false_iff]
      intro hb
      exact (hburnt hb).2 o ho heq
    . next hne => exact h.order o ((horders o ho).resolve_right hne) no₁ hno₁
  auction := by
    intro tokenId no₁ hno₁ hb
    rw [hnfts.find?] at hno₁
    split at hno₁
    . injection hno₁ with hno₁
      subst hno₁
      exact (hburnt hb).1
    . exact h.auction tokenId no₁ hno₁ hb

theorem BurntOut.updateLive {no no' : NftObject} (h : db.BurntOut)
    (hnfts : db.nfts.Updates db'.nfts no no') (hsame : no'.burnt = no.burnt)
    (hlive : no.burnt = false)
    (horders : ∀ o ∈ db'.nftOrders.rows, o ∈ db.nftOrders.rows ∨ o.tokenId = no.tokenId) :
    db'.BurntOut := by
  apply h.update hnfts horders
  intro hburnt
  rw [hsame, hlive] at hburnt
  cases hburnt

/-- Steps that leave all tokens alone, and let orders appear on live tokens only. -/
theorem BurntOut.congr (h : db.BurntOut) (hnfts : db'.nfts = db.nfts)
    (horders : ∀ o ∈ db'.nftOrders.rows, o ∈ db.nftOrders.rows ∨
      ∀ no, db.nfts.find? o.tokenId = some no → no.burnt = false) : db'.BurntOut where
  order := by
    rw [hnfts]
    intro o ho
    rcases horders o ho with hold | hnew
    . exact h.order o hold
    . exact hnew
  auction := by
    rw [hnfts]
    exact h.auction

/-- A new token of a collection. -/
theorem Counted.issue {no : NftObject} {k : Nat} (h : db.Counted)
    (hinsert : db.nfts.Inserts db'.nfts no) (hlive : no.burnt = false)
    (hid : no.tokenId = inc32 db.lastNftTokenId) (hwrap : inc32 db.lastNftTokenId ≠ 0)
    (hcount : tokenCounts db.nftCollections no.name = some k)
    (hcounts : ∀ m, tokenCounts db'.nftCollections m
      = if m = no.name then some (inc32 k) else tokenCounts db.nftCollections m)
    (hlast : db'.lastNftTokenId = inc32 db.lastNftTokenId) : db'.Counted := by
  have hlt := h.last
  have hsucc : inc32 db.lastNftTokenId = db.lastNftTokenId + 1 := by
    unfold inc32 at hwrap ⊢
    omega
  refine ⟨?_, ?_, ?_, ?_⟩
  . intro name
    have hsum : db'.liveCount name = db.liveCount name + if no.name = name then 1 else 0 := by
      unfold liveCount
      rw [hinsert.sum]
      simp [hlive]
    have hle := h.liveCount_le name
    have hold := h.count name
    rw [hcounts, hsum]
    by_cases hname : name = no.name
    . subst hname
      rw [hcount] at hold
      simp only [↓reduceIte, Option.getD_some] at hold ⊢
      unfold inc32 at hsucc ⊢
      omega
    . rw [if_neg hname, if_neg (Ne.symm hname), hold]
      omega
  . rw [hinsert.sum, hlast, hsucc]
    have := h.issued
    omega
  . rw [hlast, hsucc]
    unfold inc32 at hsucc
    omega
  . intro tokenId no₁ hno₁
    rcases hinsert.find?_eq_some_iff.mp hno₁ with hold | ⟨-, heq⟩
    . exact h.nonzero tokenId no₁ hold
    . rw [← heq, hid]
      exact hwrap

theorem sub32_one {k : Nat} (hpos : 0 < k) (hlt : k < 2 ^ 32) : sub32 k 1 = k - 1 := by
  unfold sub32
  rw [show k + (2 ^ 32 - 1 % 2 ^ 32) = (k - 1) + 2 ^ 32 by omega, Nat.add_mod_right,
    Nat.mod_eq_of_lt (by omega)]

/-- A burnt token is counted no more. -/
theorem Counted.burn {no : NftObject} {k k' : Nat} (h : db.Counted)
    (hnfts : db.nfts.Updates db'.nfts no { no with burnt := true }) (hlive : no.burnt = false)
    (hcount : tokenCounts db.nftCollections no.name = some k)
    (hcounts : ∀ m, tokenCounts db'.nftCollections m
      = if m = no.name then some k' else tokenCounts db.nftCollections m)
    (hk : 0 < k → k < 2 ^ 32 → k' = k - 1)
    (hlast : db'.lastNftTokenId = db.lastNftTokenId) : db'.Counted := by
  have hlt := h.last
  refine ⟨?_, ?_, ?_, ?_⟩
  . intro name
    have hsum : db'.liveCount name = db.liveCount name - if no.name = name then 1 else 0 := by
      unfold liveCount
      rw [hnfts.sum]
      simp only [hlive, Bool.true_eq_false, and_false, ↓reduceIte, and_true]
      omega
    have hle := h.liveCount_le name
    have hold := h.count name
    rw [hcounts, hsum]
    by_cases hname : name = no.name
    . subst hname
      have hone : (1 : ℤ) ≤ db.liveCount no.name := by
        have := db.nfts.le_sum
          (f := fun no' => if no'.name = no.name ∧ no'.burnt = false then 1 else 0)
          (by intro no' _; split <;> omega) (Table.mem_of_find? hnfts.row)
        simpa [liveCount, hlive] using this
      rw [hcount] at hold
      simp only [↓reduceIte, Option.getD_some] at hold ⊢
      have hpos : 0 < k := by omega
      have hlt : k < 2 ^ 32 := by omega
      rw [hk hpos hlt]
      omega
    . rw [if_neg hname, if_neg (Ne.symm hname), hold]
      omega
  . rw [hnfts.sum, hlast]
    have := h.issued
    omega
  . rw [hlast]
    exact hlt
  . intro tokenId no₁ hno₁
    rw [hnfts.find?] at hno₁
    split at hno₁
    . next heq => exact heq ▸ h.nonzero _ _ hnfts.row
    . exact h.nonzero tokenId no₁ hno₁

theorem Counted.marketStep {op : NftOperation} (h : db.Counted)
    (hok : KeepsBurnt db (.operation op)) (hstep : MarketStep db op db') : db'.Counted := by
  cases hstep with
  | @nftCollection op n cs hfresh hcounts =>
    refine h.congr rfl ?_ rfl
    intro m
    rw [hcounts]
    split
    . next heq => rw [heq, hfresh]; rfl
    . rfl
  | @nftCollectionDelete op n cs hempty hcounts =>
    refine h.congr rfl ?_ rfl
    intro m
    rw [hcounts]
    split
    . next heq => rw [heq, hempty]; rfl
    . rfl
  | nftIssue _ hid hnew hinsert hcount hcounts =>
    exact h.issue hinsert hnew.1 hid hok hcount hcounts rfl
  | nftTransfer _ _ _ _ hnfts => exact h.update hnfts rfl rfl (fun _ => rfl) rfl
  | burn _ _ hfree _ hnfts hcount hcounts =>
    exact h.burn hnfts hfree.1 hcount hcounts sub32_one rfl
  | placeSellOrder _ _ _ _ hnfts _ hcounts => exact h.update hnfts rfl rfl hcounts rfl
  | sellToBuyer _ _ _ _ _ _ _ _ _ hnfts hcounts => exact h.update hnfts rfl rfl hcounts rfl
  | cancelBet | ignoreBuy => exact h.congr rfl (fun _ => rfl) rfl
  | placeBet _ _ _ _ _ _ _ _ _ _ hnfts => exact h.update hnfts rfl rfl (fun _ => rfl) rfl
  | placeOffer _ _ _ _ _ _ _ _ _ _ hcounts | placeCollectionOffer _ _ _ hcounts
  | cancelBuyOrder _ _ hcounts =>
    exact h.congr rfl (fun n => by rw [hcounts]) rfl
  | buyFromSeller _ _ _ _ _ _ _ _ _ hnfts hcounts => exact h.update hnfts rfl rfl hcounts rfl
  | cancelSellOrder _ _ _ hnfts hcounts => exact h.update hnfts rfl rfl hcounts rfl
  | stopAuction _ _ _ hnfts hcounts => exact h.update hnfts rfl rfl hcounts rfl
  | startAuction _ _ _ _ _ hnfts _ hcounts => exact h.update hnfts rfl rfl hcounts rfl

theorem BurntOut.marketStep {op : NftOperation} (h : db.BurntOut) (hcounted : db.Counted)
    (hok : KeepsBurnt db (.operation op)) (hstep : MarketStep db op db') : db'.BurntOut := by
  cases hstep with
  | nftCollection | nftCollectionDelete | cancelBet | ignoreBuy =>
    exact h.congr rfl (fun o ho => .inl ho)
  | nftIssue _ _ hnew hinsert =>
    refine ⟨?_, ?_⟩
    . intro o ho no₁ hno₁
      rcases hinsert.find?_eq_some_iff.mp hno₁ with hold | ⟨rfl, -⟩
      . exact h.order o ho no₁ hold
      . exact hnew.1
    . intro tokenId no₁ hno₁ hburnt
      rcases hinsert.find?_eq_some_iff.mp hno₁ with hold | ⟨rfl, -⟩
      . exact h.auction tokenId no₁ hold hburnt
      . exact hnew.2.2
  | nftTransfer _ _ hfree _ hnfts => exact h.updateLive hnfts rfl hfree.1 (fun o ho => .inl ho)
  | burn _ _ hfree _ hnfts _ _ _ horders =>
    refine h.update hnfts ?_ ?_
    . intro o ho
      exact .inl ((horders.mem o).mp ho).1
    . intro _
      refine ⟨hfree.2.2, ?_⟩
      intro o ho heq
      obtain ⟨ho, hgone⟩ := (horders.mem o).mp ho
      have hzero := hcounted.nonzero _ _ hnfts.row
      exact hgone (mem_clearedNftOrders.mpr ⟨hzero, ho, heq, by simp⟩)
  | placeSellOrder _ _ hfree _ hnfts horders =>
    refine h.updateLive hnfts rfl hfree.1 ?_
    intro o ho
    rcases (horders.mem o).mp ho with ho | rfl
    . exact .inl ho
    . exact .inr rfl
  | sellToBuyer _ _ hlive _ _ _ _ _ _ hnfts _ _ horders =>
    exact h.updateLive hnfts rfl hlive (fun o ho => .inl ((horders.mem o).mp ho).1)
  | @placeBet _ no _ _ _ _ _ _ hrunning _ _ _ _ _ _ _ hnfts =>
    refine h.updateLive hnfts rfl ?_ (fun o ho => .inl ho)
    rw [Bool.eq_false_iff]
    intro hburnt
    exact hrunning (h.auction no.tokenId no hnfts.row hburnt)
  | placeOffer horder htoken hno hnone _ _ _ _ _ horders =>
    refine h.congr rfl ?_
    intro o ho
    rcases (horders.mem o).mp ho with ho | rfl
    . exact .inl ho
    . right
      intro no₁ hno₁
      rw [hno] at hno₁
      injection hno₁ with hno₁
      subst hno₁
      exact hok horder htoken _ hno hnone
  | buyFromSeller _ _ _ hnoo _ hno _ _ _ hnfts _ _ horders =>
    exact h.updateLive hnfts rfl (h.order _ (Table.mem_of_find? hnoo) _ hno)
      (fun o ho => .inl ((horders.mem o).mp ho).1)
  | placeCollectionOffer _ _ horders =>
    refine h.congr rfl ?_
    intro o ho
    rcases (horders.mem o).mp ho with ho | rfl
    . exact .inl ho
    . right
      intro no₁ hno₁
      exact absurd rfl (hcounted.nonzero 0 no₁ hno₁)
  | cancelSellOrder hnoo _ hno hnfts =>
    exact h.updateLive hnfts rfl (h.order _ (Table.mem_of_find? hnoo) _ hno)
      (fun o ho => .inl (Table.mem_erase.mp ho).1)
  | cancelBuyOrder =>
    exact h.congr rfl (fun o ho => .inl (Table.mem_erase.mp ho).1)
  | @stopAuction op no _ _ _ _ _ _ _ _ hnfts =>
    refine h.update hnfts ?_ ?_
    . intro o ho
      exact .inl ho
    . intro hburnt
      refine ⟨rfl, ?_⟩
      intro o ho heq
      have hlive := h.order o ho no (heq ▸ hnfts.row)
      rw [hlive] at hburnt
      cases hburnt
  | startAuction hexpiration hamount hno _ _ hnfts _ _ horders =>
    exact h.updateLive hnfts rfl (hok hexpiration hamount _ hno)
      (fun o ho => .inl ((horders.mem o).mp ho).1)

theorem Counted.settled {no : NftObject} (h : db.Counted) (hstep : Settled removed db no db') :
    db'.Counted := by
  cases hstep with
  | reset _ hnfts _ hcounts => exact h.update hnfts rfl rfl hcounts rfl
  | sold _ hnfts _ hcounts => exact h.update hnfts rfl rfl hcounts rfl

theorem BurntOut.settled {no : NftObject} (h : db.BurntOut) (hrunning : no.auctionExpiration ≠ 0)
    (hstep : Settled removed db no db') : db'.BurntOut := by
  have hlive : ∀ {ts no'}, db.nfts.Updates ts no no' → no.burnt = false := by
    intro ts no' hnfts
    rw [Bool.eq_false_iff]
    intro hburnt
    exact hrunning (h.auction no.tokenId no hnfts.row hburnt)
  cases hstep with
  | reset _ hnfts => exact h.updateLive hnfts rfl (hlive hnfts) (fun o ho => .inl ho)
  | sold _ hnfts _ _ _ _ _ horders =>
    exact h.updateLive hnfts rfl (hlive hnfts) (fun o ho => .inl ((horders.mem o).mp ho).1)

/-- Burnt tokens stay burnt and keep their owners. -/
def KeepsOwners (db db' : Database) : Prop :=
  ∀ tokenId no, db.nfts.find? tokenId = some no → no.burnt = true →
    ∃ no', db'.nfts.find? tokenId = some no' ∧ no'.burnt = true ∧ no'.owner = no.owner

theorem KeepsOwners.refl (db : Database) : KeepsOwners db db :=
  fun _ no hno hburnt => ⟨no, hno, hburnt, rfl⟩

theorem KeepsOwners.trans {db'' : Database} (h : KeepsOwners db db') (h' : KeepsOwners db' db'') :
    KeepsOwners db db'' := by
  intro tokenId no hno hburnt
  obtain ⟨no', hno', hburnt', howner'⟩ := h tokenId no hno hburnt
  obtain ⟨no'', hno'', hburnt'', howner''⟩ := h' tokenId no' hno' hburnt'
  exact ⟨no'', hno'', hburnt'', howner''.trans howner'⟩

theorem KeepsOwners.of_eq (h : db'.nfts = db.nfts) : KeepsOwners db db' := by
  intro tokenId no hno hburnt
  exact ⟨no, h ▸ hno, hburnt, rfl⟩

theorem KeepsOwners.update {no no' : NftObject} (hnfts : db.nfts.Updates db'.nfts no no')
    (h : no.burnt = true → no'.burnt = true ∧ no'.owner = no.owner) : KeepsOwners db db' := by
  intro tokenId no₁ hno₁ hburnt
  by_cases heq : tokenId = no.tokenId
  . rw [heq, hnfts.row] at hno₁
    injection hno₁ with hno₁
    subst hno₁
    refine ⟨no', ?_, h hburnt⟩
    rw [hnfts.find?, if_pos heq]
  . refine ⟨no₁, ?_, hburnt, rfl⟩
    rw [hnfts.find?, if_neg heq, hno₁]

theorem KeepsOwners.updateLive {no no' : NftObject} (hnfts : db.nfts.Updates db'.nfts no no')
    (hlive : no.burnt = false) : KeepsOwners db db' := by
  apply KeepsOwners.update hnfts
  intro hburnt
  rw [hlive] at hburnt
  cases hburnt

theorem BurntOut.keepsOwners {op : NftOperation} (h : db.BurntOut) (hstep : MarketStep db op db') :
    KeepsOwners db db' := by
  cases hstep with
  | nftCollection | nftCollectionDelete | cancelBet | ignoreBuy | placeOffer
  | placeCollectionOffer | cancelBuyOrder => exact .of_eq rfl
  | nftIssue _ _ _ hinsert =>
    intro tokenId no hno hburnt
    exact ⟨no, hinsert.find?_eq_some_iff.mpr (.inl hno), hburnt, rfl⟩
  | nftTransfer _ _ hfree _ hnfts => exact .updateLive hnfts hfree.1
  | burn _ _ hfree _ hnfts => exact .updateLive hnfts hfree.1
  | placeSellOrder _ _ hfree _ hnfts => exact .updateLive hnfts hfree.1
  | sellToBuyer _ _ hlive _ _ _ _ _ _ hnfts => exact .updateLive hnfts hlive
  | placeBet _ _ _ _ _ _ _ _ _ _ hnfts => exact .update hnfts (fun hburnt => ⟨hburnt, rfl⟩)
  | buyFromSeller _ _ _ hnoo _ hno _ _ _ hnfts =>
    exact .updateLive hnfts (h.order _ (Table.mem_of_find? hnoo) _ hno)
  | cancelSellOrder _ _ _ hnfts => exact .update hnfts (fun hburnt => ⟨hburnt, rfl⟩)
  | stopAuction _ _ _ hnfts => exact .update hnfts (fun hburnt => ⟨hburnt, rfl⟩)
  | startAuction _ _ _ _ _ hnfts => exact .update hnfts (fun hburnt => ⟨hburnt, rfl⟩)

theorem BurntOut.keepsOwners_of_settled {no : NftObject} (h : db.BurntOut)
    (hrunning : no.auctionExpiration ≠ 0) (hstep : Settled removed db no db') : KeepsOwners db db' := by
  have hlive : db.nfts.find? no.tokenId = some no → no.burnt = false := by
    intro hno
    rw [Bool.eq_false_iff]
    intro hburnt
    exact hrunning (h.auction no.tokenId no hno hburnt)
  cases hstep with
  | reset _ hnfts => exact .updateLive hnfts (hlive hnfts.row)
  | sold _ hnfts => exact .updateLive hnfts (hlive hnfts.row)

/-- All that keeps burnt tokens out of the market and lets auctions be settled. -/
structure Sound (db : Database) : Prop extends Payable db where
  counted : db.Counted
  burntOut : db.BurntOut

theorem Sound.marketStep {op : NftOperation} (h : db.Sound)
    (hok : KeepsBurnt db (.operation op)) (hstep : MarketStep db op db') : db'.Sound where
  toPayable := h.toPayable.marketStep hstep
  counted := h.counted.marketStep hok hstep
  burntOut := h.burntOut.marketStep h.counted hok hstep

theorem Sound.settled {no : NftObject} (h : db.Sound) (hrunning : no.auctionExpiration ≠ 0)
    (hown : db.FindsOwnBet no.tokenId) (hstep : Settled removed db no db') : db'.Sound where
  toPayable := h.toPayable.settled hrunning hown hstep
  counted := h.counted.settled hstep
  burntOut := h.burntOut.settled hrunning hstep

theorem Sound.elsewhere (h : db.Sound) (hstep : db.Elsewhere db') : db'.Sound where
  toPayable := h.toPayable.elsewhere hstep
  counted := by
    apply h.counted.congr hstep.nfts _ hstep.lastNftTokenId
    intro n
    rw [hstep.nftCollections]
  burntOut := by
    apply h.burntOut.congr hstep.nfts
    rw [hstep.nftOrders]
    intro o ho
    exact .inl ho

theorem NoMarket.sound (h : db.NoMarket) : db.Sound where
  toPayable := h.payable
  counted := by
    constructor <;> simp [liveCount, tokenCounts, h.nfts, h.nftCollections, h.lastNftTokenId]
  burntOut := by
    constructor <;> simp [h.nfts, h.nftOrders]

/-- A sound market settles a token from its own bets, or without any. -/
theorem Sound.processNftBet {no : NftObject} (h : db.Sound)
    (hno : db.nfts.find? no.tokenId = some no) (hrunning : no.auctionExpiration ≠ 0)
    (hown : db.FindsOwnBet no.tokenId) :
    ∃ db', Database.processNftBet removed db no.tokenId = .ok db' := by
  have hlive : no.burnt = false := by
    rw [Bool.eq_false_iff]
    intro hburnt
    exact hrunning (h.burntOut.auction no.tokenId no hno hburnt)
  exact h.toPayable.processNftBet hno hrunning (h.counted.isSome_of_live hno hlive) hown

/-- A whole queue of a sound market is settled if it is settled from own bets. -/
theorem Sound.processNftBets {db₁ : Database} {settled queue : List Nat} (hwf : db.WellFormed)
    (h₁ : db₁.Sound) (hpart : TakesOwnBets db db₁ settled) (hnodup : (settled ++ queue).Nodup)
    (hrunning : ∀ tokenId ∈ queue, ∃ no, db.nfts.find? tokenId = some no ∧ no.auctionExpiration ≠ 0)
    (hown : OwnBetsOnly db settled queue) :
    ∃ db', processNftBets removed db₁ queue = .ok db' ∧ db'.Sound ∧ KeepsOwners db₁ db' := by
  induction queue generalizing db₁ settled with
  | nil => exact ⟨db₁, rfl, h₁, .refl db₁⟩
  | cons tokenId queue ih =>
    obtain ⟨hfirst, hrest⟩ := hown
    have hnew : tokenId ∉ settled := by
      intro hin
      exact (List.disjoint_of_nodup_append hnodup) hin List.mem_cons_self
    obtain ⟨no, hno, hexpiration⟩ := hrunning tokenId List.mem_cons_self
    have hid := Table.key_of_find? hno
    subst hid
    have hno₁ : db₁.nfts.find? no.tokenId = some no := by
      rw [hpart.otherToken _ hnew, hno]
    have hfinds := hpart.findsOwnBet hwf hnew hfirst
    obtain ⟨db₂, hprocess⟩ := @Sound.processNftBet removed _ _ h₁ hno₁ hexpiration hfinds
    obtain ⟨no', hno', hstep⟩ := processNftBet_eq_ok hprocess
    rw [hno₁] at hno'
    injection hno' with hno'
    subst hno'
    have hpart' := hpart.settle hwf h₁.wellFormed hnew hno hexpiration hstep hfirst
    obtain ⟨db', hqueue, hsound, hkeeps⟩ := ih (h₁.settled hexpiration hfinds hstep) hpart'
      (by simpa using hnodup) (fun u hu => hrunning u (List.mem_cons_of_mem _ hu)) hrest
    refine ⟨db', ?_, hsound, (h₁.burntOut.keepsOwners_of_settled hexpiration hstep).trans hkeeps⟩
    unfold Database.processNftBets
    rw [hprocess]
    exact hqueue

theorem Sound.endOfBlock {queue : List Nat} (h : db.Sound) (hqueue : db.AuctionQueue queue)
    (hown : OwnBetsOnly db [] queue) :
    ∃ db', Database.processNftBets removed db queue = .ok db' ∧ db'.Sound ∧ KeepsOwners db db' := by
  apply Sound.processNftBets h.wellFormed h (.nil db) hqueue.nodup _ hown
  exact hqueue.running

theorem Sound.step {e : MarketEvent} (h : db.Sound) (hok : KeepsBurnt db e)
    (hstep : db.Step e db') : db'.Sound ∧ KeepsOwners db db' := by
  cases e with
  | operation op =>
    have hmarket := marketStep_of_applyNftOperation hstep
    exact ⟨h.marketStep hok hmarket, h.burntOut.keepsOwners hmarket⟩
  | endOfBlock removed queue =>
    obtain ⟨db₁, hprocess, hsound⟩ := h.endOfBlock hstep.1 hok
    rw [hstep.2] at hprocess
    injection hprocess with heq
    exact heq ▸ hsound
  | other => exact ⟨h.elsewhere hstep, .of_eq hstep.nfts⟩

theorem sound_of_reach (h : market.Reach KeepsBurnt db) : db.Sound := by
  apply h.invariant
  . intro db hdb
    exact NoMarket.sound hdb
  . intro db e db' hdb hok hstep
    exact (hdb.step hok hstep).1

/-- A token that is neither for sale, nor in auction, nor asked for. -/
structure OutOfMarket (db : Database) (no : NftObject) : Prop where
  order : ∀ o ∈ db.nftOrders.rows, o.tokenId ≠ no.tokenId
  auction : no.auctionExpiration = 0
  bet : ∀ b ∈ db.nftBets.rows, b.tokenId ≠ no.tokenId

theorem Sound.outOfMarket {no : NftObject} (h : db.Sound)
    (hno : db.nfts.find? no.tokenId = some no) (hburnt : no.burnt = true) : db.OutOfMarket no := by
  have hstopped := h.burntOut.auction no.tokenId no hno hburnt
  refine ⟨?_, hstopped, ?_⟩
  . intro o ho heq
    rw [h.burntOut.order o ho no (heq ▸ hno)] at hburnt
    cases hburnt
  . intro b hb
    exact h.wellFormed.tokenId_ne_of_stopped hno hstopped hb

end step

/--
In every run that keeps burnt tokens out of the market they stay burnt with their owners, every
token in auction has its collection, and a block end that settles auctions from their own bets
completes.
-/
theorem burnt_of_reach {db : Database} (h : market.Reach KeepsBurnt db) :
    (∀ tokenId no, db.nfts.find? tokenId = some no → no.burnt = true → db.OutOfMarket no) ∧
    (∀ e db', KeepsBurnt db e → db.Step e db' → KeepsOwners db db') ∧
    (∀ tokenId no, db.nfts.find? tokenId = some no → no.auctionExpiration ≠ 0 →
      (db.nftCollections.find? no.name).isSome) ∧
    (∀ removed queue, db.AuctionQueue queue → KeepsBurnt db (.endOfBlock removed queue) →
      ∃ db', processNftBets removed db queue = .ok db') := by
  have hsound := sound_of_reach h
  refine ⟨?_, ?_, ?_, ?_⟩
  . intro tokenId no hno hburnt
    rw [← Table.key_of_find? hno] at hno
    exact hsound.outOfMarket hno hburnt
  . intro e db' hok hstep
    exact (hsound.step hok hstep).2
  . intro tokenId no hno hrunning
    apply hsound.counted.isSome_of_live hno
    rw [Bool.eq_false_iff]
    intro hburnt
    exact hrunning (hsound.burntOut.auction tokenId no hno hburnt)
  . intro removed queue hqueue hown
    obtain ⟨db', hprocess, -⟩ := hsound.endOfBlock hqueue hown
    exact ⟨db', hprocess⟩

instance OwnBetsOnly.decidable (db : Database) :
    (settled queue : List Nat) → Decidable (OwnBetsOnly db settled queue)
  | _, [] => .isTrue trivial
  | settled, tokenId :: queue =>
    let _rest : Decidable (OwnBetsOnly db (settled ++ [tokenId]) queue) :=
      OwnBetsOnly.decidable db (settled ++ [tokenId]) queue
    inferInstanceAs (Decidable (_ ∧ _))

instance : (db : Database) → (e : MarketEvent) → Decidable (KeepsBurnt db e)
  | db, .operation (.nftIssue _) => inferInstanceAs (Decidable (inc32 db.lastNftTokenId ≠ 0))
  | db, .operation (.nftAuction op) =>
    inferInstanceAs (Decidable (op.expiration ≠ 0 → op.minPrice.amount ≠ 0 →
      ∀ no ∈ db.nfts.find? op.tokenId, no.burnt = false))
  | db, .operation (.nftBuy op) =>
    inferInstanceAs (Decidable (op.orderId ≠ 0 → op.tokenId ≠ 0 →
      ∀ no ∈ db.nfts.find? op.tokenId,
        db.findNftOrder no.owner op.orderId = none → no.burnt = false))
  | db, .endOfBlock _ queue => inferInstanceAs (Decidable (OwnBetsOnly db [] queue))
  | _, .operation (.nftCollection _) => .isTrue trivial
  | _, .operation (.nftCollectionDelete _) => .isTrue trivial
  | _, .operation (.nftTransfer _) => .isTrue trivial
  | _, .operation (.nftSell _) => .isTrue trivial
  | _, .operation (.nftCancelOrder _) => .isTrue trivial
  | _, .other => .isTrue trivial

/-- Alice burns one of her two tokens and puts the other one up for auction. -/
def burnOne : List NftOperation :=
  [
    .nftCollection { creator := "alice", name := "COOLGAME" },
    .nftIssue { creator := "alice", name := "COOLGAME", toAccount := "alice" },
    .nftIssue { creator := "alice", name := "COOLGAME", toAccount := "alice" },
    .nftTransfer { tokenId := 1, fromAccount := "alice", toAccount := nullAccount },
    .nftAuction
      { owner := "alice", tokenId := 2, minPrice := ⟨1000, steemSymbol⟩, expiration := 1700003600 }
  ]

def burntOne : Database :=
  (burnOne.foldlM applyNftOperation firstMarket).toOption.getD firstMarket

theorem burnt_of_reach_one_burnt :
    (∀ tokenId no, burntOne.nfts.find? tokenId = some no → no.burnt = true →
      burntOne.OutOfMarket no) ∧
    (∀ e db', KeepsBurnt burntOne e → burntOne.Step e db' → KeepsOwners burntOne db') ∧
    (∀ tokenId no, burntOne.nfts.find? tokenId = some no → no.auctionExpiration ≠ 0 →
      (burntOne.nftCollections.find? no.name).isSome) ∧
    (∀ removed queue, burntOne.AuctionQueue queue →
      KeepsBurnt burntOne (.endOfBlock removed queue) →
      ∃ db', processNftBets removed burntOne queue = .ok db') :=
  burnt_of_reach (reach_of_operations (.initial noMarket_firstMarket) (by decide +kernel)
    (eq_ok_of_isSome (by decide +kernel)))

/-- Alice puts a burnt token up for auction and deletes its empty collection. -/
def auctionBurnt : List NftOperation :=
  [
    .nftCollection { creator := "alice", name := "COOLGAME" },
    .nftIssue { creator := "alice", name := "COOLGAME", toAccount := "alice" },
    .nftTransfer { tokenId := 1, fromAccount := "alice", toAccount := nullAccount },
    .nftAuction
      { owner := "alice", tokenId := 1, minPrice := ⟨1000, steemSymbol⟩, expiration := 1700003600 },
    .nftCollectionDelete { creator := "alice", name := "COOLGAME" }
  ]

/-- The state when the auction of the burnt token is over. -/
def burntAuctionOver : Database :=
  { ((auctionBurnt.foldlM applyNftOperation firstMarket).toOption.getD firstMarket) with
    headBlockTime := 1700003601 }

/-- The collection of the token in auction is gone, so the block end throws. -/
theorem processNftBets_throws_for_burnt_token :
    market.Reachable burntAuctionOver ∧
      (∃ no, burntAuctionOver.nfts.find? 1 = some no ∧ no.burnt = true
        ∧ no.auctionExpiration ≠ 0) ∧
      burntAuctionOver.AuctionQueue [1] ∧
      ∀ db', processNftBets readsNull burntAuctionOver [1] ≠ .ok db' := by
  refine ⟨?_, ?_, ?_, ?_⟩
  . apply reachable_of_headBlockTime
    exact reachable_of_operations reachable_firstMarket (eq_ok_of_isSome (by decide +kernel))
  . have hburnt : ∃ no ∈ burntAuctionOver.nfts.rows, no.tokenId = 1 ∧ no.burnt = true
        ∧ no.auctionExpiration ≠ 0 := by
      decide +kernel
    obtain ⟨no, hmem, htoken, hrest⟩ := hburnt
    exact ⟨no, Table.find?_eq_some_iff.mpr ⟨hmem, htoken⟩, hrest⟩
  . exact auctionQueue_of_rows (by decide) (by decide +kernel) (by decide +kernel) (by simp)
  . intro db' hprocess
    have hfails : (processNftBets readsNull burntAuctionOver [1]).toOption.isSome = false := by
      decide +kernel
    rw [hprocess] at hfails
    cases hfails

end Database
end Golos
