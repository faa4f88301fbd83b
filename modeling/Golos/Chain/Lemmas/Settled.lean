import Golos.Chain.Lemmas.Sessions

/-!
This module contains what pushing a block keeps, however it ends: the sessions of the node, what the
blocks meet that it holds, and the blocks that were on its chain, or the transactions of them.
-/

namespace Golos

open Checked Relation

variable {σ : Type} {p : Protocol σ} {P : SignedBlock → Prop}

/-- The block of the item and of all that `prev` leads to. -/
def ForkItem.All (P : SignedBlock → Prop) : ForkItem → Prop
  | .root _ data => P data
  | .child _ data prev => P data ∧ prev.All P

theorem ForkItem.All.data {item : ForkItem} (h : item.All P) : P item.data := by
  cases item with
  | root ptr data => exact h
  | child ptr data prev => exact h.1

theorem ForkItem.All.prev {item prev : ForkItem} (h : item.All P) (hprev : item.prev = some prev) :
    prev.All P := by
  cases item with
  | root ptr data => cases hprev
  | child ptr data prev' =>
    cases hprev
    exact h.2

namespace ForkDatabase

variable {f f' : ForkDatabase} {item x y : ForkItem}

/-- All that the database can lead to. -/
structure Holds (P : SignedBlock → Prop) (f : ForkDatabase) : Prop where
  index : ∀ item ∈ f.index, item.All P
  head : ∀ item, f.head = some item → item.All P

theorem of_lock {prev : Option ForkItem} (h : f.lock prev = some item) : prev = some item := by
  unfold lock at h
  exact (Option.filter_eq_some_iff.mp h).1

namespace Holds

theorem empty : Holds P {} := by
  constructor
  . exact List.forall_mem_nil _
  . intro item h
    cases h

theorem of_index_subset (h : f.Holds P) (hindex : f'.index ⊆ f.index) (hhead : f'.head = f.head) :
    f'.Holds P := by
  constructor
  . intro item hitem
    exact h.index item (hindex hitem)
  . rw [hhead]
    exact h.head

theorem find (h : f.Holds P) {id : BlockId} (hfind : f.find p id = some item) : item.All P :=
  h.index item (List.mem_of_find?_eq_some hfind)

theorem popBlock (h : f.Holds P) (hpop : f.popBlock = .ok f') : f'.Holds P := by
  simp only [ForkDatabase.popBlock, bind_eq_ok, get_eq_ok, pure_eq_ok] at hpop
  obtain ⟨head, hhead, prev, hlock, rfl⟩ := hpop
  constructor
  . exact h.index
  . intro item hitem
    cases hitem
    exact (h.head head hhead).prev (of_lock hlock)

theorem insert (h : f.Holds P) (hitem : item.All P) : (f.insert p item).Holds P := by
  unfold ForkDatabase.insert
  split
  . exact h
  . constructor
    . intro x hx
      rcases List.mem_cons.mp hx with rfl | hx
      . exact hitem
      . exact h.index x hx
    . exact h.head

theorem setHead (h : f.Holds P) (hitem : item.All P) : (f.setHead item).Holds P := by
  constructor
  . exact h.index
  . intro x hx
    cases hx
    exact hitem

theorem raiseHead (h : f.Holds P) (hitem : item.All P) : (f.raiseHead item).Holds P := by
  unfold ForkDatabase.raiseHead
  split
  . split
    . exact h.setHead hitem
    . exact h
  . exact h.setHead hitem

theorem link (h : f.Holds P) {b : SignedBlock} (hb : P b) (hlink : f.link p b = .ok item) :
    item.All P := by
  unfold ForkDatabase.link at hlink
  split at hlink
  . simp only [bind_eq_ok, get_eq_ok, pure_eq_ok] at hlink
    obtain ⟨prev, hprev, rfl⟩ := hlink
    exact ⟨hb, h.find hprev⟩
  . rw [pure_eq_ok] at hlink
    subst hlink
    exact hb

theorem pushBlock (h : f.Holds P) {b : SignedBlock} (hb : P b)
    (hpush : f.pushBlock p b = .ok (item, f')) : f'.Holds P := by
  simp only [ForkDatabase.pushBlock, pushBlock', bind_eq_ok, ensure_eq_ok, get_eq_ok,
    pure_eq_ok] at hpush
  obtain ⟨f₁, ⟨_, -, item', hlink, rfl⟩, _, -, hf'⟩ := hpush
  cases hf'
  have hitem := h.link hb hlink
  have hcounted : { f with nextPtr := f.nextPtr + 1 }.Holds P :=
    h.of_index_subset (List.Subset.refl _) rfl
  exact (hcounted.insert hitem).raiseHead hitem

theorem setMaxSize (h : f.Holds P) (size : Nat) : (f.setMaxSize size).Holds P := by
  unfold ForkDatabase.setMaxSize
  split
  . exact h.of_index_subset (List.Subset.refl _) rfl
  . exact h.of_index_subset (List.filter_subset_self _) rfl

theorem remove (h : f.Holds P) (id : BlockId) : (f.remove p id).Holds P :=
  h.of_index_subset (List.filter_subset_self _) rfl

theorem removeBranch (h : f.Holds P) (items : List ForkItem) :
    (Node.removeBranch p f items).Holds P := by
  induction items generalizing f with
  | nil => exact h
  | cons item items ih => exact ih (h.remove _)

theorem walk {num : Nat} (hitem : item.All P) (hwalk : f.walk num item = some x) : x.All P := by
  induction item with
  | root ptr data =>
    unfold ForkDatabase.walk at hwalk
    split at hwalk
    . cases hwalk
    . cases hwalk
      exact hitem
  | child ptr data prev ih =>
    unfold ForkDatabase.walk at hwalk
    split at hwalk
    . dsimp only at hwalk
      split at hwalk
      . exact ih hitem.2 hwalk
      . cases hwalk
    . cases hwalk
      exact hitem

theorem fetchBlockOnMainBranchByNumber (h : f.Holds P) {num : Nat}
    (hfetch : f.fetchBlockOnMainBranchByNumber num = some item) : item.All P := by
  unfold ForkDatabase.fetchBlockOnMainBranchByNumber at hfetch
  split at hfetch
  . cases hfetch
  . next block hblock =>
    cases hfetch
    apply h.index
    have hin : item ∈ f.fetchBlockByNumber num := by
      rw [hblock]
      exact List.mem_singleton_self _
    exact (List.mem_filter.mp hin).1
  . unfold walkMainBranchToNum at hfetch
    split at hfetch
    . cases hfetch
    . next head hhead =>
      split at hfetch
      . cases hfetch
      . exact walk (h.head head hhead) hfetch

theorem descend {num : Nat} {branch : List ForkItem} (hitem : item.All P)
    (hdescend : f.descend num item = .ok (branch, x)) : (∀ y ∈ branch, y.All P) ∧ x.All P := by
  induction item generalizing branch with
  | root ptr data =>
    unfold ForkDatabase.descend at hdescend
    split at hdescend
    . cases hdescend
    . cases hdescend
      exact ⟨List.forall_mem_nil _, hitem⟩
  | child ptr data prev ih =>
    unfold ForkDatabase.descend at hdescend
    split at hdescend
    . dsimp only at hdescend
      split at hdescend
      . simp only [bind_eq_ok, pure_eq_ok] at hdescend
        obtain ⟨⟨upper, last⟩, hupper, heq⟩ := hdescend
        cases heq
        obtain ⟨hall, hlast⟩ := ih hitem.2 hupper
        exact ⟨List.forall_mem_cons.mpr ⟨hitem, hall⟩, hlast⟩
      . cases hdescend
    . cases hdescend
      exact ⟨List.forall_mem_nil _, hitem⟩

theorem meet {first second : List ForkItem} (hx : x.All P) (hy : y.All P)
    (hmeet : f.meet x y = .ok (first, second)) :
    (∀ item ∈ first, item.All P) ∧ ∀ item ∈ second, item.All P := by
  induction x generalizing y first second with
  | root ptr data =>
    unfold ForkDatabase.meet at hmeet
    split at hmeet
    . cases hmeet
    . cases hmeet
      exact ⟨List.forall_mem_singleton.mpr hx, List.forall_mem_singleton.mpr hy⟩
  | child ptr data prev ih =>
    cases y with
    | root ptr' data' =>
      unfold ForkDatabase.meet at hmeet
      split at hmeet
      . cases hmeet
      . cases hmeet
        exact ⟨List.forall_mem_singleton.mpr hx, List.forall_mem_singleton.mpr hy⟩
    | child ptr' data' prev' =>
      unfold ForkDatabase.meet at hmeet
      split at hmeet
      . dsimp only at hmeet
        split at hmeet
        . simp only [bind_eq_ok, pure_eq_ok] at hmeet
          obtain ⟨⟨upper, upper'⟩, hupper, heq⟩ := hmeet
          cases heq
          obtain ⟨hfirst, hsecond⟩ := ih hx.2 hy.2 hupper
          exact ⟨List.forall_mem_cons.mpr ⟨hx, hfirst⟩, List.forall_mem_cons.mpr ⟨hy, hsecond⟩⟩
        . cases hmeet
      . cases hmeet
        exact ⟨List.forall_mem_singleton.mpr hx, List.forall_mem_singleton.mpr hy⟩

theorem fetchBranchFrom (h : f.Holds P) {a b : BlockId} {first second : List ForkItem}
    (hfetch : f.fetchBranchFrom p a b = .ok (first, second)) : ∀ item ∈ second, item.All P := by
  simp only [ForkDatabase.fetchBranchFrom, bind_eq_ok, get_eq_ok, pure_eq_ok] at hfetch
  obtain ⟨x, hx, y, hy, ⟨upper, x'⟩, hupper, ⟨upper', y'⟩, hupper', ⟨lower, lower'⟩, hlower, heq⟩ :=
    hfetch
  cases heq
  have hx' := (descend (h.find hx) hupper).2
  obtain ⟨hall, hy'⟩ := descend (h.find hy) hupper'
  intro item hitem
  rcases List.mem_append.mp hitem with hitem | hitem
  . exact hall item hitem
  . exact (meet hx' hy' hlower).2 item hitem

end Holds

end ForkDatabase

namespace Node

variable {x : ChainState σ} {H : List SignedBlock} {trxs : List SignedTransaction} {n n' : Node σ}
  {b : SignedBlock}

/-- The blocks that can be fetched. -/
structure HoldsBlocks (P : SignedBlock → Prop) (n : Node σ) : Prop where
  forkDb : n.forkDb.Holds P
  blockLog : ∀ b ∈ n.blockLog.blocks, P b

theorem HoldsBlocks.fetchBlockById (h : n.HoldsBlocks P) {id : BlockId}
    (hfetch : n.fetchBlockById p id = some b) : P b ∧ p.blockId b = id := by
  unfold Node.fetchBlockById at hfetch
  split at hfetch
  . next item hitem =>
    cases hfetch
    have hid : p.itemId item = id := by simpa using List.find?_some hitem
    exact ⟨(h.forkDb.find hitem).data, hid⟩
  . obtain ⟨hread, hid⟩ := Option.filter_eq_some_iff.mp hfetch
    refine ⟨?_, of_decide_eq_true hid⟩
    unfold BlockLog.readBlockByNum at hread
    split at hread
    . cases hread
    . exact h.blockLog b (List.mem_of_getElem? hread)

theorem blocks_of_append {log log' : BlockLog} (h : log.append b = .ok log') :
    log'.blocks = log.blocks ++ [b] := by
  unfold BlockLog.append at h
  split at h
  . injection h with h
    rw [← h]
  . cases h

theorem holds_of_writeBlocks {f : ForkDatabase} {count : Nat} {log log' : BlockLog}
    {r : Result Unit} (hf : f.Holds P) (hlog : ∀ b ∈ log.blocks, P b)
    (h : writeBlocks f count log = (r, log')) : ∀ b ∈ log'.blocks, P b := by
  induction count generalizing log with
  | zero =>
    cases h
    exact hlog
  | succ count ih =>
    unfold writeBlocks at h
    split at h
    . cases h
      exact hlog
    . next block hblock =>
      split at h
      . cases h
        exact hlog
      . next log₁ happend =>
        apply ih _ h
        rw [blocks_of_append happend]
        intro c hc
        rcases List.mem_append.mp hc with hc | hc
        . exact hlog c hc
        . rw [List.mem_singleton.mp hc]
          exact (hf.fetchBlockOnMainBranchByNumber hblock).data

/-- Everything but the state, and the blocks that can be fetched. -/
structure Keeps (P : SignedBlock → Prop) (n n' : Node σ) : Prop where
  pendingSession : n'.pendingSession = n.pendingSession
  pendingTx : n'.pendingTx = n.pendingTx
  poppedTx : n'.poppedTx = n.poppedTx
  blocks : n'.HoldsBlocks P

theorem keeps_of_writeBlockLog {r : Result Unit} (h : n.HoldsBlocks P)
    (hwrite : writeBlockLog {} n = (r, n')) :
    Keeps P n n' ∧ n'.db = n.db := by
  unfold writeBlockLog at hwrite
  rw [if_neg Bool.false_ne_true] at hwrite
  dsimp only at hwrite
  injection hwrite with _ hwrite
  subst hwrite
  refine ⟨⟨rfl, rfl, rfl, h.forkDb, ?_⟩, rfl⟩
  exact holds_of_writeBlocks h.forkDb h.blockLog rfl

/-- A block that is applied, and what it makes irreversible. -/
theorem applyBlock_ok (h : n.HoldsBlocks P) (happly : n.applyBlock p {} b = (.ok (), n')) :
    Keeps P n n' ∧ ∃ t, p.applyBlock' {} n.db.value b = .ok t ∧
      n'.db = (n.db.set t).commit t.lastIrreversibleBlockNum := by
  unfold applyBlock at happly
  split at happly
  . cases happly
  . next u hu =>
    split at happly
    . cases happly
    . next n₁ hwrite =>
      dsimp only at happly
      split at happly
      . cases happly
      . next t ht =>
        cases happly
        have hset : { n with db := (n.db.set u).commit u.lastIrreversibleBlockNum }.HoldsBlocks P :=
          ⟨h.forkDb, h.blockLog⟩
        obtain ⟨hkeeps, hdb⟩ := keeps_of_writeBlockLog hset hwrite
        have hlib : t.lastIrreversibleBlockNum = u.lastIrreversibleBlockNum :=
          congrArg ChainState.Core.lastIrreversibleBlockNum (core_of_applyAfterIrreversible_ok ht)
        refine ⟨⟨hkeeps.pendingSession, hkeeps.pendingTx, hkeeps.poppedTx,
          hkeeps.blocks.forkDb.setMaxSize _, hkeeps.blocks.blockLog⟩, t, applyBlock'_eq_ok_iff.mpr ⟨u, hu, ht⟩, ?_⟩
        dsimp only
        rw [hdb, hlib]
        rfl

/-- A block that fails leaves some state behind, after which something may be irreversible. -/
theorem applyBlock_error {e : ChainException} (h : n.HoldsBlocks P)
    (happly : n.applyBlock p {} b = (.error e, n')) :
    Keeps P n n' ∧ (n'.db = n.db ∨ ∃ u v, p.applyUntilIrreversible {} n.db.value b = .ok u ∧
      n'.db = (n.db.set v).commit u.lastIrreversibleBlockNum) := by
  unfold applyBlock at happly
  split at happly
  . cases happly
    exact ⟨⟨rfl, rfl, rfl, h⟩, .inl rfl⟩
  . next u hu =>
    have hset : { n with db := (n.db.set u).commit u.lastIrreversibleBlockNum }.HoldsBlocks P :=
      ⟨h.forkDb, h.blockLog⟩
    split at happly
    . next hwrite =>
      cases happly
      obtain ⟨hkeeps, hdb⟩ := keeps_of_writeBlockLog hset hwrite
      exact ⟨⟨hkeeps.pendingSession, hkeeps.pendingTx, hkeeps.poppedTx, hkeeps.blocks⟩, .inr ⟨u, u, hu, hdb⟩⟩
    . next n₁ hwrite =>
      obtain ⟨hkeeps, hdb⟩ := keeps_of_writeBlockLog hset hwrite
      dsimp only at happly
      split at happly
      . next t _ =>
        cases happly
        refine ⟨⟨hkeeps.pendingSession, hkeeps.pendingTx, hkeeps.poppedTx,
          hkeeps.blocks.forkDb.setMaxSize _, hkeeps.blocks.blockLog⟩, .inr ⟨u, t, hu, ?_⟩⟩
        dsimp only
        rw [hdb]
        rfl
      . cases happly

/-- The undo sessions are the blocks of a chain that grew from `x`. -/
def Sessions (p : Protocol σ) (x : ChainState σ) (db : UndoStack (ChainState σ)) : Prop :=
  db.Anchored p.Grows ChainState.headBlockNumber ChainState.lastIrreversibleBlockNum x

/-- A node without a session of pending transactions. The blocks `H` were on its chain once. -/
structure Settled (p : Protocol σ) (x : ChainState σ) (P : SignedBlock → Prop)
    (H : List SignedBlock) (trxs : List SignedTransaction) (n : Node σ) : Prop where
  idle : n.pendingSession = false
  pendingTx : n.pendingTx = trxs
  sessions : Sessions p x n.db
  blocks : n.HoldsBlocks P
  returned : ∀ c ∈ H, c ∈ n.db.value.history ∨ c.transactions ⊆ n.poppedTx

namespace Settled

theorem chainInv (hx : ChainInv p {} x) (h : Settled p x P H trxs n) : ChainInv p {} n.db.value :=
  chainInv_of_reaches hx h.sessions.reaches

theorem with_forkDb (h : Settled p x P H trxs n) {forkDb : ForkDatabase} (hforkDb : forkDb.Holds P) :
    Settled p x P H trxs { n with forkDb := forkDb } :=
  ⟨h.idle, h.pendingTx, h.sessions, ⟨hforkDb, h.blocks.blockLog⟩, h.returned⟩

section blocks

variable (hx : ChainInv p {} x)
include hx

theorem inSession_ok (h : Settled p x P H trxs n)
    (hok : inSession (applyBlock p {} b) n = (.ok (), n')) : Settled p x P H trxs n' := by
  unfold inSession at hok
  split at hok
  . next n₁ happly =>
    cases hok
    have hstarted : { n with db := n.db.start }.HoldsBlocks P := ⟨h.blocks.forkDb, h.blocks.blockLog⟩
    obtain ⟨hkeeps, t, ht, hdb⟩ := applyBlock_ok hstarted happly
    have hgrows : p.Grows n.db.value t := ⟨h.chainInv hx, b, ht⟩
    constructor
    . rw [hkeeps.pendingSession]
      exact h.idle
    . rw [hkeeps.pendingTx]
      exact h.pendingTx
    . unfold Sessions
      rw [hdb]
      exact h.sessions.step Protocol.Grows.headBlockNumber hgrows hgrows.next.irreversible_le
    . exact hkeeps.blocks
    . rw [hdb, hkeeps.poppedTx]
      show ∀ c ∈ H, c ∈ t.history ∨ c.transactions ⊆ n.poppedTx
      intro c hc
      rw [history_of_applyBlock' ht]
      rcases h.returned c hc with hin | hreturned
      . exact .inl (List.mem_cons_of_mem _ hin)
      . exact .inr hreturned
  . cases hok

/-- The session of a block that fails is undone, as the block has not become irreversible. -/
theorem inSession_error (hnone : p.NoneAlone x) {e : ChainException} (h : Settled p x P H trxs n)
    (herror : inSession (applyBlock p {} b) n = (.error e, n')) : Settled p x P H trxs n' := by
  unfold inSession at herror
  split at herror
  . cases herror
  . next n₁ happly =>
    cases herror
    have hstarted : { n with db := n.db.start }.HoldsBlocks P := ⟨h.blocks.forkDb, h.blocks.blockLog⟩
    obtain ⟨hkeeps, hdb⟩ := applyBlock_error hstarted happly
    have hundone : Sessions p x n₁.db.undo ∧ n₁.db.undo.value = n.db.value := by
      rcases hdb with hdb | ⟨u, v, hu, hdb⟩
      . rw [hdb]
        show Sessions p x (n.db.start.set n.db.value).undo ∧ _
        rw [UndoStack.undo_set_start]
        exact ⟨h.sessions, UndoStack.undo_set_start n.db n.db.value ▸ rfl⟩
      . have hle : u.lastIrreversibleBlockNum ≤ n.db.revision := by
          rw [h.sessions.revision]
          exact irreversible_le_of_noneAlone hx hnone h.sessions.reaches hu
        rw [hdb]
        dsimp only
        rw [UndoStack.undo_commit_start hle]
        exact ⟨h.sessions.commit Protocol.Grows.headBlockNumber hle, rfl⟩
    constructor
    . show n₁.pendingSession = false
      rw [hkeeps.pendingSession]
      exact h.idle
    . show n₁.pendingTx = trxs
      rw [hkeeps.pendingTx]
      exact h.pendingTx
    . exact hundone.1
    . exact ⟨hkeeps.blocks.forkDb, hkeeps.blocks.blockLog⟩
    . dsimp only
      rw [hundone.2, hkeeps.poppedTx]
      exact h.returned

end blocks

section branches

variable (hx : ChainInv p {} x) (hnone : p.NoneAlone x)
  (hP : ∀ b c, P b → c ∈ H → p.MerkleValid c → p.blockId b = p.blockId c → b = c)

include hP in
theorem popBlock {r : Result Unit} (h : Settled p x P H trxs n)
    (hpop : n.popBlock p = (r, n')) : Settled p x P H trxs n' := by
  unfold Node.popBlock resetPendingSession at hpop
  rw [if_neg (ne_true_of_eq_false h.idle)] at hpop
  dsimp only at hpop
  split at hpop
  . cases hpop
    exact h
  . next headBlock hfetch =>
    split at hpop
    . cases hpop
      exact h
    . next forkDb hforkDb =>
      cases hpop
      refine ⟨h.idle, h.pendingTx, h.sessions.undo Protocol.Grows.headBlockNumber,
        ⟨h.blocks.forkDb.popBlock hforkDb, h.blocks.blockLog⟩, ?_⟩
      intro c hc
      dsimp only
      rcases h.returned c hc with hin | hreturned
      . cases hsaved : n.db.saved with
        | nil =>
          have hundo : n.db.undo = n.db := by
            unfold UndoStack.undo
            rw [hsaved]
          rw [hundo]
          exact .inl hin
        | cons session saved =>
          obtain ⟨r, u⟩ := session
          have hladder := h.sessions.ladder
          rw [hsaved] at hladder
          obtain ⟨-, hgrows, -⟩ := hladder.of_saved
          obtain ⟨b, hb⟩ := hgrows.block
          rw [history_of_applyBlock' hb] at hin
          rw [UndoStack.undo_of_saved hsaved]
          rcases List.mem_cons.mp hin with rfl | hin
          . right
            obtain ⟨hheld, hid⟩ := h.blocks.fetchBlockById hfetch
            have hsame : p.blockId headBlock = p.blockId c :=
              hid.trans (headBlockId_of_applyBlock' hb)
            have hheadBlock := hP _ _ hheld hc (merkleValid_of_applyBlock' hb) hsame
            rw [hheadBlock]
            exact List.subset_append_left _ _
          . exact .inl hin
      . right
        exact List.Subset.trans hreturned (List.subset_append_right _ _)

include hP in
theorem popUntil {id : BlockId} {fuel : Nat} {r : Result Unit}
    (h : Settled p x P H trxs n) (hpop : n.popUntil p id fuel = (r, n')) : Settled p x P H trxs n' := by
  induction fuel generalizing n with
  | zero =>
    cases hpop
    exact h
  | succ fuel ih =>
    unfold Node.popUntil at hpop
    split at hpop
    . cases hpop
      exact h
    . split at hpop
      . next hfirst =>
        cases hpop
        exact h.popBlock hP hfirst
      . next hfirst => exact ih (h.popBlock hP hfirst) hpop

include hx hnone

theorem applyBranch {items : List ForkItem} {r : Option (ChainException × List ForkItem)}
    (h : Settled p x P H trxs n) (happly : n.applyBranch p {} items = (r, n')) :
    Settled p x P H trxs n' := by
  induction items generalizing n with
  | nil =>
    cases happly
    exact h
  | cons item items ih =>
    unfold Node.applyBranch at happly
    split at happly
    . next hfirst =>
      cases happly
      exact h.inSession_error hx hnone hfirst
    . next hfirst => exact ih (h.inSession_ok hx hfirst) happly

theorem extendChain {r : Result Bool} (h : Settled p x P H trxs n)
    (hextend : n.extendChain p {} b = (r, n')) : Settled p x P H trxs n' := by
  unfold Node.extendChain at hextend
  split at hextend
  . next n₁ hsession =>
    cases hextend
    have hfailed := h.inSession_error hx hnone hsession
    exact hfailed.with_forkDb (hfailed.blocks.forkDb.remove _)
  . next hsession =>
    cases hextend
    exact h.inSession_ok hx hsession

include hP

theorem restoreBranch {e : ChainException} {rest second : List ForkItem} {r : Result Bool}
    (h : Settled p x P H trxs n) (hsecond : ∀ item ∈ second, item.All P)
    (hrestore : n.restoreBranch p {} e rest second = (r, n')) : Settled p x P H trxs n' := by
  have hremoved := h.blocks.forkDb.removeBranch (p := p) rest
  have hstart : ∀ forkDb : ForkDatabase, forkDb.Holds P → ∀ r₁ n₁,
      popBranch p second { n with forkDb := forkDb } = (r₁, n₁) → Settled p x P H trxs n₁ :=
    fun _ hforkDb _ _ hpop => (h.with_forkDb hforkDb).popUntil hP hpop
  unfold Node.restoreBranch at hrestore
  cases hhead : second.head? with
  | none =>
    rw [hhead] at hrestore
    dsimp only at hrestore
    split at hrestore
    . next hpop =>
      cases hrestore
      exact hstart _ hremoved _ _ hpop
    . next hpop =>
      split at hrestore <;> cases hrestore
      . next happly => exact (hstart _ hremoved _ _ hpop).applyBranch hx hnone happly
      . next happly => exact (hstart _ hremoved _ _ hpop).applyBranch hx hnone happly
  | some item =>
    have hset := hremoved.setHead (hsecond item (List.mem_of_mem_head? hhead))
    rw [hhead] at hrestore
    dsimp only at hrestore
    split at hrestore
    . next hpop =>
      cases hrestore
      exact hstart _ hset _ _ hpop
    . next hpop =>
      split at hrestore <;> cases hrestore
      . next happly => exact (hstart _ hset _ _ hpop).applyBranch hx hnone happly
      . next happly => exact (hstart _ hset _ _ hpop).applyBranch hx hnone happly

theorem switchForks {newHead : ForkItem} {r : Result Bool} (h : Settled p x P H trxs n)
    (hswitch : n.switchForks p {} newHead = (r, n')) : Settled p x P H trxs n' := by
  unfold Node.switchForks at hswitch
  split at hswitch
  . cases hswitch
    exact h
  . next first second hfetch =>
    have hsecond := h.blocks.forkDb.fetchBranchFrom hfetch
    have of_held {n : Node σ} (h : Settled p x P H trxs n) (items : List ForkItem) :
        Settled p x P H trxs { n with forkDb := { n.forkDb with held := items } } :=
      h.with_forkDb (h.blocks.forkDb.of_index_subset (List.Subset.refl _) rfl)
    unfold holding at hswitch
    split at hswitch
    next r' n₁ hbranch =>
    cases hswitch
    apply of_held
    unfold switchBranch at hbranch
    have hstart := of_held h (newHead :: first ++ second)
    split at hbranch
    . next hpop =>
      cases hbranch
      exact hstart.popUntil hP hpop
    . next hpop =>
      have hpopped := hstart.popUntil hP hpop
      split at hbranch
      . next happly =>
        cases hbranch
        exact hpopped.applyBranch hx hnone happly
      . next happly =>
        exact (hpopped.applyBranch hx hnone happly).restoreBranch hx hnone hP hsecond hbranch

theorem pushBlock' {r : Result Bool} (hb : P b) (h : Settled p x P H trxs n)
    (hpush : n.pushBlock' p {} b = (r, n')) : Settled p x P H trxs n' := by
  unfold Node.pushBlock' at hpush
  rw [if_neg Bool.false_ne_true] at hpush
  split at hpush
  . cases hpush
    exact h
  . next newHead forkDb hforkDb =>
    have hpushed := h.with_forkDb (h.blocks.forkDb.pushBlock hb hforkDb)
    dsimp only at hpush
    split at hpush
    . split at hpush
      . exact hpushed.switchForks hx hnone hP hpush
      . cases hpush
        exact hpushed
    . exact hpushed.extendChain hx hnone hpush

theorem retryPushBlock {memory : Memory} {e : ChainException} {r : Result Bool} (hb : P b)
    (h : Settled p x P H trxs n) (hretry : n.retryPushBlock p memory {} b e = (r, n')) :
    Settled p x P H trxs n' := by
  unfold Node.retryPushBlock at hretry
  split at hretry
  . split at hretry
    . cases hretry
      exact h
    . split at hretry
      . exact h.pushBlock' hx hnone hP hb hretry
      . cases hretry
        exact h
  . cases hretry
    exact h

/-- Also when the first attempt runs out of memory. -/
theorem pushBlockOrRetry {memory : Memory} {r : Result Bool} (hb : P b) (h : Settled p x P H trxs n)
    (hpush : n.pushBlockOrRetry p memory {} b = (r, n')) : Settled p x P H trxs n' := by
  unfold Node.pushBlockOrRetry at hpush
  split at hpush
  . next hfirst =>
    exact (h.pushBlock' hx hnone hP hb hfirst).retryPushBlock hx hnone hP hb hpush
  . next hfirst =>
    have hpushed := h.pushBlock' hx hnone hP hb hfirst
    split at hpush
    . exact hpushed.retryPushBlock hx hnone hP hb hpush
    . cases hpush
      exact hpushed

end branches

end Settled

end Node

end Golos
