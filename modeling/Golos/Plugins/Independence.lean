import Golos.Plugins.Impl.Interpreter
import Golos.Lib.Transition
import Golos.PrivateMessage.Lemmas.Deletion

/-!
This module contains when the objects of the chain do not depend on the plugins of a node: their
evaluators change no object of it, apart from the one that creates a group for a cost.
-/

namespace Golos

open Checked

section follow

namespace FollowDatabase

variable {W Json : Type} {fc : Fc Json} {db db' : FollowDatabase W}

theorem chain_saveBlogStats {blogger guest : AccountName} {startCount : UInt32}
    (h : db.saveBlogStats blogger guest startCount = .ok db') : db'.chain = db.chain := by
  unfold saveBlogStats at h
  split at h
  . simp only [bind_eq_ok, pure_eq_ok] at h
    obtain ⟨stats, _, rfl⟩ := h
    rfl
  . simp only [bind_eq_ok, pure_eq_ok] at h
    obtain ⟨stats, _, rfl⟩ := h
    rfl

theorem chain_countFollow {account : AccountName} {f first : FollowCountObject → FollowCountObject}
    {hf : ∀ o, (f o).account = o.account} (h : db.countFollow account f first hf = .ok db') :
    db'.chain = db.chain := by
  unfold countFollow at h
  split at h
  . simp only [bind_eq_ok, pure_eq_ok] at h
    obtain ⟨counts, _, rfl⟩ := h
    rfl
  . cases h
    rfl

theorem chain_setFollow {o : FollowOperation} {what : UInt16}
    (h : db.setFollow o what = .ok db') : db'.chain = db.chain := by
  unfold setFollow at h
  split at h
  . simp only [bind_eq_ok, pure_eq_ok] at h
    obtain ⟨follows, _, rfl⟩ := h
    rfl
  . cases h
    rfl

theorem chain_follow {o : FollowOperation} (h : db.follow o = .ok db') : db'.chain = db.chain := by
  simp only [follow, bind_eq_ok] at h
  obtain ⟨_, _, _, _, _, _, db₁, hset, db₂, hfollower, hfollowing⟩ := h
  rw [chain_countFollow hfollowing, chain_countFollow hfollower, chain_setFollow hset]

theorem chain_feedReblog {maxFeedSize : UInt32} {o : ReblogOperation} {comment : Nat}
    {f : FollowObject} (h : db.feedReblog maxFeedSize o comment f = .ok db') :
    db'.chain = db.chain := by
  unfold feedReblog at h
  dsimp only at h
  split at h
  . simp only [bind_eq_ok, pure_eq_ok] at h
    obtain ⟨_, _, _, _, rfl⟩ := h
    rfl
  . cases h
    rfl

theorem chain_reblog {maxFeedSize : UInt32} {o : ReblogOperation}
    (h : db.reblog fc maxFeedSize o = .ok db') : db'.chain = db.chain := by
  simp only [reblog, bind_eq_ok] at h
  obtain ⟨c, _, _, _, _, _, _, _, blogs, _, db₁, hstats, hloop⟩ := h
  have hdb₁ := chain_saveBlogStats hstats
  refine foldlM_invariant (P := fun d _ => d.chain = db.chain) ?_ hdb₁ hloop
  intro d d' f _ hd hturn
  exact (chain_feedReblog hturn).trans hd

theorem chain_unfeedReblog (account : AccountName) (comment : Nat) (f : FollowObject) :
    (db.unfeedReblog account comment f).chain = db.chain := by
  unfold unfeedReblog
  split
  . rfl
  . split
    . rfl
    . split
      . rfl
      . rfl

theorem chain_deleteReblog {o : DeleteReblogOperation} (h : db.deleteReblog fc o = .ok db') :
    db'.chain = db.chain := by
  have hloop : ∀ (l : List FollowObject) (c : Nat) (d : FollowDatabase W),
      (l.foldl (fun db f => db.unfeedReblog o.account c f) d).chain = d.chain := by
    intro l c
    induction l with
    | nil => exact fun _ => rfl
    | cons f l ih =>
      intro d
      rw [List.foldl_cons, ih, chain_unfeedReblog]
  simp only [deleteReblog, bind_eq_ok, pure_eq_ok] at h
  obtain ⟨c, _, _, _, db₁, hstats, rfl⟩ := h
  have hdb₁ := chain_saveBlogStats hstats
  exact (hloop _ _ _).trans hdb₁

theorem chain_apply {maxFeedSize : UInt32} {o : FollowPluginOperation}
    (h : db.apply fc maxFeedSize o = .ok db') : db'.chain = db.chain := by
  cases o with
  | follow o => exact chain_follow h
  | reblog o => exact chain_reblog h
  | deleteReblog o => exact chain_deleteReblog h

end FollowDatabase

end follow

section notes

namespace AccountNotesDatabase

variable {W Json : Type} {fc : Fc Json} {db db' : AccountNotesDatabase W}

theorem chain_storeNote {settings : AccountNotesSettings} {acc : AccountName} {key value : String}
    (h : db.storeNote settings acc key value = .ok db') : db'.chain = db.chain := by
  unfold storeNote at h
  split at h
  . cases h
    rfl
  . split at h
    . split at h
      . cases h
        rfl
      . simp only [bind_eq_ok, pure_eq_ok] at h
        obtain ⟨notes, _, rfl⟩ := h
        rfl
    . simp only [bind_eq_ok, pure_eq_ok] at h
      obtain ⟨stats, _, notes, _, rfl⟩ := h
      rfl

theorem chain_removeNote (acc : AccountName) (key : String) :
    (db.removeNote acc key).chain = db.chain := by
  unfold removeNote
  split
  . rfl
  . rfl

theorem chain_setValue {settings : AccountNotesSettings} {o : SetValueOperation}
    (h : db.setValue fc settings o = .ok db') : db'.chain = db.chain := by
  unfold setValue at h
  split at h
  . cases h
    rfl
  . split at h
    . cases h
      rfl
    . split at h
      . cases h
        rfl
      . split at h
        . cases h
          exact chain_removeNote _ _
        . rw [bind_eq_ok] at h
          obtain ⟨value, _, h⟩ := h
          split at h
          . cases h
            rfl
          . exact chain_storeNote h

end AccountNotesDatabase

end notes

section privateMessage

namespace PrivateMessageDatabase

variable {W Json : Type} {fc : Fc Json} {plugin : PrivateMessagePlugin}
  {db db' : PrivateMessageDatabase W}

/-- An operation that creates a group. -/
def Creates (db : PrivateMessageDatabase W) : PrivateMessagePluginOperation → Prop
  | .privateGroup o => db.groups.find? o.name = none
  | _ => False

/-- A group that the operation creates costs nothing. -/
def FreeOperation (db : PrivateMessageDatabase W) (o : PrivateMessagePluginOperation) : Prop :=
  db.Creates o → db.chain.medianProps.privateGroupCost.amount = 0

theorem chain_privateGroup {o : PrivateGroupOperation} (hfree : db.FreeOperation (.privateGroup o))
    (h : db.privateGroup o = .ok db') : db'.chain = db.chain := by
  simp only [privateGroup, bind_eq_ok] at h
  obtain ⟨_, _, h⟩ := h
  split at h
  . exact (frame_updateGroup h).chain
  . next hnone => exact (frame_createGroup (hfree hnone) h).chain

theorem chain_apply {o : PrivateMessagePluginOperation} (hfree : db.FreeOperation o)
    (h : db.apply fc plugin o = .ok db') : db'.chain = db.chain := by
  cases o with
  | privateMessage o => exact (frame_privateMessage h).chain
  | privateDeleteMessage o => exact chain_privateDeleteMessage h
  | privateMarkMessage o => exact (frame_privateMarkMessage h).chain
  | privateSettings o => cases h
  | privateContact o => cases h
  | privateGroup o => exact chain_privateGroup hfree h
  | privateGroupDelete o => exact (frame_privateGroupDelete h).chain
  | privateGroupMember o => exact (frame_privateGroupMember h).chain

end PrivateMessageDatabase

end privateMessage

namespace Interpreter

variable {Json S P C : Type} {i : Interpreter Json S P} {f : S → C}

/-- What every allowed evaluation leaves as it is, is left so by the operations of a message. -/
theorem chain_applyOperations {R : S → P → Prop}
    (hstep : ∀ s s' op, R s op → i.evaluate s op = .ok s' → f s' = f s)
    {s s' : S} {ops : List P} {outer : CustomAuthorities}
    (hok : TransitionSystem.Along i.evaluate R s ops)
    (h : i.applyOperations s ops outer = .ok s') : f s' = f s := by
  simp only [applyOperations, bind_eq_ok] at h
  obtain ⟨_, _, _, _, _, _, _, _, _, _, h⟩ := h
  clear * - hstep hok h
  induction ops generalizing s with
  | nil =>
    cases h
    rfl
  | cons op ops ih =>
    rw [List.foldlM_cons, bind_eq_ok] at h
    obtain ⟨s₁, hs₁, h⟩ := h
    obtain ⟨hop, hrest⟩ := hok
    rw [hs₁] at hrest
    rw [ih hrest h, hstep s s₁ op hop hs₁]

theorem chain_apply {fc : Fc Json} {R : S → P → Prop} {o : CustomOperation}
    (hstep : ∀ s s' op, R s op → i.evaluate s op = .ok s' → f s' = f s)
    {s s' : S}
    (hok : ∀ ops, i.parse fc o = some ops → TransitionSystem.Along i.evaluate R s ops)
    (h : i.apply fc s o = .ok s') : f s' = f s := by
  simp only [apply, bind_eq_ok, get_eq_ok] at h
  obtain ⟨ops, hparse, h⟩ := h
  exact chain_applyOperations hstep (hok ops hparse) h

end Interpreter

variable {W Json : Type} (lib : Library Json)

section custom

variable (config : NodeConfig) {db db' : NodeDatabase W}

/-- The groups that a custom operation creates, where the node has the plugin, cost nothing. -/
def NodeDatabase.FreeCustom (db : NodeDatabase W) (o : CustomOperation) : Prop :=
  o.id = privateMessageName → ∀ plugin, config.privateMessage = some plugin → ∀ ops,
    (plugin.interpreter (W := W) lib).parse lib.toFc o = some ops →
      TransitionSystem.Along (plugin.interpreter lib).evaluate
        PrivateMessageDatabase.FreeOperation db.toPrivateMessageDatabase ops

variable {lib config}

theorem chain_interpret {o : CustomOperation} (hfree : db.FreeCustom lib config o)
    (h : db.interpret lib config o = some (.ok db')) : db'.chain = db.chain := by
  unfold NodeDatabase.interpret at h
  split at h
  . next hid =>
    obtain ⟨plugin, hplugin, h⟩ := Option.map_eq_some_iff.mp h
    obtain ⟨p, happly, rfl⟩ := map_eq_ok.mp h
    refine Interpreter.chain_apply (f := PrivateMessageDatabase.chain) ?_
      (hfree hid plugin hplugin) happly
    intro p p' op hop hp'
    exact PrivateMessageDatabase.chain_apply hop hp'
  . split at h
    . obtain ⟨maxFeedSize, _, h⟩ := Option.map_eq_some_iff.mp h
      obtain ⟨f, happly, rfl⟩ := map_eq_ok.mp h
      refine Interpreter.chain_apply (f := FollowDatabase.chain) (R := fun _ _ => True) ?_
        (fun ops _ => .of_forall (fun _ _ => trivial) _ ops) happly
      intro f f' op _ hf'
      exact FollowDatabase.chain_apply hf'
    . split at h
      . obtain ⟨settings, _, h⟩ := Option.map_eq_some_iff.mp h
        obtain ⟨n, happly, rfl⟩ := map_eq_ok.mp h
        refine Interpreter.chain_apply (f := AccountNotesDatabase.chain) (R := fun _ _ => True) ?_
          (fun ops _ => .of_forall (fun _ _ => trivial) _ ops) happly
        intro n n' op _ hn'
        exact AccountNotesDatabase.chain_setValue hn'
      . cases h

/-- Where groups cost nothing, every custom operation is free. -/
theorem freeCustom_of_cost {o : CustomOperation}
    (hcost : db.chain.medianProps.privateGroupCost.amount = 0) : db.FreeCustom lib config o := by
  intro _ plugin _ ops hparse
  clear hparse
  have halong : ∀ p : PrivateMessageDatabase W,
      p.chain.medianProps.privateGroupCost.amount = 0 →
        TransitionSystem.Along (plugin.interpreter lib).evaluate
          PrivateMessageDatabase.FreeOperation p ops := by
    induction ops with
    | nil => exact fun _ _ => trivial
    | cons op ops ih =>
      intro p hp
      have hop : p.FreeOperation op := fun _ => hp
      refine ⟨hop, ?_⟩
      split
      . next p' hp' =>
        apply ih
        rw [PrivateMessageDatabase.chain_apply hop hp']
        exact hp
      . trivial
  exact halong db.toPrivateMessageDatabase hcost

/-- While a block is applied, a custom operation does not fail. -/
theorem custom_eq_ok {o : CustomOperation} (hfree : db.FreeCustom lib config o) :
    ∃ db', db.custom lib config false o = .ok db' ∧ db'.chain = db.chain := by
  unfold NodeDatabase.custom
  split
  . exact ⟨db, rfl, rfl⟩
  . next db' heq => exact ⟨db', rfl, chain_interpret hfree heq⟩
  . exact ⟨db, rfl, rfl⟩

end custom

section run

variable (config : NodeConfig)

/-- The groups that are created in a run of a piece of code cost nothing. -/
def ChainProgram.Free : ChainProgram W → NodeDatabase W → Prop
  | done _, _ => True
  | custom o chain next, db =>
    (db.setChain chain).FreeCustom lib config o ∧
      match (db.setChain chain).custom lib config false o with
      | .ok db' => (next db'.chain).Free db'
      | .error _ => True
  | session body next, db =>
    body.Free db ∧
      match body.run lib config false db with
      | .ok db' => (next (.ok db'.chain)).Free db'
      | .error e => (next (.error e)).Free db

/-- The groups that are created by blocks cost nothing. -/
def ChainCode.FreeBlocks {O T B : Type} (code : ChainCode W O T B) (db : NodeDatabase W) :
    List (NodeBlock O T B) → Prop
  | [] => True
  | b :: blocks =>
    (code.applyBlock b db.chain).Free lib config db ∧
      FreeBlocks code (code.pushBlock lib config db b) blocks

variable {lib} {config config' : NodeConfig} {db db' : NodeDatabase W}

/-- Two nodes that run one piece of code end with one chain, or fail alike. -/
theorem chain_run (p : ChainProgram W) (hfree : p.Free lib config db)
    (hfree' : p.Free lib config' db') :
    (p.run lib config false db).map (·.chain) = (p.run lib config' false db').map (·.chain) := by
  induction p generalizing db db' with
  | done result =>
    cases result with
    | ok chain => rfl
    | error e => rfl
  | custom o chain next ih =>
    unfold ChainProgram.Free at hfree hfree'
    obtain ⟨hcustom, hnext⟩ := hfree
    obtain ⟨hcustom', hnext'⟩ := hfree'
    obtain ⟨db₁, hdb₁, hchain⟩ := custom_eq_ok hcustom
    obtain ⟨db₁', hdb₁', hchain'⟩ := custom_eq_ok hcustom'
    rw [hdb₁] at hnext
    rw [hdb₁'] at hnext'
    unfold ChainProgram.run
    rw [hdb₁, hdb₁']
    -- both leave the chain that the code gave them
    dsimp only at hnext hnext' ⊢
    rw [NodeDatabase.chain_setChain] at hchain hchain'
    rw [hchain] at hnext ⊢
    rw [hchain'] at hnext' ⊢
    exact ih chain hnext hnext'
  | session body next ihbody ihnext =>
    unfold ChainProgram.Free at hfree hfree'
    obtain ⟨hbody, hnext⟩ := hfree
    obtain ⟨hbody', hnext'⟩ := hfree'
    have hsame := ihbody hbody hbody'
    unfold ChainProgram.run
    cases hrun : body.run lib config false db with
    | ok db₁ =>
      rw [hrun] at hsame hnext
      obtain ⟨db₁', hrun', hchain⟩ := map_eq_ok.mp hsame.symm
      rw [hrun'] at hnext' ⊢
      dsimp only at hnext hnext' ⊢
      rw [hchain] at hnext' ⊢
      exact ihnext _ hnext hnext'
    | error e =>
      rw [hrun] at hsame hnext
      cases hrun' : body.run lib config' false db' with
      | ok db₁' =>
        rw [hrun'] at hsame
        cases hsame
      | error e' =>
        rw [hrun'] at hsame hnext'
        cases hsame
        exact ihnext _ hnext hnext'

variable {O T B : Type} {code : ChainCode W O T B}

theorem chain_pushBlock {b : NodeBlock O T B} (hchain : db.chain = db'.chain)
    (hfree : (code.applyBlock b db.chain).Free lib config db)
    (hfree' : (code.applyBlock b db'.chain).Free lib config' db') :
    (code.pushBlock lib config db b).chain = (code.pushBlock lib config' db' b).chain := by
  have hrun := chain_run (code.applyBlock b db.chain) hfree (by rw [hchain]; exact hfree')
  unfold ChainCode.pushBlock
  rw [← hchain]
  cases h : (code.applyBlock b db.chain).run lib config false db with
  | ok db₁ =>
    rw [h] at hrun
    obtain ⟨db₁', hdb₁', heq⟩ := map_eq_ok.mp hrun.symm
    rw [hdb₁']
    exact heq.symm
  | error e =>
    rw [h] at hrun
    cases h' : (code.applyBlock b db.chain).run lib config' false db' with
    | ok db₁' =>
      rw [h'] at hrun
      cases hrun
    | error e' => exact hchain

/--
Nodes with any plugins and settings keep the same objects of the chain over the same blocks, unless
a group is created for a cost.
-/
theorem chain_independent_of_plugins (blocks : List (NodeBlock O T B))
    (hchain : db.chain = db'.chain) (hfree : code.FreeBlocks lib config db blocks)
    (hfree' : code.FreeBlocks lib config' db' blocks) :
    (code.pushBlocks lib config db blocks).chain =
      (code.pushBlocks lib config' db' blocks).chain := by
  induction blocks generalizing db db' with
  | nil => exact hchain
  | cons b blocks ih =>
    obtain ⟨hblock, hrest⟩ := hfree
    obtain ⟨hblock', hrest'⟩ := hfree'
    exact ih (chain_pushBlock hchain hblock hblock') hrest hrest'

end run

section runs

/-- A custom operation that creates a group. -/
def groupJson : String :=
  "[\"private_group\",\x7b\"creator\":\"alice\",\"name\":\"friends\"\x7d]"

def groupOptions : String :=
  "\x7b\"creator\":\"alice\",\"name\":\"friends\"\x7d"

/-- The parts of the library that work on texts, as far as this one text needs them. -/
def groupLibrary : Library String where
  accountLess a b := a < b
  isUtf8 _ := true
  hash64 _ := 0
  isValid _ := true
  fromString text := some text
  toString v := v
  getArray v := if v = groupJson then some ["\"private_group\"", groupOptions] else none
  getObject _ := none
  isNull _ := false
  asString v := some v
  ofTexts _ := "[]"
  ofObject _ := "\x7b\x7d"
  privateMessage :=
    { fromVariant := fun v =>
        if v = groupJson then
          some (.privateGroup { creator := "alice", name := "friends" })
        else
          none
      unpack := fun _ => none
      unpackList := fun _ => none }
  follow := ⟨fun _ => none, fun _ => none, fun _ => none⟩
  accountNotes := ⟨fun _ => none, fun _ => none, fun _ => none⟩

/-- Code that does nothing but apply custom operations. -/
def customCode : ChainCode Unit Unit Unit Unit where
  startBlock _ chain := .done (.ok chain)
  startTransaction _ chain := .done (.ok chain)
  evaluate _ chain := .done (.ok chain)
  endBlock _ chain := .done (.ok chain)

def groupChain (cost : ℤ) : ChainDatabase Unit where
  ledger := { accounts := ⟨[{ name := "alice", sbdBalance := 5000 }, { name := "workers" }], by
    decide⟩ }
  medianProps := { privateGroupCost := ⟨cost, sbdSymbol⟩ }
  lastHardfork := 30
  world := ()

def groupBlock : NodeBlock Unit Unit Unit where
  block := ()
  transactions :=
    [{ transaction := ()
       operations := [.custom (.customJson
        { requiredAuths := ["alice"]
          requiredPostingAuths := []
          id := "private_message"
          json := groupJson })] }]

def groupNode (cost : ℤ) : NodeDatabase Unit :=
  { chain := groupChain cost }

def withMessages : NodeConfig where
  privateMessage := some {}

/-- What the workers' pool holds of GBG. -/
def workersHold (db : NodeDatabase Unit) : Option ℤ :=
  (db.chain.ledger.accounts.find? workerPoolAccount).map (·.sbdBalance)

/-- The cost of a group is paid on the nodes that have the plugin only. -/
theorem cost_splits_chain :
    ¬∀ (lib : Library String) (code : ChainCode Unit Unit Unit Unit) (config config' : NodeConfig)
      (db : NodeDatabase Unit) (blocks : List (NodeBlock Unit Unit Unit)),
        (code.pushBlocks lib config db blocks).chain =
          (code.pushBlocks lib config' db blocks).chain := by
  intro h
  have hchain := h groupLibrary customCode {} withMessages (groupNode 1000) [groupBlock]
  have : workersHold (customCode.pushBlocks groupLibrary {} (groupNode 1000) [groupBlock]) =
      workersHold (customCode.pushBlocks groupLibrary withMessages (groupNode 1000) [groupBlock]) := by
    unfold workersHold
    rw [hchain]
  revert this
  decide +kernel

/-- Where groups cost nothing, the same block leaves the chain alike, and makes a group on one node. -/
theorem free_group_keeps_chain :
    (customCode.pushBlocks groupLibrary {} (groupNode 0) [groupBlock]).chain =
        (customCode.pushBlocks groupLibrary withMessages (groupNode 0) [groupBlock]).chain ∧
      (customCode.pushBlocks groupLibrary withMessages (groupNode 0) [groupBlock]).groups.rows.length =
        1 := by
  have hfree : ∀ config : NodeConfig,
      customCode.FreeBlocks groupLibrary config (groupNode 0) [groupBlock] := by
    intro config
    have hcost : ((groupNode 0).setChain (groupChain 0)).chain.medianProps.privateGroupCost.amount =
        0 := rfl
    have hblock : (customCode.applyBlock groupBlock (groupNode 0).chain).Free groupLibrary config
        (groupNode 0) := by
      unfold ChainCode.applyBlock groupBlock
      simp only [customCode, ChainProgram.bind, ChainProgram.each, ChainCode.applyTransaction,
        ChainCode.applyOperation, ChainProgram.Free]
      refine ⟨freeCustom_of_cost hcost, ?_⟩
      split
      . trivial
      . trivial
    exact ⟨hblock, trivial⟩
  exact ⟨chain_independent_of_plugins [groupBlock] rfl (hfree {}) (hfree withMessages),
    by decide +kernel⟩

end runs

end Golos
