import Golos.Lib.Transition
import Golos.PrivateMessage.Lemmas.Deletion

/-!
This module contains who can remove a message of the plugin `private_message`.
-/

namespace Golos

open Checked PrivateMessageDatabase

/-- An owner or a moderator of a group. -/
def Moderates (groups : Table PrivateGroupObject.name)
    (members : Table PrivateGroupMemberObject.byAccountGroup) (account : AccountName)
    (group : String) : Prop :=
  (groups.find? group).map (·.owner) = some account ∨
    (members.find? (account, group)).map (·.memberType) = some .moder

instance (groups : Table PrivateGroupObject.name)
    (members : Table PrivateGroupMemberObject.byAccountGroup) (account : AccountName)
    (group : String) : Decidable (Moderates groups members account group) :=
  inferInstanceAs (Decidable (_ ∨ _))

def Banned (members : Table PrivateGroupMemberObject.byAccountGroup) (account : AccountName)
    (group : String) : Prop :=
  (members.find? (account, group)).map (·.memberType) = some .banned

instance (members : Table PrivateGroupMemberObject.byAccountGroup) (account : AccountName)
    (group : String) : Decidable (Banned members account group) :=
  inferInstanceAs (Decidable (_ = _))

/-- The requester may remove the message. -/
def Removal.Authorised (r : Removal) : Prop :=
  if r.message.group = "" then
    r.requester = r.message.fromAccount ∨ r.requester = r.message.toAccount
  else
    (r.requester = r.message.fromAccount ∨
        Moderates r.groups r.members r.requester r.message.group) ∧
      ¬Banned r.members r.requester r.message.group

instance (r : Removal) : Decidable r.Authorised :=
  inferInstanceAs (Decidable (ite _ _ _))

/-- A message of a range of the inbox or the outbox of the requester. -/
def PrivateDeleteMessageOperation.InBox (o : PrivateDeleteMessageOperation) (m : MessageObject) :
    Prop :=
  (o.toAccount = "" ∧ m.fromAccount = o.requester ∧ o.query.Covers m.outboxCreateDate) ∨
    (o.fromAccount = "" ∧ m.toAccount = o.requester ∧ o.query.Covers m.inboxCreateDate)

/--
Without a nonce, the checks of `private_delete_message` let two things through. Who names a group
empties its range of dates, also of the messages of others. Who names no group, and not both sides
of a conversation, also removes the messages of groups from the inbox and the outbox.
-/
structure PrivateMessageDatabase.Guarded {W : Type} (db : PrivateMessageDatabase W)
    (o : PrivateDeleteMessageOperation) : Prop where
  group : o.nonce = 0 → o.group ≠ "" →
    Moderates db.groups db.members o.requester o.group ∨
      ∀ m ∈ db.messages.rows, m.group = o.group → o.query.Covers m.outboxCreateDate →
        m.fromAccount = o.requester
  box : o.nonce = 0 → o.group = "" → o.fromAccount = "" ∨ o.toAccount = "" →
    ∀ m ∈ db.messages.rows, m.group ≠ "" → o.InBox m →
      (m.fromAccount = o.requester ∨ Moderates db.groups db.members o.requester m.group) ∧
        ¬Banned db.members o.requester m.group

section authority

variable {W Json : Type} {fc : Fc Json} {plugin : PrivateMessagePlugin}
  {db db' : PrivateMessageDatabase W} {o : PrivateDeleteMessageOperation}

/-- What `validate` says of the names. -/
structure PrivateDeleteMessageOperation.Valid (o : PrivateDeleteMessageOperation) : Prop where
  options : (lastOptions o.groupOptions).requester = ""
  requester : o.requester ≠ ""
  groupRange : o.group ≠ "" → o.nonce = 0 → o.fromAccount = ""
  own : o.toAccount ≠ "" ∨ o.fromAccount ≠ "" →
    o.group ≠ "" ∨ o.requester = o.toAccount ∨ o.requester = o.fromAccount
  nonceFrom : o.nonce ≠ 0 → o.fromAccount ≠ ""

theorem PrivateDeleteMessageOperation.valid_of_validate (h : o.validate = .ok ()) : o.Valid := by
  simp only [validate, bind_eq_ok, ensure_eq_ok] at h
  obtain ⟨_, _, _, hoptions, _, _, _, _, _, hrange, _, _, _, _, _, _, _, _, _, hname, _, hown, _, _, _,
    hnonce, _⟩ := h
  exact ⟨hoptions, ne_empty_of_validateAccountName hname, hrange, hown, hnonce⟩

theorem lastOptions_mem {extensions : List PrivateGroupOptions}
    (h : (lastOptions extensions).group ≠ "") : lastOptions extensions ∈ extensions := by
  rcases List.eq_nil_or_concat extensions with rfl | ⟨l, options, rfl⟩
  . exact absurd rfl h
  . unfold lastOptions
    rw [List.getLastD_eq_getLast?, List.concat_eq_append, List.getLast?_concat]
    exact List.mem_append_right _ List.mem_cons_self

/-- What the visitor of the named group has checked of the requester. -/
theorem checked_of_visitOptions (hvalid : o.Valid) (hgroup : o.group ≠ "")
    (hvisit : ∀ options ∈ o.groupOptions,
      db.visitOptions o.requester o.fromAccount options = .ok ()) :
    ¬Banned db.members o.requester o.group ∧
      (o.fromAccount ≠ "" → o.requester ≠ o.fromAccount →
        Moderates db.groups db.members o.requester o.group) := by
  have hok := hvisit _ (lastOptions_mem hgroup)
  simp only [visitOptions, bind_eq_ok, ensure_eq_ok] at hok
  obtain ⟨_, _, pgo, hpgo, _, hbanned, _, _, _, _, hforeign⟩ := hok
  have hname : pgo.name = o.group := Table.key_of_find? (get_eq_ok.mp hpgo)
  rw [if_neg (not_not.mpr hvalid.options), hname] at hbanned
  rw [if_neg (not_not.mpr hvalid.options)] at hforeign
  refine ⟨hbanned, ?_⟩
  intro hfrom hne
  have hmoder := hforeign hfrom hne
  unfold isModer at hmoder
  rw [Bool.or_eq_true, decide_eq_true_eq, decide_eq_true_eq, hname] at hmoder
  rcases hmoder with howner | hmoder
  . left
    show (db.groups.find? (lastOptions o.groupOptions).group).map (·.owner) = _
    rw [get_eq_ok.mp hpgo, Option.map_some, howner]
  . exact .inr hmoder

/-- The record that the operation makes of a message. -/
abbrev PrivateMessageDatabase.removal (db : PrivateMessageDatabase W)
    (o : PrivateDeleteMessageOperation) (m : MessageObject) : Removal :=
  ⟨o.requester, m, db.groups, db.members⟩

/-- With a nonce, the checks are enough. -/
theorem authorised_of_nonce (hvalid : o.Valid) (hnonce : o.nonce ≠ 0)
    (hvisit : ∀ options ∈ o.groupOptions,
      db.visitOptions o.requester o.fromAccount options = .ok ())
    {m : MessageObject} (hm : Selects o m) : (db.removal o m).Authorised := by
  unfold Selects at hm
  rw [if_pos hnonce, Prod.mk.injEq, Prod.mk.injEq, Prod.mk.injEq] at hm
  obtain ⟨hgroup, hfrom, hto, _⟩ := hm
  have hfromAccount := hvalid.nonceFrom hnonce
  unfold Removal.Authorised
  dsimp only
  rw [hgroup, hfrom, hto]
  split
  . next hempty =>
    rcases hvalid.own (.inr hfromAccount) with h | h | h
    . exact absurd hempty h
    . exact .inr h
    . exact .inl h
  . next hnamed =>
    obtain ⟨hbanned, hmoder⟩ := checked_of_visitOptions hvalid hnamed hvisit
    refine ⟨?_, hbanned⟩
    by_cases hown : o.requester = o.fromAccount
    . exact .inl hown
    . exact .inr (hmoder hfromAccount hown)

theorem PrivateDeleteMessageOperation.directions_query (o : PrivateDeleteMessageOperation)
    (group : String) (deleteContact : Bool) :
    o.query.directions group o.requester deleteContact =
      if group ≠ "" then
        [.byGroup group]
      else if o.fromAccount ≠ "" ∧ o.toAccount ≠ "" ∧ o.fromAccount = o.requester then
        .byOutboxAccount group o.fromAccount o.toAccount ::
          if deleteContact then [.byInboxAccount group o.fromAccount o.toAccount] else []
      else if o.fromAccount ≠ "" ∧ o.toAccount ≠ "" then
        [.byInboxAccount group o.toAccount o.fromAccount]
      else if o.fromAccount ≠ "" then
        [.byOutbox o.fromAccount]
      else if o.toAccount ≠ "" then
        [.byInbox o.toAccount]
      else
        [.byInbox o.requester, .byOutbox o.requester] := rfl

theorem selects_group (hnonce : o.nonce = 0) (hgroup : o.group ≠ "") {m : MessageObject} :
    Selects o m ↔ m.group = o.group ∧ o.query.Covers m.outboxCreateDate := by
  unfold Selects
  rw [if_neg (not_not.mpr hnonce), o.directions_query, if_pos hgroup]
  simp only [List.mem_singleton, exists_eq_left]
  rfl

theorem authorised_iff_group (hvalid : o.Valid) (hnonce : o.nonce = 0) (hgroup : o.group ≠ "")
    (hvisit : ∀ options ∈ o.groupOptions,
      db.visitOptions o.requester o.fromAccount options = .ok ()) :
    (∀ m ∈ db.messages.rows, Selects o m → (db.removal o m).Authorised) ↔
      (Moderates db.groups db.members o.requester o.group ∨
        ∀ m ∈ db.messages.rows, m.group = o.group → o.query.Covers m.outboxCreateDate →
          m.fromAccount = o.requester) := by
  obtain ⟨hbanned, _⟩ := checked_of_visitOptions hvalid hgroup hvisit
  have hauthorised : ∀ m : MessageObject, m.group = o.group →
      ((db.removal o m).Authorised ↔ o.requester = m.fromAccount ∨
        Moderates db.groups db.members o.requester o.group) := by
    intro m hm
    unfold Removal.Authorised
    dsimp only
    rw [hm, if_neg hgroup]
    exact and_iff_left hbanned
  constructor
  . intro h
    by_cases hmoder : Moderates db.groups db.members o.requester o.group
    . exact .inl hmoder
    . refine .inr ?_
      intro m hm hin hcovers
      have := (hauthorised m hin).mp (h m hm ((selects_group hnonce hgroup).mpr ⟨hin, hcovers⟩))
      exact (this.resolve_right hmoder).symm
  . intro h m hm hselects
    obtain ⟨hin, hcovers⟩ := (selects_group hnonce hgroup).mp hselects
    rw [hauthorised m hin]
    rcases h with hmoder | hown
    . exact .inr hmoder
    . exact .inl (hown m hm hin hcovers).symm

/-- A conversation has no messages of groups, and the requester is one of its two sides. -/
theorem authorised_of_conversation (hvalid : o.Valid) (hnonce : o.nonce = 0) (hgroup : o.group = "")
    (hfrom : o.fromAccount ≠ "") (hto : o.toAccount ≠ "") {m : MessageObject}
    (hm : Selects o m) : (db.removal o m).Authorised := by
  have hown : o.requester = o.toAccount ∨ o.requester = o.fromAccount :=
    (hvalid.own (.inl hto)).resolve_left (not_not.mpr hgroup)
  unfold Selects at hm
  rw [if_neg (not_not.mpr hnonce), o.directions_query] at hm
  have hnamed : ¬o.group ≠ "" := not_not.mpr hgroup
  obtain ⟨d, hd, hmatches, _⟩ := hm
  have hsides : m.group = "" ∧ (m.fromAccount = o.fromAccount ∧ m.toAccount = o.toAccount ∨
      m.toAccount = o.fromAccount ∧ m.fromAccount = o.toAccount) := by
    rw [if_neg hnamed] at hd
    split at hd
    . rw [List.mem_cons] at hd
      rcases hd with rfl | hd
      . exact ⟨hmatches.1.trans hgroup, .inl hmatches.2⟩
      . split at hd
        . rw [List.mem_singleton] at hd
          subst hd
          exact ⟨hmatches.1.trans hgroup, .inr hmatches.2⟩
        . cases hd
    . rw [if_pos ⟨hfrom, hto⟩, List.mem_singleton] at hd
      subst hd
      exact ⟨hmatches.1.trans hgroup, .inl ⟨hmatches.2.2, hmatches.2.1⟩⟩
  unfold Removal.Authorised
  dsimp only
  rw [if_pos hsides.1]
  rcases hsides.2 with ⟨hf, ht⟩ | ⟨ht, hf⟩
  . rw [hf, ht]
    exact hown.symm
  . rw [hf, ht]
    exact hown

theorem selects_box (hvalid : o.Valid) (hnonce : o.nonce = 0) (hgroup : o.group = "")
    (hside : o.fromAccount = "" ∨ o.toAccount = "") {m : MessageObject} :
    Selects o m ↔ o.InBox m := by
  unfold Selects PrivateDeleteMessageOperation.InBox
  rw [if_neg (not_not.mpr hnonce), o.directions_query]
  have hboth : ¬(o.fromAccount ≠ "" ∧ o.toAccount ≠ "") := by
    rintro ⟨hfrom, hto⟩
    rcases hside with h | h
    . exact hfrom h
    . exact hto h
  rw [if_neg (not_not.mpr hgroup), if_neg (fun h => hboth ⟨h.1, h.2.1⟩), if_neg hboth]
  by_cases hfrom : o.fromAccount = ""
  . by_cases hto : o.toAccount = ""
    . -- both boxes of the requester
      rw [if_neg (not_not.mpr hfrom), if_neg (not_not.mpr hto)]
      simp only [List.mem_cons, List.not_mem_nil, or_false, exists_eq_or_imp, exists_eq_left,
        hfrom, hto, true_and]
      exact Or.comm
    . have hrequester : o.requester = o.toAccount := by
        rcases hvalid.own (.inl hto) with h | h | h
        . exact absurd hgroup h
        . exact h
        . exact absurd (h.trans hfrom) hvalid.requester
      rw [if_neg (not_not.mpr hfrom), if_pos hto, hrequester]
      simp only [List.mem_singleton, exists_eq_left, hfrom, hto, true_and, false_and, false_or]
      rfl
  . have hto : o.toAccount = "" := hside.resolve_left hfrom
    have hrequester : o.requester = o.fromAccount := by
      rcases hvalid.own (.inr hfrom) with h | h | h
      . exact absurd hgroup h
      . exact absurd (h.trans hto) hvalid.requester
      . exact h
    rw [if_pos hfrom, hrequester]
    simp only [List.mem_singleton, exists_eq_left, hfrom, hto, true_and, false_and, or_false]
    rfl

theorem authorised_iff_box (hvalid : o.Valid) (hnonce : o.nonce = 0) (hgroup : o.group = "")
    (hside : o.fromAccount = "" ∨ o.toAccount = "") :
    (∀ m ∈ db.messages.rows, Selects o m → (db.removal o m).Authorised) ↔
      ∀ m ∈ db.messages.rows, m.group ≠ "" → o.InBox m →
        (m.fromAccount = o.requester ∨ Moderates db.groups db.members o.requester m.group) ∧
          ¬Banned db.members o.requester m.group := by
  constructor
  . intro h m hm hin hbox
    have := h m hm ((selects_box hvalid hnonce hgroup hside).mpr hbox)
    unfold Removal.Authorised at this
    dsimp only at this
    rw [if_neg hin] at this
    exact ⟨this.1.imp_left Eq.symm, this.2⟩
  . intro h m hm hselects
    have hbox := (selects_box hvalid hnonce hgroup hside).mp hselects
    unfold Removal.Authorised
    dsimp only
    split
    . rcases hbox with ⟨_, hfrom, _⟩ | ⟨_, hto, _⟩
      . exact .inl hfrom.symm
      . exact .inr hto.symm
    . next hin =>
      obtain ⟨hmay, hbanned⟩ := h m hm hin hbox
      exact ⟨hmay.imp_left Eq.symm, hbanned⟩

/-- An operation that passes the checks removes what it may exactly when it is guarded. -/
theorem authorised_iff_guarded (hvalid : o.Valid)
    (hvisit : ∀ options ∈ o.groupOptions,
      db.visitOptions o.requester o.fromAccount options = .ok ()) :
    (∀ m ∈ db.messages.rows, Selects o m → (db.removal o m).Authorised) ↔ db.Guarded o := by
  by_cases hnonce : o.nonce = 0
  . by_cases hgroup : o.group = ""
    . by_cases hside : o.fromAccount = "" ∨ o.toAccount = ""
      . rw [authorised_iff_box hvalid hnonce hgroup hside]
        constructor
        . intro h
          exact ⟨fun _ hnamed => absurd hgroup hnamed, fun _ _ _ => h⟩
        . intro h
          exact h.box hnonce hgroup hside
      . constructor
        . intro _
          exact ⟨fun _ hnamed => absurd hgroup hnamed, fun _ _ h => absurd h hside⟩
        . intro _ m _ hm
          rw [not_or] at hside
          exact authorised_of_conversation hvalid hnonce hgroup hside.1 hside.2 hm
    . rw [authorised_iff_group hvalid hnonce hgroup hvisit]
      constructor
      . intro h
        exact ⟨fun _ _ => h, fun _ hempty => absurd hempty hgroup⟩
      . intro h
        exact h.group hnonce hgroup
  . constructor
    . intro _
      exact ⟨fun h => absurd h hnonce, fun h => absurd h hnonce⟩
    . intro _ m _ hm
      exact authorised_of_nonce hvalid hnonce hvisit hm

end authority

section system

variable {W Json : Type} (fc : Fc Json)

/-- What can happen to the objects of the plugin: the chain moves on, or an operation is applied. -/
inductive PrivateMessageEvent (W : Type) where
  | chain (chain : ChainDatabase W)
  | operation (plugin : PrivateMessagePlugin) (o : PrivateMessagePluginOperation)

def privateMessageSystem : TransitionSystem (PrivateMessageDatabase W) (PrivateMessageEvent W) where
  initial db := ∃ chain, db = { chain := chain }
  step db event db' :=
    match event with
    | .chain chain => db' = { db with chain := chain }
    | .operation plugin o => o.validate fc = .ok () ∧ db.apply fc plugin o = .ok db'

/-- The deletions that a node does not ignore are guarded. -/
def PrivateMessageDatabase.GuardedEvent (db : PrivateMessageDatabase W) :
    PrivateMessageEvent W → Prop
  | .operation plugin (.privateDeleteMessage o) => Ignores plugin o ∨ db.Guarded o
  | _ => True

variable {fc} {db db' : PrivateMessageDatabase W} {plugin : PrivateMessagePlugin}

theorem removals_privateGroup {o : PrivateGroupOperation} (h : db.privateGroup o = .ok db') :
    db'.removals = db.removals := by
  simp only [privateGroup, bind_eq_ok] at h
  obtain ⟨_, _, h⟩ := h
  split at h
  . exact (frame_updateGroup h).removals
  . exact removals_createGroup h

/-- The other operations record no removal. -/
theorem removals_apply {o : PrivateMessagePluginOperation}
    (ho : ∀ o', o ≠ .privateDeleteMessage o') (h : db.apply fc plugin o = .ok db') :
    db'.removals = db.removals := by
  cases o with
  | privateMessage o => exact (frame_privateMessage h).removals
  | privateDeleteMessage o => exact absurd rfl (ho o)
  | privateMarkMessage o => exact (frame_privateMarkMessage h).removals
  | privateSettings o => cases h
  | privateContact o => cases h
  | privateGroup o => exact removals_privateGroup h
  | privateGroupDelete o => exact (frame_privateGroupDelete h).removals
  | privateGroupMember o => exact (frame_privateGroupMember h).removals

/-- On top of authorised removals, a deletion records authorised ones exactly when it is guarded. -/
theorem authorised_privateDeleteMessage {o : PrivateDeleteMessageOperation}
    (hdb : ∀ r ∈ db.removals, r.Authorised) (hvalidate : o.validate = .ok ())
    (h : db.privateDeleteMessage fc plugin o = .ok db') :
    (∀ r ∈ db'.removals, r.Authorised) ↔ Ignores plugin o ∨ db.Guarded o := by
  rcases privateDeleteMessage_cases h with ⟨hignores, rfl⟩ | ⟨hignores, hdeleted, hvisit⟩
  . exact iff_of_true hdb (.inl hignores)
  . rw [or_iff_right hignores, ← authorised_iff_guarded (PrivateDeleteMessageOperation.valid_of_validate hvalidate) hvisit]
    constructor
    . intro hall m hm hselects
      exact hall _ ((hdeleted.removals _).mpr (.inr ⟨m, hm, hselects, rfl⟩))
    . intro hall r hr
      rcases (hdeleted.removals r).mp hr with hr | ⟨m, hm, hselects, rfl⟩
      . exact hdb r hr
      . exact hall m hm hselects

theorem authorised_of_reach
    (h : (privateMessageSystem fc).Reach PrivateMessageDatabase.GuardedEvent db) :
    ∀ r ∈ db.removals, r.Authorised := by
  apply h.invariant
  . rintro _ ⟨chain, rfl⟩ r hr
    cases hr
  . intro db event db' hdb hguarded hstep
    cases event with
    | chain chain =>
      have hstep : db' = { db with chain := chain } := hstep
      subst hstep
      exact hdb
    | operation plugin o =>
      obtain ⟨hvalidate, happly⟩ := hstep
      by_cases ho : ∃ o', o = .privateDeleteMessage o'
      . obtain ⟨o', rfl⟩ := ho
        exact (authorised_privateDeleteMessage hdb hvalidate happly).mpr hguarded
      . rw [removals_apply (fun o' heq => ho ⟨o', heq⟩) happly]
        exact hdb

/--
A removal is authorised in every run whose deletions are guarded, and the first deletion that is not
guarded makes one that is not.
-/
theorem deletion_authority
    (h : (privateMessageSystem fc).Reach PrivateMessageDatabase.GuardedEvent db) :
    (∀ r ∈ db.removals, r.Authorised) ∧
      ∀ (plugin : PrivateMessagePlugin) (o : PrivateDeleteMessageOperation)
        (db' : PrivateMessageDatabase W), o.validate = .ok () →
          db.privateDeleteMessage fc plugin o = .ok db' →
            ((∀ r ∈ db'.removals, r.Authorised) ↔ Ignores plugin o ∨ db.Guarded o) := by
  have hdb := authorised_of_reach h
  refine ⟨hdb, ?_⟩
  intro plugin o db' hvalidate hdelete
  exact authorised_privateDeleteMessage hdb hvalidate hdelete

end system

section runs

def plainFc : Fc Unit where
  accountLess a b := a < b
  isUtf8 _ := true
  hash64 _ := 0
  isValid _ := true
  fromString _ := none
  toString _ := ""
  getArray _ := none
  getObject _ := none
  isNull _ := true
  asString _ := none
  ofTexts _ := ()
  ofObject _ := ()

def messengerChain : ChainDatabase Unit where
  ledger := { accounts := ⟨[{ name := "alice" }, { name := "bobby" }], by decide⟩ }
  headBlockTime := 1000
  lastHardfork := 30
  world := ()

def friendsGroup : PrivateGroupOperation where
  creator := "alice"
  name := "friends"

/-- A message of the owner to all of the group. -/
def friendsMessage : PrivateMessageOperation where
  fromAccount := "alice"
  toAccount := ""
  nonce := 1
  encryptedMessage := List.replicate 16 0
  extensions := [{ group := "friends" }]

/-- A deletion of all messages of the group until now. -/
def friendsDelete (requester : AccountName) : PrivateDeleteMessageOperation where
  requester := requester
  stopDate := 1000
  extensions := [.privateGroupOptions { group := "friends" }]

def afterGroup : PrivateMessageDatabase Unit :=
  (PrivateMessageDatabase.apply plainFc { chain := messengerChain } {}
    (.privateGroup friendsGroup)).toOption.getD { chain := messengerChain }

def afterMessage : PrivateMessageDatabase Unit :=
  (afterGroup.apply plainFc {} (.privateMessage friendsMessage)).toOption.getD afterGroup

def afterDelete (requester : AccountName) : PrivateMessageDatabase Unit :=
  (afterMessage.apply plainFc {} (.privateDeleteMessage (friendsDelete requester))).toOption.getD
    afterMessage

theorem reach_afterMessage {ok : PrivateMessageDatabase Unit → PrivateMessageEvent Unit → Prop}
    (hok : ∀ db o, (∀ o', o ≠ .privateDeleteMessage o') → ok db (.operation {} o)) :
    (privateMessageSystem plainFc).Reach ok afterMessage := by
  have hinitial : (privateMessageSystem plainFc).Reach ok { chain := messengerChain } :=
    .initial ⟨messengerChain, rfl⟩
  have hgroup : (privateMessageSystem plainFc).Reach ok afterGroup := by
    apply hinitial.step (e := .operation {} (.privateGroup friendsGroup))
    . apply hok
      intro o' h
      cases h
    . exact ⟨by decide +kernel, eq_ok_of_isSome (by decide +kernel)⟩
  apply hgroup.step (e := .operation {} (.privateMessage friendsMessage))
  . apply hok
    intro o' h
    cases h
  . exact ⟨by decide +kernel, eq_ok_of_isSome (by decide +kernel)⟩

theorem step_afterDelete (requester : AccountName)
    (hvalidate : (friendsDelete requester).validate = .ok ())
    (hsome : (afterMessage.apply plainFc {}
      (.privateDeleteMessage (friendsDelete requester))).toOption.isSome = true) :
    (privateMessageSystem plainFc).step afterMessage
      (.operation {} (.privateDeleteMessage (friendsDelete requester))) (afterDelete requester) :=
  ⟨hvalidate, eq_ok_of_isSome hsome⟩

/-- Anybody empties a public group. -/
theorem stranger_empties_group :
    ¬∀ db : PrivateMessageDatabase Unit, (privateMessageSystem plainFc).Reachable db →
      ∀ r ∈ db.removals, r.Authorised := by
  intro h
  have hstep := step_afterDelete "bobby" (by decide +kernel) (by decide +kernel)
  have := h _ (.step (reach_afterMessage fun _ _ _ => trivial) trivial hstep)
  revert this
  decide +kernel

/-- The owner of the group may empty it. -/
theorem owner_empties_group : (∀ r ∈ (afterDelete "alice").removals, r.Authorised) ∧
    (afterDelete "alice").removals.length = 1 := by
  have hguarded : afterMessage.Guarded (friendsDelete "alice") := by
    constructor
    . intro _ _
      exact .inl (by decide +kernel)
    . intro _ hgroup
      exact absurd hgroup (by decide +kernel)
  have hreach : (privateMessageSystem plainFc).Reach PrivateMessageDatabase.GuardedEvent
      afterMessage := by
    apply reach_afterMessage
    intro db o ho
    cases o with
    | privateDeleteMessage o => exact absurd rfl (ho o)
    | _ => trivial
  have hstep := step_afterDelete "alice" (by decide +kernel) (by decide +kernel)
  have hok : afterMessage.GuardedEvent
      (.operation {} (.privateDeleteMessage (friendsDelete "alice"))) := Or.inr hguarded
  refine ⟨(deletion_authority (.step hreach hok hstep)).1, ?_⟩
  decide +kernel

end runs

end Golos
