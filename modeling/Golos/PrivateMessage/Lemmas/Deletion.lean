import Golos.PrivateMessage.Impl.Evaluators

/-!
This module contains what the evaluators of the plugin `private_message` leave as it is, and which
messages `private_delete_message` removes.
-/

namespace Golos

open Checked

namespace PrivateMessageDatabase

variable {W Json : Type} {fc : Fc Json} {plugin : PrivateMessagePlugin}
  {db db' db'' : PrivateMessageDatabase W}

/-- The chain and the record of removals are as before. -/
structure Frame (db db' : PrivateMessageDatabase W) : Prop where
  chain : db'.chain = db.chain
  removals : db'.removals = db.removals

/-- Only the counters of contacts are not as before. -/
structure CountsOnly (db db' : PrivateMessageDatabase W) : Prop extends Frame db db' where
  messages : db'.messages = db.messages
  groups : db'.groups = db.groups
  members : db'.members = db.members

theorem Frame.refl (db : PrivateMessageDatabase W) : Frame db db :=
  ⟨rfl, rfl⟩

theorem Frame.trans (h : Frame db db') (h' : Frame db' db'') : Frame db db'' :=
  ⟨h'.chain.trans h.chain, h'.removals.trans h.removals⟩

theorem CountsOnly.refl (db : PrivateMessageDatabase W) : CountsOnly db db :=
  ⟨.refl db, rfl, rfl, rfl⟩

theorem CountsOnly.trans (h : CountsOnly db db') (h' : CountsOnly db' db'') : CountsOnly db db'' where
  toFrame := h.toFrame.trans h'.toFrame
  messages := h'.messages.trans h.messages
  groups := h'.groups.trans h.groups
  members := h'.members.trans h.members

section message

theorem frame_storeMessage {o : PrivateMessageOperation} {group : String}
    {mentions : List AccountName} (h : db.storeMessage o group mentions = .ok db') :
    Frame db db' := by
  have hcreate : ∀ db₁ : PrivateMessageDatabase W, Frame db db₁ →
      db₁.createMessage o group mentions = .ok db' → Frame db db' := by
    intro db₁ hframe hdb'
    simp only [createMessage, bind_eq_ok, get_eq_ok, pure_eq_ok] at hdb'
    obtain ⟨messages, _, rfl⟩ := hdb'
    exact hframe.trans ⟨rfl, rfl⟩
  unfold storeMessage at h
  split at h
  . split at h
    . simp only [bind_eq_ok] at h
      obtain ⟨_, _, _, _, _, _, h⟩ := h
      refine hcreate _ ?_ h
      exact ⟨rfl, rfl⟩
    . exact hcreate db (.refl db) h
  . cases h
    exact ⟨rfl, rfl⟩

theorem frame_modifySize {owner : AccountName} {type : PrivateContactType}
    {unreadOutbox isNewContact isSend isMention : Bool}
    (h : db.modifySize owner type unreadOutbox isNewContact isSend isMention = .ok db') :
    Frame db db' := by
  unfold modifySize at h
  split at h
  . simp only [bind_eq_ok, get_eq_ok, pure_eq_ok] at h
    obtain ⟨sizes, _, rfl⟩ := h
    exact ⟨rfl, rfl⟩
  . cases h
    exact ⟨rfl, rfl⟩

theorem frame_countContact {owner : AccountName} {contact : String} {kind : ContactKind}
    {unreadOutbox isSend isMention : Bool}
    (h : db.countContact owner contact kind unreadOutbox isSend isMention = .ok db') :
    Frame db db' := by
  unfold countContact at h
  split at h
  . have hsize := frame_modifySize h
    exact ⟨hsize.chain, hsize.removals⟩
  . simp only [bind_eq_ok, get_eq_ok] at h
    obtain ⟨contacts, _, h⟩ := h
    have hsize := frame_modifySize h
    exact ⟨hsize.chain, hsize.removals⟩

theorem frame_countContacts {o : PrivateMessageOperation} {group : String}
    {mentions : List AccountName} (h : db.countContacts o group mentions = .ok db') :
    Frame db db' := by
  unfold countContacts at h
  split at h
  . rw [bind_eq_ok] at h
    obtain ⟨db₁, hfrom, hto⟩ := h
    exact (frame_countContact hfrom).trans (frame_countContact hto)
  . simp only [bind_eq_ok] at h
    obtain ⟨db₁, hfrom, h⟩ := h
    have hfrom := frame_countContact hfrom
    -- every mention counts on top of the contacts of the message
    have hmentions : ∀ db₂, Frame db db₂ → (mentions.filter fun men => o.toAccount ≠ men).foldlM
        (fun db men => db.countContact men group .group (o.toAccount ≠ "") false true) db₂ =
          .ok db' → Frame db db' := by
      intro db₂ hdb₂ hfold
      refine foldlM_invariant (P := fun d _ => Frame db d) ?_ hdb₂ hfold
      intro d d' men _ hd hcount
      exact hd.trans (frame_countContact hcount)
    split at h
    . rw [bind_eq_ok] at h
      obtain ⟨db₂, hto, h⟩ := h
      exact hmentions db₂ (hfrom.trans (frame_countContact hto)) h
    . exact hmentions db₁ hfrom h

theorem frame_privateMessage {o : PrivateMessageOperation}
    (h : db.privateMessage plugin o = .ok db') : Frame db db' := by
  unfold privateMessage at h
  split at h
  . cases h
    exact .refl _
  . simp only [bind_eq_ok] at h
    obtain ⟨_, _, _, _, _, _, _, _, _, _, _, _, db₁, hstore, h⟩ := h
    have hstored := frame_storeMessage hstore
    split at h
    . cases h
      exact hstored
    . exact hstored.trans (frame_countContacts h)

end message

section processing

variable {q : MessageQuery} {action : Processing W → MessageObject → Processing W}

/-- What every action keeps is kept by a call of `process_private_messages`. -/
theorem along_invariant {P : Processing W → Prop} (hstep : ∀ s m, P s → P (action s m))
    {s : Processing W} (hs : P s) (d : Direction) : P (s.along q action d).1 := by
  unfold Processing.along
  generalize s.db.messagesOf q d = l
  induction l generalizing s with
  | nil => exact hs
  | cons m l ih => exact ih (hstep s m hs)

theorem alongAll_invariant {P : Processing W → Prop} (hstep : ∀ s m, P s → P (action s m))
    {s : Processing W} (hs : P s) (ds : List Direction) : P (s.alongAll q action ds).1 := by
  induction ds generalizing s with
  | nil => exact hs
  | cons d ds ih =>
    apply ih
    exact along_invariant hstep hs d

/-- The same for the first half of `process_group_message_operation`. -/
theorem process_invariant {P : Processing W → Prop} {group : String} {requester : AccountName}
    {noMsgs : Processing W → Option (Processing W)} {deleteContact : Bool}
    (hstep : ∀ s m, P s → P (action s m)) (hnoMsgs : ∀ s s', P s → noMsgs s = some s' → P s')
    {s s' : Processing W} (hs : P s)
    (h : s.process q group requester action noMsgs deleteContact = .ok s') : P s' := by
  unfold Processing.process at h
  split at h
  . split at h
    . exact hnoMsgs s s' hs (get_eq_ok.mp h)
    . cases h
      exact hstep _ _ hs
  . have hall := alongAll_invariant (q := q) hstep hs (q.directions group requester deleteContact)
    dsimp only at h
    split at h
    . cases h
      exact hall
    . exact hnoMsgs _ s' hall (get_eq_ok.mp h)

theorem countsOnly_settleContacts {map : StatMap}
    {contactAction : PrivateMessageDatabase W → ContactObject → ContactSizeObject →
      ContactSizeInfo → Result (PrivateMessageDatabase W × Bool)}
    (haction : ∀ db contact sizes size db' done,
      contactAction db contact sizes size = .ok (db', done) → CountsOnly db db')
    (h : db.settleContacts map contactAction = .ok db') : CountsOnly db db' := by
  refine foldlM_invariant (P := fun d _ => CountsOnly db d) ?_ (.refl db) h
  rintro d d' ⟨key, size⟩ _ hd hturn
  simp only [bind_eq_ok] at hturn
  obtain ⟨contact, _, sizes, _, ⟨d₁, done⟩, hact, hturn⟩ := hturn
  have hd₁ := hd.trans (haction _ _ _ _ _ _ hact)
  split at hturn
  . cases hturn
    exact hd₁
  . cases hturn
    exact hd₁.trans ⟨⟨rfl, rfl⟩, rfl, rfl, rfl⟩

theorem countsOnly_deleteContactAction {o : PrivateDeleteMessageOperation}
    {contact : ContactObject} {sizes : ContactSizeObject} {size : ContactSizeInfo} {done : Bool}
    (h : deleteContactAction o db contact sizes size = .ok (db', done)) : CountsOnly db db' := by
  unfold deleteContactAction at h
  split at h
  . simp only [bind_eq_ok, pure_eq_ok] at h
    obtain ⟨_, _, heq⟩ := h
    cases heq
    exact .refl _
  . split at h
    . cases h
      exact .refl _
    . dsimp only at h
      split at h
      . cases h
        exact ⟨⟨rfl, rfl⟩, rfl, rfl, rfl⟩
      . cases h
        exact ⟨⟨rfl, rfl⟩, rfl, rfl, rfl⟩

theorem frame_markAction {options : PrivateGroupOptions} {s : Processing W} {m : MessageObject}
    (h : Frame db s.db) : Frame db (markAction fc options s m).db := by
  unfold markAction
  dsimp only
  split
  . split
    . exact h.trans ⟨rfl, rfl⟩
    . exact h
  . split
    . exact h.trans ⟨rfl, rfl⟩
    . exact h

theorem frame_privateMarkMessage {o : PrivateMarkMessageOperation}
    (h : db.privateMarkMessage fc plugin o = .ok db') : Frame db db' := by
  unfold privateMarkMessage at h
  split at h
  . cases h
    exact .refl _
  . simp only [bind_eq_ok, pure_eq_ok] at h
    obtain ⟨_, _, s, hprocess, db₁, hsettle, _, _, rfl⟩ := h
    have hs : Frame db s.db := by
      refine process_invariant (P := fun s => Frame db s.db) ?_ ?_ (.refl db) hprocess
      . intro s m
        exact frame_markAction
      . intro s s' _ hnone
        cases hnone
    refine hs.trans (countsOnly_settleContacts ?_ hsettle).toFrame
    intro db contact sizes size db' done hact
    cases hact
    exact .refl _

theorem chain_privateDeleteMessage {o : PrivateDeleteMessageOperation}
    (h : db.privateDeleteMessage fc plugin o = .ok db') : db'.chain = db.chain := by
  unfold privateDeleteMessage at h
  split at h
  . cases h
    rfl
  . simp only [bind_eq_ok] at h
    obtain ⟨_, _, s, hprocess, hsettle⟩ := h
    have hs : s.db.chain = db.chain := by
      refine process_invariant (P := fun s => s.db.chain = db.chain) ?_ ?_ rfl hprocess
      . intro s m hs
        exact hs
      . intro s s' hs hnoMsgs
        unfold deleteNoMsgs at hnoMsgs
        split at hnoMsgs
        . cases hnoMsgs
          exact hs
        . cases hnoMsgs
    rw [← hs]
    exact (countsOnly_settleContacts (fun _ _ _ _ _ _ => countsOnly_deleteContactAction) hsettle).chain

end processing

section groups

theorem frame_updateGroup {o : PrivateGroupOperation} {pgo : PrivateGroupObject}
    (h : db.updateGroup o pgo = .ok db') : Frame db db' := by
  simp only [updateGroup, bind_eq_ok, pure_eq_ok] at h
  obtain ⟨_, _, _, _, _, _, rfl⟩ := h
  exact ⟨rfl, rfl⟩

theorem removals_createGroup {o : PrivateGroupOperation} (h : db.createGroup o = .ok db') :
    db'.removals = db.removals := by
  simp only [createGroup, bind_eq_ok, pure_eq_ok] at h
  obtain ⟨db₁, hpay, _, _, _, _, groups, _, rfl⟩ := h
  unfold payGroupCost at hpay
  dsimp only at hpay
  split at hpay
  . simp only [bind_eq_ok, pure_eq_ok] at hpay
    obtain ⟨_, _, _, _, _, _, _, _, _, _, _, _, rfl⟩ := hpay
    rfl
  . cases hpay
    rfl

/-- A group that costs nothing is created without a change of the chain. -/
theorem frame_createGroup {o : PrivateGroupOperation}
    (hcost : db.chain.medianProps.privateGroupCost.amount = 0) (h : db.createGroup o = .ok db') :
    Frame db db' := by
  simp only [createGroup, bind_eq_ok, pure_eq_ok] at h
  obtain ⟨db₁, hpay, _, _, _, _, groups, _, rfl⟩ := h
  unfold payGroupCost at hpay
  dsimp only at hpay
  rw [if_neg (not_not.mpr hcost)] at hpay
  cases hpay
  exact ⟨rfl, rfl⟩

theorem frame_privateGroupDelete {o : PrivateGroupDeleteOperation}
    (h : db.privateGroupDelete o = .ok db') : Frame db db' := by
  simp only [privateGroupDelete, bind_eq_ok, pure_eq_ok] at h
  obtain ⟨_, _, pgo, _, _, _, rfl⟩ := h
  exact ⟨rfl, rfl⟩

theorem frame_privateGroupMember {o : PrivateGroupMemberOperation}
    (h : db.privateGroupMember o = .ok db') : Frame db db' := by
  simp only [privateGroupMember, bind_eq_ok] at h
  obtain ⟨_, _, _, _, pgo, _, _, _, h⟩ := h
  split at h
  . cases h
    exact ⟨rfl, rfl⟩
  . simp only [bind_eq_ok, pure_eq_ok] at h
    obtain ⟨members, _, rfl⟩ := h
    exact ⟨rfl, rfl⟩

end groups

end PrivateMessageDatabase

namespace PrivateMessageDatabase

variable {W Json : Type} {fc : Fc Json} {plugin : PrivateMessagePlugin}
  {db db' : PrivateMessageDatabase W} {o : PrivateDeleteMessageOperation}

/-- The messages that the operation goes through: its own nonce, or its range of an index. -/
def Selects (o : PrivateDeleteMessageOperation) (m : MessageObject) : Prop :=
  if o.nonce ≠ 0 then
    m.byNonce = (o.group, o.fromAccount, o.toAccount, o.nonce)
  else
    ∃ d ∈ o.query.directions o.group o.requester o.deleteContact.isSome,
      d.Matches m ∧ o.query.Covers (d.date m)

/-- The state in which the messages with `p` are removed and recorded. -/
structure Deleted (db db' : PrivateMessageDatabase W) (requester : AccountName)
    (p : MessageObject → Prop) : Prop where
  groups : db'.groups = db.groups
  members : db'.members = db.members
  messages : ∀ m, m ∈ db'.messages.rows ↔ m ∈ db.messages.rows ∧ ¬p m
  removals : ∀ r, r ∈ db'.removals ↔
    r ∈ db.removals ∨ ∃ m ∈ db.messages.rows, p m ∧ r = ⟨requester, m, db.groups, db.members⟩

theorem Deleted.refl (db : PrivateMessageDatabase W) (requester : AccountName) :
    Deleted db db requester fun _ => False where
  groups := rfl
  members := rfl
  messages := by simp
  removals := by simp

theorem Deleted.congr {requester : AccountName} {p p' : MessageObject → Prop}
    (h : Deleted db db' requester p) (hp : ∀ m ∈ db.messages.rows, p m ↔ p' m) :
    Deleted db db' requester p' where
  groups := h.groups
  members := h.members
  messages := by
    intro m
    rw [h.messages]
    constructor
    . rintro ⟨hm, hnot⟩
      exact ⟨hm, fun hm' => hnot ((hp m hm).mpr hm')⟩
    . rintro ⟨hm, hnot⟩
      exact ⟨hm, fun hm' => hnot ((hp m hm).mp hm')⟩
  removals := by
    intro r
    rw [h.removals]
    constructor
    . rintro (hr | ⟨m, hm, hpm, rfl⟩)
      . exact .inl hr
      . exact .inr ⟨m, hm, (hp m hm).mp hpm, rfl⟩
    . rintro (hr | ⟨m, hm, hpm, rfl⟩)
      . exact .inl hr
      . exact .inr ⟨m, hm, (hp m hm).mpr hpm, rfl⟩

theorem Deleted.trans {db'' : PrivateMessageDatabase W} {requester : AccountName}
    {p p' : MessageObject → Prop} (h : Deleted db db' requester p)
    (h' : Deleted db' db'' requester p') : Deleted db db'' requester fun m => p m ∨ p' m where
  groups := h'.groups.trans h.groups
  members := h'.members.trans h.members
  messages := by
    intro m
    rw [h'.messages, h.messages, not_or, and_assoc]
  removals := by
    intro r
    rw [h'.removals, h.removals, h.groups, h.members]
    constructor
    . rintro ((hr | ⟨m, hm, hpm, rfl⟩) | ⟨m, hm, hpm, rfl⟩)
      . exact .inl hr
      . exact .inr ⟨m, hm, .inl hpm, rfl⟩
      . exact .inr ⟨m, ((h.messages m).mp hm).1, .inr hpm, rfl⟩
    . rintro (hr | ⟨m, hm, hpm, rfl⟩)
      . exact .inl (.inl hr)
      . -- a message that the first removes is not there for the second
        by_cases hfirst : p m
        . exact .inl (.inr ⟨m, hm, hfirst, rfl⟩)
        . exact .inr ⟨m, (h.messages m).mpr ⟨hm, hfirst⟩, hpm.resolve_left hfirst, rfl⟩

theorem Deleted.settle {db'' : PrivateMessageDatabase W} {requester : AccountName}
    {p : MessageObject → Prop} (h : Deleted db db' requester p) (h' : CountsOnly db' db'') :
    Deleted db db'' requester p where
  groups := h'.groups.trans h.groups
  members := h'.members.trans h.members
  messages := by
    rw [h'.messages]
    exact h.messages
  removals := by
    rw [h'.removals]
    exact h.removals

section process

variable {requester : AccountName} {group : String}

theorem deleted_removeMessage {m : MessageObject} (hm : m ∈ db.messages.rows) :
    Deleted db (db.removeMessage requester m) requester fun m' => m' = m where
  groups := rfl
  members := rfl
  messages := by
    intro m'
    show m' ∈ (db.messages.erase m.byNonce).rows ↔ _
    rw [Table.mem_erase]
    constructor
    . rintro ⟨hm', hne⟩
      refine ⟨hm', ?_⟩
      rintro rfl
      exact hne rfl
    . rintro ⟨hm', hne⟩
      refine ⟨hm', fun heq => hne ?_⟩
      exact db.messages.mem_rows_inj hm' hm heq
  removals := by
    intro r
    show r ∈ db.removals ++ [_] ↔ _
    rw [List.mem_append, List.mem_singleton]
    constructor
    . rintro (hr | rfl)
      . exact .inl hr
      . exact .inr ⟨m, hm, rfl, rfl⟩
    . rintro (hr | ⟨_, _, rfl, rfl⟩)
      . exact .inl hr
      . exact .inr rfl

theorem deleted_foldl {s : Processing W} {l : List MessageObject}
    (hl : Table.Lists s.db.messages l) :
    Deleted s.db (l.foldl (deleteAction fc requester group) s).db requester fun m => m ∈ l := by
  induction l generalizing s with
  | nil => exact (Deleted.refl s.db requester).congr (by simp)
  | cons m l ih =>
    have hm := Table.mem_of_find? (hl.row m List.mem_cons_self)
    have hfirst : Deleted s.db (deleteAction fc requester group s m).db requester
        fun m' => m' = m := deleted_removeMessage hm
    have hrest : Deleted (deleteAction fc requester group s m).db _ requester _ := ih hl.erase
    apply (hfirst.trans hrest).congr
    intro m' _
    exact List.mem_cons.symm

theorem lists_messagesOf (q : MessageQuery) (d : Direction) :
    Table.Lists db.messages (db.messagesOf q d) :=
  (Table.Lists.filter db.messages _).perm (List.perm_insertionSort _ _)

theorem mem_messagesOf {q : MessageQuery} {d : Direction} {m : MessageObject} :
    m ∈ db.messagesOf q d ↔ m ∈ db.messages.rows ∧ d.Matches m ∧ q.Covers (d.date m) := by
  unfold messagesOf
  rw [(List.perm_insertionSort _ _).mem_iff, List.mem_filter]
  simp

theorem deleted_along {s : Processing W} {q : MessageQuery} {d : Direction} :
    Deleted s.db (s.along q (deleteAction fc requester group) d).1.db requester fun m =>
      d.Matches m ∧ q.Covers (d.date m) := by
  refine (deleted_foldl (lists_messagesOf q d)).congr ?_
  intro m hm
  rw [mem_messagesOf]
  simp [hm]

theorem deleted_alongAll {s : Processing W} {q : MessageQuery} {ds : List Direction} :
    Deleted s.db (s.alongAll q (deleteAction fc requester group) ds).1.db requester fun m =>
      ∃ d ∈ ds, d.Matches m ∧ q.Covers (d.date m) := by
  induction ds generalizing s with
  | nil => exact (Deleted.refl s.db requester).congr (by simp)
  | cons d ds ih =>
    have hfirst : Deleted s.db (s.along q (deleteAction fc requester group) d).1.db requester _ :=
      deleted_along
    have hrest : Deleted (s.along q (deleteAction fc requester group) d).1.db _ requester _ := ih
    apply (hfirst.trans hrest).congr
    intro m _
    simp only [List.mem_cons, exists_eq_or_imp]

theorem deleted_process {s s' : Processing W}
    (h : s.process o.query o.group o.requester
      (deleteAction fc o.requester o.group) (deleteNoMsgs fc o) o.deleteContact.isSome = .ok s') :
    Deleted s.db s'.db o.requester (Selects o) := by
  have hnoMsgs : ∀ {p} (s₁ : Processing W), Deleted s.db s₁.db o.requester p →
      deleteNoMsgs fc o s₁ = some s' → Deleted s.db s'.db o.requester p := by
    intro p s₁ hs₁ hsome
    unfold deleteNoMsgs at hsome
    split at hsome
    . cases hsome
      exact hs₁
    . cases hsome
  unfold Processing.process at h
  split at h
  . next hnonce =>
    have hnonce : o.nonce ≠ 0 := hnonce
    have hselects : ∀ m, Selects o m ↔
        m.byNonce = (o.group, o.fromAccount, o.toAccount, o.nonce) := by
      intro m
      unfold Selects
      rw [if_pos hnonce]
    split at h
    . next hnone =>
      refine hnoMsgs _ ((Deleted.refl s.db o.requester).congr ?_) (get_eq_ok.mp h)
      intro m hm
      rw [hselects, false_iff]
      exact Table.find?_eq_none_iff.mp hnone m hm
    . next m hfind =>
      cases h
      obtain ⟨hm, hkey⟩ := Table.find?_eq_some_iff.mp hfind
      apply (deleted_removeMessage hm).congr
      intro m' hm'
      rw [hselects]
      constructor
      . rintro rfl
        exact hkey
      . intro hkey'
        exact s.db.messages.mem_rows_inj hm' hm (hkey'.trans hkey.symm)
  . next hnonce =>
    have hnonce : ¬o.nonce ≠ 0 := hnonce
    have hall : Deleted s.db
        (s.alongAll o.query (deleteAction fc o.requester o.group) (o.query.directions o.group o.requester
          o.deleteContact.isSome)).1.db
        o.requester (Selects o) := by
      apply deleted_alongAll.congr
      intro m _
      unfold Selects
      rw [if_neg hnonce]
    dsimp only at h
    split at h
    . cases h
      exact hall
    . exact hnoMsgs _ hall (get_eq_ok.mp h)

end process

/-- The accounts of the operation are not among those that the node keeps messages of. -/
def Ignores (plugin : PrivateMessagePlugin) (o : PrivateDeleteMessageOperation) : Prop :=
  !plugin.isTrackedAccount o.fromAccount ∧ !plugin.isTrackedAccount o.toAccount ∧
    !plugin.isTrackedAccount o.requester

theorem privateDeleteMessage_cases (h : db.privateDeleteMessage fc plugin o = .ok db') :
    (Ignores plugin o ∧ db' = db) ∨
      (¬Ignores plugin o ∧ Deleted db db' o.requester (Selects o) ∧
        ∀ options ∈ o.groupOptions,
          db.visitOptions o.requester o.fromAccount options = .ok ()) := by
  unfold privateDeleteMessage at h
  split at h
  . next hignores =>
    cases h
    exact .inl ⟨hignores, rfl⟩
  . next hignores =>
    simp only [bind_eq_ok] at h
    obtain ⟨_, hvisit, s, hprocess, hsettle⟩ := h
    have hdeleted := deleted_process hprocess
    have hcounts := countsOnly_settleContacts
      (fun _ _ _ _ _ _ => countsOnly_deleteContactAction) hsettle
    refine .inr ⟨hignores, hdeleted.settle hcounts, ?_⟩
    intro options hoptions
    unfold PrivateDeleteMessageOperation.groupOptions at hoptions
    rw [List.mem_filterMap] at hoptions
    obtain ⟨extension, hmem, hsome⟩ := hoptions
    have hok := forM_eq_ok.mp hvisit extension hmem
    cases extension with
    | privateGroupOptions options' =>
      cases hsome
      exact hok
    | deleteOptions deleteContact => cases hsome

end PrivateMessageDatabase

end Golos
