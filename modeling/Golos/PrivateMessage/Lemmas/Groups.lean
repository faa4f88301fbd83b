import Golos.PrivateMessage.Lemmas.Deletion

/-!
This module contains what the operations on private groups change of the types of members, of the
numbers of members of each type, and of the counters that a group keeps of them.
-/

namespace Golos

open Checked

/-- The types that a group has a counter of. -/
def PrivateGroupMemberType.counted : PrivateGroupMemberType → Bool
  | .retired => false
  | .size => false
  | .other => false
  | _ => true

/-- The counter of a type, which for a type without one is as good as zero. -/
def PrivateGroupObject.counter (type : PrivateGroupMemberType) (pgo : PrivateGroupObject) : UInt32 :=
  match type with
  | .member => pgo.members
  | .pending => pgo.pendings
  | .moder => pgo.moders
  | .banned => pgo.banneds
  | .retired => 0
  | .size => 0
  | .other => 0

namespace PrivateMessageDatabase

variable {W : Type} {db db' : PrivateMessageDatabase W}

theorem counter_count (t type : PrivateGroupMemberType) (d : UInt32) (pgo : PrivateGroupObject)
    (h : t.counted = true) :
    (count type d pgo).counter t = pgo.counter t + if type = t then d else 0 := by
  cases t with
  | retired => cases h
  | size => cases h
  | other => cases h
  | member => cases type <;> simp [count, PrivateGroupObject.counter]
  | pending => cases type <;> simp [count, PrivateGroupObject.counter]
  | moder => cases type <;> simp [count, PrivateGroupObject.counter]
  | banned => cases type <;> simp [count, PrivateGroupObject.counter]

theorem owner_count (type : PrivateGroupMemberType) (d : UInt32) (pgo : PrivateGroupObject) :
    (count type d pgo).owner = pgo.owner := by
  cases type
  all_goals rfl

theorem privacy_count (type : PrivateGroupMemberType) (d : UInt32) (pgo : PrivateGroupObject) :
    (count type d pgo).privacy = pgo.privacy := by
  cases type
  all_goals rfl

/-- The number of members of a type in a group. -/
def number (db : PrivateMessageDatabase W) (type : PrivateGroupMemberType) (group : String) : Nat :=
  db.members.rows.countP fun m => m.memberType = type ∧ m.group = group

/-- The counters of every group are the numbers of its members, in 32 bits; every member is in a group
that it does not own. -/
structure Tallied (db : PrivateMessageDatabase W) : Prop where
  counter : ∀ pgo ∈ db.groups.rows, ∀ type : PrivateGroupMemberType, type.counted = true →
    pgo.counter type = UInt32.ofNat (db.number type pgo.name)
  placed : ∀ m ∈ db.members.rows, ∃ pgo, db.groups.find? m.group = some pgo ∧ m.account ≠ pgo.owner

/-- The group `pgo` becomes `pgo'`, under its name and owner. -/
structure Regroups (db db' : PrivateMessageDatabase W) (pgo pgo' : PrivateGroupObject) : Prop where
  row : db.groups.find? pgo.name = some pgo
  find? : ∀ name, db'.groups.find? name = if name = pgo.name then some pgo' else db.groups.find? name
  name : pgo'.name = pgo.name
  owner : pgo'.owner = pgo.owner

/-- One account changes its type in one group, from `old` to `new`, none being no member. -/
structure Moves (db db' : PrivateMessageDatabase W) (account : AccountName) (pgo : PrivateGroupObject)
    (old new : Option PrivateGroupMemberType) : Prop where
  before : db.memberType account pgo.name = old
  after : ∀ a g, db'.memberType a g =
    if a = account ∧ g = pgo.name then new else db.memberType a g
  number : ∀ t g, db'.number t g + (if old = some t ∧ pgo.name = g then 1 else 0) =
    db.number t g + if new = some t ∧ pgo.name = g then 1 else 0
  rows : ∀ m ∈ db'.members.rows, m ∈ db.members.rows ∨
    (m.account = account ∧ m.group = pgo.name ∧ new = some m.memberType)

theorem memberType_eq_some {account : AccountName} {group : String} {type : PrivateGroupMemberType} :
    db.memberType account group = some type ↔
      ∃ m, db.members.find? (account, group) = some m ∧ m.memberType = type := by
  unfold memberType
  rw [Option.map_eq_some_iff]

theorem Moves.of_inserts {account : AccountName} {pgo : PrivateGroupObject}
    {m : PrivateGroupMemberObject} {type : PrivateGroupMemberType}
    (h : Table.Inserts db.members db'.members m) (hkey : m.byAccountGroup = (account, pgo.name))
    (htype : m.memberType = type) : Moves db db' account pgo none (some type) := by
  subst htype
  obtain ⟨haccount, hgroup⟩ := Prod.mk.inj hkey
  have hfresh := h.fresh
  rw [hkey] at hfresh
  constructor
  . rw [memberType, hfresh, Option.map_none]
  . intro a g
    unfold memberType
    split
    . next heq =>
      rw [heq.1, heq.2, h.find?_eq_some_iff.mpr (.inr ⟨rfl, hkey⟩), Option.map_some]
    . next hne =>
      rw [h.find?_of_ne]
      rw [hkey]
      intro heq
      obtain ⟨ha, hg⟩ := Prod.mk.inj heq
      exact hne ⟨ha.symm, hg.symm⟩
  . intro t g
    have hcount := h.countP fun m => m.memberType = t ∧ m.group = g
    simpa [PrivateMessageDatabase.number, hgroup] using hcount
  . intro m' hm'
    rcases (h.mem m').mp hm' with hm' | rfl
    . exact .inl hm'
    . exact .inr ⟨haccount, hgroup, rfl⟩

theorem Moves.of_erase {account : AccountName} {pgo : PrivateGroupObject}
    {m : PrivateGroupMemberObject} (hm : db.members.find? (account, pgo.name) = some m)
    (hdb' : db'.members = db.members.erase m.byAccountGroup) :
    Moves db db' account pgo (some m.memberType) none := by
  have hkey : m.byAccountGroup = (account, pgo.name) := Table.key_of_find? hm
  obtain ⟨haccount, hgroup⟩ := Prod.mk.inj hkey
  constructor
  . rw [memberType, hm, Option.map_some]
  . intro a g
    unfold memberType
    rw [hdb', hkey]
    split
    . next heq => rw [heq.1, heq.2, Table.find?_erase_self, Option.map_none]
    . next hne =>
      rw [Table.find?_erase_of_ne]
      intro heq
      exact hne (Prod.mk.inj heq)
  . intro t g
    have hcount := (Table.Removes.erase (Table.mem_of_find? hm)).countP
      fun m => m.memberType = t ∧ m.group = g
    rw [← hdb'] at hcount
    simpa [PrivateMessageDatabase.number, hgroup, List.countP_cons] using hcount
  . intro m' hm'
    rw [hdb'] at hm'
    exact .inl (Table.mem_erase.mp hm').1

theorem Moves.of_modify {account : AccountName} {pgo : PrivateGroupObject}
    {m : PrivateGroupMemberObject} {type : PrivateGroupMemberType} {now : Nat}
    (hm : db.members.find? (account, pgo.name) = some m)
    (hdb' : db'.members = db.members.modify m.byAccountGroup
      fun m => { m with memberType := type, updated := now }) :
    Moves db db' account pgo (some m.memberType) (some type) := by
  have hkey : m.byAccountGroup = (account, pgo.name) := Table.key_of_find? hm
  obtain ⟨haccount, hgroup⟩ := Prod.mk.inj hkey
  have hup := Table.Updates.modify (k := m.byAccountGroup)
    (fun m : PrivateGroupMemberObject => { m with memberType := type, updated := now })
    (by rw [hkey, hm])
  rw [← hdb'] at hup
  constructor
  . rw [memberType, hm, Option.map_some]
  . intro a g
    unfold memberType
    rw [hup.find?, hkey]
    by_cases heq : a = account ∧ g = pgo.name
    . rw [if_pos heq, heq.1, heq.2, if_pos rfl, Option.map_some]
    . rw [if_neg heq, if_neg]
      intro h
      exact heq (Prod.mk.inj h)
  . intro t g
    have hcount := hup.countP fun m => m.memberType = t ∧ m.group = g
    simpa [PrivateMessageDatabase.number, hgroup] using hcount
  . intro m' hm'
    rcases (hup.mem_rows rfl).mp hm' with ⟨hm', -⟩ | rfl
    . exact .inl hm'
    . exact .inr ⟨haccount, hgroup, rfl⟩

theorem Regroups.of_modify {pgo : PrivateGroupObject} (f : PrivateGroupObject → PrivateGroupObject)
    (hf : ∀ o, (f o).name = o.name) (h : db.groups.find? pgo.name = some pgo)
    (howner : (f pgo).owner = pgo.owner) (hdb' : db'.groups = db.groups.modify pgo.name f hf) :
    Regroups db db' pgo (f pgo) where
  row := h
  find? := by
    intro name
    rw [hdb', (Table.Updates.modify f h hf).find?]
  name := hf pgo
  owner := howner

/-- The requester is the owner of the group or one of its moderators. -/
def ByModer (db : PrivateMessageDatabase W) (pgo : PrivateGroupObject) (requester : AccountName) :
    Prop :=
  pgo.owner = requester ∨ db.memberType requester pgo.name = some .moder

/-- What the checks of `private_group_member_evaluator` let through. -/
structure Admitted (db : PrivateMessageDatabase W) (o : PrivateGroupMemberOperation)
    (pgo : PrivateGroupObject) : Prop where
  notOwner : o.member ≠ pgo.owner
  member : o.memberType = .member → pgo.privacy ≠ .publicGroup → db.ByModer pgo o.requester
  moder : o.memberType = .moder → pgo.owner = o.requester
  retired : o.memberType = .retired → o.requester = o.member ∧
    db.memberType o.requester pgo.name ≠ none ∧ db.memberType o.requester pgo.name ≠ some .banned
  banned : db.memberType o.member pgo.name = some .banned → db.ByModer pgo o.requester

theorem checkMember_eq_ok {o : PrivateGroupMemberOperation} {pgo : PrivateGroupObject}
    (hname : pgo.name = o.name) (h : db.checkMember o pgo = .ok ()) : Admitted db o pgo := by
  unfold checkMember at h
  simp only [bind_eq_ok, ensure_eq_ok] at h
  obtain ⟨-, hnotOwner, h⟩ := h
  have hbanned : db.memberType o.member o.name = some .banned →
      pgo.owner = o.requester ∨ db.memberType o.requester o.name = some .moder := by
    intro hbanned
    simp only [hbanned] at h
    cases htype : o.memberType with
    | pending =>
      simp only [htype, bind_eq_ok, ensure_eq_ok] at h
      obtain ⟨-, -, -, -, -, -, -, -, -, -, h⟩ := h
      exact h trivial
    | member =>
      simp only [htype, bind_eq_ok, ensure_eq_ok] at h
      obtain ⟨-, -, -, -, -, -, h⟩ := h
      exact h trivial
    | retired =>
      simp only [htype, bind_eq_ok, ensure_eq_ok] at h
      obtain ⟨-, -, -, -, -, -, -, -, -, -, h⟩ := h
      exact h trivial
    | banned =>
      simp only [htype, bind_eq_ok, ensure_eq_ok] at h
      obtain ⟨-, -, -, -, -, -, h⟩ := h
      exact h trivial
    | moder =>
      simp only [htype, bind_eq_ok, ensure_eq_ok] at h
      obtain ⟨-, -, -, -, -, -, h⟩ := h
      exact h trivial
    | size | other =>
      simp only [htype, bind_eq_ok, ensure_eq_ok] at h
      obtain ⟨-, -, -, -, h⟩ := h
      exact h trivial
  refine ⟨hnotOwner, ?_, ?_, ?_, ?_⟩
  . intro htype
    simp only [htype, bind_eq_ok, ensure_eq_ok] at h
    obtain ⟨-, hmember, -⟩ := h
    rwa [← hname] at hmember
  . intro htype
    simp only [htype, bind_eq_ok, ensure_eq_ok] at h
    obtain ⟨-, howner, -⟩ := h
    exact howner
  . intro htype
    simp only [htype, bind_eq_ok, ensure_eq_ok] at h
    obtain ⟨-, hsame, -, hnotBanned, -, hin, -⟩ := h
    rw [hname]
    exact ⟨hsame, hin, hnotBanned⟩
  . rwa [← hname] at hbanned

/-- What the operation makes of its member. -/
def becomes (o : PrivateGroupMemberOperation) : Option PrivateGroupMemberType :=
  if o.memberType = .retired then none else some o.memberType

theorem eq_of_becomes {o : PrivateGroupMemberOperation} {type : PrivateGroupMemberType}
    (h : becomes o = some type) : o.memberType = type := by
  unfold becomes at h
  split at h
  . cases h
  . exact Option.some.inj h

theorem counter_count_becomes {o : PrivateGroupMemberOperation} {t : PrivateGroupMemberType}
    (ht : t.counted = true) (pgo : PrivateGroupObject) :
    (count o.memberType 1 pgo).counter t =
      pgo.counter t + if becomes o = some t then 1 else 0 := by
  unfold becomes
  split
  . next hretired =>
    rw [hretired, if_neg (Option.some_ne_none t).symm, UInt32.add_zero]
    rfl
  . rw [counter_count t _ _ _ ht]
    simp only [Option.some.injEq]

/-- Whom `private_group_member_evaluator` makes what. -/
theorem privateGroupMember_cases {o : PrivateGroupMemberOperation}
    (h : db.privateGroupMember o = .ok db') :
    ∃ pgo pgo', pgo.name = o.name ∧ Admitted db o pgo ∧ Regroups db db' pgo pgo' ∧
      Moves db db' o.member pgo (db.memberType o.member o.name) (becomes o) ∧
      pgo'.privacy = pgo.privacy ∧ ∀ t : PrivateGroupMemberType, t.counted = true →
      pgo'.counter t = pgo.counter t + (if becomes o = some t then 1 else 0) -
        if db.memberType o.member o.name = some t then 1 else 0 := by
  simp only [privateGroupMember, bind_eq_ok, getGroup, get_eq_ok] at h
  obtain ⟨_, _, _, _, pgo, hpgo, _, hcheck, h⟩ := h
  have hname : pgo.name = o.name := Table.key_of_find? hpgo
  have hrow : db.groups.find? pgo.name = some pgo := by rw [hname, hpgo]
  have hadmitted := checkMember_eq_ok hname hcheck
  split at h
  . next m hm =>
    have hold : db.memberType o.member o.name = some m.memberType := by
      rw [memberType, hm, Option.map_some]
    obtain rfl := Except.ok.inj h
    refine ⟨pgo, count m.memberType (-1) (count o.memberType 1 pgo), hname, hadmitted, ?_, ?_, ?_, ?_⟩
    . refine .of_modify (fun pgo => count m.memberType (-1) (count o.memberType 1 pgo)) ?_ hrow ?_ rfl
      . intro pgo
        rw [name_count, name_count]
      . rw [owner_count, owner_count]
    . rw [hold]
      rw [← hname] at hm
      unfold becomes
      split
      . exact .of_erase hm rfl
      . exact .of_modify hm rfl
    . rw [privacy_count, privacy_count]
    . intro t ht
      rw [hold, counter_count t _ _ _ ht, counter_count_becomes ht]
      by_cases htype : m.memberType = t
      . rw [if_pos htype, if_pos (congrArg some htype), UInt32.sub_eq_add_neg]
      . rw [if_neg htype, if_neg (fun h => htype (Option.some.inj h)), UInt32.add_zero,
          UInt32.sub_zero]
  . next hnone =>
    have hold : db.memberType o.member o.name = none := by
      rw [memberType, hnone, Option.map_none]
    have hretired : o.memberType ≠ .retired := by
      intro hretired
      obtain ⟨hsame, hin, -⟩ := hadmitted.retired hretired
      rw [hsame, hname] at hin
      exact hin hold
    simp only [bind_eq_ok, get_eq_ok] at h
    obtain ⟨members, hmembers, h⟩ := h
    obtain rfl := Except.ok.inj h
    refine ⟨pgo, count o.memberType 1 pgo, hname, hadmitted,
      .of_modify _ (name_count o.memberType 1) hrow ?_ rfl, ?_, ?_, ?_⟩
    . rw [owner_count]
    . rw [hold, becomes, if_neg hretired]
      refine .of_inserts (.emplace hmembers) ?_ rfl
      rw [hname]
    . rw [privacy_count]
    . intro t ht
      rw [hold, counter_count_becomes ht, if_neg (Option.some_ne_none t).symm,
        UInt32.sub_zero]

/-- An opening of a group to the public. -/
def Opens (pgo pgo' : PrivateGroupObject) : Prop :=
  pgo.privacy ≠ .publicGroup ∧ pgo'.privacy = .publicGroup

instance (pgo pgo' : PrivateGroupObject) : Decidable (Opens pgo pgo') :=
  inferInstanceAs (Decidable (_ ∧ _))

theorem number_eq_zero_iff {type : PrivateGroupMemberType} {group : String} :
    db.number type group = 0 ↔ ∀ account, db.memberType account group ≠ some type := by
  unfold number
  rw [List.countP_eq_zero]
  constructor
  . intro h account htype
    obtain ⟨m, hm, rfl⟩ := memberType_eq_some.mp htype
    have hkey : m.byAccountGroup = (account, group) := Table.key_of_find? hm
    apply h m (Table.mem_of_find? hm)
    exact decide_eq_true ⟨rfl, (Prod.mk.inj hkey).2⟩
  . intro h m hm hcounts
    obtain ⟨htype, hgroup⟩ := of_decide_eq_true hcounts
    apply h m.account
    rw [memberType_eq_some, ← hgroup]
    exact ⟨m, Table.find?_of_mem hm, htype⟩

/-- The account that an operation on groups is of. -/
def requester : PrivateMessagePluginOperation → AccountName
  | .privateGroup o => o.creator
  | .privateGroupDelete o => o.owner
  | .privateGroupMember o => o.requester
  | _ => ""

/--
What an operation of the plugin does to the groups and their members. A group is updated without a
change of its members, or one account moves in it.
-/
inductive Reorganises (o : PrivateMessagePluginOperation) (db db' : PrivateMessageDatabase W) : Prop
  | same (members : db'.members = db.members) (groups : db'.groups = db.groups)
  | updated (pgo pgo' : PrivateGroupObject) (regroups : Regroups db db' pgo pgo')
    (members : db'.members = db.members) (counter : ∀ t, pgo'.counter t = pgo.counter t)
    (privacy : pgo'.privacy = pgo.privacy ∨ requester o = pgo.owner)
    (opens : Opens pgo pgo' → db.number .pending pgo.name = 0)
  | moved (op : PrivateGroupMemberOperation) (operation : o = .privateGroupMember op)
    (pgo pgo' : PrivateGroupObject) (name : pgo.name = op.name)
    (admitted : Admitted db op pgo) (regroups : Regroups db db' pgo pgo')
    (moves : Moves db db' op.member pgo (db.memberType op.member op.name) (becomes op))
    (privacy : pgo'.privacy = pgo.privacy)
    (counter : ∀ t : PrivateGroupMemberType, t.counted = true →
      pgo'.counter t = pgo.counter t + (if becomes op = some t then 1 else 0) -
        if db.memberType op.member op.name = some t then 1 else 0)
  | opened (op : PrivateGroupOperation) (operation : o = .privateGroup op) (account : AccountName)
    (pgo pgo' : PrivateGroupObject) (name : pgo.name = op.name) (regroups : Regroups db db' pgo pgo')
    (moves : Moves db db' account pgo (some .pending) (some .member))
    (opens : Opens pgo pgo') (privacy : pgo'.privacy = op.privacy) (owner : op.creator = pgo.owner)
    (counter : ∀ t, pgo'.counter t = pgo.counter t +
      (if some PrivateGroupMemberType.member = some t then 1 else 0) -
        if some PrivateGroupMemberType.pending = some t then 1 else 0)
  | created (pgo : PrivateGroupObject) (groups : Table.Inserts db.groups db'.groups pgo)
    (members : db'.members = db.members) (counter : ∀ t, pgo.counter t = 0)
  | deleted (pgo : PrivateGroupObject) (row : db.groups.find? pgo.name = some pgo)
    (groups : db'.groups = db.groups.erase pgo.name)
    (members : db'.members = db.members.filter fun m => m.group ≠ pgo.name)
    (owner : requester o = pgo.owner)

theorem reorganises_updateGroup {o : PrivateGroupOperation} {pgo : PrivateGroupObject}
    (hname : pgo.name = o.name) (hrow : db.groups.find? pgo.name = some pgo)
    (h : db.updateGroup o pgo = .ok db') : Reorganises (.privateGroup o) db db' := by
  simp only [updateGroup, bind_eq_ok, ensure_eq_ok] at h
  obtain ⟨_, howner, _, _, _, _, h⟩ := h
  generalize hpend : db.members.rows.find? _ = pend at h
  cases pend with
  | none =>
    obtain rfl := Except.ok.inj h
    refine .updated pgo _ (.of_modify (fun pgo => { pgo with
      pendings := pgo.pendings - 0, members := pgo.members + 0, jsonMetadata := o.jsonMetadata,
      privacy := o.privacy }) (fun _ => rfl) hrow rfl rfl) rfl ?_ (.inr howner.symm) ?_
    . intro t
      cases t <;> simp [PrivateGroupObject.counter]
    . intro hopens
      rw [number, List.countP_eq_zero]
      intro m hm hcounts
      apply List.find?_eq_none.mp hpend m hm
      obtain ⟨htype, hgroup⟩ := of_decide_eq_true hcounts
      exact decide_eq_true ⟨hopens, hgroup, htype⟩
  | some m =>
    obtain rfl := Except.ok.inj h
    have hm := List.mem_of_find?_eq_some hpend
    have hpending := List.find?_some hpend
    obtain ⟨hopens, hgroup, htype⟩ := of_decide_eq_true hpending
    have hfind : db.members.find? (m.account, pgo.name) = some m := by
      rw [← hgroup]
      exact Table.find?_of_mem hm
    refine .opened o rfl m.account pgo _ hname (.of_modify (fun pgo => { pgo with
      pendings := pgo.pendings - 1, members := pgo.members + 1, jsonMetadata := o.jsonMetadata,
      privacy := o.privacy }) (fun _ => rfl) hrow rfl rfl) ?_ hopens rfl howner.symm ?_
    . rw [← htype]
      exact .of_modify hfind rfl
    . intro t
      cases t <;> simp [PrivateGroupObject.counter]

theorem reorganises_privateGroupMember {o : PrivateGroupMemberOperation}
    (h : db.privateGroupMember o = .ok db') : Reorganises (.privateGroupMember o) db db' := by
  obtain ⟨pgo, pgo', hname, hadmitted, hregroups, hmoves, hprivacy, hcounter⟩ :=
    privateGroupMember_cases h
  exact .moved o rfl pgo pgo' hname hadmitted hregroups hmoves hprivacy hcounter

theorem reorganises_createGroup {o : PrivateGroupOperation} (h : db.createGroup o = .ok db') :
    Reorganises (.privateGroup o) db db' := by
  simp only [createGroup, bind_eq_ok, get_eq_ok] at h
  obtain ⟨paid, hpay, _, _, _, _, groups, hgroups, h⟩ := h
  obtain rfl := Except.ok.inj h
  have hpaid : paid.groups = db.groups ∧ paid.members = db.members := by
    unfold payGroupCost at hpay
    dsimp only at hpay
    split at hpay
    . simp only [bind_eq_ok, pure_eq_ok] at hpay
      obtain ⟨_, _, _, _, _, _, _, _, _, _, _, _, rfl⟩ := hpay
      exact ⟨rfl, rfl⟩
    . obtain rfl := Except.ok.inj hpay
      exact ⟨rfl, rfl⟩
  rw [hpaid.1] at hgroups
  refine .created _ (.emplace hgroups) hpaid.2 ?_
  intro t
  cases t
  all_goals rfl

theorem reorganises_privateGroup {o : PrivateGroupOperation} (h : db.privateGroup o = .ok db') :
    Reorganises (.privateGroup o) db db' := by
  simp only [privateGroup, bind_eq_ok] at h
  obtain ⟨_, _, h⟩ := h
  split at h
  . next pgo hpgo =>
    have hname : pgo.name = o.name := Table.key_of_find? hpgo
    rw [← hname] at hpgo
    exact reorganises_updateGroup hname hpgo h
  . exact reorganises_createGroup h

theorem reorganises_privateGroupDelete {o : PrivateGroupDeleteOperation}
    (h : db.privateGroupDelete o = .ok db') : Reorganises (.privateGroupDelete o) db db' := by
  simp only [privateGroupDelete, bind_eq_ok, getGroup, get_eq_ok, ensure_eq_ok] at h
  obtain ⟨_, _, pgo, hpgo, _, howner, h⟩ := h
  obtain rfl := Except.ok.inj h
  have hname : pgo.name = o.name := Table.key_of_find? hpgo
  rw [← hname] at hpgo
  exact .deleted pgo hpgo rfl rfl howner.symm

section messages

variable {Json : Type} {fc : Fc Json} {plugin : PrivateMessagePlugin}

/-- The groups and their members are as before. -/
structure KeepsGroups (db db' : PrivateMessageDatabase W) : Prop where
  groups : db'.groups = db.groups
  members : db'.members = db.members

theorem KeepsGroups.trans {db'' : PrivateMessageDatabase W} (h : KeepsGroups db db')
    (h' : KeepsGroups db' db'') : KeepsGroups db db'' :=
  ⟨h'.groups.trans h.groups, h'.members.trans h.members⟩

theorem keepsGroups_countContact {owner : AccountName} {contact : String} {kind : ContactKind}
    {unreadOutbox isSend isMention : Bool}
    (h : db.countContact owner contact kind unreadOutbox isSend isMention = .ok db') :
    KeepsGroups db db' := by
  have hsize : ∀ {db₁ : PrivateMessageDatabase W} {type isNewContact},
      db₁.modifySize owner type unreadOutbox isNewContact isSend isMention = .ok db' →
        KeepsGroups db₁ db' := by
    intro db₁ type isNewContact h
    unfold modifySize at h
    split at h
    . simp only [bind_eq_ok, pure_eq_ok] at h
      obtain ⟨sizes, _, rfl⟩ := h
      exact ⟨rfl, rfl⟩
    . obtain rfl := Except.ok.inj h
      exact ⟨rfl, rfl⟩
  unfold countContact at h
  split at h
  . exact ⟨(hsize h).groups, (hsize h).members⟩
  . simp only [bind_eq_ok] at h
    obtain ⟨contacts, _, h⟩ := h
    exact ⟨(hsize h).groups, (hsize h).members⟩

theorem keepsGroups_countContacts {o : PrivateMessageOperation} {group : String}
    {mentions : List AccountName} (h : db.countContacts o group mentions = .ok db') :
    KeepsGroups db db' := by
  unfold countContacts at h
  split at h
  . rw [bind_eq_ok] at h
    obtain ⟨db₁, hfrom, hto⟩ := h
    exact (keepsGroups_countContact hfrom).trans (keepsGroups_countContact hto)
  . simp only [bind_eq_ok] at h
    obtain ⟨db₁, hfrom, h⟩ := h
    have hfrom := keepsGroups_countContact hfrom
    have hmentions : ∀ db₂, KeepsGroups db db₂ → (mentions.filter fun men => o.toAccount ≠ men).foldlM
        (fun db men => db.countContact men group .group (o.toAccount ≠ "") false true) db₂ =
          .ok db' → KeepsGroups db db' := by
      intro db₂ hdb₂ hfold
      refine foldlM_invariant (P := fun d _ => KeepsGroups db d) ?_ hdb₂ hfold
      intro d d' men _ hd hcount
      exact hd.trans (keepsGroups_countContact hcount)
    split at h
    . rw [bind_eq_ok] at h
      obtain ⟨db₂, hto, h⟩ := h
      exact hmentions db₂ (hfrom.trans (keepsGroups_countContact hto)) h
    . exact hmentions db₁ hfrom h

/-- A new message of a group is counted by the group. -/
theorem storeMessage_groups {o : PrivateMessageOperation} {group : String}
    {mentions : List AccountName} (h : db.storeMessage o group mentions = .ok db') :
    db'.members = db.members ∧ (db'.groups = db.groups ∨
      ∃ pgo, db.groups.find? pgo.name = some pgo ∧ db'.groups = db.groups.modify pgo.name
        fun pgo => { pgo with totalMessages := pgo.totalMessages + 1 }) := by
  have hcreate : ∀ {db₁ : PrivateMessageDatabase W},
      db₁.createMessage o group mentions = .ok db' → KeepsGroups db₁ db' := by
    intro db₁ hdb'
    simp only [createMessage, bind_eq_ok, get_eq_ok, pure_eq_ok] at hdb'
    obtain ⟨messages, _, rfl⟩ := hdb'
    exact ⟨rfl, rfl⟩
  unfold storeMessage at h
  split at h
  . split at h
    . simp only [bind_eq_ok, getGroup, get_eq_ok] at h
      obtain ⟨_, _, _, _, pgo, hpgo, h⟩ := h
      have hname : pgo.name = group := Table.key_of_find? hpgo
      subst hname
      have hkeeps := hcreate h
      exact ⟨hkeeps.members, .inr ⟨pgo, hpgo, hkeeps.groups⟩⟩
    . have hkeeps := hcreate h
      exact ⟨hkeeps.members, .inl hkeeps.groups⟩
  . obtain rfl := Except.ok.inj h
    exact ⟨rfl, .inl rfl⟩

theorem reorganises_privateMessage {o : PrivateMessageOperation}
    (h : db.privateMessage plugin o = .ok db') : Reorganises (.privateMessage o) db db' := by
  unfold privateMessage at h
  split at h
  . obtain rfl := Except.ok.inj h
    exact .same rfl rfl
  . simp only [bind_eq_ok] at h
    obtain ⟨_, _, _, _, _, _, _, _, _, _, _, _, stored, hstore, h⟩ := h
    have hkeeps : KeepsGroups stored db' := by
      split at h
      . obtain rfl := Except.ok.inj h
        exact ⟨rfl, rfl⟩
      . exact keepsGroups_countContacts h
    obtain ⟨hmembers, hgroups | ⟨pgo, hpgo, hgroups⟩⟩ := storeMessage_groups hstore
    . exact .same (hkeeps.members.trans hmembers) (hkeeps.groups.trans hgroups)
    . have hregroups := Regroups.of_modify
        (fun pgo => { pgo with totalMessages := pgo.totalMessages + 1 }) (fun _ => rfl) hpgo rfl
        (hkeeps.groups.trans hgroups)
      refine .updated pgo _ hregroups (hkeeps.members.trans hmembers) ?_ (.inl rfl) ?_
      . intro t
        cases t
        all_goals rfl
      . intro hopens
        exact absurd hopens.2 hopens.1

theorem keepsGroups_privateDeleteMessage {o : PrivateDeleteMessageOperation}
    (h : db.privateDeleteMessage fc plugin o = .ok db') : KeepsGroups db db' := by
  unfold privateDeleteMessage at h
  split at h
  . obtain rfl := Except.ok.inj h
    exact ⟨rfl, rfl⟩
  . simp only [bind_eq_ok] at h
    obtain ⟨_, _, s, hprocess, hsettle⟩ := h
    have hs : KeepsGroups db s.db := by
      refine process_invariant (P := fun s => KeepsGroups db s.db) ?_ ?_ ⟨rfl, rfl⟩ hprocess
      . intro s m hs
        exact ⟨hs.groups, hs.members⟩
      . intro s s' hs hnoMsgs
        unfold deleteNoMsgs at hnoMsgs
        split at hnoMsgs
        . obtain rfl := Option.some.inj hnoMsgs
          exact hs
        . cases hnoMsgs
    have hcounts := countsOnly_settleContacts (fun _ _ _ _ _ _ => countsOnly_deleteContactAction)
      hsettle
    exact hs.trans ⟨hcounts.groups, hcounts.members⟩

theorem keepsGroups_markAction {options : PrivateGroupOptions} {s : Processing W}
    {m : MessageObject} (h : KeepsGroups db s.db) :
    KeepsGroups db (markAction fc options s m).db := by
  unfold markAction
  dsimp only
  split
  . split
    . exact ⟨h.groups, h.members⟩
    . exact h
  . split
    . exact ⟨h.groups, h.members⟩
    . exact h

theorem keepsGroups_privateMarkMessage {o : PrivateMarkMessageOperation}
    (h : db.privateMarkMessage fc plugin o = .ok db') : KeepsGroups db db' := by
  unfold privateMarkMessage at h
  split at h
  . obtain rfl := Except.ok.inj h
    exact ⟨rfl, rfl⟩
  . simp only [bind_eq_ok, pure_eq_ok] at h
    obtain ⟨_, _, s, hprocess, db₁, hsettle, _, _, rfl⟩ := h
    have hs : KeepsGroups db s.db := by
      refine process_invariant (P := fun s => KeepsGroups db s.db) ?_ ?_ ⟨rfl, rfl⟩ hprocess
      . intro s m
        exact keepsGroups_markAction
      . intro s s' _ hnone
        cases hnone
    have hcounts : CountsOnly s.db db₁ := by
      refine countsOnly_settleContacts ?_ hsettle
      intro db contact sizes size db' done hact
      cases hact
      exact .refl _
    exact hs.trans ⟨hcounts.groups, hcounts.members⟩

theorem reorganises_apply {o : PrivateMessagePluginOperation}
    (h : db.apply fc plugin o = .ok db') : Reorganises o db db' := by
  cases o with
  | privateMessage o => exact reorganises_privateMessage h
  | privateDeleteMessage o =>
    have hkeeps := keepsGroups_privateDeleteMessage h
    exact .same hkeeps.members hkeeps.groups
  | privateMarkMessage o =>
    have hkeeps := keepsGroups_privateMarkMessage h
    exact .same hkeeps.members hkeeps.groups
  | privateSettings o => cases h
  | privateContact o => cases h
  | privateGroup o => exact reorganises_privateGroup h
  | privateGroupDelete o => exact reorganises_privateGroupDelete h
  | privateGroupMember o => exact reorganises_privateGroupMember h

end messages

end PrivateMessageDatabase

end Golos
