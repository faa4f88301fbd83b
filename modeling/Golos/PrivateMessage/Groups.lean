import Golos.PrivateMessage.Deletion
import Golos.PrivateMessage.Lemmas.Groups

/-!
This module contains what the roles in a private group are worth in every run: the counters of the
group, the one membership that an account has, and who changes it.
-/

namespace Golos

open Checked

namespace PrivateMessageDatabase

variable {W Json : Type} {fc : Fc Json} {db db' : PrivateMessageDatabase W}
  {o : PrivateMessagePluginOperation} {account : AccountName} {pgo pgo' : PrivateGroupObject}
  {old new : Option PrivateGroupMemberType}

section counters

theorem number_congr (h : db'.members = db.members) (type : PrivateGroupMemberType)
    (group : String) : db'.number type group = db.number type group := by
  unfold number
  rw [h]

theorem memberType_congr (h : db'.members = db.members) (account : AccountName) (group : String) :
    db'.memberType account group = db.memberType account group := by
  unfold memberType
  rw [h]

/-- In 32 bits, a counter follows the number that it counts. -/
theorem counter_of_number {c : UInt32} {n n' : Nat} {p q : Prop} [Decidable p] [Decidable q]
    (hc : c = UInt32.ofNat n) (h : n' + (if p then 1 else 0) = n + if q then 1 else 0) :
    c + (if q then 1 else 0) - (if p then 1 else 0) = UInt32.ofNat n' := by
  have hcast : ∀ (r : Prop) [Decidable r],
      (if r then 1 else 0 : UInt32) = UInt32.ofNat (if r then 1 else 0) := by
    intro r _
    split
    all_goals rfl
  rw [hc, hcast p, hcast q, ← UInt32.ofNat_add, ← h, UInt32.ofNat_add, UInt32.add_sub_cancel]

theorem Regroups.mem_rows (h : Regroups db db' pgo pgo') {g : PrivateGroupObject}
    (hg : g ∈ db'.groups.rows) : g = pgo' ∨ (g ∈ db.groups.rows ∧ g.name ≠ pgo.name) := by
  have hfind := Table.find?_of_mem hg
  rw [h.find?] at hfind
  split at hfind
  . exact .inl (Option.some.inj hfind).symm
  . next hne => exact .inr ⟨Table.mem_of_find? hfind, hne⟩

theorem Regroups.placed (h : Regroups db db' pgo pgo') {group : String}
    (hplaced : ∃ g, db.groups.find? group = some g ∧ account ≠ g.owner) :
    ∃ g, db'.groups.find? group = some g ∧ account ≠ g.owner := by
  obtain ⟨g, hg, hne⟩ := hplaced
  rw [h.find?]
  split
  . next heq =>
    rw [heq, h.row] at hg
    obtain rfl := Option.some.inj hg
    exact ⟨pgo', rfl, h.owner ▸ hne⟩
  . exact ⟨g, hg, hne⟩

theorem Tallied.of_updated (hdb : db.Tallied) (hregroups : Regroups db db' pgo pgo')
    (hmembers : db'.members = db.members) (hcounter : ∀ t, pgo'.counter t = pgo.counter t) :
    db'.Tallied where
  counter := by
    intro g hg type htype
    rw [number_congr hmembers]
    rcases hregroups.mem_rows hg with rfl | ⟨hg, -⟩
    . rw [hcounter, hregroups.name]
      exact hdb.counter pgo (Table.mem_of_find? hregroups.row) type htype
    . exact hdb.counter g hg type htype
  placed := by
    intro m hm
    rw [hmembers] at hm
    exact hregroups.placed (hdb.placed m hm)

/-- The counters follow an account that moves. -/
theorem Tallied.of_moved (hdb : db.Tallied) (hregroups : Regroups db db' pgo pgo')
    (hmoves : Moves db db' account pgo old new) (hnotOwner : account ≠ pgo.owner)
    (hcounter : ∀ t : PrivateGroupMemberType, t.counted = true → pgo'.counter t =
      pgo.counter t + (if new = some t then 1 else 0) - if old = some t then 1 else 0) :
    db'.Tallied where
  counter := by
    intro g hg type htype
    have hnumber := hmoves.number type g.name
    rcases hregroups.mem_rows hg with rfl | ⟨hg, hne⟩
    . rw [hregroups.name] at hnumber ⊢
      simp only [and_true] at hnumber
      rw [hcounter type htype]
      exact counter_of_number (hdb.counter pgo (Table.mem_of_find? hregroups.row) type htype) hnumber
    . rw [if_neg (fun h => hne h.2.symm), if_neg (fun h => hne h.2.symm)] at hnumber
      rw [hdb.counter g hg type htype]
      exact congrArg UInt32.ofNat hnumber.symm
  placed := by
    intro m hm
    rcases hmoves.rows m hm with hm | ⟨haccount, hgroup, -⟩
    . exact hregroups.placed (hdb.placed m hm)
    . apply hregroups.placed
      rw [haccount, hgroup]
      exact ⟨pgo, hregroups.row, hnotOwner⟩

/-- Nobody is a member of a group that does not exist. -/
theorem Tallied.number_eq_zero (hdb : db.Tallied) {group : String}
    (hnone : db.groups.find? group = none) (type : PrivateGroupMemberType) :
    db.number type group = 0 := by
  unfold number
  rw [List.countP_eq_zero]
  intro m hm hcounts
  obtain ⟨-, hgroup⟩ := of_decide_eq_true hcounts
  obtain ⟨g, hg, -⟩ := hdb.placed m hm
  rw [hgroup, hnone] at hg
  cases hg

theorem Tallied.of_created (hdb : db.Tallied) (hgroups : Table.Inserts db.groups db'.groups pgo)
    (hmembers : db'.members = db.members) (hcounter : ∀ t, pgo.counter t = 0) : db'.Tallied where
  counter := by
    intro g hg type htype
    rw [number_congr hmembers]
    rcases (hgroups.mem g).mp hg with hg | rfl
    . exact hdb.counter g hg type htype
    . rw [hcounter, hdb.number_eq_zero hgroups.fresh]
      rfl
  placed := by
    intro m hm
    rw [hmembers] at hm
    obtain ⟨g, hg, hne⟩ := hdb.placed m hm
    exact ⟨g, hgroups.find?_eq_some_iff.mpr (.inl hg), hne⟩

theorem number_filter (h : db'.members = db.members.filter fun m => m.group ≠ pgo.name)
    (type : PrivateGroupMemberType) {group : String} (hne : group ≠ pgo.name) :
    db'.number type group = db.number type group := by
  unfold number
  rw [h, Table.filter, List.countP_filter]
  apply List.countP_congr
  intro m _
  rw [Bool.and_eq_true, decide_eq_true_eq, decide_eq_true_eq]
  constructor
  . intro h
    exact h.1
  . intro h
    exact ⟨h, h.2 ▸ hne⟩

theorem Tallied.of_deleted (hdb : db.Tallied) (hgroups : db'.groups = db.groups.erase pgo.name)
    (hmembers : db'.members = db.members.filter fun m => m.group ≠ pgo.name) : db'.Tallied where
  counter := by
    intro g hg type htype
    rw [hgroups] at hg
    obtain ⟨hg, hne⟩ := Table.mem_erase.mp hg
    rw [number_filter hmembers type hne]
    exact hdb.counter g hg type htype
  placed := by
    intro m hm
    rw [hmembers] at hm
    obtain ⟨hm, hne⟩ := Table.mem_filter.mp hm
    obtain ⟨g, hg, howner⟩ := hdb.placed m hm
    refine ⟨g, ?_, howner⟩
    rw [hgroups, Table.find?_erase_of_ne _ (of_decide_eq_true hne)]
    exact hg

theorem Reorganises.tallied (h : Reorganises o db db') (hdb : db.Tallied) : db'.Tallied := by
  cases h with
  | same hmembers hgroups =>
    constructor
    . intro g hg type htype
      rw [number_congr hmembers]
      exact hdb.counter g (hgroups ▸ hg) type htype
    . rw [hmembers, hgroups]
      exact hdb.placed
  | updated pgo pgo' hregroups hmembers hcounter _ _ => exact hdb.of_updated hregroups hmembers hcounter
  | moved op _ pgo pgo' _ hadmitted hregroups hmoves _ hcounter =>
    exact hdb.of_moved hregroups hmoves hadmitted.notOwner hcounter
  | opened op _ account pgo pgo' _ hregroups hmoves _ _ _ hcounter =>
    obtain ⟨m, hm, -⟩ := memberType_eq_some.mp hmoves.before
    have hkey : m.byAccountGroup = (account, pgo.name) := Table.key_of_find? hm
    obtain ⟨haccount, hgroup⟩ := Prod.mk.inj hkey
    obtain ⟨g, hg, hne⟩ := hdb.placed m (Table.mem_of_find? hm)
    rw [hgroup, hregroups.row] at hg
    obtain rfl := Option.some.inj hg
    exact hdb.of_moved hregroups hmoves (haccount ▸ hne) fun t _ => hcounter t
  | created pgo hgroups hmembers hcounter => exact hdb.of_created hgroups hmembers hcounter
  | deleted pgo _ hgroups hmembers _ => exact hdb.of_deleted hgroups hmembers

end counters

section room

/-- Every number of members fits into its counter. -/
def Fits (db : PrivateMessageDatabase W) : Prop :=
  ∀ type : PrivateGroupMemberType, type.counted = true → ∀ group, db.number type group < 2 ^ 32

/-- Whoever opens a group opens it to one pending account at most, and no counter is full. -/
def HasRoom (db : PrivateMessageDatabase W) : PrivateMessagePluginOperation → Prop
  | .privateGroup o =>
    ∀ pgo, db.groups.find? o.name = some pgo → pgo.privacy ≠ .publicGroup →
      o.privacy = .publicGroup → db.number .pending o.name ≤ 1 ∧
        db.number .member o.name + db.number .pending o.name < 2 ^ 32
  | .privateGroupMember o =>
    o.memberType.counted = true → db.memberType o.member o.name ≠ some o.memberType →
      db.number o.memberType o.name + 1 < 2 ^ 32
  | _ => True

instance (db : PrivateMessageDatabase W) : (o : PrivateMessagePluginOperation) →
    Decidable (db.HasRoom o)
  | .privateGroup o =>
    decidable_of_iff (∀ pgo ∈ (db.groups.find? o.name).toList, pgo.privacy ≠ .publicGroup →
        o.privacy = .publicGroup → db.number .pending o.name ≤ 1 ∧
          db.number .member o.name + db.number .pending o.name < 2 ^ 32) <| by
      simp only [HasRoom, Option.mem_toList]
  | .privateGroupMember _ => inferInstanceAs (Decidable (_ → _ → _))
  | .privateMessage _ => .isTrue trivial
  | .privateDeleteMessage _ => .isTrue trivial
  | .privateMarkMessage _ => .isTrue trivial
  | .privateSettings _ => .isTrue trivial
  | .privateContact _ => .isTrue trivial
  | .privateGroupDelete _ => .isTrue trivial

theorem Moves.number_le (h : Moves db db' account pgo old new) {type : PrivateGroupMemberType}
    {group : String} (hnew : ¬(old ≠ some type ∧ new = some type ∧ group = pgo.name)) :
    db'.number type group ≤ db.number type group := by
  have hnumber := h.number type group
  by_cases hin : new = some type ∧ pgo.name = group
  . by_cases hout : old = some type
    . rw [if_pos hin, if_pos ⟨hout, hin.2⟩] at hnumber
      omega
    . exact absurd ⟨hout, hin.1, hin.2.symm⟩ hnew
  . rw [if_neg hin] at hnumber
    omega

theorem Moves.number_le_succ (h : Moves db db' account pgo old new) (type : PrivateGroupMemberType)
    (group : String) : db'.number type group ≤ db.number type group + 1 := by
  have hnumber := h.number type group
  split at hnumber
  . split at hnumber
    all_goals omega
  . split at hnumber
    all_goals omega

theorem Fits.of_reorganises (hdb : db.Fits) (hroom : db.HasRoom o)
    (h : Reorganises o db db') : db'.Fits := by
  intro type htype group
  have hfits := hdb type htype group
  cases h with
  | same hmembers _ => rwa [number_congr hmembers]
  | updated pgo pgo' _ hmembers _ _ _ => rwa [number_congr hmembers]
  | moved op ho pgo pgo' hname _ _ hmoves _ _ =>
    subst ho
    by_cases hnew : db.memberType op.member op.name ≠ some type ∧ becomes op = some type ∧
        group = pgo.name
    . obtain ⟨hold, hbecomes, rfl⟩ := hnew
      obtain rfl := eq_of_becomes hbecomes
      have hle := hmoves.number_le_succ op.memberType pgo.name
      have hlt := hroom htype hold
      rw [← hname] at hlt
      omega
    . exact lt_of_le_of_lt (hmoves.number_le hnew) hfits
  | opened op ho account pgo pgo' hname hregroups hmoves hopens hprivacy _ _ =>
    subst ho
    obtain ⟨-, hlt⟩ := hroom pgo (hname ▸ hregroups.row) hopens.1 (hprivacy ▸ hopens.2)
    by_cases hnew : some PrivateGroupMemberType.pending ≠ some type ∧
        some PrivateGroupMemberType.member = some type ∧ group = pgo.name
    . obtain ⟨-, hmember, rfl⟩ := hnew
      obtain rfl := Option.some.inj hmember
      have hle := hmoves.number_le_succ .member pgo.name
      have hpending : db.number .pending pgo.name ≠ 0 := by
        intro hzero
        exact number_eq_zero_iff.mp hzero account hmoves.before
      rw [← hname] at hlt
      omega
    . exact lt_of_le_of_lt (hmoves.number_le hnew) hfits
  | created pgo _ hmembers _ => rwa [number_congr hmembers]
  | deleted pgo _ _ hmembers _ =>
    by_cases hgroup : group = pgo.name
    . have hzero : db'.number type group = 0 := by
        unfold number
        rw [hmembers, List.countP_eq_zero]
        intro m hm hcounts
        obtain ⟨-, hne⟩ := Table.mem_filter.mp hm
        exact of_decide_eq_true hne ((of_decide_eq_true hcounts).2.trans hgroup)
      omega
    . rwa [number_filter hmembers type hgroup]

end room

section roles

/-- The counters of a group are the numbers of its members, every account is a member once, and the
owner is none. -/
structure RolesExact (db : PrivateMessageDatabase W) : Prop where
  counters : ∀ pgo ∈ db.groups.rows,
    pgo.moders.toNat = db.number .moder pgo.name ∧ pgo.members.toNat = db.number .member pgo.name ∧
      pgo.pendings.toNat = db.number .pending pgo.name ∧
        pgo.banneds.toNat = db.number .banned pgo.name
  once : ∀ m ∈ db.members.rows, ∀ m' ∈ db.members.rows, m.account = m'.account →
    m.group = m'.group → m = m'
  owner : ∀ pgo ∈ db.groups.rows, db.memberType pgo.owner pgo.name = none

/-- Who changes the roles of whom by an operation. -/
structure RolesGuarded (o : PrivateMessagePluginOperation) (db db' : PrivateMessageDatabase W) :
    Prop where
  moder : ∀ account group, db.memberType account group ≠ some .moder →
    db'.memberType account group = some .moder →
      ∃ pgo, db.groups.find? group = some pgo ∧ requester o = pgo.owner
  member : ∀ account pgo, db.groups.find? pgo.name = some pgo → pgo.privacy ≠ .publicGroup →
    db.memberType account pgo.name = none ∨ db.memberType account pgo.name = some .pending →
      db'.memberType account pgo.name = some .member →
        ByModer db pgo (requester o)
  opened : ∀ pgo pgo', db.groups.find? pgo.name = some pgo → db'.groups.find? pgo.name = some pgo' →
    Opens pgo pgo' → requester o = pgo.owner ∧
      ∀ account, db'.memberType account pgo.name =
        if db.memberType account pgo.name = some .pending then some .member
        else db.memberType account pgo.name
  banned : ∀ account group, db.memberType account group = some .banned →
    db'.memberType account group ≠ some .banned →
      ∃ pgo, db.groups.find? group = some pgo ∧ ByModer db pgo (requester o)

theorem rolesExact_of_tallied (hdb : db.Tallied) (hfits : db.Fits) : db.RolesExact where
  counters := by
    intro pgo hpgo
    have hcounter : ∀ type : PrivateGroupMemberType, type.counted = true →
        (pgo.counter type).toNat = db.number type pgo.name := by
      intro type htype
      rw [hdb.counter pgo hpgo type htype, UInt32.toNat_ofNat',
        Nat.mod_eq_of_lt (hfits type htype pgo.name)]
    exact ⟨hcounter .moder rfl, hcounter .member rfl, hcounter .pending rfl, hcounter .banned rfl⟩
  once := by
    intro m hm m' hm' haccount hgroup
    exact db.members.mem_rows_inj hm hm' (Prod.ext haccount hgroup)
  owner := by
    intro pgo hpgo
    unfold memberType
    rw [Option.map_eq_none_iff, Table.find?_eq_none_iff]
    intro m hm hkey
    obtain ⟨haccount, hgroup⟩ := Prod.mk.inj hkey
    obtain ⟨g, hg, hne⟩ := hdb.placed m hm
    rw [hgroup, Table.find?_of_mem hpgo] at hg
    obtain rfl := Option.some.inj hg
    exact hne haccount

end roles

section guards

theorem memberType_filter (h : db'.members = db.members.filter fun m => m.group ≠ pgo.name)
    (account : AccountName) (group : String) : db'.memberType account group =
      if group = pgo.name then none else db.memberType account group := by
  unfold memberType
  rw [h]
  split
  . next heq =>
    rw [Option.map_eq_none_iff, Table.find?_eq_none_iff]
    intro m hm hkey
    obtain ⟨-, hne⟩ := Table.mem_filter.mp hm
    exact of_decide_eq_true hne ((Prod.mk.inj hkey).2.trans heq)
  . next hne =>
    congr 1
    apply Option.ext
    intro m
    rw [Table.find?_eq_some_iff, Table.find?_eq_some_iff, Table.mem_filter]
    constructor
    . intro hm
      exact ⟨hm.1.1, hm.2⟩
    . intro hm
      have hgroup : m.group = group := (Prod.mk.inj hm.2).2
      exact ⟨⟨hm.1, decide_eq_true (hgroup ▸ hne)⟩, hm.2⟩

/--
An account changes its type in a group by an operation on it, or with all the group, by an operation
of the owner.
-/
theorem Reorganises.change (h : Reorganises o db db') {group : String}
    (hne : db'.memberType account group ≠ db.memberType account group) :
    ∃ pgo, db.groups.find? group = some pgo ∧ pgo.name = group ∧
      ((∃ op : PrivateGroupMemberOperation, requester o = op.requester ∧ account = op.member ∧
          pgo.name = op.name ∧ Admitted db op pgo ∧ db'.memberType account group = becomes op) ∨
        (requester o = pgo.owner ∧ (db'.memberType account group = none ∨
          (db.memberType account group = some .pending ∧
            db'.memberType account group = some .member)))) := by
  cases h with
  | same hmembers _ => exact absurd (memberType_congr hmembers account group) hne
  | updated pgo pgo' _ hmembers _ _ _ =>
    exact absurd (memberType_congr hmembers account group) hne
  | moved op ho pgo pgo' hname hadmitted hregroups hmoves _ _ =>
    subst ho
    have hafter := hmoves.after account group
    split at hafter
    . next heq =>
      obtain ⟨haccount, rfl⟩ := heq
      exact ⟨pgo, hregroups.row, rfl, .inl ⟨op, rfl, haccount, hname, hadmitted, hafter⟩⟩
    . exact absurd hafter hne
  | opened op ho mover pgo pgo' _ hregroups hmoves _ _ howner _ =>
    subst ho
    have hafter := hmoves.after account group
    split at hafter
    . next heq =>
      obtain ⟨rfl, rfl⟩ := heq
      exact ⟨pgo, hregroups.row, rfl, .inr ⟨howner, .inr ⟨hmoves.before, hafter⟩⟩⟩
    . exact absurd hafter hne
  | created pgo _ hmembers _ => exact absurd (memberType_congr hmembers account group) hne
  | deleted pgo hrow _ hmembers howner =>
    have hafter := memberType_filter hmembers account group
    split at hafter
    . next heq =>
      subst heq
      exact ⟨pgo, hrow, rfl, .inr ⟨howner, .inl hafter⟩⟩
    . exact absurd hafter hne

/-- An opening makes members of all the pending accounts. -/
theorem Reorganises.opening (h : Reorganises o db db') (hroom : db.HasRoom o)
    (hrow : db.groups.find? pgo.name = some pgo) (hrow' : db'.groups.find? pgo.name = some pgo')
    (hopens : Opens pgo pgo') : requester o = pgo.owner ∧
      ∀ account, db'.memberType account pgo.name =
        if db.memberType account pgo.name = some .pending then some .member
        else db.memberType account pgo.name := by
  have hclosed : ∀ {g : PrivateGroupObject}, pgo'.privacy = g.privacy → pgo = g → False := by
    rintro g hprivacy rfl
    exact hopens.1 (hprivacy.symm.trans hopens.2)
  have hkept : db'.groups.find? pgo.name = db.groups.find? pgo.name → False := by
    intro heq
    rw [heq, hrow] at hrow'
    exact hclosed rfl (Option.some.inj hrow')
  cases h with
  | same _ hgroups => exact (hkept (by rw [hgroups])).elim
  | updated g g' hregroups hmembers _ hprivacy hnone =>
    have hfind := hregroups.find? pgo.name
    split at hfind
    . next hname =>
      have hg := hregroups.row
      rw [← hname, hrow] at hg
      obtain rfl := Option.some.inj hg
      rw [hrow'] at hfind
      obtain rfl := Option.some.inj hfind
      refine ⟨hprivacy.resolve_left (fun h => hclosed h rfl), ?_⟩
      intro account
      rw [memberType_congr hmembers, if_neg (number_eq_zero_iff.mp (hnone hopens) account)]
    . exact (hkept hfind).elim
  | moved op _ g g' _ _ hregroups _ hprivacy _ =>
    have hfind := hregroups.find? pgo.name
    split at hfind
    . next hname =>
      have hg := hregroups.row
      rw [← hname, hrow] at hg
      obtain rfl := Option.some.inj hg
      rw [hrow'] at hfind
      obtain rfl := Option.some.inj hfind
      exact (hclosed hprivacy rfl).elim
    . exact (hkept hfind).elim
  | opened op ho mover g g' hname' hregroups hmoves _ hprivacy howner _ =>
    subst ho
    have hfind := hregroups.find? pgo.name
    split at hfind
    . next hname =>
      have hg := hregroups.row
      rw [← hname, hrow] at hg
      obtain rfl := Option.some.inj hg
      rw [hrow'] at hfind
      obtain rfl := Option.some.inj hfind
      refine ⟨howner, ?_⟩
      obtain ⟨hle, -⟩ := hroom pgo (hname' ▸ hrow) hopens.1 (hprivacy ▸ hopens.2)
      rw [← hname'] at hle
      -- the one pending account is the one that moves
      have hnone : db'.number .pending pgo.name = 0 := by
        have hnumber := hmoves.number .pending pgo.name
        rw [if_pos ⟨rfl, rfl⟩, if_neg (by rintro ⟨h, -⟩; cases h)] at hnumber
        omega
      intro account
      have hafter := hmoves.after account pgo.name
      split at hafter
      . next heq =>
        obtain ⟨rfl, -⟩ := heq
        rw [hafter, hmoves.before, if_pos rfl]
      . rw [hafter, if_neg]
        rw [← hafter]
        exact number_eq_zero_iff.mp hnone account
    . exact (hkept hfind).elim
  | created g hgroups _ _ =>
    rw [hgroups.find?_eq_some_iff.mpr (.inl hrow)] at hrow'
    exact (hclosed rfl (Option.some.inj hrow')).elim
  | deleted g _ hgroups _ _ =>
    rw [hgroups] at hrow' hkept
    by_cases hname : pgo.name = g.name
    . rw [hname, Table.find?_erase_self] at hrow'
      cases hrow'
    . exact (hkept (Table.find?_erase_of_ne _ hname)).elim

theorem Reorganises.guarded (h : Reorganises o db db') (hroom : db.HasRoom o) :
    RolesGuarded o db db' where
  moder := by
    intro account group hold hnew
    have hne : db'.memberType account group ≠ db.memberType account group := by
      intro heq
      exact hold (heq ▸ hnew)
    obtain ⟨pgo, hpgo, -, hop | ⟨-, hnone | ⟨-, hmember⟩⟩⟩ := h.change hne
    . obtain ⟨op, hrequester, -, -, hadmitted, hbecomes⟩ := hop
      rw [hbecomes] at hnew
      exact ⟨pgo, hpgo, hrequester.trans (hadmitted.moder (eq_of_becomes hnew)).symm⟩
    . rw [hnone] at hnew
      cases hnew
    . rw [hmember] at hnew
      cases hnew
  member := by
    intro account pgo hpgo hprivate hold hnew
    have hne : db'.memberType account pgo.name ≠ db.memberType account pgo.name := by
      intro heq
      rw [← heq, hnew] at hold
      rcases hold with h | h
      all_goals cases h
    obtain ⟨g, hg, -, hop | ⟨howner, -⟩⟩ := h.change hne
    . obtain ⟨op, hrequester, -, -, hadmitted, hbecomes⟩ := hop
      rw [hpgo] at hg
      obtain rfl := Option.some.inj hg
      rw [hbecomes] at hnew
      rw [hrequester]
      exact hadmitted.member (eq_of_becomes hnew) hprivate
    . rw [hpgo] at hg
      obtain rfl := Option.some.inj hg
      exact .inl howner.symm
  opened := by
    intro pgo pgo' hrow hrow' hopens
    exact h.opening hroom hrow hrow' hopens
  banned := by
    intro account group hold hnew
    have hne : db'.memberType account group ≠ db.memberType account group := by
      intro heq
      exact hnew (heq.trans hold)
    obtain ⟨pgo, hpgo, rfl, hop | ⟨howner, -⟩⟩ := h.change hne
    . obtain ⟨op, hrequester, rfl, -, hadmitted, -⟩ := hop
      rw [hrequester]
      exact ⟨pgo, hpgo, hadmitted.banned hold⟩
    . exact ⟨pgo, hpgo, .inl howner.symm⟩

end guards

/-- The condition of an event. -/
def HasRoomFor (db : PrivateMessageDatabase W) : PrivateMessageEvent W → Prop
  | .chain _ => True
  | .operation _ o => db.HasRoom o

instance (db : PrivateMessageDatabase W) : (event : PrivateMessageEvent W) →
    Decidable (db.HasRoomFor event)
  | .chain _ => .isTrue trivial
  | .operation _ o => inferInstanceAs (Decidable (db.HasRoom o))

theorem tallied_of_reach (h : (privateMessageSystem fc).Reach HasRoomFor db) :
    db.Tallied ∧ db.Fits := by
  apply h.invariant
  . rintro _ ⟨chain, rfl⟩
    refine ⟨⟨?_, ?_⟩, ?_⟩
    . intro pgo hpgo
      cases hpgo
    . intro m hm
      cases hm
    . intro type _ group
      exact Nat.two_pow_pos 32
  . rintro db (chain | ⟨plugin, o⟩) db' ⟨htallied, hfits⟩ hok hstep
    . have hstep : db' = { db with chain := chain } := hstep
      subst hstep
      exact ⟨⟨htallied.counter, htallied.placed⟩, hfits⟩
    . have hreorganises := reorganises_apply hstep.2
      exact ⟨hreorganises.tallied htallied, hfits.of_reorganises hok hreorganises⟩

/--
In every run with room, the roles are exact, and every further operation with room changes them as
guarded.
-/
theorem groupRoles_of_reach (h : (privateMessageSystem fc).Reach HasRoomFor db) :
    db.RolesExact ∧ ∀ (plugin : PrivateMessagePlugin) (o : PrivateMessagePluginOperation)
      (db' : PrivateMessageDatabase W), db.apply fc plugin o = .ok db' → db.HasRoom o →
        RolesGuarded o db db' := by
  obtain ⟨htallied, hfits⟩ := tallied_of_reach h
  refine ⟨rolesExact_of_tallied htallied hfits, ?_⟩
  intro plugin o db' happly hroom
  exact (reorganises_apply happly).guarded hroom

end PrivateMessageDatabase

section runs

open PrivateMessageDatabase

def neighbours : ChainDatabase Unit where
  ledger := { accounts := ⟨[{ name := "alice" }, { name := "bobby" }, { name := "carol" }], by decide⟩ }
  headBlockTime := 1000
  lastHardfork := 30
  world := ()

def petition (account : AccountName) : PrivateMessagePluginOperation :=
  .privateGroupMember
    { requester := account, name := "friends", member := account, memberType := .pending }

/-- A group of alice, which others ask to join. -/
def petitions (accounts : List AccountName) : List PrivateMessagePluginOperation :=
  .privateGroup { friendsGroup with isEncrypted := true, privacy := .privateGroup } ::
    accounts.map petition

def petitioned (accounts : List AccountName) : PrivateMessageDatabase Unit :=
  let start : PrivateMessageDatabase Unit := { chain := neighbours }
  ((petitions accounts).foldlM (fun db o => PrivateMessageDatabase.apply plainFc db {} o)
    start).toOption.getD start

def opening : PrivateGroupOperation :=
  { friendsGroup with isEncrypted := true }

def openedTo (accounts : List AccountName) : PrivateMessageDatabase Unit :=
  ((petitioned accounts).apply plainFc {} (.privateGroup opening)).toOption.getD (petitioned accounts)

theorem reach_petitioned {ok : PrivateMessageDatabase Unit → PrivateMessageEvent Unit → Prop}
    {accounts : List AccountName} (hvalidate : ∀ o ∈ petitions accounts, o.validate plainFc = .ok ())
    (hok : TransitionSystem.Along (fun db o => PrivateMessageDatabase.apply plainFc db {} o)
      (fun db o => ok db (.operation {} o)) { chain := neighbours } (petitions accounts))
    (hsome : ((petitions accounts).foldlM (fun db o => PrivateMessageDatabase.apply plainFc db {} o)
      ({ chain := neighbours } : PrivateMessageDatabase Unit)).toOption.isSome = true) :
    (privateMessageSystem plainFc).Reach ok (petitioned accounts) := by
  have hinitial : (privateMessageSystem plainFc).Reach ok { chain := neighbours } :=
    .initial ⟨neighbours, rfl⟩
  have hstep : ∀ o ∈ petitions accounts, ∀ db db' : PrivateMessageDatabase Unit,
      PrivateMessageDatabase.apply plainFc db {} o = .ok db' →
        (privateMessageSystem plainFc).step db (.operation {} o) db' := by
    intro o ho db db' hdb'
    exact ⟨hvalidate o ho, hdb'⟩
  exact hinitial.operations hstep hok (eq_ok_of_isSome hsome)

/-- Of two accounts that ask to join, one stays pending when the owner opens the group. -/
theorem stays_pending :
    ¬∀ db : PrivateMessageDatabase Unit, (privateMessageSystem plainFc).Reachable db →
      db.RolesExact ∧ ∀ (plugin : PrivateMessagePlugin) (o : PrivateMessagePluginOperation)
        (db' : PrivateMessageDatabase Unit), o.validate plainFc = .ok () →
          db.apply plainFc plugin o = .ok db' → RolesGuarded o db db' := by
  intro h
  have hreach : (privateMessageSystem plainFc).Reachable (petitioned ["bobby", "carol"]) :=
    reach_petitioned (by decide +kernel) (.of_forall (fun _ _ => trivial) _ _) (by decide +kernel)
  have hguarded := (h _ hreach).2 {} (.privateGroup opening) (openedTo ["bobby", "carol"])
    (by decide +kernel) (eq_ok_of_isSome (by decide +kernel))
  have hbefore : ((petitioned ["bobby", "carol"]).groups.find? "friends").map (·.privacy) =
      some .privateGroup := by decide +kernel
  have hafter : ((openedTo ["bobby", "carol"]).groups.find? "friends").map (·.privacy) =
      some .publicGroup := by decide +kernel
  obtain ⟨pgo, hpgo, hprivate⟩ := Option.map_eq_some_iff.mp hbefore
  obtain ⟨pgo', hpgo', hpublic⟩ := Option.map_eq_some_iff.mp hafter
  have hname : pgo.name = "friends" := Table.key_of_find? hpgo
  have hopens : Opens pgo pgo' := by
    refine ⟨?_, hpublic⟩
    rw [hprivate]
    decide
  rw [← hname] at hpgo hpgo'
  have hcarol := (hguarded.opened pgo pgo' hpgo hpgo' hopens).2 "carol"
  rw [hname] at hcarol
  revert hcarol
  decide +kernel

/-- One account that asks to join is a member when the owner has opened the group. -/
theorem opened_to_bobby : (petitioned ["bobby"]).RolesExact ∧
    RolesGuarded (.privateGroup opening) (petitioned ["bobby"]) (openedTo ["bobby"]) := by
  have hreach : (privateMessageSystem plainFc).Reach HasRoomFor (petitioned ["bobby"]) :=
    reach_petitioned (by decide +kernel) (by decide +kernel) (by decide +kernel)
  obtain ⟨hexact, hguarded⟩ := groupRoles_of_reach hreach
  refine ⟨hexact, hguarded {} (.privateGroup opening) _ ?_ (by decide +kernel)⟩
  exact eq_ok_of_isSome (by decide +kernel)

end runs

end Golos
