import Golos.Freezing.Lemmas

/-!
This module contains what becomes of the authorities of an account that was frozen.
-/

namespace Golos.Freezing

open Checked

namespace FreezingDatabase

variable {db db' : FreezingDatabase}

/-- The authority of an account in a role, if there is such an account. -/
def authorityOf (db : FreezingDatabase) (name : AccountName) (role : AuthorityRole) :
    Option Authority :=
  (db.authorities.find? name).map fun a => a.toAuthorities.get role

def isFrozen (db : FreezingDatabase) (name : AccountName) : Bool :=
  (db.accounts.find? name).any AccountObject.frozen

/-- The account has the authorities of its freezing again, except those written since. -/
def KeepsAuthorities (db db' : FreezingDatabase) (name : AccountName) : Prop :=
  ∀ role, db'.authorityOf name role =
    if db.changed name role then
      db.authorityOf name role
    else
      some ((db.inForce name).get role)

/-- What was written since the freezing is what was in force at the freezing. -/
def Restored (db : FreezingDatabase) (name : AccountName) : Prop :=
  ∀ role, db.changed name role = true →
    db.authorityOf name role = some ((db.inForce name).get role)

theorem isFrozen_iff {name : AccountName} :
    db.isFrozen name = true ↔ ∃ a ∈ db.accounts.rows, a.name = name ∧ a.frozen = true := by
  unfold isFrozen
  rw [Option.any_eq_true]
  constructor
  . rintro ⟨a, ha, hfrozen⟩
    exact ⟨a, Table.mem_of_find? ha, Table.key_of_find? ha, hfrozen⟩
  . rintro ⟨a, ha, rfl, hfrozen⟩
    exact ⟨a, Table.find?_of_mem ha, hfrozen⟩

/-- The end of a freezing leaves the other accounts as they are. -/
theorem isFrozen_unfreeze_of_ne {name other : AccountName} (hne : other ≠ name)
    (h : db.unfreeze name = .ok db') : db'.isFrozen other = db.isFrozen other := by
  obtain ⟨fr, auth, _, _, rfl⟩ := unfreeze_cases h
  unfold isFrozen
  dsimp only
  rw [Table.find?_modify_of_ne _ _ _ hne]

/-- The end of a freezing brings the stored authorities back, whatever they are now. -/
theorem authorityOf_unfreeze {name : AccountName} (hcoherent : db.Coherent)
    (h : db.unfreeze name = .ok db') (role : AuthorityRole) :
    db'.authorityOf name role = some ((db.inForce name).get role) := by
  obtain ⟨fr, auth, hfr, hauth, rfl⟩ := unfreeze_cases h
  have hstored := hcoherent.inForce fr (Table.mem_of_find? hfr)
  rw [Table.key_of_find? hfr] at hstored
  unfold authorityOf
  dsimp only
  rw [Table.find?_modify_self, hauth, Option.map_some, Option.map_some, hstored]

theorem keepsAuthorities_iff {name : AccountName}
    (h : ∀ role, db'.authorityOf name role = some ((db.inForce name).get role)) :
    db.KeepsAuthorities db' name ↔ db.Restored name := by
  unfold KeepsAuthorities Restored
  apply forall_congr'
  intro role
  rw [h role]
  split
  . next hchanged =>
    exact ⟨fun heq _ => heq.symm, fun hrestored => (hrestored hchanged).symm⟩
  . next hchanged =>
    exact ⟨fun _ hchanged' => absurd hchanged' hchanged, fun _ => rfl⟩

/-- A transfer that ends a freezing does so for its receiver. -/
theorem transfer_unfreezes {readKey : String → Result PublicKeyType} {o : TransferOperation}
    {name : AccountName} (h : db.transfer readKey o = .ok db') (hfrozen : db.isFrozen name = true)
    (hafter : db'.isFrozen name = false) :
    ∃ ledger db₁ ledger', unfreeze { db with ledger := ledger } name = .ok db₁ ∧
      db' = { db₁ with ledger := ledger' } := by
  rcases transfer_cases h with ⟨ledger, rfl⟩ | ⟨ledger, _, _, _, hcreate⟩ |
    ⟨ledger, db₁, ledger', hunfreeze, rfl⟩
  . exact absurd (hfrozen.symm.trans hafter) (by decide)
  . -- all the old accounts are still there
    obtain ⟨a, _, _, _, hemplace, _⟩ := createAccount_cases hcreate
    obtain ⟨hnew, haccounts⟩ := Table.emplace_eq_some_iff.mp hemplace
    obtain ⟨b, hb, hname, hb'⟩ := isFrozen_iff.mp hfrozen
    have : db'.isFrozen name = true := by
      rw [isFrozen_iff]
      exact ⟨b, haccounts ▸ (Table.mem_insert hnew).mpr (.inl hb), hname, hb'⟩
    exact absurd (this.symm.trans hafter) (by decide)
  . by_cases hname : name = o.toAccount
    . subst hname
      exact ⟨ledger, db₁, ledger', hunfreeze, rfl⟩
    . have := isFrozen_unfreeze_of_ne hname hunfreeze
      exact absurd ((hfrozen.symm.trans this.symm).trans hafter) (by decide)

theorem count_freezes (h : db.Coherent) {a : AccountObject} (ha : a ∈ db.accounts.rows) :
    (db.freezes.rows.filter fun fr => fr.account = a.name).length = if a.frozen then 1 else 0 := by
  rw [h.frozen a ha]
  cases hfind : db.freezes.find? a.name with
  | none =>
    rw [List.filter_eq_nil_iff.mpr]
    . rfl
    . intro fr hfr
      rw [decide_eq_true_eq]
      exact Table.find?_eq_none_iff.mp hfind fr hfr
  | some fr =>
    have hnodup := db.freezes.nodup.of_map.filter fun fr => fr.account = a.name
    rw [(List.perm_singleton).mp ((List.perm_ext_iff_of_nodup hnodup (List.nodup_singleton fr)).mpr
      fun fr' => ?_)]
    . rfl
    . rw [List.mem_filter, List.mem_singleton, decide_eq_true_eq]
      constructor
      . rintro ⟨hfr', hname⟩
        exact db.freezes.mem_rows_inj hfr' (Table.mem_of_find? hfind)
          (hname.trans (Table.key_of_find? hfind).symm)
      . rintro rfl
        exact ⟨Table.mem_of_find? hfind, Table.key_of_find? hfind⟩

/-- Examinations and freezings are kept account of in every run, and a transfer that ends a freezing
keeps what was written since exactly if that is what the freezing stored. -/
theorem freezing_of_reachable {readKey : String → Result PublicKeyType}
    (h : (freezingSystem readKey).Reachable db) :
    (db.examined.Nodup ∧
      ∀ a ∈ db.accounts.rows, (db.freezes.rows.filter fun fr => fr.account = a.name).length =
        if a.frozen then 1 else 0) ∧
    ∀ o db' name, db.transfer readKey o = .ok db' → db.isFrozen name = true →
      db'.isFrozen name = false → (db.KeepsAuthorities db' name ↔ db.Restored name) := by
  have hcoherent := Coherent.of_reachable h
  refine ⟨⟨hcoherent.nodup, fun a ha => count_freezes hcoherent ha⟩, ?_⟩
  intro o db' name htransfer hfrozen hafter
  obtain ⟨ledger, db₁, ledger', hunfreeze, rfl⟩ := transfer_unfreezes htransfer hfrozen hafter
  apply keepsAuthorities_iff
  intro role
  exact authorityOf_unfreeze (hcoherent.ledger ledger) hunfreeze role

section stolen

/-- An authority of a single key. -/
def keyAuthority (key : PublicKeyType) : Authority where
  weightThreshold := 1
  keyAuths := [(key, 1)]

def keyAuthorities (key : PublicKeyType) : Authorities :=
  ⟨keyAuthority key, keyAuthority key, keyAuthority key⟩

/-- Alice has little, and bob has enough to stay active. -/
def genesis : FreezingDatabase where
  ledger :=
    { accounts := ((Table.empty.insert { name := "alice" } rfl).insert
        { name := "bob", balance := 200000 } (by decide)).insert { name := "workers" } (by decide) }
  accounts := ((Table.empty.insert { name := "alice" } rfl).insert { name := "bob" }
    (by decide)).insert { name := "workers" } (by decide)
  authorities := Table.empty.insert
    { toAuthorities := keyAuthorities 1, account := "alice" } rfl

/-- All hardforks up to the one that freezes, and some time. -/
def beforeTheft : FreezingDatabase :=
  { applyHardfork^[27] genesis with headBlockNum := 1, headBlockTime := 10000 }

/-- Key 2 is the key of a thief. -/
def afterTheft : FreezingDatabase :=
  (beforeTheft.accountUpdate
    { account := "alice", owner := some (keyAuthority 2) }).toOption.getD {}

def afterFreezing : FreezingDatabase :=
  (afterTheft.processAccountFreezing afterTheft.accounts.rows).toOption.getD {}

/-- The recovery partner of alice asks for key 3. -/
def afterRequest : FreezingDatabase :=
  { afterFreezing with
    headBlockTime := 20000
    requests := Table.empty.insert
      { accountToRecover := "alice", newOwnerAuthority := keyAuthority 3, expires := 86400 } rfl }

def afterRecovery : FreezingDatabase :=
  (afterRequest.recoverAccount
    { accountToRecover := "alice"
      newOwnerAuthority := keyAuthority 3
      recentOwnerAuthority := keyAuthority 1 }).toOption.getD {}

def giftToAlice : TransferOperation where
  fromAccount := "bob"
  toAccount := "alice"
  amount := ⟨1, steemSymbol⟩
  memo := ""

def noKey (_ : String) : Result PublicKeyType :=
  throw (.assertException "key")

def afterGift : FreezingDatabase :=
  (afterRecovery.transfer noKey giftToAlice).toOption.getD {}

/-- Blocks pass, and a recovery is asked for. -/
theorem otherChange_requests (db : FreezingDatabase) (headBlockNum headBlockTime : Nat)
    (requests : Table AccountRecoveryRequestObject.accountToRecover) :
    db.OtherChange
      { db with
        headBlockNum := headBlockNum
        headBlockTime := headBlockTime
        requests := requests } :=
  ⟨⟨id, fun _ => ⟨rfl, rfl, rfl⟩, (List.map_id _).symm⟩, rfl, rfl, rfl, rfl, rfl, rfl⟩

theorem reachable_afterFreezing : (freezingSystem noKey).Reachable afterFreezing := by
  have hgenesis : (freezingSystem noKey).Reachable genesis := by
    apply TransitionSystem.Reach.initial
    constructor
    . show ∀ a ∈ genesis.accounts.rows, a.frozen = false ∧ a.provedHf = 0
      decide
    . rfl
    . rfl
    . rfl
  have hhardforks : ∀ n, (freezingSystem noKey).Reachable (applyHardfork^[n] genesis) := by
    intro n
    induction n with
    | zero => exact hgenesis
    | succ n ih =>
      rw [Function.iterate_succ_apply']
      exact .step (e := .applyHardfork) ih trivial rfl
  have hbefore : (freezingSystem noKey).Reachable beforeTheft :=
    .step (e := .other) (hhardforks 27) trivial (otherChange_requests _ 1 10000 _)
  have htheft : beforeTheft.accountUpdate
      { account := "alice", owner := some (keyAuthority 2) } = .ok afterTheft :=
    eq_ok_of_isSome (by decide +kernel)
  have hfreezing : afterTheft.processAccountFreezing afterTheft.accounts.rows =
      .ok afterFreezing :=
    eq_ok_of_isSome (by decide +kernel)
  have hindex : afterTheft.IsByProved afterTheft.accounts.rows := by
    refine ⟨.refl _, ?_⟩
    decide +kernel
  have hstolen : (freezingSystem noKey).Reachable afterTheft :=
    .step (e := .accountUpdate _) hbefore trivial htheft
  exact .step (e := .processAccountFreezing) hstolen trivial ⟨_, hindex, hfreezing⟩

theorem reachable_afterRecovery : (freezingSystem noKey).Reachable afterRecovery := by
  have hrecovery : afterRequest.recoverAccount
      { accountToRecover := "alice"
        newOwnerAuthority := keyAuthority 3
        recentOwnerAuthority := keyAuthority 1 } = .ok afterRecovery :=
    eq_ok_of_isSome (by decide +kernel)
  have hrequest : (freezingSystem noKey).Reachable afterRequest :=
    .step (e := .other) reachable_afterFreezing trivial (otherChange_requests _ _ 20000 _)
  exact .step (e := .recoverAccount _) hrequest trivial hrecovery

/-- Without the recovery the gift is harmless. -/
theorem freezing_of_reachable_gift :
    afterFreezing.KeepsAuthorities
      ((afterFreezing.transfer noKey giftToAlice).toOption.getD {}) "alice" := by
  have htransfer : afterFreezing.transfer noKey giftToAlice =
      .ok ((afterFreezing.transfer noKey giftToAlice).toOption.getD {}) :=
    eq_ok_of_isSome (by decide +kernel)
  have hunchanged : ∀ role, afterFreezing.changed "alice" role = false := by
    intro role
    cases role with
    | owner => decide +kernel
    | active => decide +kernel
    | posting => decide +kernel
  apply ((freezing_of_reachable reachable_afterFreezing).2 giftToAlice _ "alice" htransfer
    (by decide +kernel) (by decide +kernel)).mpr
  intro role hchanged
  exact absurd (hchanged.symm.trans (hunchanged role)) (by decide)

/-- Alice has recovered her account, and a gift brings the key of the thief back. -/
theorem recovered_owner_lost :
    (freezingSystem noKey).Reachable afterRecovery ∧
      afterRecovery.transfer noKey giftToAlice = .ok afterGift ∧
      afterRecovery.isFrozen "alice" = true ∧ afterGift.isFrozen "alice" = false ∧
      afterRecovery.authorityOf "alice" .owner = some (keyAuthority 3) ∧
      afterRecovery.changed "alice" .owner = true ∧
      afterGift.authorityOf "alice" .owner = some (keyAuthority 2) ∧
      ¬afterRecovery.KeepsAuthorities afterGift "alice" := by
  have htransfer : afterRecovery.transfer noKey giftToAlice = .ok afterGift :=
    eq_ok_of_isSome (by decide +kernel)
  have hrecovered : afterRecovery.authorityOf "alice" .owner = some (keyAuthority 3) := by
    decide +kernel
  have hchanged : afterRecovery.changed "alice" .owner = true := by decide +kernel
  have hlost : afterGift.authorityOf "alice" .owner = some (keyAuthority 2) := by
    decide +kernel
  refine ⟨reachable_afterRecovery, htransfer, by decide +kernel, by decide +kernel, hrecovered,
    hchanged, hlost, ?_⟩
  intro hkeeps
  have howner := hkeeps .owner
  rw [if_pos hchanged, hrecovered, hlost] at howner
  exact absurd howner (by decide +kernel)

end stolen

end FreezingDatabase

end Golos.Freezing
