import Mathlib.Data.List.TakeWhile
import Golos.Freezing.Impl

/-!
This module contains what the operations do to freezings, and the invariant that follows.
-/

namespace Golos.Freezing

open Checked

namespace FreezingDatabase

variable {db db' db'' : FreezingDatabase}

/-- The freezings are the same, whatever happens to the authorities. -/
structure KeepsFreezing (db db' : FreezingDatabase) : Prop where
  accounts : ∃ f : AccountObject → AccountObject,
    (∀ a, (f a).name = a.name ∧ (f a).provedHf = a.provedHf ∧ (f a).frozen = a.frozen) ∧
    db'.accounts.rows = db.accounts.rows.map f
  freezes : db'.freezes = db.freezes
  lastHardfork : db'.lastHardfork = db.lastHardfork
  examined : db'.examined = db.examined
  inForce : db'.inForce = db.inForce

theorem KeepsFreezing.of_accounts (haccounts : db'.accounts = db.accounts)
    (hfreezes : db'.freezes = db.freezes) (hlast : db'.lastHardfork = db.lastHardfork)
    (hexamined : db'.examined = db.examined) (hinForce : db'.inForce = db.inForce) :
    db.KeepsFreezing db' := by
  refine ⟨⟨id, fun a => ⟨rfl, rfl, rfl⟩, ?_⟩, hfreezes, hlast, hexamined, hinForce⟩
  rw [haccounts, List.map_id]

theorem KeepsFreezing.trans (h : db.KeepsFreezing db') (h' : db'.KeepsFreezing db'') :
    db.KeepsFreezing db'' := by
  obtain ⟨f, hf, hrows⟩ := h.accounts
  obtain ⟨f', hf', hrows'⟩ := h'.accounts
  refine ⟨⟨f' ∘ f, ?_, ?_⟩, h'.freezes.trans h.freezes, h'.lastHardfork.trans h.lastHardfork,
    h'.examined.trans h.examined, h'.inForce.trans h.inForce⟩
  . intro a
    exact ⟨(hf' (f a)).1.trans (hf a).1, (hf' (f a)).2.1.trans (hf a).2.1,
      (hf' (f a)).2.2.trans (hf a).2.2⟩
  . rw [hrows', hrows, List.map_map]

theorem KeepsFreezing.mem (h : db.KeepsFreezing db') {a' : AccountObject}
    (ha' : a' ∈ db'.accounts.rows) :
    ∃ a ∈ db.accounts.rows, a'.name = a.name ∧ a'.provedHf = a.provedHf ∧ a'.frozen = a.frozen := by
  obtain ⟨f, hf, hrows⟩ := h.accounts
  rw [hrows] at ha'
  obtain ⟨a, ha, rfl⟩ := List.mem_map.mp ha'
  exact ⟨a, ha, hf a⟩

theorem KeepsFreezing.exists_mem (h : db.KeepsFreezing db') {a : AccountObject}
    (ha : a ∈ db.accounts.rows) :
    ∃ a' ∈ db'.accounts.rows, a'.name = a.name ∧ a'.provedHf = a.provedHf ∧
      a'.frozen = a.frozen := by
  obtain ⟨f, hf, hrows⟩ := h.accounts
  refine ⟨f a, ?_, hf a⟩
  rw [hrows]
  exact List.mem_map_of_mem ha

section spec

theorem keepsFreezing_setAuthority (db : FreezingDatabase) (name : AccountName)
    (role : AuthorityRole) (auth : Authority) :
    db.KeepsFreezing (db.setAuthority name role auth) :=
  .of_accounts rfl rfl rfl rfl rfl

theorem keepsFreezing_updateOwnerAuthority {name : AccountName} {auth : Authority}
    (h : db.updateOwnerAuthority name auth = .ok db') : db.KeepsFreezing db' := by
  simp only [updateOwnerAuthority, bind_eq_ok, pure_eq_ok] at h
  obtain ⟨_, _, rfl⟩ := h
  exact .of_accounts rfl rfl rfl rfl rfl

theorem keepsFreezing_setGiven (db : FreezingDatabase) (name : AccountName) (role : AuthorityRole)
    (auth : Option Authority) : db.KeepsFreezing (db.setGiven name role auth) := by
  cases auth with
  | none => exact .of_accounts rfl rfl rfl rfl rfl
  | some auth => exact keepsFreezing_setAuthority db name role auth

theorem keepsFreezing_updateOwner {o : AccountUpdateOperation} {auth : AccountAuthorityObject}
    (h : db.updateOwner o auth = .ok db') : db.KeepsFreezing db' := by
  unfold updateOwner at h
  split at h
  . simp only [bind_eq_ok] at h
    obtain ⟨_, _, _, _, h⟩ := h
    exact keepsFreezing_updateOwnerAuthority h
  . cases h
    exact .of_accounts rfl rfl rfl rfl rfl

theorem keepsFreezing_accountUpdate {o : AccountUpdateOperation}
    (h : db.accountUpdate o = .ok db') : db.KeepsFreezing db' := by
  simp only [accountUpdate, bind_eq_ok, pure_eq_ok] at h
  obtain ⟨_, _, _, _, db₁, howner, _, _, _, _, rfl⟩ := h
  apply (keepsFreezing_updateOwner howner).trans
  apply (keepsFreezing_setGiven db₁ o.account .active o.active).trans
  exact keepsFreezing_setGiven _ _ _ _

theorem keepsFreezing_recoverAccount {o : RecoverAccountOperation}
    (h : db.recoverAccount o = .ok db') : db.KeepsFreezing db' := by
  simp only [recoverAccount, bind_eq_ok, pure_eq_ok] at h
  obtain ⟨_, _, _, _, _, _, _, _, _, _, db₁, howner, rfl⟩ := h
  have howner := keepsFreezing_updateOwnerAuthority howner
  have herase : db.KeepsFreezing { db with requests := db.requests.erase o.accountToRecover } :=
    .of_accounts rfl rfl rfl rfl rfl
  refine (herase.trans howner).trans ⟨⟨fun a =>
    if a.name = o.accountToRecover then { a with lastAccountRecovery := db₁.headBlockTime } else a,
    ?_, rfl⟩, rfl, rfl, rfl, rfl⟩
  intro a
  dsimp only
  split
  . exact ⟨rfl, rfl, rfl⟩
  . exact ⟨rfl, rfl, rfl⟩

theorem OtherChange.keepsFreezing (h : db.OtherChange db') : db.KeepsFreezing db' :=
  ⟨h.accounts, h.freezes, h.lastHardfork, h.examined, h.inForce⟩

/-- A new account has passed all examinations of its time. -/
theorem createAccount_cases {name : AccountName} {auth : Authorities} {lastOwnerUpdate : Nat}
    (h : db.createAccount name auth lastOwnerUpdate = .ok db') :
    ∃ a : AccountObject, a.name = name ∧ a.frozen = false ∧ a.provedHf ≤ db.lastHardfork ∧
      db.accounts.emplace a = some db'.accounts ∧ db'.freezes = db.freezes ∧
      db'.lastHardfork = db.lastHardfork ∧ db'.examined = db.examined ∧
      db'.inForce = db.inForce := by
  simp only [createAccount, bind_eq_ok, get_eq_ok, pure_eq_ok] at h
  obtain ⟨_, _, _, haccounts, _, _, rfl⟩ := h
  refine ⟨_, rfl, rfl, ?_, haccounts, rfl, rfl, rfl, rfl⟩
  show (if db.hasHardfork 27 then db.lastHardfork else 0) ≤ db.lastHardfork
  split
  . exact le_refl _
  . exact Nat.zero_le _

/-- What the end of a freezing does. -/
theorem unfreeze_cases {name : AccountName} (h : db.unfreeze name = .ok db') :
    ∃ fr auth, db.freezes.find? name = some fr ∧ db.authorities.find? name = some auth ∧
      db' =
        { db with
          accounts := db.accounts.modify name fun a =>
            { a with frozen := false, provedHf := db.lastHardfork }
          authorities := db.authorities.modify name fun a =>
            { a with toAuthorities := fr.toAuthorities }
          freezes := db.freezes.erase name } := by
  simp only [unfreeze, bind_eq_ok, get_eq_ok, getAuthority, pure_eq_ok] at h
  obtain ⟨fr, hfr, auth, hauth, rfl⟩ := h
  exact ⟨fr, auth, hfr, hauth, rfl⟩

/-- Of freezings, a transfer ends the one of its receiver or none. -/
theorem transferUnfreezing_cases {receiver : AccountName} {amount : Asset}
    (h : db.transferUnfreezing receiver amount = .ok db') :
    (∃ ledger, db' = { db with ledger := ledger }) ∨
      ∃ db₁ ledger, db.unfreeze receiver = .ok db₁ ∧ db' = { db₁ with ledger := ledger } := by
  have hmove : ∀ (db₁ : FreezingDatabase) (rest : Asset), (if 0 < rest.amount then do
        let ledger ← db₁.ledger.adjustBalance receiver rest
        pure { db₁ with ledger := ledger }
      else
        pure db₁) = Except.ok (ε := ChainException) db' →
      ∃ ledger, db' = { db₁ with ledger := ledger } := by
    intro db₁ rest h
    split at h
    . simp only [bind_eq_ok, pure_eq_ok] at h
      obtain ⟨ledger, _, rfl⟩ := h
      exact ⟨ledger, rfl⟩
    . cases h
      exact ⟨db'.ledger, rfl⟩
  simp only [transferUnfreezing, bind_eq_ok] at h
  obtain ⟨enough, _, h⟩ := h
  split at h
  . simp only [bind_eq_ok, pure_eq_ok] at h
    obtain ⟨db₁, hunfreeze, _, _, _, _, _, rfl, h⟩ := h
    obtain ⟨ledger', rfl⟩ := hmove _ _ h
    exact .inr ⟨db₁, ledger', hunfreeze, rfl⟩
  . exact .inl (hmove db amount h)

theorem transfer_cases {readKey : String → Result PublicKeyType} {o : TransferOperation}
    (h : db.transfer readKey o = .ok db') :
    (∃ ledger, db' = { db with ledger := ledger }) ∨
      (∃ ledger name auth lastOwnerUpdate,
        createAccount { db with ledger := ledger } name auth lastOwnerUpdate = .ok db') ∨
      ∃ ledger db₁ ledger', unfreeze { db with ledger := ledger } o.toAccount = .ok db₁ ∧
        db' = { db₁ with ledger := ledger' } := by
  simp only [transfer, bind_eq_ok] at h
  obtain ⟨_, _, _, _, _, _, h⟩ := h
  split at h
  . simp only [bind_eq_ok] at h
    obtain ⟨⟨regAcc, pubKey⟩, _, _, _, _, _, _, _, ledger, _, h⟩ := h
    exact .inr (.inl ⟨ledger, _, _, _, h⟩)
  . simp only [bind_eq_ok] at h
    obtain ⟨_, _, _, _, ledger, _, h⟩ := h
    split at h
    . rcases transferUnfreezing_cases h with ⟨ledger', rfl⟩ | ⟨db₁, ledger', hunfreeze, rfl⟩
      . exact .inl ⟨ledger', rfl⟩
      . exact .inr (.inr ⟨ledger, db₁, ledger', hunfreeze, rfl⟩)
    . simp only [bind_eq_ok, pure_eq_ok] at h
      obtain ⟨ledger', _, rfl⟩ := h
      exact .inl ⟨ledger', rfl⟩

/-- What one examination does. -/
theorem examine_cases {acc : AccountObject} (h : db.examine acc = .ok db') :
    ∃ inactive : Bool,
      db'.accounts = db.accounts.modify acc.name (fun a =>
        { a with provedHf := db.lastHardfork, frozen := inactive }) ∧
      db'.lastHardfork = db.lastHardfork ∧
      db'.examined = db.examined ++ [(acc.name, db.lastHardfork)] ∧
      ((inactive = false ∧ db'.freezes = db.freezes ∧ db'.inForce = db.inForce) ∨
        inactive = true ∧ ∃ fr : AccountFreezeObject, fr.account = acc.name ∧
          db.freezes.emplace fr = some db'.freezes ∧
          db'.inForce = Function.update db.inForce acc.name fr.toAuthorities) := by
  simp only [examine, bind_eq_ok] at h
  obtain ⟨inactive, _, h⟩ := h
  refine ⟨inactive, ?_⟩
  split at h
  . next hinactive =>
    simp only [bind_eq_ok, get_eq_ok, pure_eq_ok] at h
    obtain ⟨auth, _, freezes, hfreezes, rfl⟩ := h
    exact ⟨rfl, rfl, rfl, .inr ⟨hinactive, _, rfl, hfreezes, rfl⟩⟩
  . next hinactive =>
    cases h
    exact ⟨rfl, rfl, rfl, .inl ⟨Bool.not_eq_true _ ▸ hinactive, rfl, rfl⟩⟩

end spec

section invariant

/-- Freezings and examinations are accounted for. -/
structure Coherent (db : FreezingDatabase) : Prop where
  frozen : ∀ a ∈ db.accounts.rows, a.frozen = (db.freezes.find? a.name).isSome
  inForce : ∀ fr ∈ db.freezes.rows, fr.toAuthorities = db.inForce fr.account
  exists_account : ∀ fr ∈ db.freezes.rows, ∃ a ∈ db.accounts.rows, a.name = fr.account
  provedHf : ∀ a ∈ db.accounts.rows, a.provedHf ≤ db.lastHardfork
  examined : ∀ x ∈ db.examined, ∃ a ∈ db.accounts.rows, a.name = x.1 ∧ x.2 ≤ a.provedHf
  nodup : db.examined.Nodup

theorem Coherent.initial (h : db.Initial) : db.Coherent := by
  have hnone : ∀ fr, fr ∉ db.freezes.rows := by
    intro fr hfr
    rw [h.freezes] at hfr
    cases hfr
  constructor
  . intro a ha
    rw [(h.accounts a ha).1, Table.find?_eq_none_iff.mpr fun fr hfr => absurd hfr (hnone fr)]
    rfl
  . intro fr hfr
    exact absurd hfr (hnone fr)
  . intro fr hfr
    exact absurd hfr (hnone fr)
  . intro a ha
    rw [(h.accounts a ha).2]
    exact Nat.zero_le _
  . intro x hx
    rw [h.examined] at hx
    cases hx
  . rw [h.examined]
    exact List.nodup_nil

theorem Coherent.keepsFreezing (h : db.Coherent) (hkeeps : db.KeepsFreezing db') :
    db'.Coherent := by
  constructor
  . intro a' ha'
    obtain ⟨a, ha, hname, _, hfrozen⟩ := hkeeps.mem ha'
    rw [hkeeps.freezes, hname, hfrozen]
    exact h.frozen a ha
  . rw [hkeeps.freezes, hkeeps.inForce]
    exact h.inForce
  . rw [hkeeps.freezes]
    intro fr hfr
    obtain ⟨a, ha, hname⟩ := h.exists_account fr hfr
    obtain ⟨a', ha', hname', _⟩ := hkeeps.exists_mem ha
    exact ⟨a', ha', hname'.trans hname⟩
  . intro a' ha'
    obtain ⟨a, ha, _, hproved, _⟩ := hkeeps.mem ha'
    rw [hproved, hkeeps.lastHardfork]
    exact h.provedHf a ha
  . rw [hkeeps.examined]
    intro x hx
    obtain ⟨a, ha, hname, hle⟩ := h.examined x hx
    obtain ⟨a', ha', hname', hproved, _⟩ := hkeeps.exists_mem ha
    exact ⟨a', ha', hname'.trans hname, hproved ▸ hle⟩
  . rw [hkeeps.examined]
    exact h.nodup

theorem Coherent.applyHardfork (h : db.Coherent) : db.applyHardfork.Coherent :=
  { h with provedHf := fun a ha => (h.provedHf a ha).trans (Nat.le_succ _) }

theorem Coherent.createAccount {name : AccountName} {auth : Authorities} {lastOwnerUpdate : Nat}
    (h : db.Coherent) (hdb : db.createAccount name auth lastOwnerUpdate = .ok db') :
    db'.Coherent := by
  obtain ⟨a, rfl, hfrozen, hproved, hemplace, hfreezes, hlast, hexamined, hinForce⟩ :=
    createAccount_cases hdb
  obtain ⟨hnew, haccounts⟩ := Table.emplace_eq_some_iff.mp hemplace
  have hmem : ∀ b, b ∈ db'.accounts.rows ↔ b ∈ db.accounts.rows ∨ b = a := by
    intro b
    rw [← haccounts, Table.mem_insert]
  constructor
  . intro b hb
    rw [hfreezes]
    rcases (hmem b).mp hb with hb | rfl
    . exact h.frozen b hb
    . rw [hfrozen, eq_comm, Option.isSome_eq_false_iff, Option.isNone_iff_eq_none,
        Table.find?_eq_none_iff]
      intro fr hfr hname
      obtain ⟨c, hc, hcname⟩ := h.exists_account fr hfr
      exact Table.find?_eq_none_iff.mp hnew c hc (hcname.trans hname)
  . rw [hfreezes, hinForce]
    exact h.inForce
  . rw [hfreezes]
    intro fr hfr
    obtain ⟨c, hc, hcname⟩ := h.exists_account fr hfr
    exact ⟨c, (hmem c).mpr (.inl hc), hcname⟩
  . intro b hb
    rw [hlast]
    rcases (hmem b).mp hb with hb | rfl
    . exact h.provedHf b hb
    . exact hproved
  . rw [hexamined]
    intro x hx
    obtain ⟨c, hc, hcname, hle⟩ := h.examined x hx
    exact ⟨c, (hmem c).mpr (.inl hc), hcname, hle⟩
  . rw [hexamined]
    exact h.nodup

/-- An account that is changed in nothing but its freezing still bears its name. -/
theorem exists_mem_modify {t : Table AccountObject.name} {a : AccountObject} (ha : a ∈ t.rows)
    (k : AccountName) (f : AccountObject → AccountObject) (hf : ∀ a, (f a).name = a.name) :
    ∃ b ∈ (t.modify k f hf).rows, b.name = a.name ∧ (b = a ∨ b = f a) := by
  by_cases hk : a.name = k
  . refine ⟨f a, Table.mem_modify.mpr (.inr ⟨a, ha, hk, rfl⟩), hf a, .inr rfl⟩
  . refine ⟨a, Table.mem_modify.mpr (.inl ⟨ha, hk⟩), rfl, .inl rfl⟩

theorem Coherent.unfreeze {name : AccountName} (h : db.Coherent)
    (hdb : db.unfreeze name = .ok db') : db'.Coherent := by
  obtain ⟨fr, _, _, _, rfl⟩ := unfreeze_cases hdb
  have hmem : ∀ a ∈ (db.accounts.modify name
      (fun a => { a with frozen := false, provedHf := db.lastHardfork }) (fun _ => rfl)).rows,
      (a ∈ db.accounts.rows ∧ a.name ≠ name) ∨
        (a.name = name ∧ a.frozen = false ∧ a.provedHf = db.lastHardfork) := by
    intro a ha
    rcases Table.mem_modify.mp ha with ha | ⟨b, _, hname, rfl⟩
    . exact .inl ha
    . exact .inr ⟨hname, rfl, rfl⟩
  constructor
  . intro a ha
    show a.frozen = ((db.freezes.erase name).find? a.name).isSome
    rcases hmem a ha with ⟨ha, hne⟩ | ⟨hname, hfrozen, _⟩
    . rw [Table.find?_erase_of_ne _ hne]
      exact h.frozen a ha
    . rw [hname, Table.find?_erase_self]
      exact hfrozen
  . intro fr' hfr'
    exact h.inForce fr' (Table.mem_erase.mp hfr').1
  . intro fr' hfr'
    obtain ⟨a, ha, hname⟩ := h.exists_account fr' (Table.mem_erase.mp hfr').1
    obtain ⟨b, hb, hbname, _⟩ := exists_mem_modify ha name
      (fun a => { a with frozen := false, provedHf := db.lastHardfork }) (fun _ => rfl)
    exact ⟨b, hb, hbname.trans hname⟩
  . intro a ha
    rcases hmem a ha with ⟨ha, _⟩ | ⟨_, _, hproved⟩
    . exact h.provedHf a ha
    . exact le_of_eq hproved
  . intro x hx
    obtain ⟨a, ha, hname, hle⟩ := h.examined x hx
    obtain ⟨b, hb, hbname, hb' | hb'⟩ := exists_mem_modify ha name
      (fun a => { a with frozen := false, provedHf := db.lastHardfork }) (fun _ => rfl)
    . exact ⟨b, hb, hbname.trans hname, hb' ▸ hle⟩
    . exact ⟨b, hb, hbname.trans hname, hb' ▸ hle.trans (h.provedHf a ha)⟩
  . exact h.nodup

theorem Coherent.ledger (h : db.Coherent) (ledger : Ledger) :
    Coherent { db with ledger := ledger } :=
  h.keepsFreezing (.of_accounts rfl rfl rfl rfl rfl)

theorem Coherent.transfer {readKey : String → Result PublicKeyType} {o : TransferOperation}
    (h : db.Coherent) (hdb : db.transfer readKey o = .ok db') : db'.Coherent := by
  rcases transfer_cases hdb with ⟨ledger, rfl⟩ | ⟨ledger, _, _, _, hcreate⟩ |
    ⟨ledger, db₁, ledger', hunfreeze, rfl⟩
  . exact h.ledger ledger
  . exact (h.ledger ledger).createAccount hcreate
  . exact ((h.ledger ledger).unfreeze hunfreeze).ledger ledger'

/-- The accounts whose turns are still to come in the loop of the examinations. -/
structure Pending (db : FreezingDatabase) (accs : List AccountObject) : Prop where
  mem : ∀ a ∈ accs, a ∈ db.accounts.rows
  frozen : ∀ a ∈ accs, a.frozen = false
  provedHf : ∀ a ∈ accs, a.provedHf < db.lastHardfork
  nodup : (accs.map AccountObject.name).Nodup

theorem Coherent.examine {acc : AccountObject} {accs : List AccountObject} (h : db.Coherent)
    (hpending : db.Pending (acc :: accs)) (hdb : db.examine acc = .ok db') :
    db'.Coherent ∧ db'.Pending accs := by
  obtain ⟨inactive, haccounts, hlast, hexamined, hcases⟩ := examine_cases hdb
  have hacc := hpending.mem acc List.mem_cons_self
  have hlt := hpending.provedHf acc List.mem_cons_self
  obtain ⟨hnot, hnodup⟩ := List.nodup_cons.mp hpending.nodup
  have hmem : ∀ b ∈ db'.accounts.rows,
      (b ∈ db.accounts.rows ∧ b.name ≠ acc.name) ∨
        b = { acc with provedHf := db.lastHardfork, frozen := inactive } := by
    intro b hb
    rw [haccounts] at hb
    rcases Table.mem_modify.mp hb with hb | ⟨c, hc, hname, rfl⟩
    . exact .inl hb
    . rw [db.accounts.mem_rows_inj hc hacc hname]
      exact .inr rfl
  have hexists : ∀ a ∈ db.accounts.rows, ∃ b ∈ db'.accounts.rows,
      b.name = a.name ∧ a.provedHf ≤ b.provedHf := by
    intro a ha
    obtain ⟨b, hb, hname, hb'⟩ := exists_mem_modify ha acc.name
      (fun a => { a with provedHf := db.lastHardfork, frozen := inactive }) (fun _ => rfl)
    refine ⟨b, haccounts ▸ hb, hname, ?_⟩
    rcases hb' with rfl | rfl
    . exact le_refl _
    . exact h.provedHf a ha
  have hself : ∃ b ∈ db'.accounts.rows, b.name = acc.name ∧ db.lastHardfork ≤ b.provedHf := by
    refine ⟨{ acc with provedHf := db.lastHardfork, frozen := inactive }, ?_, rfl, le_refl _⟩
    rw [haccounts]
    exact Table.mem_modify.mpr (.inr ⟨acc, hacc, rfl, rfl⟩)
  -- the account has no freezing yet
  have hnone : db.freezes.find? acc.name = none := by
    have := h.frozen acc hacc
    rw [hpending.frozen acc List.mem_cons_self, eq_comm, Option.isSome_eq_false_iff,
      Option.isNone_iff_eq_none] at this
    exact this
  have hnames : ∀ fr ∈ db.freezes.rows, fr.account ≠ acc.name :=
    Table.find?_eq_none_iff.mp hnone
  refine ⟨⟨?_, ?_, ?_, ?_, ?_, ?_⟩, ⟨?_, ?_, ?_, hnodup⟩⟩
  . intro b hb
    rcases hcases with ⟨rfl, hfreezes, _⟩ | ⟨rfl, fr, hfr, hemplace, _⟩
    . rw [hfreezes]
      rcases hmem b hb with ⟨hb, _⟩ | rfl
      . exact h.frozen b hb
      . rw [hnone]
        rfl
    . obtain ⟨hnew, hfreezes⟩ := Table.emplace_eq_some_iff.mp hemplace
      rw [← hfreezes, Table.find?_insert]
      rcases hmem b hb with ⟨hb, hne⟩ | rfl
      . rw [if_neg fun heq => hne (heq.symm.trans hfr)]
        exact h.frozen b hb
      . rw [if_pos hfr]
        rfl
  . rcases hcases with ⟨rfl, hfreezes, hinForce⟩ | ⟨rfl, fr, hfr, hemplace, hinForce⟩
    . rw [hfreezes, hinForce]
      exact h.inForce
    . obtain ⟨hnew, hfreezes⟩ := Table.emplace_eq_some_iff.mp hemplace
      rw [← hfreezes, hinForce]
      intro fr' hfr'
      rcases (Table.mem_insert hnew).mp hfr' with hfr' | rfl
      . rw [Function.update_of_ne (hnames fr' hfr')]
        exact h.inForce fr' hfr'
      . rw [hfr, Function.update_self]
  . rcases hcases with ⟨rfl, hfreezes, _⟩ | ⟨rfl, fr, hfr, hemplace, _⟩
    . rw [hfreezes]
      intro fr' hfr'
      obtain ⟨a, ha, hname⟩ := h.exists_account fr' hfr'
      obtain ⟨b, hb, hbname, _⟩ := hexists a ha
      exact ⟨b, hb, hbname.trans hname⟩
    . obtain ⟨hnew, hfreezes⟩ := Table.emplace_eq_some_iff.mp hemplace
      rw [← hfreezes]
      intro fr' hfr'
      rcases (Table.mem_insert hnew).mp hfr' with hfr' | rfl
      . obtain ⟨a, ha, hname⟩ := h.exists_account fr' hfr'
        obtain ⟨b, hb, hbname, _⟩ := hexists a ha
        exact ⟨b, hb, hbname.trans hname⟩
      . obtain ⟨b, hb, hbname, _⟩ := hself
        exact ⟨b, hb, hbname.trans hfr.symm⟩
  . intro b hb
    rw [hlast]
    rcases hmem b hb with ⟨hb, _⟩ | rfl
    . exact h.provedHf b hb
    . exact le_refl _
  . rw [hexamined]
    intro x hx
    rw [List.mem_append, List.mem_singleton] at hx
    rcases hx with hx | rfl
    . obtain ⟨a, ha, hname, hle⟩ := h.examined x hx
      obtain ⟨b, hb, hbname, hble⟩ := hexists a ha
      exact ⟨b, hb, hbname.trans hname, hle.trans hble⟩
    . exact hself
  . rw [hexamined, List.nodup_append']
    refine ⟨h.nodup, List.nodup_singleton _, ?_⟩
    rw [List.disjoint_singleton]
    intro hx
    obtain ⟨a, ha, hname, hle⟩ := h.examined _ hx
    have heq := db.accounts.mem_rows_inj ha hacc hname
    subst heq
    exact absurd hle (not_le.mpr hlt)
  . intro a ha
    rw [haccounts]
    refine Table.mem_modify.mpr (.inl ⟨hpending.mem a (List.mem_cons_of_mem _ ha), ?_⟩)
    intro hname
    exact hnot (hname ▸ List.mem_map_of_mem ha)
  . intro a ha
    exact hpending.frozen a (List.mem_cons_of_mem _ ha)
  . intro a ha
    rw [hlast]
    exact hpending.provedHf a (List.mem_cons_of_mem _ ha)

theorem Coherent.processAccountFreezing {byProved : List AccountObject} (h : db.Coherent)
    (hindex : db.IsByProved byProved)
    (hdb : db.processAccountFreezing byProved = .ok db') : db'.Coherent := by
  unfold FreezingDatabase.processAccountFreezing at hdb
  split at hdb
  . have hsub := (List.take_sublist 100 _).trans (List.takeWhile_sublist
      (fun acc : AccountObject => !acc.frozen && decide (acc.provedHf < db.lastHardfork))
      (l := byProved))
    have hpending : db.Pending ((byProved.takeWhile fun acc =>
        !acc.frozen && acc.provedHf < db.lastHardfork).take 100) := by
      constructor
      . intro a ha
        exact hindex.perm.mem_iff.mp (hsub.subset ha)
      . intro a ha
        have := List.mem_takeWhile_imp (List.mem_of_mem_take ha)
        simp only [Bool.and_eq_true, Bool.not_eq_true'] at this
        exact this.1
      . intro a ha
        have := List.mem_takeWhile_imp (List.mem_of_mem_take ha)
        simp only [Bool.and_eq_true, decide_eq_true_eq] at this
        exact this.2
      . exact ((hindex.perm.map AccountObject.name).nodup_iff.mpr db.accounts.nodup).sublist
          (hsub.map AccountObject.name)
    have hloop := foldlM_invariant (P := fun db accs => Coherent db ∧ Pending db accs)
      (fun db db' acc accs h hdb => h.1.examine h.2 hdb) ⟨h, hpending⟩ hdb
    exact hloop.1
  . cases hdb
    exact h

theorem Coherent.step {readKey : String → Result PublicKeyType} {e : FreezingEvent}
    (h : db.Coherent) (hstep : db.Step readKey e db') : db'.Coherent := by
  cases e with
  | transfer o => exact h.transfer hstep
  | accountUpdate o => exact h.keepsFreezing (keepsFreezing_accountUpdate hstep)
  | recoverAccount o => exact h.keepsFreezing (keepsFreezing_recoverAccount hstep)
  | createAccount name auth lastOwnerUpdate => exact h.createAccount hstep
  | processAccountFreezing =>
    obtain ⟨byProved, hindex, hdb⟩ := hstep
    exact h.processAccountFreezing hindex hdb
  | applyHardfork =>
    have hstep : db' = db.applyHardfork := hstep
    exact hstep ▸ h.applyHardfork
  | setAuthority name role auth =>
    have hstep : db' = db.setAuthority name role auth := hstep
    exact hstep ▸ h.keepsFreezing (keepsFreezing_setAuthority db name role auth)
  | other => exact h.keepsFreezing (OtherChange.keepsFreezing hstep)

theorem Coherent.of_reachable {readKey : String → Result PublicKeyType}
    (h : (freezingSystem readKey).Reachable db) : db.Coherent :=
  h.invariant (fun _ => .initial) fun _ _ _ hcoherent _ hstep => hcoherent.step hstep

end invariant

end FreezingDatabase

end Golos.Freezing
