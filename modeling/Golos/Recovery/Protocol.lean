import Golos.Recovery.Lemmas

/-!
This module contains the runs in which accounts are recovered, and what a recovery, a replaced owner
authority and a changed recovery account go back to in all of them.
-/

namespace Golos

open Checked

namespace RecoveryDatabase

inductive Event
  | requestAccountRecovery (op : RequestAccountRecoveryOperation)
  | recoverAccount (op : RecoverAccountOperation)
  | changeRecoveryAccount (op : ChangeRecoveryAccountOperation)
  | accountUpdate (op : AccountUpdateOperation)
  | blockEnd (time : Nat)
  | hardfork23
  /-- What hardfork 27 does to the registrator. -/
  | createRegistratorAccount
  | fixRecoveryAccounts
  /-- The transit. -/
  | liberateGolosClassic
  /-- `update_owner_authority` at other places. -/
  | updateOwnerAuthority (account : AccountName) (ownerAuthority : Authority)
  | other

namespace Event

/-- The event is about the request for a recovery of the account. -/
def serves (account : AccountName) : Event → Bool
  | requestAccountRecovery op => op.accountToRecover = account
  | recoverAccount op => op.accountToRecover = account
  | _ => false

def changes (account : AccountName) : Event → Bool
  | changeRecoveryAccount op => op.accountToRecover = account
  | _ => false

def replaces (account : AccountName) : Event → Bool
  | accountUpdate op => op.account = account && op.owner.isSome
  | recoverAccount op => op.accountToRecover = account
  | updateOwnerAuthority account' _ => account' = account
  | _ => false

/-- No request is made, served or cancelled, and nothing is remembered. -/
def keepsRecords : Event → Bool
  | hardfork23 => true
  | createRegistratorAccount => true
  | fixRecoveryAccounts => true
  | liberateGolosClassic => true
  | other => true
  | _ => false

end Event

/--
All else that happens: accounts are created, frozen and unfrozen, witnesses are voted for, and owner
authorities are cleared with no record.
-/
structure OtherChange (db db' : RecoveryDatabase) : Prop where
  head : db'.headBlockTime = db.headBlockTime ∧ db'.headBlockNum = db.headBlockNum
  requests : db'.recovery.requests = db.recovery.requests
  history : db'.recovery.ownerAuthorityHistory = db.recovery.ownerAuthorityHistory
  changeRequests : db'.changeRequests = db.changeRequests
  recoveryAccount : ∀ name, (db.recovery.staking.accounts.find? name).isSome →
    db'.recoveryAccount name = db.recoveryAccount name

def Step (db : RecoveryDatabase) : Event → RecoveryDatabase → Prop
  | .requestAccountRecovery op, db' =>
    op.validate = .ok () ∧ db.requestAccountRecovery op = .ok db'
  | .recoverAccount op, db' => op.validate = .ok () ∧ db.recoverAccount op = .ok db'
  | .changeRecoveryAccount op, db' =>
    op.validate = .ok () ∧ db.changeRecoveryAccount op = .ok db'
  | .accountUpdate op, db' => db.accountUpdate op = .ok db'
  | .blockEnd time, db' => db.headBlockTime < time ∧ db.blockEnd time = .ok db'
  | .hardfork23, db' => db.clearRecoveryAccount workerPoolAccount = .ok db'
  -- the authorities of the registrator are cleared besides
  | .createRegistratorAccount, db' =>
    ∃ cleared, db.clearRecoveryAccount steemitRegistratorAccount = .ok cleared ∧
      OtherChange cleared db'
  | .fixRecoveryAccounts, db' => db' = db.fixRecoveryAccounts
  -- balances are moved and authorities cleared besides
  | .liberateGolosClassic, db' => OtherChange db.liberateGolosClassic db'
  | .updateOwnerAuthority account ownerAuthority, db' =>
    db.recovery.updateOwnerAuthority account ownerAuthority = .ok db'.recovery ∧
      db' = { db with recovery := db'.recovery }
  | .other, db' => OtherChange db db'

open LiberationHardfork in
/-- What the hardforks and the transit make of the recovery account of `name`. -/
def OneOff (db : RecoveryDatabase) (name newRecoveryAccount : AccountName) : Event → Prop
  | .hardfork23 => name = workerPoolAccount ∧ newRecoveryAccount = ""
  | .createRegistratorAccount => name = steemitRegistratorAccount ∧ newRecoveryAccount = ""
  | .fixRecoveryAccounts =>
    db.recoveryAccount name = "gc-regfund" ∧ newRecoveryAccount = steemitRecoveryAccount
  | .liberateGolosClassic =>
    db.recoveryAccount name ∈ accountsForFreeze ∧ newRecoveryAccount = accRegfund.beneficiary
  | _ => False

/-- The runs from a state in which nothing has been asked for or replaced. -/
def recovering : TransitionSystem RecoveryDatabase Event where
  initial db := db.recovery.requests = .empty ∧ db.recovery.ownerAuthorityHistory = [] ∧
    db.changeRequests = .empty
  step := Step

variable {past : List (RecoveryDatabase × Event)} {db db' : RecoveryDatabase} {e : Event}

theorem OtherChange.of_records {before : RecoveryDatabase} (h : OtherChange db db')
    (hrecords : SameRecords before db) : SameRecords before db' where
  head := h.head.1.trans hrecords.head
  requests := h.requests.trans hrecords.requests
  history := h.history.trans hrecords.history
  changeRequests := h.changeRequests.trans hrecords.changeRequests

theorem sameRecords_of_step (he : e.keepsRecords = true) (hstep : Step db e db') :
    SameRecords db db' := by
  cases e with
  | hardfork23 => exact (sameButRecovery_of_clearRecoveryAccount hstep).records
  | createRegistratorAccount =>
    obtain ⟨cleared, hcleared, hother⟩ := hstep
    exact hother.of_records (sameButRecovery_of_clearRecoveryAccount hcleared).records
  | fixRecoveryAccounts =>
    cases hstep
    exact ⟨rfl, rfl, rfl, rfl⟩
  | liberateGolosClassic => exact hstep.of_records (liberated_recoveryAccount db).1.records
  | other => exact hstep.of_records ⟨rfl, rfl, rfl, rfl⟩
  | _ => cases he

section requests

/--
The latest that happened about requests for the account is that its partner of then asked for this
authority.
-/
def AskedAt (past : List (RecoveryDatabase × Event)) (account : AccountName)
    (authority : Authority) (time : Nat) : Prop :=
  ∃ db₀ op, past.find? (fun step => step.2.serves account) =
      some (db₀, .requestAccountRecovery op) ∧
    db₀.IsPartner account op.recoveryAccount ∧ op.newOwnerAuthority = authority ∧
      db₀.headBlockTime = time

/-- Every request is one that still holds. -/
def Requested (past : List (RecoveryDatabase × Event)) (db : RecoveryDatabase) : Prop :=
  ∀ r ∈ db.recovery.requests.rows, r.newOwnerAuthority.weightThreshold ≠ 0 ∧
    r.newOwnerAuthority.isImpossible = false ∧ db.headBlockTime < r.expires ∧
      ∃ time, AskedAt past r.accountToRecover r.newOwnerAuthority time ∧
        r.expires = time + steemitAccountRecoveryRequestExpirationPeriod

theorem askedAt_cons {account : AccountName} {authority : Authority} {time : Nat}
    (h : AskedAt past account authority time) (he : e.serves account = false) :
    AskedAt ((db, e) :: past) account authority time := by
  obtain ⟨db₀, op, hlatest, hpartner, hnew, htime⟩ := h
  refine ⟨db₀, op, ?_, hpartner, hnew, htime⟩
  rw [List.find?_cons_of_neg]
  . exact hlatest
  . rw [he]
    exact Bool.false_ne_true

/-- A step that only takes requests away, and about no other. -/
theorem Requested.of_subset (h : Requested past db)
    (hrows : ∀ r ∈ db'.recovery.requests.rows, r ∈ db.recovery.requests.rows ∧
      e.serves r.accountToRecover = false ∧ db'.headBlockTime < r.expires) :
    Requested ((db, e) :: past) db' := by
  intro r hr
  obtain ⟨hin, hserves, hleft⟩ := hrows r hr
  obtain ⟨hopen, himpossible, -, time, hasked, hexpires⟩ := h r hin
  exact ⟨hopen, himpossible, hleft, time, askedAt_cons hasked hserves, hexpires⟩

theorem Requested.of_same (h : Requested past db) (hrequests : db'.recovery.requests = db.recovery.requests)
    (hhead : db'.headBlockTime = db.headBlockTime) (he : ∀ account, e.serves account = false) :
    Requested ((db, e) :: past) db' := by
  apply h.of_subset
  rw [hrequests, hhead]
  intro r hr
  exact ⟨hr, he _, (h r hr).2.2.1⟩

theorem Requested.step (h : Requested past db) (hstep : Step db e db') :
    Requested ((db, e) :: past) db' := by
  cases e with
  | requestAccountRecovery op =>
    obtain ⟨-, hrequest⟩ := hstep
    obtain ⟨hpartner, ⟨⟨htime, -⟩, -, -, -⟩, hrows⟩ := requests_of_requestAccountRecovery hrequest
    intro r hr
    rcases hrows r hr with ⟨hin, hother⟩ | ⟨rfl, hopen, himpossible⟩
    . obtain ⟨hopen, himpossible, hleft, time, hasked, hexpires⟩ := h r hin
      refine ⟨hopen, himpossible, by rwa [htime], time, askedAt_cons hasked ?_, hexpires⟩
      exact decide_eq_false (Ne.symm hother)
    . refine ⟨hopen, himpossible, ?_, db.headBlockTime, ⟨db, op, ?_, hpartner, rfl, rfl⟩, rfl⟩
      . rw [htime]
        exact Nat.lt_add_of_pos_right (by decide)
      . rw [List.find?_cons_of_pos]
        exact decide_eq_true rfl
  | recoverAccount op =>
    obtain ⟨-, hrecover⟩ := hstep
    simp only [recoverAccount, bind_eq_ok, pure_eq_ok] at hrecover
    obtain ⟨recovery, hrecovery, rfl⟩ := hrecover
    have hrecovers := recovers_of_recoverAccount hrecovery
    apply h.of_subset
    intro r hr
    dsimp only at hr
    rw [hrecovers.served, Table.mem_erase] at hr
    obtain ⟨hin, hother⟩ := hr
    refine ⟨hin, decide_eq_false (Ne.symm hother), ?_⟩
    dsimp only [headBlockTime]
    rw [hrecovers.head.1]
    exact (h r hin).2.2.1
  | changeRecoveryAccount op =>
    obtain ⟨-, hchange⟩ := hstep
    obtain ⟨changeRequests, rfl, -⟩ := changeRequests_of_changeRecoveryAccount hchange
    exact h.of_same rfl rfl fun _ => rfl
  | accountUpdate op =>
    rcases accountUpdate_cases hstep with ⟨-, rfl⟩ | ⟨owner, -, hupdate, -⟩
    . exact h.of_same rfl rfl fun _ => rfl
    . obtain ⟨-, -, -, hrequests, hstaking, -⟩ := remembers_of_updateOwnerAuthority hupdate
      exact h.of_same hrequests (congrArg Staking.headBlockTime hstaking) fun _ => rfl
  | blockEnd time =>
    have hended := ended_of_blockEnd hstep.2
    apply h.of_subset
    intro r hr
    obtain ⟨hin, hleft⟩ := hended.requests r hr
    rw [hended.head]
    exact ⟨hin, rfl, hleft⟩
  | updateOwnerAuthority account ownerAuthority =>
    obtain ⟨-, -, -, hrequests, hstaking, -⟩ := remembers_of_updateOwnerAuthority hstep.1
    exact h.of_same hrequests (congrArg Staking.headBlockTime hstaking) fun _ => rfl
  | _ =>
    have hsame := sameRecords_of_step rfl hstep
    exact h.of_same hsame.requests hsame.head fun _ => rfl

end requests

section history

/-- The history has what was replaced in the last period, in the order of time, and nothing else. -/
structure Remembered (past : List (RecoveryDatabase × Event)) (db : RecoveryDatabase) : Prop where
  recent : ∀ hist ∈ db.recovery.ownerAuthorityHistory, hist.lastValidTime ≤ db.headBlockTime ∧
    db.headBlockTime ≤ hist.lastValidTime + steemitOwnerAuthRecoveryPeriod
  owned : ∀ hist ∈ db.recovery.ownerAuthorityHistory, ∃ step ∈ past,
    step.1.ownerOf hist.account = some hist.previousOwnerAuthority ∧
      step.1.headBlockTime = hist.lastValidTime
  sorted : db.recovery.ownerAuthorityHistory.Pairwise fun hist hist' =>
    hist.lastValidTime ≤ hist'.lastValidTime
  kept : ∀ step ∈ past, ∀ account old, step.2.replaces account = true →
    step.1.ownerOf account = some old →
      steemitOwnerAuthHistoryTrackingStartBlockNum ≤ step.1.headBlockNum →
        db.headBlockTime ≤ step.1.headBlockTime + steemitOwnerAuthRecoveryPeriod →
          ⟨account, old, step.1.headBlockTime⟩ ∈ db.recovery.ownerAuthorityHistory

theorem Remembered.of_same (h : Remembered past db)
    (hhistory : db'.recovery.ownerAuthorityHistory = db.recovery.ownerAuthorityHistory)
    (hhead : db'.headBlockTime = db.headBlockTime) (he : ∀ account, e.replaces account = false) :
    Remembered ((db, e) :: past) db' := by
  constructor
  . rw [hhistory, hhead]
    exact h.recent
  . rw [hhistory]
    intro hist hin
    obtain ⟨step, hstep, howner⟩ := h.owned hist hin
    exact ⟨step, List.mem_cons_of_mem _ hstep, howner⟩
  . rw [hhistory]
    exact h.sorted
  . rw [hhistory, hhead]
    intro step hin account old hreplaces
    rcases List.mem_cons.mp hin with rfl | hin
    . rw [he] at hreplaces
      cases hreplaces
    . exact h.kept step hin account old hreplaces

/-- A step that replaces the owner authority of the account, and of no other. -/
theorem Remembered.of_remembers {account : AccountName} {auth : AccountAuthorityObject}
    (h : Remembered past db) (hauth : db.recovery.authorities.find? account = some auth)
    (hremembers : Remembers db.recovery db'.recovery account auth.owner)
    (hhead : db'.headBlockTime = db.headBlockTime)
    (he : ∀ account', e.replaces account' = true → account' = account) :
    Remembered ((db, e) :: past) db' := by
  have howner : db.ownerOf account = some auth.owner := by
    unfold ownerOf
    rw [hauth]
    rfl
  unfold Remembers at hremembers
  have hnew : ∀ hist ∈ db'.recovery.ownerAuthorityHistory,
      hist ∈ db.recovery.ownerAuthorityHistory ∨
        hist = ⟨account, auth.owner, db.headBlockTime⟩ := by
    rw [hremembers]
    intro hist hin
    split at hin
    . rcases List.mem_append.mp hin with hin | hin
      . exact .inl hin
      . exact .inr (List.mem_singleton.mp hin)
    . exact .inl hin
  have hold : ∀ hist ∈ db.recovery.ownerAuthorityHistory,
      hist ∈ db'.recovery.ownerAuthorityHistory := by
    rw [hremembers]
    intro hist hin
    split
    . exact List.mem_append_left _ hin
    . exact hin
  constructor
  . rw [hhead]
    intro hist hin
    rcases hnew hist hin with hin | rfl
    . exact h.recent hist hin
    . exact ⟨le_rfl, Nat.le_add_right _ _⟩
  . intro hist hin
    rcases hnew hist hin with hin | rfl
    . obtain ⟨step, hstep, hstepOwner⟩ := h.owned hist hin
      exact ⟨step, List.mem_cons_of_mem _ hstep, hstepOwner⟩
    . exact ⟨(db, e), List.mem_cons_self, howner, rfl⟩
  . rw [hremembers]
    split
    . rw [List.pairwise_append]
      refine ⟨h.sorted, List.pairwise_singleton _ _, ?_⟩
      intro hist hin hist' hin'
      rw [List.mem_singleton.mp hin']
      exact (h.recent hist hin).1
    . exact h.sorted
  . rw [hhead]
    intro step hin account' old hreplaces hstepOwner hstart hrecent
    rcases List.mem_cons.mp hin with rfl | hin
    . rw [he account' hreplaces, howner] at hstepOwner
      cases hstepOwner
      rw [he account' hreplaces, hremembers, if_pos hstart]
      apply List.mem_append_right
      exact List.mem_singleton_self _
    . exact hold _ (h.kept step hin account' old hreplaces hstepOwner hstart hrecent)

theorem Remembered.blockEnd {time : Nat} (h : Remembered past db)
    (htime : db.headBlockTime < time) (hended : Ended db db' time) :
    Remembered ((db, .blockEnd time) :: past) db' := by
  have hsubset := List.dropWhile_sublist (l := db.recovery.ownerAuthorityHistory)
    fun hist => decide (hist.lastValidTime + steemitOwnerAuthRecoveryPeriod < time)
  constructor
  . rw [hended.history, hended.head]
    intro hist hin
    have hbefore := (h.recent hist (hsubset.subset hin)).1
    have hvalid := List.not_of_mem_dropWhile _ h.sorted (by
      intro a _ b _ hle hb
      rw [decide_eq_true_eq] at hb ⊢
      omega) hin
    rw [decide_eq_false_iff_not] at hvalid
    omega
  . rw [hended.history]
    intro hist hin
    obtain ⟨step, hstep, howner⟩ := h.owned hist (hsubset.subset hin)
    exact ⟨step, List.mem_cons_of_mem _ hstep, howner⟩
  . rw [hended.history]
    exact h.sorted.sublist hsubset
  . rw [hended.history, hended.head]
    intro step hin account old hreplaces howner hstart hrecent
    rcases List.mem_cons.mp hin with rfl | hin
    . cases hreplaces
    . apply List.mem_dropWhile_of_not
      . exact h.kept step hin account old hreplaces howner hstart (by omega)
      . rw [decide_eq_false_iff_not]
        exact Nat.not_lt.mpr hrecent

theorem Remembered.step (h : Remembered past db) (hstep : Step db e db') :
    Remembered ((db, e) :: past) db' := by
  cases e with
  | requestAccountRecovery op =>
    obtain ⟨-, hsame, -⟩ := requests_of_requestAccountRecovery hstep.2
    exact h.of_same hsame.history hsame.head.1 fun _ => rfl
  | recoverAccount op =>
    obtain ⟨-, hrecover⟩ := hstep
    simp only [recoverAccount, bind_eq_ok, pure_eq_ok] at hrecover
    obtain ⟨recovery, hrecovery, rfl⟩ := hrecover
    have hrecovers := recovers_of_recoverAccount hrecovery
    obtain ⟨auth, hauth, hremembers⟩ := hrecovers.remembers
    apply h.of_remembers hauth hremembers hrecovers.head.1
    intro account' hreplaces
    exact (of_decide_eq_true hreplaces).symm
  | changeRecoveryAccount op =>
    obtain ⟨changeRequests, rfl, -⟩ := changeRequests_of_changeRecoveryAccount hstep.2
    exact h.of_same rfl rfl fun _ => rfl
  | accountUpdate op =>
    rcases accountUpdate_cases hstep with ⟨hnone, rfl⟩ | ⟨owner, -, hupdate, -⟩
    . apply h.of_same rfl rfl
      intro account
      show (decide (op.account = account) && op.owner.isSome) = false
      rw [hnone, Option.isSome_none, Bool.and_false]
    . obtain ⟨auth, hauth, hremembers, -, hstaking, -⟩ :=
        remembers_of_updateOwnerAuthority hupdate
      apply h.of_remembers hauth hremembers (congrArg Staking.headBlockTime hstaking)
      intro account' hreplaces
      exact (of_decide_eq_true (Bool.and_elim_left hreplaces)).symm
  | blockEnd time => exact h.blockEnd hstep.1 (ended_of_blockEnd hstep.2)
  | updateOwnerAuthority account ownerAuthority =>
    obtain ⟨auth, hauth, hremembers, -, hstaking, -⟩ := remembers_of_updateOwnerAuthority hstep.1
    apply h.of_remembers hauth hremembers (congrArg Staking.headBlockTime hstaking)
    intro account' hreplaces
    exact (of_decide_eq_true hreplaces).symm
  | _ =>
    have hsame := sameRecords_of_step rfl hstep
    exact h.of_same hsame.history hsame.head fun _ => rfl

end history

section changes

/-- The latest that was asked for the recovery account is that it becomes this one. -/
def ChangedAt (past : List (RecoveryDatabase × Event)) (account newRecoveryAccount : AccountName)
    (time : Nat) : Prop :=
  ∃ db₀ op, past.find? (fun step => step.2.changes account) =
      some (db₀, .changeRecoveryAccount op) ∧
    op.newRecoveryAccount = newRecoveryAccount ∧ db₀.headBlockTime = time

def ChangesAsked (past : List (RecoveryDatabase × Event)) (db : RecoveryDatabase) : Prop :=
  ∀ r ∈ db.changeRequests.rows, ∃ time, ChangedAt past r.accountToRecover r.recoveryAccount time ∧
    r.effectiveOn = time + steemitOwnerAuthRecoveryPeriod

theorem changedAt_cons {account newRecoveryAccount : AccountName} {time : Nat}
    (h : ChangedAt past account newRecoveryAccount time) (he : e.changes account = false) :
    ChangedAt ((db, e) :: past) account newRecoveryAccount time := by
  obtain ⟨db₀, op, hlatest, hnew, htime⟩ := h
  refine ⟨db₀, op, ?_, hnew, htime⟩
  rw [List.find?_cons_of_neg]
  . exact hlatest
  . rw [he]
    exact Bool.false_ne_true

theorem ChangesAsked.of_subset (h : ChangesAsked past db)
    (hrows : ∀ r ∈ db'.changeRequests.rows, r ∈ db.changeRequests.rows)
    (he : ∀ account, e.changes account = false) : ChangesAsked ((db, e) :: past) db' := by
  intro r hr
  obtain ⟨time, hchanged, heffective⟩ := h r (hrows r hr)
  exact ⟨time, changedAt_cons hchanged (he _), heffective⟩

theorem ChangesAsked.of_same (h : ChangesAsked past db)
    (hrequests : db'.changeRequests = db.changeRequests)
    (he : ∀ account, e.changes account = false) : ChangesAsked ((db, e) :: past) db' := by
  apply h.of_subset ?_ he
  rw [hrequests]
  exact fun _ hr => hr

theorem ChangesAsked.step (h : ChangesAsked past db) (hstep : Step db e db') :
    ChangesAsked ((db, e) :: past) db' := by
  cases e with
  | requestAccountRecovery op =>
    obtain ⟨-, hsame, -⟩ := requests_of_requestAccountRecovery hstep.2
    exact h.of_same hsame.changeRequests fun _ => rfl
  | recoverAccount op =>
    obtain ⟨-, hrecover⟩ := hstep
    simp only [recoverAccount, bind_eq_ok, pure_eq_ok] at hrecover
    obtain ⟨recovery, -, rfl⟩ := hrecover
    exact h.of_same rfl fun _ => rfl
  | changeRecoveryAccount op =>
    obtain ⟨changeRequests, rfl, hrows⟩ := changeRequests_of_changeRecoveryAccount hstep.2
    intro r hr
    rcases hrows r hr with ⟨hin, hother⟩ | rfl
    . obtain ⟨time, hchanged, heffective⟩ := h r hin
      exact ⟨time, changedAt_cons hchanged (decide_eq_false (Ne.symm hother)), heffective⟩
    . refine ⟨db.headBlockTime, ⟨db, op, ?_, rfl, rfl⟩, rfl⟩
      rw [List.find?_cons_of_pos]
      exact decide_eq_true rfl
  | accountUpdate op =>
    rcases accountUpdate_cases hstep with ⟨-, rfl⟩ | ⟨owner, -, -, hsame⟩
    . exact h.of_same rfl fun _ => rfl
    . rw [hsame]
      exact h.of_same rfl fun _ => rfl
  | blockEnd time => exact h.of_subset (ended_of_blockEnd hstep.2).changeRequests fun _ => rfl
  | updateOwnerAuthority account ownerAuthority =>
    rw [hstep.2]
    exact h.of_same rfl fun _ => rfl
  | _ => exact h.of_same (sameRecords_of_step rfl hstep).changeRequests fun _ => rfl

/-- The recovery account of an account that is there. -/
theorem recoveryAccount_of_step (h : ChangesAsked past db) (hstep : Step db e db')
    {name : AccountName} (hname : (db.recovery.staking.accounts.find? name).isSome)
    (hne : db'.recoveryAccount name ≠ db.recoveryAccount name) :
    OneOff db name (db'.recoveryAccount name) e ∨
      ∃ time, ChangedAt past name (db'.recoveryAccount name) time ∧
        time + steemitOwnerAuthRecoveryPeriod ≤ db'.headBlockTime := by
  cases e with
  | requestAccountRecovery op =>
    obtain ⟨-, hsame, -⟩ := requests_of_requestAccountRecovery hstep.2
    exact absurd (congrFun hsame.recoveryAccount name) hne
  | recoverAccount op =>
    obtain ⟨-, hrecover⟩ := hstep
    simp only [recoverAccount, bind_eq_ok, pure_eq_ok] at hrecover
    obtain ⟨recovery, -, rfl⟩ := hrecover
    exact absurd rfl hne
  | changeRecoveryAccount op =>
    obtain ⟨changeRequests, rfl, -⟩ := changeRequests_of_changeRecoveryAccount hstep.2
    exact absurd rfl hne
  | accountUpdate op =>
    rcases accountUpdate_cases hstep with ⟨-, rfl⟩ | ⟨owner, -, -, hsame⟩
    . exact absurd rfl hne
    . rw [hsame] at hne
      exact absurd rfl hne
  | blockEnd time =>
    have hended := ended_of_blockEnd hstep.2
    obtain ⟨r, hr, rfl, hdue, hnew⟩ := hended.recoveryAccount name hne
    obtain ⟨asked, hchanged, heffective⟩ := h r hr
    right
    refine ⟨asked, ?_, ?_⟩
    . rw [hnew]
      exact hchanged
    . rw [hended.head, ← heffective]
      exact hdue
  | hardfork23 => exact .inl (cleared_of_clearRecoveryAccount hstep hne)
  | createRegistratorAccount =>
    obtain ⟨cleared, hcleared, hother⟩ := hstep
    have hstaking := (sameButRecovery_of_clearRecoveryAccount hcleared).staking
    rw [hother.recoveryAccount name (by rwa [hstaking])] at hne ⊢
    exact .inl (cleared_of_clearRecoveryAccount hcleared hne)
  | fixRecoveryAccounts =>
    cases hstep
    unfold fixRecoveryAccounts at hne ⊢
    dsimp only at hne ⊢
    split at hne
    . next hfund =>
      rw [if_pos hfund]
      exact .inl ⟨hfund.2, rfl⟩
    . exact absurd rfl hne
  | liberateGolosClassic =>
    obtain ⟨hsame, hliberated⟩ := liberated_recoveryAccount db
    rw [hstep.recoveryAccount name (by rwa [hsame.staking])] at hne ⊢
    exact .inl ((hliberated name).resolve_left hne)
  | updateOwnerAuthority account ownerAuthority =>
    rw [hstep.2] at hne
    exact absurd rfl hne
  | other => exact absurd (hstep.recoveryAccount name hname) hne

end changes

section runs

theorem requested_of_run (h : recovering.Run past db) : Requested past db := by
  apply h.invariant
  . rintro db ⟨hrequests, -, -⟩ r hr
    rw [hrequests] at hr
    cases hr
  . intro past db e db' hdb hstep
    exact Requested.step hdb hstep

theorem remembered_of_run (h : recovering.Run past db) : Remembered past db := by
  apply h.invariant
  . rintro db ⟨-, hhistory, -⟩
    constructor
    . rw [hhistory]
      intro hist hin
      cases hin
    . rw [hhistory]
      intro hist hin
      cases hin
    . rw [hhistory]
      exact List.Pairwise.nil
    . intro step hin
      cases hin
  . intro past db e db' hdb hstep
    exact Remembered.step hdb hstep

theorem changesAsked_of_run (h : recovering.Run past db) : ChangesAsked past db := by
  apply h.invariant
  . rintro db ⟨-, -, hrequests⟩ r hr
    rw [hrequests] at hr
    cases hr
  . intro past db e db' hdb hstep
    exact ChangesAsked.step hdb hstep

/-- What a recovery goes back to. -/
structure Entitled (past : List (RecoveryDatabase × Event)) (db db' : RecoveryDatabase)
    (op : RecoverAccountOperation) : Prop where
  owner : db'.ownerOf op.accountToRecover = some op.newOwnerAuthority
  satisfiable : op.newOwnerAuthority.weightThreshold ≠ 0 ∧ op.newOwnerAuthority.isImpossible = false
  asked : ∃ time, AskedAt past op.accountToRecover op.newOwnerAuthority time ∧
    db.headBlockTime < time + steemitAccountRecoveryRequestExpirationPeriod
  recent : ∃ step ∈ past, step.1.ownerOf op.accountToRecover = some op.recentOwnerAuthority ∧
    db.headBlockTime ≤ step.1.headBlockTime + steemitOwnerAuthRecoveryPeriod

theorem entitled_of_run {op : RecoverAccountOperation} (h : recovering.Run past db)
    (hrecover : db.recoverAccount op = .ok db') : Entitled past db db' op := by
  simp only [recoverAccount, bind_eq_ok, pure_eq_ok] at hrecover
  obtain ⟨recovery, hrecovery, rfl⟩ := hrecover
  have hrecovers := recovers_of_recoverAccount hrecovery
  obtain ⟨r, hr, hnew⟩ := hrecovers.request
  obtain ⟨hin, hkey⟩ := Table.find?_eq_some_iff.mp hr
  obtain ⟨hopen, himpossible, hleft, time, hasked, hexpires⟩ := requested_of_run h r hin
  rw [hnew] at hopen himpossible hasked
  rw [hkey] at hasked
  obtain ⟨hist, hhist, haccount, hprevious⟩ := hrecovers.recent
  have hremembered := remembered_of_run h
  obtain ⟨step, hstep, howned, hlast⟩ := hremembered.owned hist hhist
  constructor
  . exact hrecovers.owner
  . exact ⟨hopen, himpossible⟩
  . exact ⟨time, hasked, by rwa [← hexpires]⟩
  . refine ⟨step, hstep, ?_, ?_⟩
    . rw [← haccount, ← hprevious]
      exact howned
    . rw [hlast]
      exact (hremembered.recent hist hhist).2

/--
A recovery is what the account's partner asked for last, within the period of requests, and names an
owner authority of the last period; whatever was replaced within that period still serves for one; and
a recovery account becomes what was asked for last, a period before, unless a hardfork or the transit
sets it.
-/
theorem entitled_and_accepted {past : List (RecoveryDatabase × Event)}
    {db db' : RecoveryDatabase} {e : Event} (h : recovering.Run past db)
    (hstep : recovering.step db e db') :
    (∀ op, e = .recoverAccount op → Entitled past db db' op) ∧
      (∀ step ∈ past, ∀ op : RecoverAccountOperation,
        step.2.replaces op.accountToRecover = true →
          step.1.ownerOf op.accountToRecover = some op.recentOwnerAuthority →
            steemitOwnerAuthHistoryTrackingStartBlockNum ≤ step.1.headBlockNum →
              db.headBlockTime ≤ step.1.headBlockTime + steemitOwnerAuthRecoveryPeriod →
                db.recoverAccount op ≠
                  .error (.assertException "Recent authority not found in authority history.")) ∧
      ∀ name, (db.recovery.staking.accounts.find? name).isSome →
        db'.recoveryAccount name ≠ db.recoveryAccount name →
          OneOff db name (db'.recoveryAccount name) e ∨
            ∃ time, ChangedAt past name (db'.recoveryAccount name) time ∧
              time + steemitOwnerAuthRecoveryPeriod ≤ db'.headBlockTime := by
  refine ⟨?_, ?_, ?_⟩
  . rintro op rfl
    exact entitled_of_run h hstep.2
  . intro step hin op hreplaces howner hstart hrecent
    have hist := (remembered_of_run h).kept step hin _ _ hreplaces howner hstart hrecent
    unfold recoverAccount
    apply bind_ne_error
    . apply recoverAccount_ne_notRecent
      exact ⟨_, hist, rfl, rfl⟩
    . intro _ _
      apply pure_ne_error
  . intro name hname hne
    exact recoveryAccount_of_step (changesAsked_of_run h) hstep hname hne

end runs

section recovered

def ownedBy (account : AccountName) : Authority where
  weightThreshold := 1
  accountAuths := [(account, 1)]

/-- Alice's recovery account is carol. -/
def untouched : RecoveryDatabase where
  recovery :=
    { staking :=
        { accounts := ⟨[{ name := "alice" }, { name := "carol" }, { name := "intruder" }], by decide⟩
          headBlockNum := 1
          headBlockTime := 1700000000 }
      authorities := ⟨[{ account := "alice", owner := ownedBy "alice" }], by decide⟩ }
  recoveryAccount _ := "carol"

def updateOfIntruder : AccountUpdateOperation where
  account := "alice"
  owner := some (ownedBy "intruder")

def requestOfCarol : RequestAccountRecoveryOperation where
  recoveryAccount := "carol"
  accountToRecover := "alice"
  newOwnerAuthority := ownedBy "carol"

def recoveryOfAlice : RecoverAccountOperation where
  accountToRecover := "alice"
  newOwnerAuthority := ownedBy "carol"
  recentOwnerAuthority := ownedBy "alice"

def stolen : RecoveryDatabase :=
  (untouched.accountUpdate updateOfIntruder).toOption.getD untouched

def requested : RecoveryDatabase :=
  (stolen.requestAccountRecovery requestOfCarol).toOption.getD untouched

def recovered : RecoveryDatabase :=
  (requested.recoverAccount recoveryOfAlice).toOption.getD untouched

theorem accountUpdate_untouched : untouched.accountUpdate updateOfIntruder = .ok stolen :=
  eq_ok_of_isSome (by decide +kernel)

theorem requestAccountRecovery_stolen :
    stolen.requestAccountRecovery requestOfCarol = .ok requested :=
  eq_ok_of_isSome (by decide +kernel)

theorem recoverAccount_requested : requested.recoverAccount recoveryOfAlice = .ok recovered :=
  eq_ok_of_isSome (by decide +kernel)

def theft : List (RecoveryDatabase × Event) :=
  [(stolen, .requestAccountRecovery requestOfCarol), (untouched, .accountUpdate updateOfIntruder)]

theorem run_theft : recovering.Run theft requested := by
  apply TransitionSystem.Run.step
  . apply TransitionSystem.Run.step
    . exact .initial ⟨rfl, rfl, rfl⟩
    . exact accountUpdate_untouched
  . exact ⟨by decide +kernel, requestAccountRecovery_stolen⟩

theorem entitled_recovered : Entitled theft requested recovered recoveryOfAlice :=
  (entitled_and_accepted (e := .recoverAccount recoveryOfAlice) run_theft
    ⟨by decide +kernel, recoverAccount_requested⟩).1 _ rfl

/-- Carol is the recovery account of the worker pool, and hardfork 23 is about to be applied. -/
def pooled : RecoveryDatabase where
  recovery :=
    { staking :=
        { accounts := ⟨[{ name := "workers" }, { name := "carol" }], by decide⟩
          headBlockNum := 1
          headBlockTime := 1700000000 } }
  recoveryAccount _ := "carol"

/-- Nobody has asked for the change. -/
theorem hardfork23_changes_recoveryAccount :
    ¬∀ past db db' e, recovering.Run past db → recovering.step db e db' →
      ∀ name, (db.recovery.staking.accounts.find? name).isSome →
        db'.recoveryAccount name ≠ db.recoveryAccount name → e = .fixRecoveryAccounts ∨
          ∃ time, ChangedAt past name (db'.recoveryAccount name) time ∧
            time + steemitOwnerAuthRecoveryPeriod ≤ db'.headBlockTime := by
  intro h
  rcases h [] pooled _ .hardfork23 (.initial ⟨rfl, rfl, rfl⟩) rfl "workers" (by decide) (by decide)
    with hfix | ⟨time, ⟨db₀, op, hlatest, -, -⟩, -⟩
  . cases hfix
  . cases hlatest

end recovered

end RecoveryDatabase

end Golos
