import Golos.Lib.Sorting
import Golos.Recovery.Impl
import Golos.Staking.Routes

/-!
This module contains what the operations of the recovery of accounts and the ends of blocks do to the
requests, to the history of owner authorities and to recovery accounts.
-/

namespace Golos

open Checked

namespace Staking

variable {s s' : Staking}

theorem head_resetVestingWithdraw {account : AccountName}
    (h : s.resetVestingWithdraw account = .ok s') :
    s'.headBlockTime = s.headBlockTime ∧ s'.headBlockNum = s.headBlockNum := by
  simp only [Staking.resetVestingWithdraw, stopWithdraw, modifyAccount, bind_eq_ok,
    pure_eq_ok] at h
  obtain ⟨s₁, ⟨a, -, a', -, rfl⟩, rfl⟩ := h
  rw [removeVestingRoutes_eq]
  exact ⟨rfl, rfl⟩

end Staking

namespace RecoveryDatabase

variable {db db' : RecoveryDatabase}

def ownerOf (db : RecoveryDatabase) (account : AccountName) : Option Authority :=
  (db.recovery.authorities.find? account).map AccountAuthorityObject.owner

/-- The account that may ask for the recovery: the recovery account, or the top witness. -/
def IsPartner (db : RecoveryDatabase) (account partner : AccountName) : Prop :=
  if db.recoveryAccount account ≠ "" then db.recoveryAccount account = partner
  else db.byVoteName.head? = some partner

/-- Nothing but the requests for recoveries differs. -/
structure SameButRequests (db db' : RecoveryDatabase) : Prop where
  head : db'.headBlockTime = db.headBlockTime ∧ db'.headBlockNum = db.headBlockNum
  history : db'.recovery.ownerAuthorityHistory = db.recovery.ownerAuthorityHistory
  recoveryAccount : db'.recoveryAccount = db.recoveryAccount
  changeRequests : db'.changeRequests = db.changeRequests

section requests

/-- The partner asks, and leaves at most the request that it asks for. -/
theorem requests_of_requestAccountRecovery {op : RequestAccountRecoveryOperation}
    (h : db.requestAccountRecovery op = .ok db') :
    db.IsPartner op.accountToRecover op.recoveryAccount ∧ SameButRequests db db' ∧
      ∀ r ∈ db'.recovery.requests.rows,
        (r ∈ db.recovery.requests.rows ∧ r.accountToRecover ≠ op.accountToRecover) ∨
          (r = ⟨op.accountToRecover, op.newOwnerAuthority,
              db.headBlockTime + steemitAccountRecoveryRequestExpirationPeriod⟩ ∧
            op.newOwnerAuthority.weightThreshold ≠ 0 ∧
            op.newOwnerAuthority.isImpossible = false) := by
  simp only [requestAccountRecovery, bind_eq_ok] at h
  obtain ⟨_, -, _, hpartner, h⟩ := h
  constructor
  . unfold checkPartner at hpartner
    unfold IsPartner
    split at hpartner
    . next hne =>
      rw [ensure_eq_ok] at hpartner
      rw [if_pos hne]
      exact hpartner
    . next hempty =>
      rw [ensure_eq_ok] at hpartner
      rw [if_neg hempty]
      exact hpartner
  split at h
  . next hnone =>
    simp only [bind_eq_ok, ensure_eq_ok, pure_eq_ok, get_eq_ok, Table.emplace_eq_some_iff] at h
    obtain ⟨_, himpossible, _, hopen, _, -, requests, ⟨hfresh, rfl⟩, rfl⟩ := h
    refine ⟨⟨⟨rfl, rfl⟩, rfl, rfl, rfl⟩, ?_⟩
    intro r hr
    rw [Table.mem_insert] at hr
    rcases hr with hr | rfl
    . exact .inl ⟨hr, Table.find?_eq_none_iff.mp hnone r hr⟩
    . exact .inr ⟨rfl, hopen, himpossible⟩
  . split at h
    . cases h
      refine ⟨⟨⟨rfl, rfl⟩, rfl, rfl, rfl⟩, ?_⟩
      intro r hr
      exact .inl (Table.mem_erase.mp hr)
    . next hopen =>
      simp only [bind_eq_ok, ensure_eq_ok, pure_eq_ok] at h
      obtain ⟨_, himpossible, _, -, rfl⟩ := h
      refine ⟨⟨⟨rfl, rfl⟩, rfl, rfl, rfl⟩, ?_⟩
      intro r hr
      rw [Table.mem_modify] at hr
      rcases hr with ⟨hr, hother⟩ | ⟨r₀, hr₀, hkey, rfl⟩
      . exact .inl ⟨hr, hother⟩
      . rw [hkey]
        exact .inr ⟨rfl, hopen, himpossible⟩

/-- A change is asked for, or the one that was asked for is no more. -/
theorem changeRequests_of_changeRecoveryAccount {op : ChangeRecoveryAccountOperation}
    (h : db.changeRecoveryAccount op = .ok db') :
    ∃ changeRequests, db' = { db with changeRequests := changeRequests } ∧
      ∀ r ∈ changeRequests.rows,
        (r ∈ db.changeRequests.rows ∧ r.accountToRecover ≠ op.accountToRecover) ∨
          r = ⟨op.accountToRecover, op.newRecoveryAccount,
            db.headBlockTime + steemitOwnerAuthRecoveryPeriod⟩ := by
  simp only [changeRecoveryAccount, bind_eq_ok] at h
  obtain ⟨_, -, _, -, h⟩ := h
  split at h
  . next hnone =>
    simp only [bind_eq_ok, pure_eq_ok, get_eq_ok, Table.emplace_eq_some_iff] at h
    obtain ⟨requests, ⟨hfresh, rfl⟩, rfl⟩ := h
    refine ⟨_, rfl, ?_⟩
    intro r hr
    rw [Table.mem_insert] at hr
    rcases hr with hr | rfl
    . exact .inl ⟨hr, Table.find?_eq_none_iff.mp hnone r hr⟩
    . exact .inr rfl
  . split at h
    . cases h
      refine ⟨_, rfl, ?_⟩
      intro r hr
      rw [Table.mem_modify] at hr
      rcases hr with ⟨hr, hother⟩ | ⟨r₀, hr₀, hkey, rfl⟩
      . exact .inl ⟨hr, hother⟩
      . rw [hkey]
        exact .inr rfl
    . cases h
      refine ⟨_, rfl, ?_⟩
      intro r hr
      exact .inl (Table.mem_erase.mp hr)

end requests

section owners

variable {c c' : Recovery}

/-- What `update_owner_authority` adds to the history. -/
def Remembers (c c' : Recovery) (account : AccountName) (old : Authority) : Prop :=
  c'.ownerAuthorityHistory =
    if steemitOwnerAuthHistoryTrackingStartBlockNum ≤ c.staking.headBlockNum then
      c.ownerAuthorityHistory ++ [⟨account, old, c.staking.headBlockTime⟩]
    else
      c.ownerAuthorityHistory

theorem remembers_of_updateOwnerAuthority {account : AccountName} {authority : Authority}
    (h : c.updateOwnerAuthority account authority = .ok c') :
    ∃ auth, c.authorities.find? account = some auth ∧ Remembers c c' account auth.owner ∧
      c'.requests = c.requests ∧ c'.staking = c.staking ∧
      (c'.authorities.find? account).map AccountAuthorityObject.owner = some authority := by
  simp only [Recovery.updateOwnerAuthority, bind_eq_ok, get_eq_ok, pure_eq_ok] at h
  obtain ⟨auth, hauth, rfl⟩ := h
  refine ⟨auth, hauth, rfl, rfl, rfl, ?_⟩
  dsimp only
  rw [Table.find?_modify_self, hauth]
  rfl

/-- What a recovery rests on, and what it does. -/
structure Recovers (c c' : Recovery) (op : RecoverAccountOperation) : Prop where
  request : ∃ r, c.requests.find? op.accountToRecover = some r ∧
    r.newOwnerAuthority = op.newOwnerAuthority
  recent : ∃ hist ∈ c.ownerAuthorityHistory,
    hist.account = op.accountToRecover ∧ hist.previousOwnerAuthority = op.recentOwnerAuthority
  served : c'.requests = c.requests.erase op.accountToRecover
  remembers : ∃ auth, c.authorities.find? op.accountToRecover = some auth ∧
    Remembers c c' op.accountToRecover auth.owner
  owner : (c'.authorities.find? op.accountToRecover).map AccountAuthorityObject.owner =
    some op.newOwnerAuthority
  head : c'.staking.headBlockTime = c.staking.headBlockTime ∧
    c'.staking.headBlockNum = c.staking.headBlockNum

theorem recovers_of_recoverAccount {op : RecoverAccountOperation}
    (h : c.recoverAccount op = .ok c') : Recovers c c' op := by
  simp only [Recovery.recoverAccount, bind_eq_ok, get_eq_ok, ensure_eq_ok, pure_eq_ok] at h
  obtain ⟨_, -, _, -, r, hr, _, hnew, _, hrecent, c₁, hc₁, staking, hstaking, rfl⟩ := h
  obtain ⟨auth, hauth, hremembers, hrequests, hsame, howner⟩ :=
    remembers_of_updateOwnerAuthority hc₁
  obtain ⟨htime, hnum⟩ := Staking.head_resetVestingWithdraw hstaking
  constructor
  . exact ⟨r, hr, hnew⟩
  . obtain ⟨hist, hin, hmatches⟩ := List.any_eq_true.mp hrecent
    exact ⟨hist, hin, of_decide_eq_true hmatches⟩
  . exact hrequests
  . exact ⟨auth, hauth, hremembers⟩
  . exact howner
  . dsimp only at htime hnum ⊢
    rw [htime, hnum, hsame]
    exact ⟨rfl, rfl⟩

/-- The history is the last thing that is asked before a recovery goes ahead. -/
theorem recoverAccount_ne_notRecent {op : RecoverAccountOperation}
    (h : ∃ hist ∈ c.ownerAuthorityHistory,
      hist.account = op.accountToRecover ∧ hist.previousOwnerAuthority = op.recentOwnerAuthority) :
    c.recoverAccount op ≠
      .error (.assertException "Recent authority not found in authority history.") := by
  have hany : (c.ownerAuthorityHistory.any fun hist =>
      hist.account = op.accountToRecover ∧ hist.previousOwnerAuthority = op.recentOwnerAuthority) =
        true := by
    obtain ⟨hist, hin, hmatches⟩ := h
    exact List.any_eq_true.mpr ⟨hist, hin, decide_eq_true hmatches⟩
  unfold Recovery.recoverAccount
  apply bind_ne_error
  . unfold Staking.getAccount
    apply get_ne_error
    decide
  intro _ _
  apply bind_ne_error
  . apply ensure_ne_error
    decide
  intro _ _
  apply bind_ne_error
  . apply get_ne_error
    decide
  intro r _
  apply bind_ne_error
  . apply ensure_ne_error
    decide
  intro _ _
  apply bind_ne_error
  . unfold ensure
    rw [if_pos hany]
    exact fun h => by cases h
  intro _ _
  apply bind_ne_error
  . unfold Recovery.updateOwnerAuthority
    apply bind_ne_error
    . apply get_ne_error
      decide
    intro _ _
    apply pure_ne_error
  intro _ _
  apply bind_ne_error
  . unfold Staking.resetVestingWithdraw Staking.stopWithdraw Staking.modifyAccount
    apply bind_ne_error
    . apply bind_ne_error
      . unfold Staking.getAccount
        apply get_ne_error
        decide
      intro _ _
      apply bind_ne_error
      . apply pure_ne_error
      intro _ _
      apply pure_ne_error
    intro _ _
    apply pure_ne_error
  intro _ _
  apply pure_ne_error

/-- An update replaces the owner authority, or leaves everything as it is. -/
theorem accountUpdate_cases {op : AccountUpdateOperation} (h : db.accountUpdate op = .ok db') :
    (op.owner = none ∧ db' = db) ∨
      ∃ owner, op.owner = some owner ∧
        db.recovery.updateOwnerAuthority op.account owner = .ok db'.recovery ∧
          db' = { db with recovery := db'.recovery } := by
  simp only [accountUpdate, bind_eq_ok, pure_eq_ok] at h
  obtain ⟨_, -, _, -, _, -, auth, -, recovery, hrecovery, _, -, _, -, rfl⟩ := h
  unfold updateOwner at hrecovery
  cases howner : op.owner with
  | none =>
    rw [howner] at hrecovery
    cases hrecovery
    exact .inl ⟨rfl, rfl⟩
  | some owner =>
    rw [howner] at hrecovery
    simp only [bind_eq_ok] at hrecovery
    obtain ⟨_, -, _, -, hupdate⟩ := hrecovery
    exact .inr ⟨owner, rfl, hupdate, rfl⟩

end owners

section blockEnd

/-- What is left, and what has changed, after the end of a block at this time. -/
structure Ended (db db' : RecoveryDatabase) (time : Nat) : Prop where
  head : db'.headBlockTime = time
  requests : ∀ r ∈ db'.recovery.requests.rows, r ∈ db.recovery.requests.rows ∧ time < r.expires
  history : db'.recovery.ownerAuthorityHistory =
    db.recovery.ownerAuthorityHistory.dropWhile fun hist =>
      hist.lastValidTime + steemitOwnerAuthRecoveryPeriod < time
  changeRequests : ∀ r ∈ db'.changeRequests.rows, r ∈ db.changeRequests.rows
  recoveryAccount : ∀ name, db'.recoveryAccount name ≠ db.recoveryAccount name →
    ∃ r ∈ db.changeRequests.rows, r.accountToRecover = name ∧ r.effectiveOn ≤ time ∧
      db'.recoveryAccount name = r.recoveryAccount

theorem ended_applyChanges {l : List ChangeRecoveryAccountRequestObject}
    (h : l.foldlM applyChange db = .ok db') :
    db'.recovery = db.recovery ∧
      (∀ r ∈ db'.changeRequests.rows, r ∈ db.changeRequests.rows) ∧
      ∀ name, db'.recoveryAccount name ≠ db.recoveryAccount name →
        ∃ r ∈ l, r.accountToRecover = name ∧ db'.recoveryAccount name = r.recoveryAccount := by
  induction l generalizing db with
  | nil =>
    cases h
    exact ⟨rfl, fun _ hr => hr, fun _ hne => absurd rfl hne⟩
  | cons r l ih =>
    rw [List.foldlM_cons, bind_eq_ok] at h
    obtain ⟨db₁, hdb₁, h⟩ := h
    obtain ⟨hrecovery, hrequests, haccounts⟩ := ih h
    simp only [applyChange, bind_eq_ok, pure_eq_ok] at hdb₁
    obtain ⟨_, -, rfl⟩ := hdb₁
    refine ⟨hrecovery, ?_, ?_⟩
    . intro r' hr'
      exact (Table.mem_erase.mp (hrequests r' hr')).1
    . intro name hne
      by_cases hlater : db'.recoveryAccount name =
          if name = r.accountToRecover then r.recoveryAccount else db.recoveryAccount name
      . -- the first request of the list made the change, and no later one undid it
        split at hlater
        . next hname => exact ⟨r, List.mem_cons_self, hname.symm, hlater⟩
        . exact absurd hlater hne
      . obtain ⟨r', hin, hname, hchanged⟩ := haccounts name hlater
        exact ⟨r', List.mem_cons_of_mem _ hin, hname, hchanged⟩

theorem ended_of_blockEnd {time : Nat} (h : db.blockEnd time = .ok db') : Ended db db' time := by
  unfold blockEnd accountRecoveryProcessing at h
  obtain ⟨hrecovery, hrequests, haccounts⟩ := ended_applyChanges h
  constructor
  . rw [headBlockTime, hrecovery]
    rfl
  . rw [hrecovery]
    intro r hr
    obtain ⟨hin, hleft⟩ := Table.mem_filter.mp hr
    exact ⟨hin, of_decide_eq_true hleft⟩
  . rw [hrecovery]
    rfl
  . exact hrequests
  . intro name hne
    obtain ⟨r, hr, hname, hchanged⟩ := haccounts name hne
    unfold effectiveChanges at hr
    rw [List.mem_insertionSort, List.mem_filter] at hr
    exact ⟨r, hr.1, hname, of_decide_eq_true hr.2, hchanged⟩

/-- The time, the requests and the history of owner authorities are the same. -/
structure SameRecords (db db' : RecoveryDatabase) : Prop where
  head : db'.headBlockTime = db.headBlockTime
  requests : db'.recovery.requests = db.recovery.requests
  history : db'.recovery.ownerAuthorityHistory = db.recovery.ownerAuthorityHistory
  changeRequests : db'.changeRequests = db.changeRequests

/-- Nothing changes but recovery accounts. -/
structure SameButRecovery (db db' : RecoveryDatabase) : Prop where
  recovery : db'.recovery = db.recovery
  changeRequests : db'.changeRequests = db.changeRequests

namespace SameButRecovery

theorem staking (h : SameButRecovery db db') : db'.recovery.staking = db.recovery.staking :=
  congrArg Recovery.staking h.recovery

theorem records (h : SameButRecovery db db') : SameRecords db db' where
  head := congrArg Staking.headBlockTime h.staking
  requests := congrArg Recovery.requests h.recovery
  history := congrArg Recovery.ownerAuthorityHistory h.recovery
  changeRequests := h.changeRequests

end SameButRecovery

theorem sameButRecovery_of_clearRecoveryAccount {account : AccountName}
    (h : db.clearRecoveryAccount account = .ok db') : SameButRecovery db db' := by
  simp only [clearRecoveryAccount, bind_eq_ok, pure_eq_ok] at h
  obtain ⟨_, -, rfl⟩ := h
  exact ⟨rfl, rfl⟩

theorem cleared_of_clearRecoveryAccount {account name : AccountName}
    (h : db.clearRecoveryAccount account = .ok db')
    (hne : db'.recoveryAccount name ≠ db.recoveryAccount name) :
    name = account ∧ db'.recoveryAccount name = "" := by
  simp only [clearRecoveryAccount, bind_eq_ok, pure_eq_ok] at h
  obtain ⟨_, -, rfl⟩ := h
  dsimp only at hne ⊢
  split at hne
  . next hname => exact ⟨hname, if_pos hname⟩
  . exact absurd rfl hne

/-- A loop of `replace_recovery` with one account in the place of all. -/
theorem foldl_replaceRecovery (newRecovery : AccountName) (l : List AccountName)
    (db : RecoveryDatabase) :
    SameButRecovery db (l.foldl (fun db account => db.replaceRecovery account newRecovery) db) ∧
      ∀ name,
        (l.foldl (fun db account => db.replaceRecovery account newRecovery) db).recoveryAccount name =
            db.recoveryAccount name ∨
          (db.recoveryAccount name ∈ l ∧
            (l.foldl (fun db account => db.replaceRecovery account newRecovery) db).recoveryAccount
              name = newRecovery) := by
  induction l generalizing db with
  | nil => exact ⟨⟨rfl, rfl⟩, fun _ => .inl rfl⟩
  | cons account l ih =>
    obtain ⟨hsame, hl⟩ := ih (db.replaceRecovery account newRecovery)
    refine ⟨⟨hsame.recovery, hsame.changeRequests⟩, ?_⟩
    intro name
    rw [List.foldl_cons]
    specialize hl name
    by_cases hold : (db.recovery.staking.accounts.find? name).isSome ∧
        db.recoveryAccount name = account
    . have hnew : (db.replaceRecovery account newRecovery).recoveryAccount name = newRecovery :=
        if_pos hold
      right
      rw [hold.2]
      rcases hl with hsame | ⟨-, hreplaced⟩
      . exact ⟨List.mem_cons_self, hsame.trans hnew⟩
      . exact ⟨List.mem_cons_self, hreplaced⟩
    . have hkept : (db.replaceRecovery account newRecovery).recoveryAccount name =
          db.recoveryAccount name :=
        if_neg hold
      rw [hkept] at hl
      exact hl.imp_right fun hin => ⟨List.mem_cons_of_mem _ hin.1, hin.2⟩

open LiberationHardfork in
/-- The fund of registrations takes the place of the accounts that are frozen. -/
theorem liberated_recoveryAccount (db : RecoveryDatabase) :
    SameButRecovery db db.liberateGolosClassic ∧
      ∀ name, db.liberateGolosClassic.recoveryAccount name = db.recoveryAccount name ∨
        (db.recoveryAccount name ∈ accountsForFreeze ∧
          db.liberateGolosClassic.recoveryAccount name = accRegfund.beneficiary) := by
  unfold liberateGolosClassic
  split
  . exact ⟨⟨rfl, rfl⟩, fun _ => .inl rfl⟩
  . apply foldl_replaceRecovery

end blockEnd

end RecoveryDatabase

end Golos
