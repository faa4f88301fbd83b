import Golos.Cryptor.Lemmas
import Golos.Lib.Transition

/-!
This module contains the runs in which comments are written and donated to, and who is shown what in
them: the posts that are opened for a logged-in account, those that should be, and the messages of
groups.
-/

namespace Golos

open Checked

namespace CryptorDatabase

inductive Event (Json : Type) where
  | donate (op : DonateOperation Json)
  | other

variable {W Json Key : Type}

/-- What tells a comment from every other. -/
def SameComment (ex ex' : CommentExtrasObject) : Prop :=
  ex.id = ex'.id ∧ ex.author = ex'.author ∧ ex.hashlink = ex'.hashlink

instance (ex ex' : CommentExtrasObject) : Decidable (SameComment ex ex') :=
  inferInstanceAs (Decidable (_ ∧ _))

/-- All else that happens: comments are written, changed and deleted, and so is what is around them. -/
structure OtherChange (db db' : CryptorDatabase W) : Prop where
  buyers : db'.buyers = db.buyers
  nextExtrasId : db.nextExtrasId ≤ db'.nextExtrasId
  extras : ∀ ex ∈ db'.extras.rows, ex.id < db'.nextExtrasId ∧
    (db.nextExtrasId ≤ ex.id ∨ ∃ ex' ∈ db.extras.rows, SameComment ex' ex)
  ids : ∀ ex ∈ db'.extras.rows, ∀ ex' ∈ db'.extras.rows, ex.id = ex'.id → SameComment ex ex'

def Step (fc : CryptorFc Json Key) (db : CryptorDatabase W) :
    Event Json → CryptorDatabase W → Prop
  | .donate op, db' => db.donate fc op = .ok db'
  | .other, db' => OtherChange db db'

/-- The ids of the comments are different, and none is yet to be given. -/
structure Numbered (db : CryptorDatabase W) : Prop where
  lt : ∀ ex ∈ db.extras.rows, ex.id < db.nextExtrasId
  ids : ∀ ex ∈ db.extras.rows, ∀ ex' ∈ db.extras.rows, ex.id = ex'.id → SameComment ex ex'

/-- The runs from a state in which nothing has been donated. -/
def donating (fc : CryptorFc Json Key) :
    TransitionSystem (CryptorDatabase W) (Event Json) where
  initial db := db.Numbered ∧ db.buyers = .empty
  step := Step fc

variable (fc : CryptorFc Json Key)

/-- What a step donates to the comments that are chosen. -/
def given (chosen : CommentExtrasObject → Bool) (account : AccountName) :
    CryptorDatabase W × Event Json → ℤ
  | (db, .donate op) =>
    match donationTo fc db op with
    | some ex => if chosen ex ∧ op.fromAccount = account then op.amount.amount else 0
    | none => 0
  | (_, .other) => 0

/-- All that an account has donated to the comments that are chosen. -/
def donations (past : List (CryptorDatabase W × Event Json)) (chosen : CommentExtrasObject → Bool)
    (account : AccountName) : ℤ :=
  (past.map (given fc chosen account)).sum

/-- All that an account has donated to a comment. -/
def donationsTo (past : List (CryptorDatabase W × Event Json)) (ex : CommentExtrasObject)
    (account : AccountName) : ℤ :=
  donations fc past (fun ex' => SameComment ex' ex) account

def recorded (db : CryptorDatabase W) (id : Nat) (account : AccountName) : ℤ :=
  ((db.buyers.find? (id, account)).map (·.amount)).getD 0

variable {fc} {past : List (CryptorDatabase W × Event Json)} {db db' : CryptorDatabase W}
  {e : Event Json}

section donate

theorem mem_of_donationTo {op : DonateOperation Json} {ex : CommentExtrasObject}
    (h : donationTo fc db op = some ex) : ex ∈ db.extras.rows := by
  unfold donationTo at h
  split at h
  . cases h
  . split at h
    . cases h
    . split at h
      . cases h
      . split at h
        . cases h
        . next hex =>
          split at h
          . cases h
          . injection h with h
            exact h ▸ Table.mem_of_find? hex

/-- A donation is recorded for its comment and nowhere else. -/
structure Records (db db' : CryptorDatabase W) (ex : CommentExtrasObject) (account : AccountName)
    (amount : ℤ) : Prop where
  same : db' = { db with buyers := db'.buyers }
  other : ∀ id name, ¬(ex.id = id ∧ account = name) →
    db'.buyers.find? (id, name) = db.buyers.find? (id, name)
  buyer : ∃ cbo, db'.buyers.find? (ex.id, account) = some cbo ∧
    cbo.amount = db.recorded ex.id account + amount

theorem records_of_recordDonation {op : DonateOperation Json} {ex : CommentExtrasObject}
    (h : db.recordDonation op ex = .ok db') :
    Records db db' ex op.fromAccount op.amount.amount := by
  unfold recordDonation at h
  split at h
  . next cbo hcbo =>
    simp only [bind_eq_ok, pure_eq_ok] at h
    obtain ⟨amount, hamount, rfl⟩ := h
    have hrow := Table.find?_modify_self db.buyers (ex.id, op.fromAccount)
      (fun cbo => { cbo with amount := amount, buyed := cbo.buyed || decide (ex.decryptFee ≤ amount) })
      (fun _ => rfl)
    rw [hcbo, Option.map_some] at hrow
    refine ⟨rfl, ?_, ⟨_, hrow, ?_⟩⟩
    . intro id name hne
      have hkey : (id, name) ≠ (ex.id, op.fromAccount) := by
        intro heq
        obtain ⟨hid, hname⟩ := Prod.mk.inj heq
        exact hne ⟨hid.symm, hname.symm⟩
      dsimp only
      rw [Table.find?_modify_of_ne]
      exact hkey
    . unfold recorded
      rw [hcbo]
      exact eq_of_add64_eq_ok hamount
  . next hnone =>
    simp only [bind_eq_ok, get_eq_ok, pure_eq_ok] at h
    obtain ⟨buyers, hbuyers, rfl⟩ := h
    have hinserts := Table.Inserts.emplace hbuyers
    refine ⟨rfl, ?_, ⟨_, hinserts.find?_eq_some_iff.mpr (.inr ⟨rfl, rfl⟩), ?_⟩⟩
    . intro id name hne
      apply Option.ext
      intro cbo
      rw [hinserts.find?_eq_some_iff]
      constructor
      . rintro (hcbo | ⟨-, heq⟩)
        . exact hcbo
        . exact absurd (Prod.mk.inj heq) hne
      . exact .inl
    . unfold recorded
      rw [hnone]
      exact (Int.zero_add _).symm

theorem donate_cases {op : DonateOperation Json} (h : db.donate fc op = .ok db') :
    (donationTo fc db op = none ∧ db' = db) ∨
      ∃ ex, donationTo fc db op = some ex ∧
        Records db db' ex op.fromAccount op.amount.amount := by
  unfold donate at h
  split at h
  . next hnone => exact .inl ⟨hnone, (pure_eq_ok.mp h).symm⟩
  . next ex hex => exact .inr ⟨ex, hex, records_of_recordDonation h⟩

end donate

section invariants

/-- Every comment of the past whose id is still there is the same comment. -/
structure Kept (past : List (CryptorDatabase W × Event Json)) (db : CryptorDatabase W) : Prop where
  now : db.Numbered
  before : ∀ step ∈ past, ∀ ex ∈ step.1.extras.rows, ex.id < db.nextExtrasId ∧
    ∀ ex' ∈ db.extras.rows, ex.id = ex'.id → SameComment ex ex'

theorem Kept.of_same (h : Kept past db) (hextras : db'.extras = db.extras)
    (hnext : db'.nextExtrasId = db.nextExtrasId) : Kept ((db, e) :: past) db' := by
  constructor
  . constructor
    . rw [hextras, hnext]
      exact h.now.lt
    . rw [hextras]
      exact h.now.ids
  . rw [hextras, hnext]
    intro step hstep ex hex
    rcases List.mem_cons.mp hstep with rfl | hstep
    . exact ⟨h.now.lt ex hex, h.now.ids ex hex⟩
    . exact h.before step hstep ex hex

theorem Kept.of_other (h : Kept past db) (hother : OtherChange db db') :
    Kept ((db, e) :: past) db' := by
  constructor
  . exact ⟨fun ex hex => (hother.extras ex hex).1, hother.ids⟩
  . intro step hstep ex hex
    have hbefore : ex.id < db.nextExtrasId ∧
        ∀ ex' ∈ db.extras.rows, ex.id = ex'.id → SameComment ex ex' := by
      rcases List.mem_cons.mp hstep with rfl | hstep
      . exact ⟨h.now.lt ex hex, h.now.ids ex hex⟩
      . exact h.before step hstep ex hex
    obtain ⟨hlt, hsame⟩ := hbefore
    refine ⟨Nat.lt_of_lt_of_le hlt hother.nextExtrasId, ?_⟩
    intro ex' hex' hid
    rcases (hother.extras ex' hex').2 with hnew | ⟨ex'', hex'', hid'', hauthor, hhashlink⟩
    . omega
    . obtain ⟨-, hauthor', hhashlink'⟩ := hsame ex'' hex'' (hid.trans hid''.symm)
      exact ⟨hid, hauthor'.trans hauthor, hhashlink'.trans hhashlink⟩

theorem Kept.step (h : Kept past db) (hstep : Step fc db e db') : Kept ((db, e) :: past) db' := by
  cases e with
  | donate op =>
    rcases donate_cases hstep with ⟨-, rfl⟩ | ⟨ex, -, hrecords⟩
    . exact h.of_same rfl rfl
    . rw [hrecords.same]
      exact h.of_same rfl rfl
  | other => exact h.of_other hstep

theorem donations_cons (chosen : CommentExtrasObject → Bool) (account : AccountName) :
    donations fc ((db, e) :: past) chosen account =
      given fc chosen account (db, e) + donations fc past chosen account := by
  unfold donations
  rw [List.map_cons, List.sum_cons]

/-- What is recorded under an id is all that was donated to comments of this id. -/
def Accounted (fc : CryptorFc Json Key) (past : List (CryptorDatabase W × Event Json))
    (db : CryptorDatabase W) : Prop :=
  ∀ id account, db.recorded id account = donations fc past (fun ex => ex.id = id) account

theorem Accounted.of_same (h : Accounted fc past db) (hbuyers : db'.buyers = db.buyers)
    (hgiven : ∀ chosen account, given fc chosen account (db, e) = 0) :
    Accounted fc ((db, e) :: past) db' := by
  intro id account
  rw [donations_cons, hgiven, Int.zero_add, ← h]
  unfold CryptorDatabase.recorded
  rw [hbuyers]

theorem Accounted.of_records {op : DonateOperation Json} {ex : CommentExtrasObject}
    (h : Accounted fc past db) (hto : donationTo fc db op = some ex)
    (hrecords : Records db db' ex op.fromAccount op.amount.amount) :
    Accounted fc ((db, .donate op) :: past) db' := by
  obtain ⟨cbo, hcbo, hamount⟩ := hrecords.buyer
  intro id account
  rw [donations_cons]
  simp only [given, hto, decide_eq_true_eq]
  by_cases hhere : ex.id = id ∧ op.fromAccount = account
  . obtain ⟨rfl, rfl⟩ := hhere
    rw [if_pos ⟨rfl, rfl⟩, ← h]
    unfold CryptorDatabase.recorded at hamount ⊢
    rw [hcbo]
    exact hamount.trans (Int.add_comm _ _)
  . rw [if_neg hhere, Int.zero_add, ← h]
    unfold CryptorDatabase.recorded
    rw [hrecords.other id account hhere]

theorem Accounted.step (h : Accounted fc past db) (hstep : Step fc db e db') :
    Accounted fc ((db, e) :: past) db' := by
  cases e with
  | donate op =>
    rcases donate_cases hstep with ⟨hnone, rfl⟩ | ⟨ex, hto, hrecords⟩
    . apply h.of_same rfl
      intro chosen account
      simp only [given, hnone]
    . exact h.of_records hto hrecords
  | other => exact h.of_same hstep.buyers fun _ _ => rfl

theorem kept_of_run (h : (donating fc).Run past db) : Kept past db := by
  apply TransitionSystem.Run.invariant ?_ ?_ h
  . intro db hdb
    exact ⟨hdb.1, fun _ hstep => by cases hstep⟩
  . intro past db e db' hkept hstep
    exact hkept.step hstep

theorem accounted_of_run (h : (donating fc).Run past db) : Accounted fc past db := by
  apply TransitionSystem.Run.invariant ?_ ?_ h
  . intro db hdb id account
    unfold CryptorDatabase.recorded
    rw [hdb.2, Table.find?_empty]
    rfl
  . intro past db e db' haccounted hstep
    exact haccounted.step hstep

/-- What is recorded for a comment is all that was donated to it. -/
theorem recorded_eq_donationsTo (h : (donating fc).Run past db) {ex : CommentExtrasObject}
    (hex : ex ∈ db.extras.rows) (account : AccountName) :
    db.recorded ex.id account = donationsTo fc past ex account := by
  rw [accounted_of_run h]
  unfold donationsTo donations
  congr 1
  apply List.map_congr_left
  rintro ⟨db₀, op | _⟩ hstep
  . unfold given
    dsimp only
    split
    . next ex' hto =>
      -- a comment of the past with this id is this one
      have hsame := ((kept_of_run h).before _ hstep ex' (mem_of_donationTo hto)).2 ex hex
      have hiff : ex'.id = ex.id ↔ SameComment ex' ex := ⟨hsame, fun hsame => hsame.1⟩
      simp only [hiff]
    . rfl
  . rfl

end invariants

end CryptorDatabase

namespace Cryptor

open CryptorDatabase

variable {W Json Key : Type}

section rights

variable (fc : CryptorFc Json Key) (db : CryptorDatabase W)

/-- The account has an active subscription to the author. -/
def Subscribed (account : AccountName) (oid : PaidSubscriptionId) (author : AccountName) : Prop :=
  ∃ s ∈ db.subscribers.rows, s.author = author ∧ s.oid = oid ∧ s.subscriber = account ∧
    s.active = true

/--
The text is the content of a comment of the author, the account has donated to the comment, and its
donations have reached the fee that the comment has.
-/
def Bought (past : List (CryptorDatabase W × Event Json)) (account author : AccountName)
    (text : String) : Prop :=
  ∃ ex ∈ db.extras.rows, ex.author = author ∧ (db.buyers.find? (ex.id, account)).isSome ∧
    ex.decryptFee ≤ donationsTo fc past ex account ∧
      cipherOfPost fc (contentOf db author ex.hashlink) = .ok text

/-- The record of the account for the comment has the fee that the comment has now. -/
def PaidUp (account : AccountName) (ex : CommentExtrasObject) : Prop :=
  ∃ cbo, db.buyers.find? (ex.id, account) = some cbo ∧ ex.decryptFee ≤ cbo.amount

/-- The account is recorded as having bought the comment that the entry names. -/
def Purchased (account : AccountName) (de : DecryptEntry) : Prop :=
  db.hasBuyers = true ∧ ∃ ex, findEntryExtras fc db de = some ex ∧
    ∃ cbo, db.buyers.find? (ex.id, account) = some cbo ∧ cbo.buyed = true

/-- The account may read what the group is told. -/
def MayRead (account : AccountName) (g : PrivateGroupObject) : Prop :=
  g.privacy = .privateGroup → g.owner = account ∨
    ∃ pgm ∈ db.messenger.members.rows, pgm.account = account ∧ pgm.group = g.name ∧
      (pgm.memberType = .member ∨ pgm.memberType = .moder)

variable (c : Cryptor) (asked : EncryptQuery → Prop)
  (past : List (CryptorDatabase W × Event Json)) (query : DecryptQuery)

/--
Each body in the answer to the query is what was encrypted in the post of its entry, and if that was
encrypted for an author, the account is the author, is subscribed, or has bought it.
-/
def Confidential : Prop :=
  ∀ res, decryptComments fc c db query = .ok res →
    ∀ (i : Nat) (dr : DecryptedResult) (p : String), res.results[i]? = some dr → dr.body = some p →
      ∃ de text, query.entries[i]? = some de ∧ cipherOfPost fc (postBody fc db de) = .ok text ∧
        (∃ q, EncryptedFor fc c asked (fc.sha512 c.cryptorKey) text q) ∧
          ∀ q, EncryptedFor fc c asked (fc.sha512 c.cryptorKey) text q → q.group = "" →
            AccountName.isValid q.author = true → p = q.body ∧ (q.author = query.account ∨
              Subscribed db query.account query.oid q.author ∨
                Bought fc db past query.account q.author text)

/-- The query gets behind the checks of the key, the login and the entries. -/
def Answered : Prop :=
  16 ≤ c.cryptorKey.utf8ByteSize ∧ login fc db query.toLoginData false = none ∧
    ∀ de ∈ query.entries, checkEntry de = .ok ()

/--
Where the account reads neither its own posts nor those of one it is subscribed to, and the comment
that an entry names was bought, the body that is opened (the one that the entry brings, or else the
content of the comment) is that of a comment of the author whose present fee is paid up.
-/
def OpensPaidUp : Prop :=
  Answered fc db c query → ∀ de ∈ query.entries,
    fc.accountName de.author ≠ query.account →
      ¬Subscribed db query.account query.oid (fc.accountName de.author) →
        Purchased fc db query.account de → ∀ text q, cipherOfPost fc (postBody fc db de) = .ok text →
          EncryptedFor fc c asked (fc.sha512 c.cryptorKey) text q → q.group = "" →
            AccountName.isValid q.author = true → q.author = de.author →
              ∃ ex ∈ db.extras.rows, ex.author = q.author ∧ PaidUp db query.account ex ∧
                cipherOfPost fc (contentOf db q.author ex.hashlink) = .ok text

/-- The entry brings no body, and the fee of the comment that it names is at most what was donated. -/
def Unraised (de : DecryptEntry) : Prop :=
  de.body = "" ∧ ∀ ex, findEntryExtras fc db de = some ex →
    ∀ cbo, db.buyers.find? (ex.id, query.account) = some cbo → ex.decryptFee ≤ cbo.amount

/-- Each body in the answer was encrypted for a group that the account may read. -/
def ConfidentialMessages (query : DecryptMessagesQuery) : Prop :=
  ∀ (i : Nat) (dr : DecryptedResult) (p : String),
    (decryptMessages fc c db query).results[i]? = some dr → dr.body = some p →
      ∃ de text, query.entries[i]? = some de ∧ cipherOfMessage fc (messageBody fc db de) = .ok text ∧
        (∃ q, EncryptedFor fc c asked (fc.sha512 c.groupsCryptorKey) text q) ∧
          ∀ q, EncryptedFor fc c asked (fc.sha512 c.groupsCryptorKey) text q → q.group ≠ "" →
            validatePrivateGroupName q.group = .ok () → p = q.body ∧
              ∃ g, db.messenger.groups.find? q.group = some g ∧ MayRead db query.account g

end rights

variable {fc : CryptorFc Json Key} {db : CryptorDatabase W} {c : Cryptor}
  {asked : EncryptQuery → Prop} {past : List (CryptorDatabase W × Event Json)}
  {query : DecryptQuery} {de : DecryptEntry}

section entries

/-- Who is refused is neither the author nor a subscriber. -/
theorem isRefused_iff (hde : de ∈ query.entries) :
    isRefused fc db query de = true ↔ fc.accountName de.author ≠ query.account ∧
      ¬Subscribed db query.account query.oid (fc.accountName de.author) := by
  constructor
  . intro hrefused
    have hboth := hrefused
    unfold isRefused at hboth
    rw [decide_eq_true_eq] at hboth
    refine ⟨hboth.1, ?_⟩
    rintro ⟨s, hs, hauthor, hoid, hsubscriber, hactive⟩
    apply hboth.2
    have hfind : findSubscriber fc db query de = some s := by
      unfold findSubscriber
      dsimp only
      rw [if_neg hboth.1, Table.find?_eq_some_iff]
      refine ⟨hs, ?_⟩
      unfold PaidSubscriberObject.byAuthorOidSubscriber
      rw [hauthor, hoid, hsubscriber]
    unfold authors
    apply List.mem_map.mpr
    refine ⟨s, ?_, hauthor⟩
    rw [List.mem_filter, List.mem_filterMap]
    exact ⟨⟨de, hde, hfind⟩, hactive⟩
  . rintro ⟨hother, hnot⟩
    cases hrefused : isRefused fc db query de with
    | true => rfl
    | false =>
      rcases of_not_isRefused hrefused with heq | hsub
      . exact absurd heq hother
      . exact absurd hsub hnot

theorem donated_iff : (donated fc db query de).1 = true ↔ Purchased fc db query.account de := by
  unfold donated Purchased
  cases hindex : db.hasBuyers with
  | false => simp
  | true =>
    cases hex : findEntryExtras fc db de with
    | none => simp
    | some ex =>
      cases hcbo : db.buyers.find? (ex.id, query.account) with
      | none => simp [hcbo]
      | some cbo => cases hbuyed : cbo.buyed <;> simp [hcbo, hbuyed]

/-- An answer has the results of the entries, in their order. -/
theorem results_of_decryptComments {res : DecryptedApiObject}
    (h : decryptComments fc c db query = .ok res) :
    res.results = [] ∨ Answered fc db c query ∧
      res.results = query.entries.map (answerEntry fc c db query) := by
  unfold decryptComments at h
  split at h
  . exact .inl (congrArg DecryptedApiObject.results (pure_eq_ok.mp h)).symm
  . next hkey =>
    split at h
    . exact .inl (congrArg DecryptedApiObject.results (pure_eq_ok.mp h)).symm
    . next hlogin =>
      rw [bind_eq_ok] at h
      obtain ⟨_, hentries, h⟩ := h
      refine .inr ⟨⟨Nat.le_of_not_lt hkey, hlogin, forM_eq_ok.mp hentries⟩, ?_⟩
      exact (congrArg DecryptedApiObject.results (pure_eq_ok.mp h)).symm

theorem decryptComments_of_answered (h : Answered fc db c query) :
    decryptComments fc c db query =
      .ok { results := query.entries.map (answerEntry fc c db query) } := by
  obtain ⟨hkey, hlogin, hentries⟩ := h
  unfold decryptComments
  rw [if_neg (Nat.not_lt.mpr hkey), hlogin]
  dsimp only
  rw [bind_eq_ok]
  exact ⟨(), forM_eq_ok.mpr hentries, rfl⟩

end entries

section comments

theorem bought_iff (hrun : (donating fc).Run past db) {account author : AccountName}
    {text : String} :
    Bought fc db past account author text ↔
      ∃ ex ∈ db.extras.rows, ex.author = author ∧ PaidUp db account ex ∧
        cipherOfPost fc (contentOf db author ex.hashlink) = .ok text := by
  apply exists_congr
  intro ex
  refine and_congr_right fun hex => and_congr_right fun _ => ?_
  rw [← and_assoc]
  refine and_congr_left fun _ => ?_
  rw [← recorded_eq_donationsTo hrun hex, Option.isSome_iff_exists]
  unfold PaidUp recorded
  constructor
  . rintro ⟨⟨cbo, hcbo⟩, hfee⟩
    rw [hcbo] at hfee
    exact ⟨cbo, hcbo, hfee⟩
  . rintro ⟨cbo, hcbo, hfee⟩
    refine ⟨⟨cbo, hcbo⟩, ?_⟩
    rw [hcbo]
    exact hfee

/-- No foreign body, and no fee that was raised over what had been donated. -/
theorem opensPaidUp_of_unraised (hfc : Genuine fc c asked)
    (h : ∀ de ∈ query.entries, Unraised fc db query de) : OpensPaidUp fc db c asked query := by
  intro _ de hin _ _ hpurchased text q htext _ _ hvalid hauthor
  obtain ⟨hbody, hfee⟩ := h de hin
  obtain ⟨-, ex, hex, cbo, hcbo, -⟩ := hpurchased
  have hname : fc.accountName de.author = q.author := by
    rw [← hauthor]
    exact hfc.accountName q.author hvalid
  have hrow := hex
  unfold findEntryExtras at hrow
  obtain ⟨hexin, hkey⟩ := Table.find?_eq_some_iff.mp hrow
  obtain ⟨hexauthor, hhashlink⟩ := Prod.mk.inj hkey
  refine ⟨ex, hexin, hexauthor.trans hname, ⟨cbo, hcbo, hfee ex hex cbo hcbo⟩, ?_⟩
  unfold postBody at htext
  rw [if_neg (not_not.mpr hbody), hname] at htext
  rw [hhashlink]
  exact htext

theorem confidential_of_opensPaidUp (hfc : Genuine fc c asked) (hrun : (donating fc).Run past db)
    (h : OpensPaidUp fc db c asked query) : Confidential fc db c asked past query := by
  intro res hres i dr p hdr hp
  rcases results_of_decryptComments hres with hnil | ⟨hanswered, hresults⟩
  . rw [hnil] at hdr
    cases hdr
  . rw [hresults, List.getElem?_map, Option.map_eq_some_iff] at hdr
    obtain ⟨de, hde, rfl⟩ := hdr
    have hin := List.mem_of_getElem? hde
    obtain ⟨dr', hnone, hbody⟩ := @body_answerEntry _ _ _ fc c db query de
    rw [hp] at hbody
    split at hbody
    . cases hbody
    . next hshown =>
      obtain ⟨text, htext, hexists, hall⟩ := decrypted_of_decryptPost hfc hnone hbody.symm
      refine ⟨de, text, hde, htext, hexists, ?_⟩
      intro q hq hgroup hvalid
      obtain ⟨hauthor, hpq⟩ := hall q hq hgroup hvalid
      have hname : fc.accountName de.author = q.author := by
        rw [← hauthor]
        exact hfc.accountName q.author hvalid
      refine ⟨hpq, ?_⟩
      by_cases hown : q.author = query.account
      . exact .inl hown
      . by_cases hsub : Subscribed db query.account query.oid q.author
        . exact .inr (.inl hsub)
        . right
          right
          rw [← hname] at hown hsub
          have hrefused := (isRefused_iff hin).mpr ⟨hown, hsub⟩
          have hpurchased : Purchased fc db query.account de := by
            rw [← donated_iff, ← Bool.not_eq_false]
            intro hunpaid
            exact hshown ⟨hrefused, hunpaid⟩
          rw [bought_iff hrun]
          exact h hanswered de hin hown hsub hpurchased text q htext hq hgroup hvalid hauthor

theorem opensPaidUp_of_confidential (hfc : Genuine fc c asked) (hrun : (donating fc).Run past db)
    (h : Confidential fc db c asked past query) : OpensPaidUp fc db c asked query := by
  intro hanswered de hin hown hsub hpurchased text q htext hq hgroup hvalid hauthor
  obtain ⟨i, hde⟩ := List.getElem?_of_mem hin
  obtain ⟨dr, hnone, hbody⟩ := @body_answerEntry _ _ _ fc c db query de
  -- the second pass opens the body
  have hopened : (answerEntry fc c db query de).body = some q.body := by
    rw [hbody, if_neg, body_decryptPost hfc hnone htext hq hgroup hvalid hauthor]
    rintro ⟨-, hunpaid⟩
    rw [donated_iff.mpr hpurchased] at hunpaid
    cases hunpaid
  have hdr : (query.entries.map (answerEntry fc c db query))[i]? =
      some (answerEntry fc c db query de) := by
    rw [List.getElem?_map, hde, Option.map_some]
  obtain ⟨de', text', hde', htext', -, hall⟩ := h _ (decryptComments_of_answered hanswered) i _ _
    hdr hopened
  rw [hde] at hde'
  injection hde' with hde'
  subst hde'
  rw [htext] at htext'
  injection htext' with htext'
  subst htext'
  have hname : fc.accountName de.author = q.author := by
    rw [← hauthor]
    exact hfc.accountName q.author hvalid
  rw [hname] at hown hsub
  obtain ⟨-, heq | hsub' | hbought⟩ := hall q hq hgroup hvalid
  . exact absurd heq hown
  . exact absurd hsub' hsub
  . exact (bought_iff hrun).mp hbought

end comments

section messages

theorem mayRead_of_canRead {query : DecryptMessagesQuery} {group : String}
    (h : canRead db query group = some true) :
    ∃ g, db.messenger.groups.find? group = some g ∧ MayRead db query.account g := by
  unfold canRead at h
  rw [Option.map_eq_some_iff] at h
  obtain ⟨g, hg, hread⟩ := h
  refine ⟨g, hg, ?_⟩
  intro hprivate
  rw [if_pos hprivate, Bool.or_eq_true, decide_eq_true_eq, Option.any_eq_true] at hread
  rcases hread with howner | ⟨pgm, hpgm, htype⟩
  . exact .inl howner
  . right
    obtain ⟨hin, hkey⟩ := Table.find?_eq_some_iff.mp hpgm
    obtain ⟨haccount, hgroup⟩ := Prod.mk.inj hkey
    rw [Bool.or_eq_true, decide_eq_true_eq, decide_eq_true_eq] at htype
    exact ⟨pgm, hin, haccount, hgroup.trans (Table.key_of_find? hg).symm, htype⟩

theorem of_decryptMessage {query : DecryptMessagesQuery} {de : MessageToDecrypt} {p : String}
    (hfc : Genuine fc c asked) (h : (decryptMessage fc c db query de).body = some p) :
    ∃ text, cipherOfMessage fc (messageBody fc db de) = .ok text ∧
      (∃ q, EncryptedFor fc c asked (fc.sha512 c.groupsCryptorKey) text q) ∧
        ∀ q, EncryptedFor fc c asked (fc.sha512 c.groupsCryptorKey) text q → q.group ≠ "" →
          validatePrivateGroupName q.group = .ok () → p = q.body ∧
            ∃ g, db.messenger.groups.find? q.group = some g ∧ MayRead db query.account g := by
  unfold decryptMessage at h
  split at h
  . cases h
  . cases h
  . next hread =>
    dsimp only at h
    split at h
    . cases h
    . split at h
      . cases h
      . next text htext =>
        refine ⟨text, htext, exists_of_decryptBody hfc (.inr rfl) rfl h, ?_⟩
        intro q hq hgroup hvalid
        rw [body_decryptBody_group hfc rfl hq hgroup hvalid] at h
        split at h
        . next hsame =>
          rw [hsame.2]
          exact ⟨(Option.some.inj h).symm, mayRead_of_canRead hread⟩
        . cases h

theorem confidentialMessages (hfc : Genuine fc c asked) (query : DecryptMessagesQuery) :
    ConfidentialMessages fc db c asked query := by
  intro i dr p hdr hp
  unfold decryptMessages at hdr
  split at hdr
  . cases hdr
  . split at hdr
    . cases hdr
    . split at hdr
      . cases hdr
      . rw [List.getElem?_map, Option.map_eq_some_iff] at hdr
        obtain ⟨de, hde, rfl⟩ := hdr
        obtain ⟨text, hrest⟩ := of_decryptMessage hfc hp
        exact ⟨de, text, hde, hrest⟩

end messages

/--
After any donations, the answer to a query is confidential exactly where the posts that it opens for
who has bought a comment are paid up: with no bodies of the query's own, where no fee was raised over
what had been donated. The messages of groups are always confidential.
-/
theorem confidential_iff (hfc : Genuine fc c asked) (hrun : (donating fc).Run past db) :
    (∀ query, Confidential fc db c asked past query ↔ OpensPaidUp fc db c asked query) ∧
      (∀ query : DecryptQuery, (∀ de ∈ query.entries, Unraised fc db query de) →
        Confidential fc db c asked past query) ∧
      ∀ query, ConfidentialMessages fc db c asked query := by
  refine ⟨?_, ?_, confidentialMessages hfc⟩
  . intro query
    constructor
    . exact opensPaidUp_of_confidential hfc hrun
    . exact confidential_of_opensPaidUp hfc hrun
  . intro query hunraised
    exact confidential_of_opensPaidUp hfc hrun (opensPaidUp_of_unraised hfc hunraised)

section bargain

inductive Variant where
  | text (s : String)
  | number (n : Nat)
  | object (entries : List (String × Variant))

def cryptorOfNode : Cryptor where
  cryptorKey := "0123456789abcdef"

def cheapBody : EncryptQuery where
  author := "alice"
  body := "cheap"

def dearBody : EncryptQuery where
  author := "alice"
  body := "dear"

def askedOfNode (q : EncryptQuery) : Prop :=
  q = cheapBody ∨ q = dearBody

def encryptOfNode (key text : String) : String :=
  key ++ text

def bodyOf (q : EncryptQuery) : String :=
  "\x7b\"t\":\"e\",\"v\":2,\"c\":\"" ++ encryptOfNode cryptorOfNode.cryptorKey (markedBody q) ++
    "\"\x7d"

def variantOf (q : EncryptQuery) : Variant :=
  .object [("t", .text "e"), ("v", .number 2),
    ("c", .text (encryptOfNode cryptorOfNode.cryptorKey (markedBody q)))]

def fcOfNode : CryptorFc Variant String where
  accountLess name name' := name < name'
  isUtf8 _ := true
  hash64 := String.length
  isValid s := s = bodyOf cheapBody ∨ s = bodyOf dearBody
  fromString s :=
    if s = bodyOf cheapBody then some (variantOf cheapBody)
    else if s = bodyOf dearBody then some (variantOf dearBody)
    else none
  toString _ := ""
  getArray _ := none
  getObject
    | .object entries => some entries
    | _ => none
  isNull _ := false
  asString
    | .text s => some s
    | _ => none
  ofTexts _ := .object []
  ofObject := .object
  isString
    | .text _ => true
    | _ => false
  getUint64
    | .number n => some n
    | _ => none
  accountName name := String.ofList (name.toList.take 16)
  ofBytes _ := ""
  sha512 := id
  encrypt := encryptOfNode
  decrypt key text :=
    if key = cryptorOfNode.cryptorKey then
      [markedBody cheapBody, markedBody dearBody].find? fun dec => encryptOfNode key dec = text
    else
      none
  publicKey signature _ := if signature = [1] then some 1 else none

theorem genuine_node : Genuine fcOfNode cryptorOfNode askedOfNode := by
  constructor
  . intro name hvalid
    unfold AccountName.isValid at hvalid
    rw [decide_eq_true_eq] at hvalid
    have hlength := length_le_utf8ByteSize name
    dsimp only [fcOfNode]
    rw [List.take_of_length_le (by omega), String.ofList_toList]
  . intro key hkey text dec
    rcases hkey with rfl | rfl
    . show ([markedBody cheapBody, markedBody dearBody].find? fun dec =>
          encryptOfNode cryptorOfNode.cryptorKey dec = text) = some dec ↔ _
      constructor
      . intro hfind
        have hin := List.mem_of_find?_eq_some hfind
        have hsome := List.find?_some hfind
        have htext := of_decide_eq_true hsome
        rcases List.mem_cons.mp hin with rfl | hin
        . exact ⟨cheapBody, ⟨.inl rfl, rfl, htext⟩, rfl⟩
        . rw [List.mem_singleton] at hin
          subst hin
          exact ⟨dearBody, ⟨.inr rfl, rfl, htext⟩, rfl⟩
      . rintro ⟨query, ⟨rfl | rfl, -, rfl⟩, rfl⟩
        . decide +kernel
        . decide +kernel
    . constructor
      . intro hdec
        cases hdec
      . rintro ⟨query, ⟨rfl | rfl, hkey, -⟩, -⟩
        . exact absurd hkey (by decide)
        . exact absurd hkey (by decide)

/-- Two comments of alice, the one for 1 and the other for 1000. -/
def published : CryptorDatabase Unit where
  messenger :=
    { chain :=
        { ledger :=
            { accounts :=
                ⟨[{ name := "alice" }, { name := "bobby" }], List.pairwise_pair.mpr (by decide)⟩ }
          comments := ⟨[{ id := 0, author := "alice", hashlink := 5 },
            { id := 1, author := "alice", hashlink := 4 }], by decide⟩
          world := () } }
  postingKeys _ := [1]
  contents := ⟨[⟨0, bodyOf cheapBody⟩, ⟨1, bodyOf dearBody⟩], by decide⟩
  extras := ⟨[⟨0, "alice", 5, 1⟩, ⟨1, "alice", 4, 1000⟩], by decide⟩
  nextExtrasId := 2

def donationOfBobby : DonateOperation Variant where
  fromAccount := "bobby"
  toAccount := "alice"
  amount := ⟨1, steemSymbol⟩
  target := [("author", .text "alice"), ("permlink", .text "cheap")]

def bargained : CryptorDatabase Unit :=
  (published.donate fcOfNode donationOfBobby).toOption.getD published

def donationsToAlice : List (CryptorDatabase Unit × Event Variant) :=
  [(published, .donate donationOfBobby)]

theorem donate_published : published.donate fcOfNode donationOfBobby = .ok bargained :=
  eq_ok_of_isSome (by decide +kernel)

/-- Under the name of the cheap comment, the body of the dear one. -/
def queryOfBobby : DecryptQuery where
  account := "bobby"
  signature := [1]
  entries := [{ author := "alice", permlink := "cheap", body := bodyOf dearBody }]
  oid := { app := "app", name := "sub" }

theorem run_bargained : (donating fcOfNode).Run donationsToAlice bargained := by
  apply TransitionSystem.Run.step
  . apply TransitionSystem.Run.initial
    refine ⟨⟨?_, ?_⟩, rfl⟩
    . decide
    . unfold SameComment
      decide
  . exact donate_published

theorem confidential_iff_bargained :
    (∀ query, Confidential fcOfNode bargained cryptorOfNode askedOfNode donationsToAlice query ↔
        OpensPaidUp fcOfNode bargained cryptorOfNode askedOfNode query) ∧
      (∀ query : DecryptQuery, (∀ de ∈ query.entries, Unraised fcOfNode bargained query de) →
        Confidential fcOfNode bargained cryptorOfNode askedOfNode donationsToAlice query) ∧
      ∀ query, ConfidentialMessages fcOfNode bargained cryptorOfNode askedOfNode query :=
  confidential_iff genuine_node run_bargained

theorem extras_bargained : bargained.extras = published.extras := by
  rcases donate_cases donate_published with ⟨-, hsame⟩ | ⟨ex, -, hrecords⟩
  . exact congrArg CryptorDatabase.extras hsame
  . rw [hrecords.same]

/-- The dear comment is not bought. -/
theorem not_paidUp_dear : ¬∃ ex ∈ bargained.extras.rows, ex.author = "alice" ∧
    PaidUp bargained "bobby" ex ∧
      cipherOfPost fcOfNode (contentOf bargained "alice" ex.hashlink) =
        .ok (encryptOfNode cryptorOfNode.cryptorKey (markedBody dearBody)) := by
  rintro ⟨ex, hex, -, ⟨cbo, hcbo, -⟩, htext⟩
  rw [extras_bargained] at hex
  rcases List.mem_cons.mp hex with rfl | hex
  . have hcheap := congrArg Except.toOption htext
    revert hcheap
    decide +kernel
  . rw [List.mem_singleton] at hex
    subst hex
    have hsome : (bargained.buyers.find? (1, "bobby")).isSome = true := by
      rw [hcbo]
      rfl
    revert hsome
    decide +kernel

theorem bargained_not_confidential :
    (donating fcOfNode).Run donationsToAlice bargained ∧
      Genuine fcOfNode cryptorOfNode askedOfNode ∧
        ¬Confidential fcOfNode bargained cryptorOfNode askedOfNode donationsToAlice queryOfBobby := by
  refine ⟨run_bargained, genuine_node, ?_⟩
  intro h
  have hanswered : Answered fcOfNode bargained cryptorOfNode queryOfBobby := by
    unfold Answered
    decide +kernel
  have hpurchased : Purchased fcOfNode bargained queryOfBobby.account
      { author := "alice", permlink := "cheap", body := bodyOf dearBody } := by
    apply donated_iff.mp
    decide +kernel
  have hnot : ¬Subscribed bargained queryOfBobby.account queryOfBobby.oid
      (fcOfNode.accountName "alice") := by
    unfold Subscribed
    decide +kernel
  have htext : cipherOfPost fcOfNode (bodyOf dearBody) =
      .ok (encryptOfNode cryptorOfNode.cryptorKey (markedBody dearBody)) := by
    decide +kernel
  apply not_paidUp_dear
  exact opensPaidUp_of_confidential genuine_node run_bargained h hanswered _ List.mem_cons_self
    (by decide +kernel) hnot hpurchased _ dearBody htext ⟨.inr rfl, rfl, rfl⟩ rfl
    (by decide +kernel) rfl

end bargain

end Cryptor

end Golos
