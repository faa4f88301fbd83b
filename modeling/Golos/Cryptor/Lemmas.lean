import Golos.Cryptor.Impl

/-!
This module contains what the mark of an encrypted body does: a body opens under the name that it was
encrypted for, and under no other.
-/

namespace Golos

open Checked

section names

theorem length_le_utf8ByteSize (s : String) : s.toList.length ≤ s.utf8ByteSize := by
  have hlist : ∀ l : List Char, l.length ≤ l.utf8Encode.size := by
    intro l
    induction l with
    | nil => simp
    | cons c l ih =>
      have hsize : [c].utf8Encode.size = c.utf8Size := by
        rw [List.utf8Encode_singleton, List.size_toByteArray, String.length_utf8EncodeChar]
      have hpos := c.utf8Size_pos
      rw [List.utf8Encode_cons, ByteArray.size_append, List.length_cons]
      omega
  have := hlist s.toList
  rw [String.utf8Encode_toList] at this
  exact this

theorem eq_or_mem_of_mem_intercalate {sep x : α} {parts : List (List α)}
    (h : x ∈ [sep].intercalate parts) : x = sep ∨ ∃ part ∈ parts, x ∈ part := by
  induction parts with
  | nil => cases h
  | cons part parts ih =>
    cases parts with
    | nil =>
      rw [List.intercalate_singleton] at h
      exact .inr ⟨part, List.mem_cons_self, h⟩
    | cons part' parts =>
      rw [List.intercalate_cons_cons, List.mem_append, List.mem_append] at h
      rcases h with (h | h) | h
      . exact .inr ⟨part, List.mem_cons_self, h⟩
      . exact .inl (List.mem_singleton.mp h)
      . rcases ih h with heq | ⟨part'', hin, hx⟩
        . exact .inl heq
        . exact .inr ⟨part'', List.mem_cons_of_mem _ hin, hx⟩

/-- A name that fits into a mark. -/
def FitsMark (name : String) : Prop :=
  ':' ∉ name.toList ∧ name.toList.length ≤ 32

theorem fitsMark_of_isValid {name : AccountName} (h : AccountName.isValid name = true) :
    FitsMark name := by
  unfold AccountName.isValid at h
  rw [decide_eq_true_eq] at h
  obtain ⟨-, hsize, hparts⟩ := h
  constructor
  . intro hin
    have hjoin : ['.'].intercalate (name.toList.splitOn '.') = name.toList :=
      List.intercalate_splitOn '.'
    rw [← hjoin] at hin
    rcases eq_or_mem_of_mem_intercalate hin with heq | ⟨part, hpart, hx⟩
    . cases heq
    . rw [List.all_eq_true] at hparts
      have hvalid := hparts part hpart
      unfold AccountName.isValidPart at hvalid
      rw [decide_eq_true_eq] at hvalid
      have hletter := List.all_eq_true.mp hvalid.2.2.2 ':' hx
      revert hletter
      decide
  . have := length_le_utf8ByteSize name
    omega

theorem fitsMark_of_validatePrivateGroupName {name : String} {u : Unit}
    (h : validatePrivateGroupName name = .ok u) : FitsMark name := by
  simp only [validatePrivateGroupName, bind_eq_ok, ensure_eq_ok] at h
  obtain ⟨_, hne, _, hsize, _, hstart, htail⟩ := h
  constructor
  . intro hin
    cases hname : name.toList with
    | nil =>
      rw [hname] at hin
      cases hin
    | cons x rest =>
      rw [hname] at hin hstart htail
      rcases List.mem_cons.mp hin with rfl | hin
      . rw [List.head?_cons, Option.all_some] at hstart
        revert hstart
        decide
      . have hletter := List.all_eq_true.mp htail ':' hin
        revert hletter
        decide
  . have := length_le_utf8ByteSize name
    omega

end names

namespace Cryptor

variable {W Json Key : Type} {fc : CryptorFc Json Key} {c : Cryptor} {db : CryptorDatabase W}

section mark

theorem readMark_name {markType found : Char} (hfound : found ≠ Char.ofNat 0) {name : List Char}
    (hname : ':' ∉ name) (before : List Char) (i : Nat) (rest : List Char) :
    readMark markType found true before i (name ++ ':' :: rest) =
      .ok (some (before ++ name, i + name.length + 1)) := by
  have hsep : markSep = ':' := rfl
  induction name generalizing before i with
  | nil =>
    rw [List.nil_append, readMark, if_neg hfound, if_pos rfl, hsep, if_pos rfl, List.append_nil]
    rfl
  | cons x name ih =>
    rw [List.mem_cons, not_or] at hname
    rw [List.cons_append, readMark, if_neg hfound, if_pos rfl, hsep, if_neg (Ne.symm hname.1),
      ih hname.2, List.append_assoc, List.length_cons]
    simp only [List.singleton_append, Except.ok.injEq, Option.some.injEq, Prod.mk.injEq, true_and]
    omega

theorem readMark_mark {markType found : Char} (hfound : found ≠ Char.ofNat 0) {name : List Char}
    (hname : ':' ∉ name) (rest : List Char) :
    readMark markType (Char.ofNat 0) false [] 4 (found :: ':' :: name ++ ':' :: rest) =
      if found = markType then .ok (some (name, name.length + 7)) else .error "wrong_mark_type" := by
  rw [List.cons_append, List.cons_append, readMark, if_pos rfl, readMark, if_neg hfound]
  have hsep : markSep = ':' := rfl
  simp only [Bool.false_eq_true, if_false, hsep, ne_eq, not_true_eq_false]
  by_cases htype : found = markType
  . rw [if_neg (not_not.mpr htype), if_pos htype, readMark_name hfound hname]
    simp only [List.nil_append, Except.ok.injEq, Option.some.injEq, Prod.mk.injEq, true_and]
    omega
  . rw [if_pos htype, if_neg htype]

/-- The letters of a marked text. -/
def marked (markType : Char) (name body : String) : List Char :=
  mark.toList ++ (markType :: ':' :: name.toList ++ ':' :: body.toList)

theorem checkMark_marked {found markType : Char} (hfound : found ≠ Char.ofNat 0) {name : String}
    (hname : FitsMark name) {dec body : String} (hdec : dec.toList = marked found name body)
    (markName : String) :
    checkMark dec markType markName =
      if found = markType then if name = markName then .ok body else .error "wrong_mark"
      else .error "wrong_mark_type" := by
  obtain ⟨hsep, hlength⟩ := hname
  have hmark : mark.toList = ['_', 'm', '_', ':'] := by decide
  have hread : ∃ rest, (dec.toList.take markMaxLength).drop mark.length =
      found :: ':' :: name.toList ++ ':' :: rest := by
    refine ⟨body.toList.take (121 - name.toList.length), ?_⟩
    have hfour : mark.length = 4 := by decide
    rw [hdec, hfour]
    unfold marked markMaxLength
    rw [hmark]
    simp only [List.cons_append, List.nil_append, List.take_succ_cons, List.drop_succ_cons,
      List.drop_zero, List.take_append, List.cons.injEq, true_and]
    have hshort : name.toList.take 122 = name.toList := List.take_of_length_le (by omega)
    have hleft : 122 - name.toList.length = (121 - name.toList.length) + 1 := by omega
    rw [hshort, hleft, List.take_succ_cons]
  obtain ⟨rest, hread⟩ := hread
  have hfour : mark.length = 4 := by decide
  unfold checkMark
  rw [hread, hfour, readMark_mark hfound hsep]
  by_cases htype : found = markType
  . rw [if_pos htype, if_pos htype]
    have hbody : dec.toList.drop (name.toList.length + 7) = body.toList := by
      rw [hdec]
      unfold marked
      rw [hmark]
      simp only [List.cons_append, List.nil_append, List.drop_succ_cons]
      rw [List.drop_append, List.drop_of_length_le (Nat.le_succ _)]
      simp
    dsimp only
    rw [hbody, String.ofList_toList, String.ofList_toList]
    by_cases hsame : name = markName
    . rw [if_neg (not_not.mpr hsame), if_pos hsame]
    . rw [if_pos hsame, if_neg hsame]
  . rw [if_neg htype, if_neg htype]

theorem toList_markedBody_author {query : EncryptQuery} (h : query.group = "") :
    (markedBody query).toList = marked markAuthor query.author query.body := by
  unfold markedBody marked
  rw [if_neg (not_not.mpr h)]
  simp [String.toList_append, markSep]

theorem toList_markedBody_group {query : EncryptQuery} (h : query.group ≠ "") :
    (markedBody query).toList = marked markGroup query.group query.body := by
  unfold markedBody marked
  rw [if_pos h]
  simp [String.toList_append, markSep]

end mark

section decrypt

/-- The text is the output of `encrypt_body` for the query, under the key. -/
def EncryptedFor (fc : CryptorFc Json Key) (c : Cryptor) (asked : EncryptQuery → Prop) (key : Key)
    (text : String) (query : EncryptQuery) : Prop :=
  asked query ∧ c.encryptKey fc query = key ∧ fc.encrypt key (markedBody query) = text

/--
Account names are not cut, and under the keys of the plugin nothing decrypts but the outputs of
`encrypt_body` for the queries that were asked, which give back what was encrypted.
-/
structure Genuine (fc : CryptorFc Json Key) (c : Cryptor) (asked : EncryptQuery → Prop) : Prop where
  accountName : ∀ name, AccountName.isValid name = true → fc.accountName name = name
  decrypt : ∀ key, key = fc.sha512 c.cryptorKey ∨ key = fc.sha512 c.groupsCryptorKey →
    ∀ text dec, fc.decrypt key text = some dec ↔
      ∃ query, EncryptedFor fc c asked key text query ∧ markedBody query = dec

variable {asked : EncryptQuery → Prop} {key : Key} {dr : DecryptedResult} {text : String}
  {query : EncryptQuery}

/-- Whatever opens has been encrypted. -/
theorem exists_of_decryptBody {markType : Char} {markName : String} {markRequired : Bool}
    {p : String} (hfc : Genuine fc c asked)
    (hkey : key = fc.sha512 c.cryptorKey ∨ key = fc.sha512 c.groupsCryptorKey)
    (hnone : dr.body = none)
    (h : (decryptBody fc dr text key markType markName markRequired).body = some p) :
    ∃ query, EncryptedFor fc c asked key text query := by
  unfold decryptBody at h
  split at h
  . dsimp only at h
    rw [hnone] at h
    cases h
  . next dec hdec =>
    obtain ⟨query, hquery, -⟩ := (hfc.decrypt key hkey text dec).mp hdec
    exact ⟨query, hquery⟩

/-- A marked body opens under its own mark only. -/
theorem body_decryptBody {found markType : Char} {name markName : String} {markRequired : Bool}
    (hfc : Genuine fc c asked)
    (hkey : key = fc.sha512 c.cryptorKey ∨ key = fc.sha512 c.groupsCryptorKey)
    (hnone : dr.body = none) (hquery : EncryptedFor fc c asked key text query)
    (hfound : found ≠ Char.ofNat 0) (hname : FitsMark name)
    (hmarked : (markedBody query).toList = marked found name query.body) :
    (decryptBody fc dr text key markType markName markRequired).body =
      if found = markType ∧ name = markName then some query.body else none := by
  have hdec : fc.decrypt key text = some (markedBody query) :=
    (hfc.decrypt key hkey text _).mpr ⟨query, hquery, rfl⟩
  have hmark_isPrefix : mark.toList.isPrefixOf (markedBody query).toList = true := by
    rw [hmarked, List.isPrefixOf_iff_prefix]
    apply List.prefix_append
  unfold decryptBody
  rw [hdec]
  simp only [hmark_isPrefix, Bool.not_true, Bool.false_eq_true, if_false]
  rw [checkMark_marked hfound hname hmarked]
  by_cases htype : found = markType
  . rw [if_pos htype]
    by_cases hsame : name = markName
    . rw [if_pos hsame, if_pos ⟨htype, hsame⟩]
    . rw [if_neg hsame, if_neg fun h => hsame h.2]
      exact hnone
  . rw [if_neg htype, if_neg fun h => htype h.1]
    exact hnone

theorem body_decryptBody_author {markType : Char} {markName : String} {markRequired : Bool}
    (hfc : Genuine fc c asked) (hnone : dr.body = none)
    (hquery : EncryptedFor fc c asked (fc.sha512 c.cryptorKey) text query)
    (hgroup : query.group = "") (hauthor : AccountName.isValid query.author = true) :
    (decryptBody fc dr text (fc.sha512 c.cryptorKey) markType markName markRequired).body =
      if markAuthor = markType ∧ query.author = markName then some query.body else none := by
  apply body_decryptBody hfc (.inl rfl) hnone hquery (by decide) (fitsMark_of_isValid hauthor)
  exact toList_markedBody_author hgroup

theorem body_decryptBody_group {markType : Char} {markName : String} {markRequired : Bool}
    (hfc : Genuine fc c asked) (hnone : dr.body = none)
    (hquery : EncryptedFor fc c asked (fc.sha512 c.groupsCryptorKey) text query)
    (hgroup : query.group ≠ "") {u : Unit} (hvalid : validatePrivateGroupName query.group = .ok u) :
    (decryptBody fc dr text (fc.sha512 c.groupsCryptorKey) markType markName markRequired).body =
      if markGroup = markType ∧ query.group = markName then some query.body else none := by
  apply body_decryptBody hfc (.inr rfl) hnone hquery (by decide)
    (fitsMark_of_validatePrivateGroupName hvalid)
  exact toList_markedBody_group hgroup

end decrypt

section posts

variable {asked : EncryptQuery → Prop} {dr : DecryptedResult} {query : DecryptQuery}
  {de : DecryptEntry}

/-- A post that opens is what was encrypted for its author. -/
theorem decrypted_of_decryptPost {p : String} (hfc : Genuine fc c asked) (hnone : dr.body = none)
    (h : (decryptPost fc c db de dr).body = some p) :
    ∃ text, cipherOfPost fc (postBody fc db de) = .ok text ∧
      (∃ q, EncryptedFor fc c asked (fc.sha512 c.cryptorKey) text q) ∧
      ∀ q, EncryptedFor fc c asked (fc.sha512 c.cryptorKey) text q → q.group = "" →
        AccountName.isValid q.author = true → q.author = de.author ∧ p = q.body := by
  unfold decryptPost at h
  split at h
  . dsimp only at h
    rw [hnone] at h
    cases h
  . next text htext =>
    refine ⟨text, htext, exists_of_decryptBody hfc (.inl rfl) hnone h, ?_⟩
    intro q hq hgroup hauthor
    rw [body_decryptBody_author hfc hnone hq hgroup hauthor] at h
    split at h
    . next hsame => exact ⟨hsame.2, (Option.some.inj h).symm⟩
    . cases h

theorem body_decryptPost {text : String} {q : EncryptQuery} (hfc : Genuine fc c asked)
    (hnone : dr.body = none) (htext : cipherOfPost fc (postBody fc db de) = .ok text)
    (hq : EncryptedFor fc c asked (fc.sha512 c.cryptorKey) text q) (hgroup : q.group = "")
    (hauthor : AccountName.isValid q.author = true) (hsame : q.author = de.author) :
    (decryptPost fc c db de dr).body = some q.body := by
  unfold decryptPost
  rw [htext]
  dsimp only
  rw [body_decryptBody_author hfc hnone hq hgroup hauthor, if_pos ⟨rfl, hsame⟩]

theorem body_refusal : (refusal fc db query de).body = none := by
  unfold refusal
  dsimp only
  split
  . rfl
  . split
    . rfl
    . rfl

/-- An entry is opened for those who are not refused, and for those who have paid. -/
theorem body_answerEntry : ∃ dr : DecryptedResult, dr.body = none ∧
    (answerEntry fc c db query de).body =
      if isRefused fc db query de = true ∧ (donated fc db query de).1 = false then none
      else (decryptPost fc c db de dr).body := by
  unfold answerEntry
  by_cases hrefused : isRefused fc db query de = true
  . rw [if_pos hrefused]
    by_cases hpaid : (donated fc db query de).1 = true
    . refine ⟨{ refusal fc db query de with err := some "" }, body_refusal, ?_⟩
      dsimp only
      rw [if_pos hpaid, if_neg]
      rw [hpaid]
      exact fun h => by cases h.2
    . rw [Bool.not_eq_true] at hpaid
      refine ⟨{}, rfl, ?_⟩
      have hboth : isRefused fc db query de = true ∧ (donated fc db query de).1 = false :=
        ⟨hrefused, hpaid⟩
      rw [if_pos hboth]
      dsimp only
      rw [hpaid, if_neg Bool.false_ne_true]
      split
      . exact body_refusal
      . exact body_refusal
  . refine ⟨{ author := some de.author }, rfl, ?_⟩
    rw [if_neg hrefused, if_neg fun h => hrefused h.1]

theorem findSubscriber_eq_some {s : PaidSubscriberObject}
    (h : findSubscriber fc db query de = some s) :
    s ∈ db.subscribers.rows ∧ s.author = fc.accountName de.author ∧ s.oid = query.oid ∧
      s.subscriber = query.account := by
  unfold findSubscriber at h
  dsimp only at h
  split at h
  . cases h
  . obtain ⟨hin, hkey⟩ := Table.find?_eq_some_iff.mp h
    unfold PaidSubscriberObject.byAuthorOidSubscriber at hkey
    obtain ⟨hauthor, hrest⟩ := Prod.mk.inj hkey
    obtain ⟨hoid, hsubscriber⟩ := Prod.mk.inj hrest
    exact ⟨hin, hauthor, hoid, hsubscriber⟩

/-- Who is not refused is the author, or has an active subscription. -/
theorem of_not_isRefused (h : isRefused fc db query de = false) :
    fc.accountName de.author = query.account ∨
      ∃ s ∈ db.subscribers.rows, s.author = fc.accountName de.author ∧ s.oid = query.oid ∧
        s.subscriber = query.account ∧ s.active = true := by
  unfold isRefused at h
  rw [decide_eq_false_iff_not, not_and_or, not_not, not_not] at h
  rcases h with heq | hin
  . exact .inl heq
  . right
    unfold authors at hin
    obtain ⟨s, hs, hauthor⟩ := List.mem_map.mp hin
    obtain ⟨hs, hactive⟩ := List.mem_filter.mp hs
    obtain ⟨de', -, hfind⟩ := List.mem_filterMap.mp hs
    obtain ⟨hrow, -, hoid, hsubscriber⟩ := findSubscriber_eq_some hfind
    exact ⟨s, hrow, hauthor, hoid, hsubscriber, hactive⟩

end posts

end Cryptor

end Golos
