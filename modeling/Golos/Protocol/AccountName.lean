import Mathlib.Data.FinEnum
import Golos.Protocol.Types

/-!
This module contains the loop that checks the bytes of an account name, and the grammar of names that
it decides.
-/

namespace Golos

def steemitMinAccountNameLength : Nat := 3

def steemitMaxAccountNameLength : Nat := 16

/-- The difference of two `size_t`. -/
def subSize (x y : Nat) : Nat :=
  (x + (2 ^ 64 - y % 2 ^ 64)) % 2 ^ 64

namespace AccountName

/-- The byte `'.'`. -/
def dot : UInt8 := 46

/-- The byte `'-'`. -/
def hyphen : UInt8 := 45

def isLetterByte (x : UInt8) : Bool :=
  97 ≤ x ∧ x ≤ 122

def isDigitByte (x : UInt8) : Bool :=
  48 ≤ x ∧ x ≤ 57

def isNameByte (x : UInt8) : Bool :=
  isLetterByte x || isDigitByte x || x = hyphen

/-- `name.find_first_of('.', begin)`, nothing for `npos`. -/
def findFirstOf (name : List UInt8) (start : Nat) : Option Nat :=
  if dot ∈ name.drop start then some (start + (name.drop start).idxOf dot) else none

/-- The loop over the next `count` bytes; nothing if it reads past the end of the name. -/
def checkInner (name : List UInt8) : Nat → Nat → Option Bool
  | 0, _ => some true
  | count + 1, i => do
    let t ← name[i]?
    if isNameByte t then
      checkInner name count (i + 1)
    else
      some false

/-- What one turn of the loop checks of the bytes from `start` to `stop`. -/
def checkSegment (name : List UInt8) (start stop : Nat) : Option Bool :=
  if subSize stop start < 3 then
    some false
  else do
    let first ← name[start]?
    if !isLetterByte first then
      some false
    else
      let t ← name[stop - 1]?
      if !isLetterByte t && !isDigitByte t then
        some false
      else
        checkInner name (stop - 1 - (start + 1)) (start + 1)

/-- `while (true)`, for no more turns than the fuel allows. -/
def checkSegments (name : List UInt8) : Nat → Nat → Option Bool
  | 0, _ => none
  | fuel + 1, start => do
    let stop := (findFirstOf name start).getD name.length
    let valid ← checkSegment name start stop
    if !valid then
      some false
    else if stop = name.length then
      some true
    else
      checkSegments name fuel (stop + 1)

/-- `is_valid_account_name`, nothing if it does not end or reads past the end of the name. -/
def isValidAccountName (name : List UInt8) : Option Bool :=
  if name.length < steemitMinAccountNameLength then
    some false
  else if steemitMaxAccountNameLength < name.length then
    some false
  else
    checkSegments name (name.length + 1) 0

/-- A segment of a name, by the grammar. -/
structure IsSegment (seg : List UInt8) : Prop where
  length : 3 ≤ seg.length
  first : seg.head?.any isLetterByte
  last : seg.getLast?.any fun t => isLetterByte t || isDigitByte t
  all : ∀ t ∈ seg, isNameByte t

instance (seg : List UInt8) : Decidable (IsSegment seg) :=
  decidable_of_iff (3 ≤ seg.length ∧ seg.head?.any isLetterByte ∧
      (seg.getLast?.any fun t => isLetterByte t || isDigitByte t) ∧ ∀ t ∈ seg, isNameByte t)
    ⟨fun ⟨h₁, h₂, h₃, h₄⟩ => ⟨h₁, h₂, h₃, h₄⟩, fun ⟨h₁, h₂, h₃, h₄⟩ => ⟨h₁, h₂, h₃, h₄⟩⟩

/-- The names of the grammar: segments with dots between them. -/
def IsAccountName (name : List UInt8) : Prop :=
  3 ≤ name.length ∧ name.length ≤ 16 ∧
    ∃ segs, segs ≠ [] ∧ (∀ seg ∈ segs, IsSegment seg) ∧ name = [dot].intercalate segs

theorem subSize_of_le {x y : Nat} (hle : y ≤ x) (hx : x < 2 ^ 64) : subSize x y = x - y := by
  unfold subSize
  omega

theorem not_isNameByte_dot : isNameByte dot = false := by
  decide

theorem IsSegment.dot_notMem {seg : List UInt8} (h : IsSegment seg) : dot ∉ seg := by
  intro hmem
  have := h.all dot hmem
  rw [not_isNameByte_dot] at this
  cases this

theorem checkInner_eq (before mid rest : List UInt8) :
    checkInner (before ++ mid ++ rest) mid.length before.length = some (mid.all isNameByte) := by
  induction mid generalizing before with
  | nil => rfl
  | cons t mid ih =>
    have hread : (before ++ t :: mid ++ rest)[before.length]? = some t := by simp
    have hnext := ih (before ++ [t])
    rw [List.length_append, List.length_singleton] at hnext
    rw [List.length_cons, List.all_cons]
    unfold checkInner
    rw [hread, Option.bind_eq_bind, Option.bind_some]
    split
    . next ht =>
      rw [ht, Bool.true_and, ← hnext]
      congr 1
      simp
    . next ht => simp [ht]

theorem checkSegment_eq {before seg rest : List UInt8}
    (hlength : (before ++ seg ++ rest).length < 2 ^ 64) :
    checkSegment (before ++ seg ++ rest) before.length (before.length + seg.length) =
      some (decide (IsSegment seg)) := by
  rw [List.length_append, List.length_append] at hlength
  unfold checkSegment
  rw [subSize_of_le (Nat.le_add_right _ _) (by omega), Nat.add_sub_cancel_left]
  split
  . next hshort =>
    have : ¬IsSegment seg := fun h => by
      have := h.length
      omega
    simp [this]
  . next hlong =>
    obtain ⟨first, mid, t, rfl⟩ : ∃ first mid t, seg = first :: (mid ++ [t]) := by
      cases seg with
      | nil => simp at hlong
      | cons first seg =>
        have hne : seg ≠ [] := by
          rintro rfl
          simp at hlong
        exact ⟨first, seg.dropLast, seg.getLast hne, by rw [List.dropLast_append_getLast]⟩
    have hfirst : (before ++ first :: (mid ++ [t]) ++ rest)[before.length]? = some first := by simp
    have hlast : (before ++ first :: (mid ++ [t]) ++ rest)[
        before.length + (first :: (mid ++ [t])).length - 1]? = some t := by
      have hplace : before.length + (first :: (mid ++ [t])).length - 1 =
          (before ++ first :: mid).length := by simp
      have hsplit : before ++ first :: (mid ++ [t]) ++ rest =
          (before ++ first :: mid) ++ t :: rest := by simp
      rw [hplace, hsplit]
      simp
    have hinner := checkInner_eq (before ++ [first]) mid (t :: rest)
    have hwhole : before ++ [first] ++ mid ++ t :: rest = before ++ first :: (mid ++ [t]) ++ rest := by
      simp
    have hcount : before.length + (first :: (mid ++ [t])).length - 1 - (before.length + 1) =
        mid.length := by
      simp
      omega
    rw [hwhole, List.length_append, List.length_singleton] at hinner
    have hsegment : IsSegment (first :: (mid ++ [t])) ↔ isLetterByte first ∧
        (isLetterByte t || isDigitByte t) ∧ mid.all isNameByte := by
      constructor
      . intro h
        refine ⟨by simpa using h.first, ?_, ?_⟩
        . have hlast := h.last
          rw [List.getLast?_cons, List.getLast?_append] at hlast
          simpa using hlast
        . rw [List.all_eq_true]
          intro x hx
          exact h.all x (by simp [hx])
      . rintro ⟨hletter, hend, hall⟩
        refine ⟨by omega, by simpa using hletter, ?_, ?_⟩
        . rw [List.getLast?_cons, List.getLast?_append]
          simpa using hend
        . intro x hx
          rw [List.all_eq_true] at hall
          simp only [List.mem_cons, List.mem_append, List.not_mem_nil, or_false] at hx
          unfold isNameByte
          rcases hx with rfl | hx | rfl
          . simp [hletter]
          . exact hall x hx
          . simp [hend]
    rw [hfirst, hlast, hcount, hinner]
    simp only [Option.bind_eq_bind, Option.bind_some, decide_eq_decide.mpr hsegment]
    cases isLetterByte first <;> cases isLetterByte t <;> cases isDigitByte t <;>
      cases mid.all isNameByte <;> rfl

theorem findFirstOf_of_notMem {before rest : List UInt8} (h : dot ∉ rest) :
    findFirstOf (before ++ rest) before.length = none := by
  unfold findFirstOf
  rw [List.drop_left, if_neg h]

theorem findFirstOf_append_dot {before seg rest : List UInt8} (h : dot ∉ seg) :
    findFirstOf (before ++ (seg ++ dot :: rest)) before.length = some (before.length + seg.length) := by
  unfold findFirstOf
  rw [List.drop_left, if_pos (by simp), List.idxOf_append_of_notMem h, List.idxOf_cons_self,
    Nat.add_zero]

/-- The loop decides whether all that lies between dots is a segment, and always ends. -/
theorem checkSegments_eq {before rest : List UInt8} {fuel : Nat} (hfuel : rest.length < fuel)
    (hlength : (before ++ rest).length < 2 ^ 64) :
    checkSegments (before ++ rest) fuel before.length =
      some (decide (∀ seg ∈ rest.splitOn dot, IsSegment seg)) := by
  induction fuel generalizing before rest with
  | zero => omega
  | succ fuel ih =>
    unfold checkSegments
    dsimp only
    by_cases hdot : dot ∈ rest
    . obtain ⟨seg, rest, rfl, hseg⟩ := List.eq_append_cons_of_mem hdot
      have hwhole : before ++ (seg ++ dot :: rest) = before ++ seg ++ dot :: rest := by simp
      rw [findFirstOf_append_dot hseg, List.splitOn_append_cons_self_of_not_mem hseg,
        Option.getD_some, hwhole, checkSegment_eq (hwhole ▸ hlength)]
      by_cases hvalid : IsSegment seg
      . have hnext : before.length + seg.length ≠ (before ++ seg ++ dot :: rest).length := by simp
        have hrest : checkSegments (before ++ seg ++ [dot] ++ rest) fuel
            (before ++ seg ++ [dot]).length = some (decide (∀ seg ∈ rest.splitOn dot, IsSegment seg)) :=
          ih (by simp at hfuel; omega) (by simpa using hlength)
        have hsame : before ++ seg ++ [dot] ++ rest = before ++ seg ++ dot :: rest := by simp
        rw [hsame] at hrest
        simp only [hvalid, decide_true, Option.bind_eq_bind, Option.bind_some, Bool.not_true,
          Bool.false_eq_true, if_false, if_neg hnext, List.forall_mem_cons, true_and]
        simpa [Nat.add_assoc] using hrest
      . simp [hvalid]
    . have hwhole : before ++ rest = before ++ rest ++ [] := by simp
      have hcheck : checkSegment (before ++ rest ++ []) before.length (before.length + rest.length) =
          some (decide (IsSegment rest)) :=
        checkSegment_eq (by simpa using hlength)
      rw [← hwhole] at hcheck
      rw [findFirstOf_of_notMem hdot, List.splitOn_eq_singleton hdot, Option.getD_none,
        List.length_append, hcheck]
      by_cases hvalid : IsSegment rest
      . simp [hvalid]
      . simp [hvalid]

theorem isAccountName_iff {name : List UInt8} : IsAccountName name ↔
    3 ≤ name.length ∧ name.length ≤ 16 ∧ ∀ seg ∈ name.splitOn dot, IsSegment seg := by
  unfold IsAccountName
  refine and_congr_right fun _ => and_congr_right fun _ => ?_
  constructor
  . rintro ⟨segs, hne, hsegs, rfl⟩
    rw [List.splitOn_intercalate dot (fun seg hseg => (hsegs seg hseg).dot_notMem) hne]
    exact hsegs
  . intro h
    exact ⟨_, List.splitOn_ne_nil dot name, h, (List.intercalate_splitOn dot).symm⟩

instance (name : List UInt8) : Decidable (IsAccountName name) :=
  decidable_of_iff' _ isAccountName_iff

theorem isValidAccountName_eq (name : List UInt8) :
    isValidAccountName name = some (decide (IsAccountName name)) := by
  unfold isValidAccountName steemitMinAccountNameLength steemitMaxAccountNameLength
  split
  . next hshort =>
    have : ¬IsAccountName name := fun h => by
      have := h.1
      omega
    simp [this]
  . split
    . next hlong =>
      have : ¬IsAccountName name := fun h => by
        have := h.2.1
        omega
      simp [this]
    . have hcheck : checkSegments ([] ++ name) (name.length + 1) ([] : List UInt8).length =
          some (decide (∀ seg ∈ name.splitOn dot, IsSegment seg)) :=
        checkSegments_eq (by omega) (by simp; omega)
      rw [List.nil_append, List.length_nil] at hcheck
      rw [hcheck, Option.some.injEq, decide_eq_decide, isAccountName_iff]
      constructor
      . intro h
        exact ⟨by omega, by omega, h⟩
      . intro h
        exact h.2.2

/-- The check ends, reads no byte past the end of the name, and accepts the names of the grammar. -/
theorem isValidAccountName_iff (name : List UInt8) :
    ∃ valid, isValidAccountName name = some valid ∧ (valid = true ↔ IsAccountName name) :=
  ⟨_, isValidAccountName_eq name, decide_eq_true_iff⟩

section utf8

def isNameChar (c : Char) : Bool :=
  isLetter c || isDigit c || c = '-'

theorem utf8EncodeChar_of_le {c : Char} (h : c.toNat ≤ 127) :
    String.utf8EncodeChar c = [UInt8.ofNat c.toNat] := by
  unfold String.utf8EncodeChar
  exact if_pos h

/-- The bytes of a character outside ASCII are outside ASCII too. -/
theorem utf8EncodeChar_of_lt {c : Char} (h : 127 < c.toNat) :
    String.utf8EncodeChar c ≠ [] ∧ ∀ b ∈ String.utf8EncodeChar c, 128 ≤ b.toNat := by
  have hascii : ¬c.val.toNat ≤ 127 := not_le.mpr h
  unfold String.utf8EncodeChar
  dsimp only
  rw [if_neg hascii]
  split
  . simp
    omega
  . split
    . simp
      omega
    . simp
      omega

theorem isLetterByte_ofNat {c : Char} (h : c.toNat ≤ 127) :
    isLetterByte (UInt8.ofNat c.toNat) = isLetter c := by
  have hbyte : (UInt8.ofNat c.toNat).toNat = c.toNat := by
    simp
    omega
  unfold isLetterByte isLetter
  simp only [decide_eq_decide, UInt8.le_iff_toNat_le, Char.le_def, UInt32.le_iff_toNat_le, hbyte]
  rfl

theorem isDigitByte_ofNat {c : Char} (h : c.toNat ≤ 127) :
    isDigitByte (UInt8.ofNat c.toNat) = isDigit c := by
  have hbyte : (UInt8.ofNat c.toNat).toNat = c.toNat := by
    simp
    omega
  unfold isDigitByte isDigit
  simp only [decide_eq_decide, UInt8.le_iff_toNat_le, Char.le_def, UInt32.le_iff_toNat_le, hbyte]
  rfl

theorem ofNat_eq_iff {c d : Char} (hc : c.toNat ≤ 127) (hd : d.toNat ≤ 127) :
    UInt8.ofNat c.toNat = UInt8.ofNat d.toNat ↔ c = d := by
  constructor
  . intro h
    have h := congrArg UInt8.toNat h
    apply Char.toNat_inj.mp
    simp at h
    omega
  . rintro rfl
    rfl

theorem isNameByte_ofNat {c : Char} (h : c.toNat ≤ 127) :
    isNameByte (UInt8.ofNat c.toNat) = isNameChar c := by
  have hhyphen : UInt8.ofNat c.toNat = hyphen ↔ c = '-' := ofNat_eq_iff (d := '-') h (by decide)
  unfold isNameByte isNameChar
  rw [isLetterByte_ofNat h, isDigitByte_ofNat h]
  simp only [hhyphen]

theorem le_of_isNameChar {c : Char} (h : isNameChar c) : c.toNat ≤ 127 := by
  unfold isNameChar isLetter isDigit at h
  simp only [Bool.or_eq_true, decide_eq_true_eq, Char.le_def, UInt32.le_iff_toNat_le] at h
  rcases h with (⟨-, h⟩ | ⟨-, h⟩) | rfl
  . exact h.trans (by decide)
  . exact h.trans (by decide)
  . decide

theorem lt_of_isNameByte {b : UInt8} (h : isNameByte b) : b.toNat < 128 := by
  unfold isNameByte isLetterByte isDigitByte at h
  simp only [Bool.or_eq_true, decide_eq_true_eq, UInt8.le_iff_toNat_le] at h
  rcases h with (⟨-, h⟩ | ⟨-, h⟩) | rfl
  . exact h.trans_lt (by decide)
  . exact h.trans_lt (by decide)
  . decide

theorem isNameChar_of_forall {c : Char} (h : ∀ b ∈ String.utf8EncodeChar c, isNameByte b) :
    isNameChar c := by
  rcases le_or_gt c.toNat 127 with hc | hc
  . rw [← isNameByte_ofNat hc]
    apply h
    simp [utf8EncodeChar_of_le hc]
  . obtain ⟨hne, hbytes⟩ := utf8EncodeChar_of_lt hc
    obtain ⟨b, hb⟩ := List.exists_mem_of_ne_nil _ hne
    have := hbytes b hb
    have := lt_of_isNameByte (h b hb)
    omega

theorem dot_notMem_utf8EncodeChar {c : Char} (h : c ≠ '.') : dot ∉ String.utf8EncodeChar c := by
  intro hmem
  rcases le_or_gt c.toNat 127 with hc | hc
  . rw [utf8EncodeChar_of_le hc, List.mem_singleton] at hmem
    exact h ((ofNat_eq_iff (d := '.') hc (by decide)).mp hmem.symm)
  . exact absurd ((utf8EncodeChar_of_lt hc).2 dot hmem) (by decide)

theorem splitOn_append {x : UInt8} {bs rest : List UInt8} (h : x ∉ bs) :
    (bs ++ rest).splitOn x = (rest.splitOn x).modifyHead (bs ++ ·) := by
  induction bs with
  | nil =>
    rw [List.nil_append]
    cases rest.splitOn x <;> rfl
  | cons b bs ih =>
    rw [List.mem_cons, not_or] at h
    rw [List.cons_append, List.splitOn_cons_eq_if_modifyHead, if_neg (by simpa using Ne.symm h.1),
      ih h.2, List.modifyHead_modifyHead]
    rfl

/-- It is the same to split the characters or their bytes. -/
theorem splitOn_flatMap (cs : List Char) :
    (cs.flatMap String.utf8EncodeChar).splitOn dot =
      (cs.splitOn '.').map fun part => part.flatMap String.utf8EncodeChar := by
  induction cs with
  | nil => rfl
  | cons c cs ih =>
    rw [List.flatMap_cons, List.splitOn_cons_eq_if_modifyHead]
    split
    . next hc =>
      obtain rfl : c = '.' := by simpa using hc
      have hbytes : String.utf8EncodeChar '.' = [dot] := by decide
      rw [hbytes, List.singleton_append, List.splitOn_cons_eq_if_modifyHead, if_pos (by decide), ih]
      rfl
    . next hc =>
      rw [splitOn_append (dot_notMem_utf8EncodeChar (by simpa using hc)), ih]
      cases cs.splitOn '.' with
      | nil => rfl
      | cons part parts => simp

theorem flatMap_eq_map {part : List Char} (h : ∀ c ∈ part, isNameChar c) :
    part.flatMap String.utf8EncodeChar = part.map fun c => UInt8.ofNat c.toNat := by
  induction part with
  | nil => rfl
  | cons c part ih =>
    rw [List.forall_mem_cons] at h
    rw [List.flatMap_cons, ih h.2, utf8EncodeChar_of_le (le_of_isNameChar h.1)]
    rfl

theorem any_map {p : UInt8 → Bool} {q : Char → Bool} {o : Option Char}
    (h : ∀ c, o = some c → p (UInt8.ofNat c.toNat) = q c) :
    (o.map fun c => UInt8.ofNat c.toNat).any p = o.any q := by
  cases o with
  | none => rfl
  | some c => exact h c rfl

theorem isSegment_flatMap (part : List Char) :
    IsSegment (part.flatMap String.utf8EncodeChar) ↔ isValidPart part := by
  have hvalid : isValidPart part ↔ 3 ≤ part.length ∧ part.head?.any isLetter ∧
      (part.getLast?.any fun t => isLetter t || isDigit t) ∧ ∀ c ∈ part, isNameChar c := by
    simp only [isValidPart, decide_eq_true_eq, List.all_eq_true]
    rfl
  rw [hvalid]
  by_cases hall : ∀ c ∈ part, isNameChar c
  . have hle : ∀ c ∈ part, c.toNat ≤ 127 := fun c hc => le_of_isNameChar (hall c hc)
    have hfirst := any_map (p := isLetterByte) (q := isLetter) (o := part.head?) fun c hc =>
      isLetterByte_ofNat (hle c (List.mem_of_mem_head? hc))
    have hlast := any_map (p := fun t => isLetterByte t || isDigitByte t)
      (q := fun t => isLetter t || isDigit t) (o := part.getLast?) fun c hc => by
        have := hle c (List.mem_of_mem_getLast? hc)
        rw [isLetterByte_ofNat this, isDigitByte_ofNat this]
    rw [flatMap_eq_map hall, ← hfirst, ← hlast, ← List.head?_map, ← List.getLast?_map]
    constructor
    . intro h
      exact ⟨by simpa using h.length, h.first, h.last, hall⟩
    . rintro ⟨hlength, hhead, hend, -⟩
      refine ⟨by simpa using hlength, hhead, hend, ?_⟩
      rw [List.forall_mem_map]
      intro c hc
      rw [isNameByte_ofNat (hle c hc)]
      exact hall c hc
  . refine iff_of_false (fun h => hall ?_) (fun h => hall h.2.2.2)
    intro c hc
    apply isNameChar_of_forall
    intro b hb
    exact h.all b (List.mem_flatMap.mpr ⟨c, hc, hb⟩)

/-- On the bytes of a text the loop computes `AccountName.isValid`. -/
theorem isValidAccountName_utf8 (name : AccountName) :
    isValidAccountName (name.toList.flatMap String.utf8EncodeChar) = some (isValid name) := by
  have hsize : name.utf8ByteSize = (name.toList.flatMap String.utf8EncodeChar).length := by
    rw [← String.size_toByteArray, ← String.utf8Encode_toList, List.utf8Encode]
    exact List.size_toByteArray
  rw [isValidAccountName_eq]
  simp only [isValid, hsize, isAccountName_iff, splitOn_flatMap, List.forall_mem_map,
    isSegment_flatMap, List.all_eq_true]

end utf8

end AccountName

end Golos
