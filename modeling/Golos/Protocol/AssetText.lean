import Mathlib.Data.List.DropRight
import Golos.Lib.Decimal
import Golos.Protocol.AssetWire

/-!
This module contains the text form of assets: an amount with as many decimals as the symbol has, a
space, and the name of the symbol. It also contains what is read back from the texts: the places of
the point and of the space, the number before them, and the symbol behind.
-/

namespace Golos

open Checked Decimal

def IsSpace (c : Nat) : Prop :=
  c = 32 ∨ (9 ≤ c ∧ c ≤ 13)

instance (c : Nat) : Decidable (IsSpace c) :=
  inferInstanceAs (Decidable (_ ∨ _))

def trimSpaces (s : Text) : Text :=
  (s.dropWhile (IsSpace ·)).rdropWhile (IsSpace ·)

/-- The functions of `fc` for texts. -/
structure TextFunctions where
  toString : ℤ → Text
  toInt64 : Text → Result ℤ
  trim : Text → Text

/-- What these functions are documented to do. -/
structure TextFunctions.Lawful (fc : TextFunctions) : Prop where
  toString_eq : ∀ x, minInt64 ≤ x → x ≤ maxInt64 → fc.toString x = Decimal.integer x
  toInt64_eq_ok : ∀ s x, fc.toInt64 s = .ok x ↔ IsInteger s x ∧ minInt64 ≤ x ∧ x ≤ maxInt64
  trim_eq : ∀ s, fc.trim s = trimSpaces s

/-- What an integer becomes in an `int64_t`. -/
def wrapInt64 (x : ℤ) : ℤ :=
  intOfUint64 (uint64OfInt x)

namespace AssetSymbolType

def byte (symbol : AssetSymbolType) (i : Nat) : Nat :=
  symbol.toNat / 256 ^ i % 256

/-- `asset::max_symbol` -/
def maxSymbol : AssetSymbolType :=
  symbolOfBytes (114 :: List.replicate 14 255)

/-- `decimals()` -/
def checkedDecimals (symbol : AssetSymbolType) : Result Nat := do
  ensure (Asset.decimals symbol < 15) (.assertException "result < 15")
  pure (Asset.decimals symbol)

/-- The name ends within the bytes of the symbol. -/
def checkEnd (symbol : AssetSymbolType) : Result Unit :=
  if 100 ≤ signedChar symbol.firstByte then
    ensure (byte symbol 15 = 0) (.assertException "a[15] == 0")
  else
    ensure (byte symbol 7 = 0) (.assertException "a[7] == 0")

/-- `symbol_name()` -/
def nameText (symbol : AssetSymbolType) : Result Text := do
  symbol.checkEnd
  if symbol = maxSymbol then
    pure (List.replicate 14 63)
  else
    pure (symbolName symbol)

end AssetSymbolType

namespace Asset

variable (fc : TextFunctions)

/-- Division is towards zero, as it is in C++. -/
def toString (a : Asset) : Result Text := do
  let decimals ← AssetSymbolType.checkedDecimals a.symbol
  let prec : ℤ := 10 ^ decimals
  let result := fc.toString (a.amount.tdiv prec)
  let result :=
    if 1 < prec then
      result ++ 46 :: (fc.toString (prec + a.amount.tmod prec)).drop 1
    else
      result
  let name ← AssetSymbolType.nameText a.symbol
  pure (result ++ 32 :: name)

/-- The amount before a space, and its decimals. -/
def readAmount (s : Text) (spacePos : Nat) : Result (ℤ × Nat) :=
  match s.idxOf? 46 with
  | some dotPos => do
    ensure (spacePos > dotPos) (.invalidValue "Invalid asset notation")
    let intpart := s.take dotPos
    let fractpart := 49 :: (s.drop (dotPos + 1)).take (spacePos - dotPos - 1)
    ensure (fractpart.length - 1 < 15) (.invalidValue "Asset fraction part is too long")
    let prec : ℤ := 10 ^ (fractpart.length - 1)
    let amount ← fc.toInt64 intpart
    let amount := wrapInt64 (amount * prec)
    let fract ← fc.toInt64 fractpart
    let amount := wrapInt64 (amount + fract)
    pure (wrapInt64 (amount - prec), fractpart.length - 1)
  | none => do
    let amount ← fc.toInt64 (s.take spacePos)
    pure (amount, 0)

def fromString (source : Text) : Result Asset := do
  let s := fc.trim source
  let spacePos ← get (s.idxOf? 32) (.invalidValue "Invalid asset notation")
  let (amount, decimals) ← readAmount fc s spacePos
  let symbol := s.drop (spacePos + 1)
  ensure (symbol.length ≤ 14) (.invalidValue "Asset symbol is too long")
  let mark := if 6 < symbol.length then decimals + 100 else decimals
  pure ⟨amount, symbolOfBytes (mark :: symbol)⟩

end Asset

section places

variable {s t : Text} {a i : Nat}

/-- The first place of a character cuts the text in two. -/
theorem idxOf?_eq_some : s.idxOf? a = some i ↔ ∃ u v, s = u ++ a :: v ∧ a ∉ u ∧ u.length = i := by
  induction s generalizing i with
  | nil => simp
  | cons c s ih =>
    rw [List.idxOf?_cons]
    by_cases hc : c = a
    . rw [if_pos (by simpa using hc)]
      constructor
      . intro h
        injection h with h
        exact ⟨[], s, by rw [hc]; rfl, List.not_mem_nil, h⟩
      . rintro ⟨u, v, huv, hu, rfl⟩
        cases u with
        | nil => rfl
        | cons b u =>
          injection huv with hb
          exact absurd (List.mem_cons_self) (hc ▸ hb ▸ hu)
    . rw [if_neg (by simpa using hc), Option.map_eq_some_iff]
      constructor
      . rintro ⟨j, hj, rfl⟩
        obtain ⟨u, v, rfl, hu, rfl⟩ := ih.mp hj
        refine ⟨c :: u, v, rfl, ?_, rfl⟩
        exact List.not_mem_cons_of_ne_of_not_mem (Ne.symm hc) hu
      . rintro ⟨u, v, huv, hu, rfl⟩
        cases u with
        | nil =>
          injection huv with hb
          exact absurd hb hc
        | cons b u =>
          injection huv with hb hs
          exact ⟨u.length, ih.mpr ⟨u, v, hs, fun h => hu (List.mem_cons_of_mem _ h), rfl⟩, rfl⟩

theorem idxOf?_append (h : a ∉ s) : (s ++ a :: t).idxOf? a = some s.length :=
  idxOf?_eq_some.mpr ⟨s, t, rfl, h, rfl⟩

theorem takeWhile_append (h : a ∉ s) : (s ++ a :: t).takeWhile (· ≠ a) = s := by
  rw [List.takeWhile_append_of_pos, List.takeWhile_cons_of_neg (by simp), List.append_nil]
  intro c hc
  rw [decide_eq_true_iff]
  rintro rfl
  exact h hc

theorem dropWhile_append (h : a ∉ s) : (s ++ a :: t).dropWhile (· ≠ a) = a :: t := by
  rw [List.dropWhile_append_of_pos, List.dropWhile_cons_of_neg (by simp)]
  intro c hc
  rw [decide_eq_true_iff]
  rintro rfl
  exact h hc

theorem takeWhile_self (h : a ∉ s) : s.takeWhile (· ≠ a) = s := by
  rw [List.takeWhile_eq_self_iff]
  intro c hc
  rw [decide_eq_true_iff]
  rintro rfl
  exact h hc

theorem dropWhile_self (h : a ∉ s) : s.dropWhile (· ≠ a) = [] := by
  rw [List.dropWhile_eq_nil_iff]
  intro c hc
  rw [decide_eq_true_iff]
  rintro rfl
  exact h hc

theorem exists_cut (h : a ∈ s) : ∃ u v, s = u ++ a :: v ∧ a ∉ u := by
  obtain ⟨i, hi⟩ := Option.isSome_iff_exists.mp (List.isSome_idxOf?.mpr h)
  obtain ⟨u, v, heq, hu, -⟩ := idxOf?_eq_some.mp hi
  exact ⟨u, v, heq, hu⟩

theorem cut_unique {s' t' : Text} (hs : a ∉ s) (hs' : a ∉ s') (h : s ++ a :: t = s' ++ a :: t') :
    s = s' ∧ t = t' := by
  have heq : s = s' := by
    rw [← takeWhile_append (t := t) hs, h, takeWhile_append hs']
  subst heq
  rw [List.append_cancel_left_eq] at h
  injection h with _ h
  exact ⟨rfl, h⟩

end places

section numbers

variable {s : Text} {x : ℤ}

theorem not_mem_of_digits {a : Nat} (hs : ∀ c ∈ s, IsDigit c) (ha : ¬IsDigit a) : a ∉ s :=
  fun h => ha (hs a h)

/-- An integer has no characters but digits and a sign. -/
theorem not_mem_of_isInteger {a : Nat} (h : IsInteger s x) (ha : ¬IsDigit a) (hplus : a ≠ 43)
    (hminus : a ≠ 45) : a ∉ s := by
  obtain ⟨digits, hdigits, ⟨rfl | rfl, -⟩ | ⟨rfl, -⟩⟩ := h
  . exact not_mem_of_digits hdigits.digits ha
  . exact List.not_mem_cons_of_ne_of_not_mem hplus (not_mem_of_digits hdigits.digits ha)
  . exact List.not_mem_cons_of_ne_of_not_mem hminus (not_mem_of_digits hdigits.digits ha)

/-- The sign and the digits of an integer that more text may follow. -/
theorem isInteger_append (h : IsInteger s x) (t : Text) :
    ∃ digits, IsNumeral digits ∧ magnitude (s ++ t) = digits ++ t ∧
      ((¬IsNegative (s ++ t) ∧ x = value digits) ∨ (IsNegative (s ++ t) ∧ x = -value digits)) := by
  obtain ⟨digits, hdigits, ⟨rfl | rfl, rfl⟩ | ⟨rfl, rfl⟩⟩ := h
  . refine ⟨s, hdigits, ?_, .inl ⟨?_, rfl⟩⟩
    . cases s with
      | nil => exact absurd rfl hdigits.ne_nil
      | cons c s =>
        have hc := hdigits.digits c List.mem_cons_self
        unfold IsDigit at hc
        unfold magnitude
        split
        . next heq =>
          injection heq with heq
          omega
        . next heq =>
          injection heq with heq
          omega
        . rfl
    . cases s with
      | nil => exact absurd rfl hdigits.ne_nil
      | cons c s =>
        have hc := hdigits.digits c List.mem_cons_self
        unfold IsDigit at hc
        intro hneg
        injection hneg with hneg
        omega
  . exact ⟨digits, hdigits, rfl, .inl ⟨by simp [IsNegative], rfl⟩⟩
  . exact ⟨digits, hdigits, rfl, .inr ⟨rfl, rfl⟩⟩

theorem scaled_append {t : Text} (h : IsInteger s x) :
    ∃ digits, IsNumeral digits ∧ fraction (s ++ 46 :: t) = t ∧
      ((¬IsNegative (s ++ 46 :: t) ∧ x = value digits ∧
          scaled (s ++ 46 :: t) = value digits * 10 ^ t.length + value t) ∨
        (IsNegative (s ++ 46 :: t) ∧ x = -value digits ∧
          scaled (s ++ 46 :: t) = -(value digits * 10 ^ t.length + value t))) := by
  obtain ⟨digits, hdigits, hmagnitude, hsign⟩ := isInteger_append h (46 :: t)
  have hpoint := not_mem_of_digits hdigits.digits (show ¬IsDigit 46 by decide)
  have hwhole : whole (s ++ 46 :: t) = digits := by
    unfold whole
    rw [hmagnitude, takeWhile_append hpoint]
  have hfraction : fraction (s ++ 46 :: t) = t := by
    unfold fraction
    rw [hmagnitude, dropWhile_append hpoint]
    rfl
  refine ⟨digits, hdigits, hfraction, ?_⟩
  unfold scaled
  rw [hwhole, hfraction]
  rcases hsign with ⟨hpos, hx⟩ | ⟨hneg, hx⟩
  . refine .inl ⟨hpos, hx, ?_⟩
    rw [if_neg hpos]
    push_cast
    rfl
  . refine .inr ⟨hneg, hx, ?_⟩
    rw [if_pos hneg]
    push_cast
    rfl

theorem scaled_of_isInteger (h : IsInteger s x) : fraction s = [] ∧ scaled s = x := by
  obtain ⟨digits, hdigits, hmagnitude, hsign⟩ := isInteger_append h []
  rw [List.append_nil, List.append_nil] at hmagnitude
  rw [List.append_nil] at hsign
  have hpoint := not_mem_of_digits hdigits.digits (show ¬IsDigit 46 by decide)
  have hwhole : whole s = digits := by
    unfold whole
    rw [hmagnitude, takeWhile_self hpoint]
  have hfraction : fraction s = [] := by
    unfold fraction
    rw [hmagnitude, dropWhile_self hpoint]
    rfl
  refine ⟨hfraction, ?_⟩
  unfold scaled
  rw [hwhole, hfraction]
  rcases hsign with ⟨hpos, rfl⟩ | ⟨hneg, rfl⟩
  . rw [if_neg hpos]
    simp [value]
  . rw [if_pos hneg]
    simp [value]

end numbers

section wrap

variable {x y : ℤ}

theorem wrapInt64_eq : wrapInt64 x = (x + 2 ^ 63) % 2 ^ 64 - 2 ^ 63 := by
  unfold wrapInt64 intOfUint64 uint64OfInt
  split <;> omega

theorem wrapInt64_of_fits (h : minInt64 ≤ x ∧ x ≤ maxInt64) : wrapInt64 x = x :=
  Asset.intOfUint64_uint64OfInt h

theorem wrapInt64_fits : minInt64 ≤ wrapInt64 x ∧ wrapInt64 x ≤ maxInt64 := by
  rw [wrapInt64_eq]
  unfold minInt64 maxInt64
  omega

/-- Only the last of some steps needs to fit. -/
theorem wrapInt64_add : wrapInt64 (wrapInt64 x + y) = wrapInt64 (x + y) := by
  rw [wrapInt64_eq, wrapInt64_eq, wrapInt64_eq]
  omega

theorem wrapInt64_sub : wrapInt64 (wrapInt64 x - y) = wrapInt64 (x - y) := by
  rw [wrapInt64_eq, wrapInt64_eq, wrapInt64_eq]
  omega

end wrap

namespace AssetSymbolType

variable {bytes name : Text}

theorem foldr_lt : bytes.foldr (fun b acc => b % 256 + 256 * acc) 0 < 256 ^ bytes.length := by
  induction bytes with
  | nil => decide
  | cons b bytes ih =>
    rw [List.foldr_cons, List.length_cons, Nat.pow_succ]
    omega

theorem toNat_symbolOfBytes (h : bytes.length ≤ 16) :
    (symbolOfBytes bytes).toNat = bytes.foldr (fun b acc => b % 256 + 256 * acc) 0 := by
  unfold symbolOfBytes
  rw [BitVec.toNat_ofNat]
  apply Nat.mod_eq_of_lt
  exact foldr_lt.trans_le (Nat.pow_le_pow_right (by decide) h : 256 ^ bytes.length ≤ 256 ^ 16)

theorem byte_symbolOfBytes (h : bytes.length ≤ 16) (i : Nat) :
    byte (symbolOfBytes bytes) i = bytes.getD i 0 % 256 := by
  unfold byte
  rw [toNat_symbolOfBytes h]
  clear h
  induction i generalizing bytes with
  | zero =>
    cases bytes with
    | nil => rfl
    | cons b bytes =>
      rw [List.foldr_cons, List.getD_cons_zero, Nat.pow_zero, Nat.div_one]
      omega
  | succ i ih =>
    cases bytes with
    | nil => simp
    | cons b bytes =>
      rw [List.foldr_cons, List.getD_cons_succ, ← ih, Nat.pow_succ', ← Nat.div_div_eq_div_mul]
      congr 2
      omega

/-- The first byte of a symbol with a name. -/
def mark (decimals : Nat) (name : Text) : Nat :=
  if 6 < name.length then decimals + 100 else decimals

theorem mark_lt {decimals : Nat} (name : Text) (h : decimals < 15) : mark decimals name < 115 := by
  unfold mark
  split <;> omega

theorem byte_zero (symbol : AssetSymbolType) : byte symbol 0 = symbol.firstByte := by
  unfold byte firstByte
  rw [Nat.pow_zero, Nat.div_one]

theorem firstByte_symbolOfBytes {b : Nat} (h : bytes.length ≤ 15) :
    firstByte (symbolOfBytes (b :: bytes)) = b % 256 := by
  rw [← byte_zero, byte_symbolOfBytes (by rw [List.length_cons]; omega), List.getD_cons_zero]

theorem decimals_symbolOfBytes {decimals : Nat} (hlt : decimals < 15) (h : name.length ≤ 14) :
    Asset.decimals (symbolOfBytes (mark decimals name :: name)) = decimals := by
  have hfirst := @firstByte_symbolOfBytes name (mark decimals name) (by omega)
  have hmark := mark_lt name hlt
  unfold firstByte at hfirst
  unfold Asset.decimals
  rw [hfirst, Nat.mod_eq_of_lt (by omega)]
  unfold mark
  dsimp only
  split <;> split <;> omega

/-- A symbol whose first byte says how long its name is. -/
structure Named (symbol : AssetSymbolType) (decimals : Nat) (name : Text) : Prop where
  decimals_lt : decimals < 15
  ne_nil : name ≠ []
  length_le : name.length ≤ 14
  letters : ∀ c ∈ name, c = 46 ∨ (65 ≤ c ∧ c ≤ 90) ∨ (97 ≤ c ∧ c ≤ 122)
  symbol_eq : symbol = symbolOfBytes (mark decimals name :: name)

namespace Named

variable {symbol : AssetSymbolType} {decimals : Nat} (h : symbol.Named decimals name)

include h

theorem decimals_eq : Asset.decimals symbol = decimals := by
  rw [h.symbol_eq, decimals_symbolOfBytes h.decimals_lt h.length_le]

theorem checkedDecimals_eq : symbol.checkedDecimals = .ok decimals := by
  unfold checkedDecimals
  rw [h.decimals_eq, ensure_eq_ok (u := ()) |>.mpr h.decimals_lt]
  rfl

theorem byte_succ (i : Nat) : byte symbol (i + 1) = name.getD i 0 := by
  have hlength := h.length_le
  rw [h.symbol_eq, byte_symbolOfBytes (by rw [List.length_cons]; omega), List.getD_cons_succ]
  apply Nat.mod_eq_of_lt
  rw [List.getD_eq_getElem?_getD]
  cases hc : name[i]? with
  | none => decide
  | some c =>
    have := h.letters c (List.mem_of_getElem? hc)
    rw [Option.getD_some]
    omega

theorem symbolName_eq : symbolName symbol = name := by
  have hlength := h.length_le
  have hbytes : (List.range 15).map (fun i => symbol.toNat / 256 ^ (i + 1) % 256) =
      name ++ List.replicate (15 - name.length) 0 := by
    apply List.ext_getElem?
    intro i
    rw [List.getElem?_map]
    by_cases hi : i < 15
    . rw [List.getElem?_range hi, Option.map_some]
      have hbyte := h.byte_succ i
      unfold byte at hbyte
      rw [hbyte, List.getD_eq_getElem?_getD, List.getElem?_append]
      split
      . next hi =>
        rw [List.getElem?_eq_getElem hi]
        rfl
      . next hi =>
        rw [List.getElem?_eq_none (Nat.not_lt.mp hi), List.getElem?_replicate, if_pos (by omega)]
        rfl
    . rw [List.getElem?_eq_none (by rw [List.length_range]; omega), List.getElem?_eq_none]
      . rfl
      . rw [List.length_append, List.length_replicate]
        omega
  unfold symbolName
  rw [hbytes, List.takeWhile_append_of_pos]
  . have hzeros : 15 - name.length = 14 - name.length + 1 := by omega
    rw [hzeros, List.replicate_succ, List.takeWhile_cons_of_neg (by simp), List.append_nil]
  . intro c hc
    have := h.letters c hc
    rw [decide_eq_true_iff]
    omega

theorem ne_maxSymbol : symbol ≠ maxSymbol := by
  intro heq
  have hname := h.symbolName_eq
  have hmax : symbolName maxSymbol = List.replicate 14 255 := by decide +kernel
  rw [heq, hmax] at hname
  have := h.letters 255 (by rw [← hname]; decide)
  omega

theorem checkEnd_eq : symbol.checkEnd = .ok () := by
  have hlength := h.length_le
  have hlt := h.decimals_lt
  have hmark := mark_lt name hlt
  have hfirst : symbol.firstByte = mark decimals name := by
    rw [h.symbol_eq, firstByte_symbolOfBytes (by omega)]
    exact Nat.mod_eq_of_lt (hmark.trans (by decide))
  have hchar : signedChar symbol.firstByte = mark decimals name := by
    unfold signedChar
    rw [hfirst, if_pos (by omega)]
  have hzero : ∀ i, name.length ≤ i → byte symbol (i + 1) = 0 := by
    intro i hi
    rw [h.byte_succ, List.getD_eq_getElem?_getD, List.getElem?_eq_none hi]
    rfl
  unfold checkEnd
  rw [hchar]
  split
  . exact ensure_eq_ok.mpr (hzero 14 hlength)
  . next hshort =>
    refine ensure_eq_ok.mpr (hzero 6 ?_)
    unfold mark at hshort
    split at hshort <;> omega

theorem nameText_eq : symbol.nameText = .ok name := by
  unfold nameText
  rw [h.checkEnd_eq, ok_bind, if_neg h.ne_maxSymbol, h.symbolName_eq]
  rfl

end Named

end AssetSymbolType

end Golos
