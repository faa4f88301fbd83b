import Golos.Protocol.AssetText

/-!
This module contains the assets that are the same after they were written as texts, and the texts
that are read as the amounts they say.
-/

namespace Golos

open Checked Decimal

namespace Asset

/-- What the text before the space is read as. -/
inductive Reads : Text → Text → ℤ → Nat → Prop
  | plain {p name : Text} {amount : ℤ} (hp : 46 ∉ p) (hname : 46 ∉ name)
    (hamount : IsInteger p amount) (hfits : minInt64 ≤ amount ∧ amount ≤ maxInt64) :
    Reads p name amount 0
  | point {q frac name : Text} {x : ℤ} (hq : 46 ∉ q) (hlength : frac.length < 15)
    (hx : IsInteger q x) (hfits : minInt64 ≤ x ∧ x ≤ maxInt64) (hfrac : ∀ c ∈ frac, IsDigit c) :
    Reads (q ++ 46 :: frac) name (wrapInt64 (x * 10 ^ frac.length + value frac)) frac.length

variable {fc : TextFunctions}

theorem isInteger_leading_one {s : Text} {x : ℤ} :
    IsInteger (49 :: s) x ↔ (∀ c ∈ s, IsDigit c) ∧ x = 10 ^ s.length + value s := by
  constructor
  . rintro ⟨digits, hdigits, ⟨heq | heq, rfl⟩ | ⟨heq, -⟩⟩
    . subst heq
      refine ⟨fun c hc => hdigits.digits c (List.mem_cons_of_mem _ hc), ?_⟩
      rw [value_cons]
      push_cast
      ring
    . injection heq with heq
      cases heq
    . injection heq with heq
      cases heq
  . rintro ⟨hs, rfl⟩
    refine ⟨49 :: s, ⟨List.cons_ne_nil _ _, ?_⟩, .inl ⟨.inl rfl, ?_⟩⟩
    . rw [List.forall_mem_cons]
      exact ⟨by decide, hs⟩
    . rw [value_cons]
      push_cast
      ring

theorem toInt64_leading_one (hfc : fc.Lawful) {s : Text} (hs : s.length < 15) {x : ℤ} :
    fc.toInt64 (49 :: s) = .ok x ↔ (∀ c ∈ s, IsDigit c) ∧ x = 10 ^ s.length + value s := by
  rw [hfc.toInt64_eq_ok, isInteger_leading_one]
  constructor
  . rintro ⟨h, -⟩
    exact h
  . rintro ⟨hdigits, rfl⟩
    have hvalue := value_lt hdigits
    have hpow : 10 ^ s.length ≤ 10 ^ 14 := Nat.pow_le_pow_right (by decide) (by omega)
    refine ⟨⟨hdigits, rfl⟩, ?_⟩
    unfold minInt64 maxInt64
    zify at hvalue hpow
    omega

theorem readAmount_point (hfc : fc.Lawful) {q frac name : Text} (hq : 46 ∉ q) {amount : ℤ}
    {decimals : Nat} :
    readAmount fc (q ++ 46 :: (frac ++ 32 :: name)) (q ++ 46 :: frac).length = .ok (amount, decimals) ↔
      frac.length < 15 ∧ decimals = frac.length ∧ (∀ c ∈ frac, IsDigit c) ∧
        ∃ x, IsInteger q x ∧ (minInt64 ≤ x ∧ x ≤ maxInt64) ∧
          amount = wrapInt64 (x * 10 ^ frac.length + value frac) := by
  have hdot : (q ++ 46 :: (frac ++ 32 :: name)).idxOf? 46 = some q.length := idxOf?_append hq
  have htake : (q ++ 46 :: (frac ++ 32 :: name)).take q.length = q := List.take_left
  have hfract : ((q ++ 46 :: (frac ++ 32 :: name)).drop (q.length + 1)).take
      ((q ++ 46 :: frac).length - q.length - 1) = frac := by
    rw [← List.drop_drop, List.drop_left, List.drop_one, List.tail_cons, List.length_append,
      List.length_cons]
    rw [show q.length + (frac.length + 1) - q.length - 1 = frac.length by omega, List.take_left]
  have hplace : (q ++ 46 :: frac).length > q.length := by
    rw [List.length_append, List.length_cons]
    omega
  unfold readAmount
  rw [hdot]
  dsimp only
  rw [htake, hfract, List.length_cons, Nat.add_sub_cancel]
  simp only [bind_eq_ok, ensure_eq_ok, pure_eq_ok, Prod.mk.injEq]
  have hwrap : ∀ x : ℤ, wrapInt64 (wrapInt64 (wrapInt64 (x * 10 ^ frac.length) +
      (10 ^ frac.length + value frac)) - 10 ^ frac.length) =
        wrapInt64 (x * 10 ^ frac.length + value frac) := by
    intro x
    rw [wrapInt64_add, wrapInt64_sub]
    congr 1
    ring
  constructor
  . rintro ⟨-, -, -, hlength, x, hx, y, hy, rfl, rfl⟩
    obtain ⟨hdigits, rfl⟩ := (toInt64_leading_one hfc hlength).mp hy
    obtain ⟨hx, hfits⟩ := (hfc.toInt64_eq_ok _ _).mp hx
    exact ⟨hlength, rfl, hdigits, x, hx, hfits, hwrap x⟩
  . rintro ⟨hlength, rfl, hdigits, x, hx, hfits, rfl⟩
    exact ⟨(), hplace, (), hlength, x, (hfc.toInt64_eq_ok _ _).mpr ⟨hx, hfits⟩, _,
      (toInt64_leading_one hfc hlength).mpr ⟨hdigits, rfl⟩, hwrap x, rfl⟩

/-- A point in the name is found first if there is none before. -/
theorem readAmount_point_in_name {p name : Text} (hp : 46 ∉ p) (hname : 46 ∈ name)
    {result : ℤ × Nat} : readAmount fc (p ++ 32 :: name) p.length ≠ .ok result := by
  obtain ⟨u, v, rfl, hu⟩ := exists_cut hname
  have hbefore : 46 ∉ p ++ 32 :: u := by
    rw [List.mem_append, List.mem_cons]
    rintro (h | h | h)
    . exact hp h
    . cases h
    . exact hu h
  have hdot : (p ++ 32 :: (u ++ 46 :: v)).idxOf? 46 = some (p ++ 32 :: u).length := by
    rw [← List.cons_append, ← List.append_assoc]
    exact idxOf?_append hbefore
  intro h
  unfold readAmount at h
  rw [hdot] at h
  simp only [bind_eq_ok, ensure_eq_ok] at h
  obtain ⟨-, hplace, -⟩ := h
  rw [List.length_append] at hplace
  omega

theorem readAmount_eq_ok (hfc : fc.Lawful) {p name : Text} {amount : ℤ} {decimals : Nat} :
    readAmount fc (p ++ 32 :: name) p.length = .ok (amount, decimals) ↔
      Reads p name amount decimals := by
  by_cases hp : 46 ∈ p
  . obtain ⟨q, frac, rfl, hq⟩ := exists_cut hp
    rw [List.append_assoc, List.cons_append, readAmount_point hfc hq]
    constructor
    . rintro ⟨hlength, rfl, hdigits, x, hx, hfits, rfl⟩
      exact .point hq hlength hx hfits hdigits
    . intro hreads
      generalize htext : q ++ 46 :: frac = text at hreads
      cases hreads with
      | plain hplain => exact absurd (htext ▸ hp) hplain
      | point hq' hlength hx hfits hdigits =>
        obtain ⟨rfl, rfl⟩ := cut_unique hq hq' htext
        exact ⟨hlength, rfl, hdigits, _, hx, hfits, rfl⟩
  . by_cases hname : 46 ∈ name
    . constructor
      . intro h
        exact absurd h (readAmount_point_in_name hp hname)
      . intro hreads
        cases hreads with
        | plain _ hplain => exact absurd hname hplain
        | point => exact absurd (List.mem_append_right _ List.mem_cons_self) hp
    . have hdot : (p ++ 32 :: name).idxOf? 46 = none := by
        rw [List.idxOf?_eq_none_iff, List.mem_append, List.mem_cons]
        rintro (h | h | h)
        . exact hp h
        . cases h
        . exact hname h
      unfold readAmount
      rw [hdot]
      dsimp only
      rw [List.take_left]
      simp only [bind_eq_ok, pure_eq_ok, Prod.mk.injEq]
      constructor
      . rintro ⟨x, hx, rfl, rfl⟩
        obtain ⟨hx, hfits⟩ := (hfc.toInt64_eq_ok _ _).mp hx
        exact .plain hp hname hx hfits
      . intro hreads
        cases hreads with
        | plain _ _ hx hfits => exact ⟨_, (hfc.toInt64_eq_ok _ _).mpr ⟨hx, hfits⟩, rfl, rfl⟩
        | point => exact absurd (List.mem_append_right _ List.mem_cons_self) hp

theorem decimals_lt_of_reads {p name : Text} {amount : ℤ} {decimals : Nat}
    (h : Reads p name amount decimals) : decimals < 15 := by
  cases h with
  | plain => decide
  | point _ hlength => exact hlength

theorem fromString_eq_ok (hfc : fc.Lawful) {source : Text} {a : Asset} :
    fromString fc source = .ok a ↔ ∃ p name decimals, trimSpaces source = p ++ 32 :: name ∧ 32 ∉ p ∧
      name.length ≤ 14 ∧ Reads p name a.amount decimals ∧
        a.symbol = symbolOfBytes (AssetSymbolType.mark decimals name :: name) := by
  unfold fromString
  rw [hfc.trim_eq]
  simp only [bind_eq_ok, get_eq_ok, ensure_eq_ok, pure_eq_ok, Prod.exists]
  constructor
  . rintro ⟨spacePos, hspace, amount, decimals, hread, -, hlength, rfl⟩
    obtain ⟨p, name, htrim, hp, rfl⟩ := idxOf?_eq_some.mp hspace
    have hname : (p ++ 32 :: name).drop (p.length + 1) = name := by
      rw [← List.drop_drop, List.drop_left, List.drop_one, List.tail_cons]
    rw [htrim, hname] at hlength
    rw [htrim] at hread
    refine ⟨p, name, decimals, htrim, hp, hlength, (readAmount_eq_ok hfc).mp hread, ?_⟩
    rw [htrim, hname]
    rfl
  . rintro ⟨p, name, decimals, htrim, hp, hlength, hreads, hsymbol⟩
    have hname : (p ++ 32 :: name).drop (p.length + 1) = name := by
      rw [← List.drop_drop, List.drop_left, List.drop_one, List.tail_cons]
    rw [htrim]
    refine ⟨_, idxOf?_append hp, a.amount, decimals, (readAmount_eq_ok hfc).mpr hreads, (), ?_⟩
    rw [hname]
    refine ⟨hlength, ?_⟩
    cases a with
    | mk amount symbol =>
      dsimp only at hsymbol ⊢
      rw [hsymbol]
      rfl

/-- The number before the symbol. -/
def numberText (source : Text) : Text :=
  (trimSpaces source).takeWhile (· ≠ 32)

/-- The amount is the number before the symbol, in units of the last decimal. -/
def SaysAmount (source : Text) (a : Asset) : Prop :=
  (a.amount : ℚ) = real (numberText source) * 10 ^ decimals a.symbol

/-- The number fits in 64 bits, and there is nothing behind the point of a negative one. -/
def Readable (number : Text) : Prop :=
  (minInt64 ≤ scaled number ∧ scaled number ≤ maxInt64) ∧
    (IsNegative number → value (fraction number) = 0)

theorem says_iff_of_reads {p name : Text} {amount : ℤ} {decimals : Nat}
    (h : Reads p name amount decimals) :
    (amount : ℚ) = real p * 10 ^ decimals ↔ Readable p := by
  unfold Readable
  cases h with
  | plain _ _ hx hfits =>
    obtain ⟨hfraction, hscaled⟩ := scaled_of_isInteger hx
    have hreal := real_mul_pow p
    rw [hfraction, List.length_nil, hscaled] at hreal
    rw [hreal, hfraction, hscaled]
    exact ⟨fun _ => ⟨hfits, fun _ => rfl⟩, fun _ => rfl⟩
  | @point q frac _ x hq hlength hx hfits hdigits =>
    obtain ⟨digits, -, hfraction, hsign⟩ := scaled_append (t := frac) hx
    have hreal := real_mul_pow (q ++ 46 :: frac)
    rw [hfraction] at hreal
    rw [hreal, hfraction, Int.cast_inj]
    have hvalue := value_lt hdigits
    have hpow : 10 ^ frac.length ≤ 10 ^ 14 := Nat.pow_le_pow_right (by decide) (by omega)
    rcases hsign with ⟨hpos, rfl, hscaled⟩ | ⟨hneg, rfl, hscaled⟩
    . rw [hscaled]
      constructor
      . intro heq
        rw [← heq]
        exact ⟨wrapInt64_fits, fun hneg => absurd hneg hpos⟩
      . rintro ⟨hfits, -⟩
        exact wrapInt64_of_fits hfits
    . have hneg_mul : (-(value digits : ℤ)) * 10 ^ frac.length =
          -(value digits * 10 ^ frac.length) := by ring
      rw [hscaled, hneg_mul]
      generalize (value digits : ℤ) * 10 ^ frac.length = units
      constructor
      . intro heq
        rw [← heq]
        refine ⟨wrapInt64_fits, fun _ => ?_⟩
        rw [wrapInt64_eq] at heq
        omega
      . rintro ⟨hfits, hzero⟩
        have hzero := hzero hneg
        rw [hzero, Nat.cast_zero, Int.add_zero] at hfits
        rw [hzero, Nat.cast_zero, Int.add_zero, Int.add_zero]
        exact wrapInt64_of_fits hfits

theorem saysAmount_iff (hfc : fc.Lawful) {source : Text} {a : Asset}
    (h : fromString fc source = .ok a) : SaysAmount source a ↔ Readable (numberText source) := by
  obtain ⟨p, name, decimals, htrim, hp, hlength, hreads, hsymbol⟩ := (fromString_eq_ok hfc).mp h
  have hnumber : numberText source = p := by
    unfold numberText
    rw [htrim, takeWhile_append hp]
  unfold SaysAmount
  rw [hnumber, hsymbol,
    AssetSymbolType.decimals_symbolOfBytes (decimals_lt_of_reads hreads) hlength]
  exact says_iff_of_reads hreads

/-- Nothing is trimmed where the first and the last character are no spaces. -/
theorem trimSpaces_eq {p name : Text} (hp : p ≠ []) (hpspace : ∀ c ∈ p, ¬IsSpace c)
    (hname : name ≠ []) (hnamespace : ∀ c ∈ name, ¬IsSpace c) :
    trimSpaces (p ++ 32 :: name) = p ++ 32 :: name := by
  have hfirst : (p ++ 32 :: name).dropWhile (IsSpace ·) = p ++ 32 :: name := by
    cases p with
    | nil => exact absurd rfl hp
    | cons c p =>
      rw [List.cons_append, List.dropWhile_cons_of_neg]
      rw [decide_eq_true_iff]
      exact hpspace c List.mem_cons_self
  unfold trimSpaces
  rw [hfirst, List.rdropWhile_eq_self_iff]
  intro hne
  rw [decide_eq_true_iff, List.getLast_append_of_ne_nil _ (List.cons_ne_nil _ _),
    List.getLast_cons hname]
  exact hnamespace _ (List.getLast_mem hname)

/-- The text of an asset is read back as the asset if its number is read as the amount. -/
theorem fromString_text (hfc : fc.Lawful) {a : Asset} {d : Nat} {number name : Text}
    (hnamed : AssetSymbolType.Named a.symbol d name) (hne : number ≠ [])
    (hspace : ∀ c ∈ number, ¬IsSpace c) :
    fromString fc (number ++ 32 :: name) = .ok a ↔ Reads number name a.amount d := by
  have hnumber : 32 ∉ number := fun h => hspace 32 h (.inl rfl)
  have hletters : ∀ c ∈ name, ¬IsSpace c := by
    intro c hc
    have := hnamed.letters c hc
    unfold IsSpace
    omega
  rw [fromString_eq_ok hfc, trimSpaces_eq hne hspace hnamed.ne_nil hletters]
  constructor
  . rintro ⟨p, name', decimals, heq, hp, hlength, hreads, hsymbol⟩
    obtain ⟨rfl, rfl⟩ := cut_unique hnumber hp heq
    have hdecimals := hnamed.decimals_eq
    rw [hsymbol,
      AssetSymbolType.decimals_symbolOfBytes (decimals_lt_of_reads hreads) hlength] at hdecimals
    exact hdecimals ▸ hreads
  . intro hreads
    exact ⟨number, name, d, rfl, hnumber, hnamed.length_le, hreads, hnamed.symbol_eq⟩

theorem not_isSpace_of_mem_integer {x : ℤ} : ∀ c ∈ Decimal.integer x, ¬IsSpace c := by
  rintro c hc hspace
  refine not_mem_of_isInteger (isInteger_integer x) ?_ ?_ ?_ hc
  . rintro ⟨hle, -⟩
    unfold IsSpace at hspace
    omega
  . rintro rfl
    revert hspace
    decide
  . rintro rfl
    revert hspace
    decide

theorem point_not_mem_integer {x : ℤ} : 46 ∉ Decimal.integer x :=
  not_mem_of_isInteger (isInteger_integer x) (by decide) (by decide) (by decide)

theorem integer_ne_nil {x : ℤ} : Decimal.integer x ≠ [] := by
  unfold Decimal.integer
  split
  . exact List.cons_ne_nil _ _
  . exact numeral_ne_nil _

theorem tdiv_fits {amount : ℤ} {d : Nat} (hfits : minInt64 ≤ amount ∧ amount ≤ maxInt64) :
    minInt64 ≤ amount.tdiv (10 ^ d) ∧ amount.tdiv (10 ^ d) ≤ maxInt64 := by
  have hpos : (0 : ℤ) ≤ 10 ^ d := by positivity
  have hle := Int.natAbs_tdiv_le_natAbs amount (10 ^ d)
  obtain ⟨hmin, hmax⟩ := hfits
  unfold minInt64 at hmin ⊢
  unfold maxInt64 at hmax ⊢
  by_cases hneg : amount < 0
  . have hneg' := Int.tdiv_nonneg (a := -amount) (by omega) hpos
    rw [Int.neg_tdiv] at hneg'
    omega
  . have := Int.tdiv_nonneg (not_lt.mp hneg) hpos
    omega

/-- The number of an asset with decimals, as the function puts it together. -/
def pointText (amount : ℤ) (d : Nat) : Text :=
  Decimal.integer (amount.tdiv (10 ^ d)) ++
    46 :: (Decimal.integer (10 ^ d + amount.tmod (10 ^ d))).drop 1

section roundTrip

variable {a : Asset} {d : Nat} {name : Text} (hfc : fc.Lawful)
  (hnamed : AssetSymbolType.Named a.symbol d name)
  (hfits : minInt64 ≤ a.amount ∧ a.amount ≤ maxInt64)

include hfc hnamed hfits

theorem toString_of_zero (hd : d = 0) :
    a.toString fc = .ok (Decimal.integer a.amount ++ 32 :: name) := by
  unfold toString
  rw [hnamed.checkedDecimals_eq, ok_bind, hd]
  dsimp only
  rw [pow_zero, Int.tdiv_one, if_neg (Int.lt_irrefl 1), hnamed.nameText_eq,
    hfc.toString_eq _ hfits.1 hfits.2]
  rfl

theorem toString_of_pos (hd : 0 < d) : a.toString fc = .ok (pointText a.amount d ++ 32 :: name) := by
  have hpos : (0 : ℤ) < 10 ^ d := by positivity
  have hten : (10 : ℤ) ≤ 10 ^ d := le_self_pow₀ (by decide) (Nat.ne_of_gt hd)
  have hpow : (10 : ℤ) ^ d ≤ 10 ^ 14 :=
    pow_le_pow_right₀ (by decide) (Nat.lt_succ_iff.mp hnamed.decimals_lt)
  have hlt := Int.tmod_lt_of_pos a.amount hpos
  have hgt := Int.lt_tmod_of_pos a.amount hpos
  have hquotient := tdiv_fits (d := d) hfits
  unfold toString pointText
  rw [hnamed.checkedDecimals_eq, ok_bind]
  dsimp only
  rw [if_pos (by omega), hnamed.nameText_eq, hfc.toString_eq _ hquotient.1 hquotient.2,
    hfc.toString_eq _ (by unfold minInt64; omega) (by unfold maxInt64; omega)]
  rfl

end roundTrip

theorem not_isSpace_of_mem_pointText {amount : ℤ} {d : Nat} :
    ∀ c ∈ pointText amount d, ¬IsSpace c := by
  intro c hc
  rcases List.mem_append.mp hc with hc | hc
  . exact not_isSpace_of_mem_integer c hc
  . rcases List.mem_cons.mp hc with rfl | hc
    . decide
    . exact not_isSpace_of_mem_integer c (List.mem_of_mem_drop hc)

/-- What is behind the point, if it is not below zero. -/
theorem reads_pointText {amount : ℤ} {d : Nat} {name : Text} (hd : d < 15)
    (hfits : minInt64 ≤ amount ∧ amount ≤ maxInt64)
    (hquotient : minInt64 ≤ amount.tdiv (10 ^ d) ∧ amount.tdiv (10 ^ d) ≤ maxInt64)
    (hnonneg : 0 ≤ amount.tmod (10 ^ d)) : Reads (pointText amount d) name amount d := by
  have hpos : (0 : ℤ) < 10 ^ d := by positivity
  have hlt := Int.tmod_lt_of_pos amount hpos
  obtain ⟨f, hf⟩ := Int.eq_ofNat_of_zero_le hnonneg
  have hflt : f < 10 ^ d := by
    zify
    rw [← hf]
    exact hlt
  obtain ⟨t, ht, hlength, hvalue, hdigits⟩ := numeral_leading_one hflt
  have hfract : Decimal.integer (10 ^ d + amount.tmod (10 ^ d)) = 49 :: t := by
    unfold Decimal.integer
    rw [hf, if_neg (not_lt.mpr (by positivity))]
    exact ht
  have hamount := Int.tdiv_mul_add_tmod amount (10 ^ d)
  have hreads := @Reads.point _ _ name _ point_not_mem_integer (hlength ▸ hd)
    (isInteger_integer (amount.tdiv (10 ^ d))) hquotient hdigits
  rw [hlength, hvalue, ← hf, hamount, wrapInt64_of_fits hfits] at hreads
  unfold pointText
  rw [hfract]
  exact hreads

/-- Below zero there are fewer digits behind the point than there were. -/
theorem not_reads_pointText {amount amount' : ℤ} {d : Nat} {name : Text} (hd : 0 < d)
    (hneg : amount.tmod (10 ^ d) < 0) : ¬Reads (pointText amount d) name amount' d := by
  have hpos : (0 : ℤ) < 10 ^ d := by positivity
  have hgt := Int.lt_tmod_of_pos amount hpos
  obtain ⟨n, hn⟩ := Int.eq_ofNat_of_zero_le (show 0 ≤ 10 ^ d + amount.tmod (10 ^ d) by omega)
  have hnlt : n < 10 ^ d := by
    zify
    rw [← hn]
    omega
  have hlength := (length_numeral_le_iff hd).mpr hnlt
  have hfract : Decimal.integer (10 ^ d + amount.tmod (10 ^ d)) = numeral n := by
    unfold Decimal.integer
    rw [hn, if_neg (not_lt.mpr (Int.natCast_nonneg n))]
    rfl
  intro hreads
  unfold pointText at hreads
  rw [hfract] at hreads
  generalize htext : Decimal.integer (amount.tdiv (10 ^ d)) ++ 46 :: (numeral n).drop 1 = text
    at hreads
  generalize hplaces : d = places at hreads
  cases hreads with
  | plain hplain => exact hplain (htext ▸ List.mem_append_right _ List.mem_cons_self)
  | @point q frac _ x hq =>
    obtain ⟨-, rfl⟩ := cut_unique point_not_mem_integer hq htext
    rw [List.length_drop] at hplaces
    omega

section iff

variable {a : Asset} {d : Nat} {name : Text} (hfc : fc.Lawful)
  (hnamed : AssetSymbolType.Named a.symbol d name)
  (hfits : minInt64 ≤ a.amount ∧ a.amount ≤ maxInt64)

include hfc hnamed hfits

theorem readBack_iff_of_zero (hd : d = 0) :
    (∃ t, a.toString fc = .ok t ∧ fromString fc t = .ok a) ↔ 46 ∉ name := by
  have htext := toString_of_zero hfc hnamed hfits hd
  have hread := fromString_text hfc hnamed integer_ne_nil
    (not_isSpace_of_mem_integer (x := a.amount))
  constructor
  . rintro ⟨t, ht, hback⟩
    rw [htext] at ht
    injection ht with ht
    rw [← ht, hread] at hback
    generalize hnumber : Decimal.integer a.amount = number at hback
    generalize a.amount = amount at hback
    cases hback with
    | plain _ hname => exact hname
    | point =>
      exact absurd (List.mem_append_right _ List.mem_cons_self) (hnumber ▸ point_not_mem_integer)
  . intro hname
    refine ⟨_, htext, hread.mpr ?_⟩
    rw [hd]
    exact .plain point_not_mem_integer hname (isInteger_integer _) hfits

theorem readBack_iff_of_pos (hd : 0 < d) :
    (∃ t, a.toString fc = .ok t ∧ fromString fc t = .ok a) ↔
      0 ≤ a.amount ∨ (10 ^ d : ℤ) ∣ a.amount := by
  have htext := toString_of_pos hfc hnamed hfits hd
  have hne : pointText a.amount d ≠ [] := List.append_ne_nil_of_left_ne_nil integer_ne_nil _
  have hread := fromString_text hfc hnamed hne not_isSpace_of_mem_pointText
  constructor
  . rintro ⟨t, ht, hback⟩
    rw [htext] at ht
    injection ht with ht
    rw [← ht, hread] at hback
    by_contra hbroken
    rw [not_or, not_le, Int.dvd_iff_tmod_eq_zero] at hbroken
    obtain ⟨hneg, hne⟩ := hbroken
    have hle := Int.tmod_nonneg (a := -a.amount) (10 ^ d) (by omega)
    rw [Int.neg_tmod] at hle
    exact not_reads_pointText hd (by omega) hback
  . intro hwhole
    refine ⟨_, htext, hread.mpr ?_⟩
    apply reads_pointText hnamed.decimals_lt hfits
    . exact tdiv_fits hfits
    . rcases hwhole with hnonneg | hdvd
      . exact Int.tmod_nonneg _ hnonneg
      . rw [Int.dvd_iff_tmod_eq_zero.mp hdvd]

theorem readBack_iff :
    (∃ t, a.toString fc = .ok t ∧ fromString fc t = .ok a) ↔
      (0 ≤ a.amount ∨ (10 ^ d : ℤ) ∣ a.amount) ∧ (0 < d ∨ 46 ∉ name) := by
  rcases Nat.eq_zero_or_pos d with hd | hd
  . rw [readBack_iff_of_zero hfc hnamed hfits hd]
    constructor
    . intro hname
      refine ⟨.inr ?_, .inr hname⟩
      rw [hd, pow_zero]
      exact one_dvd _
    . rintro ⟨-, hpos | hname⟩
      . omega
      . exact hname
  . rw [readBack_iff_of_pos hfc hnamed hfits hd]
    exact ⟨fun h => ⟨h, .inl hd⟩, fun h => h.1⟩

end iff

/--
An asset is read back from its text unless it is negative with a fraction, or has a point in its name
and none in its number; a text is read as the amount that it says if that fits, and is not negative
with a fraction.
-/
theorem text_iff (hfc : fc.Lawful) :
    (∀ (a : Asset) (d : Nat) (name : Text), AssetSymbolType.Named a.symbol d name →
      (minInt64 ≤ a.amount ∧ a.amount ≤ maxInt64) →
        ((∃ t, a.toString fc = .ok t ∧ fromString fc t = .ok a) ↔
          (0 ≤ a.amount ∨ (10 ^ d : ℤ) ∣ a.amount) ∧ (0 < d ∨ 46 ∉ name))) ∧
      ∀ (source : Text) (a : Asset), fromString fc source = .ok a →
        (SaysAmount source a ↔ Readable (numberText source)) :=
  ⟨fun _ _ _ => readBack_iff hfc, fun _ _ => saysAmount_iff hfc⟩

section negative

instance (s : Text) : Decidable (IsNumeral s) :=
  decidable_of_iff (s ≠ [] ∧ ∀ c ∈ s, IsDigit c)
    ⟨fun h => ⟨h.1, h.2⟩, fun h => ⟨h.ne_nil, h.digits⟩⟩

def parseInt64 (s : Text) : Result ℤ := do
  ensure (IsNumeral (magnitude s)) (.assertException "Couldn't parse int64_t")
  let x : ℤ := if IsNegative s then -value (magnitude s) else value (magnitude s)
  ensure (minInt64 ≤ x ∧ x ≤ maxInt64) (.assertException "Couldn't parse int64_t")
  pure x

/-- Functions that do what is documented. -/
def plainText : TextFunctions where
  toString := Decimal.integer
  toInt64 := parseInt64
  trim := trimSpaces

theorem isInteger_iff {s : Text} {x : ℤ} :
    IsInteger s x ↔ IsNumeral (magnitude s) ∧
      x = if IsNegative s then -(value (magnitude s) : ℤ) else value (magnitude s) := by
  constructor
  . intro h
    obtain ⟨digits, hdigits, hmagnitude, hsign⟩ := isInteger_append h []
    rw [List.append_nil, List.append_nil] at hmagnitude
    rw [List.append_nil] at hsign
    rw [hmagnitude]
    refine ⟨hdigits, ?_⟩
    rcases hsign with ⟨hpos, rfl⟩ | ⟨hneg, rfl⟩
    . rw [if_neg hpos]
    . rw [if_pos hneg]
  . rintro ⟨hnumeral, rfl⟩
    refine ⟨magnitude s, hnumeral, ?_⟩
    unfold IsNegative magnitude
    split
    . exact .inr ⟨rfl, if_pos rfl⟩
    . refine .inl ⟨.inr rfl, if_neg ?_⟩
      simp
    . next hminus _ =>
      refine .inl ⟨.inl rfl, if_neg ?_⟩
      intro hhead
      obtain ⟨rest, rfl⟩ := List.head?_eq_some_iff.mp hhead
      exact hminus rest rfl

theorem plainText_lawful : plainText.Lawful where
  toString_eq _ _ _ := rfl
  toInt64_eq_ok s x := by
    rw [isInteger_iff]
    show parseInt64 s = .ok x ↔ _
    simp only [parseInt64, bind_eq_ok, ensure_eq_ok, pure_eq_ok]
    constructor
    . rintro ⟨-, hnumeral, -, hfits, rfl⟩
      exact ⟨⟨hnumeral, rfl⟩, hfits⟩
    . rintro ⟨⟨hnumeral, rfl⟩, hfits⟩
      exact ⟨(), hnumeral, (), hfits, rfl⟩
  trim_eq _ := rfl

theorem steemSymbol_named : AssetSymbolType.Named steemSymbol 3 [71, 79, 76, 79, 83] where
  decimals_lt := by decide
  ne_nil := by decide
  length_le := by decide
  letters := by decide
  symbol_eq := by decide +kernel

/-- "-1.500 GOLOS" -/
def negativeText : Text :=
  [45, 49, 46, 53, 48, 48, 32, 71, 79, 76, 79, 83]

theorem text_iff_negative :
    ((∃ t, Asset.toString plainText ⟨1005, steemSymbol⟩ = .ok t ∧
        fromString plainText t = .ok ⟨1005, steemSymbol⟩) ↔
      ((0 : ℤ) ≤ 1005 ∨ (10 ^ 3 : ℤ) ∣ 1005) ∧ (0 < 3 ∨ 46 ∉ [71, 79, 76, 79, 83])) ∧
    (SaysAmount negativeText ⟨-500, steemSymbol⟩ ↔ Readable (numberText negativeText)) :=
  ⟨(text_iff plainText_lawful).1 ⟨1005, steemSymbol⟩ 3 [71, 79, 76, 79, 83] steemSymbol_named
      (by decide),
    (text_iff plainText_lawful).2 negativeText ⟨-500, steemSymbol⟩ (by decide +kernel)⟩

/-- Negative amounts with a fraction get lost in both directions, and so do amounts that are too large. -/
theorem not_text_negative :
    plainText.Lawful ∧
      (¬∃ t, Asset.toString plainText ⟨-5, steemSymbol⟩ = .ok t ∧
        fromString plainText t = .ok ⟨-5, steemSymbol⟩) ∧
      (fromString plainText negativeText = .ok ⟨-500, steemSymbol⟩ ∧
        ¬SaysAmount negativeText ⟨-500, steemSymbol⟩) := by
  have hread : fromString plainText negativeText = .ok ⟨-500, steemSymbol⟩ := by decide +kernel
  refine ⟨plainText_lawful, ?_, hread, ?_⟩
  . rw [readBack_iff plainText_lawful steemSymbol_named (by decide)]
    decide
  . rw [saysAmount_iff plainText_lawful hread]
    rintro ⟨-, hfraction⟩
    exact absurd (hfraction (by decide)) (by decide)

end negative

end Asset

end Golos
