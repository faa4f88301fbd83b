import Golos.Lib.ByteFile
import Golos.Protocol.Types

/-!
This module contains the binary form of assets: an amount of 8 bytes, and a symbol of 8 or 16 bytes
according to its first byte.
-/

namespace Golos

open Checked ByteFile

/-- A byte that is read as `char`, which is signed. -/
def signedChar (byte : Nat) : ℤ :=
  if byte < 128 then byte else byte - 256

/-- The bits of a 64 bit signed number, and the number of these bits. -/
def uint64OfInt (x : ℤ) : Nat :=
  (x % 2 ^ 64).toNat

def intOfUint64 (n : Nat) : ℤ :=
  if n < 2 ^ 63 then n else n - 2 ^ 64

namespace AssetSymbolType

def firstByte (symbol : AssetSymbolType) : Nat :=
  symbol.toNat % 256

def lowBits (symbol : AssetSymbolType) : Nat :=
  symbol.toNat % 2 ^ 64

def highBits (symbol : AssetSymbolType) : Nat :=
  symbol.toNat / 2 ^ 64

/-- `uint128lh_t(high, low)` -/
def ofBits (high low : Nat) : AssetSymbolType :=
  BitVec.ofNat 128 (high * 2 ^ 64 + low)

def toUint64 (symbol : AssetSymbolType) : Result Nat := do
  ensure (symbol.highBits = 0) (.assertException "hi == 0")
  pure symbol.lowBits

end AssetSymbolType

namespace Asset

def pack (a : Asset) : Result ByteFile := do
  let amount := ofUint64 (uint64OfInt a.amount)
  let precision := signedChar (AssetSymbolType.firstByte a.symbol)
  if precision < 100 then
    let symbol ← AssetSymbolType.toUint64 a.symbol
    pure (amount ++ ofUint64 symbol)
  else
    pure (amount ++ (ofUint64 (AssetSymbolType.lowBits a.symbol)
      ++ ofUint64 (AssetSymbolType.highBits a.symbol)))

/-- The asset at the beginning of a stream, and the rest of the stream. -/
def unpack (s : ByteFile) : Result (Asset × ByteFile) := do
  let (amount, s) ← get (readUint64 s) .outOfRange
  let (low, s) ← get (readUint64 s) .outOfRange
  let precision := signedChar (low % 256)
  if precision < 100 then
    pure (⟨intOfUint64 amount, BitVec.ofNat 128 low⟩, s)
  else
    let (high, s) ← get (readUint64 s) .outOfRange
    pure (⟨intOfUint64 amount, AssetSymbolType.ofBits high low⟩, s)

end Asset

/-- A first byte below 100 and a name of up to 6 bytes in 64 bits. -/
structure AssetSymbolType.Version1 (symbol : AssetSymbolType) : Prop where
  mark : symbol.firstByte < 100
  name : symbol.toNat < 256 ^ 7

/-- A first byte of 100 or more and a name of up to 14 bytes in 128 bits. -/
structure AssetSymbolType.Version2 (symbol : AssetSymbolType) : Prop where
  mark : 100 ≤ symbol.firstByte
  name : symbol.toNat < 256 ^ 15

namespace Asset

structure WellFormed (a : Asset) : Prop where
  amount : minInt64 ≤ a.amount ∧ a.amount ≤ maxInt64
  symbol : AssetSymbolType.Version1 a.symbol ∨ AssetSymbolType.Version2 a.symbol

/-- Whatever follows the packed bytes, unpacking takes just these and gives the asset back. -/
def RoundTrips (a : Asset) : Prop :=
  ∃ bytes, a.pack = .ok bytes ∧ ∀ rest, unpack (bytes ++ rest) = .ok (a, rest)

theorem uint64OfInt_lt (x : ℤ) : uint64OfInt x < 2 ^ 64 := by
  unfold uint64OfInt
  omega

theorem intOfUint64_uint64OfInt {x : ℤ} (h : minInt64 ≤ x ∧ x ≤ maxInt64) :
    intOfUint64 (uint64OfInt x) = x := by
  unfold minInt64 maxInt64 at h
  unfold intOfUint64 uint64OfInt
  split <;> omega

theorem uint64OfInt_intOfUint64 {n : Nat} (h : n < 2 ^ 64) : uint64OfInt (intOfUint64 n) = n := by
  unfold intOfUint64 uint64OfInt
  split <;> omega

theorem lowBits_lt (symbol : AssetSymbolType) : AssetSymbolType.lowBits symbol < 2 ^ 64 :=
  Nat.mod_lt _ (by decide)

theorem highBits_lt (symbol : AssetSymbolType) : AssetSymbolType.highBits symbol < 2 ^ 64 := by
  unfold AssetSymbolType.highBits
  have := symbol.isLt
  omega

theorem firstByte_eq (symbol : AssetSymbolType) :
    AssetSymbolType.firstByte symbol = AssetSymbolType.lowBits symbol % 256 := by
  unfold AssetSymbolType.firstByte AssetSymbolType.lowBits
  omega

theorem ofBits_bits (symbol : AssetSymbolType) :
    AssetSymbolType.ofBits (AssetSymbolType.highBits symbol) (AssetSymbolType.lowBits symbol)
      = symbol := by
  unfold AssetSymbolType.ofBits AssetSymbolType.highBits AssetSymbolType.lowBits
  rw [Nat.mul_comm, Nat.div_add_mod]
  apply BitVec.eq_of_toNat_eq
  rw [BitVec.toNat_ofNat, Nat.mod_eq_of_lt symbol.isLt]

section ofBits

variable {high low : Nat} (hhigh : high < 2 ^ 64) (hlow : low < 2 ^ 64)

include hhigh hlow

theorem toNat_ofBits : (AssetSymbolType.ofBits high low).toNat = high * 2 ^ 64 + low := by
  unfold AssetSymbolType.ofBits
  rw [BitVec.toNat_ofNat]
  apply Nat.mod_eq_of_lt
  omega

theorem lowBits_ofBits : AssetSymbolType.lowBits (AssetSymbolType.ofBits high low) = low := by
  unfold AssetSymbolType.lowBits
  rw [toNat_ofBits hhigh hlow]
  omega

theorem highBits_ofBits : AssetSymbolType.highBits (AssetSymbolType.ofBits high low) = high := by
  unfold AssetSymbolType.highBits
  rw [toNat_ofBits hhigh hlow]
  omega

end ofBits

theorem ofNat_eq_ofBits (low : Nat) : BitVec.ofNat 128 low = AssetSymbolType.ofBits 0 low := by
  unfold AssetSymbolType.ofBits
  rw [Nat.zero_mul, Nat.zero_add]

/-- What `pack` writes: a symbol with a first byte from 100 to 127 takes 16 bytes, another one 8. -/
theorem pack_eq_ok {a : Asset} {bytes : ByteFile} :
    a.pack = .ok bytes ↔
      (signedChar (AssetSymbolType.firstByte a.symbol) < 100 ∧
        AssetSymbolType.highBits a.symbol = 0 ∧
        bytes = ofUint64 (uint64OfInt a.amount) ++ ofUint64 (AssetSymbolType.lowBits a.symbol)) ∨
      (¬signedChar (AssetSymbolType.firstByte a.symbol) < 100 ∧
        bytes = ofUint64 (uint64OfInt a.amount) ++ (ofUint64 (AssetSymbolType.lowBits a.symbol)
          ++ ofUint64 (AssetSymbolType.highBits a.symbol))) := by
  unfold pack
  dsimp only
  split
  . next hshort =>
    simp only [AssetSymbolType.toUint64, bind_eq_ok, ensure_eq_ok, pure_eq_ok]
    constructor
    . rintro ⟨_, ⟨-, hhigh, rfl⟩, rfl⟩
      exact .inl ⟨hshort, hhigh, rfl⟩
    . rintro (⟨-, hhigh, rfl⟩ | ⟨hlong, -⟩)
      . exact ⟨_, ⟨⟨⟩, hhigh, rfl⟩, rfl⟩
      . exact absurd hshort hlong
  . next hlong =>
    rw [pure_eq_ok]
    constructor
    . rintro rfl
      exact .inr ⟨hlong, rfl⟩
    . rintro (⟨hshort, -⟩ | ⟨-, rfl⟩)
      . exact absurd hshort hlong
      . rfl

/-- What `unpack` accepts: the bytes of an amount and of a symbol of the size its first byte says. -/
theorem unpack_eq_ok {s rest : ByteFile} {a : Asset} :
    unpack s = .ok (a, rest) ↔ ∃ amount < 2 ^ 64, ∃ low < 2 ^ 64,
      (signedChar (low % 256) < 100 ∧ a = ⟨intOfUint64 amount, AssetSymbolType.ofBits 0 low⟩ ∧
        s = ofUint64 amount ++ (ofUint64 low ++ rest)) ∨
      (¬signedChar (low % 256) < 100 ∧ ∃ high < 2 ^ 64,
        a = ⟨intOfUint64 amount, AssetSymbolType.ofBits high low⟩ ∧
        s = ofUint64 amount ++ (ofUint64 low ++ (ofUint64 high ++ rest))) := by
  simp only [unpack, bind_eq_ok, get_eq_ok, Prod.exists, readUint64_eq_some]
  constructor
  . rintro ⟨amount, s₁, ⟨hamount, rfl⟩, low, s₂, ⟨hlow, rfl⟩, h⟩
    refine ⟨amount, hamount, low, hlow, ?_⟩
    split at h
    . next hshort =>
      rw [pure_eq_ok, Prod.mk.injEq, ofNat_eq_ofBits] at h
      obtain ⟨rfl, rfl⟩ := h
      exact .inl ⟨hshort, rfl, rfl⟩
    . next hlong =>
      simp only [bind_eq_ok, get_eq_ok, Prod.exists, readUint64_eq_some, pure_eq_ok,
        Prod.mk.injEq] at h
      obtain ⟨high, s₃, ⟨hhigh, rfl⟩, rfl, rfl⟩ := h
      exact .inr ⟨hlong, high, hhigh, rfl, rfl⟩
  . rintro ⟨amount, hamount, low, hlow, ⟨hshort, rfl, rfl⟩ | ⟨hlong, high, hhigh, rfl, rfl⟩⟩
    . refine ⟨amount, _, ⟨hamount, rfl⟩, low, rest, ⟨hlow, rfl⟩, ?_⟩
      rw [if_pos hshort, ofNat_eq_ofBits]
      rfl
    . refine ⟨amount, _, ⟨hamount, rfl⟩, low, _, ⟨hlow, rfl⟩, ?_⟩
      rw [if_neg hlong]
      simp only [bind_eq_ok, get_eq_ok, Prod.exists, readUint64_eq_some, pure_eq_ok]
      exact ⟨high, rest, ⟨hhigh, rfl⟩, rfl⟩

theorem roundTrips_iff {a : Asset} (h : minInt64 ≤ a.amount ∧ a.amount ≤ maxInt64) :
    a.RoundTrips ↔ (signedChar (AssetSymbolType.firstByte a.symbol) < 100 →
      AssetSymbolType.highBits a.symbol = 0) := by
  have hsame : (⟨intOfUint64 (uint64OfInt a.amount), AssetSymbolType.ofBits
      (AssetSymbolType.highBits a.symbol) (AssetSymbolType.lowBits a.symbol)⟩ : Asset) = a := by
    rw [intOfUint64_uint64OfInt h, ofBits_bits]
  constructor
  . rintro ⟨bytes, hpack, -⟩ hshort
    rcases pack_eq_ok.mp hpack with ⟨-, hhigh, -⟩ | ⟨hlong, -⟩
    . exact hhigh
    . exact absurd hshort hlong
  . intro hfits
    by_cases hshort : signedChar (AssetSymbolType.firstByte a.symbol) < 100
    . refine ⟨_, pack_eq_ok.mpr (.inl ⟨hshort, hfits hshort, rfl⟩), ?_⟩
      intro rest
      rw [hfits hshort] at hsame
      rw [firstByte_eq] at hshort
      apply unpack_eq_ok.mpr
      refine ⟨_, uint64OfInt_lt a.amount, _, lowBits_lt a.symbol, .inl ⟨hshort, hsame.symm, ?_⟩⟩
      rw [List.append_assoc]
    . refine ⟨_, pack_eq_ok.mpr (.inr ⟨hshort, rfl⟩), ?_⟩
      intro rest
      rw [firstByte_eq] at hshort
      apply unpack_eq_ok.mpr
      refine ⟨_, uint64OfInt_lt a.amount, _, lowBits_lt a.symbol,
        .inr ⟨hshort, _, highBits_lt a.symbol, hsame.symm, ?_⟩⟩
      rw [List.append_assoc, List.append_assoc]

/-- An accepted symbol of 8 bytes is one that is packed in 8 bytes, and so for 16. -/
theorem pack_of_unpack {s rest : ByteFile} {a : Asset} (h : unpack s = .ok (a, rest)) :
    ∃ bytes, a.pack = .ok bytes ∧ s = bytes ++ rest := by
  obtain ⟨amount, hamount, low, hlow, ⟨hshort, rfl, rfl⟩ | ⟨hlong, high, hhigh, rfl, rfl⟩⟩ :=
    unpack_eq_ok.mp h
  . refine ⟨_, pack_eq_ok.mpr (.inl ⟨?_, ?_, rfl⟩), ?_⟩
    . rw [firstByte_eq, lowBits_ofBits (by decide) hlow]
      exact hshort
    . exact highBits_ofBits (by decide) hlow
    . rw [lowBits_ofBits (by decide) hlow, uint64OfInt_intOfUint64 hamount, List.append_assoc]
  . refine ⟨_, pack_eq_ok.mpr (.inr ⟨?_, rfl⟩), ?_⟩
    . rw [firstByte_eq, lowBits_ofBits hhigh hlow]
      exact hlong
    . rw [lowBits_ofBits hhigh hlow, highBits_ofBits hhigh hlow,
        uint64OfInt_intOfUint64 hamount, List.append_assoc, List.append_assoc]

/--
A well-formed asset round trips if and only if its first byte is not negative as a `char` or its
symbol fits in 64 bits, and no asset has two encodings.
-/
theorem asset_wire_codec :
    (∀ a : Asset, a.WellFormed → (a.RoundTrips ↔
      AssetSymbolType.firstByte a.symbol < 128 ∨ AssetSymbolType.highBits a.symbol = 0)) ∧
    (∀ s rest a, unpack s = .ok (a, rest) → ∃ bytes, a.pack = .ok bytes ∧ s = bytes ++ rest) := by
  constructor
  . intro a h
    rw [roundTrips_iff h.amount]
    rcases h.symbol with h | h
    . have hhigh : AssetSymbolType.highBits a.symbol = 0 := by
        have := h.name
        unfold AssetSymbolType.highBits
        omega
      exact iff_of_true (fun _ => hhigh) (.inr hhigh)
    . have hmark := h.mark
      unfold signedChar
      split
      . next hlt => exact iff_of_true (fun hshort => by omega) (.inl hlt)
      . next hge =>
        constructor
        . intro hfits
          have hbyte : AssetSymbolType.firstByte a.symbol < 256 := Nat.mod_lt _ (by decide)
          exact .inr (hfits (by omega))
        . rintro (hlt | hhigh) -
          . exact absurd hlt hge
          . exact hhigh
  . intro s rest a h
    exact pack_of_unpack h

/-- `1.000 COOLGAME`, with a name of 8 letters. -/
def oneCoolgame : Asset :=
  ⟨1000, symbolOfBytes [103, 67, 79, 79, 76, 71, 65, 77, 69]⟩

/-- Its packed bytes and one more. -/
def coolgameBytes : ByteFile :=
  [232, 3, 0, 0, 0, 0, 0, 0, 103, 67, 79, 79, 76, 71, 65, 77, 69, 0, 0, 0, 0, 0, 0, 0, 7]

theorem asset_wire_codec_coolgame :
    (oneCoolgame.RoundTrips ↔ AssetSymbolType.firstByte oneCoolgame.symbol < 128 ∨
      AssetSymbolType.highBits oneCoolgame.symbol = 0) ∧
    ∃ bytes, oneCoolgame.pack = .ok bytes ∧ coolgameBytes = bytes ++ [7] :=
  ⟨asset_wire_codec.1 oneCoolgame ⟨by decide, .inr ⟨by decide, by decide⟩⟩,
    asset_wire_codec.2 coolgameBytes [7] oneCoolgame (by decide +kernel)⟩

/-- The symbol of `1.000 COOLGAME` with 200 for its first byte. -/
def oddCoolgame : Asset :=
  ⟨1000, symbolOfBytes [200, 67, 79, 79, 76, 71, 65, 77, 69]⟩

/-- The first byte is negative as a `char`, so the upper half of the symbol fails the assertion. -/
theorem pack_fails_on_negative_char :
    oddCoolgame.WellFormed ∧ oddCoolgame.pack = .error (.assertException "hi == 0") := by
  refine ⟨⟨by decide, .inr ⟨by decide, by decide⟩⟩, ?_⟩
  decide +kernel

end Asset

end Golos
