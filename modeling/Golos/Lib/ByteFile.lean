import Mathlib.Algebra.Group.Nat.Defs
import Mathlib.Data.List.Basic

/-!
This module contains files of bytes: 64 bit words in them, little-endian, and the two ways in which
a mapped file changes, by a new size and by bytes written in place.
-/

abbrev ByteFile :=
  List UInt8

namespace ByteFile

/-- The `count` low bytes of `n`, the lowest first. -/
def encodeBytes : (count : Nat) → Nat → ByteFile
  | 0, _ => []
  | count + 1, n => UInt8.ofNat n :: encodeBytes count (n / 256)

def decodeBytes : ByteFile → Nat
  | [] => 0
  | byte :: rest => byte.toNat + 256 * decodeBytes rest

/-- The bytes of a 64 bit word. -/
def ofUint64 (n : Nat) : ByteFile :=
  encodeBytes 8 n

/-- The word at `pos`. -/
def uint64At (file : ByteFile) (pos : Nat) : Nat :=
  decodeBytes ((file.drop pos).take 8)

/-- The word at the beginning, and the rest. -/
def readUint64 (file : ByteFile) : Option (Nat × ByteFile) :=
  if 8 ≤ file.length then some (decodeBytes (file.take 8), file.drop 8) else none

/-- Cut the file to `size` bytes, or fill it up with zeros. -/
def resize (file : ByteFile) (size : Nat) : ByteFile :=
  file.take size ++ List.replicate (size - file.length) 0

/-- Overwrite the bytes from `pos` on. -/
def write (file : ByteFile) (pos : Nat) (bytes : ByteFile) : ByteFile :=
  file.take pos ++ bytes ++ file.drop (pos + bytes.length)

@[simp]
theorem length_encodeBytes (count n : Nat) : (encodeBytes count n).length = count := by
  induction count generalizing n with
  | zero => rfl
  | succ count ih => simp [encodeBytes, ih]

theorem decodeBytes_encodeBytes {count n : Nat} (h : n < 256 ^ count) :
    decodeBytes (encodeBytes count n) = n := by
  induction count generalizing n with
  | zero =>
    rw [Nat.pow_zero] at h
    simp only [encodeBytes, decodeBytes]
    omega
  | succ count ih =>
    rw [Nat.pow_succ] at h
    simp only [encodeBytes, decodeBytes, UInt8.toNat_ofNat']
    rw [ih (Nat.div_lt_of_lt_mul (by omega))]
    omega

@[simp]
theorem length_ofUint64 (n : Nat) : (ofUint64 n).length = 8 :=
  length_encodeBytes 8 n

theorem decodeBytes_ofUint64 {n : Nat} (h : n < 2 ^ 64) : decodeBytes (ofUint64 n) = n :=
  decodeBytes_encodeBytes (by omega)

theorem encodeBytes_decodeBytes (file : ByteFile) :
    encodeBytes file.length (decodeBytes file) = file := by
  induction file with
  | nil => rfl
  | cons byte rest ih =>
    have hlow : UInt8.ofNat (byte.toNat + 256 * decodeBytes rest) = byte := by
      apply UInt8.toNat_inj.mp
      rw [UInt8.toNat_ofNat']
      have := byte.toNat_lt
      omega
    have hhigh : (byte.toNat + 256 * decodeBytes rest) / 256 = decodeBytes rest := by
      have := byte.toNat_lt
      omega
    simp only [List.length_cons, decodeBytes, encodeBytes]
    rw [hlow, hhigh, ih]

theorem decodeBytes_lt (file : ByteFile) : decodeBytes file < 256 ^ file.length := by
  induction file with
  | nil => simp [decodeBytes]
  | cons byte rest ih =>
    have := byte.toNat_lt
    rw [decodeBytes, List.length_cons, Nat.pow_succ]
    omega

/-- Reading a word takes the bytes that were written for it, and no other bytes give this word. -/
theorem readUint64_eq_some {file rest : ByteFile} {n : Nat} :
    readUint64 file = some (n, rest) ↔ n < 2 ^ 64 ∧ file = ofUint64 n ++ rest := by
  unfold readUint64
  constructor
  . intro h
    split at h
    . next hlen =>
      injection h with h
      rw [Prod.mk.injEq] at h
      have htake : (file.take 8).length = 8 := by
        rw [List.length_take]
        omega
      have hlt := decodeBytes_lt (file.take 8)
      have hbytes := encodeBytes_decodeBytes (file.take 8)
      rw [htake, h.1] at hlt hbytes
      constructor
      . omega
      . rw [← h.2]
        unfold ofUint64
        rw [hbytes, List.take_append_drop]
    . cases h
  . rintro ⟨hlt, rfl⟩
    rw [if_pos, List.take_left' (length_ofUint64 n), List.drop_left' (length_ofUint64 n),
      decodeBytes_ofUint64 hlt]
    rw [List.length_append, length_ofUint64]
    omega

/-- A word that is written after `before` is read at the end of `before`. -/
theorem uint64At_append {n : Nat} (h : n < 2 ^ 64) (before after : ByteFile) :
    uint64At (before ++ ofUint64 n ++ after) before.length = n := by
  unfold uint64At
  rw [List.append_assoc, List.drop_left, List.take_left' (length_ofUint64 n),
    decodeBytes_ofUint64 h]

theorem resize_of_le {file : ByteFile} {size : Nat} (h : file.length ≤ size) :
    file.resize size = file ++ List.replicate (size - file.length) 0 := by
  unfold resize
  rw [List.take_of_length_le h]

@[simp]
theorem length_resize (file : ByteFile) (size : Nat) : (file.resize size).length = size := by
  unfold resize
  rw [List.length_append, List.length_take, List.length_replicate]
  omega

/-- Bytes of the same length are replaced. -/
theorem write_append {old bytes : ByteFile} (h : old.length = bytes.length)
    (before after : ByteFile) :
    (before ++ old ++ after).write before.length bytes = before ++ bytes ++ after := by
  unfold write
  rw [← h, List.append_assoc before old, List.take_left, ← List.drop_drop, List.drop_left,
    List.drop_left]

end ByteFile
