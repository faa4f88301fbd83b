import Golos.Chain.Impl.BlockLog

/-!
This module contains the content of the files of the block log for a list of blocks, and what each
operation does to files with that content.
-/

namespace Golos

open Checked ByteFile

namespace BlockLogImpl

variable {β ι : Type} (F : BlockFormat β ι)

/-- A block and its marker. -/
def recordSize (b : β) : Nat :=
  (F.pack b).length + 8

/-- Where the record after those of `bs` begins. -/
def position (bs : List β) : Nat :=
  (bs.map (recordSize F)).sum

/-- The records of `bs` from `pos` on. -/
def layout (pos : Nat) : List β → ByteFile
  | [] => []
  | b :: bs => F.pack b ++ ofUint64 pos ++ layout (pos + recordSize F b) bs

/-- The index of the records of `bs` from `pos` on. -/
def entries (pos : Nat) : List β → ByteFile
  | [] => []
  | b :: bs => ofUint64 pos ++ entries (pos + recordSize F b) bs

section layout

variable {F}

@[simp]
theorem position_nil : position F [] = 0 := rfl

@[simp]
theorem position_cons (b : β) (bs : List β) :
    position F (b :: bs) = recordSize F b + position F bs := by
  simp [position]

@[simp]
theorem position_append (l r : List β) : position F (l ++ r) = position F l + position F r := by
  simp [position]

@[simp]
theorem length_layout (pos : Nat) (bs : List β) : (layout F pos bs).length = position F bs := by
  induction bs generalizing pos with
  | nil => rfl
  | cons b bs ih =>
    simp only [layout, List.length_append, length_ofUint64, ih, position_cons, recordSize]

@[simp]
theorem length_entries (pos : Nat) (bs : List β) : (entries F pos bs).length = 8 * bs.length := by
  induction bs generalizing pos with
  | nil => rfl
  | cons b bs ih =>
    simp only [entries, List.length_append, length_ofUint64, ih, List.length_cons]
    omega

theorem layout_append (pos : Nat) (l r : List β) :
    layout F pos (l ++ r) = layout F pos l ++ layout F (pos + position F l) r := by
  induction l generalizing pos with
  | nil => simp [layout]
  | cons b l ih =>
    simp only [List.cons_append, layout, ih, position_cons, List.append_assoc, Nat.add_assoc]

theorem entries_append (pos : Nat) (l r : List β) :
    entries F pos (l ++ r) = entries F pos l ++ entries F (pos + position F l) r := by
  induction l generalizing pos with
  | nil => simp [entries]
  | cons b l ih =>
    simp only [List.cons_append, entries, ih, position_cons, List.append_assoc, Nat.add_assoc]

/-- The entry of a block in the index. -/
theorem uint64At_entries {l r : List β} {b : β} (h : position F l < 2 ^ 64) :
    (entries F 0 (l ++ b :: r)).uint64At (8 * l.length) = position F l := by
  rw [entries_append, Nat.zero_add, ← @length_entries _ _ F 0 l]
  simp only [entries]
  rw [← List.append_assoc]
  exact uint64At_append h _ _

end layout

theorem getMappedSize_of_le {file : ByteFile} (h : 8 ≤ file.length) :
    getMappedSize file = file.length := by
  unfold getMappedSize minValidFileSize
  rw [if_neg (by omega)]

theorem getUint64_of_le {file : ByteFile} {pos : Nat} (h : pos + 8 ≤ file.length) :
    getUint64 file pos = .ok (file.uint64At pos) := by
  simp only [getUint64, getMappedSize_of_le (by omega : 8 ≤ file.length), bind_eq_ok, ensure_eq_ok,
    pure_eq_ok]
  exact ⟨(), h, trivial⟩

theorem getLastUint64_of_le {file : ByteFile} (h : 8 ≤ file.length) :
    getLastUint64 file = .ok (file.uint64At (file.length - 8)) := by
  simp only [getLastUint64, getMappedSize_of_le h, bind_eq_ok, ensure_eq_ok, pure_eq_ok]
  exact ⟨(), h, trivial⟩

section readBlock

variable {F}

/-- A record is read back, if its block is not larger than the largest allowed. -/
theorem readBlock_of_drop (hF : F.Lawful) {file rest : ByteFile} {pos : Nat} {b : β}
    (hdrop : file.drop pos = F.pack b ++ (ofUint64 pos ++ rest))
    (hsize : (F.pack b).length ≤ maxBlockSize) (hpos : pos < 2 ^ 64) :
    readBlock F file pos = .ok (b, pos + recordSize F b) := by
  have hlength := congrArg List.length hdrop
  simp only [List.length_drop, List.length_append, length_ofUint64] at hlength
  have hmapped := @getMappedSize_of_le file (by omega)
  -- What is unpacked begins with the packed block.
  have hunpack : F.unpack ((file.drop pos).take
      (min (getMappedSize file - pos) maxBlockSize)) = some (b, (F.pack b).length) := by
    have hle : (F.pack b).length ≤ min (getMappedSize file - pos) maxBlockSize := by
      omega
    rw [hdrop, List.take_append, List.take_of_length_le hle]
    apply hF.unpack_pack
  have hmarker : getUint64 file (pos + (F.pack b).length) = .ok pos := by
    rw [getUint64_of_le (by omega)]
    unfold uint64At
    rw [← List.drop_drop, hdrop, List.drop_left, List.take_left' (length_ofUint64 pos),
      decodeBytes_ofUint64 hpos]
  have hstart : pos < getMappedSize file := by
    omega
  simp only [readBlock, hunpack, hstart, recordSize, bind_eq_ok, ensure_eq_ok, get_eq_ok,
    pure_eq_ok]
  exact ⟨(), trivial, _, rfl, _, hmarker, (), rfl, by rw [Nat.add_assoc]⟩

theorem drop_layout {l r : List β} {b : β} :
    (layout F 0 (l ++ b :: r)).drop (position F l)
      = F.pack b ++ (ofUint64 (position F l) ++ layout F (position F (l ++ [b])) r) := by
  rw [layout_append, List.drop_left' (length_layout 0 l), Nat.zero_add, position_append,
    position_cons, position_nil, Nat.add_zero, layout, List.append_assoc]

theorem readBlock_layout (hF : F.Lawful) {l r : List β} {b : β}
    (hsize : (F.pack b).length ≤ maxBlockSize) (hfits : position F l < 2 ^ 64) :
    readBlock F (layout F 0 (l ++ b :: r)) (position F l) = .ok (b, position F (l ++ [b])) := by
  rw [readBlock_of_drop hF drop_layout hsize hfits]
  simp

/-- The marker of the last record. -/
theorem getLastUint64_layout {l : List β} {b : β} (hfits : position F l < 2 ^ 64) :
    getLastUint64 (layout F 0 (l ++ [b])) = .ok (position F l) := by
  have hlength : (layout F 0 (l ++ [b])).length = position F l + (F.pack b).length + 8 := by
    rw [length_layout, position_append, position_cons, position_nil, recordSize]
    omega
  rw [getLastUint64_of_le (by omega), hlength]
  unfold uint64At
  rw [Nat.add_sub_cancel, ← List.drop_drop, drop_layout, List.drop_left,
    List.take_left' (length_ofUint64 _), decodeBytes_ofUint64 hfits]

theorem getLastUint64_entries {l : List β} {b : β} (hfits : position F l < 2 ^ 64) :
    getLastUint64 (entries F 0 (l ++ [b])) = .ok (position F l) := by
  have hlength : (entries F 0 (l ++ [b])).length = 8 * l.length + 8 := by
    rw [length_entries, List.length_append, List.length_singleton]
    omega
  rw [getLastUint64_of_le (by omega), hlength, Nat.add_sub_cancel, uint64At_entries hfits]

theorem readHead_layout (hF : F.Lawful) {l : List β} {b : β}
    (hsize : (F.pack b).length ≤ maxBlockSize) (hfits : position F l < 2 ^ 64) :
    readHead F (layout F 0 (l ++ [b])) = .ok b := by
  simp only [readHead, bind_eq_ok, pure_eq_ok]
  exact ⟨_, getLastUint64_layout hfits, _, readBlock_layout hF hsize hfits, rfl⟩

end readBlock

section constructIndex

variable {F}

/-- The loop of `construct_index` when the entries of `l` are written and those of `r` are not. -/
theorem constructIndexLoop_layout (hF : F.Lawful) {l r : List β} {old : ByteFile} {endPos : Nat}
    (hold : old.length = 8 * r.length)
    (hsize : ∀ b ∈ r, (F.pack b).length ≤ maxBlockSize) (hfits : position F (l ++ r) < 2 ^ 64)
    (hend : ∀ l' b r', r = l' ++ b :: r' → position F (l ++ l') ≤ endPos)
    (hlast : endPos < position F (l ++ r)) :
    constructIndexLoop F (layout F 0 (l ++ r)) endPos (position F l) (8 * l.length)
      (entries F 0 l ++ old) = .ok (entries F 0 (l ++ r)) := by
  induction r generalizing l old with
  | nil =>
    rw [List.append_nil] at hlast ⊢
    rw [List.length_nil, Nat.mul_zero] at hold
    rw [List.eq_nil_of_length_eq_zero hold, List.append_nil]
    unfold constructIndexLoop
    rw [if_neg (by omega)]
    rfl
  | cons b r ih =>
    have hle : position F l ≤ endPos := by
      have := hend [] b r rfl
      rwa [List.append_nil] at this
    have hlt : position F l < 2 ^ 64 := by
      rw [position_append] at hfits
      omega
    -- The first word of the rest is overwritten by the position of `b`.
    have hset : setUint64 (entries F 0 l ++ old) (8 * l.length) (position F l)
        = .ok (entries F 0 (l ++ [b]) ++ old.drop 8) := by
      rw [List.length_cons] at hold
      simp only [setUint64, bind_eq_ok, ensure_eq_ok, pure_eq_ok]
      refine ⟨(), ?_, ?_⟩
      . rw [List.length_append, length_entries]
        omega
      . have hwrite := @write_append (old.take 8) (ofUint64 (position F l))
          (by rw [List.length_take, length_ofUint64]; omega) (entries F 0 l) (old.drop 8)
        rw [List.append_assoc, List.take_append_drop, length_entries] at hwrite
        rw [hwrite, entries_append, entries, entries, Nat.zero_add, List.append_nil]
    have hread := @readBlock_layout _ _ F hF l r b (hsize b List.mem_cons_self) hlt
    have hrest := @ih (l ++ [b]) (old.drop 8)
      (by rw [List.length_drop, hold, List.length_cons]; omega)
      (fun b' hb' => hsize b' (List.mem_cons_of_mem _ hb'))
      (by rwa [List.append_assoc])
      (by
        intro l' b' r' hr
        rw [List.append_assoc]
        exact hend (b :: l') b' r' (by rw [hr, List.cons_append]))
      (by rwa [List.append_assoc])
    rw [List.append_assoc, List.singleton_append, List.length_append, List.length_singleton,
      Nat.mul_add] at hrest
    unfold constructIndexLoop
    rw [if_pos hle, hset]
    simp only [ok_bind]
    split
    . next next' hread' =>
      rw [hread] at hread'
      injection hread' with hread'
      injection hread' with _ hnext
      rw [← hnext]
      exact hrest
    . next hread' =>
      rw [hread] at hread'
      cases hread'

end constructIndex

/-- The content of a mapped file; a file that is too small to hold a word has none. -/
structure Holds (file content : ByteFile) : Prop where
  size : getMappedSize file = content.length
  content : file.take content.length = content

section holds

variable {file content : ByteFile}

theorem Holds.of_le (h : 8 ≤ content.length) : Holds content content :=
  ⟨getMappedSize_of_le h, List.take_length⟩

theorem Holds.of_lt (h : file.length < 8) : Holds file [] :=
  ⟨if_pos h, rfl⟩

theorem Holds.eq (h : Holds file content) (hlength : 8 ≤ content.length) : file = content := by
  have hsize := h.size
  unfold getMappedSize at hsize
  split at hsize
  . omega
  . rw [← h.content, ← hsize, List.take_length]

theorem Holds.length_lt (h : Holds file []) : file.length < 8 := by
  have hsize := h.size
  unfold getMappedSize minValidFileSize at hsize
  split at hsize
  . assumption
  . rw [List.length_nil] at hsize
    omega

/-- Room behind the content. -/
theorem Holds.resize (h : Holds file content) {k : Nat} (hk : 8 ≤ k) :
    ∃ old, old.length = k ∧ file.resize (content.length + k) = content ++ old := by
  have hle : content.length ≤ file.length ∧ file.length ≤ content.length + k := by
    have hsize := h.size
    unfold getMappedSize minValidFileSize at hsize
    split at hsize
    . omega
    . omega
  refine ⟨(file.resize (content.length + k)).drop content.length, ?_, ?_⟩
  . rw [List.length_drop, length_resize]
    omega
  . have htake : (file.resize (content.length + k)).take content.length = content := by
      rw [resize_of_le hle.2, List.take_append_of_le_length hle.1, h.content]
    conv_lhs => rw [← List.take_append_drop content.length (file.resize _), htake]

end holds

/-- The log holds the blocks `bs`. -/
structure Represents (log : BlockLogImpl β ι) (bs : List β) : Prop where
  blockFile : Holds log.blockMappedFile (layout F 0 bs)
  indexFile : Holds log.indexMappedFile (entries F 0 bs)
  head : log.head = bs.getLast?
  headId : log.headId = bs.getLast?.map F.id

section append

variable {F}

theorem Represents.append {log : BlockLogImpl β ι} {bs : List β} {b : β}
    (h : Represents F log bs) (hnum : F.blockNum b = bs.length + 1) :
    ∃ log', log.append F b = .ok log' ∧ Represents F log' (bs ++ [b]) := by
  have hindex : getMappedSize log.indexMappedFile = 8 * bs.length := by
    rw [h.indexFile.size, length_entries]
  have hblock : getMappedSize log.blockMappedFile = position F bs := by
    rw [h.blockFile.size, length_layout]
  obtain ⟨old, hold, hresize⟩ := h.blockFile.resize (by omega : 8 ≤ (F.pack b).length + 8)
  obtain ⟨oldIndex, holdIndex, hresizeIndex⟩ := h.indexFile.resize (le_refl 8)
  rw [length_layout] at hresize
  rw [length_entries] at hresizeIndex
  -- The data and then the marker are written over the new bytes of the log.
  have hdata := @write_append (old.take (F.pack b).length) (F.pack b)
    (by rw [List.length_take]; omega) (layout F 0 bs) (old.drop (F.pack b).length)
  rw [List.append_assoc, List.take_append_drop, length_layout] at hdata
  have hmarker := @write_append (old.drop (F.pack b).length) (ofUint64 (position F bs))
    (by rw [List.length_drop, length_ofUint64]; omega) (layout F 0 bs ++ F.pack b) []
  rw [List.append_nil, List.append_nil, List.length_append, length_layout] at hmarker
  have hentry := @write_append oldIndex (ofUint64 (position F bs))
    (by rw [holdIndex, length_ofUint64]) (entries F 0 bs) []
  rw [List.append_nil, List.append_nil, length_entries] at hentry
  have hlayout : layout F 0 bs ++ F.pack b ++ ofUint64 (position F bs) = layout F 0 (bs ++ [b]) := by
    rw [layout_append, layout, layout, Nat.zero_add, List.append_nil, List.append_assoc]
  have hentries : entries F 0 bs ++ ofUint64 (position F bs) = entries F 0 (bs ++ [b]) := by
    rw [entries_append, entries, entries, Nat.zero_add, List.append_nil]
  refine ⟨{ log with
      head := some b
      headId := some (F.id b)
      blockMappedFile := layout F 0 (bs ++ [b])
      indexMappedFile := entries F 0 (bs ++ [b]) }, ?_, ?_, ?_, ?_, ?_⟩
  . simp only [BlockLogImpl.append, bind_eq_ok, ensure_eq_ok, pure_eq_ok]
    refine ⟨(), by omega, ?_⟩
    rw [hblock, hindex, Nat.add_assoc, hresize, hresizeIndex, hdata, hmarker, hentry, hlayout,
      hentries]
  . apply Holds.of_le
    rw [length_layout, position_append, position_cons, recordSize]
    omega
  . apply Holds.of_le
    rw [length_entries, List.length_append, List.length_singleton]
    omega
  . simp
  . simp

end append

end BlockLogImpl

end Golos
