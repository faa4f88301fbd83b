import Golos.Chain.Lemmas.BlockLog
import Golos.Chain.Impl.Node

/-!
This module contains the round trip of the block log: what is appended is read back, also after the
log is opened with an index that is missing, empty, or behind.
-/

namespace Golos

open Checked ByteFile

namespace BlockLogImpl

variable {β ι : Type} (F : BlockFormat β ι)

/-- The numbers of the blocks are 1, 2, and so on. -/
def Numbered (bs : List β) : Prop :=
  ∀ i b, bs[i]? = some b → F.blockNum b = i + 1

/-- Reading block after block from `pos` on yields `bs` and ends at the end of the file. -/
def Visits (file : ByteFile) : Nat → List β → Prop
  | pos, [] => pos = getMappedSize file
  | pos, b :: bs => ∃ next, readBlock F file pos = .ok (b, next) ∧ Visits file next bs

/-- The log gives out the blocks `bs`. -/
structure Serves (log : BlockLogImpl β ι) (bs : List β) : Prop where
  readBlockByNum : ∀ i b, bs[i]? = some b → log.readBlockByNum F (i + 1) = .ok (some b)
  nothing : ∀ k, k = 0 ∨ bs.length < k → log.readBlockByNum F k = .ok none
  visits : Visits F log.blockMappedFile 0 bs
  head : log.head = bs.getLast?

/-- What may be left of an index file: nothing, an empty file, or its first `k` entries. -/
inductive IndexLeft (index : ByteFile) : Option ByteFile → Prop where
  | missing : IndexLeft index none
  | empty : IndexLeft index (some [])
  | firstEntries (k : Nat) : IndexLeft index (some (index.take (8 * k)))

/--
The blocks `bs` can be appended to a new log; when it is closed and opened again with what is left of
its index, it serves them, and the next block can be appended.
-/
def RoundTrips (bs : List β) : Prop :=
  ∃ new log, openFiles F {} {} = .ok new ∧ bs.foldlM (append F) new = .ok log ∧
    ∀ index, IndexLeft log.indexMappedFile index →
      ∃ log', openFiles F log.close.1 { log.close.2 with indexFile := index } = .ok log' ∧
        Serves F log' bs ∧
        ∀ b, F.blockNum b = bs.length + 1 → ∃ log'', log'.append F b = .ok log''

variable {F}

section numbered

theorem Numbered.blockNum_eq {l r : List β} {b : β} (h : Numbered F (l ++ b :: r)) :
    F.blockNum b = l.length + 1 := by
  apply h
  rw [List.getElem?_append_right (le_refl _), Nat.sub_self]
  rfl

theorem Numbered.length_lt (hF : F.Lawful) {bs : List β} (h : Numbered F bs) :
    bs.length < 2 ^ 32 := by
  rcases bs.eq_nil_or_concat' with rfl | ⟨l, b, rfl⟩
  . simp
  . have := h.blockNum_eq
    have := hF.blockNum_lt b
    rw [List.length_append, List.length_singleton]
    omega

/-- Positions fit into 64 bits. -/
theorem Numbered.position_lt (hF : F.Lawful) {bs : List β} (h : Numbered F bs)
    (hsize : ∀ b ∈ bs, (F.pack b).length ≤ maxBlockSize) : position F bs < npos := by
  have hle : position F bs ≤ bs.length * (maxBlockSize + 8) := by
    clear h
    induction bs with
    | nil => simp
    | cons b bs ih =>
      have hb := hsize b List.mem_cons_self
      have ih := ih fun b' hb' => hsize b' (List.mem_cons_of_mem _ hb')
      rw [position_cons, List.length_cons, Nat.add_mul, Nat.one_mul, recordSize]
      omega
  have hlength := h.length_lt hF
  have hmul := Nat.mul_le_mul_right (maxBlockSize + 8) (Nat.le_of_lt hlength)
  have hconst : 2 ^ 32 * (maxBlockSize + 8) < npos := by
    decide
  omega

end numbered

section serves

variable {log : BlockLogImpl β ι} {bs : List β}

theorem visits_layout (hF : F.Lawful) {l r : List β}
    (hsize : ∀ b ∈ r, (F.pack b).length ≤ maxBlockSize) (hfits : position F (l ++ r) < npos)
    {file : ByteFile} (hfile : r ≠ [] → file = layout F 0 (l ++ r))
    (hend : getMappedSize file = position F (l ++ r)) : Visits F file (position F l) r := by
  induction r generalizing l with
  | nil =>
    rw [List.append_nil] at hend
    exact hend.symm
  | cons b r ih =>
    have hlt : position F l < 2 ^ 64 := by
      rw [position_append] at hfits
      unfold npos at hfits
      omega
    have hread := @readBlock_layout _ _ F hF l r b (hsize b List.mem_cons_self) hlt
    refine ⟨position F (l ++ [b]), ?_, ?_⟩
    . rw [hfile (List.cons_ne_nil b r)]
      exact hread
    . apply ih
      . intro b' hb'
        exact hsize b' (List.mem_cons_of_mem _ hb')
      . rwa [List.append_assoc]
      . intro _
        rw [hfile (List.cons_ne_nil b r), List.append_assoc]
        rfl
      . rwa [List.append_assoc]

theorem Represents.eq_layout (h : Represents F log bs) (hne : bs ≠ []) :
    log.blockMappedFile = layout F 0 bs := by
  apply h.blockFile.eq
  cases bs with
  | nil => exact absurd rfl hne
  | cons b bs =>
    rw [length_layout, position_cons, recordSize]
    omega

theorem Represents.eq_entries (h : Represents F log bs) (hne : bs ≠ []) :
    log.indexMappedFile = entries F 0 bs := by
  apply h.indexFile.eq
  cases bs with
  | nil => exact absurd rfl hne
  | cons b bs =>
    rw [length_entries, List.length_cons]
    omega

/-- The last block gives the numbers that are found. -/
theorem Represents.getBlockPos (h : Represents F log bs) (hF : F.Lawful) (hnum : Numbered F bs)
    (k : Nat) :
    log.getBlockPos F k
      = if k ≤ bs.length ∧ 0 < k then getUint64 log.indexMappedFile (8 * (k - 1))
        else .ok npos := by
  unfold BlockLogImpl.getBlockPos
  rw [h.head, h.headId]
  rcases bs.eq_nil_or_concat' with rfl | ⟨l, b, rfl⟩
  . rw [if_neg (by rw [List.length_nil]; omega)]
    rfl
  . have hlast : F.numFromId (F.id b) = (l ++ [b]).length := by
      rw [hF.numFromId_id, hnum.blockNum_eq, List.length_append, List.length_singleton]
    simp only [List.getLast?_append, List.getLast?_singleton, Option.some_or, Option.map_some,
      hlast]
    rfl

theorem Represents.serves (h : Represents F log bs) (hF : F.Lawful) (hnum : Numbered F bs)
    (hsize : ∀ b ∈ bs, (F.pack b).length ≤ maxBlockSize) : Serves F log bs where
  readBlockByNum := by
    intro i b hb
    obtain ⟨hi, hget⟩ := List.getElem?_eq_some_iff.mp hb
    have hsplit : bs = bs.take i ++ b :: bs.drop (i + 1) := by
      rw [← hget, List.cons_getElem_drop_succ, List.take_append_drop]
    have hne := List.ne_nil_of_mem (List.mem_of_getElem? hb)
    have hfits := hnum.position_lt hF hsize
    have hlt : position F (bs.take i) < npos := by
      rw [hsplit, position_append] at hfits
      omega
    have hlength : (bs.take i).length = i := by
      rw [List.length_take]
      omega
    have hentry : getUint64 log.indexMappedFile (8 * i) = .ok (position F (bs.take i)) := by
      have hat := @uint64At_entries _ _ F (bs.take i) (bs.drop (i + 1)) b
        (by unfold npos at hlt; omega)
      rw [← hsplit, hlength] at hat
      rw [h.eq_entries hne, getUint64_of_le (by rw [length_entries]; omega), hat]
    have hread := @readBlock_layout _ _ F hF (bs.take i) (bs.drop (i + 1)) b
      (hsize b (List.mem_of_getElem? hb)) (by unfold npos at hlt; omega)
    rw [← hsplit, ← h.eq_layout hne] at hread
    simp only [BlockLogImpl.readBlockByNum, h.getBlockPos hF hnum, bind_eq_ok]
    refine ⟨position F (bs.take i), ?_, ?_⟩
    . rw [if_pos (by omega), Nat.add_sub_cancel, hentry]
    . rw [if_pos (by omega)]
      simp only [hread, bind_eq_ok, ensure_eq_ok, pure_eq_ok]
      exact ⟨_, rfl, (), hnum i b hb, rfl⟩
  nothing := by
    intro k hk
    simp only [BlockLogImpl.readBlockByNum, h.getBlockPos hF hnum, bind_eq_ok]
    refine ⟨npos, ?_, ?_⟩
    . rw [if_neg (by omega)]
    . rw [if_neg (by simp)]
      rfl
  visits := by
    have hend : getMappedSize log.blockMappedFile = position F ([] ++ bs) := by
      rw [h.blockFile.size, length_layout, List.nil_append]
    exact visits_layout (l := []) hF hsize (hnum.position_lt hF hsize) h.eq_layout hend
  head := h.head

end serves

section openFiles

variable {bs : List β}

/-- The index is written anew from the log. -/
theorem constructIndex_layout (hF : F.Lawful) {log : BlockLogImpl β ι} {l : List β} {b : β}
    (hfile : log.blockMappedFile = layout F 0 (l ++ [b])) (hnum : Numbered F (l ++ [b]))
    (hsize : ∀ b' ∈ l ++ [b], (F.pack b').length ≤ maxBlockSize) :
    log.constructIndex F b = .ok { log with indexMappedFile := entries F 0 (l ++ [b]) } := by
  have hfits := hnum.position_lt hF hsize
  have hlt : position F l < 2 ^ 64 := by
    rw [position_append] at hfits
    unfold npos at hfits
    omega
  have hlength : (l ++ [b]).length = l.length + 1 := by
    rw [List.length_append, List.length_singleton]
  simp only [constructIndex, bind_eq_ok, pure_eq_ok]
  refine ⟨position F l, ?_, entries F 0 (l ++ [b]), ?_, rfl⟩
  . rw [hfile, getLastUint64_layout hlt]
  . have hloop := @constructIndexLoop_layout _ _ F hF [] (l ++ [b])
      ((createNonexistFile none).resize (F.blockNum b * 8)) (position F l)
      (by rw [length_resize, hnum.blockNum_eq, hlength, Nat.mul_comm]) hsize
      (by unfold npos at hfits; rw [List.nil_append]; omega) ?_ ?_
    . rw [List.nil_append, ← hfile] at hloop
      exact hloop
    . -- Every record begins at or before the last one.
      intro l' b' r' hsplit
      have hstart : ∃ m, l = l' ++ m := by
        rcases r'.eq_nil_or_concat' with rfl | ⟨r'', c, rfl⟩
        . exact ⟨[], by rw [List.append_nil, (List.append_inj' hsplit rfl).1]⟩
        . rw [← List.cons_append, ← List.append_assoc] at hsplit
          exact ⟨b' :: r'', (List.append_inj' hsplit rfl).1⟩
      obtain ⟨m, rfl⟩ := hstart
      rw [List.nil_append, position_append]
      omega
    . rw [List.nil_append, position_append, position_cons, recordSize]
      omega

theorem take_entries (k : Nat) (bs : List β) :
    (entries F 0 bs).take (8 * k) = entries F 0 (bs.take k) := by
  conv_lhs => rw [← List.take_append_drop k bs, entries_append]
  by_cases hk : k ≤ bs.length
  . apply List.take_left'
    rw [length_entries, List.length_take]
    omega
  . rw [List.drop_of_length_le (by omega), List.take_of_length_le (by omega : bs.length ≤ k), entries,
      List.append_nil, List.take_of_length_le (by rw [length_entries]; omega)]

theorem createNonexistFile_of_ne {file : ByteFile} (h : file ≠ []) :
    createNonexistFile (some file) = file := by
  unfold createNonexistFile
  split
  . next heq => cases heq
  . next heq =>
    injection heq with heq
    exact absurd heq h
  . next heq =>
    injection heq with heq
    exact heq.symm

theorem length_createNonexistFile_lt {file : ByteFile} (h : file.length < 8) :
    (createNonexistFile (some file)).length < 8 := by
  by_cases hne : file = []
  . subst hne
    decide
  . rwa [createNonexistFile_of_ne hne]

/-- What is left of an index holds the entries of the first blocks. -/
theorem IndexLeft.holds {index : ByteFile} {left : Option ByteFile} (h : IndexLeft index left)
    (hindex : Holds index (entries F 0 bs)) :
    ∃ k, Holds (createNonexistFile left) (entries F 0 (bs.take k)) := by
  cases h with
  | missing => exact ⟨0, .of_lt (by decide)⟩
  | empty => exact ⟨0, .of_lt (by decide)⟩
  | firstEntries k =>
    refine ⟨k, ?_⟩
    by_cases hne : bs.take k = []
    . rw [hne]
      apply Holds.of_lt
      apply length_createNonexistFile_lt
      rcases List.take_eq_nil_iff.mp hne with hk | hbs
      . simp [hk]
      . rw [hbs] at hindex
        have := hindex.length_lt
        rw [List.length_take]
        omega
    . have hle : 8 ≤ (entries F 0 (bs.take k)).length := by
        have := List.length_pos_iff.mpr hne
        rw [length_entries]
        omega
      have hbs : 8 ≤ (entries F 0 bs).length := by
        rw [← take_entries, List.length_take] at hle
        omega
      have hentries : entries F 0 (bs.take k) ≠ [] := by
        intro heq
        rw [heq] at hle
        simp at hle
      rw [hindex.eq hbs, take_entries, createNonexistFile_of_ne hentries]
      exact .of_le hle

/-- An index that is behind the log ends with another position. -/
theorem position_take_ne {l m : List β} {b c : β} {k : Nat} (hk : k < (l ++ [b]).length)
    (htake : (l ++ [b]).take k = m ++ [c]) : position F l ≠ position F m := by
  have hlength := congrArg List.length htake
  rw [List.length_take, List.length_append, List.length_append, List.length_singleton,
    List.length_singleton] at hlength
  rw [List.length_append, List.length_singleton] at hk
  rw [List.take_append_of_le_length (by omega)] at htake
  have hl : l = m ++ [c] ++ l.drop k := by
    rw [← htake, List.take_append_drop]
  rw [hl, position_append, position_append, position_cons, recordSize]
  omega

/-- The log in memory when its files hold `bs`, the last of them `b`. -/
def opened (F : BlockFormat β ι) (bs : List β) (b : β) : BlockLogImpl β ι where
  head := some b
  headId := some (F.id b)
  blockMappedFile := layout F 0 bs
  indexMappedFile := entries F 0 bs

/-- Opening the files of a log with what is left of its index. -/
theorem openFiles_represents (hF : F.Lawful) {log closed : BlockLogImpl β ι}
    {left : Option ByteFile} (h : Represents F log bs) (hnum : Numbered F bs)
    (hsize : ∀ b ∈ bs, (F.pack b).length ≤ maxBlockSize) (hhead : closed.head = none)
    (hheadId : closed.headId = none) (hleft : IndexLeft log.indexMappedFile left) :
    ∃ log', openFiles F closed { blockFile := some log.blockMappedFile, indexFile := left }
      = .ok log' ∧ Represents F log' bs := by
  obtain ⟨k, hindex⟩ := hleft.holds h.indexFile
  rcases bs.eq_nil_or_concat' with rfl | ⟨l, b, rfl⟩
  . -- A log without blocks stays as it is.
    have hblock := length_createNonexistFile_lt h.blockFile.length_lt
    rw [List.take_nil] at hindex
    refine ⟨{ closed with
        blockMappedFile := createNonexistFile (some log.blockMappedFile)
        indexMappedFile := createNonexistFile left }, ?_, .of_lt hblock, hindex, hhead, ?_⟩
    . unfold openFiles
      rw [if_neg (by unfold hasBlockRecords minValidFileSize; dsimp only; omega),
        if_neg (by have := hindex.length_lt; unfold hasIndexRecords minValidFileSize; dsimp only; omega)]
      rfl
    . rw [hheadId]
      rfl
  . have hblock := h.eq_layout (by simp)
    have hlength : (layout F 0 (l ++ [b])).length = position F l + (F.pack b).length + 8 := by
      rw [length_layout, position_append, position_cons, position_nil, recordSize]
      omega
    have hpack := List.length_pos_iff.mpr (hF.pack_ne_nil b)
    have hfits := hnum.position_lt hF hsize
    have hlt : position F l < 2 ^ 64 := by
      rw [position_append] at hfits
      unfold npos at hfits
      omega
    have hcreate : createNonexistFile (some log.blockMappedFile) = layout F 0 (l ++ [b]) := by
      rw [hblock]
      apply createNonexistFile_of_ne
      intro hnil
      rw [hnil, List.length_nil] at hlength
      omega
    have hhead := @readHead_layout _ _ F hF l b (hsize b (by simp)) hlt
    have hlast := @getLastUint64_layout _ _ F l b hlt
    have hconstruct : ∀ index, constructIndex F
        { opened F (l ++ [b]) b with indexMappedFile := index } b = .ok (opened F (l ++ [b]) b) := by
      intro index
      exact constructIndex_layout hF rfl hnum hsize
    refine ⟨opened F (l ++ [b]) b, ?_, ?_, ?_, ?_, ?_⟩
    . unfold openFiles
      dsimp only
      rw [hcreate, if_pos (by unfold hasBlockRecords minValidFileSize; dsimp only; omega), hhead]
      simp only [ok_bind]
      generalize createNonexistFile left = index at hindex ⊢
      split
      . next hrecords =>
        rcases ((l ++ [b]).take k).eq_nil_or_concat' with hnil | ⟨m, c, htake⟩
        . rw [hnil] at hindex
          have := hindex.length_lt
          unfold hasIndexRecords minValidFileSize at hrecords
          dsimp only at hrecords
          omega
        . rw [htake] at hindex
          have hindexEq := hindex.eq (by rw [length_entries, List.length_append]; simp)
          have hltIndex : position F m < 2 ^ 64 := by
            have hsplit := congrArg (position F) (List.take_append_drop k (l ++ [b]))
            rw [htake, position_append, position_append] at hsplit
            unfold npos at hfits
            omega
          simp only [hlast, hindexEq, getLastUint64_entries hltIndex, ok_bind]
          split
          . exact hconstruct _
          . next heq =>
            -- The last position is the same, so no entry is missing.
            have hk : (l ++ [b]).length ≤ k := by
              by_contra hk
              exact heq (position_take_ne (by omega) htake)
            rw [List.take_of_length_le hk] at htake
            rw [← htake]
            rfl
      . exact hconstruct index
    . exact .of_le (by dsimp only [opened]; omega)
    . exact .of_le (by dsimp only [opened]; rw [length_entries, List.length_append]; simp)
    . simp [opened]
    . simp [opened]

end openFiles

section roundTrips

/-- A new log holds no blocks. -/
theorem openFiles_new :
    ∃ new, openFiles F {} {} = .ok new ∧ Represents F new [] := by
  refine ⟨{ blockMappedFile := [0], indexMappedFile := [0] }, rfl, ?_, ?_, rfl, rfl⟩
  . exact .of_lt (by simp)
  . exact .of_lt (by simp)

theorem Represents.appendAll {log : BlockLogImpl β ι} {l r : List β} (h : Represents F log l)
    (hnum : Numbered F (l ++ r)) :
    ∃ log', r.foldlM (BlockLogImpl.append F) log = .ok log' ∧ Represents F log' (l ++ r) := by
  induction r generalizing log l with
  | nil =>
    rw [List.append_nil]
    exact ⟨log, rfl, h⟩
  | cons b r ih =>
    obtain ⟨log₁, happend, h₁⟩ := h.append hnum.blockNum_eq
    rw [List.append_cons] at hnum ⊢
    obtain ⟨log', hrest, h'⟩ := ih h₁ hnum
    refine ⟨log', ?_, h'⟩
    rw [List.foldlM_cons, happend, ok_bind]
    exact hrest

/-- Blocks that are not larger than the largest allowed make the round trip. -/
theorem roundTrips_of_size_le (hF : F.Lawful) {bs : List β} (hnum : Numbered F bs)
    (hsize : ∀ b ∈ bs, (F.pack b).length ≤ maxBlockSize) : RoundTrips F bs := by
  obtain ⟨new, hnew, h₀⟩ := @openFiles_new _ _ F
  obtain ⟨log, happend, h⟩ := @Represents.appendAll _ _ F _ _ bs h₀ hnum
  rw [List.nil_append] at h
  refine ⟨new, log, hnew, happend, ?_⟩
  intro index hleft
  obtain ⟨log', hopen, h'⟩ :=
    @openFiles_represents _ _ F bs hF log log.close.1 index h hnum hsize rfl rfl hleft
  refine ⟨log', hopen, h'.serves hF hnum hsize, ?_⟩
  intro b hb
  obtain ⟨log'', happend', -⟩ := h'.append hb
  exact ⟨log'', happend'⟩

/-- A log whose last block cannot be unpacked from the data that is read for it cannot be opened. -/
theorem not_roundTrips_of_unpack_eq_none {l : List β} {b : β} (hnum : Numbered F (l ++ [b]))
    (hsize : maxBlockSize ≤ (F.pack b).length) (hfits : position F l < 2 ^ 64)
    (hunpack : F.unpack ((F.pack b).take maxBlockSize) = none) : ¬RoundTrips F (l ++ [b]) := by
  rintro ⟨new, log, hnew, happend, hall⟩
  obtain ⟨new', hnew', h₀⟩ := @openFiles_new _ _ F
  rw [hnew] at hnew'
  injection hnew' with hnew'
  subst hnew'
  obtain ⟨log₁, happend₁, h⟩ := @Represents.appendAll _ _ F _ _ (l ++ [b]) h₀ hnum
  rw [happend] at happend₁
  injection happend₁ with happend₁
  subst happend₁
  obtain ⟨log', hopen, -⟩ := hall none .missing
  have hblock : log.blockMappedFile = layout F 0 (l ++ [b]) := h.eq_layout (by simp)
  have hlength : (layout F 0 (l ++ [b])).length = position F l + (F.pack b).length + 8 := by
    rw [length_layout, position_append, position_cons, position_nil, recordSize]
    omega
  have hcreate : createNonexistFile (some log.blockMappedFile) = layout F 0 (l ++ [b]) := by
    rw [hblock]
    apply createNonexistFile_of_ne
    intro hnil
    rw [hnil, List.length_nil] at hlength
    omega
  have hmax : 0 < maxBlockSize := by
    decide
  have hmapped := @getMappedSize_of_le (layout F 0 (l ++ [b])) (by omega)
  have hmin : min (getMappedSize (layout F 0 (l ++ [b])) - position F l) maxBlockSize
      = maxBlockSize := by
    omega
  unfold openFiles BlockLogImpl.close at hopen
  dsimp only at hopen
  rw [hcreate, if_pos (by unfold hasBlockRecords minValidFileSize; dsimp only; omega)] at hopen
  -- The head is read from the position in the last word, from too few bytes.
  simp only [readHead, readBlock, bind_eq_ok, get_eq_ok, getLastUint64_layout hfits] at hopen
  obtain ⟨_, ⟨_, ⟨⟩, _, ⟨_, -, _, hsome, -⟩, -⟩, -⟩ := hopen
  rw [hmin, drop_layout, List.take_append_of_le_length hsize, hunpack] at hsome
  cases hsome

end roundTrips

section refinement

variable {F : BlockFormat SignedBlock ι} {log : BlockLogImpl SignedBlock ι} {blockLog : BlockLog}

/-- The list of blocks that the node works with is what its files hold. -/
theorem append_refines {blockLog' : BlockLog} {b : SignedBlock}
    (h : Represents F log blockLog.blocks) (hnum : F.blockNum b = b.blockNum)
    (happend : blockLog.append b = .ok blockLog') :
    ∃ log', log.append F b = .ok log' ∧ Represents F log' blockLog'.blocks := by
  unfold BlockLog.append at happend
  split at happend
  . next hnext =>
    injection happend with happend
    subst happend
    exact h.append (hnum.trans hnext)
  . cases happend

theorem readBlockByNum_refines (hF : F.Lawful) (h : Represents F log blockLog.blocks)
    (hnum : ∀ b ∈ blockLog.blocks, F.blockNum b = b.blockNum)
    (hsize : ∀ b ∈ blockLog.blocks, (F.pack b).length ≤ maxBlockSize) (k : Nat) :
    log.readBlockByNum F k = .ok (blockLog.readBlockByNum k) := by
  have hnumbered : Numbered F blockLog.blocks := by
    intro i b hb
    rw [hnum b (List.mem_of_getElem? hb)]
    exact blockLog.numbered i b hb
  have hserves := h.serves hF hnumbered hsize
  unfold BlockLog.readBlockByNum
  split
  . next hk => exact hserves.nothing k (.inl hk)
  . next hk =>
    cases hb : blockLog.blocks[k - 1]? with
    | none =>
      rw [List.getElem?_eq_none_iff] at hb
      exact hserves.nothing k (.inr (by omega))
    | some b =>
      have hread := hserves.readBlockByNum (k - 1) b hb
      rwa [Nat.sub_add_cancel (by omega)] at hread

end refinement

section plainBlock

/-- A block of a number and some bytes, packed with the number of bytes before them. -/
structure PlainBlock where
  num : Fin (2 ^ 32)
  body : { bytes : ByteFile // bytes.length < 2 ^ 64 }

def plainFormat : BlockFormat PlainBlock Nat where
  pack b := encodeBytes 4 b.num ++ ofUint64 b.body.val.length ++ b.body.val
  unpack data :=
    let length := data.uint64At 4 % 2 ^ 64
    if data.length < 12 + length then
      none
    else
      some
        ({ num := ⟨decodeBytes (data.take 4) % 2 ^ 32, Nat.mod_lt _ (by decide)⟩
           body := ⟨(data.drop 12).take length, by
            rw [List.length_take]
            have := Nat.mod_lt (data.uint64At 4) (by decide : 0 < 2 ^ 64)
            omega⟩ }, 12 + length)
  blockNum b := b.num
  id b := b.num
  numFromId num := num

theorem plainFormat_unpack_of_length {data : ByteFile} {b : PlainBlock} {rest : ByteFile}
    (hdata : data = encodeBytes 4 b.num ++ ofUint64 b.body.val.length ++ rest) :
    data.uint64At 4 % 2 ^ 64 = b.body.val.length := by
  have hat := uint64At_append b.body.property (encodeBytes 4 b.num) rest
  rw [length_encodeBytes] at hat
  rw [hdata, hat, Nat.mod_eq_of_lt b.body.property]

theorem lawful_plainFormat : plainFormat.Lawful where
  unpack_pack := by
    intro b rest
    have hdata : plainFormat.pack b ++ rest
        = encodeBytes 4 b.num ++ ofUint64 b.body.val.length ++ (b.body.val ++ rest) := by
      simp [plainFormat]
    have hlength := plainFormat_unpack_of_length hdata
    have htake : (plainFormat.pack b ++ rest).take 4 = encodeBytes 4 b.num := by
      rw [hdata, List.append_assoc, List.take_left' (length_encodeBytes 4 _)]
    have hdrop : (plainFormat.pack b ++ rest).drop 12 = b.body.val ++ rest := by
      rw [hdata]
      exact List.drop_left' (by simp)
    have hle : ¬(plainFormat.pack b ++ rest).length < 12 + b.body.val.length := by
      rw [hdata]
      simp only [List.length_append, length_encodeBytes, length_ofUint64]
      omega
    generalize plainFormat.pack b ++ rest = data at hlength htake hdrop hle
    have hpack : (plainFormat.pack b).length = 12 + b.body.val.length := by
      simp [plainFormat]
      omega
    have hnum := decodeBytes_encodeBytes (by omega : b.num.val < 256 ^ 4)
    unfold plainFormat at hpack ⊢
    dsimp only at hpack ⊢
    rw [if_neg (by rw [hlength]; exact hle), hpack, Option.some.injEq, Prod.mk.injEq]
    refine ⟨?_, by rw [hlength]⟩
    rcases b with ⟨num, body⟩
    rw [PlainBlock.mk.injEq]
    refine ⟨Fin.ext ?_, Subtype.ext ?_⟩
    . dsimp only
      rw [htake, hnum, Nat.mod_eq_of_lt num.isLt]
    . dsimp only
      rw [hlength, hdrop, List.take_left' rfl]
  pack_ne_nil := by
    intro b hnil
    have := congrArg List.length hnil
    simp [plainFormat] at this
  blockNum_lt b := b.num.isLt
  numFromId_id _ := rfl

/-- A block of zeros of the given size. -/
def zeros (num : Fin (2 ^ 32)) (size : Nat) (h : size < 2 ^ 64) : PlainBlock where
  num := num
  body := ⟨List.replicate size 0, by rwa [List.length_replicate]⟩

theorem numbered_singleton {b : PlainBlock} (h : b.num = 1) : Numbered plainFormat [b] := by
  intro i b' hb
  rw [List.getElem?_singleton] at hb
  split at hb
  . next hi =>
    injection hb with hb
    rw [hi, ← hb]
    exact congrArg Fin.val h
  . cases hb

theorem length_pack_zeros {num : Fin (2 ^ 32)} {size : Nat} (h : size < 2 ^ 64) :
    (plainFormat.pack (zeros num size h)).length = 12 + size := by
  simp only [plainFormat, zeros, List.length_append, length_encodeBytes, length_ofUint64,
    List.length_replicate]

def threeBlocks : List PlainBlock :=
  [zeros 1 1000 (by decide), zeros 2 20 (by decide), zeros 3 500 (by decide)]

theorem numbered_threeBlocks : Numbered plainFormat threeBlocks := by
  intro i b hb
  match i with
  | 0 => cases hb; rfl
  | 1 => cases hb; rfl
  | 2 => cases hb; rfl
  | i + 3 => cases hb

/-- The log serves three blocks after it was opened with an index of one entry. -/
theorem roundTrips_of_size_le_three_blocks :
    ∃ new log, openFiles plainFormat {} {} = .ok new ∧
      threeBlocks.foldlM (append plainFormat) new = .ok log ∧ ∃ log',
        openFiles plainFormat log.close.1
            { log.close.2 with indexFile := log.indexMappedFile.take 8 } = .ok log' ∧
          Serves plainFormat log' threeBlocks := by
  have hsizes : ∀ b ∈ threeBlocks, (plainFormat.pack b).length ≤ maxBlockSize := by
    intro b hb
    simp only [threeBlocks, List.mem_cons, List.not_mem_nil, or_false] at hb
    rcases hb with rfl | rfl | rfl
    all_goals
      rw [length_pack_zeros]
      decide
  obtain ⟨new, log, hnew, hlog, hserves⟩ :=
    roundTrips_of_size_le lawful_plainFormat numbered_threeBlocks hsizes
  obtain ⟨log', hopen, hserves, -⟩ := hserves _ (.firstEntries 1)
  exact ⟨new, log, hnew, hlog, log', hopen, hserves⟩

/-- A first block of one byte too many. -/
theorem not_roundTrips_too_large :
    plainFormat.Lawful ∧ Numbered plainFormat [zeros 1 (maxBlockSize - 11) (by decide)] ∧
      ¬RoundTrips plainFormat [zeros 1 (maxBlockSize - 11) (by decide)] := by
  have hnum : Numbered plainFormat [zeros 1 (maxBlockSize - 11) (by decide)] :=
    numbered_singleton rfl
  refine ⟨lawful_plainFormat, hnum, ?_⟩
  have hsize := @length_pack_zeros 1 (maxBlockSize - 11) (by decide)
  have hmax : 12 ≤ maxBlockSize := by
    decide
  apply @not_roundTrips_of_unpack_eq_none _ _ plainFormat [] _ hnum
  . omega
  . decide
  . -- The number of bytes that the block announces is not there.
    generalize hzeros : zeros 1 (maxBlockSize - 11) (by decide) = b at hsize
    have hbody : b.body.val.length = maxBlockSize - 11 := by
      rw [← hzeros]
      exact List.length_replicate
    have hdata : (plainFormat.pack b).take maxBlockSize
        = encodeBytes 4 b.num ++ ofUint64 b.body.val.length
          ++ b.body.val.take (maxBlockSize - 12) := by
      have hheader : (encodeBytes 4 b.num ++ ofUint64 b.body.val.length).length = 12 := by
        rw [List.length_append, length_encodeBytes, length_ofUint64]
      simp only [plainFormat]
      rw [List.take_append, List.take_of_length_le (by omega), hheader]
    have hlength := plainFormat_unpack_of_length hdata
    have htaken : ((plainFormat.pack b).take maxBlockSize).length = maxBlockSize := by
      rw [List.length_take]
      omega
    generalize (plainFormat.pack b).take maxBlockSize = data at hlength htaken ⊢
    simp only [plainFormat]
    rw [if_pos (by omega)]

end plainBlock

end BlockLogImpl

end Golos
