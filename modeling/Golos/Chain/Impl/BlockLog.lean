import Golos.Lib.ByteFile
import Golos.Chain.Impl.Apply

/-!
This module contains the block log: two mapped files, one of packed blocks each followed by its
position, and an index of these positions. The serialization of blocks is a parameter.
-/

namespace Golos

open Checked ByteFile

/-- What the block log uses of blocks: `fc::raw::pack`, `fc::raw::unpack`, numbers and ids. -/
structure BlockFormat (β : Type) (ι : Type) where
  pack : β → ByteFile
  /-- The value at the beginning of the data, and how many bytes were read for it. -/
  unpack : ByteFile → Option (β × Nat)
  blockNum : β → Nat
  id : β → ι
  numFromId : ι → Nat

/-- What the block log relies on. -/
structure BlockFormat.Lawful {β ι : Type} (F : BlockFormat β ι) : Prop where
  unpack_pack : ∀ b rest, F.unpack (F.pack b ++ rest) = some (b, (F.pack b).length)
  pack_ne_nil : ∀ b, F.pack b ≠ []
  blockNum_lt : ∀ b, F.blockNum b < 2 ^ 32
  numFromId_id : ∀ b, F.numFromId (F.id b) = F.blockNum b

/-- `block_log::npos` -/
def npos : Nat :=
  2 ^ 64 - 1

/-- The files under the paths of the log, if they exist. -/
structure BlockLogFiles where
  blockFile : Option ByteFile := none
  indexFile : Option ByteFile := none

structure BlockLogImpl (β ι : Type) where
  head : Option β := none
  headId : Option ι := none
  blockMappedFile : ByteFile := []
  indexMappedFile : ByteFile := []

def minValidFileSize : Nat :=
  8

/-- A file that is too small to hold a word counts as empty. -/
def getMappedSize (file : ByteFile) : Nat :=
  if file.length < minValidFileSize then 0 else file.length

def readingDataBeyondEndOfFile : ChainException :=
  .databaseCorrupted "Reading data beyond end of file"

def getUint64 (file : ByteFile) (pos : Nat) : Result Nat := do
  ensure (pos + 8 ≤ getMappedSize file) readingDataBeyondEndOfFile
  pure (file.uint64At pos)

def getLastUint64 (file : ByteFile) : Result Nat := do
  ensure (8 ≤ getMappedSize file) readingDataBeyondEndOfFile
  pure (file.uint64At (getMappedSize file - 8))

/-- A store of a word through a pointer into the mapped file, which has to stay inside. -/
def setUint64 (file : ByteFile) (pos value : Nat) : Result ByteFile := do
  ensure (pos + 8 ≤ file.length) .badAlloc
  pure (file.write pos (ofUint64 value))

/-- A file that is missing or empty is created with one zero byte. -/
def createNonexistFile (file : Option ByteFile) : ByteFile :=
  match file with
  | none => [0]
  | some [] => [0]
  | some bytes => bytes

namespace BlockLogImpl

variable {β ι : Type} (F : BlockFormat β ι)

def hasBlockRecords (log : BlockLogImpl β ι) : Prop :=
  minValidFileSize < log.blockMappedFile.length

def hasIndexRecords (log : BlockLogImpl β ι) : Prop :=
  minValidFileSize ≤ log.indexMappedFile.length

instance (log : BlockLogImpl β ι) : Decidable log.hasBlockRecords :=
  inferInstanceAs (Decidable (_ < _))

instance (log : BlockLogImpl β ι) : Decidable log.hasIndexRecords :=
  inferInstanceAs (Decidable (_ ≤ _))

def getBlockPos (log : BlockLogImpl β ι) (blockNum : Nat) : Result Nat :=
  match log.head, log.headId with
  | some _, some headId =>
    if blockNum ≤ F.numFromId headId ∧ 0 < blockNum then
      getUint64 log.indexMappedFile (8 * (blockNum - 1))
    else
      pure npos
  | _, _ => pure npos

/-- The block at `pos` and the position behind its marker. -/
def readBlock (file : ByteFile) (pos : Nat) : Result (β × Nat) := do
  let fileSize := getMappedSize file
  ensure (pos < fileSize) readingDataBeyondEndOfFile
  let maxSize := min (fileSize - pos) maxBlockSize
  let (block, tellp) ← get (F.unpack ((file.drop pos).take maxSize))
    (.assertException "unpack")
  let endPos := pos + tellp
  let blockPos ← getUint64 file endPos
  ensure (blockPos = pos) (.databaseCorrupted "Wrong position makers was read")
  pure (block, endPos + 8)

def readHead (file : ByteFile) : Result β := do
  let pos ← getLastUint64 file
  let (block, _) ← readBlock F file pos
  pure block

theorem lt_of_readBlock {F : BlockFormat β ι} {file : ByteFile} {pos next : Nat} {block : β}
    (h : readBlock F file pos = .ok (block, next)) : pos < next := by
  simp only [readBlock, bind_eq_ok, pure_eq_ok, Prod.mk.injEq] at h
  obtain ⟨-, -, ⟨b, tellp⟩, -, blockPos, -, -, -, -, hnext⟩ := h
  dsimp only at hnext
  omega

/-- The loop of `construct_index` from a position and a pointer into the index on. -/
def constructIndexLoop (file : ByteFile) (endPos pos idxPos : Nat) (index : ByteFile) :
    Result ByteFile :=
  if pos ≤ endPos then do
    let index ← setUint64 index idxPos pos
    match _h : readBlock F file pos with
    | .ok (_, next) => constructIndexLoop file endPos next (idxPos + 8) index
    | .error e => throw e
  else
    pure index
termination_by endPos + 1 - pos
decreasing_by
  have := lt_of_readBlock _h
  omega

/-- The index file is removed, created again, and filled from the log. -/
def constructIndex (log : BlockLogImpl β ι) (head : β) : Result (BlockLogImpl β ι) := do
  let index := (createNonexistFile none).resize (F.blockNum head * 8)
  let endPos ← getLastUint64 log.blockMappedFile
  let index ← constructIndexLoop F log.blockMappedFile endPos 0 0 index
  pure { log with indexMappedFile := index }

def openFiles (log : BlockLogImpl β ι) (files : BlockLogFiles) : Result (BlockLogImpl β ι) := do
  let log :=
    { log with
      blockMappedFile := createNonexistFile files.blockFile
      indexMappedFile := createNonexistFile files.indexFile }
  if log.hasBlockRecords then
    let head ← readHead F log.blockMappedFile
    let log := { log with head := some head, headId := some (F.id head) }
    if log.hasIndexRecords then
      let blockPos ← getLastUint64 log.blockMappedFile
      let indexPos ← getLastUint64 log.indexMappedFile
      if blockPos ≠ indexPos then
        log.constructIndex F head
      else
        pure log
    else
      log.constructIndex F head
  else if log.hasIndexRecords then
    pure
      { log with
        blockMappedFile := createNonexistFile none
        indexMappedFile := createNonexistFile none }
  else
    pure log

def append (log : BlockLogImpl β ι) (b : β) : Result (BlockLogImpl β ι) := do
  let data := F.pack b
  let indexPos := getMappedSize log.indexMappedFile
  ensure (indexPos = 8 * (F.blockNum b - 1))
    (.databaseCorrupted "Append to index file occuring at wrong position.")
  let blockPos := getMappedSize log.blockMappedFile
  let blockFile := log.blockMappedFile.resize (blockPos + data.length + 8)
  let blockFile := blockFile.write blockPos data
  let blockFile := blockFile.write (blockPos + data.length) (ofUint64 blockPos)
  let indexFile := log.indexMappedFile.resize (indexPos + 8)
  let indexFile := indexFile.write indexPos (ofUint64 blockPos)
  pure
    { log with
      head := some b
      headId := some (F.id b)
      blockMappedFile := blockFile
      indexMappedFile := indexFile }

/-- `close`: the files stay, what is kept in memory is reset. -/
def close (log : BlockLogImpl β ι) : BlockLogImpl β ι × BlockLogFiles :=
  ({ log with head := none, headId := none, blockMappedFile := [], indexMappedFile := [] },
    { blockFile := some log.blockMappedFile, indexFile := some log.indexMappedFile })

def readBlockByNum (log : BlockLogImpl β ι) (blockNum : Nat) : Result (Option β) := do
  let pos ← log.getBlockPos F blockNum
  if pos ≠ npos then
    let (block, _) ← readBlock F log.blockMappedFile pos
    ensure (F.blockNum block = blockNum)
      (.databaseCorrupted "Wrong block was read from block log")
    pure (some block)
  else
    pure none

end BlockLogImpl

end Golos
