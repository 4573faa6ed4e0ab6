import Mathlib.Data.Nat.Bitwise
import SquashfsFuse.Core.Compressor

/-! The three readers of metadata blocks (`data.c`, `directory.c`, `xattr.c`). -/

namespace SquashfsFuse

/-- `SQFS_META_BLOCK_SIZE`, the capacity of every metadata buffer. -/
def sqfsMetaBlockSize : Nat := 8192

structure MetaHeader where
  uncompressed : Bool
  size : Nat
  deriving Repr, DecidableEq

namespace MetaHeader

def ofWord (header : Nat) : MetaHeader where
  uncompressed := header &&& 0x8000 != 0
  size := header &&& 0x7FFF

theorem ofWord_stored {size : Nat} (small : size < 2 ^ 15) :
    ofWord (2 ^ 15 + size) = { uncompressed := true, size } := by
  have flag : (0x8000 : Nat) = 2 ^ 15 := rfl
  have mask : (0x7FFF : Nat) = 2 ^ 15 - 1 := rfl
  have isSet : (2 ^ 15 + size).testBit 15 = true := by
    rw [Nat.testBit_two_pow_add_eq, Nat.testBit_lt_two_pow small]
    rfl
  rw [ofWord, flag, mask, Nat.and_two_pow, isSet, Nat.and_two_pow_sub_one_eq_mod,
    Nat.add_mod_left, Nat.mod_eq_of_lt small]
  rfl

end MetaHeader

/-- `read_meta_header` of `directory.c`; the other readers repeat it inline. -/
def readMetaHeader (image : Image) (pos : Nat) : Sqfs MetaHeader := do
  let header ← sqfsPreadAll image 2 pos
  pure (.ofWord (leValue header))

/-- `read_block_from_disk` of `data.c`, which reports every failure as an I/O error. -/
def readBlockFromDisk (image : Image) (count pos : Nat) : Sqfs (List UInt8) :=
  (sqfsPreadAll image count pos).mapErr fun _ => .io

/-- `sqfs_meta_read_block` of `data.c`. -/
def sqfsMetaReadBlock (image : Image) (comp : Compressor) (pos : Nat) :
    Sqfs (List UInt8) := do
  let header ← (readMetaHeader image pos).mapErr fun _ => .io
  if header.size = 0 ∨ sqfsMetaBlockSize < header.size then
    .err .corrupt
  else do
    let stored ← readBlockFromDisk image header.size (pos + 2)
    if header.uncompressed then
      pure stored
    else
      -- Shorter blocks are read into the end of the output buffer.
      let placement := if header.size < sqfsMetaBlockSize then .tailOfOutput else .separate
      sqfsCompressorDecompress comp placement stored sqfsMetaBlockSize

/-- `decompress_meta_block` of `directory.c`. A stored block goes straight into
the buffer, whatever length its header claims. -/
def decompressMetaBlock (image : Image) (comp : Compressor) (pos : Nat)
    (header : MetaHeader) : Sqfs (List UInt8) :=
  if header.uncompressed then
    sqfsPreadInto image sqfsMetaBlockSize header.size pos
  else do
    let stored ← sqfsPreadAll image header.size pos
    sqfsCompressorDecompress comp .separate stored sqfsMetaBlockSize

/-- `read_meta_block` of `directory.c`: the block and the position behind it. -/
def readMetaBlock (image : Image) (comp : Compressor) (pos : Nat) :
    Sqfs (List UInt8 × Nat) := do
  let header ← readMetaHeader image pos
  let block ← decompressMetaBlock image comp (pos + 2) header
  pure (block, pos + 2 + header.size)

/-- `read_metadata_block_internal` of `xattr.c`. -/
def readMetadataBlockInternal (image : Image) (comp : Compressor) (pos : Nat) :
    Sqfs (List UInt8) := do
  let header ← readMetaHeader image pos
  decompressMetaBlock image comp (pos + 2) header

/-! ## What the readers deliver -/

theorem readMetaHeader_eq_ok {image : Image} {pos : Nat} {header : MetaHeader} :
    readMetaHeader image pos = .ok header ↔
      ∃ word, image.diskBytes pos 2 = some word ∧ header = .ofWord (leValue word) := by
  unfold readMetaHeader
  rw [Outcome.bind_eq_ok]
  simp only [sqfsPreadAll_eq_ok, Outcome.pure_eq, Outcome.ok.injEq]
  exact ⟨fun ⟨word, found, equal⟩ => ⟨word, found, equal.symm⟩,
    fun ⟨word, found, equal⟩ => ⟨word, found, equal.symm⟩⟩

theorem readBlockFromDisk_eq_ok {image : Image} {count pos : Nat} {part : List UInt8} :
    readBlockFromDisk image count pos = .ok part ↔ image.diskBytes pos count = some part := by
  rw [readBlockFromDisk, Outcome.mapErr_eq_ok, sqfsPreadAll_eq_ok]

theorem sqfsMetaReadBlock_length {image : Image} {comp : Compressor} {pos : Nat}
    {block : List UInt8} (read : sqfsMetaReadBlock image comp pos = .ok block) :
    block.length ≤ sqfsMetaBlockSize := by
  unfold sqfsMetaReadBlock at read
  rw [Outcome.bind_eq_ok] at read
  rcases read with ⟨header, -, read⟩
  split at read
  · contradiction
  · next valid =>
      rw [Outcome.bind_eq_ok] at read
      rcases read with ⟨stored, found, read⟩
      split at read
      · cases read
        rw [readBlockFromDisk_eq_ok] at found
        rw [Image.diskBytes_length found]
        omega
      · exact comp.bounded (sqfsCompressorDecompress_eq_ok.mp read)

/-! ## The readers have a meaning -/

theorem sqfsPreadAll_defined (image : Image) (count offset : Nat) :
    (sqfsPreadAll image count offset).Defined := by
  rcases sqfsPreadAll_cases image count offset with ⟨part, read⟩ | read | read
  · rw [read]
    exact Outcome.defined_ok part
  · rw [read]
    exact Outcome.defined_err _
  · rw [read]
    exact Outcome.defined_err _

theorem readBlockFromDisk_defined (image : Image) (count pos : Nat) :
    (readBlockFromDisk image count pos).Defined := by
  rw [readBlockFromDisk, Outcome.defined_mapErr]
  exact sqfsPreadAll_defined image count pos

theorem sqfsCompressorDecompress_defined (comp : Compressor) (placement : Placement)
    (source : List UInt8) (limit : Nat) :
    (sqfsCompressorDecompress comp placement source limit).Defined := by
  unfold sqfsCompressorDecompress
  cases comp.decompress placement source limit with
  | some output => exact Outcome.defined_ok output
  | none => exact Outcome.defined_err _

theorem readMetaHeader_defined (image : Image) (pos : Nat) :
    (readMetaHeader image pos).Defined := by
  unfold readMetaHeader
  rw [Outcome.defined_bind]
  exact ⟨sqfsPreadAll_defined image 2 pos, fun _ _ => Outcome.defined_ok _⟩

theorem sqfsMetaReadBlock_defined (image : Image) (comp : Compressor) (pos : Nat) :
    (sqfsMetaReadBlock image comp pos).Defined := by
  unfold sqfsMetaReadBlock
  rw [Outcome.defined_bind, Outcome.defined_mapErr]
  refine ⟨readMetaHeader_defined image pos, fun header _ => ?_⟩
  split
  · exact Outcome.defined_err _
  · rw [Outcome.defined_bind]
    refine ⟨readBlockFromDisk_defined image _ _, fun stored _ => ?_⟩
    split
    · exact Outcome.defined_ok stored
    · exact sqfsCompressorDecompress_defined comp _ stored _

end SquashfsFuse
