import Mathlib.Data.List.Chain
import SquashfsFuse.Core.Context

/-! Metadata as a stream of bytes that is chopped into consecutive blocks. -/

namespace SquashfsFuse

/-- A metadata block of the image: a header with a valid length and the stored
bytes behind it, which are the content or are unpacked to it from a buffer of
their own. -/
structure MetaBlock (image : Image) (comp : Compressor) where
  pos : Nat
  header : MetaHeader
  stored : List UInt8
  content : List UInt8
  headerRead : readMetaHeader image pos = .ok header
  sizeValid : ¬ (header.size = 0 ∨ sqfsMetaBlockSize < header.size)
  onDisk : image.diskBytes (pos + 2) header.size = some stored
  unpacks : if header.uncompressed then content = stored
    else comp.decompress .separate stored sqfsMetaBlockSize = some content
  nonempty : 0 < content.length

namespace MetaBlock

variable {image : Image} {comp : Compressor} (block : MetaBlock image comp)

/-- The position behind the block. -/
def next : Nat := block.pos + 2 + block.header.size

theorem content_le : block.content.length ≤ sqfsMetaBlockSize := by
  have unpacks := block.unpacks
  have sizeValid := block.sizeValid
  split at unpacks
  · have length := Image.diskBytes_length block.onDisk
    rw [unpacks]
    omega
  · exact comp.bounded unpacks

theorem pos_lt : block.pos < 2 ^ 63 := by
  rcases readMetaHeader_eq_ok.mp block.headerRead with ⟨word, found, -⟩
  have bound := Image.diskBytes_bound found (by decide)
  have size := image.sizeInOffT
  omega

/-! ## The readers -/

/-- What `sqfs_meta_read_block` makes of the stored bytes. Unless they fill its buffer,
compressed bytes lie in the end of it. -/
def unpackedInPlace : Option (List UInt8) :=
  if block.header.uncompressed then some block.stored
  else comp.decompress
    (if block.header.size < sqfsMetaBlockSize then .tailOfOutput else .separate)
    block.stored sqfsMetaBlockSize

/-- `sqfs_meta_read_block` unpacks the block to its content. -/
def InPlace : Prop := block.unpackedInPlace = some block.content

/-- `sqfs_meta_read_block` unpacks the block to as many bytes as it has, or more. -/
def ReachesInPlace : Prop :=
  ∃ unpacked, block.unpackedInPlace = some unpacked ∧ block.content.length ≤ unpacked.length

/-- `sqfs_meta_read_block` unpacks the block to bytes that start with its content. -/
def StartsInPlace : Prop :=
  ∃ unpacked, block.unpackedInPlace = some unpacked ∧ block.content <+: unpacked

variable {block} in
theorem InPlace.starts (inPlace : block.InPlace) : block.StartsInPlace :=
  ⟨block.content, inPlace, List.prefix_refl _⟩

theorem sqfsMetaReadBlock_eq : sqfsMetaReadBlock image comp block.pos =
    match block.unpackedInPlace with
    | some unpacked => .ok unpacked
    | none => .err .corrupt := by
  rw [SquashfsFuse.sqfsMetaReadBlock, block.headerRead]
  simp only [Outcome.mapErr_ok, Outcome.ok_bind, if_neg block.sizeValid,
    readBlockFromDisk_eq_ok.mpr block.onDisk]
  rw [unpackedInPlace]
  split
  · rfl
  · rfl

private theorem sqfsMetaReadBlock_eq_ok {unpacked : List UInt8} :
    sqfsMetaReadBlock image comp block.pos = .ok unpacked ↔
      block.unpackedInPlace = some unpacked := by
  rw [block.sqfsMetaReadBlock_eq]
  cases block.unpackedInPlace <;> simp

theorem unpackedInPlace_le {unpacked : List UInt8}
    (unpacks : block.unpackedInPlace = some unpacked) : unpacked.length ≤ sqfsMetaBlockSize :=
  sqfsMetaReadBlock_length (block.sqfsMetaReadBlock_eq_ok.mpr unpacks)

theorem sqfsMetaReadBlock (inPlace : block.InPlace) :
    sqfsMetaReadBlock image comp block.pos = .ok block.content :=
  block.sqfsMetaReadBlock_eq_ok.mpr inPlace

theorem decompressMetaBlock :
    decompressMetaBlock image comp (block.pos + 2) block.header = .ok block.content := by
  have unpacks := block.unpacks
  have sizeValid := block.sizeValid
  rw [SquashfsFuse.decompressMetaBlock]
  split at unpacks
  · next uncompressed =>
      rw [if_pos uncompressed, sqfsPreadInto_of_le (by omega), sqfsPreadAll_eq_ok, unpacks]
      exact block.onDisk
  · next compressed =>
      rw [if_neg compressed, sqfsPreadAll_eq_ok.mpr block.onDisk, Outcome.ok_bind]
      exact sqfsCompressorDecompress_eq_ok.mpr unpacks

theorem readMetaBlock :
    readMetaBlock image comp block.pos = .ok (block.content, block.next) := by
  rw [SquashfsFuse.readMetaBlock, block.headerRead, Outcome.ok_bind,
    block.decompressMetaBlock]
  rfl

theorem readMetadataBlockInternal :
    readMetadataBlockInternal image comp block.pos = .ok block.content := by
  rw [SquashfsFuse.readMetadataBlockInternal, block.headerRead, Outcome.ok_bind,
    block.decompressMetaBlock]

def ofStored (image : Image) (comp : Compressor) (before content after : List UInt8)
    (layout : image.bytes =
      before ++ (leBytes 2 (2 ^ 15 + content.length) ++ (content ++ after)))
    (nonempty : 0 < content.length) (short : content.length ≤ sqfsMetaBlockSize) :
    MetaBlock image comp where
  pos := before.length
  header := ⟨true, content.length⟩
  stored := content
  content := content
  headerRead := by
    have small : content.length ≤ 8192 := short
    have word := slice_append_length before (leBytes 2 (2 ^ 15 + content.length))
      (content ++ after)
    rw [leBytes_length, ← layout] at word
    apply readMetaHeader_eq_ok.mpr
    refine ⟨_, word, ?_⟩
    rw [leValue_leBytes, Nat.mod_eq_of_lt (by omega),
      MetaHeader.ofWord_stored (by omega)]
  sizeValid := by
    change ¬ (content.length = 0 ∨ sqfsMetaBlockSize < content.length)
    omega
  onDisk := by
    have part := slice_append_length (before ++ leBytes 2 (2 ^ 15 + content.length)) content
      after
    rw [List.append_assoc, ← layout, List.length_append, leBytes_length] at part
    rw [Image.diskBytes, if_neg (Nat.pos_iff_ne_zero.mp nonempty)]
    exact part
  unpacks := rfl
  nonempty := nonempty

theorem ofStored_inPlace {before content after : List UInt8}
    (layout : image.bytes =
      before ++ (leBytes 2 (2 ^ 15 + content.length) ++ (content ++ after)))
    (nonempty : 0 < content.length) (short : content.length ≤ sqfsMetaBlockSize) :
    (ofStored image comp before content after layout nonempty short).InPlace := rfl

theorem ofStored_pos {before content after : List UInt8}
    (layout : image.bytes =
      before ++ (leBytes 2 (2 ^ 15 + content.length) ++ (content ++ after)))
    (nonempty : 0 < content.length) (short : content.length ≤ sqfsMetaBlockSize) :
    (ofStored image comp before content after layout nonempty short).pos = before.length := rfl

end MetaBlock

/-! ## Streams -/

/-- Blocks without a gap between them. -/
structure MetaStream (image : Image) (comp : Compressor) where
  blocks : List (MetaBlock image comp)
  gapless : blocks.IsChain fun first second => second.pos = first.next

namespace MetaStream

variable {image : Image} {comp : Compressor} (stream : MetaStream image comp)

/-- All blocks but the last are full. -/
def Chopped : Prop :=
  stream.blocks.IsChain fun first _ => first.content.length = sqfsMetaBlockSize

/-- The bytes from an offset in a block on. -/
def bytesFrom (idx offset : Nat) : List UInt8 :=
  ((stream.blocks.drop idx).flatMap (·.content)).drop offset

variable {stream} {idx offset : Nat} {block : MetaBlock image comp}

theorem bytesFrom_of_block (found : stream.blocks[idx]? = some block)
    (inside : offset ≤ block.content.length) :
    stream.bytesFrom idx offset =
      block.content.drop offset ++ stream.bytesFrom (idx + 1) 0 := by
  rcases List.getElem?_eq_some_iff.mp found with ⟨bound, rfl⟩
  rw [bytesFrom, List.drop_eq_getElem_cons bound, List.flatMap_cons,
    List.drop_append_of_le_length inside, bytesFrom, List.drop_zero]

theorem take_of_placed (found : stream.blocks[idx]? = some block)
    {bytes : List UInt8} (placed : bytes <+: stream.bytesFrom idx offset) {size : Nat}
    (stored : size ≤ bytes.length) (fits : offset + size ≤ block.content.length) :
    (block.content.drop offset).take size = bytes.take size := by
  rw [bytesFrom_of_block found (by omega)] at placed
  rcases placed with ⟨rest, whole⟩
  have same := congrArg (List.take size) whole
  rw [List.take_append_of_le_length stored,
    List.take_append_of_le_length (by rw [List.length_drop]; omega)] at same
  exact same.symm

def ofTwoStored (image : Image) (comp : Compressor) (first second : List UInt8)
    (layout : image.bytes = leBytes 2 (2 ^ 15 + first.length) ++
      (first ++ (leBytes 2 (2 ^ 15 + second.length) ++ second)))
    (firstValid : 0 < first.length ∧ first.length ≤ sqfsMetaBlockSize)
    (secondValid : 0 < second.length ∧ second.length ≤ sqfsMetaBlockSize) :
    MetaStream image comp where
  blocks := [
    .ofStored image comp [] first (leBytes 2 (2 ^ 15 + second.length) ++ second) layout
      firstValid.1 firstValid.2,
    .ofStored image comp (leBytes 2 (2 ^ 15 + first.length) ++ first) second []
      (by simpa using layout) secondValid.1 secondValid.2]
  gapless := by
    apply List.IsChain.cons_cons _ (.singleton _)
    simp [MetaBlock.ofStored, MetaBlock.next]

end MetaStream

/-! ## References -/

/-- The place in a stream that a reference denotes: an offset in a block, whose
position is counted from `start`. -/
structure MetaPlace {image : Image} {comp : Compressor} (stream : MetaStream image comp)
    (start ref : Nat) where
  idx : Nat
  block : MetaBlock image comp
  relative : Nat
  offset : Nat
  found : stream.blocks[idx]? = some block
  located : block.pos = start + relative
  refers : ref = relative * 2 ^ 16 + offset
  inside : offset ≤ block.content.length

namespace MetaPlace

variable {image : Image} {comp : Compressor} {stream : MetaStream image comp}
  {start ref : Nat} (place : MetaPlace stream start ref)

/-- The bytes of the stream from the place on. -/
def bytes : List UInt8 := stream.bytesFrom place.idx place.offset

theorem bytes_eq :
    place.bytes = place.block.content.drop place.offset ++
      stream.bytesFrom (place.idx + 1) 0 :=
  stream.bytesFrom_of_block place.found place.inside

private theorem offset_lt : place.offset < 2 ^ 16 :=
  Nat.lt_of_le_of_lt (Nat.le_trans place.inside place.block.content_le) (by decide)

private theorem refPos : sqfsMetaRefPos ref = place.relative :=
  (congrArg sqfsMetaRefPos place.refers).trans (sqfsMetaRef_of_parts place.offset_lt).1

theorem refOffset : sqfsMetaRefOffset ref = place.offset :=
  (congrArg sqfsMetaRefOffset place.refers).trans (sqfsMetaRef_of_parts place.offset_lt).2

theorem blockPos : u64 (start + sqfsMetaRefPos ref) = place.block.pos := by
  rw [place.refPos, ← place.located, u64_of_lt (Nat.lt_trans place.block.pos_lt (by decide))]

end MetaPlace

end SquashfsFuse
