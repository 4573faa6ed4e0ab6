import SquashfsFuse.Core.Context

/-! The three readers of metadata blocks side by side. -/

namespace SquashfsFuse

/-- Two readers fail together or deliver the same bytes, at least one and no more
than a buffer holds. -/
def DeliverAlike (left right : Sqfs (List UInt8)) : Prop :=
  ((∃ code, left = .err code) ∧ ∃ code, right = .err code) ∨
    ∃ block, left = .ok block ∧ right = .ok block ∧
      1 ≤ block.length ∧ block.length ≤ sqfsMetaBlockSize

/-- The three readers fail together or deliver the same bytes, at least one and
no more than a buffer holds. -/
def MetaReadersAgree (image : Image) (comp : Compressor) (pos : Nat) : Prop :=
  ((∃ code, sqfsMetaReadBlock image comp pos = .err code) ∧
    (∃ code, readMetaBlock image comp pos = .err code) ∧
    (∃ code, readMetadataBlockInternal image comp pos = .err code)) ∨
  ∃ block next, sqfsMetaReadBlock image comp pos = .ok block ∧
    readMetaBlock image comp pos = .ok (block, next) ∧
    readMetadataBlockInternal image comp pos = .ok block ∧
    1 ≤ block.length ∧ block.length ≤ sqfsMetaBlockSize

/-- What the stored bytes behind a header must be for the readers to agree: a
stored block has a valid length, is cut off before the buffer is full, or ends
behind what an `off_t` holds; a compressed block of a valid length unpacks to the
same bytes, and to some, in both places; one of an invalid length does not unpack. -/
def SoundMetaBlock (image : Image) (comp : Compressor) (pos : Nat) (header : MetaHeader) :
    Prop :=
  if header.uncompressed then
    header.size ≠ 0 ∧
      (header.size ≤ sqfsMetaBlockSize ∨ image.bytes.length ≤ pos + 2 + sqfsMetaBlockSize ∨
        2 ^ 63 ≤ pos + 2 + header.size)
  else
    ∀ stored, image.diskBytes (pos + 2) header.size = some stored →
      if header.size = 0 ∨ sqfsMetaBlockSize < header.size then
        comp.decompress .separate stored sqfsMetaBlockSize = none
      else
        comp.decompress .separate stored sqfsMetaBlockSize ≠ some [] ∧
          (header.size < sqfsMetaBlockSize →
            comp.decompress .tailOfOutput stored sqfsMetaBlockSize =
              comp.decompress .separate stored sqfsMetaBlockSize)

variable {image : Image} {comp : Compressor} {pos : Nat} {header : MetaHeader}

/-! ## The header -/

theorem sqfsMetaReadBlock_of_invalid (read : readMetaHeader image pos = .ok header)
    (invalid : header.size = 0 ∨ sqfsMetaBlockSize < header.size) :
    sqfsMetaReadBlock image comp pos = .err .corrupt := by
  rw [sqfsMetaReadBlock, read]
  exact if_pos invalid

private theorem sqfsMetaReadBlock_of_stored (read : readMetaHeader image pos = .ok header)
    (valid : ¬ (header.size = 0 ∨ sqfsMetaBlockSize < header.size))
    (uncompressed : header.uncompressed = true) :
    sqfsMetaReadBlock image comp pos = readBlockFromDisk image header.size (pos + 2) := by
  rw [sqfsMetaReadBlock, read]
  simp only [Outcome.mapErr_ok, Outcome.ok_bind, if_neg valid, uncompressed, if_true]
  exact bind_pure _

private theorem sqfsMetaReadBlock_of_compressed (read : readMetaHeader image pos = .ok header)
    (valid : ¬ (header.size = 0 ∨ sqfsMetaBlockSize < header.size))
    (compressed : header.uncompressed = false) :
    sqfsMetaReadBlock image comp pos =
      (readBlockFromDisk image header.size (pos + 2)).bind fun stored =>
        sqfsCompressorDecompress comp
          (if header.size < sqfsMetaBlockSize then .tailOfOutput else .separate)
          stored sqfsMetaBlockSize := by
  rw [sqfsMetaReadBlock, read]
  simp only [Outcome.mapErr_ok, Outcome.ok_bind, if_neg valid, compressed]
  rfl

private theorem readMetadataBlockInternal_of_header (read : readMetaHeader image pos = .ok header) :
    readMetadataBlockInternal image comp pos =
      decompressMetaBlock image comp (pos + 2) header := by
  rw [readMetadataBlockInternal, read]
  rfl

private theorem readMetaBlock_of_header (read : readMetaHeader image pos = .ok header) :
    readMetaBlock image comp pos =
      (decompressMetaBlock image comp (pos + 2) header).bind
        fun block => .ok (block, pos + 2 + header.size) := by
  rw [readMetaBlock, read]
  rfl

private theorem metaReadersAgree_of_no_header {code : SqfsError}
    (read : readMetaHeader image pos = .err code) : MetaReadersAgree image comp pos := by
  apply Or.inl
  refine ⟨⟨.io, ?_⟩, ⟨code, ?_⟩, ⟨code, ?_⟩⟩
  · rw [sqfsMetaReadBlock, read]
    rfl
  · rw [readMetaBlock, read]
    rfl
  · rw [readMetadataBlockInternal, read]
    rfl

/-- Behind a header, the readers of `directory.c` and `xattr.c` are one, so only
the one of `data.c` can differ. -/
theorem metaReadersAgree_of_header (read : readMetaHeader image pos = .ok header) :
    MetaReadersAgree image comp pos ↔
      DeliverAlike (sqfsMetaReadBlock image comp pos)
        (decompressMetaBlock image comp (pos + 2) header) := by
  rw [MetaReadersAgree, DeliverAlike, readMetaBlock_of_header read,
    readMetadataBlockInternal_of_header read]
  cases decompressMetaBlock image comp (pos + 2) header with
  | ok block =>
      constructor
      · rintro (⟨-, ⟨code, failed⟩, -⟩ | ⟨block, next, first, second, third, bounds⟩)
        · cases failed
        · exact .inr ⟨block, first, third, bounds⟩
      · rintro (⟨-, code, failed⟩ | ⟨block, first, second, bounds⟩)
        · cases failed
        · cases second
          exact .inr ⟨block, _, first, rfl, rfl, bounds⟩
  | err code =>
      constructor
      · rintro (⟨failed, -, -⟩ | ⟨block, next, -, -, third, -⟩)
        · exact .inl ⟨failed, code, rfl⟩
        · cases third
      · rintro (⟨failed, -⟩ | ⟨block, -, second, -⟩)
        · exact .inl ⟨failed, ⟨code, rfl⟩, ⟨code, rfl⟩⟩
        · cases second
  | fault =>
      constructor
      · rintro (⟨-, ⟨code, failed⟩, -⟩ | ⟨block, next, -, -, third, -⟩)
        · cases failed
        · cases third
      · rintro (⟨-, code, failed⟩ | ⟨block, -, second, -⟩)
        · cases failed
        · cases second

/-! ## Behind the header -/

theorem deliverAlike_of_failed {code : SqfsError} {right : Sqfs (List UInt8)} :
    DeliverAlike (.err code) right ↔ ∃ code, right = .err code := by
  constructor
  · rintro (⟨-, failed⟩ | ⟨block, left, -⟩)
    · exact failed
    · cases left
  · intro failed
    exact .inl ⟨⟨code, rfl⟩, failed⟩

private theorem sqfsPreadInto_fails_iff {room count offset : Nat} (large : room < count) :
    (∃ code, sqfsPreadInto image room count offset = .err code) ↔
      image.bytes.length ≤ offset + room ∨ 2 ^ 63 ≤ offset + count := by
  have size := image.sizeInOffT
  constructor
  · rintro ⟨code, failed⟩
    by_contra more
    rw [sqfsPreadInto, if_pos (by omega)] at failed
    cases failed
  · intro short
    rw [sqfsPreadInto, if_neg (by omega)]
    rcases sqfsPreadAll_cases image count offset with ⟨part, read⟩ | read | read
    · have bound := Image.diskBytes_bound (sqfsPreadAll_eq_ok.mp read) (by omega)
      omega
    · exact ⟨_, read⟩
    · exact ⟨_, read⟩

private theorem deliverAlike_stored (valid : ¬ (header.size = 0 ∨ sqfsMetaBlockSize < header.size)) :
    DeliverAlike (readBlockFromDisk image header.size (pos + 2))
      (sqfsPreadInto image sqfsMetaBlockSize header.size (pos + 2)) := by
  rw [sqfsPreadInto_of_le (by omega), readBlockFromDisk]
  rcases sqfsPreadAll_cases image header.size (pos + 2) with ⟨part, read⟩ | read | read
  · have length := Image.diskBytes_length (sqfsPreadAll_eq_ok.mp read)
    rw [read]
    exact .inr ⟨part, rfl, rfl, by omega, by omega⟩
  · rw [read]
    exact .inl ⟨⟨_, rfl⟩, _, rfl⟩
  · rw [read]
    exact .inl ⟨⟨_, rfl⟩, _, rfl⟩

theorem sqfsCompressorDecompress_fails_iff {placement : Placement} {source : List UInt8}
    {limit : Nat} :
    (∃ code, sqfsCompressorDecompress comp placement source limit = .err code) ↔
      comp.decompress placement source limit = none := by
  unfold sqfsCompressorDecompress
  cases comp.decompress placement source limit <;> simp

/-- Two ways to unpack a block deliver alike exactly when both fail or both give
the same output, which is not empty. -/
theorem deliverAlike_unpacked {first second : Placement} {stored : List UInt8} :
    DeliverAlike (sqfsCompressorDecompress comp first stored sqfsMetaBlockSize)
        (sqfsCompressorDecompress comp second stored sqfsMetaBlockSize) ↔
      comp.decompress second stored sqfsMetaBlockSize ≠ some [] ∧
        comp.decompress first stored sqfsMetaBlockSize =
          comp.decompress second stored sqfsMetaBlockSize := by
  rw [DeliverAlike, sqfsCompressorDecompress_fails_iff, sqfsCompressorDecompress_fails_iff]
  simp only [sqfsCompressorDecompress_eq_ok]
  constructor
  · rintro (⟨left, right⟩ | ⟨block, left, right, nonempty, -⟩)
    · rw [left, right]
      exact ⟨nofun, rfl⟩
    · rw [left, right]
      refine ⟨?_, rfl⟩
      rintro equal
      cases equal
      contradiction
  · rintro ⟨nonempty, same⟩
    cases unpacked : comp.decompress second stored sqfsMetaBlockSize with
    | none => exact .inl ⟨same.trans unpacked, rfl⟩
    | some block =>
        refine .inr ⟨block, same.trans unpacked, rfl, ?_, comp.bounded unpacked⟩
        apply List.length_pos_iff.mpr
        rintro rfl
        exact nonempty unpacked

private theorem metaReadersAgree_of_missing (read : readMetaHeader image pos = .ok header)
    (compressed : header.uncompressed = false)
    (missing : image.diskBytes (pos + 2) header.size = none) :
    MetaReadersAgree image comp pos := by
  rw [metaReadersAgree_of_header read, decompressMetaBlock,
    if_neg (Bool.eq_false_iff.mp compressed)]
  have failed : ∃ code, sqfsPreadAll image header.size (pos + 2) = .err code := by
    rcases sqfsPreadAll_cases image header.size (pos + 2) with ⟨part, read⟩ | read | read
    · rw [sqfsPreadAll_eq_ok, missing] at read
      cases read
    · exact ⟨_, read⟩
    · exact ⟨_, read⟩
  rcases failed with ⟨code, failed⟩
  rw [failed, Outcome.err_bind]
  by_cases invalid : header.size = 0 ∨ sqfsMetaBlockSize < header.size
  · rw [sqfsMetaReadBlock_of_invalid read invalid, deliverAlike_of_failed]
    exact ⟨code, rfl⟩
  · rw [sqfsMetaReadBlock_of_compressed read invalid compressed, readBlockFromDisk, failed,
      Outcome.mapErr_err]
    exact deliverAlike_of_failed.mpr ⟨code, rfl⟩

/-- Behind a header, the readers agree exactly on sound blocks. -/
theorem metaReadersAgree_iff_sound (read : readMetaHeader image pos = .ok header) :
    MetaReadersAgree image comp pos ↔ SoundMetaBlock image comp pos header := by
  cases uncompressed : header.uncompressed with
  | true =>
      rw [metaReadersAgree_of_header read, SoundMetaBlock, if_pos uncompressed,
        decompressMetaBlock, if_pos uncompressed]
      by_cases invalid : header.size = 0 ∨ sqfsMetaBlockSize < header.size
      · rw [sqfsMetaReadBlock_of_invalid read invalid, deliverAlike_of_failed]
        by_cases empty : header.size = 0
        · rw [empty, sqfsPreadInto_of_le (Nat.zero_le _), sqfsPreadAll, if_pos rfl]
          simp
        · rw [sqfsPreadInto_fails_iff (by omega)]
          omega
      · rw [sqfsMetaReadBlock_of_stored read invalid uncompressed]
        refine iff_of_true (deliverAlike_stored invalid) ?_
        omega
  | false =>
      have compressed := Bool.eq_false_iff.mp uncompressed
      rw [SoundMetaBlock, if_neg compressed]
      cases found : image.diskBytes (pos + 2) header.size with
      | none =>
          refine iff_of_true (metaReadersAgree_of_missing read uncompressed found) ?_
          rintro stored equal
          cases equal
      | some stored =>
          simp only [Option.some.injEq, forall_eq']
          rw [metaReadersAgree_of_header read, decompressMetaBlock, if_neg compressed,
            sqfsPreadAll_eq_ok.mpr found, Outcome.ok_bind]
          by_cases invalid : header.size = 0 ∨ sqfsMetaBlockSize < header.size
          · rw [sqfsMetaReadBlock_of_invalid read invalid, deliverAlike_of_failed,
              sqfsCompressorDecompress_fails_iff, if_pos invalid]
          · rw [sqfsMetaReadBlock_of_compressed read invalid uncompressed,
              readBlockFromDisk_eq_ok.mpr found, if_neg invalid]
            change DeliverAlike (sqfsCompressorDecompress _ _ _ _) _ ↔ _
            rw [deliverAlike_unpacked]
            by_cases short : header.size < sqfsMetaBlockSize
            · simp only [short, if_true, true_implies]
            · simp only [short, if_false, false_implies]

/-- At every position the three readers fail together, or deliver the same 1 to
8192 bytes, exactly when there is no header or the block behind it is sound. -/
theorem metaReaders_agree_iff (image : Image) (comp : Compressor) (pos : Nat) :
    MetaReadersAgree image comp pos ↔
      ∀ word, image.diskBytes pos 2 = some word →
        SoundMetaBlock image comp pos (.ofWord (leValue word)) := by
  cases found : image.diskBytes pos 2 with
  | none =>
      refine iff_of_true ?_ nofun
      rcases sqfsPreadAll_cases image 2 pos with ⟨part, read⟩ | read | read
      · rw [sqfsPreadAll_eq_ok, found] at read
        cases read
      all_goals
        apply metaReadersAgree_of_no_header
        rw [readMetaHeader, read]
        rfl
  | some word =>
      simp only [Option.some.injEq, forall_eq']
      exact metaReadersAgree_iff_sound (readMetaHeader_eq_ok.mpr ⟨word, found, rfl⟩)

/-- A header that announces an empty stored block: `data.c` refuses it and the
other two readers deliver no bytes. -/
theorem metaReaders_differ_on_empty_block :
    ¬ ∀ (image : Image) (comp : Compressor) (pos : Nat), MetaReadersAgree image comp pos := by
  intro agree
  have refused : sqfsMetaReadBlock ⟨[0x00, 0x80], by decide⟩ storedDeflate 0 =
      .err .corrupt := by
    decide
  have delivered : readMetaBlock ⟨[0x00, 0x80], by decide⟩ storedDeflate 0 = .ok ([], 2) := by
    decide
  rcases agree ⟨[0x00, 0x80], by decide⟩ storedDeflate 0 with
    ⟨-, ⟨code, failed⟩, -⟩ | ⟨block, next, read, -⟩
  · rw [delivered] at failed
    cases failed
  · rw [refused] at read
    cases read

end SquashfsFuse
