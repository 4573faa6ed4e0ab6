import SquashfsFuse.Data.Content

/-! Blocks and the buffers they are read into. -/

namespace SquashfsFuse

/-! ## Bounds -/

/-- At most as many bytes are delivered as the buffer holds, or the read fails. It fails for
a block that is stored as it is and is longer than the buffer. -/
structure KeepsToBuffer (capacity word : Nat) (result : Sqfs Nat) : Prop where
  bounded : (∃ length, result = .ok length ∧ length ≤ capacity) ∨ ∃ code, result = .err code
  rejected : sqfsBlockIsUncompressed word = true → capacity < sqfsBlockSizeGet word →
    ∃ code, result = .err code

/-- The block is stored as it is, and the image has more bytes of it than the buffer
holds. -/
def Image.Overfills (image : Image) (pos word capacity : Nat) : Prop :=
  sqfsBlockIsUncompressed word = true ∧ pos + sqfsBlockSizeGet word < 2 ^ 63 ∧
    capacity < min (sqfsBlockSizeGet word) (image.bytes.length - pos)

section Bounds

variable {image : Image} {pos word capacity : Nat} {result : Sqfs Nat}

theorem KeepsToBuffer.of_err {code : SqfsError} (failed : result = .err code) :
    KeepsToBuffer capacity word result :=
  ⟨.inr ⟨code, failed⟩, fun _ _ => ⟨code, failed⟩⟩

theorem not_keepsToBuffer_of_fault (faulted : result = .fault) :
    ¬ KeepsToBuffer capacity word result := by
  intro keeps
  rw [faulted] at keeps
  rcases keeps.bounded with ⟨length, equal, -⟩ | ⟨code, equal⟩
  · cases equal
  · cases equal

private theorem keepsToBuffer_stored (stored : sqfsBlockIsUncompressed word = true)
    (delivers : ∀ part, sqfsPreadInto image capacity (sqfsBlockSizeGet word) pos = .ok part →
      result = .ok (sqfsBlockSizeGet word))
    (fails : ∀ code, sqfsPreadInto image capacity (sqfsBlockSizeGet word) pos = .err code →
      ∃ code, result = .err code)
    (faults : sqfsPreadInto image capacity (sqfsBlockSizeGet word) pos = .fault →
      result = .fault) :
    KeepsToBuffer capacity word result ↔ ¬ image.Overfills pos word capacity := by
  by_cases spills : pos + sqfsBlockSizeGet word < 2 ^ 63 ∧
      capacity < min (sqfsBlockSizeGet word) (image.bytes.length - pos)
  · have faulted := faults (if_pos spills)
    apply iff_of_false (not_keepsToBuffer_of_fault faulted)
    intro notOver
    exact notOver ⟨stored, spills⟩
  · apply iff_of_true
    · have read : sqfsPreadInto image capacity (sqfsBlockSizeGet word) pos =
          sqfsPreadAll image (sqfsBlockSizeGet word) pos := if_neg spills
      rcases sqfsPreadAll_cases image (sqfsBlockSizeGet word) pos with
        ⟨part, found⟩ | found | found
      · rw [← read] at found
        have fits := (sqfsPreadInto_eq_ok.mp found).2
        constructor
        · exact .inl ⟨_, delivers part found, fits⟩
        · intro _ long
          omega
      · rcases fails _ (read.trans found) with ⟨code, failed⟩
        exact .of_err failed
      · rcases fails _ (read.trans found) with ⟨code, failed⟩
        exact .of_err failed
    · intro overfills
      exact spills overfills.2

theorem keepsToBuffer_unpacked (compressed : ¬ sqfsBlockIsUncompressed word = true)
    (ends : (∃ length, result = .ok length ∧ length ≤ capacity) ∨
      ∃ code, result = .err code) :
    KeepsToBuffer capacity word result ↔ ¬ image.Overfills pos word capacity := by
  apply iff_of_true
  · constructor
    · exact ends
    · intro stored
      exact absurd stored compressed
  · intro overfills
    exact compressed overfills.1

end Bounds

/-! ## The two readers -/

private theorem sqfsCompressorDecompress_ends (comp : Compressor) (placement : Placement)
    (source : List UInt8) (limit : Nat) :
    (∃ output, sqfsCompressorDecompress comp placement source limit = .ok output ∧
        output.length ≤ limit) ∨
      sqfsCompressorDecompress comp placement source limit = .err .corrupt := by
  rw [sqfsCompressorDecompress]
  cases unpacked : comp.decompress placement source limit with
  | some output => exact .inl ⟨output, rfl, comp.bounded unpacked⟩
  | none => exact .inr rfl

theorem sqfsDataReadBlock_keeps_iff (image : Image) (comp : Compressor)
    (pos word capacity : Nat) (blockBuf : List Cell) :
    KeepsToBuffer capacity word
        (Prod.snd <$> sqfsDataReadBlock image comp pos word blockBuf capacity) ↔
      ¬ image.Overfills pos word capacity := by
  by_cases hole : word = 0
  · rw [sqfsDataReadBlock, if_pos hole, hole]
    exact keepsToBuffer_unpacked (by decide) (.inl ⟨capacity, rfl, Nat.le_refl _⟩)
  rw [sqfsDataReadBlock, if_neg hole]
  dsimp only
  by_cases stored : sqfsBlockIsUncompressed word = true
  · rw [if_pos stored]
    apply keepsToBuffer_stored stored
    · intro part read
      rw [read]
      rfl
    · intro code read
      rw [read]
      exact ⟨_, rfl⟩
    · intro read
      rw [read]
      rfl
  · rw [if_neg stored]
    apply keepsToBuffer_unpacked stored
    rw [readBlockFromDisk]
    rcases sqfsPreadAll_cases image (sqfsBlockSizeGet word) pos with
      ⟨part, read⟩ | read | read
    · rw [read, Outcome.mapErr_ok, Outcome.ok_bind]
      rcases sqfsCompressorDecompress_ends comp
          (if sqfsBlockSizeGet word ≤ capacity then .tailOfOutput else .separate) part capacity
        with ⟨output, unpacked, bound⟩ | failed
      · rw [unpacked]
        exact .inl ⟨_, rfl, bound⟩
      · rw [failed]
        exact .inr ⟨_, rfl⟩
    · rw [read]
      exact .inr ⟨_, rfl⟩
    · rw [read]
      exact .inr ⟨_, rfl⟩

theorem sqfsFragmentReadBlock_keeps_iff {ctx : SqfsCtx} {fragIdx : Nat}
    {entry : SqfsFragEntry} (located : sqfsFragmentLocation ctx fragIdx = .ok entry) :
    KeepsToBuffer ctx.sb.blockSize entry.size
        (List.length <$> sqfsFragmentReadBlock ctx fragIdx) ↔
      ¬ ctx.image.Overfills entry.start entry.size ctx.sb.blockSize := by
  rw [sqfsFragmentReadBlock, located, Outcome.ok_bind]
  dsimp only
  by_cases stored : sqfsBlockIsUncompressed entry.size = true
  · rw [if_pos stored]
    apply keepsToBuffer_stored stored
    · intro part read
      have length := Image.diskBytes_length (sqfsPreadInto_eq_ok.mp read).1
      rw [read, ← length]
      rfl
    · intro code read
      rw [read]
      exact ⟨_, rfl⟩
    · intro read
      rw [read]
      rfl
  · rw [if_neg stored]
    apply keepsToBuffer_unpacked stored
    rcases sqfsPreadAll_cases ctx.image (sqfsBlockSizeGet entry.size) entry.start with
      ⟨part, read⟩ | read | read
    · rw [read, Outcome.ok_bind]
      rcases sqfsCompressorDecompress_ends ctx.comp
          (if sqfsBlockSizeGet entry.size < ctx.sb.blockSize then .tailOfOutput else .separate)
          part ctx.sb.blockSize with ⟨output, unpacked, bound⟩ | failed
      · rw [unpacked]
        exact .inl ⟨_, rfl, bound⟩
      · rw [failed]
        exact .inr ⟨_, rfl⟩
    · rw [read]
      exact .inr ⟨_, rfl⟩
    · rw [read]
      exact .inr ⟨_, rfl⟩

/-- Both readers keep to their buffer exactly where the image has no more bytes of a block
stored as it is than the buffer holds. -/
theorem blockReaders_keepToBuffer_iff (ctx : SqfsCtx) (word : UInt32) :
    (∀ (pos capacity : Nat) (blockBuf : List Cell),
      KeepsToBuffer capacity word.toNat (Prod.snd <$>
          sqfsDataReadBlock ctx.image ctx.comp pos word.toNat blockBuf capacity) ↔
        ¬ ctx.image.Overfills pos word.toNat capacity) ∧
      ∀ (fragIdx : Nat) (entry : SqfsFragEntry),
        sqfsFragmentLocation ctx fragIdx = .ok entry → entry.size = word.toNat →
        (KeepsToBuffer ctx.sb.blockSize word.toNat
            (List.length <$> sqfsFragmentReadBlock ctx fragIdx) ↔
          ¬ ctx.image.Overfills entry.start word.toNat ctx.sb.blockSize) := by
  constructor
  · intro pos capacity blockBuf
    exact sqfsDataReadBlock_keeps_iff ctx.image ctx.comp pos word.toNat capacity blockBuf
  · intro fragIdx entry located size
    rw [← size]
    exact sqfsFragmentReadBlock_keeps_iff located

/-- Three stored bytes fit. -/
theorem blockReaders_keepToBuffer_three :
    KeepsToBuffer 4096 (UInt32.toNat 0x01000003) (Prod.snd <$>
      sqfsDataReadBlock (SqfsCtx.onBytes [1, 2, 3] (by decide)).image
        (SqfsCtx.onBytes [1, 2, 3] (by decide)).comp 0 (UInt32.toNat 0x01000003)
        (List.replicate 4096 none) 4096) := by
  apply ((blockReaders_keepToBuffer_iff (.onBytes [1, 2, 3] (by decide)) 0x01000003).1 0 4096
    (List.replicate 4096 none)).mpr
  intro overfills
  exact absurd overfills.2.2 (by decide)

/-- A stored block of 4097 bytes overfills a buffer of 4096 bytes. -/
theorem sqfsDataReadBlock_overfills :
    ¬ ∀ (image : Image) (comp : Compressor) (pos capacity : Nat) (word : UInt32)
      (blockBuf : List Cell), KeepsToBuffer capacity word.toNat
        (Prod.snd <$> sqfsDataReadBlock image comp pos word.toNat blockBuf capacity) := by
  intro claim
  have length : (List.replicate 4097 (0 : UInt8)).length = 4097 := List.length_replicate
  let image : Image := ⟨List.replicate 4097 0, by rw [length]; decide⟩
  have spills : image.Overfills 0 (UInt32.toNat 0x01001001) 4096 := by
    apply And.intro (by decide)
    rw [length]
    decide
  have read : sqfsPreadInto image 4096 (sqfsBlockSizeGet (UInt32.toNat 0x01001001)) 0 = .fault :=
    if_pos spills.2
  have faulted : Prod.snd <$> sqfsDataReadBlock image storedDeflate 0
      (UInt32.toNat 0x01001001) (List.replicate 4096 none) 4096 = .fault := by
    rw [sqfsDataReadBlock, if_neg (by decide)]
    dsimp only
    rw [if_pos spills.1, read]
    rfl
  exact not_keepsToBuffer_of_fault faulted
    (claim image storedDeflate 0 4096 0x01001001 (List.replicate 4096 none))

end SquashfsFuse
