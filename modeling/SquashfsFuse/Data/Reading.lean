import SquashfsFuse.Data.Calls
import SquashfsFuse.Foundation.Chunks

/-! The content of a file. -/

namespace SquashfsFuse

/-! ## The content of a file -/

/-- The number of blocks the format prescribes: a last partial block counts
unless the tail lies in a fragment. -/
def prescribedBlocks (file : SqfsFileCtx) : Nat :=
  if sqfsFragmentIsNone file.fragIdx then
    (file.fileSize + file.blockSize - 1) / file.blockSize
  else
    file.fileSize / file.blockSize

def nominalSize (file : SqfsFileCtx) (idx : Nat) : Nat :=
  if sqfsFragmentIsNone file.fragIdx ∧ idx + 1 = file.blockCount then
    file.fileSize - idx * file.blockSize
  else
    file.blockSize

/-- The block list is as long as the format prescribes, every stored block unpacks to its nominal
size, and the tail lies inside its fragment block. -/
structure WellFormedFile (ctx : SqfsCtx) (file : SqfsFileCtx) : Prop where
  counted : file.blockCount = prescribedBlocks file
  listed : file.blockSizes.length = file.blockCount
  stored : ∀ idx location, sqfsFileBlockLocation file idx = .ok location →
    location.size ≠ 0 →
    ∃ data, storedContent ctx.apart location file.blockSize = .ok data ∧
      data.length = nominalSize file idx
  tail : sqfsFragmentIsNone file.fragIdx = false → file.fileSize % file.blockSize ≠ 0 →
    ∃ block, sqfsFragmentReadBlock ctx.apart file.fragIdx = .ok block ∧
      file.fragOffset + file.fileSize % file.blockSize ≤ block.length

def blockContent (ctx : SqfsCtx) (file : SqfsFileCtx) (idx : Nat) : List UInt8 :=
  match sqfsFileBlockLocation file idx with
  | .ok location =>
      if location.size = 0 then
        List.replicate (nominalSize file idx) 0
      else
        (storedContent ctx.apart location file.blockSize).toOption.getD []
  | _ => []

def tailContent (ctx : SqfsCtx) (file : SqfsFileCtx) : List UInt8 :=
  if sqfsFragmentIsNone file.fragIdx then
    []
  else
    let block := (sqfsFragmentReadBlock ctx.apart file.fragIdx).toOption.getD []
    (block.drop file.fragOffset).take (file.fileSize % file.blockSize)

def fileContent (ctx : SqfsCtx) (file : SqfsFileCtx) : List UInt8 :=
  ((List.range file.blockCount).map (blockContent ctx file)).flatten ++ tailContent ctx file

/-- The block list is as long as the format prescribes, the blocks on disk can be
unpacked, the last one to its nominal size, and the tail lies inside its fragment block.
Blocks before the last one may unpack to less than the block size. -/
structure ShortBlockFile (ctx : SqfsCtx) (file : SqfsFileCtx) : Prop where
  counted : file.blockCount = prescribedBlocks file
  listed : file.blockSizes.length = file.blockCount
  stored : ∀ idx location, sqfsFileBlockLocation file idx = .ok location →
    location.size ≠ 0 →
    ∃ data, storedContent ctx.apart location file.blockSize = .ok data ∧
      (idx + 1 = file.blockCount → data.length = nominalSize file idx)
  tail : sqfsFragmentIsNone file.fragIdx = false → file.fileSize % file.blockSize ≠ 0 →
    ∃ block, sqfsFragmentReadBlock ctx.apart file.fragIdx = .ok block ∧
      file.fragOffset + file.fileSize % file.blockSize ≤ block.length

def zeroFilledBlock (ctx : SqfsCtx) (file : SqfsFileCtx) (idx : Nat) : List UInt8 :=
  fillUp 0 (nominalSize file idx) (blockContent ctx file idx)

def zeroFilledContent (ctx : SqfsCtx) (file : SqfsFileCtx) : List UInt8 :=
  ((List.range file.blockCount).map (zeroFilledBlock ctx file)).flatten ++ tailContent ctx file

/-- The position lies behind the bytes that the block on disk unpacks to. -/
def Missing (ctx : SqfsCtx) (file : SqfsFileCtx) (pos : Nat) : Prop :=
  ∃ location data, sqfsFileBlockLocation file (pos / file.blockSize) = .ok location ∧
    location.size ≠ 0 ∧ storedContent ctx.apart location file.blockSize = .ok data ∧
    data.length ≤ pos % file.blockSize

/-- The image determines the byte of the file at the position: as a zero of a
hole, a byte of an unpacked block or a byte of the unpacked fragment block. -/
inductive ImageByte (ctx : SqfsCtx) (file : SqfsFileCtx) (pos : Nat) : UInt8 → Prop
  | hole {location} :
      sqfsFileBlockLocation file (pos / file.blockSize) = .ok location →
      location.size = 0 → ImageByte ctx file pos 0
  | stored {location data byte} :
      sqfsFileBlockLocation file (pos / file.blockSize) = .ok location →
      location.size ≠ 0 → storedContent ctx.apart location file.blockSize = .ok data →
      data[pos % file.blockSize]? = some byte → ImageByte ctx file pos byte
  | tail {data byte} :
      sqfsFragmentIsNone file.fragIdx = false →
      pos / file.blockSize = prescribedBlocks file →
      sqfsFragmentReadBlock ctx.apart file.fragIdx = .ok data →
      data[file.fragOffset + pos % file.blockSize]? = some byte → ImageByte ctx file pos byte

/-- The code unpacks every block of the file, and the fragment block with its tail, to what it
holds. -/
structure UnpacksInPlace (ctx : SqfsCtx) (file : SqfsFileCtx) : Prop where
  block : ∀ idx location, sqfsFileBlockLocation file idx = .ok location → location.size ≠ 0 →
    storedContent ctx location file.blockSize = storedContent ctx.apart location file.blockSize
  tail : sqfsFragmentIsNone file.fragIdx = false → file.fileSize % file.blockSize ≠ 0 →
    sqfsFragmentReadBlock ctx file.fragIdx = sqfsFragmentReadBlock ctx.apart file.fragIdx

/-- The block list is as long as the format prescribes, and where the code unpacks a stored block
it finds the nominal size. -/
structure SizedFile (ctx : SqfsCtx) (file : SqfsFileCtx) : Prop where
  counted : file.blockCount = prescribedBlocks file
  listed : file.blockSizes.length = file.blockCount
  stored : ∀ idx location data, sqfsFileBlockLocation file idx = .ok location →
    location.size ≠ 0 → storedContent ctx location file.blockSize = .ok data →
    data.length = nominalSize file idx

/-- The code does not crash at a block of the file or at the fragment block with its tail. -/
structure ReadableFile (ctx : SqfsCtx) (file : SqfsFileCtx) : Prop where
  block : ∀ idx location, sqfsFileBlockLocation file idx = .ok location → location.size ≠ 0 →
    storedContent ctx location file.blockSize ≠ .fault
  tail : sqfsFragmentIsNone file.fragIdx = false → file.fileSize % file.blockSize ≠ 0 →
    sqfsFragmentReadBlock ctx file.fragIdx ≠ .fault

/-- The position lies in the request and in the file. -/
structure Requested (file : SqfsFileCtx) (offset size pos : Nat) : Prop where
  start : offset ≤ pos
  finish : pos < offset + size
  inFile : pos < file.fileSize

/-! ## Positions in a file -/

section Positions

variable {ctx : SqfsCtx} {file : SqfsFileCtx} {pos idx : Nat}

theorem sqfsFileBlockLocation_of_lt (listed : file.blockSizes.length = file.blockCount)
    (inRange : idx < file.blockCount) :
    ∃ location, sqfsFileBlockLocation file idx = .ok location := by
  have inside : idx < file.blockSizes.length := by omega
  have present : file.blockSizes[idx]? = some file.blockSizes[idx] :=
    List.getElem?_eq_getElem inside
  rw [sqfsFileBlockLocation, if_neg (by omega), present]
  simp only [Outcome.ofOption_some, Outcome.ok_bind]
  split
  · exact ⟨_, rfl⟩
  · exact ⟨_, rfl⟩

theorem block_of_none (counted : file.blockCount = prescribedBlocks file)
    (positive : 0 < file.blockSize) (none : sqfsFragmentIsNone file.fragIdx = true)
    (inside : pos < file.fileSize) :
    pos / file.blockSize < file.blockCount ∧
      (pos / file.blockSize + 1 = file.blockCount →
        file.fileSize ≤ (pos / file.blockSize + 1) * file.blockSize) := by
  have count : file.blockCount = (file.fileSize - 1) / file.blockSize + 1 := by
    rw [counted, prescribedBlocks, if_pos none, ← Nat.add_div_right _ positive]
    congr 1
    omega
  have atMost : pos / file.blockSize ≤ (file.fileSize - 1) / file.blockSize :=
    Nat.div_le_div_right (by omega)
  refine ⟨by omega, fun last => ?_⟩
  have quotient : (file.fileSize - 1) / file.blockSize = pos / file.blockSize := by omega
  have bound := Nat.lt_mul_div_succ (file.fileSize - 1) positive
  rw [quotient, Nat.mul_comm] at bound
  omega

theorem blocks_of_some (counted : file.blockCount = prescribedBlocks file)
    (some : sqfsFragmentIsNone file.fragIdx = false) :
    file.blockCount = file.fileSize / file.blockSize := by
  rw [counted, prescribedBlocks, if_neg (by simp [some])]

theorem blockIndex_in_range (counted : file.blockCount = prescribedBlocks file)
    (positive : 0 < file.blockSize) (countInRange : file.blockCount < 2 ^ 32)
    (inside : pos < file.fileSize) : pos / file.blockSize < 2 ^ 32 := by
  apply Nat.lt_of_le_of_lt _ countInRange
  cases none : sqfsFragmentIsNone file.fragIdx with
  | true => exact Nat.le_of_lt (block_of_none counted positive none inside).1
  | false =>
      rw [blocks_of_some counted none]
      exact Nat.div_le_div_right (Nat.le_of_lt inside)

theorem tail_of_some (counted : file.blockCount = prescribedBlocks file)
    (some : sqfsFragmentIsNone file.fragIdx = false) (inside : pos ≤ file.fileSize)
    (behind : file.blockCount ≤ pos / file.blockSize) :
    pos / file.blockSize = file.blockCount ∧
      pos % file.blockSize + (file.fileSize - pos) = file.fileSize % file.blockSize := by
  have count := blocks_of_some counted some
  have atMost : pos / file.blockSize ≤ file.fileSize / file.blockSize :=
    Nat.div_le_div_right inside
  have sameIdx : pos / file.blockSize = file.fileSize / file.blockSize := by omega
  have position := Nat.div_add_mod pos file.blockSize
  have size := Nat.div_add_mod file.fileSize file.blockSize
  rw [sameIdx] at position
  exact ⟨by omega, by omega⟩

theorem left_in_block (counted : file.blockCount = prescribedBlocks file)
    (positive : 0 < file.blockSize) (inside : pos < file.fileSize) :
    pos % file.blockSize < nominalSize file (pos / file.blockSize) ∧
      min (file.blockSize - pos % file.blockSize) (file.fileSize - pos) =
        min (nominalSize file (pos / file.blockSize) - pos % file.blockSize)
          (file.fileSize - pos) := by
  have inBlock := Nat.mod_lt pos positive
  have position := Nat.div_add_mod pos file.blockSize
  rw [Nat.mul_comm] at position
  rw [nominalSize]
  split
  · next last =>
      have end_ := (block_of_none counted positive last.1 inside).2 last.2
      rw [Nat.succ_mul] at end_
      omega
  · exact ⟨inBlock, rfl⟩

section Chunks

variable {chunk : Nat → List UInt8} {tail : List UInt8}

theorem drop_of_block (lengths : ∀ idx, idx < file.blockCount →
      (chunk idx).length = nominalSize file idx)
    (inRange : pos / file.blockSize < file.blockCount)
    (within : pos % file.blockSize ≤ nominalSize file (pos / file.blockSize)) :
    ∃ rest, (((List.range file.blockCount).map chunk).flatten ++ tail).drop pos =
      (chunk (pos / file.blockSize)).drop (pos % file.blockSize) ++ rest := by
  have length := lengths _ inRange
  have position : pos = pos / file.blockSize * file.blockSize + pos % file.blockSize := by
    rw [Nat.mul_comm, Nat.div_add_mod]
  have found : ((List.range file.blockCount).map chunk)[pos / file.blockSize]? =
      some (chunk (pos / file.blockSize)) := by
    simp [inRange]
  have uniform : ∀ (other : Nat) (before : List UInt8), other < pos / file.blockSize →
      ((List.range file.blockCount).map chunk)[other]? = some before →
      before.length = file.blockSize := by
    intro other before smaller present
    have otherInRange : other < file.blockCount := by omega
    simp only [List.getElem?_map, List.getElem?_range otherInRange, Option.map_some,
      Option.some.injEq] at present
    rw [← present, lengths other otherInRange, nominalSize, if_neg (by omega)]
  have dropped := @drop_flatten_append _ _ _ tail _ _ (pos % file.blockSize) found uniform
    (by omega)
  rw [← position] at dropped
  exact ⟨_, dropped⟩

private theorem drop_of_tail (lengths : ∀ idx, idx < file.blockCount →
      (chunk idx).length = nominalSize file idx)
    (some : sqfsFragmentIsNone file.fragIdx = false)
    (atTail : pos / file.blockSize = file.blockCount) :
    (((List.range file.blockCount).map chunk).flatten ++ tail).drop pos =
      tail.drop (pos % file.blockSize) := by
  have uniform : ∀ (idx : Nat) (block : List UInt8),
      ((List.range file.blockCount).map chunk)[idx]? = .some block →
      block.length = file.blockSize := by
    intro idx block present
    rcases List.getElem?_eq_some_iff.mp present with ⟨inRange, rfl⟩
    simp only [List.length_map, List.length_range] at inRange
    rw [List.getElem_map, List.getElem_range, lengths idx inRange, nominalSize,
      if_neg (by simp [some])]
  have length : ((List.range file.blockCount).map chunk).flatten.length =
      file.blockSize * (pos / file.blockSize) := by
    rw [length_flatten_of_uniform uniform, List.length_map, List.length_range, atTail,
      Nat.mul_comm]
  have position := Nat.div_add_mod pos file.blockSize
  rw [List.drop_append, List.drop_eq_nil_of_le (by omega), List.nil_append]
  congr 1
  omega

end Chunks

/-! ## Short blocks -/

private theorem ShortBlockFile.blockContent_length_le (short : ShortBlockFile ctx file)
    (inRange : idx < file.blockCount) :
    (blockContent ctx file idx).length ≤ nominalSize file idx := by
  rcases sqfsFileBlockLocation_of_lt short.listed inRange with ⟨location, located⟩
  rw [blockContent, located]
  by_cases hole : location.size = 0
  · simp only [if_pos hole, List.length_replicate, Nat.le_refl]
  · rcases short.stored idx location located hole with ⟨data, content, last⟩
    simp only [if_neg hole, content, Outcome.toOption_ok, Option.getD_some]
    have fits := storedContent_length content
    by_cases isLast : idx + 1 = file.blockCount
    · exact Nat.le_of_eq (last isLast)
    · rw [nominalSize, if_neg (by omega)]
      exact fits

theorem ShortBlockFile.zeroFilledBlock_length (short : ShortBlockFile ctx file) :
    ∀ idx, idx < file.blockCount → (zeroFilledBlock ctx file idx).length = nominalSize file idx :=
  fun _ inRange => fillUp_length (short.blockContent_length_le inRange)

private theorem ShortBlockFile.tailContent_length (short : ShortBlockFile ctx file)
    (some : sqfsFragmentIsNone file.fragIdx = false) :
    (tailContent ctx file).length = file.fileSize % file.blockSize := by
  rw [tailContent, if_neg (by simp [some])]
  by_cases noTail : file.fileSize % file.blockSize = 0
  · rw [noTail]
    exact congrArg List.length List.take_zero
  · rcases short.tail some noTail with ⟨block, content, fits⟩
    simp only [content, Outcome.toOption_ok, Option.getD_some]
    rw [List.length_take, List.length_drop]
    omega

theorem ShortBlockFile.fileSize_le (short : ShortBlockFile ctx file)
    (positive : 0 < file.blockSize) : file.fileSize ≤ (zeroFilledContent ctx file).length := by
  apply Nat.le_of_not_lt
  intro inside
  have ended : (zeroFilledContent ctx file).drop (zeroFilledContent ctx file).length = [] :=
    List.drop_length
  generalize (zeroFilledContent ctx file).length = pos at inside ended
  have left := (left_in_block short.counted positive inside).1
  by_cases inRange : pos / file.blockSize < file.blockCount
  · rcases @drop_of_block file pos _ (tailContent ctx file) short.zeroFilledBlock_length inRange
      (Nat.le_of_lt left) with ⟨rest, continued⟩
    rw [zeroFilledContent, continued] at ended
    have none := List.drop_eq_nil_iff.mp (List.append_eq_nil_iff.mp ended).1
    rw [short.zeroFilledBlock_length _ inRange] at none
    exact Nat.not_le_of_lt left none
  · cases hasNone : sqfsFragmentIsNone file.fragIdx with
    | true => exact inRange (block_of_none short.counted positive hasNone inside).1
    | false =>
        rcases tail_of_some short.counted hasNone (Nat.le_of_lt inside)
          (Nat.le_of_not_lt inRange) with ⟨atTail, rest⟩
        rw [zeroFilledContent, drop_of_tail short.zeroFilledBlock_length hasNone atTail] at ended
        have none := List.drop_eq_nil_iff.mp ended
        rw [short.tailContent_length hasNone] at none
        omega

/-! ## Well-formed files -/

theorem WellFormedFile.shortBlocks (wellFormed : WellFormedFile ctx file) :
    ShortBlockFile ctx file where
  counted := wellFormed.counted
  listed := wellFormed.listed
  stored := by
    intro idx location located notHole
    rcases wellFormed.stored idx location located notHole with ⟨data, content, length⟩
    exact ⟨data, content, fun _ => length⟩
  tail := wellFormed.tail

theorem WellFormedFile.zeroFilled (wellFormed : WellFormedFile ctx file) :
    zeroFilledContent ctx file = fileContent ctx file := by
  rw [zeroFilledContent, fileContent]
  congr 2
  apply List.map_congr_left
  intro idx member
  have inRange := List.mem_range.mp member
  apply fillUp_of_length
  rcases sqfsFileBlockLocation_of_lt wellFormed.listed inRange with ⟨location, located⟩
  rw [blockContent, located]
  by_cases hole : location.size = 0
  · simp only [if_pos hole, List.length_replicate]
  · rcases wellFormed.stored idx location located hole with ⟨data, content, length⟩
    simp only [if_neg hole, content, Outcome.toOption_ok, Option.getD_some, length]

theorem WellFormedFile.sized (wellFormed : WellFormedFile ctx file)
    (unpacks : UnpacksInPlace ctx file) : SizedFile ctx file where
  counted := wellFormed.counted
  listed := wellFormed.listed
  stored := by
    intro idx location data located notHole content
    rcases wellFormed.stored idx location located notHole with ⟨other, same, length⟩
    rw [unpacks.block idx location located notHole, same] at content
    cases content
    exact length

/-- Whether a call crashes does not depend on the place of the compressed bytes. -/
theorem sqfsCompressorDecompress_ne_fault (comp : Compressor) (placement : Placement)
    (source : List UInt8) (limit : Nat) :
    sqfsCompressorDecompress comp placement source limit ≠ .fault := by
  rw [sqfsCompressorDecompress]
  split <;> simp

theorem WellFormedFile.readable (wellFormed : WellFormedFile ctx file) :
    ReadableFile ctx file where
  block := by
    intro idx location located notHole crashed
    rcases wellFormed.stored idx location located notHole with ⟨data, content, -⟩
    cases uncompressed : sqfsBlockIsUncompressed location.size with
    | true =>
        rw [storedContent_apart uncompressed, crashed] at content
        contradiction
    | false =>
        simp only [storedContent, uncompressed, Bool.false_eq_true, if_false] at content crashed
        rcases Outcome.bind_eq_ok.mp content with ⟨stored, read, -⟩
        have sameRead : readBlockFromDisk ctx.image (sqfsBlockSizeGet location.size)
            location.pos = .ok stored := read
        rw [sameRead, Outcome.ok_bind] at crashed
        exact sqfsCompressorDecompress_ne_fault _ _ _ _ crashed
  tail := by
    intro hasTail some crashed
    rcases wellFormed.tail hasTail some with ⟨block, content, -⟩
    rcases Outcome.bind_eq_ok.mp content with ⟨entry, located, read⟩
    have sameEntry : sqfsFragmentLocation ctx file.fragIdx = .ok entry := located
    rw [sqfsFragmentReadBlock, sameEntry, Outcome.ok_bind] at crashed
    simp only at read crashed
    split at read
    · next uncompressed =>
        rw [if_pos uncompressed] at crashed
        have sameRead : sqfsPreadInto ctx.image ctx.sb.blockSize (sqfsBlockSizeGet entry.size)
            entry.start = .ok block := read
        rw [sameRead] at crashed
        contradiction
    · next compressed =>
        rcases Outcome.bind_eq_ok.mp read with ⟨stored, readAll, -⟩
        have sameRead : sqfsPreadAll ctx.image (sqfsBlockSizeGet entry.size) entry.start =
            .ok stored := readAll
        rw [if_neg compressed, sameRead, Outcome.ok_bind] at crashed
        exact sqfsCompressorDecompress_ne_fault _ _ _ _ crashed

private theorem WellFormedFile.not_missing (wellFormed : WellFormedFile ctx file)
    (positive : 0 < file.blockSize) (inside : pos < file.fileSize) : ¬ Missing ctx file pos := by
  rintro ⟨location, data, located, notHole, content, behind⟩
  rcases wellFormed.stored _ location located notHole with ⟨other, same, length⟩
  rw [content] at same
  cases same
  have left := (left_in_block wellFormed.counted positive inside).1
  omega

theorem WellFormedFile.fileSize_le (wellFormed : WellFormedFile ctx file)
    (positive : 0 < file.blockSize) : file.fileSize ≤ (fileContent ctx file).length := by
  rw [← wellFormed.zeroFilled]
  exact wellFormed.shortBlocks.fileSize_le positive

/-! ## The byte at a position -/

private theorem ShortBlockFile.byte_in_block (short : ShortBlockFile ctx file)
    (positive : 0 < file.blockSize) (inside : pos < file.fileSize)
    (inRange : pos / file.blockSize < file.blockCount) :
    (∃ byte, ImageByte ctx file pos byte ∧ (zeroFilledContent ctx file)[pos]? = some byte) ∨
      (Missing ctx file pos ∧ (zeroFilledContent ctx file)[pos]? = some 0) := by
  have left := (left_in_block short.counted positive inside).1
  have length := short.zeroFilledBlock_length _ inRange
  rcases @drop_of_block file pos _ (tailContent ctx file) short.zeroFilledBlock_length inRange
    (Nat.le_of_lt left) with ⟨rest, continued⟩
  have found : (zeroFilledContent ctx file)[pos]? =
      (zeroFilledBlock ctx file (pos / file.blockSize))[pos % file.blockSize]? := by
    rw [← Nat.add_zero pos, ← List.getElem?_drop, zeroFilledContent, Nat.add_zero, continued,
      List.getElem?_append_left (by rw [List.length_drop]; omega), List.getElem?_drop,
      Nat.add_zero]
  rcases sqfsFileBlockLocation_of_lt short.listed inRange with ⟨location, located⟩
  rw [found, zeroFilledBlock, blockContent, located]
  by_cases hole : location.size = 0
  · left
    simp only [if_pos hole, fillUp_of_length List.length_replicate,
      List.getElem?_replicate_of_lt left]
    exact ⟨0, .hole located hole, rfl⟩
  · rcases short.stored _ location located hole with ⟨data, content, -⟩
    simp only [if_neg hole, content, Outcome.toOption_ok, Option.getD_some]
    by_cases within : pos % file.blockSize < data.length
    · left
      have value := List.getElem?_eq_getElem within
      rw [fillUp, List.getElem?_append_left within]
      exact ⟨_, .stored located hole content value, value⟩
    · right
      rw [fillUp, List.getElem?_append_right (Nat.le_of_not_lt within),
        List.getElem?_replicate_of_lt (by omega)]
      exact ⟨⟨location, data, located, hole, content, Nat.le_of_not_lt within⟩, rfl⟩

/-- Every position in the file is behind the bytes of its block, or holds a byte of the image. -/
theorem ShortBlockFile.byte_at (short : ShortBlockFile ctx file) (positive : 0 < file.blockSize)
    (inside : pos < file.fileSize) :
    (∃ byte, ImageByte ctx file pos byte ∧ (zeroFilledContent ctx file)[pos]? = some byte) ∨
      (Missing ctx file pos ∧ (zeroFilledContent ctx file)[pos]? = some 0) := by
  by_cases inRange : pos / file.blockSize < file.blockCount
  · exact short.byte_in_block positive inside inRange
  · left
    have hasTail : sqfsFragmentIsNone file.fragIdx = false := by
      rw [← Bool.not_eq_true]
      intro none
      exact inRange (block_of_none short.counted positive none inside).1
    rcases tail_of_some short.counted hasTail (Nat.le_of_lt inside) (Nat.le_of_not_lt inRange) with
      ⟨atTail, left⟩
    rcases short.tail hasTail (by omega) with ⟨block, content, fits⟩
    have value := @List.getElem?_eq_getElem _ block
      (file.fragOffset + pos % file.blockSize) (by omega)
    have found : (zeroFilledContent ctx file)[pos]? =
        (tailContent ctx file)[pos % file.blockSize]? := by
      rw [← Nat.add_zero pos, ← List.getElem?_drop, zeroFilledContent, Nat.add_zero,
        drop_of_tail short.zeroFilledBlock_length hasTail atTail, List.getElem?_drop, Nat.add_zero]
    refine ⟨_, .tail hasTail (atTail.trans short.counted) content value, ?_⟩
    rw [found, tailContent, if_neg (by simp [hasTail]), content]
    simp only [Outcome.toOption_ok, Option.getD_some]
    rw [List.getElem?_take_of_lt (by omega), List.getElem?_drop, value]

theorem WellFormedFile.byte_at (wellFormed : WellFormedFile ctx file)
    (positive : 0 < file.blockSize) (inside : pos < file.fileSize) :
    ∃ byte, ImageByte ctx file pos byte ∧ (fileContent ctx file)[pos]? = some byte := by
  rw [← wellFormed.zeroFilled]
  exact (wellFormed.shortBlocks.byte_at positive inside).resolve_right fun missing =>
    wellFormed.not_missing positive inside missing.1

end Positions

/-! ## Requests -/

theorem calculateBlockLayout_lt (fileSize blockSize fragIdx : Nat) :
    (calculateBlockLayout fileSize blockSize fragIdx).1 < 2 ^ 32 := by
  rw [calculateBlockLayout]
  split
  · exact Nat.two_pow_pos 32
  · simp only
    split
    · exact Nat.mod_lt _ (Nat.two_pow_pos 32)
    · exact Nat.mod_lt _ (Nat.two_pow_pos 32)

theorem sqfsFileCtxInit_bounds {sb : SqfsSuperblock} {inode : SqfsInode} {file : SqfsFileCtx}
    (init : sqfsFileCtxInit sb inode = .ok file) :
    file.fileSize < 2 ^ 64 ∧ file.blockCount < 2 ^ 32 := by
  rcases sqfsFileCtxInit_fields init with ⟨-, fileSize, -, -, blockCount⟩
  have loaded : inode.get .fileFileSize < 256 ^ 8 := inode.members.load_lt 8 8
  rw [blockCount, fileSize]
  exact ⟨lt_of_lt_of_eq loaded (by norm_num), calculateBlockLayout_lt _ _ _⟩

section Reads

variable {ctx : SqfsCtx} {file : SqfsFileCtx} {offset : Nat} {progress : Progress}

theorem blockIndex_of_lt {pos : Nat} (posInRange : pos < 2 ^ 64)
    (idxInRange : pos / file.blockSize < 2 ^ 32) :
    u32 (u64 pos / file.blockSize) = pos / file.blockSize ∧
      u64 pos % file.blockSize = pos % file.blockSize := by
  rw [u64_of_lt posInRange, u32_of_lt idxInRange]
  exact ⟨rfl, rfl⟩

theorem requestSize_of_lt {size : Nat} (inside : offset < file.fileSize)
    (noWrap : offset + size < 2 ^ 64) :
    requestSize file offset size = min size (file.fileSize - offset) := by
  rw [requestSize, u64_of_lt noWrap]
  split <;> omega

theorem requestSize_le (file : SqfsFileCtx) (offset size : Nat) :
    requestSize file offset size ≤ size := by
  have wrapped : u64 (offset + size) ≤ offset + size := Nat.mod_le _ _
  rw [requestSize]
  split <;> omega

theorem le_requestSize (file : SqfsFileCtx) (offset size : Nat) :
    min size (file.fileSize - offset) ≤ requestSize file offset size := by
  rw [requestSize]
  split
  · exact Nat.min_le_right _ _
  · exact Nat.min_le_left _ _

theorem requestSize_of_wraps {size : Nat} (inside : offset < file.fileSize)
    (sizeInRange : file.fileSize < 2 ^ 64) (sizeFits : size < 2 ^ 64)
    (wraps : 2 ^ 64 ≤ offset + size) : requestSize file offset size = size := by
  have wrapped : ¬ file.fileSize < u64 (offset + size) := by
    unfold u64
    omega
  exact if_neg wrapped

end Reads

end SquashfsFuse
