import SquashfsFuse.Data.BlockLayout
import SquashfsFuse.Inode.Chunking

/-! The length of an inode, and the two places of the source that compute it. -/

namespace SquashfsFuse

/-! ## The length an inode declares -/

/-- The length of an inode of a type from its fields: the fixed part, and behind it a word
for each block of a file, or the target of a link. How many words the blocks of a file
count as is left open. -/
def lengthOfType (counted : Nat → Nat) (blockSize : Nat) (bytes : List UInt8) :
    InodeType → Option Nat
  | .dir => some 32
  | .ldir => some 40
  | .file => do
      let fragIdx ← loadLe 4 bytes 20
      let fileSize ← loadLe 4 bytes 28
      some (32 + 4 * counted (prescribedCount fileSize blockSize fragIdx))
  | .lfile => do
      let fileSize ← loadLe 8 bytes 24
      let fragIdx ← loadLe 4 bytes 44
      some (56 + 4 * counted (prescribedCount fileSize blockSize fragIdx))
  | .symlink => do
      let targetSize ← loadLe 4 bytes 20
      some (24 + targetSize)
  | .lsymlink => do
      let targetSize ← loadLe 4 bytes 20
      some (24 + targetSize + 4)
  | .blkdev | .chrdev => some 24
  | .lblkdev | .lchrdev => some 28
  | .fifo | .socket => some 20
  | .lfifo | .lsocket => some 24

/-- An inode of a type, of the given length from its own fields, starts with the bytes. -/
structure DeclaresInode (counted : Nat → Nat) (blockSize : Nat) (bytes : List UInt8)
    (type : InodeType) (length : Nat) : Prop where
  code : loadLe 2 bytes 0 = some type.code
  length : lengthOfType counted blockSize bytes type = some length

section Lengths

variable {counted : Nat → Nat} {blockSize length size : Nat} {bytes : List UInt8}
  {type : InodeType}

theorem lengthOfType_take (fits : type.fixedLength ≤ size) :
    lengthOfType counted blockSize (bytes.take size) type =
      lengthOfType counted blockSize bytes type := by
  cases type with
  | file | lfile | symlink | lsymlink =>
      rw [InodeType.fixedLength] at fits
      simp (disch := omega) only [lengthOfType, loadLe_take]
  | _ => rfl

theorem lengthOfType_isSome (long : type.fixedLength ≤ bytes.length) :
    ∃ length, lengthOfType counted blockSize bytes type = some length := by
  cases type with
  | file =>
      rw [InodeType.fixedLength] at long
      rcases @loadLe_of_le 4 20 bytes (by omega) with ⟨fragIdx, loadFrag⟩
      rcases @loadLe_of_le 4 28 bytes (by omega) with ⟨fileSize, loadSize⟩
      exact ⟨_, by rw [lengthOfType, loadFrag, loadSize]; rfl⟩
  | lfile =>
      rw [InodeType.fixedLength] at long
      rcases @loadLe_of_le 8 24 bytes (by omega) with ⟨fileSize, loadSize⟩
      rcases @loadLe_of_le 4 44 bytes (by omega) with ⟨fragIdx, loadFrag⟩
      exact ⟨_, by rw [lengthOfType, loadSize, loadFrag]; rfl⟩
  | symlink | lsymlink =>
      rw [InodeType.fixedLength] at long
      rcases @loadLe_of_le 4 20 bytes (by omega) with ⟨targetSize, load⟩
      exact ⟨_, by rw [lengthOfType, load]; rfl⟩
  | _ => exact ⟨_, rfl⟩

theorem fixedLength_le_of_lengthOfType
    (declared : lengthOfType counted blockSize bytes type = some length) :
    type.fixedLength ≤ length := by
  cases type with
  | file =>
      rcases Option.bind_eq_some_iff.mp declared with ⟨fragIdx, -, declared⟩
      rcases Option.bind_eq_some_iff.mp declared with ⟨fileSize, -, equal⟩
      cases equal
      exact Nat.le_add_right 32 _
  | lfile =>
      rcases Option.bind_eq_some_iff.mp declared with ⟨fileSize, -, declared⟩
      rcases Option.bind_eq_some_iff.mp declared with ⟨fragIdx, -, equal⟩
      cases equal
      exact Nat.le_add_right 56 _
  | symlink =>
      rcases Option.bind_eq_some_iff.mp declared with ⟨targetSize, -, equal⟩
      cases equal
      exact Nat.le_add_right 24 _
  | lsymlink =>
      rcases Option.bind_eq_some_iff.mp declared with ⟨targetSize, -, equal⟩
      cases equal
      rw [InodeType.fixedLength]
      omega
  | _ =>
      cases declared
      decide

private theorem lengthOfType_u32 (declared : lengthOfType id blockSize bytes type = some length)
    (small : length ≤ maxInodeSize) :
    lengthOfType u32 blockSize bytes type = some length := by
  rw [maxInodeSize] at small
  cases type with
  | file =>
      rcases Option.bind_eq_some_iff.mp declared with ⟨fragIdx, loadFrag, declared⟩
      rcases Option.bind_eq_some_iff.mp declared with ⟨fileSize, loadSize, equal⟩
      cases equal
      rw [id] at small
      have few : prescribedCount fileSize blockSize fragIdx < 2 ^ 32 := by omega
      rw [lengthOfType, loadFrag, loadSize]
      simp only [Option.bind_eq_bind, Option.bind_some, u32_of_lt few, id]
  | lfile =>
      rcases Option.bind_eq_some_iff.mp declared with ⟨fileSize, loadSize, declared⟩
      rcases Option.bind_eq_some_iff.mp declared with ⟨fragIdx, loadFrag, equal⟩
      cases equal
      rw [id] at small
      have few : prescribedCount fileSize blockSize fragIdx < 2 ^ 32 := by omega
      rw [lengthOfType, loadSize, loadFrag]
      simp only [Option.bind_eq_bind, Option.bind_some, u32_of_lt few, id]
  | _ => exact declared

theorem DeclaresInode.take (declared : DeclaresInode counted blockSize bytes type length)
    (fits : type.fixedLength ≤ size) :
    DeclaresInode counted blockSize (bytes.take size) type length where
  code := (loadLe_take 2 bytes 0 size
    (Nat.le_trans (by decide) (Nat.le_trans type.header_le fits))).trans declared.code
  length := (lengthOfType_take fits).trans declared.length

theorem DeclaresInode.of_take
    (declared : DeclaresInode counted blockSize (bytes.take size) type length)
    (fits : type.fixedLength ≤ size) : DeclaresInode counted blockSize bytes type length where
  code := (loadLe_take 2 bytes 0 size
    (Nat.le_trans (by decide) (Nat.le_trans type.header_le fits))).symm.trans declared.code
  length := (lengthOfType_take fits).symm.trans declared.length

end Lengths

/-! ## The parsers -/

section Parsers

variable {data : List UInt8} {blockSize address length : Nat} {type : InodeType}

/-- A word behind the array is read when the array is too short for the words. -/
theorem readBlockSizes_of_short {start count : Nat} (fixed : start ≤ data.length)
    (short : data.length < start + count * 4) (small : data.length < 2 ^ 32) :
    readBlockSizes data start count = .fault := by
  apply Outcome.mapM_eq_fault
  · intro i _ code
    rw [sqfsLe32ToCpu]
    cases loadLe 4 data (start + u32 (i * 4)) with
    | none =>
        intro equal
        cases equal
    | some word =>
        intro equal
        cases equal
  · have index : (data.length - start) / 4 < count := by omega
    have offset : u32 ((data.length - start) / 4 * 4) = (data.length - start) / 4 * 4 :=
      u32_of_lt (by omega)
    have behind : loadLe 4 data (start + (data.length - start) / 4 * 4) = none := by
      rw [loadLe, slice, if_neg (by omega), Option.map_none]
    exact ⟨_, List.mem_range.mpr index, by rw [sqfsLe32ToCpu, offset, behind]; rfl⟩

theorem copyTarget_of_le {targetSize : Nat} (fits : 24 + targetSize ≤ data.length)
    (small : targetSize < 2 ^ 32 - 1) :
    ∃ allocation, copyTarget data address targetSize = .ok allocation := by
  rcases Option.isSome_iff_exists.mp (slice_isSome.mpr fits) with ⟨target, sliced⟩
  have noWrap : u32 (targetSize + 1) = targetSize + 1 := u32_of_lt (by omega)
  rw [copyTarget, if_neg (by omega), sliced]
  exact ⟨_, rfl⟩

/-- A target that does not fit its array is copied from behind it. -/
theorem copyTarget_of_short {targetSize : Nat} (short : data.length < 24 + targetSize) :
    copyTarget data address targetSize = .fault := by
  unfold copyTarget
  split
  · rfl
  · rw [slice, if_neg (by omega)]
    rfl

theorem parseInodeFile_reads (positive : 0 < blockSize) (long : 32 ≤ data.length)
    (declared : lengthOfType u32 blockSize data .file = some length) (start : SqfsInode) :
    ∃ (count : Nat) (filled : List Nat → SqfsInode), length = 32 + count * 4 ∧
      parseInodeFile data blockSize start =
        readBlockSizes data 32 count >>= fun sizes => pure (filled sizes, length) := by
  rcases Option.bind_eq_some_iff.mp declared with ⟨fragIdx, loadFrag, declared⟩
  rcases Option.bind_eq_some_iff.mp declared with ⟨fileSize, loadSize, equal⟩
  cases equal
  have frag : sqfsLe32ToCpu data 20 = .ok fragIdx := Outcome.ofOption_eq_ok.mpr loadFrag
  have fileSizeRead : sqfsLe32ToCpu data 28 = .ok fileSize := Outcome.ofOption_eq_ok.mpr loadSize
  have count := @sqfsCalcBlockCount_eq_u32 fileSize blockSize fragIdx positive
  rcases @sqfsLe32ToCpu_of_le data 16 (by omega) with ⟨blocksStart, loadStart⟩
  rcases @sqfsLe32ToCpu_of_le data 24 (by omega) with ⟨blockOffset, loadOffset⟩
  rw [Nat.mul_comm 4]
  simp only [parseInodeFile, loadStart, frag, loadOffset, fileSizeRead, count, Outcome.ok_bind]
  exact ⟨_, _, rfl, rfl⟩

theorem parseInodeLfile_reads (positive : 0 < blockSize) (long : 56 ≤ data.length)
    (declared : lengthOfType u32 blockSize data .lfile = some length) (start : SqfsInode) :
    ∃ (count : Nat) (filled : List Nat → SqfsInode), length = 56 + count * 4 ∧
      parseInodeLfile data blockSize start =
        readBlockSizes data 56 count >>= fun sizes => pure (filled sizes, length) := by
  rcases Option.bind_eq_some_iff.mp declared with ⟨fileSize, loadSize, declared⟩
  rcases Option.bind_eq_some_iff.mp declared with ⟨fragIdx, loadFrag, equal⟩
  cases equal
  have frag : sqfsLe32ToCpu data 44 = .ok fragIdx := Outcome.ofOption_eq_ok.mpr loadFrag
  have fileSizeRead : sqfsLe64ToCpu data 24 = .ok fileSize := Outcome.ofOption_eq_ok.mpr loadSize
  have count := @sqfsCalcBlockCount_eq_u32 fileSize blockSize fragIdx positive
  rcases @sqfsLe64ToCpu_of_le data 16 (by omega) with ⟨blocksStart, loadStart⟩
  rcases @sqfsLe64ToCpu_of_le data 32 (by omega) with ⟨sparse, loadSparse⟩
  rcases @sqfsLe32ToCpu_of_le data 40 (by omega) with ⟨linkCount, loadLink⟩
  rcases @sqfsLe32ToCpu_of_le data 48 (by omega) with ⟨blockOffset, loadOffset⟩
  rcases @sqfsLe32ToCpu_of_le data 52 (by omega) with ⟨xattrIdx, loadXattr⟩
  rw [Nat.mul_comm 4]
  simp only [parseInodeLfile, loadStart, fileSizeRead, loadSparse, loadLink, frag, loadOffset,
    loadXattr, count, Outcome.ok_bind]
  exact ⟨_, _, rfl, rfl⟩

theorem parseInodeSymlink_reads (long : 24 ≤ data.length)
    (declared : lengthOfType u32 blockSize data .symlink = some length) (start : SqfsInode) :
    ∃ (targetSize : Nat) (filled : Allocation → SqfsInode), length = 24 + targetSize ∧
      parseInodeSymlink data address start =
        copyTarget data address targetSize >>= fun target => pure (filled target, length) := by
  rcases Option.bind_eq_some_iff.mp declared with ⟨targetSize, load, equal⟩
  cases equal
  have size : sqfsLe32ToCpu data 20 = .ok targetSize := Outcome.ofOption_eq_ok.mpr load
  rcases @sqfsLe32ToCpu_of_le data 16 (by omega) with ⟨linkCount, loadLink⟩
  simp only [parseInodeSymlink, loadLink, size, Outcome.ok_bind]
  exact ⟨_, _, rfl, rfl⟩

theorem parseInodeLsymlink_reads (long : 24 ≤ data.length)
    (declared : lengthOfType u32 blockSize data .lsymlink = some length) (start : SqfsInode) :
    ∃ (targetSize : Nat) (filled : Allocation → Nat → SqfsInode),
      length = 24 + targetSize + 4 ∧
      parseInodeLsymlink data address start =
        copyTarget data address targetSize >>= fun target =>
          sqfsLe32ToCpu data (24 + targetSize) >>= fun xattrIdx =>
            pure (filled target xattrIdx, length) := by
  rcases Option.bind_eq_some_iff.mp declared with ⟨targetSize, load, equal⟩
  cases equal
  have size : sqfsLe32ToCpu data 20 = .ok targetSize := Outcome.ofOption_eq_ok.mpr load
  rcases @sqfsLe32ToCpu_of_le data 16 (by omega) with ⟨linkCount, loadLink⟩
  simp only [parseInodeLsymlink, loadLink, size, Outcome.ok_bind]
  exact ⟨_, _, rfl, rfl⟩

private theorem parseInodeDev_exact {isExtended : Bool}
    (whole : data.length = if isExtended then 28 else 24) (start : SqfsInode) :
    ∃ inode, parseInodeDev data isExtended start = .ok (inode, data.length) := by
  cases isExtended with
  | true =>
      rw [if_pos rfl] at whole
      rcases @sqfsLe32ToCpu_of_le data 16 (by omega) with ⟨linkCount, loadLink⟩
      rcases @sqfsLe32ToCpu_of_le data 20 (by omega) with ⟨devNum, loadDev⟩
      rcases @sqfsLe32ToCpu_of_le data 24 (by omega) with ⟨xattrIdx, loadXattr⟩
      rw [parseInodeDev, loadLink, loadDev, whole]
      simp only [Outcome.ok_bind, if_true, loadXattr]
      exact ⟨_, rfl⟩
  | false =>
      rw [if_neg Bool.false_ne_true] at whole
      rcases @sqfsLe32ToCpu_of_le data 16 (by omega) with ⟨linkCount, loadLink⟩
      rcases @sqfsLe32ToCpu_of_le data 20 (by omega) with ⟨devNum, loadDev⟩
      rw [parseInodeDev, loadLink, loadDev, whole]
      exact ⟨_, rfl⟩

private theorem parseInodeIpc_exact {isExtended : Bool}
    (whole : data.length = if isExtended then 24 else 20) (start : SqfsInode) :
    ∃ inode, parseInodeIpc data isExtended start = .ok (inode, data.length) := by
  cases isExtended with
  | true =>
      rw [if_pos rfl] at whole
      rcases @sqfsLe32ToCpu_of_le data 16 (by omega) with ⟨linkCount, loadLink⟩
      rcases @sqfsLe32ToCpu_of_le data 20 (by omega) with ⟨xattrIdx, loadXattr⟩
      rw [parseInodeIpc, loadLink, whole]
      simp only [Outcome.ok_bind, if_true, loadXattr]
      exact ⟨_, rfl⟩
  | false =>
      rw [if_neg Bool.false_ne_true] at whole
      rcases @sqfsLe32ToCpu_of_le data 16 (by omega) with ⟨linkCount, loadLink⟩
      rw [parseInodeIpc, loadLink, whole]
      exact ⟨_, rfl⟩

private theorem parseInodeDir_of_le (long : 32 ≤ data.length) (start : SqfsInode) :
    ∃ inode, parseInodeDir data start = .ok inode := by
  rcases @sqfsLe32ToCpu_of_le data 16 (by omega) with ⟨blockIdx, loadBlock⟩
  rcases @sqfsLe32ToCpu_of_le data 20 (by omega) with ⟨linkCount, loadLink⟩
  rcases @sqfsLe16ToCpu_of_le data 24 (by omega) with ⟨fileSize, loadSize⟩
  rcases @sqfsLe16ToCpu_of_le data 26 (by omega) with ⟨blockOffset, loadOffset⟩
  rcases @sqfsLe32ToCpu_of_le data 28 (by omega) with ⟨parentInode, loadParent⟩
  rw [parseInodeDir, loadBlock, loadLink, loadSize, loadOffset, loadParent]
  exact ⟨_, rfl⟩

private theorem parseInodeLdir_of_le (long : 40 ≤ data.length) (start : SqfsInode) :
    ∃ inode, parseInodeLdir data start = .ok inode := by
  rcases @sqfsLe32ToCpu_of_le data 16 (by omega) with ⟨linkCount, loadLink⟩
  rcases @sqfsLe32ToCpu_of_le data 20 (by omega) with ⟨fileSize, loadSize⟩
  rcases @sqfsLe32ToCpu_of_le data 24 (by omega) with ⟨blockIdx, loadBlock⟩
  rcases @sqfsLe32ToCpu_of_le data 28 (by omega) with ⟨parentInode, loadParent⟩
  rcases @sqfsLe16ToCpu_of_le data 32 (by omega) with ⟨indexCount, loadIndex⟩
  rcases @sqfsLe16ToCpu_of_le data 34 (by omega) with ⟨blockOffset, loadOffset⟩
  rcases @sqfsLe32ToCpu_of_le data 36 (by omega) with ⟨xattrIdx, loadXattr⟩
  rw [parseInodeLdir, loadLink, loadSize, loadBlock, loadParent, loadIndex, loadOffset,
    loadXattr]
  exact ⟨_, rfl⟩

/-- A parser finds what it looks for in an array of the length of the inode, and says that
it consumed all of it; the parsers of directories say nothing. -/
theorem parseInodeOfType_exact (positive : 0 < blockSize)
    (declared : lengthOfType u32 blockSize data type = some length)
    (whole : data.length = length) (small : length ≤ maxInodeSize) (start : SqfsInode) :
    ∃ inode, parseInodeOfType type data blockSize address start =
      .ok (inode, if sqfsInodeIsDir type then 0 else length) := by
  have fixed := fixedLength_le_of_lengthOfType declared
  rw [maxInodeSize] at small
  cases type with
  | file =>
      rw [InodeType.fixedLength] at fixed
      rcases parseInodeFile_reads positive (by omega) declared start with
        ⟨count, filled, total, reads⟩
      rcases @readBlockSizes_of_le data 32 count (by omega) with ⟨sizes, read⟩
      exact ⟨filled sizes, by rw [parseInodeOfType, reads, read]; rfl⟩
  | lfile =>
      rw [InodeType.fixedLength] at fixed
      rcases parseInodeLfile_reads positive (by omega) declared start with
        ⟨count, filled, total, reads⟩
      rcases @readBlockSizes_of_le data 56 count (by omega) with ⟨sizes, read⟩
      exact ⟨filled sizes, by rw [parseInodeOfType, reads, read]; rfl⟩
  | symlink =>
      rw [InodeType.fixedLength] at fixed
      rcases @parseInodeSymlink_reads data blockSize address length (by omega) declared start
        with ⟨targetSize, filled, total, reads⟩
      rcases @copyTarget_of_le data address targetSize (by omega) (by omega) with
        ⟨target, copied⟩
      exact ⟨filled target, by rw [parseInodeOfType, reads, copied]; rfl⟩
  | lsymlink =>
      rw [InodeType.fixedLength] at fixed
      rcases @parseInodeLsymlink_reads data blockSize address length (by omega) declared start
        with ⟨targetSize, filled, total, reads⟩
      rcases @copyTarget_of_le data address targetSize (by omega) (by omega) with
        ⟨target, copied⟩
      rcases @sqfsLe32ToCpu_of_le data (24 + targetSize) (by omega) with ⟨xattrIdx, load⟩
      exact ⟨filled target xattrIdx, by
        rw [parseInodeOfType, reads, copied, Outcome.ok_bind, load]
        rfl⟩
  | dir =>
      cases declared
      rcases parseInodeDir_of_le (Nat.le_of_eq whole.symm) start with ⟨inode, parsed⟩
      exact ⟨inode, by rw [parseInodeOfType, if_neg (by omega), parsed]; rfl⟩
  | ldir =>
      cases declared
      rcases parseInodeLdir_of_le (Nat.le_of_eq whole.symm) start with ⟨inode, parsed⟩
      exact ⟨inode, by rw [parseInodeOfType, if_neg (by omega), parsed]; rfl⟩
  | blkdev | chrdev =>
      cases declared
      exact whole ▸ @parseInodeDev_exact data false whole start
  | lblkdev | lchrdev =>
      cases declared
      exact whole ▸ @parseInodeDev_exact data true whole start
  | fifo | socket =>
      cases declared
      exact whole ▸ @parseInodeIpc_exact data false whole start
  | lfifo | lsocket =>
      cases declared
      exact whole ▸ @parseInodeIpc_exact data true whole start

/-- In a full buffer that is too short for the words or the target, a parser looks behind its
end. -/
theorem parseInodeOfType_short (positive : 0 < blockSize)
    (declared : lengthOfType u32 blockSize data type = some length)
    (full : data.length = maxInodeSize) (long : maxInodeSize < length) (start : SqfsInode) :
    parseInodeOfType type data blockSize address start = .fault := by
  rw [maxInodeSize] at full long
  cases type with
  | file =>
      rcases parseInodeFile_reads positive (by omega) declared start with
        ⟨count, filled, total, reads⟩
      have read := @readBlockSizes_of_short data 32 count (by omega) (by omega) (by omega)
      rw [parseInodeOfType, reads, read, Outcome.fault_bind]
  | lfile =>
      rcases parseInodeLfile_reads positive (by omega) declared start with
        ⟨count, filled, total, reads⟩
      have read := @readBlockSizes_of_short data 56 count (by omega) (by omega) (by omega)
      rw [parseInodeOfType, reads, read, Outcome.fault_bind]
  | symlink =>
      rcases @parseInodeSymlink_reads data blockSize address length (by omega) declared start
        with ⟨targetSize, filled, total, reads⟩
      have copied := @copyTarget_of_short data address targetSize (by omega)
      rw [parseInodeOfType, reads, copied, Outcome.fault_bind]
  | lsymlink =>
      rcases @parseInodeLsymlink_reads data blockSize address length (by omega) declared start
        with ⟨targetSize, filled, total, reads⟩
      rw [parseInodeOfType, reads]
      by_cases fits : 24 + targetSize ≤ data.length
      · -- Only the attribute index lies behind the buffer.
        rcases @copyTarget_of_le data address targetSize fits (by omega) with ⟨target, copied⟩
        have behind : sqfsLe32ToCpu data (24 + targetSize) = .fault := by
          rw [sqfsLe32ToCpu, loadLe, slice, if_neg (by omega)]
          rfl
        rw [copied, Outcome.ok_bind, behind, Outcome.fault_bind]
      · have copied := @copyTarget_of_short data address targetSize (by omega)
        rw [copied, Outcome.fault_bind]
  | _ =>
      cases declared
      omega

private theorem parseInode_exact (positive : 0 < blockSize)
    (declared : DeclaresInode u32 blockSize data type length)
    (whole : data.length = length) (small : length ≤ maxInodeSize) (start : SqfsInode) :
    ∃ inode, parseInode data blockSize address start = .ok inode := by
  have fixed := fixedLength_le_of_lengthOfType declared.length
  have header := type.header_le
  rcases @parseInodeHeader_of_le data type.code (Outcome.ofOption_eq_ok.mpr declared.code)
    (by omega) with ⟨parsedHeader, headerParsed, headerType⟩
  rw [parseInode, if_neg (by omega), headerParsed, Outcome.ok_bind, headerType,
    InodeType.ofCode_code]
  dsimp only
  rcases @parseInodeOfType_exact data blockSize address length type positive declared.length whole
    small _ with ⟨inode, parsed⟩
  rw [parsed, Outcome.ok_bind]
  have consumed : ¬ (0 < (if sqfsInodeIsDir type then 0 else length) ∧
      data.length < if sqfsInodeIsDir type then 0 else length) := by
    split <;> omega
  exact ⟨inode, if_neg consumed⟩

private theorem parseInode_short (positive : 0 < blockSize)
    (declared : DeclaresInode u32 blockSize data type length)
    (full : data.length = maxInodeSize) (long : maxInodeSize < length) (start : SqfsInode) :
    parseInode data blockSize address start = .fault := by
  have wide : 16 ≤ data.length := by
    rw [full]
    decide
  rcases @parseInodeHeader_of_le data type.code (Outcome.ofOption_eq_ok.mpr declared.code) wide with
    ⟨parsedHeader, headerParsed, headerType⟩
  rw [parseInode, if_neg (by omega), headerParsed, Outcome.ok_bind, headerType,
    InodeType.ofCode_code]
  dsimp only
  rw [parseInodeOfType_short positive declared.length full long, Outcome.fault_bind]

end Parsers

/-! ## Inodes at a reference -/

/-- The unpacked metadata block that a reference into the inode table points to. -/
def blockAtRef (ctx : SqfsCtx) (ref : Nat) : Sqfs (List UInt8) :=
  sqfsMetaReadBlock ctx.image ctx.comp (u64 (ctx.sb.disk.inodeTable + sqfsMetaRefPos ref))

section References

variable {ctx : SqfsCtx} {ref address length : Nat} {block beyond : List UInt8}
  {type : InodeType}

theorem readInodeMetadata_at (read : blockAtRef ctx ref = .ok block) (size : Nat) :
    readInodeMetadata ctx ref size =
      if block.length < sqfsMetaRefOffset ref + size then .err .badInode
      else .ok ((block.drop (sqfsMetaRefOffset ref)).take size) := by
  rw [blockAtRef] at read
  rw [readInodeMetadata]
  simp only [read, Outcome.ok_bind]
  rfl

theorem sqfsInodeGetByRef_of_unread {code : SqfsError}
    (unread : blockAtRef ctx ref = .err code) :
    sqfsInodeGetByRef ctx ref address = .err code := by
  have failed : readInodeMetadata ctx ref 16 = .err code := by
    rw [blockAtRef] at unread
    rw [readInodeMetadata]
    simp only [unread, Outcome.err_bind]
  rw [sqfsInodeGetByRef, failed, Outcome.err_bind]

theorem take_drop_append {offset size : Nat} (fits : offset + size ≤ block.length) :
    ((block ++ beyond).drop offset).take size = (block.drop offset).take size := by
  rw [List.drop_append_of_le_length (by omega),
    List.take_append_of_le_length (by rw [List.length_drop]; omega)]

private theorem inodeSizeByRef_at (read : blockAtRef ctx ref = .ok block)
    (started : sqfsMetaRefOffset ref + 16 ≤ block.length)
    (declared : lengthOfType u32 ctx.sb.blockSize
      ((block ++ beyond).drop (sqfsMetaRefOffset ref)) type = some length) :
    inodeSizeByRef ctx ref type =
      if block.length < sqfsMetaRefOffset ref + type.fixedLength then .err .badInode
      else .ok length := by
  have part := readInodeMetadata_at read type.fixedLength
  by_cases crosses : block.length < sqfsMetaRefOffset ref + type.fixedLength
  · rw [if_pos crosses] at part ⊢
    cases type with
    | file | lfile | symlink | lsymlink =>
        rw [InodeType.fixedLength] at part
        rw [inodeSizeByRef, part, Outcome.err_bind]
    | _ =>
        simp only [InodeType.fixedLength] at crosses
        omega
  · rw [if_neg crosses] at part ⊢
    rw [← lengthOfType_take (Nat.le_refl type.fixedLength),
      take_drop_append (by omega)] at declared
    have count := fun fileSize fragIdx =>
      @sqfsCalcBlockCount_eq_u32 fileSize ctx.sb.blockSize fragIdx ctx.sb.blockSize_pos
    cases type with
    | file =>
        rw [InodeType.fixedLength] at part declared
        rcases Option.bind_eq_some_iff.mp declared with ⟨fragIdx, loadFrag, declared⟩
        rcases Option.bind_eq_some_iff.mp declared with ⟨fileSize, loadSize, equal⟩
        cases equal
        rw [inodeSizeByRef, part, Outcome.ok_bind, sqfsLe32ToCpu, sqfsLe32ToCpu, loadSize,
          loadFrag]
        simp only [Outcome.ofOption_some, Outcome.ok_bind, count, Outcome.pure_eq,
          Nat.mul_comm 4]
    | lfile =>
        rw [InodeType.fixedLength] at part declared
        rcases Option.bind_eq_some_iff.mp declared with ⟨fileSize, loadSize, declared⟩
        rcases Option.bind_eq_some_iff.mp declared with ⟨fragIdx, loadFrag, equal⟩
        cases equal
        rw [inodeSizeByRef, part, Outcome.ok_bind, sqfsLe64ToCpu, sqfsLe32ToCpu, loadSize,
          loadFrag]
        simp only [Outcome.ofOption_some, Outcome.ok_bind, count, Outcome.pure_eq,
          Nat.mul_comm 4]
    | symlink | lsymlink =>
        rw [InodeType.fixedLength] at part declared
        rcases Option.bind_eq_some_iff.mp declared with ⟨targetSize, load, equal⟩
        cases equal
        rw [inodeSizeByRef, part, Outcome.ok_bind, sqfsLe32ToCpu, load]
        rfl
    | _ =>
        cases declared
        rfl

theorem sqfsInodeGetByRef_at (read : blockAtRef ctx ref = .ok block)
    (declared : DeclaresInode u32 ctx.sb.blockSize
      ((block ++ beyond).drop (sqfsMetaRefOffset ref)) type length) :
    sqfsInodeGetByRef ctx ref address =
      if block.length < sqfsMetaRefOffset ref + min length maxInodeSize then .err .badInode
      else parseInode ((block.drop (sqfsMetaRefOffset ref)).take (min length maxInodeSize))
        ctx.sb.blockSize address .calloc := by
  have fixed := fixedLength_le_of_lengthOfType declared.length
  have behind := type.header_le
  have part := readInodeMetadata_at read
  have fixedSmall : type.fixedLength ≤ maxInodeSize := by
    cases type <;> decide
  rw [sqfsInodeGetByRef, part 16]
  by_cases started : block.length < sqfsMetaRefOffset ref + 16
  · rw [if_pos started, Outcome.err_bind, if_pos (by omega)]
  rw [if_neg started, Outcome.ok_bind]
  have code := declared.code
  rw [← loadLe_take 2 _ 0 16 (by decide), take_drop_append (by omega)] at code
  rcases parseInodeHeader_of_le (Outcome.ofOption_eq_ok.mpr code)
    (by rw [List.length_take, List.length_drop]; omega) with ⟨header, parsed, headerType⟩
  rw [parsed, Outcome.ok_bind, headerType, InodeType.ofCode_code]
  dsimp only
  rw [inodeSizeByRef_at read (by omega) declared.length]
  by_cases crosses : block.length < sqfsMetaRefOffset ref + type.fixedLength
  · rw [if_pos crosses, Outcome.err_bind, if_pos (by omega)]
  rw [if_neg crosses, Outcome.ok_bind, part]
  by_cases cut : block.length < sqfsMetaRefOffset ref + min length maxInodeSize
  · rw [if_pos cut, if_pos cut, Outcome.err_bind]
  · rw [if_neg cut, if_neg cut, Outcome.ok_bind]

end References

/-- The length computed before the inode is read is the length the parser consumes. -/
structure LengthsAgree (ctx : SqfsCtx) (ref address : Nat) (block : List UInt8)
    (type : InodeType) (length : Nat) : Prop where
  succeeds : (∃ inode, sqfsInodeGetByRef ctx ref address = .ok inode) ↔
    sqfsMetaRefOffset ref + length ≤ block.length
  computed : sqfsMetaRefOffset ref + length ≤ block.length →
    inodeSizeByRef ctx ref type = .ok length
  consumed : sqfsMetaRefOffset ref + length ≤ block.length →
    ∃ data, readInodeMetadata ctx ref length = .ok data ∧ ∀ start, ∃ inode,
      parseInodeOfType type data ctx.sb.blockSize address start =
        .ok (inode, if sqfsInodeIsDir type then 0 else length)

/-- An inode that is no longer than the buffer is read exactly if the block has all of it,
and the parser then consumes the length computed for it. -/
theorem inodeLengths_agree (ctx : SqfsCtx) (ref address : Nat) (block beyond : List UInt8)
    (type : InodeType) (length : Nat) (read : blockAtRef ctx ref = .ok block)
    (starts : DeclaresInode id ctx.sb.blockSize
      ((block ++ beyond).drop (sqfsMetaRefOffset ref)) type length)
    (small : length ≤ maxInodeSize) : LengthsAgree ctx ref address block type length := by
  have declared : DeclaresInode u32 ctx.sb.blockSize
      ((block ++ beyond).drop (sqfsMetaRefOffset ref)) type length :=
    ⟨starts.code, lengthOfType_u32 starts.length small⟩
  have fixed := fixedLength_le_of_lengthOfType declared.length
  have header := type.header_le
  have got := @sqfsInodeGetByRef_at ctx ref address length block beyond type read declared
  rw [Nat.min_eq_left small] at got
  -- The bytes of the inode, when the block has them all.
  have whole (fits : sqfsMetaRefOffset ref + length ≤ block.length) :
      ((block.drop (sqfsMetaRefOffset ref)).take length).length = length ∧
      DeclaresInode u32 ctx.sb.blockSize ((block.drop (sqfsMetaRefOffset ref)).take length)
        type length := by
    have taken := declared.take fixed
    rw [take_drop_append fits] at taken
    refine ⟨?_, taken⟩
    rw [List.length_take, List.length_drop]
    omega
  constructor
  · constructor
    · rintro ⟨inode, succeeded⟩
      rw [got] at succeeded
      split at succeeded
      · cases succeeded
      · omega
    · intro fits
      rw [got, if_neg (by omega)]
      exact parseInode_exact ctx.sb.blockSize_pos (whole fits).2 (whole fits).1 small _
  · intro fits
    rw [inodeSizeByRef_at read (by omega) declared.length, if_neg (by omega)]
  · intro fits
    refine ⟨_, (readInodeMetadata_at read length).trans (if_neg (by omega)), fun start => ?_⟩
    exact parseInodeOfType_exact ctx.sb.blockSize_pos (whole fits).2.length (whole fits).1 small
      start

/-- The pipe of a table of one stored block. -/
theorem inodeLengths_agree_pipe :
    LengthsAgree
      (.onBytes ([0x14, 0x80] ++ encodeInode ⟨0o644, 0, 0, 0, 1⟩ (.fifo 1 : DiskBody 4096))
        (by decide))
      0 0 (encodeInode ⟨0o644, 0, 0, 0, 1⟩ (.fifo 1 : DiskBody 4096)) .fifo 20 :=
  inodeLengths_agree _ 0 0 _ [] .fifo 20 (by decide +kernel)
    ⟨by decide +kernel, by decide +kernel⟩ (by decide)

/-! ## Reads behind the buffer -/

/-- Serving a reference never looks behind the bytes that were read, and an inode that does
not fit its block is refused. -/
structure ParsesInside (ctx : SqfsCtx) (ref address : Nat) : Prop where
  inside : (sqfsInodeGetByRef ctx ref address).Defined
  refused : ∀ (block beyond : List UInt8) (type : InodeType) (length : Nat),
    blockAtRef ctx ref = .ok block →
    DeclaresInode u32 ctx.sb.blockSize ((block ++ beyond).drop (sqfsMetaRefOffset ref)) type
      length →
    block.length < sqfsMetaRefOffset ref + length →
    ∃ code, sqfsInodeGetByRef ctx ref address = .err code

/-- The inode at a reference begins a block as large as the buffer, and its fields declare
it to be longer. -/
structure Overlong (ctx : SqfsCtx) (ref : Nat) (block : List UInt8) (type : InodeType)
    (length : Nat) : Prop where
  read : blockAtRef ctx ref = .ok block
  first : sqfsMetaRefOffset ref = 0
  full : block.length = maxInodeSize
  declared : DeclaresInode u32 ctx.sb.blockSize block type length
  long : maxInodeSize < length

section Bounds

variable {ctx : SqfsCtx} {ref address length : Nat} {block beyond : List UInt8}
  {type : InodeType}

theorem Overlong.faults (overlong : Overlong ctx ref block type length) :
    sqfsInodeGetByRef ctx ref address = .fault := by
  have declared := overlong.declared
  have alone : block = (block ++ []).drop (sqfsMetaRefOffset ref) := by
    rw [overlong.first, List.append_nil, List.drop_zero]
  rw [alone] at declared
  rw [sqfsInodeGetByRef_at overlong.read declared, Nat.min_eq_right (Nat.le_of_lt overlong.long),
    overlong.first, overlong.full, if_neg (by omega), List.drop_zero,
    List.take_of_length_le (Nat.le_of_eq overlong.full)]
  exact parseInode_short ctx.sb.blockSize_pos overlong.declared overlong.full overlong.long _

theorem sqfsInodeGetByRef_served (read : blockAtRef ctx ref = .ok block)
    (declared : DeclaresInode u32 ctx.sb.blockSize
      ((block ++ beyond).drop (sqfsMetaRefOffset ref)) type length) :
    sqfsInodeGetByRef ctx ref address = .err .badInode ∨
      (sqfsMetaRefOffset ref + length ≤ block.length ∧
        ∃ inode, sqfsInodeGetByRef ctx ref address = .ok inode) ∨
      Overlong ctx ref block type length := by
  have small := sqfsMetaReadBlock_length read
  rw [sqfsMetaBlockSize] at small
  have got := @sqfsInodeGetByRef_at ctx ref address length block beyond type read declared
  by_cases cut : block.length < sqfsMetaRefOffset ref + min length maxInodeSize
  · exact .inl (got.trans (if_pos cut))
  rw [if_neg cut] at got
  rw [maxInodeSize] at cut got
  by_cases fits : length ≤ 8192
  · rw [Nat.min_eq_left fits] at got cut
    have taken := declared.take (fixedLength_le_of_lengthOfType declared.length)
    rw [take_drop_append (by omega)] at taken
    have whole : ((block.drop (sqfsMetaRefOffset ref)).take length).length = length := by
      rw [List.length_take, List.length_drop]
      omega
    refine .inr (.inl ⟨by omega, ?_⟩)
    rw [got]
    exact parseInode_exact ctx.sb.blockSize_pos taken whole fits _
  · have first : sqfsMetaRefOffset ref = 0 := by omega
    have full : block.length = 8192 := by omega
    have fixed : type.fixedLength ≤ 8192 := by
      cases type <;> decide
    refine .inr (.inr ⟨read, first, full, ?_, Nat.not_le.mp fits⟩)
    have taken := declared.take fixed
    rw [take_drop_append (by omega)] at taken
    rw [first, List.drop_zero] at taken
    exact taken.of_take fixed

/-- A read that is not refused finds an inode of a type. It may go on behind the block; its
fields there do not matter. -/
theorem exists_declared (address : Nat) (read : blockAtRef ctx ref = .ok block) :
    sqfsInodeGetByRef ctx ref address = .err .badInode ∨
      ∃ beyond type length, DeclaresInode u32 ctx.sb.blockSize
        ((block ++ beyond).drop (sqfsMetaRefOffset ref)) type length := by
  let beyond := List.replicate (sqfsMetaRefOffset ref + 56) (0 : UInt8)
  have long : 56 ≤ ((block ++ beyond).drop (sqfsMetaRefOffset ref)).length := by
    rw [List.length_drop, List.length_append, List.length_replicate]
    omega
  rcases @loadLe_of_le 2 0 ((block ++ beyond).drop (sqfsMetaRefOffset ref)) (by omega) with
    ⟨code, load⟩
  cases known : InodeType.ofCode code with
  | none =>
      left
      rw [sqfsInodeGetByRef, readInodeMetadata_at read]
      split
      · rfl
      · next started =>
          rw [← loadLe_take 2 _ 0 16 (by decide), take_drop_append (by omega)] at load
          rcases parseInodeHeader_of_le (Outcome.ofOption_eq_ok.mpr load)
            (by rw [List.length_take, List.length_drop]; omega) with
            ⟨header, parsed, headerType⟩
          rw [Outcome.ok_bind, parsed, Outcome.ok_bind, headerType, known]
  | some type =>
      right
      have fixed : type.fixedLength ≤ 56 := by
        cases type <;> decide
      rcases @lengthOfType_isSome u32 ctx.sb.blockSize _ type (Nat.le_trans fixed long) with
        ⟨length, declared⟩
      exact ⟨beyond, type, length, InodeType.code_of_ofCode known ▸ load, declared⟩

/-- Serving a reference looks behind the buffer only for inodes that are longer than it. -/
theorem sqfsInodeGetByRef_defined
    (never : ∀ block type length, ¬ Overlong ctx ref block type length) :
    (sqfsInodeGetByRef ctx ref address).Defined := by
  cases read : blockAtRef ctx ref with
  | fault => exact absurd read (sqfsMetaReadBlock_defined _ _ _)
  | err code => exact sqfsInodeGetByRef_of_unread read ▸ Outcome.defined_err code
  | ok block =>
      rcases exists_declared address read with failed | ⟨beyond, type, length, declared⟩
      · exact failed ▸ Outcome.defined_err _
      rcases @sqfsInodeGetByRef_served ctx ref address length block beyond type read declared
        with failed | ⟨-, inode, served⟩ | overlong
      · exact failed ▸ Outcome.defined_err _
      · exact served ▸ Outcome.defined_ok _
      · exact absurd overlong (never block type length)

end Bounds

/-- The parser stays inside the bytes read exactly if the inode does not fill the buffer and
go on. -/
theorem parsesInside_iff (ctx : SqfsCtx) (ref address : Nat) :
    ParsesInside ctx ref address ↔
      ∀ block type length, ¬ Overlong ctx ref block type length := by
  constructor
  · intro inside block type length overlong
    exact inside.inside overlong.faults
  · intro never
    refine ⟨sqfsInodeGetByRef_defined never, ?_⟩
    intro block beyond type length read declared outside
    rcases @sqfsInodeGetByRef_served ctx ref address length block beyond type read declared with
      failed | ⟨fits, -⟩ | overlong
    · exact ⟨_, failed⟩
    · omega
    · exact absurd overlong (never block type length)

/-- A link whose target is one byte longer than the buffer has room for, at the start of a
full block. -/
theorem parsesInside_fails_overlong :
    ¬ ∀ (ctx : SqfsCtx) (ref address : Nat), ParsesInside ctx ref address := by
  intro claim
  let link := leBytes 16 3 ++ (leBytes 4 1 ++ leBytes 4 8169)
  have ⟨zeros, zerosLength⟩ : ∃ zeros : List UInt8, zeros.length = 8168 :=
    ⟨List.replicate 8168 0, List.length_replicate⟩
  let content := link ++ zeros
  have linkLength : link.length = 24 := by
    rw [List.length_append, List.length_append, leBytes_length, leBytes_length, leBytes_length]
  have full : content.length = 8192 := by
    rw [List.length_append, linkLength, zerosLength]
  let bytes := leBytes 2 (2 ^ 15 + content.length) ++ content
  have small : bytes.length < 2 ^ 63 := by
    rw [List.length_append, full, leBytes_length]
    decide
  let ctx := SqfsCtx.onBytes bytes small
  have stored : ctx.image.bytes =
      [] ++ (leBytes 2 (2 ^ 15 + content.length) ++ (content ++ [])) := by
    rw [List.append_nil]
    rfl
  have valid : 0 < content.length ∧ content.length ≤ sqfsMetaBlockSize := by
    rw [full]
    decide
  let block := MetaBlock.ofStored ctx.image ctx.comp [] content [] stored valid.1 valid.2
  have declared : DeclaresInode u32 ctx.sb.blockSize content .symlink 8193 := by
    have alone : DeclaresInode u32 4096 link .symlink 8193 :=
      ⟨by decide +kernel, by decide +kernel⟩
    constructor
    · exact (loadLe_append_of_fits 2 link zeros 0 (by decide)).trans alone.code
    · have taken : content.take 24 = link := List.take_left' linkLength
      rw [← taken] at alone
      exact (alone.of_take (by decide)).length
  have overlong : Overlong ctx 0 content .symlink 8193 := {
    read := block.sqfsMetaReadBlock (MetaBlock.ofStored_inPlace ..)
    first := rfl
    full
    declared
    long := by decide }
  exact (claim ctx 0 0).inside overlong.faults

end SquashfsFuse
