import SquashfsFuse.Data.BlockLayout
import SquashfsFuse.Fuse.FuseMain

/-! Which superblocks are accepted, and the divisions by the block size. -/

namespace SquashfsFuse

/-! ## The loop of `validate_block_size` -/

/-- The loop that counts the binary logarithm of the block size: what is left of the
size, and the halvings so far in 16 bits. -/
def computedLogPass (state : Nat × Nat) : Pass (Nat × Nat) Nat :=
  if 1 < state.1 then
    .again (state.1 >>> 1, u16 (state.2 + 1))
  else
    .leave state.2

/-- `validate_block_size`. The loop takes fewer passes than the block size. -/
def validateBlockSize (blockSize blockLog : Nat) : Sqfs Unit :=
  if blockSize = 0 ∨ blockSize &&& (blockSize - 1) ≠ 0 then
    .err .corrupt
  else if blockSize < 4096 ∨ 1048576 < blockSize then
    .err .corrupt
  else do
    let computedLog ← Outcome.ofOption (Pass.iterate computedLogPass blockSize (blockSize, 0))
    if computedLog ≠ blockLog then
      .err .corrupt
    else
      pure ()

private theorem computedLogPass_returns (temp count : Nat) (fits : count + temp.log2 < 2 ^ 16) :
    Pass.Returns computedLogPass (temp, count) (count + temp.log2) := by
  induction temp using Nat.strongRecOn generalizing count with
  | _ temp induction =>
      by_cases halves : 1 < temp
      · have log : temp.log2 = (temp / 2).log2 + 1 := by
          rw [Nat.log2_def, if_pos (by omega)]
        have counted : u16 (count + 1) = count + 1 := u16_of_lt (by omega)
        have again : computedLogPass (temp, count) = .again (temp / 2, count + 1) := by
          rw [computedLogPass, if_pos halves, counted, Nat.shiftRight_eq_div_pow, Nat.pow_one]
        have rest := induction (temp / 2) (by omega) (count + 1) (by omega)
        have sum : count + temp.log2 = count + 1 + (temp / 2).log2 := by omega
        rw [sum]
        exact .of_again again rest
      · have small : temp.log2 = 0 := by
          rw [Nat.log2_def, if_neg (by omega)]
        rw [small]
        exact .of_leave (if_neg halves)

private theorem computedLogPass_isSome {temp fuel : Nat} (count : Nat) (positive : 0 < temp)
    (enough : temp ≤ fuel) : (Pass.iterate computedLogPass fuel (temp, count)).isSome := by
  have decreases : ∀ state next, computedLogPass state = .again next →
      next.1 - 1 < state.1 - 1 := by
    intro state next repeated
    rw [computedLogPass] at repeated
    split at repeated
    · next halves =>
        cases repeated
        rw [Nat.shiftRight_eq_div_pow]
        omega
    · cases repeated
  have fewer : temp - 1 < fuel := by omega
  exact Pass.iterate_isSome_of_variant (fun state => state.1 - 1) decreases fewer

private theorem iterate_computedLogPass {blockSize : Nat} (positive : 0 < blockSize)
    (small : blockSize ≤ 1048576) :
    Pass.iterate computedLogPass blockSize (blockSize, 0) = some blockSize.log2 := by
  have log : blockSize.log2 < 2 ^ 16 := by
    have below : blockSize < 2 ^ 2 ^ 16 :=
      Nat.lt_of_le_of_lt small (Nat.pow_lt_pow_right (a := 2) (m := 20) (by decide) (by decide))
    exact (Nat.log2_lt (Nat.ne_of_gt positive)).mpr below
  rcases Option.isSome_iff_exists.mp (computedLogPass_isSome 0 positive (Nat.le_refl blockSize))
    with ⟨result, run⟩
  have counted := computedLogPass_returns blockSize 0 (by omega)
  rw [Nat.zero_add] at counted
  rw [run, Pass.Returns.unique ⟨blockSize, run⟩ counted]

theorem validateBlockSize_eq_ok {blockSize blockLog : Nat} :
    validateBlockSize blockSize blockLog = .ok () ↔ ValidBlockSize blockSize blockLog := by
  unfold validateBlockSize
  split
  · next bad =>
      constructor
      · intro accepted
        cases accepted
      · intro valid
        rcases bad with zero | bits
        · exact absurd zero valid.powerOfTwo.1
        · exact absurd valid.powerOfTwo.2 bits
  · next good =>
      split
      · next bad =>
          constructor
          · intro accepted
            cases accepted
          · intro valid
            have range := valid.inRange
            omega
      · next inRange =>
          rw [iterate_computedLogPass (by omega) (by omega), Outcome.ofOption_some,
            Outcome.ok_bind]
          constructor
          · intro accepted
            split at accepted
            · cases accepted
            · next matched =>
                rcases not_or.mp good with ⟨nonzero, bits⟩
                exact ⟨⟨nonzero, not_not.mp bits⟩, by omega, not_not.mp matched⟩
          · intro valid
            exact if_neg fun differs => differs valid.logMatches

private theorem validateBlockSize_refused {blockSize blockLog : Nat}
    (invalid : ¬ ValidBlockSize blockSize blockLog) :
    validateBlockSize blockSize blockLog = .err .corrupt := by
  have refused := mt validateBlockSize_eq_ok.mp invalid
  unfold validateBlockSize at refused ⊢
  split at refused
  · next bad => exact if_pos bad
  · next good =>
      rw [if_neg good]
      split at refused
      · next bad => exact if_pos bad
      · next inRange =>
          rw [if_neg inRange]
          rw [iterate_computedLogPass (by omega) (by omega), Outcome.ofOption_some,
            Outcome.ok_bind] at refused ⊢
          split at refused
          · next differs => exact if_pos differs
          · exact absurd rfl refused

/-! ## Acceptance -/

structure SquashfsSuperblock.StoredIn (disk : SquashfsSuperblock) (bytes : List UInt8) :
    Prop where
  magic : loadLe 4 bytes 0 = some disk.magic
  blockSize : loadLe 4 bytes 12 = some disk.blockSize
  compressor : loadLe 2 bytes 20 = some disk.compressor
  blockLog : loadLe 2 bytes 22 = some disk.blockLog
  versionMajor : loadLe 2 bytes 28 = some disk.versionMajor
  versionMinor : loadLe 2 bytes 30 = some disk.versionMinor
  bytesUsed : loadLe 8 bytes 40 = some disk.bytesUsed

private theorem SquashfsSuperblock.ofBytes_take (bytes : List UInt8) :
    ofBytes (bytes.take 96) = ofBytes bytes := by
  simp (disch := decide) only [ofBytes, loadLe_take]

theorem SquashfsSuperblock.ofBytes_of_le {bytes : List UInt8} (long : 96 ≤ bytes.length) :
    ∃ disk, ofBytes bytes = some disk ∧ disk.StoredIn bytes := by
  rcases @loadLe_of_le 4 0 bytes (by omega) with ⟨magic, loadMagic⟩
  rcases @loadLe_of_le 4 4 bytes (by omega) with ⟨inodeCount, loadInodes⟩
  rcases @loadLe_of_le 4 8 bytes (by omega) with ⟨modTime, loadTime⟩
  rcases @loadLe_of_le 4 12 bytes (by omega) with ⟨blockSize, loadBlockSize⟩
  rcases @loadLe_of_le 4 16 bytes (by omega) with ⟨fragCount, loadFrags⟩
  rcases @loadLe_of_le 2 20 bytes (by omega) with ⟨compressor, loadCompressor⟩
  rcases @loadLe_of_le 2 22 bytes (by omega) with ⟨blockLog, loadLog⟩
  rcases @loadLe_of_le 2 24 bytes (by omega) with ⟨flags, loadFlags⟩
  rcases @loadLe_of_le 2 26 bytes (by omega) with ⟨idCount, loadIds⟩
  rcases @loadLe_of_le 2 28 bytes (by omega) with ⟨versionMajor, loadMajor⟩
  rcases @loadLe_of_le 2 30 bytes (by omega) with ⟨versionMinor, loadMinor⟩
  rcases @loadLe_of_le 8 32 bytes (by omega) with ⟨rootInode, loadRoot⟩
  rcases @loadLe_of_le 8 40 bytes (by omega) with ⟨bytesUsed, loadUsed⟩
  rcases @loadLe_of_le 8 48 bytes (by omega) with ⟨idTable, loadIdTable⟩
  rcases @loadLe_of_le 8 56 bytes (by omega) with ⟨xattrTable, loadXattrTable⟩
  rcases @loadLe_of_le 8 64 bytes (by omega) with ⟨inodeTable, loadInodeTable⟩
  rcases @loadLe_of_le 8 72 bytes (by omega) with ⟨dirTable, loadDirTable⟩
  rcases @loadLe_of_le 8 80 bytes (by omega) with ⟨fragTable, loadFragTable⟩
  rcases @loadLe_of_le 8 88 bytes (by omega) with ⟨exportTable, loadExportTable⟩
  apply Exists.intro ⟨magic, inodeCount, modTime, blockSize, fragCount, compressor, blockLog,
    flags, idCount, versionMajor, versionMinor, rootInode, bytesUsed, idTable, xattrTable,
    inodeTable, dirTable, fragTable, exportTable⟩
  constructor
  · rw [ofBytes, loadMagic, loadInodes, loadTime, loadBlockSize, loadFrags, loadCompressor,
      loadLog, loadFlags, loadIds, loadMajor, loadMinor, loadRoot, loadUsed, loadIdTable,
      loadXattrTable, loadInodeTable, loadDirTable, loadFragTable, loadExportTable]
    rfl
  · exact {
      magic := loadMagic
      blockSize := loadBlockSize
      compressor := loadCompressor
      blockLog := loadLog
      versionMajor := loadMajor
      versionMinor := loadMinor
      bytesUsed := loadUsed }

/-- What an image must be for its superblock to be accepted. -/
structure AcceptedImage (image : Image) : Prop where
  long : 96 ≤ image.bytes.length
  magic : loadLe 4 image.bytes 0 = some squashfsMagic
  version : loadLe 2 image.bytes 28 = some 4 ∧ loadLe 2 image.bytes 30 = some 0
  compressor : loadLe 2 image.bytes 20 = some 1 ∨ loadLe 2 image.bytes 20 = some 6
  blockSize : ∃ blockLog, 12 ≤ blockLog ∧ blockLog ≤ 20 ∧
    loadLe 2 image.bytes 22 = some blockLog ∧ loadLe 4 image.bytes 12 = some (2 ^ blockLog)
  bytesUsed : ∃ bytesUsed ≤ image.bytes.length, loadLe 8 image.bytes 40 = some bytesUsed

private theorem validBlockSize_iff {blockSize blockLog : Nat} :
    ValidBlockSize blockSize blockLog ↔
      12 ≤ blockLog ∧ blockLog ≤ 20 ∧ blockSize = 2 ^ blockLog := by
  constructor
  · intro valid
    rcases Nat.ne_zero_and_sub_one_eq_zero_iff_isPowerOfTwo.mp valid.powerOfTwo with
      ⟨exponent, rfl⟩
    have log : exponent = blockLog := (Nat.log2_two_pow).symm.trans valid.logMatches
    have low : 2 ^ 12 ≤ 2 ^ exponent := valid.inRange.1
    have high : 2 ^ exponent ≤ 2 ^ 20 := valid.inRange.2
    have lower := (Nat.pow_le_pow_iff_right (by decide)).mp low
    have upper := (Nat.pow_le_pow_iff_right (by decide)).mp high
    rw [log] at lower upper ⊢
    exact ⟨lower, upper, rfl⟩
  · rintro ⟨lower, upper, rfl⟩
    have low : 2 ^ 12 ≤ 2 ^ blockLog := Nat.pow_le_pow_right (by decide) lower
    have high : 2 ^ blockLog ≤ 2 ^ 20 := Nat.pow_le_pow_right (by decide) upper
    exact {
      powerOfTwo := Nat.ne_zero_and_sub_one_eq_zero_iff_isPowerOfTwo.mpr ⟨blockLog, rfl⟩
      inRange := ⟨low, high⟩
      logMatches := Nat.log2_two_pow }

/-- `sqfs_superblock_load` up to the convenience flags. -/
def superblockChecks (image : Image) : Sqfs SquashfsSuperblock := do
  let raw ← sqfsPreadAll image 96 0
  let disk ← Outcome.ofOption (SquashfsSuperblock.ofBytes raw)
  if disk.magic ≠ squashfsMagic then
    .err .badMagic
  else if disk.versionMajor ≠ 4 ∨ disk.versionMinor ≠ 0 then
    .err .badVersion
  else if isCompressorSupported disk.compressor = false then
    .err .badComp
  else do
    validateBlockSize disk.blockSize disk.blockLog
    if image.bytes.length < disk.bytesUsed then
      .err .corrupt
    else
      pure disk

private theorem sqfsSuperblockLoad_disk (image : Image) :
    (sqfsSuperblockLoad image >>= fun sb => pure sb.disk) = superblockChecks image := by
  unfold sqfsSuperblockLoad superblockChecks
  cases sqfsPreadAll image 96 0 with
  | err code => rfl
  | fault => rfl
  | ok raw =>
      rw [Outcome.ok_bind, Outcome.ok_bind]
      cases SquashfsSuperblock.ofBytes raw with
      | none => rfl
      | some disk =>
          rw [Outcome.ofOption_some, Outcome.ok_bind, Outcome.ok_bind]
          by_cases magic : disk.magic ≠ squashfsMagic
          · rw [if_pos magic, if_pos magic, Outcome.err_bind]
          · rw [if_neg magic, if_neg magic]
            by_cases version : disk.versionMajor ≠ 4 ∨ disk.versionMinor ≠ 0
            · rw [if_pos version, if_pos version, Outcome.err_bind]
            · rw [if_neg version, if_neg version]
              by_cases comp : isCompressorSupported disk.compressor = false
              · rw [if_pos comp, if_pos comp, Outcome.err_bind]
              · rw [if_neg comp, if_neg comp]
                by_cases valid : ValidBlockSize disk.blockSize disk.blockLog
                · rw [dif_pos valid, validateBlockSize_eq_ok.mpr valid, Outcome.ok_bind]
                  by_cases outside : image.bytes.length < disk.bytesUsed
                  · rw [if_pos outside, if_pos outside, Outcome.err_bind]
                  · rw [if_neg outside, if_neg outside]
                    rfl
                · rw [dif_neg valid, validateBlockSize_refused valid, Outcome.err_bind,
                    Outcome.err_bind]

private theorem isCompressorSupported_iff {compId : Nat} :
    isCompressorSupported compId = true ↔ compId = 1 ∨ compId = 6 := by
  rw [isCompressorSupported, Bool.or_eq_true, beq_iff_eq, beq_iff_eq]

private theorem acceptedImage_iff {image : Image} {disk : SquashfsSuperblock}
    (long : 96 ≤ image.bytes.length) (stored : disk.StoredIn image.bytes) :
    AcceptedImage image ↔
      disk.magic = squashfsMagic ∧ (disk.versionMajor = 4 ∧ disk.versionMinor = 0) ∧
        isCompressorSupported disk.compressor = true ∧
        ValidBlockSize disk.blockSize disk.blockLog ∧
        disk.bytesUsed ≤ image.bytes.length := by
  rw [isCompressorSupported_iff, validBlockSize_iff]
  constructor
  · intro accepted
    have magic := Option.some.inj (stored.magic.symm.trans accepted.magic)
    have major := Option.some.inj (stored.versionMajor.symm.trans accepted.version.1)
    have minor := Option.some.inj (stored.versionMinor.symm.trans accepted.version.2)
    have comp := accepted.compressor
    rw [stored.compressor, Option.some_inj, Option.some_inj] at comp
    rcases accepted.blockSize with ⟨blockLog, lower, upper, loadLog, loadSize⟩
    have log := Option.some.inj (stored.blockLog.symm.trans loadLog)
    have size := Option.some.inj (stored.blockSize.symm.trans loadSize)
    rcases accepted.bytesUsed with ⟨bytesUsed, within, loadUsed⟩
    have used := Option.some.inj (stored.bytesUsed.symm.trans loadUsed)
    rw [log, used]
    exact ⟨magic, ⟨major, minor⟩, comp, ⟨lower, upper, size⟩, within⟩
  · rintro ⟨magic, ⟨major, minor⟩, comp, ⟨lower, upper, size⟩, within⟩
    exact {
      long
      magic := magic ▸ stored.magic
      version := ⟨major ▸ stored.versionMajor, minor ▸ stored.versionMinor⟩
      compressor := by rwa [stored.compressor, Option.some_inj, Option.some_inj]
      blockSize := ⟨disk.blockLog, lower, upper, stored.blockLog, size ▸ stored.blockSize⟩
      bytesUsed := ⟨disk.bytesUsed, within, stored.bytesUsed⟩ }

theorem superblockChecks_eq_ok {image : Image} {disk : SquashfsSuperblock} :
    superblockChecks image = .ok disk ↔
      AcceptedImage image ∧ SquashfsSuperblock.ofBytes image.bytes = some disk := by
  by_cases long : 96 ≤ image.bytes.length
  · have read : sqfsPreadAll image 96 0 = .ok (image.bytes.take 96) := by
      apply sqfsPreadAll_eq_ok.mpr
      rw [Image.diskBytes, if_neg (by decide), slice, if_pos (by omega), List.drop_zero]
    rcases SquashfsSuperblock.ofBytes_of_le long with ⟨present, found, stored⟩
    rw [superblockChecks, read, Outcome.ok_bind, SquashfsSuperblock.ofBytes_take, found,
      Outcome.ofOption_some, Outcome.ok_bind, acceptedImage_iff long stored]
    constructor
    · intro passed
      split at passed
      · cases passed
      · next magic =>
          split at passed
          · cases passed
          · next version =>
              split at passed
              · cases passed
              · next comp =>
                  rcases Outcome.bind_eq_ok.mp passed with ⟨_, validated, passed⟩
                  split at passed
                  · cases passed
                  · next within =>
                      rcases not_or.mp version with ⟨major, minor⟩
                      cases passed
                      exact ⟨⟨not_not.mp magic, ⟨not_not.mp major, not_not.mp minor⟩,
                        Bool.of_not_eq_false comp, validateBlockSize_eq_ok.mp validated,
                        Nat.not_lt.mp within⟩, rfl⟩
    · rintro ⟨⟨magic, ⟨major, minor⟩, comp, valid, within⟩, same⟩
      cases same
      rw [if_neg (not_not.mpr magic), if_neg (by omega), if_neg (by rw [comp]; decide),
        validateBlockSize_eq_ok.mpr valid, Outcome.ok_bind, if_neg (Nat.not_lt.mpr within)]
      rfl
  · constructor
    · intro passed
      rcases Outcome.bind_eq_ok.mp passed with ⟨raw, read, -⟩
      have within := Image.diskBytes_bound (sqfsPreadAll_eq_ok.mp read) (by decide)
      omega
    · rintro ⟨accepted, -⟩
      exact absurd accepted.long long

private theorem superblockChecks_blockSize {image : Image} {disk : SquashfsSuperblock}
    (passed : superblockChecks image = .ok disk) :
    ∃ exponent, 12 ≤ exponent ∧ exponent ≤ 20 ∧ disk.blockSize = 2 ^ exponent := by
  rcases superblockChecks_eq_ok.mp passed with ⟨accepted, found⟩
  rcases SquashfsSuperblock.ofBytes_of_le accepted.long with ⟨present, found', stored⟩
  obtain rfl : present = disk := Option.some.inj (found'.symm.trans found)
  rcases accepted.blockSize with ⟨exponent, lower, upper, -, load⟩
  exact ⟨exponent, lower, upper, Option.some.inj (stored.blockSize.symm.trans load)⟩

/-! ## Divisions by the block size -/

def divideBy (value divisor : Nat) : Sqfs Nat :=
  if divisor = 0 then .fault else pure (value / divisor)

def remainderBy (value divisor : Nat) : Sqfs Nat :=
  if divisor = 0 then .fault else pure (value % divisor)

theorem divideBy_of_pos {divisor : Nat} (value : Nat) (positive : 0 < divisor) :
    divideBy value divisor = .ok (value / divisor) :=
  if_neg (Nat.ne_of_gt positive)

theorem remainderBy_of_pos {divisor : Nat} (value : Nat) (positive : 0 < divisor) :
    remainderBy value divisor = .ok (value % divisor) :=
  if_neg (Nat.ne_of_gt positive)

/-- `sqfs_calc_block_count` with its divisions. -/
def dividingCalcBlockCount (fileSize blockSize : Nat) (hasFragment : Bool) : Sqfs Nat :=
  if fileSize = 0 then
    pure 0
  else do
    let fullBlocks ← divideBy fileSize blockSize
    let remainder ← remainderBy fileSize blockSize
    if hasFragment = false ∧ remainder ≠ 0 then
      pure (u32 (fullBlocks + 1))
    else
      pure (u32 fullBlocks)

/-- `calculate_block_layout` with its divisions. -/
def dividingBlockLayout (fileSize blockSize fragIdx : Nat) : Sqfs (Nat × Nat) :=
  if fileSize = 0 then
    pure (0, 0)
  else do
    let blockCount := u32 (← divideBy fileSize blockSize)
    let tailSize := u32 (← remainderBy fileSize blockSize)
    if 0 < tailSize ∧ sqfsFragmentIsNone fragIdx then
      pure (u32 (blockCount + 1), tailSize)
    else
      pure (blockCount, tailSize)

def dividingPosition (file : SqfsFileCtx) (position : Nat) : Sqfs (Nat × Nat) := do
  let blockIdx ← divideBy position file.blockSize
  let blockOffset ← remainderBy position file.blockSize
  pure (u32 blockIdx, blockOffset)

/-- One pass through the main loop of `sqfs_data_read_internal` with its divisions. -/
def dividingReadPass (cache : BlockCache C) (ctx : SqfsCtx) (file : SqfsFileCtx)
    (offset : Nat) (state : ReadState C) : Pass (ReadState C) (Option (ReadResult C)) :=
  if state.bytesRemaining = 0 then
    .leave (some (state.returned (toInt state.bytesRead)))
  else
    match dividingPosition file (u64 (offset + state.bytesRead)) with
    | .ok (blockIdx, blockOffset) => readPassOn cache ctx file blockIdx blockOffset state
    | .err error => .leave (some (state.returned error.code))
    | .fault => .leave none

structure SqfsVfsStatfs where
  bsize : Nat
  frsize : Nat
  blocks : Nat
  bfree : Nat
  bavail : Nat
  files : Nat
  ffree : Nat
  favail : Nat
  fsid : Nat
  flags : Nat
  namemax : Nat
  deriving Repr, DecidableEq

def sqfsVfsStatfs (ctx : SqfsCtx) : Sqfs SqfsVfsStatfs := do
  let blocks ← divideBy ctx.sb.disk.bytesUsed ctx.sb.disk.blockSize
  pure {
    bsize := ctx.sb.disk.blockSize
    frsize := ctx.sb.disk.blockSize
    blocks
    bfree := 0
    bavail := 0
    files := ctx.sb.disk.inodeCount
    ffree := 0
    favail := 0
    fsid := 0
    flags := 1
    namemax := 256 }

private theorem dividingCalcBlockCount_eq {blockSize : Nat} (positive : 0 < blockSize)
    (fileSize : Nat) (hasFragment : Bool) :
    dividingCalcBlockCount fileSize blockSize hasFragment =
      .ok (sqfsCalcBlockCount fileSize blockSize hasFragment) := by
  unfold dividingCalcBlockCount sqfsCalcBlockCount
  split
  · rfl
  · rw [divideBy_of_pos fileSize positive, remainderBy_of_pos fileSize positive,
      Outcome.ok_bind, Outcome.ok_bind]
    split <;> rfl

private theorem dividingBlockLayout_eq {blockSize : Nat} (positive : 0 < blockSize)
    (fileSize fragIdx : Nat) :
    dividingBlockLayout fileSize blockSize fragIdx =
      .ok (calculateBlockLayout fileSize blockSize fragIdx) := by
  unfold dividingBlockLayout calculateBlockLayout
  split
  · rfl
  · rw [divideBy_of_pos fileSize positive, remainderBy_of_pos fileSize positive,
      Outcome.ok_bind, Outcome.ok_bind]
    dsimp only
    split <;> rfl

private theorem dividingPosition_eq {file : SqfsFileCtx} (positive : 0 < file.blockSize)
    (position : Nat) :
    dividingPosition file position =
      .ok (u32 (position / file.blockSize), position % file.blockSize) := by
  rw [dividingPosition, divideBy_of_pos position positive, remainderBy_of_pos position positive]
  rfl

private theorem dividingReadPass_eq {file : SqfsFileCtx} (positive : 0 < file.blockSize)
    (cache : BlockCache C) (ctx : SqfsCtx) (offset : Nat) (state : ReadState C) :
    dividingReadPass cache ctx file offset state = readPass cache ctx file offset state := by
  by_cases finished : state.bytesRemaining = 0
  · exact (if_pos finished).trans (if_pos finished).symm
  · rw [dividingReadPass, if_neg finished, readPass_eq_on finished,
      dividingPosition_eq positive]

/-- The functions that divide by the block size of a context never divide by zero. -/
structure DividesByBlockSize (ctx : SqfsCtx) : Prop where
  calcBlockCount : ∀ fileSize hasFragment,
    dividingCalcBlockCount fileSize ctx.sb.blockSize hasFragment =
      .ok (sqfsCalcBlockCount fileSize ctx.sb.blockSize hasFragment)
  blockLayout : ∀ fileSize fragIdx,
    dividingBlockLayout fileSize ctx.sb.blockSize fragIdx =
      .ok (calculateBlockLayout fileSize ctx.sb.blockSize fragIdx)
  readLoop : ∀ (C : Type) (cache : BlockCache C) (before : C) (inode : SqfsInode)
    (offset size : Nat) (file : SqfsFileCtx) (start : ReadState C),
    readStart ctx before inode offset size = .loops file start →
    dividingReadPass cache ctx file offset = readPass cache ctx file offset
  statfs : ∃ stat, sqfsVfsStatfs ctx = .ok stat

private theorem readStart_blockSize {ctx : SqfsCtx} {before : C} {inode : SqfsInode}
    {offset size : Nat} {file : SqfsFileCtx} {start : ReadState C}
    (loops : readStart ctx before inode offset size = .loops file start) :
    file.blockSize = ctx.sb.blockSize := by
  rcases readStart_cases ctx inode offset size with
    ⟨error, -, returns⟩ | ⟨other, -, -, returns⟩ | ⟨other, entered, enters⟩
  · rw [returns C before] at loops
    contradiction
  · rw [returns C before] at loops
    contradiction
  · rw [enters C before] at loops
    cases loops
    exact (sqfsFileCtxInit_fields entered.init).1

private theorem dividesByBlockSize {ctx : SqfsCtx} (positive : 0 < ctx.sb.blockSize) :
    DividesByBlockSize ctx where
  calcBlockCount := dividingCalcBlockCount_eq positive
  blockLayout := dividingBlockLayout_eq positive
  readLoop := by
    intro C cache before inode offset size file start loops
    have same := readStart_blockSize loops
    funext state
    exact dividingReadPass_eq (same ▸ positive) cache ctx offset state
  statfs := by
    have divided := divideBy_of_pos ctx.sb.disk.bytesUsed positive
    rw [SqfsSuperblock.blockSize] at divided
    rw [sqfsVfsStatfs, divided]
    exact ⟨_, rfl⟩

/-- A superblock is accepted exactly if the image is acceptable. The block size of a mounted
image is therefore a power of two that can be divided by. -/
theorem sqfsSuperblockLoad_exact (image : Image) :
    (sqfsSuperblockLoad image >>= fun sb => pure sb.disk) = superblockChecks image ∧
      ((∃ sb, sqfsSuperblockLoad image = .ok sb) ↔ AcceptedImage image) ∧
      ∀ (sqfsCompressorCreate : Nat → Option Compressor) (cacheSizeMb : Nat) (noCache : Bool)
        (mounted : MountedCtx),
        initContext sqfsCompressorCreate image cacheSizeMb noCache = .ok mounted →
        (∃ exponent, 12 ≤ exponent ∧ exponent ≤ 20 ∧
          mounted.ctx.sb.blockSize = 2 ^ exponent) ∧
          DividesByBlockSize mounted.ctx := by
  have disk := sqfsSuperblockLoad_disk image
  apply And.intro disk
  constructor
  · constructor
    · rintro ⟨sb, loaded⟩
      have passed : superblockChecks image = .ok sb.disk := by
        rw [← disk, loaded]
        rfl
      exact (superblockChecks_eq_ok.mp passed).1
    · intro accepted
      rcases SquashfsSuperblock.ofBytes_of_le accepted.long with ⟨stored, found, -⟩
      have passed := superblockChecks_eq_ok.mpr ⟨accepted, found⟩
      rw [← disk] at passed
      rcases Outcome.bind_eq_ok.mp passed with ⟨sb, loaded, -⟩
      exact ⟨sb, loaded⟩
  · intro sqfsCompressorCreate cacheSizeMb noCache mounted initialised
    have loaded := (initContext_mounts initialised).superblock
    have passed : superblockChecks image = .ok mounted.ctx.sb.disk := by
      rw [← disk, loaded]
      rfl
    rcases superblockChecks_blockSize passed with ⟨exponent, lower, upper, power⟩
    have positive : 0 < mounted.ctx.sb.blockSize := by
      rw [SqfsSuperblock.blockSize, power]
      exact Nat.two_pow_pos exponent
    exact ⟨⟨exponent, lower, upper, power⟩, dividesByBlockSize positive⟩

end SquashfsFuse
