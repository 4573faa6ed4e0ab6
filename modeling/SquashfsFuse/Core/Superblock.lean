import SquashfsFuse.Core.Utils

/-! Superblock loading and validation (`superblock.c`, `superblock.h`). -/

namespace SquashfsFuse

/-- `squashfs_superblock_t`, the 96 bytes at the start of the image. -/
structure SquashfsSuperblock where
  magic : Nat
  inodeCount : Nat
  modTime : Nat
  blockSize : Nat
  fragCount : Nat
  compressor : Nat
  blockLog : Nat
  flags : Nat
  idCount : Nat
  versionMajor : Nat
  versionMinor : Nat
  rootInode : Nat
  bytesUsed : Nat
  idTable : Nat
  xattrTable : Nat
  inodeTable : Nat
  dirTable : Nat
  fragTable : Nat
  exportTable : Nat
  deriving Repr, DecidableEq

def SquashfsSuperblock.ofBytes (bytes : List UInt8) : Option SquashfsSuperblock := do
  return {
    magic := ← loadLe 4 bytes 0
    inodeCount := ← loadLe 4 bytes 4
    modTime := ← loadLe 4 bytes 8
    blockSize := ← loadLe 4 bytes 12
    fragCount := ← loadLe 4 bytes 16
    compressor := ← loadLe 2 bytes 20
    blockLog := ← loadLe 2 bytes 22
    flags := ← loadLe 2 bytes 24
    idCount := ← loadLe 2 bytes 26
    versionMajor := ← loadLe 2 bytes 28
    versionMinor := ← loadLe 2 bytes 30
    rootInode := ← loadLe 8 bytes 32
    bytesUsed := ← loadLe 8 bytes 40
    idTable := ← loadLe 8 bytes 48
    xattrTable := ← loadLe 8 bytes 56
    inodeTable := ← loadLe 8 bytes 64
    dirTable := ← loadLe 8 bytes 72
    fragTable := ← loadLe 8 bytes 80
    exportTable := ← loadLe 8 bytes 88 }

def squashfsMagic : Nat := 0x73717368

def squashfsFlagNoFrags : Nat := 0x0010

def squashfsFlagNoXattrs : Nat := 0x0200

def sqfsInvalidOffset : Nat := 2 ^ 64 - 1

def sqfsTableValid (offset : Nat) : Bool := offset != sqfsInvalidOffset

/-- `is_compressor_supported`: gzip and zstd. -/
def isCompressorSupported (compId : Nat) : Bool := compId == 1 || compId == 6

/-- The checks of `validate_block_size`. Halving down to one counts the binary
logarithm. -/
structure ValidBlockSize (blockSize blockLog : Nat) : Prop where
  powerOfTwo : blockSize ≠ 0 ∧ blockSize &&& (blockSize - 1) = 0
  inRange : 4096 ≤ blockSize ∧ blockSize ≤ 1048576
  logMatches : blockSize.log2 = blockLog

instance (blockSize blockLog : Nat) : Decidable (ValidBlockSize blockSize blockLog) :=
  decidable_of_iff
    ((blockSize ≠ 0 ∧ blockSize &&& (blockSize - 1) = 0) ∧
      (4096 ≤ blockSize ∧ blockSize ≤ 1048576) ∧ blockSize.log2 = blockLog)
    ⟨fun checks => ⟨checks.1, checks.2.1, checks.2.2⟩,
      fun valid => ⟨valid.powerOfTwo, valid.inRange, valid.logMatches⟩⟩

/-- `sqfs_superblock_t` of an accepted image. -/
structure SqfsSuperblock where
  disk : SquashfsSuperblock
  hasXattrs : Bool
  hasFragments : Bool
  hasExport : Bool
  validBlockSize : ValidBlockSize disk.blockSize disk.blockLog

namespace SqfsSuperblock

/-- The block size as the readers use it. -/
def blockSize (sb : SqfsSuperblock) : Nat := sb.disk.blockSize

theorem blockSize_ge (sb : SqfsSuperblock) : 4096 ≤ sb.blockSize :=
  sb.validBlockSize.inRange.1

theorem blockSize_le (sb : SqfsSuperblock) : sb.blockSize ≤ 2 ^ 20 :=
  sb.validBlockSize.inRange.2

theorem blockSize_pos (sb : SqfsSuperblock) : 0 < sb.blockSize :=
  Nat.lt_of_lt_of_le (by decide) sb.blockSize_ge

theorem blockSize_dvd (sb : SqfsSuperblock) : sb.blockSize ∣ 2 ^ 64 := by
  rcases Nat.ne_zero_and_sub_one_eq_zero_iff_isPowerOfTwo.mp sb.validBlockSize.powerOfTwo with
    ⟨exponent, power⟩
  have small := sb.blockSize_le
  rw [blockSize, power] at small ⊢
  have bound : exponent ≤ 20 := (Nat.pow_le_pow_iff_right (by decide)).mp small
  exact Nat.pow_dvd_pow 2 (by omega)

end SqfsSuperblock

def sqfsSuperblockLoad (image : Image) : Sqfs SqfsSuperblock := do
  let raw ← sqfsPreadAll image 96 0
  let disk ← Outcome.ofOption (SquashfsSuperblock.ofBytes raw)
  if disk.magic ≠ squashfsMagic then
    .err .badMagic
  else if disk.versionMajor ≠ 4 ∨ disk.versionMinor ≠ 0 then
    .err .badVersion
  else if isCompressorSupported disk.compressor = false then
    .err .badComp
  else if valid : ValidBlockSize disk.blockSize disk.blockLog then
    if image.bytes.length < disk.bytesUsed then
      .err .corrupt
    else
      pure {
        disk
        hasFragments := disk.flags &&& squashfsFlagNoFrags == 0 && sqfsTableValid disk.fragTable
        hasXattrs := disk.flags &&& squashfsFlagNoXattrs == 0 && sqfsTableValid disk.xattrTable
        hasExport := sqfsTableValid disk.exportTable
        validBlockSize := valid }
  else
    .err .corrupt

end SquashfsFuse
