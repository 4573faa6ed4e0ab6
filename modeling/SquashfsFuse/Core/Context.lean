import SquashfsFuse.Core.Metadata
import SquashfsFuse.Core.Superblock

/-! The context the readers share (`context.h`). -/

namespace SquashfsFuse

structure SqfsFragEntry where
  start : Nat
  size : Nat
  unused : Nat
  deriving Repr, DecidableEq

/-- `sqfs_fragment_table_t`. The length of the array is its count. -/
structure SqfsFragmentTable where
  entries : List SqfsFragEntry
  loaded : Bool
  deriving Repr, DecidableEq

structure SqfsXattrIdEntry where
  xattrRef : Nat
  count : Nat
  size : Nat
  deriving Repr, DecidableEq

/-- `sqfs_xattr_table_t`. The length of the array is its count. -/
structure SqfsXattrTable where
  entries : List SqfsXattrIdEntry
  tableStart : Nat
  loaded : Bool
  deriving Repr, DecidableEq

/-- `sqfs_ctx_t` apart from its caches, which the readers take as a state of
their own. A table is `none` where the source has a null pointer; an entry of the
ID table is `none` while its value is indeterminate. -/
structure SqfsCtx where
  image : Image
  sb : SqfsSuperblock
  comp : Compressor
  idTable : List (Option Nat)
  fragmentTable : Option SqfsFragmentTable
  xattrTable : Option SqfsXattrTable

namespace SqfsCtx

/-- A context on an image file with the given bytes: blocks of 4 KiB, all tables
at the start of the file, and a decompressor for stored deflate blocks. -/
def onBytes (bytes : List UInt8) (small : bytes.length < 2 ^ 63) : SqfsCtx where
  image := ⟨bytes, small⟩
  sb := {
    disk := {
      magic := squashfsMagic, inodeCount := 1, modTime := 0, blockSize := 4096
      fragCount := 0, compressor := 1, blockLog := 12, flags := 0, idCount := 1
      versionMajor := 4, versionMinor := 0, rootInode := 0, bytesUsed := 0, idTable := 0
      xattrTable := 0, inodeTable := 0, dirTable := 0, fragTable := 0, exportTable := 0 }
    hasXattrs := true
    hasFragments := true
    hasExport := true
    validBlockSize := by decide }
  comp := storedDeflate
  idTable := []
  fragmentTable := none
  xattrTable := none

end SqfsCtx

end SquashfsFuse
