import SquashfsFuse.Core.Inode

/-! The on-disk layouts of the 14 inode types (`inode.h`). -/

namespace SquashfsFuse

/-! ## Fields -/

/-- The fields of `sqfs_inode_header_t` apart from the type. -/
structure DiskHeader where
  permissions : UInt16
  uidIdx : UInt16
  gidIdx : UInt16
  mtime : UInt32
  inodeNumber : UInt32

/-- How many block sizes follow a file inode: one for each block, and one for the
rest of a file without a fragment. -/
def impliedBlockCount (fileSize blockSize : Nat) (fragIdx : UInt32) : Nat :=
  fileSize / blockSize +
    if fragIdx.toNat = fragmentInvalid ∧ fileSize % blockSize ≠ 0 then 1 else 0

/-- The fields behind the header. Block sizes and targets have the length that
the other fields imply. -/
inductive DiskBody (blockSize : Nat)
  | dir (blockIdx linkCount : UInt32) (fileSize blockOffset : UInt16) (parentInode : UInt32)
  | ldir (linkCount fileSize blockIdx parentInode : UInt32)
      (indexCount blockOffset : UInt16) (xattrIdx : UInt32)
  | file (blocksStart fragIdx blockOffset fileSize : UInt32) (blockSizes : List UInt32)
      (implied : blockSizes.length = impliedBlockCount fileSize.toNat blockSize fragIdx)
  | lfile (blocksStart fileSize sparse : UInt64)
      (linkCount fragIdx blockOffset xattrIdx : UInt32) (blockSizes : List UInt32)
      (implied : blockSizes.length = impliedBlockCount fileSize.toNat blockSize fragIdx)
  | symlink (linkCount targetSize : UInt32) (target : List UInt8)
      (implied : target.length = targetSize.toNat)
  | lsymlink (linkCount targetSize : UInt32) (target : List UInt8) (xattrIdx : UInt32)
      (implied : target.length = targetSize.toNat)
  | blkdev (linkCount deviceNumber : UInt32)
  | chrdev (linkCount deviceNumber : UInt32)
  | lblkdev (linkCount deviceNumber xattrIdx : UInt32)
  | lchrdev (linkCount deviceNumber xattrIdx : UInt32)
  | fifo (linkCount : UInt32)
  | socket (linkCount : UInt32)
  | lfifo (linkCount xattrIdx : UInt32)
  | lsocket (linkCount xattrIdx : UInt32)

namespace DiskBody

variable {blockSize : Nat}

def type : DiskBody blockSize → InodeType
  | dir .. => .dir
  | ldir .. => .ldir
  | file .. => .file
  | lfile .. => .lfile
  | symlink .. => .symlink
  | lsymlink .. => .lsymlink
  | blkdev .. => .blkdev
  | chrdev .. => .chrdev
  | lblkdev .. => .lblkdev
  | lchrdev .. => .lchrdev
  | fifo .. => .fifo
  | socket .. => .socket
  | lfifo .. => .lfifo
  | lsocket .. => .lsocket

end DiskBody

/-! ## Encoding -/

def leWords (words : List UInt32) : List UInt8 :=
  words.flatMap fun word => leBytes 4 word.toNat

def DiskHeader.encode (header : DiskHeader) (type : InodeType) : List UInt8 :=
  leBytes 2 type.code ++ leBytes 2 header.permissions.toNat ++ leBytes 2 header.uidIdx.toNat ++
    leBytes 2 header.gidIdx.toNat ++ leBytes 4 header.mtime.toNat ++
    leBytes 4 header.inodeNumber.toNat

namespace DiskBody

variable {blockSize : Nat}

def encode : DiskBody blockSize → List UInt8
  | dir blockIdx linkCount fileSize blockOffset parentInode =>
      leBytes 4 blockIdx.toNat ++ leBytes 4 linkCount.toNat ++ leBytes 2 fileSize.toNat ++
        leBytes 2 blockOffset.toNat ++ leBytes 4 parentInode.toNat
  | ldir linkCount fileSize blockIdx parentInode indexCount blockOffset xattrIdx =>
      leBytes 4 linkCount.toNat ++ leBytes 4 fileSize.toNat ++ leBytes 4 blockIdx.toNat ++
        leBytes 4 parentInode.toNat ++ leBytes 2 indexCount.toNat ++
        leBytes 2 blockOffset.toNat ++ leBytes 4 xattrIdx.toNat
  | file blocksStart fragIdx blockOffset fileSize blockSizes _ =>
      leBytes 4 blocksStart.toNat ++ leBytes 4 fragIdx.toNat ++ leBytes 4 blockOffset.toNat ++
        leBytes 4 fileSize.toNat ++ leWords blockSizes
  | lfile blocksStart fileSize sparse linkCount fragIdx blockOffset xattrIdx blockSizes _ =>
      leBytes 8 blocksStart.toNat ++ leBytes 8 fileSize.toNat ++ leBytes 8 sparse.toNat ++
        leBytes 4 linkCount.toNat ++ leBytes 4 fragIdx.toNat ++ leBytes 4 blockOffset.toNat ++
        leBytes 4 xattrIdx.toNat ++ leWords blockSizes
  | symlink linkCount targetSize target _ =>
      leBytes 4 linkCount.toNat ++ leBytes 4 targetSize.toNat ++ target
  | lsymlink linkCount targetSize target xattrIdx _ =>
      leBytes 4 linkCount.toNat ++ leBytes 4 targetSize.toNat ++ target ++
        leBytes 4 xattrIdx.toNat
  | blkdev linkCount deviceNumber | chrdev linkCount deviceNumber =>
      leBytes 4 linkCount.toNat ++ leBytes 4 deviceNumber.toNat
  | lblkdev linkCount deviceNumber xattrIdx | lchrdev linkCount deviceNumber xattrIdx =>
      leBytes 4 linkCount.toNat ++ leBytes 4 deviceNumber.toNat ++ leBytes 4 xattrIdx.toNat
  | fifo linkCount | socket linkCount => leBytes 4 linkCount.toNat
  | lfifo linkCount xattrIdx | lsocket linkCount xattrIdx =>
      leBytes 4 linkCount.toNat ++ leBytes 4 xattrIdx.toNat

end DiskBody

/-- An inode as it lies in the inode table. -/
def encodeInode {blockSize : Nat} (header : DiskHeader) (body : DiskBody blockSize) :
    List UInt8 :=
  header.encode body.type ++ body.encode

/-! ## Lengths and loads -/

@[simp] theorem DiskHeader.encode_length (header : DiskHeader) (type : InodeType) :
    (header.encode type).length = 16 := by
  simp [DiskHeader.encode]

@[simp] theorem leWords_length (words : List UInt32) :
    (leWords words).length = 4 * words.length := by
  induction words with
  | nil => rfl
  | cons word words induction =>
      rw [leWords, List.flatMap_cons, List.length_append, leBytes_length, List.length_cons]
      change 4 + (leWords words).length = _
      omega

@[simp] theorem loadLe_header (width offset : Nat) (header : DiskHeader) (type : InodeType)
    (body : List UInt8) (behind : 16 ≤ offset) :
    loadLe width (header.encode type ++ body) offset = loadLe width body (offset - 16) := by
  rw [loadLe_append_of_le _ _ _ _ (by rwa [DiskHeader.encode_length]),
    DiskHeader.encode_length]

theorem loadLe_leWords {words : List UInt32} {idx : Nat} (inside : idx < words.length) :
    loadLe 4 (leWords words) (4 * idx) = some words[idx].toNat := by
  induction words generalizing idx with
  | nil => simp at inside
  | cons word words induction =>
      change loadLe 4 (leBytes 4 word.toNat ++ leWords words) (4 * idx) = _
      cases idx with
      | zero => simp
      | succ idx =>
          rw [loadLe_leBytes_skip _ _ _ _ _ (by omega), Nat.mul_add, Nat.add_sub_cancel]
          simpa using induction (by simpa using inside)

end SquashfsFuse
