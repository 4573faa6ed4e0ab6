import SquashfsFuse.Core.Context

/-! Inode decoding (`inode.c`, `inode.h`). -/

namespace SquashfsFuse

/-! ## Inode types -/

/-- `sqfs_inode_type_t`. -/
inductive InodeType
  | dir
  | file
  | symlink
  | blkdev
  | chrdev
  | fifo
  | socket
  | ldir
  | lfile
  | lsymlink
  | lblkdev
  | lchrdev
  | lfifo
  | lsocket
  deriving Repr, DecidableEq

namespace InodeType

def code : InodeType → Nat
  | dir => 1
  | file => 2
  | symlink => 3
  | blkdev => 4
  | chrdev => 5
  | fifo => 6
  | socket => 7
  | ldir => 8
  | lfile => 9
  | lsymlink => 10
  | lblkdev => 11
  | lchrdev => 12
  | lfifo => 13
  | lsocket => 14

/-- The type check of the decoders: codes outside `1 … 14` have no type. -/
def ofCode : Nat → Option InodeType
  | 1 => some dir
  | 2 => some file
  | 3 => some symlink
  | 4 => some blkdev
  | 5 => some chrdev
  | 6 => some fifo
  | 7 => some socket
  | 8 => some ldir
  | 9 => some lfile
  | 10 => some lsymlink
  | 11 => some lblkdev
  | 12 => some lchrdev
  | 13 => some lfifo
  | 14 => some lsocket
  | _ => none

@[simp] theorem ofCode_code (type : InodeType) : ofCode type.code = some type := by
  cases type <;> rfl

theorem code_of_ofCode {code : Nat} {type : InodeType} (found : ofCode code = some type) :
    code = type.code := by
  unfold ofCode at found
  split at found <;> cases found <;> rfl

theorem code_lt (type : InodeType) : type.code < 2 ^ 16 := by
  cases type <;> decide

end InodeType

def sqfsInodeIsDir (type : InodeType) : Bool :=
  type == .dir || type == .ldir

def sqfsInodeIsFile (type : InodeType) : Bool :=
  type == .file || type == .lfile

def sqfsInodeIsSymlink (type : InodeType) : Bool :=
  type == .symlink || type == .lsymlink

/-! ## The runtime inode -/

/-- A member of the anonymous union of `struct sqfs_inode`, by its place in
the LP64 layout. -/
structure UnionMember where
  offset : Nat
  width : Nat
  deriving Repr, DecidableEq

namespace UnionMember

def dirBlockIdx : UnionMember := ⟨0, 8⟩
def dirSize : UnionMember := ⟨8, 4⟩
def dirBlockOffset : UnionMember := ⟨12, 2⟩
def dirParentInode : UnionMember := ⟨16, 8⟩
def dirIndexCount : UnionMember := ⟨24, 2⟩
def fileBlocksStart : UnionMember := ⟨0, 8⟩
def fileFileSize : UnionMember := ⟨8, 8⟩
def fileSparse : UnionMember := ⟨16, 8⟩
def fileFragIdx : UnionMember := ⟨24, 4⟩
def fileBlockOffset : UnionMember := ⟨28, 4⟩
def fileBlockCount : UnionMember := ⟨32, 4⟩
def fileXattrIdx : UnionMember := ⟨36, 4⟩
def symlinkTarget : UnionMember := ⟨0, 8⟩
def symlinkTargetSize : UnionMember := ⟨8, 4⟩
def devMajor : UnionMember := ⟨0, 4⟩
def devMinor : UnionMember := ⟨4, 4⟩
def xattrIdx : UnionMember := ⟨0, 4⟩

end UnionMember

structure Allocation where
  address : Nat
  bytes : List UInt8
  deriving Repr, DecidableEq

/-- `struct sqfs_inode`. The union is a piece of storage; `block_sizes` stands
for the array it points to, and `heap` is what was allocated for the target of
a symbolic link. -/
structure SqfsInode where
  inodeNumber : Nat
  type : InodeType
  permissions : Nat
  uid : Nat
  gid : Nat
  mtime : Nat
  linkCount : Nat
  members : Storage
  blockSizes : List Nat
  heap : Option Allocation

namespace SqfsInode

/-- The value of a member of the union. -/
def get (inode : SqfsInode) (member : UnionMember) : Nat :=
  inode.members.load member.offset member.width

/-- Assign to a member of the union. -/
def set (inode : SqfsInode) (member : UnionMember) (value : Nat) : SqfsInode :=
  { inode with members := inode.members.store member.offset member.width value }

/-- The bytes `symlink.target` points to, when it points to the allocation. -/
def target (inode : SqfsInode) : Option (List UInt8) :=
  match inode.heap with
  | some allocation =>
      if inode.get .symlinkTarget = allocation.address then some allocation.bytes else none
  | none => none

/-- A new inode. `sqfs_calloc` clears it; no type has the code zero, and the
decoder sets the type before it does anything else. -/
def calloc : SqfsInode where
  inodeNumber := 0
  type := .dir
  permissions := 0
  uid := 0
  gid := 0
  mtime := 0
  linkCount := 0
  members := Storage.zero
  blockSizes := []
  heap := none

end SqfsInode

/-! ## Freeing -/

/-- `sqfs_inode_free`. The target of a symbolic link has to be freed where it was allocated. -/
def sqfsInodeFree (inode : SqfsInode) : Outcome ε Unit :=
  if sqfsInodeIsSymlink inode.type ∧ inode.get .symlinkTarget ≠ 0 then do
    let _ ← Outcome.ofOption inode.target
    pure ()
  else
    pure ()

/-- The pointer to the target of a symbolic link is null or leads to the allocation. -/
def SqfsInode.Freeable (inode : SqfsInode) : Prop :=
  sqfsInodeIsSymlink inode.type = true → inode.get .symlinkTarget ≠ 0 →
    inode.target.isSome = true

instance (inode : SqfsInode) : Decidable inode.Freeable :=
  inferInstanceAs (Decidable (_ → _))

section Freeing

variable {inode : SqfsInode}

theorem SqfsInode.Freeable.free (freeable : inode.Freeable) :
    (sqfsInodeFree inode : Outcome ε Unit) = .ok () := by
  rw [sqfsInodeFree]
  split
  · next isLink =>
      rcases Option.isSome_iff_exists.mp (freeable isLink.1 isLink.2) with ⟨bytes, target⟩
      rw [target]
      rfl
  · rfl

theorem sqfsInodeFree_fault (clobbered : ¬ inode.Freeable) :
    (sqfsInodeFree inode : Outcome ε Unit) = .fault := by
  simp only [SqfsInode.Freeable, Classical.not_imp] at clobbered
  rcases clobbered with ⟨isLink, some, none⟩
  rw [sqfsInodeFree, if_pos ⟨isLink, some⟩, Option.not_isSome_iff_eq_none.mp none]
  rfl

theorem sqfsInodeFree_cases (inode : SqfsInode) :
    (inode.Freeable ∧ (sqfsInodeFree inode : Outcome ε Unit) = .ok ()) ∨
      (¬ inode.Freeable ∧ (sqfsInodeFree inode : Outcome ε Unit) = .fault) := by
  by_cases freeable : inode.Freeable
  · exact .inl ⟨freeable, freeable.free⟩
  · exact .inr ⟨freeable, sqfsInodeFree_fault freeable⟩

theorem SqfsInode.freeable_of_not_symlink (notLink : sqfsInodeIsSymlink inode.type = false) :
    inode.Freeable := by
  intro isLink
  rw [notLink] at isLink
  contradiction

theorem SqfsInode.freeable_of_isDir (isDir : sqfsInodeIsDir inode.type = true) :
    inode.Freeable := by
  apply freeable_of_not_symlink
  cases type : inode.type <;> simp_all [sqfsInodeIsDir, sqfsInodeIsSymlink]

theorem SqfsInode.freeable_of_isFile (isFile : sqfsInodeIsFile inode.type = true) :
    inode.Freeable := by
  apply freeable_of_not_symlink
  cases type : inode.type <;> simp_all [sqfsInodeIsFile, sqfsInodeIsSymlink]

@[simp] theorem sqfsInodeFree_avoids (code : ε) :
    (sqfsInodeFree inode : Outcome ε Unit).Avoids code := by
  rcases @sqfsInodeFree_cases ε inode with ⟨-, freed⟩ | ⟨-, crashed⟩
  · rw [freed]
    exact Outcome.avoids_ok ()
  · rw [crashed]
    exact Outcome.avoids_fault

end Freeing

/-! ## Decoding -/

structure SqfsInodeHeader where
  type : Nat
  permissions : Nat
  uidIdx : Nat
  gidIdx : Nat
  mtime : Nat
  inodeNumber : Nat
  deriving Repr, DecidableEq

def xattrInvalid : Nat := 0xFFFFFFFF

/-- `FRAGMENT_INVALID`, `SQFS_FRAGMENT_NONE`. -/
def fragmentInvalid : Nat := 0xFFFFFFFF

def maxInodeSize : Nat := 8192

def sqfsCalcBlockCount (fileSize blockSize : Nat) (hasFragment : Bool) : Nat :=
  if fileSize = 0 then
    0
  else if hasFragment = false ∧ fileSize % blockSize ≠ 0 then
    u32 (fileSize / blockSize + 1)
  else
    u32 (fileSize / blockSize)

def parseInodeHeader (data : List UInt8) : Sqfs SqfsInodeHeader := do
  let type ← sqfsLe16ToCpu data 0
  let permissions ← sqfsLe16ToCpu data 2
  let uidIdx ← sqfsLe16ToCpu data 4
  let gidIdx ← sqfsLe16ToCpu data 6
  let mtime ← sqfsLe32ToCpu data 8
  let inodeNumber ← sqfsLe32ToCpu data 12
  pure { type, permissions, uidIdx, gidIdx, mtime, inodeNumber }

def parseInodeDir (data : List UInt8) (inode : SqfsInode) : Sqfs SqfsInode := do
  let blockIdx ← sqfsLe32ToCpu data 16
  let inode := inode.set .dirBlockIdx (blockIdx &&& 0xFFFFFFFF)
  let linkCount ← sqfsLe32ToCpu data 20
  let size ← sqfsLe16ToCpu data 24
  let inode := inode.set .dirSize (if 3 ≤ size then size - 3 else size)
  let blockOffset ← sqfsLe16ToCpu data 26
  let inode := inode.set .dirBlockOffset blockOffset
  let parentInode ← sqfsLe32ToCpu data 28
  let inode := inode.set .dirParentInode parentInode
  pure { inode.set .dirIndexCount 0 with linkCount }

def parseInodeLdir (data : List UInt8) (inode : SqfsInode) : Sqfs SqfsInode := do
  let linkCount ← sqfsLe32ToCpu data 16
  let size ← sqfsLe32ToCpu data 20
  let inode := inode.set .dirSize size
  let blockIdx ← sqfsLe32ToCpu data 24
  let inode := inode.set .dirBlockIdx blockIdx
  let parentInode ← sqfsLe32ToCpu data 28
  let inode := inode.set .dirParentInode parentInode
  let indexCount ← sqfsLe16ToCpu data 32
  let inode := inode.set .dirIndexCount indexCount
  let blockOffset ← sqfsLe16ToCpu data 34
  let inode := inode.set .dirBlockOffset blockOffset
  let xattrIdx ← sqfsLe32ToCpu data 36
  pure { inode.set .xattrIdx xattrIdx with linkCount }

/-- The loop that fills `block_sizes` from the words at `start`. Its counter
and the product with the width of a word are 32 bits wide. -/
def readBlockSizes (data : List UInt8) (start blockCount : Nat) : Sqfs (List Nat) :=
  (List.range blockCount).mapM fun i => sqfsLe32ToCpu data (start + u32 (i * 4))

/-- `parse_inode_file`: the inode and the number of bytes consumed. -/
def parseInodeFile (data : List UInt8) (blockSize : Nat) (inode : SqfsInode) :
    Sqfs (SqfsInode × Nat) := do
  let blocksStart ← sqfsLe32ToCpu data 16
  let inode := inode.set .fileBlocksStart blocksStart
  let fragIdx ← sqfsLe32ToCpu data 20
  let inode := inode.set .fileFragIdx fragIdx
  let blockOffset ← sqfsLe32ToCpu data 24
  let inode := inode.set .fileBlockOffset blockOffset
  let fileSize ← sqfsLe32ToCpu data 28
  let inode := inode.set .fileFileSize fileSize
  let inode := inode.set .fileSparse 0
  let inode := inode.set .fileXattrIdx xattrInvalid
  let hasFragment := fragIdx != fragmentInvalid
  let blockCount := sqfsCalcBlockCount fileSize blockSize hasFragment
  let inode := inode.set .fileBlockCount blockCount
  let blockSizes ← readBlockSizes data 32 blockCount
  pure ({ inode with linkCount := 1, blockSizes }, 32 + blockCount * 4)

/-- `parse_inode_lfile`: the inode and the number of bytes consumed. -/
def parseInodeLfile (data : List UInt8) (blockSize : Nat) (inode : SqfsInode) :
    Sqfs (SqfsInode × Nat) := do
  let blocksStart ← sqfsLe64ToCpu data 16
  let inode := inode.set .fileBlocksStart blocksStart
  let fileSize ← sqfsLe64ToCpu data 24
  let inode := inode.set .fileFileSize fileSize
  let sparse ← sqfsLe64ToCpu data 32
  let inode := inode.set .fileSparse sparse
  let linkCount ← sqfsLe32ToCpu data 40
  let fragIdx ← sqfsLe32ToCpu data 44
  let inode := inode.set .fileFragIdx fragIdx
  let blockOffset ← sqfsLe32ToCpu data 48
  let inode := inode.set .fileBlockOffset blockOffset
  let xattrIdx ← sqfsLe32ToCpu data 52
  let inode := inode.set .fileXattrIdx xattrIdx
  let hasFragment := fragIdx != fragmentInvalid
  let blockCount := sqfsCalcBlockCount fileSize blockSize hasFragment
  let inode := inode.set .fileBlockCount blockCount
  let blockSizes ← readBlockSizes data 56 blockCount
  pure ({ inode with linkCount, blockSizes }, 56 + blockCount * 4)

/-- The target of a symbolic link: the copy behind `address`, closed by a NUL.
The size of the allocation is computed in 32 bits. -/
def copyTarget (data : List UInt8) (address targetSize : Nat) : Sqfs Allocation :=
  if u32 (targetSize + 1) < targetSize + 1 then
    .fault
  else do
    let target ← Outcome.ofOption (slice data 24 targetSize)
    pure { address, bytes := target ++ [0] }

/-- `parse_inode_symlink`: the inode and the number of bytes consumed. -/
def parseInodeSymlink (data : List UInt8) (address : Nat) (inode : SqfsInode) :
    Sqfs (SqfsInode × Nat) := do
  let linkCount ← sqfsLe32ToCpu data 16
  let targetSize ← sqfsLe32ToCpu data 20
  let inode := inode.set .symlinkTargetSize targetSize
  let inode := inode.set .symlinkTarget address
  let allocation ← copyTarget data address targetSize
  pure ({ inode with linkCount, heap := some allocation }, 24 + targetSize)

/-- `parse_inode_lsymlink`: the inode and the number of bytes consumed. -/
def parseInodeLsymlink (data : List UInt8) (address : Nat) (inode : SqfsInode) :
    Sqfs (SqfsInode × Nat) := do
  let linkCount ← sqfsLe32ToCpu data 16
  let targetSize ← sqfsLe32ToCpu data 20
  let inode := inode.set .symlinkTargetSize targetSize
  let inode := inode.set .symlinkTarget address
  let allocation ← copyTarget data address targetSize
  let xattrIdx ← sqfsLe32ToCpu data (24 + targetSize)
  let inode := inode.set .xattrIdx xattrIdx
  pure ({ inode with linkCount, heap := some allocation }, 24 + targetSize + 4)

/-- `parse_inode_dev`: the inode and the number of bytes consumed. -/
def parseInodeDev (data : List UInt8) (isExtended : Bool) (inode : SqfsInode) :
    Sqfs (SqfsInode × Nat) := do
  let linkCount ← sqfsLe32ToCpu data 16
  let devNum ← sqfsLe32ToCpu data 20
  let inode := inode.set .devMajor (sqfsDevMajor devNum)
  let inode := inode.set .devMinor (sqfsDevMinor devNum)
  if isExtended then do
    let xattrIdx ← sqfsLe32ToCpu data 24
    pure ({ inode.set .xattrIdx xattrIdx with linkCount }, 28)
  else
    pure ({ inode.set .xattrIdx xattrInvalid with linkCount }, 24)

/-- `parse_inode_ipc`: the inode and the number of bytes consumed. -/
def parseInodeIpc (data : List UInt8) (isExtended : Bool) (inode : SqfsInode) :
    Sqfs (SqfsInode × Nat) := do
  let linkCount ← sqfsLe32ToCpu data 16
  if isExtended then do
    let xattrIdx ← sqfsLe32ToCpu data 20
    pure ({ inode.set .xattrIdx xattrIdx with linkCount }, 24)
  else
    pure ({ inode.set .xattrIdx xattrInvalid with linkCount }, 20)

/-- The `switch` of `parse_inode`. The directory decoders leave the number of
consumed bytes at zero. -/
def parseInodeOfType (type : InodeType) (data : List UInt8) (blockSize address : Nat)
    (inode : SqfsInode) : Sqfs (SqfsInode × Nat) :=
  match type with
  | .dir =>
      if data.length < 32 then .err .badInode
      else do
        let inode ← parseInodeDir data inode
        pure (inode, 0)
  | .ldir =>
      if data.length < 40 then .err .badInode
      else do
        let inode ← parseInodeLdir data inode
        pure (inode, 0)
  | .file => parseInodeFile data blockSize inode
  | .lfile => parseInodeLfile data blockSize inode
  | .symlink => parseInodeSymlink data address inode
  | .lsymlink => parseInodeLsymlink data address inode
  | .blkdev | .chrdev => parseInodeDev data false inode
  | .lblkdev | .lchrdev => parseInodeDev data true inode
  | .fifo | .socket => parseInodeIpc data false inode
  | .lfifo | .lsocket => parseInodeIpc data true inode

/-- `parse_inode` on the `data_size` bytes of `data`; `address` is what
`sqfs_malloc` returns for the target of a symbolic link. Past the given bytes
the only caller has no buffer left, so a read there is a fault. -/
def parseInode (data : List UInt8) (blockSize address : Nat) (inode : SqfsInode) :
    Sqfs SqfsInode :=
  if data.length < 16 then
    .err .badInode
  else do
    let header ← parseInodeHeader data
    match InodeType.ofCode header.type with
    | none => .err .badInode
    | some type => do
        let inode := { inode with
          inodeNumber := header.inodeNumber
          type
          permissions := header.permissions
          uid := header.uidIdx
          gid := header.gidIdx
          mtime := header.mtime
          blockSizes := [] }
        let (inode, bytesConsumed) ← parseInodeOfType type data blockSize address inode
        if 0 < bytesConsumed ∧ data.length < bytesConsumed then
          .err .badInode
        else
          pure inode

/-! ## Reading from the inode table -/

/-- `read_inode_metadata`: `size` bytes at a metadata reference. -/
def readInodeMetadata (ctx : SqfsCtx) (ref size : Nat) : Sqfs (List UInt8) := do
  let blockOffset := sqfsMetaRefOffset ref
  let absPos := u64 (ctx.sb.disk.inodeTable + sqfsMetaRefPos ref)
  let metaBlock ← sqfsMetaReadBlock ctx.image ctx.comp absPos
  if metaBlock.length < blockOffset + size then
    .err .badInode
  else
    pure ((metaBlock.drop blockOffset).take size)

/-- The `switch` of `sqfs_inode_get_by_ref`: the length of the inode at a
reference, read from its fixed part where the type needs that. -/
def inodeSizeByRef (ctx : SqfsCtx) (ref : Nat) : InodeType → Sqfs Nat
  | .dir => pure 32
  | .ldir => pure 40
  | .file => do
      let fixedPart ← readInodeMetadata ctx ref (16 + 16)
      let fileSize ← sqfsLe32ToCpu fixedPart 28
      let fragIdx ← sqfsLe32ToCpu fixedPart 20
      let hasFragment := fragIdx != fragmentInvalid
      pure (16 + 16 + sqfsCalcBlockCount fileSize ctx.sb.blockSize hasFragment * 4)
  | .lfile => do
      let fixedPart ← readInodeMetadata ctx ref (16 + 40)
      let fileSize ← sqfsLe64ToCpu fixedPart 24
      let fragIdx ← sqfsLe32ToCpu fixedPart 44
      let hasFragment := fragIdx != fragmentInvalid
      pure (16 + 40 + sqfsCalcBlockCount fileSize ctx.sb.blockSize hasFragment * 4)
  | .symlink => do
      let fixedPart ← readInodeMetadata ctx ref (16 + 8)
      let targetSize ← sqfsLe32ToCpu fixedPart 20
      pure (16 + 8 + targetSize)
  | .lsymlink => do
      let fixedPart ← readInodeMetadata ctx ref (16 + 8)
      let targetSize ← sqfsLe32ToCpu fixedPart 20
      pure (16 + 8 + targetSize + 4)
  | .blkdev | .chrdev => pure 24
  | .lblkdev | .lchrdev => pure 28
  | .fifo | .socket => pure 20
  | .lfifo | .lsocket => pure 24

def sqfsInodeGetByRef (ctx : SqfsCtx) (ref address : Nat) : Sqfs SqfsInode := do
  let rawHeader ← readInodeMetadata ctx ref 16
  let header ← parseInodeHeader rawHeader
  match InodeType.ofCode header.type with
  | none => .err .badInode
  | some type => do
      let inodeSize ← inodeSizeByRef ctx ref type
      let rawInode ← readInodeMetadata ctx ref (min inodeSize maxInodeSize)
      parseInode rawInode ctx.sb.blockSize address .calloc

end SquashfsFuse
