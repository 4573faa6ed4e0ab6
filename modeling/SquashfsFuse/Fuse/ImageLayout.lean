import SquashfsFuse.Fuse.FuseMain
import SquashfsFuse.Inode.Layout
import SquashfsFuse.Metadata.Stream
import SquashfsFuse.Vfs.VfsOps
import SquashfsFuse.Metadata.Lookup

/-! The on-disk layout of superblocks and lookup tables, and small images with them. -/

namespace SquashfsFuse

/-! ## Superblocks -/

namespace SquashfsSuperblock

def encode (sb : SquashfsSuperblock) : List UInt8 :=
  leBytes 4 sb.magic ++ leBytes 4 sb.inodeCount ++ leBytes 4 sb.modTime ++
    leBytes 4 sb.blockSize ++ leBytes 4 sb.fragCount ++ leBytes 2 sb.compressor ++
    leBytes 2 sb.blockLog ++ leBytes 2 sb.flags ++ leBytes 2 sb.idCount ++
    leBytes 2 sb.versionMajor ++ leBytes 2 sb.versionMinor ++ leBytes 8 sb.rootInode ++
    leBytes 8 sb.bytesUsed ++ leBytes 8 sb.idTable ++ leBytes 8 sb.xattrTable ++
    leBytes 8 sb.inodeTable ++ leBytes 8 sb.dirTable ++ leBytes 8 sb.fragTable ++
    leBytes 8 sb.exportTable

theorem encode_length (sb : SquashfsSuperblock) : sb.encode.length = 96 := by
  delta encode
  simp only [List.length_append, leBytes_length]

structure InRange (sb : SquashfsSuperblock) : Prop where
  words : ∀ member ∈ [sb.magic, sb.inodeCount, sb.modTime, sb.blockSize, sb.fragCount],
    member < 256 ^ 4
  halves : ∀ member ∈ [sb.compressor, sb.blockLog, sb.flags, sb.idCount, sb.versionMajor,
    sb.versionMinor], member < 256 ^ 2
  positions : ∀ member ∈ [sb.rootInode, sb.bytesUsed, sb.idTable, sb.xattrTable,
    sb.inodeTable, sb.dirTable, sb.fragTable, sb.exportTable], member < 256 ^ 8

theorem ofBytes_encode (sb : SquashfsSuperblock) (inRange : sb.InRange) (rest : List UInt8) :
    ofBytes (sb.encode ++ rest) = some sb := by
  have words := inRange.words
  have halves := inRange.halves
  have positions := inRange.positions
  simp only [List.forall_mem_cons] at words halves positions
  delta encode
  simp only [ofBytes, List.append_assoc, loadLe_leBytes_zero, Std.le_refl,
    loadLe_leBytes_skip, tsub_self, Nat.reduceLeDiff, Nat.reduceSub, Option.pure_def,
    Option.bind_eq_bind, Option.bind_some]
  simp only [Nat.mod_eq_of_lt, words, halves, positions]

end SquashfsSuperblock

/-- What `sqfs_superblock_load` makes of a valid superblock. -/
def SqfsSuperblock.ofDisk (disk : SquashfsSuperblock)
    (validBlockSize : ValidBlockSize disk.blockSize disk.blockLog) : SqfsSuperblock where
  disk
  hasXattrs := disk.flags &&& squashfsFlagNoXattrs == 0 && sqfsTableValid disk.xattrTable
  hasFragments := disk.flags &&& squashfsFlagNoFrags == 0 && sqfsTableValid disk.fragTable
  hasExport := sqfsTableValid disk.exportTable
  validBlockSize

theorem sqfsSuperblockLoad_of_encode {image : Image} {disk : SquashfsSuperblock}
    {rest : List UInt8} (layout : image.bytes = disk.encode ++ rest) (inRange : disk.InRange)
    (magic : disk.magic = squashfsMagic)
    (version : ¬ (disk.versionMajor ≠ 4 ∨ disk.versionMinor ≠ 0))
    (compressor : ¬ isCompressorSupported disk.compressor = false)
    (validBlockSize : ValidBlockSize disk.blockSize disk.blockLog)
    (used : disk.bytesUsed ≤ image.bytes.length) :
    sqfsSuperblockLoad image = .ok (.ofDisk disk validBlockSize) := by
  have stored : image.diskBytes 0 96 = some disk.encode := by
    have part := slice_append_length [] disk.encode rest
    rwa [List.nil_append, ← layout, disk.encode_length] at part
  have decoded := disk.ofBytes_encode inRange []
  rw [List.append_nil] at decoded
  rw [sqfsSuperblockLoad, sqfsPreadAll_eq_ok.mpr stored, Outcome.ok_bind, decoded,
    Outcome.ofOption_some, Outcome.ok_bind, if_neg (not_not.mpr magic), if_neg version,
    if_neg compressor, dif_pos validBlockSize, if_neg (Nat.not_lt.mpr used)]
  rfl

/-! ## Lookup tables -/

/-- A table of records in consecutive metadata blocks, with the list of their positions
at `pos`. -/
structure LookupTable (image : Image) (comp : Compressor) (pos : Nat)
    (bytes : List UInt8) where
  stream : MetaStream image comp
  chopped : stream.Chopped
  content : stream.bytesFrom 0 0 = bytes
  listed : image.diskBytes pos (8 * stream.blocks.length) =
    some (stream.blocks.flatMap fun block => leBytes 8 block.pos)

def LookupTable.ofStored (image : Image) (comp : Compressor)
    (before content between after : List UInt8)
    (layout : image.bytes = before ++ (leBytes 2 (2 ^ 15 + content.length) ++
      (content ++ (between ++ (leBytes 8 before.length ++ after)))))
    (nonempty : 0 < content.length) (short : content.length ≤ sqfsMetaBlockSize)
    {pos : Nat} (located : pos = before.length + 2 + content.length + between.length) :
    LookupTable image comp pos content where
  stream := ⟨[.ofStored image comp before content (between ++ (leBytes 8 before.length ++ after))
    layout nonempty short], .singleton _⟩
  chopped := .singleton _
  content := by simp [MetaStream.bytesFrom, MetaBlock.ofStored]
  listed := by
    have part := slice_append_length
      (before ++ leBytes 2 (2 ^ 15 + content.length) ++ content ++ between)
      (leBytes 8 before.length) after
    simp only [List.append_assoc] at part
    rw [← layout] at part
    simpa [Image.diskBytes, MetaBlock.ofStored, located, Nat.add_assoc] using part

theorem LookupTable.paged {image : Image} {comp : Compressor} {pos : Nat} {bytes : List UInt8}
    (table : LookupTable image comp pos bytes) :
    Paged sqfsMetaBlockSize (table.stream.blocks.map (·.content)) bytes := by
  have paged := MetaStream.paged table.chopped
  rwa [table.content] at paged

def LookupTable.toPaged {image : Image} {comp : Compressor} {pos : Nat} {bytes : List UInt8}
    (table : LookupTable image comp pos bytes) : PagedTable image comp pos bytes where
  blocks := table.stream.blocks
  paged := table.paged
  listed := table.listed

/-! ## Loading the root -/

/-- The bytes that `sqfs_inode_get_by_ref` decodes. -/
def inodeBytesByRef (ctx : SqfsCtx) (ref : Nat) : Sqfs (List UInt8) := do
  let rawHeader ← readInodeMetadata ctx ref 16
  let header ← parseInodeHeader rawHeader
  match InodeType.ofCode header.type with
  | none => .err .badInode
  | some type => do
      let inodeSize ← inodeSizeByRef ctx ref type
      readInodeMetadata ctx ref (min inodeSize maxInodeSize)

private theorem sqfsInodeGetByRef_eq (ctx : SqfsCtx) (ref address : Nat) :
    sqfsInodeGetByRef ctx ref address = (do
      let data ← inodeBytesByRef ctx ref
      parseInode data ctx.sb.blockSize address .calloc) := by
  rw [sqfsInodeGetByRef, inodeBytesByRef, bind_assoc]
  apply congrArg
  funext rawHeader
  rw [bind_assoc]
  apply congrArg
  funext header
  cases InodeType.ofCode header.type with
  | none => rfl
  | some type => exact (bind_assoc _ _ _).symm

theorem sqfsVfsResolvePath_root {ctx : SqfsCtx} {address : Nat} {data : List UInt8}
    {inode : SqfsInode} (stored : inodeBytesByRef ctx ctx.sb.disk.rootInode = .ok data)
    (decoded : parseInode data ctx.sb.blockSize address .calloc = .ok inode) :
    sqfsVfsResolvePath ctx [slash] address = .ok inode := by
  rw [sqfsVfsResolvePath, sqfsInodeGetByRef_eq, stored, Outcome.ok_bind, decoded]
  rfl

/-! ## Small images -/

/-- A superblock for blocks of 4 KiB, one ID, no fragments and no export table, with the
inode table behind it. -/
def SquashfsSuperblock.small (flags idTable xattrTable dirTable bytesUsed : Nat) :
    SquashfsSuperblock where
  magic := squashfsMagic
  inodeCount := 1
  modTime := 0
  blockSize := 4096
  fragCount := 0
  compressor := 1
  blockLog := 12
  flags := squashfsFlagNoFrags ||| flags
  idCount := 1
  versionMajor := 4
  versionMinor := 0
  rootInode := 0
  bytesUsed
  idTable
  xattrTable
  inodeTable := 96
  dirTable
  fragTable := sqfsInvalidOffset
  exportTable := sqfsInvalidOffset

def rootImageFront (flags xattrTable bytesUsed : Nat) (root : List UInt8) : List UInt8 :=
  (SquashfsSuperblock.small flags (root.length + 104) xattrTable (root.length + 98)
      bytesUsed).encode ++
    (leBytes 2 (2 ^ 15 + root.length) ++ root)

theorem rootImageFront_length (flags xattrTable bytesUsed : Nat) (root : List UInt8) :
    (rootImageFront flags xattrTable bytesUsed root).length = root.length + 98 := by
  simp only [rootImageFront, List.length_append, SquashfsSuperblock.encode_length,
    leBytes_length]
  omega

def rootImage (flags xattrTable : Nat) (root : List UInt8) (id : UInt32) (rest : List UInt8) :
    List UInt8 :=
  rootImageFront flags xattrTable (root.length + 112 + rest.length) root ++
    (leBytes 2 (2 ^ 15 + 4) ++ (leBytes 4 id.toNat ++ (leBytes 8 (root.length + 98) ++ rest)))

def gzipOnly (compressor : Nat) : Option Compressor :=
  if compressor = 1 then some storedDeflate else none

theorem nil_sizeInOffT : ([] : List UInt8).length < 2 ^ 63 := by decide

/-- What `init_context` makes of an image that it accepts. -/
def mountedOn (image : Image) (noCache : Bool) : MountedCtx :=
  (initContext gzipOnly image 32 noCache).toOption.getD
    { ctx := .onBytes [] nil_sizeInOffT, caches := .zero, noCache }

theorem initContext_mountedOn {image : Image} {noCache : Bool}
    (accepted : (initContext gzipOnly image 32 noCache).toOption.isSome = true) :
    initContext gzipOnly image 32 noCache = .ok (mountedOn image noCache) :=
  Outcome.eq_ok_getD accepted

end SquashfsFuse
