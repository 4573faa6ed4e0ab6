import SquashfsFuse.Directory.Listing
import SquashfsFuse.Fuse.StoredFiles
import SquashfsFuse.Inode.ByReference

/-! Trees of files in an inode table and a directory table, and the file system they are. -/

namespace SquashfsFuse

/-! ## Inodes and what they say -/

namespace DiskBody

variable {blockSize : Nat}

def linkCount : DiskBody blockSize → Nat
  | dir _ linkCount .. | ldir linkCount .. | lfile _ _ _ linkCount .. | symlink linkCount ..
  | lsymlink linkCount .. | blkdev linkCount _ | chrdev linkCount _ | lblkdev linkCount ..
  | lchrdev linkCount .. | fifo linkCount | socket linkCount | lfifo linkCount _
  | lsocket linkCount _ => linkCount.toNat
  | file .. => 1

/-- The size in bytes: that of the listing of a directory, of a file or of a target. -/
def size : DiskBody blockSize → Nat
  | dir _ _ fileSize _ _ => fileSize.toNat - 3
  | ldir _ fileSize .. => fileSize.toNat - 3
  | file _ _ _ fileSize .. => fileSize.toNat
  | lfile _ fileSize .. => fileSize.toNat
  | symlink _ targetSize .. | lsymlink _ targetSize .. => targetSize.toNat
  | _ => 0

def units : DiskBody blockSize → Nat
  | dir _ _ fileSize _ _ => (fileSize.toNat - 3 + 511) / 512
  | ldir _ fileSize .. => (fileSize.toNat - 3 + 511) / 512
  | file _ _ _ fileSize .. => (fileSize.toNat + 511) / 512
  | lfile _ fileSize .. => u64 (fileSize.toNat + 511) / 512
  | _ => 0

def unit : DiskBody blockSize → Nat
  | dir .. | ldir .. | file .. | lfile .. | symlink .. | lsymlink .. => blockSize
  | _ => 0

end DiskBody

/-- The attributes of an inode that is no device. The owner is an index in the ID table. -/
def diskAttr {blockSize : Nat} (header : DiskHeader) (body : DiskBody blockSize) :
    SqfsVfsAttr where
  ino := header.inodeNumber.toNat
  mode := header.permissions.toNat ||| fileTypeBits body.type
  nlink := body.linkCount
  uid := header.uidIdx.toNat
  gid := header.gidIdx.toNat
  size := body.size
  blocks := body.units
  blksize := body.unit
  atime := header.mtime.toNat
  mtime := header.mtime.toNat
  ctime := header.mtime.toNat
  rdevMajor := 0
  rdevMinor := 0

def diskFile (blockSize blocksStart fileSize fragIdx fragOffset : Nat)
    (blockSizes : List UInt32) : SqfsFileCtx where
  fileSize
  blocksStart
  blockSize
  blockCount := (calculateBlockLayout fileSize blockSize fragIdx).1
  tailSize := (calculateBlockLayout fileSize blockSize fragIdx).2
  fragIdx
  fragOffset
  blockSizes := blockSizes.map UInt32.toNat

def DiskBody.file? {blockSize : Nat} : DiskBody blockSize → Option SqfsFileCtx
  | .file blocksStart fragIdx blockOffset fileSize blockSizes _ =>
      some (diskFile blockSize blocksStart.toNat fileSize.toNat fragIdx.toNat
        blockOffset.toNat blockSizes)
  | .lfile blocksStart fileSize _ _ fragIdx blockOffset _ blockSizes _ =>
      some (diskFile blockSize blocksStart.toNat fileSize.toNat fragIdx.toNat
        blockOffset.toNat blockSizes)
  | _ => none

/-! ## Trees -/

structure DiskNode (blockSize : Nat) where
  header : DiskHeader
  body : DiskBody blockSize
  listing : List DirRun

/-- Inodes by their references. -/
structure DiskTree (blockSize : Nat) where
  root : Nat
  nodeAt : Nat → DiskNode blockSize

def DiskNode.fileNode (ctx : SqfsCtx) (node : DiskNode ctx.sb.blockSize) :
    FileNode Nat (List UInt8) (Nat × Nat) UInt8 :=
  match node.body with
  | .dir .. | .ldir .. => .directory ((listedDirents node.listing).map SqfsDirent.entry)
  | .symlink _ _ target _ | .lsymlink _ _ target .. => .link target
  | body =>
      match body.file? with
      | some file => .file ((fileContent ctx file).take file.fileSize)
      | none => .other

def SqfsCtx.statvfs (ctx : SqfsCtx) : Statvfs where
  fBsize := ctx.sb.blockSize
  fFrsize := ctx.sb.blockSize
  fBlocks := ctx.sb.disk.bytesUsed / ctx.sb.blockSize
  fBfree := 0
  fBavail := 0
  fFiles := ctx.sb.disk.inodeCount
  fFfree := 0
  fFavail := 0
  fFsid := 0
  fFlag := 1
  fNamemax := 256

theorem sqfsFuseStatfs_eq (ctx : SqfsCtx) : sqfsFuseStatfs ctx = .ok ctx.statvfs := by
  have blocks : divideBy ctx.sb.disk.bytesUsed ctx.sb.disk.blockSize =
      .ok (ctx.sb.disk.bytesUsed / ctx.sb.disk.blockSize) :=
    divideBy_of_pos _ ctx.sb.blockSize_pos
  rw [sqfsFuseStatfs, sqfsVfsStatfs, blocks]
  rfl

/-- The file system that a tree is. -/
def DiskTree.store (ctx : SqfsCtx) (tree : DiskTree ctx.sb.blockSize) : ImageStore where
  root := tree.root
  attr := fun ref => (diskAttr (tree.nodeAt ref).header (tree.nodeAt ref).body).toStat
  node := fun ref => (tree.nodeAt ref).fileNode ctx
  summary := ctx.statvfs

/-- The inode lies at a reference, and does not run across the end of the metadata block it
starts in, which is one that unpacks in place. -/
structure InodeAt (ctx : SqfsCtx) (ref : Nat) (header : DiskHeader)
    (body : DiskBody ctx.sb.blockSize) : Prop where
  placed : ∃ (stream : MetaStream ctx.image ctx.comp) (idx offset relative : Nat)
    (block : MetaBlock ctx.image ctx.comp), ref = relative * 2 ^ 16 + offset ∧
    stream.blocks[idx]? = some block ∧ block.pos = ctx.sb.disk.inodeTable + relative ∧
    encodeInode header body <+: stream.bytesFrom idx offset ∧
    offset + body.decodedLength ≤ block.content.length ∧ block.InPlace

/-- What is asked of an inode: a directory is a basic one whose listing is where it says and
has no negative inode number, a file is well-formed and unpacks in place. Extended directories
and links, and devices, are decoded wrong. -/
def DiskNode.Readable (ctx : SqfsCtx) (node : DiskNode ctx.sb.blockSize) : Prop :=
  match node.body with
  | .dir blockIdx _ fileSize blockOffset _ =>
      fileSize.toNat = (encodeListing node.listing).length + 3 ∧
        (node.listing ≠ [] → ListingAt ctx blockIdx blockOffset node.listing) ∧
        ∀ run ∈ node.listing, ∀ entry ∈ run.entries, entry.SumNonneg run.inodeNumber
  | .file .. | .lfile .. => ∀ file, node.body.file? = some file →
      WellFormedFile ctx file ∧ UnpacksInPlace ctx file
  | .symlink .. | .fifo .. | .socket .. | .lfifo .. | .lsocket .. => True
  | .ldir .. | .lsymlink .. | .blkdev .. | .chrdev .. | .lblkdev .. | .lchrdev .. => False

def DiskTree.HasFile (ctx : SqfsCtx) (tree : DiskTree ctx.sb.blockSize) (file : SqfsFileCtx) :
    Prop :=
  ∃ ref, (tree.store ctx).Reachable ref ∧ (tree.nodeAt ref).body.file? = some file

/-- The image has the tree in its tables. Files use each position on disk with one size word,
and no position of a block is the index of a fragment block. -/
structure DiskTree.Stored (ctx : SqfsCtx) (tree : DiskTree ctx.sb.blockSize) : Prop where
  root : tree.root = ctx.sb.disk.rootInode
  placed : ∀ ref, (tree.store ctx).Reachable ref →
    InodeAt ctx ref (tree.nodeAt ref).header (tree.nodeAt ref).body
  readable : ∀ ref, (tree.store ctx).Reachable ref → (tree.nodeAt ref).Readable ctx
  oneSizeWord : ∀ file other, tree.HasFile ctx file → tree.HasFile ctx other →
    ∀ idx otherIdx location otherLocation,
    sqfsFileBlockLocation file idx = .ok location → location.size ≠ 0 →
    sqfsFileBlockLocation other otherIdx = .ok otherLocation → otherLocation.size ≠ 0 →
    location.pos = otherLocation.pos → location.size = otherLocation.size
  keysApart : ∀ file other, tree.HasFile ctx file → tree.HasFile ctx other →
    ∀ idx location, sqfsFileBlockLocation file idx = .ok location → location.size ≠ 0 →
    sqfsFragmentIsNone other.fragIdx = false →
    sqfsDataBlockCacheKey location.pos ≠ sqfsFragmentCacheKey other.fragIdx

/-! ## Reading an inode -/

section Reading

variable {ctx : SqfsCtx} {ref : Nat} {header : DiskHeader} {body : DiskBody ctx.sb.blockSize}

theorem InodeAt.get (stored : InodeAt ctx ref header body) (address : Nat) :
    sqfsInodeGetByRef ctx ref address =
      parseInode (encodeInode header body) ctx.sb.blockSize address .calloc := by
  rcases stored.placed with
    ⟨stream, idx, offset, relative, block, rfl, found, located, placed, fits, inPlace⟩
  have content := block.content_le
  rw [sqfsMetaBlockSize] at content
  rw [sqfsInodeGetByRef_of_placed inPlace found located (by omega) placed, maxInodeSize,
    Nat.min_eq_left (by omega), if_neg (by omega), parseInode_take_decodedLength]

def SizeBack (inode : SqfsInode) : DiskBody ctx.sb.blockSize → Prop
  | .dir _ _ fileSize _ _ => inode.get .dirSize = fileSize.toNat - 3
  | .file _ _ _ fileSize .. => inode.get .fileFileSize = fileSize.toNat
  | .lfile _ fileSize .. => inode.get .fileFileSize = fileSize.toNat
  | .symlink _ targetSize .. => inode.get .symlinkTargetSize = targetSize.toNat
  | .fifo .. | .socket .. | .lfifo .. | .lsocket .. => True
  | _ => False

theorem sqfsVfsFillAttr_of_readsBack {inode : SqfsInode}
    (headerBack : header.ReadsBack body.type inode) (links : inode.linkCount = body.linkCount)
    (sizeBack : SizeBack inode body) : sqfsVfsFillAttr ctx inode = diskAttr header body := by
  have ino := headerBack.inodeNumber
  have permissions := headerBack.permissions
  have uid := headerBack.uid
  have gid := headerBack.gid
  have mtime := headerBack.mtime
  have type := headerBack.type
  cases body with
  | dir blockIdx linkCount fileSize blockOffset parentInode =>
      have inRange := fileSize.toNat_lt
      have small : fileSize.toNat - 3 + 511 < 2 ^ 32 := by omega
      have sizeBack : inode.get .dirSize = fileSize.toNat - 3 := sizeBack
      simp only [sqfsVfsFillAttr, type, diskAttr, DiskBody.size, DiskBody.units, DiskBody.unit,
        DiskBody.type, ino, permissions, uid, gid, mtime, links, sizeBack, u32_of_lt small]
  | file blocksStart fragIdx blockOffset fileSize blockSizes implied =>
      have inRange := fileSize.toNat_lt
      have small : fileSize.toNat + 511 < 2 ^ 64 := by omega
      have sizeBack : inode.get .fileFileSize = fileSize.toNat := sizeBack
      simp only [sqfsVfsFillAttr, type, diskAttr, DiskBody.size, DiskBody.units, DiskBody.unit,
        DiskBody.type, ino, permissions, uid, gid, mtime, links, sizeBack, u64_of_lt small]
  | lfile blocksStart fileSize sparse linkCount fragIdx blockOffset xattrIdx blockSizes
      implied =>
      have sizeBack : inode.get .fileFileSize = fileSize.toNat := sizeBack
      simp only [sqfsVfsFillAttr, type, diskAttr, DiskBody.size, DiskBody.units, DiskBody.unit,
        DiskBody.type, ino, permissions, uid, gid, mtime, links, sizeBack]
  | symlink linkCount targetSize target implied =>
      have sizeBack : inode.get .symlinkTargetSize = targetSize.toNat := sizeBack
      simp only [sqfsVfsFillAttr, type, diskAttr, DiskBody.size, DiskBody.units, DiskBody.unit,
        DiskBody.type, ino, permissions, uid, gid, mtime, links, sizeBack]
  | fifo | socket | lfifo | lsocket =>
      simp only [sqfsVfsFillAttr, type, diskAttr, DiskBody.size, DiskBody.units, DiskBody.unit,
        DiskBody.type, ino, permissions, uid, gid, mtime, links]
  | ldir | lsymlink | blkdev | chrdev | lblkdev | lchrdev => cases sizeBack

structure ShowsDisk (ctx : SqfsCtx) (node : DiskNode ctx.sb.blockSize) (inode : SqfsInode) :
    Prop where
  attr : sqfsVfsFillAttr ctx inode = diskAttr node.header node.body
  shown : ShowsNode ctx inode (node.fileNode ctx)
  file : ∀ file, sqfsFileCtxInit ctx.sb inode = .ok file → node.body.file? = some file

def DecodesTo (ctx : SqfsCtx) (node : DiskNode ctx.sb.blockSize) (address : UInt64) : Prop :=
  ∃ inode, parseInode (encodeInode node.header node.body) ctx.sb.blockSize address.toNat
      .calloc = .ok inode ∧ ShowsDisk ctx node inode

theorem not_sqfsFileCtxInit {inode : SqfsInode} (notFile : sqfsInodeIsFile inode.type = false)
    (file : SqfsFileCtx) : sqfsFileCtxInit ctx.sb inode ≠ .ok file := by
  rw [sqfsFileCtxInit, if_pos notFile]
  intro impossible
  cases impossible

variable {listing : List DirRun}

private theorem decodesTo_dir (address : UInt64) (blockIdx linkCount : UInt32)
    (fileSize blockOffset : UInt16) (parentInode : UInt32)
    (readable : (⟨header, .dir blockIdx linkCount fileSize blockOffset parentInode, listing⟩ :
      DiskNode ctx.sb.blockSize).Readable ctx) :
    DecodesTo ctx ⟨header, .dir blockIdx linkCount fileSize blockOffset parentInode, listing⟩
      address := by
  rcases readable with ⟨sized, stored, nonneg⟩
  change fileSize.toNat = (encodeListing listing).length + 3 at sized
  have inRange := fileSize.toNat_lt
  rcases @parseInode_dir ctx.sb.blockSize header address.toNat blockIdx linkCount fileSize
    blockOffset parentInode with ⟨inode, parsed, type, index, offset, size⟩
  rcases @decodes_dir ctx.sb.blockSize header address.toNat blockIdx linkCount fileSize
    blockOffset parentInode with ⟨other, otherParsed, headerBack, bodyBack⟩
  obtain rfl : inode = other := Outcome.ok.inj (parsed.symm.trans otherParsed)
  have links := (bodyBack.mpr trivial).2.1
  have isDir : sqfsInodeIsDir inode.type = true := by rw [type]; rfl
  rw [if_pos (by omega)] at size
  have notFile : sqfsInodeIsFile inode.type = false := by rw [type]; rfl
  refine ⟨inode, parsed, sqfsVfsFillAttr_of_readsBack headerBack links size,
    ⟨isDir, listedDirents listing, ?_, rfl⟩,
    fun file init => absurd init (not_sqfsFileCtxInit notFile file)⟩
  · by_cases empty : listing = []
    · subst empty
      apply sqfsDirRead_of_empty isDir
      rw [size, sized]
      rfl
    · have length := encodeListing_length listing
      have runs := List.length_pos_of_ne_nil empty
      rw [← (parsedDirents_eq_iff listing).mpr nonneg]
      exact sqfsDirRead_of_listing isDir index offset (by omega) (by omega) (by omega)
        (stored empty)

private theorem sqfsFileCtxInit_diskFile {sb : SqfsSuperblock} {inode : SqfsInode}
    {blocksStart fileSize fragIdx fragOffset : Nat} {blockSizes : List UInt32}
    (isFile : sqfsInodeIsFile inode.type = true)
    (startBack : inode.get .fileBlocksStart = blocksStart)
    (sizeBack : inode.get .fileFileSize = fileSize)
    (fragBack : inode.get .fileFragIdx = fragIdx)
    (offsetBack : inode.get .fileBlockOffset = fragOffset)
    (blocksBack : inode.blockSizes = blockSizes.map UInt32.toNat) :
    sqfsFileCtxInit sb inode =
      .ok (diskFile sb.blockSize blocksStart fileSize fragIdx fragOffset blockSizes) := by
  rw [sqfsFileCtxInit, if_neg (by rw [isFile]; decide), startBack, sizeBack, fragBack,
    offsetBack, blocksBack]
  rfl

private theorem parseInode_file_linkCount {blockSize : Nat} (header : DiskHeader) (address : Nat)
    (blocksStart fragIdx blockOffset fileSize : UInt32) (blockSizes : List UInt32)
    (implied : blockSizes.length = impliedBlockCount fileSize.toNat blockSize fragIdx) :
    (parseInode (encodeInode header (.file blocksStart fragIdx blockOffset fileSize blockSizes
      implied)) blockSize address .calloc).Ensures fun inode => inode.linkCount = 1 := by
  have links (data : List UInt8) (inode : SqfsInode) :
      (parseInodeFile data blockSize inode).Ensures fun result => result.1.linkCount = 1 := by
    simp [parseInodeFile]
  rw [parseInode_encode, Outcome.ensures_bind]
  intro result decoded
  have one := links _ _ result decoded
  dsimp only
  split
  · exact Outcome.ensures_err _
  · exact (Outcome.ensures_ok _).mpr one

private theorem decodesTo_file (address : UInt64) (blocksStart fragIdx blockOffset fileSize : UInt32)
    (blockSizes : List UInt32)
    (implied : blockSizes.length = impliedBlockCount fileSize.toNat ctx.sb.blockSize fragIdx)
    (readable : (⟨header, .file blocksStart fragIdx blockOffset fileSize blockSizes implied,
      listing⟩ : DiskNode ctx.sb.blockSize).Readable ctx) :
    DecodesTo ctx ⟨header, .file blocksStart fragIdx blockOffset fileSize blockSizes implied,
      listing⟩ address := by
  rcases decodes_file ctx.sb header address.toNat blocksStart fragIdx blockOffset fileSize
    blockSizes implied with ⟨inode, parsed, headerBack, bodyBack⟩
  rcases bodyBack.mpr trivial with ⟨startBack, fragBack, offsetBack, sizeBack, blocksBack⟩
  have links := parseInode_file_linkCount header address.toNat blocksStart fragIdx blockOffset
    fileSize blockSizes implied inode parsed
  have isFile : sqfsInodeIsFile inode.type = true := by rw [headerBack.type]; rfl
  have init := @sqfsFileCtxInit_diskFile ctx.sb inode _ _ _ _ _ isFile startBack sizeBack
    fragBack offsetBack blocksBack
  exact ⟨inode, parsed, sqfsVfsFillAttr_of_readsBack headerBack links sizeBack,
    ⟨isFile, _, init, (readable _ rfl).1, (readable _ rfl).2, rfl⟩,
    fun file same => congrArg some (Except.ok.inj (init.symm.trans same))⟩

private theorem decodesTo_lfile (address : UInt64) (blocksStart fileSize sparse : UInt64)
    (linkCount fragIdx blockOffset xattrIdx : UInt32) (blockSizes : List UInt32)
    (implied : blockSizes.length = impliedBlockCount fileSize.toNat ctx.sb.blockSize fragIdx)
    (fits : (.lfile blocksStart fileSize sparse linkCount fragIdx blockOffset xattrIdx
      blockSizes implied : DiskBody ctx.sb.blockSize).decodedLength ≤ sqfsMetaBlockSize)
    (readable : (⟨header, .lfile blocksStart fileSize sparse linkCount fragIdx blockOffset
      xattrIdx blockSizes implied, listing⟩ : DiskNode ctx.sb.blockSize).Readable ctx) :
    DecodesTo ctx ⟨header, .lfile blocksStart fileSize sparse linkCount fragIdx blockOffset
      xattrIdx blockSizes implied, listing⟩ address := by
  rcases readable _ rfl with ⟨wellFormed, unpacks⟩
  have listed : blockSizes.length < 2 ^ 32 := by
    have length := wellFormed.listed
    have counted := calculateBlockLayout_lt fileSize.toNat ctx.sb.blockSize fragIdx.toNat
    simp only [diskFile, List.length_map] at length
    omega
  have few : blockSizes.length < 2 ^ 30 := by
    rw [DiskBody.decodedLength, u32_of_lt listed, sqfsMetaBlockSize] at fits
    omega
  rcases decodes_lfile ctx.sb header address.toNat blocksStart fileSize sparse linkCount fragIdx
    blockOffset xattrIdx blockSizes implied with ⟨inode, parsed, headerBack, bodyBack⟩
  have survives : ∀ idx < blockSizes.length, blockSizes[idx % 2 ^ 30]? = blockSizes[idx]? := by
    intro idx inside
    rw [Nat.mod_eq_of_lt (by omega)]
  rcases bodyBack.mpr ⟨listed, survives⟩ with
    ⟨startBack, sizeBack, -, links, fragBack, offsetBack, -, blocksBack⟩
  have isFile : sqfsInodeIsFile inode.type = true := by rw [headerBack.type]; rfl
  have init := @sqfsFileCtxInit_diskFile ctx.sb inode _ _ _ _ _ isFile startBack sizeBack
    fragBack offsetBack blocksBack
  exact ⟨inode, parsed, sqfsVfsFillAttr_of_readsBack headerBack links sizeBack,
    ⟨isFile, _, init, wellFormed, unpacks, rfl⟩,
    fun file same => congrArg some (Except.ok.inj (init.symm.trans same))⟩

private theorem decodesTo_symlink (address : UInt64) (linkCount targetSize : UInt32)
    (target : List UInt8) (implied : target.length = targetSize.toNat)
    (fits : targetSize.toNat + 1 < 2 ^ 32) :
    DecodesTo ctx ⟨header, .symlink linkCount targetSize target implied, listing⟩ address := by
  rcases @decodes_symlink ctx.sb.blockSize header address linkCount targetSize target implied
    fits with ⟨inode, parsed, headerBack, bodyBack⟩
  rcases bodyBack.mpr trivial with ⟨links, sizeBack, stored⟩
  have isLink : sqfsInodeIsSymlink inode.type = true := by rw [headerBack.type]; rfl
  have notFile : sqfsInodeIsFile inode.type = false := by rw [headerBack.type]; rfl
  exact ⟨inode, parsed, sqfsVfsFillAttr_of_readsBack headerBack links sizeBack,
    ⟨isLink, by rw [sizeBack, implied], [0], stored⟩,
    fun file init => absurd init (not_sqfsFileCtxInit notFile file)⟩

theorem decodesTo_ipc {address : UInt64} (linkCount xattrIdx : UInt32) :
    DecodesTo ctx ⟨header, .fifo linkCount, listing⟩ address ∧
      DecodesTo ctx ⟨header, .socket linkCount, listing⟩ address ∧
      DecodesTo ctx ⟨header, .lfifo linkCount xattrIdx, listing⟩ address ∧
      DecodesTo ctx ⟨header, .lsocket linkCount xattrIdx, listing⟩ address := by
  have shows {body : DiskBody ctx.sb.blockSize} (decodes : DecodesIf header body address.toNat
      True) (links : ∀ inode, body.ReadsBack inode → inode.linkCount = body.linkCount)
      (sizeBack : ∀ inode, SizeBack inode body)
      (other : sqfsInodeIsDir body.type = false ∧ sqfsInodeIsFile body.type = false ∧
        sqfsInodeIsSymlink body.type = false)
      (node : (⟨header, body, listing⟩ : DiskNode ctx.sb.blockSize).fileNode ctx = .other) :
      DecodesTo ctx ⟨header, body, listing⟩ address := by
    rcases decodes with ⟨inode, parsed, headerBack, bodyBack⟩
    refine ⟨inode, parsed, sqfsVfsFillAttr_of_readsBack headerBack
      (links inode (bodyBack.mpr trivial)) (sizeBack inode), ?_, ?_⟩
    · rw [node, ShowsNode, headerBack.type]
      exact other
    · intro file init
      exact absurd init (not_sqfsFileCtxInit (headerBack.type ▸ other.2.1) file)
  exact ⟨shows (decodes_ipc ..).1 (fun _ back => back) (fun _ => trivial) ⟨rfl, rfl, rfl⟩ rfl,
    shows (decodes_ipc ..).2 (fun _ back => back) (fun _ => trivial) ⟨rfl, rfl, rfl⟩ rfl,
    shows (decodes_lipc ..).1 (fun _ back => back.1) (fun _ => trivial) ⟨rfl, rfl, rfl⟩ rfl,
    shows (decodes_lipc ..).2 (fun _ back => back.1) (fun _ => trivial) ⟨rfl, rfl, rfl⟩ rfl⟩

theorem InodeAt.shows {node : DiskNode ctx.sb.blockSize}
    (stored : InodeAt ctx ref node.header node.body) (readable : node.Readable ctx)
    (address : UInt64) :
    ∃ inode, sqfsInodeGetByRef ctx ref address.toNat = .ok inode ∧
      ShowsDisk ctx node inode := by
  rw [stored.get address.toNat]
  have fits : node.body.decodedLength ≤ sqfsMetaBlockSize := by
    rcases stored.placed with ⟨stream, idx, offset, relative, block, -, -, -, -, fits⟩
    have content := block.content_le
    omega
  rcases node with ⟨header, body, listing⟩
  cases body with
  | dir blockIdx linkCount fileSize blockOffset parentInode =>
      exact decodesTo_dir address blockIdx linkCount fileSize blockOffset parentInode readable
  | file blocksStart fragIdx blockOffset fileSize blockSizes implied =>
      exact decodesTo_file address blocksStart fragIdx blockOffset fileSize blockSizes implied
        readable
  | lfile blocksStart fileSize sparse linkCount fragIdx blockOffset xattrIdx blockSizes
      implied =>
      exact decodesTo_lfile address blocksStart fileSize sparse linkCount fragIdx blockOffset
        xattrIdx blockSizes implied fits readable
  | symlink linkCount targetSize target implied =>
      apply decodesTo_symlink
      simp [DiskBody.decodedLength, DiskBody.encode, implied, sqfsMetaBlockSize] at fits
      omega
  | fifo linkCount => exact (decodesTo_ipc linkCount 0).1
  | socket linkCount => exact (decodesTo_ipc linkCount 0).2.1
  | lfifo linkCount xattrIdx => exact (decodesTo_ipc linkCount xattrIdx).2.2.1
  | lsocket linkCount xattrIdx => exact (decodesTo_ipc linkCount xattrIdx).2.2.2
  | ldir | lsymlink | blkdev | chrdev | lblkdev | lchrdev => cases readable

end Reading

/-! ## Reading a tree -/

section Stored

variable {ctx : SqfsCtx} {tree : DiskTree ctx.sb.blockSize} {file : SqfsFileCtx}

theorem DiskTree.Stored.hasFile (stored : tree.Stored ctx)
    (opens : Opens ctx (tree.store ctx) file) : tree.HasFile ctx file := by
  rcases opens with ⟨ref, inode, content, ⟨reachable, address, loaded⟩, -, init⟩
  rcases (stored.placed ref reachable).shows (stored.readable ref reachable) address with
    ⟨same, sameLoaded, shown⟩
  rw [loaded] at sameLoaded
  cases sameLoaded
  exact ⟨ref, reachable, shown.file file init⟩

/-- Every inode of the tree that can be come to is read with the attributes, the entries, the
content or the target it has on disk. -/
theorem DiskTree.Stored.stores (stored : tree.Stored ctx) : Stores ctx (tree.store ctx) where
  root := stored.root
  summary := sqfsFuseStatfs_eq ctx
  shows := by
    intro ref reachable address
    rcases (stored.placed ref reachable).shows (stored.readable ref reachable) address with
      ⟨inode, loaded, shown⟩
    exact ⟨inode, loaded, congrArg SqfsVfsAttr.toStat shown.attr, shown.shown⟩
  oneSizeWord := fun file other opens otherOpens =>
    stored.oneSizeWord file other (stored.hasFile opens) (stored.hasFile otherOpens)
  keysApart := fun file other opens otherOpens =>
    stored.keysApart file other (stored.hasFile opens) (stored.hasFile otherOpens)

end Stored

end SquashfsFuse
