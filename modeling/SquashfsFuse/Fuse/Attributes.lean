import SquashfsFuse.Fuse.ImageLayout
import SquashfsFuse.Vfs.VfsOps
import SquashfsFuse.Xattr.Pairs

/-! The extended attributes of a mounted image. -/

namespace SquashfsFuse

/-! ## The table on disk -/

def SqfsXattrIdEntry.encode (entry : SqfsXattrIdEntry) : List UInt8 :=
  leBytes 8 entry.xattrRef ++ leBytes 4 entry.count ++ leBytes 4 entry.size

/-- The table of extended attributes of an image: a header with the position of the
pairs and the number of sets, the lookup table behind it, and the pairs. -/
structure DiskXattrTable (ctx : SqfsCtx) where
  kvStart : Nat
  unused : Nat
  entries : List SqfsXattrIdEntry
  header : ctx.image.diskBytes ctx.sb.disk.xattrTable 16 =
    some (leBytes 8 kvStart ++ leBytes 4 entries.length ++ leBytes 4 unused)
  lookup : LookupTable ctx.image ctx.comp (ctx.sb.disk.xattrTable + 16)
    (entries.flatMap SqfsXattrIdEntry.encode)
  stream : MetaStream ctx.image ctx.comp
  chopped : stream.Chopped
  sets : ∀ idx : Fin entries.length, XattrSet stream kvStart entries[idx]

/-! ## The service -/

def Roomy (needed : Nat) (size : Option Nat) : Prop := ∀ room, size = some room → needed ≤ room

def copiedTo (size : Option Nat) (bytes : List UInt8) : List UInt8 :=
  if size.isSome then bytes else []

/-- `getxattr` and `listxattr` serve the given attributes. -/
structure ServesXattrs (ctx : SqfsCtx) (path : List UInt8) (address : Nat)
    (xattrs : List SqfsXattr) : Prop where
  present : ∀ name xattr size, xattrs.find? (fun xattr => xattr.key == name) = some xattr →
    Roomy xattr.value.length size → sqfsVfsGetxattr ctx path name size address =
      .ok (xattr.value.length, copiedTo size xattr.value)
  absent : ∀ name size, xattrs.find? (fun xattr => xattr.key == name) = none →
    sqfsVfsGetxattr ctx path name size address = .err .enodata
  names : ∀ size, Roomy (xattrs.flatMap fun xattr => xattr.key ++ [0]).length size →
    sqfsVfsListxattr ctx path size address =
      .ok ((xattrs.flatMap fun xattr => xattr.key ++ [0]).length,
        copiedTo size (xattrs.flatMap fun xattr => xattr.key ++ [0]))

private theorem sqfsVfsGetxattr_notLoaded {ctx : SqfsCtx} {path : List UInt8} {address : Nat}
    {inode : SqfsInode} (hasXattrs : ctx.sb.hasXattrs = true)
    (resolved : sqfsVfsResolvePath ctx path address = .ok inode)
    (designates : getXattrIdxFromInode inode ≠ sqfsXattrInvalidIdx)
    (notLoaded : ctx.xattrTable = none) (name : List UInt8) (size : Option Nat) :
    sqfsVfsGetxattr ctx path name size address =
      sqfsInodeFree inode >>= fun _ => .err .enoent := by
  have missing : sqfsXattrGet ctx (getXattrIdxFromInode inode) name size =
      .err (.notFound, 0) := by
    rw [sqfsXattrGet, notLoaded]
    rfl
  rw [sqfsVfsGetxattr, hasXattrs, if_neg (by decide), resolved, Outcome.ok_bind]
  dsimp only
  rw [if_neg designates, missing]
  rfl

private theorem free_then_fail_ne {inode : SqfsInode} {errno : Errno} {outcome : Vfs α}
    (other : outcome ≠ .err errno) (defined : outcome.Defined) :
    (sqfsInodeFree inode >>= fun _ => .err errno) ≠ outcome := by
  rintro rfl
  rcases @sqfsInodeFree_cases Errno inode with ⟨-, freed⟩ | ⟨-, crashed⟩
  · rw [freed] at other
    exact other rfl
  · rw [crashed] at defined
    exact defined rfl

/-- A mounted image serves no attributes at all. -/
theorem not_servesXattrs (sqfsCompressorCreate : Nat → Option Compressor) (image : Image)
    (cacheSizeMb : Nat) (noCache : Bool) (mounted : MountedCtx)
    (initialised : initContext sqfsCompressorCreate image cacheSizeMb noCache = .ok mounted)
    (hasXattrs : mounted.ctx.sb.hasXattrs = true) (path : List UInt8) (address : Nat)
    (inode : SqfsInode) (resolved : sqfsVfsResolvePath mounted.ctx path address = .ok inode)
    (designates : getXattrIdxFromInode inode ≠ sqfsXattrInvalidIdx)
    (xattrs : List SqfsXattr) : ¬ ServesXattrs mounted.ctx path address xattrs := by
  intro serves
  have fails := sqfsVfsGetxattr_notLoaded hasXattrs resolved designates
    (initContext_mounts initialised).xattrTable
  cases xattrs with
  | nil =>
      have answer := serves.absent [] none rfl
      rw [fails] at answer
      exact free_then_fail_ne (by decide) (Outcome.defined_err _) answer
  | cons xattr xattrs =>
      have found : (xattr :: xattrs).find? (fun other => other.key == xattr.key) = some xattr :=
        List.find?_cons_of_pos (beq_self_eq_true _)
      have answer := serves.present xattr.key xattr none found (fun _ none => nomatch none)
      rw [fails] at answer
      exact free_then_fail_ne (by intro same; cases same) (Outcome.defined_ok _) answer

/-! ## An image with one attribute -/

def attributedRoot : List UInt8 :=
  encodeInode ⟨0o755, 0, 0, 0, 1⟩ (.ldir 2 3 0 2 0 0 0 : DiskBody 4096)

def attributedEntry : SqfsXattrIdEntry := ⟨0, 1, 10⟩

def attributedHeader : List UInt8 := leBytes 8 152 ++ leBytes 4 1 ++ leBytes 4 0

/-- An image with the attribute `user.a` of the root. -/
def attributedImage : Image where
  bytes := rootImage 0 182 attributedRoot 0 (
    leBytes 2 (2 ^ 15 + 10) ++ encodeXattrs [firstPair] ++
      leBytes 2 (2 ^ 15 + 16) ++ attributedEntry.encode ++ attributedHeader ++ leBytes 8 164)
  sizeInOffT := by decide +kernel

def attributedBlock {ctx : SqfsCtx} (onImage : ctx.image = attributedImage) :
    MetaBlock ctx.image ctx.comp :=
  .ofStored ctx.image ctx.comp (attributedImage.bytes.take 152) (encodeXattrs [firstPair])
    (attributedImage.bytes.drop 164) (by rw [onImage]; decide +kernel) (by decide) (by decide)

private theorem attributedBlock_pos {ctx : SqfsCtx} (onImage : ctx.image = attributedImage) :
    (attributedBlock onImage).pos = 152 := by
  change (attributedImage.bytes.take 152).length = 152
  decide +kernel

def attributedTable {ctx : SqfsCtx} (onImage : ctx.image = attributedImage)
    (located : ctx.sb.disk.xattrTable = 182) : DiskXattrTable ctx where
  kvStart := 152
  unused := 0
  entries := [attributedEntry]
  header := by rw [onImage, located]; decide +kernel
  lookup := .ofStored ctx.image ctx.comp (attributedImage.bytes.take 164)
    ([attributedEntry].flatMap SqfsXattrIdEntry.encode) attributedHeader []
    (by rw [onImage]; decide +kernel) (by decide) (by decide) (by rw [located]; decide +kernel)
  stream := ⟨[attributedBlock onImage], .singleton _⟩
  chopped := .singleton _
  sets
    | ⟨0, _⟩ => {
        place := ⟨0, attributedBlock onImage, 0, 0, rfl, attributedBlock_pos onImage, rfl,
          Nat.zero_le _⟩
        pairs := [firstPair]
        counted := List.length_singleton
        sized := firstPair_length
        placed := ⟨[], rfl⟩ }

private theorem attributedTable_denotes {ctx : SqfsCtx} (onImage : ctx.image = attributedImage)
    (located : ctx.sb.disk.xattrTable = 182) :
    ∀ idx, ((attributedTable onImage located).sets idx).Denotes [firstPair.parsed]
  | ⟨0, _⟩ => .cons ⟨rfl, rfl⟩ .nil

/-- The mounted image. -/
def attributed : MountedCtx := mountedOn attributedImage false

def attributedInode : SqfsInode :=
  (parseInode attributedRoot 4096 0 .calloc).toOption.getD .calloc

private theorem attributed_resolves :
    sqfsVfsResolvePath attributed.ctx [slash] 0 = .ok attributedInode := by
  have blockSize : attributed.ctx.sb.blockSize = 4096 := by decide +kernel
  have decoded : parseInode attributedRoot 4096 0 .calloc = .ok attributedInode :=
    Outcome.eq_ok_getD (by decide +kernel)
  rw [← blockSize] at decoded
  exact sqfsVfsResolvePath_root (by decide +kernel) decoded

/-- The attribute of the root is not served. -/
theorem not_servesXattrs_attributed :
    ¬ ServesXattrs attributed.ctx [slash] 0 [firstPair.parsed] :=
  not_servesXattrs gzipOnly attributedImage 32 false attributed
    (initContext_mountedOn (by decide +kernel)) (by decide +kernel) [slash] 0 attributedInode
    attributed_resolves (by decide +kernel) [firstPair.parsed]

/-- A mounted image need not serve the attributes that it has. -/
theorem mounted_misses_xattrs :
    ¬ ∀ (sqfsCompressorCreate : Nat → Option Compressor) (image : Image) (cacheSizeMb : Nat)
      (noCache : Bool) (mounted : MountedCtx),
      initContext sqfsCompressorCreate image cacheSizeMb noCache = .ok mounted →
      mounted.ctx.sb.hasXattrs = true →
      ∀ (table : DiskXattrTable mounted.ctx) (path : List UInt8) (address : Nat)
        (inode : SqfsInode), sqfsVfsResolvePath mounted.ctx path address = .ok inode →
      ∀ (listed : getXattrIdxFromInode inode < table.entries.length) (xattrs : List SqfsXattr),
        (table.sets ⟨_, listed⟩).Denotes xattrs →
        ServesXattrs mounted.ctx path address xattrs := by
  intro claim
  have mounted : initContext gzipOnly attributedImage 32 false = .ok attributed :=
    initContext_mountedOn (by decide +kernel)
  have onImage := (initContext_mounts mounted).onImage
  have designated : getXattrIdxFromInode attributedInode = 0 := by decide +kernel
  have located : attributed.ctx.sb.disk.xattrTable = 182 := by decide +kernel
  let table : DiskXattrTable attributed.ctx := attributedTable onImage located
  have listed : getXattrIdxFromInode attributedInode < table.entries.length := by
    rw [designated]
    exact Nat.zero_lt_one
  have serves := claim gzipOnly attributedImage 32 false attributed mounted (by decide +kernel)
    table [slash] 0 attributedInode attributed_resolves listed [firstPair.parsed]
    (attributedTable_denotes onImage located _)
  have answer := serves.present firstPair.key firstPair.parsed none (by decide)
    (fun _ none => nomatch none)
  have fails : sqfsVfsGetxattr attributed.ctx [slash] firstPair.key none 0 = .err .enoent := by
    decide +kernel
  rw [fails] at answer
  cases answer

end SquashfsFuse
