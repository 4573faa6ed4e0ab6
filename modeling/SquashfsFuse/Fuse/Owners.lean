import SquashfsFuse.Fuse.ImageLayout
import SquashfsFuse.Inode.Decoding
import SquashfsFuse.Vfs.VfsOps

/-! Who owns the inodes of an image. -/

namespace SquashfsFuse

/-! ## Indices in inodes -/

private theorem parseInode_owner {data : List UInt8} {blockSize address : Nat} {inode : SqfsInode}
    {header : SqfsInodeHeader} (parsed : parseInodeHeader data = .ok header) :
    (parseInode data blockSize address inode).Ensures fun result =>
      result.uid = header.uidIdx ∧ result.gid = header.gidIdx := by
  unfold parseInode
  split
  · exact Outcome.ensures_err _
  · rw [parsed, Outcome.ok_bind]
    cases InodeType.ofCode header.type with
    | none => exact Outcome.ensures_err _
    | some type =>
        rw [Outcome.ensures_bind]
        intro result decoded
        rcases parseInodeOfType_header _ _ _ _ _ result decoded with ⟨-, -, uid, gid, -⟩
        dsimp only
        split
        · exact Outcome.ensures_err _
        · exact (Outcome.ensures_ok _).mpr ⟨uid, gid⟩

/-! ## The ID table -/

def encodeIds (ids : List UInt32) : List UInt8 := ids.flatMap fun id => leBytes 4 id.toNat

/-- The IDs of an image. -/
structure IdTable (ctx : SqfsCtx) where
  ids : List UInt32
  counted : ids.length = ctx.sb.disk.idCount
  table : LookupTable ctx.image ctx.comp ctx.sb.disk.idTable (encodeIds ids)

/-- `getattr` reports the given owner. -/
def ReportsOwner (ctx : SqfsCtx) (path : List UInt8) (address : Nat) (uid gid : UInt32) :
    Prop :=
  ∃ attr, sqfsVfsGetattr ctx path address = .ok attr ∧
    attr.uid = uid.toNat ∧ attr.gid = gid.toNat

/-- The owner of an inode is reported exactly when the IDs are their own indices and the inode is
no symbolic link whose pointer was overwritten. -/
theorem sqfsVfsGetattr_owner_iff (ctx : SqfsCtx) (owners : IdTable ctx) (path : List UInt8)
    (address : Nat) (inode : SqfsInode)
    (resolved : sqfsVfsResolvePath ctx path address = .ok inode) (data : List UInt8)
    (decoded : parseInode data ctx.sb.blockSize address .calloc = .ok inode)
    (header : SqfsInodeHeader) (parsed : parseInodeHeader data = .ok header)
    (uidListed : header.uidIdx < owners.ids.length)
    (gidListed : header.gidIdx < owners.ids.length) :
    ReportsOwner ctx path address owners.ids[header.uidIdx] owners.ids[header.gidIdx] ↔
      inode.Freeable ∧ owners.ids[header.uidIdx].toNat = header.uidIdx ∧
        owners.ids[header.gidIdx].toNat = header.gidIdx := by
  have owner := parseInode_owner parsed inode decoded
  have filled : (sqfsVfsFillAttr ctx inode).uid = inode.uid ∧
      (sqfsVfsFillAttr ctx inode).gid = inode.gid := by
    unfold sqfsVfsFillAttr
    cases inode.type <;> exact ⟨rfl, rfl⟩
  have reported : sqfsVfsGetattr ctx path address =
      sqfsInodeFree inode >>= fun _ => .ok (sqfsVfsFillAttr ctx inode) := by
    rw [sqfsVfsGetattr, resolved]
    rfl
  rw [ReportsOwner, reported]
  constructor
  · rintro ⟨attr, same, uid, gid⟩
    rcases @sqfsInodeFree_cases Errno inode with ⟨freeable, freed⟩ | ⟨-, crashed⟩
    · rw [freed] at same
      cases same
      rw [filled.1, owner.1] at uid
      rw [filled.2, owner.2] at gid
      exact ⟨freeable, uid.symm, gid.symm⟩
    · rw [crashed] at same
      cases same
  · rintro ⟨freeable, own⟩
    rw [freeable.free]
    exact ⟨_, rfl, by rw [filled.1, owner.1, own.1], by rw [filled.2, owner.2, own.2]⟩

/-! ## An image with one owner -/

def ownedRoot : List UInt8 := encodeInode ⟨0o755, 0, 0, 0, 1⟩ (.dir 0 2 3 0 2 : DiskBody 4096)

theorem ownedRoot_length : ownedRoot.length = 32 := by decide

def ownedImage (id : UInt32) : Image where
  bytes := rootImage squashfsFlagNoXattrs sqfsInvalidOffset ownedRoot id []
  sizeInOffT := by simp [rootImage, rootImageFront_length, ownedRoot_length]

def ownedTable (id : UInt32) {ctx : SqfsCtx} (onImage : ctx.image = ownedImage id)
    (counted : 1 = ctx.sb.disk.idCount) (located : ctx.sb.disk.idTable = 136) :
    IdTable ctx where
  ids := [id]
  counted
  table := .ofStored ctx.image ctx.comp
    (rootImageFront squashfsFlagNoXattrs sqfsInvalidOffset 144 ownedRoot) (encodeIds [id]) [] []
    (by rw [onImage]; simp [ownedImage, rootImage, rootImageFront_length, ownedRoot_length,
      encodeIds])
    (by simp [encodeIds]) (by simp [encodeIds, sqfsMetaBlockSize])
    (by rw [located]; simp [rootImageFront_length, ownedRoot_length, encodeIds])

/-- The mounted image. -/
def owned (id : UInt32) : MountedCtx := mountedOn (ownedImage id) false

def ownedInode : SqfsInode :=
  (parseInode ownedRoot 4096 0 .calloc).toOption.getD .calloc

private theorem ownedInode_decoded : parseInode ownedRoot 4096 0 .calloc = .ok ownedInode :=
  Outcome.eq_ok_getD (by decide +kernel)

private theorem owned_image {id : UInt32}
    (accepted : (initContext gzipOnly (ownedImage id) 32 false).toOption.isSome = true) :
    (owned id).ctx.image = ownedImage id :=
  (initContext_mounts (initContext_mountedOn accepted)).onImage

/-- The superuser owns the root. -/
theorem sqfsVfsGetattr_owner_root : ReportsOwner (owned 0).ctx [slash] 0 0 0 := by
  have blockSize : (owned 0).ctx.sb.blockSize = 4096 := by decide +kernel
  have onImage : (owned 0).ctx.image = ownedImage 0 := owned_image (by decide +kernel)
  have decoded : parseInode ownedRoot (owned 0).ctx.sb.blockSize 0 .calloc = .ok ownedInode := by
    rw [blockSize, ownedInode_decoded]
  have resolved := sqfsVfsResolvePath_root (by decide +kernel) decoded
  let owners : IdTable (owned 0).ctx := ownedTable 0 onImage (by decide +kernel)
    (by decide +kernel)
  exact (sqfsVfsGetattr_owner_iff (owned 0).ctx owners [slash] 0 ownedInode resolved ownedRoot
    decoded ⟨1, 0o755, 0, 0, 0, 1⟩ (by decide +kernel) Nat.zero_lt_one Nat.zero_lt_one).mpr
    ⟨by decide +kernel, rfl, rfl⟩

/-- A root that belongs to the user 1000 is reported to belong to the superuser. -/
theorem sqfsVfsGetattr_misses_owner :
    ¬ ∀ (sqfsCompressorCreate : Nat → Option Compressor) (image : Image) (cacheSizeMb : Nat)
      (noCache : Bool) (mounted : MountedCtx),
      initContext sqfsCompressorCreate image cacheSizeMb noCache = .ok mounted →
      ∀ (owners : IdTable mounted.ctx) (path : List UInt8) (address : Nat) (inode : SqfsInode),
      sqfsVfsResolvePath mounted.ctx path address = .ok inode →
      ∀ data, parseInode data mounted.ctx.sb.blockSize address .calloc = .ok inode →
      ∀ header, parseInodeHeader data = .ok header →
      ∀ (uidListed : header.uidIdx < owners.ids.length)
        (gidListed : header.gidIdx < owners.ids.length),
      ReportsOwner mounted.ctx path address owners.ids[header.uidIdx]
        owners.ids[header.gidIdx] := by
  intro claim
  have mounted : initContext gzipOnly (ownedImage 1000) 32 false = .ok (owned 1000) :=
    initContext_mountedOn (by decide +kernel)
  have blockSize : (owned 1000).ctx.sb.blockSize = 4096 := by decide +kernel
  have onImage : (owned 1000).ctx.image = ownedImage 1000 := owned_image (by decide +kernel)
  let owners : IdTable (owned 1000).ctx := ownedTable 1000 onImage (by decide +kernel)
    (by decide +kernel)
  have decoded : parseInode ownedRoot (owned 1000).ctx.sb.blockSize 0 .calloc = .ok ownedInode := by
    rw [blockSize, ownedInode_decoded]
  have resolved := sqfsVfsResolvePath_root (by decide +kernel) decoded
  have reports := claim gzipOnly (ownedImage 1000) 32 false (owned 1000) mounted owners [slash]
    0 ownedInode resolved ownedRoot decoded ⟨1, 0o755, 0, 0, 0, 1⟩ (by decide +kernel)
    Nat.zero_lt_one Nat.zero_lt_one
  rcases reports with ⟨attr, reported, uid, -⟩
  have actual : (sqfsVfsGetattr (owned 1000).ctx [slash] 0).toOption.map SqfsVfsAttr.uid =
      some 0 := by
    decide +kernel
  have expected : (sqfsVfsGetattr (owned 1000).ctx [slash] 0).toOption.map SqfsVfsAttr.uid =
      some 1000 := by
    rw [reported, Outcome.toOption_ok, Option.map_some, uid]
    rfl
  rw [actual] at expected
  cases expected

end SquashfsFuse
