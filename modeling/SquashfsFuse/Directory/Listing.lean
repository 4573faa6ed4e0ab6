import SquashfsFuse.Directory.Acceptance
import SquashfsFuse.Directory.Data
import SquashfsFuse.Inode.Decoding

/-! Listing basic and extended directories. -/

namespace SquashfsFuse

/-! ## Directory inodes -/

section Inodes

variable {blockSize : Nat}

theorem parseInode_dir (header : DiskHeader) (address : Nat) (blockIdx linkCount : UInt32)
    (fileSize blockOffset : UInt16) (parentInode : UInt32) :
    ∃ inode, parseInode (encodeInode header (.dir blockIdx linkCount fileSize blockOffset
        parentInode : DiskBody blockSize)) blockSize address .calloc = .ok inode ∧
      inode.type = .dir ∧ inode.get .dirBlockIdx = blockIdx.toNat ∧
      inode.get .dirBlockOffset = blockOffset.toNat ∧
      inode.get .dirSize = if 3 ≤ fileSize.toNat then fileSize.toNat - 3 else fileSize.toNat := by
  have blockInRange := blockIdx.toNat_lt
  have sizeInRange := fileSize.toNat_lt
  have masked := and_mask32 blockIdx
  rw [parseInode_encode]
  simp only [DiskBody.type, parseInodeOfType, encodeInode, DiskBody.encode, parseInodeDir,
    sqfsLe16ToCpu, sqfsLe32ToCpu]
  simp
  refine ⟨rfl, ?_⟩
  simp (disch := decide) [SqfsInode.get, UnionMember.dirBlockIdx,
    UnionMember.dirSize, UnionMember.dirBlockOffset, UnionMember.dirParentInode,
    UnionMember.dirIndexCount, Storage.load_store_disjoint]
  split <;> omega

private theorem parseInode_ldir (header : DiskHeader) (address : Nat)
    (linkCount fileSize blockIdx parentInode : UInt32) (indexCount blockOffset : UInt16)
    (xattrIdx : UInt32) :
    ∃ inode, parseInode (encodeInode header (.ldir linkCount fileSize blockIdx parentInode
        indexCount blockOffset xattrIdx : DiskBody blockSize)) blockSize address .calloc =
          .ok inode ∧
      inode.type = .ldir ∧ inode.get .dirSize = fileSize.toNat := by
  rw [parseInode_encode]
  simp only [DiskBody.type, parseInodeOfType, encodeInode, DiskBody.encode, parseInodeLdir,
    sqfsLe16ToCpu, sqfsLe32ToCpu]
  simp
  refine ⟨rfl, ?_⟩
  simp (disch := decide) [SqfsInode.get, UnionMember.dirBlockIdx,
    UnionMember.dirSize, UnionMember.dirBlockOffset, UnionMember.dirParentInode,
    UnionMember.dirIndexCount, UnionMember.xattrIdx, Storage.load_store_disjoint]

end Inodes

/-! ## Listing a directory -/

/-- A listing lies in the directory table at a block index and an offset. -/
def ListingAt (ctx : SqfsCtx) (blockIdx : UInt32) (blockOffset : UInt16)
    (listing : List DirRun) : Prop :=
  ∃ (stream : MetaStream ctx.image ctx.comp) (idx : Nat)
    (block : MetaBlock ctx.image ctx.comp),
    stream.blocks[idx]? = some block ∧
      block.pos = ctx.sb.disk.dirTable + blockIdx.toNat ∧
      blockOffset.toNat < block.content.length ∧
      encodeListing listing <+: stream.bytesFrom idx blockOffset.toNat

/-- Decoding the inode and listing it deliver the entries. -/
def ListsAs (ctx : SqfsCtx) (header : DiskHeader) (body : DiskBody ctx.sb.blockSize)
    (address : UInt64) (dirents : List SqfsDirent) : Prop :=
  ∃ inode, parseInode (encodeInode header body) ctx.sb.blockSize address.toNat .calloc =
      .ok inode ∧ sqfsDirRead ctx inode = .ok dirents

/-- Where a directory has its listing, and the size its inode has on disk. -/
def DiskBody.dirLocation {blockSize : Nat} :
    DiskBody blockSize → Option (UInt32 × UInt16 × Nat)
  | .dir blockIdx _ fileSize blockOffset _ => some (blockIdx, blockOffset, fileSize.toNat)
  | .ldir _ fileSize blockIdx _ _ blockOffset _ => some (blockIdx, blockOffset, fileSize.toNat)
  | _ => none

/-- The entries a directory of the given size has: none below a size of 4. -/
def expectedDirents (fileSize : Nat) (listing : List DirRun) : List SqfsDirent :=
  if fileSize < 4 then [] else listedDirents listing

/-- What a directory inode has to satisfy to be listed right. -/
def DiskBody.ListsRight {blockSize : Nat} (listing : List DirRun) :
    DiskBody blockSize → Prop
  | .dir _ _ fileSize _ _ =>
      fileSize.toNat ≠ 1 ∧ fileSize.toNat ≠ 2 ∧ (4 ≤ fileSize.toNat →
        ∀ run ∈ listing, ∀ entry ∈ run.entries, entry.SumNonneg run.inodeNumber)
  | .ldir _ fileSize _ _ _ _ _ => fileSize.toNat = 0
  | _ => False

theorem sqfsDirRead_size {ctx : SqfsCtx} {inode : SqfsInode} {dirents : List SqfsDirent}
    (read : sqfsDirRead ctx inode = .ok dirents) :
    ∃ headers, inode.get .dirSize = 12 * headers + (dirents.map SqfsDirent.diskSize).sum := by
  unfold sqfsDirRead at read
  split at read
  · cases read
  · split at read
    · next empty =>
        cases read
        exact ⟨0, empty⟩
    · rcases Outcome.bind_eq_ok.mp read with ⟨data, dataRead, parsed⟩
      rw [← readDirectoryData_length dataRead]
      exact parseDirectoryLoop_length parsed

theorem sqfsDirRead_of_empty {ctx : SqfsCtx} {inode : SqfsInode}
    (isDir : sqfsInodeIsDir inode.type = true) (empty : inode.get .dirSize = 0) :
    sqfsDirRead ctx inode = .ok [] := by
  rw [sqfsDirRead, if_neg (by rw [isDir]; decide), if_pos empty]
  rfl

theorem sqfsDirRead_of_listing {ctx : SqfsCtx} {inode : SqfsInode} {blockIdx : UInt32}
    {blockOffset : UInt16} {listing : List DirRun} (isDir : sqfsInodeIsDir inode.type = true)
    (index : inode.get .dirBlockIdx = blockIdx.toNat)
    (offset : inode.get .dirBlockOffset = blockOffset.toNat)
    (size : inode.get .dirSize = (encodeListing listing).length)
    (nonempty : 0 < (encodeListing listing).length)
    (small : (encodeListing listing).length < 2 ^ 16)
    (stored : ListingAt ctx blockIdx blockOffset listing) :
    sqfsDirRead ctx inode = .ok (parsedDirents listing) := by
  rcases stored with ⟨stream, idx, block, found, located, inside, placed⟩
  rw [sqfsDirRead, if_neg (by rw [isDir]; decide), if_neg (by omega), index, offset, size,
    readDirectoryData_of_placed found located inside placed]
  exact parseDirectoryEntries_encode listing (listingFits_of_length small)

/-- A directory is listed right exactly when it is basic and its size is not 1 or
2, and no inode number in its listing comes out negative, or when it is extended
and its size is 0. -/
theorem sqfsDirRead_lists_iff (ctx : SqfsCtx) (header : DiskHeader)
    (body : DiskBody ctx.sb.blockSize) (address : UInt64) (listing : List DirRun)
    (blockIdx : UInt32) (blockOffset : UInt16) (fileSize : Nat)
    (located : body.dirLocation = some (blockIdx, blockOffset, fileSize))
    (stored : 4 ≤ fileSize → fileSize < 2 ^ 16 ∧
      fileSize = (encodeListing listing).length + 3 ∧
      ListingAt ctx blockIdx blockOffset listing) :
    ListsAs ctx header body address (expectedDirents fileSize listing) ↔
      body.ListsRight listing := by
  have length := encodeListing_length listing
  cases body with
  | dir dirBlockIdx linkCount dirSize dirOffset parentInode =>
      simp only [DiskBody.dirLocation, Option.some.injEq, Prod.mk.injEq] at located
      obtain ⟨rfl, rfl, rfl⟩ := located
      rcases @parseInode_dir ctx.sb.blockSize header address.toNat dirBlockIdx linkCount dirSize
        dirOffset parentInode with ⟨inode, parsed, type, index, offset, size⟩
      have isDir : sqfsInodeIsDir inode.type = true := by rw [type]; rfl
      have decoded : ListsAs ctx header (.dir dirBlockIdx linkCount dirSize dirOffset
          parentInode) address (expectedDirents dirSize.toNat listing) ↔
          sqfsDirRead ctx inode = .ok (expectedDirents dirSize.toNat listing) := by
        simp only [ListsAs, parsed, Outcome.ok.injEq, exists_eq_left']
      rw [decoded, DiskBody.ListsRight, expectedDirents]
      by_cases empty : dirSize.toNat < 4
      · rw [if_pos empty]
        constructor
        · intro read
          rcases sqfsDirRead_size read with ⟨headers, whole⟩
          rw [size] at whole
          simp only [List.map_nil, List.sum_nil] at whole
          split at whole <;> omega
        · intro right
          apply sqfsDirRead_of_empty isDir
          rw [size]
          split <;> omega
      · rcases stored (by omega) with ⟨small, sized, stored⟩
        rw [if_pos (by omega)] at size
        rw [if_neg empty, sqfsDirRead_of_listing isDir index offset (by omega) (by omega)
          (by omega) stored, Outcome.ok.injEq, parsedDirents_eq_iff]
        constructor
        · intro nonneg
          exact ⟨by omega, by omega, fun _ => nonneg⟩
        · intro right
          exact right.2.2 (by omega)
  | ldir linkCount dirSize dirBlockIdx parentInode indexCount dirOffset xattrIdx =>
      simp only [DiskBody.dirLocation, Option.some.injEq, Prod.mk.injEq] at located
      obtain ⟨rfl, rfl, rfl⟩ := located
      rcases @parseInode_ldir ctx.sb.blockSize header address.toNat linkCount dirSize
        dirBlockIdx parentInode indexCount dirOffset xattrIdx with ⟨inode, parsed, type, size⟩
      have isDir : sqfsInodeIsDir inode.type = true := by rw [type]; rfl
      rw [DiskBody.ListsRight]
      constructor
      · rintro ⟨other, otherParsed, read⟩
        rw [parsed] at otherParsed
        cases otherParsed
        rcases sqfsDirRead_size read with ⟨headers, whole⟩
        rw [size, expectedDirents] at whole
        split at whole
        · simp only [List.map_nil, List.sum_nil] at whole
          omega
        · rcases stored (by omega) with ⟨-, sized, -⟩
          omega
      · intro zero
        refine ⟨inode, parsed, ?_⟩
        rw [expectedDirents, if_pos (by omega)]
        exact sqfsDirRead_of_empty isDir (by omega)
  | _ => simp only [DiskBody.dirLocation, reduceCtorEq] at located

/-! ## A directory with one pipe -/

/-- The pipe `a`, whose inode is at an offset of the first inode block. -/
def pipeRun (offset : UInt16) (inodeNumber : UInt32) : DirRun where
  start := 0
  inodeNumber
  entries := [⟨offset, 0, .fifo, [0x61], by decide, by decide, by decide⟩]
  nonempty := Nat.one_pos
  counted := by simp

def pipeListing : List DirRun := [pipeRun 0 1]

/-- An image whose directory table is the listing in one stored block. -/
def pipeListingCtx : SqfsCtx :=
  .onBytes ([0x15, 0x80] ++ encodeListing pipeListing) (by decide)

private theorem pipeListing_at : ListingAt pipeListingCtx 0 0 pipeListing := by
  let block := MetaBlock.ofStored pipeListingCtx.image pipeListingCtx.comp []
    (encodeListing pipeListing) [] (by decide) (by decide) (by decide)
  exact ⟨⟨[block], .singleton _⟩, 0, block, rfl, rfl, by decide, by decide⟩

theorem sqfsDirRead_lists_pipe :
    ListsAs pipeListingCtx ⟨0o755, 0, 0, 0, 2⟩ (.dir 0 2 24 0 1) 0
      (expectedDirents 24 pipeListing) := by
  have right : (.dir 0 2 24 0 1 : DiskBody pipeListingCtx.sb.blockSize).ListsRight
      pipeListing := by
    simp [DiskBody.ListsRight, pipeListing, pipeRun, DiskDirEntry.SumNonneg, toInt, u32]
  exact (sqfsDirRead_lists_iff pipeListingCtx ⟨0o755, 0, 0, 0, 2⟩ (.dir 0 2 24 0 1) 0
    pipeListing 0 0 24 rfl (fun _ => ⟨by decide, by decide, pipeListing_at⟩)).mpr right

/-- As an extended directory, it is not listed. -/
theorem sqfsDirRead_misses_extended :
    ¬ ∀ (ctx : SqfsCtx) (header : DiskHeader) (body : DiskBody ctx.sb.blockSize)
      (address : UInt64) (listing : List DirRun) (blockIdx : UInt32) (blockOffset : UInt16)
      (fileSize : Nat), body.dirLocation = some (blockIdx, blockOffset, fileSize) →
      (4 ≤ fileSize → fileSize < 2 ^ 16 ∧ fileSize = (encodeListing listing).length + 3 ∧
        ListingAt ctx blockIdx blockOffset listing) →
      ListsAs ctx header body address (expectedDirents fileSize listing) := by
  intro claim
  rcases claim pipeListingCtx ⟨0o755, 0, 0, 0, 2⟩ (.ldir 2 24 0 1 0 0 0) 0 pipeListing 0 0 24
    rfl (fun _ => ⟨by decide, by decide, pipeListing_at⟩) with ⟨inode, parsed, read⟩
  rcases @parseInode_ldir pipeListingCtx.sb.blockSize ⟨0o755, 0, 0, 0, 2⟩ 0 2 24 0 1 0 0 0 with
    ⟨decoded, decodedParsed, -, size⟩
  obtain rfl : inode = decoded := Outcome.ok.inj (parsed.symm.trans decodedParsed)
  rcases sqfsDirRead_size read with ⟨headers, whole⟩
  rw [size] at whole
  have entries : ((expectedDirents 24 pipeListing).map SqfsDirent.diskSize).sum = 9 := by decide
  have announced : UInt32.toNat 24 = 24 := rfl
  omega

end SquashfsFuse
