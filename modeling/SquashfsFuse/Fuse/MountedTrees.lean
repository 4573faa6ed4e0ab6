import SquashfsFuse.Fuse.DiskTree
import SquashfsFuse.Fuse.NoCache
import SquashfsFuse.Fuse.Sessions

/-! Mounted images with trees of files in them. -/

namespace SquashfsFuse

/-! ## An image with a directory and a file -/

/-- The entry `a` for the file at offset 32 of the inode table. -/
def namedFileListing : List DirRun :=
  [{ start := 0
     inodeNumber := 2
     entries := [⟨32, 0, .file, [0x61], by decide, letter_nonempty, letter_le⟩]
     nonempty := Nat.one_pos
     counted := by decide }]

section Nodes

variable {blockSize : Nat} (large : 4096 ≤ blockSize)

def namedFileRoot : DiskNode blockSize where
  header := ⟨0o755, 0, 0, 0, 1⟩
  body := .dir 14 2 24 0 3
  listing := namedFileListing

include large in
private theorem namedFile_implied :
    [(0x1000003 : UInt32)].length = impliedBlockCount (3 : UInt32).toNat blockSize 0xFFFFFFFF := by
  have quotient : 3 / blockSize = 0 := Nat.div_eq_of_lt (by omega)
  have remainder : 3 % blockSize = 3 := Nat.mod_eq_of_lt (by omega)
  simp [impliedBlockCount, fragmentInvalid, quotient, remainder]

def namedFile : DiskNode blockSize where
  header := ⟨0o644, 0, 0, 0, 2⟩
  body := .file 203 0xFFFFFFFF 0 3 [0x1000003] (namedFile_implied large)
  listing := []

def namedFileTree : DiskTree blockSize where
  root := 0
  nodeAt := fun ref => if ref = 32 then namedFile large else namedFileRoot

end Nodes

def namedFileInodes : List UInt8 :=
  encodeInode (@namedFileRoot 4096).header (@namedFileRoot 4096).body ++
    encodeInode (namedFile (Nat.le_refl 4096)).header (namedFile (Nat.le_refl 4096)).body

def namedFileRest : List UInt8 :=
  leBytes 2 (2 ^ 15 + 21) ++ (encodeListing namedFileListing ++ [97, 98, 99])

private theorem namedFileInodes_length : namedFileInodes.length = 68 := by decide

private theorem namedFileRest_length : namedFileRest.length = 26 := by decide

def namedFileImage : Image where
  bytes := rootImage squashfsFlagNoXattrs sqfsInvalidOffset namedFileInodes 0 namedFileRest
  sizeInOffT := by
    simp [rootImage, rootImageFront_length, namedFileInodes_length, namedFileRest_length]

/-- The mounted image. -/
def namedFileMounted : MountedCtx := mountedOn namedFileImage false

theorem namedFile_mounted : initContext gzipOnly namedFileImage 32 false = .ok namedFileMounted :=
  initContext_mountedOn (by decide +kernel)

private theorem namedFile_image : namedFileMounted.ctx.image = namedFileImage :=
  (initContext_mounts namedFile_mounted).onImage

def mountedFileTree : DiskTree namedFileMounted.ctx.sb.blockSize :=
  namedFileTree namedFileMounted.ctx.sb.blockSize_ge

theorem mountedFileTree_reachable {ref : Nat}
    (reachable : (mountedFileTree.store namedFileMounted.ctx).Reachable ref) :
    ref = 0 ∨ ref = 32 := by
  induction reachable with
  | root => exact .inl rfl
  | entry _ isDirectory member induction =>
      rcases induction with rfl | rfl
      · cases isDirectory
        obtain rfl := List.mem_singleton.mp member
        exact .inr rfl
      · cases isDirectory

def namedFileInodeBlock : MetaBlock namedFileMounted.ctx.image namedFileMounted.ctx.comp :=
  .ofStored namedFileMounted.ctx.image namedFileMounted.ctx.comp
    ((SquashfsSuperblock.small squashfsFlagNoXattrs 172 sqfsInvalidOffset 166 206).encode)
    namedFileInodes
    (leBytes 2 (2 ^ 15 + 4) ++ (leBytes 4 0 ++ (leBytes 8 166 ++ namedFileRest)))
    (by rw [namedFile_image]; decide +kernel) (by decide) (by decide)

private theorem namedFileInodeBlock_inPlace : namedFileInodeBlock.InPlace :=
  MetaBlock.ofStored_inPlace ..

private theorem namedFile_placed : ∀ ref, (mountedFileTree.store namedFileMounted.ctx).Reachable ref →
    InodeAt namedFileMounted.ctx ref (mountedFileTree.nodeAt ref).header
      (mountedFileTree.nodeAt ref).body := by
  have positioned : namedFileInodeBlock.pos = namedFileMounted.ctx.sb.disk.inodeTable + 0 := by
    decide +kernel
  intro ref reachable
  rcases mountedFileTree_reachable reachable with rfl | rfl
  · refine ⟨⟨[namedFileInodeBlock], .singleton _⟩, 0, 0, 0, namedFileInodeBlock, rfl, rfl,
      positioned, ?_, ?_⟩
    · decide +kernel
    · exact ⟨by decide +kernel, namedFileInodeBlock_inPlace⟩
  · refine ⟨⟨[namedFileInodeBlock], .singleton _⟩, 0, 32, 0, namedFileInodeBlock, rfl, rfl,
      positioned, ?_, ?_⟩
    · decide +kernel
    · exact ⟨by decide +kernel, namedFileInodeBlock_inPlace⟩

def namedFileListingBlock : MetaBlock namedFileMounted.ctx.image namedFileMounted.ctx.comp :=
  .ofStored namedFileMounted.ctx.image namedFileMounted.ctx.comp
    (namedFileImage.bytes.take 180) (encodeListing namedFileListing) [97, 98, 99]
    (by rw [namedFile_image]; decide +kernel) (by decide) (by decide)

private theorem namedFileListing_at : ListingAt namedFileMounted.ctx 14 0 namedFileListing :=
  ⟨⟨[namedFileListingBlock], .singleton _⟩, 0, namedFileListingBlock, rfl, by decide +kernel,
    by decide, by decide⟩

def namedFileCtx : SqfsFileCtx :=
  diskFile namedFileMounted.ctx.sb.blockSize 203 3 0xFFFFFFFF 0 [0x1000003]

theorem namedFileCtx_located {idx : Nat} {location : BlockLocation}
    (located : sqfsFileBlockLocation namedFileCtx idx = .ok location) :
    location = ⟨203, 2 ^ 24 + 3⟩ := by
  have counted : namedFileCtx.blockCount = 1 := by decide +kernel
  have inRange := sqfsFileBlockLocation_lt located
  obtain rfl : idx = 0 := by omega
  have first : sqfsFileBlockLocation namedFileCtx 0 = .ok ⟨203, 2 ^ 24 + 3⟩ := by
    decide +kernel
  exact Outcome.ok.inj (located.symm.trans first)

theorem namedFile_content :
    fileContent namedFileMounted.ctx namedFileCtx = [97, 98, 99] := by
  decide +kernel

private theorem wellFormed_namedFile : WellFormedFile namedFileMounted.ctx namedFileCtx where
  counted := by decide +kernel
  listed := by decide +kernel
  stored := by
    intro idx location located notHole
    have inRange := sqfsFileBlockLocation_lt located
    have counted : namedFileCtx.blockCount = 1 := by decide +kernel
    obtain rfl : idx = 0 := by omega
    obtain rfl := namedFileCtx_located located
    exact ⟨[97, 98, 99], by decide +kernel, by decide +kernel⟩
  tail := by
    intro some
    cases some

private theorem unpacksInPlace_namedFile : UnpacksInPlace namedFileMounted.ctx namedFileCtx where
  block := by
    intro idx location located notHole
    obtain rfl := namedFileCtx_located located
    exact (storedContent_apart (by decide)).symm
  tail := by
    intro some
    cases some

theorem mountedFileTree_hasFile {file : SqfsFileCtx}
    (has : mountedFileTree.HasFile namedFileMounted.ctx file) : file = namedFileCtx := by
  rcases has with ⟨ref, reachable, found⟩
  rcases mountedFileTree_reachable reachable with rfl | rfl
  · cases found
  · exact (Option.some.inj found).symm

theorem mountedFileTree_stored : mountedFileTree.Stored namedFileMounted.ctx where
  root := by decide +kernel
  placed := namedFile_placed
  readable := by
    intro ref reachable
    rcases mountedFileTree_reachable reachable with rfl | rfl
    · refine ⟨by decide, fun _ => namedFileListing_at, ?_⟩
      simp [mountedFileTree, namedFileTree, namedFileRoot, namedFileListing,
        DiskDirEntry.SumNonneg, toInt, u32]
    · intro file found
      obtain rfl := Option.some.inj found
      exact ⟨wellFormed_namedFile, unpacksInPlace_namedFile⟩
  oneSizeWord := by
    intro file other has otherHas idx otherIdx location otherLocation located notHole
      otherLocated otherNotHole samePos
    obtain rfl := mountedFileTree_hasFile has
    obtain rfl := mountedFileTree_hasFile otherHas
    rw [namedFileCtx_located located, namedFileCtx_located otherLocated]
  keysApart := by
    intro file other has otherHas idx location located notHole some
    obtain rfl := mountedFileTree_hasFile otherHas
    cases some

/-! ## Sessions -/

/-- A mounted image with a tree in its tables serves the tree: in every session of requests
that are allowed, each request is answered as the tree has it on disk, whatever the data cache
holds by then, and behind the session exactly the handles are allocated that are still open. -/
theorem fuseService_serves_tree {sqfsCompressorCreate : Nat → Option Compressor} {image : Image}
    {cacheSizeMb : Nat} {mounted : MountedCtx}
    (initialised : initContext sqfsCompressorCreate image cacheSizeMb false = .ok mounted)
    {tree : DiskTree mounted.ctx.sb.blockSize} (stored : tree.Stored mounted.ctx)
    {requests : List FuseRequest} {replies : List FuseReply} {handles : Nat → Option Nat}
    (served : (fuseSpecification (tree.store mounted.ctx)).run (fun _ => none) requests =
      some (replies, handles)) :
    (fuseService mounted.ctx).Answers (.mounted mounted.caches.dataCache) requests replies
      fun last => ∀ address, last.handles address = none ↔ handles address = none :=
  stored.stores.answers (initContext_mounts initialised).dataCache_with served

/-- List the root, and read two bytes of the file `a` behind its first one. -/
def namedFileRequests : List FuseRequest :=
  [.readdir [slash] 0, .openFile [slash, 0x61] 0 1, .read 1 1 2, .getattr [slash, 0x62] 0,
    .release 1]

theorem fuseService_serves_namedFile :
    (fuseService namedFileMounted.ctx).Answers (.mounted namedFileMounted.caches.dataCache)
      namedFileRequests
      [.filled [⟨[0x61], 2, 0o100000⟩], .opened 1, .data 2 [some 98, some 99],
        .failed .enoent, .released]
      fun last => last.handles 1 = none := by
  have replied : ((fuseSpecification (mountedFileTree.store namedFileMounted.ctx)).run
      (fun _ => none) namedFileRequests).map (·.1) =
        some [.filled [⟨[0x61], 2, 0o100000⟩], .opened 1, .data 2 [some 98, some 99],
          .failed .enoent, .released] := by
    decide +kernel
  have freed : ((fuseSpecification (mountedFileTree.store namedFileMounted.ctx)).run
      (fun _ => none) namedFileRequests).map (·.2 1) = some none := by
    decide +kernel
  rcases Option.map_eq_some_iff.mp replied with ⟨⟨replies, handles⟩, served, rfl⟩
  rw [served] at freed
  have answers := fuseService_serves_tree namedFile_mounted mountedFileTree_stored served
  exact answers.imp fun last allocated => (allocated 1).mpr (Option.some.inj freed)

end SquashfsFuse
