import SquashfsFuse.Data.FileReads
import SquashfsFuse.Data.Untouched
import SquashfsFuse.Vfs.VfsOps

/-! For which requests reads keep to the request, whatever the file. -/

namespace SquashfsFuse

/-! ## Requests of `sqfs_vfs_read` -/

/-- What `sqfs_vfs_open` establishes of a handle. -/
structure SqfsVfsFh.Opened (fh : SqfsVfsFh) : Prop where
  isFile : sqfsInodeIsFile fh.inode.type = true
  fileSize : fh.fileSize = fh.inode.get .fileFileSize

theorem sqfsVfsOpen_eq_ok {ctx : SqfsCtx} {path : List UInt8} {address handle : Nat}
    {fh : SqfsVfsFh} : sqfsVfsOpen ctx path address handle = .ok fh ↔
      ∃ inode, sqfsVfsResolvePath ctx path address = .ok inode ∧
        sqfsInodeIsFile inode.type = true ∧ handle ≠ 0 ∧
        fh = { inode, fileSize := inode.get .fileFileSize } := by
  constructor
  · intro opened
    rcases Outcome.bind_eq_ok.mp opened with ⟨inode, resolved, checked⟩
    split at checked
    · rcases Outcome.bind_eq_ok.mp checked with ⟨-, -, refused⟩
      cases refused
    · next isFile =>
        split at checked
        · rcases Outcome.bind_eq_ok.mp checked with ⟨-, -, refused⟩
          cases refused
        · next some =>
            cases checked
            exact ⟨inode, resolved, by simpa using isFile, some, rfl⟩
  · rintro ⟨inode, resolved, isFile, some, rfl⟩
    rw [sqfsVfsOpen, resolved, Outcome.ok_bind, if_neg (by simp [isFile]), if_neg some]
    rfl

theorem sqfsVfsOpen_opened {ctx : SqfsCtx} {path : List UInt8} {address handle : Nat}
    {fh : SqfsVfsFh} (opened : sqfsVfsOpen ctx path address handle = .ok fh) : fh.Opened := by
  rcases sqfsVfsOpen_eq_ok.mp opened with ⟨inode, -, isFile, -, rfl⟩
  exact ⟨isFile, rfl⟩

/-- The bytes that a call of `sqfs_vfs_read` has written to the buffer of its caller
on the way and at its end. -/
def VfsReadWrites (cache : BlockCache C) (ctx : SqfsCtx) (state : C) (fh : SqfsVfsFh)
    (offset size : Nat) (out : List Cell) : Prop :=
  if fh.fileSize ≤ offset then
    out = []
  else
    DataReadWrites cache ctx state fh.inode offset (vfsReadSize fh.fileSize offset size) out

def KeepsToRequest (fileSize offset size : Nat) (writes : List Cell → Prop) : Prop :=
  ∀ out, writes out → out.length ≤ min size (fileSize - offset)

def RequestFails (ctx : SqfsCtx) (inode : SqfsInode) (offset size : Nat) : Prop :=
  ∃ file pos, sqfsFileCtxInit ctx.sb inode = .ok file ∧ Requested file offset size pos ∧
    BlockFails ctx file pos

/-- A call returns the number of bytes it wrote, or an error where a block of the request cannot
be read or unpacked. -/
def ReturnsCount (fails : Prop) (ends : Option (ReadResult C) → Prop) : Prop :=
  ∃ result, ends (some result) ∧ (result.ret = result.out.length ∨ result.ret < 0 ∧ fails)

/-- The inode is of a well-formed file, and what the cache serves to the request
agrees with the image. -/
structure ServesWellFormed (cache : BlockCache C) (ctx : SqfsCtx) (state : C)
    (inode : SqfsInode) (offset size : Nat) : Prop where
  sized : ∀ file, sqfsFileCtxInit ctx.sb inode = .ok file → SizedFile ctx file
  readable : ∀ file, sqfsFileCtxInit ctx.sb inode = .ok file → ReadableFile ctx file
  serves : ∃ Inv offered served, cache.Serves Inv offered served ∧
    AgreesOnRead offered served ctx inode offset size ∧ Inv state

/-- Reads of any file of the size keep to the request, and of a well-formed file return
what they wrote. -/
def RespectsRequest (blockSize fileSize offset size : Nat) : Prop :=
  ∀ (ctx : SqfsCtx) (fh : SqfsVfsFh) (C : Type) (cache : BlockCache C) (state : C),
    ctx.sb.blockSize = blockSize → fh.Opened → fh.fileSize = fileSize →
    KeepsToRequest fileSize offset size (DataReadWrites cache ctx state fh.inode offset size) ∧
    KeepsToRequest fileSize offset size (VfsReadWrites cache ctx state fh offset size) ∧
    (ServesWellFormed cache ctx state fh.inode offset size →
      ReturnsCount (RequestFails ctx fh.inode offset size)
        (SqfsDataRead cache ctx state fh.inode offset size) ∧
      ReturnsCount (RequestFails ctx fh.inode offset size)
        (SqfsVfsRead cache ctx state fh offset size))

/-- Nothing of the file is asked for; or the end of the request does not wrap around, and
the bytes can be counted by an `int` or the file has more blocks than a well-formed file;
or the block with the first byte is behind the blocks, as the code numbers them. -/
def RequestFits (blockSize fileSize offset size : Nat) : Prop :=
  fileSize ≤ offset ∨
  (offset + size < 2 ^ 64 ∧
    (min size (fileSize - offset) < 2 ^ 31 ∨ 2 ^ 32 ≤ fileSize / blockSize)) ∨
  u32 (fileSize / blockSize) < u32 (offset / blockSize)

/-! ## Requests that are respected -/

section Respected

variable {cache : BlockCache C} {ctx : SqfsCtx} {fh : SqfsVfsFh} {file : SqfsFileCtx}
  {state : C} {blockSize fileSize offset size : Nat}

theorem SqfsVfsFh.Opened.init (opened : fh.Opened) (sb : SqfsSuperblock) :
    ∃ file, sqfsFileCtxInit sb fh.inode = .ok file ∧ file.fileSize = fh.fileSize := by
  cases init : sqfsFileCtxInit sb fh.inode with
  | error error =>
      rw [sqfsFileCtxInit, if_neg (by rw [opened.isFile]; decide)] at init
      contradiction
  | ok file =>
      have sameSize := (sqfsFileCtxInit_fields init).2.1
      exact ⟨file, rfl, by rw [sameSize, opened.fileSize]⟩

theorem vfsReadSize_of_lt (noWrap : offset + size < 2 ^ 64) (inside : offset < fileSize) :
    vfsReadSize fileSize offset size = min size (fileSize - offset) := by
  rw [vfsReadSize, u64_of_lt noWrap]
  split <;> omega

/-- The limit of `sqfs_vfs_read` is the limit of `sqfs_data_read`, which applies it
again. -/
theorem requestSize_vfsReadSize (sameSize : file.fileSize = fileSize) (inside : offset < fileSize)
    (sizeInRange : fileSize < 2 ^ 64) :
    requestSize file offset (vfsReadSize fileSize offset size) =
      requestSize file offset size := by
  rw [requestSize, requestSize, vfsReadSize, sameSize]
  by_cases beyond : fileSize < u64 (offset + size)
  · have whole : offset + (fileSize - offset) = fileSize := by omega
    rw [if_pos beyond, whole, u64_of_lt sizeInRange, if_neg (Nat.lt_irrefl _)]
  · rw [if_neg beyond, if_neg beyond]

theorem SqfsVfsFh.Opened.agrees (opened : fh.Opened) {offered served : Nat → BlockEntry → Prop}
    (inside : offset < fh.fileSize)
    (agrees : AgreesOnRead offered served ctx fh.inode offset size) :
    AgreesOnRead offered served ctx fh.inode offset (vfsReadSize fh.fileSize offset size) := by
  intro file entered
  have sameSize : file.fileSize = fh.fileSize := by
    rw [(sqfsFileCtxInit_fields entered.init).2.1, opened.fileSize]
  have sizeInRange := (sqfsFileCtxInit_bounds entered.init).1
  have same := @requestSize_vfsReadSize file _ offset size sameSize inside (by omega)
  have nonempty := entered.nonempty
  rw [same] at nonempty ⊢
  exact agrees file ⟨entered.init, entered.insideFile, nonempty⟩

theorem respectsRequest_outside (outside : fileSize ≤ offset) :
    RespectsRequest blockSize fileSize offset size := by
  rintro ctx fh C cache state - opened rfl
  rcases opened.init ctx.sb with ⟨file, init, sameSize⟩
  have behind : file.fileSize ≤ offset := by omega
  refine ⟨?_, ?_, ?_⟩
  · intro out writes
    rw [writes_nil_of_outside init behind writes]
    exact Nat.zero_le _
  · intro out writes
    rw [VfsReadWrites, if_pos outside] at writes
    rw [writes]
    exact Nat.zero_le _
  · intro _
    constructor
    · exact ⟨_, read_outside cache state size init behind, .inl rfl⟩
    · exact ⟨{ ret := 0, out := [], cache := state }, by rw [SqfsVfsRead, if_pos outside], .inl rfl⟩

private theorem SizedFile.blocks_lt (sized : SizedFile ctx file)
    (positive : 0 < file.blockSize) (countInRange : file.blockCount < 2 ^ 32) :
    file.fileSize / file.blockSize < 2 ^ 32 := by
  have atMost : file.fileSize / file.blockSize ≤ prescribedBlocks file := by
    rw [prescribedBlocks]
    split
    · apply Nat.div_le_div_right
      omega
    · exact Nat.le_refl _
  rw [← sized.counted] at atMost
  omega

private theorem ReadResult.toVfs_neg (result : ReadResult C) (negative : result.ret < 0) :
    result.toVfs.ret < 0 := by
  have some : 0 < errnoOfInt result.ret := by
    rw [errnoOfInt, if_neg (by omega)]
    split
    · decide
    · split
      · decide
      · decide
  rw [ReadResult.toVfs, if_pos negative]
  dsimp only
  omega

private theorem respectsRequest_of_lt (noWrap : offset + size < 2 ^ 64)
    (countFits : min size (fileSize - offset) < 2 ^ 31 ∨ 2 ^ 32 ≤ fileSize / blockSize) :
    RespectsRequest blockSize fileSize offset size := by
  by_cases outside : fileSize ≤ offset
  · exact respectsRequest_outside outside
  · rintro ctx fh C cache state rfl opened rfl
    have inside := Nat.lt_of_not_le outside
    rcases opened.init ctx.sb with ⟨file, init, sameSize⟩
    have limited := vfsReadSize_of_lt noWrap inside
    have limitedNoWrap : offset + vfsReadSize fh.fileSize offset size < 2 ^ 64 := by omega
    refine ⟨?_, ?_, ?_⟩
    · intro out writes
      rw [← sameSize]
      exact writes_le_of_lt init noWrap writes
    · intro out writes
      rw [VfsReadWrites, if_neg outside] at writes
      have bound := writes_le_of_lt init limitedNoWrap writes
      omega
    · intro served
      have sized := served.sized file init
      have readable := served.readable file init
      rcases served.serves with ⟨Inv, offered, kept, serves, agrees, inv⟩
      have bounds := sqfsFileCtxInit_bounds init
      have sameBlockSize := (sqfsFileCtxInit_fields init).1
      have blocks := sized.blocks_lt (sameBlockSize ▸ ctx.sb.blockSize_pos) bounds.2
      rw [sameSize, sameBlockSize] at blocks
      have small := countFits.resolve_right (Nat.not_le_of_lt blocks)
      constructor
      · rcases sized.read_counts readable init noWrap (by omega) serves agrees inv with
          ⟨result, read, counted | ⟨negative, pos, requested, fails⟩⟩
        · exact ⟨result, read, .inl counted⟩
        · exact ⟨result, read, .inr ⟨negative, file, pos, init, requested, fails⟩⟩
      · rcases sized.read_counts readable init limitedNoWrap (by omega) serves
          (opened.agrees inside agrees) inv with ⟨result, read, counts⟩
        refine ⟨result.toVfs, ?_, ?_⟩
        · rw [SqfsVfsRead, if_neg outside]
          exact ⟨_, read, rfl⟩
        · rcases counts with counted | ⟨negative, pos, requested, fails⟩
          · rw [ReadResult.toVfs, if_neg (by omega)]
            exact .inl counted
          · have start := requested.start
            have finish := requested.finish
            exact .inr ⟨result.toVfs_neg negative, file, pos, init,
              ⟨start, by omega, requested.inFile⟩, fails⟩

private theorem sqfsFileBlockLocation_behind (init : sqfsFileCtxInit ctx.sb fh.inode = .ok file)
    {idx : Nat} (behind : u32 (file.fileSize / file.blockSize) < idx) :
    sqfsFileBlockLocation file idx = .err .badBlock ∧
      ¬ (idx = file.blockCount ∧ sqfsFragmentIsNone file.fragIdx = false) := by
  have count := (sqfsFileCtxInit_fields init).2.2.2.2
  have notTail : file.blockCount ≤ idx ∧
      ¬ (idx = file.blockCount ∧ sqfsFragmentIsNone file.fragIdx = false) := by
    rw [count, calculateBlockLayout]
    split
    · exact ⟨Nat.zero_le _, by omega⟩
    · dsimp only
      split
      · next partial_ =>
          have wrapped : u32 (u32 (file.fileSize / file.blockSize) + 1) ≤
              u32 (file.fileSize / file.blockSize) + 1 := Nat.mod_le _ _
          exact ⟨by omega, by simp [partial_.2]⟩
      · exact ⟨by omega, by omega⟩
  apply And.intro _ notTail.2
  rw [sqfsFileBlockLocation, if_pos notTail.1, if_neg notTail.2]

private theorem writes_nil_of_behind (init : sqfsFileCtxInit ctx.sb fh.inode = .ok file)
    (behind : u32 (file.fileSize / file.blockSize) < u32 (offset / file.blockSize))
    {out : List Cell} (writes : DataReadWrites cache ctx state fh.inode offset size out) :
    out = [] := by
  rcases readStart_returns_or_enters ctx fh.inode offset size with
    ⟨ret, early⟩ | ⟨other, entered, loops⟩
  · rw [DataReadWrites, early] at writes
    exact writes
  · have same := entered.init
    rw [init] at same
    cases same
    have bounds := sqfsFileCtxInit_bounds init
    have position : u64 (offset + 0) = offset :=
      u64_of_lt (Nat.lt_trans entered.insideFile bounds.1)
    rcases sqfsFileBlockLocation_behind init behind with ⟨failed, notTail⟩
    rw [DataReadWrites, loops] at writes
    dsimp only at writes
    generalize begun : ReadState.mk 0 (requestSize file offset size) []
      (List.replicate file.blockSize none) state = start at writes
    have left : readPass cache ctx file offset start =
        .leave (some (start.returned SqfsError.badBlock.code)) := by
      subst begun
      rw [readPass, if_neg entered.nonempty]
      dsimp only
      rw [position, if_neg notTail, failed]
      exact if_neg (by simp)
    subst begun
    rcases writes with ⟨reached, passes, rfl⟩ | ⟨result, returned, rfl⟩
    · rw [(Pass.enters_of_leave left).mp passes]
    · rw [Option.some.inj (returned.unique (.of_leave left))]
      rfl

private theorem respectsRequest_behind
    (behind : u32 (fileSize / blockSize) < u32 (offset / blockSize)) :
    RespectsRequest blockSize fileSize offset size := by
  by_cases outside : fileSize ≤ offset
  · exact respectsRequest_outside outside
  · rintro ctx fh C cache state rfl opened rfl
    rcases opened.init ctx.sb with ⟨file, init, sameSize⟩
    have sameBlockSize := (sqfsFileCtxInit_fields init).1
    rw [← sameSize, ← sameBlockSize] at behind
    refine ⟨?_, ?_, ?_⟩
    · intro out writes
      rw [writes_nil_of_behind init behind writes]
      exact Nat.zero_le _
    · intro out writes
      rw [VfsReadWrites, if_neg outside] at writes
      rw [writes_nil_of_behind init behind writes]
      exact Nat.zero_le _
    · intro served
      have bounds := sqfsFileCtxInit_bounds init
      have blocks := (served.sized file init).blocks_lt
        (sameBlockSize ▸ ctx.sb.blockSize_pos) bounds.2
      have order : offset / file.blockSize ≤ file.fileSize / file.blockSize :=
        Nat.div_le_div_right (by omega)
      rw [u32_of_lt blocks, u32_of_lt (by omega)] at behind
      omega

end Respected

/-! ## Files of holes -/

def holesInode (blockSize fileSize fragOffset : Nat) : SqfsInode :=
  .ofFile fileSize 0 0 fragOffset (List.replicate (u32 (fileSize / blockSize)) 0)

def holesFile (blockSize fileSize fragOffset : Nat) : SqfsFileCtx where
  fileSize
  blocksStart := 0
  blockSize
  blockCount := u32 (fileSize / blockSize)
  tailSize := (calculateBlockLayout fileSize blockSize 0).2
  fragIdx := 0
  fragOffset
  blockSizes := List.replicate (u32 (fileSize / blockSize)) 0

private theorem SqfsInode.ofFile_get {fileSize blocksStart fragIdx blockOffset : Nat}
    {blockSizes : List Nat} (fileSizeFits : fileSize < 2 ^ 64)
    (blocksStartFits : blocksStart < 2 ^ 64) (fragIdxFits : fragIdx < 2 ^ 32)
    (blockOffsetFits : blockOffset < 2 ^ 32) :
    let inode := SqfsInode.ofFile fileSize blocksStart fragIdx blockOffset blockSizes
    inode.get .fileFileSize = fileSize ∧ inode.get .fileBlocksStart = blocksStart ∧
      inode.get .fileFragIdx = fragIdx ∧ inode.get .fileBlockOffset = blockOffset := by
  dsimp only [SqfsInode.ofFile, SqfsInode.get, SqfsInode.set, UnionMember.fileFileSize,
    UnionMember.fileBlocksStart, UnionMember.fileFragIdx, UnionMember.fileBlockOffset]
  refine ⟨?_, ?_, ?_, ?_⟩
  · rw [Storage.load_store_disjoint _ _ _ _ _ _ (by decide),
      Storage.load_store_disjoint _ _ _ _ _ _ (by decide),
      Storage.load_store_disjoint _ _ _ _ _ _ (by decide), Storage.load_store_same]
    exact Nat.mod_eq_of_lt (lt_of_lt_of_eq fileSizeFits (by norm_num))
  · rw [Storage.load_store_disjoint _ _ _ _ _ _ (by decide),
      Storage.load_store_disjoint _ _ _ _ _ _ (by decide), Storage.load_store_same]
    exact Nat.mod_eq_of_lt (lt_of_lt_of_eq blocksStartFits (by norm_num))
  · rw [Storage.load_store_disjoint _ _ _ _ _ _ (by decide), Storage.load_store_same]
    exact Nat.mod_eq_of_lt (lt_of_lt_of_eq fragIdxFits (by norm_num))
  · rw [Storage.load_store_same]
    exact Nat.mod_eq_of_lt (lt_of_lt_of_eq blockOffsetFits (by norm_num))

section Holes

variable {ctx : SqfsCtx} {blockSize fileSize fragOffset offset size : Nat}

private theorem holesInode_init (sb : SqfsSuperblock) (fileSizeFits : fileSize < 2 ^ 64)
    (fragOffsetFits : fragOffset < 2 ^ 32) :
    sqfsFileCtxInit sb (holesInode sb.blockSize fileSize fragOffset) =
      .ok (holesFile sb.blockSize fileSize fragOffset) := by
  have count : (calculateBlockLayout fileSize sb.blockSize 0).1 =
      u32 (fileSize / sb.blockSize) := by
    rw [calculateBlockLayout]
    split
    · next empty => rw [empty, Nat.zero_div]; rfl
    · exact congrArg Prod.fst (if_neg (by simp [sqfsFragmentIsNone, fragmentInvalid]))
  rcases @SqfsInode.ofFile_get fileSize 0 0 fragOffset
    (List.replicate (u32 (fileSize / sb.blockSize)) 0) fileSizeFits (by decide) (by decide)
    fragOffsetFits with ⟨size, start, frag, inFrag⟩
  rw [sqfsFileCtxInit, holesInode, size, start, frag, inFrag]
  dsimp only
  rw [count]
  rfl

private theorem exists_opened_holes (sb : SqfsSuperblock) (fileSizeFits : fileSize < 2 ^ 64)
    (fragOffsetFits : fragOffset < 2 ^ 32) :
    ∃ fh : SqfsVfsFh, fh.Opened ∧ fh.fileSize = fileSize ∧
      sqfsFileCtxInit sb fh.inode = .ok (holesFile sb.blockSize fileSize fragOffset) := by
  have members := @SqfsInode.ofFile_get fileSize 0 0 fragOffset
    (List.replicate (u32 (fileSize / sb.blockSize)) 0) fileSizeFits (by decide) (by decide)
    fragOffsetFits
  exact ⟨⟨holesInode sb.blockSize fileSize fragOffset, fileSize⟩, ⟨rfl, members.1.symm⟩, rfl,
    holesInode_init sb fileSizeFits fragOffsetFits⟩

theorem holesFile_located {idx : Nat} (inRange : idx < u32 (fileSize / blockSize)) :
    sqfsFileBlockLocation (holesFile blockSize fileSize fragOffset) idx =
      .ok { pos := 0, size := 0 } := by
  have notBehind : ¬ (holesFile blockSize fileSize fragOffset).blockCount ≤ idx :=
    Nat.not_le_of_lt inRange
  have word : (holesFile blockSize fileSize fragOffset).blockSizes[idx]? = some 0 :=
    List.getElem?_replicate_of_lt inRange
  rw [sqfsFileBlockLocation, if_neg notBehind, word]
  rfl

private theorem placeAt_holesFile {pos : Nat}
    (atMost : u32 (u64 pos / blockSize) ≤ u32 (fileSize / blockSize)) :
    placeAt (holesFile blockSize fileSize fragOffset) pos =
      if u32 (u64 pos / blockSize) = u32 (fileSize / blockSize) then .tail else .hole := by
  have hasTail : sqfsFragmentIsNone (holesFile blockSize fileSize fragOffset).fragIdx = false := rfl
  rw [placeAt]
  by_cases atTail : u32 (u64 pos / blockSize) = u32 (fileSize / blockSize)
  · rw [if_pos atTail]
    exact if_pos ⟨atTail, hasTail⟩
  · rw [if_neg atTail]
    have located : sqfsFileBlockLocation (holesFile blockSize fileSize fragOffset)
        (u32 (u64 pos / (holesFile blockSize fileSize fragOffset).blockSize)) =
          .ok { pos := 0, size := 0 } :=
      holesFile_located (Nat.lt_of_le_of_ne atMost atTail)
    apply (if_neg fun tail => atTail tail.1).trans
    rw [located]
    rfl

private theorem exists_first_u32 {first last : Nat} (order : first ≤ last)
    (notBehind : u32 first ≤ u32 last) :
    ∃ idx, u32 idx = u32 last ∧ first ≤ idx ∧ idx ≤ last ∧
      ∀ other, first ≤ other → other ≤ idx → u32 other ≤ u32 last := by
  unfold u32 at notBehind ⊢
  exact ⟨first - first % 2 ^ 32 + last % 2 ^ 32, by omega, by omega, by omega,
    fun other _ _ => by omega⟩

private theorem lt_of_div_le (divides : blockSize ∣ 2 ^ 64) (positive : 0 < blockSize)
    (fileSizeFits : fileSize < 2 ^ 64) {pos : Nat}
    (order : pos / blockSize ≤ fileSize / blockSize) : pos < 2 ^ 64 := by
  rcases divides with ⟨blocks, all⟩
  rw [all] at fileSizeFits ⊢
  have inRange : pos / blockSize < blocks :=
    Nat.lt_of_le_of_lt order (Nat.div_lt_of_lt_mul fileSizeFits)
  rw [Nat.mul_comm]
  exact (Nat.div_lt_iff_lt_mul positive).mp inRange

private theorem ThroughHoles.comes_to_tail {total : Nat} {progress : Progress}
    (through : ThroughHoles (holesFile blockSize fileSize fragOffset) offset total progress)
    (divides : blockSize ∣ 2 ^ 64) (positive : 0 < blockSize)
    (fileSizeFits : fileSize < 2 ^ 64) (inside : offset < fileSize)
    (notBehind : u32 (offset / blockSize) ≤ u32 (fileSize / blockSize))
    (notHole : placeAt (holesFile blockSize fileSize fragOffset)
      (offset + progress.bytesRead) ≠ .hole) :
    placeAt (holesFile blockSize fileSize fragOffset) (offset + progress.bytesRead) = .tail := by
  have order : offset / blockSize ≤ fileSize / blockSize := Nat.div_le_div_right (by omega)
  rcases exists_first_u32 order notBehind with ⟨tailIdx, atTail, fromStart, inFile, before⟩
  have atMost : (offset + progress.bytesRead) / blockSize ≤ tailIdx := by
    apply Nat.le_of_not_lt
    intro behind
    have start : tailIdx * blockSize < offset + progress.bytesRead := by
      have next := (Nat.le_div_iff_mul_le positive).mp behind
      rw [Nat.succ_mul] at next
      omega
    have later : offset < offset + progress.bytesRead := by
      apply Nat.lt_of_not_le
      intro same
      have atStart : progress.bytesRead = 0 := by omega
      rw [atStart, Nat.add_zero] at behind
      omega
    have block : max offset (tailIdx * blockSize) / blockSize = tailIdx := by
      rcases Nat.le_total offset (tailIdx * blockSize) with first | second
      · rw [Nat.max_eq_right first, Nat.mul_div_cancel _ positive]
      · rw [Nat.max_eq_left second]
        exact Nat.le_antisymm fromStart ((Nat.le_div_iff_mul_le positive).mpr second)
    have position : max offset (tailIdx * blockSize) < 2 ^ 64 := by
      apply lt_of_div_le divides positive fileSizeFits
      rw [block]
      exact inFile
    have hole := through.holes (max offset (tailIdx * blockSize)) (Nat.le_max_left _ _)
      (Nat.max_lt.mpr ⟨later, start⟩)
    rw [placeAt_holesFile, u64_of_lt position, block, if_pos atTail] at hole
    · contradiction
    · rw [u64_of_lt position, block, atTail]
  have position : offset + progress.bytesRead < 2 ^ 64 :=
    lt_of_div_le divides positive fileSizeFits (Nat.le_trans atMost inFile)
  have fromOffset : offset / blockSize ≤ (offset + progress.bytesRead) / blockSize :=
    Nat.div_le_div_right (Nat.le_add_right _ _)
  have place := @placeAt_holesFile blockSize fileSize fragOffset (offset + progress.bytesRead)
  rw [u64_of_lt position] at place
  have known := place (before _ fromOffset atMost)
  split at known
  · exact known
  · exact absurd known notHole

/-- Where the end of a request wraps around, a file of holes whose tail is not in its fragment
block is read on for as long as bytes are wanted. -/
theorem holesFile_reads_on {inode : SqfsInode}
    (init : sqfsFileCtxInit ctx.sb inode = .ok (holesFile ctx.sb.blockSize fileSize fragOffset))
    (cache : BlockCache C) (state : C) (fileSizeFits : fileSize < 2 ^ 64)
    (sizeFits : size < 2 ^ 64) (inside : offset < fileSize)
    (wraps : 2 ^ 64 ≤ offset + size)
    (notBehind : u32 (offset / ctx.sb.blockSize) ≤ u32 (fileSize / ctx.sb.blockSize))
    (noTail : ctx.sb.blockSize ≤ fragOffset) (fragOffsetFits : fragOffset < 2 ^ 31) :
    ∃ result, SqfsDataRead cache ctx state inode offset size (some result) ∧
      result.out.length = size := by
  have request : requestSize (holesFile ctx.sb.blockSize fileSize fragOffset) offset size =
      size := requestSize_of_wraps inside fileSizeFits sizeFits wraps
  have entered : Enters ctx inode offset size (holesFile ctx.sb.blockSize fileSize fragOffset) :=
    ⟨init, inside, by rw [request]; omega⟩
  rcases @Enters.throughHoles ctx ⟨inode, offset, size⟩ _ entered with
    ⟨last, through, stops, enters⟩
  have passes := enters C cache (List.replicate ctx.sb.blockSize none) state
  have sum : last.out.length + last.bytesRemaining = size := by
    have kept := wanted_of_entered passes
    simp only [ReadState.wanted, Progress.state, List.length_nil, Nat.zero_add] at kept
    rw [kept, request]
  have begins : ∀ result, Pass.Returns (readPass cache ctx
      (holesFile ctx.sb.blockSize fileSize fragOffset) offset)
        (last.state (List.replicate ctx.sb.blockSize none) state) (some result) →
      SqfsDataRead cache ctx state inode offset size (some result) := by
    intro result returned
    rw [SqfsDataRead, entered.begins]
    exact passes.returns returned
  by_cases finished : last.bytesRemaining = 0
  · have ended : readPass cache ctx (holesFile ctx.sb.blockSize fileSize fragOffset) offset
        (last.state (List.replicate ctx.sb.blockSize none) state) =
          .leave (some ((last.returned (toInt last.bytesRead)).result state)) := by
      rw [readPass, Progress.state, if_pos finished]
      rfl
    rw [finished, Nat.add_zero] at sum
    exact ⟨_, begins _ (Pass.Returns.of_leave ended), sum⟩
  · have tail := through.comes_to_tail ctx.sb.blockSize_dvd ctx.sb.blockSize_pos fileSizeFits
      inside notBehind (stops.resolve_left finished)
    have behind : ctx.sb.blockSize ≤ u32 (fragOffset + u64 (offset + last.bytesRead) %
        ctx.sb.blockSize) := by
      have inBlock := Nat.mod_lt (u64 (offset + last.bytesRead)) ctx.sb.blockSize_pos
      rw [u32_of_lt (by omega)]
      omega
    have ended := @readPass_tail C ctx _ offset last cache (List.replicate ctx.sb.blockSize none)
      state finished tail
    have zeros := @readTail_behind C ctx (holesFile ctx.sb.blockSize fileSize fragOffset) last cache
      (List.replicate ctx.sb.blockSize none) state _ rfl behind
    rw [show (holesFile ctx.sb.blockSize fileSize fragOffset).blockSize = ctx.sb.blockSize from rfl,
      zeros] at ended
    apply Exists.intro
    apply And.intro (begins _ (Pass.Returns.of_leave ended))
    rw [PlainResult.result, Progress.finished]
    dsimp only
    rw [List.length_append, List.length_replicate]
    exact sum

private theorem replicate_blockSize_small (sb : SqfsSuperblock) :
    (List.replicate sb.blockSize (0 : UInt8)).length < 2 ^ 63 := by
  rw [List.length_replicate]
  exact Nat.lt_of_le_of_lt sb.blockSize_le (by decide)

def zeroFragmentCtx (sb : SqfsSuperblock) : SqfsCtx where
  image := ⟨List.replicate sb.blockSize 0, replicate_blockSize_small sb⟩
  sb
  comp := storedDeflate
  idTable := []
  fragmentTable := some {
    entries := [{ start := 0, size := 2 ^ 24 + sb.blockSize, unused := 0 }], loaded := true }
  xattrTable := none

theorem zeroFragmentCtx_readBlock (sb : SqfsSuperblock) (comp : Compressor) :
    sqfsFragmentReadBlock { zeroFragmentCtx sb with comp } 0 =
      .ok (List.replicate sb.blockSize 0) := by
  have small := sb.blockSize_le
  have positive := sb.blockSize_pos
  have uncompressed : sqfsBlockIsUncompressed (2 ^ 24 + sb.blockSize) = true := by
    rw [sqfsBlockIsUncompressed, Nat.testBit_two_pow_add_eq, Nat.testBit_lt_two_pow (by omega)]
    rfl
  have actualSize : sqfsBlockSizeGet (2 ^ 24 + sb.blockSize) = sb.blockSize := by
    have low : sqfsBlockSizeGet (2 ^ 24 + sb.blockSize) = (2 ^ 24 + sb.blockSize) % 2 ^ 24 :=
      Nat.and_two_pow_sub_one_eq_mod _ 24
    omega
  have entry : sqfsFragmentLocation { zeroFragmentCtx sb with comp } 0 =
      .ok { start := 0, size := 2 ^ 24 + sb.blockSize, unused := 0 } := by
    rw [sqfsFragmentLocation, if_neg (by decide)]
    exact if_neg (by simp)
  have onDisk : (zeroFragmentCtx sb).image.diskBytes 0 sb.blockSize =
      some (List.replicate sb.blockSize 0) := by
    rw [Image.diskBytes, if_neg (by omega), slice_eq_some]
    exact ⟨by simp [zeroFragmentCtx], by simp [zeroFragmentCtx]⟩
  rw [sqfsFragmentReadBlock, entry]
  dsimp only [Outcome.ok_bind]
  rw [actualSize, if_pos uncompressed, sqfsPreadInto_eq_ok]
  exact ⟨onDisk, Nat.le_refl _⟩

private theorem holesFile_wellFormed (sb : SqfsSuperblock)
    (blocksFit : fileSize / sb.blockSize < 2 ^ 32) :
    WellFormedFile (zeroFragmentCtx sb) (holesFile sb.blockSize fileSize 0) where
  counted := u32_of_lt blocksFit
  listed := List.length_replicate
  stored := by
    intro idx location located notHole
    have hole := @holesFile_located sb.blockSize fileSize 0 idx (sqfsFileBlockLocation_lt located)
    rw [hole] at located
    cases located
    contradiction
  tail := by
    intro _ _
    apply Exists.intro (List.replicate sb.blockSize 0)
    apply And.intro (zeroFragmentCtx_readBlock sb _)
    have inBlock := Nat.mod_lt fileSize sb.blockSize_pos
    rw [List.length_replicate]
    exact (Nat.zero_add _).trans_le (Nat.le_of_lt inBlock)

private theorem holesFile_unpacks (sb : SqfsSuperblock) :
    UnpacksInPlace (zeroFragmentCtx sb) (holesFile sb.blockSize fileSize 0) where
  block := by
    intro idx location located notHole
    have hole := @holesFile_located sb.blockSize fileSize 0 idx (sqfsFileBlockLocation_lt located)
    rw [hole] at located
    cases located
    contradiction
  tail := fun _ _ =>
    (zeroFragmentCtx_readBlock sb _).trans (zeroFragmentCtx_readBlock sb _).symm

private theorem holesFile_not_fails {pos : Nat} :
    ¬ BlockFails ctx (holesFile blockSize fileSize fragOffset) pos := by
  rintro ⟨location, error, located, notHole, -⟩
  rw [holesFile_located (sqfsFileBlockLocation_lt located)] at located
  cases located
  contradiction

private theorem not_respectsRequest_of_wraps (sb : SqfsSuperblock) (fileSizeFits : fileSize < 2 ^ 64)
    (sizeFits : size < 2 ^ 64) (inside : offset < fileSize) (wraps : 2 ^ 64 ≤ offset + size)
    (notBehind : u32 (offset / sb.blockSize) ≤ u32 (fileSize / sb.blockSize)) :
    ¬ RespectsRequest sb.blockSize fileSize offset size := by
  intro respects
  have small := sb.blockSize_le
  rcases exists_opened_holes sb fileSizeFits (show 2 ^ 20 < 2 ^ 32 by decide) with
    ⟨fh, opened, sameSize, init⟩
  have keeps := (respects (zeroFragmentCtx sb) fh Unit missingCache () rfl opened sameSize).1
  rcases @holesFile_reads_on (zeroFragmentCtx sb) fileSize (2 ^ 20) offset size Unit fh.inode init
    missingCache () fileSizeFits sizeFits inside wraps notBehind small (by decide) with
    ⟨result, read, length⟩
  have bound := keeps result.out read.writes
  omega

private theorem count_lt_of_respects (sb : SqfsSuperblock) (fileSizeFits : fileSize < 2 ^ 64)
    (noWrap : offset + size < 2 ^ 64) (blocksFit : fileSize / sb.blockSize < 2 ^ 32)
    (respects : RespectsRequest sb.blockSize fileSize offset size) :
    min size (fileSize - offset) < 2 ^ 31 := by
  rcases exists_opened_holes sb fileSizeFits (show 0 < 2 ^ 32 by decide) with
    ⟨fh, opened, sameSize, init⟩
  have wellFormed := holesFile_wellFormed sb blocksFit
  have unpacks := @holesFile_unpacks fileSize sb
  have agrees := agreesOnRead_missing (zeroFragmentCtx sb) fh.inode offset size
  have only : ∀ file, sqfsFileCtxInit (zeroFragmentCtx sb).sb fh.inode = .ok file →
      file = holesFile sb.blockSize fileSize 0 :=
    fun file same => Except.ok.inj (same.symm.trans init)
  have serves : ServesWellFormed missingCache (zeroFragmentCtx sb) () fh.inode offset size := {
    sized := fun file same => only file same ▸ wellFormed.sized unpacks
    readable := fun file same => only file same ▸ wellFormed.readable
    serves := ⟨_, _, _, missingCache_serves, agrees, trivial⟩ }
  rcases ((respects (zeroFragmentCtx sb) fh Unit missingCache () rfl opened sameSize).2.2 serves).1
    with ⟨result, read, counted | ⟨-, file, pos, same, -, fails⟩⟩
  · rcases readStart_cases (zeroFragmentCtx sb) fh.inode offset size with
      ⟨error, failed, -⟩ | ⟨other, same, nothing, -⟩ | ⟨other, entered, -⟩
    · rw [show (zeroFragmentCtx sb).sb = sb from rfl, init] at failed
      contradiction
    · obtain rfl := only other same
      have total : min size (fileSize - offset) ≤ _ :=
        le_requestSize (holesFile sb.blockSize fileSize 0) offset size
      have outside : fileSize ≤ offset ∨
          requestSize (holesFile sb.blockSize fileSize 0) offset size = 0 := nothing
      omega
    · obtain rfl := only other entered.init
      rcases read.plain missingCache_serves agrees trivial with ⟨plain, plainRead, related⟩
      cases plain with
      | none => exact related.elim
      | some plain =>
          rcases related with ⟨sameRet, refines, -⟩
          have length := refines.length_eq
          have returned := (entered.plainRead_iff _).mp plainRead
          have whole := wellFormed.writes_all unpacks entered noWrap (by omega) returned
          have total : min size (fileSize - offset) ≤ _ :=
            le_requestSize (holesFile sb.blockSize fileSize 0) offset size
          rcases returned.leaves with ⟨last, -, left⟩
          have bound := plainPass_ret_lt left
          omega
  · obtain rfl := only file same
    exact absurd fails holesFile_not_fails

end Holes

/-- Reads of files of a size keep to a request of 64-bit values, and return what they wrote,
exactly if its end does not wrap around and the count fits an `int`, or if there is nothing to
read or no well-formed file of the size. -/
theorem respectsRequest_iff (sb : SqfsSuperblock) (fileSize offset size : UInt64) :
    RespectsRequest sb.blockSize fileSize.toNat offset.toNat size.toNat ↔
      RequestFits sb.blockSize fileSize.toNat offset.toNat size.toNat := by
  have fileSizeFits : fileSize.toNat < 2 ^ 64 := fileSize.toNat_lt
  have sizeFits : size.toNat < 2 ^ 64 := size.toNat_lt
  generalize fileSize.toNat = fileSize at *
  generalize offset.toNat = offset at *
  generalize size.toNat = size at *
  constructor
  · intro respects
    by_cases outside : fileSize ≤ offset
    · exact .inl outside
    · right
      by_cases behind : u32 (fileSize / sb.blockSize) < u32 (offset / sb.blockSize)
      · exact .inr behind
      · left
        have inside := Nat.lt_of_not_le outside
        have noWrap : offset + size < 2 ^ 64 := by
          apply Nat.lt_of_not_le
          intro wraps
          exact not_respectsRequest_of_wraps sb fileSizeFits sizeFits inside wraps
            (Nat.le_of_not_lt behind) respects
        apply And.intro noWrap
        by_cases blocksFit : fileSize / sb.blockSize < 2 ^ 32
        · exact .inl (count_lt_of_respects sb fileSizeFits noWrap blocksFit respects)
        · exact .inr (Nat.le_of_not_lt blocksFit)
  · intro fits
    rcases fits with outside | ⟨noWrap, countFits⟩ | behind
    · exact respectsRequest_outside outside
    · exact respectsRequest_of_lt noWrap countFits
    · exact respectsRequest_behind behind

/-- A file of two bytes, both in a hole. -/
def oneHoleFile : SqfsFileCtx where
  fileSize := 2
  blocksStart := 0
  blockSize := 4096
  blockCount := 1
  tailSize := 2
  fragIdx := fragmentInvalid
  fragOffset := 0
  blockSizes := [0]

def oneHoleHandle : SqfsVfsFh where
  inode := .ofFile 2 0 fragmentInvalid 0 [0]
  fileSize := 2

private theorem oneHoleFile_wellFormed (ctx : SqfsCtx) : WellFormedFile ctx oneHoleFile where
  counted := by decide
  listed := rfl
  stored := by
    intro idx location located notHole
    have inRange := sqfsFileBlockLocation_lt located
    have first : idx = 0 := Nat.lt_one_iff.mp inRange
    subst first
    cases located
    contradiction
  tail := fun hasTail => absurd hasTail (by decide)

private theorem oneHoleFile_fails (cache : BlockCache C) (ctx : SqfsCtx) (next : ReadState C)
    (position : next.bytesRead = 4095) (unfinished : next.bytesRemaining ≠ 0) :
    readPass cache ctx oneHoleFile 1 next =
      .leave (some (next.returned SqfsError.badBlock.code)) := by
  have failed : sqfsFileBlockLocation oneHoleFile (u32 (u64 (1 + 4095) / oneHoleFile.blockSize)) =
      .err .badBlock := by decide +kernel
  rw [readPass, if_neg unfinished, position]
  dsimp only
  rw [if_neg (by decide), failed]
  exact if_neg (by decide)

private theorem oneHoleHandle_init :
    sqfsFileCtxInit (SqfsCtx.onBytes [] (by decide)).sb oneHoleHandle.inode =
      .ok oneHoleFile := by
  decide +kernel

private theorem oneHoleHandle_reads (cache : BlockCache C) (state : C) :
    ∃ result, SqfsDataRead cache (.onBytes [] (by decide)) state oneHoleHandle.inode 1
        (2 ^ 64 - 1) (some result) ∧
      result.ret = -1008 ∧ result.out.length = 4095 := by
  have entered : Enters (.onBytes [] (by decide)) oneHoleHandle.inode 1 (2 ^ 64 - 1)
      oneHoleFile := ⟨oneHoleHandle_init, by decide, by decide⟩
  have request : requestSize oneHoleFile 1 (2 ^ 64 - 1) = 2 ^ 64 - 1 := by decide
  have pass := @readPass_hole C (.onBytes [] (by decide)) oneHoleFile 1
    ⟨0, 2 ^ 64 - 1, []⟩ cache (List.replicate 4096 none) state (by decide) (by decide +kernel)
  have copied : (Progress.overHole oneHoleFile 1 ⟨0, 2 ^ 64 - 1, []⟩).bytesRead = 4095 ∧
      (Progress.overHole oneHoleFile 1 ⟨0, 2 ^ 64 - 1, []⟩).bytesRemaining = 2 ^ 64 - 4096 ∧
      (Progress.overHole oneHoleFile 1 ⟨0, 2 ^ 64 - 1, []⟩).out.length = 4095 := by
    simp only [Progress.overHole, Progress.copied, List.nil_append, List.length_replicate]
    decide
  have ended := oneHoleFile_fails cache (.onBytes [] (by decide))
    ((Progress.overHole oneHoleFile 1 ⟨0, 2 ^ 64 - 1, []⟩).state (List.replicate 4096 none) state)
    copied.1 (copied.2.1.trans_ne (by decide))
  have returned := Pass.Returns.of_again pass (Pass.Returns.of_leave ended)
  refine ⟨((Progress.overHole oneHoleFile 1 ⟨0, 2 ^ 64 - 1, []⟩).state
    (List.replicate 4096 none) state).returned SqfsError.badBlock.code, ?_, rfl, copied.2.2⟩
  rw [SqfsDataRead, entered.begins, request]
  exact returned

/-- From the second byte of the file on, almost `2 ^ 64` bytes are asked for: where one byte
is left the call writes 4095 and fails. -/
theorem sqfsVfsRead_overruns_hole :
    oneHoleHandle.Opened ∧
    sqfsFileCtxInit (SqfsCtx.onBytes [] (by decide)).sb oneHoleHandle.inode = .ok oneHoleFile ∧
    WellFormedFile (.onBytes [] (by decide)) oneHoleFile ∧
    (∀ (C : Type) (cache : BlockCache C) (state : C), ∃ result,
      SqfsVfsRead cache (.onBytes [] (by decide)) state oneHoleHandle 1 (2 ^ 64 - 1)
        (some result) ∧
      result.ret = -5 ∧ result.out.length = 4095) ∧
    ¬ RespectsRequest 4096 2 1 (2 ^ 64 - 1) := by
  have opened : oneHoleHandle.Opened := ⟨rfl, by decide +kernel⟩
  have overruns : ∀ (C : Type) (cache : BlockCache C) (state : C), ∃ result,
      SqfsVfsRead cache (.onBytes [] (by decide)) state oneHoleHandle 1 (2 ^ 64 - 1)
        (some result) ∧ result.ret = -5 ∧ result.out.length = 4095 := by
    intro C cache state
    rcases oneHoleHandle_reads cache state with ⟨result, read, ret, length⟩
    have limit : vfsReadSize oneHoleHandle.fileSize 1 (2 ^ 64 - 1) = 2 ^ 64 - 1 := by decide
    have failed : result.toVfs.ret = -5 := by
      rw [ReadResult.toVfs, if_pos (by rw [ret]; decide), ret]
      rfl
    refine ⟨result.toVfs, ?_, failed, length⟩
    rw [SqfsVfsRead, if_neg (by decide), limit]
    exact ⟨_, read, rfl⟩
  refine ⟨opened, oneHoleHandle_init, oneHoleFile_wellFormed _, overruns, ?_⟩
  intro respects
  rcases oneHoleHandle_reads missingCache () with ⟨result, read, -, length⟩
  have bound := (respects (.onBytes [] (by decide)) oneHoleHandle Unit missingCache () rfl opened
    rfl).1 result.out read.writes
  omega

end SquashfsFuse
