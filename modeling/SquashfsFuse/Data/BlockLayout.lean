import SquashfsFuse.Data.Reading
import SquashfsFuse.Inode.Decoding

/-! How many blocks a file has, and where they lie. -/

namespace SquashfsFuse

/-! ## Counting -/

/-- The number of blocks of a file. Its tail is a block of its own unless it lies in a
fragment. -/
def prescribedCount (fileSize blockSize fragIdx : Nat) : Nat :=
  if sqfsFragmentIsNone fragIdx then
    (fileSize + blockSize - 1) / blockSize
  else
    fileSize / blockSize

section Counting

variable {fileSize blockSize fragIdx : Nat}

theorem div_ceil_eq (positive : 0 < blockSize) :
    (fileSize + blockSize - 1) / blockSize =
      fileSize / blockSize + if fileSize % blockSize ≠ 0 then 1 else 0 := by
  have parts := Nat.div_add_mod fileSize blockSize
  have bound := Nat.mod_lt fileSize positive
  split
  · next partial_ =>
      have split : fileSize + blockSize - 1 =
          blockSize * (fileSize / blockSize + 1) + (fileSize % blockSize - 1) := by
        rw [Nat.mul_succ]
        omega
      have rest : (fileSize % blockSize - 1) / blockSize = 0 := Nat.div_eq_of_lt (by omega)
      rw [split, Nat.mul_add_div positive, rest, Nat.add_zero]
  · next whole =>
      have split : fileSize + blockSize - 1 =
          blockSize * (fileSize / blockSize) + (blockSize - 1) := by
        omega
      have rest : (blockSize - 1) / blockSize = 0 := Nat.div_eq_of_lt (by omega)
      rw [split, Nat.mul_add_div positive, rest]

theorem sqfsCalcBlockCount_eq_u32 (positive : 0 < blockSize) :
    sqfsCalcBlockCount fileSize blockSize (fragIdx != fragmentInvalid) =
      u32 (prescribedCount fileSize blockSize fragIdx) := by
  rw [prescribedCount, sqfsCalcBlockCount, div_ceil_eq positive]
  have negated : (fragIdx != fragmentInvalid) = ! sqfsFragmentIsNone fragIdx := rfl
  rw [negated]
  by_cases empty : fileSize = 0
  · simp [empty, u32]
  · rw [if_neg empty]
    cases sqfsFragmentIsNone fragIdx with
    | true =>
        by_cases whole : fileSize % blockSize = 0 <;> simp [whole]
    | false => simp

/-- The reader counts in 32 bits at every step. -/
theorem calculateBlockLayout_eq_u32 (positive : 0 < blockSize) (small : blockSize ≤ 2 ^ 20) :
    (calculateBlockLayout fileSize blockSize fragIdx).1 =
      u32 (prescribedCount fileSize blockSize fragIdx) := by
  have bound := Nat.mod_lt fileSize positive
  rw [prescribedCount, calculateBlockLayout, div_ceil_eq positive]
  by_cases empty : fileSize = 0
  · simp [empty, u32]
  · rw [if_neg empty]
    dsimp only
    rw [u32_of_lt (Nat.lt_of_lt_of_le bound (Nat.le_trans small (by decide)))]
    cases sqfsFragmentIsNone fragIdx with
    | true =>
        by_cases whole : fileSize % blockSize = 0
        · simp [whole]
        · rw [if_pos ⟨Nat.pos_of_ne_zero whole, rfl⟩, if_pos rfl, if_pos whole, u32, u32, u32,
            Nat.mod_add_mod]
    | false => simp

end Counting

/-! ## Accepted inodes -/

section Accepted

variable {data : List UInt8} {blockSize address consumed : Nat} {start inode : SqfsInode}

theorem parseInode_parts (parsed : parseInode data blockSize address start = .ok inode) :
    ∃ code type middle consumed, sqfsLe16ToCpu data 0 = .ok code ∧
      InodeType.ofCode code = some type ∧ middle.type = type ∧
      parseInodeOfType type data blockSize address middle = .ok (inode, consumed) ∧
      consumed ≤ data.length := by
  unfold parseInode at parsed
  split at parsed
  · cases parsed
  · rcases Outcome.bind_eq_ok.mp parsed with ⟨header, headerParsed, parsed⟩
    rcases Outcome.bind_eq_ok.mp headerParsed with ⟨code, load, headerParsed⟩
    have typeCode : header.type = code := by
      rcases Outcome.bind_eq_ok.mp headerParsed with ⟨permissions, -, headerParsed⟩
      rcases Outcome.bind_eq_ok.mp headerParsed with ⟨uidIdx, -, headerParsed⟩
      rcases Outcome.bind_eq_ok.mp headerParsed with ⟨gidIdx, -, headerParsed⟩
      rcases Outcome.bind_eq_ok.mp headerParsed with ⟨mtime, -, headerParsed⟩
      rcases Outcome.bind_eq_ok.mp headerParsed with ⟨inodeNumber, -, equal⟩
      cases equal
      rfl
    split at parsed
    · cases parsed
    · next type found =>
        rcases Outcome.bind_eq_ok.mp parsed with ⟨⟨decoded, consumed⟩, decodes, returned⟩
        dsimp only at returned
        split at returned
        · cases returned
        · next within =>
            cases returned
            rw [typeCode] at found
            exact ⟨code, type, _, consumed, load, found, rfl, decodes, by omega⟩

structure SqfsInode.Counted (inode : SqfsInode) (blockSize fileSize fragIdx : Nat) : Prop where
  size : inode.get .fileFileSize = fileSize
  fragment : inode.get .fileFragIdx = fragIdx
  counted : inode.get .fileBlockCount =
    sqfsCalcBlockCount fileSize blockSize (fragIdx != fragmentInvalid)
  listed : inode.blockSizes.length = inode.get .fileBlockCount

theorem readBlockSizes_length {first count : Nat} {words : List Nat}
    (read : readBlockSizes data first count = .ok words) : words.length = count :=
  (Outcome.length_of_mapM_eq_ok read).trans List.length_range

private theorem sqfsCalcBlockCount_lt (fileSize : Nat) (hasFragment : Bool) :
    sqfsCalcBlockCount fileSize blockSize hasFragment < 2 ^ 32 := by
  rw [sqfsCalcBlockCount]
  split
  · exact Nat.two_pow_pos 32
  · split <;> exact Nat.mod_lt _ (Nat.two_pow_pos 32)

private theorem parseInodeFile_counted
    (parsed : parseInodeFile data blockSize start = .ok (inode, consumed)) :
    ∃ fileSize fragIdx : UInt32, inode.Counted blockSize fileSize.toNat fragIdx.toNat := by
  rcases Outcome.bind_eq_ok.mp parsed with ⟨blocksStart, -, parsed⟩
  rcases Outcome.bind_eq_ok.mp parsed with ⟨fragIdx, loadFrag, parsed⟩
  rcases Outcome.bind_eq_ok.mp parsed with ⟨blockOffset, -, parsed⟩
  rcases Outcome.bind_eq_ok.mp parsed with ⟨fileSize, loadSize, parsed⟩
  rcases Outcome.bind_eq_ok.mp parsed with ⟨blockSizes, read, parsed⟩
  rcases sqfsLe32ToCpu_word loadFrag with ⟨fragIdx, rfl⟩
  rcases sqfsLe32ToCpu_word loadSize with ⟨fileSize, rfl⟩
  have length := readBlockSizes_length read
  have bound := @sqfsCalcBlockCount_lt blockSize fileSize.toNat
    (fragIdx.toNat != fragmentInvalid)
  have members := congrArg (·.1.members) (Outcome.ok.inj parsed)
  have listed := congrArg (·.1.blockSizes) (Outcome.ok.inj parsed)
  dsimp only at members listed
  apply Exists.intro fileSize
  apply Exists.intro fragIdx
  constructor
  · rw [SqfsInode.get, ← members]
    simp (disch := decide) [UnionMember.fileFileSize, UnionMember.fileSparse,
      UnionMember.fileXattrIdx, UnionMember.fileBlockCount, Storage.load_store_disjoint]
  · rw [SqfsInode.get, ← members]
    simp (disch := decide) [UnionMember.fileFragIdx, UnionMember.fileFileSize,
      UnionMember.fileBlockOffset, UnionMember.fileSparse, UnionMember.fileXattrIdx,
      UnionMember.fileBlockCount, Storage.load_store_disjoint]
  · rw [SqfsInode.get, ← members]
    exact (Storage.load_store_same _ _ _ _).trans (Nat.mod_eq_of_lt bound)
  · rw [SqfsInode.get, ← members, ← listed, length]
    exact ((Storage.load_store_same _ _ _ _).trans (Nat.mod_eq_of_lt bound)).symm

private theorem parseInodeLfile_counted
    (parsed : parseInodeLfile data blockSize start = .ok (inode, consumed)) :
    ∃ fileSize fragIdx, sqfsLe64ToCpu data 24 = .ok fileSize ∧
      sqfsLe32ToCpu data 44 = .ok fragIdx ∧ inode.Counted blockSize fileSize fragIdx ∧
      consumed = 56 + inode.blockSizes.length * 4 := by
  rcases Outcome.bind_eq_ok.mp parsed with ⟨blocksStart, -, parsed⟩
  rcases Outcome.bind_eq_ok.mp parsed with ⟨fileSize, loadSize, parsed⟩
  rcases Outcome.bind_eq_ok.mp parsed with ⟨sparse, -, parsed⟩
  rcases Outcome.bind_eq_ok.mp parsed with ⟨linkCount, -, parsed⟩
  rcases Outcome.bind_eq_ok.mp parsed with ⟨fragIdx, loadFrag, parsed⟩
  rcases Outcome.bind_eq_ok.mp parsed with ⟨blockOffset, -, parsed⟩
  rcases Outcome.bind_eq_ok.mp parsed with ⟨xattrIdx, -, parsed⟩
  rcases Outcome.bind_eq_ok.mp parsed with ⟨blockSizes, read, parsed⟩
  rcases sqfsLe32ToCpu_word loadFrag with ⟨fragIdx, rfl⟩
  rcases sqfsLe64ToCpu_word loadSize with ⟨fileSize, rfl⟩
  have length := readBlockSizes_length read
  have bound := @sqfsCalcBlockCount_lt blockSize fileSize.toNat
    (fragIdx.toNat != fragmentInvalid)
  have members := congrArg (·.1.members) (Outcome.ok.inj parsed)
  have listed := congrArg (·.1.blockSizes) (Outcome.ok.inj parsed)
  have counted := congrArg Prod.snd (Outcome.ok.inj parsed)
  dsimp only at members listed counted
  apply Exists.intro fileSize.toNat
  apply Exists.intro fragIdx.toNat
  apply And.intro loadSize
  apply And.intro loadFrag
  constructor
  · constructor
    · rw [SqfsInode.get, ← members]
      simp (disch := decide) [UnionMember.fileFileSize, UnionMember.fileSparse,
        UnionMember.fileFragIdx, UnionMember.fileBlockOffset, UnionMember.fileXattrIdx,
        UnionMember.fileBlockCount, Storage.load_store_disjoint]
    · rw [SqfsInode.get, ← members]
      simp (disch := decide) [UnionMember.fileFragIdx, UnionMember.fileBlockOffset,
        UnionMember.fileXattrIdx, UnionMember.fileBlockCount, Storage.load_store_disjoint]
    · rw [SqfsInode.get, ← members]
      exact (Storage.load_store_same _ _ _ _).trans (Nat.mod_eq_of_lt bound)
    · rw [SqfsInode.get, ← members, ← listed, length]
      exact ((Storage.load_store_same _ _ _ _).trans (Nat.mod_eq_of_lt bound)).symm
  · rw [← listed, length, counted]

theorem parseInode_counted (parsed : parseInode data blockSize address start = .ok inode)
    (isFile : sqfsInodeIsFile inode.type = true) :
    ∃ fileSize fragIdx, inode.Counted blockSize fileSize fragIdx ∧
      (inode.type = .file ∧ fileSize < 2 ^ 32 ∨
        sqfsLe16ToCpu data 0 = .ok InodeType.lfile.code ∧
        sqfsLe64ToCpu data 24 = .ok fileSize ∧ sqfsLe32ToCpu data 44 = .ok fragIdx ∧
        56 + inode.blockSizes.length * 4 ≤ data.length) := by
  rcases parseInode_parts parsed with
    ⟨code, type, middle, consumed, load, found, typed, decodes, within⟩
  have kept : inode.type = middle.type :=
    (parseInodeOfType_header type data blockSize address middle _ decodes).1
  rw [typed] at kept
  rw [kept] at isFile
  cases type with
  | file =>
      rcases parseInodeFile_counted decodes with ⟨fileSize, fragIdx, counted⟩
      exact ⟨_, _, counted, .inl ⟨kept, fileSize.toNat_lt⟩⟩
  | lfile =>
      rcases parseInodeLfile_counted decodes with ⟨fileSize, fragIdx, size, frag, counted, end_⟩
      have extended : code = InodeType.lfile.code := InodeType.code_of_ofCode found
      rw [extended] at load
      exact ⟨_, _, counted, .inr ⟨load, size, frag, end_ ▸ within⟩⟩
  | _ => cases isFile

theorem parseInodeHeader_of_le {code : Nat} (type : sqfsLe16ToCpu data 0 = .ok code)
    (long : 16 ≤ data.length) :
    ∃ header, parseInodeHeader data = .ok header ∧ header.type = code := by
  rcases @sqfsLe16ToCpu_of_le data 2 (by omega) with ⟨permissions, loadPermissions⟩
  rcases @sqfsLe16ToCpu_of_le data 4 (by omega) with ⟨uidIdx, loadUid⟩
  rcases @sqfsLe16ToCpu_of_le data 6 (by omega) with ⟨gidIdx, loadGid⟩
  rcases @sqfsLe32ToCpu_of_le data 8 (by omega) with ⟨mtime, loadTime⟩
  rcases @sqfsLe32ToCpu_of_le data 12 (by omega) with ⟨inodeNumber, loadNumber⟩
  rw [parseInodeHeader, type, loadPermissions, loadUid, loadGid, loadTime, loadNumber]
  exact ⟨_, rfl, rfl⟩

/-- The offsets of the words wrap around, but never leave the array. -/
theorem readBlockSizes_of_le {first count : Nat} (long : first + count * 4 ≤ data.length) :
    ∃ words, readBlockSizes data first count = .ok words := by
  have loads : ∀ i ∈ List.range count, sqfsLe32ToCpu data (first + u32 (i * 4)) =
      .ok ((loadLe 4 data (first + u32 (i * 4))).getD 0) := by
    intro i member
    have inside := List.mem_range.mp member
    have wrapped : u32 (i * 4) ≤ i * 4 := Nat.mod_le _ _
    rcases @loadLe_of_le 4 (first + u32 (i * 4)) data (by omega) with ⟨word, loaded⟩
    rw [sqfsLe32ToCpu, loaded]
    rfl
  exact ⟨_, Outcome.mapM_eq_ok loads⟩

private theorem parseInode_lfile_accepts {fileSize fragIdx : Nat}
    (type : sqfsLe16ToCpu data 0 = .ok InodeType.lfile.code)
    (size : sqfsLe64ToCpu data 24 = .ok fileSize) (frag : sqfsLe32ToCpu data 44 = .ok fragIdx)
    (long : 56 + sqfsCalcBlockCount fileSize blockSize (fragIdx != fragmentInvalid) * 4 ≤
      data.length) :
    ∃ inode, parseInode data blockSize address start = .ok inode ∧
      inode.type = .lfile := by
  rcases parseInodeHeader_of_le type (by omega) with ⟨header, headerParsed, headerType⟩
  rcases @sqfsLe64ToCpu_of_le data 16 (by omega) with ⟨blocksStart, loadStart⟩
  rcases @sqfsLe64ToCpu_of_le data 32 (by omega) with ⟨sparse, loadSparse⟩
  rcases @sqfsLe32ToCpu_of_le data 40 (by omega) with ⟨linkCount, loadLink⟩
  rcases @sqfsLe32ToCpu_of_le data 48 (by omega) with ⟨blockOffset, loadOffset⟩
  rcases @sqfsLe32ToCpu_of_le data 52 (by omega) with ⟨xattrIdx, loadXattr⟩
  rcases readBlockSizes_of_le long with ⟨blockSizes, read⟩
  rw [parseInode, if_neg (by omega), headerParsed, Outcome.ok_bind, headerType,
    InodeType.ofCode_code]
  simp only [parseInodeOfType, parseInodeLfile, loadStart, size, loadSparse, loadLink, frag,
    loadOffset, loadXattr, read, Outcome.ok_bind, Outcome.pure_eq]
  rw [if_neg (by omega)]
  exact ⟨_, rfl, rfl⟩

end Accepted

/-! ## Block indices -/

def readPassOn (cache : BlockCache C) (ctx : SqfsCtx) (file : SqfsFileCtx)
    (blockIdx blockOffset : Nat) (state : ReadState C) :
    Pass (ReadState C) (Option (ReadResult C)) :=
  if blockIdx = file.blockCount ∧ sqfsFragmentIsNone file.fragIdx = false then
    .leave (readTail cache ctx file blockOffset state)
  else
    match sqfsFileBlockLocation file blockIdx with
    | .fault => .leave none
    | .err error =>
        if error = .notFound ∧ blockIdx = file.blockCount then
          let state := state.copied (List.replicate state.bytesRemaining (some 0))
          .leave (some (state.returned (toInt state.bytesRead)))
        else
          .leave (some (state.returned error.code))
    | .ok location =>
        if location.size = 0 then
          let toCopy := min (file.blockSize - blockOffset) state.bytesRemaining
          .again (state.copied (List.replicate toCopy (some 0)))
        else
          readStored cache ctx file location blockOffset state

theorem readPass_eq_on {cache : BlockCache C} {ctx : SqfsCtx} {file : SqfsFileCtx}
    {offset : Nat} {state : ReadState C} (unfinished : state.bytesRemaining ≠ 0) :
    readPass cache ctx file offset state =
      readPassOn cache ctx file (u32 (u64 (offset + state.bytesRead) / file.blockSize))
        (u64 (offset + state.bytesRead) % file.blockSize) state :=
  if_neg unfinished

/-- Whatever byte inside the file a pass begins with, it takes the block that the byte is
in. -/
def TakesRightBlocks (ctx : SqfsCtx) (inode : SqfsInode) : Prop :=
  ∀ (C : Type) (cache : BlockCache C) (file : SqfsFileCtx) (offset : Nat)
    (state : ReadState C), sqfsFileCtxInit ctx.sb inode = .ok file →
    state.bytesRemaining ≠ 0 → offset + state.bytesRead < file.fileSize →
    readPass cache ctx file offset state =
      readPassOn cache ctx file ((offset + state.bytesRead) / ctx.sb.blockSize)
        ((offset + state.bytesRead) % ctx.sb.blockSize) state

/-- The blocks of a file inode are counted and found as the format prescribes. -/
structure ExactBlocks (ctx : SqfsCtx) (inode : SqfsInode) : Prop where
  fits : prescribedCount (inode.get .fileFileSize) ctx.sb.blockSize (inode.get .fileFragIdx) <
    2 ^ 32
  listed : inode.blockSizes.length =
    prescribedCount (inode.get .fileFileSize) ctx.sb.blockSize (inode.get .fileFragIdx)
  taken : TakesRightBlocks ctx inode

/-- The prescribed number of blocks of an extended file fits in 32 bits, or not even the
block sizes of the number reduced to 32 bits are there. -/
def CountFits (blockSize : Nat) (data : List UInt8) : Prop :=
  ∀ fileSize fragIdx, sqfsLe16ToCpu data 0 = .ok InodeType.lfile.code →
    sqfsLe64ToCpu data 24 = .ok fileSize → sqfsLe32ToCpu data 44 = .ok fragIdx →
    prescribedCount fileSize blockSize fragIdx < 2 ^ 32 ∨
      data.length < 56 + u32 (prescribedCount fileSize blockSize fragIdx) * 4

private theorem prescribedCount_bounds {fileSize blockSize fragIdx : Nat} (positive : 0 < blockSize) :
    fileSize / blockSize ≤ prescribedCount fileSize blockSize fragIdx ∧
      prescribedCount fileSize blockSize fragIdx ≤ fileSize / blockSize + 1 := by
  rw [prescribedCount, div_ceil_eq positive]
  split
  · split <;> omega
  · omega

private theorem takesRightBlocks_of_fits {ctx : SqfsCtx} {inode : SqfsInode}
    (fits : prescribedCount (inode.get .fileFileSize) ctx.sb.blockSize
      (inode.get .fileFragIdx) < 2 ^ 32) : TakesRightBlocks ctx inode := by
  intro C cache file offset state init unfinished inside
  rcases sqfsFileCtxInit_fields init with ⟨blockSize, fileSize, -⟩
  have bounds := @prescribedCount_bounds (inode.get .fileFileSize) ctx.sb.blockSize
    (inode.get .fileFragIdx) ctx.sb.blockSize_pos
  have position : offset + state.bytesRead < 2 ^ 64 := by
    have loaded : inode.get .fileFileSize < 256 ^ 8 := inode.members.load_lt 8 8
    have width : (256 : Nat) ^ 8 = 2 ^ 64 := by norm_num
    omega
  have index : (offset + state.bytesRead) / ctx.sb.blockSize < 2 ^ 32 := by
    have below : (offset + state.bytesRead) / ctx.sb.blockSize ≤
        inode.get .fileFileSize / ctx.sb.blockSize := Nat.div_le_div_right (by omega)
    omega
  rw [readPass_eq_on unfinished, blockSize, u64_of_lt position, u32_of_lt index]

/-- The block sizes of every accepted file inode are as many as the format prescribes, and
the right blocks are taken for its bytes, exactly when the number fits in 32 bits. -/
theorem parseInode_exactBlocks_iff (ctx : SqfsCtx) (data : List UInt8) (address : Nat) :
    (∀ inode, parseInode data ctx.sb.blockSize address .calloc = .ok inode →
        sqfsInodeIsFile inode.type = true → ExactBlocks ctx inode) ↔
      CountFits ctx.sb.blockSize data := by
  have positive := ctx.sb.blockSize_pos
  constructor
  · intro exact_ fileSize fragIdx type size frag
    by_cases long : data.length < 56 + u32 (prescribedCount fileSize ctx.sb.blockSize fragIdx) * 4
    · exact .inr long
    · rw [← sqfsCalcBlockCount_eq_u32 positive] at long
      rcases @parseInode_lfile_accepts data ctx.sb.blockSize address .calloc fileSize fragIdx
        type size frag (by omega) with ⟨inode, parsed, typed⟩
      have isFile : sqfsInodeIsFile inode.type = true := by
        rw [typed]
        rfl
      have fits := (exact_ inode parsed isFile).fits
      rcases parseInode_counted parsed isFile with
        ⟨parsedSize, parsedFrag, counted, ⟨basic, -⟩ | ⟨-, sizeLoad, fragLoad, -⟩⟩
      · rw [typed] at basic
        cases basic
      · rw [size] at sizeLoad
        rw [frag] at fragLoad
        cases sizeLoad
        cases fragLoad
        rw [counted.size, counted.fragment] at fits
        exact .inl fits
  · intro fits inode parsed isFile
    rcases parseInode_counted parsed isFile with ⟨fileSize, fragIdx, counted, source⟩
    have number := counted.listed.trans counted.counted
    rw [sqfsCalcBlockCount_eq_u32 positive] at number
    have below : prescribedCount fileSize ctx.sb.blockSize fragIdx < 2 ^ 32 := by
      rcases source with ⟨-, small⟩ | ⟨type, size, frag, long⟩
      · have bounds := @prescribedCount_bounds fileSize ctx.sb.blockSize fragIdx positive
        have quotient : fileSize / ctx.sb.blockSize ≤ fileSize / 4096 :=
          Nat.div_le_div_left ctx.sb.blockSize_ge (by decide)
        omega
      · apply (fits fileSize fragIdx type size frag).resolve_right
        omega
    rw [u32_of_lt below] at number
    rw [← counted.size, ← counted.fragment] at below number
    exact ⟨below, number, takesRightBlocks_of_fits below⟩

/-- An extended file of `2 ^ 44` bytes without block sizes. -/
def hugeFile : List UInt8 :=
  DiskHeader.encode ⟨0o644, 0, 0, 0, 1⟩ .lfile ++ (leBytes 8 96 ++ leBytes 8 (2 ^ 44) ++
    leBytes 8 0 ++ leBytes 4 1 ++ leBytes 4 fragmentInvalid ++ leBytes 4 0 ++
    leBytes 4 xattrInvalid)

def hugeInode : SqfsInode := (parseInode hugeFile 4096 0 .calloc).toOption.getD .calloc

/-- A file of `2 ^ 32` blocks is accepted as one without blocks. -/
theorem parseInode_wraps_count :
    ¬ ∀ (ctx : SqfsCtx) (data : List UInt8) (address : Nat) (inode : SqfsInode),
      parseInode data ctx.sb.blockSize address .calloc = .ok inode →
      sqfsInodeIsFile inode.type = true → ExactBlocks ctx inode := by
  intro claim
  have parsed : parseInode hugeFile 4096 0 .calloc = .ok hugeInode :=
    Outcome.eq_ok_getD (by decide +kernel)
  have listed := (claim (.onBytes [] (by decide)) hugeFile 0 hugeInode parsed
    (by decide +kernel)).listed
  have counts : hugeInode.blockSizes.length = 0 ∧
      prescribedCount (hugeInode.get .fileFileSize) 4096 (hugeInode.get .fileFragIdx) =
        2 ^ 32 := by
    decide +kernel
  rw [counts.1] at listed
  exact absurd (listed.trans counts.2) (by decide)

/-! ## Block positions -/

def lengthBefore (words : List Nat) (idx : Nat) : Nat :=
  ((words.take idx).map sqfsBlockSizeGet).sum

private theorem lengthBefore_succ {words : List Nat} {idx word : Nat}
    (found : words[idx]? = some word) :
    lengthBefore words (idx + 1) = lengthBefore words idx + sqfsBlockSizeGet word := by
  rw [lengthBefore, List.take_add_one, found]
  simp [lengthBefore]

private theorem lengthBefore_le {words : List Nat} {first second : Nat} (le : first ≤ second) :
    lengthBefore words first ≤ lengthBefore words second := by
  have split : words.take second = words.take first ++ (words.take second).drop first := by
    have parts := List.take_append_drop first (words.take second)
    rw [List.take_take, Nat.min_eq_left le] at parts
    exact parts.symm
  rw [lengthBefore, lengthBefore, split, List.map_append, List.sum_append]
  exact Nat.le_add_right _ _

/-- Sums that wrap around at every step wrap around once. -/
theorem foldl_u64_add (lengths : List Nat) {start : Nat} (inRange : start < 2 ^ 64) :
    lengths.foldl (fun pos length => u64 (pos + length)) start = u64 (start + lengths.sum) := by
  induction lengths generalizing start with
  | nil => exact (u64_of_lt inRange).symm
  | cons length lengths induction =>
      have wrapped : u64 (start + length) < 2 ^ 64 := Nat.mod_lt _ (Nat.two_pow_pos 64)
      rw [List.foldl_cons, induction wrapped, List.sum_cons, ← Nat.add_assoc, u64, u64, u64,
        Nat.mod_add_mod]

section Positions

variable {file : SqfsFileCtx} {idx : Nat}

/-- Where the code finds a block that is not a hole. -/
theorem sqfsFileBlockLocation_of_word {word : Nat} (start : file.blocksStart < 2 ^ 64)
    (counted : idx < file.blockCount) (found : file.blockSizes[idx]? = some word)
    (notHole : word ≠ 0) :
    sqfsFileBlockLocation file idx =
      .ok ⟨u64 (file.blocksStart + lengthBefore file.blockSizes idx), word⟩ := by
  have position := foldl_u64_add ((file.blockSizes.take idx).map sqfsBlockSizeGet) start
  rw [List.foldl_map] at position
  rw [sqfsFileBlockLocation, if_neg (Nat.not_le_of_lt counted), found, Outcome.ofOption_some,
    Outcome.ok_bind, if_neg notHole, position]
  rfl

private theorem sqfsFileBlockLocation_word {location : BlockLocation}
    (located : sqfsFileBlockLocation file idx = .ok location) (notHole : location.size ≠ 0) :
    idx < file.blockCount ∧ file.blockSizes[idx]? = some location.size := by
  rw [sqfsFileBlockLocation] at located
  split at located
  · split at located <;> cases located
  · next inside =>
      rcases Outcome.bind_eq_ok.mp located with ⟨word, found, located⟩
      split at located
      · cases located
        exact absurd rfl notHole
      · cases located
        exact ⟨Nat.lt_of_not_le inside, Outcome.ofOption_eq_ok.mp found⟩

structure LaidOut (file : SqfsFileCtx) : Prop where
  placed : ∀ idx location, sqfsFileBlockLocation file idx = .ok location →
    location.size ≠ 0 → location.pos = file.blocksStart + lengthBefore file.blockSizes idx
  ordered : ∀ i j first second, i < j → sqfsFileBlockLocation file i = .ok first →
    sqfsFileBlockLocation file j = .ok second → first.size ≠ 0 → second.size ≠ 0 →
    first.pos + sqfsBlockSizeGet first.size ≤ second.pos

/-- No block begins at or behind position `2 ^ 64`. -/
def PositionsFit (blocksStart : Nat) (words : List Nat) : Prop :=
  ∀ idx word, words[idx]? = some word → word ≠ 0 →
    blocksStart + lengthBefore words idx < 2 ^ 64

private theorem laidOut_iff (start : file.blocksStart < 2 ^ 64)
    (listed : file.blockSizes.length = file.blockCount) :
    LaidOut file ↔ PositionsFit file.blocksStart file.blockSizes := by
  constructor
  · intro laidOut idx word found notHole
    have inside := (List.getElem?_eq_some_iff.mp found).1
    rw [listed] at inside
    have located := sqfsFileBlockLocation_of_word start inside found notHole
    rw [← laidOut.placed idx _ located notHole]
    exact Nat.mod_lt _ (Nat.two_pow_pos 64)
  · intro fits
    have placed : ∀ idx location, sqfsFileBlockLocation file idx = .ok location →
        location.size ≠ 0 →
        location.pos = file.blocksStart + lengthBefore file.blockSizes idx := by
      intro idx location located notHole
      rcases sqfsFileBlockLocation_word located notHole with ⟨inside, found⟩
      rw [sqfsFileBlockLocation_of_word start inside found notHole] at located
      rw [← Outcome.ok.inj located]
      exact u64_of_lt (fits idx _ found notHole)
    constructor
    · exact placed
    · intro i j first second before firstLocated secondLocated firstStored secondStored
      rw [placed i first firstLocated firstStored, placed j second secondLocated secondStored,
        Nat.add_assoc, ← lengthBefore_succ (sqfsFileBlockLocation_word firstLocated firstStored).2]
      exact Nat.add_le_add_left (lengthBefore_le before) _

end Positions

/-- The context of a file counts the blocks of the inode, has a location for these and no
others, and lays them out one behind the other. -/
structure LayoutAgrees (inode : SqfsInode) (file : SqfsFileCtx) : Prop where
  counted : file.blockCount = inode.get .fileBlockCount
  listed : file.blockCount = inode.blockSizes.length
  inside : ∀ idx, idx < file.blockCount →
    ∃ location, sqfsFileBlockLocation file idx = .ok location
  refused : ∀ idx, file.blockCount ≤ idx → ∃ code, sqfsFileBlockLocation file idx = .err code
  laidOut : LaidOut file

theorem sqfsFileCtxInit_isFile {sb : SqfsSuperblock} {inode : SqfsInode} {file : SqfsFileCtx}
    (init : sqfsFileCtxInit sb inode = .ok file) :
    sqfsInodeIsFile inode.type = true ∧ file.blocksStart = inode.get .fileBlocksStart := by
  rw [sqfsFileCtxInit] at init
  split at init
  · cases init
  · next isFile =>
      rw [← Except.ok.inj init]
      exact ⟨by simpa using isFile, rfl⟩

/-- Parser and reader agree on the layout of an accepted file exactly when no block
position wraps around. -/
theorem sqfsFileCtxInit_agrees_iff (sb : SqfsSuperblock) (data : List UInt8) (address : Nat)
    (inode : SqfsInode) (parsed : parseInode data sb.blockSize address .calloc = .ok inode)
    (file : SqfsFileCtx) (init : sqfsFileCtxInit sb inode = .ok file) :
    LayoutAgrees inode file ↔
      PositionsFit (inode.get .fileBlocksStart) inode.blockSizes := by
  rcases sqfsFileCtxInit_isFile init with ⟨isFile, blocksStart⟩
  rcases sqfsFileCtxInit_fields init with
    ⟨blockSize, fileSize, fragIdx, blockSizes, blockCount⟩
  rcases parseInode_counted parsed isFile with ⟨size, frag, counted, -⟩
  have count : file.blockCount = inode.get .fileBlockCount := by
    rw [blockCount, blockSize, calculateBlockLayout_eq_u32 sb.blockSize_pos sb.blockSize_le,
      counted.counted, sqfsCalcBlockCount_eq_u32 sb.blockSize_pos, fileSize, fragIdx,
      counted.size, counted.fragment]
  have length : file.blockSizes.length = file.blockCount := by
    rw [blockSizes, counted.listed, count]
  have start : file.blocksStart < 2 ^ 64 := by
    have loaded : inode.get .fileBlocksStart < 256 ^ 8 := inode.members.load_lt 0 8
    rw [blocksStart]
    exact Nat.lt_of_lt_of_eq loaded (by norm_num)
  rw [← blocksStart, ← blockSizes]
  apply Iff.trans _ (laidOut_iff start length)
  constructor
  · intro agrees
    exact agrees.laidOut
  · intro laidOut
    exact {
      counted := count
      listed := by rw [← length, blockSizes]
      inside := fun idx inside => sqfsFileBlockLocation_of_lt length inside
      refused := by
        intro idx behind
        rw [sqfsFileBlockLocation, if_pos behind]
        split <;> exact ⟨_, rfl⟩
      laidOut }

private theorem positionsFit_of_end {blocksStart : Nat} {words : List Nat}
    (fits : blocksStart + lengthBefore words words.length < 2 ^ 64) :
    PositionsFit blocksStart words := by
  intro idx word found _
  have inside := (List.getElem?_eq_some_iff.mp found).1
  have before := @lengthBefore_le words idx words.length (Nat.le_of_lt inside)
  omega

/-! ## A file of two blocks -/

private theorem twoBlocks_implied : ([0x01000001, 0x01000001] : List UInt32).length =
    impliedBlockCount (8192 : UInt64).toNat 4096 0xFFFFFFFF := by
  decide

def twoBlocks (blocksStart : UInt64) : List UInt8 :=
  encodeInode ⟨0o644, 0, 0, 0, 1⟩ (.lfile blocksStart 8192 0 1 0xFFFFFFFF 0 0xFFFFFFFF
    [0x01000001, 0x01000001] twoBlocks_implied : DiskBody 4096)

def twoBlocksInode (blocksStart : UInt64) : SqfsInode :=
  (parseInode (twoBlocks blocksStart) 4096 0 .calloc).toOption.getD .calloc

def twoBlocksFile (blocksStart : Nat) : SqfsFileCtx where
  fileSize := 8192
  blocksStart
  blockSize := 4096
  blockCount := 2
  tailSize := 0
  fragIdx := fragmentInvalid
  fragOffset := 0
  blockSizes := [0x01000001, 0x01000001]

theorem sqfsFileCtxInit_agrees_two :
    LayoutAgrees (twoBlocksInode 96) (twoBlocksFile 96) := by
  have fits : PositionsFit ((twoBlocksInode 96).get .fileBlocksStart)
      (twoBlocksInode 96).blockSizes := by
    apply positionsFit_of_end
    decide +kernel
  exact (sqfsFileCtxInit_agrees_iff (SqfsCtx.onBytes [] (by decide)).sb (twoBlocks 96) 0
    (twoBlocksInode 96) (Outcome.eq_ok_getD (by decide +kernel)) (twoBlocksFile 96)
    (by decide +kernel)).mpr fits

/-- Behind a block at the last position, the next one is found at position 0. -/
theorem sqfsFileBlockLocation_wraps_position :
    ¬ ∀ (sb : SqfsSuperblock) (data : List UInt8) (address : Nat) (inode : SqfsInode),
      parseInode data sb.blockSize address .calloc = .ok inode →
      ∀ file : SqfsFileCtx, sqfsFileCtxInit sb inode = .ok file → LayoutAgrees inode file := by
  intro claim
  have agrees := claim (SqfsCtx.onBytes [] (by decide)).sb (twoBlocks (2 ^ 64 - 1)) 0
    (twoBlocksInode (2 ^ 64 - 1)) (Outcome.eq_ok_getD (by decide +kernel))
    (twoBlocksFile (2 ^ 64 - 1)) (by decide +kernel)
  have located : sqfsFileBlockLocation (twoBlocksFile (2 ^ 64 - 1)) 1 =
      .ok ⟨0, 0x01000001⟩ := by
    decide
  have position := agrees.laidOut.placed 1 _ located (by decide)
  exact absurd position (by decide)

end SquashfsFuse
