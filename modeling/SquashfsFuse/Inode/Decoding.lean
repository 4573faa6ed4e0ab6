import SquashfsFuse.Inode.Layout

/-! Which fields of an inode survive the decoding into the union. -/

namespace SquashfsFuse

variable {blockSize : Nat}

/-! ## Reading back -/

structure DiskHeader.ReadsBack (header : DiskHeader) (type : InodeType) (inode : SqfsInode) :
    Prop where
  type : inode.type = type
  permissions : inode.permissions = header.permissions.toNat
  uid : inode.uid = header.uidIdx.toNat
  gid : inode.gid = header.gidIdx.toNat
  mtime : inode.mtime = header.mtime.toNat
  inodeNumber : inode.inodeNumber = header.inodeNumber.toNat

/-- Every field behind the header, the size of a directory listing apart, has the
value it has on disk in the member it is read from. -/
def DiskBody.ReadsBack (inode : SqfsInode) : DiskBody blockSize → Prop
  | .dir blockIdx linkCount _ blockOffset parentInode =>
      inode.get .dirBlockIdx = blockIdx.toNat ∧ inode.linkCount = linkCount.toNat ∧
        inode.get .dirBlockOffset = blockOffset.toNat ∧
        inode.get .dirParentInode = parentInode.toNat
  | .ldir linkCount _ blockIdx parentInode indexCount blockOffset xattrIdx =>
      inode.linkCount = linkCount.toNat ∧ inode.get .dirBlockIdx = blockIdx.toNat ∧
        inode.get .dirParentInode = parentInode.toNat ∧
        inode.get .dirIndexCount = indexCount.toNat ∧
        inode.get .dirBlockOffset = blockOffset.toNat ∧ inode.get .xattrIdx = xattrIdx.toNat
  | .file blocksStart fragIdx blockOffset fileSize blockSizes _ =>
      inode.get .fileBlocksStart = blocksStart.toNat ∧ inode.get .fileFragIdx = fragIdx.toNat ∧
        inode.get .fileBlockOffset = blockOffset.toNat ∧
        inode.get .fileFileSize = fileSize.toNat ∧
        inode.blockSizes = blockSizes.map UInt32.toNat
  | .lfile blocksStart fileSize sparse linkCount fragIdx blockOffset xattrIdx blockSizes _ =>
      inode.get .fileBlocksStart = blocksStart.toNat ∧
        inode.get .fileFileSize = fileSize.toNat ∧ inode.get .fileSparse = sparse.toNat ∧
        inode.linkCount = linkCount.toNat ∧ inode.get .fileFragIdx = fragIdx.toNat ∧
        inode.get .fileBlockOffset = blockOffset.toNat ∧
        inode.get .fileXattrIdx = xattrIdx.toNat ∧
        inode.blockSizes = blockSizes.map UInt32.toNat
  | .symlink linkCount targetSize target _ =>
      inode.linkCount = linkCount.toNat ∧
        inode.get .symlinkTargetSize = targetSize.toNat ∧ inode.target = some (target ++ [0])
  | .lsymlink linkCount targetSize target xattrIdx _ =>
      inode.linkCount = linkCount.toNat ∧
        inode.get .symlinkTargetSize = targetSize.toNat ∧
        inode.target = some (target ++ [0]) ∧ inode.get .xattrIdx = xattrIdx.toNat
  | .blkdev linkCount deviceNumber | .chrdev linkCount deviceNumber =>
      inode.linkCount = linkCount.toNat ∧
        inode.get .devMajor = sqfsDevMajor deviceNumber.toNat ∧
        inode.get .devMinor = sqfsDevMinor deviceNumber.toNat
  | .lblkdev linkCount deviceNumber xattrIdx | .lchrdev linkCount deviceNumber xattrIdx =>
      inode.linkCount = linkCount.toNat ∧
        inode.get .devMajor = sqfsDevMajor deviceNumber.toNat ∧
        inode.get .devMinor = sqfsDevMinor deviceNumber.toNat ∧
        inode.get .xattrIdx = xattrIdx.toNat
  | .fifo linkCount | .socket linkCount => inode.linkCount = linkCount.toNat
  | .lfifo linkCount xattrIdx | .lsocket linkCount xattrIdx =>
      inode.linkCount = linkCount.toNat ∧ inode.get .xattrIdx = xattrIdx.toNat

/-- What the fields of an inode have to satisfy for all of them to survive; the
allocation for the target of a symbolic link is at `address`. -/
def DiskBody.Survives (address : UInt64) : DiskBody blockSize → Prop
  | .ldir _ _ blockIdx _ _ _ xattrIdx => blockIdx = xattrIdx
  | .lfile _ _ _ _ _ _ _ blockSizes _ =>
      blockSizes.length < 2 ^ 32 ∧
        ∀ idx < blockSizes.length, blockSizes[idx % 2 ^ 30]? = blockSizes[idx]?
  | .symlink _ targetSize _ _ => targetSize.toNat + 1 < 2 ^ 32
  | .lsymlink _ targetSize _ xattrIdx _ =>
      targetSize.toNat + 1 < 2 ^ 32 ∧ address.toNat % 2 ^ 32 = xattrIdx.toNat
  | .blkdev _ _ | .chrdev _ _ => False
  | .lblkdev _ deviceNumber xattrIdx | .lchrdev _ deviceNumber xattrIdx =>
      xattrIdx.toNat = sqfsDevMajor deviceNumber.toNat
  | .dir .. | .file .. | .fifo .. | .socket .. | .lfifo .. | .lsocket .. => True

/-- The decoder accepts the inode, and all its fields can be read back. -/
def Decodes (header : DiskHeader) (body : DiskBody blockSize) (address : Nat) : Prop :=
  ∃ inode, parseInode (encodeInode header body) blockSize address .calloc = .ok inode ∧
    header.ReadsBack body.type inode ∧ body.ReadsBack inode

/-- The decoder accepts the inode, and its fields can be read back on the given
condition. -/
def DecodesIf (header : DiskHeader) (body : DiskBody blockSize) (address : Nat)
    (survives : Prop) : Prop :=
  ∃ inode, parseInode (encodeInode header body) blockSize address .calloc = .ok inode ∧
    header.ReadsBack body.type inode ∧ (body.ReadsBack inode ↔ survives)

theorem DecodesIf.iff {header : DiskHeader} {body : DiskBody blockSize} {address : Nat}
    {survives : Prop} (decodes : DecodesIf header body address survives) :
    Decodes header body address ↔ survives := by
  rcases decodes with ⟨inode, parsed, headerBack, bodyBack⟩
  constructor
  · rintro ⟨other, otherParsed, -, otherBack⟩
    rw [parsed] at otherParsed
    cases otherParsed
    exact bodyBack.mp otherBack
  · intro holds
    exact ⟨inode, parsed, headerBack, bodyBack.mpr holds⟩

/-! ## The decoders -/

def DiskHeader.started (header : DiskHeader) (type : InodeType) : SqfsInode :=
  { SqfsInode.calloc with
    inodeNumber := header.inodeNumber.toNat
    type
    permissions := header.permissions.toNat
    uid := header.uidIdx.toNat
    gid := header.gidIdx.toNat
    mtime := header.mtime.toNat }

theorem parseInodeHeader_encode (header : DiskHeader) (type : InodeType) (body : List UInt8) :
    parseInodeHeader (header.encode type ++ body) = .ok {
      type := type.code
      permissions := header.permissions.toNat
      uidIdx := header.uidIdx.toNat
      gidIdx := header.gidIdx.toNat
      mtime := header.mtime.toNat
      inodeNumber := header.inodeNumber.toNat } := by
  have code : type.code < 65536 := type.code_lt
  simp [parseInodeHeader, DiskHeader.encode, sqfsLe16ToCpu, sqfsLe32ToCpu, code]

theorem parseInode_encode (header : DiskHeader) (body : DiskBody blockSize) (address : Nat) :
    parseInode (encodeInode header body) blockSize address .calloc = (do
      let (inode, bytesConsumed) ← parseInodeOfType body.type (encodeInode header body) blockSize
        address (header.started body.type)
      if 0 < bytesConsumed ∧ (encodeInode header body).length < bytesConsumed then
        .err .badInode
      else
        pure inode) := by
  have long : ¬ (encodeInode header body).length < 16 := by
    rw [encodeInode, List.length_append, DiskHeader.encode_length]
    omega
  rw [parseInode, if_neg long, encodeInode, parseInodeHeader_encode]
  simp only [Outcome.ok_bind, InodeType.ofCode_code]
  rfl

section Members

variable (inode : SqfsInode) (member : UnionMember) (value : Nat)

@[simp] theorem SqfsInode.set_inodeNumber :
    (inode.set member value).inodeNumber = inode.inodeNumber := rfl

@[simp] theorem SqfsInode.set_type : (inode.set member value).type = inode.type := rfl

@[simp] theorem SqfsInode.set_permissions :
    (inode.set member value).permissions = inode.permissions := rfl

@[simp] theorem SqfsInode.set_uid : (inode.set member value).uid = inode.uid := rfl

@[simp] theorem SqfsInode.set_gid : (inode.set member value).gid = inode.gid := rfl

@[simp] theorem SqfsInode.set_mtime : (inode.set member value).mtime = inode.mtime := rfl

@[simp] theorem SqfsInode.set_linkCount :
    (inode.set member value).linkCount = inode.linkCount := rfl

@[simp] theorem SqfsInode.set_blockSizes :
    (inode.set member value).blockSizes = inode.blockSizes := rfl

@[simp] theorem SqfsInode.set_heap : (inode.set member value).heap = inode.heap := rfl

@[simp] theorem SqfsInode.set_members : (inode.set member value).members =
    inode.members.store member.offset member.width value := rfl

end Members

theorem DiskHeader.started_readsBack (header : DiskHeader) (type : InodeType)
    (linkCount : Nat) (members : Storage) (blockSizes : List Nat) (heap : Option Allocation) :
    header.ReadsBack type { header.started type with linkCount, members, blockSizes, heap } :=
  ⟨rfl, rfl, rfl, rfl, rfl, rfl⟩

def SqfsInode.SameHeader (inode other : SqfsInode) : Prop :=
  other.type = inode.type ∧ other.permissions = inode.permissions ∧ other.uid = inode.uid ∧
    other.gid = inode.gid ∧ other.mtime = inode.mtime ∧ other.inodeNumber = inode.inodeNumber

theorem parseInodeOfType_header (type : InodeType) (data : List UInt8) (blockSize address : Nat)
    (inode : SqfsInode) :
    (parseInodeOfType type data blockSize address inode).Ensures fun result =>
      inode.SameHeader result.1 := by
  cases type <;>
    simp [parseInodeOfType, parseInodeDir, parseInodeLdir, parseInodeFile, parseInodeLfile,
      parseInodeSymlink, parseInodeLsymlink, parseInodeDev, parseInodeIpc,
      SqfsInode.SameHeader] <;>
    split <;> simp

theorem and_mask32 (value : UInt32) : value.toNat &&& 0xFFFFFFFF = value.toNat := by
  have mask : (0xFFFFFFFF : Nat) = 2 ^ 32 - 1 := rfl
  rw [mask, Nat.and_two_pow_sub_one_eq_mod]
  exact Nat.mod_eq_of_lt value.toNat_lt

/-! ## Directories -/

theorem decodes_dir (header : DiskHeader) (address : Nat)
    (blockIdx linkCount : UInt32) (fileSize blockOffset : UInt16) (parentInode : UInt32) :
    DecodesIf header (.dir blockIdx linkCount fileSize blockOffset parentInode :
      DiskBody blockSize) address True := by
  have inRange := blockIdx.toNat_lt
  have masked := and_mask32 blockIdx
  rw [DecodesIf, parseInode_encode]
  simp only [DiskBody.type, parseInodeOfType, encodeInode, DiskBody.encode, parseInodeDir,
    sqfsLe16ToCpu, sqfsLe32ToCpu]
  simp
  refine ⟨header.started_readsBack .., ?_⟩
  simp (disch := decide) [DiskBody.ReadsBack, SqfsInode.get, UnionMember.dirBlockIdx,
    UnionMember.dirSize, UnionMember.dirBlockOffset, UnionMember.dirParentInode,
    UnionMember.dirIndexCount, Storage.load_store_disjoint]
  omega

/-- The attribute index lies in the low half of the block index. -/
theorem decodes_ldir (header : DiskHeader) (address : Nat)
    (linkCount fileSize blockIdx parentInode : UInt32) (indexCount blockOffset : UInt16)
    (xattrIdx : UInt32) :
    DecodesIf header (.ldir linkCount fileSize blockIdx parentInode indexCount blockOffset
      xattrIdx : DiskBody blockSize) address (blockIdx = xattrIdx) := by
  rw [DecodesIf, parseInode_encode]
  simp only [DiskBody.type, parseInodeOfType, encodeInode, DiskBody.encode, parseInodeLdir,
    sqfsLe16ToCpu, sqfsLe32ToCpu]
  simp
  refine ⟨header.started_readsBack .., ?_⟩
  have low := fun storage : Storage => storage.load_store_low 0 4 4 xattrIdx.toNat
  have high := fun storage : Storage => storage.load_store_high 0 4 4 blockIdx.toNat
  simp (disch := decide) [DiskBody.ReadsBack, SqfsInode.get, UnionMember.dirBlockIdx,
    UnionMember.dirSize, UnionMember.dirBlockOffset, UnionMember.dirParentInode,
    UnionMember.dirIndexCount, UnionMember.xattrIdx, Storage.load_store_disjoint] at low high ⊢
  simp (disch := decide) [low, high, Storage.load_store_disjoint]
  have xattrInRange := xattrIdx.toNat_lt
  have blockInRange := blockIdx.toNat_lt
  rw [← UInt32.toNat_inj]
  omega

/-! ## Block sizes -/

theorem sqfsCalcBlockCount_eq (fileSize blockSize : Nat) (fragIdx : UInt32) :
    sqfsCalcBlockCount fileSize blockSize (fragIdx.toNat != fragmentInvalid) =
      u32 (impliedBlockCount fileSize blockSize fragIdx) := by
  rw [sqfsCalcBlockCount, impliedBlockCount]
  by_cases empty : fileSize = 0
  · simp [empty, u32]
  · by_cases whole : fragIdx.toNat = fragmentInvalid ∧ fileSize % blockSize ≠ 0
    · rw [if_neg empty, if_pos whole, if_pos ⟨by simp [whole.1], whole.2⟩]
    · rw [if_neg empty, if_neg whole, if_neg (by simpa using whole), Nat.add_zero]

theorem impliedBlockCount_lt (sb : SqfsSuperblock) (fileSize fragIdx : UInt32) :
    impliedBlockCount fileSize.toNat sb.blockSize fragIdx < 2 ^ 30 := by
  have sizeInRange := fileSize.toNat_lt
  have quotient : fileSize.toNat / sb.blockSize ≤ fileSize.toNat / 4096 :=
    Nat.div_le_div_left sb.blockSize_ge (by decide)
  rw [impliedBlockCount]
  split <;> omega

/-- The loop reads the word at index `idx mod 2 ^ 30` in place of that at `idx`. -/
theorem readBlockSizes_encoded {front : List UInt8} {words : List UInt32} {start count : Nat}
    (behind : front.length = start) (inside : ∀ idx < count, idx % 2 ^ 30 < words.length) :
    readBlockSizes (front ++ leWords words) start count =
      .ok ((List.range count).map fun idx => (words.getD (idx % 2 ^ 30) 0).toNat) := by
  apply Outcome.mapM_eq_ok
  intro idx member
  have bound := inside idx (List.mem_range.mp member)
  have wraps : u32 (idx * 4) = 4 * (idx % 2 ^ 30) := by
    rw [u32]
    omega
  rw [sqfsLe32ToCpu, loadLe_append_of_le _ _ _ _ (by omega), behind, Nat.add_sub_cancel_left,
    wraps, loadLe_leWords bound, Outcome.ofOption_some, List.getD_eq_getElem?_getD,
    List.getElem?_eq_getElem bound, Option.getD_some]

/-- The words that the loop reads are the block sizes exactly when neither their
number nor an offset overflows, or what is read in place of a word is equal. -/
theorem wrappedWords_eq_iff (words : List UInt32) :
    ((List.range (u32 words.length)).map fun idx => (words.getD (idx % 2 ^ 30) 0).toNat) =
        words.map UInt32.toNat ↔
      words.length < 2 ^ 32 ∧ ∀ idx < words.length, words[idx % 2 ^ 30]? = words[idx]? := by
  have wrapped (idx : Nat) (inside : idx < words.length) :
      words[idx % 2 ^ 30]? = some (words.getD (idx % 2 ^ 30) 0) := by
    have bound : idx % 2 ^ 30 < words.length := by omega
    rw [List.getD_eq_getElem?_getD, List.getElem?_eq_getElem bound, Option.getD_some]
  constructor
  · intro same
    have lengths := congrArg List.length same
    simp only [List.length_map, List.length_range, u32] at lengths
    refine ⟨by omega, ?_⟩
    intro idx inside
    have here := congrArg (·[idx]?) same
    have counted : idx < u32 words.length := by
      rw [u32]
      omega
    simp only [List.getElem?_map, List.getElem?_range counted,
      List.getElem?_eq_getElem inside, Option.map_some, Option.some.injEq,
      UInt32.toNat_inj] at here
    rw [wrapped idx inside, here, List.getElem?_eq_getElem inside]
  · rintro ⟨inRange, same⟩
    rw [u32_of_lt inRange]
    apply List.ext_getElem (by simp)
    intro idx leftBound rightBound
    have inside : idx < words.length := by simpa using rightBound
    have equal := same idx inside
    rw [wrapped idx inside, List.getElem?_eq_getElem inside, Option.some.injEq] at equal
    simp only [List.getElem_map, List.getElem_range, equal]

/-! ## Files -/

theorem decodes_file (sb : SqfsSuperblock) (header : DiskHeader) (address : Nat)
    (blocksStart fragIdx blockOffset fileSize : UInt32) (blockSizes : List UInt32)
    (implied : blockSizes.length = impliedBlockCount fileSize.toNat sb.blockSize fragIdx) :
    DecodesIf header (.file blocksStart fragIdx blockOffset fileSize blockSizes implied)
      address True := by
  have few : blockSizes.length < 2 ^ 30 := implied ▸ impliedBlockCount_lt sb fileSize fragIdx
  let front := header.encode .file ++ (leBytes 4 blocksStart.toNat ++
    leBytes 4 fragIdx.toNat ++ leBytes 4 blockOffset.toNat ++ leBytes 4 fileSize.toNat)
  have frontLength : front.length = 32 := by simp [front]
  have layout : encodeInode header (.file blocksStart fragIdx blockOffset fileSize blockSizes
      implied) = front ++ leWords blockSizes := by
    simp [encodeInode, DiskBody.encode, DiskBody.type, front]
  have length : (front ++ leWords blockSizes).length = 32 + blockSizes.length * 4 := by
    rw [List.length_append, leWords_length, frontLength]
    omega
  have loads : sqfsLe32ToCpu (front ++ leWords blockSizes) 16 = .ok blocksStart.toNat ∧
      sqfsLe32ToCpu (front ++ leWords blockSizes) 20 = .ok fragIdx.toNat ∧
      sqfsLe32ToCpu (front ++ leWords blockSizes) 24 = .ok blockOffset.toNat ∧
      sqfsLe32ToCpu (front ++ leWords blockSizes) 28 = .ok fileSize.toNat := by
    simp [sqfsLe32ToCpu, front]
  rcases loads with ⟨loadStart, loadFrag, loadOffset, loadSize⟩
  have count := sqfsCalcBlockCount_eq fileSize.toNat sb.blockSize fragIdx
  rw [← implied, u32_of_lt (by omega)] at count
  have sizes := @readBlockSizes_encoded front blockSizes 32 blockSizes.length frontLength
    (fun idx inside => by omega)
  have wrapped := (wrappedWords_eq_iff blockSizes).mpr
    ⟨by omega, fun idx inside => by rw [Nat.mod_eq_of_lt (by omega)]⟩
  rw [u32_of_lt (by omega)] at wrapped
  rw [wrapped] at sizes
  rw [DecodesIf, parseInode_encode, layout]
  simp only [DiskBody.type, parseInodeOfType, parseInodeFile, loadStart, loadFrag, loadOffset,
    loadSize, count, sizes, length, Outcome.ok_bind]
  simp
  refine ⟨header.started_readsBack .., ?_⟩
  simp (disch := decide) [DiskBody.ReadsBack, SqfsInode.get, UnionMember.fileBlocksStart,
    UnionMember.fileFragIdx, UnionMember.fileBlockOffset, UnionMember.fileFileSize,
    UnionMember.fileSparse, UnionMember.fileXattrIdx, UnionMember.fileBlockCount,
    Storage.load_store_disjoint]

/-- An extended file may have more blocks than the loop that reads their sizes
can tell apart. -/
theorem decodes_lfile (sb : SqfsSuperblock) (header : DiskHeader) (address : Nat)
    (blocksStart fileSize sparse : UInt64) (linkCount fragIdx blockOffset xattrIdx : UInt32)
    (blockSizes : List UInt32)
    (implied : blockSizes.length = impliedBlockCount fileSize.toNat sb.blockSize fragIdx) :
    DecodesIf header (.lfile blocksStart fileSize sparse linkCount fragIdx blockOffset xattrIdx
      blockSizes implied) address (blockSizes.length < 2 ^ 32 ∧
        ∀ idx < blockSizes.length, blockSizes[idx % 2 ^ 30]? = blockSizes[idx]?) := by
  let front := header.encode .lfile ++ (leBytes 8 blocksStart.toNat ++
    leBytes 8 fileSize.toNat ++ leBytes 8 sparse.toNat ++ leBytes 4 linkCount.toNat ++
    leBytes 4 fragIdx.toNat ++ leBytes 4 blockOffset.toNat ++ leBytes 4 xattrIdx.toNat)
  have frontLength : front.length = 56 := by simp [front]
  have layout : encodeInode header (.lfile blocksStart fileSize sparse linkCount fragIdx
      blockOffset xattrIdx blockSizes implied) = front ++ leWords blockSizes := by
    simp [encodeInode, DiskBody.encode, DiskBody.type, front]
  have length : (front ++ leWords blockSizes).length = 56 + blockSizes.length * 4 := by
    rw [List.length_append, leWords_length, frontLength]
    omega
  have loads : sqfsLe64ToCpu (front ++ leWords blockSizes) 16 = .ok blocksStart.toNat ∧
      sqfsLe64ToCpu (front ++ leWords blockSizes) 24 = .ok fileSize.toNat ∧
      sqfsLe64ToCpu (front ++ leWords blockSizes) 32 = .ok sparse.toNat ∧
      sqfsLe32ToCpu (front ++ leWords blockSizes) 40 = .ok linkCount.toNat ∧
      sqfsLe32ToCpu (front ++ leWords blockSizes) 44 = .ok fragIdx.toNat ∧
      sqfsLe32ToCpu (front ++ leWords blockSizes) 48 = .ok blockOffset.toNat ∧
      sqfsLe32ToCpu (front ++ leWords blockSizes) 52 = .ok xattrIdx.toNat := by
    simp [sqfsLe32ToCpu, sqfsLe64ToCpu, front]
  rcases loads with
    ⟨loadStart, loadSize, loadSparse, loadLink, loadFrag, loadOffset, loadXattr⟩
  have count := sqfsCalcBlockCount_eq fileSize.toNat sb.blockSize fragIdx
  rw [← implied] at count
  have counted : u32 blockSizes.length ≤ blockSizes.length := Nat.mod_le _ _
  have sizes := @readBlockSizes_encoded front blockSizes 56 (u32 blockSizes.length) frontLength
    (fun idx inside => by omega)
  rw [← wrappedWords_eq_iff, DecodesIf, parseInode_encode, layout]
  simp only [DiskBody.type, parseInodeOfType, parseInodeLfile, loadStart, loadSize, loadSparse,
    loadLink, loadFrag, loadOffset, loadXattr, count, sizes, length, Outcome.ok_bind]
  have available : ¬ 56 + blockSizes.length * 4 < 56 + u32 blockSizes.length * 4 := by omega
  simp only [available, and_false, if_false, Outcome.pure_eq, Outcome.ok_bind,
    Outcome.ok.injEq, exists_eq_left']
  simp only [SqfsInode.set_inodeNumber, SqfsInode.set_type, SqfsInode.set_permissions,
    SqfsInode.set_uid, SqfsInode.set_gid, SqfsInode.set_mtime, SqfsInode.set_heap,
    SqfsInode.set_members]
  refine ⟨header.started_readsBack .., ?_⟩
  simp (disch := decide) [DiskBody.ReadsBack, SqfsInode.get, UnionMember.fileBlocksStart,
    UnionMember.fileFragIdx, UnionMember.fileBlockOffset, UnionMember.fileFileSize,
    UnionMember.fileSparse, UnionMember.fileXattrIdx, UnionMember.fileBlockCount,
    Storage.load_store_disjoint]

/-! ## Symbolic links -/

private theorem copyTarget_encoded {front : List UInt8} {target : List UInt8} {address : Nat}
    (behind : front.length = 24) (after : List UInt8)
    (inRange : target.length + 1 < 2 ^ 32) :
    copyTarget (front ++ (target ++ after)) address target.length =
      .ok { address, bytes := target ++ [0] } := by
  rw [copyTarget, u32_of_lt inRange, if_neg (Nat.lt_irrefl _), ← behind, slice_append_length]
  rfl

theorem copyTarget_overflows {data : List UInt8} {address targetSize : Nat}
    (overflow : ¬ targetSize + 1 < 2 ^ 32) : copyTarget data address targetSize = .fault := by
  rw [copyTarget, if_pos]
  rw [u32]
  omega

theorem decodes_symlink (header : DiskHeader) (address : UInt64)
    (linkCount targetSize : UInt32) (target : List UInt8)
    (implied : target.length = targetSize.toNat) (inRange : targetSize.toNat + 1 < 2 ^ 32) :
    DecodesIf header (.symlink linkCount targetSize target implied : DiskBody blockSize)
      address.toNat True := by
  let front := header.encode .symlink ++ (leBytes 4 linkCount.toNat ++
    leBytes 4 targetSize.toNat)
  have frontLength : front.length = 24 := by simp [front]
  have layout : encodeInode header (.symlink linkCount targetSize target implied :
      DiskBody blockSize) = front ++ (target ++ []) := by
    simp [encodeInode, DiskBody.encode, DiskBody.type, front]
  have length : (front ++ (target ++ [])).length = 24 + targetSize.toNat := by
    simp [frontLength, implied]
  have loads : sqfsLe32ToCpu (front ++ (target ++ [])) 16 = .ok linkCount.toNat ∧
      sqfsLe32ToCpu (front ++ (target ++ [])) 20 = .ok targetSize.toNat := by
    simp [sqfsLe32ToCpu, front]
  rcases loads with ⟨loadLink, loadSize⟩
  have copied := @copyTarget_encoded front target address.toNat frontLength []
    (by rwa [implied])
  rw [implied] at copied
  rw [DecodesIf, parseInode_encode, layout]
  simp only [DiskBody.type, parseInodeOfType, parseInodeSymlink, loadLink, loadSize, length,
    copied, Outcome.ok_bind]
  simp
  refine ⟨header.started_readsBack .., ?_⟩
  simp (disch := decide) [DiskBody.ReadsBack, SqfsInode.get, SqfsInode.target,
    UnionMember.symlinkTarget, UnionMember.symlinkTargetSize, Storage.load_store_disjoint]

/-- The attribute index lies in the low half of the pointer to the target. -/
theorem decodes_lsymlink (header : DiskHeader) (address : UInt64)
    (linkCount targetSize : UInt32) (target : List UInt8) (xattrIdx : UInt32)
    (implied : target.length = targetSize.toNat) (inRange : targetSize.toNat + 1 < 2 ^ 32) :
    DecodesIf header
      (.lsymlink linkCount targetSize target xattrIdx implied : DiskBody blockSize)
      address.toNat (address.toNat % 2 ^ 32 = xattrIdx.toNat) := by
  let front := header.encode .lsymlink ++ (leBytes 4 linkCount.toNat ++
    leBytes 4 targetSize.toNat)
  have frontLength : front.length = 24 := by simp [front]
  have layout : encodeInode header (.lsymlink linkCount targetSize target xattrIdx implied :
      DiskBody blockSize) = front ++ (target ++ leBytes 4 xattrIdx.toNat) := by
    simp [encodeInode, DiskBody.encode, DiskBody.type, front]
  have length : (front ++ (target ++ leBytes 4 xattrIdx.toNat)).length =
      24 + targetSize.toNat + 4 := by
    simp only [List.length_append, frontLength, implied, leBytes_length]
    omega
  have loads : sqfsLe32ToCpu (front ++ (target ++ leBytes 4 xattrIdx.toNat)) 16 =
        .ok linkCount.toNat ∧
      sqfsLe32ToCpu (front ++ (target ++ leBytes 4 xattrIdx.toNat)) 20 =
        .ok targetSize.toNat := by
    simp [sqfsLe32ToCpu, front]
  rcases loads with ⟨loadLink, loadSize⟩
  have loadXattr : sqfsLe32ToCpu (front ++ (target ++ leBytes 4 xattrIdx.toNat))
      (24 + targetSize.toNat) = .ok xattrIdx.toNat := by
    rw [sqfsLe32ToCpu, loadLe_append_of_le _ _ _ _ (by omega), frontLength,
      Nat.add_sub_cancel_left, loadLe_append_of_le _ _ _ _ (by omega), implied, Nat.sub_self]
    simp
  have copied := @copyTarget_encoded front target address.toNat frontLength
    (leBytes 4 xattrIdx.toNat) (by rwa [implied])
  rw [implied] at copied
  rw [DecodesIf, parseInode_encode, layout]
  simp only [DiskBody.type, parseInodeOfType, parseInodeLsymlink, loadLink, loadSize, length,
    copied, Outcome.ok_bind]
  simp [loadXattr]
  refine ⟨header.started_readsBack .., ?_⟩
  have low := fun storage : Storage => storage.load_store_low 0 4 4 xattrIdx.toNat
  have high := fun storage : Storage => storage.load_store_high 0 4 4 address.toNat
  simp (disch := decide) [DiskBody.ReadsBack, SqfsInode.get, SqfsInode.target,
    UnionMember.symlinkTarget, UnionMember.symlinkTargetSize, UnionMember.xattrIdx,
    Storage.load_store_disjoint] at low high ⊢
  simp (disch := decide) [low, high]
  have addressInRange := address.toNat_lt
  have xattrInRange := xattrIdx.toNat_lt
  omega

/-- The decoder never accepts a symbolic link whose target leaves no room for the
terminating NUL in 32 bits. -/
theorem not_decodes_long_target (header : DiskHeader) (address : Nat)
    (linkCount targetSize : UInt32) (target : List UInt8) (xattrIdx : UInt32)
    (implied : target.length = targetSize.toNat)
    (overflow : ¬ targetSize.toNat + 1 < 2 ^ 32) :
    ¬ Decodes header (.symlink linkCount targetSize target implied : DiskBody blockSize)
        address ∧
      ¬ Decodes header
        (.lsymlink linkCount targetSize target xattrIdx implied : DiskBody blockSize)
        address := by
  constructor
  all_goals
    rw [Decodes, parseInode_encode]
    simp only [DiskBody.type, parseInodeOfType, encodeInode, DiskBody.encode,
      parseInodeSymlink, parseInodeLsymlink, sqfsLe32ToCpu]
    simp [copyTarget_overflows overflow]

/-! ## Devices -/

/-- The marker for no attributes lies over the major number. -/
theorem decodes_dev (header : DiskHeader) (address : Nat)
    (linkCount deviceNumber : UInt32) :
    DecodesIf header (.blkdev linkCount deviceNumber : DiskBody blockSize) address False ∧
      DecodesIf header (.chrdev linkCount deviceNumber : DiskBody blockSize) address False := by
  have major := sqfsDevMajor_lt deviceNumber.toNat
  constructor
  all_goals
    rw [DecodesIf, parseInode_encode]
    simp only [DiskBody.type, parseInodeOfType, encodeInode, DiskBody.encode, parseInodeDev,
      sqfsLe32ToCpu]
    simp (disch := decide) [DiskBody.ReadsBack, SqfsInode.get, UnionMember.devMajor,
      UnionMember.devMinor, UnionMember.xattrIdx, Storage.load_store_disjoint, xattrInvalid]
    refine ⟨header.started_readsBack .., ?_⟩
    intro same
    omega

/-- The attribute index lies over the major number. -/
theorem decodes_ldev (header : DiskHeader) (address : Nat)
    (linkCount deviceNumber xattrIdx : UInt32) :
    DecodesIf header (.lblkdev linkCount deviceNumber xattrIdx : DiskBody blockSize) address
        (xattrIdx.toNat = sqfsDevMajor deviceNumber.toNat) ∧
      DecodesIf header (.lchrdev linkCount deviceNumber xattrIdx : DiskBody blockSize) address
        (xattrIdx.toNat = sqfsDevMajor deviceNumber.toNat) := by
  have minor := sqfsDevMinor_lt deviceNumber.toNat
  constructor
  all_goals
    rw [DecodesIf, parseInode_encode]
    simp only [DiskBody.type, parseInodeOfType, encodeInode, DiskBody.encode, parseInodeDev,
      sqfsLe32ToCpu]
    simp (disch := decide) [DiskBody.ReadsBack, SqfsInode.get, UnionMember.devMajor,
      UnionMember.devMinor, UnionMember.xattrIdx, Storage.load_store_disjoint]
    refine ⟨header.started_readsBack .., ?_⟩
    intro same
    omega

/-! ## Pipes and sockets -/

theorem decodes_ipc (header : DiskHeader) (address : Nat) (linkCount : UInt32) :
    DecodesIf header (.fifo linkCount : DiskBody blockSize) address True ∧
      DecodesIf header (.socket linkCount : DiskBody blockSize) address True := by
  constructor
  all_goals
    rw [DecodesIf, parseInode_encode]
    simp only [DiskBody.type, parseInodeOfType, encodeInode, DiskBody.encode, parseInodeIpc,
      sqfsLe32ToCpu]
    simp [DiskBody.ReadsBack]
    exact header.started_readsBack ..

theorem decodes_lipc (header : DiskHeader) (address : Nat) (linkCount xattrIdx : UInt32) :
    DecodesIf header (.lfifo linkCount xattrIdx : DiskBody blockSize) address True ∧
      DecodesIf header (.lsocket linkCount xattrIdx : DiskBody blockSize) address True := by
  constructor
  all_goals
    rw [DecodesIf, parseInode_encode]
    simp only [DiskBody.type, parseInodeOfType, encodeInode, DiskBody.encode, parseInodeIpc,
      sqfsLe32ToCpu]
    simp (disch := decide) [DiskBody.ReadsBack, SqfsInode.get, UnionMember.xattrIdx]
    exact header.started_readsBack ..

/-! ## All types -/

/-- Decoding an inode keeps every field exactly when the fields that share
storage agree and no size overflows. -/
theorem parseInode_keeps_iff (sb : SqfsSuperblock) (header : DiskHeader)
    (body : DiskBody sb.blockSize) (address : UInt64) :
    Decodes header body address.toNat ↔ body.Survives address := by
  cases body with
  | dir blockIdx linkCount fileSize blockOffset parentInode => exact (decodes_dir ..).iff
  | ldir linkCount fileSize blockIdx parentInode indexCount blockOffset xattrIdx =>
      exact (decodes_ldir ..).iff
  | file blocksStart fragIdx blockOffset fileSize blockSizes implied =>
      exact (decodes_file ..).iff
  | lfile blocksStart fileSize sparse linkCount fragIdx blockOffset xattrIdx blockSizes
      implied => exact (decodes_lfile ..).iff
  | symlink linkCount targetSize target implied =>
      by_cases inRange : targetSize.toNat + 1 < 2 ^ 32
      · exact (decodes_symlink header address linkCount targetSize target implied
          inRange).iff.trans (iff_of_true trivial inRange)
      · exact iff_of_false (not_decodes_long_target header address.toNat linkCount targetSize
          target 0 implied inRange).1 inRange
  | lsymlink linkCount targetSize target xattrIdx implied =>
      by_cases inRange : targetSize.toNat + 1 < 2 ^ 32
      · exact (decodes_lsymlink header address linkCount targetSize target xattrIdx implied
          inRange).iff.trans (and_iff_right inRange).symm
      · exact iff_of_false (not_decodes_long_target header address.toNat linkCount targetSize
          target xattrIdx implied inRange).2 (fun survives => inRange survives.1)
  | blkdev linkCount deviceNumber => exact (decodes_dev ..).1.iff
  | chrdev linkCount deviceNumber => exact (decodes_dev ..).2.iff
  | lblkdev linkCount deviceNumber xattrIdx => exact (decodes_ldev ..).1.iff
  | lchrdev linkCount deviceNumber xattrIdx => exact (decodes_ldev ..).2.iff
  | fifo linkCount => exact (decodes_ipc ..).1.iff
  | socket linkCount => exact (decodes_ipc ..).2.iff
  | lfifo linkCount xattrIdx => exact (decodes_lipc ..).1.iff
  | lsocket linkCount xattrIdx => exact (decodes_lipc ..).2.iff

/-- The character device 1:3 is decoded with another major number. -/
theorem parseInode_loses_major :
    ¬ ∀ (sb : SqfsSuperblock) (header : DiskHeader) (body : DiskBody sb.blockSize)
      (address : UInt64), Decodes header body address.toNat := by
  intro keeps
  have kept := keeps (SqfsCtx.onBytes [] (by decide)).sb ⟨0o666, 0, 0, 0, 1⟩ (.chrdev 1 0x103) 0
  exact (decodes_dev ..).2.iff.mp kept

end SquashfsFuse
