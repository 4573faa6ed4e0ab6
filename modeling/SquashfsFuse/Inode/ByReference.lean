import SquashfsFuse.Inode.Lengths

/-! When the inode of a stream is the inode that is read at its reference. -/

namespace SquashfsFuse

/-! ## The length of a decoded inode -/

def SqfsInode.diskLength (inode : SqfsInode) : Nat :=
  let targetSize := (inode.heap.map fun allocation => allocation.bytes.length - 1).getD 0
  match inode.type with
  | .dir => 32
  | .ldir => 40
  | .file => 32 + inode.blockSizes.length * 4
  | .lfile => 56 + inode.blockSizes.length * 4
  | .symlink => 24 + targetSize
  | .lsymlink => 24 + targetSize + 4
  | .blkdev | .chrdev => 24
  | .lblkdev | .lchrdev => 28
  | .fifo | .socket => 20
  | .lfifo | .lsocket => 24

section Lengths

variable {data : List UInt8} {blockSize address length consumed : Nat} {type : InodeType}
  {start inode : SqfsInode}

private theorem parseInodeFile_length
    (parsed : parseInodeFile data blockSize start = .ok (inode, consumed)) :
    consumed = 32 + inode.blockSizes.length * 4 := by
  simp only [parseInodeFile, Outcome.bind_eq_ok] at parsed
  rcases parsed with ⟨_, -, _, -, _, -, _, -, sizes, read, equal⟩
  cases equal
  rw [readBlockSizes_length read]

private theorem parseInodeLfile_length
    (parsed : parseInodeLfile data blockSize start = .ok (inode, consumed)) :
    consumed = 56 + inode.blockSizes.length * 4 := by
  simp only [parseInodeLfile, Outcome.bind_eq_ok] at parsed
  rcases parsed with ⟨_, -, _, -, _, -, _, -, _, -, _, -, _, -, sizes, read, equal⟩
  cases equal
  rw [readBlockSizes_length read]

private theorem copyTarget_length {targetSize : Nat} {allocation : Allocation}
    (copied : copyTarget data address targetSize = .ok allocation) :
    allocation.bytes.length = targetSize + 1 := by
  rw [copyTarget] at copied
  split at copied
  · cases copied
  · rcases Outcome.bind_eq_ok.mp copied with ⟨target, sliced, equal⟩
    cases equal
    rw [List.length_append, slice_length (Outcome.ofOption_eq_ok.mp sliced)]
    rfl

private theorem parseInodeOfType_length (typed : start.type = type)
    (parsed : parseInodeOfType type data blockSize address start = .ok (inode, consumed)) :
    consumed = if sqfsInodeIsDir type then 0 else inode.diskLength := by
  have same := parseInodeOfType_header type data blockSize address start _ parsed
  have kept : inode.type = type := same.1.trans typed
  rw [SqfsInode.diskLength, kept]
  cases type with
  | file => exact parseInodeFile_length parsed
  | lfile => exact parseInodeLfile_length parsed
  | symlink =>
      simp only [parseInodeOfType, parseInodeSymlink, Outcome.bind_eq_ok] at parsed
      rcases parsed with ⟨_, -, targetSize, -, allocation, copied, equal⟩
      cases equal
      change 24 + targetSize = 24 + (allocation.bytes.length - 1)
      rw [copyTarget_length copied, Nat.add_sub_cancel]
  | lsymlink =>
      simp only [parseInodeOfType, parseInodeLsymlink, Outcome.bind_eq_ok] at parsed
      rcases parsed with ⟨_, -, targetSize, -, allocation, copied, _, -, equal⟩
      cases equal
      change 24 + targetSize + 4 = 24 + (allocation.bytes.length - 1) + 4
      rw [copyTarget_length copied, Nat.add_sub_cancel]
  | dir =>
      rw [parseInodeOfType] at parsed
      split at parsed
      · cases parsed
      · rcases Outcome.bind_eq_ok.mp parsed with ⟨_, -, equal⟩
        cases equal
        rfl
  | ldir =>
      rw [parseInodeOfType] at parsed
      split at parsed
      · cases parsed
      · rcases Outcome.bind_eq_ok.mp parsed with ⟨_, -, equal⟩
        cases equal
        rfl
  | blkdev | chrdev =>
      simp only [parseInodeOfType, parseInodeDev, Bool.false_eq_true, if_false,
        Outcome.bind_eq_ok] at parsed
      rcases parsed with ⟨_, -, _, -, equal⟩
      cases equal
      rfl
  | lblkdev | lchrdev =>
      simp only [parseInodeOfType, parseInodeDev, if_true, Outcome.bind_eq_ok] at parsed
      rcases parsed with ⟨_, -, _, -, _, -, equal⟩
      cases equal
      rfl
  | fifo | socket =>
      simp only [parseInodeOfType, parseInodeIpc, Bool.false_eq_true, if_false,
        Outcome.bind_eq_ok] at parsed
      rcases parsed with ⟨_, -, equal⟩
      cases equal
      rfl
  | lfifo | lsocket =>
      simp only [parseInodeOfType, parseInodeIpc, if_true, Outcome.bind_eq_ok] at parsed
      rcases parsed with ⟨_, -, _, -, equal⟩
      cases equal
      rfl

private theorem diskLength_of_declared
    (declared : lengthOfType u32 blockSize data type = some length)
    (long : type.fixedLength ≤ data.length) (positive : 0 < blockSize)
    (typed : start.type = type)
    (parsed : parseInodeOfType type data blockSize address start = .ok (inode, consumed)) :
    inode.diskLength = length := by
  have same := parseInodeOfType_header type data blockSize address start _ parsed
  have kept : inode.type = type := same.1.trans typed
  have total := parseInodeOfType_length typed parsed
  cases type with
  | file =>
      rcases parseInodeFile_reads positive long declared start with ⟨_, filled, -, reads⟩
      rw [parseInodeOfType, reads] at parsed
      rcases Outcome.bind_eq_ok.mp parsed with ⟨_, -, equal⟩
      cases equal
      exact total.symm
  | lfile =>
      rcases parseInodeLfile_reads positive long declared start with ⟨_, filled, -, reads⟩
      rw [parseInodeOfType, reads] at parsed
      rcases Outcome.bind_eq_ok.mp parsed with ⟨_, -, equal⟩
      cases equal
      exact total.symm
  | symlink =>
      rcases @parseInodeSymlink_reads data blockSize address length long declared start with
        ⟨_, filled, -, reads⟩
      rw [parseInodeOfType, reads] at parsed
      rcases Outcome.bind_eq_ok.mp parsed with ⟨_, -, equal⟩
      cases equal
      exact total.symm
  | lsymlink =>
      rcases @parseInodeLsymlink_reads data blockSize address length long declared start with
        ⟨_, filled, -, reads⟩
      rw [parseInodeOfType, reads] at parsed
      rcases Outcome.bind_eq_ok.mp parsed with ⟨_, -, parsed⟩
      rcases Outcome.bind_eq_ok.mp parsed with ⟨_, -, equal⟩
      cases equal
      exact total.symm
  | _ =>
      cases declared
      rw [SqfsInode.diskLength, kept]

theorem parseInode_declared (declared : DeclaresInode u32 blockSize data type length)
    (long : type.fixedLength ≤ data.length) (positive : 0 < blockSize)
    (parsed : parseInode data blockSize address start = .ok inode) :
    inode.type = type ∧ inode.diskLength = length := by
  have wide := Nat.le_trans type.header_le long
  rcases @parseInodeHeader_of_le data type.code (Outcome.ofOption_eq_ok.mpr declared.code) wide
    with ⟨header, headerParsed, headerType⟩
  rw [parseInode, if_neg (by omega), headerParsed, Outcome.ok_bind, headerType,
    InodeType.ofCode_code] at parsed
  rcases Outcome.bind_eq_ok.mp parsed with ⟨⟨result, consumed⟩, ofType, parsed⟩
  dsimp only at parsed
  split at parsed
  · cases parsed
  · cases parsed
    have same := parseInodeOfType_header type data blockSize address _ _ ofType
    exact ⟨same.1, diskLength_of_declared declared.length long positive rfl ofType⟩

private theorem loadLe_of_parseInode
    (parsed : parseInode data blockSize address start = .ok inode) :
    loadLe 2 data 0 = some inode.type.code := by
  rw [parseInode] at parsed
  split at parsed
  · cases parsed
  · rcases Outcome.bind_eq_ok.mp parsed with ⟨header, headerParsed, parsed⟩
    rw [parseInodeHeader] at headerParsed
    rcases Outcome.bind_eq_ok.mp headerParsed with ⟨code, loaded, headerParsed⟩
    simp only [Outcome.bind_eq_ok] at headerParsed
    rcases headerParsed with ⟨_, -, _, -, _, -, _, -, _, -, equal⟩
    cases equal
    cases known : InodeType.ofCode code with
    | none =>
        simp only [known] at parsed
        cases parsed
    | some type =>
        simp only [known] at parsed
        rcases Outcome.bind_eq_ok.mp parsed with ⟨⟨result, consumed⟩, ofType, parsed⟩
        have same := parseInodeOfType_header type data blockSize address _ _ ofType
        dsimp only at parsed
        split at parsed
        · cases parsed
        · cases parsed
          have kept : inode.type = type := same.1
          rw [kept, ← InodeType.code_of_ofCode known]
          exact Outcome.ofOption_eq_ok.mp loaded

end Lengths

/-! ## Encoded inodes -/

section Encoded

variable (sb : SqfsSuperblock) {header : DiskHeader} {body : DiskBody sb.blockSize}

theorem encodeInode_declares (header : DiskHeader) (body : DiskBody sb.blockSize) :
    DeclaresInode u32 sb.blockSize (encodeInode header body) body.type body.decodedLength := by
  have count := fun {fileSize fragIdx} {blockSizes : List UInt32}
      (implied : blockSizes.length = impliedBlockCount fileSize sb.blockSize fragIdx) =>
    (@sqfsCalcBlockCount_eq_u32 fileSize sb.blockSize fragIdx.toNat sb.blockSize_pos).symm.trans
      (sqfsCalcBlockCount_implied sb implied)
  constructor
  · have small : body.type.code < 65536 := body.type.code_lt
    simp [encodeInode, DiskHeader.encode, small]
  · cases body with
    | file blocksStart fragIdx blockOffset fileSize blockSizes implied =>
        have few := impliedBlockCount_lt sb fileSize fragIdx
        simp [lengthOfType, encodeInode, DiskBody.encode, DiskBody.type, DiskBody.decodedLength,
          count implied, u32_of_lt (show blockSizes.length < 2 ^ 32 by omega)]
        omega
    | lfile blocksStart fileSize sparse linkCount fragIdx blockOffset xattrIdx blockSizes
        implied =>
        simp [lengthOfType, encodeInode, DiskBody.encode, DiskBody.type, DiskBody.decodedLength,
          count implied]
    | symlink linkCount targetSize target implied =>
        simp [lengthOfType, encodeInode, DiskBody.encode, DiskBody.type, DiskBody.decodedLength,
          implied]
        omega
    | lsymlink linkCount targetSize target xattrIdx implied =>
        simp [lengthOfType, encodeInode, DiskBody.encode, DiskBody.type, DiskBody.decodedLength,
          implied]
        omega
    | _ => simp [lengthOfType, DiskBody.type, DiskBody.decodedLength, DiskBody.encode]

end Encoded

/-! ## Reading by reference -/

/-- Reading at a reference succeeds, with the inode that the decoder makes of the
bytes of the stream. -/
def GetsInode (ctx : SqfsCtx) (ref : Nat) (header : DiskHeader)
    (body : DiskBody ctx.sb.blockSize) (address : UInt64) : Prop :=
  ∃ inode, sqfsInodeGetByRef ctx ref address.toNat = .ok inode ∧
    parseInode (encodeInode header body) ctx.sb.blockSize address.toNat .calloc = .ok inode

/-- Where `data.c` unpacks the block, all bytes of the inode lie at the offset, or bytes that
decode to the same. -/
def HoldsInode (ctx : SqfsCtx) (block : MetaBlock ctx.image ctx.comp) (offset : Nat)
    (header : DiskHeader) (body : DiskBody ctx.sb.blockSize) (address : UInt64) : Prop :=
  ∃ unpacked, block.unpackedInPlace = some unpacked ∧
    offset + body.decodedLength ≤ unpacked.length ∧
    parseInode ((unpacked.drop offset).take body.decodedLength) ctx.sb.blockSize address.toNat
        .calloc =
      parseInode (encodeInode header body) ctx.sb.blockSize address.toNat .calloc

section Reading

variable {ctx : SqfsCtx} {block : MetaBlock ctx.image ctx.comp} {relative offset : Nat}

private theorem blockAtRef_of_located (located : block.pos = ctx.sb.disk.inodeTable + relative)
    (small : offset < 2 ^ 16) :
    blockAtRef ctx (relative * 2 ^ 16 + offset) =
      sqfsMetaReadBlock ctx.image ctx.comp block.pos := by
  have position : u64 (ctx.sb.disk.inodeTable + relative) = block.pos := by
    rw [← located]
    exact u64_of_lt (Nat.lt_trans block.pos_lt (by decide))
  rw [blockAtRef, (sqfsMetaRef_of_parts small).1, position]

variable {header : DiskHeader} {body : DiskBody ctx.sb.blockSize} {address : UInt64}
  {unpacked : List UInt8} {ref : Nat}

private theorem holds_of_getsInode (read : blockAtRef ctx ref = .ok unpacked)
    (gets : GetsInode ctx ref header body address) :
    sqfsMetaRefOffset ref + body.decodedLength ≤ unpacked.length ∧
      parseInode ((unpacked.drop (sqfsMetaRefOffset ref)).take body.decodedLength)
          ctx.sb.blockSize address.toNat .calloc =
        parseInode (encodeInode header body) ctx.sb.blockSize address.toNat .calloc := by
  rcases gets with ⟨inode, got, parsed⟩
  have small := sqfsMetaReadBlock_length read
  rw [sqfsMetaBlockSize] at small
  have onDisk := parseInode_declared (encodeInode_declares ctx.sb header body)
    (Nat.le_trans body.fixedLength_le (body.decodedLength_le header)) ctx.sb.blockSize_pos parsed
  rcases exists_declared address.toNat read with failed | ⟨beyond, type, length, declared⟩
  · rw [got] at failed
    cases failed
  rcases @sqfsInodeGetByRef_served ctx ref address.toNat length unpacked beyond type read declared
    with failed | ⟨fits, -⟩ | overlong
  · rw [got] at failed
    cases failed
  · have fixed := fixedLength_le_of_lengthOfType declared.length
    have taken := declared.take fixed
    rw [take_drop_append fits] at taken
    rw [sqfsInodeGetByRef_at read declared, maxInodeSize, Nat.min_eq_left (by omega),
      if_neg (by omega)] at got
    -- Both inodes are the same one, which has one length.
    have inBlock := parseInode_declared taken
      (by rw [List.length_take, List.length_drop]; omega) ctx.sb.blockSize_pos got
    have same : body.decodedLength = length := onDisk.2.symm.trans inBlock.2
    rw [same]
    exact ⟨fits, got.trans parsed.symm⟩
  · rw [overlong.faults] at got
    cases got

private theorem sqfsInodeGetByRef_of_holds (read : blockAtRef ctx ref = .ok unpacked)
    (fits : sqfsMetaRefOffset ref + body.decodedLength ≤ unpacked.length)
    (decodes : parseInode ((unpacked.drop (sqfsMetaRefOffset ref)).take body.decodedLength)
        ctx.sb.blockSize address.toNat .calloc =
      parseInode (encodeInode header body) ctx.sb.blockSize address.toNat .calloc) :
    sqfsInodeGetByRef ctx ref address.toNat =
      parseInode (encodeInode header body) ctx.sb.blockSize address.toNat .calloc := by
  have small := sqfsMetaReadBlock_length read
  have fixed := body.fixedLength_le
  rw [sqfsMetaBlockSize] at small
  rcases parseInode_accepts ctx.sb header body address (by rw [maxInodeSize]; omega) with
    ⟨inode, parsed⟩
  have onDisk := parseInode_declared (encodeInode_declares ctx.sb header body)
    (Nat.le_trans body.fixedLength_le (body.decodedLength_le header)) ctx.sb.blockSize_pos parsed
  have inBlock := decodes.trans parsed
  have enough : ((unpacked.drop (sqfsMetaRefOffset ref)).take body.decodedLength).length =
      body.decodedLength := by
    rw [List.length_take, List.length_drop]
    omega
  -- The bytes in the block declare an inode of the same type and length.
  have code := loadLe_of_parseInode inBlock
  rw [onDisk.1] at code
  rcases @lengthOfType_isSome u32 ctx.sb.blockSize _ body.type
    (Nat.le_trans fixed (Nat.le_of_eq enough.symm)) with ⟨length, declared⟩
  have total := parseInode_declared ⟨code, declared⟩ (Nat.le_trans fixed (Nat.le_of_eq enough.symm))
    ctx.sb.blockSize_pos inBlock
  have same : length = body.decodedLength := total.2.symm.trans onDisk.2
  have starts : DeclaresInode u32 ctx.sb.blockSize
      ((unpacked ++ []).drop (sqfsMetaRefOffset ref)) body.type length := by
    rw [List.append_nil]
    exact DeclaresInode.of_take ⟨code, declared⟩ fixed
  rw [sqfsInodeGetByRef_at read starts, same, maxInodeSize, Nat.min_eq_left (by omega),
    if_neg (by omega), decodes]

variable {stream : MetaStream ctx.image ctx.comp} {idx : Nat}

/-- At the reference of an inode in a block that unpacks in place, its bytes are decoded, as far
as they fit the buffer. -/
theorem sqfsInodeGetByRef_of_placed (inPlace : block.InPlace)
    (found : stream.blocks[idx]? = some block)
    (located : block.pos = ctx.sb.disk.inodeTable + relative)
    (inside : offset ≤ block.content.length)
    (placed : encodeInode header body <+: stream.bytesFrom idx offset) (address : Nat) :
    sqfsInodeGetByRef ctx (relative * 2 ^ 16 + offset) address =
      if block.content.length < offset + min body.decodedLength maxInodeSize then .err .badInode
      else parseInode ((encodeInode header body).take (min body.decodedLength maxInodeSize))
        ctx.sb.blockSize address .calloc := by
  have content := block.content_le
  have lengths := body.decodedLength_le header
  have fixed := Nat.le_trans body.fixedLength_le lengths
  have small : offset < 2 ^ 16 := by
    rw [sqfsMetaBlockSize] at content
    omega
  have part := (@sqfsMetaRef_of_parts relative offset small).2
  have read : blockAtRef ctx (relative * 2 ^ 16 + offset) = .ok block.content :=
    (blockAtRef_of_located located small).trans (block.sqfsMetaReadBlock inPlace)
  have declared : DeclaresInode u32 ctx.sb.blockSize
      ((block.content ++ stream.bytesFrom (idx + 1) 0).drop
        (sqfsMetaRefOffset (relative * 2 ^ 16 + offset))) body.type body.decodedLength := by
    have onDisk := encodeInode_declares ctx.sb header body
    rcases placed with ⟨rest, whole⟩
    rw [part, List.drop_append_of_le_length inside, ← MetaStream.bytesFrom_of_block found inside,
      ← whole]
    rw [← @List.take_left _ (encodeInode header body) rest] at onDisk
    exact onDisk.of_take fixed
  rw [sqfsInodeGetByRef_at read declared, part]
  by_cases crosses : block.content.length < offset + min body.decodedLength maxInodeSize
  · rw [if_pos crosses, if_pos crosses]
  · rw [if_neg crosses, if_neg crosses,
      MetaStream.take_of_placed found placed (by omega) (by omega)]

theorem getsInode_iff_holdsInode (located : block.pos = ctx.sb.disk.inodeTable + relative)
    (small : offset < 2 ^ 16) :
    GetsInode ctx (relative * 2 ^ 16 + offset) header body address ↔
      HoldsInode ctx block offset header body address := by
  have part := (@sqfsMetaRef_of_parts relative offset small).2
  have read := (@blockAtRef_of_located ctx block relative offset located small).trans
    block.sqfsMetaReadBlock_eq
  constructor
  · intro gets
    cases unpacks : block.unpackedInPlace with
    | none =>
        rw [unpacks] at read
        rcases gets with ⟨inode, got, -⟩
        rw [sqfsInodeGetByRef_of_unread read] at got
        cases got
    | some unpacked =>
        rw [unpacks] at read
        have holds := holds_of_getsInode read gets
        rw [part] at holds
        exact ⟨unpacked, unpacks, holds⟩
  · rintro ⟨unpacked, unpacks, fits, decodes⟩
    rw [unpacks] at read
    have got := @sqfsInodeGetByRef_of_holds ctx header body address unpacked _ read
      (by rwa [part]) (by rwa [part])
    have room := sqfsMetaReadBlock_length read
    rw [sqfsMetaBlockSize] at room
    rcases parseInode_accepts ctx.sb header body address (by rw [maxInodeSize]; omega) with
      ⟨inode, parsed⟩
    exact ⟨inode, got.trans parsed, parsed⟩

private theorem holdsInode_iff_fits (inPlace : block.InPlace) (found : stream.blocks[idx]? = some block)
    (placed : encodeInode header body <+: stream.bytesFrom idx offset) :
    HoldsInode ctx block offset header body address ↔
      offset + body.decodedLength ≤ block.content.length := by
  constructor
  · rintro ⟨unpacked, unpacks, fits, -⟩
    rw [inPlace] at unpacks
    cases unpacks
    exact fits
  · intro fits
    refine ⟨block.content, inPlace, fits, ?_⟩
    rw [MetaStream.take_of_placed found placed (body.decodedLength_le header) fits,
      parseInode_take_decodedLength]

end Reading

/-- An inode of the stream is read at its reference exactly when the metadata block it starts
in holds it where `data.c` unpacks the block. A block that unpacks in place to its content
holds it exactly when it has all of it. -/
theorem sqfsInodeGetByRef_iff (ctx : SqfsCtx) (stream : MetaStream ctx.image ctx.comp)
    (idx offset relative : Nat) (block : MetaBlock ctx.image ctx.comp)
    (found : stream.blocks[idx]? = some block)
    (located : block.pos = ctx.sb.disk.inodeTable + relative)
    (inside : offset < block.content.length) (header : DiskHeader)
    (body : DiskBody ctx.sb.blockSize)
    (placed : encodeInode header body <+: stream.bytesFrom idx offset) (address : UInt64) :
    (GetsInode ctx (relative * 2 ^ 16 + offset) header body address ↔
        HoldsInode ctx block offset header body address) ∧
      (block.InPlace → (GetsInode ctx (relative * 2 ^ 16 + offset) header body address ↔
        offset + body.decodedLength ≤ block.content.length)) := by
  have content := block.content_le
  have small : offset < 2 ^ 16 := by
    rw [sqfsMetaBlockSize] at content
    omega
  constructor
  · exact getsInode_iff_holdsInode located small
  · intro inPlace
    rw [getsInode_iff_holdsInode located small, holdsInode_iff_fits inPlace found placed]

/-- A pipe in a table of one stored block. -/
theorem sqfsInodeGetByRef_pipe :
    GetsInode
      (.onBytes ([0x14, 0x80] ++ encodeInode ⟨0o644, 0, 0, 0, 1⟩ (.fifo 1 : DiskBody 4096))
        (by decide))
      0 ⟨0o644, 0, 0, 0, 1⟩ (.fifo 1) 0 := by
  let pipe := encodeInode ⟨0o644, 0, 0, 0, 1⟩ (.fifo 1 : DiskBody 4096)
  let ctx := SqfsCtx.onBytes ([0x14, 0x80] ++ pipe) (by decide)
  let block := MetaBlock.ofStored ctx.image ctx.comp [] pipe [] (by decide) (by decide)
    (by decide)
  exact ((sqfsInodeGetByRef_iff ctx ⟨[block], .singleton _⟩ 0 0 0 block rfl rfl
    (by decide) ⟨0o644, 0, 0, 0, 1⟩ (.fifo 1) (by decide) 0).2
    (MetaBlock.ofStored_inPlace ..)).mpr (by decide)

/-- A pipe whose first ten bytes are the last of a full block is not read. -/
theorem sqfsInodeGetByRef_misses_crossing :
    ¬ ∀ (ctx : SqfsCtx) (stream : MetaStream ctx.image ctx.comp) (idx offset relative : Nat)
      (block : MetaBlock ctx.image ctx.comp), stream.Chopped →
      stream.blocks[idx]? = some block →
      block.pos = ctx.sb.disk.inodeTable + relative → offset < block.content.length →
      ∀ (header : DiskHeader) (body : DiskBody ctx.sb.blockSize),
      encodeInode header body <+: stream.bytesFrom idx offset →
      ∀ address : UInt64, GetsInode ctx (relative * 2 ^ 16 + offset) header body address := by
  intro claim
  let pipe := encodeInode ⟨0o644, 0, 0, 0, 1⟩ (.fifo 1 : DiskBody 4096)
  have ⟨zeros, zerosLength⟩ : ∃ zeros : List UInt8, zeros.length = 8182 :=
    ⟨List.replicate 8182 0, List.length_replicate⟩
  let first := zeros ++ pipe.take 10
  let second := pipe.drop 10
  have firstLength : first.length = 8192 := by
    rw [List.length_append, zerosLength]
    rfl
  let bytes := leBytes 2 (2 ^ 15 + first.length) ++
    (first ++ (leBytes 2 (2 ^ 15 + second.length) ++ second))
  have small : bytes.length < 2 ^ 63 := by
    simp only [bytes, List.length_append, leBytes_length, firstLength]
    decide
  let ctx := SqfsCtx.onBytes bytes small
  have firstValid : 0 < first.length ∧ first.length ≤ sqfsMetaBlockSize := by
    rw [firstLength]
    decide
  let stream := MetaStream.ofTwoStored ctx.image ctx.comp first second rfl firstValid
    (by decide)
  let block := MetaBlock.ofStored ctx.image ctx.comp [] first
    (leBytes 2 (2 ^ 15 + second.length) ++ second) rfl firstValid.1 firstValid.2
  have placed : pipe <+: stream.bytesFrom 0 8182 := by
    have whole : stream.bytesFrom 0 8182 = pipe := by
      change (zeros ++ pipe.take 10 ++ (pipe.drop 10 ++ [])).drop 8182 = pipe
      rw [List.append_nil, List.append_assoc, List.take_append_drop,
        List.drop_left' zerosLength]
    exact ⟨[], (List.append_nil _).trans whole.symm⟩
  have chopped : stream.Chopped := .cons_cons firstLength (.singleton _)
  have inside : 8182 < first.length := by omega
  have gets := claim ctx stream 0 8182 0 block chopped rfl rfl inside ⟨0o644, 0, 0, 0, 1⟩
    (.fifo 1) placed 0
  have holds := (@getsInode_iff_holdsInode ctx block 0 8182 _ _ _ rfl (by decide)).mp gets
  have fits := (@holdsInode_iff_fits ctx block 8182 _ _ _ stream 0
    (MetaBlock.ofStored_inPlace ..) rfl placed).mp holds
  have whole : 8182 + 20 ≤ first.length := fits
  omega

end SquashfsFuse
