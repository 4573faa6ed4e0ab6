import SquashfsFuse.Inode.Decoding
import SquashfsFuse.Metadata.Stream

/-! Reading inodes out of a table that is chopped into metadata blocks. -/

namespace SquashfsFuse

/-! ## Lengths -/

/-- How many bytes of an encoded inode the decoder looks at: all of them, unless
the number of block sizes overflows. -/
def DiskBody.decodedLength {blockSize : Nat} : DiskBody blockSize → Nat
  | .lfile _ _ _ _ _ _ _ blockSizes _ => 56 + 4 * u32 blockSizes.length
  | body => 16 + body.encode.length

def InodeType.fixedLength : InodeType → Nat
  | .file => 32
  | .lfile => 56
  | .symlink | .lsymlink => 24
  | _ => 16

section Lengths

variable {blockSize : Nat} (header : DiskHeader) (body : DiskBody blockSize)

theorem encodeInode_length : (encodeInode header body).length = 16 + body.encode.length := by
  rw [encodeInode, List.length_append, DiskHeader.encode_length]

theorem DiskBody.decodedLength_le : body.decodedLength ≤ (encodeInode header body).length := by
  rw [encodeInode_length]
  cases body with
  | lfile blocksStart fileSize sparse linkCount fragIdx blockOffset xattrIdx blockSizes
      implied =>
      have counted : u32 blockSizes.length ≤ blockSizes.length := Nat.mod_le _ _
      simp [DiskBody.decodedLength, DiskBody.encode]
      omega
  | _ => exact Nat.le_refl _

theorem DiskBody.fixedLength_le : body.type.fixedLength ≤ body.decodedLength := by
  cases body <;>
    simp only [DiskBody.type, InodeType.fixedLength, DiskBody.decodedLength, DiskBody.encode,
      List.length_append, leBytes_length, leWords_length] <;>
    omega

theorem InodeType.header_le (type : InodeType) : 16 ≤ type.fixedLength := by
  cases type <;> decide

end Lengths

/-! ## Prefixes of an inode -/

section Prefixes

variable {bytes : List UInt8} {offset size : Nat}

private theorem sqfsLe16ToCpu_take (fits : offset + 2 ≤ size) :
    sqfsLe16ToCpu (bytes.take size) offset = sqfsLe16ToCpu bytes offset := by
  rw [sqfsLe16ToCpu, loadLe_take 2 bytes offset size fits, sqfsLe16ToCpu]

theorem sqfsLe32ToCpu_take (fits : offset + 4 ≤ size) :
    sqfsLe32ToCpu (bytes.take size) offset = sqfsLe32ToCpu bytes offset := by
  rw [sqfsLe32ToCpu, loadLe_take 4 bytes offset size fits, sqfsLe32ToCpu]

private theorem sqfsLe64ToCpu_take (fits : offset + 8 ≤ size) :
    sqfsLe64ToCpu (bytes.take size) offset = sqfsLe64ToCpu bytes offset := by
  rw [sqfsLe64ToCpu, loadLe_take 8 bytes offset size fits, sqfsLe64ToCpu]

private theorem parseInodeHeader_take (fits : 16 ≤ size) :
    parseInodeHeader (bytes.take size) = parseInodeHeader bytes := by
  simp (disch := omega) only [parseInodeHeader, sqfsLe16ToCpu_take, sqfsLe32ToCpu_take]

private theorem readBlockSizes_take {start count : Nat} (fits : start + count * 4 ≤ size) :
    readBlockSizes (bytes.take size) start count = readBlockSizes bytes start count := by
  apply Outcome.mapM_congr
  intro idx member
  have bound := List.mem_range.mp member
  have wraps : u32 (idx * 4) ≤ idx * 4 := Nat.mod_le _ _
  exact sqfsLe32ToCpu_take (by omega)

private theorem parseInodeLfile_take {blockSize fileSize fragIdx : Nat} (inode : SqfsInode)
    (loadSize : sqfsLe64ToCpu bytes 24 = .ok fileSize)
    (loadFrag : sqfsLe32ToCpu bytes 44 = .ok fragIdx)
    (fits : 56 + sqfsCalcBlockCount fileSize blockSize (fragIdx != fragmentInvalid) * 4 ≤ size) :
    parseInodeLfile (bytes.take size) blockSize inode =
      parseInodeLfile bytes blockSize inode := by
  simp (disch := omega) only [parseInodeLfile, sqfsLe32ToCpu_take, sqfsLe64ToCpu_take, loadSize,
    loadFrag, Outcome.ok_bind, readBlockSizes_take fits]

private theorem parseInodeLfile_consumed {blockSize fileSize fragIdx consumed : Nat}
    {start inode : SqfsInode} (loadSize : sqfsLe64ToCpu bytes 24 = .ok fileSize)
    (loadFrag : sqfsLe32ToCpu bytes 44 = .ok fragIdx)
    (parsed : parseInodeLfile bytes blockSize start = .ok (inode, consumed)) :
    consumed = 56 + sqfsCalcBlockCount fileSize blockSize (fragIdx != fragmentInvalid) * 4 := by
  simp only [parseInodeLfile, loadSize, loadFrag, Outcome.ok_bind, Outcome.bind_eq_ok] at parsed
  rcases parsed with ⟨_, -, _, -, _, -, _, -, _, -, _, -, equal⟩
  cases equal
  rfl

end Prefixes

/-! ## Decoding a prefix -/

section Decoding

variable (sb : SqfsSuperblock) (header : DiskHeader) (body : DiskBody sb.blockSize)

private theorem parseInode_take (address size : Nat) (fits : 16 ≤ size) :
    parseInode ((encodeInode header body).take size) sb.blockSize address .calloc = (do
      let (inode, bytesConsumed) ← parseInodeOfType body.type
        ((encodeInode header body).take size) sb.blockSize address (header.started body.type)
      if 0 < bytesConsumed ∧ ((encodeInode header body).take size).length < bytesConsumed then
        .err .badInode
      else
        pure inode) := by
  have length := encodeInode_length header body
  have long : ¬ ((encodeInode header body).take size).length < 16 := by
    rw [List.length_take]
    omega
  rw [parseInode, if_neg long, parseInodeHeader_take fits, encodeInode,
    parseInodeHeader_encode]
  simp only [Outcome.ok_bind, InodeType.ofCode_code]
  rfl

theorem sqfsCalcBlockCount_implied {fileSize : Nat} {fragIdx : UInt32}
    {blockSizes : List UInt32}
    (implied : blockSizes.length = impliedBlockCount fileSize sb.blockSize fragIdx) :
    sqfsCalcBlockCount fileSize sb.blockSize (fragIdx.toNat != fragmentInvalid) =
      u32 blockSizes.length := by
  rw [sqfsCalcBlockCount_eq, implied]

theorem parseInode_accepts (address : UInt64) (small : body.decodedLength ≤ maxInodeSize) :
    ∃ inode, parseInode (encodeInode header body) sb.blockSize address.toNat .calloc =
      .ok inode := by
  have accepts {survives : Prop} (decodes : DecodesIf header body address.toNat survives) :
      ∃ inode, parseInode (encodeInode header body) sb.blockSize address.toNat .calloc =
        .ok inode :=
    decodes.imp fun _ decoded => decoded.1
  cases body with
  | dir blockIdx linkCount fileSize blockOffset parentInode => exact accepts (decodes_dir ..)
  | ldir linkCount fileSize blockIdx parentInode indexCount blockOffset xattrIdx =>
      exact accepts (decodes_ldir ..)
  | file blocksStart fragIdx blockOffset fileSize blockSizes implied =>
      exact accepts (decodes_file ..)
  | lfile blocksStart fileSize sparse linkCount fragIdx blockOffset xattrIdx blockSizes
      implied => exact accepts (decodes_lfile ..)
  | symlink linkCount targetSize target implied =>
      have length : target.length ≤ maxInodeSize := by
        simp [DiskBody.decodedLength, DiskBody.encode] at small
        omega
      rw [maxInodeSize, implied] at length
      apply accepts
      exact decodes_symlink header address linkCount targetSize target implied (by omega)
  | lsymlink linkCount targetSize target xattrIdx implied =>
      have length : target.length ≤ maxInodeSize := by
        simp [DiskBody.decodedLength, DiskBody.encode] at small
        omega
      rw [maxInodeSize, implied] at length
      apply accepts
      exact decodes_lsymlink header address linkCount targetSize target xattrIdx implied
        (by omega)
  | blkdev linkCount deviceNumber => exact accepts (decodes_dev ..).1
  | chrdev linkCount deviceNumber => exact accepts (decodes_dev ..).2
  | lblkdev linkCount deviceNumber xattrIdx => exact accepts (decodes_ldev ..).1
  | lchrdev linkCount deviceNumber xattrIdx => exact accepts (decodes_ldev ..).2
  | fifo linkCount => exact accepts (decodes_ipc ..).1
  | socket linkCount => exact accepts (decodes_ipc ..).2
  | lfifo linkCount xattrIdx => exact accepts (decodes_lipc ..).1
  | lsocket linkCount xattrIdx => exact accepts (decodes_lipc ..).2

theorem parseInode_take_decodedLength (address : Nat) :
    parseInode ((encodeInode header body).take body.decodedLength) sb.blockSize address
        .calloc =
      parseInode (encodeInode header body) sb.blockSize address .calloc := by
  have lengths := body.decodedLength_le header
  by_cases whole : (encodeInode header body).length ≤ body.decodedLength
  · rw [List.take_of_length_le whole]
  · cases body with
    | lfile blocksStart fileSize sparse linkCount fragIdx blockOffset xattrIdx blockSizes
        implied =>
        have count := sqfsCalcBlockCount_implied sb implied
        have loadSize : sqfsLe64ToCpu (encodeInode header (.lfile blocksStart fileSize sparse
            linkCount fragIdx blockOffset xattrIdx blockSizes implied)) 24 =
              .ok fileSize.toNat := by
          simp [encodeInode, DiskBody.encode, DiskBody.type, sqfsLe64ToCpu]
        have loadFrag : sqfsLe32ToCpu (encodeInode header (.lfile blocksStart fileSize sparse
            linkCount fragIdx blockOffset xattrIdx blockSizes implied)) 44 =
              .ok fragIdx.toNat := by
          simp [encodeInode, DiskBody.encode, DiskBody.type, sqfsLe32ToCpu]
        have same := @parseInodeLfile_take _ (56 + 4 * u32 blockSizes.length) sb.blockSize _ _
          (header.started .lfile) loadSize loadFrag (by rw [count, Nat.mul_comm])
        rw [parseInode_take sb _ _ _ _ (by rw [DiskBody.decodedLength]; omega),
          parseInode_encode]
        simp only [DiskBody.decodedLength, DiskBody.type, parseInodeOfType] at lengths ⊢
        rw [same]
        generalize encodeInode header _ = data at *
        cases decoded : parseInodeLfile data sb.blockSize (header.started .lfile) with
        | ok result =>
            have length : result.2 = 56 + 4 * u32 blockSizes.length := by
              rw [parseInodeLfile_consumed loadSize loadFrag decoded, count, Nat.mul_comm]
            have within : ¬ (0 < result.2 ∧ data.length < result.2) := by omega
            have taken : ¬ (0 < result.2 ∧
                (data.take (56 + 4 * u32 blockSizes.length)).length < result.2) := by
              rw [List.length_take]
              omega
            rw [Outcome.ok_bind, Outcome.ok_bind]
            exact (if_neg taken).trans (if_neg within).symm
        | err code => rfl
        | fault => rfl
    | _ =>
      exact absurd (Nat.le_of_eq (encodeInode_length header _)) whole

end Decoding

end SquashfsFuse
