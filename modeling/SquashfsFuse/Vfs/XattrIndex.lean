import SquashfsFuse.Inode.Decoding
import SquashfsFuse.Vfs.VfsOps

/-! The attribute index that the VFS finds in a decoded inode. -/

namespace SquashfsFuse

/-! ## Where the accessor reads -/

/-- What the decoder of a type leaves where `get_xattr_idx_from_inode` reads: for a basic
directory the block index, for a basic symbolic link half of the pointer to the target. -/
def foundXattrIdx (type : InodeType) (data : List UInt8) (address : Nat) : Sqfs Nat :=
  match type with
  | .dir => sqfsLe32ToCpu data 16
  | .ldir => sqfsLe32ToCpu data 36
  | .file => .ok xattrInvalid
  | .lfile => sqfsLe32ToCpu data 52
  | .symlink => .ok (address % 2 ^ 32)
  | .lsymlink => do
      let targetSize ← sqfsLe32ToCpu data 20
      sqfsLe32ToCpu data (24 + targetSize)
  | .blkdev | .chrdev | .fifo | .socket => .ok xattrInvalid
  | .lblkdev | .lchrdev => sqfsLe32ToCpu data 24
  | .lfifo | .lsocket => sqfsLe32ToCpu data 20

theorem SqfsInode.get_set_xattrIdx (inode : SqfsInode) (linkCount : Nat)
    (heap : Option Allocation) {value : Nat} (bound : value < 2 ^ 32) :
    ({ inode.set .xattrIdx value with linkCount, heap } : SqfsInode).get .xattrIdx = value := by
  rw [SqfsInode.get]
  exact (inode.members.load_store_same 0 4 value).trans (Nat.mod_eq_of_lt bound)

private theorem xattrInvalid_lt : xattrInvalid < 2 ^ 32 := by
  decide

section Decoders

variable {data : List UInt8} {blockSize address consumed : Nat} {start inode : SqfsInode}

private theorem parseInodeDir_found (parsed : parseInodeDir data start = .ok inode) :
    inode.type = start.type ∧ sqfsLe32ToCpu data 16 = .ok (inode.get .xattrIdx) := by
  rcases Outcome.bind_eq_ok.mp parsed with ⟨blockIdx, load, parsed⟩
  rcases Outcome.bind_eq_ok.mp parsed with ⟨linkCount, -, parsed⟩
  rcases Outcome.bind_eq_ok.mp parsed with ⟨size, -, parsed⟩
  rcases Outcome.bind_eq_ok.mp parsed with ⟨blockOffset, -, parsed⟩
  rcases Outcome.bind_eq_ok.mp parsed with ⟨parentInode, -, parsed⟩
  cases parsed
  have bound := sqfsLe32ToCpu_lt load
  have mask : blockIdx &&& 0xFFFFFFFF = blockIdx := by
    rw [show 0xFFFFFFFF = 2 ^ 32 - 1 from rfl, Nat.and_two_pow_sub_one_eq_mod,
      Nat.mod_eq_of_lt bound]
  have narrow := fun storage : Storage => storage.load_store_narrow 0 4 4 blockIdx
  simp (disch := decide) [SqfsInode.get, UnionMember.dirBlockIdx, UnionMember.dirSize,
    UnionMember.dirBlockOffset, UnionMember.dirParentInode, UnionMember.dirIndexCount,
    UnionMember.xattrIdx, Storage.load_store_disjoint, mask] at narrow ⊢
  rw [narrow, load]
  exact congrArg Outcome.ok (Nat.mod_eq_of_lt bound).symm

private theorem parseInodeLdir_found (parsed : parseInodeLdir data start = .ok inode) :
    inode.type = start.type ∧ sqfsLe32ToCpu data 36 = .ok (inode.get .xattrIdx) := by
  rcases Outcome.bind_eq_ok.mp parsed with ⟨linkCount, -, parsed⟩
  rcases Outcome.bind_eq_ok.mp parsed with ⟨size, -, parsed⟩
  rcases Outcome.bind_eq_ok.mp parsed with ⟨blockIdx, -, parsed⟩
  rcases Outcome.bind_eq_ok.mp parsed with ⟨parentInode, -, parsed⟩
  rcases Outcome.bind_eq_ok.mp parsed with ⟨indexCount, -, parsed⟩
  rcases Outcome.bind_eq_ok.mp parsed with ⟨blockOffset, -, parsed⟩
  rcases Outcome.bind_eq_ok.mp parsed with ⟨xattrIdx, load, parsed⟩
  cases parsed
  constructor
  · simp only [SqfsInode.set_type]
  · rw [load]
    exact congrArg Outcome.ok (SqfsInode.get_set_xattrIdx _ _ _ (sqfsLe32ToCpu_lt load)).symm

private theorem parseInodeFile_found
    (parsed : parseInodeFile data blockSize start = .ok (inode, consumed)) :
    inode.type = start.type ∧ inode.get .fileXattrIdx = xattrInvalid := by
  rcases Outcome.bind_eq_ok.mp parsed with ⟨blocksStart, -, parsed⟩
  rcases Outcome.bind_eq_ok.mp parsed with ⟨fragIdx, -, parsed⟩
  rcases Outcome.bind_eq_ok.mp parsed with ⟨blockOffset, -, parsed⟩
  rcases Outcome.bind_eq_ok.mp parsed with ⟨fileSize, -, parsed⟩
  rcases Outcome.bind_eq_ok.mp parsed with ⟨blockSizes, -, parsed⟩
  cases parsed
  simp (disch := decide) [SqfsInode.get, UnionMember.fileXattrIdx, UnionMember.fileBlockCount,
    Storage.load_store_disjoint, xattrInvalid]

private theorem parseInodeLfile_found
    (parsed : parseInodeLfile data blockSize start = .ok (inode, consumed)) :
    inode.type = start.type ∧ sqfsLe32ToCpu data 52 = .ok (inode.get .fileXattrIdx) := by
  rcases Outcome.bind_eq_ok.mp parsed with ⟨blocksStart, -, parsed⟩
  rcases Outcome.bind_eq_ok.mp parsed with ⟨fileSize, -, parsed⟩
  rcases Outcome.bind_eq_ok.mp parsed with ⟨sparse, -, parsed⟩
  rcases Outcome.bind_eq_ok.mp parsed with ⟨linkCount, -, parsed⟩
  rcases Outcome.bind_eq_ok.mp parsed with ⟨fragIdx, -, parsed⟩
  rcases Outcome.bind_eq_ok.mp parsed with ⟨blockOffset, -, parsed⟩
  rcases Outcome.bind_eq_ok.mp parsed with ⟨xattrIdx, load, parsed⟩
  rcases Outcome.bind_eq_ok.mp parsed with ⟨blockSizes, -, parsed⟩
  cases parsed
  have bound := sqfsLe32ToCpu_lt load
  simp (disch := decide) [SqfsInode.get, UnionMember.fileXattrIdx, UnionMember.fileBlockCount,
    Storage.load_store_disjoint, load]
  omega

private theorem parseInodeSymlink_found
    (parsed : parseInodeSymlink data address start = .ok (inode, consumed)) :
    inode.type = start.type ∧ inode.get .xattrIdx = address % 2 ^ 32 := by
  rcases Outcome.bind_eq_ok.mp parsed with ⟨linkCount, -, parsed⟩
  rcases Outcome.bind_eq_ok.mp parsed with ⟨targetSize, -, parsed⟩
  rcases Outcome.bind_eq_ok.mp parsed with ⟨allocation, -, parsed⟩
  cases parsed
  exact ⟨rfl, Storage.load_store_narrow _ 0 4 4 address⟩

private theorem parseInodeLsymlink_found
    (parsed : parseInodeLsymlink data address start = .ok (inode, consumed)) :
    inode.type = start.type ∧
      (do
        let targetSize ← sqfsLe32ToCpu data 20
        sqfsLe32ToCpu data (24 + targetSize)) = .ok (inode.get .xattrIdx) := by
  rcases Outcome.bind_eq_ok.mp parsed with ⟨linkCount, -, parsed⟩
  rcases Outcome.bind_eq_ok.mp parsed with ⟨targetSize, size, parsed⟩
  rcases Outcome.bind_eq_ok.mp parsed with ⟨allocation, -, parsed⟩
  rcases Outcome.bind_eq_ok.mp parsed with ⟨xattrIdx, load, parsed⟩
  cases parsed
  apply And.intro rfl
  rw [size, Outcome.ok_bind, load]
  exact congrArg Outcome.ok (SqfsInode.get_set_xattrIdx _ _ _ (sqfsLe32ToCpu_lt load)).symm

private theorem parseInodeDev_found {isExtended : Bool}
    (parsed : parseInodeDev data isExtended start = .ok (inode, consumed)) :
    inode.type = start.type ∧
      (if isExtended then sqfsLe32ToCpu data 24 else .ok xattrInvalid) =
        .ok (inode.get .xattrIdx) := by
  rcases Outcome.bind_eq_ok.mp parsed with ⟨linkCount, -, parsed⟩
  rcases Outcome.bind_eq_ok.mp parsed with ⟨devNum, -, parsed⟩
  cases isExtended with
  | true =>
      rcases Outcome.bind_eq_ok.mp parsed with ⟨xattrIdx, load, parsed⟩
      cases parsed
      apply And.intro rfl
      rw [if_pos rfl, load]
      exact congrArg Outcome.ok (SqfsInode.get_set_xattrIdx _ _ _ (sqfsLe32ToCpu_lt load)).symm
  | false =>
      cases parsed
      exact ⟨rfl, congrArg Outcome.ok (SqfsInode.get_set_xattrIdx _ _ _ xattrInvalid_lt).symm⟩

private theorem parseInodeIpc_found {isExtended : Bool}
    (parsed : parseInodeIpc data isExtended start = .ok (inode, consumed)) :
    inode.type = start.type ∧
      (if isExtended then sqfsLe32ToCpu data 20 else .ok xattrInvalid) =
        .ok (inode.get .xattrIdx) := by
  rcases Outcome.bind_eq_ok.mp parsed with ⟨linkCount, -, parsed⟩
  cases isExtended with
  | true =>
      rcases Outcome.bind_eq_ok.mp parsed with ⟨xattrIdx, load, parsed⟩
      cases parsed
      apply And.intro rfl
      rw [if_pos rfl, load]
      exact congrArg Outcome.ok (SqfsInode.get_set_xattrIdx _ _ _ (sqfsLe32ToCpu_lt load)).symm
  | false =>
      cases parsed
      exact ⟨rfl, congrArg Outcome.ok (SqfsInode.get_set_xattrIdx _ _ _ xattrInvalid_lt).symm⟩

private theorem parseInodeOfType_found {type : InodeType} (typed : start.type = type)
    (parsed : parseInodeOfType type data blockSize address start = .ok (inode, consumed)) :
    foundXattrIdx type data address = .ok (getXattrIdxFromInode inode) := by
  cases type with
  | dir =>
      rw [parseInodeOfType] at parsed
      split at parsed
      · cases parsed
      · rcases Outcome.bind_eq_ok.mp parsed with ⟨decoded, decodes, returned⟩
        cases returned
        rcases parseInodeDir_found decodes with ⟨kept, found⟩
        rw [getXattrIdxFromInode, kept, typed]
        exact found
  | ldir =>
      rw [parseInodeOfType] at parsed
      split at parsed
      · cases parsed
      · rcases Outcome.bind_eq_ok.mp parsed with ⟨decoded, decodes, returned⟩
        cases returned
        rcases parseInodeLdir_found decodes with ⟨kept, found⟩
        rw [getXattrIdxFromInode, kept, typed]
        exact found
  | file =>
      rcases parseInodeFile_found parsed with ⟨kept, found⟩
      rw [getXattrIdxFromInode, kept, typed]
      exact congrArg Outcome.ok found.symm
  | lfile =>
      rcases parseInodeLfile_found parsed with ⟨kept, found⟩
      rw [getXattrIdxFromInode, kept, typed]
      exact found
  | symlink =>
      rcases parseInodeSymlink_found parsed with ⟨kept, found⟩
      rw [getXattrIdxFromInode, kept, typed]
      exact congrArg Outcome.ok found.symm
  | lsymlink =>
      rcases parseInodeLsymlink_found parsed with ⟨kept, found⟩
      rw [getXattrIdxFromInode, kept, typed]
      exact found
  | blkdev | chrdev | lblkdev | lchrdev =>
      rcases parseInodeDev_found parsed with ⟨kept, found⟩
      rw [getXattrIdxFromInode, kept, typed]
      exact found
  | fifo | socket | lfifo | lsocket =>
      rcases parseInodeIpc_found parsed with ⟨kept, found⟩
      rw [getXattrIdxFromInode, kept, typed]
      exact found

end Decoders

/-! ## Inodes on disk -/

variable {blockSize : Nat}

namespace DiskBody

/-- The attribute index of the inode on disk; the basic types have none. -/
def xattrIdx : DiskBody blockSize → Nat
  | ldir _ _ _ _ _ _ xattrIdx | lfile _ _ _ _ _ _ xattrIdx _ _ | lsymlink _ _ _ xattrIdx _
  | lblkdev _ _ xattrIdx | lchrdev _ _ xattrIdx | lfifo _ xattrIdx | lsocket _ xattrIdx =>
      xattrIdx.toNat
  | dir .. | file .. | symlink .. | blkdev .. | chrdev .. | fifo .. | socket .. => xattrInvalid

def takenXattrIdx (address : UInt64) : DiskBody blockSize → Nat
  | dir blockIdx .. => blockIdx.toNat
  | symlink .. => address.toNat % 2 ^ 32
  | body => body.xattrIdx

/-- Where another member lies in the place of the index, it has the value for no
attributes. -/
def KeepsXattrIdx (address : UInt64) : DiskBody blockSize → Prop
  | dir blockIdx .. => blockIdx.toNat = xattrInvalid
  | symlink _ targetSize .. =>
      targetSize.toNat + 1 < 2 ^ 32 → address.toNat % 2 ^ 32 = xattrInvalid
  | _ => True

end DiskBody

private theorem foundXattrIdx_encode (header : DiskHeader) (body : DiskBody blockSize)
    (address : UInt64) :
    foundXattrIdx body.type (encodeInode header body) address.toNat =
      .ok (body.takenXattrIdx address) := by
  cases body with
  | lsymlink linkCount targetSize target xattrIdx implied =>
      have size : sqfsLe32ToCpu (encodeInode header (.lsymlink linkCount targetSize target
          xattrIdx implied : DiskBody blockSize)) 20 = .ok targetSize.toNat := by
        simp [encodeInode, DiskBody.encode, DiskBody.type, sqfsLe32ToCpu]
      let front := header.encode .lsymlink ++ (leBytes 4 linkCount.toNat ++
        leBytes 4 targetSize.toNat ++ target)
      have frontLength : front.length = 24 + targetSize.toNat := by
        simp only [front, List.length_append, DiskHeader.encode_length, leBytes_length, implied]
        omega
      have layout : encodeInode header (.lsymlink linkCount targetSize target xattrIdx implied :
          DiskBody blockSize) = front ++ leBytes 4 xattrIdx.toNat := by
        simp [encodeInode, DiskBody.encode, DiskBody.type, front]
      simp only [DiskBody.type, foundXattrIdx, size, Outcome.ok_bind]
      rw [layout, sqfsLe32ToCpu, loadLe_append_of_le _ _ _ _ (by omega), frontLength,
        Nat.sub_self]
      simp [DiskBody.takenXattrIdx, DiskBody.xattrIdx]
  | _ =>
      simp [foundXattrIdx, encodeInode, DiskBody.encode, DiskBody.type, sqfsLe32ToCpu,
        DiskBody.takenXattrIdx, DiskBody.xattrIdx]

private theorem getXattrIdxFromInode_of_parsed {header : DiskHeader} {body : DiskBody blockSize}
    {address : UInt64} {inode : SqfsInode}
    (parsed : parseInode (encodeInode header body) blockSize address.toNat .calloc =
      .ok inode) : getXattrIdxFromInode inode = body.takenXattrIdx address := by
  rw [parseInode_encode] at parsed
  rcases Outcome.bind_eq_ok.mp parsed with ⟨⟨decoded, consumed⟩, decodes, returned⟩
  have found : foundXattrIdx body.type (encodeInode header body) address.toNat =
      .ok (getXattrIdxFromInode decoded) := parseInodeOfType_found rfl decodes
  rw [foundXattrIdx_encode] at found
  dsimp only at returned
  split at returned
  · cases returned
  · cases returned
    exact (Outcome.ok.inj found).symm

/-- The attribute index that is looked up is the one on disk exactly when, for a basic
directory, its block index and, for a basic symbolic link, half of a pointer look like
none. -/
theorem getXattrIdxFromInode_iff (sb : SqfsSuperblock) (header : DiskHeader)
    (body : DiskBody sb.blockSize) (address : UInt64) :
    (∀ inode, parseInode (encodeInode header body) sb.blockSize address.toNat .calloc =
        .ok inode → getXattrIdxFromInode inode = body.xattrIdx) ↔
      body.KeepsXattrIdx address := by
  have taken {inode : SqfsInode} := @getXattrIdxFromInode_of_parsed sb.blockSize header body
    address inode
  cases body with
  | dir blockIdx linkCount fileSize blockOffset parentInode =>
      rcases decodes_dir header address.toNat blockIdx linkCount fileSize blockOffset
        parentInode with ⟨accepted, parsed, -⟩
      constructor
      · intro right
        exact (taken parsed).symm.trans (right accepted parsed)
      · intro keeps inode parsed
        exact (taken parsed).trans keeps
  | symlink linkCount targetSize target implied =>
      constructor
      · intro right inRange
        rcases decodes_symlink header address linkCount targetSize target implied inRange with
          ⟨accepted, parsed, -⟩
        exact (taken parsed).symm.trans (right accepted parsed)
      · intro keeps inode parsed
        by_cases inRange : targetSize.toNat + 1 < 2 ^ 32
        · exact (taken parsed).trans (keeps inRange)
        · rw [parseInode_encode] at parsed
          rcases Outcome.bind_eq_ok.mp parsed with ⟨_, decodes, -⟩
          simp [DiskBody.type, parseInodeOfType, encodeInode, DiskBody.encode,
            parseInodeSymlink, sqfsLe32ToCpu, copyTarget_overflows inRange] at decodes
  | _ => exact iff_of_true (fun inode parsed => taken parsed) trivial

/-- The index found for a directory in the first metadata block is 0. -/
theorem getXattrIdxFromInode_takes_blockIdx :
    ¬ ∀ (sb : SqfsSuperblock) (header : DiskHeader) (body : DiskBody sb.blockSize)
      (address : UInt64) (inode : SqfsInode),
      parseInode (encodeInode header body) sb.blockSize address.toNat .calloc = .ok inode →
      getXattrIdxFromInode inode = body.xattrIdx := by
  intro claim
  let directory : DiskBody (SqfsCtx.onBytes [] (by decide)).sb.blockSize := .dir 0 2 3 0 1
  rcases decodes_dir ⟨0o755, 0, 0, 0, 1⟩ 0 0 2 3 0 1 with ⟨inode, parsed, -⟩
  have right := claim _ ⟨0o755, 0, 0, 0, 1⟩ directory 0 inode parsed
  have taken := @getXattrIdxFromInode_of_parsed _ ⟨0o755, 0, 0, 0, 1⟩ directory 0 inode parsed
  rw [taken] at right
  cases right

end SquashfsFuse
