import SquashfsFuse.Data.BlockLayout
import SquashfsFuse.Vfs.VfsOps

/-! What holds of the inodes that are accepted from any image. -/

namespace SquashfsFuse

section Accepted

variable {ctx : SqfsCtx} {data : List UInt8} {blockSize address ref : Nat}
  {start inode : SqfsInode}

theorem sqfsInodeGetByRef_parses (got : sqfsInodeGetByRef ctx ref address = .ok inode) :
    ∃ data, parseInode data ctx.sb.blockSize address .calloc = .ok inode := by
  rcases Outcome.bind_eq_ok.mp got with ⟨rawHeader, -, got⟩
  rcases Outcome.bind_eq_ok.mp got with ⟨header, -, got⟩
  split at got
  · cases got
  · rcases Outcome.bind_eq_ok.mp got with ⟨inodeSize, -, got⟩
    rcases Outcome.bind_eq_ok.mp got with ⟨rawInode, -, parsed⟩
    exact ⟨rawInode, parsed⟩

theorem parseInode_listed {sb : SqfsSuperblock} {file : SqfsFileCtx}
    (parsed : parseInode data sb.blockSize address start = .ok inode)
    (init : sqfsFileCtxInit sb inode = .ok file) : file.blockSizes.length = file.blockCount := by
  rcases sqfsFileCtxInit_fields init with ⟨-, -, -, blockSizes, blockCount⟩
  rcases sqfsFileCtxInit_fields init with ⟨blockSize, fileSize, fragIdx, -, -⟩
  rcases parseInode_counted parsed (sqfsFileCtxInit_isFile init).1 with ⟨_, _, counted, -⟩
  rw [blockSizes, counted.listed, counted.counted, blockCount, blockSize, fileSize, fragIdx,
    counted.size, counted.fragment,
    calculateBlockLayout_eq_u32 sb.blockSize_pos sb.blockSize_le,
    sqfsCalcBlockCount_eq_u32 sb.blockSize_pos]

theorem parseInode_target {address : UInt64}
    (parsed : parseInode data blockSize address.toNat start = .ok inode)
    (isLink : inode.type = .symlink) :
    ∃ bytes, inode.target = some bytes ∧ inode.get .symlinkTargetSize ≤ bytes.length := by
  rcases parseInode_parts parsed with ⟨code, type, middle, consumed, -, -, typed, decodes, -⟩
  have kept : inode.type = middle.type :=
    (parseInodeOfType_header type data blockSize address.toNat middle _ decodes).1
  rw [typed, isLink] at kept
  subst kept
  rcases Outcome.bind_eq_ok.mp decodes with ⟨linkCount, -, decodes⟩
  rcases Outcome.bind_eq_ok.mp decodes with ⟨targetSize, loadSize, decodes⟩
  rcases Outcome.bind_eq_ok.mp decodes with ⟨allocation, copies, equal⟩
  rcases sqfsLe32ToCpu_word loadSize with ⟨targetSize, rfl⟩
  rw [copyTarget] at copies
  split at copies
  · cases copies
  · rcases Outcome.bind_eq_ok.mp copies with ⟨target, sliced, allocated⟩
    cases allocated
    have length := slice_length (Outcome.ofOption_eq_ok.mp sliced)
    have inode_eq := congrArg Prod.fst (Outcome.ok.inj equal)
    dsimp only at inode_eq
    refine ⟨target ++ [0], ?_, ?_⟩
    · rw [← inode_eq]
      simp [SqfsInode.target, SqfsInode.get, UnionMember.symlinkTarget]
    · have size : inode.get .symlinkTargetSize = targetSize.toNat := by
        rw [← inode_eq]
        simp (disch := decide) [SqfsInode.get, UnionMember.symlinkTarget,
          UnionMember.symlinkTargetSize, Storage.load_store_disjoint]
      rw [size, List.length_append, length]
      omega

theorem parseInode_freeable {address : UInt64}
    (parsed : parseInode data blockSize address.toNat start = .ok inode)
    (notExtended : inode.type ≠ .lsymlink) : inode.Freeable := by
  intro isLink _
  have basic : inode.type = .symlink := by
    rcases Bool.or_eq_true _ _ ▸ isLink with basic | extended
    · exact eq_of_beq basic
    · exact absurd (eq_of_beq extended) notExtended
  rcases parseInode_target parsed basic with ⟨bytes, target, -⟩
  rw [target]
  rfl

private theorem parseInode_lsymlink_pointer {address : UInt64}
    (parsed : parseInode data blockSize address.toNat start = .ok inode)
    (extended : inode.type = .lsymlink) :
    inode.get .symlinkTarget =
        inode.get .xattrIdx + 2 ^ 32 * (address.toNat / 2 ^ 32) ∧
      ∃ allocation, inode.heap = some allocation ∧ allocation.address = address.toNat := by
  rcases parseInode_parts parsed with ⟨code, type, middle, consumed, -, -, typed, decodes, -⟩
  have kept : inode.type = middle.type :=
    (parseInodeOfType_header type data blockSize address.toNat middle _ decodes).1
  rw [typed, extended] at kept
  subst kept
  rcases Outcome.bind_eq_ok.mp decodes with ⟨linkCount, -, decodes⟩
  rcases Outcome.bind_eq_ok.mp decodes with ⟨targetSize, -, decodes⟩
  rcases Outcome.bind_eq_ok.mp decodes with ⟨allocation, copies, decodes⟩
  rcases Outcome.bind_eq_ok.mp decodes with ⟨xattrIdx, loadXattr, equal⟩
  rcases sqfsLe32ToCpu_word loadXattr with ⟨xattrIdx, rfl⟩
  have allocated : allocation.address = address.toNat := by
    rw [copyTarget] at copies
    split at copies
    · cases copies
    · rcases Outcome.bind_eq_ok.mp copies with ⟨target, -, same⟩
      cases same
      rfl
  have inode_eq := congrArg Prod.fst (Outcome.ok.inj equal)
  dsimp only at inode_eq
  refine ⟨?_, allocation, by rw [← inode_eq], allocated⟩
  have low := fun storage : Storage => storage.load_store_low 0 4 4 xattrIdx.toNat
  have high := fun storage : Storage => storage.load_store_high 0 4 4 address.toNat
  rw [← inode_eq]
  simp (disch := decide) [SqfsInode.get, UnionMember.symlinkTarget, UnionMember.xattrIdx]
    at low high ⊢
  simp (disch := decide) [low, high]
  have addressInRange := address.toNat_lt
  have xattrInRange := xattrIdx.toNat_lt
  omega

/-- An accepted inode can be freed exactly if it is no extended symbolic link, or the attribute
index is what the low half of the pointer was anyway, or makes the pointer null. -/
theorem parseInode_freeable_iff {address : UInt64}
    (parsed : parseInode data blockSize address.toNat start = .ok inode) :
    inode.Freeable ↔ (inode.type = .lsymlink → inode.get .symlinkTarget = 0 ∨
      inode.get .xattrIdx = address.toNat % 2 ^ 32) := by
  by_cases extended : inode.type = .lsymlink
  · rcases parseInode_lsymlink_pointer parsed extended with
      ⟨pointer, allocation, onHeap, allocated⟩
    have isLink : sqfsInodeIsSymlink inode.type = true := by rw [extended]; rfl
    have leads : inode.target.isSome = true ↔ inode.get .symlinkTarget = address.toNat := by
      rw [SqfsInode.target, onHeap, ← allocated]
      dsimp only
      split
      · next same => exact iff_of_true rfl same
      · next other => exact iff_of_false (by decide) other
    have inRange : inode.get .xattrIdx < 2 ^ 32 := inode.members.load_lt 0 4
    rw [SqfsInode.Freeable, leads]
    constructor
    · intro freeable _
      by_cases null : inode.get .symlinkTarget = 0
      · exact .inl null
      · right
        have same := freeable isLink null
        omega
    · intro kept _ some
      have same := (kept extended).resolve_left some
      omega
  · exact iff_of_true (parseInode_freeable parsed extended) fun same => absurd same extended

end Accepted

end SquashfsFuse
