import SquashfsFuse.Data.FileReads

/-! Ranges of a file that `sqfs_data_is_sparse` reports as sparse. -/

namespace SquashfsFuse

/-! ## sqfs_data_is_sparse -/

def sparsePass (file : SqfsFileCtx) (endBlock i : Nat) : Pass Nat (Sqfs Int) :=
  if endBlock < i then
    .leave (.ok 1)
  else if file.blockCount ≤ i then
    .leave (.ok 1)
  else
    match file.blockSizes[i]? with
    | none => .leave .fault
    | some size =>
        if size ≠ 0 then
          .leave (.ok 0)
        else
          .again (u32 (i + 1))

/-- `sqfs_data_is_sparse`. The context comes with its field `sparse_bytes`, which is a copy of
the inode's. -/
def SqfsDataIsSparse (ctx : Option (SqfsFileCtx × Nat)) (offset size : Nat)
    (answer : Sqfs Int) : Prop :=
  match ctx with
  | none => answer = .ok 0
  | some (file, sparseBytes) =>
      if sparseBytes = 0 then
        answer = .ok 0
      else
        let endOffset :=
          if file.fileSize < u64 (offset + size) then file.fileSize else u64 (offset + size)
        let startBlock := u32 (offset / file.blockSize)
        let endBlock := u32 (sub64 endOffset 1 / file.blockSize)
        Pass.Returns (sparsePass file endBlock) startBlock answer

/-! ## The loop -/

/-- Every block that has bytes of the file from `offset` up to `behind` is a hole. -/
def HolesUnder (file : SqfsFileCtx) (offset behind : Nat) : Prop :=
  ∀ idx, idx < file.blockCount → offset < (idx + 1) * file.blockSize →
    idx * file.blockSize < behind → file.blockSizes[idx]? = some 0

section Loop

variable {file : SqfsFileCtx} {endBlock : Nat}

private theorem sparsePass_returns (listed : file.blockSizes.length = file.blockCount)
    (countInRange : file.blockCount < 2 ^ 32) (start : Nat) :
    ∃ answer : Int, Pass.Returns (sparsePass file endBlock) start (.ok answer) ∧
      (answer = 0 ∨ answer = 1) ∧
      (answer = 1 ↔ ∀ idx, start ≤ idx → idx ≤ endBlock → idx < file.blockCount →
        file.blockSizes[idx]? = some 0) := by
  induction left : file.blockCount - start generalizing start with
  | zero =>
      have leaves : sparsePass file endBlock start = .leave (.ok 1) := by
        rw [sparsePass, if_pos (show file.blockCount ≤ start by omega), ite_self]
      refine ⟨1, .of_leave leaves, .inr rfl, iff_of_true rfl ?_⟩
      intro idx behind _ inRange
      omega
  | succ left induction =>
      have inRange : start < file.blockSizes.length := by omega
      have present : file.blockSizes[start]? = some file.blockSizes[start] :=
        List.getElem?_eq_getElem inRange
      have pass : sparsePass file endBlock start =
          if endBlock < start then .leave (.ok 1)
          else if file.blockSizes[start] ≠ 0 then .leave (.ok 0)
          else .again (u32 (start + 1)) := by
        rw [sparsePass, if_neg (show ¬ file.blockCount ≤ start by omega), present]
      by_cases ended : endBlock < start
      · rw [if_pos ended] at pass
        refine ⟨1, .of_leave pass, .inr rfl, iff_of_true rfl ?_⟩
        intro idx behind before _
        omega
      · rw [if_neg ended] at pass
        by_cases hole : file.blockSizes[start] = 0
        · rw [if_neg (not_not_intro hole), u32_of_lt (by omega)] at pass
          rcases induction (start + 1) (by omega) with ⟨answer, returned, boolean, holes⟩
          refine ⟨answer, .of_again pass returned, boolean, holes.trans ⟨?_, ?_⟩⟩
          · intro rest idx behind before counted
            rcases Nat.eq_or_lt_of_le behind with rfl | further
            · rw [present, hole]
            · exact rest idx further before counted
          · intro all idx behind before counted
            exact all idx (by omega) before counted
        · rw [if_pos hole] at pass
          refine ⟨0, .of_leave pass, .inl rfl, iff_of_false (by decide) ?_⟩
          intro all
          have first := all start (Nat.le_refl start) (by omega) (by omega)
          rw [present] at first
          exact hole (Option.some.inj first)

end Loop

/-! ## The bytes of a hole -/

section Content

variable {ctx : SqfsCtx} {file : SqfsFileCtx} {pos : Nat}

private theorem WellFormedFile.zero_in_hole (wellFormed : WellFormedFile ctx file)
    (positive : 0 < file.blockSize) (inside : pos < file.fileSize)
    (hole : file.blockSizes[pos / file.blockSize]? = some 0) :
    (fileContent ctx file)[pos]? = some 0 := by
  have inRange : pos / file.blockSize < file.blockCount := by
    rcases List.getElem?_eq_some_iff.mp hole with ⟨listed, -⟩
    rwa [wellFormed.listed] at listed
  have left := (left_in_block wellFormed.counted positive inside).1
  have block : zeroFilledBlock ctx file (pos / file.blockSize) =
      List.replicate (nominalSize file (pos / file.blockSize)) 0 := by
    have located : sqfsFileBlockLocation file (pos / file.blockSize) = .ok ⟨0, 0⟩ := by
      rw [sqfsFileBlockLocation, if_neg (Nat.not_le_of_lt inRange), hole]
      rfl
    rw [zeroFilledBlock, blockContent, located]
    exact fillUp_of_length List.length_replicate
  rcases @drop_of_block file pos _ (tailContent ctx file)
    wellFormed.shortBlocks.zeroFilledBlock_length inRange (Nat.le_of_lt left) with
    ⟨rest, continued⟩
  have first : ((fileContent ctx file).drop pos)[0]? = some 0 := by
    rw [← wellFormed.zeroFilled, zeroFilledContent, continued, block, List.drop_replicate,
      List.getElem?_append_left (by rw [List.length_replicate]; omega),
      List.getElem?_replicate_of_lt (by omega)]
  rwa [List.getElem?_drop, Nat.add_zero] at first

end Content

/-! ## What the answer says of a read -/

section Ranges

variable {file : SqfsFileCtx} {offset behind : Nat}

private theorem holesUnder_iff (positive : 0 < file.blockSize) (nonempty : offset < behind) :
    HolesUnder file offset behind ↔ ∀ idx, offset / file.blockSize ≤ idx →
      idx ≤ (behind - 1) / file.blockSize → idx < file.blockCount →
        file.blockSizes[idx]? = some 0 := by
  have started (idx : Nat) : offset / file.blockSize ≤ idx ↔
      offset < (idx + 1) * file.blockSize := by
    rw [← Nat.lt_succ_iff, Nat.div_lt_iff_lt_mul positive]
  have goes (idx : Nat) : idx ≤ (behind - 1) / file.blockSize ↔
      idx * file.blockSize < behind := by
    rw [Nat.le_div_iff_mul_le positive]
    omega
  simp only [HolesUnder, started, goes]
  exact forall_congr' fun _ => ⟨fun all behind before inRange => all inRange behind before,
    fun all inRange behind before => all behind before inRange⟩

end Ranges

section Answers

variable {cache : BlockCache C} {Inv : C → Prop} {offered served : Nat → BlockEntry → Prop}
  {ctx : SqfsCtx} {inode : SqfsInode} {file : SqfsFileCtx} {offset size sparseBytes : Nat}
  {state : C}

/-- For a range that starts in the file, the answer is 1 exactly when the blocks under the range
are holes. -/
theorem WellFormedFile.sqfsDataIsSparse (wellFormed : WellFormedFile ctx file)
    (init : sqfsFileCtxInit ctx.sb inode = .ok file) (inside : offset < file.fileSize)
    (nonempty : 0 < size) (noWrap : offset + size < 2 ^ 64) :
    ∃ answer, SqfsDataIsSparse (some (file, sparseBytes)) offset size (.ok answer) ∧
      (answer = 0 ∨ answer = 1) ∧
      (answer = 1 ↔ sparseBytes ≠ 0 ∧
        HolesUnder file offset (min (offset + size) file.fileSize)) := by
  have bounds := sqfsFileCtxInit_bounds init
  have positive : 0 < file.blockSize := (sqfsFileCtxInit_fields init).1 ▸ ctx.sb.blockSize_pos
  by_cases dense : sparseBytes = 0
  · refine ⟨0, ?_, .inl rfl, iff_of_false (by decide) fun both => both.1 dense⟩
    rw [SqfsDataIsSparse, if_pos dense]
  · have clamped : (if file.fileSize < u64 (offset + size) then file.fileSize
        else u64 (offset + size)) = min (offset + size) file.fileSize := by
      rw [u64_of_lt noWrap]
      split <;> omega
    have inRange {pos : Nat} (inside : pos < file.fileSize) :=
      blockIndex_in_range wellFormed.counted positive bounds.2 inside
    rcases @sparsePass_returns file ((min (offset + size) file.fileSize - 1) / file.blockSize)
      wellFormed.listed bounds.2 (offset / file.blockSize) with
      ⟨answer, returned, boolean, holes⟩
    refine ⟨answer, ?_, boolean, holes.trans ?_⟩
    · have last : sub64 (min (offset + size) file.fileSize) 1 =
          min (offset + size) file.fileSize - 1 := sub64_of_le (by omega) (by omega)
      rw [SqfsDataIsSparse, if_neg dense, clamped]
      dsimp only
      rw [u32_of_lt (inRange inside), last, u32_of_lt (inRange (by omega))]
      exact returned
    · rw [holesUnder_iff positive (by omega)]
      exact (and_iff_right dense).symm

/-- Whatever the cache holds, as long as it agrees with the image, a read of a well-formed file
that unpacks in place delivers its content. -/
theorem WellFormedFile.sqfsDataRead (wellFormed : WellFormedFile ctx file)
    (unpacks : UnpacksInPlace ctx file)
    (init : sqfsFileCtxInit ctx.sb inode = .ok file) (sizeInRange : size < 2 ^ 31)
    (noWrap : offset + size < 2 ^ 64) (serves : cache.Serves Inv offered served)
    (agrees : AgreesOnRead offered served ctx inode offset size) (inv : Inv state) :
    ∃ result, SqfsDataRead cache ctx state inode offset size (some result) ∧
      result.ret = (min size (file.fileSize - offset) : Nat) ∧
      result.out = (((fileContent ctx file).drop offset).take
        (min size (file.fileSize - offset))).map some := by
  have plain := wellFormed.plainRead unpacks init (by omega) noWrap
  rcases plain.read serves agrees inv with ⟨result, read, same⟩
  cases result with
  | none => exact same.elim
  | some result => exact ⟨result, read, same.1, same.2.1.of_known⟩

/-- The answer 1 means that the blocks under the range are holes, and the range then reads as
zeros as far as the blocks of the file go, whatever the cache holds that agrees with the image. -/
theorem sqfsDataIsSparse_reads_zeros (init : sqfsFileCtxInit ctx.sb inode = .ok file)
    (wellFormed : WellFormedFile ctx file) (unpacks : UnpacksInPlace ctx file)
    (inside : offset < file.fileSize) (nonempty : 0 < size) (sizeInRange : size < 2 ^ 31)
    (noWrap : offset + size < 2 ^ 64)
    (serves : cache.Serves Inv offered served)
    (agrees : AgreesOnRead offered served ctx inode offset size) (inv : Inv state) :
    ∃ answer, SqfsDataIsSparse (some (file, sparseBytes)) offset size (.ok answer) ∧
      (answer = 0 ∨ answer = 1) ∧
      (answer = 1 ↔ sparseBytes ≠ 0 ∧
        HolesUnder file offset (min (offset + size) file.fileSize)) ∧
      (answer = 1 → ∃ result, SqfsDataRead cache ctx state inode offset size (some result) ∧
        result.ret = (min size (file.fileSize - offset) : Nat) ∧
        ∀ pos, offset ≤ pos → pos < min (offset + size) file.fileSize →
          pos < file.blockCount * file.blockSize → result.out[pos - offset]? = some (some 0)) := by
  have positive : 0 < file.blockSize := (sqfsFileCtxInit_fields init).1 ▸ ctx.sb.blockSize_pos
  rcases wellFormed.sqfsDataIsSparse init inside nonempty noWrap with
    ⟨answer, answered, boolean, holes⟩
  refine ⟨answer, answered, boolean, holes, fun sparse => ?_⟩
  have under := (holes.mp sparse).2
  rcases wellFormed.sqfsDataRead unpacks init sizeInRange noWrap serves agrees inv with
    ⟨result, read, length, content⟩
  refine ⟨result, read, length, fun pos behind before inBlocks => ?_⟩
  have hole : file.blockSizes[pos / file.blockSize]? = some 0 := by
    apply under
    · exact (Nat.div_lt_iff_lt_mul positive).mpr inBlocks
    · exact Nat.lt_of_le_of_lt behind ((Nat.div_lt_iff_lt_mul positive).mp (Nat.lt_succ_self _))
    · exact Nat.lt_of_le_of_lt (Nat.div_mul_le_self pos file.blockSize) before
  rw [content, List.getElem?_map, List.getElem?_take_of_lt (by omega), List.getElem?_drop,
    Nat.add_sub_cancel' behind, wellFormed.zero_in_hole positive (by omega) hole]
  rfl

end Answers

/-- In a file of a hole and three bytes, the end of the hole is sparse and reads as zeros. -/
theorem sqfsDataIsSparse_reads_zeros_in_hole :
    ∃ answer, SqfsDataIsSparse (some ({
          fileSize := 4099, blocksStart := 0, blockSize := 4096, blockCount := 2, tailSize := 3
          fragIdx := fragmentInvalid, fragOffset := 0, blockSizes := [0, 2 ^ 24 + 3] }, 4096))
        4094 2 (.ok answer) ∧ answer = 1 := by
  rcases @sqfsDataIsSparse_reads_zeros Unit missingCache _ _ _ (.onBytes [7, 8, 9] (by decide))
    (.ofFile 4099 0 fragmentInvalid 0 [0, 2 ^ 24 + 3]) _ 4094 2 4096 () (by decide +kernel)
    wellFormedFile_hole_and_short_block unpacksInPlace_hole_and_short_block (by decide)
    (by decide) (by decide) (by decide)
    missingCache_serves (agreesOnRead_missing _ _ _ _) trivial with ⟨answer, answered, -, sparse, -⟩
  refine ⟨answer, answered, sparse.mpr ⟨by decide, ?_⟩⟩
  intro idx _ _ before
  obtain rfl : idx = 0 := by
    simp only at before
    omega
  rfl

end SquashfsFuse
