import SquashfsFuse.Data.Indeterminate

/-! When a read fills short blocks up with zeros. -/

namespace SquashfsFuse

/-! ## What a call is to deliver -/

/-- The call returns what the request covers of the file, with its blocks filled up with
zeros. -/
def DeliversZeroFilled (cache : BlockCache C) (ctx : SqfsCtx) (state : C) (call : ReadCall)
    (file : SqfsFileCtx) : Prop :=
  Answers cache ctx state call (some {
    ret := (min call.size (file.fileSize - call.offset) : Nat)
    out := (((zeroFilledContent ctx file).drop call.offset).take
      (min call.size (file.fileSize - call.offset))).map some })

/-- The fragment code delivers no more than the rest of the tail, whatever it is asked for: the
fragment block unpacks in place to just the end of the tail, or to less than the read skips, and
the tail ends where the longest fragment block does. -/
def TailEndsBlock (ctx : SqfsCtx) (file : SqfsFileCtx) (offset : Nat) : Prop :=
  sqfsFragmentIsNone file.fragIdx = false ∧ file.fragOffset < file.blockSize ∧
    ∃ block, sqfsFragmentReadBlock ctx file.fragIdx = .ok block ∧
      (block.length = file.fragOffset + file.fileSize % file.blockSize ∨
        block.length < file.fragOffset +
          max offset (file.blockCount * file.blockSize) % file.blockSize ∧
        file.fragOffset + file.fileSize % file.blockSize = file.blockSize)

/-- For every requested position the blocks unpack in place to the byte of the file, filled up
with zeros. -/
def HasZeroFilled (ctx : SqfsCtx) (file : SqfsFileCtx) (offset size : Nat) : Prop :=
  ∀ pos, Requested file offset size pos → ∃ byte,
    InPlaceByte ctx file offset pos byte ∧ (zeroFilledContent ctx file)[pos]? = some byte

/-- Nothing of the file is asked for; or the read has the bytes of the file for the request, they
can be counted by an `int`, and the end of the request does not wrap around or the tail ends its
fragment block. -/
def CanDeliver (ctx : SqfsCtx) (file : SqfsFileCtx) (offset size : Nat) : Prop :=
  file.fileSize ≤ offset ∨
  (min size (file.fileSize - offset) < 2 ^ 31 ∧ HasZeroFilled ctx file offset size ∧
    (offset + size < 2 ^ 64 ∨ TailEndsBlock ctx file offset))

/-! ## The plain reader -/

section Plain

variable {ctx : SqfsCtx} {file : SqfsFileCtx} {offset total size pos : Nat}
  {progress : Progress} {result : PlainResult}

theorem toInt_lt (value : Nat) : toInt value < 2 ^ 31 := by
  rw [toInt, u32]
  split <;> omega

theorem plainPass_ret_lt (left : plainPass ctx file offset progress = .leave (some result)) :
    result.ret < 2 ^ 31 := by
  have finished : ∀ (value : Nat) (bytes : List Cell),
      (progress.finished (toInt value) bytes).ret < 2 ^ 31 := by
    intro value bytes
    rw [Progress.finished]
    dsimp only
    split
    · exact toInt_lt _
    · exact toInt_lt _
  rcases plainPass_leave left with ⟨-, rfl⟩ | ⟨-, tail⟩ | ⟨error, rfl⟩
  · exact toInt_lt _
  · rw [plainTail] at tail
    split at tail
    · cases tail
      exact finished _ _
    · cases tail
      exact finished _ _
    · cases tail
  · exact Int.lt_trans error.code_neg (by decide)

theorem ShortBlockFile.straight (short : ShortBlockFile ctx file)
    (sameSize : file.blockSize = ctx.sb.blockSize) (countInRange : file.blockCount < 2 ^ 32)
    (sizeInRange : file.fileSize < 2 ^ 64) : Straight ctx file offset file.fileSize := by
  apply straight_of_counted short.counted sameSize countInRange sizeInRange
  intro hasTail some
  rcases short.tail hasTail some with ⟨block, content, fits⟩
  have room : block.length ≤ ctx.sb.blockSize :=
    @sqfsFragmentReadBlock_length ctx.apart _ _ content
  omega

theorem atTail_entry (counted : file.blockCount = prescribedBlocks file)
    (countInRange : file.blockCount < 2 ^ 32) (positive : 0 < file.blockSize)
    (hasTail : sqfsFragmentIsNone file.fragIdx = false) (inside : offset < file.fileSize) :
    AtTail file (max offset (file.blockCount * file.blockSize)) ∧
      max offset (file.blockCount * file.blockSize) ≤ file.fileSize := by
  have blocks := blocks_of_some counted hasTail
  have fits : file.blockCount * file.blockSize ≤ file.fileSize := by
    rw [blocks]
    exact Nat.div_mul_le_self _ _
  refine ⟨⟨?_, hasTail⟩, Nat.max_le.mpr ⟨Nat.le_of_lt inside, fits⟩⟩
  have behind : file.blockCount ≤
      max offset (file.blockCount * file.blockSize) / file.blockSize :=
    (Nat.le_div_iff_mul_le positive).mpr (Nat.le_max_right _ _)
  have inFile : max offset (file.blockCount * file.blockSize) / file.blockSize ≤
      file.fileSize / file.blockSize :=
    Nat.div_le_div_right (Nat.max_le.mpr ⟨Nat.le_of_lt inside, fits⟩)
  rw [u32_of_lt (by omega)]
  omega

private theorem le_entry (counted : file.blockCount = prescribedBlocks file)
    (countInRange : file.blockCount < 2 ^ 32) (positive : 0 < file.blockSize)
    (hasTail : sqfsFragmentIsNone file.fragIdx = false) (inside : offset < file.fileSize)
    (first : ∀ earlier, offset ≤ earlier → earlier < pos → ¬ AtTail file earlier) :
    pos ≤ max offset (file.blockCount * file.blockSize) := by
  apply Nat.le_of_not_lt
  intro behind
  exact first _ (Nat.le_max_left _ _) behind
    (atTail_entry counted countInRange positive hasTail inside).1

/-- A read that has the bytes of the file for the request is supplied with them, also where it
asks for more than the file has. -/
theorem HasZeroFilled.supplied (has : HasZeroFilled ctx file offset size)
    (counted : file.blockCount = prescribedBlocks file) (countInRange : file.blockCount < 2 ^ 32)
    (positive : 0 < file.blockSize) (sizeInRange : file.fileSize < 2 ^ 64)
    (inside : offset < file.fileSize)
    (ends : offset + total ≤ min (offset + size) file.fileSize ∨
      file.fileSize ≤ offset + size ∧ TailEndsBlock ctx file offset) :
    Supplied ctx file offset total := by
  intro pos behind before first
  have requested : pos < file.fileSize → Requested file offset size pos := fun inFile =>
    ⟨behind, by omega, inFile⟩
  by_cases inFile : pos < file.fileSize
  · rcases has pos (requested inFile) with ⟨byte, present, -⟩
    refine ⟨by omega, fun atTail crashed => ?_, fun _ => ⟨?_, .inl ⟨byte, present⟩⟩⟩
    · rcases present.of_tail countInRange atTail with ⟨data, content, -⟩ | ⟨-, error, failed⟩
      · rw [crashed] at content
        contradiction
      · rw [crashed] at failed
        contradiction
    · exact blockIndex_in_range counted positive countInRange inFile
  · -- The request goes on behind a file without a tail of its own.
    rcases ends with within | ⟨-, hasTail, -, block, content, -⟩
    · omega
    · have entry := atTail_entry counted countInRange positive hasTail inside
      have notBehind := le_entry counted countInRange positive hasTail inside first
      have same : pos = max offset (file.blockCount * file.blockSize) := by omega
      refine ⟨by omega, fun _ crashed => ?_, fun notTail => absurd entry.1 (same ▸ notTail)⟩
      rw [content] at crashed
      contradiction

private theorem TailEndsBlock.fragment_length (tailEnds : TailEndsBlock ctx file offset)
    (sameSize : file.blockSize = ctx.sb.blockSize)
    (counted : file.blockCount = prescribedBlocks file) (begun : offset < file.fileSize)
    (start : pos = max offset (file.blockCount * file.blockSize)) (inside : pos ≤ file.fileSize)
    (more : file.fileSize - pos ≤ size) :
    ∃ bytes : List UInt8,
      plainFragment ctx file.fragIdx (u32 (file.fragOffset + pos % file.blockSize)) size =
        .ok bytes ∧ bytes.length = file.fileSize - pos := by
  have positive : 0 < file.blockSize := sameSize ▸ ctx.sb.blockSize_pos
  have small : file.blockSize ≤ 2 ^ 20 := sameSize ▸ ctx.sb.blockSize_le
  rcases tailEnds with ⟨hasTail, begins, block, content, ends⟩
  have blockFits := sqfsFragmentReadBlock_length content
  have behind : file.blockCount ≤ pos / file.blockSize :=
    (Nat.le_div_iff_mul_le positive).mpr (start ▸ Nat.le_max_right _ _)
  have left := (tail_of_some counted hasTail inside behind).2
  have inBlock := Nat.mod_lt pos positive
  rw [← start] at ends
  have room : file.fragOffset + pos % file.blockSize < file.blockSize := by
    by_cases atEnd : pos = file.fileSize
    · rw [atEnd] at left ⊢
      have noTail : file.fileSize % file.blockSize = 0 := by
        have blocks : file.fileSize = file.blockCount * file.blockSize := by omega
        rw [blocks, Nat.mul_mod_left]
      omega
    · rcases ends with length | ⟨short, last⟩
      · omega
      · omega
  refine ⟨_, plainFragment_eq_ok.mpr ⟨hasTail, ?_, block, content, rfl⟩, ?_⟩
  · rw [u32_of_lt (by omega)]
    omega
  · rw [u32_of_lt (by omega), copyFromFragment]
    rcases ends with length | ⟨short, last⟩
    · rw [if_neg (by omega), List.length_take, List.length_drop]
      omega
    · rw [if_pos short, List.length_replicate]
      omega

/-- A read that asks for more than the file has, and delivers what the file has, ends in the tail,
and the tail ends its fragment block. -/
theorem TailEndsBlock.of_fragment (sameSize : file.blockSize = ctx.sb.blockSize)
    (counted : file.blockCount = prescribedBlocks file)
    (fits : file.fileSize % file.blockSize ≠ 0 →
      file.fragOffset + file.fileSize % file.blockSize ≤ file.blockSize)
    (fragOffsetInRange : file.fragOffset < 2 ^ 32)
    (start : pos = max offset (file.blockCount * file.blockSize)) (inside : pos ≤ file.fileSize)
    {bytes : List UInt8}
    (read : plainFragment ctx file.fragIdx (u32 (file.fragOffset + pos % file.blockSize)) size =
      .ok bytes) (rest : bytes.length = file.fileSize - pos) (more : bytes.length < size) :
    TailEndsBlock ctx file offset := by
  have positive : 0 < file.blockSize := sameSize ▸ ctx.sb.blockSize_pos
  have small : file.blockSize ≤ 2 ^ 20 := sameSize ▸ ctx.sb.blockSize_le
  rcases plainFragment_eq_ok.mp read with ⟨hasTail, begins, block, content, copied⟩
  have behind : file.blockCount ≤ pos / file.blockSize :=
    (Nat.le_div_iff_mul_le positive).mpr (start ▸ Nat.le_max_right _ _)
  have left := (tail_of_some counted hasTail inside behind).2
  have inBlock := Nat.mod_lt pos positive
  have skipped : u32 (file.fragOffset + pos % file.blockSize) =
      file.fragOffset + pos % file.blockSize := by
    by_cases noTail : file.fileSize % file.blockSize = 0
    · exact u32_of_lt (by omega)
    · have room := fits noTail
      exact u32_of_lt (by omega)
  rw [skipped] at begins copied
  refine ⟨hasTail, by omega, block, content, ?_⟩
  rw [← start]
  rw [← copied, copyFromFragment] at rest more
  by_cases short : block.length < file.fragOffset + pos % file.blockSize
  · rw [if_pos short, List.length_replicate] at rest more
    exact .inr ⟨short, by omega⟩
  · rw [if_neg short, List.length_take, List.length_drop] at rest more
    exact .inl (by omega)

end Plain

/-! ## Whole calls -/

section Calls

variable {cache : BlockCache C} {Inv : C → Prop} {offered served : Nat → BlockEntry → Prop}
  {ctx : SqfsCtx} {file : SqfsFileCtx} {call : ReadCall} {state : C}

private theorem sqfsFileCtxInit_fragOffset_lt {sb : SqfsSuperblock} {inode : SqfsInode}
    (init : sqfsFileCtxInit sb inode = .ok file) : file.fragOffset < 2 ^ 32 := by
  rw [sqfsFileCtxInit] at init
  split at init
  · cases init
  · rw [← Except.ok.inj init]
    have loaded : inode.get .fileBlockOffset < 256 ^ 4 := inode.members.load_lt 28 4
    exact Nat.lt_of_lt_of_eq loaded (by norm_num)

private theorem ShortBlockFile.part_length (short : ShortBlockFile ctx file)
    (positive : 0 < file.blockSize) (offset size : Nat) :
    (((zeroFilledContent ctx file).drop offset).take
      (min size (file.fileSize - offset))).length = min size (file.fileSize - offset) := by
  have whole := short.fileSize_le positive
  rw [List.length_take, List.length_drop]
  omega

theorem Enters.length_le (entered : Enters ctx call.inode call.offset call.size file)
    (supplied : Supplied ctx file call.offset (requestSize file call.offset call.size))
    (counted : file.blockCount = prescribedBlocks file) (sizeFits : call.size < 2 ^ 64)
    (ends : call.offset + call.size < 2 ^ 64 ∨ TailEndsBlock ctx file call.offset)
    {result : PlainResult}
    (returned : Pass.Returns (plainPass ctx file call.offset)
      ⟨0, requestSize file call.offset call.size, []⟩ (some result)) :
    result.out.length ≤ min call.size (file.fileSize - call.offset) := by
  have bounds := sqfsFileCtxInit_bounds entered.init
  have blockSize := (sqfsFileCtxInit_fields entered.init).1
  have positive : 0 < file.blockSize := blockSize ▸ ctx.sb.blockSize_pos
  have inside := entered.insideFile
  rcases supplied.leaves blockSize bounds.2 returned with ⟨last, before, left⟩
  have sum := before.sum
  have length := before.length
  by_cases noWrap : call.offset + call.size < 2 ^ 64
  · have clamped := requestSize_of_lt inside noWrap
    by_cases finished : last.bytesRemaining = 0
    · rw [plainPass, if_pos finished] at left
      cases left
      simp only [Progress.returned]
      omega
    · rcases supplied.pass blockSize bounds.2 before finished with
        ⟨-, same, defined⟩ | ⟨-, error, same⟩ | ⟨cells, same, -⟩
      · rcases @plainTail_isSome ctx file _ last defined with ⟨result, ended⟩
        rcases plainTail_eq_some ended with ⟨bytes, fits, rfl⟩
        rw [same, ended] at left
        cases left
        simp only [Progress.finished, List.length_append]
        omega
      · rw [same] at left
        cases left
        simp only [Progress.returned]
        omega
      · rw [same] at left
        contradiction
  · have tailEnds := ends.resolve_left noWrap
    have clamped := requestSize_of_wraps inside bounds.1 sizeFits (by omega)
    have entry := atTail_entry counted bounds.2 positive tailEnds.1 inside
    have notBehind := le_entry counted bounds.2 positive tailEnds.1 inside before.notTail
    have unfinished : last.bytesRemaining ≠ 0 := by omega
    rcases supplied.pass blockSize bounds.2 before unfinished with
      ⟨atTail, same, -⟩ | ⟨-, error, same⟩ | ⟨cells, same, -⟩
    · have start : call.offset + last.bytesRead =
          max call.offset (file.blockCount * file.blockSize) := by
        apply Nat.le_antisymm notBehind
        have behind : file.blockCount ≤ (call.offset + last.bytesRead) / file.blockSize :=
          atTail.1 ▸ Nat.mod_le _ _
        exact Nat.max_le.mpr ⟨Nat.le_add_right _ _, (Nat.le_div_iff_mul_le positive).mp behind⟩
      rcases tailEnds.fragment_length blockSize counted inside start (by omega)
        (show file.fileSize - (call.offset + last.bytesRead) ≤ last.bytesRemaining by omega) with
        ⟨bytes, read, rest⟩
      rw [same, plainTail, read] at left
      cases left
      simp only [Progress.finished, List.length_append, List.length_map]
      omega
    · rw [same] at left
      cases left
      simp only [Progress.returned]
      omega
    · rw [same] at left
      contradiction

private theorem HasZeroFilled.supplies (has : HasZeroFilled ctx file call.offset call.size)
    (entered : Enters ctx call.inode call.offset call.size file)
    (counted : file.blockCount = prescribedBlocks file)
    (ends : call.offset + call.size < 2 ^ 64 ∨ TailEndsBlock ctx file call.offset) :
    Supplied ctx file call.offset (requestSize file call.offset call.size) := by
  have bounds := sqfsFileCtxInit_bounds entered.init
  have blockSize := (sqfsFileCtxInit_fields entered.init).1
  have positive : 0 < file.blockSize := blockSize ▸ ctx.sb.blockSize_pos
  have inside := entered.insideFile
  apply has.supplied counted bounds.2 positive bounds.1 inside
  by_cases noWrap : call.offset + call.size < 2 ^ 64
  · have clamped := requestSize_of_lt inside noWrap
    exact .inl (by omega)
  · exact .inr ⟨by omega, ends.resolve_left noWrap⟩

private theorem HasZeroFilled.notBehind (has : HasZeroFilled ctx file call.offset call.size)
    (entered : Enters ctx call.inode call.offset call.size file) :
    NotBehind ctx file call.offset := by
  have inside := entered.insideFile
  have nonempty := entered.nonempty
  have limited := requestSize_le file call.offset call.size
  rcases has call.offset ⟨Nat.le_refl _, by omega, inside⟩ with ⟨byte, present, -⟩
  exact present.notBehind (sqfsFileCtxInit_bounds entered.init).2

/-- No block of the request fails, so the read returns the count of bytes it has written. -/
private theorem HasZeroFilled.returns (has : HasZeroFilled ctx file call.offset call.size)
    (entered : Enters ctx call.inode call.offset call.size file)
    (counted : file.blockCount = prescribedBlocks file) (sizeFits : call.size < 2 ^ 64)
    (countFits : min call.size (file.fileSize - call.offset) < 2 ^ 31)
    (ends : call.offset + call.size < 2 ^ 64 ∨ TailEndsBlock ctx file call.offset) :
    ∃ result, Pass.Returns (plainPass ctx file call.offset)
        ⟨0, requestSize file call.offset call.size, []⟩ (some result) ∧
      result.ret = result.out.length ∧
      result.out.length ≤ min call.size (file.fileSize - call.offset) := by
  have bounds := sqfsFileCtxInit_bounds entered.init
  have blockSize := (sqfsFileCtxInit_fields entered.init).1
  have positive : 0 < file.blockSize := blockSize ▸ ctx.sb.blockSize_pos
  have inside := entered.insideFile
  have limited := requestSize_le file call.offset call.size
  have supplied := has.supplies entered counted ends
  rcases supplied.returns blockSize bounds.2 with ⟨result, returned, counts⟩
  have length := entered.length_le supplied counted sizeFits ends returned
  refine ⟨result, returned, ?_, length⟩
  rcases counts with sized | ⟨-, pos, behind, before, fails⟩
  · exact sized (by omega)
  · have inBlocks : pos < file.fileSize := by
      rcases fails with ⟨location, error, located, -⟩
      have inRange := sqfsFileBlockLocation_lt located
      by_cases noWrap : call.offset + call.size < 2 ^ 64
      · have clamped := requestSize_of_lt inside noWrap
        omega
      · have entry := atTail_entry counted bounds.2 positive
          (ends.resolve_left noWrap).1 inside
        have left := (Nat.div_lt_iff_lt_mul positive).mp inRange
        omega
    rcases has pos ⟨behind, by omega, inBlocks⟩ with ⟨byte, present, -⟩
    exact absurd fails (present.not_blockFails bounds.2)

theorem HasZeroFilled.plainRead (has : HasZeroFilled ctx file call.offset call.size)
    (entered : Enters ctx call.inode call.offset call.size file)
    (short : ShortBlockFile ctx file) (sizeFits : call.size < 2 ^ 64)
    (countFits : min call.size (file.fileSize - call.offset) < 2 ^ 31)
    (ends : call.offset + call.size < 2 ^ 64 ∨ TailEndsBlock ctx file call.offset) :
    PlainRead ctx call.inode call.offset call.size (some {
      ret := (min call.size (file.fileSize - call.offset) : Nat)
      out := (((zeroFilledContent ctx file).drop call.offset).take
        (min call.size (file.fileSize - call.offset))).map some }) := by
  have bounds := sqfsFileCtxInit_bounds entered.init
  have blockSize := (sqfsFileCtxInit_fields entered.init).1
  have positive : 0 < file.blockSize := blockSize ▸ ctx.sb.blockSize_pos
  have total := le_requestSize file call.offset call.size
  rcases has.returns entered short.counted sizeFits countFits ends with
    ⟨result, returned, counted, length⟩
  have brings := brings_of_returns (short.straight blockSize bounds.2 bounds.1)
    (has.notBehind entered) (by rw [counted]; exact Int.natCast_nonneg _) returned
  have delivered : ∀ idx, idx < min call.size (file.fileSize - call.offset) →
      ∃ byte, (zeroFilledContent ctx file)[call.offset + idx]? = some byte ∧
        result.out[idx]? = some (some byte) := by
    intro idx inRequest
    rcases has (call.offset + idx) ⟨Nat.le_add_right _ _, by omega, by omega⟩ with
      ⟨byte, present, content⟩
    rcases brings idx (by omega) (by omega) with ⟨other, has', value⟩ | ⟨cut, -⟩
    · have same := present.unique has' bounds.2 positive (Nat.le_add_right _ _)
      exact ⟨byte, content, same ▸ value⟩
    · exact absurd cut (present.not_cutShort bounds.2)
  have out : result.out = (((zeroFilledContent ctx file).drop call.offset).take
      (min call.size (file.fileSize - call.offset))).map some := by
    apply List.ext_getElem?
    intro idx
    by_cases inRequest : idx < min call.size (file.fileSize - call.offset)
    · rcases delivered idx inRequest with ⟨byte, content, value⟩
      rw [value, List.getElem?_map, List.getElem?_take_of_lt inRequest, List.getElem?_drop,
        content, Option.map_some]
    · rw [List.getElem?_eq_none (by omega), List.getElem?_eq_none (by
        rw [List.length_map, List.length_take]
        omega)]
  apply (entered.plainRead_iff _).mpr
  have same : result.out.length = min call.size (file.fileSize - call.offset) := by
    rw [out, List.length_map, short.part_length positive]
  rw [← out, ← same, ← counted]
  exact returned

private theorem ShortBlockFile.tailEndsBlock (short : ShortBlockFile ctx file)
    (entered : Enters ctx call.inode call.offset call.size file)
    (notBehind : NotBehind ctx file call.offset) {total : Nat}
    (more : file.fileSize - call.offset < total) {result : PlainResult}
    (returned : Pass.Returns (plainPass ctx file call.offset) ⟨0, total, []⟩ (some result))
    (nonneg : 0 ≤ result.ret) (length : result.out.length = file.fileSize - call.offset) :
    TailEndsBlock ctx file call.offset := by
  have bounds := sqfsFileCtxInit_bounds entered.init
  have blockSize := (sqfsFileCtxInit_fields entered.init).1
  have positive : 0 < file.blockSize := blockSize ▸ ctx.sb.blockSize_pos
  have inside := entered.insideFile
  have straight := @ShortBlockFile.straight ctx file call.offset short blockSize bounds.2 bounds.1
  rcases returned.leaves with ⟨last, reached, left⟩
  have along := reached.invariant (readsAlong_begun notBehind)
    (fun _ _ before repeated => before.pass straight repeated)
  have sum := along.sum
  have written := along.length
  rcases plainPass_leave left with ⟨finished, rfl⟩ | ⟨atTail, tail⟩ | ⟨error, rfl⟩
  · simp only [Progress.returned] at length
    omega
  · rw [plainTail] at tail
    cases read : plainFragment ctx file.fragIdx (u32 (file.fragOffset +
        u64 (call.offset + last.bytesRead) % file.blockSize)) last.bytesRemaining with
    | fault => simp [read] at tail
    | err error =>
        simp only [read, Option.some.injEq] at tail
        rw [← tail] at length
        simp only [Progress.finished, List.length_append, List.length_replicate] at length
        omega
    | ok bytes =>
        simp only [read, Option.some.injEq] at tail
        rw [← tail] at length
        simp only [Progress.finished, List.length_append, List.length_map] at length
        have inFile : call.offset + last.bytesRead ≤ file.fileSize := by omega
        rw [u64_of_lt (by omega)] at atTail read
        have blocks := blocks_of_some short.counted atTail.2
        have order : (call.offset + last.bytesRead) / file.blockSize ≤
            file.fileSize / file.blockSize := Nat.div_le_div_right inFile
        have idx : (call.offset + last.bytesRead) / file.blockSize = file.blockCount :=
          (u32_of_lt (by omega)).symm.trans atTail.1
        have start := along.entered (by omega) atTail
        rw [entryPosition, idx] at start
        apply TailEndsBlock.of_fragment blockSize short.counted _
          (sqfsFileCtxInit_fragOffset_lt entered.init) start inFile read (by omega) (by omega)
        intro some
        rcases short.tail atTail.2 some with ⟨block, content, fits⟩
        have room : block.length ≤ ctx.sb.blockSize :=
          @sqfsFragmentReadBlock_length ctx.apart _ _ content
        omega
  · exact absurd nonneg (Int.not_le_of_gt error.code_neg)

theorem Enters.canDeliver (entered : Enters ctx call.inode call.offset call.size file)
    (short : ShortBlockFile ctx file) (sizeFits : call.size < 2 ^ 64)
    (serves : cache.Serves Inv offered served)
    (agrees : AgreesOnRead offered served ctx call.inode call.offset call.size)
    (inv : Inv state) (delivers : DeliversZeroFilled cache ctx state call file) :
    min call.size (file.fileSize - call.offset) < 2 ^ 31 ∧
      HasZeroFilled ctx file call.offset call.size ∧
      (call.offset + call.size < 2 ^ 64 ∨ TailEndsBlock ctx file call.offset) := by
  have bounds := sqfsFileCtxInit_bounds entered.init
  have blockSize := (sqfsFileCtxInit_fields entered.init).1
  have positive : 0 < file.blockSize := blockSize ▸ ctx.sb.blockSize_pos
  have inside := entered.insideFile
  have length := short.part_length positive call.offset call.size
  have total := le_requestSize file call.offset call.size
  rcases delivers with ⟨answer, read, same⟩
  rcases Option.map_eq_some_iff.mp same with ⟨result, rfl, answers⟩
  have ret : result.ret = (min call.size (file.fileSize - call.offset) : Nat) :=
    congrArg PlainResult.ret answers
  have out := congrArg PlainResult.out answers
  simp only [ReadResult.answer] at out
  have notBehind : NotBehind ctx file call.offset := by
    apply entered.notBehind serves agrees inv read
    rw [out, List.getElem?_map]
    simp
  rcases read.plain serves agrees inv with ⟨plain, plainRead, related⟩
  cases plain with
  | none => exact related.elim
  | some plain =>
      rcases related with ⟨sameRet, refines, -⟩
      have returned := (entered.plainRead_iff _).mp plainRead
      have nonneg : 0 ≤ plain.ret := by omega
      have sameLength := refines.length_eq
      rw [out, List.length_map, length] at sameLength
      refine ⟨?_, ?_, ?_⟩
      · rcases returned.leaves with ⟨last, -, left⟩
        have bound := plainPass_ret_lt left
        omega
      · intro pos requested
        have start := requested.start
        have finish := requested.finish
        have inFile := requested.inFile
        obtain ⟨idx, rfl⟩ := Nat.exists_eq_add_of_le start
        rcases brings_of_returns (short.straight blockSize bounds.2 bounds.1) notBehind nonneg
          returned idx (by omega) inFile with ⟨byte, has, value⟩ | ⟨-, ended⟩
        · have found := refines.getElem? value
          rw [out, List.getElem?_map, List.getElem?_take_of_lt (by omega), List.getElem?_drop,
            Option.map_eq_some_iff] at found
          rcases found with ⟨other, content, equal⟩
          cases equal
          exact ⟨_, has, content⟩
        · omega
      · by_cases noWrap : call.offset + call.size < 2 ^ 64
        · exact .inl noWrap
        · right
          have wraps := requestSize_of_wraps inside bounds.1 sizeFits (by omega)
          exact short.tailEndsBlock entered notBehind (by omega) returned nonneg (by omega)

/-- Whatever the cache, as long as it agrees with the image, a read delivers the bytes of the
file exactly if it can. -/
theorem deliversZeroFilled_iff_canDeliver (init : sqfsFileCtxInit ctx.sb call.inode = .ok file)
    (short : ShortBlockFile ctx file) (sizeFits : call.size < 2 ^ 64)
    (serves : cache.Serves Inv offered served)
    (agrees : AgreesOnRead offered served ctx call.inode call.offset call.size)
    (inv : Inv state) :
    DeliversZeroFilled cache ctx state call file ↔
      CanDeliver ctx file call.offset call.size := by
  have bounds := sqfsFileCtxInit_bounds init
  rcases readStart_cases ctx call.inode call.offset call.size with
    ⟨error, failed, -⟩ | ⟨other, same, nothing, returns⟩ | ⟨other, entered, -⟩
  · rw [init] at failed
    contradiction
  · rw [init] at same
    cases same
    have empty : file.fileSize ≤ call.offset ∨ call.offset < file.fileSize ∧ call.size = 0 := by
      rw [requestSize] at nothing
      split at nothing <;> omega
    have count : min call.size (file.fileSize - call.offset) = 0 := by omega
    apply iff_of_true
    · refine ⟨some ⟨0, [], state⟩, ?_, ?_⟩
      · rw [SqfsDataRead, returns]
      · rw [count]
        rfl
    · rcases empty with outside | ⟨inside, noSize⟩
      · exact .inl outside
      · right
        refine ⟨by omega, ?_, .inl (by omega)⟩
        intro pos requested
        have start := requested.start
        have finish := requested.finish
        omega
  · have same := entered.init
    rw [init] at same
    cases same
    constructor
    · intro delivers
      exact .inr (entered.canDeliver short sizeFits serves agrees inv delivers)
    · intro canDeliver
      rcases canDeliver with outside | ⟨countFits, has, ends⟩
      · exact absurd outside (Nat.not_le_of_lt entered.insideFile)
      · rcases (has.plainRead entered short sizeFits countFits ends).read serves agrees inv with
          ⟨result, read, same⟩
        cases result with
        | none => exact same.elim
        | some result =>
            rcases same with ⟨ret, refines, -⟩
            refine ⟨some result, read, congrArg some ?_⟩
            rw [ReadResult.answer, ret, refines.of_known]

private theorem ShortBlockFile.hasZeroFilled_iff (short : ShortBlockFile ctx file)
    (init : sqfsFileCtxInit ctx.sb call.inode = .ok file)
    (inPlace : ∀ pos, Requested file call.offset call.size pos → InPlaceAt ctx file pos) :
    HasZeroFilled ctx file call.offset call.size ↔
      ∀ pos, Requested file call.offset call.size pos → ¬ Missing ctx file pos := by
  have bounds := sqfsFileCtxInit_bounds init
  have positive : 0 < file.blockSize :=
    (sqfsFileCtxInit_fields init).1 ▸ ctx.sb.blockSize_pos
  constructor
  · intro has pos requested missing
    rcases has pos requested with ⟨byte, present, -⟩
    exact missing.not_inPlaceByte (inPlace pos requested) bounds.2 present
  · intro present pos requested
    rcases short.byte_at positive requested.inFile with ⟨byte, image, content⟩ | ⟨missing, -⟩
    · refine ⟨byte, image.inPlace (inPlace pos requested) fun _ => ?_, content⟩
      rw [← short.counted, u32_of_lt bounds.2]
    · exact absurd missing (present pos requested)

/-- Whatever the cache, as long as it agrees with the image, a read of a file delivers the
bytes with the short blocks filled up exactly if the blocks of the request unpack in place to
these bytes, the count fits, and the request does not wrap around. Where every block unpacks in
place to what it holds, no byte of the request may be missing in its block. -/
theorem sqfsDataRead_zeroFilled_iff (init : sqfsFileCtxInit ctx.sb call.inode = .ok file)
    (short : ShortBlockFile ctx file) (sizeFits : call.size < 2 ^ 64)
    (serves : cache.Serves Inv offered served)
    (agrees : AgreesOnRead offered served ctx call.inode call.offset call.size)
    (inv : Inv state) :
    (DeliversZeroFilled cache ctx state call file ↔
      CanDeliver ctx file call.offset call.size) ∧
    ((∀ pos, Requested file call.offset call.size pos → InPlaceAt ctx file pos) →
      (DeliversZeroFilled cache ctx state call file ↔
        file.fileSize ≤ call.offset ∨
        (min call.size (file.fileSize - call.offset) < 2 ^ 31 ∧
          (∀ pos, Requested file call.offset call.size pos → ¬ Missing ctx file pos) ∧
          (call.offset + call.size < 2 ^ 64 ∨ TailEndsBlock ctx file call.offset)))) := by
  have exactly := deliversZeroFilled_iff_canDeliver init short sizeFits serves agrees inv
  refine ⟨exactly, fun inPlace => ?_⟩
  rw [exactly, CanDeliver, short.hasZeroFilled_iff init inPlace]

end Calls

/-- Two blocks of 4096 bytes, the first of which unpacks to three bytes. The second is a
hole. -/
def shortFirstFile : SqfsFileCtx where
  fileSize := 8192
  blocksStart := 0
  blockSize := 4096
  blockCount := 2
  tailSize := 0
  fragIdx := fragmentInvalid
  fragOffset := 0
  blockSizes := [2 ^ 24 + 3, 0]

/-- Read the file from a position on. -/
def readShortFirst (offset size : Nat) : ReadCall where
  inode := .ofFile 8192 0 fragmentInvalid 0 [2 ^ 24 + 3, 0]
  offset
  size

theorem shortFirstFile_init (offset size : Nat) :
    sqfsFileCtxInit (SqfsCtx.onBytes [7, 8, 9] (by decide)).sb (readShortFirst offset size).inode =
      .ok shortFirstFile := by
  have opened : sqfsFileCtxInit (SqfsCtx.onBytes [7, 8, 9] (by decide)).sb
      (.ofFile 8192 0 fragmentInvalid 0 [2 ^ 24 + 3, 0]) = .ok shortFirstFile := by decide +kernel
  exact opened

theorem shortFirstFile_content :
    storedContent (.onBytes [7, 8, 9] (by decide)) ⟨0, 2 ^ 24 + 3⟩ shortFirstFile.blockSize =
      .ok [7, 8, 9] := by
  decide +kernel

theorem shortFirstFile_located {idx : Nat} {location : BlockLocation}
    (located : sqfsFileBlockLocation shortFirstFile idx = .ok location)
    (notHole : location.size ≠ 0) : idx = 0 ∧ location = ⟨0, 2 ^ 24 + 3⟩ := by
  rcases idx with _ | _ | idx
  · cases located
    exact ⟨rfl, rfl⟩
  · cases located
    contradiction
  · have inRange := sqfsFileBlockLocation_lt located
    exact absurd inRange (Nat.not_lt_of_le (Nat.le_add_left 2 idx))

private theorem shortFirstFile_inPlace (pos : Nat) :
    InPlaceAt (.onBytes [7, 8, 9] (by decide)) shortFirstFile pos where
  block := by
    intro location located notHole
    obtain rfl := (shortFirstFile_located located notHole).2
    exact (storedContent_apart (by decide)).symm
  tail := fun atTail => absurd atTail.2 (by decide)

private theorem shortFirstFile_short : ShortBlockFile (.onBytes [7, 8, 9] (by decide)) shortFirstFile where
  counted := by decide
  listed := rfl
  stored := by
    intro idx location located notHole
    rcases shortFirstFile_located located notHole with ⟨rfl, rfl⟩
    exact ⟨[7, 8, 9], (storedContent_apart (by decide)).trans shortFirstFile_content, by decide⟩
  tail := fun hasTail => absurd hasTail (by decide)

/-- The bytes that the first block has are delivered. -/
theorem sqfsDataRead_zeroFilled_before_end :
    DeliversZeroFilled missingCache (.onBytes [7, 8, 9] (by decide)) () (readShortFirst 1 2)
      shortFirstFile := by
  have present : ∀ pos, Requested shortFirstFile 1 2 pos →
      ¬ Missing (.onBytes [7, 8, 9] (by decide)) shortFirstFile pos := by
    rintro pos requested ⟨location, data, located, notHole, content, behind⟩
    have inside : pos < 3 := requested.finish
    rcases shortFirstFile_located located notHole with ⟨-, rfl⟩
    rw [storedContent_apart (by decide), shortFirstFile_content] at content
    cases content
    rw [Nat.mod_eq_of_lt (Nat.lt_trans inside (by decide))] at behind
    exact Nat.not_lt_of_le behind inside
  exact ((sqfsDataRead_zeroFilled_iff (shortFirstFile_init 1 2) shortFirstFile_short (by decide)
    missingCache_serves (agreesOnRead_missing _ _ _ _) trivial).2 fun pos _ =>
      shortFirstFile_inPlace pos).mpr (.inr ⟨by decide, present, .inl (by decide)⟩)

private theorem shortFirstFile_stalls {state : ReadState DataCache} (beginning : state.bytesRead = 0)
    (unfinished : state.bytesRemaining ≠ 0) (uncovered : state.cache.Uncovered 0 3) :
    Stalls (.onBytes [7, 8, 9] (by decide)) shortFirstFile 3 state := by
  have idx : blockIdxAt shortFirstFile 3 state = 0 := by
    rw [blockIdxAt, beginning]
    decide
  have blockOffset : blockOffsetAt shortFirstFile 3 state = 3 := by
    rw [blockOffsetAt, beginning]
    decide
  have stored : AtStored shortFirstFile 3 state ⟨0, 2 ^ 24 + 3⟩ := by
    refine ⟨unfinished, ?_, ?_, by decide⟩
    · rw [idx]
      decide
    · rw [idx]
      decide +kernel
  refine ⟨_, [7, 8, 9], stored, shortFirstFile_content, blockOffset.symm, ?_⟩
  rw [blockOffset]
  exact uncovered

/-- Where the bytes of the first block end, a read never returns. Further on in the block,
it delivers a byte that nothing was written to. -/
theorem sqfsDataRead_short_block :
    ∃ cache, sqfsCacheInit 64 (2 ^ 20) true = some cache ∧
      ShortBlockFile (.onBytes [7, 8, 9] (by decide)) shortFirstFile ∧
      (∀ answer, ¬ Answers dataCache (.onBytes [7, 8, 9] (by decide)) (.fresh cache)
        (readShortFirst 3 1) answer) ∧
      Answers dataCache (.onBytes [7, 8, 9] (by decide)) (.fresh cache) (readShortFirst 10 1)
        (some ⟨1, [none]⟩) ∧
      ¬ DeliversZeroFilled dataCache (.onBytes [7, 8, 9] (by decide)) (.fresh cache)
        (readShortFirst 3 1) shortFirstFile := by
  have evaluated : (do
      let cache ← sqfsCacheInit 64 (2 ^ 20) true
      let result ← (readShortFirst 10 1).run dataCache (.onBytes [7, 8, 9] (by decide)) 3
        (.fresh cache)
      return result.answer) = some (⟨1, [none]⟩ : PlainResult) := by
    decide +kernel
  rcases Option.bind_eq_some_iff.mp evaluated with ⟨cache, init, evaluated⟩
  rcases Option.bind_eq_some_iff.mp evaluated with ⟨result, run, answer⟩
  have never : ∀ answer, ¬ Answers dataCache (.onBytes [7, 8, 9] (by decide)) (.fresh cache)
      (readShortFirst 3 1) answer := by
    rintro answer ⟨other, read, -⟩
    have entered : Enters (.onBytes [7, 8, 9] (by decide)) (readShortFirst 3 1).inode
        (readShortFirst 3 1).offset (readShortFirst 3 1).size shortFirstFile :=
      ⟨shortFirstFile_init 3 1, by decide, by decide⟩
    rw [SqfsDataRead, entered.loops] at read
    have wanted : requestSize shortFirstFile 3 1 ≠ 0 := by decide
    have stalls := @shortFirstFile_stalls (ReadState.mk 0 (requestSize shortFirstFile 3 1) []
      (List.replicate shortFirstFile.blockSize none) (.fresh cache)) rfl wanted
      (DataCache.keeps_fresh init _)
    exact stalls.not_terminates List.length_replicate (by decide) ⟨_, read⟩
  exact ⟨cache, init, shortFirstFile_short, never,
    ⟨_, ReadCall.read_of_run run, congrArg some (Option.some.inj answer)⟩, never _⟩

end SquashfsFuse
