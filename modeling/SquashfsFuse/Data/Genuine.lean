import SquashfsFuse.Data.Indeterminate

/-! When a read delivers nothing but what the image determines. -/

namespace SquashfsFuse

/-! ## The bytes of a file -/

def Determined (ctx : SqfsCtx) (file : SqfsFileCtx) (offset size : Nat) : Prop :=
  ∀ pos, Requested file offset size pos → ∃ byte, ImageByte ctx file pos byte

/-- An answer that is no error comes without a failure, and delivers bytes of
the image. -/
def Genuine (ctx : SqfsCtx) (file : SqfsFileCtx) (offset size : Nat)
    (answer : PlainResult) : Prop :=
  0 ≤ answer.ret → Determined ctx file offset size ∧
    ∀ idx, idx < answer.ret.toNat →
      ∃ byte, ImageByte ctx file (offset + idx) byte ∧ answer.out[idx]? = some (some byte)

/-- The image determines every requested byte, and the blocks unpack in place to it, unless the
fragment block ends before it when it is unpacked in place. -/
def Backed (ctx : SqfsCtx) (file : SqfsFileCtx) (offset size : Nat) : Prop :=
  ∀ pos, Requested file offset size pos → ∃ byte, ImageByte ctx file pos byte ∧
    (InPlaceByte ctx file offset pos byte ∨ CutShort ctx file offset pos)

/-! ## Blocks that stop a read -/

/-- The block at the position carries a read behind itself or to its end: it is
a hole, it unpacks to enough bytes, or it unpacks to fewer bytes than the read
skips. -/
def Carries (ctx : SqfsCtx) (file : SqfsFileCtx) (finish pos : Nat) : Prop :=
  ∃ location, sqfsFileBlockLocation file (u32 (pos / file.blockSize)) = .ok location ∧
    (location.size = 0 ∨ ∃ data, storedContent ctx location file.blockSize = .ok data ∧
      (data.length < pos % file.blockSize ∨
        min (finish - pos / file.blockSize * file.blockSize) file.blockSize ≤ data.length))

def StopsAt (ctx : SqfsCtx) (file : SqfsFileCtx) (pos : Nat) : Prop :=
  (∃ error, sqfsFileBlockLocation file (u32 (pos / file.blockSize)) = .err error) ∨
  ∃ location error, sqfsFileBlockLocation file (u32 (pos / file.blockSize)) = .ok location ∧
    location.size ≠ 0 ∧ storedContent ctx location file.blockSize = .err error

/-- A read up to `finish` that has come to the position is stopped there, or is carried to a
position where it is stopped. -/
inductive Refuses (ctx : SqfsCtx) (file : SqfsFileCtx) (finish : Nat) : Nat → Prop
  | block {pos} : pos < finish → ¬ AtTail file pos → StopsAt ctx file pos →
      Refuses ctx file finish pos
  | behind {pos} : ¬ AtTail file pos → Carries ctx file finish pos →
      Refuses ctx file finish ((pos / file.blockSize + 1) * file.blockSize) →
      Refuses ctx file finish pos

/-! ## What the plain reader delivers -/

section Delivery

variable {ctx : SqfsCtx} {file : SqfsFileCtx} {offset total pos : Nat}
  {progress next : Progress} {byte : UInt8}

structure InRange (ctx : SqfsCtx) (file : SqfsFileCtx) (offset total : Nat) : Prop where
  blockSize : file.blockSize = ctx.sb.blockSize
  countInRange : file.blockCount < 2 ^ 32
  counted : sqfsFragmentIsNone file.fragIdx = false →
    file.blockCount = u32 (prescribedBlocks file)
  sizeInRange : file.fileSize < 2 ^ 64
  totalInRange : total < 2 ^ 31
  inFile : offset + total ≤ file.fileSize

theorem InRange.positive (range : InRange ctx file offset total) : 0 < file.blockSize :=
  range.blockSize ▸ ctx.sb.blockSize_pos

theorem InRange.small (range : InRange ctx file offset total) : file.blockSize ≤ 2 ^ 20 :=
  range.blockSize ▸ ctx.sb.blockSize_le

theorem Carries.pass (range : InRange ctx file offset total)
    (carries : Carries ctx file (offset + total) (offset + progress.bytesRead))
    (notTail : ¬ AtTail file (offset + progress.bytesRead))
    (sum : progress.bytesRead + progress.bytesRemaining = total)
    (unfinished : progress.bytesRemaining ≠ 0) :
    ∃ next, plainPass ctx file offset progress = .again next ∧
      next.bytesRead + next.bytesRemaining = total ∧
      next.bytesRemaining < progress.bytesRemaining ∧
      offset + next.bytesRead = min (offset + total)
        (((offset + progress.bytesRead) / file.blockSize + 1) * file.blockSize) := by
  have positive := range.positive
  have small := range.small
  have inFile := range.inFile
  have sizeInRange := range.sizeInRange
  have inBlock := Nat.mod_lt (offset + progress.bytesRead) positive
  have position := Nat.div_add_mod (offset + progress.bytesRead) file.blockSize
  rw [Nat.mul_comm] at position
  rcases carries with ⟨location, located, content⟩
  rw [plainPass_at unfinished (by omega) rfl, if_neg notTail, located, Nat.succ_mul]
  by_cases hole : location.size = 0
  · simp only [if_pos hole]
    refine ⟨_, rfl, ?_⟩
    simp only [Progress.copied, List.length_replicate]
    omega
  · rcases content with isHole | ⟨data, content, enough⟩
    · contradiction
    · have fits := storedContent_length content
      have count : (blockCells data ((offset + progress.bytesRead) % file.blockSize)
          (copyLength file ((offset + progress.bytesRead) % file.blockSize)
            progress.bytesRemaining data.length)).length =
          min (file.blockSize - (offset + progress.bytesRead) % file.blockSize)
            progress.bytesRemaining := by
        rcases enough with behind | covers
        · rw [blockCells_copyLength small fits, copyLength_behind small behind inBlock]
        · have within : (offset + progress.bytesRead) % file.blockSize ≤ data.length := by omega
          rw [blockCells_copyLength small fits, copyLength_inside small fits within]
          omega
      simp only [if_neg hole, plainStored, content]
      refine ⟨_, rfl, ?_⟩
      simp only [Progress.copied, count]
      omega

theorem Refuses.lt {finish : Nat} (refuses : Refuses ctx file finish pos)
    (positive : 0 < file.blockSize) : pos < finish := by
  induction refuses with
  | block inside => exact inside
  | @behind start _ _ _ inside =>
      have position := Nat.lt_mul_div_succ start positive
      rw [Nat.mul_comm] at position
      omega

theorem Refuses.returns (range : InRange ctx file offset total)
    (refuses : Refuses ctx file (offset + total) pos)
    (position : offset + progress.bytesRead = pos)
    (sum : progress.bytesRead + progress.bytesRemaining = total) :
    ∃ result : PlainResult, result.ret < 0 ∧
      Pass.Returns (plainPass ctx file offset) progress (some result) := by
  have inFile := range.inFile
  have sizeInRange := range.sizeInRange
  have started := refuses.lt range.positive
  have unfinished : progress.bytesRemaining ≠ 0 := by omega
  induction refuses generalizing progress with
  | block _ notTail stops =>
      have pass := @plainPass_at ctx file offset _ progress unfinished (by omega) position
      rw [if_neg notTail] at pass
      rcases stops with ⟨error, located⟩ | ⟨location, error, located, notHole, failed⟩
      · simp only [located] at pass
        exact ⟨_, error.code_neg, .of_leave pass⟩
      · simp only [located, if_neg notHole, plainStored, failed] at pass
        exact ⟨_, error.code_neg, .of_leave pass⟩
  | behind notTail carries later induction =>
      subst position
      rcases carries.pass range notTail sum unfinished with
        ⟨next, again, nextSum, -, nextPosition⟩
      have nextStarted := later.lt range.positive
      rcases induction (by omega) nextSum nextStarted (by omega) with ⟨result, negative, returned⟩
      exact ⟨result, negative, .of_again again returned⟩

private theorem Carries.refuses (range : InRange ctx file offset total)
    (carries : Carries ctx file (offset + total) (offset + progress.bytesRead))
    (notTail : ¬ AtTail file (offset + progress.bytesRead))
    (sum : progress.bytesRead + progress.bytesRemaining = total)
    (unfinished : progress.bytesRemaining ≠ 0) {result : PlainResult}
    (returned : Pass.Returns (plainPass ctx file offset) progress (some result))
    (later : ∀ next : Progress, next.bytesRemaining < progress.bytesRemaining →
      next.bytesRead + next.bytesRemaining = total →
      Pass.Returns (plainPass ctx file offset) next (some result) →
      Refuses ctx file (offset + total) (offset + next.bytesRead)) :
    Refuses ctx file (offset + total) (offset + progress.bytesRead) := by
  rcases carries.pass range notTail sum unfinished with
    ⟨next, again, nextSum, progresses, nextPosition⟩
  rcases returned.cases with leaves | ⟨other, same, rest⟩
  · rw [again] at leaves
    contradiction
  · rw [again] at same
    cases same
    have refuses := later next progresses nextSum rest
    have inside := refuses.lt range.positive
    rw [nextPosition, Nat.min_eq_right (by omega)] at refuses
    exact .behind notTail carries refuses

theorem ImageByte.of_tail (image : ImageByte ctx file pos byte)
    (countInRange : file.blockCount < 2 ^ 32) (atTail : AtTail file pos) :
    pos / file.blockSize = prescribedBlocks file ∧
      ∃ data, sqfsFragmentReadBlock ctx.apart file.fragIdx = .ok data ∧
        data[file.fragOffset + pos % file.blockSize]? = some byte := by
  cases image with
  | hole located _ => exact absurd atTail (not_atTail_of_located countInRange located)
  | stored located _ _ _ => exact absurd atTail (not_atTail_of_located countInRange located)
  | tail _ last content value => exact ⟨last, _, content, value⟩

theorem Determined.straight {size : Nat} (determined : Determined ctx file offset size)
    (range : InRange ctx file offset total) (fits : total ≤ size) :
    Straight ctx file offset (offset + total) where
  blockSize := range.blockSize
  countInRange := range.countInRange
  finishInRange := by
    have inFile := range.inFile
    have sizeInRange := range.sizeInRange
    omega
  block := by
    intro pos behind before notTail
    have inFile := range.inFile
    rcases determined pos ⟨behind, by omega, by omega⟩ with ⟨byte, image⟩
    cases image with
    | hole located _ => exact Nat.lt_trans (sqfsFileBlockLocation_lt located) range.countInRange
    | stored located _ _ _ =>
        exact Nat.lt_trans (sqfsFileBlockLocation_lt located) range.countInRange
    | tail hasTail last _ _ => exact absurd ⟨by rw [last, range.counted hasTail], hasTail⟩ notTail
  tail := by
    intro pos behind before atTail
    have inFile := range.inFile
    rcases determined pos ⟨behind, by omega, by omega⟩ with ⟨byte, image⟩
    rcases image.of_tail range.countInRange atTail with ⟨-, data, content, value⟩
    have inside := (List.getElem?_eq_some_iff.mp value).1
    have room : data.length ≤ ctx.sb.blockSize :=
      @sqfsFragmentReadBlock_length ctx.apart _ _ content
    rw [range.blockSize] at inside ⊢
    omega
  tailBlock := by
    intro pos later behind order before atTail
    have inFile := range.inFile
    rcases determined pos ⟨behind, by omega, by omega⟩ with ⟨byte, image⟩
    rcases determined later ⟨by omega, by omega, by omega⟩ with ⟨other, laterImage⟩
    have last := (image.of_tail range.countInRange atTail).1
    have behindBlocks : file.blockCount ≤ later / file.blockSize :=
      Nat.le_trans (atTail.1 ▸ Nat.mod_le _ _) (Nat.div_le_div_right order)
    cases laterImage with
    | hole located _ =>
        exact absurd (sqfsFileBlockLocation_lt located) (Nat.not_lt_of_le behindBlocks)
    | stored located _ _ _ =>
        exact absurd (sqfsFileBlockLocation_lt located) (Nat.not_lt_of_le behindBlocks)
    | tail hasTail laterLast _ _ =>
        exact ⟨⟨by rw [laterLast, range.counted hasTail], hasTail⟩, laterLast.trans last.symm⟩

theorem Backed.determined {size : Nat} (backed : Backed ctx file offset size) :
    Determined ctx file offset size := by
  intro pos requested
  rcases backed pos requested with ⟨byte, image, -⟩
  exact ⟨byte, image⟩

theorem Backed.supplied {size : Nat} (backed : Backed ctx file offset size)
    (range : InRange ctx file offset total) (fits : total ≤ size) :
    Supplied ctx file offset total := by
  intro pos behind before _
  have inFile := range.inFile
  have sizeInRange := range.sizeInRange
  rcases backed pos ⟨behind, by omega, by omega⟩ with ⟨byte, image, supply⟩
  refine ⟨by omega, fun _ crashed => ?_, fun notTail => ⟨?_, ?_⟩⟩
  · rcases supply with has | ⟨-, data, content, -⟩
    · rcases has.of_tail range.countInRange (by assumption) with
        ⟨data, content, -⟩ | ⟨-, error, failed⟩
      · rw [crashed] at content
        contradiction
      · rw [crashed] at failed
        contradiction
    · rw [crashed] at content
      contradiction
  · exact (backed.determined.straight range fits).block pos behind before notTail
  · rcases supply with has | ⟨atTail, -⟩
    · exact .inl ⟨byte, has⟩
    · contradiction

theorem Backed.returns {size : Nat} (backed : Backed ctx file offset size)
    (range : InRange ctx file offset total) (nonempty : 0 < total) (fits : total ≤ size) :
    ∃ result, Pass.Returns (plainPass ctx file offset) ⟨0, total, []⟩ (some result) ∧
      (0 ≤ result.ret → ∀ idx, idx < result.ret.toNat → ∃ byte,
        ImageByte ctx file (offset + idx) byte ∧ result.out[idx]? = some (some byte)) := by
  have inFile := range.inFile
  have supplied := backed.supplied range fits
  rcases supplied.returns range.blockSize range.countInRange with ⟨result, returned, -⟩
  refine ⟨result, returned, fun nonneg idx counted => ?_⟩
  have ret := ret_eq_length range.small range.totalInRange nonneg returned
  have notBehind : NotBehind ctx file offset := by
    rcases backed offset ⟨Nat.le_refl _, by omega, by omega⟩ with ⟨byte, -, has | ⟨atTail, -⟩⟩
    · exact has.notBehind range.countInRange
    · exact notBehind_of_atTail atTail range.countInRange
  have within : idx < total := by
    have length := plainRead_length_le range.small returned
    omega
  rcases backed (offset + idx) ⟨Nat.le_add_right _ _, by omega, by omega⟩ with
    ⟨byte, image, supply⟩
  rcases brings_of_returns (backed.determined.straight range fits) notBehind nonneg returned idx
    within (by omega) with ⟨other, has, value⟩ | ⟨-, ended⟩
  · rcases supply with same | cut
    · have equal := same.unique has range.countInRange range.positive (Nat.le_add_right _ _)
      exact ⟨byte, image, equal ▸ value⟩
    · exact absurd cut (has.not_cutShort range.countInRange)
  · omega

end Delivery

private theorem blockCount_of_some {sb : SqfsSuperblock} {inode : SqfsInode} {file : SqfsFileCtx}
    (init : sqfsFileCtxInit sb inode = .ok file)
    (some : sqfsFragmentIsNone file.fragIdx = false) :
    file.blockCount = u32 (prescribedBlocks file) := by
  rcases sqfsFileCtxInit_fields init with ⟨-, -, -, -, blockCount⟩
  rw [blockCount, prescribedBlocks, if_neg (by simp [some]), calculateBlockLayout]
  split
  · next empty => rw [empty, Nat.zero_div]; rfl
  · simp only [some, Bool.false_eq_true, and_false, if_false]

section Calls

variable {cache : BlockCache C} {Inv : C → Prop} {offered served : Nat → BlockEntry → Prop}
  {ctx : SqfsCtx} {file : SqfsFileCtx} {call : ReadCall} {state : C}

theorem Enters.inRange (entered : Enters ctx call.inode call.offset call.size file)
    (countFits : min call.size (file.fileSize - call.offset) < 2 ^ 31)
    (noWrap : call.offset + call.size < 2 ^ 64) :
    InRange ctx file call.offset (requestSize file call.offset call.size) := by
  have inside := entered.insideFile
  have clamped := requestSize_of_lt inside noWrap
  have bounds := sqfsFileCtxInit_bounds entered.init
  exact {
    blockSize := (sqfsFileCtxInit_fields entered.init).1
    countInRange := bounds.2
    counted := blockCount_of_some entered.init
    sizeInRange := bounds.1
    totalInRange := by omega
    inFile := by omega }

theorem Enters.backed (entered : Enters ctx call.inode call.offset call.size file)
    (noWrap : call.offset + call.size < 2 ^ 64)
    (range : InRange ctx file call.offset (requestSize file call.offset call.size))
    (serves : cache.Serves Inv offered served)
    (agrees : AgreesOnRead offered served ctx call.inode call.offset call.size) (inv : Inv state)
    {result : ReadResult C}
    (read : SqfsDataRead cache ctx state call.inode call.offset call.size (some result))
    (genuine : Genuine ctx file call.offset call.size result.answer) (nonneg : 0 ≤ result.ret)
    {plain : PlainResult} (sameRet : result.ret = plain.ret)
    (refines : Refines plain.out result.out)
    (returned : Pass.Returns (plainPass ctx file call.offset)
      ⟨0, requestSize file call.offset call.size, []⟩ (some plain)) :
    Backed ctx file call.offset call.size := by
  have inside := entered.insideFile
  have clamped := requestSize_of_lt inside noWrap
  have ret := ret_eq_length range.small range.totalInRange (sameRet ▸ nonneg) returned
  have length := refines.length_eq
  rcases genuine nonneg with ⟨determined, delivered⟩
  simp only [ReadResult.answer] at delivered
  have notBehind : NotBehind ctx file call.offset := by
    apply entered.notBehind serves agrees inv read
    intro indeterminate
    have some := (List.getElem?_eq_some_iff.mp indeterminate).1
    rcases delivered 0 (by omega) with ⟨byte, -, value⟩
    rw [indeterminate] at value
    cases value
  have brings := brings_of_returns (determined.straight range (by omega)) notBehind
    (sameRet ▸ nonneg) returned
  intro pos requested
  have start := requested.start
  have finish := requested.finish
  have inFile := requested.inFile
  obtain ⟨idx, rfl⟩ := Nat.exists_eq_add_of_le start
  rcases brings idx (by omega) (by omega) with ⟨byte, has, value⟩ | cut
  · have written := (List.getElem?_eq_some_iff.mp value).1
    rcases delivered idx (by omega) with ⟨other, image, same⟩
    rw [refines.getElem? value] at same
    cases same
    exact ⟨byte, image, .inl has⟩
  · rcases determined _ requested with ⟨byte, image⟩
    exact ⟨byte, image, .inr cut.1⟩

end Calls

end SquashfsFuse
