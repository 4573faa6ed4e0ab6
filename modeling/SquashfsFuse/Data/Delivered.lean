import SquashfsFuse.Data.Reading

/-! What the main loop delivers at a position of the file. -/

namespace SquashfsFuse

/-! ## The byte the loop has for a position -/

def AtTail (file : SqfsFileCtx) (pos : Nat) : Prop :=
  u32 (pos / file.blockSize) = file.blockCount ∧ sqfsFragmentIsNone file.fragIdx = false

instance (file : SqfsFileCtx) (pos : Nat) : Decidable (AtTail file pos) :=
  inferInstanceAs (Decidable (_ ∧ _))

def entryPosition (file : SqfsFileCtx) (offset pos : Nat) : Nat :=
  max offset (pos / file.blockSize * file.blockSize)

/-- The byte that a read from the offset has for the position, when the blocks are unpacked the
way the code unpacks them. Where the fragment code fails or comes in behind the end of its block,
it has a zero. -/
inductive InPlaceByte (ctx : SqfsCtx) (file : SqfsFileCtx) (offset pos : Nat) : UInt8 → Prop
  | hole {location} :
      sqfsFileBlockLocation file (pos / file.blockSize) = .ok location →
      location.size = 0 → InPlaceByte ctx file offset pos 0
  | stored {location data byte} :
      sqfsFileBlockLocation file (pos / file.blockSize) = .ok location →
      location.size ≠ 0 → storedContent ctx location file.blockSize = .ok data →
      data[pos % file.blockSize]? = some byte → InPlaceByte ctx file offset pos byte
  | tail {data byte} :
      AtTail file pos → sqfsFragmentReadBlock ctx file.fragIdx = .ok data →
      data[file.fragOffset + pos % file.blockSize]? = some byte →
      InPlaceByte ctx file offset pos byte
  | beyond {data} :
      AtTail file pos → sqfsFragmentReadBlock ctx file.fragIdx = .ok data →
      data.length < file.fragOffset + entryPosition file offset pos % file.blockSize →
      InPlaceByte ctx file offset pos 0
  | refused {error} :
      AtTail file pos → sqfsFragmentReadBlock ctx file.fragIdx = .err error →
      InPlaceByte ctx file offset pos 0

/-- The fragment block ends in front of the position, but not in front of where the read comes
in: the read ends there too. -/
def CutShort (ctx : SqfsCtx) (file : SqfsFileCtx) (offset pos : Nat) : Prop :=
  AtTail file pos ∧ ∃ data, sqfsFragmentReadBlock ctx file.fragIdx = .ok data ∧
    file.fragOffset + entryPosition file offset pos % file.blockSize ≤ data.length ∧
    data.length ≤ file.fragOffset + pos % file.blockSize

def BlockFails (ctx : SqfsCtx) (file : SqfsFileCtx) (pos : Nat) : Prop :=
  ∃ location error, sqfsFileBlockLocation file (pos / file.blockSize) = .ok location ∧
    location.size ≠ 0 ∧ storedContent ctx location file.blockSize = .err error

def NotBehind (ctx : SqfsCtx) (file : SqfsFileCtx) (pos : Nat) : Prop :=
  ∀ location data, sqfsFileBlockLocation file (pos / file.blockSize) = .ok location →
    location.size ≠ 0 → storedContent ctx location file.blockSize = .ok data →
    pos % file.blockSize ≤ data.length

/-- The code unpacks the block or the fragment block with the position to what it holds. -/
structure InPlaceAt (ctx : SqfsCtx) (file : SqfsFileCtx) (pos : Nat) : Prop where
  block : ∀ location, sqfsFileBlockLocation file (pos / file.blockSize) = .ok location →
    location.size ≠ 0 →
    storedContent ctx location file.blockSize = storedContent ctx.apart location file.blockSize
  tail : AtTail file pos →
    sqfsFragmentReadBlock ctx file.fragIdx = sqfsFragmentReadBlock ctx.apart file.fragIdx

section Bytes

variable {ctx : SqfsCtx} {file : SqfsFileCtx} {offset pos : Nat} {byte other : UInt8}

private theorem entryPosition_mod_le (positive : 0 < file.blockSize) (start : offset ≤ pos) :
    entryPosition file offset pos % file.blockSize ≤ pos % file.blockSize := by
  have position := Nat.div_add_mod pos file.blockSize
  rw [Nat.mul_comm] at position
  rw [entryPosition]
  by_cases later : offset ≤ pos / file.blockSize * file.blockSize
  · rw [Nat.max_eq_right later, Nat.mul_mod_left]
    exact Nat.zero_le _
  · obtain ⟨rest, rfl⟩ := Nat.exists_eq_add_of_le (Nat.le_of_not_le later)
    have inBlock := Nat.mod_lt pos positive
    rw [Nat.max_eq_left (Nat.le_of_not_le later), Nat.add_comm, Nat.add_mul_mod_self_right,
      Nat.mod_eq_of_lt (by omega)]
    omega

theorem not_atTail_of_located (countInRange : file.blockCount < 2 ^ 32) {location : BlockLocation}
    (located : sqfsFileBlockLocation file (pos / file.blockSize) = .ok location) :
    ¬ AtTail file pos := by
  intro atTail
  have inRange := sqfsFileBlockLocation_lt located
  have same := atTail.1
  rw [u32_of_lt (Nat.lt_trans inRange countInRange)] at same
  exact Nat.ne_of_lt inRange same

theorem InPlaceByte.of_block (has : InPlaceByte ctx file offset pos byte)
    (notTail : ¬ AtTail file pos) :
    ∃ location, sqfsFileBlockLocation file (pos / file.blockSize) = .ok location ∧
      ((location.size = 0 ∧ byte = 0) ∨ (location.size ≠ 0 ∧ ∃ data,
        storedContent ctx location file.blockSize = .ok data ∧
        data[pos % file.blockSize]? = some byte)) := by
  cases has with
  | hole located hole => exact ⟨_, located, .inl ⟨hole, rfl⟩⟩
  | stored located notHole content value => exact ⟨_, located, .inr ⟨notHole, _, content, value⟩⟩
  | tail atTail _ _ => contradiction
  | beyond atTail _ _ => contradiction
  | refused atTail _ => contradiction

theorem InPlaceByte.of_tail (has : InPlaceByte ctx file offset pos byte)
    (countInRange : file.blockCount < 2 ^ 32) (atTail : AtTail file pos) :
    (∃ data, sqfsFragmentReadBlock ctx file.fragIdx = .ok data ∧
        (data[file.fragOffset + pos % file.blockSize]? = some byte ∨ byte = 0 ∧
          data.length < file.fragOffset + entryPosition file offset pos % file.blockSize)) ∨
      (byte = 0 ∧ ∃ error, sqfsFragmentReadBlock ctx file.fragIdx = .err error) := by
  cases has with
  | hole located _ => exact absurd atTail (not_atTail_of_located countInRange located)
  | stored located _ _ _ => exact absurd atTail (not_atTail_of_located countInRange located)
  | tail _ content value => exact .inl ⟨_, content, .inl value⟩
  | beyond _ content short => exact .inl ⟨_, content, .inr ⟨rfl, short⟩⟩
  | refused _ failed => exact .inr ⟨rfl, _, failed⟩

theorem InPlaceByte.unique (has : InPlaceByte ctx file offset pos byte)
    (alternative : InPlaceByte ctx file offset pos other)
    (countInRange : file.blockCount < 2 ^ 32) (positive : 0 < file.blockSize)
    (start : offset ≤ pos) : byte = other := by
  have order := entryPosition_mod_le positive start
  by_cases atTail : AtTail file pos
  · rcases has.of_tail countInRange atTail with ⟨data, content, has⟩ | ⟨rfl, error, failed⟩
    · rcases alternative.of_tail countInRange atTail with
        ⟨data', content', alternative⟩ | ⟨-, error, failed⟩
      · rw [content] at content'
        cases content'
        rcases has with value | ⟨rfl, short⟩
        · rcases alternative with value' | ⟨-, short⟩
          · exact Option.some.inj (value.symm.trans value')
          · have inside := (List.getElem?_eq_some_iff.mp value).1
            omega
        · rcases alternative with value' | ⟨rfl, -⟩
          · have inside := (List.getElem?_eq_some_iff.mp value').1
            omega
          · rfl
      · rw [content] at failed
        contradiction
    · rcases alternative.of_tail countInRange atTail with
        ⟨data', content', -⟩ | ⟨rfl, -⟩
      · rw [content'] at failed
        contradiction
      · rfl
  · rcases has.of_block atTail with ⟨location, located, has⟩
    rcases alternative.of_block atTail with ⟨location', located', alternative⟩
    rw [located] at located'
    cases located'
    rcases has with ⟨hole, rfl⟩ | ⟨notHole, data, content, value⟩
    · rcases alternative with ⟨-, rfl⟩ | ⟨notHole, -⟩
      · rfl
      · contradiction
    · rcases alternative with ⟨hole, -⟩ | ⟨-, data', content', value'⟩
      · contradiction
      · rw [content] at content'
        cases content'
        exact Option.some.inj (value.symm.trans value')

theorem InPlaceByte.notBehind (has : InPlaceByte ctx file offset pos byte)
    (countInRange : file.blockCount < 2 ^ 32) : NotBehind ctx file pos := by
  intro location data located notHole content
  rcases has.of_block (not_atTail_of_located countInRange located) with
    ⟨other, same, ⟨hole, -⟩ | ⟨-, found, same', value⟩⟩
  · rw [located] at same
    cases same
    contradiction
  · rw [located] at same
    cases same
    rw [content] at same'
    cases same'
    exact Nat.le_of_lt (List.getElem?_eq_some_iff.mp value).1

theorem notBehind_of_atTail (atTail : AtTail file pos) (countInRange : file.blockCount < 2 ^ 32) :
    NotBehind ctx file pos :=
  fun _ _ located _ _ => absurd atTail (not_atTail_of_located countInRange located)

theorem InPlaceByte.not_blockFails (has : InPlaceByte ctx file offset pos byte)
    (countInRange : file.blockCount < 2 ^ 32) : ¬ BlockFails ctx file pos := by
  rintro ⟨location, error, located, notHole, failed⟩
  rcases has.of_block (not_atTail_of_located countInRange located) with
    ⟨other, same, ⟨hole, -⟩ | ⟨-, data, content, -⟩⟩
  · rw [located] at same
    cases same
    contradiction
  · rw [located] at same
    cases same
    rw [failed] at content
    contradiction

theorem InPlaceByte.not_cutShort (has : InPlaceByte ctx file offset pos byte)
    (countInRange : file.blockCount < 2 ^ 32) : ¬ CutShort ctx file offset pos := by
  rintro ⟨atTail, data, content, entered, short⟩
  rcases has.of_tail countInRange atTail with ⟨data', content', has⟩ | ⟨-, error, failed⟩
  · rw [content] at content'
    cases content'
    rcases has with value | ⟨-, behind⟩
    · have inside := (List.getElem?_eq_some_iff.mp value).1
      omega
    · omega
  · rw [content] at failed
    contradiction

theorem ImageByte.inPlace (image : ImageByte ctx file pos byte) (inPlace : InPlaceAt ctx file pos)
    (counted : sqfsFragmentIsNone file.fragIdx = false →
      file.blockCount = u32 (prescribedBlocks file)) : InPlaceByte ctx file offset pos byte := by
  cases image with
  | hole located hole => exact .hole located hole
  | stored located notHole content value =>
      rw [← inPlace.block _ located notHole] at content
      exact .stored located notHole content value
  | tail hasTail last content value =>
      have atTail : AtTail file pos := ⟨by rw [last, counted hasTail], hasTail⟩
      rw [← inPlace.tail atTail] at content
      exact .tail atTail content value

theorem Missing.not_inPlaceByte (missing : Missing ctx file pos)
    (inPlace : InPlaceAt ctx file pos) (countInRange : file.blockCount < 2 ^ 32) :
    ¬ InPlaceByte ctx file offset pos byte := by
  intro has
  rcases missing with ⟨location, data, located, notHole, content, behind⟩
  rw [← inPlace.block location located notHole] at content
  rcases has.of_block (not_atTail_of_located countInRange located) with ⟨other, same, has⟩
  rw [located] at same
  cases same
  rcases has with ⟨hole, -⟩ | ⟨-, found, same, value⟩
  · contradiction
  · rw [content] at same
    cases same
    exact Nat.not_lt_of_le behind (List.getElem?_eq_some_iff.mp value).1

end Bytes

/-! ## What one pass delivers -/

/-- The positions from the offset up to `finish` are what the code takes them for. -/
structure Straight (ctx : SqfsCtx) (file : SqfsFileCtx) (offset finish : Nat) : Prop where
  blockSize : file.blockSize = ctx.sb.blockSize
  countInRange : file.blockCount < 2 ^ 32
  finishInRange : finish ≤ 2 ^ 64
  block : ∀ pos, offset ≤ pos → pos < finish → ¬ AtTail file pos → pos / file.blockSize < 2 ^ 32
  tail : ∀ pos, offset ≤ pos → pos < finish → AtTail file pos →
    file.fragOffset + pos % file.blockSize < file.blockSize
  tailBlock : ∀ pos later, offset ≤ pos → pos ≤ later → later < finish → AtTail file pos →
    AtTail file later ∧ later / file.blockSize = pos / file.blockSize

section Delivery

variable {ctx : SqfsCtx} {file : SqfsFileCtx} {offset total finish pos start size : Nat}
  {progress next : Progress} {result : PlainResult}

theorem Straight.positive (straight : Straight ctx file offset finish) : 0 < file.blockSize :=
  straight.blockSize ▸ ctx.sb.blockSize_pos

theorem Straight.small (straight : Straight ctx file offset finish) : file.blockSize ≤ 2 ^ 20 :=
  straight.blockSize ▸ ctx.sb.blockSize_le

theorem Straight.in_tail (straight : Straight ctx file offset finish) (behind : offset ≤ start)
    (atTail : AtTail file start) (entered : start = entryPosition file offset start)
    {idx : Nat} (inside : start + idx < finish) :
    AtTail file (start + idx) ∧ entryPosition file offset (start + idx) = start ∧
      (start + idx) % file.blockSize = start % file.blockSize + idx ∧
      file.fragOffset + (start % file.blockSize + idx) < file.blockSize := by
  rcases straight.tailBlock start (start + idx) behind (Nat.le_add_right _ _) inside atTail with
    ⟨laterTail, sameBlock⟩
  have position := Nat.div_add_mod start file.blockSize
  have later := Nat.div_add_mod (start + idx) file.blockSize
  rw [sameBlock] at later
  have modulo : (start + idx) % file.blockSize = start % file.blockSize + idx := by omega
  have room := straight.tail (start + idx) (by omega) inside laterTail
  rw [modulo] at room
  refine ⟨laterTail, ?_, modulo, room⟩
  rw [entryPosition, sameBlock]
  exact entered.symm

private theorem plainFragment_delivers (straight : Straight ctx file offset finish)
    (behind : offset ≤ start) (inside : start < finish) (atTail : AtTail file start)
    (entered : start = entryPosition file offset start) {bytes : List UInt8}
    (read : plainFragment ctx file.fragIdx (u32 (file.fragOffset + start % file.blockSize)) size =
      .ok bytes) :
    bytes.length ≤ size ∧ ∀ idx, idx < size → start + idx < finish →
      (∃ byte, InPlaceByte ctx file offset (start + idx) byte ∧ bytes[idx]? = some byte) ∨
        (CutShort ctx file offset (start + idx) ∧ bytes.length ≤ idx) := by
  have small := straight.small
  have room := straight.tail start behind inside atTail
  rcases plainFragment_eq_ok.mp read with ⟨-, -, data, content, rfl⟩
  rw [u32_of_lt (by omega), copyFromFragment]
  by_cases short : data.length < file.fragOffset + start % file.blockSize
  · rw [if_pos short, List.length_replicate, ← straight.blockSize]
    refine ⟨Nat.min_le_left _ _, fun idx counted within => .inl ⟨0, ?_, ?_⟩⟩
    · rcases straight.in_tail behind atTail entered within with ⟨laterTail, entry, -, -⟩
      exact .beyond laterTail content (entry.symm ▸ short)
    · rcases straight.in_tail behind atTail entered within with ⟨-, -, -, later⟩
      exact List.getElem?_replicate_of_lt (by omega)
  · rw [if_neg short, List.length_take, List.length_drop]
    refine ⟨Nat.min_le_left _ _, fun idx counted within => ?_⟩
    rcases straight.in_tail behind atTail entered within with ⟨laterTail, entry, modulo, later⟩
    by_cases held : file.fragOffset + start % file.blockSize + idx < data.length
    · left
      have value := List.getElem?_eq_getElem held
      refine ⟨data[file.fragOffset + start % file.blockSize + idx], .tail laterTail content ?_, ?_⟩
      · rw [modulo, ← Nat.add_assoc, value]
      · rw [List.getElem?_take_of_lt counted, List.getElem?_drop, value]
    · right
      refine ⟨⟨laterTail, data, content, ?_, ?_⟩, by omega⟩
      · rw [entry]
        omega
      · rw [modulo]
        omega

/-- The fragment branch never ends in an error of its own: what fails becomes zeros. -/
theorem plainTail_delivers (straight : Straight ctx file offset finish)
    (behind : offset ≤ start) (inside : start < finish) (atTail : AtTail file start)
    (entered : start = entryPosition file offset start)
    (ended : plainTail ctx file (start % file.blockSize) progress = some result) :
    ∃ bytes : List UInt8, result = progress.finished (toInt bytes.length) (bytes.map some) ∧
      bytes.length ≤ progress.bytesRemaining ∧
      ∀ idx, idx < progress.bytesRemaining → start + idx < finish →
        (∃ byte, InPlaceByte ctx file offset (start + idx) byte ∧ bytes[idx]? = some byte) ∨
          (CutShort ctx file offset (start + idx) ∧ bytes.length ≤ idx) := by
  rw [plainTail] at ended
  cases read : plainFragment ctx file.fragIdx (u32 (file.fragOffset + start % file.blockSize))
      progress.bytesRemaining with
  | fault => simp [read] at ended
  | ok bytes =>
      rcases plainFragment_delivers straight behind inside atTail entered read with
        ⟨fits, delivered⟩
      simp only [read, Option.some.injEq] at ended
      exact ⟨bytes, ended.symm, fits, delivered⟩
  | err error =>
      have room := straight.tail start behind inside atTail
      have small := straight.small
      have failed : sqfsFragmentReadBlock ctx file.fragIdx = .err error := by
        rw [plainFragment, if_neg (by simp [atTail.2]), ← straight.blockSize, u32_of_lt (by omega),
          if_neg (by omega)] at read
        cases content : sqfsFragmentReadBlock ctx file.fragIdx with
        | ok data => simp [content] at read
        | err other =>
            rw [content, Outcome.err_bind] at read
            exact read
        | fault => simp [content] at read
      simp only [read, Option.some.injEq] at ended
      refine ⟨List.replicate progress.bytesRemaining 0, ?_, ?_, ?_⟩
      · rw [← ended, List.length_replicate, List.map_replicate]
      · exact Nat.le_of_eq List.length_replicate
      · intro idx counted within
        rcases straight.in_tail behind atTail entered within with ⟨laterTail, -⟩
        exact .inl ⟨0, .refused laterTail failed, List.getElem?_replicate_of_lt counted⟩

theorem plainPass_at (unfinished : progress.bytesRemaining ≠ 0)
    (inRange : offset + progress.bytesRead < 2 ^ 64)
    (position : offset + progress.bytesRead = pos) :
    plainPass ctx file offset progress =
      if AtTail file pos then
        .leave (plainTail ctx file (pos % file.blockSize) progress)
      else
        match sqfsFileBlockLocation file (u32 (pos / file.blockSize)) with
        | .fault => .leave none
        | .err error => .leave (some (progress.returned error.code))
        | .ok location =>
            if location.size = 0 then
              .again (progress.copied (List.replicate
                (min (file.blockSize - pos % file.blockSize) progress.bytesRemaining) (some 0)))
            else
              plainStored ctx file location (pos % file.blockSize) progress := by
  subst position
  rw [plainPass, if_neg unfinished, u64_of_lt inRange]
  rfl

theorem plainPass_copied (small : file.blockSize ≤ 2 ^ 20)
    (repeated : plainPass ctx file offset progress = .again next) :
    ∃ cells : List Cell, next = progress.copied cells ∧
      cells.length ≤ min (file.blockSize - u64 (offset + progress.bytesRead) % file.blockSize)
        progress.bytesRemaining := by
  rcases plainPass_again repeated with
    ⟨-, -, location, -, ⟨-, rfl⟩ | ⟨-, data, content, rfl⟩⟩
  · exact ⟨_, rfl, Nat.le_of_eq List.length_replicate⟩
  · refine ⟨_, rfl, ?_⟩
    rw [blockCells_copyLength small (storedContent_length content), copyLength]
    exact Nat.min_le_left _ _

/-- A pass that is repeated is not in the tail, so it comes into the tail at the start of a
block. -/
theorem entered_of_again (positive : 0 < file.blockSize) (small : file.blockSize ≤ 2 ^ 20)
    (repeated : plainPass ctx file offset progress = .again next)
    (inRange : offset + next.bytesRead < 2 ^ 64) (atTail : AtTail file (offset + next.bytesRead)) :
    offset + next.bytesRead = entryPosition file offset (offset + next.bytesRead) := by
  have notTail := (plainPass_again repeated).2.1
  rcases plainPass_copied small repeated with ⟨cells, rfl, fits⟩
  simp only [Progress.copied, ← Nat.add_assoc] at inRange atTail ⊢
  rw [u64_of_lt (by omega)] at notTail fits
  have inBlock := Nat.mod_lt (offset + progress.bytesRead) positive
  have other : (offset + progress.bytesRead) / file.blockSize ≠
      (offset + progress.bytesRead + cells.length) / file.blockSize := by
    intro same
    rw [AtTail, ← same] at atTail
    exact notTail atTail
  have ends := end_le_of_other positive (Nat.le_add_right _ _) other
  have atEnd : offset + progress.bytesRead + cells.length =
      file.blockSize * ((offset + progress.bytesRead) / file.blockSize + 1) := by
    rw [← add_to_end positive]
    omega
  rw [entryPosition, atEnd, Nat.mul_div_cancel_left _ positive, Nat.mul_comm, Nat.max_eq_right]
  rw [Nat.mul_comm]
  omega

private theorem notBehind_of_start (start : pos % file.blockSize = 0) : NotBehind ctx file pos := by
  intro location data _ _ _
  rw [start]
  exact Nat.zero_le _

private theorem notBehind_of_stored {location : BlockLocation} {data : List UInt8}
    (located : sqfsFileBlockLocation file (pos / file.blockSize) = .ok location)
    (content : storedContent ctx location file.blockSize = .ok data) (positive : 0 < file.blockSize)
    (inside : size ≤ file.blockSize - pos % file.blockSize)
    (within : pos % file.blockSize + size ≤ data.length) :
    NotBehind ctx file (pos + size) := by
  have inBlock := Nat.mod_lt pos positive
  by_cases full : pos % file.blockSize + size = file.blockSize
  · apply notBehind_of_start
    rw [show size = file.blockSize - pos % file.blockSize by omega, add_to_end positive,
      Nat.mul_mod_right]
  · have same := @add_in_block file.blockSize size pos (by omega)
    intro other others nextLocated _ nextContent
    rw [same.1, located] at nextLocated
    cases nextLocated
    rw [content] at nextContent
    cases nextContent
    rw [same.2]
    exact within

private theorem plainPass_delivers (straight : Straight ctx file offset finish)
    (inside : offset + progress.bytesRead < finish)
    (notBehind : NotBehind ctx file (offset + progress.bytesRead))
    (repeated : plainPass ctx file offset progress = .again next) :
    ¬ AtTail file (offset + progress.bytesRead) ∧ ∃ cells : List Cell,
      next = progress.copied cells ∧
      cells.length ≤ min (file.blockSize - (offset + progress.bytesRead) % file.blockSize)
        progress.bytesRemaining ∧
      NotBehind ctx file (offset + progress.bytesRead + cells.length) ∧
      ∀ idx, idx < cells.length → ∃ byte,
        InPlaceByte ctx file offset (offset + progress.bytesRead + idx) byte ∧
        cells[idx]? = some (some byte) := by
  have positive := straight.positive
  have small := straight.small
  have finishInRange := straight.finishInRange
  rcases plainPass_again repeated with ⟨-, notTail, location, located, copied⟩
  rw [u64_of_lt (by omega)] at notTail located copied
  have inRange := straight.block _ (Nat.le_add_right _ _) inside notTail
  rw [u32_of_lt inRange] at located
  have inBlock := Nat.mod_lt (offset + progress.bytesRead) positive
  apply And.intro notTail
  generalize offset + progress.bytesRead = pos at *
  rcases copied with ⟨hole, rfl⟩ | ⟨notHole, data, content, rfl⟩
  · refine ⟨_, rfl, Nat.le_of_eq List.length_replicate, ?_, ?_⟩
    · rw [List.length_replicate]
      intro other data nextLocated notHole content
      by_cases same : (pos + min (file.blockSize - pos % file.blockSize)
          progress.bytesRemaining) / file.blockSize = pos / file.blockSize
      · rw [same, located] at nextLocated
        cases nextLocated
        contradiction
      · have later := end_le_of_other positive (Nat.le_add_right pos (min
          (file.blockSize - pos % file.blockSize) progress.bytesRemaining)) (Ne.symm same)
        rw [Nat.min_eq_left (by omega), add_to_end positive, Nat.mul_mod_right]
        exact Nat.zero_le _
    · intro idx counted
      rw [List.length_replicate] at counted
      have sameBlock := @add_in_block file.blockSize idx pos (by omega)
      exact ⟨0, .hole (by rw [sameBlock.1]; exact located) hole,
        List.getElem?_replicate_of_lt counted⟩
  · have fits := storedContent_length content
    have within := notBehind location data located notHole content
    have length := @blockCells_copyLength file (pos % file.blockSize) data
      progress.bytesRemaining small fits
    rw [copyLength_inside small fits within] at length ⊢
    refine ⟨_, rfl, by omega, ?_, ?_⟩
    · rw [length]
      exact notBehind_of_stored located content positive (by omega) (by omega)
    · intro idx counted
      rw [length] at counted
      have sameBlock := @add_in_block file.blockSize idx pos (by omega)
      have value := @List.getElem?_eq_getElem _ data (pos % file.blockSize + idx) (by omega)
      refine ⟨_, .stored (by rw [sameBlock.1]; exact located) notHole content
        (by rw [sameBlock.2]; exact value), ?_⟩
      exact blockCells_getElem? (by rw [length]; exact counted) value

/-! ## What a read delivers -/

/-- How far a read of `total` bytes has come: what it has written are the bytes it has for the
positions up to `finish`. -/
structure ReadsAlong (ctx : SqfsCtx) (file : SqfsFileCtx) (offset total finish : Nat)
    (progress : Progress) : Prop where
  sum : progress.bytesRead + progress.bytesRemaining = total
  length : progress.out.length = progress.bytesRead
  delivered : ∀ idx, idx < progress.bytesRead → offset + idx < finish → ∃ byte,
    InPlaceByte ctx file offset (offset + idx) byte ∧ progress.out[idx]? = some (some byte)
  notBehind : offset + progress.bytesRead < finish →
    NotBehind ctx file (offset + progress.bytesRead)
  entered : offset + progress.bytesRead < 2 ^ 64 → AtTail file (offset + progress.bytesRead) →
    offset + progress.bytesRead = entryPosition file offset (offset + progress.bytesRead)

/-- The result holds the byte that the read has for each position up to `finish`, unless it ends
before the position. -/
def Brings (ctx : SqfsCtx) (file : SqfsFileCtx) (offset total finish : Nat)
    (result : PlainResult) : Prop :=
  ∀ idx, idx < total → offset + idx < finish →
    (∃ byte, InPlaceByte ctx file offset (offset + idx) byte ∧
      result.out[idx]? = some (some byte)) ∨
    (CutShort ctx file offset (offset + idx) ∧ result.out.length ≤ idx)

theorem readsAlong_begun (notBehind : NotBehind ctx file offset) :
    ReadsAlong ctx file offset total finish ⟨0, total, []⟩ where
  sum := Nat.zero_add total
  length := rfl
  delivered := fun _ impossible => absurd impossible (Nat.not_lt_zero _)
  notBehind := fun _ => notBehind
  entered := by
    intro _ _
    rw [entryPosition, Nat.add_zero, Nat.max_eq_left (Nat.div_mul_le_self _ _)]

private theorem ReadsAlong.getElem?_copied (along : ReadsAlong ctx file offset total finish progress)
    (cells : List Cell) (idx : Nat) :
    (progress.out ++ cells)[progress.bytesRead + idx]? = cells[idx]? := by
  rw [List.getElem?_append_right (by rw [along.length]; omega), along.length,
    Nat.add_sub_cancel_left]

theorem ReadsAlong.pass (straight : Straight ctx file offset finish)
    (along : ReadsAlong ctx file offset total finish progress)
    (repeated : plainPass ctx file offset progress = .again next) :
    ReadsAlong ctx file offset total finish next := by
  have positive := straight.positive
  have sum := along.sum
  have length := along.length
  have entered := entered_of_again positive straight.small repeated
  by_cases inside : offset + progress.bytesRead < finish
  · rcases plainPass_delivers straight inside (along.notBehind inside) repeated with
      ⟨notTail, cells, rfl, fits, notBehind, delivered⟩
    have inBlock := Nat.mod_lt (offset + progress.bytesRead) positive
    simp only [Progress.copied]
    constructor
    · simp only
      omega
    · simp only [List.length_append, length]
    · intro idx counted within
      simp only at counted ⊢
      by_cases old : idx < progress.bytesRead
      · rw [List.getElem?_append_left (by rw [length]; exact old)]
        exact along.delivered idx old within
      · obtain ⟨rest, rfl⟩ := Nat.exists_eq_add_of_le (Nat.le_of_not_lt old)
        rw [along.getElem?_copied, ← Nat.add_assoc]
        exact delivered rest (by omega)
    · intro _
      simp only [← Nat.add_assoc]
      exact notBehind
    · exact entered
  · rcases plainPass_copied straight.small repeated with ⟨cells, rfl, fits⟩
    simp only [Progress.copied]
    constructor
    · simp only
      omega
    · simp only [List.length_append, length]
    · intro idx counted within
      rw [List.getElem?_append_left (by rw [length]; omega)]
      exact along.delivered idx (by omega) within
    · intro within
      simp only at within
      omega
    · exact entered

theorem ReadsAlong.leave (straight : Straight ctx file offset finish)
    (along : ReadsAlong ctx file offset total finish progress) (nonneg : 0 ≤ result.ret)
    (left : plainPass ctx file offset progress = .leave (some result)) :
    Brings ctx file offset total finish result := by
  have sum := along.sum
  intro idx counted within
  by_cases old : idx < progress.bytesRead
  · rcases along.delivered idx old within with ⟨byte, has, value⟩
    have kept (bytes : List Cell) : (progress.out ++ bytes)[idx]? = some (some byte) := by
      rw [List.getElem?_append_left (by rw [along.length]; exact old)]
      exact value
    left
    refine ⟨byte, has, ?_⟩
    rcases plainPass_leave left with ⟨-, rfl⟩ | ⟨-, tail⟩ | ⟨error, rfl⟩
    · exact value
    · rw [plainTail] at tail
      split at tail
      · cases tail
        exact kept _
      · cases tail
        exact kept _
      · cases tail
    · exact value
  · obtain ⟨rest, rfl⟩ := Nat.exists_eq_add_of_le (Nat.le_of_not_lt old)
    have inside : offset + progress.bytesRead < finish := by omega
    have finishInRange := straight.finishInRange
    rw [← Nat.add_assoc] at within ⊢
    rcases plainPass_leave left with ⟨finished, -⟩ | ⟨atTail, tail⟩ | ⟨error, rfl⟩
    · omega
    · rw [u64_of_lt (by omega)] at atTail tail
      rcases plainTail_delivers straight (Nat.le_add_right _ _) inside atTail
        (along.entered (by omega) atTail) tail with ⟨bytes, rfl, fits, delivered⟩
      simp only [Progress.finished, along.getElem?_copied, List.length_append, List.length_map,
        along.length, List.getElem?_map]
      rcases delivered rest (by omega) within with ⟨byte, has, value⟩ | ⟨cut, short⟩
      · exact .inl ⟨byte, has, by rw [value, Option.map_some]⟩
      · exact .inr ⟨cut, by omega⟩
    · exact absurd nonneg (Int.not_le_of_gt error.code_neg)

theorem brings_of_returns (straight : Straight ctx file offset finish)
    (notBehind : NotBehind ctx file offset) (nonneg : 0 ≤ result.ret)
    (returned : Pass.Returns (plainPass ctx file offset) ⟨0, total, []⟩ (some result)) :
    Brings ctx file offset total finish result := by
  have begun := @readsAlong_begun ctx file offset total finish notBehind
  have again : ∀ progress next, ReadsAlong ctx file offset total finish progress →
      plainPass ctx file offset progress = .again next →
      ReadsAlong ctx file offset total finish next :=
    fun progress next along repeated => along.pass straight repeated
  have exit : ∀ progress left, ReadsAlong ctx file offset total finish progress →
      plainPass ctx file offset progress = .leave left →
      ∀ other, left = some other → 0 ≤ other.ret → Brings ctx file offset total finish other := by
    rintro progress left along leaves other rfl nonneg
    exact along.leave straight nonneg leaves
  exact Pass.Returns.invariant returned begun again exit result rfl nonneg

/-! ## When a read ends -/

/-- As long as the read is not in the tail, it has a byte for its position or cannot read the
block, and the code for the tail does not crash. -/
def Supplied (ctx : SqfsCtx) (file : SqfsFileCtx) (offset total : Nat) : Prop :=
  ∀ pos, offset ≤ pos → pos < offset + total →
    (∀ earlier, offset ≤ earlier → earlier < pos → ¬ AtTail file earlier) →
    pos < 2 ^ 64 ∧
    (AtTail file pos → sqfsFragmentReadBlock ctx file.fragIdx ≠ .fault) ∧
    (¬ AtTail file pos → pos / file.blockSize < 2 ^ 32 ∧
      ((∃ byte, InPlaceByte ctx file offset pos byte) ∨ BlockFails ctx file pos))

structure BeforeTail (file : SqfsFileCtx) (offset total : Nat) (progress : Progress) : Prop where
  sum : progress.bytesRead + progress.bytesRemaining = total
  length : progress.out.length = progress.bytesRead
  notTail : ∀ earlier, offset ≤ earlier → earlier < offset + progress.bytesRead →
    ¬ AtTail file earlier

theorem InPlaceByte.pass {byte : UInt8} (has : InPlaceByte ctx file offset pos byte)
    (positive : 0 < file.blockSize) (small : file.blockSize ≤ 2 ^ 20)
    (notTail : ¬ AtTail file pos) (inRange : pos < 2 ^ 64)
    (idxInRange : pos / file.blockSize < 2 ^ 32) (unfinished : progress.bytesRemaining ≠ 0)
    (position : offset + progress.bytesRead = pos) :
    ∃ cells : List Cell, plainPass ctx file offset progress = .again (progress.copied cells) ∧
      0 < cells.length ∧
      cells.length ≤ min (file.blockSize - pos % file.blockSize) progress.bytesRemaining := by
  have inBlock := Nat.mod_lt pos positive
  rw [plainPass_at unfinished (position ▸ inRange) position, if_neg notTail, u32_of_lt idxInRange]
  rcases has.of_block notTail with ⟨location, located, ⟨hole, -⟩ | ⟨notHole, data, content, value⟩⟩
  · simp only [located, if_pos hole]
    refine ⟨_, rfl, ?_, Nat.le_of_eq List.length_replicate⟩
    rw [List.length_replicate]
    omega
  · have within := (List.getElem?_eq_some_iff.mp value).1
    have fits := storedContent_length content
    have length := @blockCells_copyLength file (pos % file.blockSize) data
      progress.bytesRemaining small fits
    simp only [located, if_neg notHole, plainStored, content]
    refine ⟨_, rfl, ?_, ?_⟩
    · rw [length, copyLength_inside small fits (Nat.le_of_lt within)]
      omega
    · rw [length, copyLength_inside small fits (Nat.le_of_lt within)]
      omega

theorem BlockFails.pass (fails : BlockFails ctx file pos) (countInRange : file.blockCount < 2 ^ 32)
    (inRange : pos < 2 ^ 64) (idxInRange : pos / file.blockSize < 2 ^ 32)
    (unfinished : progress.bytesRemaining ≠ 0) (position : offset + progress.bytesRead = pos) :
    ∃ error : SqfsError, plainPass ctx file offset progress =
      .leave (some (progress.returned error.code)) := by
  rcases fails with ⟨location, error, located, notHole, failed⟩
  refine ⟨error, ?_⟩
  rw [plainPass_at unfinished (position ▸ inRange) position,
    if_neg (not_atTail_of_located countInRange located), u32_of_lt idxInRange]
  simp only [located, if_neg notHole, plainStored, failed]

theorem Supplied.pass (supplied : Supplied ctx file offset total)
    (sameSize : file.blockSize = ctx.sb.blockSize) (countInRange : file.blockCount < 2 ^ 32)
    (before : BeforeTail file offset total progress) (unfinished : progress.bytesRemaining ≠ 0) :
    (AtTail file (offset + progress.bytesRead) ∧ plainPass ctx file offset progress =
      .leave (plainTail ctx file ((offset + progress.bytesRead) % file.blockSize) progress) ∧
      sqfsFragmentReadBlock ctx file.fragIdx ≠ .fault) ∨
    (BlockFails ctx file (offset + progress.bytesRead) ∧ ∃ error : SqfsError,
      plainPass ctx file offset progress = .leave (some (progress.returned error.code))) ∨
    ∃ cells : List Cell, plainPass ctx file offset progress = .again (progress.copied cells) ∧
      0 < cells.length ∧ BeforeTail file offset total (progress.copied cells) := by
  have positive : 0 < file.blockSize := sameSize ▸ ctx.sb.blockSize_pos
  have small : file.blockSize ≤ 2 ^ 20 := sameSize ▸ ctx.sb.blockSize_le
  have sum := before.sum
  rcases supplied (offset + progress.bytesRead) (Nat.le_add_right _ _) (by omega) before.notTail
    with ⟨inRange, inTail, inBlocks⟩
  by_cases atTail : AtTail file (offset + progress.bytesRead)
  · left
    refine ⟨atTail, ?_, inTail atTail⟩
    rw [plainPass_at unfinished inRange rfl, if_pos atTail]
  · right
    rcases inBlocks atTail with ⟨idxInRange, ⟨byte, has⟩ | fails⟩
    · right
      rcases has.pass positive small atTail inRange idxInRange unfinished rfl with
        ⟨cells, again, nonempty, fits⟩
      have inBlock := Nat.mod_lt (offset + progress.bytesRead) positive
      refine ⟨cells, again, nonempty, ?_, ?_, ?_⟩
      · simp only [Progress.copied]
        omega
      · simp only [Progress.copied, List.length_append, before.length]
      · intro earlier begun inside
        simp only [Progress.copied, ← Nat.add_assoc] at inside
        by_cases old : earlier < offset + progress.bytesRead
        · exact before.notTail earlier begun old
        · obtain ⟨rest, rfl⟩ := Nat.exists_eq_add_of_le (Nat.le_of_not_lt old)
          have same := @add_in_block file.blockSize rest (offset + progress.bytesRead) (by omega)
          rw [AtTail, same.1]
          exact atTail
    · left
      exact ⟨fails, fails.pass countInRange inRange idxInRange unfinished rfl⟩

theorem plainTail_eq_some (ended : plainTail ctx file start progress = some result) :
    ∃ bytes : List Cell, bytes.length ≤ progress.bytesRemaining ∧
      result = progress.finished (toInt bytes.length) bytes := by
  rw [plainTail] at ended
  cases read : plainFragment ctx file.fragIdx (u32 (file.fragOffset + start))
      progress.bytesRemaining with
  | ok bytes =>
      simp only [read, Option.some.injEq] at ended
      rcases plainFragment_eq_ok.mp read with ⟨-, -, data, -, rfl⟩
      refine ⟨_, ?_, by rw [← ended, List.length_map]⟩
      rw [List.length_map]
      exact copyFromFragment_length_le _ _ _ _
  | err error =>
      simp only [read, Option.some.injEq] at ended
      exact ⟨_, Nat.le_of_eq List.length_replicate, by rw [← ended, List.length_replicate]⟩
  | fault => simp [read] at ended

theorem plainTail_isSome (defined : sqfsFragmentReadBlock ctx file.fragIdx ≠ .fault) :
    ∃ result, plainTail ctx file start progress = some result := by
  rw [plainTail]
  cases read : plainFragment ctx file.fragIdx (u32 (file.fragOffset + start))
      progress.bytesRemaining with
  | ok bytes => exact ⟨_, rfl⟩
  | err error => exact ⟨_, rfl⟩
  | fault =>
      rw [plainFragment] at read
      split at read
      · cases read
      · split at read
        · cases read
        · cases content : sqfsFragmentReadBlock ctx file.fragIdx with
          | fault => contradiction
          | ok data => simp [content] at read
          | err error => simp [content] at read

theorem Progress.finished_ret {bytes : List Cell}
    (small : progress.bytesRead + bytes.length < 2 ^ 31) :
    (progress.finished (toInt bytes.length) bytes).ret =
      (progress.bytesRead + bytes.length : Nat) := by
  rw [Progress.finished]
  dsimp only
  rw [toInt_of_lt (by omega), if_neg (by omega), Int.toNat_natCast, toInt_of_lt small]

theorem Supplied.again (supplied : Supplied ctx file offset total)
    (sameSize : file.blockSize = ctx.sb.blockSize) (countInRange : file.blockCount < 2 ^ 32)
    (before : BeforeTail file offset total progress)
    (repeated : plainPass ctx file offset progress = .again next) :
    BeforeTail file offset total next ∧ next.bytesRemaining < progress.bytesRemaining := by
  have unfinished := (plainPass_again repeated).1
  rcases supplied.pass sameSize countInRange before unfinished with
    ⟨-, left, -⟩ | ⟨-, error, left⟩ | ⟨cells, same, nonempty, nextBefore⟩
  · rw [left] at repeated
    contradiction
  · rw [left] at repeated
    contradiction
  · rw [repeated] at same
    cases same
    refine ⟨nextBefore, ?_⟩
    simp only [Progress.copied]
    omega

private theorem beforeTail_begun (file : SqfsFileCtx) (offset total : Nat) :
    BeforeTail file offset total ⟨0, total, []⟩ :=
  ⟨Nat.zero_add _, rfl, fun _ behind inside => absurd inside (Nat.not_lt_of_le behind)⟩

theorem Supplied.leaves (supplied : Supplied ctx file offset total)
    (sameSize : file.blockSize = ctx.sb.blockSize) (countInRange : file.blockCount < 2 ^ 32)
    {answer : Option PlainResult}
    (returned : Pass.Returns (plainPass ctx file offset) ⟨0, total, []⟩ answer) :
    ∃ last, BeforeTail file offset total last ∧
      plainPass ctx file offset last = .leave answer := by
  rcases returned.leaves with ⟨last, entered, left⟩
  refine ⟨last, ?_, left⟩
  exact entered.invariant (beforeTail_begun file offset total) fun _ _ before repeated =>
    (supplied.again sameSize countInRange before repeated).1

/-- A read that is supplied with bytes ends: with the number of bytes it has written if an `int`
can count them, or with an error at a block that cannot be read. -/
theorem Supplied.returns (supplied : Supplied ctx file offset total)
    (sameSize : file.blockSize = ctx.sb.blockSize) (countInRange : file.blockCount < 2 ^ 32) :
    ∃ result, Pass.Returns (plainPass ctx file offset) ⟨0, total, []⟩ (some result) ∧
      ((result.out.length < 2 ^ 31 → result.ret = result.out.length) ∨
        (result.ret < 0 ∧ ∃ pos, offset ≤ pos ∧ pos < offset + total ∧
          BlockFails ctx file pos)) := by
  rcases Pass.Terminates.of_variant Progress.bytesRemaining _
    (beforeTail_begun file offset total) (fun _ _ before repeated =>
      supplied.again sameSize countInRange before repeated) with ⟨answer, returned⟩
  rcases supplied.leaves sameSize countInRange returned with ⟨progress, before, left⟩
  have length := before.length
  have sum := before.sum
  by_cases finished : progress.bytesRemaining = 0
  · rw [plainPass, if_pos finished] at left
    cases left
    refine ⟨_, returned, .inl fun small => ?_⟩
    simp only [Progress.returned] at small ⊢
    rw [length] at small ⊢
    exact toInt_of_lt small
  · rcases supplied.pass sameSize countInRange before finished with
      ⟨-, same, defined⟩ | ⟨fails, error, same⟩ | ⟨cells, same, -⟩
    · rcases @plainTail_isSome ctx file _ progress defined with ⟨result, ended⟩
      rcases plainTail_eq_some ended with ⟨bytes, -, rfl⟩
      rw [same, ended] at left
      cases left
      refine ⟨_, returned, .inl fun small => ?_⟩
      simp only [Progress.finished, List.length_append, length] at small
      rw [Progress.finished_ret small]
      simp only [Progress.finished, List.length_append, length]
    · rw [same] at left
      cases left
      exact ⟨_, returned, .inr ⟨error.code_neg, _, Nat.le_add_right _ _, by omega, fails⟩⟩
    · rw [same] at left
      contradiction

private theorem counts_of_enters (small : file.blockSize ≤ 2 ^ 20)
    (entered : Pass.Enters (plainPass ctx file offset) ⟨0, total, []⟩ progress) :
    progress.out.length = progress.bytesRead ∧
      progress.bytesRead + progress.bytesRemaining = total := by
  apply @Pass.Enters.invariant _ _ _ (fun state => state.out.length = state.bytesRead ∧
    state.bytesRead + state.bytesRemaining = total) _ _ entered ⟨rfl, Nat.zero_add total⟩
  intro state next counts repeated
  rcases plainPass_copied small repeated with ⟨cells, rfl, fits⟩
  simp only [Progress.copied, List.length_append]
  omega

theorem plainRead_length_le (small : file.blockSize ≤ 2 ^ 20)
    (returned : Pass.Returns (plainPass ctx file offset) ⟨0, total, []⟩ (some result)) :
    result.out.length ≤ total := by
  rcases returned.leaves with ⟨last, entered, left⟩
  have counts := counts_of_enters small entered
  rcases plainPass_leave left with ⟨-, rfl⟩ | ⟨-, tail⟩ | ⟨error, rfl⟩
  · simp only [Progress.returned]
    omega
  · rcases plainTail_eq_some tail with ⟨bytes, fits, rfl⟩
    simp only [Progress.finished, List.length_append]
    omega
  · simp only [Progress.returned]
    omega

theorem ret_eq_length (small : file.blockSize ≤ 2 ^ 20) (totalInRange : total < 2 ^ 31)
    (nonneg : 0 ≤ result.ret)
    (returned : Pass.Returns (plainPass ctx file offset) ⟨0, total, []⟩ (some result)) :
    result.ret = result.out.length := by
  rcases returned.leaves with ⟨last, entered, left⟩
  have counts := counts_of_enters small entered
  rcases plainPass_leave left with ⟨finished, rfl⟩ | ⟨-, tail⟩ | ⟨error, rfl⟩
  · simp only [Progress.returned]
    rw [toInt_of_lt (by omega), counts.1]
  · rcases plainTail_eq_some tail with ⟨bytes, fits, rfl⟩
    rw [Progress.finished_ret (by omega)]
    simp only [Progress.finished, List.length_append, counts.1]
  · exact absurd nonneg (Int.not_le_of_gt error.code_neg)

/-! ## Files with the prescribed number of blocks -/

theorem atTail_of_counted (counted : file.blockCount = prescribedBlocks file)
    (countInRange : file.blockCount < 2 ^ 32) (positive : 0 < file.blockSize)
    (inside : pos < file.fileSize) (atTail : AtTail file pos) :
    pos / file.blockSize = file.blockCount ∧
      pos % file.blockSize + (file.fileSize - pos) = file.fileSize % file.blockSize := by
  have idxInRange := blockIndex_in_range counted positive countInRange inside
  have same := atTail.1
  rw [u32_of_lt idxInRange] at same
  exact tail_of_some counted atTail.2 (Nat.le_of_lt inside) (Nat.le_of_eq same.symm)

theorem straight_of_counted (counted : file.blockCount = prescribedBlocks file)
    (sameSize : file.blockSize = ctx.sb.blockSize) (countInRange : file.blockCount < 2 ^ 32)
    (sizeInRange : file.fileSize < 2 ^ 64)
    (fits : sqfsFragmentIsNone file.fragIdx = false → file.fileSize % file.blockSize ≠ 0 →
      file.fragOffset + file.fileSize % file.blockSize ≤ file.blockSize) :
    Straight ctx file offset file.fileSize where
  blockSize := sameSize
  countInRange := countInRange
  finishInRange := Nat.le_of_lt sizeInRange
  block := fun _ _ inside _ =>
    blockIndex_in_range counted (sameSize ▸ ctx.sb.blockSize_pos) countInRange inside
  tail := by
    intro pos _ inside atTail
    have left := (atTail_of_counted counted countInRange (sameSize ▸ ctx.sb.blockSize_pos) inside
      atTail).2
    have room := fits atTail.2 (by omega)
    omega
  tailBlock := by
    intro pos later _ order inside atTail
    have positive : 0 < file.blockSize := sameSize ▸ ctx.sb.blockSize_pos
    have tail := (atTail_of_counted counted countInRange positive (by omega) atTail).1
    have behind : file.blockCount ≤ later / file.blockSize :=
      tail ▸ Nat.div_le_div_right order
    have laterTail := (tail_of_some counted atTail.2 (Nat.le_of_lt inside) behind).1
    refine ⟨⟨?_, atTail.2⟩, laterTail.trans tail.symm⟩
    rw [laterTail, u32_of_lt countInRange]

private theorem SizedFile.byte_or_fails (sized : SizedFile ctx file) (readable : ReadableFile ctx file)
    (countInRange : file.blockCount < 2 ^ 32) (positive : 0 < file.blockSize)
    (inside : pos < file.fileSize) (notTail : ¬ AtTail file pos) :
    (∃ byte, InPlaceByte ctx file offset pos byte) ∨ BlockFails ctx file pos := by
  have inRange : pos / file.blockSize < file.blockCount := by
    apply Nat.lt_of_not_le
    intro behind
    cases none : sqfsFragmentIsNone file.fragIdx with
    | true =>
        exact Nat.not_lt_of_le behind (block_of_none sized.counted positive none inside).1
    | false =>
        have atTail := (tail_of_some sized.counted none (Nat.le_of_lt inside) behind).1
        exact notTail ⟨by rw [atTail, u32_of_lt countInRange], none⟩
  rcases sqfsFileBlockLocation_of_lt sized.listed inRange with ⟨location, located⟩
  by_cases hole : location.size = 0
  · exact .inl ⟨0, .hole located hole⟩
  · cases content : storedContent ctx location file.blockSize with
    | fault => exact absurd content (readable.block _ location located hole)
    | err error => exact .inr ⟨location, error, located, hole, content⟩
    | ok data =>
        have length := sized.stored _ location data located hole content
        have left := (left_in_block sized.counted positive inside).1
        have value := @List.getElem?_eq_getElem _ data (pos % file.blockSize) (by omega)
        exact .inl ⟨_, .stored located hole content value⟩

theorem SizedFile.supplied (sized : SizedFile ctx file) (readable : ReadableFile ctx file)
    (countInRange : file.blockCount < 2 ^ 32) (positive : 0 < file.blockSize)
    (sizeInRange : file.fileSize < 2 ^ 64) (within : offset + total ≤ file.fileSize) :
    Supplied ctx file offset total := by
  intro pos _ before _
  have inside : pos < file.fileSize := by omega
  refine ⟨by omega, fun atTail => ?_, fun notTail => ⟨?_, ?_⟩⟩
  · have left := (atTail_of_counted sized.counted countInRange positive inside atTail).2
    exact readable.tail atTail.2 (by omega)
  · exact blockIndex_in_range sized.counted positive countInRange inside
  · exact sized.byte_or_fails readable countInRange positive inside notTail

theorem UnpacksInPlace.at_pos (unpacks : UnpacksInPlace ctx file)
    (counted : file.blockCount = prescribedBlocks file) (countInRange : file.blockCount < 2 ^ 32)
    (positive : 0 < file.blockSize) (inside : pos < file.fileSize) : InPlaceAt ctx file pos where
  block := unpacks.block _
  tail := by
    intro atTail
    have left := (atTail_of_counted counted countInRange positive inside atTail).2
    exact unpacks.tail atTail.2 (by omega)

end Delivery

theorem Enters.plainRead_iff {ctx : SqfsCtx} {inode : SqfsInode} {offset size : Nat}
    {file : SqfsFileCtx} (entered : Enters ctx inode offset size file)
    (result : Option PlainResult) :
    PlainRead ctx inode offset size result ↔
      Pass.Returns (plainPass ctx file offset) ⟨0, requestSize file offset size, []⟩ result := by
  rw [PlainRead, entered.loops ()]

end SquashfsFuse
