import SquashfsFuse.Data.Buffers
import SquashfsFuse.Data.Reading
import SquashfsFuse.Data.Termination
import SquashfsFuse.Data.Untouched

/-! Reads that are answered, whatever the image holds otherwise. -/

namespace SquashfsFuse

def HasTail (file : SqfsFileCtx) : Prop :=
  sqfsFragmentIsNone file.fragIdx = false ∧
    ∃ pos, pos < file.fileSize ∧ u32 (pos / file.blockSize) = file.blockCount

/-- No block of the file is more than its buffer holds, none on disk ends where the file goes on,
and the fragment with its tail can be looked for. -/
structure SafeFile (ctx : SqfsCtx) (file : SqfsFileCtx) : Prop where
  blocksFit : ∀ idx location, sqfsFileBlockLocation file idx = .ok location → location.size ≠ 0 →
    ¬ ctx.image.Overfills location.pos location.size file.blockSize
  blocksReach : ∀ idx location data, sqfsFileBlockLocation file idx = .ok location →
    location.size ≠ 0 → storedContent ctx location file.blockSize = .ok data →
    data.length = file.blockSize ∨ file.fileSize ≤ idx * file.blockSize + data.length
  table : HasTail file → ctx.fragmentTable.isSome
  fragmentFits : HasTail file → ∀ entry, sqfsFragmentLocation ctx file.fragIdx = .ok entry →
    ¬ ctx.image.Overfills entry.start entry.size ctx.sb.blockSize

/-- A pass at the position neither faults nor repeats itself for ever. -/
def AnswersAt (ctx : SqfsCtx) (file : SqfsFileCtx) (pos : Nat) : Prop :=
  match placeAt file pos with
  | .hole => True
  | .outside => True
  | .unlisted => False
  | .stored => ∀ location,
      sqfsFileBlockLocation file (u32 (u64 pos / file.blockSize)) = .ok location →
        ¬ ctx.image.Overfills location.pos location.size file.blockSize ∧
          ∀ data, storedContent ctx location file.blockSize = .ok data →
            data.length ≠ u64 pos % file.blockSize
  | .tail => u32 (file.fragOffset + u64 pos % file.blockSize) < ctx.sb.blockSize →
      ctx.fragmentTable.isSome ∧ ∀ entry, sqfsFragmentLocation ctx file.fragIdx = .ok entry →
        ¬ ctx.image.Overfills entry.start entry.size ctx.sb.blockSize

/-! ## Blocks -/

section Blocks

variable {ctx : SqfsCtx} {file : SqfsFileCtx} {idx : Nat} {location : BlockLocation}

theorem KeepsToBuffer.defined {capacity word : Nat} {measure : α → Nat} {outcome : Sqfs α}
    (keeps : KeepsToBuffer capacity word (measure <$> outcome)) : outcome.Defined := by
  rintro rfl
  exact not_keepsToBuffer_of_fault rfl keeps

private theorem sqfsFileBlockLocation_defined (listed : file.blockSizes.length = file.blockCount)
    (idx : Nat) : (sqfsFileBlockLocation file idx).Defined := by
  by_cases inside : idx < file.blockCount
  · rcases sqfsFileBlockLocation_of_lt listed inside with ⟨location, located⟩
    rw [located]
    exact Outcome.defined_ok location
  · rw [sqfsFileBlockLocation, if_pos (Nat.le_of_not_lt inside)]
    split <;> exact Outcome.defined_err _

private theorem storedContent_of_overfills {limit : Nat}
    (overfills : ctx.image.Overfills location.pos location.size limit) :
    storedContent ctx location limit = .fault := by
  rcases overfills with ⟨uncompressed, inRange, spills⟩
  rw [storedContent, if_pos uncompressed, sqfsPreadInto, if_pos ⟨inRange, spills⟩]
  rfl

theorem storedContent_defined_iff {limit : Nat} (notHole : location.size ≠ 0) :
    (storedContent ctx location limit).Defined ↔
      ¬ ctx.image.Overfills location.pos location.size limit := by
  constructor
  · intro defined overfills
    exact defined (storedContent_of_overfills overfills)
  · intro fits
    have keeps := (sqfsDataReadBlock_keeps_iff ctx.image ctx.comp location.pos location.size
      limit []).mpr fits
    have defined := keeps.defined
    rw [sqfsDataReadBlock_eq _ _ _ _ notHole, Outcome.defined_bind] at defined
    exact defined.1

private theorem sqfsFragmentReadBlock_of_overfills {fragIdx : Nat} {entry : SqfsFragEntry}
    (located : sqfsFragmentLocation ctx fragIdx = .ok entry)
    (overfills : ctx.image.Overfills entry.start entry.size ctx.sb.blockSize) :
    sqfsFragmentReadBlock ctx fragIdx = .fault := by
  rcases overfills with ⟨uncompressed, inRange, spills⟩
  rw [sqfsFragmentReadBlock, located, Outcome.ok_bind]
  dsimp only
  rw [if_pos uncompressed, sqfsPreadInto, if_pos ⟨inRange, spills⟩]

theorem sqfsFragmentReadBlock_of_absent {fragIdx : Nat}
    (some : sqfsFragmentIsNone fragIdx = false) (absent : ctx.fragmentTable = none) :
    sqfsFragmentReadBlock ctx fragIdx = .fault := by
  rw [sqfsFragmentReadBlock, sqfsFragmentLocation, some, if_neg Bool.false_ne_true,
    sqfsFragmentGetEntry, absent]
  rfl

private theorem sqfsFragmentLocation_defined {fragIdx : Nat} (some : sqfsFragmentIsNone fragIdx = false)
    (present : ctx.fragmentTable.isSome) : (sqfsFragmentLocation ctx fragIdx).Defined := by
  rcases Option.isSome_iff_exists.mp present with ⟨table, attached⟩
  rw [sqfsFragmentLocation, if_neg (by simp [some]), sqfsFragmentGetEntry, attached,
    Outcome.ofOption_some, Outcome.ok_bind, Outcome.defined_bind]
  constructor
  · split
    · exact Outcome.defined_err _
    · split
      · exact Outcome.defined_err _
      · exact Outcome.defined_ok _
  · intro entry _
    split
    · exact Outcome.defined_err _
    · exact Outcome.defined_ok _

theorem sqfsFragmentReadBlock_defined_iff {fragIdx : Nat}
    (some : sqfsFragmentIsNone fragIdx = false) :
    (sqfsFragmentReadBlock ctx fragIdx).Defined ↔
      ctx.fragmentTable.isSome ∧ ∀ entry, sqfsFragmentLocation ctx fragIdx = .ok entry →
        ¬ ctx.image.Overfills entry.start entry.size ctx.sb.blockSize := by
  constructor
  · intro defined
    constructor
    · apply Option.isSome_iff_ne_none.mpr
      intro absent
      exact defined (sqfsFragmentReadBlock_of_absent some absent)
    · intro entry located overfills
      exact defined (sqfsFragmentReadBlock_of_overfills located overfills)
  · rintro ⟨present, fits⟩
    rcases (sqfsFragmentLocation_defined some present).cases with
      ⟨entry, located⟩ | ⟨code, failed⟩
    · exact ((sqfsFragmentReadBlock_keeps_iff located).mpr (fits entry located)).defined
    · rw [sqfsFragmentReadBlock, failed, Outcome.err_bind]
      exact Outcome.defined_err code

private theorem SafeFile.answersAt (safe : SafeFile ctx file)
    (listed : file.blockSizes.length = file.blockCount) (positive : 0 < file.blockSize)
    (sizeInRange : file.fileSize < 2 ^ 64) {pos : Nat} (inside : pos < file.fileSize) :
    AnswersAt ctx file pos := by
  have here : u64 pos = pos := u64_of_lt (Nat.lt_trans inside sizeInRange)
  have holds := placeAt_holds file pos
  rw [AnswersAt]
  cases place : placeAt file pos with
  | hole => trivial
  | outside => trivial
  | unlisted =>
      rw [place] at holds
      exact sqfsFileBlockLocation_defined listed _ holds.2
  | tail =>
      rw [place] at holds
      have hasTail : HasTail file := ⟨holds.2, pos, inside, here ▸ holds.1⟩
      exact fun _ => ⟨safe.table hasTail, safe.fragmentFits hasTail⟩
  | stored =>
      rw [place] at holds
      rcases holds with ⟨-, found, atPos, notHole⟩
      intro location located
      obtain rfl : found = location := Outcome.ok.inj (atPos.symm.trans located)
      apply And.intro (safe.blocksFit _ found located notHole)
      intro data content ends
      have idxLe : u32 (u64 pos / file.blockSize) * file.blockSize ≤
          u64 pos / file.blockSize * file.blockSize :=
        Nat.mul_le_mul_right _ (Nat.mod_le _ _)
      have position := Nat.div_add_mod' (u64 pos) file.blockSize
      have inBlock : u64 pos % file.blockSize < file.blockSize := Nat.mod_lt _ positive
      rcases safe.blocksReach _ found data located notHole content with whole | reaches
      · omega
      · omega

end Blocks

/-! ## Well-formed files -/

section WellFormed

variable {ctx : SqfsCtx} {file : SqfsFileCtx}

private theorem WellFormedFile.fragment_read (wellFormed : WellFormedFile ctx file)
    (countInRange : file.blockCount < 2 ^ 32) (hasTail : HasTail file) :
    ∃ block, sqfsFragmentReadBlock ctx.apart file.fragIdx = .ok block := by
  rcases hasTail with ⟨some, pos, inside, atTail⟩
  have idxLe : pos / file.blockSize ≤ file.blockCount := by
    rw [blocks_of_some wellFormed.counted some]
    exact Nat.div_le_div_right (Nat.le_of_lt inside)
  rw [u32_of_lt (Nat.lt_of_le_of_lt idxLe countInRange)] at atTail
  have left := (tail_of_some wellFormed.counted some (Nat.le_of_lt inside)
    (Nat.le_of_eq atTail.symm)).2
  rcases wellFormed.tail some (by omega) with ⟨block, read, -⟩
  exact ⟨block, read⟩

theorem WellFormedFile.safe (wellFormed : WellFormedFile ctx file)
    (unpacks : UnpacksInPlace ctx file) (countInRange : file.blockCount < 2 ^ 32) :
    SafeFile ctx file where
  blocksFit := by
    intro idx location located notHole overfills
    rcases wellFormed.stored idx location located notHole with ⟨data, content, -⟩
    rw [@storedContent_of_overfills ctx.apart _ _ overfills] at content
    cases content
  blocksReach := by
    intro idx location data located notHole content
    rw [(wellFormed.sized unpacks).stored idx location data located notHole content, nominalSize]
    split
    · right
      omega
    · left
      rfl
  table := by
    intro hasTail
    rcases wellFormed.fragment_read countInRange hasTail with ⟨block, read⟩
    rcases Outcome.bind_eq_ok.mp read with ⟨entry, located, -⟩
    rw [sqfsFragmentLocation, if_neg (by simp [hasTail.1])] at located
    rcases Outcome.bind_eq_ok.mp located with ⟨found, got, -⟩
    rcases Outcome.bind_eq_ok.mp got with ⟨table, attached, -⟩
    exact Option.isSome_iff_exists.mpr ⟨table, Outcome.ofOption_eq_ok.mp attached⟩
  fragmentFits := by
    intro hasTail entry located overfills
    rcases wellFormed.fragment_read countInRange hasTail with ⟨block, read⟩
    rw [@sqfsFragmentReadBlock_of_overfills ctx.apart _ _ located overfills] at read
    cases read

end WellFormed

/-! ## Passes of the loop -/

/-- What the loop keeps in a request of `total` bytes. -/
structure Advancing (file : SqfsFileCtx) (total : Nat) (state : ReadState DataCache) : Prop where
  sound : Sound file state
  sum : state.bytesRead + state.bytesRemaining = total

def GetsOn (file : SqfsFileCtx) (total : Nat) (state : ReadState DataCache) :
    Pass (ReadState DataCache) (Option (ReadResult DataCache)) → Prop
  | .leave none => False
  | .leave (some result) => result.cache.Consistent
  | .again next => Advancing file total next ∧ next.bytesRemaining < state.bytesRemaining

section Passes

variable {ctx : SqfsCtx} {file : SqfsFileCtx} {offset total blockOffset : Nat}
  {state : ReadState DataCache}

theorem Advancing.copied {bytes : List Cell} {blockBuf : List Cell} {after : DataCache}
    (advancing : Advancing file total state) (room : blockBuf.length = file.blockSize)
    (consistent : after.Consistent) (positive : 0 < bytes.length)
    (fits : bytes.length ≤ state.bytesRemaining) :
    GetsOn file total state (.again (({ state with blockBuf, cache := after }).copied bytes)) := by
  have sum := advancing.sum
  refine ⟨⟨⟨room, consistent⟩, ?_⟩, ?_⟩
  · simp only [ReadState.copied]
    omega
  · simp only [ReadState.copied]
    omega

theorem Advancing.returned (advancing : Advancing file total state) (ret : Int) :
    GetsOn file total state (.leave (some (state.returned ret))) :=
  advancing.sound.cache

def LeavesConsistent : Outcome (SqfsError × DataCache) (α × DataCache) → Prop
  | .ok (_, after) => after.Consistent
  | .err (_, after) => after.Consistent
  | .fault => True

private theorem sqfsFragmentRead_leaves {cache : DataCache} (consistent : cache.Consistent)
    (fragIdx fragOffset size : Nat) :
    LeavesConsistent (sqfsFragmentRead dataCache ctx cache fragIdx fragOffset size) := by
  have serves := dataCache_serves fun _ entry => entry.data.length < 2 ^ 64
  rw [sqfsFragmentRead]
  split
  · exact consistent
  · split
    · exact consistent
    · rcases serves.get cache (sqfsFragmentCacheKey fragIdx) consistent with
        ⟨after, found, run, afterConsistent, -⟩
      rw [run]
      dsimp only
      split
      · exact afterConsistent
      · have newConsistent := serves.new after afterConsistent
        rw [fragmentReadMissing]
        dsimp only
        cases content : sqfsFragmentReadBlock ctx fragIdx with
        | ok data =>
            have small : data.length < 2 ^ 64 := Nat.lt_of_le_of_lt
              (sqfsFragmentReadBlock_length content)
              (Nat.lt_of_le_of_lt ctx.sb.blockSize_le (by decide))
            rcases serves.put (dataCache.new after).1 (sqfsFragmentCacheKey fragIdx)
                ⟨(dataCache.new after).2, data, true⟩ (blockEntrySize + ctx.sb.blockSize)
                newConsistent small with ⟨stored, result, putRun, storedConsistent⟩
            simp only [putRun]
            change DataCache.Consistent (if result = .stored then stored else _)
            split
            · exact storedConsistent
            · exact serves.free _ _ storedConsistent
        | err code => exact serves.free _ _ newConsistent
        | fault => trivial

private theorem sqfsFragmentRead_defined {cache : DataCache} {fragIdx fragOffset : Nat}
    (consistent : cache.Consistent)
    (defined : fragOffset < ctx.sb.blockSize → (sqfsFragmentReadBlock ctx fragIdx).Defined)
    (size : Nat) :
    (sqfsFragmentRead dataCache ctx cache fragIdx fragOffset size).Defined := by
  have serves := dataCache_serves fun _ entry => entry.data.length < 2 ^ 64
  rw [sqfsFragmentRead]
  split
  · exact Outcome.defined_err _
  · split
    · exact Outcome.defined_err _
    · next inside =>
        rcases serves.get cache (sqfsFragmentCacheKey fragIdx) consistent with
          ⟨after, found, run, afterConsistent, -⟩
        rw [run]
        dsimp only
        split
        · exact Outcome.defined_ok _
        · rw [fragmentReadMissing]
          dsimp only
          rcases (defined (Nat.lt_of_not_le inside)).cases with ⟨data, content⟩ | ⟨code, failed⟩
          · have small : data.length < 2 ^ 64 := Nat.lt_of_le_of_lt
              (sqfsFragmentReadBlock_length content)
              (Nat.lt_of_le_of_lt ctx.sb.blockSize_le (by decide))
            rcases serves.put (dataCache.new after).1 (sqfsFragmentCacheKey fragIdx)
                ⟨(dataCache.new after).2, data, true⟩ (blockEntrySize + ctx.sb.blockSize)
                (serves.new after afterConsistent) small with ⟨stored, result, putRun, -⟩
            simp only [content, putRun]
            exact Outcome.defined_ok _
          · simp only [failed]
            exact Outcome.defined_err _

private theorem readTail_leaves {result : ReadResult DataCache} (consistent : state.cache.Consistent)
    (read : readTail dataCache ctx file blockOffset state = some result) :
    result.cache.Consistent := by
  have leaves := @sqfsFragmentRead_leaves ctx state.cache consistent file.fragIdx
    (u32 (file.fragOffset + blockOffset)) state.bytesRemaining
  rw [readTail, readFromFragment] at read
  cases fragment : sqfsFragmentRead dataCache ctx state.cache file.fragIdx
      (u32 (file.fragOffset + blockOffset)) state.bytesRemaining with
  | ok found =>
      rw [fragment] at leaves read
      simp only [Option.bind_eq_bind, Option.bind_some] at read
      split at read <;> cases read <;> exact leaves
  | err failure =>
      rw [fragment] at leaves read
      simp only [Option.bind_eq_bind, Option.bind_some] at read
      split at read <;> cases read <;> exact leaves
  | fault =>
      rw [fragment] at read
      cases read

private theorem readTail_defined (consistent : state.cache.Consistent)
    (defined : u32 (file.fragOffset + blockOffset) < ctx.sb.blockSize →
      (sqfsFragmentReadBlock ctx file.fragIdx).Defined) :
    ∃ result, readTail dataCache ctx file blockOffset state = some result := by
  rw [readTail, readFromFragment]
  rcases (sqfsFragmentRead_defined consistent defined state.bytesRemaining).cases with
    ⟨found, read⟩ | ⟨failure, read⟩
  · rw [read]
    simp only [Option.bind_eq_bind, Option.bind_some]
    split <;> exact ⟨_, rfl⟩
  · rw [read]
    simp only [Option.bind_eq_bind, Option.bind_some]
    split <;> exact ⟨_, rfl⟩

theorem Advancing.tail (advancing : Advancing file total state)
    (defined : u32 (file.fragOffset + blockOffset) < ctx.sb.blockSize →
      (sqfsFragmentReadBlock ctx file.fragIdx).Defined) :
    GetsOn file total state (.leave (readTail dataCache ctx file blockOffset state)) := by
  rcases readTail_defined advancing.sound.cache defined with ⟨result, read⟩
  rw [read]
  exact readTail_leaves advancing.sound.cache read

theorem Advancing.missing {location : BlockLocation} (advancing : Advancing file total state)
    (small : file.blockSize ≤ 2 ^ 20) (inBlock : blockOffset < file.blockSize)
    (unfinished : state.bytesRemaining ≠ 0) (notHole : location.size ≠ 0)
    (defined : (storedContent ctx location file.blockSize).Defined)
    (goesOn : ∀ data, storedContent ctx location file.blockSize = .ok data →
      data.length ≠ blockOffset) :
    GetsOn file total state (readMissing dataCache ctx file location blockOffset state) := by
  have sound := advancing.sound
  rw [readMissing, sqfsDataReadBlock_eq _ _ _ _ notHole]
  rcases defined.cases with ⟨data, content⟩ | ⟨code, failed⟩
  · have fits := storedContent_length content
    have bytes : ((refill location state.blockBuf file.blockSize data).take
        data.length).map (Option.getD · 0) = data := by
      rw [refill_take, List.map_map]
      exact List.map_id data
    have accepts : ∀ address : Nat, data ≠ [] →
        (⟨address, data, true⟩ : BlockEntry).data.length < 2 ^ 64 := by
      intro address _
      exact Nat.lt_of_le_of_lt fits (Nat.lt_of_le_of_lt small (by decide))
    rcases offerBlock_serves location.pos data
        (dataCache_serves fun _ entry => entry.data.length < 2 ^ 64) sound.cache accepts with
      ⟨after, run, consistent⟩
    simp only [content, Outcome.ok_bind, Outcome.pure_eq, bytes, run]
    have length := @refill_part_length file location state.blockBuf data blockOffset
      state.bytesRemaining small inBlock sound.blockBuf fits
    have positive := copyLength_pos small inBlock fits unfinished (goesOn data content)
    rw [copyLength] at length positive
    apply advancing.copied (refill_length sound.blockBuf fits) consistent
    · rw [length]
      exact positive
    · rw [length]
      omega
  · rw [failed, Outcome.err_bind]
    exact advancing.returned _

theorem Advancing.stored {location : BlockLocation} (advancing : Advancing file total state)
    (small : file.blockSize ≤ 2 ^ 20) (inBlock : blockOffset < file.blockSize)
    (unfinished : state.bytesRemaining ≠ 0) (notHole : location.size ≠ 0)
    (defined : (storedContent ctx location file.blockSize).Defined)
    (goesOn : ∀ data, storedContent ctx location file.blockSize = .ok data →
      data.length ≠ blockOffset) :
    GetsOn file total state (readStored dataCache ctx file location blockOffset state) := by
  rcases (dataCache_serves fun _ entry => entry.data.length < 2 ^ 64).get state.cache
      (sqfsDataBlockCacheKey location.pos) advancing.sound.cache with
    ⟨after, found, run, consistent, fitting⟩
  rw [readStored, run]
  dsimp only
  split
  · next bytes hit =>
      have length := copyFromCached_length fitting hit
      exact advancing.copied advancing.sound.blockBuf consistent length.1 length.2
  · have looked : Advancing file total { state with cache := after } :=
      ⟨⟨advancing.sound.blockBuf, consistent⟩, advancing.sum⟩
    exact looked.missing small inBlock unfinished notHole defined goesOn

private theorem readMissing_leaves {location : BlockLocation} {result : ReadResult DataCache}
    (consistent : state.cache.Consistent)
    (left : readMissing dataCache ctx file location blockOffset state = .leave (some result)) :
    result.cache.Consistent := by
  rw [readMissing] at left
  split at left
  · cases left
  · cases left
    exact consistent
  · dsimp only at left
    split at left
    · cases left
    · cases left

private theorem readStored_leaves {location : BlockLocation} {result : ReadResult DataCache}
    (consistent : state.cache.Consistent)
    (left : readStored dataCache ctx file location blockOffset state = .leave (some result)) :
    result.cache.Consistent := by
  rcases (dataCache_serves fun _ entry => entry.data.length < 2 ^ 64).get state.cache
      (sqfsDataBlockCacheKey location.pos) consistent with
    ⟨after, found, run, afterConsistent, -⟩
  rw [readStored, run] at left
  dsimp only at left
  split at left
  · cases left
  · exact @readMissing_leaves ctx file blockOffset { state with cache := after } location result
      afterConsistent left

/-- A result of the loop leaves a consistent cache behind, whatever the blocks hold. -/
theorem Sound.left {result : ReadResult DataCache} (sound : Sound file state)
    (left : readPass dataCache ctx file offset state = .leave (some result)) :
    result.cache.Consistent := by
  rw [readPass] at left
  split at left
  · cases left
    exact sound.cache
  · dsimp only at left
    split at left
    · exact readTail_leaves sound.cache (Pass.leave.inj left)
    · split at left
      · cases left
      · split at left
        · cases left
          exact sound.cache
        · cases left
          exact sound.cache
      · split at left
        · cases left
        · exact readStored_leaves sound.cache left

theorem Advancing.pass (advancing : Advancing file total state) (positive : 0 < file.blockSize)
    (small : file.blockSize ≤ 2 ^ 20)
    (answers : ∀ pos, offset ≤ pos → pos < offset + total → AnswersAt ctx file pos) :
    GetsOn file total state (readPass dataCache ctx file offset state) := by
  have sum := advancing.sum
  by_cases finished : state.bytesRemaining = 0
  · rw [readPass, if_pos finished]
    exact advancing.returned _
  · have inBlock : u64 (offset + state.bytesRead) % file.blockSize < file.blockSize :=
      Nat.mod_lt _ positive
    have here := answers (offset + state.bytesRead) (Nat.le_add_right _ _) (by omega)
    have holds := placeAt_holds file (offset + state.bytesRead)
    let progress : Progress := ⟨state.bytesRead, state.bytesRemaining, state.out⟩
    rw [AnswersAt] at here
    cases place : placeAt file (offset + state.bytesRead) with
    | hole =>
        have pass := @readPass_hole _ ctx file offset progress dataCache state.blockBuf
          state.cache finished place
        rw [show progress.state state.blockBuf state.cache = state from rfl] at pass
        rw [pass]
        apply advancing.copied advancing.sound.blockBuf advancing.sound.cache
        · simp only [List.length_replicate, holeLength, progress]
          omega
        · simp only [List.length_replicate, holeLength, progress]
          omega
    | tail =>
        rw [place] at holds here
        have pass := @readPass_tail _ ctx file offset progress dataCache state.blockBuf
          state.cache finished place
        rw [show progress.state state.blockBuf state.cache = state from rfl] at pass
        rw [pass]
        exact advancing.tail fun inside =>
          (sqfsFragmentReadBlock_defined_iff holds.2).mpr (here inside)
    | stored =>
        rw [place] at holds here
        rcases holds with ⟨notTail, location, located, notHole⟩
        have atStored : AtStored file offset state location :=
          ⟨finished, notTail, located, notHole⟩
        rw [atStored.pass]
        have fits := here location located
        exact advancing.stored small inBlock finished notHole
          ((storedContent_defined_iff notHole).mpr fits.1) fits.2
    | outside =>
        rcases @readPass_outside _ _ progress ctx finished place with ⟨plain, leaves⟩
        have pass := leaves DataCache dataCache state.blockBuf state.cache
        rw [show progress.state state.blockBuf state.cache = state from rfl] at pass
        rw [pass]
        exact advancing.sound.cache
    | unlisted =>
        rw [place] at here
        exact here.elim

def Responds (call : Option (ReadResult DataCache) → Prop) : Prop :=
  (∃ outcome, call outcome) ∧
    ∀ outcome, call outcome → ∃ result, outcome = some result ∧ result.cache.Consistent

theorem Advancing.responds (advancing : Advancing file total state)
    (positive : 0 < file.blockSize) (small : file.blockSize ≤ 2 ^ 20)
    (answers : ∀ pos, offset ≤ pos → pos < offset + total → AnswersAt ctx file pos) :
    Responds (Pass.Returns (readPass dataCache ctx file offset) state) := by
  have pass (state : ReadState DataCache) (advancing : Advancing file total state) :=
    advancing.pass positive small answers
  constructor
  · apply Pass.Terminates.of_variant ReadState.bytesRemaining (Advancing file total) advancing
    intro state next advancing again
    have getsOn := pass state advancing
    rw [again] at getsOn
    exact getsOn
  · intro outcome returned
    apply @Pass.Returns.invariant _ _ _ _ _ (Advancing file total) _ returned advancing
    · intro state next advancing again
      have getsOn := pass state advancing
      rw [again] at getsOn
      exact getsOn.1
    · intro state outcome advancing left
      have getsOn := pass state advancing
      rw [left] at getsOn
      cases outcome with
      | none => exact getsOn.elim
      | some result => exact ⟨result, rfl, getsOn⟩

end Passes

theorem consistent_of_read {ctx : SqfsCtx} {inode : SqfsInode} {cache : DataCache}
    {offset size : Nat} {result : ReadResult DataCache} (consistent : cache.Consistent)
    (read : SqfsDataRead dataCache ctx cache inode offset size (some result)) :
    result.cache.Consistent := by
  rcases readStart_returns_or_enters ctx inode offset size with
    ⟨ret, returns⟩ | ⟨file, entered, loops⟩
  · rw [SqfsDataRead, returns] at read
    cases read
    exact consistent
  · rcases sound_of_loops (loops _ cache) consistent with ⟨sound, small, positive⟩
    rw [SqfsDataRead, loops] at read
    have leaves : ∀ last, some result = some last → last.cache.Consistent := by
      apply @Pass.Returns.invariant _ _ _ _ _ (Sound file)
        (fun outcome => ∀ last, outcome = some last → last.cache.Consistent) read sound
      · exact fun state next held again => held.again small positive again
      · rintro state outcome held left last rfl
        exact held.left left
    exact leaves result rfl

theorem sqfsDataRead_responds {ctx : SqfsCtx} {inode : SqfsInode} {cache : DataCache}
    {offset size : Nat} (consistent : cache.Consistent)
    (answers : ∀ file, Enters ctx inode offset size file →
      ∀ pos, offset ≤ pos → pos < offset + requestSize file offset size →
        AnswersAt ctx file pos) :
    Responds (SqfsDataRead dataCache ctx cache inode offset size) := by
  rcases readStart_returns_or_enters ctx inode offset size with
    ⟨ret, returns⟩ | ⟨file, entered, loops⟩
  · simp only [Responds, SqfsDataRead, returns]
    exact ⟨⟨_, rfl⟩, fun outcome equal => ⟨_, equal, consistent⟩⟩
  · have blockSize := (sqfsFileCtxInit_fields entered.init).1
    have advancing : Advancing file (requestSize file offset size) {
        bytesRead := 0
        bytesRemaining := requestSize file offset size
        out := []
        blockBuf := List.replicate file.blockSize none
        cache } := ⟨⟨List.length_replicate, consistent⟩, Nat.zero_add _⟩
    simp only [Responds, SqfsDataRead, loops]
    exact advancing.responds (blockSize ▸ ctx.sb.blockSize_pos)
      (blockSize ▸ ctx.sb.blockSize_le) (answers file entered)

theorem SafeFile.sqfsDataRead_responds {ctx : SqfsCtx} {inode : SqfsInode} {file : SqfsFileCtx}
    {cache : DataCache} {offset size : Nat} (safe : SafeFile ctx file)
    (init : sqfsFileCtxInit ctx.sb inode = .ok file)
    (listed : file.blockSizes.length = file.blockCount) (noWrap : offset + size < 2 ^ 64)
    (consistent : cache.Consistent) :
    Responds (SqfsDataRead dataCache ctx cache inode offset size) := by
  apply SquashfsFuse.sqfsDataRead_responds consistent
  intro other entered pos behind before
  obtain rfl : other = file := Except.ok.inj (entered.init.symm.trans init)
  have inside := entered.insideFile
  rw [requestSize_of_lt inside noWrap] at before
  have blockSize := (sqfsFileCtxInit_fields init).1
  exact safe.answersAt listed (blockSize ▸ ctx.sb.blockSize_pos) (sqfsFileCtxInit_bounds init).1
    (by omega)

end SquashfsFuse
