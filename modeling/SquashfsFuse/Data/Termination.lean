import SquashfsFuse.Data.Plain

/-! When the main loop of a read makes progress, and when it ends. -/

namespace SquashfsFuse

/-! ## Entries that a hit can use -/

def Usable (entry : BlockEntry) (blockOffset : Nat) : Prop :=
  entry.isCached = true ∧ blockOffset < entry.data.length

/-- The cache is in some consistent state. The size of a block is a `size_t`. -/
def DataCache.Consistent (state : DataCache) : Prop :=
  state.Keeps fun _ entry => entry.data.length < 2 ^ 64

def DataCache.Uncovered (state : DataCache) (key blockOffset : Nat) : Prop :=
  state.Keeps fun other entry =>
    entry.data.length < 2 ^ 64 ∧ (other = key → ¬ Usable entry blockOffset)

theorem copyFromCached_none_of_unusable {found : Option BlockEntry} {blockOffset
    bytesRemaining : Nat} (unusable : ∀ entry, found = some entry → ¬ Usable entry blockOffset) :
    copyFromCached found blockOffset bytesRemaining = none := by
  rw [copyFromCached]
  cases hit : found.filter BlockEntry.isCached with
  | none => rfl
  | some entry =>
      rcases Option.filter_eq_some_iff.mp hit with ⟨present, cached⟩
      exact if_neg fun covers => unusable entry present ⟨cached, covers.2⟩

private theorem unusable_of_copyFromCached_none {found : Option BlockEntry} {blockOffset
    bytesRemaining : Nat} (unfinished : bytesRemaining ≠ 0)
    (small : ∀ entry, found = some entry → entry.data.length < 2 ^ 64)
    (missed : copyFromCached found blockOffset bytesRemaining = none) :
    ∀ entry, found = some entry → ¬ Usable entry blockOffset := by
  intro entry present usable
  have difference := sub64_of_le (Nat.le_of_lt usable.2) (small entry present)
  have covers : 0 < min (sub64 entry.data.length blockOffset) bytesRemaining ∧
      blockOffset < entry.data.length := by
    have within := usable.2
    omega
  have kept := Option.filter_some_pos usable.1
  subst present
  rw [copyFromCached, kept] at missed
  simp only [Option.bind_eq_bind, Option.bind_some, if_pos covers] at missed
  contradiction

theorem copyFromCached_length {found : Option BlockEntry} {blockOffset bytesRemaining : Nat}
    {bytes : List Cell} (small : ∀ entry, found = some entry → entry.data.length < 2 ^ 64)
    (hit : copyFromCached found blockOffset bytesRemaining = some bytes) :
    0 < bytes.length ∧ bytes.length ≤ bytesRemaining := by
  rcases Option.bind_eq_some_iff.mp hit with ⟨entry, usable, copied⟩
  rcases Option.filter_eq_some_iff.mp usable with ⟨present, cached⟩
  have bound := small entry present
  simp only at copied
  split at copied
  · next covers =>
      cases copied
      have difference := sub64_of_le (Nat.le_of_lt covers.2) bound
      rw [difference] at covers ⊢
      rw [List.length_map, List.length_take, List.length_drop]
      omega
  · contradiction

/-! ## Stalling -/

section Progress

variable {ctx : SqfsCtx} {file : SqfsFileCtx} {offset : Nat} {state : ReadState DataCache}

def blockIdxAt (file : SqfsFileCtx) (offset : Nat) (state : ReadState C) : Nat :=
  u32 (u64 (offset + state.bytesRead) / file.blockSize)

def blockOffsetAt (file : SqfsFileCtx) (offset : Nat) (state : ReadState C) : Nat :=
  u64 (offset + state.bytesRead) % file.blockSize

/-- What the loop keeps whatever the blocks hold. -/
structure Sound (file : SqfsFileCtx) (state : ReadState DataCache) : Prop where
  blockBuf : state.blockBuf.length = file.blockSize
  cache : state.cache.Consistent

theorem ReadState.copied_remaining (state : ReadState C) (bytes : List Cell) :
    (state.copied bytes).bytesRemaining = state.bytesRemaining - bytes.length := rfl

theorem refill_part_length {location : BlockLocation} {blockBuf : List Cell}
    {data : List UInt8} {blockOffset bytesRemaining : Nat} (small : file.blockSize ≤ 2 ^ 20)
    (inBlock : blockOffset < file.blockSize) (room : blockBuf.length = file.blockSize)
    (fits : data.length ≤ file.blockSize) :
    (((refill location blockBuf file.blockSize data).drop blockOffset).take
      (copyLength file blockOffset bytesRemaining data.length)).length =
      copyLength file blockOffset bytesRemaining data.length := by
  have refines := @blockCells_refines file blockOffset location blockBuf data bytesRemaining
    small inBlock room fits
  rw [← refines.length_eq, blockCells_copyLength small fits]

theorem copyLength_pos {blockOffset bytesRemaining length : Nat}
    (small : file.blockSize ≤ 2 ^ 20) (inBlock : blockOffset < file.blockSize)
    (fits : length ≤ file.blockSize) (unfinished : bytesRemaining ≠ 0)
    (notEnd : length ≠ blockOffset) : 0 < copyLength file blockOffset bytesRemaining length := by
  by_cases within : blockOffset ≤ length
  · rw [copyLength_inside small fits within]
    omega
  · rw [copyLength_behind small (by omega) inBlock]
    omega

theorem Sound.missing {location : BlockLocation} {blockOffset : Nat} (sound : Sound file state)
    (small : file.blockSize ≤ 2 ^ 20) (inBlock : blockOffset < file.blockSize)
    (unfinished : state.bytesRemaining ≠ 0) (notHole : location.size ≠ 0) :
    (∃ result, readMissing dataCache ctx file location blockOffset state = .leave result) ∨
    (∃ next, readMissing dataCache ctx file location blockOffset state = .again next ∧
      Sound file next ∧ next.bytesRemaining < state.bytesRemaining) ∨
    ∃ data, storedContent ctx location file.blockSize = .ok data ∧
      data.length = blockOffset := by
  rw [readMissing, sqfsDataReadBlock_eq _ _ _ _ notHole]
  cases content : storedContent ctx location file.blockSize with
  | fault => exact .inl ⟨_, rfl⟩
  | err error => exact .inl ⟨_, rfl⟩
  | ok data =>
      right
      have fits := storedContent_length content
      by_cases ends : data.length = blockOffset
      · exact .inr ⟨data, rfl, ends⟩
      · left
        have bytes : ((refill location state.blockBuf file.blockSize data).take
            data.length).map (Option.getD · 0) = data := by
          rw [refill_take, List.map_map]
          exact List.map_id data
        have accepts : ∀ address : Nat, data ≠ [] →
            (⟨address, data, true⟩ : BlockEntry).data.length < 2 ^ 64 := by
          intro address _
          exact lt_of_le_of_lt fits (by omega)
        rcases offerBlock_serves location.pos data
            (dataCache_serves fun _ entry => entry.data.length < 2 ^ 64) sound.cache accepts with
          ⟨after, run, consistent⟩
        simp only [Outcome.ok_bind, Outcome.pure_eq, bytes, run]
        have length := @refill_part_length file location state.blockBuf data blockOffset
          state.bytesRemaining small inBlock sound.blockBuf fits
        have positive := copyLength_pos small inBlock fits unfinished ends
        rw [copyLength] at length positive
        refine ⟨_, rfl, ⟨refill_length sound.blockBuf fits, consistent⟩, ?_⟩
        rw [ReadState.copied_remaining, length]
        simp only
        omega

structure AtStored (file : SqfsFileCtx) (offset : Nat) (state : ReadState C)
    (location : BlockLocation) : Prop where
  unfinished : state.bytesRemaining ≠ 0
  notTail : ¬ (blockIdxAt file offset state = file.blockCount ∧
    sqfsFragmentIsNone file.fragIdx = false)
  located : sqfsFileBlockLocation file (blockIdxAt file offset state) = .ok location
  notHole : location.size ≠ 0

theorem AtStored.pass {cache : BlockCache C} {state : ReadState C} {location : BlockLocation}
    (stored : AtStored file offset state location) :
    readPass cache ctx file offset state =
      readStored cache ctx file location (blockOffsetAt file offset state) state := by
  have located := stored.located
  have notTail := stored.notTail
  rw [blockIdxAt] at located notTail
  rw [readPass, if_neg stored.unfinished]
  simp only [if_neg notTail, located, if_neg stored.notHole]
  rfl

private theorem readPass_cases (cache : BlockCache C) (ctx : SqfsCtx) (file : SqfsFileCtx)
    (offset : Nat) (state : ReadState C) :
    (∃ result, readPass cache ctx file offset state = .leave result) ∨
    (∃ zeros : List Cell, zeros.length =
        min (file.blockSize - blockOffsetAt file offset state) state.bytesRemaining ∧
      state.bytesRemaining ≠ 0 ∧
      readPass cache ctx file offset state = .again (state.copied zeros)) ∨
    ∃ location, AtStored file offset state location := by
  by_cases finished : state.bytesRemaining = 0
  · exact .inl ⟨_, by rw [readPass, if_pos finished]⟩
  · by_cases atTail : blockIdxAt file offset state = file.blockCount ∧
        sqfsFragmentIsNone file.fragIdx = false
    · left
      rw [readPass, if_neg finished]
      exact ⟨_, if_pos atTail⟩
    · cases located : sqfsFileBlockLocation file (blockIdxAt file offset state) with
      | fault =>
          left
          rw [blockIdxAt] at located atTail
          rw [readPass, if_neg finished]
          simp only [if_neg atTail, located]
          exact ⟨_, rfl⟩
      | err error =>
          left
          rw [blockIdxAt] at located atTail
          rw [readPass, if_neg finished]
          simp only [if_neg atTail, located]
          split
          · exact ⟨_, rfl⟩
          · exact ⟨_, rfl⟩
      | ok location =>
          right
          by_cases hole : location.size = 0
          · left
            rw [blockIdxAt] at located atTail
            refine ⟨List.replicate _ (some 0), List.length_replicate, finished, ?_⟩
            rw [readPass, if_neg finished]
            simp only [if_neg atTail, located, if_pos hole]
            rfl
          · exact .inr ⟨location, finished, atTail, located, hole⟩

/-- The block on disk at the current position ends exactly at that position,
and the cache does not make up for it. -/
def Stalls (ctx : SqfsCtx) (file : SqfsFileCtx) (offset : Nat)
    (state : ReadState DataCache) : Prop :=
  ∃ location data, AtStored file offset state location ∧
    storedContent ctx location file.blockSize = .ok data ∧
    data.length = blockOffsetAt file offset state ∧
    state.cache.Uncovered location.pos (blockOffsetAt file offset state)

/-- Every pass ends the loop, decreases the bytes remaining, or stalls. -/
theorem Sound.pass (sound : Sound file state) (small : file.blockSize ≤ 2 ^ 20)
    (positive : 0 < file.blockSize) :
    (∃ result, readPass dataCache ctx file offset state = .leave result) ∨
    (∃ next, readPass dataCache ctx file offset state = .again next ∧
      Sound file next ∧ next.bytesRemaining < state.bytesRemaining) ∨
    Stalls ctx file offset state := by
  have inBlock : blockOffsetAt file offset state < file.blockSize := Nat.mod_lt _ positive
  rcases readPass_cases dataCache ctx file offset state with
    leaves | ⟨zeros, length, unfinished, again⟩ | ⟨location, stored⟩
  · exact .inl leaves
  · right
    left
    refine ⟨_, again, ⟨sound.blockBuf, sound.cache⟩, ?_⟩
    rw [ReadState.copied_remaining]
    omega
  · rcases (dataCache_serves fun _ entry => entry.data.length < 2 ^ 64).get state.cache
        (sqfsDataBlockCacheKey location.pos) sound.cache with
      ⟨after, found, run, consistent, fitting⟩
    have looked : Sound file { state with cache := after } := ⟨sound.blockBuf, consistent⟩
    rw [stored.pass, readStored, run]
    simp only
    cases hit : copyFromCached found (blockOffsetAt file offset state) state.bytesRemaining with
    | some bytes =>
        have length := copyFromCached_length fitting hit
        right
        left
        refine ⟨_, rfl, ⟨sound.blockBuf, consistent⟩, ?_⟩
        rw [ReadState.copied_remaining]
        simp only
        omega
    | none =>
        rcases looked.missing small inBlock stored.unfinished stored.notHole with
          leaves | progresses | ⟨data, content, ends⟩
        · exact .inl leaves
        · exact .inr (.inl progresses)
        · right
          right
          have unusable := unusable_of_copyFromCached_none stored.unfinished fitting hit
          exact ⟨location, data, stored, content, ends, sound.cache.of_get run unusable⟩

theorem Stalls.pass (stalls : Stalls ctx file offset state)
    (room : state.blockBuf.length = file.blockSize) (small : file.blockSize ≤ 2 ^ 20) :
    ∃ next, readPass dataCache ctx file offset state = .again next ∧
      next.bytesRemaining = state.bytesRemaining ∧
      next.blockBuf.length = file.blockSize ∧ Stalls ctx file offset next := by
  rcases stalls with ⟨location, data, stored, content, ends, uncovered⟩
  have fits := storedContent_length content
  have serves := dataCache_serves fun other entry => entry.data.length < 2 ^ 64 ∧
    (other = location.pos → ¬ Usable entry (blockOffsetAt file offset state))
  rcases serves.get state.cache (sqfsDataBlockCacheKey location.pos) uncovered with
    ⟨looked, found, run, lookedUncovered, unusable⟩
  have missed : copyFromCached found (blockOffsetAt file offset state) state.bytesRemaining =
      none :=
    copyFromCached_none_of_unusable fun entry present => (unusable entry present).2 rfl
  have accepts : ∀ address : Nat, data ≠ [] →
      data.length < 2 ^ 64 ∧ (location.pos = location.pos →
        ¬ Usable ⟨address, data, true⟩ (blockOffsetAt file offset state)) := by
    intro address _
    refine ⟨lt_of_le_of_lt fits (by omega), fun _ usable => ?_⟩
    exact absurd usable.2 (by simp only [ends, Nat.lt_irrefl, not_false_iff])
  rcases offerBlock_serves location.pos data serves lookedUncovered accepts with
    ⟨after, offered, afterUncovered⟩
  have bytes : ((refill location state.blockBuf file.blockSize data).take data.length).map
      (Option.getD · 0) = data := by
    rw [refill_take, List.map_map]
    exact List.map_id data
  have nothing : min (min (file.blockSize - blockOffsetAt file offset state)
      state.bytesRemaining) (sub64 data.length (blockOffsetAt file offset state)) = 0 := by
    rw [← ends, sub64_of_le (Nat.le_refl _) (by omega)]
    omega
  rw [stored.pass, readStored, run]
  simp only [missed, readMissing, sqfsDataReadBlock_eq _ _ _ _ stored.notHole, content,
    Outcome.ok_bind, Outcome.pure_eq, bytes, offered, nothing, List.take_zero]
  have sameState : AtStored file offset ({ state with
      blockBuf := refill location state.blockBuf file.blockSize data
      cache := after }.copied []) location :=
    ⟨stored.unfinished, stored.notTail, stored.located, stored.notHole⟩
  refine ⟨_, rfl, Nat.sub_zero _, refill_length room fits, ?_⟩
  exact ⟨location, data, sameState, content, ends, afterUncovered⟩

theorem Stalls.not_terminates (stalls : Stalls ctx file offset state)
    (room : state.blockBuf.length = file.blockSize) (small : file.blockSize ≤ 2 ^ 20) :
    ¬ Pass.Terminates (readPass dataCache ctx file offset) state := by
  apply Pass.not_terminates_of_invariant
    (fun stuck => stuck.blockBuf.length = file.blockSize ∧ Stalls ctx file offset stuck)
    ⟨room, stalls⟩
  intro stuckState held
  rcases held.2.pass held.1 small with ⟨next, pass, -, nextRoom, nextStalls⟩
  exact ⟨next, pass, nextRoom, nextStalls⟩

theorem Sound.again {next : ReadState DataCache} (sound : Sound file state)
    (small : file.blockSize ≤ 2 ^ 20) (positive : 0 < file.blockSize)
    (repeated : readPass dataCache ctx file offset state = .again next) : Sound file next := by
  rcases @Sound.pass ctx file offset state sound small positive with
    ⟨result, leaves⟩ | ⟨other, again, nextSound, -⟩ | stalls
  · rw [repeated] at leaves
    contradiction
  · rw [repeated] at again
    cases again
    exact nextSound
  · rcases stalls.pass sound.blockBuf small with ⟨other, again, -, room, stillStalls⟩
    rw [repeated] at again
    cases again
    rcases stillStalls with ⟨location, data, -, -, -, uncovered⟩
    exact ⟨room, uncovered.mono fun key entry allowed => allowed.1⟩

end Progress

/-! ## Whole calls -/

section Calls

variable {ctx : SqfsCtx} {inode : SqfsInode} {offset size : Nat} {cache : DataCache}
  {file : SqfsFileCtx} {start : ReadState DataCache}

theorem sound_of_loops (loops : readStart ctx cache inode offset size = .loops file start)
    (consistent : cache.Consistent) :
    Sound file start ∧ file.blockSize ≤ 2 ^ 20 ∧ 0 < file.blockSize := by
  rcases readStart_returns_or_enters ctx inode offset size with
    ⟨ret, returns⟩ | ⟨other, entered, enters⟩
  · rw [returns] at loops
    contradiction
  · rw [enters] at loops
    cases loops
    have blockSize := (sqfsFileCtxInit_fields entered.init).1
    exact ⟨⟨List.length_replicate, consistent⟩, blockSize ▸ ctx.sb.blockSize_le,
      blockSize ▸ ctx.sb.blockSize_pos⟩

/-- The main loop of a read finishes, with every pass ending it or decreasing
the bytes remaining, exactly when no state it enters the body at stalls. -/
theorem readLoop_terminates_iff
    (loops : readStart ctx cache inode offset size = .loops file start)
    (consistent : cache.Consistent) :
    (Pass.Terminates (readPass dataCache ctx file offset) start ∧
      ∀ state next, Pass.Enters (readPass dataCache ctx file offset) start state →
        readPass dataCache ctx file offset state = .again next →
        next.bytesRemaining < state.bytesRemaining) ↔
    ∀ state, Pass.Enters (readPass dataCache ctx file offset) start state →
      ¬ Stalls ctx file offset state := by
  rcases sound_of_loops loops consistent with ⟨sound, small, positive⟩
  constructor
  · intro finishes state entered stalls
    have reached : Sound file state := entered.invariant sound
      fun _ _ held again => held.again small positive again
    exact stalls.not_terminates reached.blockBuf small (finishes.1.of_enters entered)
  · intro never
    have decreases : ∀ state next, Sound file state ∧
        Pass.Enters (readPass dataCache ctx file offset) start state →
        readPass dataCache ctx file offset state = .again next →
        next.bytesRemaining < state.bytesRemaining := by
      intro state next held again
      rcases @Sound.pass ctx file offset state held.1 small positive with
        ⟨result, leaves⟩ | ⟨other, same, -, less⟩ | stalls
      · rw [again] at leaves
        contradiction
      · rw [again] at same
        cases same
        exact less
      · exact absurd stalls (never state held.2)
    have enters : ∀ state next, Sound file state ∧
        Pass.Enters (readPass dataCache ctx file offset) start state →
        readPass dataCache ctx file offset state = .again next →
        Sound file next ∧ Pass.Enters (readPass dataCache ctx file offset) start next :=
      fun state next held again =>
        ⟨held.1.again small positive again, held.2.trans (.again again (.start next))⟩
    constructor
    · apply Pass.Terminates.of_variant ReadState.bytesRemaining
        (fun state => Sound file state ∧
          Pass.Enters (readPass dataCache ctx file offset) start state)
        ⟨sound, .start start⟩
      exact fun state next held again =>
        ⟨enters state next held again, decreases state next held again⟩
    · intro state next entered again
      have reached : Sound file state := entered.invariant sound
        fun _ _ held repeated => held.again small positive repeated
      exact decreases state next ⟨reached, entered⟩ again

end Calls

/-- A file whose only block is stored as it is with length 0. -/
def emptyBlockFile : SqfsFileCtx where
  fileSize := 10
  blocksStart := 0
  blockSize := 4096
  blockCount := 1
  tailSize := 10
  fragIdx := fragmentInvalid
  fragOffset := 0
  blockSizes := [2 ^ 24]

private theorem emptyBlockFile_stalls {state : ReadState DataCache} (beginning : state.bytesRead = 0)
    (unfinished : state.bytesRemaining ≠ 0)
    (uncovered : state.cache.Uncovered 0 0) :
    Stalls (.onBytes [] (by decide)) emptyBlockFile 0 state := by
  have idx : blockIdxAt emptyBlockFile 0 state = 0 := by
    rw [blockIdxAt, beginning]
    decide
  have blockOffset : blockOffsetAt emptyBlockFile 0 state = 0 := by
    rw [blockOffsetAt, beginning]
    decide
  refine ⟨⟨0, 2 ^ 24⟩, [], ⟨unfinished, ?_, ?_, by decide⟩, by decide +kernel, ?_, ?_⟩
  · rw [idx]
    decide
  · rw [idx]
    decide +kernel
  · exact blockOffset.symm
  · rw [blockOffset]
    exact uncovered

/-- A block stored as it is with length 0 is read again and again. -/
theorem readLoop_hangs_on_empty_block :
    ∃ cache start, sqfsCacheInit 64 (2 ^ 20) true = some cache ∧
      readStart (.onBytes [] (by decide)) (.fresh cache)
        (.ofFile 10 0 fragmentInvalid 0 [2 ^ 24]) 0 10 = .loops emptyBlockFile start ∧
      ¬ Pass.Terminates
        (readPass dataCache (.onBytes [] (by decide)) emptyBlockFile 0) start := by
  rcases @SqfsCache.sqfsCacheInit_spec BlockEntry 64 (2 ^ 20) true (by decide) with
    ⟨cache, init, -⟩
  refine ⟨cache, _, init, rfl, Stalls.not_terminates ?_ List.length_replicate (by decide)⟩
  exact emptyBlockFile_stalls rfl (Nat.succ_ne_zero 9) (DataCache.keeps_fresh init _)

/-- The loop that reads a hole ends from every consistent cache. -/
theorem readLoop_terminates_on_hole :
    ∃ cache file start, sqfsCacheInit 64 (2 ^ 20) true = some cache ∧
      readStart (.onBytes [] (by decide)) (.fresh cache)
        (.ofFile 10 0 fragmentInvalid 0 [0]) 0 10 = .loops file start ∧
      Pass.Terminates (readPass dataCache (.onBytes [] (by decide)) file 0) start := by
  rcases @SqfsCache.sqfsCacheInit_spec BlockEntry 64 (2 ^ 20) true (by decide) with
    ⟨cache, init, -⟩
  refine ⟨cache, _, _, init, rfl, And.left
    ((@readLoop_terminates_iff _ (.ofFile 10 0 fragmentInvalid 0 [0]) 0 10 _ _ _ rfl
      (DataCache.keeps_fresh init _)).mpr ?_)⟩
  rintro state - ⟨location, data, stored, -⟩
  have located := stored.located
  generalize blockIdxAt _ 0 state = idx at located
  match idx with
  | 0 =>
      cases located
      exact stored.notHole rfl
  | idx + 1 =>
      have inRange := sqfsFileBlockLocation_lt located
      exact absurd inRange (Nat.not_lt_of_le (Nat.le_add_left 1 idx))

end SquashfsFuse
