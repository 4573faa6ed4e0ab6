import SquashfsFuse.Data.Answering
import SquashfsFuse.Fuse.NoCache

/-! Reads on an image that need not have a fragment table. -/

namespace SquashfsFuse

/-! ## Where the table is dereferenced -/

/-- A pass reads a tail inside a fragment block that the cache does not hold. The next
thing it does is to look into the fragment table. -/
structure LooksIntoTable (ctx : SqfsCtx) (file : SqfsFileCtx) (offset : Nat)
    (state : ReadState DataCache) : Prop where
  unfinished : state.bytesRemaining ≠ 0
  tail : TailAt file (offset + state.bytesRead)
  inside : u32 (file.fragOffset + u64 (offset + state.bytesRead) % file.blockSize) <
    ctx.sb.blockSize
  missed : ∃ after found,
    dataCache.get state.cache (sqfsFragmentCacheKey file.fragIdx) = some (after, found) ∧
      found.filter BlockEntry.isCached = none

def ReadCall.DereferencesAbsentTable (ctx : SqfsCtx) (state : DataCache) (call : ReadCall) :
    Prop :=
  ctx.fragmentTable = none ∧ ∃ file begun reached,
    readStart ctx state call.inode call.offset call.size = .loops file begun ∧
    Pass.Enters (readPass dataCache ctx file call.offset) begun reached ∧
    LooksIntoTable ctx file call.offset reached

/-! ## Lookups that miss -/

section Missed

variable {ctx : SqfsCtx} {file : SqfsFileCtx} {state : ReadState DataCache} {blockOffset : Nat}

def DataCache.Misses (state : DataCache) (key : Nat) : Prop :=
  ∃ after found, dataCache.get state key = some (after, found) ∧
    found.filter BlockEntry.isCached = none

theorem DataCache.misses_of_empty {state : DataCache} (empty : state.Keeps fun _ _ => False)
    (key : Nat) : state.Misses key := by
  rcases (dataCache_serves fun _ _ => False).get state key empty with
    ⟨after, found, looked, -, none⟩
  refine ⟨after, found, looked, ?_⟩
  cases found with
  | none => rfl
  | some entry => exact (none entry rfl).elim

private theorem readTail_none (some : sqfsFragmentIsNone file.fragIdx = false)
    (inside : u32 (file.fragOffset + blockOffset) < ctx.sb.blockSize)
    (misses : state.cache.Misses (sqfsFragmentCacheKey file.fragIdx))
    (faults : sqfsFragmentReadBlock ctx file.fragIdx = .fault) :
    readTail dataCache ctx file blockOffset state = none := by
  rcases misses with ⟨after, found, looked, missed⟩
  have crashes : sqfsFragmentRead dataCache ctx state.cache file.fragIdx
      (u32 (file.fragOffset + blockOffset)) state.bytesRemaining = .fault := by
    rw [sqfsFragmentRead, some, if_neg Bool.false_ne_true, if_neg (Nat.not_le_of_lt inside),
      looked]
    dsimp only
    rw [missed]
    dsimp only
    rw [fragmentReadMissing, faults]
  rw [readTail, readFromFragment, crashes]
  rfl

private theorem readStored_none {location : BlockLocation} (notHole : location.size ≠ 0)
    (misses : state.cache.Misses (sqfsDataBlockCacheKey location.pos))
    (faults : storedContent ctx location file.blockSize = .fault) :
    readStored dataCache ctx file location blockOffset state = .leave none := by
  rcases misses with ⟨after, found, looked, missed⟩
  have nothing : copyFromCached found blockOffset state.bytesRemaining = none := by
    rw [copyFromCached, missed]
    rfl
  rw [readStored, looked]
  dsimp only
  rw [nothing]
  dsimp only
  rw [readMissing, sqfsDataReadBlock_eq _ _ _ _ notHole, faults, Outcome.fault_bind]

end Missed

theorem ReadCall.DereferencesAbsentTable.crashes {ctx : SqfsCtx} {state : DataCache}
    {call : ReadCall} (dereferences : call.DereferencesAbsentTable ctx state) :
    SqfsDataRead dataCache ctx state call.inode call.offset call.size none := by
  rcases dereferences with ⟨absent, file, begun, reached, loops, enters, looks⟩
  have left : readPass dataCache ctx file call.offset reached = .leave none := by
    rw [readPass, if_neg looks.unfinished]
    dsimp only
    apply (if_pos looks.tail).trans
    rw [readTail_none looks.tail.2 looks.inside looks.missed
      (sqfsFragmentReadBlock_of_absent looks.tail.2 absent)]
  rw [SqfsDataRead, loops]
  exact enters.returns (.of_leave left)

/-! ## Positions of a request -/

private theorem exists_inFile {file : SqfsFileCtx} {pos : Nat} (positive : 0 < file.blockSize)
    (small : file.blockSize ≤ 2 ^ 20) (long : 2 ^ 63 < file.fileSize) :
    ∃ other < file.fileSize, u32 (other / file.blockSize) = u32 (u64 pos / file.blockSize) ∧
      other % file.blockSize = u64 pos % file.blockSize := by
  have inBlock : u64 pos % file.blockSize < file.blockSize := Nat.mod_lt _ positive
  have index : u32 (u64 pos / file.blockSize) < 2 ^ 32 := Nat.mod_lt _ (by decide)
  have front : file.blockSize * u32 (u64 pos / file.blockSize) ≤ 2 ^ 20 * 2 ^ 32 :=
    Nat.mul_le_mul small (Nat.le_of_lt index)
  refine ⟨file.blockSize * u32 (u64 pos / file.blockSize) + u64 pos % file.blockSize,
    by omega, ?_, ?_⟩
  · rw [Nat.mul_add_div positive, Nat.div_eq_of_lt inBlock, Nat.add_zero, u32_of_lt index]
  · rw [Nat.mul_add_mod, Nat.mod_eq_of_lt inBlock]

section Positions

variable {ctx : SqfsCtx} {file : SqfsFileCtx} {pos other : Nat}

/-- A request is for positions of blocks that the file has. The kernel's buffers have fewer
than `2 ^ 63` bytes. -/
theorem Enters.inFile {inode : SqfsInode} {offset size : Nat}
    (entered : Enters ctx inode offset size file) (sizeFits : size < 2 ^ 63)
    (before : pos < offset + requestSize file offset size) :
    ∃ other < file.fileSize, u32 (u64 other / file.blockSize) = u32 (u64 pos / file.blockSize) ∧
      u64 other % file.blockSize = u64 pos % file.blockSize := by
  have inside := entered.insideFile
  have bounds := sqfsFileCtxInit_bounds entered.init
  have blockSize := (sqfsFileCtxInit_fields entered.init).1
  by_cases noWrap : offset + size < 2 ^ 64
  · have clamped := requestSize_of_lt inside noWrap
    exact ⟨pos, by omega, rfl, rfl⟩
  · rcases @exists_inFile file pos (blockSize ▸ ctx.sb.blockSize_pos)
      (blockSize ▸ ctx.sb.blockSize_le) (by omega) with ⟨other, inFile, index, start⟩
    have here : u64 other = other := u64_of_lt (Nat.lt_trans inFile bounds.1)
    exact ⟨other, inFile, here.symm ▸ index, here.symm ▸ start⟩

theorem placeAt_congr
    (index : u32 (u64 other / file.blockSize) = u32 (u64 pos / file.blockSize)) :
    placeAt file other = placeAt file pos := by
  rw [placeAt, placeAt, index]

theorem AnswersAt.congr (answers : AnswersAt ctx file other)
    (index : u32 (u64 other / file.blockSize) = u32 (u64 pos / file.blockSize))
    (start : u64 other % file.blockSize = u64 pos % file.blockSize) :
    AnswersAt ctx file pos := by
  rwa [AnswersAt, placeAt_congr index, index, start] at answers

private theorem looksUp_congr (index : u32 (u64 other / file.blockSize) = u32 (u64 pos / file.blockSize))
    (start : u64 other % file.blockSize = u64 pos % file.blockSize) :
    LooksUp ctx file other ↔ LooksUp ctx file pos := by
  rw [LooksUp, LooksUp, placeAt_congr index, start]

end Positions

/-! ## Reads of one byte -/

section OneByte

variable {ctx : SqfsCtx} {inode : SqfsInode} {file : SqfsFileCtx} {pos : Nat}

theorem enters_one (init : sqfsFileCtxInit ctx.sb inode = .ok file)
    (inFile : pos < file.fileSize) :
    Enters ctx inode pos 1 file ∧ requestSize file pos 1 = 1 := by
  have bounds := sqfsFileCtxInit_bounds init
  have one : requestSize file pos 1 = 1 := by
    rw [requestSize_of_lt inFile (by omega)]
    omega
  exact ⟨⟨init, inFile, by omega⟩, one⟩

private theorem answersAt_of_returns {cache : DataCache} (init : sqfsFileCtxInit ctx.sb inode = .ok file)
    (inFile : pos < file.fileSize) (empty : cache.Keeps fun _ _ => False)
    {result : ReadResult DataCache}
    (read : SqfsDataRead dataCache ctx cache inode pos 1 (some result)) :
    AnswersAt ctx file pos := by
  rcases enters_one init inFile with ⟨entered, one⟩
  have blockSize := (sqfsFileCtxInit_fields init).1
  have holds := placeAt_holds file pos
  let begun : ReadState DataCache :=
    (⟨0, 1, []⟩ : Progress).state (List.replicate file.blockSize none) cache
  have loops : Pass.Returns (readPass dataCache ctx file pos) begun (some result) := by
    rw [SqfsDataRead, entered.begins, one] at read
    exact read
  have goesOn : readPass dataCache ctx file pos begun ≠ .leave none := by
    intro crashes
    cases loops.unique (.of_leave crashes)
  rw [AnswersAt]
  cases place : placeAt file pos with
  | hole => trivial
  | outside => trivial
  | unlisted => exact goesOn (readPass_unlisted dataCache _ _ (by decide) place)
  | tail =>
      rw [place] at holds
      intro inside
      apply (sqfsFragmentReadBlock_defined_iff holds.2).mp
      intro faults
      apply goesOn
      have pass := @readPass_tail _ ctx file pos ⟨0, 1, []⟩ dataCache
        (List.replicate file.blockSize none) cache (by decide) place
      exact pass.trans (congrArg Pass.leave
        (readTail_none holds.2 inside (DataCache.misses_of_empty empty _) faults))
  | stored =>
      rw [place] at holds
      rcases holds with ⟨notTail, found, atPos, notHole⟩
      intro location located
      obtain rfl : found = location := Outcome.ok.inj (atPos.symm.trans located)
      have atStored : AtStored file pos begun found := ⟨Nat.one_ne_zero, notTail, located, notHole⟩
      constructor
      · apply (storedContent_defined_iff notHole).mp
        intro faults
        apply goesOn
        exact atStored.pass.trans
          (readStored_none notHole (DataCache.misses_of_empty empty _) faults)
      · intro data content ends
        have stalls : Stalls ctx file pos begun :=
          ⟨found, data, atStored, content, ends, empty.mono fun _ _ none => none.elim⟩
        exact stalls.not_terminates List.length_replicate (blockSize ▸ ctx.sb.blockSize_le)
          ⟨_, loops⟩

/-- Where nothing is looked up, a position whose read returns is answered. -/
theorem answersAt_of_untouched {cache : DataCache}
    (init : sqfsFileCtxInit ctx.sb inode = .ok file) (inFile : pos < file.fileSize)
    (untouched : ¬ LooksUp ctx file pos) {result : ReadResult DataCache}
    (read : SqfsDataRead dataCache ctx cache inode pos 1 (some result)) :
    AnswersAt ctx file pos := by
  rw [LooksUp] at untouched
  rw [AnswersAt]
  cases place : placeAt file pos with
  | hole => trivial
  | outside => trivial
  | unlisted =>
      rcases enters_one init inFile with ⟨entered, one⟩
      rw [SqfsDataRead, entered.begins, one] at read
      have crashes := @readPass_unlisted _ ctx file pos ⟨0, 1, []⟩ dataCache
        (List.replicate file.blockSize none) cache (by decide) place
      cases Pass.Returns.unique read (.of_leave crashes)
  | tail =>
      rw [place] at untouched
      exact fun inside => absurd inside untouched
  | stored =>
      rw [place] at untouched
      exact absurd trivial untouched

private theorem usesCache_one (init : sqfsFileCtxInit ctx.sb inode = .ok file)
    (inFile : pos < file.fileSize) (looksUp : LooksUp ctx file pos) :
    ReadCall.UsesCache ctx ⟨inode, pos, 1⟩ := by
  rcases enters_one init inFile with ⟨entered, one⟩
  refine ⟨file, pos, entered, Nat.le_refl pos, ?_, looksUp, looksUp.ne_hole,
    fun _ behind before => absurd before (Nat.not_lt_of_le behind)⟩
  exact Nat.lt_add_of_pos_right (Nat.pos_of_ne_zero entered.nonempty)

end OneByte

/-! ## Mounted images -/

inductive CacheReached (ctx : SqfsCtx) (start : DataCache) : DataCache → Prop
  | start : CacheReached ctx start start
  | read {state} {call : ReadCall} {result : ReadResult DataCache} :
      CacheReached ctx start state →
      SqfsDataRead dataCache ctx state call.inode call.offset call.size (some result) →
      CacheReached ctx start result.cache

/-- Every read of the inode returns, and without dereferencing an absent fragment table,
whatever was read before. -/
def ReadsReturn (mounted : MountedCtx) (inode : SqfsInode) : Prop :=
  ∀ state, CacheReached mounted.ctx (.fresh mounted.caches.dataCache) state →
    ∀ offset size, offset < 2 ^ 64 → size < 2 ^ 63 →
      (∃ result, SqfsDataRead dataCache mounted.ctx state inode offset size (some result)) ∧
        ¬ ReadCall.DereferencesAbsentTable mounted.ctx state ⟨inode, offset, size⟩

section Mounted

variable {sqfsCompressorCreate : Nat → Option Compressor} {image : Image} {cacheSizeMb : Nat}
  {noCache : Bool} {mounted : MountedCtx}

private theorem Mounts.fragmentTable_eq_none_iff
    (mounts : Mounts sqfsCompressorCreate image cacheSizeMb noCache mounted) :
    mounted.ctx.fragmentTable = none ↔ mounted.ctx.sb.hasFragments = false := by
  have made := mounts.fragmentTable
  rw [initFragmentTable] at made
  cases announced : mounted.ctx.sb.hasFragments with
  | false =>
      rw [announced, if_neg (by decide)] at made
      exact iff_of_true (Outcome.ok.inj made).symm rfl
  | true =>
      rw [announced, if_pos rfl] at made
      apply iff_of_false _ (by decide)
      split at made
      · rw [← Outcome.ok.inj made]
        exact Option.some_ne_none _
      · rw [← Outcome.ok.inj made]
        exact Option.some_ne_none _
      · cases made

theorem CacheReached.consistent {state : DataCache}
    (mounts : Mounts sqfsCompressorCreate image cacheSizeMb false mounted)
    (reached : CacheReached mounted.ctx (.fresh mounted.caches.dataCache) state) :
    state.Consistent := by
  induction reached with
  | start => exact DataCache.keeps_fresh mounts.dataCache_with _
  | read _ read induction => exact consistent_of_read induction read

variable {inode : SqfsInode} {file : SqfsFileCtx} {state : DataCache} {offset size : Nat}

/-- With caches, a read returns when the positions in the file are answered. -/
theorem CacheReached.returns_with
    (mounts : Mounts sqfsCompressorCreate image cacheSizeMb false mounted)
    (reached : CacheReached mounted.ctx (.fresh mounted.caches.dataCache) state)
    (init : sqfsFileCtxInit mounted.ctx.sb inode = .ok file) (sizeFits : size < 2 ^ 63)
    (answers : ∀ pos < file.fileSize, AnswersAt mounted.ctx file pos) :
    ∃ result, SqfsDataRead dataCache mounted.ctx state inode offset size (some result) := by
  have responds : Responds (SqfsDataRead dataCache mounted.ctx state inode offset size) := by
    apply sqfsDataRead_responds (reached.consistent mounts)
    intro other entered pos behind before
    obtain rfl : other = file := Except.ok.inj (entered.init.symm.trans init)
    rcases entered.inFile sizeFits before with ⟨same, inFile, index, start⟩
    exact (answers same inFile).congr index start
  rcases responds with ⟨⟨outcome, read⟩, leaves⟩
  rcases leaves outcome read with ⟨result, rfl, -⟩
  exact ⟨result, read⟩

/-- Without caches, a read returns when no position in the file is looked up. -/
theorem CacheReached.returns_without (init : sqfsFileCtxInit mounted.ctx.sb inode = .ok file)
    (sizeFits : size < 2 ^ 63)
    (answers : ∀ pos < file.fileSize, AnswersAt mounted.ctx file pos ∧
      ¬ LooksUp mounted.ctx file pos) :
    ∃ result, SqfsDataRead dataCache mounted.ctx state inode offset size (some result) := by
  have untouched : ¬ ReadCall.UsesCache mounted.ctx ⟨inode, offset, size⟩ := by
    rintro ⟨other, pos, entered, -, before, looksUp, -⟩
    obtain rfl : other = file := Except.ok.inj (entered.init.symm.trans init)
    rcases entered.inFile sizeFits before with ⟨same, inFile, index, start⟩
    exact (answers same inFile).2 ((looksUp_congr index start).mpr looksUp)
  have listed : ¬ ReadCall.LacksSizeWord mounted.ctx ⟨inode, offset, size⟩ := by
    rintro ⟨other, pos, entered, -, before, unlisted, -⟩
    obtain rfl : other = file := Except.ok.inj (entered.init.symm.trans init)
    rcases entered.inFile sizeFits before with ⟨same, inFile, index, start⟩
    have here := (answers same inFile).1
    rw [AnswersAt, placeAt_congr index, unlisted] at here
    exact here
  rcases ReadCall.answer_untouched untouched with ⟨answer, lacks, reads⟩
  cases answer with
  | none => exact absurd (lacks.mp rfl) listed
  | some plain => exact ⟨_, reads DataCache dataCache state⟩

private theorem dereferencesAbsentTable_first {pos : Nat}
    (mounts : Mounts sqfsCompressorCreate image cacheSizeMb false mounted)
    (absent : mounted.ctx.fragmentTable = none)
    (init : sqfsFileCtxInit mounted.ctx.sb inode = .ok file) (inFile : pos < file.fileSize)
    (tail : TailAt file pos)
    (inside : u32 (file.fragOffset + u64 pos % file.blockSize) < mounted.ctx.sb.blockSize) :
    ReadCall.DereferencesAbsentTable mounted.ctx (.fresh mounted.caches.dataCache)
      ⟨inode, pos, 1⟩ := by
  rcases enters_one init inFile with ⟨entered, one⟩
  have empty := DataCache.keeps_fresh mounts.dataCache_with fun _ _ => False
  refine ⟨absent, file, _, _, entered.begins _, .start _, ?_⟩
  exact {
    unfinished := entered.nonempty
    tail := tail
    inside := inside
    missed := DataCache.misses_of_empty empty _ }

end Mounted

/-- On a mounted image every read of a file returns exactly when each position of the file is
answered, and without caches by a hole or by the zeros behind a fragment block. A tail in a
fragment block is answered only where the image announces a fragment table. -/
theorem readsReturn_iff (sqfsCompressorCreate : Nat → Option Compressor)
    (image : Image) (cacheSizeMb : Nat) (noCache : Bool) (mounted : MountedCtx)
    (initialised : initContext sqfsCompressorCreate image cacheSizeMb noCache = .ok mounted)
    (inode : SqfsInode) (file : SqfsFileCtx)
    (init : sqfsFileCtxInit mounted.ctx.sb inode = .ok file) :
    (ReadsReturn mounted inode ↔ ∀ pos < file.fileSize,
      AnswersAt mounted.ctx file pos ∧ (noCache = true → ¬ LooksUp mounted.ctx file pos)) ∧
    (mounted.ctx.fragmentTable.isSome ↔ mounted.ctx.sb.hasFragments = true) := by
  have mounts := initContext_mounts initialised
  constructor
  · constructor
    · intro returns pos inFile
      have bounds := sqfsFileCtxInit_bounds init
      rcases (returns _ .start pos 1 (Nat.lt_trans inFile bounds.1) (by decide)).1 with
        ⟨result, read⟩
      cases noCache with
      | false =>
          have empty := DataCache.keeps_fresh mounts.dataCache_with fun _ _ => False
          exact ⟨answersAt_of_returns init inFile empty read, fun without => by cases without⟩
      | true =>
          have untouched : ¬ LooksUp mounted.ctx file pos := by
            intro looksUp
            have crashes := (usesCache_one init inFile looksUp).faults
              (dataCache_get_absent mounts.buckets_without)
            cases crashes.unique read
          exact ⟨answersAt_of_untouched init inFile untouched read, fun _ => untouched⟩
    · intro answers state reached offset size _ sizeFits
      have returns : ∃ result,
          SqfsDataRead dataCache mounted.ctx state inode offset size (some result) := by
        cases noCache with
        | false =>
            exact reached.returns_with mounts init sizeFits
              fun pos inFile => (answers pos inFile).1
        | true =>
            exact CacheReached.returns_without init sizeFits
              fun pos inFile => ⟨(answers pos inFile).1, (answers pos inFile).2 rfl⟩
      apply And.intro returns
      intro dereferences
      rcases returns with ⟨result, read⟩
      cases dereferences.crashes.unique read
  · rw [Option.isSome_iff_ne_none, Ne, mounts.fragmentTable_eq_none_iff, Bool.not_eq_false]

/-- Every read of the stored file returns. -/
theorem readsReturn_threeByteFile :
    ReadsReturn (twoFiles false) (readFileAt (twoFiles false).ctx 32).inode := by
  have init : sqfsFileCtxInit (twoFiles false).ctx.sb
      (readFileAt (twoFiles false).ctx 32).inode = .ok (threeByteFile 216 (2 ^ 24 + 3)) := by
    decide +kernel
  have stored : ∀ pos < 3, placeAt (threeByteFile 216 (2 ^ 24 + 3)) pos = .stored := by decide
  have starts : ∀ pos < 3, sqfsFileBlockLocation (threeByteFile 216 (2 ^ 24 + 3))
      (u32 (u64 pos / 4096)) = .ok ⟨216, 2 ^ 24 + 3⟩ := by
    decide
  have block : storedContent (twoFiles false).ctx ⟨216, 2 ^ 24 + 3⟩ 4096 = .ok [97, 98, 99] := by
    decide +kernel
  apply (readsReturn_iff gzipOnly twoFileImage 32 false (twoFiles false) twoFiles_mounted.2
    (readFileAt (twoFiles false).ctx 32).inode _ init).1.mpr
  intro pos inFile
  apply And.intro _ (fun without => absurd without Bool.false_ne_true)
  rw [AnswersAt, stored pos inFile]
  intro location located
  obtain rfl : ⟨216, 2 ^ 24 + 3⟩ = location :=
    Outcome.ok.inj ((starts pos inFile).symm.trans located)
  constructor
  · apply (storedContent_defined_iff (by decide)).mp
    intro faults
    cases block.symm.trans faults
  · intro data content ends
    obtain rfl : [97, 98, 99] = data := Outcome.ok.inj (block.symm.trans content)
    have atThree : 3 = u64 pos % 4096 := ends
    have inThree : pos < 3 := inFile
    rw [u64_of_lt (by omega)] at atThree
    omega

/-! ## An image with a dangling tail -/

/-- The inodes of a root directory and of a file of three bytes in the fragment 0. -/
def danglingInodes : List UInt8 :=
  encodeInode ⟨0o755, 0, 0, 0, 1⟩ (.dir 0 2 3 0 3 : DiskBody 4096) ++
    encodeInode ⟨0o644, 0, 0, 0, 2⟩ (.file 0 0 0 3 [] (by decide) : DiskBody 4096)

private theorem danglingInodes_length : danglingInodes.length = 64 := by decide

def danglingImage : Image where
  bytes := rootImage squashfsFlagNoXattrs sqfsInvalidOffset danglingInodes 0 []
  sizeInOffT := by simp [rootImage, rootImageFront_length, danglingInodes_length]

def dangling : MountedCtx := mountedOn danglingImage false

/-- Reading the file of the image crashes. -/
theorem reads_dereference_absent_table :
    ¬ ∀ (sqfsCompressorCreate : Nat → Option Compressor) (image : Image) (cacheSizeMb : Nat)
      (noCache : Bool) (mounted : MountedCtx),
      initContext sqfsCompressorCreate image cacheSizeMb noCache = .ok mounted →
      ∀ (ref address : Nat) (inode : SqfsInode),
      sqfsInodeGetByRef mounted.ctx ref address = .ok inode →
      sqfsInodeIsFile inode.type = true → ReadsReturn mounted inode := by
  intro claim
  have mounted : initContext gzipOnly danglingImage 32 false = .ok dangling :=
    initContext_mountedOn (by decide +kernel)
  have mounts := initContext_mounts mounted
  have decoded := readFileAt_decoded (show (sqfsInodeGetByRef dangling.ctx 32
    0).toOption.isSome = true by decide +kernel)
  have init : sqfsFileCtxInit dangling.ctx.sb (readFileAt dangling.ctx 32).inode =
      .ok { tailFile 0 with blocksStart := 0, fileSize := 3, tailSize := 3 } := by
    decide +kernel
  have absent : dangling.ctx.fragmentTable = none :=
    mounts.fragmentTable_eq_none_iff.mpr (by decide +kernel)
  have returns := claim gzipOnly danglingImage 32 false dangling mounted 32 0
    (readFileAt dangling.ctx 32).inode decoded (by decide +kernel)
    (.fresh dangling.caches.dataCache) .start 0 1 (by decide) (by decide)
  exact returns.2 (dereferencesAbsentTable_first mounts absent init (by decide) ⟨rfl, rfl⟩
    (by decide +kernel))

end SquashfsFuse
