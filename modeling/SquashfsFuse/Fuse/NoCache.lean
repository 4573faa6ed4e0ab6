import SquashfsFuse.Data.Leaks
import SquashfsFuse.Data.Untouched
import SquashfsFuse.Fuse.ImageLayout

/-! Read requests on a context without caches. -/

namespace SquashfsFuse

/-! ## The data cache of a context -/

section Contexts

variable {sqfsCompressorCreate : Nat → Option Compressor} {image : Image} {cacheSizeMb : Nat}
  {noCache otherNoCache : Bool} {mounted other : MountedCtx}

/-- The flag is consulted for the caches only. -/
theorem Mounts.ctx_eq (mounts : Mounts sqfsCompressorCreate image cacheSizeMb noCache mounted)
    (otherMounts : Mounts sqfsCompressorCreate image cacheSizeMb otherNoCache other) :
    mounted.ctx = other.ctx := by
  rcases mounted with ⟨⟨disk, sb, comp, idTable, fragmentTable, xattrTable⟩, caches, flag⟩
  rcases other with
    ⟨⟨disk', sb', comp', idTable', fragmentTable', xattrTable'⟩, caches', flag'⟩
  obtain rfl : disk = disk' := mounts.onImage.trans otherMounts.onImage.symm
  obtain rfl : sb = sb' :=
    Outcome.ok.inj (mounts.superblock.symm.trans otherMounts.superblock)
  obtain rfl : comp = comp' :=
    Option.some.inj (mounts.compressor.symm.trans otherMounts.compressor)
  obtain rfl : idTable = idTable' :=
    Outcome.ok.inj (mounts.idTable.symm.trans otherMounts.idTable)
  obtain rfl : fragmentTable = fragmentTable' :=
    Outcome.ok.inj (mounts.fragmentTable.symm.trans otherMounts.fragmentTable)
  obtain rfl : xattrTable = xattrTable' :=
    mounts.xattrTable.trans otherMounts.xattrTable.symm
  rfl

/-- The data cache of a context that was built without caches is zeroed. -/
theorem Mounts.dataCache_without
    (mounts : Mounts sqfsCompressorCreate image cacheSizeMb true mounted) :
    mounted.caches.dataCache = .zero := by
  have caches := mounts.caches
  rw [initContextCaches, if_pos rfl] at caches
  have zeroed : CtxCaches.zero = mounted.caches := Outcome.ok.inj caches
  rw [← zeroed]
  rfl

theorem Mounts.buckets_without
    (mounts : Mounts sqfsCompressorCreate image cacheSizeMb true mounted) :
    (DataCache.fresh mounted.caches.dataCache).cache.buckets = none := by
  rw [mounts.dataCache_without]
  rfl

theorem Mounts.dataCache_with
    (mounts : Mounts sqfsCompressorCreate image cacheSizeMb false mounted) :
    sqfsCacheInit cacheDataMaxEntries (u64 (cacheSizeMb * 1024 * 1024) / 2) true =
      some mounted.caches.dataCache := by
  have caches := mounts.caches
  rw [initContextCaches, if_neg (by decide)] at caches
  have made := Outcome.ofOption_eq_ok.mp caches
  rw [initCaches] at made
  rcases Option.bind_eq_some_iff.mp made with ⟨inodeCache, -, made⟩
  rcases Option.bind_eq_some_iff.mp made with ⟨dirCache, -, made⟩
  rcases Option.bind_eq_some_iff.mp made with ⟨metaCache, -, made⟩
  rcases Option.bind_eq_some_iff.mp made with ⟨dataCache, initialised, made⟩
  rw [← Option.some.inj made]
  exact initialised

end Contexts

/-- Looking a zeroed cache up follows its null bucket array. -/
theorem sqfsCacheGet_absent {cache : SqfsCache Value} (absent : cache.buckets = none)
    (key : Nat) : sqfsCacheGet cache key = none := by
  rw [sqfsCacheGet, sqfsCacheGetLookup, hashFind, SqfsCache.bucket, absent]
  rfl

theorem dataCache_get_absent {state : DataCache} (absent : state.cache.buckets = none)
    (key : Nat) : dataCache.get state key = none := by
  simp only [dataCache, sqfsCacheGet_absent absent, Option.map_none]

/-! ## Requests -/

inductive Answered (ctx : SqfsCtx) :
    DataCache → List ReadCall → List (Option PlainResult) → Prop
  | nil (state) : Answered ctx state [] []
  | crash {state call calls} :
      SqfsDataRead dataCache ctx state call.inode call.offset call.size none →
      Answered ctx state (call :: calls) [none]
  | cons {state call calls answers} {result : ReadResult DataCache} :
      SqfsDataRead dataCache ctx state call.inode call.offset call.size (some result) →
      Answered ctx result.cache calls answers →
      Answered ctx state (call :: calls) (some result.answer :: answers)

/-- In the run of the calls a cache is looked up in the given state. What a pass puts
into the cache follows on what it did not find there. -/
inductive LookedUp (ctx : SqfsCtx) : DataCache → List ReadCall → DataCache → Prop
  | here {state call calls file begun} {reached : ReadState DataCache} :
      readStart ctx state call.inode call.offset call.size = .loops file begun →
      Pass.Enters (readPass dataCache ctx file call.offset) begun reached →
      LooksUpAt ctx file call.offset reached →
      LookedUp ctx state (call :: calls) reached.cache
  | later {state call calls looked} {result : ReadResult DataCache} :
      SqfsDataRead dataCache ctx state call.inode call.offset call.size (some result) →
      LookedUp ctx result.cache calls looked →
      LookedUp ctx state (call :: calls) looked

def MountedCtx.BucketsExist (mounted : MountedCtx) (calls : List ReadCall) : Prop :=
  ∀ looked, LookedUp mounted.ctx (.fresh mounted.caches.dataCache) calls looked →
    looked.cache.buckets ≠ none

/-- The calls do on a context without caches what they do on one with caches. -/
structure SameWithoutCache (uncached cached : MountedCtx) (calls : List ReadCall) : Prop where
  answers : ∀ answers,
    Answered uncached.ctx (.fresh uncached.caches.dataCache) calls answers ↔
      Answered cached.ctx (.fresh cached.caches.dataCache) calls answers
  uncachedBuckets : uncached.BucketsExist calls
  cachedBuckets : cached.BucketsExist calls

/-- None of the calls looks the cache up, up to one that comes to a block without a size
word and ends the run. -/
def CacheUnused (ctx : SqfsCtx) : List ReadCall → Prop
  | [] => True
  | call :: calls =>
      ¬ call.UsesCache ctx ∧ (¬ call.LacksSizeWord ctx → CacheUnused ctx calls)

section Requests

variable {ctx : SqfsCtx} {state other : DataCache} {call : ReadCall} {calls : List ReadCall}

theorem answered_of_crash
    (crashes : SqfsDataRead dataCache ctx state call.inode call.offset call.size none)
    (answers : List (Option PlainResult)) :
    Answered ctx state (call :: calls) answers ↔ answers = [none] := by
  constructor
  · intro answered
    cases answered with
    | crash => rfl
    | cons read _ => cases read.unique crashes
  · rintro rfl
    exact .crash crashes

theorem ReadCall.UsesCache.answered (uses : call.UsesCache ctx)
    (absent : state.cache.buckets = none) (answers : List (Option PlainResult)) :
    Answered ctx state (call :: calls) answers ↔ answers = [none] :=
  answered_of_crash (uses.faults (dataCache_get_absent absent)) answers

private theorem answered_of_read {result : ReadResult DataCache}
    (read : SqfsDataRead dataCache ctx state call.inode call.offset call.size (some result))
    (answers : List (Option PlainResult)) :
    Answered ctx state (call :: calls) answers ↔
      ∃ rest, answers = some result.answer :: rest ∧ Answered ctx result.cache calls rest := by
  constructor
  · intro answered
    cases answered with
    | crash crashes => cases read.unique crashes
    | cons first rest =>
        cases read.unique first
        exact ⟨_, rfl, rest⟩
  · rintro ⟨rest, rfl, answered⟩
    exact .cons read answered

private theorem answered_of_run (fuel : Nat) {answer : PlainResult}
    (run : (call.run dataCache ctx fuel state).map ReadResult.answer = some answer) :
    Answered ctx state [call] [some answer] := by
  rcases Option.map_eq_some_iff.mp run with ⟨result, returned, rfl⟩
  exact .cons (ReadCall.read_of_run returned) (.nil _)

private theorem CacheUnused.answered_iff (unused : CacheUnused ctx calls)
    (answers : List (Option PlainResult)) :
    Answered ctx state calls answers ↔ Answered ctx other calls answers := by
  induction calls generalizing answers with
  | nil =>
      constructor
      · rintro ⟨⟩
        exact .nil other
      · rintro ⟨⟩
        exact .nil state
  | cons call calls induction =>
      rcases unused with ⟨untouched, rest⟩
      rcases ReadCall.answer_untouched untouched with ⟨answer, lacks, reads⟩
      cases answer with
      | none =>
          rw [answered_of_crash (reads DataCache dataCache state),
            answered_of_crash (reads DataCache dataCache other)]
      | some plain =>
          have unusedRest := rest fun lacksSizeWord =>
            Option.some_ne_none plain (lacks.mpr lacksSizeWord)
          rw [answered_of_read (reads DataCache dataCache state),
            answered_of_read (reads DataCache dataCache other)]
          simp only [PlainResult.result, ReadResult.answer, induction unusedRest]

private theorem CacheUnused.not_lookedUp {looked : DataCache} (unused : CacheUnused ctx calls) :
    ¬ LookedUp ctx state calls looked := by
  intro lookedUp
  induction lookedUp with
  | here loops enters looksUp =>
      exact unused.1 (ReadCall.usesCache_of_reached loops enters looksUp)
  | @later state _ _ _ _ read _ induction =>
      apply induction
      apply unused.2
      intro lacksSizeWord
      rcases ReadCall.answer_untouched unused.1 with ⟨answer, lacks, reads⟩
      have crashes := reads DataCache dataCache state
      rw [lacks.mpr lacksSizeWord] at crashes
      cases read.unique crashes

private theorem cacheUnused_of_present (absent : state.cache.buckets = none)
    (present : ∀ looked, LookedUp ctx state calls looked → looked.cache.buckets ≠ none) :
    CacheUnused ctx calls := by
  induction calls with
  | nil => trivial
  | cons call calls induction =>
      have untouched : ¬ call.UsesCache ctx := by
        intro uses
        rcases uses.reaches dataCache state with
          ⟨file, begun, reached, loops, enters, looksUp, same⟩
        have found := present _ (.here loops enters looksUp)
        rw [same] at found
        exact found absent
      apply And.intro untouched
      intro listed
      rcases ReadCall.answer_untouched untouched with ⟨answer, lacks, reads⟩
      have read := reads DataCache dataCache state
      cases answer with
      | none => exact absurd (lacks.mp rfl) listed
      | some plain =>
          apply induction
          intro looked lookedUp
          exact present looked (.later read lookedUp)

theorem DataCache.Ledger.buckets_ne_none {list : CacheList BlockEntry} {adrift : List Nat}
    (ledger : state.Ledger list adrift) : state.cache.buckets ≠ none := by
  intro absent
  rcases SqfsCache.sqfsCacheGet_spec 0 ledger.represents with ⟨after, run, -⟩
  have faults := sqfsCacheGet_absent absent 0
  rw [run] at faults
  cases faults

theorem LookedUp.buckets_ne_none {looked : DataCache} {list : CacheList BlockEntry}
    {adrift : List Nat} (lookedUp : LookedUp ctx state calls looked)
    (ledger : state.Ledger list adrift) : looked.cache.buckets ≠ none := by
  induction lookedUp generalizing list adrift with
  | @here state call _ file begun reached loops enters _ =>
      rw [← readStart_cache loops] at ledger
      have kept : ∃ list adrift, reached.cache.Ledger list adrift := by
        apply enters.invariant ⟨list, adrift, ledger⟩
        rintro read next ⟨list, adrift, ledger⟩ repeated
        rcases (readPass_settles ledger).1 next repeated with ⟨nextList, left, nextLedger, -⟩
        exact ⟨nextList, left, nextLedger⟩
      rcases kept with ⟨list, adrift, reachedLedger⟩
      exact reachedLedger.buckets_ne_none
  | later read _ induction =>
      rcases call_settles ledger read with ⟨nextList, left, nextLedger, -⟩
      exact induction nextLedger

end Requests

/-- On a context without caches, a request crashes exactly when it looks the cache up or
comes to a block without a size word. -/
theorem Mounts.crashes_iff {sqfsCompressorCreate : Nat → Option Compressor} {image : Image}
    {cacheSizeMb : Nat} {mounted : MountedCtx}
    (mounts : Mounts sqfsCompressorCreate image cacheSizeMb true mounted) (call : ReadCall) :
    SqfsDataRead dataCache mounted.ctx (.fresh mounted.caches.dataCache) call.inode call.offset
        call.size none ↔
      call.UsesCache mounted.ctx ∨ call.LacksSizeWord mounted.ctx :=
  ReadCall.crashes_iff (dataCache_get_absent mounts.buckets_without)

/-- Requests do the same with and without caches exactly when they do not look the data
cache up. -/
theorem sameWithoutCache_iff (sqfsCompressorCreate : Nat → Option Compressor) (image : Image)
    (cacheSizeMb : Nat) (uncached cached : MountedCtx)
    (mountedWithout : initContext sqfsCompressorCreate image cacheSizeMb true = .ok uncached)
    (mountedWith : initContext sqfsCompressorCreate image cacheSizeMb false = .ok cached)
    (calls : List ReadCall) :
    SameWithoutCache uncached cached calls ↔ CacheUnused uncached.ctx calls := by
  have mounts := initContext_mounts mountedWithout
  have mountsCached := initContext_mounts mountedWith
  have sameCtx := mounts.ctx_eq mountsCached
  constructor
  · intro same
    exact cacheUnused_of_present mounts.buckets_without same.uncachedBuckets
  · intro unused
    exact {
      answers := by
        rw [← sameCtx]
        exact unused.answered_iff
      uncachedBuckets := fun looked lookedUp => absurd lookedUp unused.not_lookedUp
      cachedBuckets := by
        rcases DataCache.ledger_fresh (by decide) mountsCached.dataCache_with with
          ⟨list, ledger⟩
        exact fun looked lookedUp => lookedUp.buckets_ne_none ledger }

/-! ## An image with two files -/

/-- The inodes of a root directory, of a file of three bytes stored at position 216, and of
a file of three bytes in a hole. -/
def twoFileInodes : List UInt8 :=
  encodeInode ⟨0o755, 0, 0, 0, 1⟩ (.dir 0 2 3 0 4 : DiskBody 4096) ++
    (encodeInode ⟨0o644, 0, 0, 0, 2⟩
        (.file 216 0xFFFFFFFF 0 3 [0x1000003] (by decide) : DiskBody 4096) ++
      encodeInode ⟨0o644, 0, 0, 0, 3⟩
        (.file 0 0xFFFFFFFF 0 3 [0] (by decide) : DiskBody 4096))

private theorem twoFileInodes_length : twoFileInodes.length = 104 := by decide

def twoFileImage : Image where
  bytes := rootImage squashfsFlagNoXattrs sqfsInvalidOffset twoFileInodes 0 [97, 98, 99]
  sizeInOffT := by simp [rootImage, rootImageFront_length, twoFileInodes_length]

/-- The mounted image. -/
def twoFiles (noCache : Bool) : MountedCtx := mountedOn twoFileImage noCache

theorem twoFiles_mounted :
    initContext gzipOnly twoFileImage 32 true = .ok (twoFiles true) ∧
      initContext gzipOnly twoFileImage 32 false = .ok (twoFiles false) := by
  constructor
  · exact initContext_mountedOn (by decide +kernel)
  · exact initContext_mountedOn (by decide +kernel)

/-- Read the file whose inode lies at an offset of the inode table. -/
def readFileAt (ctx : SqfsCtx) (offset : Nat) : ReadCall where
  inode := (sqfsInodeGetByRef ctx offset 0).toOption.getD .calloc
  offset := 0
  size := 3

theorem readFileAt_decoded {ctx : SqfsCtx} {offset : Nat}
    (accepted : (sqfsInodeGetByRef ctx offset 0).toOption.isSome = true) :
    sqfsInodeGetByRef ctx offset 0 = .ok (readFileAt ctx offset).inode :=
  Outcome.eq_ok_getD accepted

def threeByteFile (blocksStart word : Nat) : SqfsFileCtx where
  fileSize := 3
  blocksStart
  blockSize := 4096
  blockCount := 1
  tailSize := 3
  fragIdx := fragmentInvalid
  fragOffset := 0
  blockSizes := [word]

/-- Reading a hole does not take a cache. -/
theorem sameWithoutCache_hole :
    SameWithoutCache (twoFiles true) (twoFiles false) [readFileAt (twoFiles true).ctx 68] := by
  have init : sqfsFileCtxInit (twoFiles true).ctx.sb (readFileAt (twoFiles true).ctx 68).inode =
      .ok (threeByteFile 0 0) := by
    decide +kernel
  have holes : ∀ pos < 3, placeAt (threeByteFile 0 0) pos = .hole := by decide
  have untouched : ¬ (readFileAt (twoFiles true).ctx 68).UsesCache (twoFiles true).ctx := by
    rintro ⟨file, pos, entered, -, before, -, notHole, -⟩
    obtain rfl : file = threeByteFile 0 0 := Except.ok.inj (entered.init.symm.trans init)
    exact notHole (holes pos before)
  exact (sameWithoutCache_iff gzipOnly twoFileImage 32 (twoFiles true) (twoFiles false)
    twoFiles_mounted.1 twoFiles_mounted.2 [readFileAt (twoFiles true).ctx 68]).mpr
      ⟨untouched, fun _ => trivial⟩

/-- Reading a stored block of an image crashes without caches. -/
theorem not_sameWithoutCache :
    ¬ ∀ (sqfsCompressorCreate : Nat → Option Compressor) (image : Image) (cacheSizeMb : Nat)
      (uncached cached : MountedCtx),
      initContext sqfsCompressorCreate image cacheSizeMb true = .ok uncached →
      initContext sqfsCompressorCreate image cacheSizeMb false = .ok cached →
      ∀ calls : List ReadCall,
      (∀ call ∈ calls, ∃ ref address,
        sqfsInodeGetByRef uncached.ctx ref address = .ok call.inode) →
      SameWithoutCache uncached cached calls := by
  intro claim
  have decoded := readFileAt_decoded (show (sqfsInodeGetByRef (twoFiles true).ctx 32
    0).toOption.isSome = true by decide +kernel)
  have same := claim gzipOnly twoFileImage 32 (twoFiles true) (twoFiles false)
    twoFiles_mounted.1 twoFiles_mounted.2 [readFileAt (twoFiles true).ctx 32] (by
      intro call member
      obtain rfl := List.mem_singleton.mp member
      exact ⟨32, 0, decoded⟩)
  have answered : Answered (twoFiles false).ctx (.fresh (twoFiles false).caches.dataCache)
      [readFileAt (twoFiles true).ctx 32] [some ⟨3, [some 97, some 98, some 99]⟩] :=
    answered_of_run 2 (by decide +kernel)
  have init : sqfsFileCtxInit (twoFiles true).ctx.sb (readFileAt (twoFiles true).ctx 32).inode =
      .ok (threeByteFile 216 (2 ^ 24 + 3)) := by
    decide +kernel
  have uses : (readFileAt (twoFiles true).ctx 32).UsesCache (twoFiles true).ctx := by
    have stored : placeAt (threeByteFile 216 (2 ^ 24 + 3)) 0 = .stored := by decide
    have looksUp : LooksUp (twoFiles true).ctx (threeByteFile 216 (2 ^ 24 + 3)) 0 := by
      rw [LooksUp, stored]
      trivial
    exact ⟨_, 0, ⟨init, by decide, by decide⟩, Nat.le_refl 0, by decide, looksUp,
      looksUp.ne_hole, fun _ _ before => absurd before (Nat.not_lt_zero _)⟩
  have absent := (initContext_mounts twoFiles_mounted.1).buckets_without
  cases (uses.answered absent _).mp ((same.answers _).mpr answered)

end SquashfsFuse
