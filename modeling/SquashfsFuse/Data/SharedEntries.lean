import SquashfsFuse.Cache.Concurrency
import SquashfsFuse.Core.SharedReads
import SquashfsFuse.Data.Serving

/-! Entries of a data cache that threads share: what a reader finds can be read as long as no
other reader drops it, and a reader alone can read all it finds. -/

namespace SquashfsFuse

/-- Every entry that the cache keeps or has freed was allocated, and it is only there once. -/
def DataCache.Accounted (state : DataCache) : Prop :=
  ∃ list used, state.cache.Represents list ∧ SharedCache.Owned list used ∧
    ∀ entry ∈ used, entry.address < state.created

/-- The entries that a call replaces or evicts. -/
def ReaderCall.Drops (state : DataCache) : ReaderCall → BlockEntry → Prop
  | .offer key data memorySize, entry =>
      ∃ entries, state.cache.readEntries state.cache.walkLimit state.cache.head = some entries ∧
        entry ∈ (state.cache.view entries).releases
          (.put key { address := state.created, data, isCached := true } memorySize)
  | _, _ => False

/-- The entry that a call is about. -/
def ReaderCall.uses : ReaderCall → Option BlockEntry
  | .move _ entry => some entry
  | .copy entry => some entry
  | _ => none

def ReaderCall.gives : (call : ReaderCall) → call.Answer → Option BlockEntry
  | .lookUp _, found => found
  | .move _ entry, _ => some entry
  | .copy entry, _ => some entry
  | .offer _ data _, (address, _) => some { address, data, isCached := true }
  | .discard, _ => none
  | .free _, _ => none

section Equations

variable {state : DataCache} {cache : SqfsCache BlockEntry} {key : Nat}

theorem sharedDataCache_lookUp {found : Option BlockEntry}
    (run : sqfsCacheGetLookup state.cache key = some (cache, found)) :
    sharedDataCache state (.lookUp key) = some (found, { state with cache }) := by
  rw [sharedDataCache, run, Option.map_some]

theorem sharedDataCache_move {entry : BlockEntry}
    (run : sqfsCacheGetMove state.cache key = some cache) :
    sharedDataCache state (.move key entry) = some ((), { state with cache }) := by
  rw [sharedDataCache, run, Option.map_some]

theorem sharedDataCache_copy {entry : BlockEntry} (live : entry ∉ state.cache.freed) :
    sharedDataCache state (.copy entry) = some ((), state) := by
  rw [sharedDataCache, if_neg live]

theorem sharedDataCache_offer {data : List UInt8} {memorySize : Nat} {after : DataCache}
    {result : PutResult}
    (run : dataCache.put (dataCache.new state).1 key ⟨state.created, data, true⟩ memorySize =
      some (after, result)) :
    sharedDataCache state (.offer key data memorySize) =
      some ((state.created, result), after) :=
  congrArg (Option.map _) run

end Equations

theorem SqfsCache.Represents.freed_eq {Value : Type} {cache : SqfsCache Value}
    {list : CacheList Value} (represents : cache.Represents list) : cache.freed = list.freed := by
  rcases represents with ⟨nodes, entries, holds, rfl⟩
  rfl

private theorem CacheList.mem_of_releases_put {Value : Type} {key memorySize : Nat} {value other : Value}
    (list : CacheList Value) (dropped : other ∈ list.releases (.put key value memorySize)) :
    other ∈ CacheList.values list.entries := by
  rw [CacheList.releases] at dropped
  split at dropped
  · cases dropped
  · split at dropped
    · next old found =>
        rw [List.mem_singleton.mp dropped]
        exact List.mem_map_of_mem (CacheList.find_mem found).1
    · rcases List.mem_map.mp dropped with ⟨entry, member, rfl⟩
      exact List.mem_map_of_mem (List.mem_of_mem_drop member)

section Calls

variable {state : DataCache}

theorem DataCache.accounted_fresh {maxEntries maxMemory : Nat} {hasFreeFn : Bool}
    {cache : SqfsCache BlockEntry}
    (init : sqfsCacheInit maxEntries maxMemory hasFreeFn = some cache) :
    (DataCache.fresh cache).Accounted := by
  rcases SqfsCache.represents_of_init init with ⟨-, represents⟩
  refine ⟨_, [], represents, ⟨.nil, ?_⟩, fun _ member => absurd member List.not_mem_nil⟩
  intro entry member
  cases member

theorem DataCache.Accounted.mono (accounted : state.Accounted) {created : Nat}
    {released : List Nat} (more : state.created ≤ created) :
    DataCache.Accounted { state with created, released } := by
  rcases accounted with ⟨list, used, represents, owned, allocated⟩
  exact ⟨list, used, represents, owned,
    fun entry member => Nat.lt_of_lt_of_le (allocated entry member) more⟩

theorem DataCache.Accounted.lookUp (accounted : state.Accounted) (key : Nat) :
    ∃ cache found, sqfsCacheGetLookup state.cache key = some (cache, found) ∧
      DataCache.Accounted { state with cache } ∧ cache.freed = state.cache.freed ∧
      ∀ entry, found = some entry → entry ∉ state.cache.freed := by
  rcases accounted with ⟨list, used, represents, owned, allocated⟩
  rcases SqfsCache.sqfsCacheGetLookup_spec key represents with ⟨cache, run, looked⟩
  rcases list.lookup_keeps key with ⟨sameEntries, sameFreed⟩
  have freed : cache.freed = state.cache.freed := by
    rw [looked.freed_eq, represents.freed_eq, sameFreed]
  refine ⟨cache, _, run, ⟨_, used, looked, ?_, allocated⟩, freed, ?_⟩
  · constructor
    · rw [sameEntries, sameFreed]
      exact owned.nodup
    · rw [sameEntries, sameFreed]
      exact owned.put
  · intro entry found
    rw [represents.freed_eq]
    exact owned.found_live found

theorem DataCache.Accounted.move (accounted : state.Accounted) (key : Nat) :
    ∃ cache, sqfsCacheGetMove state.cache key = some cache ∧
      DataCache.Accounted { state with cache } ∧ cache.freed = state.cache.freed := by
  rcases accounted with ⟨list, used, represents, owned, allocated⟩
  rcases SqfsCache.sqfsCacheGetMove_spec key represents with ⟨cache, run, moved⟩
  rcases list.move_keeps represents.distinct key with ⟨sameValues, sameFreed⟩
  have freed : cache.freed = state.cache.freed := by
    rw [moved.freed_eq, represents.freed_eq, sameFreed]
  have everything : ((list.move key).freed ++ CacheList.values (list.move key).entries).Perm
      (list.freed ++ CacheList.values list.entries) := by
    rw [sameFreed]
    exact sameValues.append_left _
  refine ⟨cache, run, ⟨_, used, moved, ⟨everything.nodup_iff.mpr owned.nodup, ?_⟩, allocated⟩,
    freed⟩
  exact fun value member => owned.put value (everything.mem_iff.mp member)

theorem DataCache.Accounted.offer (accounted : state.Accounted) (key : Nat) (data : List UInt8)
    (memorySize : Nat) :
    ∃ after result, dataCache.put (dataCache.new state).1 key ⟨state.created, data, true⟩
        memorySize = some (after, result) ∧ after.Accounted ∧
      ⟨state.created, data, true⟩ ∉ after.cache.freed ∧
      ∀ entry, entry ∉ state.cache.freed →
        ¬ ReaderCall.Drops state (.offer key data memorySize) entry →
        entry ∉ after.cache.freed := by
  rcases accounted with ⟨list, used, represents, owned, allocated⟩
  rcases SqfsCache.sqfsCachePut_spec key ⟨state.created, data, true⟩ memorySize represents with
    ⟨cache, run, putRepresents⟩
  let op : CacheOp BlockEntry := .put key ⟨state.created, data, true⟩ memorySize
  have unused : (⟨state.created, data, true⟩ : BlockEntry) ∉ used := fun member =>
    Nat.lt_irrefl _ (allocated _ member)
  have fresh : ∀ value, value ∈ list.accepts op → value ∉ used := by
    intro value member
    rw [SharedCache.eq_of_accepts member]
    exact unused
  have kept := owned.perform represents.distinct op fresh (SharedCache.accepts_nodup _ _ _ _)
  rcases list.perform_freed represents.distinct op with ⟨log, freed, released⟩
  have freedAfter : cache.freed = state.cache.freed ++ log := by
    rw [putRepresents.freed_eq, represents.freed_eq]
    exact freed
  have dropped : ∀ entry, entry ∈ log → entry ∈ list.releases op := by
    intro entry member
    have logged := released.mem_iff.mp member
    rw [CacheList.logged] at logged
    split at logged
    · exact logged
    · cases logged
  have done : dataCache.put (dataCache.new state).1 key ⟨state.created, data, true⟩ memorySize =
      some ({ state with cache, created := state.created + 1 },
        (list.put key ⟨state.created, data, true⟩ memorySize).2) := by
    simp only [dataCache, run, Option.map_some]
  refine ⟨_, _, done, ⟨_, _, putRepresents, kept, ?_⟩, ?_, ?_⟩
  · intro entry member
    rcases List.mem_append.mp member with new | old
    · rw [SharedCache.eq_of_accepts new]
      exact Nat.lt_succ_self _
    · exact Nat.lt_succ_of_lt (allocated entry old)
  · intro member
    rw [freedAfter] at member
    rcases List.mem_append.mp member with old | new
    · rw [represents.freed_eq] at old
      exact unused (owned.put _ (List.mem_append_left _ old))
    · have present := list.mem_of_releases_put (dropped _ new)
      exact unused (owned.put _ (List.mem_append_right _ present))
  · intro entry live spared member
    rw [freedAfter] at member
    rcases List.mem_append.mp member with old | new
    · exact live old
    · apply spared
      rcases represents with ⟨nodes, entries, holds, rfl⟩
      exact ⟨entries, holds.readEntries, dropped entry new⟩

theorem sharedDataCache_serves {call : ReaderCall} (accounted : state.Accounted)
    (live : ∀ entry, call.uses = some entry → entry ∉ state.cache.freed) :
    ∃ answer next, sharedDataCache state call = some (answer, next) ∧ next.Accounted ∧
      (∀ entry, call.gives answer = some entry → entry ∉ next.cache.freed) ∧
      ∀ entry, entry ∉ state.cache.freed → ¬ call.Drops state entry →
        entry ∉ next.cache.freed := by
  cases call with
  | lookUp key =>
      rcases accounted.lookUp key with ⟨cache, found, run, kept, freed, foundLive⟩
      refine ⟨found, { state with cache }, sharedDataCache_lookUp run, kept, ?_, ?_⟩
      · intro entry given
        rw [freed]
        exact foundLive entry given
      · intro entry entryLive _
        rw [freed]
        exact entryLive
  | move key found =>
      rcases accounted.move key with ⟨cache, run, kept, freed⟩
      refine ⟨(), { state with cache }, sharedDataCache_move run, kept, ?_, ?_⟩
      · intro entry given
        rw [freed]
        exact live entry given
      · intro entry entryLive _
        rw [freed]
        exact entryLive
  | copy found =>
      exact ⟨(), state, sharedDataCache_copy (live found rfl), accounted, live,
        fun entry entryLive _ => entryLive⟩
  | offer key data memorySize =>
      rcases accounted.offer key data memorySize with
        ⟨after, result, run, kept, newLive, spared⟩
      refine ⟨(state.created, result), after, sharedDataCache_offer run, kept, ?_, spared⟩
      intro entry given
      cases given
      exact newLive
  | discard =>
      refine ⟨(), _, rfl, accounted.mono (Nat.le_succ _), ?_, fun entry entryLive _ => entryLive⟩
      intro entry given
      cases given
  | free address =>
      refine ⟨(), _, rfl, accounted.mono (Nat.le_refl _), ?_, fun entry entryLive _ => entryLive⟩
      intro entry given
      cases given

end Calls

/-! ## Programs use what they are given -/

section Careful

variable {ctx : SqfsCtx} {file : SqfsFileCtx} {location : BlockLocation}
  {fragIdx offset size blockOffset : Nat} {state : ReadState Unit}

abbrev CarefulReader (program : CacheProgram α) : Prop :=
  program.about ReaderCall.uses = none ∧ program.Careful ReaderCall.uses ReaderCall.gives

theorem CarefulReader.done (value : α) : CarefulReader (.done value) := ⟨rfl, trivial⟩

theorem CarefulReader.bind {program : CacheProgram α} {rest : α → CacheProgram β}
    (careful : CarefulReader program) (restCareful : ∀ value, CarefulReader (rest value)) :
    CarefulReader (program.bind rest) := by
  refine ⟨?_, careful.2.bind restCareful⟩
  cases program with
  | done value => exact (restCareful value).1
  | call request next => exact careful.1

theorem CarefulReader.map {program : CacheProgram α} (careful : CarefulReader program)
    (change : α → β) : CarefulReader (program.map change) :=
  careful.bind fun value => .done (change value)

theorem CarefulReader.behind {program : CacheProgram α} (careful : CarefulReader program)
    (given : Option BlockEntry) :
    (∀ entry, program.about ReaderCall.uses = some entry → given = some entry) ∧
      program.Careful ReaderCall.uses ReaderCall.gives := by
  refine ⟨fun entry used => ?_, careful.2⟩
  rw [careful.1] at used
  cases used

private theorem lookUpProgram_careful (key : Nat) : CarefulReader (lookUpProgram key) := by
  refine ⟨rfl, fun found => ?_⟩
  cases found with
  | none => exact (CarefulReader.done none).behind _
  | some entry =>
      exact ⟨fun other used => used, fun _ =>
        ⟨fun other used => used, fun _ => (CarefulReader.done (some entry)).behind _⟩⟩

private theorem fragmentReadMissingProgram_careful :
    CarefulReader (fragmentReadMissingProgram ctx fragIdx offset size) := by
  rw [fragmentReadMissingProgram]
  split
  · exact .done _
  · exact ⟨rfl, fun _ => (CarefulReader.done _).behind _⟩
  · refine ⟨rfl, fun (address, result) => ⟨fun entry used => used, fun _ => ?_⟩⟩
    apply CarefulReader.behind
    dsimp only
    split
    · exact .done _
    · exact ⟨rfl, fun _ => (CarefulReader.done _).behind _⟩

private theorem sqfsFragmentReadProgram_careful :
    CarefulReader (sqfsFragmentReadProgram ctx fragIdx offset size) := by
  rw [sqfsFragmentReadProgram]
  split
  · exact .done _
  · split
    · exact .done _
    · apply (lookUpProgram_careful _).bind
      intro found
      split
      · exact .done _
      · exact fragmentReadMissingProgram_careful

private theorem readMissingProgram_careful :
    CarefulReader (readMissingProgram ctx file location blockOffset state) := by
  rw [readMissingProgram]
  split
  · exact .done _
  · exact .done _
  · dsimp only
    split
    · exact .done _
    · exact ⟨rfl, fun _ => (CarefulReader.done _).behind _⟩

theorem readPassProgram_careful : CarefulReader (readPassProgram ctx file offset state) := by
  rw [readPassProgram]
  split
  · exact .done _
  · dsimp only
    split
    · exact (sqfsFragmentReadProgram_careful.map _).map _
    · split
      · exact .done _
      · split <;> exact .done _
      · split
        · exact .done _
        · apply (lookUpProgram_careful _).bind
          intro found
          split
          · exact .done _
          · exact readMissingProgram_careful

end Careful

/-! ## A reader alone -/

def RunsAs (program : CacheProgram α) (cache : DataCache) (wanted : α → DataCache → Prop) : Prop :=
  ∃ value after, program.run sharedDataCache cache = some (value, after) ∧ after.Accounted ∧
    wanted value after

def ReadState.on (state : ReadState Unit) (cache : C) : ReadState C where
  bytesRead := state.bytesRead
  bytesRemaining := state.bytesRemaining
  out := state.out
  blockBuf := state.blockBuf
  cache := cache

def ReadResult.on (result : ReadResult Unit) (cache : C) : ReadResult C where
  ret := result.ret
  out := result.out
  cache := cache

theorem ReadResult.on_inj {first second : ReadResult Unit} {before after : C}
    (same : first.on before = second.on after) : first = second ∧ before = after := by
  cases first
  cases second
  rw [on, on, ReadResult.mk.injEq] at same
  rcases same with ⟨rfl, rfl, rfl⟩
  exact ⟨rfl, rfl⟩

def passOn (pass : Pass (ReadState Unit) (Option (ReadResult Unit))) (cache : C) :
    Pass (ReadState C) (Option (ReadResult C)) :=
  pass.map (·.on cache) (Option.map (·.on cache))

def outcomeOn (outcome : Sqfs α) (cache : C) : Outcome (SqfsError × C) (α × C) :=
  match outcome with
  | .ok value => .ok (value, cache)
  | .err error => .err (error, cache)
  | .fault => .fault

section Alone

variable {ctx : SqfsCtx} {file : SqfsFileCtx} {location : BlockLocation}
  {fragIdx offset size blockOffset : Nat} {state : ReadState Unit} {cache : DataCache}

theorem RunsAs.done {value : α} {wanted : α → DataCache → Prop} (accounted : cache.Accounted)
    (is : wanted value cache) : RunsAs (.done value) cache wanted :=
  ⟨value, cache, rfl, accounted, is⟩

theorem RunsAs.bind {program : CacheProgram α} {rest : α → CacheProgram β}
    {wanted : β → DataCache → Prop}
    (runs : RunsAs program cache fun value after =>
      after.Accounted → RunsAs (rest value) after wanted) :
    RunsAs (program.bind rest) cache wanted := by
  rcases runs with ⟨value, middle, ran, accounted, behind⟩
  rcases behind accounted with ⟨last, after, restRan, kept, is⟩
  exact ⟨last, after, (Program.run_bind ran).trans restRan, kept, is⟩

theorem RunsAs.call {call : ReaderCall} {next : call.Answer → CacheProgram α}
    {answer : call.Answer} {after : DataCache} {wanted : α → DataCache → Prop}
    (served : sharedDataCache cache call = some (answer, after))
    (runs : RunsAs (next answer) after wanted) : RunsAs (.call call next) cache wanted := by
  rcases runs with ⟨value, last, ran, kept, is⟩
  exact ⟨value, last, (Program.run_call served).trans ran, kept, is⟩

/-- Between the halves of `sqfs_cache_get`, and before its entry is read, nothing happens. -/
theorem lookUpProgram_runs (accounted : cache.Accounted) (key : Nat) :
    RunsAs (lookUpProgram key) cache fun found after =>
      dataCache.get cache key = some (after, found) := by
  rcases accounted.lookUp key with ⟨looked, found, lookRun, kept, freed, live⟩
  apply RunsAs.call (sharedDataCache_lookUp lookRun)
  cases found with
  | none =>
      refine .done kept ?_
      simp only [dataCache, sqfsCacheGet, lookRun, Option.bind_eq_bind, Option.bind_some,
        Option.map_some]
  | some entry =>
      rcases kept.move key with ⟨moved, moveRun, movedKept, movedFreed⟩
      have movedLive : entry ∉ moved.freed := by
        rw [movedFreed, freed]
        exact live entry rfl
      apply RunsAs.call (sharedDataCache_move moveRun)
      apply RunsAs.call (sharedDataCache_copy movedLive)
      refine .done movedKept ?_
      dsimp only at moveRun
      simp only [dataCache, sqfsCacheGet, lookRun, Option.bind_eq_bind, Option.bind_some, moveRun,
        Option.map_some]

private theorem fragmentReadMissingProgram_runs (accounted : cache.Accounted) :
    RunsAs (fragmentReadMissingProgram ctx fragIdx offset size) cache fun outcome after =>
      fragmentReadMissing dataCache ctx cache fragIdx offset size = outcomeOn outcome after := by
  rw [fragmentReadMissingProgram, fragmentReadMissing]
  cases content : sqfsFragmentReadBlock ctx fragIdx with
  | fault => exact .done accounted rfl
  | err error =>
      have served : sharedDataCache cache .discard =
        some ((), dataCache.free (dataCache.new cache).1 (dataCache.new cache).2) := rfl
      exact .call served (.done (accounted.mono (Nat.le_succ _)) rfl)
  | ok data =>
      rcases accounted.offer (sqfsFragmentCacheKey fragIdx) data
        (blockEntrySize + ctx.sb.blockSize) with ⟨after, result, run, kept, live, -⟩
      apply RunsAs.call (sharedDataCache_offer run)
      apply RunsAs.call (sharedDataCache_copy live)
      have put : dataCache.put (dataCache.new cache).1 (sqfsFragmentCacheKey fragIdx)
          ⟨(dataCache.new cache).2, data, true⟩ (blockEntrySize + ctx.sb.blockSize) =
            some (after, result) := run
      simp only [put]
      by_cases stored : result = .stored
      · simp only [if_pos stored]
        exact .done kept rfl
      · simp only [if_neg stored]
        have freed : sharedDataCache after (.free cache.created) =
          some ((), dataCache.free after cache.created) := rfl
        exact .call freed (.done (kept.mono (Nat.le_refl _)) rfl)

private theorem sqfsFragmentReadProgram_runs (accounted : cache.Accounted) :
    RunsAs (sqfsFragmentReadProgram ctx fragIdx offset size) cache fun outcome after =>
      sqfsFragmentRead dataCache ctx cache fragIdx offset size = outcomeOn outcome after := by
  rw [sqfsFragmentReadProgram, sqfsFragmentRead]
  split
  · exact .done accounted rfl
  · split
    · exact .done accounted rfl
    · apply RunsAs.bind
      rcases lookUpProgram_runs accounted (sqfsFragmentCacheKey fragIdx) with
        ⟨found, after, ran, kept, got⟩
      refine ⟨found, after, ran, kept, fun _ => ?_⟩
      rw [got]
      dsimp only
      cases found.filter BlockEntry.isCached with
      | some entry => exact .done kept rfl
      | none => exact fragmentReadMissingProgram_runs kept

private theorem tailReturned_on (ret : Int) (bytes : List Cell) (cache : C) :
    some ((tailReturned state ret bytes).on cache) =
      if ret < 0 then some { ret, out := state.out ++ bytes, cache }
      else some {
        ret := toInt (state.bytesRead + ret.toNat), out := state.out ++ bytes, cache } := by
  by_cases negative : ret < 0
  · rw [if_pos negative, tailReturned, if_pos negative, ReadResult.on]
  · rw [if_neg negative, tailReturned, if_neg negative, ReadResult.on]

private theorem readTailProgram_runs (accounted : cache.Accounted) :
    RunsAs (readTailProgram ctx file blockOffset state) cache fun result after =>
      readTail dataCache ctx file blockOffset (state.on cache) = result.map (·.on after) := by
  apply RunsAs.bind
  rcases @sqfsFragmentReadProgram_runs ctx file.fragIdx (u32 (file.fragOffset + blockOffset))
    state.bytesRemaining cache accounted with ⟨outcome, after, ran, kept, read⟩
  refine ⟨outcome, after, ran, kept, fun _ => .done kept ?_⟩
  have same : sqfsFragmentRead dataCache ctx (state.on cache).cache file.fragIdx
      (u32 (file.fragOffset + blockOffset)) (state.on cache).bytesRemaining =
        outcomeOn outcome after := read
  rw [readTail, readFromFragment, same]
  cases outcome with
  | fault => rfl
  | ok bytes => exact (tailReturned_on (toInt bytes.length) (bytes.map some) after).symm
  | err error => exact (tailReturned_on (toInt state.bytesRemaining) _ after).symm

private theorem readMissingProgram_runs (accounted : cache.Accounted) :
    RunsAs (readMissingProgram ctx file location blockOffset state) cache fun pass after =>
      readMissing dataCache ctx file location blockOffset (state.on cache) = passOn pass after := by
  have start : (state.on cache).blockBuf = state.blockBuf := rfl
  rw [readMissingProgram, readMissing, start]
  cases sqfsDataReadBlock ctx.image ctx.comp location.pos location.size state.blockBuf
      file.blockSize with
  | fault => exact .done accounted rfl
  | err error => exact .done accounted rfl
  | ok block =>
      rcases block with ⟨blockBuf, actualSize⟩
      dsimp only
      rw [offerBlock]
      by_cases empty : ((blockBuf.take actualSize).map (Option.getD · 0)).length = 0
      · rw [if_pos empty, if_pos empty]
        exact .done accounted rfl
      · rw [if_neg empty, if_neg empty]
        rcases accounted.offer (sqfsDataBlockCacheKey location.pos)
          ((blockBuf.take actualSize).map (Option.getD · 0))
          (blockEntrySize + ((blockBuf.take actualSize).map (Option.getD · 0)).length) with
          ⟨after, result, run, kept, -, -⟩
        apply RunsAs.call (sharedDataCache_offer run)
        refine .done kept ?_
        have put : dataCache.put (dataCache.new (state.on cache).cache).1
            (sqfsDataBlockCacheKey location.pos)
            ⟨(dataCache.new (state.on cache).cache).2,
              (blockBuf.take actualSize).map (Option.getD · 0), true⟩
            (blockEntrySize + ((blockBuf.take actualSize).map (Option.getD · 0)).length) =
              some (after, result) := run
        simp only [put]
        rfl

private theorem readStoredProgram_runs (accounted : cache.Accounted) :
    RunsAs (readStoredProgram ctx file location blockOffset state) cache fun pass after =>
      readStored dataCache ctx file location blockOffset (state.on cache) = passOn pass after := by
  rw [readStoredProgram, readStored]
  apply RunsAs.bind
  rcases lookUpProgram_runs accounted (sqfsDataBlockCacheKey location.pos) with
    ⟨found, after, ran, kept, got⟩
  refine ⟨found, after, ran, kept, fun _ => ?_⟩
  have same : dataCache.get (state.on cache).cache (sqfsDataBlockCacheKey location.pos) =
    some (after, found) := got
  rw [same]
  have remaining : (state.on cache).bytesRemaining = state.bytesRemaining := rfl
  dsimp only
  rw [remaining]
  cases copyFromCached found blockOffset state.bytesRemaining with
  | some bytes => exact .done kept rfl
  | none => exact readMissingProgram_runs kept

/-- A pass of a reader alone on the cache is a pass of the main loop. -/
theorem readPassProgram_runs (accounted : cache.Accounted) :
    RunsAs (readPassProgram ctx file offset state) cache fun pass after =>
      readPass dataCache ctx file offset (state.on cache) = passOn pass after := by
  have read : (state.on cache).bytesRead = state.bytesRead := rfl
  have remaining : (state.on cache).bytesRemaining = state.bytesRemaining := rfl
  rw [readPassProgram, readPass, read, remaining]
  split
  · exact .done accounted rfl
  · dsimp only
    split
    · apply RunsAs.bind
      rcases @readTailProgram_runs ctx file (u64 (offset + state.bytesRead) % file.blockSize) state
        cache accounted with ⟨result, after, ran, kept, tail⟩
      refine ⟨result, after, ran, kept, fun _ => .done kept ?_⟩
      rw [tail]
      rfl
    · cases sqfsFileBlockLocation file (u32 (u64 (offset + state.bytesRead) / file.blockSize)) with
      | fault => exact .done accounted rfl
      | err error =>
          dsimp only
          split
          · exact .done accounted rfl
          · exact .done accounted rfl
      | ok location =>
          dsimp only
          split
          · exact .done accounted rfl
          · exact readStoredProgram_runs accounted

end Alone

end SquashfsFuse
