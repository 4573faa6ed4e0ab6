import SquashfsFuse.Cache.Release
import SquashfsFuse.Data.Calls
import SquashfsFuse.Data.Termination

/-! Who owns the entries that the readers allocate. -/

namespace SquashfsFuse

namespace DataCache

def addresses (entries : List BlockEntry) : List Nat :=
  entries.map BlockEntry.address

/-- Every entry created so far is held by the cache or has been freed, by the
cache or by the readers, and exactly once. -/
def AllOwned (state : DataCache) : Prop :=
  ∃ entries, state.cache.readEntries state.cache.walkLimit state.cache.head = some entries ∧
    (addresses (CacheList.values entries) ++ addresses state.cache.freed ++
      state.released).Perm (List.range state.created)

/-- The books of the data cache: every entry created so far is held, freed or
among those in nobody's hands. -/
structure Ledger (state : DataCache) (list : CacheList BlockEntry) (adrift : List Nat) :
    Prop where
  represents : state.cache.Represents list
  given : list.hasFreeFn = true
  counted : list.Counted
  accounts : (addresses (CacheList.values list.entries ++ list.freed) ++
    (state.released ++ adrift)).Perm (List.range state.created)

variable {state after : DataCache} {list : CacheList BlockEntry} {adrift : List Nat}

private theorem Ledger.allOwned_iff (ledger : state.Ledger list adrift) :
    state.AllOwned ↔ adrift = [] := by
  rcases ledger with ⟨⟨nodes, entries, holds, rfl⟩, -, -, accounts⟩
  have split : addresses (CacheList.values entries ++ state.cache.freed) =
      addresses (CacheList.values entries) ++ addresses state.cache.freed := List.map_append
  change (addresses (CacheList.values entries ++ state.cache.freed) ++
    (state.released ++ adrift)).Perm (List.range state.created) at accounts
  rw [split, ← List.append_assoc] at accounts
  constructor
  · rintro ⟨others, read, owned⟩
    rw [holds.readEntries] at read
    cases read
    have lengths := (owned.trans accounts.symm).length_eq
    simp only [List.length_append] at lengths
    apply List.eq_nil_of_length_eq_zero
    omega
  · rintro rfl
    rw [List.append_nil] at accounts
    exact ⟨entries, holds.readEntries, accounts⟩

theorem Ledger.get {key : Nat} {found : Option BlockEntry} (ledger : state.Ledger list adrift)
    (run : dataCache.get state key = some (after, found)) :
    after.Ledger (list.get key).1 adrift := by
  rcases SqfsCache.sqfsCacheGet_spec key ledger.represents with ⟨cache, found, represents⟩
  simp only [dataCache, found, Option.map_some, Option.some.injEq, Prod.mk.injEq] at run
  rcases run with ⟨rfl, -⟩
  have distinct := ledger.represents.distinct
  have balanced := CacheList.perform_accounts distinct ledger.given (.get key)
  exact {
    represents := represents
    given := (list.get_settings key).hasFreeFn.trans ledger.given
    counted := ledger.counted.get distinct key
    accounts := ((balanced.map BlockEntry.address).append_right _).trans ledger.accounts }

theorem Ledger.new (ledger : state.Ledger list adrift) :
    (dataCache.new state).1.Ledger list (state.created :: adrift) where
  represents := ledger.represents
  given := ledger.given
  counted := ledger.counted
  accounts := by
    change (addresses _ ++ (state.released ++ state.created :: adrift)).Perm
      (List.range (state.created + 1))
    rw [List.range_succ, ← List.append_assoc]
    apply List.perm_middle.trans
    apply List.Perm.trans _ (List.perm_append_singleton _ _).symm
    rw [List.append_assoc]
    exact ledger.accounts.cons _

theorem Ledger.free {address : Nat} (ledger : state.Ledger list (address :: adrift)) :
    (dataCache.free state address).Ledger list adrift where
  represents := ledger.represents
  given := ledger.given
  counted := ledger.counted
  accounts := by
    apply List.Perm.trans _ ledger.accounts
    apply List.Perm.append_left
    exact List.perm_middle.symm

theorem Ledger.put {key memorySize : Nat} {entry : BlockEntry} {result : PutResult}
    (ledger : state.Ledger list (entry.address :: adrift))
    (run : dataCache.put state key entry memorySize = some (after, result)) :
    (result = .stored ∧ ¬ state.cache.maxMemory < memorySize ∧
        ∃ next, after.Ledger next adrift) ∨
      (result ≠ .stored ∧ state.cache.maxMemory < memorySize ∧
        after.Ledger list (entry.address :: adrift)) := by
  rcases SqfsCache.sqfsCachePut_spec key entry memorySize ledger.represents with
    ⟨cache, done, represents⟩
  simp only [dataCache, done, Option.map_some, Option.some.injEq, Prod.mk.injEq] at run
  rcases run with ⟨rfl, rfl⟩
  have distinct := ledger.represents.distinct
  have balanced := CacheList.perform_accounts distinct ledger.given (.put key entry memorySize)
  rcases ledger.counted.put distinct key entry memorySize with ⟨outcome, counted⟩
  rw [ledger.represents.maxMemory, outcome]
  by_cases tooBig : list.maxMemory < memorySize
  · rw [if_pos tooBig]
    have unchanged : (list.put key entry memorySize).1 = list := by
      rw [CacheList.put, if_pos tooBig]
    rw [unchanged] at represents
    exact .inr ⟨by decide, tooBig, { ledger with represents }⟩
  · rw [if_neg tooBig] at outcome ⊢
    refine .inl ⟨rfl, tooBig, (list.put key entry memorySize).1, represents,
      (list.put_settings key entry memorySize).hasFreeFn.trans ledger.given, counted, ?_⟩
    rw [CacheList.accepts, if_pos outcome] at balanced
    have taken := (balanced.map BlockEntry.address).append_right (state.released ++ adrift)
    apply taken.trans
    apply List.Perm.trans _ ledger.accounts
    rw [← List.append_assoc _ state.released, ← List.append_assoc _ state.released]
    exact List.perm_middle.symm

theorem ledger_fresh {maxEntries maxMemory : Nat} {cache : SqfsCache BlockEntry}
    (inRange : maxEntries < 2 ^ 64)
    (init : sqfsCacheInit maxEntries maxMemory true = some cache) :
    ∃ list, (DataCache.fresh cache).Ledger list [] := by
  rcases SqfsCache.represents_of_init init with ⟨positive, represents⟩
  exact ⟨_, represents, rfl, ⟨rfl, Nat.zero_le _, positive, inRange⟩, .refl _⟩

end DataCache

/-! ## Fragments -/

section Readers

variable {ctx : SqfsCtx} {file : SqfsFileCtx} {offset : Nat} {state : DataCache}
  {list : CacheList BlockEntry} {adrift : List Nat}

private theorem fragmentReadMissing_owned {fragIdx fragOffset size : Nat}
    (ledger : state.Ledger list adrift) :
    (∀ bytes after, fragmentReadMissing dataCache ctx state fragIdx fragOffset size =
      .ok (bytes, after) → ∃ next, after.Ledger next adrift) ∧
    (∀ error after, fragmentReadMissing dataCache ctx state fragIdx fragOffset size =
      .err (error, after) → ∃ next, after.Ledger next adrift) := by
  have started := ledger.new
  unfold fragmentReadMissing
  cases sqfsFragmentReadBlock ctx fragIdx with
  | fault => exact ⟨by simp, by simp⟩
  | err error =>
      refine ⟨by simp, ?_⟩
      intro other after equal
      cases equal
      exact ⟨list, started.free⟩
  | ok data =>
      simp only
      cases run : dataCache.put (dataCache.new state).1 (sqfsFragmentCacheKey fragIdx)
          { address := (dataCache.new state).2, data, isCached := true }
          (blockEntrySize + ctx.sb.blockSize) with
      | none => exact ⟨by simp, by simp⟩
      | some done =>
          refine ⟨?_, by simp⟩
          intro bytes after equal
          simp only [Outcome.ok.injEq, Prod.mk.injEq] at equal
          rcases equal with ⟨-, rfl⟩
          rcases @DataCache.Ledger.put _ _ _ _ _ _ ⟨(dataCache.new state).2, data, true⟩ _
            started run with ⟨stored, -, next, owned⟩ | ⟨refused, -, owned⟩
          · rw [if_pos stored]
            exact ⟨next, owned⟩
          · rw [if_neg refused]
            exact ⟨list, owned.free⟩

private theorem sqfsFragmentRead_owned {fragIdx fragOffset size : Nat}
    (ledger : state.Ledger list adrift) :
    (∀ bytes after, sqfsFragmentRead dataCache ctx state fragIdx fragOffset size =
      .ok (bytes, after) → ∃ next, after.Ledger next adrift) ∧
    (∀ error after, sqfsFragmentRead dataCache ctx state fragIdx fragOffset size =
      .err (error, after) → ∃ next, after.Ledger next adrift) := by
  have unchanged : ∀ {code : SqfsError},
      (∀ bytes after, (Outcome.err (code, state) : Outcome _ (List UInt8 × DataCache)) =
        .ok (bytes, after) → ∃ next, after.Ledger next adrift) ∧
      (∀ error after, (Outcome.err (code, state) : Outcome _ (List UInt8 × DataCache)) =
        .err (error, after) → ∃ next, after.Ledger next adrift) := by
    intro code
    refine ⟨by simp, ?_⟩
    intro error after equal
    cases equal
    exact ⟨list, ledger⟩
  unfold sqfsFragmentRead
  split
  · exact unchanged
  · split
    · exact unchanged
    · cases run : dataCache.get state (sqfsFragmentCacheKey fragIdx) with
      | none => exact ⟨by simp, by simp⟩
      | some looked =>
          have found := ledger.get run
          simp only
          cases looked.2.filter BlockEntry.isCached with
          | none => exact fragmentReadMissing_owned found
          | some frag =>
              refine ⟨?_, by simp⟩
              intro bytes after equal
              cases equal
              exact ⟨_, found⟩

private theorem readTail_owned {read : ReadState DataCache} {result : ReadResult DataCache}
    {blockOffset : Nat} (ledger : read.cache.Ledger list adrift)
    (run : readTail dataCache ctx file blockOffset read = some result) :
    ∃ next, result.cache.Ledger next adrift := by
  rw [readTail] at run
  rcases Option.bind_eq_some_iff.mp run with ⟨⟨ret, bytes, after⟩, fragment, finish⟩
  have sameCache : result.cache = after := by
    simp only at finish
    split at finish <;> cases finish <;> rfl
  rw [sameCache]
  rw [readFromFragment] at fragment
  have owned := @sqfsFragmentRead_owned ctx read.cache list adrift file.fragIdx
    (u32 (file.fragOffset + blockOffset)) read.bytesRemaining ledger
  cases outcome : sqfsFragmentRead dataCache ctx read.cache file.fragIdx
      (u32 (file.fragOffset + blockOffset)) read.bytesRemaining with
  | ok delivered =>
      rw [outcome] at fragment
      cases fragment
      exact owned.1 _ _ outcome
  | err failed =>
      rw [outcome] at fragment
      cases fragment
      exact owned.2 _ _ outcome
  | fault =>
      rw [outcome] at fragment
      cases fragment

/-! ## Passes of the main loop -/

/-- The pass unpacks a block behind a cache miss, and the entry for it is larger
than the whole cache. -/
def OffersOversized (ctx : SqfsCtx) (file : SqfsFileCtx) (offset : Nat)
    (state : ReadState DataCache) : Prop :=
  ∃ location data after found, AtStored file offset state location ∧
    dataCache.get state.cache (sqfsDataBlockCacheKey location.pos) = some (after, found) ∧
    copyFromCached found (blockOffsetAt file offset state) state.bytesRemaining = none ∧
    storedContent ctx location file.blockSize = .ok data ∧ data.length ≠ 0 ∧
    state.cache.cache.maxMemory < blockEntrySize + data.length

/-- The books after a step in which an entry was `lost` or not. -/
def Settles (adrift : List Nat) (lost : Prop) (after : DataCache) : Prop :=
  ∃ list left, after.Ledger list left ∧ (left = [] ↔ adrift = [] ∧ ¬ lost)

theorem DataCache.Ledger.settles {lost : Prop} (ledger : state.Ledger list adrift)
    (kept : ¬ lost) : Settles adrift lost state :=
  ⟨list, adrift, ledger, by simp [kept]⟩

private theorem readPass_away {cache : BlockCache C} {read : ReadState C}
    (away : ∀ location, ¬ AtStored file offset read location) :
    readPass cache ctx file offset read = .leave none ∨
    (∃ result, readPass cache ctx file offset read = .leave (some result) ∧
      result.cache = read.cache) ∨
    (∃ next, readPass cache ctx file offset read = .again next ∧ next.cache = read.cache) ∨
    ∃ blockOffset, readPass cache ctx file offset read =
      .leave (readTail cache ctx file blockOffset read) := by
  by_cases finished : read.bytesRemaining = 0
  · exact .inr (.inl ⟨_, by rw [readPass, if_pos finished], rfl⟩)
  · by_cases atTail : blockIdxAt file offset read = file.blockCount ∧
        sqfsFragmentIsNone file.fragIdx = false
    · refine .inr (.inr (.inr ⟨blockOffsetAt file offset read, ?_⟩))
      rw [readPass, if_neg finished]
      exact if_pos atTail
    · cases located : sqfsFileBlockLocation file (blockIdxAt file offset read) with
      | fault =>
          rw [blockIdxAt] at located atTail
          rw [readPass, if_neg finished]
          simp only [if_neg atTail, located, true_or]
      | err error =>
          rw [blockIdxAt] at located atTail
          rw [readPass, if_neg finished]
          simp only [if_neg atTail, located]
          right
          left
          split
          · exact ⟨_, rfl, rfl⟩
          · exact ⟨_, rfl, rfl⟩
      | ok location =>
          by_cases hole : location.size = 0
          · rw [blockIdxAt] at located atTail
            rw [readPass, if_neg finished]
            simp only [if_neg atTail, located, if_pos hole]
            exact .inr (.inr (.inl ⟨_, rfl, rfl⟩))
          · exact absurd ⟨finished, atTail, located, hole⟩ (away location)

private theorem offerBlock_settles {after : DataCache} {blockPos : Nat} {data : List UInt8}
    (ledger : state.Ledger list adrift)
    (offered : offerBlock dataCache state blockPos data = some after) :
    Settles adrift (data.length ≠ 0 ∧ state.cache.maxMemory < blockEntrySize + data.length)
      after := by
  rw [offerBlock] at offered
  by_cases empty : data.length = 0
  · rw [if_pos empty] at offered
    cases offered
    exact ledger.settles fun lost => lost.1 empty
  · rw [if_neg empty] at offered
    simp only [Option.map_eq_some_iff] at offered
    rcases offered with ⟨⟨next, result⟩, run, rfl⟩
    rcases @DataCache.Ledger.put _ _ _ _ _ _ ⟨(dataCache.new state).2, data, true⟩ _
      ledger.new run with ⟨-, fits, nextList, owned⟩ | ⟨-, tooBig, owned⟩
    · exact owned.settles fun lost => fits lost.2
    · refine ⟨list, _, owned, ?_⟩
      constructor
      · intro none
        cases none
      · intro kept
        exact absurd ⟨empty, tooBig⟩ kept.2

private theorem DataCache.Ledger.get_maxMemory {after : DataCache} {key : Nat}
    {found : Option BlockEntry} (ledger : state.Ledger list adrift)
    (run : dataCache.get state key = some (after, found)) :
    after.cache.maxMemory = state.cache.maxMemory := by
  rw [(ledger.get run).represents.maxMemory, ledger.represents.maxMemory]
  exact (list.get_settings key).maxMemory

private theorem readMissing_settles {read : ReadState DataCache} {location : BlockLocation}
    {blockOffset : Nat} (notHole : location.size ≠ 0)
    (ledger : read.cache.Ledger list adrift) :
    (∀ next, readMissing dataCache ctx file location blockOffset read = .again next →
      Settles adrift (∃ data, storedContent ctx location file.blockSize = .ok data ∧
        data.length ≠ 0 ∧ read.cache.cache.maxMemory < blockEntrySize + data.length)
        next.cache) ∧
    (∀ result, readMissing dataCache ctx file location blockOffset read =
        .leave (some result) →
      Settles adrift (∃ data, storedContent ctx location file.blockSize = .ok data ∧
        data.length ≠ 0 ∧ read.cache.cache.maxMemory < blockEntrySize + data.length)
        result.cache) := by
  rw [readMissing, sqfsDataReadBlock_eq _ _ _ _ notHole]
  cases content : storedContent ctx location file.blockSize with
  | fault => exact ⟨by simp, by simp⟩
  | err error =>
      refine ⟨by simp, ?_⟩
      intro result equal
      cases equal
      exact ledger.settles (by simp)
  | ok data =>
      have bytes : ((refill location read.blockBuf file.blockSize data).take
          data.length).map (Option.getD · 0) = data := by
        rw [refill_take, List.map_map]
        exact List.map_id data
      simp only [Outcome.ok_bind, Outcome.pure_eq, bytes, Outcome.ok.injEq, exists_eq_left']
      cases offered : offerBlock dataCache read.cache location.pos data with
      | none => exact ⟨by simp, by simp⟩
      | some after =>
          refine ⟨?_, by simp⟩
          intro next equal
          cases equal
          exact offerBlock_settles ledger offered

private theorem offersOversized_iff {read : ReadState DataCache} {location : BlockLocation}
    {after : DataCache} {found : Option BlockEntry}
    (stored : AtStored file offset read location)
    (run : dataCache.get read.cache (sqfsDataBlockCacheKey location.pos) =
      some (after, found)) :
    OffersOversized ctx file offset read ↔
      copyFromCached found (blockOffsetAt file offset read) read.bytesRemaining = none ∧
        ∃ data, storedContent ctx location file.blockSize = .ok data ∧ data.length ≠ 0 ∧
          read.cache.cache.maxMemory < blockEntrySize + data.length := by
  constructor
  · rintro ⟨other, data, otherAfter, otherFound, otherStored, otherRun, missed, oversized⟩
    have same := stored.located.symm.trans otherStored.located
    cases same
    rw [run] at otherRun
    cases otherRun
    exact ⟨missed, data, oversized⟩
  · rintro ⟨missed, data, oversized⟩
    exact ⟨location, data, after, found, stored, run, missed, oversized⟩

theorem readPass_settles {read : ReadState DataCache}
    (ledger : read.cache.Ledger list adrift) :
    (∀ next, readPass dataCache ctx file offset read = .again next →
      Settles adrift (OffersOversized ctx file offset read) next.cache) ∧
    (∀ result, readPass dataCache ctx file offset read = .leave (some result) →
      Settles adrift (OffersOversized ctx file offset read) result.cache) := by
  by_cases away : ∀ location, ¬ AtStored file offset read location
  · have kept : ¬ OffersOversized ctx file offset read := by
      rintro ⟨location, data, after, found, stored, -⟩
      exact away location stored
    rcases @readPass_away ctx file offset _ dataCache read away with
      pass | ⟨result, pass, same⟩ | ⟨next, pass, same⟩ | ⟨blockOffset, pass⟩
    · rw [pass]
      exact ⟨by simp, by simp⟩
    · rw [pass]
      refine ⟨by simp, ?_⟩
      intro other equal
      cases equal
      rw [same]
      exact ledger.settles kept
    · rw [pass]
      refine ⟨?_, by simp⟩
      intro other equal
      cases equal
      rw [same]
      exact ledger.settles kept
    · rw [pass]
      refine ⟨by simp, ?_⟩
      intro result equal
      rcases readTail_owned ledger (Pass.leave.inj equal) with ⟨next, owned⟩
      exact owned.settles kept
  · simp only [not_forall, not_not] at away
    rcases away with ⟨location, stored⟩
    rw [stored.pass, readStored]
    cases run : dataCache.get read.cache (sqfsDataBlockCacheKey location.pos) with
    | none => exact ⟨by simp, by simp⟩
    | some looked =>
        have found := ledger.get run
        have oversized := @offersOversized_iff ctx file offset read location _ _ stored run
        simp only
        cases hit : copyFromCached looked.2 (blockOffsetAt file offset read)
            read.bytesRemaining with
        | some bytes =>
            refine ⟨?_, by simp⟩
            intro next equal
            cases equal
            rw [hit] at oversized
            exact found.settles fun lost =>
              absurd (oversized.mp lost).1 (Option.some_ne_none bytes)
        | none =>
            simp only [hit, true_and] at oversized
            rw [oversized, ← ledger.get_maxMemory run]
            exact @readMissing_settles ctx file _ _ { read with cache := looked.1 } location _
              stored.notHole found

/-- A run of the main loop loses an entry exactly when some pass offers an
oversized one. -/
theorem loop_settles {read : ReadState DataCache} {result : ReadResult DataCache}
    (ledger : read.cache.Ledger list adrift)
    (returned : Pass.Returns (readPass dataCache ctx file offset) read (some result)) :
    Settles adrift (∃ mid, Pass.Enters (readPass dataCache ctx file offset) read mid ∧
      OffersOversized ctx file offset mid) result.cache := by
  rcases returned with ⟨fuel, run⟩
  induction fuel generalizing read list adrift with
  | zero => cases run
  | succ fuel induction =>
      have settled := @readPass_settles ctx file offset list adrift read ledger
      cases pass : readPass dataCache ctx file offset read with
      | leave early =>
          rw [Pass.iterate_leave fuel pass] at run
          cases run
          simp only [Pass.enters_of_leave pass, exists_eq_left]
          exact settled.2 result pass
      | again next =>
          rw [Pass.iterate_again fuel pass] at run
          simp only [Pass.enters_of_again pass, or_and_right, exists_or, exists_eq_left]
          rcases settled.1 next pass with ⟨nextList, left, nextLedger, first⟩
          rcases induction nextLedger run with ⟨lastList, last, lastLedger, rest⟩
          refine ⟨lastList, last, lastLedger, ?_⟩
          rw [rest, first, not_or, and_assoc]

end Readers

/-! ## Runs of calls -/

def OffersFit (ctx : SqfsCtx) (state : DataCache) (call : ReadCall) : Prop :=
  ∀ file start, readStart ctx state call.inode call.offset call.size = .loops file start →
    ∀ mid, Pass.Enters (readPass dataCache ctx file call.offset) start mid →
      ¬ OffersOversized ctx file call.offset mid

/-- Calls that return one after the other, from one state of the data cache to
another. -/
inductive ReadsTo (ctx : SqfsCtx) : DataCache → List ReadCall → DataCache → Prop
  | nil (state) : ReadsTo ctx state [] state
  | cons {state call calls last} {result : ReadResult DataCache} :
      SqfsDataRead dataCache ctx state call.inode call.offset call.size (some result) →
      ReadsTo ctx result.cache calls last → ReadsTo ctx state (call :: calls) last

/-- In every call of a run that starts in `state`, the offers fit. -/
def RunOffersFit (ctx : SqfsCtx) (state : DataCache) (calls : List ReadCall) : Prop :=
  ∀ front call back middle, calls = front ++ call :: back → ReadsTo ctx state front middle →
    OffersFit ctx middle call

variable {ctx : SqfsCtx} {state last : DataCache} {list : CacheList BlockEntry}
  {adrift : List Nat}

theorem call_settles {call : ReadCall} {result : ReadResult DataCache}
    (ledger : state.Ledger list adrift)
    (read : SqfsDataRead dataCache ctx state call.inode call.offset call.size (some result)) :
    Settles adrift (¬ OffersFit ctx state call) result.cache := by
  unfold OffersFit
  rw [SqfsDataRead] at read
  cases start : readStart ctx state call.inode call.offset call.size with
  | returns ret =>
      simp only [start] at read
      cases read
      exact ledger.settles fun misfit => misfit (by simp)
  | loops file begun =>
      simp only [start] at read
      rw [← readStart_cache start] at ledger
      simpa using loop_settles ledger read

private theorem runOffersFit_cons {call : ReadCall} {calls : List ReadCall}
    {result : ReadResult DataCache}
    (read : SqfsDataRead dataCache ctx state call.inode call.offset call.size (some result)) :
    RunOffersFit ctx state (call :: calls) ↔
      OffersFit ctx state call ∧ RunOffersFit ctx result.cache calls := by
  constructor
  · intro fits
    refine ⟨fits [] call calls state rfl (.nil state), ?_⟩
    intro front other back middle split reads
    exact fits (call :: front) other back middle (congrArg (call :: ·) split) (.cons read reads)
  · rintro ⟨first, rest⟩ front other back middle split reads
    cases reads with
    | nil =>
        cases split
        exact first
    | cons otherRead reads =>
        cases split
        cases read.unique otherRead
        exact rest _ other back middle rfl reads

private theorem run_settles {calls : List ReadCall} (ledger : state.Ledger list adrift)
    (reads : ReadsTo ctx state calls last) :
    Settles adrift (¬ RunOffersFit ctx state calls) last := by
  induction reads generalizing list adrift with
  | nil state =>
      apply ledger.settles
      intro misfit
      apply misfit
      intro front call back middle split
      simp at split
  | cons read _ induction =>
      rcases call_settles ledger read with ⟨nextList, left, nextLedger, first⟩
      rcases induction nextLedger with ⟨lastList, lost, lastLedger, rest⟩
      refine ⟨lastList, lost, lastLedger, ?_⟩
      rw [rest, first, runOffersFit_cons read]
      simp only [not_not, and_assoc]

/-- After any calls on a new context, every entry that was created is held by
the cache or freed, exactly once, if and only if every block that a call read
behind a cache miss fits the cache. -/
theorem sqfsDataRead_owned_iff {ctx : SqfsCtx} {maxEntries maxMemory : Nat}
    {cache : SqfsCache BlockEntry} (inRange : maxEntries < 2 ^ 64)
    (init : sqfsCacheInit maxEntries maxMemory true = some cache)
    {calls : List ReadCall} {last : DataCache}
    (reads : ReadsTo ctx (.fresh cache) calls last) :
    last.AllOwned ↔ RunOffersFit ctx (.fresh cache) calls := by
  rcases DataCache.ledger_fresh inRange init with ⟨list, ledger⟩
  rcases run_settles ledger reads with ⟨lastList, lost, lastLedger, settled⟩
  rw [lastLedger.allOwned_iff, settled]
  simp

/-- Read a file of one block of two bytes. -/
def readTwoBytes : ReadCall where
  inode := .ofFile 2 0 fragmentInvalid 0 [2 ^ 24 + 2]
  offset := 0
  size := 2

/-- A run whose only block fits the cache. -/
theorem sqfsDataRead_owned_two_bytes :
    ∃ cache last, sqfsCacheInit 64 (2 ^ 20) true = some cache ∧
      ReadsTo (.onBytes [7, 8] (by decide)) (.fresh cache) [readTwoBytes] last ∧
      (last.AllOwned ↔ RunOffersFit (.onBytes [7, 8] (by decide)) (.fresh cache)
        [readTwoBytes]) := by
  have evaluated : (do
      let cache ← sqfsCacheInit 64 (2 ^ 20) true
      let result ← readTwoBytes.run dataCache (.onBytes [7, 8] (by decide)) 2 (.fresh cache)
      some result.ret) = some 2 := by
    decide +kernel
  rcases Option.bind_eq_some_iff.mp evaluated with ⟨cache, init, evaluated⟩
  rcases Option.bind_eq_some_iff.mp evaluated with ⟨result, run, -⟩
  have reads : ReadsTo (.onBytes [7, 8] (by decide)) (.fresh cache) [readTwoBytes]
      result.cache := .cons (ReadCall.read_of_run run) (.nil _)
  exact ⟨cache, result.cache, init, reads, sqfsDataRead_owned_iff (by decide) init reads⟩

/-- In a cache of 16 bytes, the entry of a block is neither kept nor freed. -/
theorem sqfsDataRead_loses_refused_entry :
    ∃ cache last, sqfsCacheInit 64 16 true = some cache ∧
      ReadsTo (.onBytes [7, 8] (by decide)) (.fresh cache) [readTwoBytes] last ∧
      ¬ last.AllOwned := by
  have evaluated : (do
      let cache ← sqfsCacheInit 64 16 true
      let result ← readTwoBytes.run dataCache (.onBytes [7, 8] (by decide)) 2 (.fresh cache)
      let state := result.cache
      let entries ← state.cache.readEntries state.cache.walkLimit state.cache.head
      some (entries.length, state.cache.freed, state.released, state.created)) =
        some (0, [], [], 1) := by
    decide +kernel
  rcases Option.bind_eq_some_iff.mp evaluated with ⟨cache, init, evaluated⟩
  rcases Option.bind_eq_some_iff.mp evaluated with ⟨result, run, evaluated⟩
  rcases Option.bind_eq_some_iff.mp evaluated with ⟨entries, read, fields⟩
  simp only [Option.some.injEq, Prod.mk.injEq] at fields
  rcases fields with ⟨none, freed, released, created⟩
  refine ⟨cache, result.cache, init, .cons (ReadCall.read_of_run run) (.nil _), ?_⟩
  rintro ⟨others, otherRead, owned⟩
  rw [read] at otherRead
  cases otherRead
  have lengths := owned.length_eq
  simp [DataCache.addresses, CacheList.values, none, freed, released, created] at lengths

end SquashfsFuse
