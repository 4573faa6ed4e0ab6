import SquashfsFuse.Cache.Counters

/-! The representation invariant of the cache, in every state of every run. -/

namespace SquashfsFuse

variable {Value : Type}

/-! ## Steps that may fail -/

def Ensures (property : α → Prop) (result : Option α) : Prop :=
  ∀ value, result = some value → property value

namespace Ensures

variable {property : α → Prop} {value : α} {first : Option β} {rest : β → Option α}

theorem some (holds : property value) : Ensures property (.some value) := by
  rintro _ ⟨⟩
  exact holds

theorem none : Ensures property (.none : Option α) := by
  rintro _ ⟨⟩

theorem bind {middle : β → Prop} (holds : Ensures middle first)
    (continues : ∀ value, middle value → Ensures property (rest value)) :
    Ensures property (first >>= rest) := by
  intro result succeeds
  rcases Option.bind_eq_some_iff.mp succeeds with ⟨value, run, succeeds⟩
  exact continues value (holds value run) result succeeds

theorem read (continues : ∀ value, Ensures property (rest value)) :
    Ensures property (first >>= rest) := by
  intro result succeeds
  rcases Option.bind_eq_some_iff.mp succeeds with ⟨value, -, succeeds⟩
  exact continues value result succeeds

end Ensures

namespace SqfsCache

variable {cache after : SqfsCache Value} {nodes : List Nat} {entry node key : Nat}
  {entries : List (LruEntry Nat Value)} {list : CacheList Value}

/-! ## The number of buckets -/

def PowerOfTwo (cache : SqfsCache Value) : Prop := ∃ exponent, cache.bucketCount = 2 ^ exponent

section Tables

variable (powerOfTwo : cache.PowerOfTwo)

include powerOfTwo

theorem PowerOfTwo.of_count (same : after.bucketCount = cache.bucketCount) :
    after.PowerOfTwo := by
  rcases powerOfTwo with ⟨exponent, count⟩
  exact ⟨exponent, same.trans count⟩

theorem PowerOfTwo.modify (entry : Nat) (change : CacheEntry Value → CacheEntry Value) :
    Ensures PowerOfTwo (cache.modify entry change) :=
  .read fun _ => .some powerOfTwo

theorem PowerOfTwo.setBucket (idx : Nat) (entry : Option Nat) :
    Ensures PowerOfTwo (cache.setBucket idx entry) := by
  refine .read fun buckets => ?_
  split
  · exact .some powerOfTwo
  · exact .none

theorem PowerOfTwo.relinkNext (target value : Option Nat) :
    Ensures PowerOfTwo (relinkNext cache target value) := by
  cases target with
  | none => exact .some powerOfTwo
  | some node => exact powerOfTwo.modify node _

theorem PowerOfTwo.relinkPrev (target value : Option Nat) :
    Ensures PowerOfTwo (relinkPrev cache target value) := by
  cases target with
  | none => exact .some powerOfTwo
  | some node => exact powerOfTwo.modify node _

theorem PowerOfTwo.lruInsertHead (entry : Nat) :
    Ensures PowerOfTwo (lruInsertHead cache entry) :=
  .bind (powerOfTwo.modify entry _) fun linked linkedPower =>
    .bind (linkedPower.relinkPrev linked.head _) fun _ lastPower => .some lastPower

theorem PowerOfTwo.lruRemove (entry : Nat) : Ensures PowerOfTwo (lruRemove cache entry) :=
  .read fun cell =>
    .bind (powerOfTwo.relinkNext cell.prev _) fun _ nextPower =>
      .bind (nextPower.relinkPrev cell.next _) fun _ prevPower => prevPower.modify entry _

theorem PowerOfTwo.lruMoveToHead (entry : Nat) :
    Ensures PowerOfTwo (lruMoveToHead cache entry) := by
  unfold SquashfsFuse.lruMoveToHead
  split
  · exact .some powerOfTwo
  · exact .bind (powerOfTwo.lruRemove entry) fun _ removed => removed.lruInsertHead entry

theorem PowerOfTwo.hashInsert (entry : Nat) : Ensures PowerOfTwo (hashInsert cache entry) :=
  .read fun _ => .read fun _ => .bind (powerOfTwo.modify entry _) fun _ linked =>
    linked.setBucket _ _

theorem PowerOfTwo.relinkChain (idx : Nat) (prev value : Option Nat) :
    Ensures PowerOfTwo (relinkChain cache idx prev value) := by
  cases prev with
  | none => exact powerOfTwo.setBucket idx value
  | some node => exact powerOfTwo.modify node _

theorem PowerOfTwo.removeFromChain (key idx limit : Nat) (prev start : Option Nat) :
    Ensures PowerOfTwo (removeFromChain cache key idx limit prev start) := by
  induction limit generalizing prev start with
  | zero =>
      cases start with
      | none => exact .some powerOfTwo
      | some entry => exact .none
  | succ limit induction =>
      cases start with
      | none => exact .some powerOfTwo
      | some entry =>
          refine .read fun cell => ?_
          split
          · exact .bind (powerOfTwo.relinkChain idx prev _) fun _ linked =>
              linked.modify entry _
          · exact induction (some entry) cell.hnext

theorem PowerOfTwo.hashRemove (key : Nat) : Ensures PowerOfTwo (hashRemove cache key) :=
  .read fun _ => powerOfTwo.removeFromChain key _ _ _ _

theorem PowerOfTwo.callFreeFn (value : Value) : (callFreeFn cache value).PowerOfTwo := by
  unfold SquashfsFuse.callFreeFn
  split <;> exact powerOfTwo

theorem PowerOfTwo.cacheEntryFree (entry : Nat) :
    Ensures PowerOfTwo (cacheEntryFree cache entry) :=
  .read fun _ => .some (powerOfTwo.callFreeFn _)

theorem PowerOfTwo.discard (entry : Nat) : Ensures PowerOfTwo (discard cache entry) := by
  refine .read fun cell => .bind (powerOfTwo.hashRemove cell.key) fun removed removedPower =>
    .bind (removedPower.lruRemove entry) fun unlinked unlinkedPower => ?_
  have counted : PowerOfTwo { unlinked with
      currentEntries := sub64 unlinked.currentEntries 1
      currentMemory := sub64 unlinked.currentMemory cell.memorySize } :=
    unlinkedPower.of_count rfl
  exact counted.cacheEntryFree entry

end Tables

theorem PowerOfTwo.cacheEvictLoop (memoryNeeded limit : Nat) (powerOfTwo : cache.PowerOfTwo) :
    Ensures PowerOfTwo (cacheEvictLoop memoryNeeded limit cache) := by
  induction limit generalizing cache with
  | zero => exact .none
  | succ limit induction =>
      unfold SquashfsFuse.cacheEvictLoop
      split
      · exact .some powerOfTwo
      · next victim _ =>
          split
          · exact .some powerOfTwo
          · exact .bind (powerOfTwo.discard victim) fun _ shorter => induction shorter

theorem PowerOfTwo.rehash (limit : Nat) (start : Option Nat) (powerOfTwo : cache.PowerOfTwo) :
    Ensures PowerOfTwo (rehash limit start cache) := by
  induction limit generalizing cache start with
  | zero =>
      cases start with
      | none => exact .some powerOfTwo
      | some entry => exact .none
  | succ limit induction =>
      cases start with
      | none => exact .some powerOfTwo
      | some entry =>
          exact .read fun cell => .bind (powerOfTwo.hashInsert entry) fun _ inserted =>
            induction cell.next inserted

theorem PowerOfTwo.freeEntries (limit : Nat) (start : Option Nat)
    (powerOfTwo : cache.PowerOfTwo) : Ensures PowerOfTwo (freeEntries limit start cache) := by
  induction limit generalizing cache start with
  | zero =>
      cases start with
      | none => exact .some powerOfTwo
      | some entry => exact .none
  | succ limit induction =>
      cases start with
      | none => exact .some powerOfTwo
      | some entry =>
          exact .read fun cell => .bind (powerOfTwo.cacheEntryFree entry) fun _ freed =>
            induction cell.next freed

theorem PowerOfTwo.cacheResizeIfNeeded (powerOfTwo : cache.PowerOfTwo) :
    Ensures PowerOfTwo (cacheResizeIfNeeded cache) := by
  unfold SquashfsFuse.cacheResizeIfNeeded
  split
  · exact .some powerOfTwo
  · dsimp only
    split
    · exact .some powerOfTwo
    · next noOverflow =>
        apply PowerOfTwo.rehash
        rcases powerOfTwo with ⟨exponent, count⟩
        refine ⟨exponent + 1, ?_⟩
        dsimp only
        rw [count] at noOverflow ⊢
        rw [← Nat.pow_succ] at noOverflow ⊢
        have small : exponent + 1 < 64 := by
          by_contra large
          have multiple : 2 ^ 64 ∣ 2 ^ (exponent + 1) := Nat.pow_dvd_pow 2 (by omega)
          have zero : u64 (2 ^ (exponent + 1)) = 0 := Nat.mod_eq_zero_of_dvd multiple
          rw [zero] at noOverflow
          exact noOverflow (Nat.two_pow_pos exponent)
        exact u64_of_lt (Nat.pow_lt_pow_right (by decide) small)

/-! ## Calls -/

/-- `sqfs_cache_get`, `put`, `remove` and `clear`. -/
def call (cache : SqfsCache Value) : CacheCall Value → Option (SqfsCache Value)
  | .get key => do
      let (cache, _) ← sqfsCacheGet cache key
      some cache
  | .put key value memorySize allocatesEntry allocatesBuckets => do
      let (cache, _) ← sqfsCachePutCall cache key value memorySize allocatesEntry
        allocatesBuckets
      some cache
  | .remove key => sqfsCacheRemove cache key
  | .clear => sqfsCacheClear cache

private theorem initialBucketCount_pow (maxEntries fuel exponent : Nat) :
    ∃ last, initialBucketCount maxEntries fuel (2 ^ exponent) = 2 ^ last := by
  induction fuel generalizing exponent with
  | zero => exact ⟨exponent, rfl⟩
  | succ fuel induction =>
      unfold SquashfsFuse.initialBucketCount
      split
      · rw [← Nat.pow_succ]
        exact induction (exponent + 1)
      · exact ⟨exponent, rfl⟩

theorem PowerOfTwo.get (powerOfTwo : cache.PowerOfTwo) (key : Nat) :
    Ensures (fun result => PowerOfTwo result.1) (sqfsCacheGet cache key) := by
  have looked : Ensures (fun result => PowerOfTwo result.1) (sqfsCacheGetLookup cache key) := by
    refine .read fun found => ?_
    cases found with
    | none => exact .some (powerOfTwo.of_count rfl)
    | some entry => exact .read fun cell => .some (powerOfTwo.of_count rfl)
  refine .bind looked fun result held => ?_
  rcases result with ⟨middle, none | value⟩
  · exact .some held
  · refine .bind (.read fun found => ?_) fun _ moved => .some moved
    cases found with
    | none => exact .some held
    | some entry => exact PowerOfTwo.lruMoveToHead held entry

theorem PowerOfTwo.put (powerOfTwo : cache.PowerOfTwo) (key : Nat) (value : Option Value)
    (memorySize : Nat) (allocatesEntry allocatesBuckets : Bool) :
    Ensures (fun result => PowerOfTwo result.1)
      (sqfsCachePutCall cache key value memorySize allocatesEntry allocatesBuckets) := by
  unfold sqfsCachePutCall
  cases value with
  | none => exact .some powerOfTwo
  | some value =>
      dsimp only
      split
      · exact .some powerOfTwo
      · refine .read fun found => ?_
        cases found with
        | some existing =>
            refine .read fun cell => ?_
            have counted : PowerOfTwo { cache with
                currentMemory := u64 (sub64 cache.currentMemory cell.memorySize +
                  memorySize) } := powerOfTwo.of_count rfl
            exact .bind ((counted.callFreeFn cell.value).modify existing _) fun _ replaced =>
              .bind (replaced.lruMoveToHead existing) fun _ moved => .some moved
        | none =>
            refine .bind (powerOfTwo.cacheEvictLoop memorySize _) fun evicted evictedPower => ?_
            split
            · exact .some evictedPower
            · split
              · exact .some evictedPower
              · have created : (cacheEntryNew evicted key value memorySize).1.PowerOfTwo :=
                  evictedPower.of_count rfl
                refine .bind (created.hashInsert _) fun _ hashed =>
                  .bind (hashed.lruInsertHead _) fun linked linkedPower =>
                    .bind ?_ fun _ resized => .some resized
                have counted : PowerOfTwo { linked with
                    currentEntries := u64 (linked.currentEntries + 1)
                    currentMemory := u64 (linked.currentMemory + memorySize) } :=
                  linkedPower.of_count rfl
                unfold cacheResizeAttempt
                split
                · exact counted.cacheResizeIfNeeded
                · exact .some counted

theorem PowerOfTwo.call (powerOfTwo : cache.PowerOfTwo) (call : CacheCall Value) :
    Ensures PowerOfTwo (cache.call call) := by
  cases call with
  | get key => exact .bind (powerOfTwo.get key) fun _ held => .some held
  | put key value memorySize allocatesEntry allocatesBuckets =>
      exact .bind (powerOfTwo.put key value memorySize allocatesEntry allocatesBuckets)
        fun _ held => .some held
  | remove key =>
      refine .read fun found => ?_
      cases found with
      | none => exact .some powerOfTwo
      | some entry => exact powerOfTwo.discard entry
  | clear =>
      exact .bind (powerOfTwo.freeEntries _ _) fun _ freed => .read fun _ =>
        .some (freed.of_count rfl)

/-! ## The representation -/

/-- The entries `nodes` are what the links, the chains and the ends of the list say, all
together. -/
structure Intact (cache : SqfsCache Value) (nodes : List Nat) : Prop where
  forward : Follows cache.nextOf cache.head nodes
  backward : Follows cache.prevOf cache.tail nodes.reverse
  chained : Chained cache nodes
  powerOfTwo : cache.PowerOfTwo
  keyed : ∀ node ∈ nodes, ∃ key, cache.keyOf node = some key
  distinct : (nodes.map cache.keyOf).Nodup
  allocated : Allocated cache

def sizeOf (cache : SqfsCache Value) (node : Nat) : Nat :=
  ((cache.contentOf node).map LruEntry.size).getD 0

/-- The representation invariant, with the counters. -/
structure WellFormed (cache : SqfsCache Value) (nodes : List Nat) : Prop
    extends Intact cache nodes where
  entries : cache.currentEntries = nodes.length
  memory : cache.currentMemory = (nodes.map cache.sizeOf).sum

def Findable (cache : SqfsCache Value) (nodes : List Nat) : Prop :=
  ∀ node ∈ nodes, ∀ key, cache.keyOf node = some key → hashFind cache key = some (some node)

/-- Doubling the table loses no entry. -/
def ResizesIntact (cache : SqfsCache Value) (nodes : List Nat) : Prop :=
  ∃ after, cacheResizeIfNeeded cache = some after ∧ Intact after nodes ∧ Findable after nodes

/-- `hash_remove` takes the entry of the key out of the chains, and no other. -/
def UnlinksOne (cache : SqfsCache Value) (nodes : List Nat) : Prop :=
  ∀ node ∈ nodes, ∀ key, cache.keyOf node = some key →
    ∃ after, hashRemove cache key = some after ∧ Chained after (nodes.erase node) ∧
      HashStep cache after

namespace Intact

theorem nodup (intact : Intact cache nodes) : nodes.Nodup := .of_map _ intact.distinct

theorem listed (intact : Intact cache nodes) : Listed cache nodes where
  linked := .of_follows intact.nodup intact.forward intact.backward
  head := intact.forward.start_eq
  tail := by
    rw [intact.backward.start_eq, List.head?_reverse]

theorem live (intact : Intact cache nodes) : Live cache nodes := by
  intro node member
  rcases intact.keyed node member with ⟨key, keyed⟩
  rcases Option.map_eq_some_iff.mp keyed with ⟨content, found, -⟩
  rcases heap_of_contentOf found with ⟨cell, found, -⟩
  exact ⟨cell, found⟩

theorem unique (intact : Intact cache nodes) (member : node ∈ nodes)
    (keyed : cache.keyOf node = some key) : Unique cache nodes key node where
  member := member
  keyed := keyed
  only := by
    intro other otherMember otherKeyed
    exact List.inj_on_of_nodup_map intact.distinct otherMember member
      (otherKeyed.trans keyed.symm)

private theorem findable (intact : Intact cache nodes) : Findable cache nodes := by
  intro node member key keyed
  exact hashFind_hit intact.chained intact.live intact.allocated (intact.unique member keyed)

private theorem resizesIntact (intact : Intact cache nodes) : ResizesIntact cache nodes := by
  rcases cacheResizeIfNeeded_spec intact.listed intact.chained intact.live intact.allocated with
    ⟨after, run, chained, step⟩
  have listed := step.listed intact.listed
  have sameKeys : after.keyOf = cache.keyOf := by
    funext node
    rw [keyOf, keyOf, step.contentOf]
  have forward := listed.linked.follows_next
  have backward := listed.linked.follows_prev
  rw [← listed.head] at forward
  rw [← listed.tail] at backward
  have kept : Intact after nodes := {
    forward := forward
    backward := backward
    chained := chained
    powerOfTwo := intact.powerOfTwo.cacheResizeIfNeeded after run
    keyed := by
      rw [sameKeys]
      exact intact.keyed
    distinct := by
      rw [sameKeys]
      exact intact.distinct
    allocated := step.allocated intact.allocated }
  exact ⟨after, run, kept, kept.findable⟩

private theorem unlinksOne (intact : Intact cache nodes) : UnlinksOne cache nodes := by
  intro node member key keyed
  have unique := intact.unique member keyed
  have nodup := intact.nodup
  rcases List.append_of_mem member with ⟨before, rest, rfl⟩
  have apart : node ∉ before := by
    intro inBefore
    exact (List.nodup_cons.mp (List.nodup_middle.mp nodup)).1 (List.mem_append_left rest inBefore)
  rcases hashRemove_spec intact.chained intact.live intact.allocated nodup unique with
    ⟨after, run, chained, step⟩
  refine ⟨after, run, ?_, step⟩
  rw [List.erase_append_right _ apart, List.erase_cons_head]
  exact chained

end Intact

theorem Holds.keys (holds : Holds cache nodes entries) :
    nodes.map cache.keyOf = (entries.map LruEntry.key).map some := by
  have keys := congrArg (List.map (Option.map LruEntry.key)) holds.contents
  rw [List.map_map, List.map_map] at keys
  rw [List.map_map]
  exact keys

theorem Holds.intact (holds : Holds cache nodes entries) (powerOfTwo : cache.PowerOfTwo) :
    Intact cache nodes := by
  have forward := holds.listed.linked.follows_next
  have backward := holds.listed.linked.follows_prev
  rw [← holds.listed.head] at forward
  rw [← holds.listed.tail] at backward
  exact {
    forward := forward
    backward := backward
    chained := holds.chained
    powerOfTwo := powerOfTwo
    keyed := by
      intro node member
      rcases holds.live node member with ⟨cell, found⟩
      exact ⟨cell.key, keyOf_eq found⟩
    distinct := by
      rw [holds.keys]
      exact holds.distinct.map (Option.some_injective _)
    allocated := holds.allocated }

theorem Holds.sizes (holds : Holds cache nodes entries) :
    (nodes.map cache.sizeOf).sum = LruEntry.memory entries := by
  have sizes := congrArg
    (List.map fun content => (Option.map LruEntry.size content).getD 0) holds.contents
  rw [List.map_map, List.map_map] at sizes
  exact congrArg List.sum sizes

/-! ## The list behind the calls -/

theorem call_tooBig {value : Value} {memorySize : Nat} (tooBig : list.maxMemory < memorySize)
    (allocatesEntry allocatesBuckets : Bool) :
    list.call (.put key (some value) memorySize allocatesEntry allocatesBuckets) = list := by
  cases allocatesEntry with
  | true => rw [CacheList.call, CacheList.put, if_pos tooBig]
  | false => rw [CacheList.call, CacheList.putWithoutEntry, if_pos tooBig]

theorem call_present {value : Value} {memorySize : Nat} {old : LruEntry Nat Value}
    (acceptable : ¬ list.maxMemory < memorySize) (found : list.find key = some old)
    (allocatesEntry allocatesBuckets : Bool) :
    list.call (.put key (some value) memorySize allocatesEntry allocatesBuckets) =
      list.replace old key value memorySize := by
  cases allocatesEntry with
  | true => rw [CacheList.call, CacheList.put, if_neg acceptable, found]
  | false => rw [CacheList.call, CacheList.putWithoutEntry, if_neg acceptable, found]

theorem call_absent {value : Value} {memorySize : Nat}
    (acceptable : ¬ list.maxMemory < memorySize) (absent : list.find key = none)
    (allocatesEntry allocatesBuckets : Bool) :
    list.call (.put key (some value) memorySize allocatesEntry allocatesBuckets) =
      if (list.evict memorySize).maxEntries ≤ (list.evict memorySize).currentEntries ∨
          allocatesEntry = false then
        list.evict memorySize
      else
        (list.evict memorySize).insert key value memorySize := by
  cases allocatesEntry with
  | true =>
      rw [CacheList.call, CacheList.put, if_neg acceptable, absent]
      dsimp only
      split
      · next full => rw [if_pos (.inl full)]
      · next room => rw [if_neg (not_or.mpr ⟨room, by decide⟩)]
  | false =>
      rw [CacheList.call, CacheList.putWithoutEntry, if_neg acceptable, absent,
        if_pos (.inr rfl)]

private theorem Represents.resizeAttempt (represents : Represents cache list) (allocates : Bool) :
    ∃ after, cacheResizeAttempt allocates cache = some after ∧ Represents after list := by
  cases allocates with
  | true => exact represents.resize
  | false => exact ⟨cache, rfl, represents⟩

/-- A put does with the pointers what it does with the list, and is refused for the same
reason. -/
theorem sqfsCachePutCall_spec (key : Nat) (value : Option Value) (memorySize : Nat)
    (allocatesEntry allocatesBuckets : Bool) (represents : Represents cache list) :
    ∃ after, sqfsCachePutCall cache key value memorySize allocatesEntry allocatesBuckets =
        some (after, list.putErrno key value memorySize allocatesEntry) ∧
      Represents after
        (list.call (.put key value memorySize allocatesEntry allocatesBuckets)) := by
  rw [CacheList.putErrno]
  cases value with
  | none => exact ⟨cache, rfl, represents⟩
  | some value =>
      rw [sqfsCachePutCall, Option.isNone_some, if_neg Bool.false_ne_true]
      by_cases tooBig : cache.maxMemory < memorySize
      · rw [if_pos tooBig]
        rw [represents.maxMemory] at tooBig
        rw [call_tooBig tooBig, if_pos tooBig]
        exact ⟨cache, rfl, represents⟩
      · rw [if_neg tooBig]
        rcases represents with ⟨nodes, entries, holds, rfl⟩
        have acceptable : ¬ (cache.view entries).maxMemory < memorySize := tooBig
        rw [if_neg acceptable]
        cases found : (cache.view entries).find key with
        | some entry =>
            rw [call_present acceptable found, Option.isSome_some, if_pos rfl]
            rcases (LruEntry.find_eq_some holds.distinct).mp found with ⟨rfl, front, back, rfl⟩
            rcases replace_spec value memorySize holds with
              ⟨existing, cell, after, lookup, cellFound, run, represents⟩
            rcases Option.bind_eq_some_iff.mp run with ⟨changed, replaceRun, moveRun⟩
            refine ⟨after, ?_, represents⟩
            simp only [lookup, Option.bind_eq_bind, Option.bind_some, cellFound]
            rw [replaceRun, Option.bind_some, moveRun]
            rfl
        | none =>
            have missing := LruEntry.find_eq_none.mp found
            rcases evictAndInsert_spec value memorySize holds missing with
              ⟨evicted, evictRun, represents, hashed, linked, hashRun, linkRun, inserted⟩
            rw [hashFind_absent holds missing, call_absent acceptable found, Option.isSome_none,
              if_neg Bool.false_ne_true]
            simp only [Option.bind_eq_bind, Option.bind_some, evictRun]
            by_cases full : evicted.maxEntries ≤ evicted.currentEntries
            · have listFull := represents.full_iff.mp full
              rw [if_pos full, if_pos listFull, if_pos (.inl listFull)]
              exact ⟨evicted, rfl, represents⟩
            · have listRoom := represents.full_iff.not.mp full
              rw [if_neg full, if_neg listRoom]
              cases allocatesEntry with
              | false =>
                  rw [if_pos rfl, if_neg Bool.false_ne_true, if_pos (.inr rfl)]
                  exact ⟨evicted, rfl, represents⟩
              | true =>
                  rcases inserted.resizeAttempt allocatesBuckets with
                    ⟨after, resizeRun, resized⟩
                  have address : (cacheEntryNew evicted key value memorySize).2 = evicted.brk :=
                    rfl
                  rw [if_neg (not_or.mpr ⟨listRoom, by decide⟩), if_pos rfl]
                  refine ⟨after, ?_, resized⟩
                  simp only [address, hashRun, Option.bind_some, linkRun, resizeRun]
                  rfl

/-- No call follows a bad pointer, and what it leaves stands for the list behind the call. -/
theorem Represents.call (represents : Represents cache list) (call : CacheCall Value) :
    ∃ after, cache.call call = some after ∧ Represents after (list.call call) := by
  cases call with
  | get key =>
      rcases sqfsCacheGet_spec key represents with ⟨after, run, afterRepresents⟩
      refine ⟨after, ?_, afterRepresents⟩
      rw [SqfsCache.call, run]
      rfl
  | put key value memorySize allocatesEntry allocatesBuckets =>
      rcases sqfsCachePutCall_spec key value memorySize allocatesEntry allocatesBuckets
        represents with ⟨after, run, afterRepresents⟩
      refine ⟨after, ?_, afterRepresents⟩
      rw [SqfsCache.call, run]
      rfl
  | remove key => exact sqfsCacheRemove_spec key represents
  | clear => exact sqfsCacheClear_spec represents

/-- The cache stands for a list whose counters are right up to multiples of `2 ^ 64`. -/
structure Tracks (cache : SqfsCache Value) (list : CacheList Value) : Prop where
  represents : Represents cache list
  tallied : list.Tallied
  powerOfTwo : cache.PowerOfTwo

namespace Tracks

theorem distinct (tracks : Tracks cache list) : LruEntry.Distinct list.entries :=
  tracks.represents.distinct

theorem of_init {maxEntries maxMemory : Nat} {hasFreeFn : Bool}
    (entriesInRange : maxEntries < 2 ^ 64) (memoryInRange : maxMemory < 2 ^ 64)
    (init : sqfsCacheInit maxEntries maxMemory hasFreeFn = some cache) :
    Tracks cache (newList maxEntries maxMemory hasFreeFn) := by
  rcases represents_of_init init with ⟨positive, represents⟩
  refine ⟨represents, ⟨⟨rfl, Nat.zero_le _, positive, entriesInRange⟩, rfl, memoryInRange⟩, ?_⟩
  rw [sqfsCacheInit, if_neg (Nat.ne_of_gt positive)] at init
  cases init
  exact initialBucketCount_pow maxEntries 10 6

theorem call (tracks : Tracks cache list) (call : CacheCall Value) :
    ∃ after, cache.call call = some after ∧ Tracks after (list.call call) := by
  rcases tracks.represents.call call with ⟨after, run, represents⟩
  exact ⟨after, run, represents, tracks.tallied.call tracks.distinct call,
    tracks.powerOfTwo.call call after run⟩

theorem intact (tracks : Tracks cache list) :
    ∃ nodes, Intact cache nodes ∧ cache.currentEntries = nodes.length ∧
      cache.currentMemory = u64 (nodes.map cache.sizeOf).sum := by
  rcases tracks.represents with ⟨nodes, entries, holds, rfl⟩
  refine ⟨nodes, holds.intact tracks.powerOfTwo, ?_, ?_⟩
  · rw [holds.length]
    exact tracks.tallied.current
  · rw [holds.sizes]
    exact tracks.tallied.memory

theorem wellFormed_iff (tracks : Tracks cache list) :
    (∃ nodes, WellFormed cache nodes) ↔ LruEntry.memory list.entries < 2 ^ 64 := by
  rcases tracks.represents with ⟨nodes, entries, holds, rfl⟩
  have length : cache.currentEntries = entries.length := tracks.tallied.current
  have counted : cache.currentMemory = u64 (LruEntry.memory entries) := tracks.tallied.memory
  have intact := holds.intact tracks.powerOfTwo
  constructor
  · rintro ⟨others, wellFormed⟩
    have same : others = nodes := wellFormed.forward.unique intact.forward
    have summed := wellFormed.memory
    rw [same, holds.sizes, counted] at summed
    rw [view_entries, ← summed]
    exact Nat.mod_lt _ (Nat.two_pow_pos 64)
  · intro small
    rw [view_entries] at small
    refine ⟨nodes, intact, length.trans holds.length.symm, ?_⟩
    rw [holds.sizes, counted, u64_of_lt small]

end Tracks

/-! ## Runs -/

/-- Every state of a run, from the first to the last, has the property. -/
def EveryState (property : SqfsCache Value → Prop) (cache : SqfsCache Value) :
    List (CacheCall Value) → Prop
  | [] => property cache
  | call :: calls => property cache ∧
      match cache.call call with
      | some after => EveryState property after calls
      | none => False

instance decidableEveryState (property : SqfsCache Value → Prop) [DecidablePred property]
    (cache : SqfsCache Value) :
    (calls : List (CacheCall Value)) → Decidable (cache.EveryState property calls)
  | [] => inferInstanceAs (Decidable (property cache))
  | call :: calls =>
      match performed : cache.call call with
      | some after =>
          have := decidableEveryState property after calls
          decidable_of_iff (property cache ∧ after.EveryState property calls) (by
            simp only [EveryState, performed])
      | none => .isFalse (by simp only [EveryState, performed, and_false, not_false_iff])

def memorySizeOf (cache : SqfsCache Value) (key : Nat) : Option Nat := do
  let found ← hashFind cache key
  let entry ← found
  let cell ← cache.heap entry
  some cell.memorySize

theorem memorySizeOf_spec (key : Nat) (represents : Represents cache list) :
    cache.memorySizeOf key = (list.find key).map LruEntry.size := by
  rcases represents with ⟨nodes, entries, holds, rfl⟩
  rw [find_view, memorySizeOf]
  cases found : entries.find? (·.key = key) with
  | none =>
      rw [hashFind_absent holds (LruEntry.find_eq_none.mp found)]
      rfl
  | some entry =>
      rcases (LruEntry.find_eq_some holds.distinct).mp found with ⟨rfl, front, back, rfl⟩
      rcases hashFind_present holds with
        ⟨before, node, rest, cell, -, -, cellFound, cellContent, -, lookup⟩
      rw [lookup, ← cellContent]
      simp only [Option.bind_eq_bind, Option.bind_some, cellFound]
      rfl

def firstEvicted (cache : SqfsCache Value) : Nat :=
  if cache.currentEntries < cache.maxEntries then
    0
  else
    ((cache.tail.bind cache.heap).map CacheEntry.memorySize).getD 0

/-- The sum of the sizes that a put makes stays below `2 ^ 64`. -/
def SumFits (cache : SqfsCache Value) : CacheCall Value → Prop
  | .put key (some _) memorySize allocatesEntry _ =>
      cache.maxMemory < memorySize ∨
        match cache.memorySizeOf key with
        | some old => cache.currentMemory - old + memorySize < 2 ^ 64
        | none => allocatesEntry = false ∨
            cache.currentMemory - cache.firstEvicted + memorySize < 2 ^ 64
  | _ => True

instance (cache : SqfsCache Value) : (call : CacheCall Value) → Decidable (cache.SumFits call)
  | .put key (some _) memorySize allocatesEntry _ =>
      match present : cache.memorySizeOf key with
      | some old => decidable_of_iff (cache.maxMemory < memorySize ∨
          cache.currentMemory - old + memorySize < 2 ^ 64) (by
            simp only [SumFits, present])
      | none => decidable_of_iff (cache.maxMemory < memorySize ∨ allocatesEntry = false ∨
          cache.currentMemory - cache.firstEvicted + memorySize < 2 ^ 64) (by
            simp only [SumFits, present])
  | .put _ none _ _ _ | .get _ | .remove _ | .clear => .isTrue trivial

/-- The sums fit in every call of a run. -/
def RunSumsFit (cache : SqfsCache Value) : List (CacheCall Value) → Prop
  | [] => True
  | call :: calls => cache.SumFits call ∧
      match cache.call call with
      | some after => RunSumsFit after calls
      | none => True

instance decidableRunSumsFit (cache : SqfsCache Value) :
    (calls : List (CacheCall Value)) → Decidable (cache.RunSumsFit calls)
  | [] => .isTrue trivial
  | call :: calls =>
      match performed : cache.call call with
      | some after =>
          have := decidableRunSumsFit after calls
          decidable_of_iff (cache.SumFits call ∧ after.RunSumsFit calls) (by
            simp only [RunSumsFit, performed])
      | none =>
          decidable_of_iff (cache.SumFits call) (by
            simp only [RunSumsFit, performed, and_true])

private theorem firstEvicted_spec (represents : Represents cache list) :
    cache.firstEvicted = list.firstEvicted := by
  rcases represents with ⟨nodes, entries, holds, rfl⟩
  rw [firstEvicted, CacheList.firstEvicted]
  by_cases room : cache.currentEntries < cache.maxEntries
  · rw [if_pos room]
    exact (if_pos room).symm
  · rw [if_neg room]
    apply Eq.trans _ (if_neg room).symm
    rw [holds.listed.tail, view_entries]
    have last := congrArg List.getLast? holds.contents
    rw [List.getLast?_map, List.getLast?_map] at last
    cases node : nodes.getLast? with
    | none =>
        rw [node, Option.map_none] at last
        rw [Option.map_eq_none_iff.mp last.symm]
        rfl
    | some node =>
        rw [node, Option.map_some] at last
        rcases Option.map_eq_some_iff.mp last.symm with ⟨entry, entryLast, content⟩
        rcases heap_of_contentOf content.symm with ⟨cell, found, rfl⟩
        rw [entryLast, Option.bind_some, found]
        rfl

private theorem sumFits_iff (represents : Represents cache list) (call : CacheCall Value) :
    cache.SumFits call ↔ list.CallFits call := by
  cases call with
  | put key value memorySize allocatesEntry allocatesBuckets =>
      cases value with
      | none => exact Iff.rfl
      | some value =>
          have first := firstEvicted_spec represents
          have size := memorySizeOf_spec key represents
          rcases represents with ⟨nodes, entries, holds, rfl⟩
          rw [SumFits, size, first, CacheList.CallFits, CacheList.SumFits]
          cases (cache.view entries).find key <;> exact Iff.rfl
  | get _ => exact Iff.rfl
  | remove _ => exact Iff.rfl
  | clear => exact Iff.rfl

/-- The invariant holds in every state of a run exactly if the sums fit in every call. -/
theorem Tracks.everyState_iff (calls : List (CacheCall Value)) (tracks : Tracks cache list)
    (small : LruEntry.memory list.entries < 2 ^ 64) :
    cache.EveryState (fun state => ∃ nodes, WellFormed state nodes) calls ↔
      cache.RunSumsFit calls := by
  have here := tracks.wellFormed_iff.mpr small
  induction calls generalizing cache list with
  | nil => exact ⟨fun _ => trivial, fun _ => here⟩
  | cons call calls induction =>
      rcases tracks.call call with ⟨after, run, afterTracks⟩
      have fits := CacheList.call_fits_iff tracks.tallied tracks.distinct small call
      rw [EveryState, RunSumsFit, run, and_iff_right here,
        sumFits_iff tracks.represents call, ← fits]
      constructor
      · intro states
        have first : ∃ nodes, WellFormed after nodes := by
          cases calls with
          | nil => exact states
          | cons next calls => exact states.1
        have afterSmall := afterTracks.wellFormed_iff.mp first
        exact ⟨afterSmall, (induction afterTracks afterSmall first).mp states⟩
      · rintro ⟨afterSmall, rest⟩
        exact (induction afterTracks afterSmall
          (afterTracks.wellFormed_iff.mpr afterSmall)).mpr rest

private theorem Tracks.everyState_intact (calls : List (CacheCall Value)) (tracks : Tracks cache list) :
    cache.EveryState (fun state => ∃ nodes, Intact state nodes ∧
      state.currentEntries = nodes.length ∧
      state.currentMemory = u64 (nodes.map state.sizeOf).sum) calls := by
  induction calls generalizing cache list with
  | nil => exact tracks.intact
  | cons call calls induction =>
      rcases tracks.call call with ⟨after, run, afterTracks⟩
      rw [EveryState, run]
      exact ⟨tracks.intact, induction afterTracks⟩

/-- In every run from the initialisation on, the representation invariant holds in every state
exactly if the sums fit in every call. All of it but the sum of the sizes, which is then right
up to a multiple of `2 ^ 64`, holds in any run. Where it holds, a larger table loses no key and
`hash_remove` unlinks one entry. -/
theorem sqfsCache_wellFormed_iff {maxEntries maxMemory : Nat} {hasFreeFn : Bool}
    (entriesInRange : maxEntries < 2 ^ 64) (memoryInRange : maxMemory < 2 ^ 64)
    (init : sqfsCacheInit maxEntries maxMemory hasFreeFn = some cache)
    (calls : List (CacheCall Value)) :
    (cache.EveryState (fun state => ∃ nodes, WellFormed state nodes) calls ↔
      cache.RunSumsFit calls) ∧
    cache.EveryState (fun state => ∃ nodes, Intact state nodes ∧
      state.currentEntries = nodes.length ∧
      state.currentMemory = u64 (nodes.map state.sizeOf).sum) calls ∧
    ∀ (state : SqfsCache Value) (nodes : List Nat), Intact state nodes →
      ResizesIntact state nodes ∧ UnlinksOne state nodes := by
  have tracks := Tracks.of_init entriesInRange memoryInRange init
  refine ⟨tracks.everyState_iff calls (Nat.two_pow_pos 64), tracks.everyState_intact calls, ?_⟩
  intro state nodes intact
  exact ⟨intact.resizesIntact, intact.unlinksOne⟩

/-- A cache of two entries that evicts, replaces and removes. -/
theorem sqfsCache_wellFormed_iff_three_puts :
    ∃ cache : SqfsCache Nat, sqfsCacheInit 2 100 true = some cache ∧
      (cache.EveryState (fun state => ∃ nodes, WellFormed state nodes)
        [.put 1 (some 10) 60 true true, .put 2 (some 11) 60 true true, .get 2,
          .put 2 (some 12) 70 true true, .remove 2, .clear] ↔
        cache.RunSumsFit
          [.put 1 (some 10) 60 true true, .put 2 (some 11) 60 true true, .get 2,
            .put 2 (some 12) 70 true true, .remove 2, .clear]) ∧
      cache.EveryState (fun state => ∃ nodes, Intact state nodes ∧
        state.currentEntries = nodes.length ∧
        state.currentMemory = u64 (nodes.map state.sizeOf).sum)
        [.put 1 (some 10) 60 true true, .put 2 (some 11) 60 true true, .get 2,
          .put 2 (some 12) 70 true true, .remove 2, .clear] ∧
      ∀ (state : SqfsCache Nat) (nodes : List Nat), Intact state nodes →
        ResizesIntact state nodes ∧ UnlinksOne state nodes :=
  ⟨_, rfl, @sqfsCache_wellFormed_iff Nat _ 2 100 true (by decide) (by decide) rfl _⟩

/-- Without a limit for the memory, the sum of two sizes wraps around and nothing is
evicted. -/
theorem sqfsCache_memory_wraps :
    ∃ cache : SqfsCache Nat, sqfsCacheInit 4 (2 ^ 64 - 1) true = some cache ∧
      ¬ cache.EveryState (fun state => ∃ nodes, WellFormed state nodes)
        [.put 1 (some 10) 1 true true, .put 2 (some 11) (2 ^ 64 - 1) true true] := by
  refine ⟨_, rfl, fun states => ?_⟩
  have tracks := @Tracks.of_init Nat _ 4 (2 ^ 64 - 1) true (by decide) (by decide) rfl
  have fits := (tracks.everyState_iff _ (Nat.two_pow_pos 64)).mp states
  revert fits
  decide +kernel

end SqfsCache

end SquashfsFuse
