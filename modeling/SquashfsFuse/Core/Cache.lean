import SquashfsFuse.Core.Utils
import SquashfsFuse.Foundation.LinkedList

/-! The LRU cache (`cache.c`): entries on the heap that are threaded into a
doubly linked list and into the chains of a hash table.

Functions return `none` where the source would follow a null or dangling
pointer, index the bucket array out of range, or walk a cycle forever.
Allocations succeed. -/

namespace SquashfsFuse

structure CacheEntry (Value : Type) where
  key : Nat
  value : Value
  memorySize : Nat
  prev : Option Nat
  next : Option Nat
  hnext : Option Nat

structure Buckets where
  count : Nat
  head : Nat → Option Nat

/-- `sqfs_cache_t`, with the part of the heap that holds its entries and the
values `free_fn` has been called on. Addresses from `brk` on have not been
handed out yet. -/
structure SqfsCache (Value : Type) where
  maxEntries : Nat
  currentEntries : Nat
  maxMemory : Nat
  currentMemory : Nat
  head : Option Nat
  tail : Option Nat
  hasFreeFn : Bool
  buckets : Option Buckets
  bucketCount : Nat
  bucketMask : Nat
  hits : Nat
  misses : Nat
  heap : Nat → Option (CacheEntry Value)
  brk : Nat
  freed : List Value

variable {Value : Type}

def cacheInitialBuckets : Nat := 64

/-- `cache_hash`: FNV-1a over the bytes of the key, the highest first. -/
def cacheHash (key : Nat) : Nat :=
  [56, 48, 40, 32, 24, 16, 8, 0].foldl
    (fun hash shift => u64 ((hash ^^^ (key >>> shift &&& 0xFF)) * 1099511628211))
    14695981039346656037

namespace SqfsCache

/-- All bytes zero. -/
def zero : SqfsCache Value where
  maxEntries := 0
  currentEntries := 0
  maxMemory := 0
  currentMemory := 0
  head := none
  tail := none
  hasFreeFn := false
  buckets := none
  bucketCount := 0
  bucketMask := 0
  hits := 0
  misses := 0
  heap _ := none
  brk := 0
  freed := []

/-- Overwrite the entry at `entry`. -/
def assign (cache : SqfsCache Value) (entry : Nat) (cell : CacheEntry Value) :
    SqfsCache Value :=
  { cache with heap := Function.update cache.heap entry (some cell) }

/-- Assign to members of the entry at `entry`. -/
def modify (cache : SqfsCache Value) (entry : Nat)
    (change : CacheEntry Value → CacheEntry Value) : Option (SqfsCache Value) := do
  let cell ← cache.heap entry
  some (cache.assign entry (change cell))

/-- Read `buckets[idx]`. -/
def bucket (cache : SqfsCache Value) (idx : Nat) : Option (Option Nat) := do
  let buckets ← cache.buckets
  if idx < buckets.count then some (buckets.head idx) else none

/-- Assign to `buckets[idx]`. -/
def setBucket (cache : SqfsCache Value) (idx : Nat) (entry : Option Nat) :
    Option (SqfsCache Value) := do
  let buckets ← cache.buckets
  if idx < buckets.count then
    some { cache with
      buckets := some { buckets with head := Function.update buckets.head idx entry } }
  else
    none

/-- A walk that visits more entries than were ever allocated has met one of
them twice. -/
def walkLimit (cache : SqfsCache Value) : Nat := cache.brk + 1

/-- `cache_hash(key) & bucket_mask`. -/
def bucketIndex (cache : SqfsCache Value) (key : Nat) : Nat :=
  cacheHash key &&& cache.bucketMask

end SqfsCache

def cacheEntryNew (cache : SqfsCache Value) (key : Nat) (value : Value)
    (memorySize : Nat) : SqfsCache Value × Nat :=
  let cell := { key, value, memorySize, prev := none, next := none, hnext := none }
  ({ cache.assign cache.brk cell with brk := cache.brk + 1 }, cache.brk)

/-- Call `free_fn` on a value, if there is a release function. -/
def callFreeFn (cache : SqfsCache Value) (value : Value) : SqfsCache Value :=
  if cache.hasFreeFn then { cache with freed := cache.freed ++ [value] } else cache

def cacheEntryFree (cache : SqfsCache Value) (entry : Nat) : Option (SqfsCache Value) := do
  let cell ← cache.heap entry
  let cache := callFreeFn cache cell.value
  some { cache with heap := Function.update cache.heap entry none }

/-! ## The list of entries by recency -/

/-- Assign to `target->next`, or to the head of the list if there is no target. -/
def relinkNext (cache : SqfsCache Value) (target value : Option Nat) :
    Option (SqfsCache Value) :=
  match target with
  | some node => cache.modify node fun cell => { cell with next := value }
  | none => some { cache with head := value }

/-- Assign to `target->prev`, or to the tail of the list if there is no target. -/
def relinkPrev (cache : SqfsCache Value) (target value : Option Nat) :
    Option (SqfsCache Value) :=
  match target with
  | some node => cache.modify node fun cell => { cell with prev := value }
  | none => some { cache with tail := value }

def lruInsertHead (cache : SqfsCache Value) (entry : Nat) : Option (SqfsCache Value) := do
  let cache ← cache.modify entry fun cell => { cell with prev := none, next := cache.head }
  let cache ← relinkPrev cache cache.head (some entry)
  some { cache with head := some entry }

def lruRemove (cache : SqfsCache Value) (entry : Nat) : Option (SqfsCache Value) := do
  let cell ← cache.heap entry
  let cache ← relinkNext cache cell.prev cell.next
  let cache ← relinkPrev cache cell.next cell.prev
  cache.modify entry fun cell => { cell with prev := none, next := none }

def lruMoveToHead (cache : SqfsCache Value) (entry : Nat) : Option (SqfsCache Value) :=
  if cache.head = some entry then
    some cache
  else do
    let cache ← lruRemove cache entry
    lruInsertHead cache entry

/-! ## The hash table -/

/-- The loop of `hash_find`. -/
def findInChain (heap : Nat → Option (CacheEntry Value)) (key : Nat) :
    Nat → Option Nat → Option (Option Nat)
  | _, none => some none
  | 0, some _ => none
  | limit + 1, some entry => do
      let cell ← heap entry
      if cell.key = key then some (some entry) else findInChain heap key limit cell.hnext

def hashFind (cache : SqfsCache Value) (key : Nat) : Option (Option Nat) := do
  let start ← cache.bucket (cache.bucketIndex key)
  findInChain cache.heap key cache.walkLimit start

def hashInsert (cache : SqfsCache Value) (entry : Nat) : Option (SqfsCache Value) := do
  let cell ← cache.heap entry
  let idx := cache.bucketIndex cell.key
  let start ← cache.bucket idx
  let cache ← cache.modify entry fun cell => { cell with hnext := start }
  cache.setBucket idx (some entry)

/-- Assign to `prev->hnext`, or to the bucket if there is no `prev`. -/
def relinkChain (cache : SqfsCache Value) (idx : Nat) (prev value : Option Nat) :
    Option (SqfsCache Value) :=
  match prev with
  | some node => cache.modify node fun cell => { cell with hnext := value }
  | none => cache.setBucket idx value

/-- The loop of `hash_remove`, at an entry and its predecessor in the chain. -/
def removeFromChain (cache : SqfsCache Value) (key idx : Nat) :
    Nat → Option Nat → Option Nat → Option (SqfsCache Value)
  | _, _, none => some cache
  | 0, _, some _ => none
  | limit + 1, prev, some entry => do
      let cell ← cache.heap entry
      if cell.key = key then do
        let cache ← relinkChain cache idx prev cell.hnext
        cache.modify entry fun cell => { cell with hnext := none }
      else
        removeFromChain cache key idx limit (some entry) cell.hnext

def hashRemove (cache : SqfsCache Value) (key : Nat) : Option (SqfsCache Value) := do
  let idx := cache.bucketIndex key
  let start ← cache.bucket idx
  removeFromChain cache key idx cache.walkLimit none start

/-- The loop of `cache_resize_if_needed`, which follows the recency list. -/
def rehash : Nat → Option Nat → SqfsCache Value → Option (SqfsCache Value)
  | _, none, cache => some cache
  | 0, some _, _ => none
  | limit + 1, some entry, cache => do
      let cell ← cache.heap entry
      let cache ← hashInsert cache entry
      rehash limit cell.next cache

def cacheResizeIfNeeded (cache : SqfsCache Value) : Option (SqfsCache Value) :=
  if 4 * cache.currentEntries ≤ 3 * cache.bucketCount then
    some cache
  else
    let newCount := u64 (cache.bucketCount * 2)
    if newCount < cache.bucketCount then
      some cache
    else
      let resized := { cache with
        buckets := some { count := newCount, head := fun _ => none }
        bucketCount := newCount
        bucketMask := newCount - 1 }
      rehash cache.walkLimit cache.head resized

/-! ## Operations -/

def discard (cache : SqfsCache Value) (entry : Nat) : Option (SqfsCache Value) := do
  let cell ← cache.heap entry
  let cache ← hashRemove cache cell.key
  let cache ← lruRemove cache entry
  let cache := { cache with
    currentEntries := sub64 cache.currentEntries 1
    currentMemory := sub64 cache.currentMemory cell.memorySize }
  cacheEntryFree cache entry

/-- The loop of `cache_evict`; every pass frees the tail. -/
def cacheEvictLoop (memoryNeeded : Nat) : Nat → SqfsCache Value → Option (SqfsCache Value)
  | 0, _ => none
  | limit + 1, cache =>
      match cache.tail with
      | none => some cache
      | some victim =>
          if cache.currentEntries < cache.maxEntries ∧
              u64 (cache.currentMemory + memoryNeeded) ≤ cache.maxMemory then
            some cache
          else do
            let cache ← discard cache victim
            cacheEvictLoop memoryNeeded limit cache

def cacheEvict (cache : SqfsCache Value) (memoryNeeded : Nat) : Option (SqfsCache Value) :=
  cacheEvictLoop memoryNeeded cache.walkLimit cache

def initialBucketCount (maxEntries : Nat) : Nat → Nat → Nat
  | 0, count => count
  | fuel + 1, count =>
      if count < maxEntries ∧ count < 65536 then
        initialBucketCount maxEntries fuel (count * 2)
      else
        count

/-- `sqfs_cache_init`; `none` stands for the result `-1`. From 64 buckets the
loop reaches 65536 in ten passes. -/
def sqfsCacheInit (maxEntries maxMemory : Nat) (hasFreeFn : Bool) :
    Option (SqfsCache Value) :=
  if maxEntries = 0 then
    none
  else
    let count := initialBucketCount maxEntries 10 cacheInitialBuckets
    some { SqfsCache.zero with
      maxEntries, maxMemory, hasFreeFn
      buckets := some { count, head := fun _ => none }
      bucketCount := count
      bucketMask := count - 1 }

def freeEntries : Nat → Option Nat → SqfsCache Value → Option (SqfsCache Value)
  | _, none, cache => some cache
  | 0, some _, _ => none
  | limit + 1, some entry, cache => do
      let cell ← cache.heap entry
      let cache ← cacheEntryFree cache entry
      freeEntries limit cell.next cache

/-- `sqfs_cache_destroy` ends by zeroing the whole structure. The log of
released values is kept. -/
def sqfsCacheDestroy (cache : SqfsCache Value) : Option (SqfsCache Value) := do
  let emptied ← freeEntries cache.walkLimit cache.head cache
  some { (SqfsCache.zero : SqfsCache Value) with
    heap := emptied.heap, brk := emptied.brk, freed := emptied.freed }

/-- The part of `sqfs_cache_get` under the read lock: the value found, if any. -/
def sqfsCacheGetLookup (cache : SqfsCache Value) (key : Nat) :
    Option (SqfsCache Value × Option Value) := do
  match ← hashFind cache key with
  | some entry =>
      let cell ← cache.heap entry
      some ({ cache with hits := u64 (cache.hits + 1) }, some cell.value)
  | none => some ({ cache with misses := u64 (cache.misses + 1) }, none)

/-- The part of `sqfs_cache_get` under the write lock, after a hit. -/
def sqfsCacheGetMove (cache : SqfsCache Value) (key : Nat) : Option (SqfsCache Value) := do
  match ← hashFind cache key with
  | some entry => lruMoveToHead cache entry
  | none => some cache

/-- `sqfs_cache_get` without interference between its two halves. -/
def sqfsCacheGet (cache : SqfsCache Value) (key : Nat) :
    Option (SqfsCache Value × Option Value) := do
  match ← sqfsCacheGetLookup cache key with
  | (cache, some value) =>
      let cache ← sqfsCacheGetMove cache key
      some (cache, some value)
  | (cache, none) => some (cache, none)

/-- How `sqfs_cache_put` ends: `0`, or `-1` with `errno` set. -/
inductive PutResult
  | stored
  | e2big
  | enospc
  deriving Repr, DecidableEq

/-- `sqfs_cache_put` of a value that is not null. -/
def sqfsCachePut (cache : SqfsCache Value) (key : Nat) (value : Value) (memorySize : Nat) :
    Option (SqfsCache Value × PutResult) :=
  if cache.maxMemory < memorySize then
    some (cache, .e2big)
  else do
    match ← hashFind cache key with
    | some existing =>
        let cell ← cache.heap existing
        let cache := { cache with
          currentMemory := u64 (sub64 cache.currentMemory cell.memorySize + memorySize) }
        let cache := callFreeFn cache cell.value
        let cache ← cache.modify existing fun cell => { cell with value, memorySize }
        let cache ← lruMoveToHead cache existing
        some (cache, .stored)
    | none =>
        let cache ← cacheEvict cache memorySize
        if cache.maxEntries ≤ cache.currentEntries then
          some (cache, .enospc)
        else do
          let (cache, entry) := cacheEntryNew cache key value memorySize
          let cache ← hashInsert cache entry
          let cache ← lruInsertHead cache entry
          let cache := { cache with
            currentEntries := u64 (cache.currentEntries + 1)
            currentMemory := u64 (cache.currentMemory + memorySize) }
          let cache ← cacheResizeIfNeeded cache
          some (cache, .stored)

/-- `sqfs_cache_remove`. The entry found has the key that is removed. -/
def sqfsCacheRemove (cache : SqfsCache Value) (key : Nat) : Option (SqfsCache Value) := do
  match ← hashFind cache key with
  | none => some cache
  | some entry => discard cache entry

def sqfsCacheClear (cache : SqfsCache Value) : Option (SqfsCache Value) := do
  let cache ← freeEntries cache.walkLimit cache.head cache
  let buckets ← cache.buckets
  some { cache with
    buckets := some { buckets with head := fun _ => none }
    head := none
    tail := none
    currentEntries := 0
    currentMemory := 0 }

/-! ## Null values and failing allocations -/

/-- The values of `errno` that `sqfs_cache_put` sets. -/
inductive PutErrno
  | einval
  | e2big
  | enospc
  | enomem
  deriving Repr, DecidableEq

/-- `cache_resize_if_needed` when `calloc` may fail. The old table is kept then. -/
def cacheResizeAttempt (allocates : Bool) (cache : SqfsCache Value) :
    Option (SqfsCache Value) :=
  if allocates then cacheResizeIfNeeded cache else some cache

/-- `sqfs_cache_put` of a value that may be null, with the answers of the allocator for the
entry and for a larger table. It ends with `0`, or with `-1` and an `errno`. -/
def sqfsCachePutCall (cache : SqfsCache Value) (key : Nat) (value : Option Value)
    (memorySize : Nat) (allocatesEntry allocatesBuckets : Bool) :
    Option (SqfsCache Value × Option PutErrno) :=
  match value with
  | none => some (cache, some .einval)
  | some value =>
      if cache.maxMemory < memorySize then
        some (cache, some .e2big)
      else do
        match ← hashFind cache key with
        | some existing =>
            let cell ← cache.heap existing
            let cache := { cache with
              currentMemory := u64 (sub64 cache.currentMemory cell.memorySize + memorySize) }
            let cache := callFreeFn cache cell.value
            let cache ← cache.modify existing fun cell => { cell with value, memorySize }
            let cache ← lruMoveToHead cache existing
            some (cache, none)
        | none =>
            let cache ← cacheEvict cache memorySize
            if cache.maxEntries ≤ cache.currentEntries then
              some (cache, some .enospc)
            else if allocatesEntry = false then
              some (cache, some .enomem)
            else do
              let (cache, entry) := cacheEntryNew cache key value memorySize
              let cache ← hashInsert cache entry
              let cache ← lruInsertHead cache entry
              let cache := { cache with
                currentEntries := u64 (cache.currentEntries + 1)
                currentMemory := u64 (cache.currentMemory + memorySize) }
              let cache ← cacheResizeAttempt allocatesBuckets cache
              some (cache, none)

/-- The cache after a few operations, seen from the head of its list. -/
example :
    (do
      let cache : SqfsCache String ← sqfsCacheInit 2 100 true
      let (cache, _) ← sqfsCachePut cache 1 "one" 10
      let (cache, _) ← sqfsCachePut cache 2 "two" 10
      let (cache, _) ← sqfsCacheGet cache 1
      let (cache, _) ← sqfsCachePut cache 3 "three" 10
      let (cache, one) ← sqfsCacheGet cache 1
      let (cache, two) ← sqfsCacheGet cache 2
      some (one, two, cache.freed, cache.currentEntries, cache.currentMemory)) =
    some (some "one", none, ["two"], 2, 20) := by
  decide +kernel

end SquashfsFuse
