import SquashfsFuse.Core.Cache
import SquashfsFuse.Foundation.LruMap

/-! The cache without its pointers: the list of entries and the counters, which
are computed as the source computes them. While no sum overflows, this is an
`LruMap`. -/

namespace SquashfsFuse

variable {Value : Type}

structure CacheList (Value : Type) where
  maxEntries : Nat
  currentEntries : Nat
  maxMemory : Nat
  currentMemory : Nat
  hasFreeFn : Bool
  hits : Nat
  misses : Nat
  entries : List (LruEntry Nat Value)
  freed : List Value

namespace CacheList

variable {list : CacheList Value} {map : LruMap Nat Value} {key size memoryNeeded : Nat}
  {value : Value}

/-- Record that a value was released. -/
def release (list : CacheList Value) (value : Value) : CacheList Value :=
  if list.hasFreeFn then { list with freed := list.freed ++ [value] } else list

def find (list : CacheList Value) (key : Nat) : Option (LruEntry Nat Value) :=
  list.entries.find? (·.key = key)

def HasRoom (list : CacheList Value) (memoryNeeded : Nat) : Prop :=
  list.currentEntries < list.maxEntries ∧
    u64 (list.currentMemory + memoryNeeded) ≤ list.maxMemory

instance (list : CacheList Value) (memoryNeeded : Nat) : Decidable (list.HasRoom memoryNeeded) :=
  inferInstanceAs (Decidable (_ ∧ _))

/-- Drop entries from the end until the limits are met. The entries are given
from the least to the most recently used. -/
def evictFrom (memoryNeeded : Nat) :
    List (LruEntry Nat Value) → CacheList Value → CacheList Value
  | [], list => { list with entries := [] }
  | victim :: rest, list =>
      if list.HasRoom memoryNeeded then
        { list with entries := (victim :: rest).reverse }
      else
        evictFrom memoryNeeded rest ({ list with
          currentEntries := sub64 list.currentEntries 1
          currentMemory := sub64 list.currentMemory victim.size }.release victim.value)

def evict (memoryNeeded : Nat) (list : CacheList Value) : CacheList Value :=
  evictFrom memoryNeeded list.entries.reverse list

def lookup (list : CacheList Value) (key : Nat) : CacheList Value × Option Value :=
  match list.find key with
  | some entry => ({ list with hits := u64 (list.hits + 1) }, some entry.value)
  | none => ({ list with misses := u64 (list.misses + 1) }, none)

def move (list : CacheList Value) (key : Nat) : CacheList Value :=
  match list.find key with
  | some entry => { list with entries := entry :: LruEntry.without key list.entries }
  | none => list

def get (list : CacheList Value) (key : Nat) : CacheList Value × Option Value :=
  match list.lookup key with
  | (list, some value) => (list.move key, some value)
  | (list, none) => (list, none)

def replace (list : CacheList Value) (old : LruEntry Nat Value) (key : Nat) (value : Value)
    (size : Nat) : CacheList Value :=
  { list with
    currentMemory := u64 (sub64 list.currentMemory old.size + size)
    entries := ⟨key, value, size⟩ :: LruEntry.without key list.entries }.release old.value

def insert (list : CacheList Value) (key : Nat) (value : Value) (size : Nat) :
    CacheList Value :=
  { list with
    currentEntries := u64 (list.currentEntries + 1)
    currentMemory := u64 (list.currentMemory + size)
    entries := ⟨key, value, size⟩ :: list.entries }

def put (list : CacheList Value) (key : Nat) (value : Value) (size : Nat) :
    CacheList Value × PutResult :=
  if list.maxMemory < size then
    (list, .e2big)
  else
    match list.find key with
    | some old => (list.replace old key value size, .stored)
    | none =>
        let evicted := list.evict size
        if evicted.maxEntries ≤ evicted.currentEntries then
          (evicted, .enospc)
        else
          (evicted.insert key value size, .stored)

def remove (list : CacheList Value) (key : Nat) : CacheList Value :=
  match list.find key with
  | none => list
  | some entry =>
      { list with
        currentEntries := sub64 list.currentEntries 1
        currentMemory := sub64 list.currentMemory entry.size
        entries := LruEntry.without key list.entries }.release entry.value

def releaseAll (list : CacheList Value) : CacheList Value :=
  if list.hasFreeFn then
    { list with freed := list.freed ++ list.entries.map LruEntry.value }
  else
    list

def clear (list : CacheList Value) : CacheList Value :=
  { list.releaseAll with entries := [], currentEntries := 0, currentMemory := 0 }

/-! ## The counters agree with the list -/

structure Counts (list : CacheList Value) (map : LruMap Nat Value) : Prop where
  maxEntries : list.maxEntries = map.maxEntries
  maxMemory : list.maxMemory = map.maxMemory
  entries : list.entries = map.entries
  currentEntries : list.currentEntries = map.entries.length
  currentMemory : list.currentMemory = LruEntry.memory map.entries
  positive : 0 < map.maxEntries
  sizeInRange : map.maxEntries < 2 ^ 64
  lengthBound : map.entries.length ≤ map.maxEntries
  memoryBound : LruEntry.memory map.entries < 2 ^ 64

theorem release_fields (list : CacheList Value) (value : Value) :
    (list.release value).maxEntries = list.maxEntries ∧
    (list.release value).maxMemory = list.maxMemory ∧
    (list.release value).entries = list.entries ∧
    (list.release value).currentEntries = list.currentEntries ∧
    (list.release value).currentMemory = list.currentMemory := by
  rw [release]
  split <;> exact ⟨rfl, rfl, rfl, rfl, rfl⟩

theorem Counts.release (counts : Counts list map) (value : Value) :
    Counts (list.release value) map := by
  rcases release_fields list value with ⟨limit, memoryLimit, entries, length, memory⟩
  exact {
    maxEntries := limit.trans counts.maxEntries
    maxMemory := memoryLimit.trans counts.maxMemory
    entries := entries.trans counts.entries
    currentEntries := length.trans counts.currentEntries
    currentMemory := memory.trans counts.currentMemory
    positive := counts.positive
    sizeInRange := counts.sizeInRange
    lengthBound := counts.lengthBound
    memoryBound := counts.memoryBound }

theorem release_with_entries (list : CacheList Value) (value : Value)
    (entries : List (LruEntry Nat Value)) :
    { list with entries }.release value = { list.release value with entries } := by
  rw [release, release]
  split <;> rfl

theorem Counts.find (counts : Counts list map) (key : Nat) :
    list.find key = map.entries.find? (·.key = key) := by
  rw [CacheList.find, counts.entries]

theorem length_without {entries : List (LruEntry Nat Value)} {entry : LruEntry Nat Value}
    (distinct : LruEntry.Distinct entries) (found : entries.find? (·.key = key) = some entry) :
    entries.length = (LruEntry.without key entries).length + 1 ∧
      LruEntry.memory entries = LruEntry.memory (LruEntry.without key entries) + entry.size := by
  rcases (LruEntry.find_eq_some distinct).mp found with ⟨rfl, before, after, rfl⟩
  rw [LruEntry.without_split distinct]
  simp only [List.length_append, List.length_cons, LruEntry.memory_append,
    LruEntry.memory_cons]
  omega

theorem Counts.lookup (counts : Counts list map) (key : Nat) :
    (list.lookup key).2 = (map.get key).1 ∧ Counts (list.lookup key).1 map := by
  rw [CacheList.lookup, counts.find, LruMap.get]
  cases map.entries.find? (·.key = key) with
  | none => exact ⟨rfl, { counts with }⟩
  | some entry => exact ⟨rfl, { counts with }⟩

theorem Counts.move (counts : Counts list map) (key : Nat) :
    Counts (list.move key) (map.get key).2 := by
  rw [CacheList.move, counts.find, LruMap.get]
  cases found : map.entries.find? (·.key = key) with
  | none => exact counts
  | some entry =>
      have keyEqual : entry.key = key := by simpa using List.find?_some found
      rcases length_without map.distinct found with ⟨length, memory⟩
      have lengthBound := counts.lengthBound
      have memoryBound := counts.memoryBound
      exact { counts with
        entries := by
          subst keyEqual
          rw [counts.entries]
        currentEntries := by rw [counts.currentEntries, length]; rfl
        currentMemory := by rw [counts.currentMemory, memory, LruEntry.memory_cons, Nat.add_comm]
        lengthBound := by rw [List.length_cons, ← length]; exact lengthBound
        memoryBound := by rw [LruEntry.memory_cons, Nat.add_comm, ← memory]; exact memoryBound }

theorem Counts.get (counts : Counts list map) (key : Nat) :
    (list.get key).2 = (map.get key).1 ∧ Counts (list.get key).1 (map.get key).2 := by
  have looked := counts.lookup key
  have value := looked.1
  rw [CacheList.get]
  cases answer : list.lookup key with
  | mk after result =>
      rw [answer] at looked value
      cases result with
      | none =>
          refine ⟨value, ?_⟩
          have miss : (map.get key).2 = map := by
            rw [LruMap.get] at value ⊢
            cases found : map.entries.find? (·.key = key) with
            | none => rfl
            | some entry => simp [found] at value
          rw [miss]
          exact looked.2
      | some result => exact ⟨value, looked.2.move key⟩

private theorem Counts.dropLast {smaller : LruMap Nat Value} {victim : LruEntry Nat Value}
    (counts : Counts { list with entries := map.entries } map)
    (split : map.entries = smaller.entries ++ [victim])
    (sameEntries : smaller.maxEntries = map.maxEntries)
    (sameMemory : smaller.maxMemory = map.maxMemory) :
    Counts { list with
      entries := smaller.entries
      currentEntries := sub64 list.currentEntries 1
      currentMemory := sub64 list.currentMemory victim.size } smaller := by
  have length : list.currentEntries = map.entries.length := counts.currentEntries
  have memory : list.currentMemory = LruEntry.memory map.entries := counts.currentMemory
  have lengthSplit : map.entries.length = smaller.entries.length + 1 := by
    rw [split, List.length_append, List.length_singleton]
  have memorySplit : LruEntry.memory map.entries =
      LruEntry.memory smaller.entries + victim.size := by
    rw [split, LruEntry.memory_append, LruEntry.memory_cons, LruEntry.memory_nil, Nat.add_zero]
  have lengthBound := counts.lengthBound
  have sizeInRange := counts.sizeInRange
  have memoryBound := counts.memoryBound
  constructor
  · rw [sameEntries]
    exact counts.maxEntries
  · rw [sameMemory]
    exact counts.maxMemory
  · rfl
  · dsimp only
    rw [length, lengthSplit, sub64_of_le (by omega) (by omega), Nat.add_sub_cancel]
  · dsimp only
    rw [memory, memorySplit, sub64_of_le (by omega) (by omega), Nat.add_sub_cancel]
  · rw [sameEntries]
    exact counts.positive
  · rw [sameEntries]
    exact sizeInRange
  · omega
  · omega

/-- The eviction loop keeps exactly what the map keeps. -/
theorem evictFrom_counts (memoryNeeded : Nat) (list : CacheList Value)
    (backwards : List (LruEntry Nat Value)) (map : LruMap Nat Value)
    (kept : map.entries = backwards.reverse)
    (counts : Counts { list with entries := map.entries } map)
    (acceptable : memoryNeeded ≤ map.maxMemory)
    (small : LruEntry.memory map.entries + memoryNeeded < 2 ^ 64) :
    ∃ smaller : LruMap Nat Value,
      Counts (evictFrom memoryNeeded backwards list) smaller ∧
      smaller.maxEntries = map.maxEntries ∧ smaller.maxMemory = map.maxMemory ∧
      smaller.entries = LruMap.keep map.maxEntries map.maxMemory memoryNeeded map.entries := by
  induction backwards generalizing list map with
  | nil =>
      have empty : map.entries = [] := by simpa using kept
      refine ⟨map, ?_, rfl, rfl, ?_⟩
      · rw [evictFrom]
        rwa [empty] at counts
      · rw [empty, LruMap.keep, List.take_nil]
  | cons victim rest induction =>
      have roomIff : list.HasRoom memoryNeeded ↔
          LruMap.Fits map.maxEntries map.maxMemory memoryNeeded map.entries := by
        have length : list.currentEntries = map.entries.length := counts.currentEntries
        have memory : list.currentMemory = LruEntry.memory map.entries := counts.currentMemory
        have limit : list.maxEntries = map.maxEntries := counts.maxEntries
        have memoryLimit : list.maxMemory = map.maxMemory := counts.maxMemory
        rw [HasRoom, length, memory, limit, memoryLimit, u64_of_lt small]
        rfl
      rw [evictFrom]
      by_cases room : LruMap.Fits map.maxEntries map.maxMemory memoryNeeded map.entries
      · rw [if_pos (roomIff.mpr room), ← kept]
        exact ⟨map, counts, rfl, rfl, (LruMap.keep_of_fits room).symm⟩
      · rw [if_neg (fun fits => room (roomIff.mp fits))]
        rw [List.reverse_cons] at kept
        have smallerDistinct : LruEntry.Distinct rest.reverse :=
          map.distinct.sublist (by rw [kept]; exact List.sublist_append_left _ _)
        let smaller : LruMap Nat Value :=
          { map with entries := rest.reverse, distinct := smallerDistinct }
        let dropped : CacheList Value := { list with
          currentEntries := sub64 list.currentEntries 1
          currentMemory := sub64 list.currentMemory victim.size }
        have droppedCounts : Counts { dropped with entries := smaller.entries } smaller :=
          counts.dropLast kept rfl rfl
        have released := droppedCounts.release victim.value
        rw [release_with_entries] at released
        have stillSmall : LruEntry.memory smaller.entries + memoryNeeded < 2 ^ 64 := by
          rw [kept, LruEntry.memory_append] at small
          change LruEntry.memory rest.reverse + memoryNeeded < 2 ^ 64
          omega
        rcases induction (dropped.release victim.value) smaller rfl released acceptable
          stillSmall with ⟨last, lastCounts, lastLimit, lastMemory, lastEntries⟩
        refine ⟨last, lastCounts, lastLimit, lastMemory, ?_⟩
        rw [lastEntries, kept]
        rw [kept] at room
        exact (LruMap.keep_of_not_fits victim room).symm

private theorem Counts.find_none (counts : Counts list map) :
    list.find key = none ↔ key ∉ map.entries.map LruEntry.key := by
  rw [counts.find, LruEntry.find_eq_none]

private theorem Counts.put_present (key : Nat) (value : Value) (counts : Counts list map)
    {old : LruEntry Nat Value} (found : list.find key = some old)
    (acceptable : ¬ map.maxMemory < size)
    (small : LruEntry.memory (LruEntry.without key map.entries) + size < 2 ^ 64) :
    (map.put key value size).1 = true ∧
      Counts (list.replace old key value size) (map.put key value size).2 := by
  have mapFound := found
  rw [counts.find] at mapFound
  have present : key ∈ map.entries.map LruEntry.key := by
    by_contra absent
    rw [LruEntry.find_eq_none.mpr absent] at mapFound
    cases mapFound
  rw [LruMap.put, if_neg acceptable, dif_pos present]
  refine ⟨rfl, ?_⟩
  rcases length_without map.distinct mapFound with ⟨length, memory⟩
  have lengthBound := counts.lengthBound
  have newMemory : u64 (sub64 list.currentMemory old.size + size) =
      size + LruEntry.memory (LruEntry.without key map.entries) := by
    rw [counts.currentMemory, sub64_of_le (by omega) counts.memoryBound, memory,
      Nat.add_sub_cancel, u64_of_lt small, Nat.add_comm]
  refine Counts.release ?_ old.value
  exact { counts with
    entries := by rw [counts.entries]
    currentEntries := by rw [counts.currentEntries, length]; rfl
    currentMemory := newMemory
    lengthBound := by rw [List.length_cons, ← length]; exact lengthBound
    memoryBound := by
      change size + LruEntry.memory (LruEntry.without key map.entries) < 2 ^ 64
      omega }

/-- A put on the list is a put on the map, and `-ENOSPC` does not occur. -/
theorem Counts.put (key : Nat) (value : Value) (counts : Counts list map)
    (small : LruEntry.memory map.entries + size < 2 ^ 64) :
    (list.put key value size).2 = (if (map.put key value size).1 then .stored else .e2big) ∧
      Counts (list.put key value size).1 (map.put key value size).2 := by
  rw [CacheList.put, LruMap.put, counts.maxMemory]
  by_cases tooBig : map.maxMemory < size
  · rw [if_pos tooBig, if_pos tooBig]
    exact ⟨rfl, counts⟩
  · rw [if_neg tooBig, if_neg tooBig]
    cases found : list.find key with
    | some old =>
        have mapFound := found
        rw [counts.find] at mapFound
        have memory := (length_without map.distinct mapFound).2
        have replaced := counts.put_present key value found tooBig (by omega)
        rw [LruMap.put, if_neg tooBig] at replaced
        exact ⟨by rw [replaced.1, if_pos rfl], replaced.2⟩
    | none =>
        have absent := counts.find_none.mp found
        rw [dif_neg absent]
        have sameEntries : { list with entries := map.entries } = list := by
          rw [← counts.entries]
        rcases evictFrom_counts size list list.entries.reverse map
            (by rw [List.reverse_reverse, counts.entries]) (by rwa [sameEntries])
            (Nat.le_of_not_lt tooBig) small with
          ⟨smaller, evicted, limit, memoryLimit, kept⟩
        have room := LruMap.keep_fits map.entries counts.positive (Nat.le_of_not_lt tooBig)
        rw [← kept, ← limit, ← memoryLimit] at room
        have spaceLeft : ¬ (list.evict size).maxEntries ≤ (list.evict size).currentEntries := by
          have fewer := room.1
          rw [evict, evicted.maxEntries, evicted.currentEntries]
          omega
        simp only [if_neg spaceLeft]
        have sizeInRange := evicted.sizeInRange
        have fewer := room.1
        have keptMemory : LruEntry.memory smaller.entries ≤ LruEntry.memory map.entries := by
          rw [kept]
          exact LruEntry.memory_take_le _ _
        have newLength : u64 ((list.evict size).currentEntries + 1) =
            smaller.entries.length + 1 := by
          rw [evict, evicted.currentEntries]
          exact u64_of_lt (by omega)
        have newMemory : u64 ((list.evict size).currentMemory + size) =
            size + LruEntry.memory smaller.entries := by
          rw [evict, evicted.currentMemory, Nat.add_comm]
          exact u64_of_lt (by omega)
        have newEntries := congrArg (LruEntry.mk key value size :: ·) (evicted.entries.trans kept)
        refine ⟨rfl, ?_⟩
        rw [kept] at newLength newMemory fewer keptMemory
        exact {
          maxEntries := evicted.maxEntries.trans limit
          maxMemory := evicted.maxMemory.trans memoryLimit
          entries := newEntries
          currentEntries := newLength
          currentMemory := newMemory
          positive := counts.positive
          sizeInRange := counts.sizeInRange
          lengthBound := by rw [limit] at fewer; exact fewer
          memoryBound := by rw [LruEntry.memory_cons]; change size + _ < _; omega }

theorem Counts.remove (counts : Counts list map) (key : Nat) :
    Counts (list.remove key) (map.remove key) := by
  rw [CacheList.remove]
  cases found : list.find key with
  | none =>
      have absent := counts.find_none.mp found
      have unchanged : map.remove key = map := by
        rw [LruMap.remove]
        congr
        exact LruEntry.without_absent absent
      rw [unchanged]
      exact counts
  | some entry =>
      have mapFound := found
      rw [counts.find] at mapFound
      rcases length_without map.distinct mapFound with ⟨length, memory⟩
      have lengthBound := counts.lengthBound
      have memoryBound := counts.memoryBound
      have sizeInRange := counts.sizeInRange
      have lengthLeft : sub64 list.currentEntries 1 =
          (LruEntry.without key map.entries).length := by
        rw [counts.currentEntries, length, sub64_of_le (by omega) (by omega),
          Nat.add_sub_cancel]
      have memoryLeft : sub64 list.currentMemory entry.size =
          LruEntry.memory (LruEntry.without key map.entries) := by
        rw [counts.currentMemory, memory, sub64_of_le (by omega) (by omega),
          Nat.add_sub_cancel]
      have stillFits : (LruEntry.without key map.entries).length ≤ map.maxEntries := by omega
      have stillSmall : LruEntry.memory (LruEntry.without key map.entries) < 2 ^ 64 := by omega
      have dropped : Counts { list with
          currentEntries := sub64 list.currentEntries 1
          currentMemory := sub64 list.currentMemory entry.size
          entries := LruEntry.without key list.entries } (map.remove key) := {
        maxEntries := by rw [LruMap.remove]; exact counts.maxEntries
        maxMemory := counts.maxMemory
        entries := by rw [counts.entries, LruMap.remove]
        currentEntries := lengthLeft
        currentMemory := memoryLeft
        positive := counts.positive
        sizeInRange := counts.sizeInRange
        lengthBound := stillFits
        memoryBound := stillSmall }
      exact dropped.release entry.value

theorem Counts.clear (counts : Counts list map) : Counts list.clear map.clear := by
  have limits : list.clear.maxEntries = list.maxEntries ∧
      list.clear.maxMemory = list.maxMemory := by
    rw [CacheList.clear, releaseAll]
    split <;> exact ⟨rfl, rfl⟩
  exact {
    maxEntries := limits.1.trans counts.maxEntries
    maxMemory := limits.2.trans counts.maxMemory
    entries := rfl
    currentEntries := rfl
    currentMemory := rfl
    positive := counts.positive
    sizeInRange := counts.sizeInRange
    lengthBound := Nat.zero_le _
    memoryBound := Nat.two_pow_pos 64 }

/-! ## The entry counter by itself -/

structure Counted (list : CacheList Value) : Prop where
  current : list.currentEntries = list.entries.length
  bound : list.entries.length ≤ list.maxEntries
  positive : 0 < list.maxEntries
  inRange : list.maxEntries < 2 ^ 64

theorem Counted.get (counted : list.Counted) (distinct : LruEntry.Distinct list.entries)
    (key : Nat) : (list.get key).1.Counted := by
  rw [CacheList.get, lookup]
  cases found : list.find key with
  | none => exact ⟨counted.current, counted.bound, counted.positive, counted.inRange⟩
  | some entry =>
      have again : ({ list with hits := u64 (list.hits + 1) } : CacheList Value).find key =
          some entry := found
      have length := (length_without distinct found).1
      simp only [CacheList.move, again]
      exact {
        current := by
          rw [List.length_cons, ← length]
          exact counted.current
        bound := by
          rw [List.length_cons, ← length]
          exact counted.bound
        positive := counted.positive
        inRange := counted.inRange }

theorem Counted.evictFrom (memoryNeeded : Nat) (backwards : List (LruEntry Nat Value))
    {list : CacheList Value} (counted : Counted { list with entries := backwards.reverse }) :
    (CacheList.evictFrom memoryNeeded backwards list).Counted ∧
      (CacheList.evictFrom memoryNeeded backwards list).maxMemory = list.maxMemory ∧
      (CacheList.evictFrom memoryNeeded backwards list).currentEntries <
        (CacheList.evictFrom memoryNeeded backwards list).maxEntries := by
  induction backwards generalizing list with
  | nil =>
      have empty : list.currentEntries = 0 := counted.current
      refine ⟨counted, rfl, ?_⟩
      rw [CacheList.evictFrom, empty]
      exact counted.positive
  | cons victim rest induction =>
      rw [CacheList.evictFrom]
      by_cases room : list.HasRoom memoryNeeded
      · rw [if_pos room]
        exact ⟨counted, rfl, room.1⟩
      · rw [if_neg room]
        let dropped : CacheList Value := { list with
          currentEntries := sub64 list.currentEntries 1
          currentMemory := sub64 list.currentMemory victim.size }
        rcases release_fields dropped victim.value with ⟨limit, memoryLimit, -, length, -⟩
        have before : list.currentEntries = (victim :: rest).reverse.length := counted.current
        have bound : (victim :: rest).reverse.length ≤ list.maxEntries := counted.bound
        have inRange : list.maxEntries < 2 ^ 64 := counted.inRange
        rw [List.length_reverse, List.length_cons] at before bound
        have smaller : Counted { dropped.release victim.value with entries := rest.reverse } := {
          current := by
            rw [List.length_reverse]
            apply length.trans
            change sub64 list.currentEntries 1 = rest.length
            rw [before, sub64_of_le (by omega) (by omega), Nat.add_sub_cancel]
          bound := by
            rw [List.length_reverse]
            exact (Nat.le_of_succ_le bound).trans_eq limit.symm
          positive := counted.positive.trans_eq limit.symm
          inRange := limit.trans_lt inRange }
        rcases induction smaller with ⟨kept, keptMemory, fewer⟩
        exact ⟨kept, keptMemory.trans memoryLimit, fewer⟩

theorem Counted.put (counted : list.Counted) (distinct : LruEntry.Distinct list.entries)
    (key : Nat) (value : Value) (size : Nat) :
    (list.put key value size).2 = (if list.maxMemory < size then .e2big else .stored) ∧
      (list.put key value size).1.Counted := by
  rw [CacheList.put]
  by_cases tooBig : list.maxMemory < size
  · rw [if_pos tooBig, if_pos tooBig]
    exact ⟨rfl, counted⟩
  · rw [if_neg tooBig, if_neg tooBig]
    cases found : list.find key with
    | some old =>
        have length := (length_without distinct found).1
        refine ⟨rfl, ?_⟩
        rcases release_fields { list with
            currentMemory := u64 (sub64 list.currentMemory old.size + size)
            entries := ⟨key, value, size⟩ :: LruEntry.without key list.entries } old.value with
          ⟨limit, -, entries, current, -⟩
        have same : (list.replace old key value size).entries.length = list.entries.length := by
          rw [CacheList.replace, entries, List.length_cons, length]
        exact {
          current := by
            rw [same]
            exact current.trans counted.current
          bound := by
            rw [same]
            exact counted.bound.trans_eq limit.symm
          positive := counted.positive.trans_eq limit.symm
          inRange := limit.trans_lt counted.inRange }
    | none =>
        have whole : Counted { list with entries := list.entries.reverse.reverse } := by
          rw [List.reverse_reverse]
          exact counted
        rcases whole.evictFrom size with ⟨evicted, -, fewer⟩
        change (list.evict size).Counted at evicted
        change (list.evict size).currentEntries < (list.evict size).maxEntries at fewer
        have current := evicted.current
        have inRange := evicted.inRange
        simp only [if_neg (Nat.not_le_of_lt fewer), true_and]
        exact {
          current := by
            rw [insert, List.length_cons, ← current]
            exact u64_of_lt (by omega)
          bound := by
            rw [insert, List.length_cons, ← current]
            exact fewer
          positive := evicted.positive
          inRange := inRange }

end CacheList

end SquashfsFuse
