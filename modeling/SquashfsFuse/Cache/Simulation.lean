import SquashfsFuse.Cache.Refinement

/-! Runs of cache operations, on the pointer structure and on an `LruMap`. -/

namespace SquashfsFuse

variable {Value : Type}

inductive CacheOp (Value : Type)
  | get (key : Nat)
  | put (key : Nat) (value : Value) (memorySize : Nat)
  | remove (key : Nat)
  | clear

inductive CacheAnswer (Value : Type)
  | found (value : Option Value)
  | status (result : PutResult)
  | done
  deriving DecidableEq

/-- What is seen of the cache when an operation has returned: the answer, the
entries from the most to the least recently used, and the counters. -/
structure CacheObservation (Value : Type) where
  answer : CacheAnswer Value
  entries : List (LruEntry Nat Value)
  currentEntries : Nat
  currentMemory : Nat
  deriving DecidableEq

namespace SqfsCache

def perform (cache : SqfsCache Value) :
    CacheOp Value → Option (SqfsCache Value × CacheAnswer Value)
  | .get key => do
      let (cache, value) ← sqfsCacheGet cache key
      some (cache, .found value)
  | .put key value memorySize => do
      let (cache, result) ← sqfsCachePut cache key value memorySize
      some (cache, .status result)
  | .remove key => do
      let cache ← sqfsCacheRemove cache key
      some (cache, .done)
  | .clear => do
      let cache ← sqfsCacheClear cache
      some (cache, .done)

/-- Read the entries along the `next` links. -/
def readEntries (cache : SqfsCache Value) :
    Nat → Option Nat → Option (List (LruEntry Nat Value))
  | _, none => some []
  | 0, some _ => none
  | limit + 1, some entry => do
      let cell ← cache.heap entry
      let rest ← readEntries cache limit cell.next
      some (cell.content :: rest)

def observe (cache : SqfsCache Value) (answer : CacheAnswer Value) :
    Option (CacheObservation Value) := do
  let entries ← cache.readEntries cache.walkLimit cache.head
  some {
    answer, entries
    currentEntries := cache.currentEntries
    currentMemory := cache.currentMemory }

/-- The observations of a run, or `none` if the run follows a bad pointer. -/
def observations (cache : SqfsCache Value) :
    List (CacheOp Value) → Option (List (CacheObservation Value))
  | [] => some []
  | op :: ops => do
      let (cache, answer) ← cache.perform op
      let first ← cache.observe answer
      let rest ← observations cache ops
      some (first :: rest)

end SqfsCache

namespace LruMap

def perform (map : LruMap Nat Value) : CacheOp Value → LruMap Nat Value × CacheAnswer Value
  | .get key => ((map.get key).2, .found (map.get key).1)
  | .put key value memorySize =>
      ((map.put key value memorySize).2,
        .status (if (map.put key value memorySize).1 then .stored else .e2big))
  | .remove key => (map.remove key, .done)
  | .clear => (map.clear, .done)

def observe (map : LruMap Nat Value) (answer : CacheAnswer Value) : CacheObservation Value where
  answer := answer
  entries := map.entries
  currentEntries := map.entries.length
  currentMemory := LruEntry.memory map.entries

def observations (map : LruMap Nat Value) :
    List (CacheOp Value) → List (CacheObservation Value)
  | [] => []
  | op :: ops =>
      (map.perform op).1.observe (map.perform op).2 :: observations (map.perform op).1 ops

/-- The sums of sizes that a put computes stay below `2 ^ 64`. -/
def SumsFit (map : LruMap Nat Value) : CacheOp Value → Prop
  | .put _ _ memorySize => LruEntry.memory map.entries + memorySize < 2 ^ 64
  | _ => True

instance (map : LruMap Nat Value) : (op : CacheOp Value) → Decidable (map.SumsFit op)
  | .put _ _ memorySize =>
      inferInstanceAs (Decidable (LruEntry.memory map.entries + memorySize < 2 ^ 64))
  | .get _ | .remove _ | .clear => .isTrue trivial

/-- The sums fit in every put of a run. -/
def RunFits (map : LruMap Nat Value) : List (CacheOp Value) → Prop
  | [] => True
  | op :: ops => map.SumsFit op ∧ RunFits (map.perform op).1 ops

instance decidableRunFits (map : LruMap Nat Value) :
    (ops : List (CacheOp Value)) → Decidable (map.RunFits ops)
  | [] => .isTrue trivial
  | op :: ops =>
      have := decidableRunFits (map.perform op).1 ops
      inferInstanceAs (Decidable (map.SumsFit op ∧ RunFits (map.perform op).1 ops))

end LruMap

namespace SqfsCache

variable {cache : SqfsCache Value} {map : LruMap Nat Value}

def Simulates (cache : SqfsCache Value) (map : LruMap Nat Value) : Prop :=
  ∃ list, Represents cache list ∧ CacheList.Counts list map

theorem init_simulates {maxEntries : Nat} (maxMemory : Nat) (hasFreeFn : Bool)
    (positive : 0 < maxEntries) (inRange : maxEntries < 2 ^ 64) :
    ∃ cache : SqfsCache Value, sqfsCacheInit maxEntries maxMemory hasFreeFn = some cache ∧
      Simulates cache (.empty maxEntries maxMemory) := by
  obtain ⟨cache, run, represents⟩ :=
    @sqfsCacheInit_spec Value maxEntries maxMemory hasFreeFn positive
  exact ⟨cache, run, _, represents, {
    maxEntries := rfl
    maxMemory := rfl
    entries := rfl
    currentEntries := rfl
    currentMemory := rfl
    positive := positive
    sizeInRange := inRange
    lengthBound := Nat.zero_le maxEntries
    memoryBound := Nat.two_pow_pos 64 }⟩

theorem Simulates.perform (simulates : Simulates cache map) (op : CacheOp Value)
    (fits : map.SumsFit op) :
    ∃ after, cache.perform op = some (after, (map.perform op).2) ∧
      Simulates after (map.perform op).1 := by
  rcases simulates with ⟨list, represents, counts⟩
  cases op with
  | get key =>
      rcases sqfsCacheGet_spec key represents with ⟨after, run, afterRepresents⟩
      rcases counts.get key with ⟨answer, afterCounts⟩
      refine ⟨after, ?_, _, afterRepresents, afterCounts⟩
      simp only [SqfsCache.perform, run, Option.bind_eq_bind, Option.bind_some, answer]
      rfl
  | put key value memorySize =>
      rcases sqfsCachePut_spec key value memorySize represents with
        ⟨after, run, afterRepresents⟩
      rcases counts.put key value fits with ⟨answer, afterCounts⟩
      refine ⟨after, ?_, _, afterRepresents, afterCounts⟩
      simp only [SqfsCache.perform, run, Option.bind_eq_bind, Option.bind_some, answer]
      rfl
  | remove key =>
      rcases sqfsCacheRemove_spec key represents with ⟨after, run, afterRepresents⟩
      refine ⟨after, ?_, _, afterRepresents, counts.remove key⟩
      simp only [SqfsCache.perform, run, Option.bind_eq_bind, Option.bind_some]
      rfl
  | clear =>
      rcases sqfsCacheClear_spec represents with ⟨after, run, afterRepresents⟩
      refine ⟨after, ?_, _, afterRepresents, counts.clear⟩
      simp only [SqfsCache.perform, run, Option.bind_eq_bind, Option.bind_some]
      rfl

private theorem readEntries_spec {nodes : List Nat} {entries : List (LruEntry Nat Value)}
    {start : Option Nat} {limit : Nat}
    (contents : nodes.map cache.contentOf = entries.map some)
    (follows : Follows cache.nextOf start nodes) (enough : nodes.length ≤ limit) :
    cache.readEntries limit start = some entries := by
  induction nodes generalizing entries start limit with
  | nil =>
      obtain rfl : entries = [] := by simpa using contents.symm
      rw [show start = none from follows]
      cases limit <;> rfl
  | cons node rest induction =>
      cases entries with
      | nil => simp at contents
      | cons entry entries =>
          rw [List.map_cons, List.map_cons, List.cons.injEq] at contents
          rcases heap_of_contentOf contents.1 with ⟨cell, found, rfl⟩
          rw [show start = some node from follows.1]
          cases limit with
          | zero => simp at enough
          | succ limit =>
              have tail := follows.2
              rw [nextOf_eq found] at tail
              have read := induction contents.2 tail (Nat.le_of_succ_le_succ enough)
              rw [readEntries]
              simp only [found, Option.bind_eq_bind, Option.bind_some, read]

theorem Holds.readEntries {nodes : List Nat} {entries : List (LruEntry Nat Value)}
    (holds : cache.Holds nodes entries) :
    cache.readEntries cache.walkLimit cache.head = some entries := by
  have enough : nodes.length ≤ cache.walkLimit := Nat.le_succ_of_le
    (length_le_brk holds.allocated holds.live holds.listed.linked.nodup)
  have follows := holds.listed.linked.follows_next
  rw [← holds.listed.head] at follows
  exact readEntries_spec holds.contents follows enough

theorem Simulates.observe (simulates : Simulates cache map) (answer : CacheAnswer Value) :
    cache.observe answer = some (map.observe answer) := by
  rcases simulates with ⟨list, ⟨nodes, entries, holds, rfl⟩, counts⟩
  have sameEntries : entries = map.entries := counts.entries
  have sameLength : cache.currentEntries = map.entries.length := counts.currentEntries
  have sameMemory : cache.currentMemory = LruEntry.memory map.entries := counts.currentMemory
  rw [SqfsCache.observe, holds.readEntries, sameEntries, sameLength, sameMemory]
  rfl

/-- A run on the cache shows what the same run shows on the map. -/
theorem Simulates.observations (simulates : Simulates cache map) (ops : List (CacheOp Value))
    (fits : map.RunFits ops) : cache.observations ops = some (map.observations ops) := by
  induction ops generalizing cache map with
  | nil => rfl
  | cons op ops induction =>
      rcases simulates.perform op fits.1 with ⟨after, run, afterSimulates⟩
      have rest := induction afterSimulates fits.2
      rw [SqfsCache.observations, run]
      simp only [Option.bind_eq_bind, Option.bind_some, afterSimulates.observe, rest]
      rfl

/-- From its initialisation on, the cache is an LRU map: every operation gives
the answer of the map, and after every operation the recency list and the
counters are those of the map. -/
theorem sqfsCache_refines_lruMap {maxEntries : Nat} (maxMemory : Nat) (hasFreeFn : Bool)
    (positive : 0 < maxEntries) (inRange : maxEntries < 2 ^ 64) (ops : List (CacheOp Value))
    (fits : (LruMap.empty maxEntries maxMemory : LruMap Nat Value).RunFits ops) :
    ∃ cache : SqfsCache Value, sqfsCacheInit maxEntries maxMemory hasFreeFn = some cache ∧
      cache.observations ops =
        some ((LruMap.empty maxEntries maxMemory : LruMap Nat Value).observations ops) := by
  rcases init_simulates maxMemory hasFreeFn positive inRange with ⟨cache, run, simulates⟩
  exact ⟨cache, run, simulates.observations ops fits⟩

/-- Two entries fit; the third put evicts the one that was not looked up. -/
theorem sqfsCache_refines_lruMap_three_puts :
    ∃ cache : SqfsCache String, sqfsCacheInit 2 100 true = some cache ∧
      cache.observations [.put 1 "one" 10, .put 2 "two" 10, .get 1, .put 3 "three" 90,
        .get 2, .remove 1, .clear] =
      some ((LruMap.empty 2 100 : LruMap Nat String).observations
        [.put 1 "one" 10, .put 2 "two" 10, .get 1, .put 3 "three" 90,
          .get 2, .remove 1, .clear]) :=
  sqfsCache_refines_lruMap 100 true (by decide) (by decide) _ (by decide)

end SqfsCache

end SquashfsFuse
