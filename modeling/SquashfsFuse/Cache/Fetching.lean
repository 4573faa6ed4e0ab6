import SquashfsFuse.Cache.Simulation
import SquashfsFuse.Foundation.LruFetch

/-! What the cache still has of what was fetched through it. -/

namespace SquashfsFuse

variable {Value : Type}

namespace SqfsCache

/-- What the readers do: get a key, and put its value if the cache does not have it. The result
is what the get has found. -/
def fetch (value : Nat → Value) (size : Nat → Nat) (cache : SqfsCache Value) (key : Nat) :
    Option (SqfsCache Value × Option Value) := do
  match ← sqfsCacheGet cache key with
  | (cache, some found) => some (cache, some found)
  | (cache, none) => do
      let (cache, _) ← sqfsCachePut cache key (value key) (size key)
      some (cache, none)

/-- Fetch the keys one after the other. -/
def fetchAll (value : Nat → Value) (size : Nat → Nat) (cache : SqfsCache Value) :
    List Nat → Option (SqfsCache Value)
  | [] => some cache
  | key :: keys => do
      let (cache, _) ← fetch value size cache key
      fetchAll value size cache keys

variable {value : Nat → Value} {size : Nat → Nat} {cache : SqfsCache Value}
  {map : LruMap Nat Value} {order : List Nat}

theorem Simulates.get (simulates : Simulates cache map) (key : Nat) :
    ∃ after, sqfsCacheGet cache key = some (after, (map.get key).1) ∧
      Simulates after (map.get key).2 := by
  rcases simulates with ⟨list, represents, counts⟩
  rcases sqfsCacheGet_spec key represents with ⟨after, run, afterRepresents⟩
  rcases counts.get key with ⟨answer, afterCounts⟩
  rw [answer] at run
  exact ⟨after, run, _, afterRepresents, afterCounts⟩

theorem Simulates.put (simulates : Simulates cache map) (key : Nat) (value : Value)
    {memorySize : Nat} (inRange : memorySize ≤ map.maxMemory →
      LruEntry.memory map.entries + memorySize < 2 ^ 64) :
    ∃ after answer, sqfsCachePut cache key value memorySize = some (after, answer) ∧
      Simulates after (map.put key value memorySize).2 := by
  rcases simulates with ⟨list, represents, counts⟩
  have limit : cache.maxMemory = map.maxMemory :=
    represents.maxMemory.trans counts.maxMemory
  by_cases tooBig : map.maxMemory < memorySize
  · refine ⟨cache, .e2big, ?_, ?_⟩
    · rw [sqfsCachePut, if_pos (limit ▸ tooBig)]
    · rw [LruMap.put, if_pos tooBig]
      exact ⟨list, represents, counts⟩
  · rcases sqfsCachePut_spec key value memorySize represents with
      ⟨after, run, afterRepresents⟩
    exact ⟨after, _, run, _, afterRepresents,
      (counts.put key value (inRange (Nat.le_of_not_lt tooBig))).2⟩

theorem Simulates.fetch (simulates : Simulates cache map)
    (holds : map.HoldsRecent value size order) (memoryInRange : map.maxMemory < 2 ^ 63)
    (key : Nat) :
    ∃ after, cache.fetch value size key = some (after, (map.fetch value size key).1) ∧
      Simulates after (map.fetch value size key).2 := by
  rcases simulates.get key with ⟨after, got, afterSimulates⟩
  rw [SqfsCache.fetch, got, LruMap.fetch]
  cases answer : map.get key with
  | mk found next =>
      rw [answer] at afterSimulates
      dsimp only at afterSimulates
      cases found with
      | some found => exact ⟨after, rfl, afterSimulates⟩
      | none =>
          have same := map.get_of_none (congrArg Prod.fst answer)
          rw [answer] at same
          obtain rfl : next = map := same
          have memory := holds.fitting.memory
          have sizes := LruMap.memory_of_sizes fun entry member => (holds.loaded entry member).2
          rw [LruMap.keys, ← sizes] at memory
          rcases afterSimulates.put key (value key) (fun accepted => by omega) with
            ⟨last, result, put, lastSimulates⟩
          refine ⟨last, ?_, lastSimulates⟩
          change (sqfsCachePut after key (value key) (size key) >>=
            fun result => some (result.1, none)) = _
          rw [put]
          rfl

theorem Simulates.fetchAll (simulates : Simulates cache map)
    (holds : map.HoldsRecent value size order) (memoryInRange : map.maxMemory < 2 ^ 63)
    (keys : List Nat) :
    ∃ after, cache.fetchAll value size keys = some after ∧
      Simulates after (map.fetchAll value size keys) := by
  induction keys generalizing cache map order with
  | nil => exact ⟨cache, rfl, simulates⟩
  | cons key keys induction =>
      rcases simulates.fetch holds memoryInRange key with ⟨next, fetched, nextSimulates⟩
      rcases induction nextSimulates (holds.fetch key).1
        (LruMap.fetch_limits.2.trans_lt memoryInRange) with ⟨after, run, afterSimulates⟩
      refine ⟨after, ?_, afterSimulates⟩
      rw [SqfsCache.fetchAll, fetched]
      exact run

/-- After any run of fetches, what was fetched last under a key is found exactly when all that
was fetched since, each key once and without what is too large for the cache, fits beside it
into both limits. A run of fetches never follows a bad pointer. -/
theorem sqfsCache_finds_recent {maxEntries maxMemory : Nat} (hasFreeFn : Bool)
    (positive : 0 < maxEntries) (inRange : maxEntries < 2 ^ 64) (memoryInRange : maxMemory < 2 ^ 63)
    (value : Nat → Value) (size : Nat → Nat) (before since : List Nat) (key : Nat)
    (absent : key ∉ since) :
    ∃ cache warm after, sqfsCacheInit maxEntries maxMemory hasFreeFn = some cache ∧
      cache.fetchAll value size (before ++ key :: since) = some warm ∧
      warm.fetch value size key = some (after,
        if (since.toFinset.filter (size · ≤ maxMemory)).card < maxEntries ∧
            (since.toFinset.filter (size · ≤ maxMemory)).sum size + size key ≤ maxMemory then
          some (value key)
        else
          none) := by
  rcases @init_simulates Value maxEntries maxMemory hasFreeFn positive inRange with
    ⟨cache, init, simulates⟩
  have holds : (LruMap.empty maxEntries maxMemory).HoldsRecent value size [] :=
    LruMap.holdsRecent_empty positive
  rcases simulates.fetchAll holds memoryInRange (before ++ key :: since) with
    ⟨warm, run, warmSimulates⟩
  have limits := LruMap.fetchAll_limits value size (.empty maxEntries maxMemory)
    (before ++ key :: since)
  rcases warmSimulates.fetch (holds.fetchAll (before ++ key :: since))
    (limits.2.trans_lt memoryInRange) key with ⟨after, fetched, -⟩
  rw [LruMap.fetch_after_fetchAll positive absent] at fetched
  exact ⟨cache, warm, after, init, run, fetched⟩

/-- Of three blocks fetched through a cache for two, the last two are still there. -/
theorem sqfsCache_finds_recent_two :
    ∃ cache warm after, sqfsCacheInit 2 100 true = some cache ∧
      cache.fetchAll (fun key => key) (fun _ => 40) ([10] ++ 20 :: [30, 30]) = some warm ∧
      warm.fetch (fun key => key) (fun _ => 40) 20 = some (after, some 20) :=
  sqfsCache_finds_recent true (by decide) (by decide) (by decide) (fun key => key) (fun _ => 40)
    [10] [30, 30] 20 (by decide)

end SqfsCache

end SquashfsFuse
