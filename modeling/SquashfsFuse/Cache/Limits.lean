import SquashfsFuse.Cache.Invariant

/-! When the cache stays within its configured limits. -/

namespace SquashfsFuse

variable {Value : Type}

namespace CacheList

variable {list : CacheList Value} {size : Nat}

def WithinMemory (list : CacheList Value) : Prop :=
  LruEntry.memory list.entries ≤ list.maxMemory

private theorem evictFrom_makesRoom (size : Nat) (backwards : List (LruEntry Nat Value))
    (list : CacheList Value) (current : list.currentMemory = LruEntry.memory backwards)
    (small : LruEntry.memory backwards + size < 2 ^ 64) (acceptable : size ≤ list.maxMemory) :
    LruEntry.memory (evictFrom size backwards list).entries + size ≤ list.maxMemory := by
  induction backwards generalizing list with
  | nil => exact (Nat.zero_add size).trans_le acceptable
  | cons victim rest induction =>
      rw [LruEntry.memory_cons] at current small
      rw [evictFrom]
      split
      · next room =>
          have fits := room.2
          rw [current, u64_of_lt small] at fits
          rwa [LruEntry.memory_reverse, LruEntry.memory_cons]
      · let dropped : CacheList Value := { list with
          currentEntries := sub64 list.currentEntries 1
          currentMemory := sub64 list.currentMemory victim.size }
        rcases release_fields dropped victim.value with ⟨-, limit, -, -, memory⟩
        have left : dropped.currentMemory = LruEntry.memory rest := by
          change sub64 list.currentMemory victim.size = _
          rw [sub64_of_le (by omega) (by omega)]
          omega
        have room := induction (dropped.release victim.value) (memory.trans left) (by omega)
          (acceptable.trans_eq limit.symm)
        exact room.trans_eq limit

private theorem evict_makesRoom (tallied : list.Tallied) (within : list.WithinMemory)
    (small : list.currentMemory + size < 2 ^ 64) (acceptable : size ≤ list.maxMemory) :
    LruEntry.memory (list.evict size).entries + size ≤ list.maxMemory := by
  have current := tallied.current_eq (Nat.lt_of_le_of_lt within tallied.memoryInRange)
  apply evictFrom_makesRoom size list.entries.reverse list
  · rw [LruEntry.memory_reverse, current]
  · rw [LruEntry.memory_reverse, ← current]
    exact small
  · exact acceptable

theorem WithinMemory.evict (within : list.WithinMemory) (size : Nat) :
    (list.evict size).WithinMemory := by
  have less := evictFrom_memory_le size list.entries.reverse list
  rw [LruEntry.memory_reverse] at less
  rw [WithinMemory, (evict_settings size list).maxMemory]
  exact Nat.le_trans less within

theorem WithinMemory.remove (within : list.WithinMemory)
    (distinct : LruEntry.Distinct list.entries) (key : Nat) : (list.remove key).WithinMemory := by
  have settings := list.remove_settings key
  rw [WithinMemory, settings.maxMemory, CacheList.remove]
  cases found : list.find key with
  | none => exact within
  | some entry =>
      have memory := (length_without distinct found).2
      have released := (release_fields { list with
        currentEntries := sub64 list.currentEntries 1
        currentMemory := sub64 list.currentMemory entry.size
        entries := LruEntry.without key list.entries } entry.value).2.2.1
      rw [WithinMemory] at within
      simp only [released]
      omega

/-- A put that replaces a value leaves the sum within the limit, and no other put lets the sum
overflow that its eviction is made for. -/
def LeavesRoom (list : CacheList Value) : CacheCall Value → Prop
  | .put key (some _) size _ _ =>
      list.maxMemory < size ∨
        match list.find key with
        | some old => list.currentMemory - old.size + size ≤ list.maxMemory
        | none => list.currentMemory + size < 2 ^ 64
  | _ => True

theorem WithinMemory.put {key : Nat} {value : Value} {allocatesEntry allocatesBuckets : Bool}
    (within : list.WithinMemory) (tallied : list.Tallied)
    (distinct : LruEntry.Distinct list.entries)
    (room : list.LeavesRoom (.put key (some value) size allocatesEntry allocatesBuckets)) :
    (list.call (.put key (some value) size allocatesEntry allocatesBuckets)).WithinMemory := by
  have current := tallied.current_eq (Nat.lt_of_le_of_lt within tallied.memoryInRange)
  by_cases tooBig : list.maxMemory < size
  · rw [SqfsCache.call_tooBig tooBig]
    exact within
  · have fits := room.resolve_left tooBig
    cases found : list.find key with
    | some old =>
        have memory := (length_without distinct found).2
        rcases replace_fields list old key value size with ⟨limit, entries, -⟩
        simp only [found] at fits
        rw [SqfsCache.call_present tooBig found, WithinMemory, limit, entries,
          LruEntry.memory_cons]
        dsimp only
        omega
    | none =>
        simp only [found] at fits
        rw [SqfsCache.call_absent tooBig found]
        split
        · exact within.evict size
        · have made := evict_makesRoom tallied within fits (Nat.le_of_not_lt tooBig)
          rw [WithinMemory, CacheList.insert, LruEntry.memory_cons,
            (evict_settings size list).maxMemory]
          dsimp only
          omega

theorem WithinMemory.call (within : list.WithinMemory) (tallied : list.Tallied)
    (distinct : LruEntry.Distinct list.entries) (call : CacheCall Value)
    (room : list.LeavesRoom call) : (list.call call).WithinMemory := by
  cases call with
  | get key =>
      rcases get_counters distinct key with ⟨-, limit, memory⟩
      rw [WithinMemory, CacheList.call, limit, memory]
      exact within
  | put key value size allocatesEntry allocatesBuckets =>
      cases value with
      | none => exact within
      | some value => exact within.put tallied distinct room
  | remove key => exact within.remove distinct key
  | clear => exact Nat.zero_le _

end CacheList

namespace SqfsCache

variable {cache : SqfsCache Value} {list : CacheList Value}

/-- A put that replaces a value leaves the sum within the limit, and no other
put lets the sum overflow. -/
def LeavesRoom (cache : SqfsCache Value) : CacheCall Value → Prop
  | .put key (some _) memorySize _ _ =>
      cache.maxMemory < memorySize ∨
        match cache.memorySizeOf key with
        | some old => cache.currentMemory - old + memorySize ≤ cache.maxMemory
        | none => cache.currentMemory + memorySize < 2 ^ 64
  | _ => True

instance (cache : SqfsCache Value) : (call : CacheCall Value) → Decidable (cache.LeavesRoom call)
  | .put key (some _) memorySize _ _ =>
      match present : cache.memorySizeOf key with
      | some old => decidable_of_iff (cache.maxMemory < memorySize ∨
          cache.currentMemory - old + memorySize ≤ cache.maxMemory) (by
            simp only [LeavesRoom, present])
      | none => decidable_of_iff (cache.maxMemory < memorySize ∨
          cache.currentMemory + memorySize < 2 ^ 64) (by
            simp only [LeavesRoom, present])
  | .put _ none _ _ _ | .get _ | .remove _ | .clear => .isTrue trivial

/-- Every put of the run leaves room. -/
def RunLeavesRoom (cache : SqfsCache Value) : List (CacheCall Value) → Prop
  | [] => True
  | call :: calls => cache.LeavesRoom call ∧
      match cache.call call with
      | some after => RunLeavesRoom after calls
      | none => True

instance decidableRunLeavesRoom (cache : SqfsCache Value) :
    (calls : List (CacheCall Value)) → Decidable (cache.RunLeavesRoom calls)
  | [] => .isTrue trivial
  | call :: calls =>
      match performed : cache.call call with
      | some after =>
          have := decidableRunLeavesRoom after calls
          decidable_of_iff (cache.LeavesRoom call ∧ after.RunLeavesRoom calls) (by
            simp only [RunLeavesRoom, performed])
      | none =>
          decidable_of_iff (cache.LeavesRoom call) (by
            simp only [RunLeavesRoom, performed, and_true])

private theorem leavesRoom_iff (represents : Represents cache list) (call : CacheCall Value) :
    cache.LeavesRoom call ↔ list.LeavesRoom call := by
  cases call with
  | put key value memorySize allocatesEntry allocatesBuckets =>
      cases value with
      | none => exact Iff.rfl
      | some value =>
          have size := memorySizeOf_spec key represents
          rcases represents with ⟨nodes, entries, holds, rfl⟩
          rw [LeavesRoom, size, CacheList.LeavesRoom]
          cases (cache.view entries).find key <;> exact Iff.rfl
  | get _ => exact Iff.rfl
  | remove _ => exact Iff.rfl
  | clear => exact Iff.rfl

/-- Both counters are within the limits. -/
structure WithinLimits (maxEntries maxMemory : Nat) (cache : SqfsCache Value) : Prop where
  entries : cache.currentEntries ≤ maxEntries
  memory : cache.currentMemory ≤ maxMemory

instance (maxEntries maxMemory : Nat) (cache : SqfsCache Value) :
    Decidable (cache.WithinLimits maxEntries maxMemory) :=
  decidable_of_iff (cache.currentEntries ≤ maxEntries ∧ cache.currentMemory ≤ maxMemory)
    ⟨fun limits => ⟨limits.1, limits.2⟩, fun limits => ⟨limits.entries, limits.memory⟩⟩

private theorem Tracks.withinLimits (tracks : Tracks cache list) (within : list.WithinMemory) :
    cache.WithinLimits list.maxEntries list.maxMemory := by
  have tallied := tracks.tallied
  have current := tallied.current_eq (Nat.lt_of_le_of_lt within tallied.memoryInRange)
  rcases tracks.represents with ⟨nodes, entries, holds, rfl⟩
  exact {
    entries := tallied.current.trans_le tallied.bound
    memory := current.trans_le within }

private theorem Tracks.everyState_withinLimits (calls : List (CacheCall Value))
    (tracks : Tracks cache list) (within : list.WithinMemory) (room : cache.RunLeavesRoom calls) :
    cache.EveryState (WithinLimits list.maxEntries list.maxMemory) calls := by
  induction calls generalizing cache list with
  | nil => exact tracks.withinLimits within
  | cons call calls induction =>
      rcases tracks.call call with ⟨after, run, afterTracks⟩
      have afterWithin := within.call tracks.tallied tracks.distinct call
        ((leavesRoom_iff tracks.represents call).mp room.1)
      have settings := list.call_settings call
      have rest := room.2
      rw [run] at rest
      have states := induction afterTracks afterWithin rest
      rw [settings.maxEntries, settings.maxMemory] at states
      rw [EveryState, run]
      exact ⟨tracks.withinLimits within, states⟩

/-- In every run whose calls leave room, also of puts that are refused, both counters are
within the limits that the cache was initialised with. -/
theorem sqfsCache_within_limits {maxEntries maxMemory : Nat} {hasFreeFn : Bool}
    (entriesInRange : maxEntries < 2 ^ 64) (memoryInRange : maxMemory < 2 ^ 64)
    (init : sqfsCacheInit maxEntries maxMemory hasFreeFn = some cache)
    (calls : List (CacheCall Value)) (room : cache.RunLeavesRoom calls) :
    cache.EveryState (WithinLimits maxEntries maxMemory) calls :=
  (Tracks.of_init entriesInRange memoryInRange init).everyState_withinLimits calls
    (Nat.zero_le _) room

/-- A replacement by a value of the same size, an eviction, and puts that are refused. -/
theorem sqfsCache_within_limits_replace_and_evict :
    ∃ cache : SqfsCache Nat, sqfsCacheInit 2 100 true = some cache ∧
      cache.EveryState (WithinLimits 2 100)
        [.put 1 (some 10) 60 true true, .put 1 (some 11) 60 true true,
          .put 2 (some 12) 50 true true, .put 3 none 10 true true,
          .put 4 (some 13) 60 false true] := by
  refine ⟨_, rfl, sqfsCache_within_limits (by decide) (by decide) rfl _ ?_⟩
  decide +kernel

/-- Replacing a value by a larger one evicts nothing. -/
theorem sqfsCache_exceeds_memory_limit :
    ∃ cache : SqfsCache Nat, sqfsCacheInit 4 100 true = some cache ∧
      ¬ cache.EveryState (WithinLimits 4 100)
        [.put 1 (some 10) 60 true true, .put 2 (some 11) 10 true true,
          .put 2 (some 12) 60 true true] := by
  refine ⟨_, rfl, ?_⟩
  decide +kernel

end SqfsCache

end SquashfsFuse
