import SquashfsFuse.Cache.Ownership

/-! The counters of the cache in every run: the number of entries is counted exactly, and
their memory modulo `2 ^ 64`. -/

namespace SquashfsFuse

variable {Value : Type}

/-- A call of the interface. A put carries the answers of the allocator. -/
inductive CacheCall (Value : Type)
  | get (key : Nat)
  | put (key : Nat) (value : Option Value) (memorySize : Nat)
      (allocatesEntry allocatesBuckets : Bool)
  | remove (key : Nat)
  | clear

theorem sub64_u64_add (left right : Nat) : sub64 (u64 (left + right)) right = u64 left := by
  unfold sub64 u64
  omega

private theorem u64_u64_add (left right : Nat) : u64 (u64 left + right) = u64 (left + right) := by
  unfold u64
  omega

namespace LruEntry

theorem memory_reverse (entries : List (LruEntry Nat Value)) :
    memory entries.reverse = memory entries := by
  rw [memory, memory, List.map_reverse, List.sum_reverse]

end LruEntry

namespace CacheList

variable {list : CacheList Value} {key size memoryNeeded : Nat} {value : Value}
  {entry old : LruEntry Nat Value} {backwards : List (LruEntry Nat Value)}

/-- Both counters are right, the one for the memory up to a multiple of `2 ^ 64`. -/
structure Tallied (list : CacheList Value) : Prop extends Counted list where
  memory : list.currentMemory = u64 (LruEntry.memory list.entries)
  memoryInRange : list.maxMemory < 2 ^ 64

theorem get_counters (distinct : LruEntry.Distinct list.entries) (key : Nat) :
    (list.get key).1.currentMemory = list.currentMemory ∧
      (list.get key).1.maxMemory = list.maxMemory ∧
      LruEntry.memory (list.get key).1.entries = LruEntry.memory list.entries := by
  rw [CacheList.get, lookup]
  cases found : list.find key with
  | none => exact ⟨rfl, rfl, rfl⟩
  | some entry =>
      have again : ({ list with hits := u64 (list.hits + 1) } : CacheList Value).find key =
          some entry := found
      have memory := (length_without distinct found).2
      simp only [CacheList.move, again, true_and]
      rw [LruEntry.memory_cons, memory, Nat.add_comm]

theorem Tallied.get (tallied : list.Tallied) (distinct : LruEntry.Distinct list.entries)
    (key : Nat) : (list.get key).1.Tallied := by
  rcases get_counters distinct key with ⟨current, limit, memory⟩
  exact {
    toCounted := tallied.toCounted.get distinct key
    memory := by rw [current, memory, tallied.memory]
    memoryInRange := limit.trans_lt tallied.memoryInRange }

private theorem evictFrom_memory (memoryNeeded : Nat) (backwards : List (LruEntry Nat Value))
    (list : CacheList Value) (current : list.currentMemory = u64 (LruEntry.memory backwards)) :
    (evictFrom memoryNeeded backwards list).currentMemory =
      u64 (LruEntry.memory (evictFrom memoryNeeded backwards list).entries) := by
  induction backwards generalizing list with
  | nil => exact current
  | cons victim rest induction =>
      rw [evictFrom]
      split
      · exact current.trans (congrArg u64 (LruEntry.memory_reverse _).symm)
      · apply induction
        rw [(release_fields _ victim.value).2.2.2.2]
        change sub64 list.currentMemory victim.size = _
        rw [current, LruEntry.memory_cons, Nat.add_comm, sub64_u64_add]

theorem Tallied.evict (tallied : list.Tallied) (memoryNeeded : Nat) :
    (list.evict memoryNeeded).Tallied := by
  have whole : Counted { list with entries := list.entries.reverse.reverse } := by
    rw [List.reverse_reverse]
    exact tallied.toCounted
  rcases whole.evictFrom memoryNeeded with ⟨counted, limit, -⟩
  exact {
    toCounted := counted
    memory := evictFrom_memory memoryNeeded _ list (by
      rw [LruEntry.memory_reverse]
      exact tallied.memory)
    memoryInRange := limit.trans_lt tallied.memoryInRange }

private theorem Tallied.evict_fewer (tallied : list.Tallied) (memoryNeeded : Nat) :
    (list.evict memoryNeeded).currentEntries < (list.evict memoryNeeded).maxEntries := by
  have whole : Counted { list with entries := list.entries.reverse.reverse } := by
    rw [List.reverse_reverse]
    exact tallied.toCounted
  exact (whole.evictFrom memoryNeeded).2.2

theorem replace_fields (list : CacheList Value) (old : LruEntry Nat Value) (key : Nat)
    (value : Value) (size : Nat) :
    (list.replace old key value size).maxMemory = list.maxMemory ∧
      (list.replace old key value size).entries =
        ⟨key, value, size⟩ :: LruEntry.without key list.entries ∧
      (list.replace old key value size).currentMemory =
        u64 (sub64 list.currentMemory old.size + size) := by
  rcases release_fields { list with
      currentMemory := u64 (sub64 list.currentMemory old.size + size)
      entries := ⟨key, value, size⟩ :: LruEntry.without key list.entries } old.value with
    ⟨-, limit, entries, -, memory⟩
  exact ⟨limit, entries, memory⟩

theorem Tallied.put (tallied : list.Tallied) (distinct : LruEntry.Distinct list.entries)
    (key : Nat) (value : Value) (size : Nat) : (list.put key value size).1.Tallied := by
  have counted := (tallied.toCounted.put distinct key value size).2
  rw [CacheList.put] at counted ⊢
  by_cases tooBig : list.maxMemory < size
  · rw [if_pos tooBig]
    exact tallied
  · rw [if_neg tooBig] at counted ⊢
    cases found : list.find key with
    | some old =>
        rw [found] at counted
        have memory := (length_without distinct found).2
        rcases replace_fields list old key value size with ⟨limit, entries, current⟩
        refine ⟨counted, ?_, limit.trans_lt tallied.memoryInRange⟩
        dsimp only
        rw [current, entries, tallied.memory, memory, sub64_u64_add, u64_u64_add,
          LruEntry.memory_cons, Nat.add_comm]
    | none =>
        rw [found] at counted
        have evicted := tallied.evict size
        simp only [if_neg (Nat.not_le_of_lt (tallied.evict_fewer size))] at counted ⊢
        refine ⟨counted, ?_, evicted.memoryInRange⟩
        change u64 ((list.evict size).currentMemory + size) = _
        rw [evicted.memory, u64_u64_add, insert, LruEntry.memory_cons, Nat.add_comm]

theorem Tallied.remove (tallied : list.Tallied) (distinct : LruEntry.Distinct list.entries)
    (key : Nat) : (list.remove key).Tallied := by
  rw [CacheList.remove]
  cases found : list.find key with
  | none => exact tallied
  | some entry =>
      rcases length_without distinct found with ⟨length, memory⟩
      rcases release_fields { list with
          currentEntries := sub64 list.currentEntries 1
          currentMemory := sub64 list.currentMemory entry.size
          entries := LruEntry.without key list.entries } entry.value with
        ⟨limit, memoryLimit, entries, current, currentMemory⟩
      have bound := tallied.bound
      have inRange := tallied.inRange
      constructor
      · constructor
        · rw [current, entries]
          change sub64 list.currentEntries 1 = (LruEntry.without key list.entries).length
          rw [tallied.current, length, sub64_of_le (by omega) (by omega), Nat.add_sub_cancel]
        · rw [entries, limit]
          change (LruEntry.without key list.entries).length ≤ list.maxEntries
          omega
        · rw [limit]
          exact tallied.positive
        · rw [limit]
          exact inRange
      · rw [currentMemory, entries]
        change sub64 list.currentMemory entry.size = _
        rw [tallied.memory, memory, sub64_u64_add]
      · rw [memoryLimit]
        exact tallied.memoryInRange

theorem Tallied.clear (tallied : list.Tallied) : list.clear.Tallied := by
  have settings := list.clear_settings
  exact {
    current := rfl
    bound := Nat.zero_le _
    positive := tallied.positive.trans_eq settings.maxEntries.symm
    inRange := settings.maxEntries.trans_lt tallied.inRange
    memory := rfl
    memoryInRange := settings.maxMemory.trans_lt tallied.memoryInRange }

/-! ## Overflow -/

def firstEvicted (list : CacheList Value) : Nat :=
  if list.currentEntries < list.maxEntries then 0
  else (list.entries.getLast?.map LruEntry.size).getD 0

/-- The sum that a put makes stays below `2 ^ 64`. -/
def SumFits (list : CacheList Value) (key size : Nat) (allocatesEntry : Bool) : Prop :=
  list.maxMemory < size ∨
    match list.find key with
    | some old => list.currentMemory - old.size + size < 2 ^ 64
    | none => allocatesEntry = false ∨
        list.currentMemory - list.firstEvicted + size < 2 ^ 64

theorem evictFrom_memory_le (memoryNeeded : Nat) (backwards : List (LruEntry Nat Value))
    (list : CacheList Value) :
    LruEntry.memory (evictFrom memoryNeeded backwards list).entries ≤
      LruEntry.memory backwards := by
  rcases evictFrom_drops memoryNeeded backwards list with ⟨dropped, kept, split, entries, -⟩
  rw [entries, LruEntry.memory_reverse, split, LruEntry.memory_append]
  omega

/-- Once there is room for the number of entries, a sum that overflows passes the memory
limit, so that nothing is evicted for it. -/
theorem evictFrom_fits_iff (room : list.currentEntries < list.maxEntries)
    (summed : list.currentMemory = LruEntry.memory backwards)
    (small : LruEntry.memory backwards < 2 ^ 64) (acceptable : memoryNeeded ≤ list.maxMemory)
    (inRange : list.maxMemory < 2 ^ 64) :
    LruEntry.memory (evictFrom memoryNeeded backwards list).entries + memoryNeeded < 2 ^ 64 ↔
      LruEntry.memory backwards + memoryNeeded < 2 ^ 64 := by
  have less := evictFrom_memory_le memoryNeeded backwards list
  refine ⟨fun fits => ?_, fun fits => by omega⟩
  by_contra overflows
  have kept : (evictFrom memoryNeeded backwards list).entries = backwards.reverse := by
    cases backwards with
    | nil => rfl
    | cons victim rest =>
        have wrapped : u64 (list.currentMemory + memoryNeeded) ≤ list.maxMemory := by
          rw [summed]
          unfold u64
          omega
        have hasRoom : list.HasRoom memoryNeeded := ⟨room, wrapped⟩
        rw [evictFrom, if_pos hasRoom]
  rw [kept, LruEntry.memory_reverse] at fits
  exact overflows fits

private theorem evict_of_full (counted : list.Counted)
    (full : ¬ list.currentEntries < list.maxEntries) (memoryNeeded : Nat) :
    ∃ victim rest, list.entries = rest ++ [victim] ∧ list.firstEvicted = victim.size ∧
      list.evict memoryNeeded = evictFrom memoryNeeded rest.reverse ({ list with
        currentEntries := sub64 list.currentEntries 1
        currentMemory := sub64 list.currentMemory victim.size }.release victim.value) := by
  have current := counted.current
  have positive := counted.positive
  rcases List.eq_nil_or_concat list.entries with none | ⟨rest, victim, split⟩
  · rw [none, List.length_nil] at current
    omega
  · rw [List.concat_eq_append] at split
    refine ⟨victim, rest, split, ?_, ?_⟩
    · rw [firstEvicted, if_neg full, split, List.getLast?_append_cons]
      rfl
    · have noRoom : ¬ list.HasRoom memoryNeeded := fun room => full room.1
      have backwards : list.entries.reverse = victim :: rest.reverse := by
        rw [split, List.reverse_append]
        rfl
      rw [evict, backwards, evictFrom, if_neg noRoom]

/-- A new entry overflows the sum exactly if it does with everything kept that need not make
room for the number of entries. -/
theorem evict_fits_iff (counted : list.Counted)
    (summed : list.currentMemory = LruEntry.memory list.entries)
    (small : LruEntry.memory list.entries < 2 ^ 64) (acceptable : size ≤ list.maxMemory)
    (inRange : list.maxMemory < 2 ^ 64) :
    LruEntry.memory (list.evict size).entries + size < 2 ^ 64 ↔
      list.currentMemory - list.firstEvicted + size < 2 ^ 64 := by
  by_cases room : list.currentEntries < list.maxEntries
  · have reversed := LruEntry.memory_reverse list.entries
    rw [firstEvicted, if_pos room, evict,
      evictFrom_fits_iff room (by rw [summed, reversed]) (by omega) acceptable inRange,
      reversed, summed, Nat.sub_zero]
  · rcases evict_of_full counted room size with ⟨victim, rest, split, first, evicted⟩
    have current := counted.current
    have bound := counted.bound
    have entriesInRange := counted.inRange
    have reversed := LruEntry.memory_reverse rest
    have length := congrArg List.length split
    have memory := congrArg LruEntry.memory split
    rw [List.length_append, List.length_singleton] at length
    rw [LruEntry.memory_append, LruEntry.memory_cons, LruEntry.memory_nil] at memory
    rcases release_fields { list with
        currentEntries := sub64 list.currentEntries 1
        currentMemory := sub64 list.currentMemory victim.size } victim.value with
      ⟨limit, memoryLimit, -, releasedEntries, releasedMemory⟩
    generalize { list with
      currentEntries := sub64 list.currentEntries 1
      currentMemory := sub64 list.currentMemory victim.size }.release victim.value = dropped
      at evicted limit memoryLimit releasedEntries releasedMemory
    dsimp only at limit memoryLimit releasedEntries releasedMemory
    rw [sub64_of_le (by omega) (by omega)] at releasedEntries releasedMemory
    rw [first, evicted, evictFrom_fits_iff (by omega) (by omega) (by omega)
      (by rw [memoryLimit]; exact acceptable) (by rw [memoryLimit]; exact inRange), reversed]
    have left : list.currentMemory - victim.size = LruEntry.memory rest := by omega
    rw [left]

/-! ## Calls -/

def putWithoutEntry (list : CacheList Value) (key : Nat) (value : Value) (size : Nat) :
    CacheList Value :=
  if list.maxMemory < size then
    list
  else
    match list.find key with
    | some old => list.replace old key value size
    | none => list.evict size

def putErrno (list : CacheList Value) (key : Nat) (value : Option Value) (size : Nat)
    (allocatesEntry : Bool) : Option PutErrno :=
  if value.isNone then
    some .einval
  else if list.maxMemory < size then
    some .e2big
  else if (list.find key).isSome then
    none
  else if (list.evict size).maxEntries ≤ (list.evict size).currentEntries then
    some .enospc
  else if allocatesEntry then
    none
  else
    some .enomem

/-- The list behind a call. -/
def call (list : CacheList Value) : CacheCall Value → CacheList Value
  | .get key => (list.get key).1
  | .put _ none _ _ _ => list
  | .put key (some value) size true _ => (list.put key value size).1
  | .put key (some value) size false _ => list.putWithoutEntry key value size
  | .remove key => list.remove key
  | .clear => list.clear

theorem call_settings (list : CacheList Value) (call : CacheCall Value) :
    list.SameSettings (list.call call) := by
  cases call with
  | get key => exact list.get_settings key
  | put key value size allocatesEntry allocatesBuckets =>
      cases value with
      | none => exact .refl list
      | some value =>
          cases allocatesEntry with
          | true => exact list.put_settings key value size
          | false =>
              rw [CacheList.call, CacheList.putWithoutEntry]
              split
              · exact .refl list
              · cases list.find key with
                | some old => exact list.replace_settings old key value size
                | none => exact evict_settings size list
  | remove key => exact list.remove_settings key
  | clear => exact list.clear_settings

/-- The sum that a call makes stays below `2 ^ 64`. -/
def CallFits (list : CacheList Value) : CacheCall Value → Prop
  | .put key (some _) size allocatesEntry _ => list.SumFits key size allocatesEntry
  | _ => True

theorem Tallied.putWithoutEntry (tallied : list.Tallied)
    (distinct : LruEntry.Distinct list.entries) (key : Nat) (value : Value) (size : Nat) :
    (list.putWithoutEntry key value size).Tallied := by
  have put := tallied.put distinct key value size
  rw [CacheList.put] at put
  rw [CacheList.putWithoutEntry]
  by_cases tooBig : list.maxMemory < size
  · rw [if_pos tooBig]
    exact tallied
  · rw [if_neg tooBig] at put ⊢
    cases found : list.find key with
    | some old =>
        rw [found] at put
        exact put
    | none => exact tallied.evict size

theorem Tallied.call (tallied : list.Tallied) (distinct : LruEntry.Distinct list.entries)
    (call : CacheCall Value) : (list.call call).Tallied := by
  cases call with
  | get key => exact tallied.get distinct key
  | put key value size allocatesEntry allocatesBuckets =>
      cases value with
      | none => exact tallied
      | some value =>
          cases allocatesEntry with
          | true => exact tallied.put distinct key value size
          | false => exact tallied.putWithoutEntry distinct key value size
  | remove key => exact tallied.remove distinct key
  | clear => exact tallied.clear

theorem Tallied.current_eq (tallied : list.Tallied)
    (small : LruEntry.memory list.entries < 2 ^ 64) :
    list.currentMemory = LruEntry.memory list.entries := by
  rw [tallied.memory, u64_of_lt small]

private theorem replace_fits_iff (tallied : list.Tallied) (distinct : LruEntry.Distinct list.entries)
    (small : LruEntry.memory list.entries < 2 ^ 64) (found : list.find key = some old) :
    LruEntry.memory (list.replace old key value size).entries < 2 ^ 64 ↔
      list.currentMemory - old.size + size < 2 ^ 64 := by
  have memory := (length_without distinct found).2
  rw [(replace_fields list old key value size).2.1, tallied.current_eq small, memory,
    Nat.add_sub_cancel, LruEntry.memory_cons, Nat.add_comm]

private theorem put_fits_iff (tallied : list.Tallied) (distinct : LruEntry.Distinct list.entries)
    (small : LruEntry.memory list.entries < 2 ^ 64) (key : Nat) (value : Value) (size : Nat) :
    LruEntry.memory (list.put key value size).1.entries < 2 ^ 64 ↔
      list.SumFits key size true := by
  rw [put, SumFits]
  by_cases tooBig : list.maxMemory < size
  · rw [if_pos tooBig]
    exact ⟨fun _ => .inl tooBig, fun _ => small⟩
  · rw [if_neg tooBig, or_iff_right tooBig]
    cases found : list.find key with
    | some old => exact replace_fits_iff tallied distinct small found
    | none =>
        have fits := evict_fits_iff tallied.toCounted (tallied.current_eq small) small
          (Nat.le_of_not_lt tooBig) tallied.memoryInRange
        simp only [if_neg (Nat.not_le_of_lt (tallied.evict_fewer size)), insert,
          LruEntry.memory_cons, Bool.true_eq_false, false_or]
        rw [Nat.add_comm, fits]

private theorem putWithoutEntry_fits_iff (tallied : list.Tallied)
    (distinct : LruEntry.Distinct list.entries)
    (small : LruEntry.memory list.entries < 2 ^ 64) (key : Nat) (value : Value) (size : Nat) :
    LruEntry.memory (list.putWithoutEntry key value size).entries < 2 ^ 64 ↔
      list.SumFits key size false := by
  rw [putWithoutEntry, SumFits]
  by_cases tooBig : list.maxMemory < size
  · rw [if_pos tooBig]
    exact ⟨fun _ => .inl tooBig, fun _ => small⟩
  · rw [if_neg tooBig, or_iff_right tooBig]
    cases found : list.find key with
    | some old => exact replace_fits_iff tallied distinct small found
    | none =>
        have less := evictFrom_memory_le size list.entries.reverse list
        rw [LruEntry.memory_reverse] at less
        exact ⟨fun _ => .inl rfl, fun _ => Nat.lt_of_le_of_lt less small⟩

theorem call_fits_iff (tallied : list.Tallied) (distinct : LruEntry.Distinct list.entries)
    (small : LruEntry.memory list.entries < 2 ^ 64) (call : CacheCall Value) :
    LruEntry.memory (list.call call).entries < 2 ^ 64 ↔ list.CallFits call := by
  cases call with
  | get key =>
      have same := (get_counters distinct key).2.2
      exact ⟨fun _ => trivial, fun _ => same.trans_lt small⟩
  | put key value size allocatesEntry allocatesBuckets =>
      cases value with
      | none => exact ⟨fun _ => trivial, fun _ => small⟩
      | some value =>
          cases allocatesEntry with
          | true => exact put_fits_iff tallied distinct small key value size
          | false => exact putWithoutEntry_fits_iff tallied distinct small key value size
  | remove key =>
      refine ⟨fun _ => trivial, fun _ => ?_⟩
      change LruEntry.memory (list.remove key).entries < 2 ^ 64
      rw [remove]
      cases found : list.find key with
      | none => exact small
      | some entry =>
          have memory := (length_without distinct found).2
          rw [(release_fields _ entry.value).2.2.1]
          change LruEntry.memory (LruEntry.without key list.entries) < 2 ^ 64
          omega
  | clear => exact ⟨fun _ => trivial, fun _ => Nat.two_pow_pos 64⟩

end CacheList

end SquashfsFuse
