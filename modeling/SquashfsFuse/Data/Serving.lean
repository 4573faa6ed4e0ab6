import SquashfsFuse.Cache.Refinement
import SquashfsFuse.Core.Data

/-! What the readers rely on of a block cache, and two caches that provide it. -/

namespace SquashfsFuse

/-- From every state that satisfies the invariant the operations complete and
keep it, provided that only entries `offered` under their keys are put; a
lookup finds only entries `served` under its key. -/
structure BlockCache.Serves (cache : BlockCache C) (Inv : C → Prop)
    (offered served : Nat → BlockEntry → Prop) : Prop where
  get : ∀ state key, Inv state → ∃ after found,
    cache.get state key = some (after, found) ∧ Inv after ∧
      ∀ entry, found = some entry → served key entry
  put : ∀ state key entry memorySize, Inv state → offered key entry → ∃ after result,
    cache.put state key entry memorySize = some (after, result) ∧ Inv after
  new : ∀ state, Inv state → Inv (cache.new state).1
  free : ∀ state address, Inv state → Inv (cache.free state address)

theorem missingCache_serves :
    missingCache.Serves (fun _ => True) (fun _ _ => True) (fun _ _ => False) where
  get := fun state _ _ => ⟨state, none, rfl, trivial, fun _ equal => nomatch equal⟩
  put := fun state _ _ _ _ _ => ⟨state, .e2big, rfl, trivial⟩
  new := fun _ _ => trivial
  free := fun _ _ _ => trivial

/-! ## The entries a list cache can hold after an operation -/

namespace CacheList

variable {list : CacheList Value}

theorem find_mem {key : Nat} {entry : LruEntry Nat Value} (found : list.find key = some entry) :
    entry ∈ list.entries ∧ entry.key = key :=
  ⟨List.mem_of_find?_eq_some found, by simpa using List.find?_some found⟩

private theorem get_found {key : Nat} {value : Value} (found : (list.get key).2 = some value) :
    ∃ entry, entry ∈ list.entries ∧ entry.key = key ∧ entry.value = value := by
  rw [get, lookup] at found
  cases present : list.find key with
  | none => simp [present] at found
  | some entry =>
      simp only [present, Option.some.injEq] at found
      exact ⟨entry, (find_mem present).1, (find_mem present).2, found⟩

private theorem get_of_mem (distinct : LruEntry.Distinct list.entries) {entry : LruEntry Nat Value}
    (member : entry ∈ list.entries) : (list.get entry.key).2 = some entry.value := by
  have found : list.find entry.key = some entry :=
    (LruEntry.find_eq_some distinct).mpr ⟨rfl, List.append_of_mem member⟩
  rw [get, lookup, found]

private theorem get_entries_subset (list : CacheList Value) (key : Nat) :
    (list.get key).1.entries ⊆ list.entries := by
  rw [get, lookup]
  cases present : list.find key with
  | none => exact List.Subset.refl _
  | some entry =>
      have same : ({ list with hits := u64 (list.hits + 1) } : CacheList Value).find key =
          some entry := present
      simp only [move, same]
      apply List.cons_subset.mpr
      exact ⟨(find_mem present).1, List.filter_subset_self _⟩

private theorem put_entries_subset (list : CacheList Value) (key : Nat) (value : Value)
    (memorySize : Nat) :
    (list.put key value memorySize).1.entries ⊆ ⟨key, value, memorySize⟩ :: list.entries := by
  rw [put]
  split
  · exact List.subset_cons_self _ _
  · cases present : list.find key with
    | some old =>
        simp only [replace, (release_fields _ old.value).2.2.1]
        exact List.cons_subset_cons _ (List.filter_subset_self _)
    | none =>
        have kept := SqfsCache.evict_entries_subset memorySize list
        simp only
        split
        · exact List.Subset.trans kept (List.subset_cons_self _ _)
        · exact List.cons_subset_cons _ kept

end CacheList

/-! ## The data cache -/

namespace DataCache

def Keeps (allowed : Nat → BlockEntry → Prop) (state : DataCache) : Prop :=
  ∃ list, state.cache.Represents list ∧
    ∀ entry, entry ∈ list.entries → allowed entry.key entry.value

theorem Keeps.mono {allowed wider : Nat → BlockEntry → Prop} {state : DataCache}
    (keeps : state.Keeps allowed) (weaker : ∀ key entry, allowed key entry → wider key entry) :
    state.Keeps wider := by
  rcases keeps with ⟨list, represents, good⟩
  exact ⟨list, represents, fun entry member => weaker _ _ (good entry member)⟩

end DataCache

theorem dataCache_serves (allowed : Nat → BlockEntry → Prop) :
    dataCache.Serves (DataCache.Keeps allowed) allowed allowed where
  get := by
    intro state key keeps
    rcases keeps with ⟨list, represents, good⟩
    rcases SqfsCache.sqfsCacheGet_spec key represents with ⟨after, run, afterRepresents⟩
    have sub := list.get_entries_subset key
    refine ⟨{ state with cache := after }, (list.get key).2, by simp [dataCache, run],
      ⟨_, afterRepresents, fun entry member => good entry (sub member)⟩, ?_⟩
    intro entry found
    rcases CacheList.get_found found with ⟨holder, member, rfl, rfl⟩
    exact good holder member
  put := by
    intro state key entry memorySize keeps entryGood
    rcases keeps with ⟨list, represents, good⟩
    rcases SqfsCache.sqfsCachePut_spec key entry memorySize represents with
      ⟨after, run, afterRepresents⟩
    have sub := list.put_entries_subset key entry memorySize
    have done : dataCache.put state key entry memorySize =
        some ({ state with cache := after }, (list.put key entry memorySize).2) := by
      simp [dataCache, run]
    refine ⟨_, _, done, _, afterRepresents, ?_⟩
    intro kept member
    rcases List.mem_cons.mp (sub member) with rfl | old
    · exact entryGood
    · exact good kept old
  new := fun _ keeps => keeps
  free := fun _ _ keeps => keeps

theorem DataCache.Keeps.of_get {allowed wanted : Nat → BlockEntry → Prop} {state after : DataCache}
    {key : Nat} {found : Option BlockEntry} (keeps : state.Keeps allowed)
    (run : dataCache.get state key = some (after, found))
    (good : ∀ entry, found = some entry → wanted key entry) :
    state.Keeps fun other entry => allowed other entry ∧ (other = key → wanted other entry) := by
  rcases keeps with ⟨list, represents, kept⟩
  rcases SqfsCache.sqfsCacheGet_spec key represents with ⟨looked, lookRun, -⟩
  simp only [dataCache, lookRun, Option.map_some, Option.some.injEq, Prod.mk.injEq] at run
  rcases run with ⟨rfl, rfl⟩
  refine ⟨list, represents, fun entry member => ⟨kept entry member, fun sameKey => ?_⟩⟩
  subst sameKey
  exact good entry.value (CacheList.get_of_mem represents.distinct member)

/-- The data cache of a new context. -/
def DataCache.fresh (cache : SqfsCache BlockEntry) : DataCache where
  cache := cache
  created := 0
  released := []

theorem DataCache.keeps_fresh {maxEntries maxMemory : Nat} {hasFreeFn : Bool}
    {cache : SqfsCache BlockEntry}
    (init : sqfsCacheInit maxEntries maxMemory hasFreeFn = some cache)
    (allowed : Nat → BlockEntry → Prop) : (DataCache.fresh cache).Keeps allowed := by
  exact ⟨_, (SqfsCache.represents_of_init init).2, fun entry member => nomatch member⟩

end SquashfsFuse
