import SquashfsFuse.Cache.Simulation

/-! Who owns the values: every value accepted by a put is either kept in an
entry or released. -/

namespace SquashfsFuse

variable {Value : Type}

namespace CacheList

variable {list : CacheList Value}

def perform (list : CacheList Value) : CacheOp Value → CacheList Value × CacheAnswer Value
  | .get key => ((list.get key).1, .found (list.get key).2)
  | .put key value memorySize =>
      ((list.put key value memorySize).1, .status (list.put key value memorySize).2)
  | .remove key => (list.remove key, .done)
  | .clear => (list.clear, .done)

def values (entries : List (LruEntry Nat Value)) : List Value :=
  entries.map LruEntry.value

def victims (list : CacheList Value) (memoryNeeded : Nat) : List (LruEntry Nat Value) :=
  list.entries.drop (list.evict memoryNeeded).entries.length

def releases (list : CacheList Value) : CacheOp Value → List Value
  | .get _ => []
  | .put key _ memorySize =>
      if list.maxMemory < memorySize then
        []
      else
        match list.find key with
        | some old => [old.value]
        | none => values (list.victims memorySize)
  | .remove key => ((list.find key).map LruEntry.value).toList
  | .clear => values list.entries

def accepts (list : CacheList Value) : CacheOp Value → List Value
  | .put key value memorySize =>
      if (list.put key value memorySize).2 = .stored then [value] else []
  | _ => []

/-- What of `released` is handed to the release function. -/
def logged (list : CacheList Value) (released : List Value) : List Value :=
  if list.hasFreeFn then released else []

theorem release_freed (list : CacheList Value) (value : Value) :
    (list.release value).freed = list.freed ++ (if list.hasFreeFn then [value] else []) ∧
      (list.release value).hasFreeFn = list.hasFreeFn ∧
      (list.release value).entries = list.entries := by
  rw [release]
  split <;> simp

theorem evictFrom_drops (memoryNeeded : Nat) (backwards : List (LruEntry Nat Value))
    (list : CacheList Value) :
    ∃ dropped kept, backwards = dropped ++ kept ∧
      (evictFrom memoryNeeded backwards list).entries = kept.reverse ∧
      (evictFrom memoryNeeded backwards list).freed =
        list.freed ++ list.logged (values dropped) := by
  induction backwards generalizing list with
  | nil => exact ⟨[], [], rfl, rfl, by simp [evictFrom, logged, values]⟩
  | cons victim rest induction =>
      rw [evictFrom]
      split
      · exact ⟨[], victim :: rest, rfl, rfl, by simp [logged, values]⟩
      · rcases induction ({ list with
            currentEntries := sub64 list.currentEntries 1
            currentMemory := sub64 list.currentMemory victim.size }.release victim.value) with
          ⟨dropped, kept, split, entries, freed⟩
        refine ⟨victim :: dropped, kept, by rw [split]; rfl, entries, ?_⟩
        rcases release_freed { list with
            currentEntries := sub64 list.currentEntries 1
            currentMemory := sub64 list.currentMemory victim.size } victim.value with
          ⟨log, given, -⟩
        rw [freed, log, logged, logged, given]
        by_cases present : list.hasFreeFn <;> simp [present, values]

theorem evict_drops (memoryNeeded : Nat) (list : CacheList Value) :
    list.entries = (list.evict memoryNeeded).entries ++ list.victims memoryNeeded ∧
      (list.evict memoryNeeded).freed =
        list.freed ++ list.logged (values (list.victims memoryNeeded)).reverse := by
  rcases evictFrom_drops memoryNeeded list.entries.reverse list with
    ⟨dropped, kept, split, entries, freed⟩
  have order : list.entries = kept.reverse ++ dropped.reverse := by
    rw [← List.reverse_append, ← split, List.reverse_reverse]
  have victimsEqual : list.victims memoryNeeded = dropped.reverse := by
    rw [victims, evict, entries, order, List.drop_left]
  refine ⟨by rw [victimsEqual, evict, entries]; exact order, ?_⟩
  rw [victimsEqual, evict, freed, values, values, List.map_reverse, List.reverse_reverse]

theorem values_without {entries : List (LruEntry Nat Value)} {entry : LruEntry Nat Value}
    {key : Nat} (distinct : LruEntry.Distinct entries)
    (found : entries.find? (·.key = key) = some entry) :
    (entry.value :: values (LruEntry.without key entries)).Perm (values entries) := by
  rcases (LruEntry.find_eq_some distinct).mp found with ⟨rfl, before, after, rfl⟩
  rw [LruEntry.without_split distinct]
  simp only [values, List.map_append, List.map_cons]
  exact List.perm_middle.symm

theorem lookup_keeps (list : CacheList Value) (key : Nat) :
    (list.lookup key).1.entries = list.entries ∧ (list.lookup key).1.freed = list.freed := by
  rw [lookup]
  cases list.find key <;> exact ⟨rfl, rfl⟩

theorem move_keeps (list : CacheList Value) (distinct : LruEntry.Distinct list.entries)
    (key : Nat) :
    (values (list.move key).entries).Perm (values list.entries) ∧
      (list.move key).freed = list.freed := by
  rw [move]
  cases found : list.find key with
  | none => exact ⟨.rfl, rfl⟩
  | some entry => exact ⟨values_without distinct found, rfl⟩

private theorem get_keeps (distinct : LruEntry.Distinct list.entries) (key : Nat) :
    (values (list.get key).1.entries).Perm (values list.entries) ∧
      (list.get key).1.freed = list.freed := by
  have looked := lookup_keeps list key
  rw [get]
  cases answer : list.lookup key with
  | mk after value =>
      rw [answer] at looked
      cases value with
      | none => exact ⟨by rw [looked.1], looked.2⟩
      | some value =>
          have moved := move_keeps after (by rw [looked.1]; exact distinct) key
          exact ⟨by rw [← looked.1]; exact moved.1, moved.2.trans looked.2⟩

theorem perform_freed (list : CacheList Value) (distinct : LruEntry.Distinct list.entries)
    (op : CacheOp Value) :
    ∃ log, (list.perform op).1.freed = list.freed ++ log ∧
      log.Perm (list.logged (list.releases op)) := by
  cases op with
  | get key =>
      refine ⟨[], ?_, ?_⟩
      · rw [List.append_nil]
        exact (get_keeps distinct key).2
      · simp [logged, releases]
  | put key value memorySize =>
      simp only [perform, put, releases]
      by_cases tooBig : list.maxMemory < memorySize
      · rw [if_pos tooBig, if_pos tooBig]
        exact ⟨[], by simp, by simp [logged]⟩
      · rw [if_neg tooBig, if_neg tooBig]
        cases list.find key with
        | some old => exact ⟨_, (release_freed _ old.value).1, .rfl⟩
        | none =>
            refine ⟨list.logged (values (list.victims memorySize)).reverse, ?_, ?_⟩
            · have freed := (evict_drops memorySize list).2
              simp only
              split
              · exact freed
              · exact freed
            · rw [logged, logged]
              split
              · exact List.reverse_perm _
              · exact .rfl
  | remove key =>
      simp only [perform, remove, releases]
      cases list.find key with
      | none => exact ⟨[], by simp, by simp [logged]⟩
      | some entry =>
          have log := (release_freed { list with
            currentEntries := sub64 list.currentEntries 1
            currentMemory := sub64 list.currentMemory entry.size
            entries := LruEntry.without key list.entries } entry.value).1
          exact ⟨list.logged [entry.value], log, List.Perm.refl _⟩
  | clear =>
      refine ⟨list.logged (values list.entries), ?_, .rfl⟩
      change list.clear.freed = _
      rw [clear, releaseAll, logged]
      split <;> simp [values]

theorem perform_values (distinct : LruEntry.Distinct list.entries) (op : CacheOp Value) :
    (values (list.perform op).1.entries ++ list.releases op).Perm
      (list.accepts op ++ values list.entries) := by
  cases op with
  | get key =>
      have kept := (get_keeps distinct key).1
      simpa [perform, releases, accepts] using kept
  | put key value memorySize =>
      simp only [perform, put, releases, accepts]
      by_cases tooBig : list.maxMemory < memorySize
      · simp [tooBig]
      · rw [if_neg tooBig, if_neg tooBig]
        cases found : list.find key with
        | some old =>
            have dropped := values_without distinct found
            have entries : (list.replace old key value memorySize).entries =
                ⟨key, value, memorySize⟩ :: LruEntry.without key list.entries :=
              (release_freed _ old.value).2.2
            simp only [entries, if_pos, List.singleton_append]
            exact (List.Perm.cons value ((List.perm_append_singleton _ _).trans dropped))
        | none =>
            have split : values list.entries =
                values (list.evict memorySize).entries ++ values (list.victims memorySize) := by
              rw [values, values, values, ← List.map_append, ← (evict_drops memorySize list).1]
            simp only
            split
            · simp [split]
            · simp only [if_pos, List.singleton_append, split]
              exact List.Perm.refl _
  | remove key =>
      simp only [perform, remove, releases, accepts, List.nil_append]
      cases found : list.find key with
      | none => simp
      | some entry =>
          have dropped := values_without distinct found
          have entries := (release_freed { list with
            currentEntries := sub64 list.currentEntries 1
            currentMemory := sub64 list.currentMemory entry.size
            entries := LruEntry.without key list.entries } entry.value).2.2
          simp only [entries]
          exact (List.perm_append_singleton _ _).trans dropped
  | clear => simp [perform, clear, releases, accepts, values]

/-! ## Settings -/

structure SameSettings (list after : CacheList Value) : Prop where
  maxEntries : after.maxEntries = list.maxEntries
  maxMemory : after.maxMemory = list.maxMemory
  hasFreeFn : after.hasFreeFn = list.hasFreeFn

theorem SameSettings.refl (list : CacheList Value) : list.SameSettings list := ⟨rfl, rfl, rfl⟩

theorem release_settings (list : CacheList Value) (value : Value) :
    list.SameSettings (list.release value) := by
  rw [release]
  split <;> exact ⟨rfl, rfl, rfl⟩

private theorem evictFrom_settings (memoryNeeded : Nat) (backwards : List (LruEntry Nat Value))
    (list : CacheList Value) : list.SameSettings (evictFrom memoryNeeded backwards list) := by
  induction backwards generalizing list with
  | nil => exact ⟨rfl, rfl, rfl⟩
  | cons victim rest induction =>
      rw [evictFrom]
      split
      · exact ⟨rfl, rfl, rfl⟩
      · let dropped : CacheList Value := { list with
          currentEntries := sub64 list.currentEntries 1
          currentMemory := sub64 list.currentMemory victim.size }
        have released := release_settings dropped victim.value
        have rest := induction (dropped.release victim.value)
        exact {
          maxEntries := rest.maxEntries.trans released.maxEntries
          maxMemory := rest.maxMemory.trans released.maxMemory
          hasFreeFn := rest.hasFreeFn.trans released.hasFreeFn }

theorem evict_settings (memoryNeeded : Nat) (list : CacheList Value) :
    list.SameSettings (list.evict memoryNeeded) :=
  evictFrom_settings memoryNeeded list.entries.reverse list

theorem get_settings (list : CacheList Value) (key : Nat) :
    list.SameSettings (list.get key).1 := by
  rw [get, lookup]
  cases found : list.find key with
  | none => exact ⟨rfl, rfl, rfl⟩
  | some entry =>
      simp only [move]
      split <;> exact ⟨rfl, rfl, rfl⟩

theorem replace_settings (list : CacheList Value) (old : LruEntry Nat Value) (key : Nat)
    (value : Value) (size : Nat) : list.SameSettings (list.replace old key value size) := by
  have released := release_settings { list with
    currentMemory := u64 (sub64 list.currentMemory old.size + size)
    entries := ⟨key, value, size⟩ :: LruEntry.without key list.entries } old.value
  exact ⟨released.maxEntries, released.maxMemory, released.hasFreeFn⟩

theorem put_settings (list : CacheList Value) (key : Nat) (value : Value) (size : Nat) :
    list.SameSettings (list.put key value size).1 := by
  rw [put]
  split
  · exact .refl list
  · cases list.find key with
    | some old => exact list.replace_settings old key value size
    | none =>
        have evicted := evict_settings size list
        simp only
        split
        · exact evicted
        · exact ⟨evicted.maxEntries, evicted.maxMemory, evicted.hasFreeFn⟩

theorem remove_settings (list : CacheList Value) (key : Nat) :
    list.SameSettings (list.remove key) := by
  rw [remove]
  cases list.find key with
  | none => exact .refl list
  | some entry =>
      have released := release_settings { list with
        currentEntries := sub64 list.currentEntries 1
        currentMemory := sub64 list.currentMemory entry.size
        entries := LruEntry.without key list.entries } entry.value
      exact ⟨released.maxEntries, released.maxMemory, released.hasFreeFn⟩

theorem clear_settings (list : CacheList Value) : list.SameSettings list.clear := by
  rw [clear, releaseAll]
  split <;> exact ⟨rfl, rfl, rfl⟩

end CacheList

end SquashfsFuse
