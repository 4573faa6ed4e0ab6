import Mathlib.Algebra.GroupWithZero.Nat
import Mathlib.Data.List.Nodup
import Mathlib.Data.Nat.Find

/-! Maps that keep a bounded number of bounded entries and forget the least
recently used ones. -/

namespace SquashfsFuse

structure LruEntry (κ : Type u) (υ : Type v) where
  key : κ
  value : υ
  size : Nat
  deriving DecidableEq

namespace LruEntry

variable {κ : Type u} {υ : Type v}

/-- The memory a list of entries counts for. -/
def memory (entries : List (LruEntry κ υ)) : Nat :=
  (entries.map LruEntry.size).sum

@[simp] theorem memory_nil : memory ([] : List (LruEntry κ υ)) = 0 := rfl

@[simp] theorem memory_cons (entry : LruEntry κ υ) (entries : List (LruEntry κ υ)) :
    memory (entry :: entries) = entry.size + memory entries := rfl

@[simp] theorem memory_append (left right : List (LruEntry κ υ)) :
    memory (left ++ right) = memory left + memory right := by
  simp [memory]

theorem memory_take_le (entries : List (LruEntry κ υ)) (count : Nat) :
    memory (entries.take count) ≤ memory entries := by
  have split := memory_append (entries.take count) (entries.drop count)
  rw [List.take_append_drop] at split
  omega

def without [DecidableEq κ] (key : κ) (entries : List (LruEntry κ υ)) :
    List (LruEntry κ υ) :=
  entries.filter fun entry => entry.key ≠ key

def Distinct (entries : List (LruEntry κ υ)) : Prop :=
  (entries.map LruEntry.key).Nodup

section

variable [DecidableEq κ] {key : κ} {entries before after : List (LruEntry κ υ)}
  {entry : LruEntry κ υ}

omit [DecidableEq κ] in
theorem Distinct.sublist {smaller : List (LruEntry κ υ)} (distinct : Distinct entries)
    (sublist : smaller.Sublist entries) : Distinct smaller :=
  List.Nodup.sublist (sublist.map _) distinct

theorem distinct_without (distinct : Distinct entries) : Distinct (without key entries) :=
  distinct.sublist List.filter_sublist

theorem key_not_mem_without : key ∉ (without key entries).map LruEntry.key := by
  simp [without]

theorem without_absent (absent : key ∉ entries.map LruEntry.key) :
    without key entries = entries := by
  apply List.filter_eq_self.mpr
  intro entry member
  have different : entry.key ≠ key := by
    rintro rfl
    exact absent (List.mem_map_of_mem member)
  simpa using different

theorem without_split (distinct : Distinct (before ++ entry :: after)) :
    without entry.key (before ++ entry :: after) = before ++ after := by
  have others : ∀ other, other ∈ before ++ after → other.key ≠ entry.key := by
    intro other member equal
    simp only [Distinct, List.map_append, List.map_cons, List.nodup_append,
      List.nodup_cons] at distinct
    rcases List.mem_append.mp member with inBefore | inAfter
    · exact distinct.2.2 other.key (List.mem_map_of_mem inBefore) entry.key (by simp) equal
    · exact distinct.2.1.1 (equal ▸ List.mem_map_of_mem inAfter)
  have kept := List.filter_eq_self.mpr fun other member =>
    decide_eq_true (others other member)
  rw [List.filter_append] at kept
  simp only [without, List.filter_append, List.filter_cons]
  simpa using kept

theorem find_eq_none : entries.find? (·.key = key) = none ↔
    key ∉ entries.map LruEntry.key := by
  simp

theorem find_eq_some (distinct : Distinct entries) :
    entries.find? (·.key = key) = some entry ↔
      entry.key = key ∧ ∃ before after, entries = before ++ entry :: after := by
  constructor
  · intro found
    have keyEqual := List.find?_some found
    exact ⟨by simpa using keyEqual, List.append_of_mem (List.mem_of_find?_eq_some found)⟩
  · rintro ⟨rfl, before, after, rfl⟩
    have notBefore : ∀ other, other ∈ before → ¬ (other.key = entry.key) := by
      intro other member equal
      simp only [Distinct, List.map_append, List.map_cons, List.nodup_append] at distinct
      exact distinct.2.2 other.key (List.mem_map_of_mem member) entry.key (by simp) equal
    rw [List.find?_append, List.find?_eq_none.mpr (by simpa using notBefore)]
    simp

end

end LruEntry

/-- A map whose entries are ordered from most to least recently used. -/
structure LruMap (κ : Type u) (υ : Type v) where
  maxEntries : Nat
  maxMemory : Nat
  entries : List (LruEntry κ υ)
  distinct : LruEntry.Distinct entries

namespace LruMap

variable {κ : Type u} {υ : Type v} [DecidableEq κ]

/-- A map with these limits and nothing in it. -/
def empty (maxEntries maxMemory : Nat) : LruMap κ υ where
  maxEntries := maxEntries
  maxMemory := maxMemory
  entries := []
  distinct := .nil

/-- The entries leave room for one more entry of size `needed`. -/
def Fits (maxEntries maxMemory needed : Nat) (entries : List (LruEntry κ υ)) : Prop :=
  entries.length < maxEntries ∧ LruEntry.memory entries + needed ≤ maxMemory

instance (maxEntries maxMemory needed : Nat) (entries : List (LruEntry κ υ)) :
    Decidable (Fits maxEntries maxMemory needed entries) :=
  inferInstanceAs (Decidable (_ ∧ _))

/-- How many of the most recently used entries can stay when an entry of size
`needed` is to be added: as many as leave room for it. -/
def keepCount (maxEntries maxMemory needed : Nat) (entries : List (LruEntry κ υ)) : Nat :=
  Nat.findGreatest (fun count => Fits maxEntries maxMemory needed (entries.take count))
    entries.length

/-- What stays of `entries` when the shortest suffix is dropped that makes room
for an entry of size `needed`. -/
def keep (maxEntries maxMemory needed : Nat) (entries : List (LruEntry κ υ)) :
    List (LruEntry κ υ) :=
  entries.take (keepCount maxEntries maxMemory needed entries)

/-- Look `key` up; a hit becomes the most recently used entry. -/
def get (map : LruMap κ υ) (key : κ) : Option υ × LruMap κ υ :=
  match map.entries.find? (·.key = key) with
  | none => (none, map)
  | some entry => (some entry.value, { map with
      entries := ⟨key, entry.value, entry.size⟩ :: LruEntry.without key map.entries
      distinct := List.nodup_cons.mpr
        ⟨LruEntry.key_not_mem_without, LruEntry.distinct_without map.distinct⟩ })

/-- Keep `value` for `key`. The flag tells whether the value was accepted: one
that exceeds the memory limit is not. -/
def put (map : LruMap κ υ) (key : κ) (value : υ) (size : Nat) : Bool × LruMap κ υ :=
  if map.maxMemory < size then
    (false, map)
  else if present : key ∈ map.entries.map LruEntry.key then
    (true, { map with
      entries := ⟨key, value, size⟩ :: LruEntry.without key map.entries
      distinct := List.nodup_cons.mpr
        ⟨LruEntry.key_not_mem_without, LruEntry.distinct_without map.distinct⟩ })
  else
    (true, { map with
      entries := ⟨key, value, size⟩ ::
        keep map.maxEntries map.maxMemory size map.entries
      distinct := List.nodup_cons.mpr
        ⟨fun member => present (List.map_subset _ (List.take_subset _ _) member),
          map.distinct.sublist (List.take_sublist _ _)⟩ })

/-- Forget `key`. -/
def remove (map : LruMap κ υ) (key : κ) : LruMap κ υ where
  maxEntries := map.maxEntries
  maxMemory := map.maxMemory
  entries := LruEntry.without key map.entries
  distinct := LruEntry.distinct_without map.distinct

/-- Forget everything. -/
def clear (map : LruMap κ υ) : LruMap κ υ :=
  empty map.maxEntries map.maxMemory

/-! ## What is kept -/

section Keep

variable {maxEntries maxMemory needed : Nat} {entries : List (LruEntry κ υ)}

omit [DecidableEq κ] in
theorem keep_of_fits (fits : Fits maxEntries maxMemory needed entries) :
    keep maxEntries maxMemory needed entries = entries := by
  have everything : keepCount maxEntries maxMemory needed entries = entries.length := by
    apply Nat.findGreatest_eq
    rwa [List.take_length]
  rw [keep, everything, List.take_length]

omit [DecidableEq κ] in
theorem keepCount_le : keepCount maxEntries maxMemory needed entries ≤ entries.length :=
  Nat.findGreatest_le _

omit [DecidableEq κ] in
theorem keep_of_not_fits (entry : LruEntry κ υ)
    (full : ¬ Fits maxEntries maxMemory needed (entries ++ [entry])) :
    keep maxEntries maxMemory needed (entries ++ [entry]) =
      keep maxEntries maxMemory needed entries := by
  have sameTake : ∀ count, count ≤ entries.length →
      (entries ++ [entry]).take count = entries.take count := fun count bound =>
    List.take_append_of_le_length bound
  have sameCount : keepCount maxEntries maxMemory needed (entries ++ [entry]) =
      keepCount maxEntries maxMemory needed entries := by
    apply Nat.findGreatest_eq_iff.mpr
    refine ⟨Nat.le_trans keepCount_le (by simp), ?_, ?_⟩
    · intro nonzero
      rw [sameTake _ keepCount_le]
      exact Nat.findGreatest_of_ne_zero rfl nonzero
    · intro count more bound
      rw [List.length_append, List.length_singleton] at bound
      rcases Nat.lt_or_ge entries.length count with last | inside
      · rwa [List.take_of_length_le (by simp; omega)]
      · rw [sameTake count inside]
        exact Nat.findGreatest_is_greatest more inside
  rw [keep, keep, sameCount, sameTake _ keepCount_le]

omit [DecidableEq κ] in
theorem keep_fits (entries : List (LruEntry κ υ)) (roomForOne : 0 < maxEntries)
    (acceptable : needed ≤ maxMemory) :
    Fits maxEntries maxMemory needed (keep maxEntries maxMemory needed entries) := by
  have nothing : Fits maxEntries maxMemory needed (entries.take 0) :=
    ⟨by simpa using roomForOne, by simpa using acceptable⟩
  exact Nat.findGreatest_spec
    (P := fun count => Fits maxEntries maxMemory needed (entries.take count))
    (Nat.zero_le entries.length) nothing

end Keep

end LruMap

end SquashfsFuse
