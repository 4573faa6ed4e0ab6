import Mathlib.Algebra.BigOperators.Group.Finset.Basic
import Mathlib.Algebra.Order.BigOperators.Group.List
import Mathlib.Algebra.Order.Group.Nat
import Mathlib.Data.List.Dedup
import SquashfsFuse.Foundation.LruMap

/-! Fetching through an LRU map: look a key up, and keep a value for it where there is none.
What is kept then are the most recently used keys, as many as fit. -/

namespace SquashfsFuse

namespace LruMap

/-! ## Orders by recency -/

section Orders

variable {κ : Type u} [DecidableEq κ]

def touch (order : List κ) (key : κ) : List κ := key :: order.filter (· ≠ key)

/-- Use the keys one after the other. Those whose values are too large are passed over. -/
def touchAll (maxMemory : Nat) (size : κ → Nat) (order keys : List κ) : List κ :=
  keys.foldl (fun order key => if size key ≤ maxMemory then touch order key else order) order

structure Fitting (maxEntries maxMemory : Nat) (size : κ → Nat) (keys : List κ) : Prop where
  entries : keys.length ≤ maxEntries
  memory : (keys.map size).sum ≤ maxMemory

variable {maxEntries maxMemory : Nat} {size : κ → Nat} {key : κ}
  {keys order front behind smaller : List κ}

theorem filter_ne_of_absent (absent : key ∉ keys) : keys.filter (· ≠ key) = keys := by
  apply List.filter_eq_self.mpr
  intro other member
  have apart : other ≠ key := by
    rintro rfl
    exact absent member
  exact decide_eq_true apart

theorem nodup_touch (nodup : order.Nodup) : (touch order key).Nodup :=
  List.nodup_cons.mpr ⟨by simp, nodup.filter _⟩

theorem touch_perm (nodup : order.Nodup) (present : key ∈ order) :
    (touch order key).Perm order := by
  have same : order.filter (· ≠ key) = order.erase key := by
    rw [nodup.erase_eq_filter]
    apply List.filter_congr
    intro other _
    rw [bne, Bool.eq_iff_iff]
    simp
  rw [touch, same]
  exact (List.perm_cons_erase present).symm

theorem touch_append (nodup : (order ++ behind).Nodup) (present : key ∈ order) :
    touch (order ++ behind) key = touch order key ++ behind := by
  have absent : key ∉ behind := fun later =>
    (List.nodup_append.mp nodup).2.2 key present key later rfl
  rw [touch, touch, List.filter_append, filter_ne_of_absent absent, List.cons_append]

omit [DecidableEq κ] in
theorem Fitting.of_perm (fitting : Fitting maxEntries maxMemory size keys)
    (perm : smaller.Perm keys) : Fitting maxEntries maxMemory size smaller where
  entries := perm.length_eq.trans_le fitting.entries
  memory := (perm.map size).sum_eq.trans_le fitting.memory

omit [DecidableEq κ] in
theorem Fitting.of_front (fitting : Fitting maxEntries maxMemory size keys)
    (front : smaller <+: keys) : Fitting maxEntries maxMemory size smaller := by
  rcases front with ⟨rest, rfl⟩
  have entries := fitting.entries
  have memory := fitting.memory
  rw [List.length_append] at entries
  rw [List.map_append, List.sum_append] at memory
  exact ⟨by omega, by omega⟩

/-- Where the longest fitting front of an order does not have a key, what fits beside the key
is part of that front. -/
theorem front_of_fitting {kept : List κ} (front : kept <+: order)
    (longest : ∀ keys, keys <+: order → Fitting maxEntries maxMemory size keys → keys <+: kept)
    (absent : key ∉ kept) (others : keys <+: order.filter (· ≠ key))
    (fits : Fitting maxEntries maxMemory size (key :: keys)) : keys <+: kept := by
  have entries := fits.entries
  have memory := fits.memory
  rw [List.length_cons] at entries
  rw [List.map_cons, List.sum_cons] at memory
  rcases front with ⟨rest, rfl⟩
  rw [List.filter_append, filter_ne_of_absent absent] at others
  rcases List.prefix_or_prefix_of_prefix others (List.prefix_append kept _) with inside | long
  · exact inside
  rcases long with ⟨more, rfl⟩
  have more_ := (List.prefix_append_right_inj _).mp others
  cases rest with
  | nil =>
      rw [List.prefix_nil.mp more_, List.append_nil]
  | cons next rest =>
      rw [List.length_append] at entries
      rw [List.map_append, List.sum_append] at memory
      cases more with
      | nil => rw [List.append_nil]
      | cons first more =>
          rw [List.length_cons] at entries
          rw [List.map_cons, List.sum_cons] at memory
          -- One key more of the order would fit, and would have been kept.
          have oneMore : Fitting maxEntries maxMemory size (kept ++ [next]) := by
            constructor
            · rw [List.length_append, List.length_singleton]
              omega
            · rw [List.map_append, List.sum_append, List.map_singleton, List.sum_singleton]
              by_cases same : next = key
              · rw [same]
                omega
              · simp only [List.filter_cons, ne_eq, same, not_false_eq_true, decide_true,
                  if_true] at more_
                obtain rfl := (List.cons_prefix_cons.mp more_).1
                omega
          have short := (longest _ ⟨rest, by simp⟩ oneMore).length_le
          rw [List.length_append, List.length_singleton] at short
          omega

theorem touchAll_behind (absent : key ∉ keys) :
    ∃ rest, touchAll maxMemory size (front ++ key :: behind) keys =
      touchAll maxMemory size front keys ++ key :: rest := by
  induction keys generalizing front behind with
  | nil => exact ⟨behind, rfl⟩
  | cons other keys induction =>
      have apart : key ≠ other := fun same => absent (same ▸ List.mem_cons_self)
      have later : key ∉ keys := fun member => absent (List.mem_cons_of_mem _ member)
      rw [touchAll, touchAll, List.foldl_cons, List.foldl_cons, ← touchAll, ← touchAll]
      split
      · have moved : touch (front ++ key :: behind) other =
            touch front other ++ key :: behind.filter (· ≠ other) := by
          simp [touch, apart]
        rw [moved]
        exact induction later
      · exact induction later

theorem nodup_touchAll (nodup : order.Nodup) : (touchAll maxMemory size order keys).Nodup := by
  induction keys generalizing order with
  | nil => exact nodup
  | cons key keys induction =>
      rw [touchAll, List.foldl_cons, ← touchAll]
      split
      · exact induction (nodup_touch nodup)
      · exact induction nodup

theorem mem_touchAll {other : κ} : other ∈ touchAll maxMemory size order keys ↔
    other ∈ order ∨ other ∈ keys ∧ size other ≤ maxMemory := by
  induction keys generalizing order with
  | nil => simp [touchAll]
  | cons key keys induction =>
      rw [touchAll, List.foldl_cons, ← touchAll]
      split
      · next accepted =>
          rw [induction, touch, List.mem_cons, List.mem_filter, decide_eq_true_iff]
          by_cases same : other = key
          · subst same
            simp [accepted]
          · simp [same]
      · next refused =>
          rw [induction]
          by_cases same : other = key
          · subst same
            simp [refused]
          · simp [same]

end Orders

/-! ## Fetching -/

variable {κ : Type u} {υ : Type v} [DecidableEq κ]

def keys (map : LruMap κ υ) : List κ := map.entries.map LruEntry.key

/-- Look `key` up, and keep its value where it is not found. -/
def fetch (value : κ → υ) (size : κ → Nat) (map : LruMap κ υ) (key : κ) :
    Option υ × LruMap κ υ :=
  match map.get key with
  | (some found, after) => (some found, after)
  | (none, after) => (none, (after.put key (value key) (size key)).2)

/-- Fetch the keys one after the other. -/
def fetchAll (value : κ → υ) (size : κ → Nat) (map : LruMap κ υ) (keys : List κ) :
    LruMap κ υ :=
  keys.foldl (fun map key => (fetch value size map key).2) map

structure HoldsRecent (value : κ → υ) (size : κ → Nat) (map : LruMap κ υ) (order : List κ) :
    Prop where
  positive : 0 < map.maxEntries
  nodup : order.Nodup
  front : map.keys <+: order
  loaded : ∀ entry ∈ map.entries, entry.value = value entry.key ∧ entry.size = size entry.key
  fitting : Fitting map.maxEntries map.maxMemory size map.keys
  longest : ∀ keys, keys <+: order → Fitting map.maxEntries map.maxMemory size keys →
    keys <+: map.keys

section Fetching

variable {value : κ → υ} {size : κ → Nat} {map : LruMap κ υ} {order : List κ} {key : κ}
  {maxEntries maxMemory : Nat}

theorem get_of_none (missed : (map.get key).1 = none) : (map.get key).2 = map := by
  rw [get] at missed ⊢
  cases present : map.entries.find? (·.key = key) with
  | none => rfl
  | some found =>
      rw [present] at missed
      cases missed

omit [DecidableEq κ] in
theorem holdsRecent_empty (positive : 0 < maxEntries) :
    HoldsRecent value size (empty maxEntries maxMemory) [] where
  positive := positive
  nodup := .nil
  front := List.prefix_refl _
  loaded := fun _ member => absurd member List.not_mem_nil
  fitting := ⟨Nat.zero_le _, Nat.zero_le _⟩
  longest := fun _ front _ => front

omit [DecidableEq κ] in
theorem memory_of_sizes {entries : List (LruEntry κ υ)}
    (sizes : ∀ entry ∈ entries, entry.size = size entry.key) :
    LruEntry.memory entries = ((entries.map LruEntry.key).map size).sum := by
  rw [LruEntry.memory, List.map_map]
  exact congrArg List.sum (List.map_congr_left sizes)

omit [DecidableEq κ] in
theorem HoldsRecent.mem_keys {behind front : List κ}
    (holds : HoldsRecent value size map (front ++ key :: behind)) :
    key ∈ map.keys ↔ Fitting map.maxEntries map.maxMemory size (front ++ [key]) := by
  have upTo : front ++ [key] <+: front ++ key :: behind := ⟨behind, by simp⟩
  constructor
  · intro kept
    apply holds.fitting.of_front
    rcases List.prefix_or_prefix_of_prefix upTo holds.front with inside | short
    · exact inside
    · rcases List.prefix_concat_iff.mp short with same | inFront
      · rw [same]
      · have nodup := List.nodup_append.mp holds.nodup
        exact absurd rfl (nodup.2.2 key (inFront.subset kept) key List.mem_cons_self)
  · intro fits
    exact (holds.longest _ upTo fits).subset (by simp)

theorem HoldsRecent.hit (holds : HoldsRecent value size map order) {found : LruEntry κ υ}
    (present : map.entries.find? (·.key = key) = some found) :
    HoldsRecent value size (map.get key).2 (touch order key) := by
  rcases (LruEntry.find_eq_some map.distinct).mp present with ⟨rfl, before, after, split⟩
  have member : found ∈ map.entries := by simp [split]
  have kept : found.key ∈ map.keys := List.mem_map_of_mem member
  have moved : (map.get found.key).2.keys = touch map.keys found.key := by
    rw [get, present]
    simp [keys, touch, LruEntry.without, List.filter_map, Function.comp_def]
  have limits : (map.get found.key).2.maxEntries = map.maxEntries ∧
      (map.get found.key).2.maxMemory = map.maxMemory := by
    rw [get, present]
    exact ⟨rfl, rfl⟩
  have distinct : map.keys.Nodup := map.distinct
  refine ⟨limits.1 ▸ holds.positive, nodup_touch holds.nodup, ?_, ?_, ?_, ?_⟩
  · rw [moved]
    exact (List.prefix_cons_inj _).mpr (holds.front.filter _)
  · intro entry inside
    rw [get, present] at inside
    rcases List.mem_cons.mp inside with rfl | other
    · exact holds.loaded found member
    · exact holds.loaded entry (List.mem_filter.mp other).1
  · rw [moved, limits.1, limits.2]
    exact holds.fitting.of_perm (touch_perm distinct kept)
  · rw [moved, limits.1, limits.2]
    rcases holds.front with ⟨behind, rfl⟩
    rw [touch_append holds.nodup kept]
    intro keys front fits
    rcases List.prefix_or_prefix_of_prefix front (List.prefix_append _ behind) with inside | long
    · exact inside
    · rcases long with ⟨more, rfl⟩
      -- The keys that were in front before are the same ones, and fit as well.
      have fitBefore := fits.of_perm ((touch_perm distinct kept).symm.append_right more)
      have shorter := (holds.longest _ (List.prefix_append_right_inj _ |>.mpr
        (List.prefix_append_right_inj _ |>.mp front)) fitBefore).length_le
      rw [List.length_append] at shorter
      obtain rfl : more = [] := List.length_eq_zero_iff.mp (by omega)
      rw [List.append_nil]

/-- After a miss the key is kept, with as many of the others as fit beside it. -/
theorem HoldsRecent.miss (holds : HoldsRecent value size map order)
    (absent : key ∉ map.keys) (accepted : size key ≤ map.maxMemory) :
    HoldsRecent value size (map.put key (value key) (size key)).2 (touch order key) := by
  have missing : key ∉ map.entries.map LruEntry.key := absent
  have limits : (map.put key (value key) (size key)).2.maxEntries = map.maxEntries ∧
      (map.put key (value key) (size key)).2.maxMemory = map.maxMemory := by
    rw [LruMap.put, if_neg (Nat.not_lt.mpr accepted), dif_neg missing]
    exact ⟨rfl, rfl⟩
  let count := keepCount map.maxEntries map.maxMemory (size key) map.entries
  have stored : (map.put key (value key) (size key)).2.entries =
      ⟨key, value key, size key⟩ :: map.entries.take count := by
    rw [LruMap.put, if_neg (Nat.not_lt.mpr accepted), dif_neg missing]
    rfl
  have kept : (map.put key (value key) (size key)).2.keys = key :: map.keys.take count := by
    rw [keys, stored, List.map_cons, List.map_take]
    rfl
  have room := keep_fits map.entries holds.positive accepted
  have sizes : ∀ entry ∈ map.entries.take count, entry.size = size entry.key :=
    fun entry inside => (holds.loaded entry (List.mem_of_mem_take inside)).2
  have others : map.keys <+: order.filter (· ≠ key) := by
    have front := holds.front.filter (· ≠ key)
    rwa [filter_ne_of_absent absent] at front
  refine ⟨limits.1 ▸ holds.positive, nodup_touch holds.nodup, ?_, ?_, ?_, ?_⟩
  · rw [kept, touch]
    exact (List.prefix_cons_inj _).mpr ((List.take_prefix count _).trans others)
  · rw [stored]
    intro entry inside
    rcases List.mem_cons.mp inside with rfl | other
    · exact ⟨rfl, rfl⟩
    · exact holds.loaded entry (List.mem_of_mem_take other)
  · rw [kept, limits.1, limits.2]
    have entries := room.1
    have memory := room.2
    rw [keep, memory_of_sizes sizes, List.map_take] at memory
    rw [keep] at entries
    constructor
    · rw [List.length_cons, List.length_take, LruMap.keys, List.length_map, ← List.length_take]
      exact entries
    · rw [List.map_cons, List.sum_cons]
      exact (Nat.add_comm _ _).trans_le memory
  · rw [kept, limits.1, limits.2]
    intro keys front fits
    cases keys with
    | nil => exact List.nil_prefix
    | cons first keys =>
        rcases List.cons_prefix_cons.mp front with ⟨rfl, behind⟩
        have inside := front_of_fitting holds.front holds.longest absent behind fits
        apply (List.prefix_cons_inj _).mpr
        apply List.prefix_take_iff.mpr
        refine ⟨inside, ?_⟩
        have short := inside.length_le
        have entries := fits.entries
        have memory := fits.memory
        rw [LruMap.keys, List.length_map] at short
        rw [List.length_cons] at entries
        rw [List.map_cons, List.sum_cons] at memory
        apply Nat.le_findGreatest short
        constructor
        · rw [List.length_take]
          omega
        · rw [memory_of_sizes fun entry member =>
            (holds.loaded entry (List.mem_of_mem_take member)).2, List.map_take]
          have same := List.prefix_iff_eq_take.mp inside
          rw [LruMap.keys] at same
          rw [← same]
          omega

/-- A fetch uses the key, unless its value is too large, and finds the value if the key was
kept. -/
theorem HoldsRecent.fetch (holds : HoldsRecent value size map order) (key : κ) :
    HoldsRecent value size (fetch value size map key).2
        (touchAll map.maxMemory size order [key]) ∧
      (fetch value size map key).1 = if key ∈ map.keys then some (value key) else none := by
  have using_ : touchAll map.maxMemory size order [key] =
    if size key ≤ map.maxMemory then touch order key else order := rfl
  rw [using_, LruMap.fetch]
  cases present : map.entries.find? (·.key = key) with
  | some found =>
      have hit := holds.hit present
      rcases (LruEntry.find_eq_some map.distinct).mp present with ⟨rfl, before, after, split⟩
      have member : found ∈ map.entries := by simp [split]
      have kept : found.key ∈ map.keys := List.mem_map_of_mem member
      have accepted : size found.key ≤ map.maxMemory :=
        (List.le_sum_of_mem (List.mem_map_of_mem kept)).trans holds.fitting.memory
      have answer : map.get found.key = (some found.value, (map.get found.key).2) := by
        rw [get, present]
      rw [if_pos accepted, if_pos kept, ← (holds.loaded found member).1, answer]
      exact ⟨hit, rfl⟩
  | none =>
      have absent : key ∉ map.keys := LruEntry.find_eq_none.mp present
      have answer : map.get key = (none, map) := by rw [get, present]
      rw [answer, if_neg absent]
      dsimp only
      refine ⟨?_, rfl⟩
      by_cases accepted : size key ≤ map.maxMemory
      · rw [if_pos accepted]
        exact holds.miss absent accepted
      · rw [if_neg accepted, LruMap.put, if_pos (Nat.lt_of_not_le accepted)]
        exact holds

theorem fetch_limits : (fetch value size map key).2.maxEntries = map.maxEntries ∧
    (fetch value size map key).2.maxMemory = map.maxMemory := by
  rw [LruMap.fetch, get]
  cases map.entries.find? (·.key = key) with
  | some found => exact ⟨rfl, rfl⟩
  | none =>
      dsimp only
      rw [put]
      split
      · exact ⟨rfl, rfl⟩
      · split <;> exact ⟨rfl, rfl⟩

theorem fetchAll_limits (value : κ → υ) (size : κ → Nat) (map : LruMap κ υ) (keys : List κ) :
    (fetchAll value size map keys).maxEntries = map.maxEntries ∧
      (fetchAll value size map keys).maxMemory = map.maxMemory := by
  induction keys generalizing map with
  | nil => exact ⟨rfl, rfl⟩
  | cons key keys induction =>
      have next := induction (fetch value size map key).2
      rw [fetch_limits.1, fetch_limits.2] at next
      exact next

theorem HoldsRecent.fetchAll (holds : HoldsRecent value size map order) (keys : List κ) :
    HoldsRecent value size (fetchAll value size map keys)
      (touchAll map.maxMemory size order keys) := by
  induction keys generalizing map order with
  | nil => exact holds
  | cons key keys induction =>
      have next := induction (holds.fetch key).1
      rw [fetch_limits.2] at next
      exact next

/-- Behind a run of fetches, a key is found exactly when its value is not too large by itself,
and all that was fetched since the key, each key once, fits beside it. -/
theorem fetch_after_fetchAll (positive : 0 < maxEntries) {before since : List κ}
    (absent : key ∉ since) :
    (fetch value size (LruMap.fetchAll value size (empty maxEntries maxMemory)
        (before ++ key :: since)) key).1 =
      if (since.toFinset.filter (size · ≤ maxMemory)).card < maxEntries ∧
          (since.toFinset.filter (size · ≤ maxMemory)).sum size + size key ≤ maxMemory then
        some (value key)
      else
        none := by
  have warm := (holdsRecent_empty positive : HoldsRecent value size
    (empty maxEntries maxMemory) []).fetchAll (before ++ key :: since)
  have limits := fetchAll_limits value size (empty maxEntries maxMemory) (before ++ key :: since)
  have sameEntries : (empty maxEntries maxMemory : LruMap κ υ).maxEntries = maxEntries := rfl
  have sameMemory : (empty maxEntries maxMemory : LruMap κ υ).maxMemory = maxMemory := rfl
  rw [sameMemory] at warm limits
  rw [sameEntries] at limits
  rw [(warm.fetch key).2]
  apply if_congr _ rfl rfl
  by_cases accepted : size key ≤ maxMemory
  · rcases @touchAll_behind κ _ maxMemory size key since []
      ((touchAll maxMemory size [] before).filter (· ≠ key)) absent with ⟨rest, order⟩
    have split : touchAll maxMemory size [] (before ++ key :: since) =
        touchAll maxMemory size [] since ++ key :: rest := by
      rw [← order, touchAll, List.foldl_append, List.foldl_cons, if_pos accepted]
      rfl
    rw [split] at warm
    have nodup : (touchAll maxMemory size [] since).Nodup := nodup_touchAll .nil
    have used : (touchAll maxMemory size [] since).toFinset =
        since.toFinset.filter (size · ≤ maxMemory) := by
      ext other
      simp [mem_touchAll]
    have count := List.toFinset_card_of_nodup nodup
    have sum := List.sum_toFinset size nodup
    rw [used] at count sum
    rw [warm.mem_keys, limits.1, limits.2, count, sum]
    constructor
    · intro fits
      have entries := fits.entries
      have memory := fits.memory
      rw [List.length_append, List.length_singleton] at entries
      rw [List.map_append, List.sum_append, List.map_singleton, List.sum_singleton] at memory
      exact ⟨entries, memory⟩
    · rintro ⟨entries, memory⟩
      constructor
      · rw [List.length_append, List.length_singleton]
        exact entries
      · rw [List.map_append, List.sum_append, List.map_singleton, List.sum_singleton]
        exact memory
  · have unused : key ∉ touchAll maxMemory size [] (before ++ key :: since) := by
      simp [mem_touchAll, accepted]
    constructor
    · intro kept
      exact absurd (warm.front.subset kept) unused
    · rintro ⟨-, memory⟩
      omega

end Fetching

end LruMap

end SquashfsFuse
