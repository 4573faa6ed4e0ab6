import SquashfsFuse.Cache.ListModel
import SquashfsFuse.Cache.Representation

/-! The pointer structure of the cache behaves as its list of entries. -/

namespace SquashfsFuse

variable {Value : Type}

namespace SqfsCache

variable {cache after : SqfsCache Value} {nodes before rest : List Nat} {node : Nat}
  {entries front back : List (LruEntry Nat Value)} {entry : LruEntry Nat Value}
  {cell : CacheEntry Value} {list : CacheList Value}

/-- The heap entries `nodes` hold `entries`, in the recency list and in the hash
table. -/
structure Holds (cache : SqfsCache Value) (nodes : List Nat)
    (entries : List (LruEntry Nat Value)) : Prop where
  contents : nodes.map cache.contentOf = entries.map some
  distinct : LruEntry.Distinct entries
  listed : Listed cache nodes
  chained : Chained cache nodes
  allocated : Allocated cache

def view (cache : SqfsCache Value) (entries : List (LruEntry Nat Value)) : CacheList Value where
  maxEntries := cache.maxEntries
  currentEntries := cache.currentEntries
  maxMemory := cache.maxMemory
  currentMemory := cache.currentMemory
  hasFreeFn := cache.hasFreeFn
  hits := cache.hits
  misses := cache.misses
  entries := entries
  freed := cache.freed

@[simp] theorem view_entries (cache : SqfsCache Value) (entries : List (LruEntry Nat Value)) :
    (cache.view entries).entries = entries := rfl

/-- The pointer structure is sound and represents `list`. -/
def Represents (cache : SqfsCache Value) (list : CacheList Value) : Prop :=
  ∃ nodes entries, Holds cache nodes entries ∧ cache.view entries = list

theorem Represents.maxMemory {list : CacheList Value} (represents : Represents cache list) :
    cache.maxMemory = list.maxMemory := by
  rcases represents with ⟨nodes, entries, holds, rfl⟩
  rfl

theorem Represents.distinct {list : CacheList Value} (represents : Represents cache list) :
    LruEntry.Distinct list.entries := by
  rcases represents with ⟨nodes, entries, holds, rfl⟩
  exact holds.distinct

theorem HashStep.view (step : HashStep cache after) (entries : List (LruEntry Nat Value)) :
    after.view entries = cache.view entries := by
  rcases step with ⟨heap, buckets, rfl, same⟩
  rfl

theorem ListStep.view (step : ListStep cache after) (entries : List (LruEntry Nat Value)) :
    after.view entries = cache.view entries := by
  rcases step with ⟨heap, head, tail, rfl, same⟩
  rfl

theorem TableStep.view (step : TableStep cache after) (entries : List (LruEntry Nat Value)) :
    after.view entries = cache.view entries := by
  rcases step with ⟨heap, buckets, count, mask, rfl, same⟩
  rfl

/-! ## Entries and their addresses -/

theorem Holds.live (holds : Holds cache nodes entries) : Live cache nodes := by
  intro node member
  have content : cache.contentOf node ∈ entries.map some := by
    rw [← holds.contents]
    exact List.mem_map_of_mem member
  rcases List.mem_map.mp content with ⟨entry, -, equal⟩
  rcases heap_of_contentOf equal.symm with ⟨cell, found, -⟩
  exact ⟨cell, found⟩

theorem Holds.length (holds : Holds cache nodes entries) : nodes.length = entries.length := by
  have lengths := congrArg List.length holds.contents
  simpa using lengths

theorem Holds.split (holds : Holds cache nodes (front ++ entry :: back)) :
    ∃ before node rest, nodes = before ++ node :: rest ∧
      before.map cache.contentOf = front.map some ∧
      cache.contentOf node = some entry ∧ rest.map cache.contentOf = back.map some := by
  have contents := holds.contents
  rw [List.map_append, List.map_cons] at contents
  rcases List.map_eq_append_iff.mp contents with ⟨before, others, rfl, beforeContents, others'⟩
  rcases List.map_eq_cons_iff.mp others' with ⟨node, rest, rfl, nodeContent, restContents⟩
  exact ⟨before, node, rest, rfl, beforeContents, nodeContent, restContents⟩

theorem keyOf_of_content (content : cache.contentOf node = some entry) :
    cache.keyOf node = some entry.key := by
  rw [keyOf, content, Option.map_some]

theorem Holds.unique (holds : Holds cache (before ++ node :: rest) (front ++ entry :: back))
    (beforeContents : before.map cache.contentOf = front.map some)
    (content : cache.contentOf node = some entry)
    (restContents : rest.map cache.contentOf = back.map some) :
    Unique cache (before ++ node :: rest) entry.key node where
  member := by simp
  keyed := keyOf_of_content content
  only := by
    intro other member keyed
    have distinct := holds.distinct
    simp only [LruEntry.Distinct, List.map_append, List.map_cons, List.nodup_append,
      List.nodup_cons] at distinct
    have keyAmong : ∀ (nodes : List Nat) (entries : List (LruEntry Nat Value)),
        nodes.map cache.contentOf = entries.map some →
        other ∈ nodes → entry.key ∈ entries.map LruEntry.key := by
      intro nodes entries contents inNodes
      have content : cache.contentOf other ∈ entries.map some := by
        rw [← contents]
        exact List.mem_map_of_mem inNodes
      rcases List.mem_map.mp content with ⟨found, inEntries, equal⟩
      rw [keyOf_of_content equal.symm] at keyed
      rw [← Option.some.inj keyed]
      exact List.mem_map_of_mem inEntries
    rcases List.mem_append.mp member with inBefore | inRest
    · have clash := keyAmong before front beforeContents inBefore
      exact absurd rfl (distinct.2.2 entry.key clash entry.key (by simp))
    · rcases List.mem_cons.mp inRest with equal | inRest
      · exact equal
      · exact absurd (keyAmong rest back restContents inRest) distinct.2.1.1

theorem Holds.absent {key : Nat} (holds : Holds cache nodes entries)
    (missing : key ∉ entries.map LruEntry.key) :
    ∀ node, node ∈ nodes → cache.keyOf node ≠ some key := by
  intro node member keyed
  have content : cache.contentOf node ∈ entries.map some := by
    rw [← holds.contents]
    exact List.mem_map_of_mem member
  rcases List.mem_map.mp content with ⟨entry, inEntries, equal⟩
  rw [keyOf_of_content equal.symm] at keyed
  rw [← Option.some.inj keyed] at missing
  exact missing (List.mem_map_of_mem inEntries)

theorem Holds.congr (holds : Holds cache nodes entries)
    (heap : ∀ node, node ∈ nodes → after.heap node = cache.heap node)
    (ends : after.head = cache.head ∧ after.tail = cache.tail)
    (table : after.buckets = cache.buckets ∧ after.bucketCount = cache.bucketCount ∧
      after.bucketMask = cache.bucketMask)
    (allocated : Allocated after) : Holds after nodes entries where
  contents := by
    rw [← holds.contents]
    apply List.map_congr_left
    intro node member
    rw [contentOf, contentOf, heap node member]
  distinct := holds.distinct
  listed := by
    refine ⟨holds.listed.linked.congr ?_ ?_, by rw [ends.1, holds.listed.head],
      by rw [ends.2, holds.listed.tail]⟩
    · intro node member
      rw [prevOf, prevOf, heap node member]
    · intro node member
      rw [nextOf, nextOf, heap node member]
  chained := by
    rcases holds.chained with ⟨mask, nonempty, head, array, chains⟩
    refine ⟨by rw [table.2.2, table.2.1, mask], by rw [table.2.1]; exact nonempty, head,
      by rw [table.1, table.2.1, array], fun idx => ?_⟩
    rcases chains idx with ⟨chain, follows, nodup, members⟩
    refine ⟨chain, follows.congr ?_, nodup, fun node => ?_⟩
    · intro node member
      rw [hnextOf, hnextOf, heap node ((members node).mp member).1]
    · rw [members node]
      refine and_congr_right fun member => ?_
      have sameIndex : after.bucketIndex = cache.bucketIndex := by
        funext key
        rw [bucketIndex, bucketIndex, table.2.2]
      rw [indexOf, indexOf, keyOf, keyOf, contentOf, contentOf, heap node member, sameIndex]
  allocated := allocated

/-! ## Lookups -/

theorem hashFind_present (holds : Holds cache nodes (front ++ entry :: back)) :
    ∃ before node rest cell, nodes = before ++ node :: rest ∧
      before.map cache.contentOf = front.map some ∧ cache.heap node = some cell ∧
      cell.content = entry ∧ rest.map cache.contentOf = back.map some ∧
      hashFind cache entry.key = some (some node) := by
  rcases holds.split with ⟨before, node, rest, rfl, beforeContents, content, restContents⟩
  rcases heap_of_contentOf content with ⟨cell, found, equal⟩
  exact ⟨before, node, rest, cell, rfl, beforeContents, found, equal, restContents,
    hashFind_hit holds.chained holds.live holds.allocated
      (holds.unique beforeContents content restContents)⟩

theorem hashFind_absent {key : Nat} (holds : Holds cache nodes entries)
    (missing : key ∉ entries.map LruEntry.key) : hashFind cache key = some none :=
  hashFind_miss holds.chained holds.live holds.allocated (holds.absent missing)

private theorem lruMoveToHead_holds
    (holds : Holds cache (before ++ node :: rest) (front ++ entry :: back))
    (beforeContents : before.map cache.contentOf = front.map some)
    (content : cache.contentOf node = some entry)
    (restContents : rest.map cache.contentOf = back.map some) :
    ∃ after, lruMoveToHead cache node = some after ∧
      Holds after (node :: (before ++ rest)) (entry :: (front ++ back)) ∧
      ListStep cache after := by
  rcases lruMoveToHead_spec holds.listed holds.live with ⟨after, run, listed, step⟩
  refine ⟨after, run, ⟨?_, ?_, listed, ?_, step.allocated holds.allocated⟩, step⟩
  · rw [step.contentOf, List.map_cons, content, List.map_append, beforeContents, restContents,
      List.map_cons, List.map_append]
  · have distinct := holds.distinct
    rw [LruEntry.Distinct, List.map_append, List.map_cons, List.nodup_middle] at distinct
    rwa [LruEntry.Distinct, List.map_cons, List.map_append]
  · apply (step.chained holds.chained).congr
    intro other
    exact List.perm_middle.mem_iff.symm

/-! ## Removing an entry -/

def freedWith (cache : SqfsCache Value) (value : Value) : List Value :=
  if cache.hasFreeFn then cache.freed ++ [value] else cache.freed

private theorem callFreeFn_eq (cache : SqfsCache Value) (value : Value) :
    callFreeFn cache value = { cache with freed := cache.freedWith value } := by
  rw [callFreeFn, freedWith]
  split <;> rfl

private theorem cacheEntryFree_eq (found : cache.heap node = some cell) :
    cacheEntryFree cache node = some { cache with
      heap := Function.update cache.heap node none, freed := cache.freedWith cell.value } := by
  rw [cacheEntryFree, found]
  simp only [Option.bind_eq_bind, Option.bind_some, callFreeFn_eq]

private theorem release_view (cache : SqfsCache Value) (value : Value)
    (entries : List (LruEntry Nat Value)) :
    (cache.view entries).release value =
      { cache.view entries with freed := cache.freedWith value } := by
  rw [CacheList.release, freedWith]
  by_cases given : cache.hasFreeFn
  · rw [if_pos given, if_pos (show (cache.view entries).hasFreeFn from given)]
    rfl
  · rw [if_neg given, if_neg (show ¬ (cache.view entries).hasFreeFn from given)]
    rfl

private theorem discard_spec (holds : Holds cache (before ++ node :: rest) (front ++ entry :: back))
    (beforeContents : before.map cache.contentOf = front.map some)
    (content : cache.contentOf node = some entry)
    (restContents : rest.map cache.contentOf = back.map some) :
    ∃ after, discard cache node = some after ∧
      Holds after (before ++ rest) (front ++ back) ∧
      after.view (front ++ back) = { cache.view (front ++ back) with
        currentEntries := sub64 cache.currentEntries 1
        currentMemory := sub64 cache.currentMemory entry.size }.release entry.value := by
  have nodup := holds.listed.linked.nodup
  rcases hashRemove_spec holds.chained holds.live holds.allocated nodup
    (holds.unique beforeContents content restContents) with
    ⟨middle, removeRun, chained, hashStep⟩
  rcases lruRemove_spec (hashStep.listed holds.listed) (hashStep.live holds.live) with
    ⟨unlinked, unlinkRun, listed, listStep⟩
  have contentSame : unlinked.contentOf = cache.contentOf :=
    listStep.contentOf.trans hashStep.contentOf
  have unlinkedHolds : Holds unlinked (before ++ rest) (front ++ back) := by
    refine ⟨?_, holds.distinct.sublist ?_, listed, listStep.chained chained,
      listStep.allocated (hashStep.allocated holds.allocated)⟩
    · rw [contentSame, List.map_append, beforeContents, restContents, List.map_append]
    · exact List.Sublist.append (List.Sublist.refl front) (List.sublist_cons_self entry back)
  have views : unlinked.view (front ++ back) = cache.view (front ++ back) :=
    (listStep.view _).trans (hashStep.view _)
  rcases heap_of_contentOf content with ⟨first, firstFound, rfl⟩
  rw [← contentSame] at content
  rcases heap_of_contentOf content with ⟨cell, found, cellContent⟩
  have valueEqual : cell.value = first.value := congrArg LruEntry.value cellContent
  let counted : SqfsCache Value := { unlinked with
    currentEntries := sub64 unlinked.currentEntries 1
    currentMemory := sub64 unlinked.currentMemory first.memorySize }
  have countedView : counted.view (front ++ back) = { cache.view (front ++ back) with
      currentEntries := sub64 cache.currentEntries 1
      currentMemory := sub64 cache.currentMemory first.memorySize } := by
    rw [← views, show cache.currentEntries = unlinked.currentEntries from
      congrArg CacheList.currentEntries views.symm, show cache.currentMemory =
      unlinked.currentMemory from congrArg CacheList.currentMemory views.symm]
    rfl
  refine ⟨{ counted with
      heap := Function.update counted.heap node none, freed := counted.freedWith cell.value },
    ?_, unlinkedHolds.congr ?_ ⟨rfl, rfl⟩ ⟨rfl, rfl, rfl⟩ ?_, ?_⟩
  · have keyEqual : first.content.key = first.key := rfl
    rw [keyEqual] at removeRun
    simp only [discard, firstFound, Option.bind_eq_bind, Option.bind_some, removeRun, unlinkRun]
    exact @cacheEntryFree_eq _ counted _ _ found
  · intro other member
    have apart := (List.nodup_cons.mp (List.nodup_middle.mp nodup)).1
    apply Function.update_of_ne
    rintro rfl
    exact apart member
  · intro other otherCell otherFound
    have different : other ≠ node := by
      rintro rfl
      simp at otherFound
    change Function.update unlinked.heap node none other = some otherCell at otherFound
    rw [Function.update_of_ne different] at otherFound
    exact unlinkedHolds.allocated other otherCell otherFound
  · have released := release_view counted first.value (front ++ back)
    rw [valueEqual]
    exact released.symm.trans (congrArg (CacheList.release · first.value) countedView)

/-! ## Eviction -/

private theorem evictFrom_entries (memoryNeeded : Nat) (backwards : List (LruEntry Nat Value))
    (list : CacheList Value) (entries : List (LruEntry Nat Value)) :
    CacheList.evictFrom memoryNeeded backwards { list with entries } =
      CacheList.evictFrom memoryNeeded backwards list := by
  induction backwards generalizing list with
  | nil => rfl
  | cons victim rest induction =>
      have sameRoom : { list with entries }.HasRoom memoryNeeded ↔ list.HasRoom memoryNeeded :=
        Iff.rfl
      rw [CacheList.evictFrom, CacheList.evictFrom]
      by_cases room : list.HasRoom memoryNeeded
      · rw [if_pos (sameRoom.mpr room), if_pos room]
      · rw [if_neg (fun fits => room (sameRoom.mp fits)), if_neg room]
        have released := CacheList.release_with_entries { list with
            currentEntries := sub64 list.currentEntries 1
            currentMemory := sub64 list.currentMemory victim.size } victim.value entries
        exact (congrArg (CacheList.evictFrom memoryNeeded rest) released).trans (induction _)

theorem evict_entries_subset (memoryNeeded : Nat) (list : CacheList Value) :
    (list.evict memoryNeeded).entries ⊆ list.entries := by
  have fromEnd : ∀ (backwards : List (LruEntry Nat Value)) (list : CacheList Value),
      (CacheList.evictFrom memoryNeeded backwards list).entries ⊆ backwards := by
    intro backwards
    induction backwards with
    | nil => exact fun list => List.nil_subset _
    | cons victim rest induction =>
        intro list
        rw [CacheList.evictFrom]
        split
        · exact List.reverse_subset.mpr (List.Subset.refl _)
        · exact List.Subset.trans (induction _) (List.subset_cons_self victim rest)
  exact List.Subset.trans (fromEnd _ list) (List.reverse_subset.mpr (List.Subset.refl _))

private theorem cacheEvictLoop_spec (memoryNeeded : Nat) {backwards : List (LruEntry Nat Value)}
    {limit : Nat} (holds : Holds cache nodes backwards.reverse)
    (enough : backwards.length < limit) :
    ∃ after, cacheEvictLoop memoryNeeded limit cache = some after ∧
      Represents after
        (CacheList.evictFrom memoryNeeded backwards (cache.view backwards.reverse)) := by
  induction backwards generalizing cache nodes limit with
  | nil =>
      obtain ⟨limit, rfl⟩ : ∃ smaller, limit = smaller + 1 := ⟨limit - 1, by omega⟩
      have empty : cache.tail = none := by
        rw [holds.listed.tail, List.eq_nil_of_length_eq_zero holds.length]
        rfl
      refine ⟨cache, ?_, nodes, [], holds, rfl⟩
      rw [cacheEvictLoop, empty]
  | cons victim rest induction =>
      obtain ⟨limit, rfl⟩ : ∃ smaller, limit = smaller + 1 := ⟨limit - 1, by omega⟩
      rw [List.reverse_cons] at holds ⊢
      rcases holds.split with
        ⟨before, node, behind, rfl, beforeContents, content, behindContents⟩
      obtain rfl : behind = [] := by simpa using behindContents
      have last : cache.tail = some node := by
        rw [holds.listed.tail]
        simp
      rw [cacheEvictLoop, CacheList.evictFrom, last]
      by_cases room : cache.currentEntries < cache.maxEntries ∧
          u64 (cache.currentMemory + memoryNeeded) ≤ cache.maxMemory
      · refine ⟨cache, if_pos room, _, _, holds, ?_⟩
        rw [if_pos (show (cache.view _).HasRoom memoryNeeded from room), List.reverse_cons]
        rfl
      · rcases discard_spec holds beforeContents content behindContents with
          ⟨shorter, discardRun, shorterHolds, shorterView⟩
        simp only [List.append_nil] at shorterHolds shorterView
        rcases induction shorterHolds (Nat.lt_of_succ_lt_succ enough) with
          ⟨after, run, represents⟩
        refine ⟨after, ?_, ?_⟩
        · simp only [if_neg room, Option.bind_eq_bind, discardRun, Option.bind_some]
          exact run
        · rw [if_neg (show ¬ (cache.view _).HasRoom memoryNeeded from room),
            ← evictFrom_entries memoryNeeded rest _ rest.reverse,
            ← CacheList.release_with_entries]
          rw [shorterView] at represents
          exact represents

private theorem cacheEvict_spec (memoryNeeded : Nat) (represents : Represents cache list) :
    ∃ after, cacheEvict cache memoryNeeded = some after ∧
      Represents after (list.evict memoryNeeded) := by
  rcases represents with ⟨nodes, entries, holds, rfl⟩
  have enough : entries.reverse.length < cache.walkLimit := by
    rw [List.length_reverse, ← holds.length]
    exact Nat.lt_succ_of_le
      (length_le_brk holds.allocated holds.live holds.listed.linked.nodup)
  rw [← List.reverse_reverse entries] at holds
  have spec := cacheEvictLoop_spec memoryNeeded holds enough
  rwa [List.reverse_reverse] at spec

/-! ## Operations -/

theorem find_view (cache : SqfsCache Value) (entries : List (LruEntry Nat Value)) (key : Nat) :
    (cache.view entries).find key = entries.find? (·.key = key) := rfl

theorem sqfsCacheGetLookup_spec (key : Nat) (represents : Represents cache list) :
    ∃ after, sqfsCacheGetLookup cache key = some (after, (list.lookup key).2) ∧
      Represents after (list.lookup key).1 := by
  rcases represents with ⟨nodes, entries, holds, rfl⟩
  rw [CacheList.lookup, find_view]
  cases found : entries.find? (·.key = key) with
  | none =>
      have missing := LruEntry.find_eq_none.mp found
      refine ⟨{ cache with misses := u64 (cache.misses + 1) }, ?_, nodes, entries,
        holds.congr (fun _ _ => rfl) ⟨rfl, rfl⟩ ⟨rfl, rfl, rfl⟩ holds.allocated, rfl⟩
      rw [sqfsCacheGetLookup, hashFind_absent holds missing]
      rfl
  | some entry =>
      rcases (LruEntry.find_eq_some holds.distinct).mp found with ⟨rfl, front, back, rfl⟩
      rcases hashFind_present holds with
        ⟨before, node, rest, cell, rfl, -, cellFound, cellContent, -, lookup⟩
      refine ⟨{ cache with hits := u64 (cache.hits + 1) }, ?_, _, _,
        holds.congr (fun _ _ => rfl) ⟨rfl, rfl⟩ ⟨rfl, rfl, rfl⟩ holds.allocated, rfl⟩
      rw [sqfsCacheGetLookup, lookup]
      simp only [Option.bind_eq_bind, Option.bind_some, cellFound]
      rw [← cellContent]
      rfl

theorem sqfsCacheGetMove_spec (key : Nat) (represents : Represents cache list) :
    ∃ after, sqfsCacheGetMove cache key = some after ∧ Represents after (list.move key) := by
  rcases represents with ⟨nodes, entries, holds, rfl⟩
  rw [CacheList.move, find_view]
  cases found : entries.find? (·.key = key) with
  | none =>
      refine ⟨cache, ?_, nodes, entries, holds, rfl⟩
      rw [sqfsCacheGetMove, hashFind_absent holds (LruEntry.find_eq_none.mp found)]
      rfl
  | some entry =>
      rcases (LruEntry.find_eq_some holds.distinct).mp found with ⟨rfl, front, back, rfl⟩
      rcases hashFind_present holds with
        ⟨before, node, rest, cell, rfl, beforeContents, cellFound, cellContent, restContents,
          lookup⟩
      have content : cache.contentOf node = some entry := by
        rw [contentOf_eq cellFound, cellContent]
      rcases lruMoveToHead_holds holds beforeContents content restContents with
        ⟨after, run, moved, step⟩
      refine ⟨after, ?_, _, _, moved, ?_⟩
      · rw [sqfsCacheGetMove, lookup]
        exact run
      · simp only [step.view, view_entries, LruEntry.without_split holds.distinct]
        rfl

theorem sqfsCacheGet_spec (key : Nat) (represents : Represents cache list) :
    ∃ after, sqfsCacheGet cache key = some (after, (list.get key).2) ∧
      Represents after (list.get key).1 := by
  rcases sqfsCacheGetLookup_spec key represents with ⟨middle, lookupRun, looked⟩
  rw [sqfsCacheGet, lookupRun, CacheList.get]
  cases answer : list.lookup key with
  | mk after value =>
      rw [answer] at looked
      cases value with
      | none => exact ⟨middle, rfl, looked⟩
      | some value =>
          rcases sqfsCacheGetMove_spec key looked with ⟨moved, moveRun, represents⟩
          refine ⟨moved, ?_, represents⟩
          simp only [Option.bind_eq_bind, Option.bind_some, moveRun]

theorem Holds.replace (value : Value) (memorySize : Nat)
    (holds : Holds cache (before ++ node :: rest) (front ++ entry :: back))
    (beforeContents : before.map cache.contentOf = front.map some)
    (found : cache.heap node = some cell) (cellContent : cell.content = entry)
    (restContents : rest.map cache.contentOf = back.map some) :
    Holds (cache.assign node { cell with value, memorySize }) (before ++ node :: rest)
      (front ++ ⟨entry.key, value, memorySize⟩ :: back) ∧
    before.map (cache.assign node { cell with value, memorySize }).contentOf = front.map some ∧
    rest.map (cache.assign node { cell with value, memorySize }).contentOf = back.map some := by
  let changed : CacheEntry Value := { cell with value, memorySize }
  have apart := (List.nodup_cons.mp (List.nodup_middle.mp holds.listed.linked.nodup)).1
  have contentOther : ∀ other, other ≠ node →
      (cache.assign node changed).contentOf other = cache.contentOf other := by
    intro other different
    rw [contentOf, contentOf, assign_heap, Function.update_of_ne different]
  have contentSelf : (cache.assign node changed).contentOf node =
      some ⟨entry.key, value, memorySize⟩ := by
    rw [contentOf, assign_heap, Function.update_self, ← cellContent]
    rfl
  have keySame : (cache.assign node changed).keyOf = cache.keyOf := by
    funext other
    by_cases equal : other = node
    · rw [keyOf, equal, contentSelf, keyOf_eq found, ← cellContent]
      rfl
    · rw [keyOf, keyOf, contentOther other equal]
  have beforeSame : before.map (cache.assign node changed).contentOf = front.map some := by
    rw [← beforeContents]
    exact List.map_congr_left fun other member => contentOther other fun equal =>
      apart (by simp [← equal, member])
  have restSame : rest.map (cache.assign node changed).contentOf = back.map some := by
    rw [← restContents]
    exact List.map_congr_left fun other member => contentOther other fun equal =>
      apart (by simp [← equal, member])
  refine ⟨⟨?_, ?_, ?_, ?_, ?_⟩, beforeSame, restSame⟩
  · rw [List.map_append, List.map_cons, beforeSame, contentSelf, restSame, List.map_append,
      List.map_cons]
  · have distinct := holds.distinct
    rw [LruEntry.Distinct, List.map_append, List.map_cons] at distinct ⊢
    exact distinct
  · refine .of_fields holds.listed.linked ?_ ?_ holds.listed.head holds.listed.tail
    · have unchanged : changed.prev = cache.prevOf node := (prevOf_eq found).symm
      rw [assign_prevOf, unchanged, Function.update_eq_self]
    · have unchanged : changed.next = cache.nextOf node := (nextOf_eq found).symm
      rw [assign_nextOf, unchanged, Function.update_eq_self]
  · rcases holds.chained with ⟨mask, nonempty, head, array, chains⟩
    refine ⟨mask, nonempty, head, array, fun idx => ?_⟩
    rcases chains idx with ⟨chain, follows, nodup, members⟩
    refine ⟨chain, ?_, nodup, fun other => ?_⟩
    · have unchanged : changed.hnext = cache.hnextOf node := (hnextOf_eq found).symm
      rw [assign_hnextOf, unchanged, Function.update_eq_self]
      exact follows
    · rw [members other, indexOf, indexOf, keySame]
      rfl
  · intro other otherCell otherFound
    by_cases equal : other = node
    · rw [equal]
      exact holds.allocated node cell found
    · rw [assign_heap, Function.update_of_ne equal] at otherFound
      exact holds.allocated other otherCell otherFound

private theorem insert_spec {key : Nat} (value : Value) (memorySize : Nat)
    (holds : Holds cache nodes entries) (missing : key ∉ entries.map LruEntry.key) :
    ∃ hashed linked,
      hashInsert (cacheEntryNew cache key value memorySize).1 cache.brk = some hashed ∧
      lruInsertHead hashed cache.brk = some linked ∧
      Represents { linked with
        currentEntries := u64 (linked.currentEntries + 1)
        currentMemory := u64 (linked.currentMemory + memorySize) }
        ((cache.view entries).insert key value memorySize) := by
  let cell : CacheEntry Value :=
    { key, value, memorySize, prev := none, next := none, hnext := none }
  let fresh := (cacheEntryNew cache key value memorySize).1
  have found : fresh.heap cache.brk = some cell := Function.update_self _ _ _
  have notNode : ∀ node, node ∈ nodes → node ≠ cache.brk := by
    rintro node member rfl
    rcases holds.live _ member with ⟨cell, found⟩
    exact Nat.lt_irrefl _ (holds.allocated _ cell found)
  have notMember : cache.brk ∉ nodes := fun member => notNode _ member rfl
  have freshHolds : Holds fresh nodes entries := by
    refine holds.congr ?_ ⟨rfl, rfl⟩ ⟨rfl, rfl, rfl⟩ ?_
    · intro node member
      exact Function.update_of_ne (notNode node member) _ _
    · intro node other found
      by_cases equal : node = cache.brk
      · rw [equal]
        exact Nat.lt_succ_self _
      · have old : cache.heap node = some other := by
          rw [← found]
          exact (Function.update_of_ne equal _ _).symm
        exact Nat.lt_succ_of_lt (holds.allocated node other old)
  rcases hashInsert_spec freshHolds.chained found notMember with
    ⟨hashed, hashRun, chained, hashStep⟩
  have hashedContent : hashed.contentOf cache.brk = some cell.content := by
    rw [hashStep.contentOf, contentOf_eq found]
  rcases heap_of_contentOf hashedContent with ⟨hashedCell, hashedFound, -⟩
  rcases lruInsertHead_spec (hashStep.listed freshHolds.listed)
    (hashStep.live freshHolds.live) hashedFound notMember with
    ⟨linked, linkRun, listed, listStep⟩
  have contentSame : linked.contentOf = fresh.contentOf :=
    listStep.contentOf.trans hashStep.contentOf
  have newContents : (cache.brk :: nodes).map linked.contentOf =
      (cell.content :: entries).map some := by
    rw [contentSame, List.map_cons, contentOf_eq found, freshHolds.contents, List.map_cons]
  have newDistinct : LruEntry.Distinct (cell.content :: entries) :=
    List.nodup_cons.mpr ⟨missing, holds.distinct⟩
  have linkedHolds : Holds linked (cache.brk :: nodes) (cell.content :: entries) :=
    ⟨newContents, newDistinct, listed, listStep.chained chained,
      listStep.allocated (hashStep.allocated freshHolds.allocated)⟩
  refine ⟨hashed, linked, hashRun, linkRun, cache.brk :: nodes, cell.content :: entries,
    linkedHolds.congr (fun _ _ => rfl) ⟨rfl, rfl⟩ ⟨rfl, rfl, rfl⟩ linkedHolds.allocated, ?_⟩
  have linkedView : linked.view (cell.content :: entries) =
      fresh.view (cell.content :: entries) := (listStep.view _).trans (hashStep.view _)
  have entriesSame : linked.currentEntries = cache.currentEntries :=
    congrArg CacheList.currentEntries linkedView
  have memorySame : linked.currentMemory = cache.currentMemory :=
    congrArg CacheList.currentMemory linkedView
  have countedView : ({ linked with
      currentEntries := u64 (linked.currentEntries + 1)
      currentMemory := u64 (linked.currentMemory + memorySize) } : SqfsCache Value).view
        (cell.content :: entries) =
      { linked.view (cell.content :: entries) with
        currentEntries := u64 (linked.currentEntries + 1)
        currentMemory := u64 (linked.currentMemory + memorySize) } := rfl
  rw [countedView, linkedView, entriesSame, memorySame]
  rfl

theorem Represents.resize (represents : Represents cache list) :
    ∃ after, cacheResizeIfNeeded cache = some after ∧ Represents after list := by
  rcases represents with ⟨nodes, entries, holds, rfl⟩
  rcases cacheResizeIfNeeded_spec holds.listed holds.chained holds.live holds.allocated with
    ⟨after, run, rehashed, step⟩
  refine ⟨after, run, nodes, entries, ⟨?_, holds.distinct, step.listed holds.listed, rehashed,
    step.allocated holds.allocated⟩, step.view entries⟩
  rw [step.contentOf]
  exact holds.contents

theorem replace_spec (value : Value) (memorySize : Nat)
    (holds : Holds cache nodes (front ++ entry :: back)) :
    ∃ existing cell after, hashFind cache entry.key = some (some existing) ∧
      cache.heap existing = some cell ∧
      ((callFreeFn { cache with
          currentMemory := u64 (sub64 cache.currentMemory cell.memorySize + memorySize) }
          cell.value).modify existing (fun cell => { cell with value, memorySize }) >>=
        fun cache => lruMoveToHead cache existing) = some after ∧
      Represents after ((cache.view (front ++ entry :: back)).replace entry entry.key value
        memorySize) := by
  rcases hashFind_present holds with
    ⟨before, node, rest, cell, rfl, beforeContents, cellFound, cellContent, restContents,
      lookup⟩
  have cellValue : cell.value = entry.value := congrArg LruEntry.value cellContent
  have cellSize : cell.memorySize = entry.size := congrArg LruEntry.size cellContent
  let counted : SqfsCache Value := { cache with
    currentMemory := u64 (sub64 cache.currentMemory entry.size + memorySize) }
  let released : SqfsCache Value :=
    { counted with freed := counted.freedWith entry.value }
  have releasedHolds : Holds released (before ++ node :: rest) (front ++ entry :: back) :=
    holds.congr (fun _ _ => rfl) ⟨rfl, rfl⟩ ⟨rfl, rfl, rfl⟩ holds.allocated
  have releasedFound : released.heap node = some cell := cellFound
  rcases releasedHolds.replace value memorySize beforeContents
    releasedFound cellContent restContents with ⟨replaced, beforeSame, restSame⟩
  have newContent : (released.assign node { cell with value, memorySize }).contentOf node =
      some ⟨entry.key, value, memorySize⟩ := by
    rw [contentOf, assign_heap, Function.update_self, ← cellContent]
    rfl
  rcases lruMoveToHead_holds replaced beforeSame newContent restSame with
    ⟨after, run, moved, step⟩
  refine ⟨node, cell, after, lookup, cellFound, ?_, _, _, moved, ?_⟩
  · rw [cellSize, cellValue, callFreeFn_eq]
    change (released.modify node _ >>= _) = _
    rw [modify_eq releasedFound]
    exact run
  · have released := (release_view counted entry.value
      (⟨entry.key, value, memorySize⟩ :: (front ++ back))).symm
    have split := LruEntry.without_split holds.distinct
    simp only [CacheList.replace, view_entries, split]
    exact (step.view _).trans released

theorem Represents.full_iff (represents : Represents cache list) :
    cache.maxEntries ≤ cache.currentEntries ↔ list.maxEntries ≤ list.currentEntries := by
  rcases represents with ⟨nodes, entries, holds, rfl⟩
  exact Iff.rfl

theorem evictAndInsert_spec {key : Nat} (value : Value) (memorySize : Nat)
    (holds : Holds cache nodes entries) (missing : key ∉ entries.map LruEntry.key) :
    ∃ evicted, cacheEvict cache memorySize = some evicted ∧
      Represents evicted ((cache.view entries).evict memorySize) ∧
      ∃ hashed linked,
        hashInsert (cacheEntryNew evicted key value memorySize).1 evicted.brk = some hashed ∧
        lruInsertHead hashed evicted.brk = some linked ∧
        Represents { linked with
          currentEntries := u64 (linked.currentEntries + 1)
          currentMemory := u64 (linked.currentMemory + memorySize) }
          (((cache.view entries).evict memorySize).insert key value memorySize) := by
  rcases cacheEvict_spec memorySize ⟨nodes, entries, holds, rfl⟩ with
    ⟨evicted, run, evictedNodes, evictedEntries, evictedHolds, view⟩
  have stillMissing : key ∉ evictedEntries.map LruEntry.key := by
    have kept := evict_entries_subset memorySize (cache.view entries)
    rw [← view] at kept
    exact fun member => missing (List.map_subset _ kept member)
  rw [← view]
  exact ⟨evicted, run, ⟨evictedNodes, evictedEntries, evictedHolds, rfl⟩,
    insert_spec value memorySize evictedHolds stillMissing⟩

theorem sqfsCachePut_spec (key : Nat) (value : Value) (memorySize : Nat)
    (represents : Represents cache list) :
    ∃ after, sqfsCachePut cache key value memorySize =
        some (after, (list.put key value memorySize).2) ∧
      Represents after (list.put key value memorySize).1 := by
  rcases represents with ⟨nodes, entries, holds, rfl⟩
  rw [sqfsCachePut, CacheList.put, find_view]
  by_cases tooBig : cache.maxMemory < memorySize
  · rw [if_pos tooBig, if_pos (show (cache.view entries).maxMemory < memorySize from tooBig)]
    exact ⟨cache, rfl, nodes, entries, holds, rfl⟩
  · rw [if_neg tooBig,
      if_neg (show ¬ (cache.view entries).maxMemory < memorySize from tooBig)]
    cases found : entries.find? (·.key = key) with
    | some entry =>
        rcases (LruEntry.find_eq_some holds.distinct).mp found with ⟨rfl, front, back, rfl⟩
        rcases replace_spec value memorySize holds with
          ⟨existing, cell, after, lookup, cellFound, run, represents⟩
        rcases Option.bind_eq_some_iff.mp run with ⟨replaced, replaceRun, moveRun⟩
        refine ⟨after, ?_, represents⟩
        simp only [lookup, Option.bind_eq_bind, Option.bind_some, cellFound]
        rw [replaceRun, Option.bind_some, moveRun]
        rfl
    | none =>
        have missing := LruEntry.find_eq_none.mp found
        rcases evictAndInsert_spec value memorySize holds missing with
          ⟨evicted, evictRun, represents, hashed, linked, hashRun, linkRun, inserted⟩
        rw [hashFind_absent holds missing]
        simp only [Option.bind_eq_bind, Option.bind_some, evictRun]
        by_cases full : evicted.maxEntries ≤ evicted.currentEntries
        · rw [if_pos full, if_pos (represents.full_iff.mp full)]
          exact ⟨evicted, rfl, represents⟩
        · rw [if_neg full, if_neg (represents.full_iff.not.mp full)]
          rcases inserted.resize with ⟨after, resizeRun, resized⟩
          refine ⟨after, ?_, resized⟩
          have address : (cacheEntryNew evicted key value memorySize).2 = evicted.brk := rfl
          simp only [address, hashRun, Option.bind_some, linkRun, resizeRun]

theorem sqfsCacheRemove_spec (key : Nat) (represents : Represents cache list) :
    ∃ after, sqfsCacheRemove cache key = some after ∧ Represents after (list.remove key) := by
  rcases represents with ⟨nodes, entries, holds, rfl⟩
  rw [CacheList.remove, find_view]
  cases found : entries.find? (·.key = key) with
  | none =>
      refine ⟨cache, ?_, nodes, entries, holds, rfl⟩
      rw [sqfsCacheRemove, hashFind_absent holds (LruEntry.find_eq_none.mp found)]
      rfl
  | some entry =>
      rcases (LruEntry.find_eq_some holds.distinct).mp found with ⟨rfl, front, back, rfl⟩
      rcases hashFind_present holds with
        ⟨before, node, rest, cell, rfl, beforeContents, cellFound, cellContent, restContents,
          lookup⟩
      have content : cache.contentOf node = some entry := by
        rw [contentOf_eq cellFound, cellContent]
      rcases discard_spec holds beforeContents content restContents with
        ⟨after, run, removed, view⟩
      refine ⟨after, ?_, _, _, removed, ?_⟩
      · rw [sqfsCacheRemove, lookup]
        exact run
      · have split := LruEntry.without_split holds.distinct
        simp only [view_entries, split]
        exact view

/-! ## Emptying the cache -/

private theorem freeEntries_spec {start : Option Nat} {limit : Nat}
    (contents : nodes.map cache.contentOf = entries.map some) (nodup : nodes.Nodup)
    (follows : Follows cache.nextOf start nodes) (enough : nodes.length ≤ limit) :
    ∃ heap freed, freeEntries limit start cache = some { cache with heap, freed } ∧
      freed = (if cache.hasFreeFn then cache.freed ++ entries.map LruEntry.value
        else cache.freed) ∧
      ∀ node cell, heap node = some cell → cache.heap node = some cell := by
  induction nodes generalizing cache entries start limit with
  | nil =>
      obtain rfl : entries = [] := by simpa using contents.symm
      rw [show start = none from follows]
      refine ⟨cache.heap, cache.freed, by cases limit <;> rfl, ?_, fun _ _ found => found⟩
      simp
  | cons node rest induction =>
      cases entries with
      | nil => simp at contents
      | cons entry entries =>
          rw [List.map_cons, List.map_cons, List.cons.injEq] at contents
          rcases heap_of_contentOf contents.1 with ⟨cell, found, cellContent⟩
          have parts := List.nodup_cons.mp nodup
          have valueEqual : cell.value = entry.value := congrArg LruEntry.value cellContent
          rw [show start = some node from follows.1]
          cases limit with
          | zero => simp at enough
          | succ limit =>
              let shorter : SqfsCache Value := { cache with
                heap := Function.update cache.heap node none
                freed := cache.freedWith cell.value }
              have same : ∀ other, other ∈ rest → shorter.heap other = cache.heap other := by
                intro other member
                apply Function.update_of_ne
                rintro rfl
                exact parts.1 member
              have shorterContents : rest.map shorter.contentOf = entries.map some := by
                rw [← contents.2]
                refine List.map_congr_left fun other member => ?_
                rw [contentOf, contentOf, same other member]
              have shorterFollows : Follows shorter.nextOf cell.next rest := by
                rw [← nextOf_eq found]
                refine follows.2.congr fun other member => ?_
                rw [nextOf, nextOf, same other member]
              rcases induction shorterContents parts.2 shorterFollows
                (Nat.le_of_succ_le_succ enough) with
                ⟨heap, allFreed, run, released, subheap⟩
              refine ⟨heap, allFreed, ?_, ?_, ?_⟩
              · rw [freeEntries]
                simp only [found, Option.bind_eq_bind, Option.bind_some]
                rw [cacheEntryFree_eq found, Option.bind_some, run]
              · have before : shorter.freed =
                    if cache.hasFreeFn then cache.freed ++ [entry.value] else cache.freed := by
                  rw [← valueEqual]
                  rfl
                rw [released, before]
                by_cases given : cache.hasFreeFn
                · rw [if_pos given, if_pos given, if_pos (show shorter.hasFreeFn from given)]
                  simp
                · rw [if_neg given, if_neg given, if_neg (show ¬ shorter.hasFreeFn from given)]
              · intro other otherCell otherFound
                have kept := subheap other otherCell otherFound
                change Function.update cache.heap node none other = some otherCell at kept
                by_cases equal : other = node
                · rw [equal, Function.update_self] at kept
                  cases kept
                · rwa [Function.update_of_ne equal] at kept

theorem Holds.freeEntries (holds : Holds cache nodes entries) :
    ∃ heap freed, freeEntries cache.walkLimit cache.head cache = some { cache with heap, freed } ∧
      freed = (if cache.hasFreeFn then cache.freed ++ entries.map LruEntry.value
        else cache.freed) ∧
      ∀ node cell, heap node = some cell → cache.heap node = some cell := by
  have enough := Nat.le_succ_of_le
    (length_le_brk holds.allocated holds.live holds.listed.linked.nodup)
  have follows := holds.listed.linked.follows_next
  rw [← holds.listed.head] at follows
  exact freeEntries_spec holds.contents holds.listed.linked.nodup follows enough

theorem sqfsCacheClear_spec (represents : Represents cache list) :
    ∃ after, sqfsCacheClear cache = some after ∧ Represents after list.clear := by
  rcases represents with ⟨nodes, entries, holds, rfl⟩
  rcases holds.freeEntries with ⟨heap, freed, run, released, subheap⟩
  rcases holds.chained with ⟨mask, nonempty, head, array, -⟩
  refine ⟨{ cache with
      heap, freed
      buckets := some ⟨cache.bucketCount, fun _ => none⟩
      head := none
      tail := none
      currentEntries := 0
      currentMemory := 0 }, ?_, [], [], ⟨rfl, .nil, ⟨.nil _ _, rfl, rfl⟩,
        ⟨mask, nonempty, _, rfl, fun idx => ⟨[], rfl, .nil, by simp⟩⟩, ?_⟩, ?_⟩
  · rw [sqfsCacheClear, run]
    simp only [Option.bind_eq_bind, Option.bind_some, array]
  · exact fun node cell found => holds.allocated node cell (subheap node cell found)
  · rw [released, CacheList.clear, CacheList.releaseAll]
    by_cases given : cache.hasFreeFn
    · rw [if_pos given, if_pos (show (cache.view entries).hasFreeFn from given)]
      rfl
    · rw [if_neg given, if_neg (show ¬ (cache.view entries).hasFreeFn from given)]
      rfl

def newList (maxEntries maxMemory : Nat) (hasFreeFn : Bool) : CacheList Value where
  maxEntries := maxEntries
  currentEntries := 0
  maxMemory := maxMemory
  currentMemory := 0
  hasFreeFn := hasFreeFn
  hits := 0
  misses := 0
  entries := []
  freed := []

private theorem initialBucketCount_pos (maxEntries fuel : Nat) {count : Nat} (positive : 0 < count) :
    0 < initialBucketCount maxEntries fuel count := by
  induction fuel generalizing count with
  | zero => exact positive
  | succ fuel induction =>
      rw [initialBucketCount]
      split
      · exact induction (by omega)
      · exact positive

theorem sqfsCacheInit_spec {maxEntries : Nat} (maxMemory : Nat) (hasFreeFn : Bool)
    (positive : 0 < maxEntries) :
    ∃ cache : SqfsCache Value, sqfsCacheInit maxEntries maxMemory hasFreeFn = some cache ∧
      Represents cache (newList maxEntries maxMemory hasFreeFn) := by
  have count := @initialBucketCount_pos maxEntries 10 cacheInitialBuckets (by decide)
  refine ⟨_, if_neg (Nat.ne_of_gt positive), [], [], ⟨rfl, .nil, ⟨.nil _ _, rfl, rfl⟩,
    ⟨rfl, count, _, rfl, fun idx => ⟨[], rfl, .nil, by simp⟩⟩, ?_⟩, rfl⟩
  intro node cell found
  cases found

theorem represents_of_init {maxEntries maxMemory : Nat} {hasFreeFn : Bool}
    {cache : SqfsCache Value}
    (init : sqfsCacheInit maxEntries maxMemory hasFreeFn = some cache) :
    0 < maxEntries ∧ cache.Represents (newList maxEntries maxMemory hasFreeFn) := by
  have positive : 0 < maxEntries := by
    apply Nat.pos_of_ne_zero
    intro zero
    rw [sqfsCacheInit, if_pos zero] at init
    contradiction
  rcases @sqfsCacheInit_spec Value maxEntries maxMemory hasFreeFn positive with
    ⟨other, run, represents⟩
  rw [init] at run
  cases run
  exact ⟨positive, represents⟩

end SqfsCache

end SquashfsFuse
