import Mathlib.Data.List.Perm.Subperm
import SquashfsFuse.Core.Cache
import SquashfsFuse.Foundation.LruMap

/-! How the heap of a cache represents a list of entries, and what the list and
hash primitives do to it. -/

namespace SquashfsFuse

variable {Value : Type}

namespace CacheEntry

/-- What a cell keeps, without its links. -/
def content (cell : CacheEntry Value) : LruEntry Nat Value :=
  ⟨cell.key, cell.value, cell.memorySize⟩

def listPart (cell : CacheEntry Value) := (cell.content, cell.prev, cell.next)

def hashPart (cell : CacheEntry Value) := (cell.content, cell.hnext)

end CacheEntry

namespace SqfsCache

variable {cache middle after : SqfsCache Value} {nodes : List Nat} {entry : Nat}
  {cell : CacheEntry Value}

def prevOf (cache : SqfsCache Value) (entry : Nat) : Option Nat :=
  (cache.heap entry).bind CacheEntry.prev

def nextOf (cache : SqfsCache Value) (entry : Nat) : Option Nat :=
  (cache.heap entry).bind CacheEntry.next

def hnextOf (cache : SqfsCache Value) (entry : Nat) : Option Nat :=
  (cache.heap entry).bind CacheEntry.hnext

def contentOf (cache : SqfsCache Value) (entry : Nat) : Option (LruEntry Nat Value) :=
  (cache.heap entry).map CacheEntry.content

def keyOf (cache : SqfsCache Value) (entry : Nat) : Option Nat :=
  (cache.contentOf entry).map LruEntry.key

def indexOf (cache : SqfsCache Value) (entry : Nat) : Option Nat :=
  (cache.keyOf entry).map cache.bucketIndex

def Live (cache : SqfsCache Value) (nodes : List Nat) : Prop :=
  ∀ entry, entry ∈ nodes → ∃ cell, cache.heap entry = some cell

def Allocated (cache : SqfsCache Value) : Prop :=
  ∀ entry cell, cache.heap entry = some cell → entry < cache.brk

/-- `entry` is the only one of `nodes` with this key. -/
structure Unique (cache : SqfsCache Value) (nodes : List Nat) (key entry : Nat) : Prop where
  member : entry ∈ nodes
  keyed : cache.keyOf entry = some key
  only : ∀ other, other ∈ nodes → cache.keyOf other = some key → other = entry

/-- The recency list consists of `nodes`, the most recently used first. -/
structure Listed (cache : SqfsCache Value) (nodes : List Nat) : Prop where
  linked : Linked cache.prevOf cache.nextOf nodes
  head : cache.head = nodes.head?
  tail : cache.tail = nodes.getLast?

/-- The chains of the hash table hold exactly `nodes`, each in its bucket. -/
structure Chained (cache : SqfsCache Value) (nodes : List Nat) : Prop where
  mask : cache.bucketMask = cache.bucketCount - 1
  nonempty : 0 < cache.bucketCount
  chains : ∃ head, cache.buckets = some ⟨cache.bucketCount, head⟩ ∧
    ∀ idx, ∃ chain, Follows cache.hnextOf (head idx) chain ∧ chain.Nodup ∧
      ∀ entry, entry ∈ chain ↔ entry ∈ nodes ∧ cache.indexOf entry = some idx

theorem Chained.bucketIndex_lt (chained : Chained cache nodes) (key : Nat) :
    cache.bucketIndex key < cache.bucketCount := by
  have bound : cache.bucketIndex key ≤ cache.bucketMask := Nat.and_le_right
  have mask := chained.mask
  have nonempty := chained.nonempty
  omega

theorem prevOf_eq (found : cache.heap entry = some cell) : cache.prevOf entry = cell.prev := by
  rw [prevOf, found, Option.bind_some]

theorem nextOf_eq (found : cache.heap entry = some cell) : cache.nextOf entry = cell.next := by
  rw [nextOf, found, Option.bind_some]

theorem hnextOf_eq (found : cache.heap entry = some cell) :
    cache.hnextOf entry = cell.hnext := by
  rw [hnextOf, found, Option.bind_some]

theorem contentOf_eq (found : cache.heap entry = some cell) :
    cache.contentOf entry = some cell.content := by
  rw [contentOf, found, Option.map_some]

theorem keyOf_eq (found : cache.heap entry = some cell) : cache.keyOf entry = some cell.key := by
  rw [keyOf, contentOf_eq found, Option.map_some]
  rfl

theorem heap_of_contentOf {content : LruEntry Nat Value}
    (found : cache.contentOf entry = some content) :
    ∃ cell, cache.heap entry = some cell ∧ cell.content = content := by
  simpa [contentOf] using found

/-! ## Assignments to an entry -/

@[simp] theorem assign_heap (entry : Nat) (cell : CacheEntry Value) :
    (cache.assign entry cell).heap = Function.update cache.heap entry (some cell) := rfl

@[simp] theorem assign_head (entry : Nat) (cell : CacheEntry Value) :
    (cache.assign entry cell).head = cache.head := rfl

@[simp] theorem assign_tail (entry : Nat) (cell : CacheEntry Value) :
    (cache.assign entry cell).tail = cache.tail := rfl

theorem modify_eq (found : cache.heap entry = some cell)
    (change : CacheEntry Value → CacheEntry Value) :
    cache.modify entry change = some (cache.assign entry (change cell)) := by
  simp [modify, found]

theorem bind_update (heap : Nat → Option (CacheEntry Value)) (entry : Nat)
    (cell : CacheEntry Value) (field : CacheEntry Value → Option Nat) :
    (fun other => (Function.update heap entry (some cell) other).bind field) =
      Function.update (fun other => (heap other).bind field) entry (field cell) := by
  funext other
  by_cases equal : other = entry
  · subst equal
    simp
  · simp [Function.update_of_ne equal]

theorem assign_prevOf (entry : Nat) (cell : CacheEntry Value) :
    (cache.assign entry cell).prevOf = Function.update cache.prevOf entry cell.prev :=
  bind_update cache.heap entry cell CacheEntry.prev

theorem assign_nextOf (entry : Nat) (cell : CacheEntry Value) :
    (cache.assign entry cell).nextOf = Function.update cache.nextOf entry cell.next :=
  bind_update cache.heap entry cell CacheEntry.next

theorem assign_hnextOf (entry : Nat) (cell : CacheEntry Value) :
    (cache.assign entry cell).hnextOf = Function.update cache.hnextOf entry cell.hnext :=
  bind_update cache.heap entry cell CacheEntry.hnext

private theorem map_update_same {part : CacheEntry Value → β} {cell changed : CacheEntry Value}
    (found : cache.heap entry = some cell) (same : part changed = part cell) (other : Nat) :
    (Function.update cache.heap entry (some changed) other).map part =
      (cache.heap other).map part := by
  by_cases equal : other = entry
  · subst equal
    simp [found, same]
  · rw [Function.update_of_ne equal]

/-! ## Frames -/

/-- `after` differs from `before` in hash links and buckets only. -/
def HashStep (before after : SqfsCache Value) : Prop :=
  ∃ heap buckets, after = { before with heap, buckets } ∧
    ∀ entry, (heap entry).map CacheEntry.listPart =
      (before.heap entry).map CacheEntry.listPart

/-- `after` differs from `before` in recency links and the ends of the list only. -/
def ListStep (before after : SqfsCache Value) : Prop :=
  ∃ heap head tail, after = { before with heap, head, tail } ∧
    ∀ entry, (heap entry).map CacheEntry.hashPart =
      (before.heap entry).map CacheEntry.hashPart

theorem HashStep.refl (cache : SqfsCache Value) : HashStep cache cache :=
  ⟨cache.heap, cache.buckets, rfl, fun _ => rfl⟩

theorem ListStep.refl (cache : SqfsCache Value) : ListStep cache cache :=
  ⟨cache.heap, cache.head, cache.tail, rfl, fun _ => rfl⟩

theorem HashStep.trans (first : HashStep cache middle) (second : HashStep middle after) :
    HashStep cache after := by
  rcases first with ⟨heap, buckets, rfl, same⟩
  rcases second with ⟨heapAfter, bucketsAfter, rfl, sameAfter⟩
  exact ⟨heapAfter, bucketsAfter, rfl, fun entry => (sameAfter entry).trans (same entry)⟩

theorem ListStep.trans (first : ListStep cache middle) (second : ListStep middle after) :
    ListStep cache after := by
  rcases first with ⟨heap, head, tail, rfl, same⟩
  rcases second with ⟨heapAfter, headAfter, tailAfter, rfl, sameAfter⟩
  exact ⟨heapAfter, headAfter, tailAfter, rfl,
    fun entry => (sameAfter entry).trans (same entry)⟩

theorem HashStep.of_assign {changed : CacheEntry Value}
    (found : cache.heap entry = some cell) (same : changed.listPart = cell.listPart) :
    HashStep cache (cache.assign entry changed) :=
  ⟨_, cache.buckets, rfl, map_update_same found same⟩

theorem ListStep.of_assign {changed : CacheEntry Value}
    (found : cache.heap entry = some cell) (same : changed.hashPart = cell.hashPart) :
    ListStep cache (cache.assign entry changed) :=
  ⟨_, cache.head, cache.tail, rfl, map_update_same found same⟩

theorem ListStep.of_ends (head tail : Option Nat) :
    ListStep cache { cache with head, tail } :=
  ⟨cache.heap, head, tail, rfl, fun _ => rfl⟩

theorem bind_of_map_eq {left right : Option α} {part : α → β}
    (same : left.map part = right.map part) (field : β → Option γ) :
    left.bind (fun cell => field (part cell)) =
      right.bind (fun cell => field (part cell)) := by
  have joined := congrArg (Option.bind · field) same
  simpa only [Option.bind_map, Function.comp_def] using joined

theorem HashStep.contentOf (step : HashStep cache after) :
    after.contentOf = cache.contentOf := by
  rcases step with ⟨heap, buckets, rfl, same⟩
  funext entry
  rw [SqfsCache.contentOf, SqfsCache.contentOf, Option.map_eq_bind, Option.map_eq_bind]
  exact bind_of_map_eq (same entry) fun part => some part.1

theorem HashStep.prevOf (step : HashStep cache after) : after.prevOf = cache.prevOf := by
  rcases step with ⟨heap, buckets, rfl, same⟩
  funext entry
  exact bind_of_map_eq (same entry) fun part => part.2.1

theorem HashStep.nextOf (step : HashStep cache after) : after.nextOf = cache.nextOf := by
  rcases step with ⟨heap, buckets, rfl, same⟩
  funext entry
  exact bind_of_map_eq (same entry) fun part => part.2.2

theorem ListStep.contentOf (step : ListStep cache after) :
    after.contentOf = cache.contentOf := by
  rcases step with ⟨heap, head, tail, rfl, same⟩
  funext entry
  rw [SqfsCache.contentOf, SqfsCache.contentOf, Option.map_eq_bind, Option.map_eq_bind]
  exact bind_of_map_eq (same entry) fun part => some part.1

theorem ListStep.hnextOf (step : ListStep cache after) : after.hnextOf = cache.hnextOf := by
  rcases step with ⟨heap, head, tail, rfl, same⟩
  funext entry
  exact bind_of_map_eq (same entry) fun part => part.2

theorem HashStep.listed (step : HashStep cache after) (listed : Listed cache nodes) :
    Listed after nodes := by
  have prevSame := step.prevOf
  have nextSame := step.nextOf
  rcases step with ⟨heap, buckets, rfl, same⟩
  refine ⟨?_, listed.head, listed.tail⟩
  rw [prevSame, nextSame]
  exact listed.linked

theorem ListStep.chained (step : ListStep cache after) (chained : Chained cache nodes) :
    Chained after nodes := by
  have contentSame := step.contentOf
  have hnextSame := step.hnextOf
  rcases step with ⟨heap, head, tail, rfl, same⟩
  rcases chained with ⟨mask, nonempty, heads, array, chains⟩
  refine ⟨mask, nonempty, heads, array, fun idx => ?_⟩
  rcases chains idx with ⟨chain, follows, nodup, members⟩
  refine ⟨chain, by rwa [hnextSame], nodup, fun entry => ?_⟩
  rw [members entry, indexOf, indexOf, keyOf, keyOf, contentSame]
  rfl

theorem Live.of_contentOf (live : Live cache nodes) (same : after.contentOf = cache.contentOf) :
    Live after nodes := by
  intro entry member
  rcases live entry member with ⟨cell, found⟩
  have content := contentOf_eq found
  rw [← same] at content
  rcases heap_of_contentOf content with ⟨changed, foundAfter, -⟩
  exact ⟨changed, foundAfter⟩

theorem Allocated.of_contentOf (allocated : Allocated cache)
    (same : after.contentOf = cache.contentOf) (brk : after.brk = cache.brk) :
    Allocated after := by
  intro entry cell found
  have content := contentOf_eq found
  rw [same] at content
  rcases heap_of_contentOf content with ⟨original, foundBefore, -⟩
  rw [brk]
  exact allocated entry original foundBefore

theorem HashStep.live (step : HashStep cache after) (live : Live cache nodes) :
    Live after nodes :=
  live.of_contentOf step.contentOf

theorem ListStep.live (step : ListStep cache after) (live : Live cache nodes) :
    Live after nodes :=
  live.of_contentOf step.contentOf

theorem HashStep.allocated (step : HashStep cache after) (allocated : Allocated cache) :
    Allocated after := by
  have contents := step.contentOf
  rcases step with ⟨heap, buckets, rfl, same⟩
  exact allocated.of_contentOf contents rfl

theorem ListStep.allocated (step : ListStep cache after) (allocated : Allocated cache) :
    Allocated after := by
  have contents := step.contentOf
  rcases step with ⟨heap, head, tail, rfl, same⟩
  exact allocated.of_contentOf contents rfl

/-! ## The recency list primitives -/

theorem Listed.of_fields {prev next : Nat → Option Nat} (linked : Linked prev next nodes)
    (prevEqual : after.prevOf = prev) (nextEqual : after.nextOf = next)
    (head : after.head = nodes.head?) (tail : after.tail = nodes.getLast?) :
    Listed after nodes :=
  ⟨by rw [prevEqual, nextEqual]; exact linked, head, tail⟩

private theorem relinkNext_spec (cache : SqfsCache Value) (target value : Option Nat)
    (live : Live cache target.toList) :
    ∃ after, relinkNext cache target value = some after ∧
      ListStep cache after ∧ after.prevOf = cache.prevOf ∧
      after.nextOf = setLink cache.nextOf target value ∧
      after.head = (if target = none then value else cache.head) ∧
      after.tail = cache.tail := by
  cases target with
  | none => exact ⟨_, rfl, .of_ends _ _, rfl, rfl, rfl, rfl⟩
  | some node =>
      rcases live node (by simp) with ⟨cell, found⟩
      have unchanged := prevOf_eq found
      refine ⟨_, modify_eq found _, .of_assign found rfl, ?_, assign_nextOf _ _, rfl, rfl⟩
      rw [assign_prevOf, ← unchanged, Function.update_eq_self]

private theorem relinkPrev_spec (cache : SqfsCache Value) (target value : Option Nat)
    (live : Live cache target.toList) :
    ∃ after, relinkPrev cache target value = some after ∧
      ListStep cache after ∧ after.nextOf = cache.nextOf ∧
      after.prevOf = setLink cache.prevOf target value ∧
      after.tail = (if target = none then value else cache.tail) ∧
      after.head = cache.head := by
  cases target with
  | none => exact ⟨_, rfl, .of_ends _ _, rfl, rfl, rfl, rfl⟩
  | some node =>
      rcases live node (by simp) with ⟨cell, found⟩
      have unchanged := nextOf_eq found
      refine ⟨_, modify_eq found _, .of_assign found rfl, ?_, assign_prevOf _ _, rfl, rfl⟩
      rw [assign_nextOf, ← unchanged, Function.update_eq_self]

theorem lruInsertHead_spec (listed : Listed cache nodes) (live : Live cache nodes)
    (found : cache.heap entry = some cell) (fresh : entry ∉ nodes) :
    ∃ after, lruInsertHead cache entry = some after ∧ Listed after (entry :: nodes) ∧
      ListStep cache after := by
  have inserted := listed.linked.insertHead fresh
  rw [← listed.head] at inserted
  let first := cache.assign entry { cell with prev := none, next := cache.head }
  have firstStep : ListStep cache first := .of_assign found rfl
  rcases relinkPrev_spec first first.head (some entry) (by
      intro node member
      rw [Option.mem_toList, assign_head, listed.head] at member
      exact firstStep.live live node (List.mem_of_mem_head? member)) with
    ⟨second, secondRun, secondStep, secondNext, secondPrev, secondTail, -⟩
  refine ⟨{ second with head := some entry }, ?_, .of_fields inserted ?_ ?_ rfl ?_,
    (firstStep.trans secondStep).trans (.of_ends _ _)⟩
  · rw [lruInsertHead, modify_eq found]
    simp only [Option.bind_eq_bind, Option.bind_some]
    rw [secondRun]
    rfl
  · refine Eq.trans secondPrev ?_
    rw [assign_prevOf]
    rfl
  · exact secondNext.trans (assign_nextOf _ _)
  · refine Eq.trans secondTail ?_
    rw [assign_head, assign_tail, listed.head, listed.tail]
    cases nodes with
    | nil => rfl
    | cons front rest => simp

theorem lruRemove_spec {before rest : List Nat}
    (listed : Listed cache (before ++ entry :: rest))
    (live : Live cache (before ++ entry :: rest)) :
    ∃ after, lruRemove cache entry = some after ∧ Listed after (before ++ rest) ∧
      ListStep cache after := by
  rcases live entry (by simp) with ⟨cell, found⟩
  have links := listed.linked.links before entry rest rfl
  rw [prevOf_eq found, nextOf_eq found] at links
  rcases links with ⟨prevEqual, nextEqual⟩
  have removed := listed.linked.remove
  have neighbourLive : ∀ node, node ∈ before ∨ node ∈ rest →
      ∃ cell, cache.heap node = some cell := by
    intro node member
    apply live node
    exact List.perm_middle.mem_iff.mpr (List.mem_cons_of_mem entry (List.mem_append.mpr member))
  rcases relinkNext_spec cache cell.prev cell.next (by
      intro node member
      rw [prevEqual, Option.mem_toList] at member
      exact neighbourLive node (.inl (List.mem_of_getLast? member))) with
    ⟨first, firstRun, firstStep, firstPrev, firstNext, firstHead, firstTail⟩
  rcases relinkPrev_spec first cell.next cell.prev (by
      apply firstStep.live
      intro node member
      rw [nextEqual, Option.mem_toList] at member
      exact neighbourLive node (.inr (List.mem_of_mem_head? member))) with
    ⟨second, secondRun, secondStep, secondNext, secondPrev, secondTail, secondHead⟩
  rcases (firstStep.trans secondStep).live live entry (by simp) with ⟨last, lastFound⟩
  refine ⟨second.assign entry { last with prev := none, next := none }, ?_, ⟨?_, ?_, ?_⟩,
    (firstStep.trans secondStep).trans (.of_assign lastFound rfl)⟩
  · simp only [lruRemove, found, Option.bind_eq_bind, Option.bind_some, firstRun, secondRun]
    exact modify_eq lastFound _
  · have notKept : ∀ node, node ∈ before ++ rest → node ≠ entry := by
      intro node member equal
      have nodup := listed.linked.nodup
      rw [equal] at member
      simp only [List.nodup_append, List.nodup_cons] at nodup
      rcases List.mem_append.mp member with inBefore | inRest
      · exact nodup.2.2 entry inBefore entry List.mem_cons_self rfl
      · exact nodup.2.1.1 inRest
    rw [← prevEqual, ← nextEqual] at removed
    refine removed.congr ?_ ?_
    · intro node member
      rw [assign_prevOf, Function.update_of_ne (notKept node member), secondPrev, firstPrev]
    · intro node member
      rw [assign_nextOf, Function.update_of_ne (notKept node member), secondNext, firstNext]
  · rw [assign_head, secondHead, firstHead, prevEqual, nextEqual, listed.head]
    cases before with
    | nil => rfl
    | cons front before => simp
  · rw [assign_tail, secondTail, firstTail, prevEqual, nextEqual, listed.tail]
    cases rest with
    | nil => simp
    | cons next rest => simp

theorem lruMoveToHead_spec {before rest : List Nat}
    (listed : Listed cache (before ++ entry :: rest))
    (live : Live cache (before ++ entry :: rest)) :
    ∃ after, lruMoveToHead cache entry = some after ∧
      Listed after (entry :: (before ++ rest)) ∧ ListStep cache after := by
  rw [lruMoveToHead]
  split
  · next atHead =>
      cases before with
      | nil => exact ⟨cache, rfl, listed, .refl cache⟩
      | cons front before =>
          -- The head of the list is `front`, and an entry occurs only once.
          rw [listed.head] at atHead
          cases atHead
          have nodup := listed.linked.nodup
          simp at nodup
  · rcases lruRemove_spec listed live with ⟨middle, run, middleListed, removeStep⟩
    have nodup := listed.linked.nodup
    have apart := List.nodup_middle.mp nodup
    rcases removeStep.live live entry (by simp) with ⟨cell, found⟩
    have middleLive : Live middle (before ++ rest) := fun node member =>
      removeStep.live live node
        (List.perm_middle.mem_iff.mpr (List.mem_cons_of_mem entry member))
    rcases lruInsertHead_spec middleListed middleLive found (List.nodup_cons.mp apart).1 with
      ⟨after, insertRun, afterListed, insertStep⟩
    refine ⟨after, ?_, afterListed, removeStep.trans insertStep⟩
    rw [run]
    exact insertRun

/-! ## The hash table primitives -/

theorem length_le_brk (allocated : Allocated cache) (live : Live cache nodes)
    (nodup : nodes.Nodup) : nodes.length ≤ cache.brk := by
  have inRange : nodes ⊆ List.range cache.brk := by
    intro entry member
    rcases live entry member with ⟨cell, found⟩
    exact List.mem_range.mpr (allocated entry cell found)
  simpa using (List.Nodup.subperm nodup inRange).length_le

private theorem findInChain_spec {chain : List Nat} {start : Option Nat} {limit : Nat} (key : Nat)
    (follows : Follows cache.hnextOf start chain) (live : Live cache chain)
    (enough : chain.length ≤ limit) :
    findInChain cache.heap key limit start =
      some (chain.find? fun entry => cache.keyOf entry = some key) := by
  induction chain generalizing start limit with
  | nil =>
      rw [show start = none from follows]
      cases limit <;> rfl
  | cons entry rest induction =>
      rcases live entry List.mem_cons_self with ⟨cell, found⟩
      rw [follows.1]
      cases limit with
      | zero => simp at enough
      | succ limit =>
          have tail := follows.2
          rw [hnextOf_eq found] at tail
          have searched := induction tail
            (fun other member => live other (List.mem_cons_of_mem entry member))
            (Nat.le_of_succ_le_succ enough)
          rw [findInChain]
          simp only [found, Option.bind_eq_bind, Option.bind_some]
          rw [searched, List.find?_cons, keyOf_eq found]
          by_cases equal : cell.key = key <;> simp [equal]

theorem bucket_eq {buckets : Buckets} {idx : Nat} (array : cache.buckets = some buckets)
    (inRange : idx < buckets.count) : cache.bucket idx = some (buckets.head idx) := by
  simp [bucket, array, inRange]

private theorem setBucket_eq {buckets : Buckets} {idx : Nat} (array : cache.buckets = some buckets)
    (inRange : idx < buckets.count) (entry : Option Nat) :
    cache.setBucket idx entry = some { cache with
      buckets := some ⟨buckets.count, Function.update buckets.head idx entry⟩ } := by
  simp [setBucket, array, inRange]

private theorem hashFind_eq (key : Nat) (chained : Chained cache nodes) (live : Live cache nodes)
    (allocated : Allocated cache) :
    ∃ chain : List Nat, hashFind cache key =
        some (chain.find? fun entry => cache.keyOf entry = some key) ∧
      ∀ entry, entry ∈ chain ↔
        entry ∈ nodes ∧ cache.indexOf entry = some (cache.bucketIndex key) := by
  have inRange := chained.bucketIndex_lt key
  rcases chained.chains with ⟨head, array, chains⟩
  rcases chains (cache.bucketIndex key) with ⟨chain, follows, nodup, members⟩
  refine ⟨chain, ?_, members⟩
  have chainLive : Live cache chain := fun other member =>
    live other ((members other).mp member).1
  have enough : chain.length ≤ cache.walkLimit :=
    Nat.le_succ_of_le (length_le_brk allocated chainLive nodup)
  rw [hashFind, bucket_eq array inRange]
  exact findInChain_spec key follows chainLive enough

theorem hashFind_hit {key : Nat} (chained : Chained cache nodes) (live : Live cache nodes)
    (allocated : Allocated cache) (unique : Unique cache nodes key entry) :
    hashFind cache key = some (some entry) := by
  rcases hashFind_eq key chained live allocated with ⟨chain, lookup, members⟩
  have inChain : entry ∈ chain :=
    (members entry).mpr ⟨unique.member, by rw [indexOf, unique.keyed, Option.map_some]⟩
  rw [lookup]
  cases found : chain.find? fun entry => cache.keyOf entry = some key with
  | none =>
      have different := List.find?_eq_none.mp found entry inChain
      simp [unique.keyed] at different
  | some other =>
      have keyed := List.find?_some found
      have member := (members other).mp (List.mem_of_find?_eq_some found)
      rw [unique.only other member.1 (by simpa using keyed)]

theorem hashFind_miss {key : Nat} (chained : Chained cache nodes) (live : Live cache nodes)
    (allocated : Allocated cache)
    (absent : ∀ entry, entry ∈ nodes → cache.keyOf entry ≠ some key) :
    hashFind cache key = some none := by
  rcases hashFind_eq key chained live allocated with ⟨chain, lookup, members⟩
  rw [lookup, List.find?_eq_none.mpr]
  intro entry member
  simpa using absent entry ((members entry).mp member).1

theorem hashInsert_spec (chained : Chained cache nodes)
    (found : cache.heap entry = some cell) (fresh : entry ∉ nodes) :
    ∃ after, hashInsert cache entry = some after ∧ Chained after (entry :: nodes) ∧
      HashStep cache after := by
  have inRange := chained.bucketIndex_lt cell.key
  rcases chained.chains with ⟨head, array, chains⟩
  let idx := cache.bucketIndex cell.key
  let linked := cache.assign entry { cell with hnext := head idx }
  have linkStep : HashStep cache linked := .of_assign found rfl
  let after : SqfsCache Value := { linked with
    buckets := some ⟨cache.bucketCount, Function.update head idx (some entry)⟩ }
  have step : HashStep cache after :=
    linkStep.trans ⟨linked.heap, after.buckets, rfl, fun _ => rfl⟩
  have sameIndex : ∀ other, after.indexOf other = cache.indexOf other := by
    intro other
    rw [indexOf, keyOf, step.contentOf]
    rfl
  have links : after.hnextOf = Function.update cache.hnextOf entry (head idx) :=
    assign_hnextOf entry _
  refine ⟨after, ?_, ⟨chained.mask, chained.nonempty, _, rfl, fun other => ?_⟩, step⟩
  · rw [hashInsert]
    simp only [found, Option.bind_eq_bind, Option.bind_some]
    rw [bucket_eq array inRange]
    simp only [Option.bind_some]
    rw [modify_eq found, Option.bind_some]
    exact @setBucket_eq _ linked _ _ array inRange (some entry)
  · rcases chains other with ⟨chain, follows, nodup, members⟩
    have notInChain : entry ∉ chain := fun member => fresh ((members entry).mp member).1
    rw [links]
    by_cases equal : other = idx
    · subst equal
      refine ⟨entry :: chain, ?_, List.nodup_cons.mpr ⟨notInChain, nodup⟩, fun node => ?_⟩
      · rw [Function.update_self]
        exact follows.push notInChain
      · rw [sameIndex, List.mem_cons, List.mem_cons, members node]
        have entryIndex : cache.indexOf entry = some idx := by
          rw [indexOf, keyOf_eq found, Option.map_some]
        by_cases same : node = entry
        · simp [same, entryIndex]
        · simp [same]
    · refine ⟨chain, ?_, nodup, fun node => ?_⟩
      · rw [Function.update_of_ne equal]
        apply follows.congr
        intro node member
        apply Function.update_of_ne
        intro same
        rw [same] at member
        exact notInChain member
      · rw [sameIndex, List.mem_cons, members node]
        have entryIndex : cache.indexOf entry ≠ some other := by
          rw [indexOf, keyOf_eq found, Option.map_some]
          simpa using fun same => equal same.symm
        by_cases same : node = entry
        · simp [same, entryIndex]
        · simp [same]

/-- Up to the entry it removes, the loop of `hash_remove` only advances. -/
theorem removeFromChain_skip {before rest : List Nat} {key idx : Nat} {limit : Nat}
    {prev start : Option Nat} (follows : Follows cache.hnextOf start (before ++ entry :: rest))
    (live : Live cache (before ++ entry :: rest))
    (others : ∀ other, other ∈ before → cache.keyOf other ≠ some key) :
    removeFromChain cache key idx (before.length + limit) prev start =
      removeFromChain cache key idx limit (before.getLast?.or prev) (some entry) := by
  induction before generalizing start prev with
  | nil =>
      rw [show start = some entry from follows.1]
      simp
  | cons front before induction =>
      rcases live front (by simp) with ⟨cell, found⟩
      have tail : Follows cache.hnextOf cell.hnext (before ++ entry :: rest) := by
        rw [← hnextOf_eq found]
        exact follows.2
      have different : cell.key ≠ key := fun equal =>
        others front List.mem_cons_self (by rw [keyOf_eq found, equal])
      rw [show start = some front from follows.1, List.length_cons, Nat.succ_add,
        removeFromChain]
      simp only [found, Option.bind_eq_bind, Option.bind_some, if_neg different]
      rw [induction tail (fun node member => live node (List.mem_cons_of_mem front member))
        fun node member => others node (List.mem_cons_of_mem front member)]
      cases before with
      | nil => rfl
      | cons next before => rw [List.getLast?_cons_cons, List.getLast?_cons]; rfl

private theorem relinkChain_spec {head : Nat → Option Nat} {idx : Nat} (prev value : Option Nat)
    (array : cache.buckets = some ⟨cache.bucketCount, head⟩) (inRange : idx < cache.bucketCount)
    (live : Live cache prev.toList) :
    ∃ after, relinkChain cache idx prev value = some after ∧ HashStep cache after ∧
      after.hnextOf = setLink cache.hnextOf prev value ∧
      after.buckets = some ⟨cache.bucketCount,
        if prev = none then Function.update head idx value else head⟩ := by
  cases prev with
  | none =>
      exact ⟨_, setBucket_eq array inRange value, ⟨cache.heap, _, rfl, fun _ => rfl⟩, rfl, rfl⟩
  | some node =>
      rcases live node (by simp) with ⟨cell, found⟩
      exact ⟨_, modify_eq found _, .of_assign found rfl, assign_hnextOf _ _, array⟩

theorem HashStep.indexOf (step : HashStep cache after) : after.indexOf = cache.indexOf := by
  have content := step.contentOf
  rcases step with ⟨heap, buckets, rfl, same⟩
  funext entry
  rw [SqfsCache.indexOf, SqfsCache.indexOf, keyOf, keyOf, content]
  rfl

/-- The loop of `hash_remove` unlinks the entry from its chain and leaves every
other chain alone. -/
theorem removeFromChain_spec {head : Nat → Option Nat} {idx key : Nat} (limit : Nat)
    {front back : List Nat} (array : cache.buckets = some ⟨cache.bucketCount, head⟩)
    (inRange : idx < cache.bucketCount)
    (follows : Follows cache.hnextOf (head idx) (front ++ entry :: back))
    (live : Live cache (front ++ entry :: back)) (nodup : (front ++ entry :: back).Nodup)
    (keyed : cache.keyOf entry = some key)
    (others : ∀ other, other ∈ front → cache.keyOf other ≠ some key) :
    ∃ after newHead,
      removeFromChain cache key idx (front.length + (limit + 1)) none (head idx) = some after ∧
      HashStep cache after ∧ after.buckets = some ⟨after.bucketCount, newHead⟩ ∧
      Follows after.hnextOf (newHead idx) (front ++ back) ∧
      (∀ other, other ≠ idx → newHead other = head other) ∧
      ∀ node, node ∉ front ++ entry :: back → after.hnextOf node = cache.hnextOf node := by
  rcases live entry (by simp) with ⟨cell, found⟩
  rcases relinkChain_spec front.getLast? cell.hnext array inRange (by
      intro node member
      rw [Option.mem_toList] at member
      exact live node (by simp [List.mem_of_getLast? member])) with
    ⟨middle, run, relinkStep, middleLinks, middleBuckets⟩
  rcases relinkStep.live live entry (by simp) with ⟨last, lastFound⟩
  have links : ∀ node, node ≠ entry →
      (middle.assign entry { last with hnext := none }).hnextOf node =
        setLink cache.hnextOf front.getLast? (cache.hnextOf entry) node := by
    intro node different
    rw [assign_hnextOf, Function.update_of_ne different, middleLinks, hnextOf_eq found]
  refine ⟨middle.assign entry { last with hnext := none },
    if front.getLast? = none then Function.update head idx cell.hnext else head, ?_,
    relinkStep.trans (.of_assign lastFound rfl), ?_, ?_, ?_, ?_⟩
  · rw [removeFromChain_skip follows live others, removeFromChain]
    have matched : cell.key = key := by simpa [keyOf_eq found] using keyed
    simp only [found, Option.bind_eq_bind, Option.bind_some, if_pos matched, Option.or_none]
    rw [run]
    exact modify_eq lastFound _
  · refine Eq.trans middleBuckets ?_
    rcases relinkStep with ⟨heap, buckets, rfl, same⟩
    rfl
  · have removed := follows.remove nodup
    have apart := List.nodup_cons.mp (List.nodup_middle.mp nodup)
    have start : (if front.getLast? = none then Function.update head idx cell.hnext else head)
        idx = if front = [] then cache.hnextOf entry else head idx := by
      rw [hnextOf_eq found]
      cases front with
      | nil => simp
      | cons first front => simp
    rw [start]
    apply removed.congr
    intro node member
    apply links
    intro equal
    rw [equal] at member
    exact apart.1 member
  · intro other different
    split
    · exact Function.update_of_ne different _ _
    · rfl
  · intro node outside
    have notEntry : node ≠ entry := fun equal => outside (by simp [equal])
    rw [links node notEntry]
    apply setLink_other
    intro equal
    exact outside (by simp [List.mem_of_getLast? equal])

theorem hashRemove_spec {before rest : List Nat} {key : Nat}
    (chained : Chained cache (before ++ entry :: rest))
    (live : Live cache (before ++ entry :: rest)) (allocated : Allocated cache)
    (distinct : (before ++ entry :: rest).Nodup)
    (unique : Unique cache (before ++ entry :: rest) key entry) :
    ∃ after, hashRemove cache key = some after ∧ Chained after (before ++ rest) ∧
      HashStep cache after := by
  have inRange := chained.bucketIndex_lt key
  rcases chained.chains with ⟨head, array, chains⟩
  rcases chains (cache.bucketIndex key) with ⟨chain, follows, nodup, members⟩
  have entryIndex : cache.indexOf entry = some (cache.bucketIndex key) := by
    rw [indexOf, unique.keyed, Option.map_some]
  have inChain : entry ∈ chain := (members entry).mpr ⟨unique.member, entryIndex⟩
  have chainLive : Live cache chain := fun other member =>
    live other ((members other).mp member).1
  have length := length_le_brk allocated chainLive nodup
  rcases List.append_of_mem inChain with ⟨front, back, rfl⟩
  have apart := List.nodup_cons.mp (List.nodup_middle.mp nodup)
  have others : ∀ other, other ∈ front → cache.keyOf other ≠ some key := by
    intro other member keyed
    have inNodes := ((members other).mp (by simp [member])).1
    rw [unique.only other inNodes keyed] at member
    exact apart.1 (by simp [member])
  obtain ⟨limit, enough⟩ : ∃ limit, cache.walkLimit = front.length + (limit + 1) := by
    simp only [List.length_append, List.length_cons] at length
    exact ⟨cache.brk - front.length, by rw [walkLimit]; omega⟩
  rcases removeFromChain_spec limit array inRange follows chainLive nodup
      unique.keyed others with
    ⟨after, newHead, run, step, newArray, newFollows, sameHeads, sameLinks⟩
  have sameIndex := step.indexOf
  have scalars : after.bucketMask = cache.bucketMask ∧ after.bucketCount = cache.bucketCount := by
    rcases step with ⟨heap, buckets, rfl, same⟩
    exact ⟨rfl, rfl⟩
  refine ⟨after, ?_, ⟨by rw [scalars.1, scalars.2]; exact chained.mask,
    by rw [scalars.2]; exact chained.nonempty, newHead, newArray, fun other => ?_⟩, step⟩
  · rw [hashRemove, bucket_eq array inRange]
    simp only [Option.bind_eq_bind, Option.bind_some, enough]
    exact run
  · by_cases equal : other = cache.bucketIndex key
    · subst equal
      refine ⟨front ++ back, newFollows, (List.nodup_cons.mp (List.nodup_middle.mp nodup)).2,
        fun node => ?_⟩
      rw [mem_unlinked_iff nodup, members node, mem_unlinked_iff distinct, sameIndex]
      exact and_right_comm
    · rcases chains other with ⟨chain, chainFollows, chainNodup, chainMembers⟩
      have outside : ∀ node, node ∈ chain → node ∉ front ++ entry :: back := by
        intro node member inChain
        have index := ((chainMembers node).mp member).2
        rw [((members node).mp inChain).2] at index
        exact equal (Option.some.inj index).symm
      refine ⟨chain, ?_, chainNodup, fun node => ?_⟩
      · rw [sameHeads other equal]
        exact chainFollows.congr fun node member => sameLinks node (outside node member)
      · rw [chainMembers node, mem_unlinked_iff distinct, sameIndex]
        constructor
        · rintro ⟨member, index⟩
          refine ⟨⟨member, ?_⟩, index⟩
          rintro rfl
          rw [entryIndex] at index
          exact equal (Option.some.inj index).symm
        · rintro ⟨⟨member, -⟩, index⟩
          exact ⟨member, index⟩

/-! ## Resizing -/

theorem Chained.congr {other : List Nat} (chained : Chained cache nodes)
    (same : ∀ entry, entry ∈ other ↔ entry ∈ nodes) : Chained cache other := by
  rcases chained with ⟨mask, nonempty, head, array, chains⟩
  refine ⟨mask, nonempty, head, array, fun idx => ?_⟩
  rcases chains idx with ⟨chain, follows, nodup, members⟩
  exact ⟨chain, follows, nodup, fun entry => by rw [members entry, same entry]⟩

/-- The rehash loop threads the entries of the recency list into the chains. -/
theorem rehash_spec {done : List Nat} {start : Option Nat} {limit : Nat}
    (follows : Follows cache.nextOf start nodes) (live : Live cache nodes)
    (nodup : (nodes ++ done).Nodup) (chained : Chained cache done)
    (enough : nodes.length ≤ limit) :
    ∃ after, rehash limit start cache = some after ∧ Chained after (nodes ++ done) ∧
      HashStep cache after := by
  induction nodes generalizing cache done start limit with
  | nil =>
      rw [show start = none from follows]
      exact ⟨cache, by cases limit <;> rfl, chained, .refl cache⟩
  | cons entry rest induction =>
      rcases live entry List.mem_cons_self with ⟨cell, found⟩
      rw [show start = some entry from follows.1]
      have parts := List.nodup_cons.mp nodup
      have fresh : entry ∉ done := fun member => parts.1 (by simp [member])
      rcases hashInsert_spec chained found fresh with ⟨middle, insertRun, inserted, step⟩
      cases limit with
      | zero => simp at enough
      | succ limit =>
          have tail : Follows middle.nextOf cell.next rest := by
            rw [step.nextOf, ← nextOf_eq found]
            exact follows.2
          have restLive : Live middle rest := step.live fun node member =>
            live node (List.mem_cons_of_mem entry member)
          rcases induction tail restLive (List.nodup_middle.mpr nodup) inserted
              (Nat.le_of_succ_le_succ enough) with ⟨after, run, rehashed, restStep⟩
          refine ⟨after, ?_, rehashed.congr fun node => ?_, step.trans restStep⟩
          · rw [rehash]
            simp only [found, Option.bind_eq_bind, Option.bind_some, insertRun]
            exact run
          · exact List.perm_middle.mem_iff.symm

/-- `after` differs from `before` in hash links and the whole hash table only. -/
def TableStep (before after : SqfsCache Value) : Prop :=
  ∃ heap buckets bucketCount bucketMask,
    after = { before with heap, buckets, bucketCount, bucketMask } ∧
    ∀ entry, (heap entry).map CacheEntry.listPart =
      (before.heap entry).map CacheEntry.listPart

theorem TableStep.hashStep (step : TableStep cache after) :
    ∃ resized : SqfsCache Value, HashStep resized after ∧ resized.heap = cache.heap ∧
      resized.head = cache.head ∧ resized.tail = cache.tail ∧ resized.brk = cache.brk := by
  rcases step with ⟨heap, buckets, bucketCount, bucketMask, rfl, same⟩
  exact ⟨{ cache with bucketCount, bucketMask }, ⟨heap, buckets, rfl, same⟩,
    rfl, rfl, rfl, rfl⟩

theorem TableStep.contentOf (step : TableStep cache after) :
    after.contentOf = cache.contentOf := by
  rcases step.hashStep with ⟨resized, hashStep, heap, -⟩
  rw [hashStep.contentOf]
  funext entry
  rw [SqfsCache.contentOf, SqfsCache.contentOf, heap]

theorem TableStep.listed (step : TableStep cache after) (listed : Listed cache nodes) :
    Listed after nodes := by
  rcases step.hashStep with ⟨resized, hashStep, heap, head, tail, -⟩
  apply hashStep.listed
  refine .of_fields listed.linked ?_ ?_ (head.trans listed.head) (tail.trans listed.tail)
  · funext entry
    rw [prevOf, prevOf, heap]
  · funext entry
    rw [nextOf, nextOf, heap]

theorem TableStep.allocated (step : TableStep cache after) (allocated : Allocated cache) :
    Allocated after := by
  rcases step.hashStep with ⟨resized, hashStep, heap, -, -, brk⟩
  apply hashStep.allocated
  intro entry cell found
  rw [brk]
  rw [heap] at found
  exact allocated entry cell found

theorem cacheResizeIfNeeded_spec (listed : Listed cache nodes) (chained : Chained cache nodes)
    (live : Live cache nodes) (allocated : Allocated cache) :
    ∃ after, cacheResizeIfNeeded cache = some after ∧ Chained after nodes ∧
      TableStep cache after := by
  have unchanged : TableStep cache cache := ⟨_, _, _, _, rfl, fun _ => rfl⟩
  rw [cacheResizeIfNeeded]
  split
  · exact ⟨cache, rfl, chained, unchanged⟩
  · simp only
    split
    · exact ⟨cache, rfl, chained, unchanged⟩
    · next noOverflow =>
        let resized : SqfsCache Value := { cache with
          buckets := some { count := u64 (cache.bucketCount * 2), head := fun _ => none }
          bucketCount := u64 (cache.bucketCount * 2)
          bucketMask := u64 (cache.bucketCount * 2) - 1 }
        have empty : Chained resized [] := by
          refine ⟨rfl, Nat.lt_of_lt_of_le chained.nonempty (Nat.le_of_not_lt noOverflow),
            _, rfl, fun idx => ⟨[], rfl, .nil, by simp⟩⟩
        have nodup : (nodes ++ []).Nodup := by simpa using listed.linked.nodup
        have enough := Nat.le_succ_of_le (length_le_brk allocated live listed.linked.nodup)
        have follows := listed.linked.follows_next
        rw [← listed.head] at follows
        rcases @rehash_spec _ resized _ _ _ _ follows live nodup empty enough with
          ⟨after, run, rehashed, step⟩
        refine ⟨after, run, by simpa using rehashed, ?_⟩
        rcases step with ⟨heap, buckets, rfl, same⟩
        exact ⟨heap, buckets, _, _, rfl, same⟩

end SqfsCache

end SquashfsFuse
