import Mathlib.Data.Fintype.Basic
import SquashfsFuse.Cache.Ownership

/-! Threads that share one cache. Every section of `cache.c` under one lock is
one step; `sqfs_cache_get` is two, and its caller copies out of the value in a
third. -/

namespace SquashfsFuse

/-- Where a thread is between its steps: outside `sqfs_cache_get`, between the
two halves of a hit, or with the value returned and not yet copied. -/
inductive ReaderPhase (Value : Type)
  | idle
  | looked (key : Nat) (value : Value)
  | returned (value : Value)
  deriving DecidableEq

/-- The value a thread has found and not finished copying. -/
def ReaderPhase.value {Value : Type} : ReaderPhase Value → Option Value
  | .idle => none
  | .looked _ value => some value
  | .returned value => some value

inductive ReaderAction (Value : Type)
  | lookup (key : Nat)
  | move
  | copy
  | put (key : Nat) (value : Value) (memorySize : Nat)
  | remove (key : Nat)
  | clear
  deriving DecidableEq

structure SharedCache (Thread Value : Type) where
  cache : SqfsCache Value
  phase : Thread → ReaderPhase Value
  used : List Value

namespace SharedCache

variable {Thread Value : Type}

def operation : ReaderAction Value → Option (CacheOp Value)
  | .put key value memorySize => some (.put key value memorySize)
  | .remove key => some (.remove key)
  | .clear => some .clear
  | _ => none

section Steps

variable [DecidableEq Thread] [DecidableEq Value]

def setPhase (state : SharedCache Thread Value) (thread : Thread)
    (phase : ReaderPhase Value) : SharedCache Thread Value :=
  { state with phase := Function.update state.phase thread phase }

def step (state : SharedCache Thread Value) (thread : Thread) (action : ReaderAction Value) :
    Option (SharedCache Thread Value) :=
  match state.phase thread, action with
  | .idle, .lookup key => do
      let (cache, found) ← sqfsCacheGetLookup state.cache key
      let phase := match found with
        | some value => ReaderPhase.looked key value
        | none => .idle
      some ({ state with cache }.setPhase thread phase)
  | .looked key value, .move => do
      let cache ← sqfsCacheGetMove state.cache key
      some ({ state with cache }.setPhase thread (.returned value))
  | .returned _, .copy => some (state.setPhase thread .idle)
  | .idle, .put key value memorySize =>
      if value ∈ state.used then
        none
      else do
        let (cache, _) ← sqfsCachePut state.cache key value memorySize
        some { state with cache, used := value :: state.used }
  | .idle, .remove key => do
      let cache ← sqfsCacheRemove state.cache key
      some { state with cache }
  | .idle, .clear => do
      let cache ← sqfsCacheClear state.cache
      some { state with cache }
  | _, _ => none

/-- One step of a run, with the state it starts from. -/
structure Transition (Thread Value : Type) where
  before : SharedCache Thread Value
  thread : Thread
  action : ReaderAction Value

/-- The steps of an interleaving, if every one of them can be taken. -/
def run (state : SharedCache Thread Value) :
    List (Thread × ReaderAction Value) → Option (List (Transition Thread Value))
  | [] => some []
  | (thread, action) :: rest => do
      let next ← state.step thread action
      let transitions ← run next rest
      some ({ before := state, thread, action } :: transitions)

end Steps

def held (state : SharedCache Thread Value) (thread : Thread) : Option Value :=
  (state.phase thread).value

namespace Transition

/-- The value that the step returns from `sqfs_cache_get` or copies from. -/
def uses (transition : Transition Thread Value) : Option Value :=
  match transition.before.phase transition.thread, transition.action with
  | .looked _ value, .move => some value
  | .returned value, .copy => some value
  | _, _ => none

/-- The step does not use a value after `free_fn` was called on it. -/
def Sound (transition : Transition Thread Value) : Prop :=
  ∀ value ∈ transition.uses, value ∉ transition.before.cache.freed

/-- The step drops no value that a thread has found and not finished copying. -/
def Spares (transition : Transition Thread Value) : Prop :=
  ∀ op ∈ operation transition.action,
    ∀ entries ∈ transition.before.cache.readEntries transition.before.cache.walkLimit
      transition.before.cache.head,
    ∀ thread, ∀ value ∈ transition.before.held thread,
      value ∉ (transition.before.cache.view entries).releases op

instance [DecidableEq Value] (transition : Transition Thread Value) :
    Decidable transition.Sound :=
  inferInstanceAs (Decidable (∀ value ∈ transition.uses, _))

instance [Fintype Thread] [DecidableEq Value] (transition : Transition Thread Value) :
    Decidable transition.Spares :=
  inferInstanceAs (Decidable (∀ op ∈ operation transition.action, _))

end Transition

/-- A new cache, and all threads outside `sqfs_cache_get`. -/
def start (cache : SqfsCache Value) : SharedCache Thread Value where
  cache := cache
  phase _ := .idle
  used := []

structure Owned (list : CacheList Value) (used : List Value) : Prop where
  nodup : (list.freed ++ CacheList.values list.entries).Nodup
  put : ∀ value, value ∈ list.freed ++ CacheList.values list.entries → value ∈ used

structure Invariant (state : SharedCache Thread Value) : Prop where
  sound : ∃ nodes entries, state.cache.Holds nodes entries ∧
    Owned (state.cache.view entries) state.used
  usable : ∀ thread value, state.held thread = some value → value ∉ state.cache.freed

private theorem start_invariant {cache : SqfsCache Value} {maxEntries maxMemory : Nat}
    {hasFreeFn : Bool} (positive : 0 < maxEntries)
    (init : sqfsCacheInit maxEntries maxMemory hasFreeFn = some cache) :
    Invariant (start cache : SharedCache Thread Value) := by
  obtain ⟨other, run, nodes, entries, holds, view⟩ :=
    @SqfsCache.sqfsCacheInit_spec Value maxEntries maxMemory hasFreeFn positive
  obtain rfl : other = cache := Option.some.inj (run.symm.trans init)
  have noEntries : entries = [] := congrArg CacheList.entries view
  have noneFreed : other.freed = [] := congrArg CacheList.freed view
  subst noEntries
  refine ⟨⟨nodes, [], holds, ?_, ?_⟩,
    fun thread value holding => absurd holding.symm (Option.some_ne_none value)⟩
  · change (other.freed ++ []).Nodup
    rw [noneFreed]
    exact .nil
  · intro value member
    change value ∈ other.freed ++ [] at member
    rw [noneFreed] at member
    cases member

private theorem lookup_found (list : CacheList Value) (key : Nat) (value : Value)
    (answer : (list.lookup key).2 = some value) : value ∈ CacheList.values list.entries := by
  rw [CacheList.lookup] at answer
  cases found : list.find key with
  | none => simp [found] at answer
  | some entry =>
      obtain rfl : entry.value = value := by simpa [found] using answer
      exact List.mem_map_of_mem (List.mem_of_find?_eq_some found)

theorem Owned.found_live {list : CacheList Value} {used : List Value} {key : Nat} {value : Value}
    (owned : Owned list used) (answer : (list.lookup key).2 = some value) :
    value ∉ list.freed := by
  intro released
  have kept := lookup_found list key value answer
  have apart := (List.nodup_append.mp owned.nodup).2.2
  exact apart value released value kept rfl

theorem eq_of_accepts {list : CacheList Value} {key memorySize : Nat} {value other : Value}
    (member : other ∈ list.accepts (.put key value memorySize)) : other = value := by
  rw [CacheList.accepts] at member
  split at member
  · exact List.mem_singleton.mp member
  · cases member

theorem accepts_nodup (list : CacheList Value) (key memorySize : Nat) (value : Value) :
    (list.accepts (.put key value memorySize)).Nodup := by
  rw [CacheList.accepts]
  split
  · exact List.nodup_singleton value
  · exact .nil

theorem Owned.perform {list : CacheList Value} {used : List Value} (owned : Owned list used)
    (distinct : LruEntry.Distinct list.entries) (op : CacheOp Value)
    (fresh : ∀ value, value ∈ list.accepts op → value ∉ used)
    (single : (list.accepts op).Nodup) :
    Owned (list.perform op).1 (list.accepts op ++ used) := by
  rcases CacheList.perform_freed _ distinct op with ⟨log, freed, released⟩
  have exchanged := CacheList.perform_values distinct op
  -- Everything there is after the operation, whether or not it is released.
  have everything : (list.freed ++ (CacheList.values (list.perform op).1.entries ++
      list.releases op)).Perm
      (list.accepts op ++ (list.freed ++ CacheList.values list.entries)) := by
    refine (exchanged.append_left list.freed).trans ?_
    rw [← List.append_assoc, ← List.append_assoc]
    exact List.perm_append_comm.append_right _
  have nodup : (list.freed ++ (CacheList.values (list.perform op).1.entries ++
      list.releases op)).Nodup := by
    rw [everything.nodup_iff, List.nodup_append']
    exact ⟨single, owned.nodup, fun value accepted present =>
      fresh value accepted (owned.put value present)⟩
  have present : (list.freed ++ log ++ CacheList.values (list.perform op).1.entries).Subperm
      (list.freed ++ (CacheList.values (list.perform op).1.entries ++ list.releases op)) := by
    rw [List.append_assoc]
    refine List.Subperm.append (List.Subperm.refl list.freed) ?_
    refine List.perm_append_comm.subperm.trans ?_
    refine List.Subperm.append (List.Subperm.refl _) (released.subperm.trans ?_)
    rw [CacheList.logged]
    split
    · exact List.Subperm.refl _
    · exact List.nil_subperm
  rw [← freed] at present
  refine ⟨?_, fun value member => ?_⟩
  · rcases present with ⟨reordered, permuted, sublist⟩
    exact permuted.nodup_iff.mp (nodup.sublist sublist)
  · have origin := everything.mem_iff.mp (present.subset member)
    rcases List.mem_append.mp origin with accepted | before
    · exact List.mem_append_left _ accepted
    · exact List.mem_append_right _ (owned.put value before)

variable {state next : SharedCache Thread Value} {thread : Thread}
  {action : ReaderAction Value}

theorem Invariant.operate {nodes : List Nat} {entries : List (LruEntry Nat Value)}
    (op : CacheOp Value) (invariant : Invariant state)
    (holds : state.cache.Holds nodes entries) (owned : Owned (state.cache.view entries) state.used)
    (represents : next.cache.Represents ((state.cache.view entries).perform op).1)
    (operates : operation action = some op)
    (spares : Transition.Spares { before := state, thread, action })
    (fresh : ∀ value, value ∈ (state.cache.view entries).accepts op → value ∉ state.used)
    (single : ((state.cache.view entries).accepts op).Nodup)
    (phase : next.phase = state.phase)
    (used : ∀ value, value ∈ (state.cache.view entries).accepts op ++ state.used →
      value ∈ next.used) : Invariant next := by
  have ownedAfter := owned.perform holds.distinct op fresh single
  rcases CacheList.perform_freed (state.cache.view entries) holds.distinct op with
    ⟨log, freed, released⟩
  rcases represents with ⟨nodesAfter, entriesAfter, holdsAfter, view⟩
  rw [← view] at ownedAfter freed
  refine ⟨⟨nodesAfter, entriesAfter, holdsAfter, ownedAfter.nodup,
    fun value member => used value (ownedAfter.put value member)⟩, ?_⟩
  intro other value holding member
  have holdingBefore : state.held other = some value := by
    rw [held, ← phase]
    exact holding
  have freedAfter : next.cache.freed = state.cache.freed ++ log := freed
  rw [freedAfter] at member
  rcases List.mem_append.mp member with old | new
  · exact invariant.usable other value holdingBefore old
  · have dropped := released.mem_iff.mp new
    rw [CacheList.logged] at dropped
    split at dropped
    · exact spares op operates entries holds.readEntries other value holdingBefore dropped
    · cases dropped

section Steps

variable [DecidableEq Thread] [DecidableEq Value]

omit [DecidableEq Value] in
theorem Invariant.read {after : SqfsCache Value} {nodes : List Nat}
    {entries entriesAfter : List (LruEntry Nat Value)} {phase : ReaderPhase Value}
    (invariant : Invariant state) (owned : Owned (state.cache.view entries) state.used)
    (holds : after.Holds nodes entriesAfter)
    (values : (CacheList.values entriesAfter).Perm (CacheList.values entries))
    (freed : after.freed = state.cache.freed)
    (usable : ∀ value, phase.value = some value → value ∉ state.cache.freed) :
    Invariant ({ state with cache := after }.setPhase thread phase) := by
  have everything : (after.freed ++ CacheList.values entriesAfter).Perm
      (state.cache.freed ++ CacheList.values entries) := by
    rw [freed]
    exact values.append_left _
  refine ⟨⟨nodes, entriesAfter, holds, everything.nodup_iff.mpr owned.nodup, ?_⟩, ?_⟩
  · exact fun value member => owned.put value (everything.mem_iff.mp member)
  · intro other value holding
    change value ∉ after.freed
    rw [freed]
    by_cases equal : other = thread
    · apply usable value
      simpa [held, setPhase, equal] using holding
    · apply invariant.usable other value
      simpa [held, setPhase, equal] using holding

theorem Invariant.step (invariant : Invariant state)
    (stepped : state.step thread action = some next)
    (spares : Transition.Spares { before := state, thread, action }) : Invariant next := by
  rcases invariant.sound with ⟨nodes, entries, holds, owned⟩
  unfold SharedCache.step at stepped
  split at stepped
  case h_1 key phase =>
      -- The first half of a get: the value found is in the cache.
      rcases SqfsCache.sqfsCacheGetLookup_spec key ⟨nodes, entries, holds, rfl⟩ with
        ⟨after, run, nodesAfter, entriesAfter, holdsAfter, view⟩
      rcases CacheList.lookup_keeps (state.cache.view entries) key with ⟨sameEntries, sameFreed⟩
      rw [← view] at sameEntries sameFreed
      rw [run] at stepped
      simp only [Option.bind_eq_bind, Option.bind_some, Option.some.injEq] at stepped
      subst stepped
      refine invariant.read owned holdsAfter ?_ sameFreed ?_
      · rw [show entriesAfter = entries from sameEntries]
      · intro value holding released
        cases answer : ((state.cache.view entries).lookup key).2 with
        | none => simp [answer, ReaderPhase.value] at holding
        | some other =>
            obtain rfl : other = value := by simpa [answer, ReaderPhase.value] using holding
            exact owned.found_live answer released
  case h_2 key value phase =>
      rcases SqfsCache.sqfsCacheGetMove_spec key ⟨nodes, entries, holds, rfl⟩ with
        ⟨after, run, nodesAfter, entriesAfter, holdsAfter, view⟩
      rcases CacheList.move_keeps (state.cache.view entries) holds.distinct key with
        ⟨sameValues, sameFreed⟩
      rw [← view] at sameValues sameFreed
      rw [run] at stepped
      cases stepped
      refine invariant.read owned holdsAfter sameValues sameFreed ?_
      intro other holding
      apply invariant.usable thread other
      rw [held, phase]
      exact holding
  case h_3 value phase =>
      cases stepped
      exact invariant.read owned holds .rfl rfl fun other holding =>
        absurd holding.symm (Option.some_ne_none other)
  case h_4 key value memorySize phase =>
      split at stepped
      · cases stepped
      · next isFresh =>
          rcases SqfsCache.sqfsCachePut_spec key value memorySize ⟨nodes, entries, holds, rfl⟩
            with ⟨after, run, represents⟩
          rw [run] at stepped
          cases stepped
          refine invariant.operate (.put key value memorySize) holds owned represents rfl
            spares ?_ (accepts_nodup _ _ _ _) rfl ?_
          · intro other member
            rw [eq_of_accepts member]
            exact isFresh
          · intro other member
            rcases List.mem_append.mp member with new | old
            · rw [eq_of_accepts new]
              exact List.mem_cons_self
            · exact List.mem_cons_of_mem value old
  case h_5 key phase =>
      rcases SqfsCache.sqfsCacheRemove_spec key ⟨nodes, entries, holds, rfl⟩ with
        ⟨after, run, represents⟩
      rw [run] at stepped
      cases stepped
      exact invariant.operate (.remove key) holds owned represents rfl spares
        (fun _ member => absurd member List.not_mem_nil) .nil rfl fun _ member => member
  case h_6 phase =>
      rcases SqfsCache.sqfsCacheClear_spec ⟨nodes, entries, holds, rfl⟩ with
        ⟨after, run, represents⟩
      rw [run] at stepped
      cases stepped
      exact invariant.operate .clear holds owned represents rfl spares
        (fun _ member => absurd member List.not_mem_nil) .nil rfl fun _ member => member
  case h_7 => cases stepped

omit [DecidableEq Thread] [DecidableEq Value] in
private theorem Invariant.transition_sound (invariant : Invariant state) :
    Transition.Sound { before := state, thread, action } := by
  intro value uses
  apply invariant.usable thread value
  rw [held]
  cases phase : state.phase thread with
  | idle => simp [Transition.uses, phase] at uses
  | looked key found => cases action <;> simp_all [Transition.uses, ReaderPhase.value]
  | returned found => cases action <;> simp_all [Transition.uses, ReaderPhase.value]

theorem Invariant.run {schedule : List (Thread × ReaderAction Value)}
    {transitions : List (Transition Thread Value)} (invariant : Invariant state)
    (ran : state.run schedule = some transitions)
    (spares : ∀ transition ∈ transitions, transition.Spares) :
    ∀ transition ∈ transitions, transition.Sound := by
  induction schedule generalizing state transitions with
  | nil =>
      cases ran
      simp
  | cons first schedule induction =>
      rcases first with ⟨thread, action⟩
      rw [SharedCache.run] at ran
      simp only [Option.bind_eq_bind, Option.bind_eq_some_iff, Option.some.injEq] at ran
      rcases ran with ⟨next, stepped, rest, restRan, rfl⟩
      have firstSpares := spares _ List.mem_cons_self
      have restSound := induction (invariant.step stepped firstSpares) restRan
        fun transition member => spares transition (List.mem_cons_of_mem _ member)
      intro transition member
      rcases List.mem_cons.mp member with rfl | later
      · exact invariant.transition_sound
      · exact restSound transition later

/-- As long as no step drops a value that another thread has found and not
finished copying, no freed value is returned from `sqfs_cache_get` or copied from,
in any interleaving of any number of threads. -/
theorem no_use_after_free {maxEntries maxMemory : Nat} {hasFreeFn : Bool}
    {cache : SqfsCache Value} {schedule : List (Thread × ReaderAction Value)}
    {transitions : List (Transition Thread Value)} (positive : 0 < maxEntries)
    (init : sqfsCacheInit maxEntries maxMemory hasFreeFn = some cache)
    (ran : (start cache).run schedule = some transitions)
    (spares : ∀ transition ∈ transitions, transition.Spares) :
    ∀ transition ∈ transitions, transition.Sound :=
  (start_invariant positive init).run ran spares

end Steps

/-- A run in which one thread holds the value of one key while another thread
puts a second key. -/
def politeSchedule : List (Bool × ReaderAction Nat) :=
  [(false, .put 1 10 5), (false, .lookup 1), (true, .put 2 20 5), (false, .move),
    (true, .lookup 2), (false, .copy), (true, .move), (true, .copy), (false, .remove 1)]

theorem no_use_after_free_polite :
    ∃ cache transitions, sqfsCacheInit 2 100 true = some cache ∧
      (start cache).run politeSchedule = some transitions ∧ transitions.length = 9 ∧
      ∀ transition ∈ transitions, transition.Sound := by
  have evaluated : ((sqfsCacheInit 2 100 true).bind fun cache =>
      ((start cache).run politeSchedule).map fun transitions =>
        decide (transitions.length = 9 ∧ ∀ transition ∈ transitions, transition.Spares)) =
      some true := by
    decide +kernel
  rcases Option.bind_eq_some_iff.mp evaluated with ⟨cache, init, mapped⟩
  rcases Option.map_eq_some_iff.mp mapped with ⟨transitions, ran, checked⟩
  rcases of_decide_eq_true checked with ⟨length, spares⟩
  exact ⟨cache, transitions, init, ran, length,
    no_use_after_free (by decide) init ran spares⟩

/-- A thread has found the value of key 1 and not yet returned it when another
thread replaces it. The value is returned, and copied from, after it was freed. -/
theorem freed_value_returned_and_copied :
    ∃ (cache : SqfsCache Nat) (transitions : List (Transition Bool Nat)),
      sqfsCacheInit 2 100 true = some cache ∧
      (start cache).run [(false, .put 1 10 5), (false, .lookup 1), (true, .put 1 11 5),
        (false, .move), (false, .copy)] = some transitions ∧
      ∃ returning ∈ transitions, returning.action = .move ∧ returning.uses = some 10 ∧
        10 ∈ returning.before.cache.freed ∧
      ∃ copying ∈ transitions, copying.action = .copy ∧ ¬ copying.Sound := by
  have evaluated : ((sqfsCacheInit 2 100 true).bind fun cache =>
      ((start cache).run [(false, .put 1 10 5), (false, .lookup 1), (true, .put 1 11 5),
        (false, .move), (false, .copy)]).map fun transitions : List (Transition Bool Nat) =>
        decide (∃ returning ∈ transitions, returning.action = .move ∧
          returning.uses = some 10 ∧ 10 ∈ returning.before.cache.freed ∧
          ∃ copying ∈ transitions, copying.action = .copy ∧ ¬ copying.Sound)) =
      some true := by
    decide +kernel
  rcases Option.bind_eq_some_iff.mp evaluated with ⟨cache, init, mapped⟩
  rcases Option.map_eq_some_iff.mp mapped with ⟨transitions, ran, checked⟩
  exact ⟨cache, transitions, init, ran, of_decide_eq_true checked⟩

end SharedCache

end SquashfsFuse
