import SquashfsFuse.Cache.Invariant

/-! Every value that a put accepts is released exactly once. -/

namespace SquashfsFuse

variable {Value : Type}

namespace CacheList

variable {list : CacheList Value}

/-! ## What is kept and released -/

theorem perform_accounts (distinct : LruEntry.Distinct list.entries)
    (given : list.hasFreeFn = true) (op : CacheOp Value) :
    (values (list.perform op).1.entries ++ (list.perform op).1.freed).Perm
      (list.accepts op ++ (values list.entries ++ list.freed)) := by
  rcases perform_freed list distinct op with ⟨log, freed, released⟩
  rw [logged, if_pos given] at released
  have exchanged := perform_values distinct op
  rw [freed]
  calc values (list.perform op).1.entries ++ (list.freed ++ log)
      |>.Perm (values (list.perform op).1.entries ++ (list.releases op ++ list.freed)) :=
        (List.perm_append_comm.trans (released.append_right _)).append_left _
    _ |>.Perm ((list.accepts op ++ values list.entries) ++ list.freed) := by
        rw [← List.append_assoc]
        exact exchanged.append_right _
    _ |>.Perm (list.accepts op ++ (values list.entries ++ list.freed)) := by
        rw [List.append_assoc]

def takes (list : CacheList Value) : CacheCall Value → List Value
  | .put key (some value) size allocatesEntry _ =>
      if list.putErrno key (some value) size allocatesEntry = none then [value] else []
  | _ => []

private theorem accepts_put (list : CacheList Value) (key : Nat) (value : Value) (size : Nat) :
    list.accepts (.put key value size) =
      if list.putErrno key (some value) size true = none then [value] else [] := by
  rw [accepts, put, putErrno, Option.isNone_some, if_neg Bool.false_ne_true]
  split
  · rfl
  · cases list.find key with
    | some old => rfl
    | none =>
        simp only [Option.isSome_none, Bool.false_eq_true, if_false, if_true]
        split <;> rfl

private theorem evict_accounts (given : list.hasFreeFn = true) (size : Nat) :
    (values (list.evict size).entries ++ (list.evict size).freed).Perm
      (values list.entries ++ list.freed) := by
  rcases evict_drops size list with ⟨split, freed⟩
  have parts : values list.entries =
      values (list.evict size).entries ++ values (list.victims size) := by
    rw [values, values, values, ← List.map_append, ← split]
  rw [freed, logged, if_pos given, parts, List.append_assoc]
  apply List.Perm.append_left
  exact List.perm_append_comm.trans ((List.reverse_perm _).append_right _)

private theorem call_accounts (distinct : LruEntry.Distinct list.entries)
    (given : list.hasFreeFn = true) (call : CacheCall Value) :
    (values (list.call call).entries ++ (list.call call).freed).Perm
      (list.takes call ++ (values list.entries ++ list.freed)) := by
  cases call with
  | get key => exact perform_accounts distinct given (.get key)
  | remove key => exact perform_accounts distinct given (.remove key)
  | clear => exact perform_accounts distinct given .clear
  | put key value size allocatesEntry allocatesBuckets =>
      cases value with
      | none => exact .refl _
      | some value =>
          have accounts := perform_accounts distinct given (.put key value size)
          rw [accepts_put] at accounts
          cases allocatesEntry with
          | true => exact accounts
          | false =>
              by_cases tooBig : list.maxMemory < size
              · rw [SqfsCache.call_tooBig tooBig, takes, putErrno, Option.isNone_some,
                  if_neg Bool.false_ne_true, if_pos tooBig]
                exact .refl _
              · cases found : list.find key with
                | some old =>
                    have same : list.call (.put key (some value) size false allocatesBuckets) =
                        (list.perform (.put key value size)).1 := by
                      rw [SqfsCache.call_present tooBig found, perform, put, if_neg tooBig, found]
                    have taken : list.putErrno key (some value) size false =
                        list.putErrno key (some value) size true := by
                      rw [putErrno, putErrno, found]
                      rfl
                    rw [same, takes, taken]
                    exact accounts
                | none =>
                    have refused : list.putErrno key (some value) size false ≠ none := by
                      rw [putErrno, found, Option.isNone_some, if_neg Bool.false_ne_true,
                        if_neg tooBig]
                      simp only [Option.isSome_none, Bool.false_eq_true, if_false]
                      split
                      · exact Option.some_ne_none _
                      · exact Option.some_ne_none _
                    rw [SqfsCache.call_absent tooBig found, if_pos (.inr rfl), takes,
                      if_neg refused]
                    exact evict_accounts given size

end CacheList

namespace SqfsCache

variable {cache : SqfsCache Value} {list : CacheList Value}

private theorem sqfsCacheDestroy_spec (represents : Represents cache list) :
    ∃ destroyed, sqfsCacheDestroy cache = some destroyed ∧
      destroyed.freed = list.freed ++ list.logged (CacheList.values list.entries) := by
  rcases represents with ⟨nodes, entries, holds, rfl⟩
  rcases holds.freeEntries with ⟨heap, freed, run, released, -⟩
  refine ⟨{ (SqfsCache.zero : SqfsCache Value) with heap, brk := cache.brk, freed }, ?_, ?_⟩
  · rw [sqfsCacheDestroy, run]
    rfl
  · rw [CacheList.logged, released]
    by_cases given : cache.hasFreeFn
    · rw [if_pos given, if_pos (show (cache.view entries).hasFreeFn from given)]
      rfl
    · rw [if_neg given, if_neg (show ¬ (cache.view entries).hasFreeFn from given)]
      exact (List.append_nil _).symm

end SqfsCache

/-! ## Accounts of a run -/

/-- A cache with the values that puts have accepted and refused so far. -/
structure CacheAccount (Value : Type) where
  cache : SqfsCache Value
  accepted : List Value
  refused : List Value

namespace CacheAccount

/-- The account of a new cache. -/
def opened (cache : SqfsCache Value) : CacheAccount Value where
  cache := cache
  accepted := []
  refused := []

def enter (account : CacheAccount Value) : Option Value → Option PutErrno → CacheAccount Value
  | some value, none => { account with accepted := value :: account.accepted }
  | some value, some _ => { account with refused := value :: account.refused }
  | none, _ => account

/-- A call, and what it does to the books. -/
def call (account : CacheAccount Value) : CacheCall Value → Option (CacheAccount Value)
  | .put key value memorySize allocatesEntry allocatesBuckets => do
      let (cache, errno) ← sqfsCachePutCall account.cache key value memorySize allocatesEntry
        allocatesBuckets
      some ({ account with cache }.enter value errno)
  | .get key => do
      let cache ← account.cache.call (.get key)
      some { account with cache }
  | .remove key => do
      let cache ← account.cache.call (.remove key)
      some { account with cache }
  | .clear => do
      let cache ← account.cache.call .clear
      some { account with cache }

def callAll (account : CacheAccount Value) :
    List (CacheCall Value) → Option (CacheAccount Value)
  | [] => some account
  | call :: calls => do
      let next ← account.call call
      next.callAll calls

/-- The values a call passes to the cache. -/
def passed : CacheCall Value → List Value
  | .put _ value _ _ _ => value.toList
  | _ => []

/-- The books of a cache with a release function balance: the accepted values
are those kept and those released, and every value that was passed is either
accepted or refused. -/
structure Balanced (account : CacheAccount Value) (list : CacheList Value)
    (all : List Value) : Prop where
  represents : account.cache.Represents list
  given : list.hasFreeFn = true
  accepted : (CacheList.values list.entries ++ list.freed).Perm account.accepted
  passed : (account.accepted ++ account.refused).Perm all

variable {account : CacheAccount Value} {list : CacheList Value} {all : List Value}

/-- A call leaves the cache of the account as a cache by itself. What it takes is entered as
accepted, everything else it is passed as refused. -/
theorem call_spec (represents : account.cache.Represents list) (call : CacheCall Value) :
    ∃ next, account.call call = some next ∧ next.cache.Represents (list.call call) ∧
      next.accepted = list.takes call ++ account.accepted ∧
      (next.accepted ++ next.refused).Perm
        (passed call ++ (account.accepted ++ account.refused)) := by
  rcases represents.call call with ⟨after, run, afterRepresents⟩
  cases call with
  | get key => exact ⟨{ account with cache := after }, by rw [CacheAccount.call, run]; rfl,
      afterRepresents, rfl, .refl _⟩
  | remove key => exact ⟨{ account with cache := after }, by rw [CacheAccount.call, run]; rfl,
      afterRepresents, rfl, .refl _⟩
  | clear => exact ⟨{ account with cache := after }, by rw [CacheAccount.call, run]; rfl,
      afterRepresents, rfl, .refl _⟩
  | put key value memorySize allocatesEntry allocatesBuckets =>
      rcases SqfsCache.sqfsCachePutCall_spec key value memorySize allocatesEntry
        allocatesBuckets represents with ⟨other, putRun, -⟩
      have same : other = after := by
        rw [SqfsCache.call, putRun] at run
        exact Option.some.inj run
      rw [same] at putRun
      refine ⟨_, by rw [CacheAccount.call, putRun]; rfl, ?_⟩
      cases value with
      | none => exact ⟨afterRepresents, rfl, .refl _⟩
      | some value =>
          rw [CacheList.takes]
          cases list.putErrno key (some value) memorySize allocatesEntry with
          | none => exact ⟨afterRepresents, rfl, .refl _⟩
          | some errno => exact ⟨afterRepresents, rfl, List.perm_middle⟩

theorem Balanced.call (balanced : account.Balanced list all) (call : CacheCall Value) :
    ∃ next, account.call call = some next ∧
      next.Balanced (list.call call) (CacheAccount.passed call ++ all) := by
  rcases call_spec balanced.represents call with ⟨next, run, represents, accepted, passed⟩
  refine ⟨next, run, ?_⟩
  exact {
    represents := represents
    given := (list.call_settings call).hasFreeFn.trans balanced.given
    accepted := by
      rw [accepted]
      exact (CacheList.call_accounts balanced.represents.distinct balanced.given call).trans
        (balanced.accepted.append_left _)
    passed := passed.trans (balanced.passed.append_left _) }

theorem Balanced.callAll (balanced : account.Balanced list all)
    (calls : List (CacheCall Value)) :
    ∃ last lastList lastAll, account.callAll calls = some last ∧
      last.Balanced lastList lastAll ∧
      lastAll.Perm (calls.flatMap CacheAccount.passed ++ all) := by
  induction calls generalizing account list all with
  | nil => exact ⟨account, list, all, rfl, balanced, .refl _⟩
  | cons call calls induction =>
      rcases balanced.call call with ⟨next, run, nextBalanced⟩
      rcases induction nextBalanced with ⟨last, lastList, lastAll, lastRun, lastBalanced, same⟩
      refine ⟨last, lastList, lastAll, ?_, lastBalanced, ?_⟩
      · rw [CacheAccount.callAll, run]
        exact lastRun
      · rw [List.flatMap_cons, List.append_assoc]
        apply same.trans
        rw [← List.append_assoc, ← List.append_assoc]
        exact List.perm_append_comm.append_right _

end CacheAccount

/-- After any run of calls in which no value is passed twice, the values that puts accepted are
those the cache keeps and those it has released, none of them twice; a refused value, be it too
large, without room or without memory, is never released; and destroying the cache leaves
exactly the accepted values released. -/
theorem sqfsCache_releases_once {maxEntries maxMemory : Nat} {cache : SqfsCache Value}
    (init : sqfsCacheInit maxEntries maxMemory true = some cache)
    (calls : List (CacheCall Value)) (fresh : (calls.flatMap CacheAccount.passed).Nodup) :
    ∃ last entries destroyed, (CacheAccount.opened cache).callAll calls = some last ∧
      last.cache.readEntries last.cache.walkLimit last.cache.head = some entries ∧
      (CacheList.values entries ++ last.cache.freed).Perm last.accepted ∧
      last.cache.freed.Nodup ∧
      (∀ value ∈ last.refused, value ∉ last.cache.freed ∧ value ∉ destroyed.freed) ∧
      sqfsCacheDestroy last.cache = some destroyed ∧
      destroyed.freed.Perm last.accepted ∧ destroyed.freed.Nodup := by
  have represents := (SqfsCache.represents_of_init init).2
  have balanced : (CacheAccount.opened cache).Balanced _ [] :=
    ⟨represents, rfl, .refl _, .refl _⟩
  rcases balanced.callAll calls with ⟨last, list, all, run, lastBalanced, same⟩
  rcases SqfsCache.sqfsCacheDestroy_spec lastBalanced.represents with
    ⟨destroyed, destroy, destroyedFreed⟩
  rcases lastBalanced.represents with ⟨nodes, entries, holds, rfl⟩
  have accepted : (CacheList.values entries ++ last.cache.freed).Perm last.accepted :=
    lastBalanced.accepted
  have given : (last.cache.view entries).hasFreeFn = true := lastBalanced.given
  rw [CacheList.logged, if_pos given] at destroyedFreed
  have released : destroyed.freed.Perm last.accepted := by
    rw [destroyedFreed]
    exact List.perm_append_comm.trans accepted
  have distinct : (last.accepted ++ last.refused).Nodup := by
    apply (lastBalanced.passed.trans same).nodup_iff.mpr
    rwa [List.append_nil]
  have acceptedNodup : last.accepted.Nodup := distinct.of_append_left
  refine ⟨last, entries, destroyed, run, holds.readEntries, accepted, ?_, ?_, destroy, released,
    released.nodup_iff.mpr acceptedNodup⟩
  · exact (accepted.nodup_iff.mpr acceptedNodup).of_append_right
  · intro value refused
    have apart : value ∉ last.accepted := fun member =>
      List.disjoint_of_nodup_append distinct member refused
    refine ⟨fun member => ?_, fun member => apart (released.mem_iff.mp member)⟩
    exact apart (accepted.mem_iff.mp (List.mem_append_right _ member))

/-- Releases by replacing, evicting and removing, and puts that are refused. -/
theorem sqfsCache_releases_once_on_every_path :
    ∃ cache : SqfsCache Nat, sqfsCacheInit 2 100 true = some cache ∧
      ∃ last entries destroyed, (CacheAccount.opened cache).callAll
          [.put 1 (some 10) 10 true true, .put 1 (some 11) 10 true true,
            .put 2 (some 12) 10 true true, .get 1, .put 3 (some 13) 90 true true,
            .put 4 (some 14) 101 true true, .put 6 none 10 true true,
            .put 7 (some 16) 10 false true, .remove 3, .put 5 (some 15) 10 true true] =
          some last ∧
        last.cache.readEntries last.cache.walkLimit last.cache.head = some entries ∧
        (CacheList.values entries ++ last.cache.freed).Perm last.accepted ∧
        last.cache.freed.Nodup ∧
        (∀ value ∈ last.refused, value ∉ last.cache.freed ∧ value ∉ destroyed.freed) ∧
        sqfsCacheDestroy last.cache = some destroyed ∧
        destroyed.freed.Perm last.accepted ∧ destroyed.freed.Nodup :=
  ⟨_, rfl, @sqfsCache_releases_once Nat 2 100 _ rfl _ (by decide)⟩

end SquashfsFuse
