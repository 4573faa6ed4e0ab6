import SquashfsFuse.Logging.LogRuns

/-! How large the log files get. -/

namespace SquashfsFuse

/-! ## Calls that count -/

/-- The size of a file can be found out, a file can be truncated, and no configuration asks for
more than the limit. -/
structure LogCall.Limited (limit : Nat) (call : LogCall × LogAnswers) : Prop where
  statsFile : call.2.statsFile = true
  truncates : call.2.truncates = true
  maxSize : ∀ config, call.1 = .init (some config) → config.maxSize ≤ limit

namespace LogWorld

/-- Whether a line of this level opens the default file. What is in that file already is not
counted. -/
def opensDefault (sqfsLogLevel level : SqfsLogLevel) (answers : LogAnswers) (world : LogWorld) :
    Bool :=
  decide (level.value ≤ sqfsLogLevel.value) && decide (level.value ≤ world.log.level.value) &&
    !world.log.initialized && answers.opens

def opensWithout (sqfsLogLevel : SqfsLogLevel) (world : LogWorld)
    (call : LogCall × LogAnswers) : Nat :=
  match call.1 with
  | .log level _ _ _ _ | .logData level _ _ _ _ _ =>
      (world.opensDefault sqfsLogLevel level call.2).toNat
  | _ => 0

/-- How many files a run opens without counting what is in them. -/
def defaultOpens (sqfsLogLevel : SqfsLogLevel) (world : LogWorld) :
    List (LogCall × LogAnswers) → Nat
  | [] => 0
  | call :: calls =>
      match world.perform sqfsLogLevel call with
      | .ok next => world.opensWithout sqfsLogLevel call + next.defaultOpens sqfsLogLevel calls
      | _ => world.opensWithout sqfsLogLevel call

/-! ## Bounds on all files -/

/-- No file is above its bound. An open file holds what was counted, behind bytes that leave
room for a full log. -/
structure Bounded (limit : Nat) (bound : List UInt8 → Nat) (world : LogWorld) : Prop where
  positive : 0 < world.log.maxSize
  limited : world.log.maxSize ≤ limit
  room : ∀ path, limit + 16383 ≤ bound path
  size : ∀ path, (world.files path).length ≤ bound path
  counted : ∀ path, world.log.file = some path → ∃ uncounted,
    (world.files path).length = uncounted + world.log.currentSize ∧
      uncounted + max world.log.currentSize (limit + 16383) ≤ bound path
  closed : world.log.initialized = false → world.log.file = none ∧ world.log.currentSize = 0

end LogWorld

section Bounds

variable {limit : Nat} {bound : List UInt8 → Nat} {world : LogWorld} {answers : LogAnswers}
  {sqfsLogLevel level : SqfsLogLevel} {line : Option (List UInt8)}

def grownBound (limit : Nat) (bound : List UInt8 → Nat) (opens : Nat) (path : List UInt8) : Nat :=
  bound path + if path = sqfsLogDefaultPath then opens * (limit + 16383) else 0

theorem grownBound_zero : grownBound limit bound 0 = bound := by
  funext path
  simp [grownBound]

private theorem grownBound_add (first second : Nat) :
    grownBound limit (grownBound limit bound first) second =
      grownBound limit bound (first + second) := by
  funext path
  by_cases default : path = sqfsLogDefaultPath
  · simp only [grownBound, if_pos default]
    rw [Nat.add_mul, Nat.add_assoc]
  · simp only [grownBound, if_neg default, Nat.add_zero]

namespace LogWorld.Bounded

theorem checkAndRotate (bounded : world.Bounded limit bound)
    (truncates : answers.truncates = true) :
    (world.checkAndRotate answers).Bounded limit bound ∧
      (world.log.file.isSome →
        (world.checkAndRotate answers).log.currentSize < limit) := by
  unfold LogWorld.checkAndRotate
  have limited := bounded.limited
  have positive := bounded.positive
  cases file : world.log.file with
  | none => exact ⟨bounded, nofun⟩
  | some path =>
      dsimp only
      split
      · refine ⟨⟨positive, limited, bounded.room, ?_, ?_, ?_⟩, fun _ => by dsimp only; omega⟩
        · intro other
          by_cases same : other = path
          · subst same
            dsimp only
            rw [Function.update_self]
            exact Nat.zero_le _
          · dsimp only
            rw [Function.update_of_ne same]
            exact bounded.size other
        · intro other isOpen
          cases file.symm.trans isOpen
          refine ⟨0, ?_, ?_⟩
          · dsimp only
            rw [Function.update_self]
            rfl
          · have room := bounded.room path
            dsimp only
            omega
        · intro closed
          exact ⟨(bounded.closed closed).1, rfl⟩
      · next small =>
          refine ⟨bounded, fun _ => ?_⟩
          have below : world.log.currentSize < world.log.maxSize := by
            by_contra above
            exact small ⟨by omega, by omega, truncates⟩
          omega

theorem writeLine (bounded : world.Bounded limit bound) (fits : limit + 16384 ≤ 2 ^ 64)
    (below : world.log.file.isSome → world.log.currentSize < limit)
    (short : ∀ bytes, line = some bytes → bytes.length < 16384) :
    (world.writeLine answers line).Bounded limit bound := by
  unfold LogWorld.writeLine
  cases file : world.log.file with
  | none => exact bounded
  | some path =>
      cases line with
      | none => exact bounded
      | some line =>
          have small := below (by rw [file]; rfl)
          have lineShort := short line rfl
          have taken : (line.take answers.written).length ≤ line.length :=
            List.length_take_le' ..
          have exactly : u64 (world.log.currentSize + (line.take answers.written).length) =
              world.log.currentSize + (line.take answers.written).length :=
            u64_of_lt (by omega)
          rcases bounded.counted path file with ⟨uncounted, size, room⟩
          dsimp only
          rw [exactly]
          refine ⟨bounded.positive, bounded.limited, bounded.room, ?_, ?_, ?_⟩
          · intro other
            by_cases same : other = path
            · subst same
              dsimp only
              rw [Function.update_self, List.length_append]
              omega
            · dsimp only
              rw [Function.update_of_ne same]
              exact bounded.size other
          · intro other isOpen
            cases file.symm.trans isOpen
            refine ⟨uncounted, ?_, ?_⟩
            · dsimp only
              rw [Function.update_self, List.length_append]
              omega
            · dsimp only
              omega
          · intro closed
            exact absurd ((bounded.closed closed).1.symm.trans file) nofun

theorem autoInitialize (answers : LogAnswers) (bounded : world.Bounded limit bound) :
    (world.autoInitialize answers).Bounded limit
      (grownBound limit bound (!world.log.initialized && answers.opens).toNat) := by
  unfold LogWorld.autoInitialize
  cases initialized : world.log.initialized with
  | true =>
      rw [if_pos rfl]
      rw [Bool.not_true, Bool.false_and, Bool.toNat_false, grownBound_zero]
      exact bounded
  | false =>
      rcases bounded.closed initialized with ⟨none_, zero⟩
      rw [if_neg Bool.false_ne_true]
      cases answers.opens with
      | false =>
          simp only [Bool.and_false, Bool.toNat_false, grownBound_zero, Bool.false_eq_true,
            if_false]
          exact ⟨bounded.positive, bounded.limited, bounded.room, bounded.size, nofun,
            fun _ => ⟨rfl, zero⟩⟩
      | true =>
          simp only [Bool.not_false, Bool.and_true, Bool.toNat_true, if_true]
          refine ⟨bounded.positive, bounded.limited, ?_, ?_, ?_, nofun⟩
          · exact fun path => (bounded.room path).trans (Nat.le_add_right ..)
          · exact fun path => (bounded.size path).trans (Nat.le_add_right ..)
          · rintro path ⟨⟩
            have size := bounded.size sqfsLogDefaultPath
            refine ⟨(world.files sqfsLogDefaultPath).length, ?_, ?_⟩
            · dsimp only
              omega
            · dsimp only [grownBound]
              rw [if_pos rfl]
              omega

theorem logWith (bounded : world.Bounded limit bound) (fits : limit + 16384 ≤ 2 ^ 64)
    (truncates : answers.truncates = true) {written : Sqfs (Option (List UInt8))}
    (short : ∃ line, written = .ok line ∧ ∀ bytes, line = some bytes → bytes.length < 16384) :
    ∃ after, world.logWith sqfsLogLevel answers level written = .ok after ∧
      after.Bounded limit
        (grownBound limit bound (world.opensDefault sqfsLogLevel level answers).toNat) := by
  unfold LogWorld.logWith LogWorld.opensDefault
  by_cases disabled : sqfsLogLevel.value < level.value
  · rw [if_pos disabled, decide_eq_false (Nat.not_le_of_lt disabled), Bool.false_and,
      Bool.false_and, Bool.false_and, Bool.toNat_false, grownBound_zero]
    exact ⟨world, rfl, bounded⟩
  rw [if_neg disabled, decide_eq_true (Nat.le_of_not_lt disabled)]
  by_cases filtered : world.log.level.value < level.value
  · rw [if_pos filtered, decide_eq_false (Nat.not_le_of_lt filtered), Bool.and_false,
      Bool.false_and, Bool.false_and, Bool.toNat_false, grownBound_zero]
    exact ⟨world, rfl, bounded⟩
  rw [if_neg filtered, decide_eq_true (Nat.le_of_not_lt filtered), Bool.and_true, Bool.true_and]
  have opened := bounded.autoInitialize answers
  dsimp only
  split
  · exact ⟨_, rfl, opened⟩
  · next present =>
      rcases short with ⟨line, rfl, lineShort⟩
      rcases opened.checkAndRotate truncates with ⟨rotated, below⟩
      refine ⟨_, rfl, rotated.writeLine fits (fun _ => below ?_) lineShort⟩
      exact Option.isSome_iff_ne_none.mpr fun missing => present (by rw [missing]; rfl)

theorem sqfsLogInit (bounded : world.Bounded limit bound) (statsFile : answers.statsFile = true)
    (config : Option SqfsLogConfig) (maxSize : ∀ given, config = some given →
      given.maxSize ≤ limit) :
    (world.sqfsLogInit sqfsLogLevel answers config).2.Bounded limit bound := by
  unfold LogWorld.sqfsLogInit
  split
  · exact bounded
  next closed =>
    rcases bounded.closed (Bool.eq_false_of_not_eq_true closed) with ⟨none_, zero⟩
    split
    · exact ⟨bounded.positive, bounded.limited, bounded.room, bounded.size, bounded.counted,
        bounded.closed⟩
    · have configured : LogWorld.Bounded limit bound
          { world with log := configured sqfsLogLevel config world.log } := by
        cases config with
        | none => exact bounded
        | some given =>
            have limited := maxSize given rfl
            have positive := bounded.positive
            refine ⟨?_, ?_, bounded.room, bounded.size, bounded.counted, bounded.closed⟩
            · dsimp only [LogWorld.configured]
              split <;> omega
            · dsimp only [LogWorld.configured]
              split
              · exact limited
              · exact bounded.limited
      generalize { world with log := LogWorld.configured sqfsLogLevel config world.log } = world
        at configured
      unfold LogWorld.openConfigured
      simp only [statsFile, if_true]
      split
      · exact configured
      split
      · refine ⟨configured.positive, configured.limited, configured.room, configured.size, ?_,
          nofun⟩
        rintro path ⟨⟩
        have size := configured.size (world.log.path.getD sqfsLogDefaultPath)
        have room := configured.room (world.log.path.getD sqfsLogDefaultPath)
        refine ⟨0, ?_, ?_⟩
        · dsimp only
          omega
        · dsimp only
          omega
      · exact ⟨configured.positive, configured.limited, configured.room, configured.size, nofun,
          fun closed => ⟨rfl, (configured.closed closed).2⟩⟩

theorem sqfsLogDestroy (bounded : world.Bounded limit bound) :
    world.sqfsLogDestroy.Bounded limit bound := by
  unfold LogWorld.sqfsLogDestroy
  split
  · exact ⟨bounded.positive, bounded.limited, bounded.room, bounded.size, nofun,
      fun _ => ⟨rfl, rfl⟩⟩
  · exact bounded

/-- Every call keeps the bounds, but for the files that it opens without counting. -/
theorem perform (bounded : world.Bounded limit bound) (fits : limit + 16384 ≤ 2 ^ 64)
    {call : LogCall × LogAnswers} (limited : LogCall.Limited limit call) :
    ∃ after, world.perform sqfsLogLevel call = .ok after ∧
      after.Bounded limit (grownBound limit bound (world.opensWithout sqfsLogLevel call)) := by
  rcases call with ⟨call, answers⟩
  cases call with
  | init config =>
      refine ⟨_, rfl, ?_⟩
      rw [LogWorld.opensWithout, grownBound_zero]
      exact bounded.sqfsLogInit limited.statsFile config
        fun given same => limited.maxSize given (by rw [same])
  | destroy =>
      refine ⟨_, rfl, ?_⟩
      rw [LogWorld.opensWithout, grownBound_zero]
      exact bounded.sqfsLogDestroy
  | flush =>
      refine ⟨_, rfl, ?_⟩
      rw [LogWorld.opensWithout, grownBound_zero]
      exact bounded
  | log level module file line formatted =>
      refine bounded.logWith fits limited.truncates ⟨_, sqfsLog_eq .., ?_⟩
      intro bytes written
      have short := (Option.ite_none_right_eq_some.mp written).1
      cases (Option.ite_none_right_eq_some.mp written).2
      omega
  | logData level module file line msg jsonData =>
      refine bounded.logWith fits limited.truncates ⟨_, sqfsLogData_eq .., ?_⟩
      intro bytes written
      have short := (Option.ite_none_right_eq_some.mp written).1
      cases (Option.ite_none_right_eq_some.mp written).2
      exact short

end LogWorld.Bounded

/-- Whatever is called, no file gets above the largest limit by more than one line, or stays as
large as it was. Only the default file can, by as much again, and only when a line opens it
because the log is not initialized. -/
theorem logFile_size (sqfsLogLevel : SqfsLogLevel) (files : List UInt8 → List UInt8)
    (limit : Nat) (fits : limit + 16384 ≤ 2 ^ 64) (default : sqfsLogDefaultMaxSize ≤ limit)
    (calls : List (LogCall × LogAnswers)) (limited : ∀ call ∈ calls, LogCall.Limited limit call) :
    ∃ world, LogWorld.performAll sqfsLogLevel ⟨gLog sqfsLogLevel, files⟩ calls = .ok world ∧
      ∀ path, (world.files path).length ≤ max (files path).length (limit + 16383) +
        if path = sqfsLogDefaultPath then
          LogWorld.defaultOpens sqfsLogLevel ⟨gLog sqfsLogLevel, files⟩ calls * (limit + 16383)
        else 0 := by
  have run : ∀ (calls : List (LogCall × LogAnswers)) (world : LogWorld)
      (bound : List UInt8 → Nat), world.Bounded limit bound →
      (∀ call ∈ calls, LogCall.Limited limit call) →
      ∃ last, LogWorld.performAll sqfsLogLevel world calls = .ok last ∧
        last.Bounded limit
          (grownBound limit bound (world.defaultOpens sqfsLogLevel calls)) := by
    intro calls
    induction calls with
    | nil =>
        intro world bound bounded _
        rw [LogWorld.defaultOpens, grownBound_zero]
        exact ⟨world, rfl, bounded⟩
    | cons call calls induction =>
        intro world bound bounded limited
        rcases List.forall_mem_cons.mp limited with ⟨firstLimited, othersLimited⟩
        rcases bounded.perform fits firstLimited with ⟨next, performed, nextBounded⟩
        rcases induction next _ nextBounded othersLimited with ⟨last, run, lastBounded⟩
        refine ⟨last, ?_, ?_⟩
        · rw [LogWorld.performAll, List.foldlM_cons, performed]
          exact run
        · rw [LogWorld.defaultOpens, performed]
          rw [grownBound_add] at lastBounded
          exact lastBounded
  have start : LogWorld.Bounded limit (fun path => max (files path).length (limit + 16383))
      ⟨gLog sqfsLogLevel, files⟩ :=
    ⟨Nat.zero_lt_succ _, default, fun _ => Nat.le_max_right .., fun _ => Nat.le_max_left ..,
      fun _ opened => by contradiction, fun _ => ⟨rfl, rfl⟩⟩
  rcases run calls _ _ start limited with ⟨last, run, bounded⟩
  exact ⟨last, run, bounded.size⟩

end Bounds

/-- The last line opens the default file, and nothing is known of what is in it. -/
theorem logFile_size_loggedCalls :
    ∃ world, LogWorld.performAll .info ⟨gLog .info, fun _ => ascii "before"⟩ loggedCalls =
        .ok world ∧
      ∀ path, (world.files path).length ≤
        max (ascii "before").length (sqfsLogDefaultMaxSize + 16383) +
        if path = sqfsLogDefaultPath then
          LogWorld.defaultOpens .info ⟨gLog .info, fun _ => ascii "before"⟩ loggedCalls *
            (sqfsLogDefaultMaxSize + 16383)
        else 0 := by
  refine logFile_size .info _ sqfsLogDefaultMaxSize (by decide) (Nat.le_refl _) _ ?_
  have limited (call : LogCall) (small : ∀ config, call = .init (some config) →
      config.maxSize ≤ sqfsLogDefaultMaxSize) :
      LogCall.Limited sqfsLogDefaultMaxSize (call, .working) := ⟨rfl, rfl, small⟩
  simp only [loggedCalls, List.map_cons, List.map_nil, List.forall_mem_cons]
  refine ⟨limited _ ?_, limited _ ?_, limited _ ?_, limited _ ?_, limited _ ?_,
    List.forall_mem_nil _⟩
  · intro config given
    injection given with given
    injection given with given
    exact given ▸ by decide
  all_goals
    intro config given
    contradiction

end SquashfsFuse
