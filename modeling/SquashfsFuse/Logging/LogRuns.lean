import SquashfsFuse.Logging.DataLines

/-! What is in the log file after any calls of the functions of `log.h`. -/

namespace SquashfsFuse

/-! ## Calls -/

/-- A call of a function of `log.h`. Strings are given by their text, null as none. -/
inductive LogCall
  | init (config : Option SqfsLogConfig)
  | destroy
  | flush
  | log (level : SqfsLogLevel) (module : SqfsModule) (file : Option (List UInt8)) (line : Int)
      (formatted : List UInt8)
  | logData (level : SqfsLogLevel) (module : SqfsModule) (file : Option (List UInt8)) (line : Int)
      (msg jsonData : Option (List UInt8))
  deriving Repr, DecidableEq

namespace LogWorld

def perform (sqfsLogLevel : SqfsLogLevel) (world : LogWorld) (call : LogCall × LogAnswers) :
    Sqfs LogWorld :=
  match call.1 with
  | .init config => pure (world.sqfsLogInit sqfsLogLevel call.2 config).2
  | .destroy => pure world.sqfsLogDestroy
  | .flush => pure world.sqfsLogFlush
  | .log level module file line formatted =>
      world.sqfsLog sqfsLogLevel call.2 level module (file.map fun text => terminated text [])
        line formatted
  | .logData level module file line msg jsonData =>
      world.sqfsLogData sqfsLogLevel call.2 level module
        (file.map fun text => terminated text []) line (msg.map fun text => terminated text [])
        (jsonData.map fun text => terminated text [])

/-- Perform the calls one after the other. -/
def performAll (sqfsLogLevel : SqfsLogLevel) (world : LogWorld)
    (calls : List (LogCall × LogAnswers)) : Sqfs LogWorld :=
  calls.foldlM (perform sqfsLogLevel) world

end LogWorld

/-! ## Lines -/

/-- A line that ends where the line ends, and is an object with a level that is not above
the given one. -/
structure WholeLine (highest : SqfsLogLevel) (line : List UInt8) : Prop where
  object : ∃ members, readJsonTree line = some (members, [0x0a]) ∧
    ∃ level : SqfsLogLevel, level.value ≤ highest.value ∧
      (ascii "level", .scalar (.text level.name)) ∈ members
  oneLine : ∃ body, line = body ++ [0x0a] ∧ 0x0a ∉ body

section Lines

variable {highest level : SqfsLogLevel} {module : SqfsModule} {body bytes : List UInt8}
  {members : List (List UInt8 × JsonTree)}

private theorem WholeLine.of_members (printed : JsonTreeMembers body members)
    (enabled : level.value ≤ highest.value)
    (named : (ascii "level", .scalar (.text level.name)) ∈ members) :
    WholeLine highest (0x7b :: (body ++ [0x0a])) where
  object := ⟨members, printed.reads_tree [0x0a], level, enabled, named⟩
  oneLine := by
    refine ⟨0x7b :: body, rfl, ?_⟩
    intro newline
    rcases List.mem_cons.mp newline with impossible | inside
    · cases impossible
    · exact absurd (printed.printable _ (Nat.le_refl _) 0x0a inside) (by decide)

private theorem jsonMembers_logLine (now : Option BrokenDownTime) (level : SqfsLogLevel)
    (module : SqfsModule) (message : List UInt8) (file : Option (List UInt8)) (line : Int) :
    ∃ body, logLine now level module (message.flatMap escapeByte)
        (file.map fun file => file.flatMap escapeByte) line = 0x7b :: (body ++ [0x0a]) ∧
      JsonMembers body (logMembers now level module message file line) := by
  have stands := jsonBody_escaped message
  have short : JsonMembers (ascii "\"msg\":\"" ++ (message.flatMap escapeByte ++ ascii "\"\x7d"))
      [(ascii "msg", .text message)] := jsonMembers_message stands
  refine ⟨_, rfl, ?_⟩
  cases level with
  | debug =>
      cases file with
      | none => exact jsonMembers_front now short
      | some file =>
          exact jsonMembers_front now (jsonMembers_place stands (jsonBody_escaped file) line)
  | error | warn | info => exact jsonMembers_front now short

structure WritesLine (highest : SqfsLogLevel) (line : Option (List UInt8)) : Prop where
  whole : ∀ bytes, line = some bytes → WholeLine highest bytes
  short : ∀ bytes, line = some bytes → bytes.length < 16384

private theorem sqfsLog_writesLine (answers : LogAnswers) (enabled : level.value ≤ highest.value)
    (file : Option (List UInt8)) (line : Int) (formatted : List UInt8) :
    ∃ written, sqfsLog answers.allocatesMsg answers.allocatesFile answers.now level module
        (file.map fun text => terminated text []) line formatted = .ok written ∧
      WritesLine highest written := by
  refine ⟨_, sqfsLog_eq .., ?_, ?_⟩
  · intro bytes written
    rcases Option.ite_none_right_eq_some.mp written with ⟨-, same⟩
    cases same
    rcases jsonMembers_logLine answers.now level module _ _ line with ⟨body, line, printed⟩
    rw [line]
    exact .of_members printed.tree enabled (by simp [logMembers])
  · intro bytes written
    rcases Option.ite_none_right_eq_some.mp written with ⟨short, same⟩
    cases same
    omega

/-- The data of a call are null, or empty, or an object. -/
def LogCall.DataRead : LogCall → Prop
  | .logData _ _ _ _ _ (some text) => ∃ data, DataReads text data
  | _ => True

theorem DataReads.noNul {text : List UInt8} {data : Option (List (List UInt8 × JsonTree))}
    (reads : DataReads text data) : 0 ∉ text := by
  cases data with
  | none =>
      cases reads
      exact List.not_mem_nil
  | some members =>
      rcases reads with ⟨bytes, rfl, printed⟩
      intro nul
      rcases List.mem_cons.mp nul with impossible | inside
      · cases impossible
      · exact absurd (printed.printable _ (Nat.le_refl _) 0 inside) (by decide)

private theorem sqfsLogData_writesLine (answers : LogAnswers) (enabled : level.value ≤ highest.value)
    (file msg jsonData : Option (List UInt8)) (line : Int)
    (read : ∀ text, jsonData = some text → ∃ data, DataReads text data) :
    ∃ written, sqfsLogData answers.allocatesMsg answers.allocatesFile answers.now level module
        (file.map fun text => terminated text []) line
        (msg.map fun text => terminated text []) (jsonData.map fun text => terminated text []) =
          .ok written ∧
      WritesLine highest written := by
  have reads : ∃ data, DataReads ((jsonData.map cString).getD []) data := by
    cases jsonData with
    | none => exact ⟨none, rfl⟩
    | some text =>
        rcases read text rfl with ⟨data, reads⟩
        refine ⟨data, ?_⟩
        have same : cString text = text := cString_of_notMem reads.noNul
        rw [Option.map_some, Option.getD_some, same]
        exact reads
  rcases reads with ⟨data, reads⟩
  refine ⟨_, sqfsLogData_eq .., ?_, ?_⟩
  · intro bytes written
    rcases Option.ite_none_right_eq_some.mp written with ⟨-, same⟩
    cases same
    exact .of_members (jsonTreeMembers_data answers.now (jsonBody_escaped _) reads
      (jsonBody_escaped _) line) enabled (by simp [dataMembers])
  · intro bytes written
    rcases Option.ite_none_right_eq_some.mp written with ⟨short, same⟩
    cases same
    exact short

end Lines

/-! ## Whole runs -/

/-- A file as a log leaves it: whole lines behind what was in it before, or behind nothing. -/
def LoggedTo (highest : SqfsLogLevel) (before after : List UInt8) : Prop :=
  ∃ lines : List (List UInt8), (after = before ++ lines.flatten ∨ after = lines.flatten) ∧
    ∀ line ∈ lines, WholeLine highest line

/-- Every file is as the log leaves it. -/
def LogWorld.Sound (highest : SqfsLogLevel) (files : List UInt8 → List UInt8)
    (world : LogWorld) : Prop :=
  ∀ path, LoggedTo highest (files path) (world.files path)

section Runs

variable {highest sqfsLogLevel level : SqfsLogLevel} {files : List UInt8 → List UInt8}
  {world : LogWorld} {answers : LogAnswers} {line : Option (List UInt8)}

theorem LogWorld.Sound.of_files {other : LogWorld} (sound : world.Sound highest files)
    (same : other.files = world.files) : other.Sound highest files := by
  intro path
  rw [same]
  exact sound path

theorem LogWorld.Sound.checkAndRotate (sound : world.Sound highest files) :
    (world.checkAndRotate answers).Sound highest files := by
  rw [LogWorld.checkAndRotate]
  cases world.log.file with
  | none => exact sound
  | some path =>
      dsimp only
      split
      · intro other
        by_cases same : other = path
        · subst same
          exact ⟨[], .inr (Function.update_self ..), List.forall_mem_nil _⟩
        · dsimp only
          rw [Function.update_of_ne same]
          exact sound other
      · exact sound

theorem LogWorld.Sound.writeLine (sound : world.Sound highest files)
    (writes : WritesLine highest line) (complete : 16384 ≤ answers.written) :
    (world.writeLine answers line).Sound highest files := by
  unfold LogWorld.writeLine
  cases world.log.file with
  | none => exact sound
  | some path =>
      cases line with
      | none => exact sound
      | some line =>
          have short := writes.short line rfl
          have all : line.take answers.written = line := List.take_of_length_le (by omega)
          dsimp only
          rw [all]
          intro other
          by_cases same : other = path
          · subst same
            dsimp only
            rw [Function.update_self]
            rcases sound other with ⟨lines, written, whole⟩
            refine ⟨lines ++ [line], ?_, ?_⟩
            · rw [List.flatten_append, List.flatten_singleton]
              rcases written with written | written
              · exact .inl (by rw [written, List.append_assoc])
              · exact .inr (by rw [written])
            · exact List.forall_mem_append.mpr
                ⟨whole, List.forall_mem_singleton.mpr (writes.whole line rfl)⟩
          · dsimp only
            rw [Function.update_of_ne same]
            exact sound other

theorem LogWorld.Sound.logWith (sound : world.Sound sqfsLogLevel files)
    (complete : 16384 ≤ answers.written) {written : Sqfs (Option (List UInt8))}
    (writes : level.value ≤ sqfsLogLevel.value →
      ∃ line, written = .ok line ∧ WritesLine sqfsLogLevel line) :
    ∃ after, world.logWith sqfsLogLevel answers level written = .ok after ∧
      after.Sound sqfsLogLevel files := by
  rw [LogWorld.logWith]
  by_cases disabled : sqfsLogLevel.value < level.value
  · rw [if_pos disabled]
    exact ⟨world, rfl, sound⟩
  rw [if_neg disabled]
  by_cases filtered : world.log.level.value < level.value
  · rw [if_pos filtered]
    exact ⟨world, rfl, sound⟩
  rw [if_neg filtered]
  have opened : (world.autoInitialize answers).Sound sqfsLogLevel files := by
    apply sound.of_files
    rw [LogWorld.autoInitialize]
    split
    · rfl
    · split <;> rfl
  dsimp only
  split
  · exact ⟨_, rfl, opened⟩
  · rcases writes (Nat.le_of_not_lt disabled) with ⟨line, rfl, writesLine⟩
    exact ⟨_, rfl, opened.checkAndRotate.writeLine writesLine complete⟩

private theorem LogWorld.sqfsLogInit_files (world : LogWorld) (sqfsLogLevel : SqfsLogLevel)
    (answers : LogAnswers) (config : Option SqfsLogConfig) :
    (world.sqfsLogInit sqfsLogLevel answers config).2.files = world.files := by
  unfold LogWorld.sqfsLogInit LogWorld.openConfigured
  split
  · rfl
  split
  · rfl
  dsimp only
  split
  · rfl
  · split <;> rfl

theorem LogWorld.Sound.perform (sound : world.Sound sqfsLogLevel files)
    {call : LogCall × LogAnswers} (read : call.1.DataRead) (complete : 16384 ≤ call.2.written) :
    ∃ after, world.perform sqfsLogLevel call = .ok after ∧ after.Sound sqfsLogLevel files := by
  rcases call with ⟨call, answers⟩
  cases call with
  | init config =>
      exact ⟨_, rfl, sound.of_files (world.sqfsLogInit_files sqfsLogLevel answers config)⟩
  | destroy =>
      refine ⟨_, rfl, sound.of_files ?_⟩
      rw [LogWorld.sqfsLogDestroy]
      split <;> rfl
  | flush => exact ⟨world, rfl, sound⟩
  | log level module file line formatted =>
      exact sound.logWith complete fun enabled => sqfsLog_writesLine answers enabled file line
        formatted
  | logData level module file line msg jsonData =>
      apply sound.logWith complete
      intro enabled
      apply sqfsLogData_writesLine answers enabled
      rintro text rfl
      exact read

/-- Whatever is called, and whatever the C library answers: as long as what is written is
written as a whole, every file consists of what was in it before, unless the log has truncated
it, and of whole lines. Each of them is one object, also when it was given data, and none has a
level above the one the program is compiled with. -/
theorem logFile_wholeLines (sqfsLogLevel : SqfsLogLevel) (files : List UInt8 → List UInt8)
    (calls : List (LogCall × LogAnswers)) (read : ∀ call ∈ calls, call.1.DataRead)
    (complete : ∀ call ∈ calls, 16384 ≤ call.2.written) :
    ∃ world, LogWorld.performAll sqfsLogLevel ⟨gLog sqfsLogLevel, files⟩ calls = .ok world ∧
      ∀ path, LoggedTo sqfsLogLevel (files path) (world.files path) := by
  have run : ∀ (calls : List (LogCall × LogAnswers)) (world : LogWorld),
      world.Sound sqfsLogLevel files → (∀ call ∈ calls, call.1.DataRead) →
      (∀ call ∈ calls, 16384 ≤ call.2.written) →
      ∃ last, LogWorld.performAll sqfsLogLevel world calls = .ok last ∧
        last.Sound sqfsLogLevel files := by
    intro calls
    induction calls with
    | nil => exact fun world sound _ _ => ⟨world, rfl, sound⟩
    | cons call calls induction =>
        intro world sound read complete
        rcases List.forall_mem_cons.mp read with ⟨firstRead, othersRead⟩
        rcases List.forall_mem_cons.mp complete with ⟨firstComplete, othersComplete⟩
        rcases sound.perform firstRead firstComplete with ⟨next, performed, nextSound⟩
        rcases induction next nextSound othersRead othersComplete with ⟨last, run, lastSound⟩
        refine ⟨last, ?_, lastSound⟩
        rw [LogWorld.performAll, List.foldlM_cons, performed]
        exact run
  exact run calls _ (fun path => ⟨[], .inl (List.append_nil _).symm, List.forall_mem_nil _⟩)
    read complete

end Runs

def LogAnswers.working : LogAnswers where
  duplicates := true
  opens := true
  statsFile := true
  truncates := true
  allocatesMsg := true
  allocatesFile := true
  written := 16384
  now := none

/-- A log with room for one line, a message with a quotation mark, data, and a line behind the
end of the log. -/
def loggedCalls : List (LogCall × LogAnswers) :=
  [.init (some { path := some (ascii "/var/log/image.log"), maxSize := 16, level := .info }),
    .log .warn .superblock none 7 (ascii "\"lost\""),
    .logData .info .cache none 9 (some (ascii "hits")) (some (ascii "\x7b\"n\":12\x7d")),
    .destroy, .log .error .fuse none 11 (ascii "closed")].map fun call => (call, .working)

theorem logFile_wholeLines_loggedCalls :
    ∃ world, LogWorld.performAll .info ⟨gLog .info, fun _ => ascii "before"⟩ loggedCalls =
        .ok world ∧
      ∀ path, LoggedTo .info (ascii "before") (world.files path) := by
  refine logFile_wholeLines .info _ loggedCalls ?_ (by decide)
  have count : JsonValue (ascii "12") (.number 12) :=
    .number (by decide +kernel) (by decide +kernel)
  have named : JsonBody (ascii "n") (ascii "n") := .of_plain (by decide +kernel)
  have data : DataReads (ascii "\x7b\"n\":12\x7d") (some [(ascii "n", .scalar (.number 12))]) :=
    ⟨ascii "\"n\":12\x7d", by decide +kernel, .last named (.scalar count)⟩
  intro call inside
  simp only [loggedCalls, List.map_cons, List.map_nil, List.mem_cons, List.not_mem_nil,
    or_false] at inside
  rcases inside with rfl | rfl | rfl | rfl | rfl
  · trivial
  · trivial
  · exact ⟨_, data⟩
  · trivial
  · trivial

end SquashfsFuse
