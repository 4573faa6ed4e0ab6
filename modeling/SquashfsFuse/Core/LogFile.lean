import SquashfsFuse.Core.Log
import SquashfsFuse.Foundation.JsonTree

/-! The log file (`log.c`): opening and closing it, rotation, levels and lines with data. -/

namespace SquashfsFuse

/-! ## The state of the log -/

/-- The value of a level in `sqfs_log_level_t`. -/
def SqfsLogLevel.value : SqfsLogLevel → Nat
  | error => 1
  | warn => 2
  | info => 3
  | debug => 4

def sqfsLogDefaultPath : List UInt8 := ascii "/tmp/squashfs-fuse.log"

def sqfsLogDefaultMaxSize : Nat := 10 * 1024 * 1024

structure SqfsLogConfig where
  path : Option (List UInt8)
  maxSize : Nat
  level : SqfsLogLevel
  deriving Repr, DecidableEq

/-- `sqfs_log_state_t` without its mutex. The open file is given by its path. -/
structure SqfsLogState where
  file : Option (List UInt8)
  path : Option (List UInt8)
  maxSize : Nat
  currentSize : Nat
  level : SqfsLogLevel
  initialized : Bool
  deriving Repr, DecidableEq

/-- `g_log`. The level is the one the program is compiled with, `SQFS_LOG_LEVEL`. -/
def gLog (sqfsLogLevel : SqfsLogLevel) : SqfsLogState where
  file := none
  path := none
  maxSize := sqfsLogDefaultMaxSize
  currentSize := 0
  level := sqfsLogLevel
  initialized := false

/-- The log, and the files by their paths. A file that does not exist is empty. -/
structure LogWorld where
  log : SqfsLogState
  files : List UInt8 → List UInt8

/-- What the C library answers in a call: whether `strdup`, `fopen`, `fstat`, `ftruncate` and the
allocations of escaped strings succeed, how much `fwrite` writes at most, and the time. -/
structure LogAnswers where
  duplicates : Bool
  opens : Bool
  statsFile : Bool
  truncates : Bool
  allocatesMsg : Bool
  allocatesFile : Bool
  written : Nat
  now : Option BrokenDownTime
  deriving Repr, DecidableEq

namespace LogWorld

/-- The part of `sqfs_log_init` that sets the configuration, once its path is duplicated. -/
def configured (sqfsLogLevel : SqfsLogLevel) (config : Option SqfsLogConfig)
    (log : SqfsLogState) : SqfsLogState :=
  match config with
  | none => log
  | some config =>
      { log with
        path := config.path.or log.path
        maxSize := if 0 < config.maxSize then config.maxSize else log.maxSize
        level := if config.level.value ≤ sqfsLogLevel.value then config.level else sqfsLogLevel }

/-- The part of `sqfs_log_init` that opens the file, once it is configured. -/
def openConfigured (answers : LogAnswers) (world : LogWorld) : Int × LogWorld :=
  if world.log.path.isNone && !answers.duplicates then
    (-1, world)
  else
    let path := world.log.path.getD sqfsLogDefaultPath
    if answers.opens then
      (0, { world with
        log := { world.log with
          file := some path
          path := some path
          currentSize := if answers.statsFile then (world.files path).length else 0
          initialized := true } })
    else
      (-1, { world with log := { world.log with file := none, path := none } })

/-- `sqfs_log_init`. Of the two calls of `strdup` at most one takes place. -/
def sqfsLogInit (sqfsLogLevel : SqfsLogLevel) (answers : LogAnswers)
    (config : Option SqfsLogConfig) (world : LogWorld) : Int × LogWorld :=
  if world.log.initialized then
    (0, world)
  else if (config.bind SqfsLogConfig.path).isSome && !answers.duplicates then
    (-1, { world with log := { world.log with path := none } })
  else
    openConfigured answers { world with log := configured sqfsLogLevel config world.log }

def sqfsLogDestroy (world : LogWorld) : LogWorld :=
  if world.log.initialized then
    { world with
      log := { world.log with
        file := none, path := none, currentSize := 0, initialized := false } }
  else
    world

/-- `sqfs_log_flush`. The files are given as they are once all buffers are written. -/
def sqfsLogFlush (world : LogWorld) : LogWorld := world

/-- The part of `sqfs_log` and of `sqfs_log_data` that opens the default file. -/
def autoInitialize (answers : LogAnswers) (world : LogWorld) : LogWorld :=
  if world.log.initialized then
    world
  else if answers.opens then
    { world with
      log := { world.log with
        file := some sqfsLogDefaultPath
        path := if answers.duplicates then some sqfsLogDefaultPath else none
        initialized := true } }
  else
    { world with log := { world.log with file := none } }

def checkAndRotate (answers : LogAnswers) (world : LogWorld) : LogWorld :=
  match world.log.file with
  | none => world
  | some path =>
      if world.log.maxSize ≠ 0 ∧ world.log.maxSize ≤ world.log.currentSize ∧
          answers.truncates = true then
        { log := { world.log with currentSize := 0 }
          files := Function.update world.files path [] }
      else
        world

/-- The part of `sqfs_log` and of `sqfs_log_data` that writes a line, if it fits its buffer. -/
def writeLine (answers : LogAnswers) (line : Option (List UInt8)) (world : LogWorld) :
    LogWorld :=
  match world.log.file, line with
  | some path, some line =>
      let written := line.take answers.written
      { log := { world.log with currentSize := u64 (world.log.currentSize + written.length) }
        files := Function.update world.files path (world.files path ++ written) }
  | _, _ => world

/-- A call of `sqfs_log` or of `sqfs_log_data`, given the line that it would write. -/
def logWith (sqfsLogLevel : SqfsLogLevel) (answers : LogAnswers) (level : SqfsLogLevel)
    (line : Sqfs (Option (List UInt8))) (world : LogWorld) : Sqfs LogWorld :=
  if sqfsLogLevel.value < level.value then
    pure world
  else if world.log.level.value < level.value then
    pure world
  else
    let world := world.autoInitialize answers
    if world.log.file.isNone then
      pure world
    else do
      let world := world.checkAndRotate answers
      let line ← line
      pure (world.writeLine answers line)

def sqfsLog (sqfsLogLevel : SqfsLogLevel) (answers : LogAnswers) (level : SqfsLogLevel)
    (module : SqfsModule) (file : Option (List Cell)) (line : Int) (formatted : List UInt8)
    (world : LogWorld) : Sqfs LogWorld :=
  world.logWith sqfsLogLevel answers level
    (SquashfsFuse.sqfsLog answers.allocatesMsg answers.allocatesFile answers.now level module file
      line formatted)

end LogWorld

/-! ## Lines with data -/

/-- What `sqfs_log_data` writes to its file, once the level is enabled and the file is open. -/
def sqfsLogData (allocatesMsg allocatesFile : Bool) (now : Option BrokenDownTime)
    (level : SqfsLogLevel) (module : SqfsModule) (file : Option (List Cell)) (line : Int)
    (msg jsonData : Option (List Cell)) : Sqfs (Option (List UInt8)) := do
  let escapedMsg ← jsonEscapeString allocatesMsg msg
  let msg ← escapedMsg.elim (pure []) readString
  let front := ascii "\x7b\"ts\":\"" ++ formatTimestamp now ++ ascii "\",\"level\":\"" ++
    level.name ++ ascii "\",\"module\":\"" ++ module.name ++ ascii "\",\"msg\":\"" ++ msg
  let data ← jsonData.elim (pure []) readString
  let logLine ←
    if data ≠ [] then
      match level with
      | .debug => do
          let escapedFile ← jsonEscapeString allocatesFile file
          let file ← escapedFile.elim (pure []) readString
          pure (front ++ ascii "\",\"data\":" ++ data ++ ascii ",\"file\":\"" ++ file ++
            ascii "\",\"line\":" ++ formatInt line ++ ascii "\x7d\n")
      | _ => pure (front ++ ascii "\",\"data\":" ++ data ++ ascii "\x7d\n")
    else
      pure (front ++ ascii "\"\x7d\n")
  pure (if logLine.length < 16384 then some logLine else none)

def LogWorld.sqfsLogData (sqfsLogLevel : SqfsLogLevel) (answers : LogAnswers)
    (level : SqfsLogLevel) (module : SqfsModule) (file : Option (List Cell)) (line : Int)
    (msg jsonData : Option (List Cell)) (world : LogWorld) : Sqfs LogWorld :=
  world.logWith sqfsLogLevel answers level
    (SquashfsFuse.sqfsLogData answers.allocatesMsg answers.allocatesFile answers.now level module
      file line msg jsonData)

end SquashfsFuse
