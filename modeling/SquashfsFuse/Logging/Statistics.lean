import SquashfsFuse.Core.Stats
import SquashfsFuse.Logging.LogRuns

/-! What the report of the statistics leaves in the log file. -/

namespace SquashfsFuse

/-! ## The tree of a report -/

def SqfsCacheStats.tree (stats : SqfsCacheStats) : JsonTree :=
  .object (List.map numberMember
    [(ascii "hits", stats.hits.toNat), (ascii "misses", stats.misses.toNat),
      (ascii "evictions", stats.evictions.toNat), (ascii "entries", stats.currentEntries.toNat),
      (ascii "memory", stats.currentMemory.toNat)])

def SqfsStats.operationsTree (stats : SqfsStats) : JsonTree :=
  .object (List.map numberMember
    [(ascii "open", stats.openCount.toNat), (ascii "read", stats.readCount.toNat),
      (ascii "read_bytes", stats.readBytes.toNat), (ascii "readdir", stats.readdirCount.toNat),
      (ascii "getattr", stats.getattrCount.toNat), (ascii "lookup", stats.lookupCount.toNat)])

def SqfsStats.cacheTree (stats : SqfsStats) : JsonTree :=
  .object [(ascii "inode", stats.cacheInode.tree), (ascii "dir", stats.cacheDir.tree),
    (ascii "meta", stats.cacheMeta.tree), (ascii "data", stats.cacheData.tree)]

def SqfsCompressorStats.tree (stats : SqfsCompressorStats) : JsonTree :=
  .object (List.map numberMember
    [(ascii "calls", stats.decompressCount.toNat),
      (ascii "bytes_in", stats.decompressBytesIn.toNat),
      (ascii "bytes_out", stats.decompressBytesOut.toNat),
      (ascii "errors", stats.decompressErrors.toNat),
      (ascii "avg_time_us", stats.avgDecompTime.toNat)])

def SqfsErrorStats.tree (stats : SqfsErrorStats) : JsonTree :=
  .object (List.map numberMember
    [(ascii "total", stats.total.toNat), (ascii "io", stats.io.toNat),
      (ascii "corrupt", stats.corrupt.toNat), (ascii "no_memory", stats.noMemory.toNat)])

/-- What a report says. -/
def SqfsStats.tree (uptime : Int) (stats : SqfsStats) : List (List UInt8 × JsonTree) :=
  [(ascii "uptime_sec", .scalar (.number uptime)), (ascii "operations", stats.operationsTree),
    (ascii "cache", stats.cacheTree), (ascii "compressor", stats.compressor.tree),
    (ascii "errors", stats.errors.tree)]

/-! ## The bytes of a report -/

structure PrintsValue (length : Nat) (bytes : List UInt8) (value : JsonTree) : Prop where
  printed : JsonTreeValue JsonTreeMembers bytes value
  within : bytes.length ≤ length

/-- Members that are printed with at most so many bytes, the brace behind them included. -/
structure PrintsMembers (length : Nat) (bytes : List UInt8)
    (members : List (List UInt8 × JsonTree)) : Prop where
  printed : JsonTreeMembers bytes members
  within : bytes.length ≤ length

section Printing

variable {name valueBytes bytes : List UInt8} {value : JsonTree} {length others : Nat}
  {members : List (List UInt8 × JsonTree)}

theorem PrintsMembers.object (printed : PrintsMembers length bytes members) :
    PrintsValue (length + 1) (0x7b :: bytes) (.object members) :=
  ⟨.object printed.printed, Nat.succ_le_succ printed.within⟩

theorem PrintsValue.last (printed : PrintsValue length valueBytes value)
    (plain : PlainText name) (short : name.length ≤ 16) :
    PrintsMembers (length + 20) (0x22 :: (name ++ 0x22 :: 0x3a :: (valueBytes ++ [0x7d])))
      [(name, value)] where
  printed := .last (.of_plain plain) printed.printed
  within := by
    have within := printed.within
    simp only [List.length_cons, List.length_append, List.length_nil]
    omega

theorem PrintsMembers.cons (rest : PrintsMembers others bytes members)
    (printed : PrintsValue length valueBytes value) (plain : PlainText name)
    (short : name.length ≤ 16) :
    PrintsMembers (length + 20 + others)
      (0x22 :: (name ++ 0x22 :: 0x3a :: (valueBytes ++ 0x2c :: bytes)))
      ((name, value) :: members) where
  printed := .cons (.of_plain plain) printed.printed rest.printed
  within := by
    have within := printed.within
    have behind := rest.within
    simp only [List.length_cons, List.length_append]
    omega

end Printing

private theorem length_decimal_le (counter : UInt64) : (decimal counter.toNat).length ≤ 20 := by
  rw [decimal, List.length_map, Nat.length_toDigits_le_iff (by decide) (by decide)]
  have small := counter.toNat_lt
  omega

private theorem length_formatInt_le {number : Int} (low : -2 ^ 63 ≤ number) (high : number < 2 ^ 63) :
    (formatInt number).length ≤ 20 := by
  have digits : (decimal number.natAbs).length ≤ 19 := by
    rw [decimal, List.length_map, Nat.length_toDigits_le_iff (by decide) (by decide)]
    omega
  unfold formatInt
  split
  · rw [List.length_cons]
    omega
  · omega

theorem printsMembers_counters (first : List UInt8 × UInt64)
    (others : List (List UInt8 × UInt64))
    (plain : ∀ member ∈ first :: others, PlainText member.1 ∧ member.1.length ≤ 16) :
    PrintsMembers (40 * (others.length + 1))
      (numberMembers (first.1, first.2.toNat)
        (others.map fun member => (member.1, member.2.toNat)))
      ((first :: others).map fun member => numberMember (member.1, member.2.toNat)) := by
  have counter (counter : UInt64) :
      PrintsValue 20 (decimal counter.toNat) (.scalar (.number counter.toNat)) :=
    ⟨.scalar (jsonValue_decimal _), length_decimal_le counter⟩
  induction others generalizing first with
  | nil =>
      rcases plain first List.mem_cons_self with ⟨named, short⟩
      exact (counter first.2).last named short
  | cons next others induction =>
      rcases plain first List.mem_cons_self with ⟨named, short⟩
      have rest := induction next fun member inside => plain member (List.mem_cons_of_mem _ inside)
      have printed := rest.cons (counter first.2) named short
      refine ⟨printed.printed, printed.within.trans ?_⟩
      rw [List.length_cons]
      omega

section Parts

variable (stats : SqfsStats)

theorem SqfsCacheStats.printsValue (stats : SqfsCacheStats) :
    PrintsValue 201 stats.report stats.tree := by
  have object := (printsMembers_counters (ascii "hits", stats.hits)
    [(ascii "misses", stats.misses), (ascii "evictions", stats.evictions),
      (ascii "entries", stats.currentEntries), (ascii "memory", stats.currentMemory)]
    (by simp only [List.forall_mem_cons]; decide +kernel)).object
  simp only [SqfsCacheStats.report, List.append_assoc]
  exact object

theorem SqfsCompressorStats.printsValue (stats : SqfsCompressorStats) :
    PrintsValue 201 stats.report stats.tree := by
  have object := (printsMembers_counters (ascii "calls", stats.decompressCount)
    [(ascii "bytes_in", stats.decompressBytesIn), (ascii "bytes_out", stats.decompressBytesOut),
      (ascii "errors", stats.decompressErrors), (ascii "avg_time_us", stats.avgDecompTime)]
    (by simp only [List.forall_mem_cons]; decide +kernel)).object
  simp only [SqfsCompressorStats.report, List.append_assoc]
  exact object

theorem SqfsErrorStats.printsValue (stats : SqfsErrorStats) :
    PrintsValue 161 stats.report stats.tree := by
  have object := (printsMembers_counters (ascii "total", stats.total)
    [(ascii "io", stats.io), (ascii "corrupt", stats.corrupt),
      (ascii "no_memory", stats.noMemory)]
    (by simp only [List.forall_mem_cons]; decide +kernel)).object
  simp only [SqfsErrorStats.report, List.append_assoc]
  exact object

private theorem SqfsStats.printsValue_operations :
    PrintsValue 241 stats.operationsReport stats.operationsTree := by
  have object := (printsMembers_counters (ascii "open", stats.openCount)
    [(ascii "read", stats.readCount), (ascii "read_bytes", stats.readBytes),
      (ascii "readdir", stats.readdirCount), (ascii "getattr", stats.getattrCount),
      (ascii "lookup", stats.lookupCount)]
    (by simp only [List.forall_mem_cons]; decide +kernel)).object
  simp only [SqfsStats.operationsReport, List.append_assoc]
  exact object

private theorem SqfsStats.printsValue_cache :
    PrintsValue 885 stats.cacheReport stats.cacheTree := by
  have data := stats.cacheData.printsValue.last (by decide +kernel : PlainText (ascii "data"))
    (by decide +kernel)
  have metadata := data.cons stats.cacheMeta.printsValue
    (by decide +kernel : PlainText (ascii "meta")) (by decide +kernel)
  have dir := metadata.cons stats.cacheDir.printsValue
    (by decide +kernel : PlainText (ascii "dir")) (by decide +kernel)
  have object := (dir.cons stats.cacheInode.printsValue
    (by decide +kernel : PlainText (ascii "inode")) (by decide +kernel)).object
  simp only [SqfsStats.cacheReport, List.append_assoc]
  exact object

theorem SqfsStats.printsValue {uptime : Int} (low : -2 ^ 63 ≤ uptime) (high : uptime < 2 ^ 63) :
    PrintsValue 1609 (stats.report uptime) (.object (stats.tree uptime)) := by
  have number : PrintsValue 20 (formatInt uptime) (.scalar (.number uptime)) :=
    ⟨.scalar (jsonValue_formatInt uptime), length_formatInt_le low high⟩
  have errors := stats.errors.printsValue.last (by decide +kernel : PlainText (ascii "errors"))
    (by decide +kernel)
  have compressor := errors.cons stats.compressor.printsValue
    (by decide +kernel : PlainText (ascii "compressor")) (by decide +kernel)
  have cache := compressor.cons stats.printsValue_cache
    (by decide +kernel : PlainText (ascii "cache")) (by decide +kernel)
  have operations := cache.cons stats.printsValue_operations
    (by decide +kernel : PlainText (ascii "operations")) (by decide +kernel)
  have object := (operations.cons number
    (by decide +kernel : PlainText (ascii "uptime_sec")) (by decide +kernel)).object
  simp only [SqfsStats.report, List.append_assoc]
  exact object

end Parts

/-! ## Reports in the log -/

def SqfsErrorStats.Sums (stats : SqfsErrorStats) : Prop :=
  stats.total = stats.io + stats.corrupt + stats.noMemory

private theorem SqfsStats.sums_perform {stats : SqfsStats} (sums : stats.errors.Sums)
    (update : SqfsStatsUpdate) : (stats.perform update).errors.Sums := by
  have untouched (cache : SqfsStatsCache) (change : SqfsCacheStats → SqfsCacheStats) :
      (stats.updateCache cache change).errors = stats.errors := by
    cases cache <;> rfl
  unfold SqfsErrorStats.Sums at sums ⊢
  cases update with
  | cacheHit cache | cacheMiss cache | cacheEvict cache | cacheUpdate cache entries memory =>
      rw [SqfsStats.perform, untouched]
      exact sums
  | reset now => rfl
  | incOpen | incRead | incReaddir | incGetattr | incLookup | compDecompress | compError =>
      exact sums
  | errorIo | errorCorrupt | errorMemory =>
      simp only [SqfsStats.perform, sums]
      ac_rfl

private theorem SqfsStats.sums_performAll (updates : List SqfsStatsUpdate) {stats : SqfsStats}
    (sums : stats.errors.Sums) : (updates.foldl SqfsStats.perform stats).errors.Sums := by
  induction updates generalizing stats with
  | nil => exact sums
  | cons update updates induction => exact induction (SqfsStats.sums_perform sums update)

private theorem SqfsStats.startTime_performAll (updates : List SqfsStatsUpdate) (stats : SqfsStats) :
    (updates.foldl SqfsStats.perform stats).startTime = stats.startTime := by
  induction updates generalizing stats with
  | nil => rfl
  | cons update updates induction =>
      rw [List.foldl_cons, induction]
      cases update with
      | cacheHit cache | cacheMiss cache | cacheEvict cache | cacheUpdate cache entries memory =>
          cases cache <;> rfl
      | _ => rfl

structure ReportLine (uptime : Int) (stats : SqfsStats) (line : List UInt8) : Prop where
  reads : ∃ now message, readJsonTree line =
    some (dataMembers now .info .fuse message (some (stats.tree uptime)) [] 0, [0x0a])
  short : line.length < 16384

section Reports

variable {sqfsLogLevel level : SqfsLogLevel} {world : LogWorld} {answers : LogAnswers}
  {path : List UInt8}

private theorem LogWorld.logWith_enabled (initialized : world.log.initialized = true)
    (isOpen : world.log.file = some path) (compiled : level.value ≤ sqfsLogLevel.value)
    (enabled : level.value ≤ world.log.level.value) (line : Option (List UInt8)) :
    world.logWith sqfsLogLevel answers level (.ok line) =
      .ok ((world.checkAndRotate answers).writeLine answers line) := by
  have same : world.autoInitialize answers = world := by
    rw [LogWorld.autoInitialize, if_pos initialized]
  rw [LogWorld.logWith, if_neg (Nat.not_lt.mpr compiled), if_neg (Nat.not_lt.mpr enabled)]
  dsimp only
  rw [same, isOpen]
  rfl

private theorem LogWorld.logWith_disabled
    (disabled : sqfsLogLevel.value < level.value ∨ world.log.level.value < level.value)
    (line : Sqfs (Option (List UInt8))) :
    world.logWith sqfsLogLevel answers level line = .ok world := by
  rw [LogWorld.logWith]
  rcases disabled with disabled | disabled
  · rw [if_pos disabled]
    rfl
  · rw [if_pos disabled, ite_self]
    rfl

private theorem LogWorld.writeLine_whole (isOpen : world.log.file = some path) {line : List UInt8}
    (whole : line.length ≤ answers.written) :
    (world.writeLine answers (some line)).files =
      Function.update world.files path (world.files path ++ line) := by
  unfold LogWorld.writeLine
  rw [isOpen]
  dsimp only
  rw [List.take_of_length_le whole]

private theorem LogWorld.checkAndRotate_log (answers : LogAnswers) :
    (world.checkAndRotate answers).log.file = world.log.file ∧
      (world.checkAndRotate answers).log.level = world.log.level := by
  unfold LogWorld.checkAndRotate
  cases file : world.log.file with
  | none => exact ⟨file, rfl⟩
  | some path =>
      dsimp only
      split
      · exact ⟨file, rfl⟩
      · exact ⟨file, rfl⟩

private theorem LogWorld.writeLine_log (line : Option (List UInt8)) :
    (world.writeLine answers line).log.level = world.log.level := by
  unfold LogWorld.writeLine
  cases world.log.file <;> cases line <;> rfl

private theorem length_lineFront_le (now : Option BrokenDownTime) (bytes : List UInt8) :
    (lineFront now .info .fuse bytes).length ≤ bytes.length + 100 := by
  have stamp : (formatTimestamp now).length ≤ 31 := by
    cases now with
    | none => decide +kernel
    | some time => exact List.length_take_le ..
  have names : (ascii "\"ts\":\"").length + (ascii "\",\"level\":\"").length +
      SqfsLogLevel.info.name.length + (ascii "\",\"module\":\"").length +
      SqfsModule.fuse.name.length + (ascii "\",").length ≤ 60 := by decide +kernel
  simp only [lineFront, List.length_append]
  omega

private theorem SqfsStats.reportLine (allocatesMsg allocatesFile : Bool) (now : Option BrokenDownTime)
    (file : Option (List UInt8)) (line : Int) (stats : SqfsStats) {uptime : Int}
    (low : -2 ^ 63 ≤ uptime) (high : uptime < 2 ^ 63) (behind : List Cell) :
    ∃ written, sqfsLogData allocatesMsg allocatesFile now .info .fuse
        (file.map fun text => terminated text []) line
        (some (terminated (ascii "statistics report") []))
        (some (terminated (stats.report uptime) behind)) = .ok (some written) ∧
      ReportLine uptime stats written := by
  have printed := stats.printsValue low high
  have reads : ∃ bytes, stats.report uptime = 0x7b :: bytes ∧
      JsonTreeMembers bytes (stats.tree uptime) := by
    have value := printed.printed
    generalize stats.report uptime = report at value
    cases value with
    | object inner => exact ⟨_, rfl, inner⟩
  rcases reads with ⟨bytes, object, inner⟩
  have data : DataReads (stats.report uptime) (some (stats.tree uptime)) := ⟨bytes, object, inner⟩
  have same : cString (stats.report uptime) = stats.report uptime := cString_of_notMem data.noNul
  have message : (((escapedText allocatesMsg (some (ascii "statistics report"))).getD []).flatMap
      escapeByte).length ≤ 17 := by
    cases allocatesMsg <;> decide +kernel
  have logged := sqfsLogData_eq allocatesMsg allocatesFile now .info .fuse file
    (some (ascii "statistics report")) (some (stats.report uptime)) [] behind line
  simp only [Option.map_some, Option.getD_some, same] at logged
  have members {msg message path name : List UInt8} (stands : JsonBody msg message)
      (named : JsonBody path name) : JsonTreeMembers
        (lineFront now .info .fuse
          (ascii "\"msg\":\"" ++ dataTail .info msg (stats.report uptime) path line))
        (dataMembers now .info .fuse message (some (stats.tree uptime)) name line) :=
    jsonTreeMembers_data now stands data named line
  have short : (dataLine now .info .fuse
      (((escapedText allocatesMsg (some (ascii "statistics report"))).getD []).flatMap escapeByte)
      (stats.report uptime)
      (((escapedText allocatesFile file).getD []).flatMap escapeByte) line).length < 16384 := by
    have front := length_lineFront_le now (ascii "\"msg\":\"" ++ dataTail .info
      (((escapedText allocatesMsg (some (ascii "statistics report"))).getD []).flatMap escapeByte)
      (stats.report uptime)
      (((escapedText allocatesFile file).getD []).flatMap escapeByte) line)
    have quoted : (ascii "\"msg\":\"").length = 7 := by decide +kernel
    have named : (ascii "\",\"data\":").length = 9 := by decide +kernel
    have closing : (ascii "\x7d").length = 1 := by decide +kernel
    have report := printed.within
    have some_ : stats.report uptime ≠ [] := by
      rw [object]
      exact List.cons_ne_nil _ _
    rw [dataTail, if_pos some_, if_neg (by decide)] at front
    rw [dataLine, dataTail, if_pos some_, if_neg (by decide)]
    simp only [List.length_append, List.length_cons, List.length_nil] at front ⊢
    omega
  rw [if_pos short] at logged
  exact ⟨_, logged,
    ⟨now, _, (members (jsonBody_escaped _) (jsonBody_escaped _)).reads_tree [0x0a]⟩, short⟩

/-- Whatever was counted since the start: as long as messages for `DEBUG` are not enabled, a
report is one more line in the log. It is never too long for its buffers, and it is read back as
the counters that were printed. In them the errors of the three kinds make up the total. -/
theorem sqfsStatsReport_readsBack (answers debugAnswers : LogAnswers)
    (file : Option (List UInt8)) (dataLine debugLine start now : Int)
    (updates : List SqfsStatsUpdate) (low : -2 ^ 63 ≤ now - start) (high : now - start < 2 ^ 63)
    (initialized : world.log.initialized = true) (isOpen : world.log.file = some path)
    (compiled : SqfsLogLevel.info.value ≤ sqfsLogLevel.value)
    (enabled : SqfsLogLevel.info.value ≤ world.log.level.value)
    (noDebug : sqfsLogLevel.value < SqfsLogLevel.debug.value ∨
      world.log.level.value < SqfsLogLevel.debug.value)
    (whole : 16384 ≤ answers.written) :
    let stats := updates.foldl SqfsStats.perform (SqfsStats.sqfsStatsInit start)
    let rotated := (world.checkAndRotate answers).files
    stats.errors.Sums ∧
      ∃ line after, ReportLine (now - start) stats line ∧
        world.sqfsStatsReport sqfsLogLevel answers debugAnswers
          (file.map fun text => terminated text []) dataLine debugLine now stats = .ok after ∧
        after.files = Function.update rotated path (rotated path ++ line) := by
  have started : (updates.foldl SqfsStats.perform (SqfsStats.sqfsStatsInit start)).startTime =
      start := SqfsStats.startTime_performAll updates _
  intro stats rotated
  refine ⟨SqfsStats.sums_performAll updates rfl, ?_⟩
  have range : ¬(now - start < -2 ^ 63 ∨ 2 ^ 63 ≤ now - start) := by omega
  have fits := (stats.printsValue low high).within
  rcases stats.reportLine answers.allocatesMsg answers.allocatesFile answers.now file dataLine low
    high (List.replicate (4095 - (stats.report (now - start)).length) none) with
    ⟨line, logged, reads⟩
  rcases world.checkAndRotate_log answers with ⟨sameFile, sameLevel⟩
  have short : line.length ≤ answers.written := (Nat.le_of_lt reads.short).trans whole
  refine ⟨line, _, reads, ?_, LogWorld.writeLine_whole (sameFile.trans isOpen) short⟩
  have disabled : sqfsLogLevel.value < SqfsLogLevel.debug.value ∨
      ((world.checkAndRotate answers).writeLine answers (some line)).log.level.value <
        SqfsLogLevel.debug.value := by
    rw [LogWorld.writeLine_log, sameLevel]
    exact noDebug
  rw [LogWorld.sqfsStatsReport, started, if_neg range]
  dsimp only
  rw [if_pos (by omega), LogWorld.sqfsLogData, logged,
    LogWorld.logWith_enabled initialized isOpen compiled enabled, Outcome.ok_bind,
    LogWorld.sqfsLog, LogWorld.logWith_disabled disabled]

end Reports

def openedLog : LogWorld where
  log :=
    { file := some sqfsLogDefaultPath
      path := some sqfsLogDefaultPath
      maxSize := sqfsLogDefaultMaxSize
      currentSize := 6
      level := .info
      initialized := true }
  files := fun _ => ascii "before"

theorem sqfsStatsReport_readsBack_openedLog :
    let updates : List SqfsStatsUpdate :=
      [.incOpen, .errorCorrupt, .incRead 4096, .cacheHit .metadata, .compDecompress 12 4096 7]
    let stats := updates.foldl SqfsStats.perform (SqfsStats.sqfsStatsInit 1000)
    let rotated := (openedLog.checkAndRotate .working).files
    stats.errors.Sums ∧
      ∃ line after, ReportLine (1060 - 1000) stats line ∧
        openedLog.sqfsStatsReport .debug .working .working
          ((some (ascii "stats.c")).map fun text => terminated text []) 190 195 1060 stats =
            .ok after ∧
        after.files = Function.update rotated sqfsLogDefaultPath
          (rotated sqfsLogDefaultPath ++ line) :=
  sqfsStatsReport_readsBack .working .working (some (ascii "stats.c")) 190 195 1000 1060 _
    (by decide) (by decide) rfl rfl (by decide) (by decide) (.inr (by decide)) (by decide)

end SquashfsFuse
