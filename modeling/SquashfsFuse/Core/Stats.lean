import SquashfsFuse.Core.LogFile

/-! The statistics (`stats.c`): counters, and the report of them. -/

namespace SquashfsFuse

/-! ## Counters -/

structure SqfsCacheStats where
  hits : UInt64
  misses : UInt64
  evictions : UInt64
  currentEntries : UInt64
  currentMemory : UInt64
  deriving Repr, DecidableEq, Inhabited

structure SqfsCompressorStats where
  decompressCount : UInt64
  decompressBytesIn : UInt64
  decompressBytesOut : UInt64
  decompressErrors : UInt64
  totalTimeUs : UInt64
  deriving Repr, DecidableEq, Inhabited

structure SqfsErrorStats where
  total : UInt64
  io : UInt64
  corrupt : UInt64
  noMemory : UInt64
  deriving Repr, DecidableEq, Inhabited

structure SqfsStats where
  startTime : Int
  lastReport : Int
  openCount : UInt64
  readCount : UInt64
  readBytes : UInt64
  readdirCount : UInt64
  getattrCount : UInt64
  lookupCount : UInt64
  cacheInode : SqfsCacheStats
  cacheDir : SqfsCacheStats
  cacheMeta : SqfsCacheStats
  cacheData : SqfsCacheStats
  compressor : SqfsCompressorStats
  errors : SqfsErrorStats
  deriving Repr, DecidableEq, Inhabited

inductive SqfsStatsCache
  | inode
  | dir
  | metadata
  | data
  deriving Repr, DecidableEq

namespace SqfsStats

def sqfsStatsInit (now : Int) : SqfsStats :=
  { (default : SqfsStats) with startTime := now, lastReport := now }

def sqfsStatsReset (now : Int) (stats : SqfsStats) : SqfsStats :=
  { (default : SqfsStats) with startTime := stats.startTime, lastReport := now }

/-- The member `cache_##cache`. -/
def updateCache (cache : SqfsStatsCache) (update : SqfsCacheStats → SqfsCacheStats)
    (stats : SqfsStats) : SqfsStats :=
  match cache with
  | .inode => { stats with cacheInode := update stats.cacheInode }
  | .dir => { stats with cacheDir := update stats.cacheDir }
  | .metadata => { stats with cacheMeta := update stats.cacheMeta }
  | .data => { stats with cacheData := update stats.cacheData }

end SqfsStats

/-- The functions and macros of `stats.h` that change the counters. -/
inductive SqfsStatsUpdate
  | reset (now : Int)
  | incOpen
  | incRead (bytes : UInt64)
  | incReaddir
  | incGetattr
  | incLookup
  | cacheHit (cache : SqfsStatsCache)
  | cacheMiss (cache : SqfsStatsCache)
  | cacheEvict (cache : SqfsStatsCache)
  | cacheUpdate (cache : SqfsStatsCache) (entries memory : UInt64)
  | compDecompress (inSize outSize timeUs : UInt64)
  | compError
  | errorIo
  | errorCorrupt
  | errorMemory
  deriving Repr, DecidableEq

def SqfsStats.perform (stats : SqfsStats) : SqfsStatsUpdate → SqfsStats
  | .reset now => stats.sqfsStatsReset now
  | .incOpen => { stats with openCount := stats.openCount + 1 }
  | .incRead bytes =>
      { stats with readCount := stats.readCount + 1, readBytes := stats.readBytes + bytes }
  | .incReaddir => { stats with readdirCount := stats.readdirCount + 1 }
  | .incGetattr => { stats with getattrCount := stats.getattrCount + 1 }
  | .incLookup => { stats with lookupCount := stats.lookupCount + 1 }
  | .cacheHit cache => stats.updateCache cache fun cache => { cache with hits := cache.hits + 1 }
  | .cacheMiss cache =>
      stats.updateCache cache fun cache => { cache with misses := cache.misses + 1 }
  | .cacheEvict cache =>
      stats.updateCache cache fun cache => { cache with evictions := cache.evictions + 1 }
  | .cacheUpdate cache entries memory =>
      stats.updateCache cache fun cache =>
        { cache with currentEntries := entries, currentMemory := memory }
  | .compDecompress inSize outSize timeUs =>
      { stats with
        compressor :=
          { stats.compressor with
            decompressCount := stats.compressor.decompressCount + 1
            decompressBytesIn := stats.compressor.decompressBytesIn + inSize
            decompressBytesOut := stats.compressor.decompressBytesOut + outSize
            totalTimeUs := stats.compressor.totalTimeUs + timeUs } }
  | .compError =>
      { stats with
        compressor :=
          { stats.compressor with decompressErrors := stats.compressor.decompressErrors + 1 } }
  | .errorIo =>
      { stats with
        errors := { stats.errors with io := stats.errors.io + 1, total := stats.errors.total + 1 } }
  | .errorCorrupt =>
      { stats with
        errors :=
          { stats.errors with
            corrupt := stats.errors.corrupt + 1, total := stats.errors.total + 1 } }
  | .errorMemory =>
      { stats with
        errors :=
          { stats.errors with
            noMemory := stats.errors.noMemory + 1, total := stats.errors.total + 1 } }

/-! ## The report -/

/-- The format `%lu` of a counter. -/
def formatCounter (counter : UInt64) : List UInt8 := decimal counter.toNat

def SqfsCompressorStats.avgDecompTime (stats : SqfsCompressorStats) : UInt64 :=
  if 0 < stats.decompressCount then stats.totalTimeUs / stats.decompressCount else 0

def SqfsCacheStats.report (stats : SqfsCacheStats) : List UInt8 :=
  ascii "\x7b\"hits\":" ++ formatCounter stats.hits ++
  ascii ",\"misses\":" ++ formatCounter stats.misses ++
  ascii ",\"evictions\":" ++ formatCounter stats.evictions ++
  ascii ",\"entries\":" ++ formatCounter stats.currentEntries ++
  ascii ",\"memory\":" ++ formatCounter stats.currentMemory ++ ascii "\x7d"

def SqfsStats.operationsReport (stats : SqfsStats) : List UInt8 :=
  ascii "\x7b\"open\":" ++ formatCounter stats.openCount ++
  ascii ",\"read\":" ++ formatCounter stats.readCount ++
  ascii ",\"read_bytes\":" ++ formatCounter stats.readBytes ++
  ascii ",\"readdir\":" ++ formatCounter stats.readdirCount ++
  ascii ",\"getattr\":" ++ formatCounter stats.getattrCount ++
  ascii ",\"lookup\":" ++ formatCounter stats.lookupCount ++ ascii "\x7d"

def SqfsStats.cacheReport (stats : SqfsStats) : List UInt8 :=
  ascii "\x7b\"inode\":" ++ stats.cacheInode.report ++
  ascii ",\"dir\":" ++ stats.cacheDir.report ++
  ascii ",\"meta\":" ++ stats.cacheMeta.report ++
  ascii ",\"data\":" ++ stats.cacheData.report ++ ascii "\x7d"

def SqfsCompressorStats.report (stats : SqfsCompressorStats) : List UInt8 :=
  ascii "\x7b\"calls\":" ++ formatCounter stats.decompressCount ++
  ascii ",\"bytes_in\":" ++ formatCounter stats.decompressBytesIn ++
  ascii ",\"bytes_out\":" ++ formatCounter stats.decompressBytesOut ++
  ascii ",\"errors\":" ++ formatCounter stats.decompressErrors ++
  ascii ",\"avg_time_us\":" ++ formatCounter stats.avgDecompTime ++ ascii "\x7d"

def SqfsErrorStats.report (stats : SqfsErrorStats) : List UInt8 :=
  ascii "\x7b\"total\":" ++ formatCounter stats.total ++
  ascii ",\"io\":" ++ formatCounter stats.io ++
  ascii ",\"corrupt\":" ++ formatCounter stats.corrupt ++
  ascii ",\"no_memory\":" ++ formatCounter stats.noMemory ++ ascii "\x7d"

/-- What `sqfs_stats_report` prints as data. -/
def SqfsStats.report (uptime : Int) (stats : SqfsStats) : List UInt8 :=
  ascii "\x7b\"uptime_sec\":" ++ formatInt uptime ++
  ascii ",\"operations\":" ++ stats.operationsReport ++
  ascii ",\"cache\":" ++ stats.cacheReport ++
  ascii ",\"compressor\":" ++ stats.compressor.report ++
  ascii ",\"errors\":" ++ stats.errors.report ++ ascii "\x7d"

/-- Hits of all lookups in a cache, as they are printed for `DEBUG`. -/
def SqfsCacheStats.summary (stats : SqfsCacheStats) : List UInt8 :=
  let total := stats.hits + stats.misses
  formatCounter stats.hits ++ ascii "/" ++ formatCounter (if 0 < total then total else 1)

/-- What `sqfs_stats_report` prints for `DEBUG`. -/
def SqfsStats.summary (uptime : Int) (stats : SqfsStats) : List UInt8 :=
  ascii "Stats: uptime=" ++ formatInt uptime ++ ascii "s, opens=" ++
  formatCounter stats.openCount ++ ascii ", reads=" ++ formatCounter stats.readCount ++
  ascii " (" ++ formatCounter stats.readBytes ++ ascii " bytes), " ++
  ascii "cache hits: inode=" ++ stats.cacheInode.summary ++ ascii " dir=" ++
  stats.cacheDir.summary ++ ascii " meta=" ++ stats.cacheMeta.summary ++ ascii " data=" ++
  stats.cacheData.summary

/-- `sqfs_stats_report`, called at a line of its file. The difference of two times overflows
outside 64 bits. -/
def LogWorld.sqfsStatsReport (sqfsLogLevel : SqfsLogLevel) (dataAnswers debugAnswers : LogAnswers)
    (file : Option (List Cell)) (dataLine debugLine : Int) (now : Int) (stats : SqfsStats)
    (world : LogWorld) : Sqfs LogWorld := do
  let uptime := now - stats.startTime
  if uptime < -2 ^ 63 ∨ 2 ^ 63 ≤ uptime then
    .fault
  else
    let report := stats.report uptime
    let world ←
      if report.length < 4096 then
        world.sqfsLogData sqfsLogLevel dataAnswers .info .fuse file dataLine
          (some (terminated (ascii "statistics report") []))
          (some (terminated report (List.replicate (4095 - report.length) none)))
      else
        pure world
    world.sqfsLog sqfsLogLevel debugAnswers .debug .fuse file debugLine (stats.summary uptime)

end SquashfsFuse
