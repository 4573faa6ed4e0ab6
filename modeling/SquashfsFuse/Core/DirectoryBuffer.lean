import SquashfsFuse.Core.Directory

/-! `parse_directory_entries` on the buffer it is given (`directory.c`). -/

namespace SquashfsFuse

/-! ## The buffer -/

/-- The arguments `data` and `size`: the memory from `data` on, and how much of it the
function may look at. -/
structure DirectoryBuffer where
  memory : Storage
  size : UInt32

namespace DirectoryBuffer

/-- `end` as an offset from `data`. -/
def end_ (buffer : DirectoryBuffer) : Nat := buffer.size.toNat

/-- Load an integer at `ptr`. Outside of `[data, end)` the load has no meaning. -/
def load (buffer : DirectoryBuffer) (width ptr : Nat) : Sqfs Nat :=
  if ptr + width ≤ buffer.end_ then pure (buffer.memory.load ptr width) else .fault

/-- Copy bytes from `ptr`. -/
def copy (buffer : DirectoryBuffer) (length ptr : Nat) : Sqfs (List UInt8) :=
  if ptr + length ≤ buffer.end_ then pure (buffer.memory.bytesAt ptr length) else .fault

end DirectoryBuffer

/-! ## The array of entries -/

/-- The locals of `parse_directory_entries`: `ptr` as an offset from `data`, the entries
filled in so far, how many there is room for, and how often memory was asked for. -/
structure DirectoryCursor where
  ptr : Nat
  entries : List SqfsDirent
  capacity : Nat
  requests : Nat

/-- The part of the entry loop that grows the array. Whether the allocator serves its
`n`-th request is `allocates n`. -/
def growDirents (allocates : Nat → Bool) (cursor : DirectoryCursor) : Sqfs DirectoryCursor :=
  if cursor.capacity ≤ cursor.entries.length then
    if allocates cursor.requests then
      pure { cursor with
        capacity := if cursor.capacity = 0 then 16 else u64 (cursor.capacity * 2)
        requests := cursor.requests + 1 }
    else
      .err .noMemory
  else
    pure cursor

def fillDirent (buffer : DirectoryBuffer) (allocates : Nat → Bool) (header : SqfsDirHeader)
    (cursor : DirectoryCursor) (offset inodeOffset nameLen : Nat) (type : InodeType) :
    Sqfs DirectoryCursor :=
  if cursor.capacity ≤ cursor.entries.length then
    .fault
  else if allocates cursor.requests = false then
    .err .noMemory
  else do
    let name ← buffer.copy nameLen (cursor.ptr + 8)
    let dirent := {
      name
      inodeNumber := ofInt64 (toInt header.inodeNumber + toInt16 inodeOffset)
      inodeRef := header.start <<< 16 ||| offset
      type }
    pure { cursor with
      ptr := cursor.ptr + (8 + nameLen)
      entries := cursor.entries ++ [dirent]
      requests := cursor.requests + 1 }

/-! ## The loops -/

def readDirent (buffer : DirectoryBuffer) (allocates : Nat → Bool) (header : SqfsDirHeader)
    (cursor : DirectoryCursor) : Sqfs DirectoryCursor :=
  if sub64 buffer.end_ cursor.ptr < 8 then
    .err .badDir
  else do
    let offset ← buffer.load 2 cursor.ptr
    let inodeOffset ← buffer.load 2 (cursor.ptr + 2)
    let typeCode ← buffer.load 2 (cursor.ptr + 4)
    let nameSize ← buffer.load 2 (cursor.ptr + 6)
    let nameLen := u16 (nameSize + 1)
    if sub64 buffer.end_ cursor.ptr < 8 + nameLen then
      .err .badDir
    else
      match InodeType.ofBasicCode typeCode with
      | none => .err .badDir
      | some type => do
          let cursor ← growDirents allocates cursor
          fillDirent buffer allocates header cursor offset inodeOffset nameLen type

def direntPass (buffer : DirectoryBuffer) (allocates : Nat → Bool) (header : SqfsDirHeader)
    (entryCount : Nat) (state : Nat × DirectoryCursor) :
    Pass (Nat × DirectoryCursor) (Sqfs DirectoryCursor) :=
  if state.1 < entryCount then
    match readDirent buffer allocates header state.2 with
    | .ok cursor => .again (u32 (state.1 + 1), cursor)
    | .err code => .leave (.err code)
    | .fault => .leave .fault
  else
    .leave (.ok state.2)

/-- The entry loop. Every pass takes eight bytes or more, so there is fuel enough. -/
def readDirents (buffer : DirectoryBuffer) (allocates : Nat → Bool) (header : SqfsDirHeader)
    (entryCount : Nat) (cursor : DirectoryCursor) : Sqfs DirectoryCursor :=
  match Pass.iterate (direntPass buffer allocates header entryCount) (buffer.end_ + 1)
      (0, cursor) with
  | some result => result
  | none => .fault

def readDirentRun (buffer : DirectoryBuffer) (allocates : Nat → Bool)
    (cursor : DirectoryCursor) : Sqfs DirectoryCursor :=
  if sub64 buffer.end_ cursor.ptr < 12 then
    .err .badDir
  else do
    let count ← buffer.load 4 cursor.ptr
    let start ← buffer.load 4 (cursor.ptr + 4)
    let inodeNumber ← buffer.load 4 (cursor.ptr + 8)
    readDirents buffer allocates { count, start, inodeNumber } (u32 (count + 1))
      { cursor with ptr := cursor.ptr + 12 }

def direntRunPass (buffer : DirectoryBuffer) (allocates : Nat → Bool)
    (cursor : DirectoryCursor) : Pass DirectoryCursor (Sqfs DirectoryCursor) :=
  if cursor.ptr < buffer.end_ then
    match readDirentRun buffer allocates cursor with
    | .ok cursor => .again cursor
    | .err code => .leave (.err code)
    | .fault => .leave .fault
  else
    .leave (.ok cursor)

/-- The outer loop. Every pass takes twelve bytes or more, so there is fuel enough. -/
def readDirentRuns (buffer : DirectoryBuffer) (allocates : Nat → Bool)
    (cursor : DirectoryCursor) : Sqfs DirectoryCursor :=
  match Pass.iterate (direntRunPass buffer allocates) (buffer.end_ + 1) cursor with
  | some result => result
  | none => .fault

/-! ## The function -/

/-- What the output parameters `entries` and `count` point to. -/
structure DirectoryOutput where
  entries : Option (List SqfsDirent)
  count : Nat

/-- The locals at the start. -/
def DirectoryCursor.initial : DirectoryCursor where
  ptr := 0
  entries := []
  capacity := 0
  requests := 0

/-- `parse_directory_entries`: the value returned, and the output parameters after the
call. -/
def parseDirectoryBuffer (buffer : DirectoryBuffer) (allocates : Nat → Bool)
    (output : DirectoryOutput) : Option (Int × DirectoryOutput) :=
  match readDirentRuns buffer allocates .initial with
  | .ok cursor =>
      -- Nothing is allocated before the first entry.
      let entries := if cursor.capacity = 0 then none else some cursor.entries
      some (0, { entries, count := cursor.entries.length })
  | .err code => some (code.code, output)
  | .fault => none

end SquashfsFuse
