import SquashfsFuse.Core.Inode
import SquashfsFuse.Foundation.Loop

/-! Directory listings (`directory.c`, `directory.h`). -/

namespace SquashfsFuse

/-- `sqfs_dirent_t`. The name stands without its terminating NUL. -/
structure SqfsDirent where
  name : List UInt8
  inodeNumber : Nat
  inodeRef : Nat
  type : InodeType
  deriving Repr, DecidableEq

structure SqfsDirHeader where
  count : Nat
  start : Nat
  inodeNumber : Nat
  deriving Repr, DecidableEq

/-! ## Directory data -/

/-- The locals of the block loop of `read_directory_data`: the bytes copied so far
and the position of the next block. -/
structure DirectoryDataState where
  copied : List UInt8
  blockPos : Nat

/-- One pass through the block loop of `read_directory_data`. -/
def readDirectoryDataPass (image : Image) (comp : Compressor) (size : Nat)
    (state : DirectoryDataState) : Pass DirectoryDataState (Sqfs (List UInt8)) :=
  if state.copied.length < size then
    match readMetaBlock image comp state.blockPos with
    | .ok (block, blockPos) =>
        .again { copied := state.copied ++ block.take (size - state.copied.length), blockPos }
    | .err code => .leave (.err code)
    | .fault => .leave .fault
  else
    .leave (.ok state.copied)

/-- `read_directory_data`. Every pass of the loop moves on by two bytes of the
image or more, so there is fuel enough. -/
def readDirectoryData (image : Image) (comp : Compressor)
    (dirTable blockIdx blockOffset size : Nat) : Sqfs (List UInt8) := do
  let (block, blockPos) ← readMetaBlock image comp (u64 (dirTable + blockIdx))
  if block.length ≤ blockOffset then
    .err .badDir
  else if blockOffset + size ≤ block.length then
    pure ((block.drop blockOffset).take size)
  else
    match Pass.iterate (readDirectoryDataPass image comp size) (image.bytes.length + 1)
        { copied := block.drop blockOffset, blockPos } with
    | some result => result
    | none => .fault

/-! ## Entries -/

def InodeType.ofBasicCode (code : Nat) : Option InodeType :=
  if code < 1 ∨ 7 < code then none else ofCode code

/-- The body of the entry loop of `parse_directory_entries` on the bytes from
`ptr` to `end`: the entry and the bytes behind it. -/
def parseDirectoryEntry (header : SqfsDirHeader) (rest : List UInt8) :
    Sqfs (SqfsDirent × List UInt8) :=
  if rest.length < 8 then
    .err .badDir
  else do
    let offset ← sqfsLe16ToCpu rest 0
    let inodeOffset ← sqfsLe16ToCpu rest 2
    let typeCode ← sqfsLe16ToCpu rest 4
    let nameSize ← sqfsLe16ToCpu rest 6
    let nameLen := u16 (nameSize + 1)
    if rest.length < 8 + nameLen then
      .err .badDir
    else
      match InodeType.ofBasicCode typeCode with
      | none => .err .badDir
      | some type => do
          let name ← Outcome.ofOption (slice rest 8 nameLen)
          let dirent := {
            name
            inodeNumber := ofInt64 (toInt header.inodeNumber + toInt16 inodeOffset)
            inodeRef := header.start <<< 16 ||| offset
            type }
          pure (dirent, rest.drop (8 + nameLen))

def parseDirectoryRun (header : SqfsDirHeader) :
    (entryCount : Nat) → List UInt8 → Sqfs (List SqfsDirent × List UInt8)
  | 0, rest => .ok ([], rest)
  | entryCount + 1, rest => do
      let (dirent, rest) ← parseDirectoryEntry header rest
      let (dirents, rest) ← parseDirectoryRun header entryCount rest
      pure (dirent :: dirents, rest)

/-- The body of the outer loop: a header and the entries it announces. Their
number is 32 bits wide. -/
def parseDirectoryHeader (rest : List UInt8) : Sqfs (List SqfsDirent × List UInt8) :=
  if rest.length < 12 then
    .err .badDir
  else do
    let count ← sqfsLe32ToCpu rest 0
    let start ← sqfsLe32ToCpu rest 4
    let inodeNumber ← sqfsLe32ToCpu rest 8
    parseDirectoryRun { count, start, inodeNumber } (u32 (count + 1)) (rest.drop 12)

/-- The outer loop. Every pass takes twelve bytes or more, so the number of bytes
is fuel enough. -/
def parseDirectoryLoop : (fuel : Nat) → List UInt8 → Sqfs (List SqfsDirent)
  | _, [] => .ok []
  | 0, _ :: _ => .fault
  | fuel + 1, byte :: rest => do
      let (dirents, rest) ← parseDirectoryHeader (byte :: rest)
      let others ← parseDirectoryLoop fuel rest
      pure (dirents ++ others)

def parseDirectoryEntries (data : List UInt8) : Sqfs (List SqfsDirent) :=
  parseDirectoryLoop data.length data

def sqfsDirRead (ctx : SqfsCtx) (dirInode : SqfsInode) : Sqfs (List SqfsDirent) :=
  if sqfsInodeIsDir dirInode.type = false then
    .err .badInode
  else if dirInode.get .dirSize = 0 then
    pure []
  else do
    let dirData ← readDirectoryData ctx.image ctx.comp ctx.sb.disk.dirTable
      (dirInode.get .dirBlockIdx) (dirInode.get .dirBlockOffset) (dirInode.get .dirSize)
    parseDirectoryEntries dirData

end SquashfsFuse
