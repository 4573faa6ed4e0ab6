import SquashfsFuse.Core.Fragment
import SquashfsFuse.Foundation.Loop

/-! Reading file data (`data.c`). -/

namespace SquashfsFuse

/-! ## The file context -/

structure SqfsFileCtx where
  fileSize : Nat
  blocksStart : Nat
  blockSize : Nat
  blockCount : Nat
  tailSize : Nat
  fragIdx : Nat
  fragOffset : Nat
  blockSizes : List Nat
  deriving Repr, DecidableEq

/-- `calculate_block_layout`: the number of blocks and the size of the tail. -/
def calculateBlockLayout (fileSize blockSize fragIdx : Nat) : Nat × Nat :=
  if fileSize = 0 then
    (0, 0)
  else
    let blockCount := u32 (fileSize / blockSize)
    let tailSize := u32 (fileSize % blockSize)
    if 0 < tailSize ∧ sqfsFragmentIsNone fragIdx then
      (u32 (blockCount + 1), tailSize)
    else
      (blockCount, tailSize)

def sqfsFileCtxInit (sb : SqfsSuperblock) (inode : SqfsInode) :
    Except SqfsError SqfsFileCtx :=
  if sqfsInodeIsFile inode.type = false then
    .error .badInode
  else
    let fileSize := inode.get .fileFileSize
    let fragIdx := inode.get .fileFragIdx
    let layout := calculateBlockLayout fileSize sb.blockSize fragIdx
    pure {
      fileSize
      blocksStart := inode.get .fileBlocksStart
      blockSize := sb.blockSize
      blockCount := layout.1
      tailSize := layout.2
      fragIdx
      fragOffset := inode.get .fileBlockOffset
      blockSizes := inode.blockSizes }

/-- A file inode with the given members and nothing else set. -/
def SqfsInode.ofFile (fileSize blocksStart fragIdx blockOffset : Nat)
    (blockSizes : List Nat) : SqfsInode :=
  let inode := { SqfsInode.calloc with type := .file, blockSizes }
  (((inode.set .fileFileSize fileSize).set .fileBlocksStart blocksStart).set
    .fileFragIdx fragIdx).set .fileBlockOffset blockOffset

structure BlockLocation where
  pos : Nat
  size : Nat
  deriving Repr, DecidableEq

def sqfsFileBlockLocation (file : SqfsFileCtx) (blockIdx : Nat) : Sqfs BlockLocation :=
  if file.blockCount ≤ blockIdx then
    if blockIdx = file.blockCount ∧ sqfsFragmentIsNone file.fragIdx = false then
      .err .notFound
    else
      .err .badBlock
  else do
    let size ← Outcome.ofOption file.blockSizes[blockIdx]?
    if size = 0 then
      pure { pos := 0, size := 0 }
    else
      let pos := (file.blockSizes.take blockIdx).foldl
        (fun pos word => u64 (pos + sqfsBlockSizeGet word)) file.blocksStart
      pure { pos, size }

/-! ## Data blocks -/

/-- A byte of a buffer, `none` while its value is indeterminate. -/
abbrev Cell := Option UInt8

/-- `sqfs_data_read_block`: the buffer after the call and the size returned. A
decompressor leaves nothing certain behind its output. -/
def sqfsDataReadBlock (image : Image) (comp : Compressor) (blockPos blockSize : Nat)
    (blockBuf : List Cell) (uncompSize : Nat) : Sqfs (List Cell × Nat) :=
  if blockSize = 0 then
    pure (List.replicate uncompSize (some 0), uncompSize)
  else
    let actualSize := sqfsBlockSizeGet blockSize
    if sqfsBlockIsUncompressed blockSize then do
      let stored ← (sqfsPreadInto image uncompSize actualSize blockPos).mapErr fun _ => .io
      pure (stored.map some ++ blockBuf.drop actualSize, actualSize)
    else do
      -- Shorter blocks are read into the end of the output buffer.
      let placement := if actualSize ≤ uncompSize then .tailOfOutput else .separate
      let stored ← readBlockFromDisk image actualSize blockPos
      let output ← sqfsCompressorDecompress comp placement stored uncompSize
      pure (output.map some ++ List.replicate (uncompSize - output.length) none, output.length)

def sqfsDataBlockCacheKey (blockPos : Nat) : Nat := blockPos

/-! ## Reading from a file -/

/-- The variables the main loop of `sqfs_data_read_internal` carries, with the
bytes written to the caller's buffer and the state of the cache. -/
structure ReadState (C : Type) where
  bytesRead : Nat
  bytesRemaining : Nat
  out : List Cell
  blockBuf : List Cell
  cache : C

/-- What a call of `sqfs_data_read` ends in: its return value, the bytes written
to the caller's buffer and the cache afterwards. -/
structure ReadResult (C : Type) where
  ret : Int
  out : List Cell
  cache : C

namespace ReadState

/-- Append copied bytes to the output. -/
def copied (state : ReadState C) (bytes : List Cell) : ReadState C :=
  { state with
    bytesRead := state.bytesRead + bytes.length
    bytesRemaining := state.bytesRemaining - bytes.length
    out := state.out ++ bytes }

def returned (state : ReadState C) (ret : Int) : ReadResult C :=
  { ret, out := state.out, cache := state.cache }

end ReadState

/-- `read_from_fragment`: the value returned, the bytes written and the cache.
Every error is answered with zeros. -/
def readFromFragment (cache : BlockCache C) (ctx : SqfsCtx) (state : C)
    (fragIdx fragOffset size : Nat) : Option (Int × List Cell × C) :=
  match sqfsFragmentRead cache ctx state fragIdx fragOffset size with
  | .ok (bytes, state) => some (toInt bytes.length, bytes.map some, state)
  | .err (_, state) => some (toInt size, List.replicate size (some 0), state)
  | .fault => none

def readTail (cache : BlockCache C) (ctx : SqfsCtx) (file : SqfsFileCtx)
    (blockOffset : Nat) (state : ReadState C) : Option (ReadResult C) := do
  let (ret, bytes, after) ← readFromFragment cache ctx state.cache file.fragIdx
    (u32 (file.fragOffset + blockOffset)) state.bytesRemaining
  let out := state.out ++ bytes
  if ret < 0 then
    some { ret, out, cache := after }
  else
    some { ret := toInt (state.bytesRead + ret.toNat), out, cache := after }

/-- What a cache hit copies. An entry that does not reach behind the position
is not used. -/
def copyFromCached (cached : Option BlockEntry) (blockOffset bytesRemaining : Nat) :
    Option (List Cell) := do
  let entry ← cached.filter BlockEntry.isCached
  let toCopy := min (sub64 entry.data.length blockOffset) bytesRemaining
  if 0 < toCopy ∧ blockOffset < entry.data.length then
    some (((entry.data.drop blockOffset).take toCopy).map some)
  else
    none

/-- Offer a block that was read to the cache. Nothing becomes of an entry the
cache does not accept. -/
def offerBlock (cache : BlockCache C) (state : C) (blockPos : Nat) (data : List UInt8) :
    Option C :=
  if data.length = 0 then
    some state
  else
    let (state, address) := cache.new state
    (cache.put state (sqfsDataBlockCacheKey blockPos) { address, data, isCached := true }
      (blockEntrySize + data.length)).map Prod.fst

def readMissing (cache : BlockCache C) (ctx : SqfsCtx) (file : SqfsFileCtx)
    (location : BlockLocation) (blockOffset : Nat) (state : ReadState C) :
    Pass (ReadState C) (Option (ReadResult C)) :=
  match sqfsDataReadBlock ctx.image ctx.comp location.pos location.size state.blockBuf
      file.blockSize with
  | .fault => .leave none
  | .err error => .leave (some (state.returned error.code))
  | .ok (blockBuf, actualSize) =>
      let data := (blockBuf.take actualSize).map (Option.getD · 0)
      match offerBlock cache state.cache location.pos data with
      | none => .leave none
      | some after =>
          let toCopy := min (min (file.blockSize - blockOffset) state.bytesRemaining)
            (sub64 actualSize blockOffset)
          .again ({ state with blockBuf, cache := after }.copied
            ((blockBuf.drop blockOffset).take toCopy))

def readStored (cache : BlockCache C) (ctx : SqfsCtx) (file : SqfsFileCtx)
    (location : BlockLocation) (blockOffset : Nat) (state : ReadState C) :
    Pass (ReadState C) (Option (ReadResult C)) :=
  match cache.get state.cache (sqfsDataBlockCacheKey location.pos) with
  | none => .leave none
  | some (after, cached) =>
      let state := { state with cache := after }
      match copyFromCached cached blockOffset state.bytesRemaining with
      | some bytes => .again (state.copied bytes)
      | none => readMissing cache ctx file location blockOffset state

/-- One pass through the main loop of `sqfs_data_read_internal`. -/
def readPass (cache : BlockCache C) (ctx : SqfsCtx) (file : SqfsFileCtx) (offset : Nat)
    (state : ReadState C) : Pass (ReadState C) (Option (ReadResult C)) :=
  if state.bytesRemaining = 0 then
    .leave (some (state.returned (toInt state.bytesRead)))
  else
    let blockIdx := u32 (u64 (offset + state.bytesRead) / file.blockSize)
    let blockOffset := u64 (offset + state.bytesRead) % file.blockSize
    if blockIdx = file.blockCount ∧ sqfsFragmentIsNone file.fragIdx = false then
      .leave (readTail cache ctx file blockOffset state)
    else
      match sqfsFileBlockLocation file blockIdx with
      | .fault => .leave none
      | .err error =>
          if error = .notFound ∧ blockIdx = file.blockCount then
            let state := state.copied (List.replicate state.bytesRemaining (some 0))
            .leave (some (state.returned (toInt state.bytesRead)))
          else
            .leave (some (state.returned error.code))
      | .ok location =>
          if location.size = 0 then
            let toCopy := min (file.blockSize - blockOffset) state.bytesRemaining
            .again (state.copied (List.replicate toCopy (some 0)))
          else
            readStored cache ctx file location blockOffset state

/-- How a call of `sqfs_data_read` starts: it returns at once, or enters the
main loop. -/
inductive ReadStart (C : Type)
  | returns (ret : Int)
  | loops (file : SqfsFileCtx) (state : ReadState C)

/-- `sqfs_data_read_internal` up to its main loop. -/
def readStart (ctx : SqfsCtx) (cache : C) (inode : SqfsInode) (offset size : Nat) :
    ReadStart C :=
  match sqfsFileCtxInit ctx.sb inode with
  | .error error => .returns error.code
  | .ok file =>
      if file.fileSize ≤ offset then
        .returns 0
      else
        let size := if file.fileSize < u64 (offset + size) then file.fileSize - offset else size
        if size = 0 then
          .returns 0
        else
          .loops file {
            bytesRead := 0
            bytesRemaining := size
            out := []
            blockBuf := List.replicate file.blockSize none
            cache }

/-- A call of `sqfs_data_read` ends in a result, `none` standing for a fault.
The main loop of a call need not end. -/
def SqfsDataRead (cache : BlockCache C) (ctx : SqfsCtx) (state : C) (inode : SqfsInode)
    (offset size : Nat) (result : Option (ReadResult C)) : Prop :=
  match readStart ctx state inode offset size with
  | .returns ret => result = some { ret, out := [], cache := state }
  | .loops file start => Pass.Returns (readPass cache ctx file offset) start result

end SquashfsFuse
