import SquashfsFuse.Core.Data
import SquashfsFuse.Foundation.Interleaving

/-! The readers of `data.c` and `fragment.c` as programs of threads that share the data cache.
A program stops before each of its calls, and other threads may take steps there. -/

namespace SquashfsFuse

/-! ## The shared cache -/

/-- What a reader does with the data cache and its entries: the two halves of `sqfs_cache_get`,
the second one with the entry that was found; reading an entry; allocating an entry and putting
it; allocating an entry and freeing it; freeing an entry. -/
inductive ReaderCall
  | lookUp (key : Nat)
  | move (key : Nat) (entry : BlockEntry)
  | copy (entry : BlockEntry)
  | offer (key : Nat) (data : List UInt8) (memorySize : Nat)
  | discard
  | free (address : Nat)
  deriving Repr, DecidableEq

/-- An entry that is offered has an address, which no one else knows before it is put. -/
abbrev ReaderCall.Answer : ReaderCall → Type
  | .lookUp _ => Option BlockEntry
  | .offer _ _ _ => Nat × PutResult
  | _ => Unit

/-- The data cache as threads share it. An entry cannot be read when `free_fn` is called on it
before the reading has ended. -/
def sharedDataCache : SharedObject DataCache ReaderCall ReaderCall.Answer
  | state, .lookUp key =>
      (sqfsCacheGetLookup state.cache key).map fun (cache, found) => (found, { state with cache })
  | state, .move key _ =>
      (sqfsCacheGetMove state.cache key).map fun cache => ((), { state with cache })
  | state, .copy entry => if entry ∈ state.cache.freed then none else some ((), state)
  | state, .offer key data memorySize =>
      let (state, address) := dataCache.new state
      (dataCache.put state key { address, data, isCached := true } memorySize).map
        fun (state, result) => ((address, result), state)
  | state, .discard =>
      let (state, address) := dataCache.new state
      some ((), dataCache.free state address)
  | state, .free address => some ((), dataCache.free state address)

abbrev CacheProgram := Program ReaderCall ReaderCall.Answer

/-- `sqfs_cache_get`, and the reading of the entry it returns. -/
def lookUpProgram (key : Nat) : CacheProgram (Option BlockEntry) :=
  .call (.lookUp key) fun found =>
    match found with
    | none => .done none
    | some entry =>
        .call (.move key entry) fun _ => .call (.copy entry) fun _ => .done (some entry)

/-! ## Fragments -/

/-- The part of `sqfs_fragment_read` behind a cache miss. The bytes are copied out of the entry
when it was put already. -/
def fragmentReadMissingProgram (ctx : SqfsCtx) (fragIdx offset size : Nat) :
    CacheProgram (Sqfs (List UInt8)) :=
  match sqfsFragmentReadBlock ctx fragIdx with
  | .fault => .done .fault
  | .err error => .call .discard fun _ => .done (.err error)
  | .ok data =>
      let bytes := copyFromFragment ctx.sb.blockSize data offset size
      .call (.offer (sqfsFragmentCacheKey fragIdx) data (blockEntrySize + ctx.sb.blockSize))
        fun (address, result) =>
          .call (.copy { address, data, isCached := true }) fun _ =>
            if result = .stored then
              .done (.ok bytes)
            else
              .call (.free address) fun _ => .done (.ok bytes)

/-- `sqfs_fragment_read`. -/
def sqfsFragmentReadProgram (ctx : SqfsCtx) (fragIdx offset size : Nat) :
    CacheProgram (Sqfs (List UInt8)) :=
  if sqfsFragmentIsNone fragIdx then
    .done (.err .notFound)
  else if ctx.sb.blockSize ≤ offset then
    .done (.err .corrupt)
  else
    (lookUpProgram (sqfsFragmentCacheKey fragIdx)).bind fun frag =>
      match frag.filter BlockEntry.isCached with
      | some frag => .done (.ok (copyFromFragment ctx.sb.blockSize frag.data offset size))
      | none => fragmentReadMissingProgram ctx fragIdx offset size

/-! ## Passes of the main loop -/

/-- The end of the fragment branch, with what `read_from_fragment` returned and wrote. -/
def tailReturned (state : ReadState Unit) (ret : Int) (bytes : List Cell) : ReadResult Unit where
  ret := if ret < 0 then ret else toInt (state.bytesRead + ret.toNat)
  out := state.out ++ bytes
  cache := ()

def readTailProgram (ctx : SqfsCtx) (file : SqfsFileCtx) (blockOffset : Nat)
    (state : ReadState Unit) : CacheProgram (Option (ReadResult Unit)) :=
  (sqfsFragmentReadProgram ctx file.fragIdx (u32 (file.fragOffset + blockOffset))
    state.bytesRemaining).map fun
      | .ok bytes => some (tailReturned state (toInt bytes.length) (bytes.map some))
      | .err _ => some (tailReturned state (toInt state.bytesRemaining)
          (List.replicate state.bytesRemaining (some 0)))
      | .fault => none

def readMissingProgram (ctx : SqfsCtx) (file : SqfsFileCtx) (location : BlockLocation)
    (blockOffset : Nat) (state : ReadState Unit) :
    CacheProgram (Pass (ReadState Unit) (Option (ReadResult Unit))) :=
  match sqfsDataReadBlock ctx.image ctx.comp location.pos location.size state.blockBuf
      file.blockSize with
  | .fault => .done (.leave none)
  | .err error => .done (.leave (some (state.returned error.code)))
  | .ok (blockBuf, actualSize) =>
      let data := (blockBuf.take actualSize).map (Option.getD · 0)
      let toCopy := min (min (file.blockSize - blockOffset) state.bytesRemaining)
        (sub64 actualSize blockOffset)
      let next := { state with blockBuf }.copied ((blockBuf.drop blockOffset).take toCopy)
      if data.length = 0 then
        .done (.again next)
      else
        .call (.offer (sqfsDataBlockCacheKey location.pos) data (blockEntrySize + data.length))
          fun _ => .done (.again next)

def readStoredProgram (ctx : SqfsCtx) (file : SqfsFileCtx) (location : BlockLocation)
    (blockOffset : Nat) (state : ReadState Unit) :
    CacheProgram (Pass (ReadState Unit) (Option (ReadResult Unit))) :=
  (lookUpProgram (sqfsDataBlockCacheKey location.pos)).bind fun cached =>
    match copyFromCached cached blockOffset state.bytesRemaining with
    | some bytes => .done (.again (state.copied bytes))
    | none => readMissingProgram ctx file location blockOffset state

/-- One pass through the main loop of `sqfs_data_read_internal`. -/
def readPassProgram (ctx : SqfsCtx) (file : SqfsFileCtx) (offset : Nat)
    (state : ReadState Unit) : CacheProgram (Pass (ReadState Unit) (Option (ReadResult Unit))) :=
  if state.bytesRemaining = 0 then
    .done (.leave (some (state.returned (toInt state.bytesRead))))
  else
    let blockIdx := u32 (u64 (offset + state.bytesRead) / file.blockSize)
    let blockOffset := u64 (offset + state.bytesRead) % file.blockSize
    if blockIdx = file.blockCount ∧ sqfsFragmentIsNone file.fragIdx = false then
      (readTailProgram ctx file blockOffset state).map .leave
    else
      match sqfsFileBlockLocation file blockIdx with
      | .fault => .done (.leave none)
      | .err error =>
          if error = .notFound ∧ blockIdx = file.blockCount then
            let state := state.copied (List.replicate state.bytesRemaining (some 0))
            .done (.leave (some (state.returned (toInt state.bytesRead))))
          else
            .done (.leave (some (state.returned error.code)))
      | .ok location =>
          if location.size = 0 then
            let toCopy := min (file.blockSize - blockOffset) state.bytesRemaining
            .done (.again (state.copied (List.replicate toCopy (some 0))))
          else
            readStoredProgram ctx file location blockOffset state

end SquashfsFuse
