import SquashfsFuse.Core.Cache
import SquashfsFuse.Core.Inode

/-! The fragment table and reads from fragment blocks (`fragment.c`). -/

namespace SquashfsFuse

/-! ## The fragment table -/

def fragmentEntriesPerBlock : Nat := 512

def SqfsFragEntry.ofBytes (bytes : List UInt8) (offset : Nat) : Option SqfsFragEntry := do
  return {
    start := ← loadLe 8 bytes offset
    size := ← loadLe 4 bytes (offset + 8)
    unused := ← loadLe 4 bytes (offset + 12) }

theorem SqfsFragEntry.ofBytes_isSome {bytes : List UInt8} {offset : Nat}
    (inside : offset + 16 ≤ bytes.length) : (ofBytes bytes offset).isSome = true := by
  rcases @loadLe_of_le 8 offset bytes (by omega) with ⟨start, startLoaded⟩
  rcases @loadLe_of_le 4 (offset + 8) bytes (by omega) with ⟨size, sizeLoaded⟩
  rcases @loadLe_of_le 4 (offset + 12) bytes (by omega) with ⟨unused, unusedLoaded⟩
  rw [ofBytes, startLoaded, sizeLoaded, unusedLoaded]
  rfl

/-- `read_fragment_table_index`: the positions of the metadata blocks. -/
def readFragmentTableIndex (image : Image) (tablePos fragCount : Nat) : Sqfs (List Nat) := do
  let numBlocks :=
    u32 (fragCount + fragmentEntriesPerBlock - 1) / fragmentEntriesPerBlock
  let index ← sqfsPreadAll image (numBlocks * 8) tablePos
  (List.range numBlocks).mapM fun i => sqfsLe64ToCpu index (i * 8)

/-- The loop of `load_fragment_entries` over the remaining metadata blocks. -/
def loadFragmentEntries (image : Image) (comp : Compressor) (fragCount : Nat) :
    List Nat → List SqfsFragEntry → Sqfs (List SqfsFragEntry)
  | [], entries => pure entries
  | blockPos :: rest, entries => do
      let block ← sqfsMetaReadBlock image comp blockPos
      let entriesInBlock := min (fragCount - entries.length) fragmentEntriesPerBlock
      if block.length < entriesInBlock * 16 then
        .err .corrupt
      else do
        let copied ← (List.range entriesInBlock).mapM fun i =>
          Outcome.ofOption (SqfsFragEntry.ofBytes block (i * 16))
        loadFragmentEntries image comp fragCount rest (entries ++ copied)

/-- `sqfs_fragment_table_load` on a table that is not loaded yet. -/
def sqfsFragmentTableLoad (image : Image) (sb : SqfsSuperblock) (comp : Compressor) :
    Sqfs SqfsFragmentTable :=
  if sb.hasFragments = false ∨ sb.disk.fragCount = 0 then
    pure { entries := [], loaded := true }
  else do
    let index ← readFragmentTableIndex image sb.disk.fragTable sb.disk.fragCount
    let entries ← loadFragmentEntries image comp sb.disk.fragCount index []
    -- What no metadata block fills keeps the zeros of `sqfs_calloc`.
    let unfilled := List.replicate (sb.disk.fragCount - entries.length) ⟨0, 0, 0⟩
    pure { entries := entries ++ unfilled, loaded := true }

def sqfsFragmentIsNone (fragIdx : Nat) : Bool := fragIdx == fragmentInvalid

def sqfsFragmentGetEntry (ctx : SqfsCtx) (idx : Nat) : Sqfs SqfsFragEntry := do
  let table ← Outcome.ofOption ctx.fragmentTable
  if table.loaded = false then
    .err .corrupt
  else
    match table.entries[idx]? with
    | none => .err .notFound
    | some entry => pure entry

/-! ## Fragment blocks -/

def sqfsFragmentLocation (ctx : SqfsCtx) (fragIdx : Nat) : Sqfs SqfsFragEntry :=
  if sqfsFragmentIsNone fragIdx then
    .err .notFound
  else do
    let entry ← sqfsFragmentGetEntry ctx fragIdx
    if entry.start = 0 ∧ entry.size = 0 then
      .err .corrupt
    else
      pure entry

/-- `sqfs_fragment_read_block` into a buffer of one block: the bytes of the
buffer that `out_size` covers. -/
def sqfsFragmentReadBlock (ctx : SqfsCtx) (fragIdx : Nat) : Sqfs (List UInt8) := do
  let entry ← sqfsFragmentLocation ctx fragIdx
  let actualSize := sqfsBlockSizeGet entry.size
  let blockBufSize := ctx.sb.blockSize
  if sqfsBlockIsUncompressed entry.size then
    sqfsPreadInto ctx.image blockBufSize actualSize entry.start
  else do
    -- Shorter blocks are read into the end of the output buffer.
    let placement := if actualSize < blockBufSize then .tailOfOutput else .separate
    let stored ← sqfsPreadAll ctx.image actualSize entry.start
    sqfsCompressorDecompress ctx.comp placement stored blockBufSize

/-! ## The cache of unpacked blocks -/

/-- An entry of the data cache. The two users of the cache,
`sqfs_data_block_entry_t` and `sqfs_fragment_t`, have one layout; `data` are
the first `data_size` bytes of the buffer. -/
structure BlockEntry where
  address : Nat
  data : List UInt8
  isCached : Bool
  deriving Repr, DecidableEq

/-- `sizeof` of either entry structure. -/
def blockEntrySize : Nat := 32

/-- What the readers do with the data cache and its entries: look a key up, put
an entry under a key, allocate an entry, free an entry that is not kept. -/
structure BlockCache (C : Type) where
  get : C → Nat → Option (C × Option BlockEntry)
  put : C → Nat → BlockEntry → Nat → Option (C × PutResult)
  new : C → C × Nat
  free : C → Nat → C

/-- The data cache of a context together with a ledger of its entries: how many
the readers have allocated and which of them they have freed themselves. -/
structure DataCache where
  cache : SqfsCache BlockEntry
  created : Nat
  released : List Nat

/-- The operations of `cache.c` on the data cache, with
`sqfs_data_block_cache_new`, `sqfs_fragment_cache_entry_new` and
`sqfs_fragment_cache_entry_free`. -/
def dataCache : BlockCache DataCache where
  get state key :=
    (sqfsCacheGet state.cache key).map fun (cache, found) => ({ state with cache }, found)
  put state key entry memorySize :=
    (sqfsCachePut state.cache key entry memorySize).map fun (cache, result) =>
      ({ state with cache }, result)
  new state := ({ state with created := state.created + 1 }, state.created)
  free state address := { state with released := address :: state.released }

/-- A cache in which every lookup misses. -/
def missingCache : BlockCache Unit where
  get state _ := some (state, none)
  put state _ _ _ := some (state, .e2big)
  new state := (state, 0)
  free state _ := state

def sqfsFragmentCacheKey (fragIdx : Nat) : Nat := fragIdx

/-- What `sqfs_fragment_read` copies out of a fragment block. Behind the end
of the block it delivers zeros. -/
def copyFromFragment (blockSize : Nat) (data : List UInt8) (offset size : Nat) :
    List UInt8 :=
  if data.length < offset then
    List.replicate (min size (blockSize - offset)) 0
  else
    (data.drop offset).take size

/-- The part of `sqfs_fragment_read` behind a cache miss. An entry the cache
does not accept is freed after its bytes are copied. -/
def fragmentReadMissing (cache : BlockCache C) (ctx : SqfsCtx) (state : C)
    (fragIdx offset size : Nat) : Outcome (SqfsError × C) (List UInt8 × C) :=
  let (state, address) := cache.new state
  match sqfsFragmentReadBlock ctx fragIdx with
  | .fault => .fault
  | .err error => .err (error, cache.free state address)
  | .ok data =>
      let frag : BlockEntry := { address, data, isCached := true }
      match cache.put state (sqfsFragmentCacheKey fragIdx) frag
          (blockEntrySize + ctx.sb.blockSize) with
      | none => .fault
      | some (state, result) =>
          let bytes := copyFromFragment ctx.sb.blockSize data offset size
          .ok (bytes, if result = .stored then state else cache.free state address)

/-- `sqfs_fragment_read`: the bytes written to the buffer and the cache. An
error comes with the cache as the calls before it left it. -/
def sqfsFragmentRead (cache : BlockCache C) (ctx : SqfsCtx) (state : C)
    (fragIdx offset size : Nat) : Outcome (SqfsError × C) (List UInt8 × C) :=
  if sqfsFragmentIsNone fragIdx then
    .err (.notFound, state)
  else if ctx.sb.blockSize ≤ offset then
    .err (.corrupt, state)
  else
    match cache.get state (sqfsFragmentCacheKey fragIdx) with
    | none => .fault
    | some (state, frag) =>
        match frag.filter BlockEntry.isCached with
        | some frag => .ok (copyFromFragment ctx.sb.blockSize frag.data offset size, state)
        | none => fragmentReadMissing cache ctx state fragIdx offset size

end SquashfsFuse
