import SquashfsFuse.Core.Fragment

/-! The fragment table as an object that calls update, with an allocator that may fail
(`fragment.c`). -/

namespace SquashfsFuse

/-- `sqfs_fragment_table_t`. The array is `none` where the source has a null pointer. -/
structure FragmentTableObject where
  entries : Option (List SqfsFragEntry)
  count : Nat
  loaded : Bool
  deriving Repr, DecidableEq

def sqfsFragmentTableInit : FragmentTableObject where
  entries := none
  count := 0
  loaded := false

/-- Which allocations of a call of `sqfs_fragment_table_load` succeed: of the entries, of
the list of positions, of the buffer for the unpacked blocks, and of the buffer for the
packed bytes of each block. -/
structure LoadAllocations where
  entries : Bool
  index : Bool
  blockBuf : Bool
  readBuf : Nat → Bool

/-- `sqfs_meta_read_block`, where the buffer for the packed bytes may not be allocated. -/
def sqfsMetaReadBlockAlloc (image : Image) (comp : Compressor) (readBuf : Bool) (pos : Nat) :
    Sqfs (List UInt8) := do
  let header ← (readMetaHeader image pos).mapErr fun _ => .io
  if header.size = 0 ∨ sqfsMetaBlockSize < header.size then
    .err .corrupt
  else if header.uncompressed then
    readBlockFromDisk image header.size (pos + 2)
  else if header.size < sqfsMetaBlockSize then do
    let stored ← readBlockFromDisk image header.size (pos + 2)
    sqfsCompressorDecompress comp .tailOfOutput stored sqfsMetaBlockSize
  else if readBuf = false then
    .err .noMemory
  else do
    let stored ← readBlockFromDisk image header.size (pos + 2)
    sqfsCompressorDecompress comp .separate stored sqfsMetaBlockSize

/-- `read_fragment_table_index` behind the allocation of the list. The source returns early
for a count of zero, with which it is not called. -/
def readFragmentTableIndexAlloc (image : Image) (index : Bool) (tablePos fragCount : Nat) :
    Sqfs (List Nat) :=
  if index = false then .err .noMemory else readFragmentTableIndex image tablePos fragCount

/-- The loop of `load_fragment_entries` over the remaining metadata blocks. -/
def loadFragmentEntriesLoop (image : Image) (comp : Compressor) (fragCount : Nat) :
    (readBuf : Nat → Bool) → List Nat → List SqfsFragEntry → Sqfs (List SqfsFragEntry)
  | _, [], entries => pure entries
  | readBuf, blockPos :: rest, entries => do
      let block ← sqfsMetaReadBlockAlloc image comp (readBuf 0) blockPos
      let entriesInBlock := min (fragCount - entries.length) fragmentEntriesPerBlock
      if block.length < entriesInBlock * 16 then
        .err .corrupt
      else do
        let copied ← (List.range entriesInBlock).mapM fun i =>
          Outcome.ofOption (SqfsFragEntry.ofBytes block (i * 16))
        loadFragmentEntriesLoop image comp fragCount (fun i => readBuf (i + 1)) rest
          (entries ++ copied)

/-- `load_fragment_entries` into an array of zeros: the array it leaves. -/
def loadFragmentEntriesAlloc (image : Image) (comp : Compressor) (alloc : LoadAllocations)
    (fragCount : Nat) (index : List Nat) : Sqfs (List SqfsFragEntry) :=
  if alloc.blockBuf = false then
    .err .noMemory
  else do
    let entries ← loadFragmentEntriesLoop image comp fragCount alloc.readBuf index []
    pure (entries ++ List.replicate (fragCount - entries.length) ⟨0, 0, 0⟩)

/-- `sqfs_fragment_table_load` on the table: what it returns, and the table behind it. -/
def sqfsFragmentTableLoadObject (image : Image) (sb : SqfsSuperblock) (comp : Compressor)
    (alloc : LoadAllocations) (table : FragmentTableObject) :
    Sqfs Unit × FragmentTableObject :=
  let fragCount := sb.disk.fragCount
  if table.loaded then
    (.ok (), table)
  else if sb.hasFragments = false ∨ fragCount = 0 then
    (.ok (), { entries := none, count := 0, loaded := true })
  else if alloc.entries = false then
    (.err .noMemory, { table with entries := none })
  else
    -- The array is in the table before anything is read into it.
    let table := { table with entries := some (List.replicate fragCount ⟨0, 0, 0⟩) }
    match readFragmentTableIndexAlloc image alloc.index sb.disk.fragTable fragCount with
    | .fault => (.fault, table)
    | .err error => (.err error, { table with entries := none })
    | .ok [] => (.ok (), { table with count := fragCount, loaded := true })
    | .ok index =>
        match loadFragmentEntriesAlloc image comp alloc fragCount index with
        | .fault => (.fault, table)
        | .err error => (.err error, { table with entries := none })
        | .ok entries => (.ok (), { entries := some entries, count := fragCount, loaded := true })

/-- `sqfs_fragment_get_entry` on the table. -/
def sqfsFragmentGetEntryObject (table : FragmentTableObject) (idx : Nat) :
    Sqfs SqfsFragEntry :=
  if table.loaded = false then
    .err .corrupt
  else if table.count ≤ idx then
    .err .notFound
  else do
    let entries ← Outcome.ofOption table.entries
    Outcome.ofOption entries[idx]?

end SquashfsFuse
