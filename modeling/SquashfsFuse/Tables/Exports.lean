import SquashfsFuse.Core.Export
import SquashfsFuse.Fuse.ImageLayout
import SquashfsFuse.Inode.Layout
import SquashfsFuse.Metadata.Lookup
import SquashfsFuse.Vfs.Absence

/-! The export table: what a lookup by inode number returns. -/

namespace SquashfsFuse

/-! ## Metadata blocks in a buffer -/

def StartsWith (buffer : List Cell) (bytes : List UInt8) : Prop :=
  buffer.take bytes.length = bytes.map some

section Buffers

variable {image : Image} {comp : Compressor} {pos : Nat}

private theorem mapM_id_some (bytes : List UInt8) : (bytes.map some).mapM id = some bytes := by
  induction bytes with
  | nil => rfl
  | cons byte bytes induction => simp [List.mapM_cons, induction]

private theorem startsWith_append (bytes : List UInt8) (rest : List Cell) :
    StartsWith (bytes.map some ++ rest) bytes := by
  have front := @List.take_left _ (bytes.map some) rest
  rwa [List.length_map] at front

private theorem sqfsPreadOnto_of_read {count offset : Nat} {part : List UInt8} (buffer : List Cell)
    (read : readBlockFromDisk image count offset = .ok part) (nonempty : count ≠ 0) :
    StartsWith (sqfsPreadOnto image buffer 0 count offset) part := by
  have found := readBlockFromDisk_eq_ok.mp read
  have bound := Image.diskBytes_bound found nonempty
  have size := image.sizeInOffT
  rw [Image.diskBytes, if_neg nonempty] at found
  have inRange : ¬ 2 ^ 63 ≤ offset + count := by omega
  rw [sqfsPreadOnto]
  simp only [if_neg inRange, ← (slice_eq_some.mp found).2, List.take_zero, List.nil_append]
  exact startsWith_append part _

def DeliversBlock (read : Sqfs (List UInt8)) (delivered : Sqfs Nat × List Cell) : Prop :=
  delivered.1 = List.length <$> read ∧
    ∀ block, read = .ok block → StartsWith delivered.2 block

theorem DeliversBlock.of_fault (buffer : List Cell) : DeliversBlock .fault (.fault, buffer) := by
  constructor
  · rfl
  · intro block equal
    cases equal

theorem DeliversBlock.of_err (error : SqfsError) (buffer : List Cell) :
    DeliversBlock (.err error) (.err error, buffer) := by
  constructor
  · rfl
  · intro block equal
    cases equal

private theorem unpackOnto_delivers (placement : Placement) (stored : Sqfs (List UInt8))
    (buffer : List Cell) :
    DeliversBlock (stored >>= fun part =>
        sqfsCompressorDecompress comp placement part sqfsMetaBlockSize)
      (unpackOnto comp placement stored buffer) := by
  cases stored with
  | fault => exact .of_fault _
  | err error => exact .of_err error _
  | ok part =>
      rw [unpackOnto, Outcome.ok_bind]
      cases unpacked : sqfsCompressorDecompress comp placement part sqfsMetaBlockSize with
      | fault => exact .of_fault _
      | err error => exact .of_err error _
      | ok output =>
          constructor
          · rfl
          · intro block equal
            cases equal
            exact startsWith_append output _

/-- The two forms of `sqfs_meta_read_block` agree. -/
theorem sqfsMetaReadBlockOnto_delivers (image : Image) (comp : Compressor) (pos : Nat)
    (buffer : List Cell) :
    DeliversBlock (sqfsMetaReadBlock image comp pos)
      (sqfsMetaReadBlockOnto image comp pos buffer) := by
  rw [sqfsMetaReadBlockOnto, sqfsMetaReadBlock]
  cases (readMetaHeader image pos).mapErr fun _ => SqfsError.io with
  | fault => exact .of_fault _
  | err error => exact .of_err error _
  | ok header =>
      simp only [Outcome.ok_bind]
      split
      · exact .of_err _ _
      · next sizeValid =>
          by_cases uncompressed : header.uncompressed = true
          · simp only [if_pos uncompressed]
            constructor
            · cases readBlockFromDisk image header.size (pos + 2) <;> rfl
            · intro block read
              rcases Outcome.bind_eq_ok.mp read with ⟨stored, read, same⟩
              cases same
              exact sqfsPreadOnto_of_read buffer read fun zero => sizeValid (.inl zero)
          · simp only [if_neg uncompressed]
            by_cases short : header.size < sqfsMetaBlockSize
            · simp only [if_pos short]
              exact unpackOnto_delivers _ _ _
            · simp only [if_neg short]
              exact unpackOnto_delivers _ _ _

end Buffers

/-! ## The cache -/

def referenceIn (block : List UInt8) (indexInBlock : Nat) : Sqfs Nat :=
  if block.length < indexInBlock * 8 + 8 then
    .err .notFound
  else
    sqfsLe64ToCpu block (indexInBlock * 8)

namespace ExportCache

structure Holds (cache : ExportCache) (block : List UInt8) : Prop where
  buffered : ∃ cells, cache.metaBlock = some cells ∧ StartsWith cells block
  size : cache.metaSize = block.length

/-- If the cache answers for the address, then with the block that the image has there. -/
def Serves (cache : ExportCache) (ctx : SqfsCtx) (addr : Nat) : Prop :=
  cache.metaBlock.isSome = true → cache.metaBlockAddr = addr →
    ∃ block, sqfsMetaReadBlock ctx.image ctx.comp addr = .ok block ∧ cache.Holds block

/-- The cache agrees with the image. -/
def Current (cache : ExportCache) (ctx : SqfsCtx) : Prop :=
  ∀ addr, addr ≠ 0 → cache.Serves ctx addr

theorem initial_current (ctx : SqfsCtx) : initial.Current ctx := by
  intro addr _ allocated
  cases allocated

variable {ctx : SqfsCtx} {cache : ExportCache} {addr : Nat}

theorem Holds.reference {block : List UInt8} (holds : cache.Holds block) (idx : Nat) :
    cache.reference idx = referenceIn block idx := by
  rcases holds.buffered with ⟨cells, buffered, starts⟩
  rw [ExportCache.reference, referenceIn, holds.size]
  split
  · rfl
  · next inside =>
      have kept : (cells.drop (idx * 8)).take 8 =
          ((block.drop (idx * 8)).take 8).map some := by
        have front : (cells.drop (idx * 8)).take 8 =
            ((cells.take block.length).drop (idx * 8)).take 8 := by
          rw [List.drop_take, List.take_take, Nat.min_eq_left (by omega)]
        rw [front, starts, List.map_take, List.map_drop]
      have inside : (block.take (idx * 8)).length = idx * 8 := by
        rw [List.length_take]
        omega
      have placed := loadLe_append_of_le 8 (block.take (idx * 8)) (block.drop (idx * 8)) (idx * 8)
        (Nat.le_of_eq inside)
      rw [List.take_append_drop, inside, Nat.sub_self] at placed
      rw [buffered, Outcome.ofOption_some, Outcome.ok_bind, kept, mapM_id_some,
        Outcome.ofOption_some, Outcome.ok_bind, sqfsLe64ToCpu, sqfsLe64ToCpu,
        loadLe_take 8 _ 0 8 (Nat.le_refl 8), placed]

def overwritten (ctx : SqfsCtx) (cache : ExportCache) (addr : Nat) : List Cell :=
  (sqfsMetaReadBlockOnto ctx.image ctx.comp addr
    (cache.metaBlock.getD (List.replicate sqfsMetaBlockSize none))).2

section Miss

variable (miss : ¬ (cache.metaBlock.isSome ∧ cache.metaBlockAddr = addr))

include miss

theorem fill_of_read {block : List UInt8}
    (read : sqfsMetaReadBlock ctx.image ctx.comp addr = .ok block) :
    StartsWith (cache.overwritten ctx addr) block ∧
      cache.fill ctx addr = (.ok (), {
        metaBlock := some (cache.overwritten ctx addr)
        metaSize := block.length
        metaBlockAddr := addr }) := by
  have delivers := sqfsMetaReadBlockOnto_delivers ctx.image ctx.comp addr
    (cache.metaBlock.getD (List.replicate sqfsMetaBlockSize none))
  rw [fill, if_neg miss, overwritten]
  dsimp only
  cases delivered : sqfsMetaReadBlockOnto ctx.image ctx.comp addr
    (cache.metaBlock.getD (List.replicate sqfsMetaBlockSize none)) with | mk result buffer =>
  rw [delivered] at delivers
  rcases delivers with ⟨same, starts⟩
  rw [read] at same
  cases same
  exact ⟨starts block read, rfl⟩

theorem fill_of_unread
    (unread : ∀ block, sqfsMetaReadBlock ctx.image ctx.comp addr ≠ .ok block) :
    cache.fill ctx addr = ((fun _ => ()) <$> sqfsMetaReadBlock ctx.image ctx.comp addr,
      { cache with metaBlock := some (cache.overwritten ctx addr) }) := by
  have delivers := sqfsMetaReadBlockOnto_delivers ctx.image ctx.comp addr
    (cache.metaBlock.getD (List.replicate sqfsMetaBlockSize none))
  rw [fill, if_neg miss, overwritten]
  dsimp only
  cases delivered : sqfsMetaReadBlockOnto ctx.image ctx.comp addr
    (cache.metaBlock.getD (List.replicate sqfsMetaBlockSize none)) with | mk result buffer =>
  rw [delivered] at delivers
  rcases delivers with ⟨same, -⟩
  cases read : sqfsMetaReadBlock ctx.image ctx.comp addr with
  | fault =>
      rw [read] at same
      cases same
      rfl
  | err error =>
      rw [read] at same
      cases same
      rfl
  | ok block => exact absurd read (unread block)

end Miss

private theorem fill_of_serves (serves : cache.Serves ctx addr) :
    (cache.fill ctx addr).1 = (fun _ => ()) <$> sqfsMetaReadBlock ctx.image ctx.comp addr ∧
      ∀ block, sqfsMetaReadBlock ctx.image ctx.comp addr = .ok block →
        (cache.fill ctx addr).2.Holds block := by
  by_cases hit : cache.metaBlock.isSome ∧ cache.metaBlockAddr = addr
  · rcases serves hit.1 hit.2 with ⟨block, read, holds⟩
    rw [fill, if_pos hit, read]
    constructor
    · rfl
    · intro other equal
      cases equal
      exact holds
  · by_cases unread : ∀ block, sqfsMetaReadBlock ctx.image ctx.comp addr ≠ .ok block
    · rw [fill_of_unread hit unread]
      exact ⟨rfl, fun block read => absurd read (unread block)⟩
    · rcases not_forall_not.mp unread with ⟨block, read⟩
      rcases fill_of_read hit read with ⟨starts, filled⟩
      rw [filled, read]
      constructor
      · rfl
      · intro other equal
        cases equal
        exact ⟨⟨_, rfl, starts⟩, rfl⟩

end ExportCache

/-! ## Lookups -/

/-- The reference that `sqfs_inode_load` hands on to `sqfs_inode_get_by_ref`. -/
def loadedReference (ctx : SqfsCtx) (cache : ExportCache) (inodeNum : Nat) : Sqfs Nat := do
  let addr ← exportMetaBlockAddr ctx inodeNum
  let (filled, cache) := cache.fill ctx addr
  filled
  cache.reference ((inodeNum - 1) % 1024)

private theorem sqfsInodeLoad_eq_loaded (ctx : SqfsCtx) (cache : ExportCache) (inodeNum address : Nat) :
    (sqfsInodeLoad ctx cache inodeNum address).1 =
      loadedReference ctx cache inodeNum >>= fun ref => sqfsInodeGetByRef ctx ref address := by
  rw [sqfsInodeLoad, loadedReference]
  cases exportMetaBlockAddr ctx inodeNum with
  | fault => rfl
  | err error => rfl
  | ok addr =>
      simp only [Outcome.ok_bind, bind_assoc]

def lookupReference (ctx : SqfsCtx) (inodeNum : Nat) : Sqfs Nat := do
  let addr ← exportMetaBlockAddr ctx inodeNum
  let block ← sqfsMetaReadBlock ctx.image ctx.comp addr
  referenceIn block ((inodeNum - 1) % 1024)

def lookupInode (ctx : SqfsCtx) (inodeNum address : Nat) : Sqfs SqfsInode := do
  let inodeRef ← lookupReference ctx inodeNum
  sqfsInodeGetByRef ctx inodeRef address

section Lookups

variable {ctx : SqfsCtx} {cache : ExportCache} {inodeNum addr : Nat}

theorem exportMetaBlockAddr_ne_zero (found : exportMetaBlockAddr ctx inodeNum = .ok addr) :
    addr ≠ 0 := by
  rw [exportMetaBlockAddr] at found
  split at found
  · contradiction
  · split at found
    · contradiction
    · rcases Outcome.bind_eq_ok.mp found with ⟨entry, -, found⟩
      rcases Outcome.bind_eq_ok.mp found with ⟨value, -, found⟩
      split at found
      · contradiction
      · next valid =>
          cases found
          exact fun zero => valid (.inr zero)

/-- A cache that serves the block at hand has no influence on the lookup. -/
theorem loadedReference_of_serves
    (serves : ∀ addr, exportMetaBlockAddr ctx inodeNum = .ok addr → cache.Serves ctx addr) :
    loadedReference ctx cache inodeNum = lookupReference ctx inodeNum := by
  rw [loadedReference, lookupReference]
  cases found : exportMetaBlockAddr ctx inodeNum with
  | fault => rfl
  | err error => rfl
  | ok addr =>
      rcases ExportCache.fill_of_serves (serves addr found) with ⟨filled, holds⟩
      simp only [Outcome.ok_bind]
      rw [filled]
      cases read : sqfsMetaReadBlock ctx.image ctx.comp addr with
      | fault => rfl
      | err error => rfl
      | ok block =>
          rw [(holds block read).reference]
          rfl

theorem sqfsInodeLoad_of_serves (address : Nat)
    (serves : ∀ addr, exportMetaBlockAddr ctx inodeNum = .ok addr → cache.Serves ctx addr) :
    (sqfsInodeLoad ctx cache inodeNum address).1 = lookupInode ctx inodeNum address := by
  rw [sqfsInodeLoad_eq_loaded, loadedReference_of_serves serves, lookupInode]

/-! ### Numbers that are not found -/

/-- What stands in the image at the place of the list entry for a number makes the lookup
report that it is not found. -/
def NumberRejected (ctx : SqfsCtx) (inodeNum : Nat) : Prop :=
  ∃ entry, ctx.image.diskBytes
      (u64 (ctx.sb.disk.exportTable + (inodeNum - 1) / 1024 * 8)) 8 = some entry ∧
    (leValue entry = sqfsInvalidOffset ∨ leValue entry = 0 ∨
      ∃ block, sqfsMetaReadBlock ctx.image ctx.comp (leValue entry) = .ok block ∧
        block.length < (inodeNum - 1) % 1024 * 8 + 8)

private theorem sqfsLe64ToCpu_whole {entry : List UInt8} (length : entry.length = 8) :
    sqfsLe64ToCpu entry 0 = .ok (leValue entry) := by
  apply Outcome.ofOption_eq_ok.mpr
  rw [loadLe, slice, if_pos (by omega), List.drop_zero, ← length, List.take_length]
  rfl

private theorem exportMetaBlockAddr_of_entry {entry : List UInt8}
    (hasExport : ctx.sb.hasExport = true)
    (tableValid : ctx.sb.disk.exportTable ≠ sqfsInvalidOffset) (positive : inodeNum ≠ 0)
    (found : ctx.image.diskBytes
      (u64 (ctx.sb.disk.exportTable + (inodeNum - 1) / 1024 * 8)) 8 = some entry) :
    exportMetaBlockAddr ctx inodeNum =
      if leValue entry = sqfsInvalidOffset ∨ leValue entry = 0 then .err .notFound
      else .ok (leValue entry) := by
  have present : ¬ (ctx.sb.hasExport = false ∨
      ctx.sb.disk.exportTable = sqfsInvalidOffset) := by
    simp [hasExport, tableValid]
  rw [exportMetaBlockAddr, if_neg positive, if_neg present]
  dsimp only
  rw [sqfsPreadAll_eq_ok.mpr found, Outcome.ok_bind,
    sqfsLe64ToCpu_whole (Image.diskBytes_length found), Outcome.ok_bind]
  rfl

private theorem lookupInode_of_unread (hasExport : ctx.sb.hasExport = true)
    (tableValid : ctx.sb.disk.exportTable ≠ sqfsInvalidOffset) (positive : inodeNum ≠ 0)
    (address : Nat) (missing : ctx.image.diskBytes
      (u64 (ctx.sb.disk.exportTable + (inodeNum - 1) / 1024 * 8)) 8 = none) :
    (lookupInode ctx inodeNum address).Avoids .notFound := by
  have present : ¬ (ctx.sb.hasExport = false ∨
      ctx.sb.disk.exportTable = sqfsInvalidOffset) := by
    simp [hasExport, tableValid]
  rw [lookupInode, lookupReference, exportMetaBlockAddr, if_neg positive, if_neg present]
  dsimp only
  rw [bind_assoc, bind_assoc, Outcome.avoids_bind]
  constructor
  · exact sqfsPreadAll_avoids
  · intro entry read
    rw [sqfsPreadAll_eq_ok, missing] at read
    cases read

private theorem lookupInode_of_listed (address : Nat)
    (listed : exportMetaBlockAddr ctx inodeNum = .ok addr) :
    lookupInode ctx inodeNum address = .err .notFound ↔
      ∃ block, sqfsMetaReadBlock ctx.image ctx.comp addr = .ok block ∧
        block.length < (inodeNum - 1) % 1024 * 8 + 8 := by
  have avoids := @sqfsMetaReadBlock_avoids ctx.image ctx.comp addr
  rw [lookupInode, lookupReference, listed, Outcome.ok_bind, bind_assoc]
  cases read : sqfsMetaReadBlock ctx.image ctx.comp addr with
  | fault => simp
  | err error =>
      rw [read, Outcome.avoids_err] at avoids
      simp [avoids]
  | ok block =>
      simp only [Outcome.ok_bind, Outcome.ok.injEq, exists_eq_left']
      rw [referenceIn]
      split
      · next short => exact iff_of_true rfl short
      · next inside =>
          apply iff_of_false _ inside
          apply Outcome.avoids_bind.mpr
          constructor
          · exact sqfsLe64ToCpu_avoids _
          · intro inodeRef _
            exact sqfsInodeGetByRef_avoids ctx inodeRef address

private theorem lookupInode_eq_notFound (hasExport : ctx.sb.hasExport = true)
    (tableValid : ctx.sb.disk.exportTable ≠ sqfsInvalidOffset) (positive : inodeNum ≠ 0)
    (address : Nat) :
    lookupInode ctx inodeNum address = .err .notFound ↔ NumberRejected ctx inodeNum := by
  cases found : ctx.image.diskBytes
      (u64 (ctx.sb.disk.exportTable + (inodeNum - 1) / 1024 * 8)) 8 with
  | none =>
      apply iff_of_false
      · exact lookupInode_of_unread hasExport tableValid positive address found
      · intro rejected
        rcases rejected with ⟨entry, stored, -⟩
        rw [found] at stored
        cases stored
  | some entry =>
      have only : NumberRejected ctx inodeNum ↔
          leValue entry = sqfsInvalidOffset ∨ leValue entry = 0 ∨
            ∃ block, sqfsMetaReadBlock ctx.image ctx.comp (leValue entry) = .ok block ∧
              block.length < (inodeNum - 1) % 1024 * 8 + 8 := by
        rw [NumberRejected, found]
        simp only [Option.some.injEq, exists_eq_left']
      have listed := exportMetaBlockAddr_of_entry hasExport tableValid positive found
      rw [only, ← or_assoc]
      by_cases empty : leValue entry = sqfsInvalidOffset ∨ leValue entry = 0
      · rw [if_pos empty] at listed
        rw [lookupInode, lookupReference, listed]
        exact iff_of_true rfl (.inl empty)
      · rw [if_neg empty] at listed
        rw [or_iff_right empty, lookupInode_of_listed address listed]

end Lookups

/-! ## The table on disk -/

/-- The export table of an image: a reference for each inode, in the order of their
numbers. The superblock is in front of all blocks. -/
structure DiskExportTable (ctx : SqfsCtx) where
  refs : List Nat
  inRange : ∀ ref ∈ refs, ref < 2 ^ 64
  counted : refs.length = ctx.sb.disk.inodeCount
  hasExport : ctx.sb.hasExport = true
  tableValid : ctx.sb.disk.exportTable ≠ sqfsInvalidOffset
  table : PagedTable ctx.image ctx.comp ctx.sb.disk.exportTable (refs.flatMap (leBytes 8))
  behindSuperblock : ∀ block ∈ table.blocks, 96 ≤ block.pos

private theorem referenceIn_page {refs : List Nat} (inRange : ∀ ref ∈ refs, ref < 2 ^ 64) (idx : Nat) :
    referenceIn (refs.flatMap (leBytes 8)) idx =
      match refs[idx]? with
      | some ref => .ok ref
      | none => .err .notFound := by
  have length := @length_flatMap_of_uniform _ _ _ _ refs (leBytes_length 8)
  cases found : refs[idx]? with
  | none =>
      have behind : refs.length ≤ idx := List.getElem?_eq_none_iff.mp found
      exact if_pos (by omega)
  | some ref =>
      have bound : idx < refs.length := (List.getElem?_eq_some_iff.mp found).1
      have small : ref < 256 ^ 8 := inRange ref (List.mem_of_getElem? found)
      have loaded := loadLe_append_of_le 8 ((refs.flatMap (leBytes 8)).take (idx * 8))
        ((refs.flatMap (leBytes 8)).drop (idx * 8)) (idx * 8) (by rw [List.length_take]; omega)
      rw [List.take_append_drop, List.length_take, Nat.min_eq_left (by omega), Nat.sub_self,
        drop_flatMap_of_getElem? (leBytes_length 8) found, loadLe_leBytes_zero,
        Nat.mod_eq_of_lt small] at loaded
      rw [referenceIn, if_neg (by omega), sqfsLe64ToCpu, loaded]
      rfl

private theorem referenceIn_eq_ok_iff {bytes : List UInt8} {idx ref : Nat} (small : ref < 2 ^ 64) :
    referenceIn bytes idx = .ok ref ↔ leBytes 8 ref <+: bytes.drop (idx * 8) := by
  constructor
  · intro looked
    rw [referenceIn] at looked
    split at looked
    · cases looked
    · rw [drop_of_loadLe (Outcome.ofOption_eq_ok.mp looked)]
      exact List.prefix_append _ _
  · rintro ⟨rest, whole⟩
    have length := congrArg List.length whole
    rw [List.length_append, leBytes_length, List.length_drop] at length
    have value : ref % 256 ^ 8 = ref := Nat.mod_eq_of_lt small
    have loaded := loadLe_append_of_le 8 (bytes.take (idx * 8)) (bytes.drop (idx * 8)) (idx * 8)
      (by rw [List.length_take]; omega)
    rw [List.take_append_drop, List.length_take, Nat.min_eq_left (by omega), Nat.sub_self,
      ← whole, loadLe_leBytes_zero, value] at loaded
    rw [referenceIn, if_neg (by omega), sqfsLe64ToCpu, loaded]
    rfl

namespace DiskExportTable

variable {ctx : SqfsCtx} (disk : DiskExportTable ctx) {inodeNum : Nat}

theorem exists_page (positive : inodeNum ≠ 0)
    (inPages : inodeNum ≤ 1024 * ((disk.refs.length + 1023) / 1024)) :
    ∃ block, disk.table.blocks[(inodeNum - 1) / 1024]? = some block ∧
      referenceIn block.content ((inodeNum - 1) % 1024) =
        (match disk.refs[inodeNum - 1]? with
        | some ref => .ok ref
        | none => .err .notFound) ∧
      exportMetaBlockAddr ctx inodeNum = .ok block.pos := by
  rcases disk.table.exists_pages 1024 (leBytes_length 8) (by decide) rfl with
    ⟨pages, paged, contents⟩
  have number := paged.length (by decide)
  have bound : (inodeNum - 1) / 1024 < disk.table.blocks.length := by
    have same : disk.table.blocks.length = pages.length := by
      have mapped := congrArg List.length contents
      rwa [List.length_map, List.length_map] at mapped
    omega
  obtain ⟨block, found⟩ : ∃ block, disk.table.blocks[(inodeNum - 1) / 1024]? = some block :=
    ⟨_, List.getElem?_eq_getElem bound⟩
  obtain ⟨page, atPage, content⟩ : ∃ page, pages[(inodeNum - 1) / 1024]? = some page ∧
      page.flatMap (leBytes 8) = block.content := by
    have mapped := congrArg (·[(inodeNum - 1) / 1024]?) contents
    simp only [List.getElem?_map, found, Option.map_some] at mapped
    rcases Option.map_eq_some_iff.mp mapped.symm with ⟨page, atPage, content⟩
    exact ⟨page, atPage, content⟩
  have pageInRange : ∀ ref ∈ page, ref < 2 ^ 64 := by
    intro ref member
    apply disk.inRange
    rw [← paged.flatten]
    exact List.mem_flatten_of_mem (List.mem_of_getElem? atPage) member
  have behind := disk.behindSuperblock block (List.mem_of_getElem? found)
  have position := block.pos_lt
  have entry := disk.table.listed_entry found
  have inFile := Image.diskBytes_bound entry (by decide)
  have size := ctx.image.sizeInOffT
  rw [← u64_of_lt (show ctx.sb.disk.exportTable + (inodeNum - 1) / 1024 * 8 < 2 ^ 64 by omega)]
    at entry
  refine ⟨block, found, ?_, ?_⟩
  · rw [← content, referenceIn_page pageInRange, paged.getElem?_page (by decide) atPage]
  · rw [exportMetaBlockAddr_of_entry disk.hasExport disk.tableValid positive entry,
      leValue_leBytes, Nat.mod_eq_of_lt (by omega), if_neg (by simp [sqfsInvalidOffset]; omega)]

private theorem lookupReference_of_page {block : MetaBlock ctx.image ctx.comp}
    (listed : exportMetaBlockAddr ctx inodeNum = .ok block.pos) :
    lookupReference ctx inodeNum =
      match block.unpackedInPlace with
      | some unpacked => referenceIn unpacked ((inodeNum - 1) % 1024)
      | none => .err .corrupt := by
  rw [lookupReference, listed, Outcome.ok_bind, block.sqfsMetaReadBlock_eq]
  cases block.unpackedInPlace <;> rfl

/-- The page of a number has a reference in its place where `data.c` unpacks it. -/
def PageHolds (inodeNum ref : Nat) : Prop :=
  ∃ block unpacked, disk.table.blocks[(inodeNum - 1) / 1024]? = some block ∧
    block.unpackedInPlace = some unpacked ∧
    leBytes 8 ref <+: unpacked.drop ((inodeNum - 1) % 1024 * 8)

/-- The table and what follows its list in the image lead a lookup right: the page of a number
has its reference in place, and behind the last number the image rejects it. -/
def LeadsTo (inodeNum : Nat) : Prop :=
  inodeNum = 0 ∨ (∃ ref, disk.refs[inodeNum - 1]? = some ref ∧ disk.PageHolds inodeNum ref) ∨
    (disk.refs.length < inodeNum ∧ NumberRejected ctx inodeNum)

private theorem lookupReference_eq_ok_iff (positive : inodeNum ≠ 0) {ref : Nat}
    (found : disk.refs[inodeNum - 1]? = some ref) :
    lookupReference ctx inodeNum = .ok ref ↔ disk.PageHolds inodeNum ref := by
  have bound := (List.getElem?_eq_some_iff.mp found).1
  have small := disk.inRange ref (List.mem_of_getElem? found)
  rcases disk.exists_page positive (by omega) with ⟨block, atPage, -, listed⟩
  rw [lookupReference_of_page listed, PageHolds]
  simp only [atPage, Option.some.injEq, exists_and_left, exists_eq_left']
  cases unpacks : block.unpackedInPlace with
  | none => simp
  | some unpacked =>
      simp only [Option.some.injEq, exists_eq_left']
      exact referenceIn_eq_ok_iff small

private theorem leadsTo_iff_of_inPlace (inPlace : ∀ block ∈ disk.table.blocks, block.InPlace)
    (inodeNum : Nat) :
    disk.LeadsTo inodeNum ↔ inodeNum ≤ 1024 * ((ctx.sb.disk.inodeCount + 1023) / 1024) ∨
      NumberRejected ctx inodeNum := by
  rw [← disk.counted]
  by_cases zero : inodeNum = 0
  · exact iff_of_true (.inl zero) (.inl (by omega))
  rw [LeadsTo, or_iff_right zero]
  by_cases inPages : inodeNum ≤ 1024 * ((disk.refs.length + 1023) / 1024)
  · apply iff_of_true _ (.inl inPages)
    rcases disk.exists_page zero inPages with ⟨block, atPage, inPage, listed⟩
    have reference : lookupReference ctx inodeNum =
        referenceIn block.content ((inodeNum - 1) % 1024) := by
      rw [lookupReference_of_page listed, inPlace block (List.mem_of_getElem? atPage)]
    cases found : disk.refs[inodeNum - 1]? with
    | some ref =>
        rw [found] at inPage
        exact .inl ⟨ref, rfl, (disk.lookupReference_eq_ok_iff zero found).mp
          (reference.trans inPage)⟩
    | none =>
        rw [found] at inPage
        have behind := List.getElem?_eq_none_iff.mp found
        right
        constructor
        · omega
        · apply (lookupInode_eq_notFound disk.hasExport disk.tableValid zero 0).mp
          rw [lookupInode, reference, inPage]
          rfl
  · rw [or_iff_right inPages]
    constructor
    · rintro (⟨ref, found, -⟩ | ⟨-, rejected⟩)
      · have bound := (List.getElem?_eq_some_iff.mp found).1
        omega
      · exact rejected
    · intro rejected
      exact .inr ⟨by omega, rejected⟩

end DiskExportTable

/-- The lookup of a number takes its reference and returns the inode there, and finds nothing
for the numbers that have none. -/
structure ExactLookup (ctx : SqfsCtx) (refs : List Nat) (inodeNum address : Nat)
    (reference : Sqfs Nat) (result : Sqfs SqfsInode) : Prop where
  found : ∀ ref, inodeNum ≠ 0 → refs[inodeNum - 1]? = some ref →
    reference = .ok ref ∧ result = sqfsInodeGetByRef ctx ref address
  rejected : inodeNum = 0 ∨ refs.length < inodeNum → result = .err .notFound

private theorem lookupInode_exact_iff {ctx : SqfsCtx} (disk : DiskExportTable ctx)
    (inodeNum address : Nat) :
    ExactLookup ctx disk.refs inodeNum address (lookupReference ctx inodeNum)
        (lookupInode ctx inodeNum address) ↔ disk.LeadsTo inodeNum := by
  by_cases zero : inodeNum = 0
  · apply iff_of_true _ (.inl zero)
    constructor
    · intro ref positive
      exact absurd zero positive
    · intro _
      rw [lookupInode, lookupReference, exportMetaBlockAddr, if_pos zero]
      rfl
  rw [DiskExportTable.LeadsTo, or_iff_right zero]
  cases found : disk.refs[inodeNum - 1]? with
  | some ref =>
      have bound := (List.getElem?_eq_some_iff.mp found).1
      rw [or_iff_left (by omega)]
      simp only [Option.some.injEq, exists_eq_left']
      rw [← disk.lookupReference_eq_ok_iff zero found]
      constructor
      · intro exact_
        exact (exact_.found ref zero found).1
      · intro looked
        constructor
        · intro other _ same
          rw [found] at same
          cases same
          exact ⟨looked, by rw [lookupInode, looked, Outcome.ok_bind]⟩
        · intro outside
          omega
  | none =>
      have behind := List.getElem?_eq_none_iff.mp found
      rw [or_iff_right (fun ⟨ref, found, _⟩ => nomatch found), and_iff_right (by omega),
        ← lookupInode_eq_notFound disk.hasExport disk.tableValid zero address]
      constructor
      · intro exact_
        exact exact_.rejected (by omega)
      · intro rejected
        constructor
        · intro ref _ same
          rw [found] at same
          cases same
        · intro _
          exact rejected

/-- Lookups are exact where the table and the image lead to: when all pages unpack in place,
for the numbers up to the end of the last page, and behind it where the image, which is read for
a continuation of the list, happens to have nothing that serves as one. -/
theorem sqfsInodeLoad_exact_iff (ctx : SqfsCtx) (disk : DiskExportTable ctx)
    (cache : ExportCache) (current : cache.Current ctx) (inodeNum address : Nat) :
    (ExactLookup ctx disk.refs inodeNum address (loadedReference ctx cache inodeNum)
        (sqfsInodeLoad ctx cache inodeNum address).1 ↔ disk.LeadsTo inodeNum) ∧
      ((∀ block ∈ disk.table.blocks, block.InPlace) →
        (ExactLookup ctx disk.refs inodeNum address (loadedReference ctx cache inodeNum)
            (sqfsInodeLoad ctx cache inodeNum address).1 ↔
          inodeNum ≤ 1024 * ((ctx.sb.disk.inodeCount + 1023) / 1024) ∨
            NumberRejected ctx inodeNum)) := by
  have serves : ∀ addr, exportMetaBlockAddr ctx inodeNum = .ok addr → cache.Serves ctx addr :=
    fun addr found => current addr (exportMetaBlockAddr_ne_zero found)
  rw [sqfsInodeLoad_of_serves address serves, loadedReference_of_serves serves,
    lookupInode_exact_iff]
  exact ⟨Iff.rfl, fun inPlace => disk.leadsTo_iff_of_inPlace inPlace inodeNum⟩

/-! ## An image with two inodes -/

def numberedInodes : List UInt8 :=
  encodeInode ⟨0o755, 0, 0, 0, 1⟩ (.dir 0 2 3 0 3 : DiskBody 4096) ++
    encodeInode ⟨0o644, 0, 0, 0, 2⟩ (.fifo 1 : DiskBody 4096)

/-- The references to the two inodes. -/
def numberedRefs : List Nat := [0, 32]

def numberedSuperblock (idTable bytesUsed : Nat) : SquashfsSuperblock :=
  { SquashfsSuperblock.small squashfsFlagNoXattrs idTable sqfsInvalidOffset 150 bytesUsed with
    inodeCount := 2, idCount := 2, exportTable := 178 }

def numberedFront (idTable bytesUsed : Nat) : List UInt8 :=
  (numberedSuperblock idTable bytesUsed).encode ++ (leBytes 2 (2 ^ 15 + 52) ++ numberedInodes)

def numberedRest (rest : List UInt8) : List UInt8 :=
  leBytes 2 (2 ^ 15 + 8) ++ (leBytes 8 0 ++ (leBytes 8 150 ++ rest))

def numberedBytes (idTable : Nat) (rest : List UInt8) : List UInt8 :=
  numberedFront idTable (186 + rest.length) ++
    (leBytes 2 (2 ^ 15 + (numberedRefs.flatMap (leBytes 8)).length) ++
      (numberedRefs.flatMap (leBytes 8) ++ numberedRest rest))

private theorem numberedBytes_length (idTable : Nat) (rest : List UInt8) :
    (numberedBytes idTable rest).length = 186 + rest.length := by
  have inodes : numberedInodes.length = 52 := by decide
  have refs : (numberedRefs.flatMap (leBytes 8)).length = 16 := by decide
  simp only [numberedBytes, numberedFront, numberedRest, List.length_append, leBytes_length,
    SquashfsSuperblock.encode_length, inodes, refs]
  omega

private theorem numberedBytes_lt {rest : List UInt8} (idTable : Nat) (small : rest.length < 2 ^ 32) :
    (numberedBytes idTable rest).length < 2 ^ 63 := by
  rw [numberedBytes_length]
  omega

private theorem numberedSuperblock_validBlockSize (idTable bytesUsed : Nat) :
    ValidBlockSize (numberedSuperblock idTable bytesUsed).blockSize
      (numberedSuperblock idTable bytesUsed).blockLog :=
  SqfsSuperblock.validBlockSize (SqfsCtx.onBytes [] nil_sizeInOffT).sb

def numberedImage (idTable : Nat) (rest : List UInt8) (small : rest.length < 2 ^ 32) : Image where
  bytes := numberedBytes idTable rest
  sizeInOffT := numberedBytes_lt idTable small

/-- The context of the image. -/
def numberedCtx (idTable : Nat) (rest : List UInt8) (small : rest.length < 2 ^ 32) : SqfsCtx where
  image := numberedImage idTable rest small
  sb := .ofDisk (numberedSuperblock idTable (186 + rest.length))
    (numberedSuperblock_validBlockSize idTable (186 + rest.length))
  comp := storedDeflate
  idTable := []
  fragmentTable := none
  xattrTable := none

section Numbered

variable {idTable : Nat} {rest : List UInt8} (small : rest.length < 2 ^ 32)

private theorem numberedBlock_layout : (numberedImage idTable rest small).bytes =
    numberedFront idTable (186 + rest.length) ++
      (leBytes 2 (2 ^ 15 + (numberedRefs.flatMap (leBytes 8)).length) ++
        (numberedRefs.flatMap (leBytes 8) ++ numberedRest rest)) := rfl

private theorem numberedRefs_nonempty : 0 < (numberedRefs.flatMap (leBytes 8)).length := by decide

private theorem numberedRefs_short :
    (numberedRefs.flatMap (leBytes 8)).length ≤ sqfsMetaBlockSize := by decide

def numberedBlock : MetaBlock (numberedImage idTable rest small) storedDeflate :=
  .ofStored (numberedImage idTable rest small) storedDeflate
    (numberedFront idTable (186 + rest.length)) (numberedRefs.flatMap (leBytes 8))
    (numberedRest rest) (numberedBlock_layout small) numberedRefs_nonempty numberedRefs_short

theorem numberedBlock_pos : (@numberedBlock idTable rest small).pos = 150 := by
  have inodes : numberedInodes.length = 52 := by decide
  rw [numberedBlock, MetaBlock.ofStored_pos, numberedFront]
  simp only [List.length_append, SquashfsSuperblock.encode_length, leBytes_length, inodes]

private theorem numberedBlock_paged : Paged sqfsMetaBlockSize
    ([@numberedBlock idTable rest small].map (·.content)) (numberedRefs.flatMap (leBytes 8)) :=
  .single (List.ne_nil_of_length_pos numberedRefs_nonempty) numberedRefs_short

private theorem numberedBlock_listed : (numberedImage idTable rest small).diskBytes 178
    (8 * [@numberedBlock idTable rest small].length) =
      some ([@numberedBlock idTable rest small].flatMap fun block => leBytes 8 block.pos) := by
  have layout : (numberedImage idTable rest small).bytes =
      (numberedFront idTable (186 + rest.length) ++
        (leBytes 2 (2 ^ 15 + (numberedRefs.flatMap (leBytes 8)).length) ++
          (numberedRefs.flatMap (leBytes 8) ++ (leBytes 2 (2 ^ 15 + 8) ++ leBytes 8 0)))) ++
        (leBytes 8 150 ++ rest) := by
    rw [numberedBlock_layout, numberedRest]
    simp only [List.append_assoc]
  have inodes : numberedInodes.length = 52 := by decide
  have refs : (numberedRefs.flatMap (leBytes 8)).length = 16 := by decide
  have front : (numberedFront idTable (186 + rest.length) ++
      (leBytes 2 (2 ^ 15 + (numberedRefs.flatMap (leBytes 8)).length) ++
        (numberedRefs.flatMap (leBytes 8) ++ (leBytes 2 (2 ^ 15 + 8) ++ leBytes 8 0)))).length =
      178 := by
    simp only [numberedFront, List.length_append, SquashfsSuperblock.encode_length,
      leBytes_length, inodes, refs]
  have part := slice_append_length (numberedFront idTable (186 + rest.length) ++
    (leBytes 2 (2 ^ 15 + (numberedRefs.flatMap (leBytes 8)).length) ++
      (numberedRefs.flatMap (leBytes 8) ++ (leBytes 2 (2 ^ 15 + 8) ++ leBytes 8 0))))
    (leBytes 8 150) rest
  rw [← layout, front, leBytes_length] at part
  rw [List.flatMap_cons, List.flatMap_nil, List.append_nil, numberedBlock_pos,
    List.length_singleton, Image.diskBytes, if_neg (by decide), part]

private theorem numberedRefs_inRange : ∀ ref ∈ numberedRefs, ref < 2 ^ 64 := by decide

private theorem numberedCtx_hasExport : (numberedCtx idTable rest small).sb.hasExport = true := by
  change sqfsTableValid 178 = true
  decide

private theorem numberedCtx_tableValid :
    (numberedCtx idTable rest small).sb.disk.exportTable ≠ sqfsInvalidOffset := by
  change 178 ≠ sqfsInvalidOffset
  decide

private theorem numberedBlock_behind :
    ∀ block ∈ [@numberedBlock idTable rest small], 96 ≤ block.pos := by
  intro block member
  rw [List.mem_singleton.mp member, numberedBlock_pos]
  decide

def numberedTable : DiskExportTable (numberedCtx idTable rest small) where
  refs := numberedRefs
  inRange := numberedRefs_inRange
  counted := rfl
  hasExport := numberedCtx_hasExport small
  tableValid := numberedCtx_tableValid small
  table := ⟨[numberedBlock small], numberedBlock_paged small, numberedBlock_listed small⟩
  behindSuperblock := numberedBlock_behind small

private theorem numberedTable_inPlace :
    ∀ block ∈ (@numberedTable idTable rest small).table.blocks, block.InPlace := by
  intro block member
  rw [List.mem_singleton.mp member]
  exact MetaBlock.ofStored_inPlace ..

end Numbered

/-- The list of the ID table, with room behind it. -/
def idListRest : List UInt8 := leBytes 8 168 ++ leBytes 8 0

theorem idListRest_small : idListRest.length < 2 ^ 32 := by decide

/-- The number 2 is looked up as it should be. -/
theorem sqfsInodeLoad_exact_two : ExactLookup (numberedCtx 186 idListRest idListRest_small)
    numberedRefs 2 0
    (loadedReference (numberedCtx 186 idListRest idListRest_small) .initial 2)
    (sqfsInodeLoad (numberedCtx 186 idListRest idListRest_small) .initial 2 0).1 :=
  ((sqfsInodeLoad_exact_iff (numberedCtx 186 idListRest idListRest_small)
    (numberedTable idListRest_small) .initial (ExportCache.initial_current _) 2 0).2
    (numberedTable_inPlace idListRest_small)).mpr (.inl (by decide))

/-- Behind the list of the export table lies that of the ID table. The number 1025 of an
image with two inodes takes its first entry, finds an ID block there and delivers an inode. -/
theorem sqfsInodeLoad_finds_strangers :
    ¬ ∀ (ctx : SqfsCtx) (disk : DiskExportTable ctx) (cache : ExportCache),
      cache.Current ctx → ∀ inodeNum address : Nat,
        ExactLookup ctx disk.refs inodeNum address (loadedReference ctx cache inodeNum)
          (sqfsInodeLoad ctx cache inodeNum address).1 := by
  intro claim
  have exact_ := claim (numberedCtx 186 idListRest idListRest_small)
    (numberedTable idListRest_small) .initial (ExportCache.initial_current _) 1025 0
  have rejected := exact_.rejected (.inr (by decide))
  have found : (sqfsInodeLoad (numberedCtx 186 idListRest idListRest_small)
      .initial 1025 0).1.toOption.isSome = true := by decide +kernel
  rw [rejected] at found
  cases found

end SquashfsFuse
