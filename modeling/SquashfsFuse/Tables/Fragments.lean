import SquashfsFuse.Fuse.ImageLayout
import SquashfsFuse.Metadata.Lookup

/-! Loading the fragment table. -/

namespace SquashfsFuse

/-! ## The table on disk -/

namespace SqfsFragEntry

def encode (entry : SqfsFragEntry) : List UInt8 :=
  leBytes 8 entry.start ++ leBytes 4 entry.size ++ leBytes 4 entry.unused

theorem encode_length (entry : SqfsFragEntry) : entry.encode.length = 16 := by
  simp only [encode, List.length_append, leBytes_length]

structure InRange (entry : SqfsFragEntry) : Prop where
  start : entry.start < 256 ^ 8
  size : entry.size < 256 ^ 4
  unused : entry.unused < 256 ^ 4

theorem ofBytes_encode {entry : SqfsFragEntry} (inRange : entry.InRange)
    (before after : List UInt8) :
    ofBytes (before ++ (entry.encode ++ after)) before.length = some entry := by
  have field (width offset : Nat) :
      loadLe width (before ++ (entry.encode ++ after)) (before.length + offset) =
        loadLe width (entry.encode ++ after) offset := by
    rw [loadLe_append_of_le _ _ _ _ (Nat.le_add_right _ _), Nat.add_sub_cancel_left]
  have start := field 8 0
  rw [Nat.add_zero] at start
  rw [ofBytes, start, field, field, encode]
  simp only [List.append_assoc, loadLe_leBytes_zero, loadLe_leBytes_skip, Std.le_refl,
    tsub_self, Nat.reduceLeDiff, Nat.reduceSub, Nat.mod_eq_of_lt inRange.start,
    Nat.mod_eq_of_lt inRange.size, Nat.mod_eq_of_lt inRange.unused, Option.pure_def,
    Option.bind_eq_bind, Option.bind_some]

private theorem encode_prefix_of_ofBytes {entry : SqfsFragEntry} {bytes : List UInt8} {offset : Nat}
    (read : ofBytes bytes offset = some entry) : entry.encode <+: bytes.drop offset := by
  rcases Option.bind_eq_some_iff.mp read with ⟨start, loadStart, read⟩
  rcases Option.bind_eq_some_iff.mp read with ⟨size, loadSize, read⟩
  rcases Option.bind_eq_some_iff.mp read with ⟨unused, loadUnused, equal⟩
  cases equal
  rw [drop_of_loadLe loadStart, drop_of_loadLe loadSize, drop_of_loadLe loadUnused]
  exact ⟨bytes.drop (offset + 12 + 4), by simp only [encode, List.append_assoc]⟩

end SqfsFragEntry

/-- The fragment table of an image. An image with entries announces them. -/
structure DiskFragmentTable (ctx : SqfsCtx) where
  entries : List SqfsFragEntry
  inRange : ∀ entry ∈ entries, entry.InRange
  counted : entries.length = ctx.sb.disk.fragCount
  fragCount_lt : ctx.sb.disk.fragCount < 2 ^ 32
  announced : entries ≠ [] → ctx.sb.hasFragments = true
  table : PagedTable ctx.image ctx.comp ctx.sb.disk.fragTable
    (entries.flatMap SqfsFragEntry.encode)

/-! ## The loop over the metadata blocks -/

section Loop

variable {image : Image} {comp : Compressor} {fragCount : Nat}

private theorem copyFragmentEntries {entries : List SqfsFragEntry}
    (inRange : ∀ entry ∈ entries, entry.InRange) {bytes : List UInt8}
    (starts : entries.flatMap SqfsFragEntry.encode <+: bytes) :
    ((List.range entries.length).mapM fun i => (Outcome.ofOption
      (SqfsFragEntry.ofBytes bytes (i * 16)) : Sqfs SqfsFragEntry)) = .ok entries := by
  have copied := @Outcome.mapM_range_eq_ok SqfsError SqfsFragEntry SqfsFragEntry
    (fun i => Outcome.ofOption (SqfsFragEntry.ofBytes bytes (i * 16)))
    id entries entries.length (Nat.le_refl _)
  rw [List.map_id, List.take_length] at copied
  apply copied
  intro idx entry bound found
  rcases starts with ⟨rest, rfl⟩
  have uniform := SqfsFragEntry.encode_length
  have front : ((entries.flatMap SqfsFragEntry.encode).take (idx * 16)).length = idx * 16 := by
    rw [List.length_take, length_flatMap_of_uniform uniform]
    omega
  have whole := List.take_append_drop (idx * 16) (entries.flatMap SqfsFragEntry.encode)
  rw [drop_flatMap_of_getElem? uniform found] at whole
  have read := SqfsFragEntry.ofBytes_encode (inRange entry (List.mem_of_getElem? found))
    ((entries.flatMap SqfsFragEntry.encode).take (idx * 16))
    ((entries.drop (idx + 1)).flatMap SqfsFragEntry.encode ++ rest)
  rw [← List.append_assoc _ _ rest, ← List.append_assoc, whole, front] at read
  exact Outcome.ofOption_eq_ok.mpr read

private theorem exists_copiedEntries {bytes : List UInt8} {count : Nat}
    (long : count * 16 ≤ bytes.length) :
    ∃ copied, ((List.range count).mapM fun i => (Outcome.ofOption
      (SqfsFragEntry.ofBytes bytes (i * 16)) : Sqfs SqfsFragEntry)) = .ok copied := by
  have succeeds : ∀ i ∈ List.range count,
      (Outcome.ofOption (SqfsFragEntry.ofBytes bytes (i * 16)) : Sqfs SqfsFragEntry) =
        .ok ((SqfsFragEntry.ofBytes bytes (i * 16)).getD ⟨0, 0, 0⟩) := by
    intro i member
    have bound := List.mem_range.mp member
    have inside := @SqfsFragEntry.ofBytes_isSome bytes (i * 16) (by omega)
    rcases Option.isSome_iff_exists.mp inside with ⟨entry, read⟩
    rw [read]
    rfl
  exact ⟨_, Outcome.mapM_eq_ok succeeds⟩

private theorem copiedEntries_eq_iff {entries copied : List SqfsFragEntry}
    (inRange : ∀ entry ∈ entries, entry.InRange) {bytes : List UInt8}
    (copies : ((List.range entries.length).mapM fun i => (Outcome.ofOption
      (SqfsFragEntry.ofBytes bytes (i * 16)) : Sqfs SqfsFragEntry)) = .ok copied) :
    copied = entries ↔ entries.flatMap SqfsFragEntry.encode <+: bytes := by
  constructor
  · rintro rfl
    apply flatMap_prefix_of_records SqfsFragEntry.encode_length
    intro idx entry found
    have read := (Outcome.call_of_mapM_range copies).2 idx entry found
    exact SqfsFragEntry.encode_prefix_of_ofBytes (Outcome.ofOption_eq_ok.mp read)
  · intro starts
    rw [copyFragmentEntries inRange starts] at copies
    exact (Outcome.ok.inj copies).symm

/-- A block that is too short where `data.c` unpacks it ends the load. Another one adds as many
entries as its page has, which are those of the page exactly when the block starts with them. -/
private theorem loadFragmentEntries_block {block : MetaBlock image comp}
    {page before : List SqfsFragEntry} (positions : List Nat)
    (content : block.content = page.flatMap SqfsFragEntry.encode)
    (inRange : ∀ entry ∈ page, entry.InRange)
    (wanted : min (fragCount - before.length) fragmentEntriesPerBlock = page.length) :
    (¬ block.ReachesInPlace ∧
      loadFragmentEntries image comp fragCount (block.pos :: positions) before =
        .err .corrupt) ∨
    (block.ReachesInPlace ∧ ∃ copied, copied.length = page.length ∧
      (copied = page ↔ block.StartsInPlace) ∧
      loadFragmentEntries image comp fragCount (block.pos :: positions) before =
        loadFragmentEntries image comp fragCount positions (before ++ copied)) := by
  have large : block.content.length = page.length * 16 := by
    rw [content, length_flatMap_of_uniform SqfsFragEntry.encode_length]
  rw [loadFragmentEntries, block.sqfsMetaReadBlock_eq]
  cases unpacks : block.unpackedInPlace with
  | none =>
      refine .inl ⟨?_, rfl⟩
      rintro ⟨unpacked, found, -⟩
      rw [unpacks] at found
      cases found
  | some unpacked =>
      rw [Outcome.ok_bind]
      dsimp only
      rw [wanted, ← large]
      by_cases short : unpacked.length < block.content.length
      · rw [if_pos short]
        refine .inl ⟨?_, rfl⟩
        rintro ⟨other, found, reaches⟩
        rw [unpacks] at found
        cases found
        omega
      · rw [if_neg short]
        rcases @exists_copiedEntries unpacked page.length (by omega) with ⟨copied, copies⟩
        have starts : copied = page ↔ block.StartsInPlace := by
          rw [copiedEntries_eq_iff inRange copies, ← content, MetaBlock.StartsInPlace, unpacks]
          simp
        refine .inr ⟨⟨unpacked, unpacks, Nat.le_of_not_lt short⟩, copied,
          (Outcome.call_of_mapM_range copies).1, starts, ?_⟩
        rw [copies, Outcome.ok_bind]

/-- The load of the blocks fails at one that is too short where `data.c` unpacks it, or adds
as many entries as there are, which are the right ones exactly when all blocks start with
their content. -/
theorem loadFragmentEntries_cases {pages : List (List SqfsFragEntry)}
    {entries before : List SqfsFragEntry} {blocks : List (MetaBlock image comp)}
    (paged : Paged fragmentEntriesPerBlock pages entries)
    (contents : blocks.map (·.content) = pages.map fun page => page.flatMap SqfsFragEntry.encode)
    (inRange : ∀ entry ∈ entries, entry.InRange)
    (counted : before.length + entries.length = fragCount) :
    ((∃ block ∈ blocks, ¬ block.ReachesInPlace) ∧ ∃ code,
      loadFragmentEntries image comp fragCount (blocks.map (·.pos)) before = .err code) ∨
    (∀ block ∈ blocks, block.ReachesInPlace) ∧ ∃ loaded,
      loadFragmentEntries image comp fragCount (blocks.map (·.pos)) before =
        .ok (before ++ loaded) ∧
      loaded.length = entries.length ∧
      (loaded = entries ↔ ∀ block ∈ blocks, block.StartsInPlace) := by
  induction paged generalizing blocks before with
  | nil =>
      obtain rfl : blocks = [] := List.map_eq_nil_iff.mp contents
      refine .inr ⟨by simp, [], ?_, rfl, by simp⟩
      rw [List.append_nil]
      rfl
  | @cons pages entries nonempty rest induction =>
      cases blocks with
      | nil => cases contents
      | cons block blocks =>
          rw [List.map_cons, List.map_cons, List.cons.injEq] at contents
          rcases contents with ⟨content, contents⟩
          have wanted : min (fragCount - before.length) fragmentEntriesPerBlock =
              (entries.take fragmentEntriesPerBlock).length := by
            rw [List.length_take, ← counted, Nat.add_sub_cancel_left, Nat.min_comm]
          rcases loadFragmentEntries_block (blocks.map (·.pos)) content
            (fun entry member => inRange entry (List.mem_of_mem_take member)) wanted with
            ⟨unreached, failed⟩ | ⟨reaches, copied, number, starts, goesOn⟩
          · exact .inl ⟨⟨block, List.mem_cons_self, unreached⟩, .corrupt, failed⟩
          · have counted : (before ++ copied).length +
                (entries.drop fragmentEntriesPerBlock).length = fragCount := by
              rw [List.length_append, number, Nat.add_assoc, ← List.length_append,
                List.take_append_drop, counted]
            rw [List.map_cons, goesOn]
            rcases induction contents
              (fun entry member => inRange entry (List.mem_of_mem_drop member)) counted with
              ⟨⟨other, member, unreached⟩, failed⟩ | ⟨others, loaded, load, length, exact_⟩
            · exact .inl ⟨⟨other, List.mem_cons_of_mem _ member, unreached⟩, failed⟩
            · refine .inr ⟨List.forall_mem_cons.mpr ⟨reaches, others⟩, copied ++ loaded,
                ?_, ?_, ?_⟩
              · rw [load, List.append_assoc]
              · rw [List.length_append, number, length, ← List.length_append,
                  List.take_append_drop]
              · rw [List.forall_mem_cons, ← starts, ← exact_]
                constructor
                · intro whole
                  have parts := whole.trans
                    (List.take_append_drop fragmentEntriesPerBlock entries).symm
                  exact List.append_inj parts number
                · rintro ⟨rfl, rfl⟩
                  exact List.take_append_drop _ _

end Loop

/-! ## The whole load -/

namespace DiskFragmentTable

variable {ctx : SqfsCtx}

theorem length_blocks (disk : DiskFragmentTable ctx) : disk.table.blocks.length =
    (ctx.sb.disk.fragCount + fragmentEntriesPerBlock - 1) / fragmentEntriesPerBlock := by
  rcases disk.table.exists_pages fragmentEntriesPerBlock SqfsFragEntry.encode_length
    (by decide) rfl with ⟨pages, paged, contents⟩
  have same := congrArg List.length contents
  rw [List.length_map, List.length_map] at same
  rw [same, paged.length (by decide), disk.counted]

theorem readFragmentTableIndex (disk : DiskFragmentTable ctx)
    (fits : ctx.sb.disk.fragCount ≤ 2 ^ 32 - 512) :
    readFragmentTableIndex ctx.image ctx.sb.disk.fragTable ctx.sb.disk.fragCount =
      .ok (disk.table.blocks.map (·.pos)) := by
  have round : u32 (ctx.sb.disk.fragCount + fragmentEntriesPerBlock - 1) =
      ctx.sb.disk.fragCount + fragmentEntriesPerBlock - 1 := by
    apply u32_of_lt
    rw [fragmentEntriesPerBlock]
    omega
  have loaded := sqfsLe64ToCpu_range disk.table.positions_lt
    (Nat.le_of_eq disk.table.positions_length.symm) []
  rw [List.append_nil, ← disk.table.listed_eq, List.take_of_length_le
    (Nat.le_of_eq disk.table.positions_length)] at loaded
  rw [SquashfsFuse.readFragmentTableIndex, round, ← disk.length_blocks, Nat.mul_comm,
    sqfsPreadAll_eq_ok.mpr disk.table.listed, Outcome.ok_bind]
  exact loaded

private theorem load_of_fits (disk : DiskFragmentTable ctx)
    (fits : ctx.sb.disk.fragCount ≤ 2 ^ 32 - 512) :
    ((∃ block ∈ disk.table.blocks, ¬ block.ReachesInPlace) ∧
      ∃ code, sqfsFragmentTableLoad ctx.image ctx.sb ctx.comp = .err code) ∨
    (∀ block ∈ disk.table.blocks, block.ReachesInPlace) ∧ ∃ loaded,
      sqfsFragmentTableLoad ctx.image ctx.sb ctx.comp = .ok { entries := loaded, loaded := true } ∧
      loaded.length = disk.entries.length ∧
      (loaded = disk.entries ↔ ∀ block ∈ disk.table.blocks, block.StartsInPlace) := by
  rcases disk.table.exists_pages fragmentEntriesPerBlock SqfsFragEntry.encode_length
    (by decide) rfl with ⟨pages, paged, contents⟩
  rw [sqfsFragmentTableLoad]
  split
  · next absent =>
      have none : disk.entries = [] := by
        by_contra some
        rcases absent with absent | absent
        · rw [disk.announced some] at absent
          cases absent
        · exact some (List.length_eq_zero_iff.mp (disk.counted.trans absent))
      have empty : disk.table.blocks = [] := by
        rw [none] at paged
        cases paged with
        | nil => exact List.map_eq_nil_iff.mp contents
        | cons nonempty => exact absurd rfl nonempty
      refine .inr ⟨by simp [empty], [], rfl, by rw [none], iff_of_true none.symm ?_⟩
      simp [empty]
  · rw [disk.readFragmentTableIndex fits, Outcome.ok_bind]
    rcases @loadFragmentEntries_cases ctx.image ctx.comp ctx.sb.disk.fragCount pages
      disk.entries [] disk.table.blocks paged contents disk.inRange
      (by rw [List.length_nil, Nat.zero_add, disk.counted]) with
      ⟨unreached, code, failed⟩ | ⟨reached, loaded, load, length, exact_⟩
    · refine .inl ⟨unreached, code, ?_⟩
      rw [failed, Outcome.err_bind]
    · refine .inr ⟨reached, loaded, ?_, length, exact_⟩
      rw [load, Outcome.ok_bind, List.nil_append, length, disk.counted, Nat.sub_self,
        List.replicate_zero]
      dsimp only
      rw [List.append_nil]
      rfl

/-- Above it no block is read. -/
theorem load_of_wraps (disk : DiskFragmentTable ctx)
    (wraps : 2 ^ 32 - 512 < ctx.sb.disk.fragCount) :
    sqfsFragmentTableLoad ctx.image ctx.sb ctx.comp =
      .ok { entries := List.replicate ctx.sb.disk.fragCount ⟨0, 0, 0⟩, loaded := true } := by
  have bound := disk.fragCount_lt
  have counted := disk.counted
  have present : ¬ (ctx.sb.hasFragments = false ∨ ctx.sb.disk.fragCount = 0) := by
    rintro (absent | absent)
    · have some : disk.entries ≠ [] := by
        rintro none
        rw [none, List.length_nil] at counted
        omega
      rw [disk.announced some] at absent
      cases absent
    · omega
  have round : u32 (ctx.sb.disk.fragCount + fragmentEntriesPerBlock - 1) /
      fragmentEntriesPerBlock = 0 := by
    rw [u32, fragmentEntriesPerBlock]
    omega
  rw [sqfsFragmentTableLoad, if_neg present, SquashfsFuse.readFragmentTableIndex, round]
  rfl

end DiskFragmentTable

/-- A load that succeeds leaves a table in which exactly the given entries are found. -/
def LoadsFragments (ctx : SqfsCtx) (entries : List SqfsFragEntry) : Prop :=
  ∀ table, sqfsFragmentTableLoad ctx.image ctx.sb ctx.comp = .ok table →
    table.entries.length = ctx.sb.disk.fragCount ∧
    (∀ idx entry, entries[idx]? = some entry →
      sqfsFragmentGetEntry { ctx with fragmentTable := some table } idx = .ok entry) ∧
    ∀ idx, ctx.sb.disk.fragCount ≤ idx →
      sqfsFragmentGetEntry { ctx with fragmentTable := some table } idx = .err .notFound

theorem sqfsFragmentGetEntry_of_loaded {ctx : SqfsCtx} {entries : List SqfsFragEntry}
    (loaded : ctx.fragmentTable = some { entries, loaded := true }) (idx : Nat) :
    sqfsFragmentGetEntry ctx idx =
      match entries[idx]? with
      | none => .err .notFound
      | some entry => .ok entry := by
  rw [sqfsFragmentGetEntry, loaded]
  rfl

private theorem loadsFragments_of_load {ctx : SqfsCtx} {entries : List SqfsFragEntry}
    (load : sqfsFragmentTableLoad ctx.image ctx.sb ctx.comp = .ok { entries, loaded := true })
    (counted : entries.length = ctx.sb.disk.fragCount) : LoadsFragments ctx entries := by
  intro table loaded
  rw [load] at loaded
  cases loaded
  refine ⟨counted, fun idx entry found => ?_, fun idx behind => ?_⟩
  · rw [sqfsFragmentGetEntry_of_loaded rfl, found]
  · rw [sqfsFragmentGetEntry_of_loaded rfl, List.getElem?_eq_none (counted ▸ behind)]

private theorem entries_eq_of_loads {ctx : SqfsCtx} {entries loaded : List SqfsFragEntry}
    (loads : LoadsFragments ctx entries)
    (load : sqfsFragmentTableLoad ctx.image ctx.sb ctx.comp =
      .ok { entries := loaded, loaded := true })
    (length : loaded.length = ctx.sb.disk.fragCount)
    (counted : entries.length = ctx.sb.disk.fragCount) : loaded = entries := by
  apply List.ext_getElem (length.trans counted.symm)
  intro idx inLoaded inEntries
  have served := (loads _ load).2.1 idx entries[idx] (List.getElem?_eq_getElem inEntries)
  rw [sqfsFragmentGetEntry_of_loaded rfl, List.getElem?_eq_getElem inLoaded] at served
  exact Outcome.ok.inj served

/-- The load of the table meets no block that unpacks in place to other bytes: all blocks start
with their content there, or one is too short and the load fails. -/
def DiskFragmentTable.NoOtherBytes {ctx : SqfsCtx} (disk : DiskFragmentTable ctx) : Prop :=
  (∀ block ∈ disk.table.blocks, block.StartsInPlace) ∨
    ∃ block ∈ disk.table.blocks, ¬ block.ReachesInPlace

/-- The fragment table is loaded as it is stored exactly when the rounding of its number
of blocks does not wrap and no block unpacks in place to other bytes, or it wraps and the entries
are as empty as the array they are read to. -/
theorem sqfsFragmentTableLoad_exact_iff (ctx : SqfsCtx) (disk : DiskFragmentTable ctx) :
    LoadsFragments ctx disk.entries ↔
      (ctx.sb.disk.fragCount ≤ 2 ^ 32 - 512 ∧ disk.NoOtherBytes) ∨
        (2 ^ 32 - 512 < ctx.sb.disk.fragCount ∧
          ∀ entry ∈ disk.entries, entry = { start := 0, size := 0, unused := 0 }) := by
  by_cases fits : ctx.sb.disk.fragCount ≤ 2 ^ 32 - 512
  · rw [and_iff_right fits, or_iff_left (by omega), DiskFragmentTable.NoOtherBytes]
    rcases disk.load_of_fits fits with
      ⟨unreached, code, failed⟩ | ⟨reached, loaded, load, length, exact_⟩
    · apply iff_of_true _ (.inr unreached)
      intro table succeeded
      rw [failed] at succeeded
      cases succeeded
    · rw [or_iff_left (by simpa using reached), ← exact_]
      constructor
      · intro loads
        exact entries_eq_of_loads loads load (length.trans disk.counted) disk.counted
      · rintro rfl
        exact loadsFragments_of_load load disk.counted
  · have load := disk.load_of_wraps (Nat.lt_of_not_le fits)
    rw [or_iff_right (fun inRange => fits inRange.1), and_iff_right (Nat.lt_of_not_le fits)]
    constructor
    · intro loads
      have same := entries_eq_of_loads loads load List.length_replicate disk.counted
      rw [← same]
      intro entry member
      exact List.eq_of_mem_replicate member
    · intro empty
      have same : disk.entries = List.replicate ctx.sb.disk.fragCount ⟨0, 0, 0⟩ :=
        List.eq_replicate_iff.mpr ⟨disk.counted, empty⟩
      rw [← same] at load
      exact loadsFragments_of_load load disk.counted

/-! ## A table that is too long -/

def repeatedSuperblock (fragCount : Nat) : SquashfsSuperblock :=
  { SquashfsSuperblock.small 0 sqfsInvalidOffset sqfsInvalidOffset 96 96 with
    fragCount, flags := 0, fragTable := 8308 }

def repeatedEntry : SqfsFragEntry := ⟨96, 8194, 0⟩

def repeatedPage : List UInt8 := (List.replicate 512 repeatedEntry).flatMap SqfsFragEntry.encode

theorem repeatedPage_length : repeatedPage.length = 8192 := by
  rw [repeatedPage, length_flatMap_of_uniform SqfsFragEntry.encode_length, List.length_replicate]

private theorem repeatedPage_nonempty : 0 < repeatedPage.length := by
  rw [repeatedPage_length]
  decide

private theorem repeatedPage_short : repeatedPage.length ≤ sqfsMetaBlockSize := by
  rw [repeatedPage_length]
  decide

private theorem repeatedEntry_nonempty : 0 < repeatedEntry.encode.length := by
  rw [SqfsFragEntry.encode_length]
  decide

private theorem repeatedEntry_short : repeatedEntry.encode.length ≤ sqfsMetaBlockSize := by
  rw [SqfsFragEntry.encode_length]
  decide

def repeatedPositions (count : Nat) : List Nat := List.replicate count 96 ++ [8290]

def repeatedList (count : Nat) : List UInt8 := (repeatedPositions count).flatMap (leBytes 8)

theorem repeatedList_length (count : Nat) : (repeatedList count).length = 8 * (count + 1) := by
  rw [repeatedList, length_flatMap_of_uniform (leBytes_length 8), repeatedPositions,
    List.length_append, List.length_replicate, List.length_singleton, Nat.mul_comm]

def repeatedRest (count : Nat) : List UInt8 :=
  leBytes 2 (2 ^ 15 + repeatedEntry.encode.length) ++ (repeatedEntry.encode ++ repeatedList count)

def repeatedFront (count : Nat) : List UInt8 :=
  (repeatedSuperblock (512 * count + 1)).encode ++
    (leBytes 2 (2 ^ 15 + repeatedPage.length) ++ repeatedPage)

theorem repeatedFront_length (count : Nat) : (repeatedFront count).length = 8290 := by
  rw [repeatedFront, List.length_append, List.length_append, leBytes_length,
    repeatedPage_length, SquashfsSuperblock.encode_length]

def repeatedBytes (count : Nat) : List UInt8 :=
  (repeatedSuperblock (512 * count + 1)).encode ++
    (leBytes 2 (2 ^ 15 + repeatedPage.length) ++ (repeatedPage ++ repeatedRest count))

private theorem repeatedBytes_eq (count : Nat) : repeatedBytes count = repeatedFront count ++
    (leBytes 2 (2 ^ 15 + repeatedEntry.encode.length) ++
      (repeatedEntry.encode ++ repeatedList count)) := by
  rw [repeatedBytes, repeatedRest, repeatedFront, List.append_assoc, List.append_assoc]

private theorem repeatedBytes_length (count : Nat) :
    (repeatedBytes count).length = 8308 + 8 * (count + 1) := by
  rw [repeatedBytes_eq, List.length_append, List.length_append, List.length_append,
    repeatedFront_length, leBytes_length, SqfsFragEntry.encode_length, repeatedList_length]
  omega

private theorem repeatedBytes_lt {count : Nat} (small : count < 2 ^ 32) :
    (repeatedBytes count).length < 2 ^ 63 := by
  rw [repeatedBytes_length]
  omega

private theorem repeatedSuperblock_validBlockSize (fragCount : Nat) :
    ValidBlockSize (repeatedSuperblock fragCount).blockSize
      (repeatedSuperblock fragCount).blockLog :=
  SqfsSuperblock.validBlockSize (SqfsCtx.onBytes [] nil_sizeInOffT).sb

private theorem repeatedSuperblock_inRange {fragCount : Nat} (small : fragCount < 2 ^ 32) :
    (repeatedSuperblock fragCount).InRange := by
  have without : (repeatedSuperblock 0).InRange := by constructor <;> decide
  have words := without.words
  simp only [List.forall_mem_cons] at words
  constructor
  · simp only [List.forall_mem_cons]
    exact ⟨words.1, words.2.1, words.2.2.1, words.2.2.2.1, small, words.2.2.2.2.2⟩
  · exact without.halves
  · exact without.positions

/-- The image: its superblock, a full block, a block with one entry, and a list that leads
to the full one many times. -/
def repeatedImage (count : Nat) (small : count < 2 ^ 32) : Image where
  bytes := repeatedBytes count
  sizeInOffT := repeatedBytes_lt small

def repeatedCtx (count : Nat) (small : count < 2 ^ 32) : SqfsCtx where
  image := repeatedImage count small
  sb := .ofDisk (repeatedSuperblock (512 * count + 1)) (repeatedSuperblock_validBlockSize _)
  comp := storedDeflate
  idTable := []
  fragmentTable := none
  xattrTable := none

private theorem repeatedCtx_hasFragments {count : Nat} (small : count < 2 ^ 32) :
    (repeatedCtx count small).sb.hasFragments = true := by
  simp only [repeatedCtx, SqfsSuperblock.ofDisk, repeatedSuperblock]
  decide

private theorem repeatedCtx_fragCount {count : Nat} (small : count < 2 ^ 32) :
    (repeatedCtx count small).sb.disk.fragCount = 512 * count + 1 := rfl

theorem sqfsSuperblockLoad_repeated {count : Nat} (small : count < 2 ^ 32)
    (counted : 512 * count + 1 < 2 ^ 32) :
    sqfsSuperblockLoad (repeatedImage count small) = .ok (repeatedCtx count small).sb := by
  have layout : (repeatedImage count small).bytes = repeatedBytes count := rfl
  have length := repeatedBytes_length count
  have version : ¬ ((repeatedSuperblock 0).versionMajor ≠ 4 ∨
      (repeatedSuperblock 0).versionMinor ≠ 0) := by decide
  have compressor : ¬ isCompressorSupported (repeatedSuperblock 0).compressor = false := by decide
  rw [repeatedBytes] at layout
  apply sqfsSuperblockLoad_of_encode layout (repeatedSuperblock_inRange counted) rfl
    version compressor
  change 96 ≤ (repeatedBytes count).length
  omega

section Repeated

variable {count : Nat} (small : count < 2 ^ 32)

private theorem repeatedFull_layout : (repeatedImage count small).bytes =
    (repeatedSuperblock (512 * count + 1)).encode ++
      (leBytes 2 (2 ^ 15 + repeatedPage.length) ++ (repeatedPage ++ repeatedRest count)) := rfl

private theorem repeatedLast_layout : (repeatedImage count small).bytes = repeatedFront count ++
    (leBytes 2 (2 ^ 15 + repeatedEntry.encode.length) ++
      (repeatedEntry.encode ++ repeatedList count)) := repeatedBytes_eq count

def repeatedFull : MetaBlock (repeatedImage count small) storedDeflate :=
  .ofStored (repeatedImage count small) storedDeflate
    (repeatedSuperblock (512 * count + 1)).encode repeatedPage (repeatedRest count)
    (repeatedFull_layout small) repeatedPage_nonempty repeatedPage_short

def repeatedLast : MetaBlock (repeatedImage count small) storedDeflate :=
  .ofStored (repeatedImage count small) storedDeflate (repeatedFront count)
    repeatedEntry.encode (repeatedList count) (repeatedLast_layout small)
    repeatedEntry_nonempty repeatedEntry_short

private theorem repeatedFull_pos : (repeatedFull small).pos = 96 := by
  rw [repeatedFull, MetaBlock.ofStored_pos, SquashfsSuperblock.encode_length]

private theorem repeatedLast_pos : (repeatedLast small).pos = 8290 := by
  rw [repeatedLast, MetaBlock.ofStored_pos, repeatedFront_length]

def repeatedBlocks : List (MetaBlock (repeatedImage count small) storedDeflate) :=
  List.replicate count (repeatedFull small) ++ [repeatedLast small]

def repeatedEntries (count : Nat) : List SqfsFragEntry :=
  List.replicate (512 * count + 1) repeatedEntry

private theorem repeatedPages_paged (count : Nat) : Paged sqfsMetaBlockSize
    (List.replicate count repeatedPage ++ [repeatedEntry.encode])
    ((repeatedEntries count).flatMap SqfsFragEntry.encode) := by
  rw [repeatedEntries]
  induction count with
  | zero => exact .single (by decide) repeatedEntry_short
  | succ count induction =>
      have whole : List.replicate (512 * (count + 1) + 1) repeatedEntry =
          List.replicate 512 repeatedEntry ++ List.replicate (512 * count + 1) repeatedEntry := by
        rw [List.replicate_append_replicate]
        congr 1
        omega
      rw [whole, List.flatMap_append, List.replicate_succ, List.cons_append]
      exact induction.append repeatedPage_length (by decide)

private theorem repeatedBlocks_paged : Paged sqfsMetaBlockSize ((repeatedBlocks small).map (·.content))
    ((repeatedEntries count).flatMap SqfsFragEntry.encode) := by
  have contents : (repeatedBlocks small).map (·.content) =
      List.replicate count repeatedPage ++ [repeatedEntry.encode] := by
    rw [repeatedBlocks, List.map_append, List.map_replicate]
    rfl
  rw [contents]
  exact repeatedPages_paged count

private theorem repeatedBlocks_listed :
    (repeatedImage count small).diskBytes 8308 (8 * (repeatedBlocks small).length) =
      some ((repeatedBlocks small).flatMap fun block => leBytes 8 block.pos) := by
  have positions : (repeatedBlocks small).map (·.pos) = repeatedPositions count := by
    rw [repeatedBlocks, List.map_append, List.map_replicate, List.map_singleton,
      repeatedFull_pos, repeatedLast_pos, repeatedPositions]
  have list : ((repeatedBlocks small).flatMap fun block => leBytes 8 block.pos) =
      repeatedList count := by
    rw [repeatedList, ← positions, List.flatMap_map]
  have length : 8 * (repeatedBlocks small).length = (repeatedList count).length := by
    rw [repeatedList_length, repeatedBlocks, List.length_append, List.length_replicate,
      List.length_singleton]
  have layout : (repeatedImage count small).bytes = (repeatedFront count ++
      (leBytes 2 (2 ^ 15 + repeatedEntry.encode.length) ++ repeatedEntry.encode)) ++
        (repeatedList count ++ []) := by
    rw [repeatedLast_layout, List.append_nil, List.append_assoc, List.append_assoc]
  have front : (repeatedFront count ++ (leBytes 2 (2 ^ 15 + repeatedEntry.encode.length) ++
      repeatedEntry.encode)).length = 8308 := by
    rw [List.length_append, List.length_append, repeatedFront_length, leBytes_length,
      SqfsFragEntry.encode_length]
  have part := slice_append_length (repeatedFront count ++
    (leBytes 2 (2 ^ 15 + repeatedEntry.encode.length) ++ repeatedEntry.encode))
    (repeatedList count) []
  rw [← layout, front] at part
  rw [list, length, Image.diskBytes, if_neg (by rw [repeatedList_length]; omega), part]

def repeatedTable (counted : 512 * count + 1 < 2 ^ 32) :
    DiskFragmentTable (repeatedCtx count small) where
  entries := repeatedEntries count
  inRange := by
    intro entry member
    rw [List.eq_of_mem_replicate member]
    constructor <;> decide
  counted := List.length_replicate
  fragCount_lt := counted
  announced _ := repeatedCtx_hasFragments small
  table := ⟨repeatedBlocks small, repeatedBlocks_paged small, repeatedBlocks_listed small⟩

private theorem not_loadsFragments_repeated (counted : 512 * count + 1 < 2 ^ 32)
    (wraps : 2 ^ 32 - 512 < 512 * count + 1) :
    ¬ LoadsFragments (repeatedCtx count small) (repeatedEntries count) := by
  intro loads
  have load := (repeatedTable small counted).load_of_wraps wraps
  have found : (repeatedEntries count)[0]? = some repeatedEntry := by
    rw [repeatedEntries, List.getElem?_replicate, if_pos (Nat.succ_pos _)]
  have served := (loads _ load).2.1 0 repeatedEntry found
  rw [sqfsFragmentGetEntry_of_loaded rfl, List.getElem?_replicate, repeatedCtx_fragCount,
    if_pos (Nat.succ_pos _)] at served
  cases served

end Repeated

/-- The last 511 counts of fragments are loaded as empty entries. -/
theorem sqfsFragmentTableLoad_misses_entries :
    ¬ ∀ (ctx : SqfsCtx) (disk : DiskFragmentTable ctx), LoadsFragments ctx disk.entries := by
  intro claim
  have small : 2 ^ 23 - 1 < 2 ^ 32 := by decide
  have counted : 512 * (2 ^ 23 - 1) + 1 < 2 ^ 32 := by decide
  have wraps : 2 ^ 32 - 512 < 512 * (2 ^ 23 - 1) + 1 := by decide
  exact not_loadsFragments_repeated small counted wraps
    (claim (repeatedCtx (2 ^ 23 - 1) small) (repeatedTable small counted))

end SquashfsFuse
