import SquashfsFuse.Fuse.Attributes
import SquashfsFuse.Metadata.Lookup

/-! Loading the ID table of the extended attributes. -/

namespace SquashfsFuse

/-! ## Entries -/

namespace SqfsXattrIdEntry

structure InRange (entry : SqfsXattrIdEntry) : Prop where
  xattrRef : entry.xattrRef < 256 ^ 8
  count : entry.count < 256 ^ 4
  size : entry.size < 256 ^ 4

theorem ofBytes_encode {entry : SqfsXattrIdEntry} (inRange : entry.InRange) :
    ofBytes entry.encode 0 = some entry := by
  have whole : entry.encode = leBytes 8 entry.xattrRef ++
      (leBytes 4 entry.count ++ (leBytes 4 entry.size ++ [])) := by
    rw [encode, List.append_nil, List.append_assoc]
  rw [ofBytes, whole]
  simp only [loadLe_leBytes_zero, loadLe_leBytes_skip, Std.le_refl, tsub_self, Nat.zero_add,
    Nat.reduceLeDiff, Nat.reduceSub, Nat.mod_eq_of_lt inRange.xattrRef,
    Nat.mod_eq_of_lt inRange.count, Nat.mod_eq_of_lt inRange.size, Option.pure_def,
    Option.bind_eq_bind, Option.bind_some]

private theorem encode_of_ofBytes {bytes : List UInt8} {entry : SqfsXattrIdEntry}
    (decoded : ofBytes bytes 0 = some entry) (length : bytes.length = 16) :
    bytes = entry.encode := by
  rcases Option.bind_eq_some_iff.mp decoded with ⟨xattrRef, first, decoded⟩
  rcases Option.bind_eq_some_iff.mp decoded with ⟨count, second, decoded⟩
  rcases Option.bind_eq_some_iff.mp decoded with ⟨size, third, equal⟩
  cases equal
  have front := drop_of_loadLe first
  have middle := drop_of_loadLe second
  have back := drop_of_loadLe third
  rw [Nat.zero_add] at middle back
  have nothing : bytes.drop 16 = [] := List.drop_of_length_le (by omega)
  calc bytes = leBytes 8 xattrRef ++ bytes.drop 8 := front
    _ = leBytes 8 xattrRef ++ (leBytes 4 count ++ (leBytes 4 size ++ [])) := by
        rw [middle, back, nothing]
    _ = encode ⟨xattrRef, count, size⟩ := by
        rw [encode, List.append_nil, List.append_assoc]

end SqfsXattrIdEntry

private theorem readXattrIdEntry_eq_ok {image : Image} {offset : Nat} {entry : SqfsXattrIdEntry}
    (inRange : entry.InRange) :
    readXattrIdEntry image offset = .ok entry ↔
      image.diskBytes offset 16 = some entry.encode := by
  constructor
  · intro read
    rcases Outcome.bind_eq_ok.mp read with ⟨bytes, found, decoded⟩
    have found := sqfsPreadAll_eq_ok.mp found
    rw [found, SqfsXattrIdEntry.encode_of_ofBytes (Outcome.ofOption_eq_ok.mp decoded)
      (Image.diskBytes_length found)]
  · intro found
    rw [readXattrIdEntry, sqfsPreadAll_eq_ok.mpr found, Outcome.ok_bind,
      SqfsXattrIdEntry.ofBytes_encode inRange]
    rfl

/-! ## The table -/

/-- The ID table of an image as the format has it: a header of 16 bytes, of which the last
four mean nothing, and the list of the blocks with the entries. -/
structure DiskXattrIdTable (ctx : SqfsCtx) where
  tableStart : UInt64
  unused : UInt32
  entries : List SqfsXattrIdEntry
  inRange : ∀ entry ∈ entries, entry.InRange
  counted : entries.length < 2 ^ 32
  announced : ctx.sb.disk.flags &&& squashfsFlagNoXattrs = 0
  header : ctx.image.diskBytes ctx.sb.disk.xattrTable 16 =
    some (leBytes 8 tableStart.toNat ++ leBytes 4 entries.length ++ leBytes 4 unused.toNat)
  table : PagedTable ctx.image ctx.comp (ctx.sb.disk.xattrTable + 16)
    (entries.flatMap SqfsXattrIdEntry.encode)

/-- The table is loaded as the format stores it. -/
def LoadsXattrIds (ctx : SqfsCtx) (disk : DiskXattrIdTable ctx) : Prop :=
  sqfsXattrTableLoad ctx =
    .ok { entries := disk.entries, tableStart := disk.tableStart.toNat, loaded := true }

/-- The image has the table also in the form that the source reads: a header of 18 bytes
with a count of 64 bits, and the entries themselves behind it. -/
structure LiesFlat (ctx : SqfsCtx) (disk : DiskXattrIdTable ctx) : Prop where
  unused : disk.unused = 0
  counted : disk.entries.length < 2 ^ 32 - 1
  header : ctx.sb.disk.xattrTable + 18 ≤ ctx.image.bytes.length
  entries : ∀ idx entry, disk.entries[idx]? = some entry →
    ctx.image.diskBytes (ctx.sb.disk.xattrTable + 18 + idx * 16) 16 = some entry.encode

private theorem loadLe_two_words {low high : Nat} (lowSmall : low < 2 ^ 32) (highSmall : high < 2 ^ 32)
    (rest : List UInt8) :
    loadLe 8 (leBytes 4 low ++ (leBytes 4 high ++ rest)) 0 = some (low + 2 ^ 32 * high) := by
  have part := slice_append_length [] (leBytes 4 low ++ leBytes 4 high) rest
  rw [List.nil_append, List.append_assoc, List.length_append, leBytes_length, leBytes_length,
    List.length_nil] at part
  rw [loadLe, part, Option.map_some, leValue_append, leValue_leBytes, leValue_leBytes,
    leBytes_length, Nat.mod_eq_of_lt (show low < 256 ^ 4 from lowSmall),
    Nat.mod_eq_of_lt (show high < 256 ^ 4 from highSmall)]
  rfl

namespace DiskXattrIdTable

variable {ctx : SqfsCtx}

private theorem header_bound (disk : DiskXattrIdTable ctx) :
    ctx.sb.disk.xattrTable + 16 ≤ ctx.image.bytes.length :=
  Image.diskBytes_bound disk.header (by decide)

private theorem read_header (disk : DiskXattrIdTable ctx)
    (inside : ctx.sb.disk.xattrTable + 18 ≤ ctx.image.bytes.length) :
    ∃ header, sqfsPreadAll ctx.image 18 ctx.sb.disk.xattrTable = .ok header ∧
      sqfsLe64ToCpu header 0 = .ok disk.tableStart.toNat ∧
      sqfsLe64ToCpu header 8 = .ok (disk.entries.length + 2 ^ 32 * disk.unused.toNat) := by
  have stored := disk.header
  rw [Image.diskBytes, if_neg (by decide)] at stored
  have front := (slice_eq_some.mp stored).2
  have split : (ctx.image.bytes.drop ctx.sb.disk.xattrTable).take 18 =
      leBytes 8 disk.tableStart.toNat ++ (leBytes 4 disk.entries.length ++
        (leBytes 4 disk.unused.toNat ++
          ((ctx.image.bytes.drop ctx.sb.disk.xattrTable).take 18).drop 16)) := by
    have parts := List.take_append_drop 16 ((ctx.image.bytes.drop ctx.sb.disk.xattrTable).take 18)
    rw [List.take_take, Nat.min_eq_left (by decide), ← front, List.append_assoc,
      List.append_assoc] at parts
    exact parts.symm
  have start : disk.tableStart.toNat < 256 ^ 8 := disk.tableStart.toNat_lt
  refine ⟨(ctx.image.bytes.drop ctx.sb.disk.xattrTable).take 18, ?_, ?_, ?_⟩
  · apply sqfsPreadAll_eq_ok.mpr
    rw [Image.diskBytes, if_neg (by decide)]
    exact slice_eq_some.mpr ⟨inside, rfl⟩
  · rw [split, sqfsLe64ToCpu, loadLe_leBytes_zero, Nat.mod_eq_of_lt start]
    rfl
  · rw [split, sqfsLe64ToCpu, loadLe_leBytes_skip 8 8 _ _ 8 (Nat.le_refl 8), Nat.sub_self,
      loadLe_two_words disk.counted disk.unused.toNat_lt]
    rfl

private theorem load_eq (disk : DiskXattrIdTable ctx) :
    sqfsXattrTableLoad ctx = readXattrIdTable ctx.image ctx.sb.disk.xattrTable := by
  have bound := disk.header_bound
  have size := ctx.image.sizeInOffT
  have valid : sqfsTableValid ctx.sb.disk.xattrTable ≠ false := by
    simp only [sqfsTableValid, sqfsInvalidOffset, ne_eq, bne_eq_false_iff_eq]
    omega
  rw [sqfsXattrTableLoad, if_neg (not_not.mpr disk.announced), if_neg valid]

private theorem entry_offset (disk : DiskXattrIdTable ctx) {idx : Nat} (small : idx < 2 ^ 32) :
    u64 (u64 (ctx.sb.disk.xattrTable + 18) + idx * 16) =
      ctx.sb.disk.xattrTable + 18 + idx * 16 := by
  have bound := disk.header_bound
  have size := ctx.image.sizeInOffT
  rw [u64_of_lt (show ctx.sb.disk.xattrTable + 18 < 2 ^ 64 by omega), u64_of_lt (by omega)]

private theorem load_of_flat {disk : DiskXattrIdTable ctx} (flat : LiesFlat ctx disk) :
    LoadsXattrIds ctx disk := by
  rcases disk.read_header flat.header with ⟨header, read, tableStart, xattrIds⟩
  have zero : disk.unused.toNat = 0 := by
    rw [flat.unused]
    rfl
  have entries := @Outcome.mapM_range_eq_ok SqfsError SqfsXattrIdEntry SqfsXattrIdEntry
    (fun i => readXattrIdEntry ctx.image (u64 (u64 (ctx.sb.disk.xattrTable + 18) + i * 16)))
    id disk.entries disk.entries.length (Nat.le_refl _)
  rw [List.map_id, List.take_length] at entries
  rw [LoadsXattrIds, disk.load_eq, readXattrIdTable, read, Outcome.ok_bind, tableStart,
    Outcome.ok_bind, xattrIds, Outcome.ok_bind, zero, Nat.mul_zero, Nat.add_zero,
    if_pos flat.counted]
  dsimp only
  rw [entries, Outcome.ok_bind]
  · rfl
  · intro idx entry bound found
    have small : idx < 2 ^ 32 := Nat.lt_trans bound disk.counted
    apply (readXattrIdEntry_eq_ok (disk.inRange entry (List.mem_of_getElem? found))).mpr
    rw [disk.entry_offset small]
    exact flat.entries idx entry found

private theorem flat_of_load {disk : DiskXattrIdTable ctx} (loads : LoadsXattrIds ctx disk) :
    LiesFlat ctx disk := by
  rw [LoadsXattrIds, disk.load_eq] at loads
  rcases Outcome.bind_eq_ok.mp loads with ⟨header, read, rest⟩
  have inside := Image.diskBytes_bound (sqfsPreadAll_eq_ok.mp read) (by decide)
  rcases disk.read_header inside with ⟨same, readAgain, tableStart, xattrIds⟩
  obtain rfl : header = same := Outcome.ok.inj (read.symm.trans readAgain)
  rw [tableStart, Outcome.ok_bind, xattrIds, Outcome.ok_bind] at rest
  split at rest
  · next small =>
      have zero : disk.unused.toNat = 0 := by omega
      rcases Outcome.bind_eq_ok.mp rest with ⟨entries, called, equal⟩
      obtain rfl : entries = disk.entries :=
        congrArg SqfsXattrTable.entries (Outcome.ok.inj equal)
      constructor
      · exact UInt32.toNat_inj.mp zero
      · omega
      · exact inside
      · intro idx entry found
        have bound := (List.getElem?_eq_some_iff.mp found).1
        have delivered := (Outcome.call_of_mapM_range called).2 idx entry found
        rw [disk.entry_offset (Nat.lt_trans bound disk.counted)] at delivered
        exact (readXattrIdEntry_eq_ok
          (disk.inRange entry (List.mem_of_getElem? found))).mp delivered
  · contradiction

end DiskXattrIdTable

/-- The ID table is loaded exactly where the image happens to have it a second time, in the
form that the source reads. -/
theorem sqfsXattrTableLoad_exact_iff (ctx : SqfsCtx) (disk : DiskXattrIdTable ctx) :
    LoadsXattrIds ctx disk ↔ LiesFlat ctx disk := by
  constructor
  · exact DiskXattrIdTable.flat_of_load
  · exact DiskXattrIdTable.load_of_flat

/-! ## The image with one attribute -/

private theorem one_lt_two_pow_32 : 1 < 2 ^ 32 := by decide

private theorem attributedEntry_inRange : ∀ entry ∈ [attributedEntry], entry.InRange := by
  intro entry member
  rw [List.mem_singleton.mp member]
  constructor <;> decide

def attributedIds {ctx : SqfsCtx} (onImage : ctx.image = attributedImage)
    (located : ctx.sb.disk.xattrTable = 182)
    (announced : ctx.sb.disk.flags &&& squashfsFlagNoXattrs = 0) : DiskXattrIdTable ctx where
  tableStart := 152
  unused := 0
  entries := [attributedEntry]
  inRange := attributedEntry_inRange
  counted := one_lt_two_pow_32
  announced := announced
  header := (attributedTable onImage located).header
  table := (attributedTable onImage located).lookup.toPaged

/-- The table of a mounted image is not loaded: the image ends before what the source takes
for its entry. -/
theorem sqfsXattrTableLoad_misses_entry :
    ¬ ∀ (ctx : SqfsCtx) (disk : DiskXattrIdTable ctx), LoadsXattrIds ctx disk := by
  intro claim
  have mounted : initContext gzipOnly attributedImage 32 false = .ok attributed :=
    initContext_mountedOn (by decide +kernel)
  have loads := claim attributed.ctx (attributedIds (initContext_mounts mounted).onImage
    (by decide +kernel) (by decide +kernel))
  have fails : sqfsXattrTableLoad attributed.ctx = .err .corrupt := by decide +kernel
  rw [LoadsXattrIds, fails] at loads
  cases loads

end SquashfsFuse
