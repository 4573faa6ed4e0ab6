import SquashfsFuse.Fuse.Owners
import SquashfsFuse.Tables.Exports

/-! Loading the ID table. -/

namespace SquashfsFuse

/-! ## The table on disk -/

/-- The ID table of an image. There is at least one ID. -/
structure DiskIdTable (image : Image) (sb : SqfsSuperblock) (comp : Compressor) where
  ids : List UInt32
  counted : ids.length = sb.disk.idCount
  nonempty : ids ≠ []
  few : ids.length < 2 ^ 16
  table : PagedTable image comp sb.disk.idTable (encodeIds ids)

def DiskIdTable.list {image : Image} {sb : SqfsSuperblock} {comp : Compressor}
    (disk : DiskIdTable image sb comp) : List UInt8 :=
  disk.table.blocks.flatMap fun block => leBytes 8 block.pos

/-! ## What is read -/

/-- `load_id_table`, where the first bytes of the list of positions come from `readList`. -/
def loadIdTableFrom (readList : Nat → Sqfs (List UInt8)) (image : Image) (sb : SqfsSuperblock)
    (comp : Compressor) : Sqfs (List (Option Nat)) :=
  let idCount := sb.disk.idCount
  if idCount = 0 then
    pure []
  else do
    let idPosTable ← readList (idCount * 8)
    let firstBlockPos ← sqfsLe64ToCpu idPosTable 0
    let metaBlock ← sqfsMetaReadBlock image comp firstBlockPos
    let idsToCopy := if idCount * 4 < metaBlock.length then idCount else metaBlock.length / 4
    let copied ← (List.range idsToCopy).mapM fun i =>
      Outcome.ofOption (loadLe 4 metaBlock (i * 4))
    pure (copied.map some ++ List.replicate (idCount - idsToCopy) none)

private theorem loadIdTable_eq_from (image : Image) (sb : SqfsSuperblock) (comp : Compressor) :
    loadIdTable image sb comp =
      loadIdTableFrom (fun count => sqfsPreadAll image count sb.disk.idTable) image sb comp := rfl

def readStoredList (list : List UInt8) (count : Nat) : Sqfs (List UInt8) :=
  Outcome.ofOption (slice list 0 count)

/-- All IDs are loaded, and no more of the list of positions is read than the format
stores. -/
structure LoadsIds {image : Image} {sb : SqfsSuperblock} {comp : Compressor}
    (disk : DiskIdTable image sb comp) : Prop where
  ids : loadIdTable image sb comp = .ok (disk.ids.map fun id => some id.toNat)
  list : (loadIdTableFrom (readStoredList disk.list) image sb comp).Defined

namespace DiskIdTable

variable {image : Image} {sb : SqfsSuperblock} {comp : Compressor}
  (disk : DiskIdTable image sb comp)

theorem encodeIds_length (ids : List UInt32) : (encodeIds ids).length = ids.length * 4 :=
  length_flatMap_of_uniform fun id => leBytes_length 4 id.toNat

private theorem idCount_ne_zero (disk : DiskIdTable image sb comp) : sb.disk.idCount ≠ 0 := by
  rw [← disk.counted]
  exact fun none => disk.nonempty (List.length_eq_zero_iff.mp none)

private theorem list_length : disk.list.length = 8 * ((disk.ids.length * 4 + 8191) / 8192) := by
  rw [list,
    length_flatMap_of_uniform fun block : MetaBlock image comp => leBytes_length 8 block.pos,
    disk.table.length_blocks, encodeIds_length, Nat.mul_comm]
  rfl

private theorem first_block : ∃ block, disk.table.blocks[0]? = some block ∧
    block.content = encodeIds (disk.ids.take 2048) := by
  rcases disk.table.exists_pages 2048 (fun id => leBytes_length 4 id.toNat) (by decide) rfl with
    ⟨pages, paged, contents⟩
  rcases paged.exists_page (by decide) (List.length_pos_iff.mpr disk.nonempty) with
    ⟨page, atPage⟩
  rw [Nat.zero_div] at atPage
  have first := paged.page_eq atPage
  rw [Nat.zero_mul, List.drop_zero] at first
  have mapped := congrArg (·[0]?) contents
  simp only [List.getElem?_map, atPage, Option.map_some, first] at mapped
  rcases Option.map_eq_some_iff.mp mapped with ⟨block, found, content⟩
  exact ⟨block, found, content⟩

/-- The block with the first IDs starts with them where `data.c` unpacks it. -/
def FirstInPlace : Prop :=
  ∀ block, disk.table.blocks[0]? = some block → block.StartsInPlace

private theorem copied_ids_iff {ids : List UInt32} {bytes : List UInt8} :
    ((List.range ids.length).mapM fun i => (Outcome.ofOption
      (loadLe 4 bytes (i * 4)) : Sqfs Nat)) = .ok (ids.map UInt32.toNat) ↔
        encodeIds ids <+: bytes := by
  constructor
  · intro copied
    apply flatMap_prefix_of_records fun id : UInt32 => leBytes_length 4 id.toNat
    intro idx id found
    have value : (ids.map UInt32.toNat)[idx]? = some id.toNat := by
      rw [List.getElem?_map, found, Option.map_some]
    have loaded := (Outcome.call_of_mapM_range copied).2 idx id.toNat value
    rw [drop_of_loadLe (Outcome.ofOption_eq_ok.mp loaded)]
    exact List.prefix_append _ _
  · rintro ⟨rest, rfl⟩
    have copied := @Outcome.mapM_range_eq_ok SqfsError UInt32 Nat
      (fun i => Outcome.ofOption (loadLe 4 (encodeIds ids ++ rest) (i * 4))) UInt32.toNat ids
      ids.length (Nat.le_refl _)
    rw [List.take_length] at copied
    apply copied
    intro idx id _ found
    rcases List.getElem?_eq_some_iff.mp found with ⟨bound, rfl⟩
    have loaded := loadLe_leWords bound
    rw [Nat.mul_comm] at loaded
    have length := encodeIds_length ids
    apply Outcome.ofOption_eq_ok.mpr
    rw [loadLe_append_of_fits 4 _ rest _ (by omega)]
    exact loaded

/-- What is loaded from the unpacked first block. The IDs behind it stay indeterminate. -/
def copiedFrom (idCount : Nat) (unpacked : List UInt8) : Sqfs (List (Option Nat)) := do
  let idsToCopy := if idCount * 4 < unpacked.length then idCount else unpacked.length / 4
  let copied ← (List.range idsToCopy).mapM fun i =>
    Outcome.ofOption (loadLe 4 unpacked (i * 4))
  pure (copied.map some ++ List.replicate (idCount - idsToCopy) none)

private theorem loadIdTableFrom_eq {readList : Nat → Sqfs (List UInt8)} {bytes : List UInt8}
    {block : MetaBlock image comp} (positive : sb.disk.idCount ≠ 0)
    (read : readList (sb.disk.idCount * 8) = .ok bytes)
    (first : sqfsLe64ToCpu bytes 0 = .ok block.pos) :
    loadIdTableFrom readList image sb comp =
      match block.unpackedInPlace with
      | some unpacked => copiedFrom sb.disk.idCount unpacked
      | none => .err .corrupt := by
  rw [loadIdTableFrom]
  dsimp only
  rw [if_neg positive, read, Outcome.ok_bind, first, Outcome.ok_bind,
    block.sqfsMetaReadBlock_eq]
  cases block.unpackedInPlace <;> rfl

private theorem copiedFrom_defined (idCount : Nat) (unpacked : List UInt8) :
    (copiedFrom idCount unpacked).Defined := by
  rw [copiedFrom, Outcome.defined_bind]
  refine ⟨Outcome.defined_mapM ?_, fun _ _ => Outcome.defined_ok _⟩
  intro i member
  have bound := List.mem_range.mp member
  rcases @loadLe_of_le 4 (i * 4) unpacked (by split at bound <;> omega) with ⟨id, loaded⟩
  rw [loaded]
  exact Outcome.defined_ok id

private theorem copiedFrom_eq_iff {ids : List UInt32} {unpacked : List UInt8} :
    copiedFrom ids.length unpacked = .ok (ids.map fun id => some id.toNat) ↔
      encodeIds ids <+: unpacked := by
  have length := encodeIds_length ids
  have whole : (ids.map fun id => some id.toNat) = (ids.map UInt32.toNat).map some :=
    (List.map_map ..).symm
  rw [← copied_ids_iff, copiedFrom]
  by_cases room : ids.length * 4 ≤ unpacked.length
  · have toCopy : (if ids.length * 4 < unpacked.length then ids.length
        else unpacked.length / 4) = ids.length := by
      split <;> omega
    rw [toCopy, Nat.sub_self, List.replicate_zero, Outcome.bind_eq_ok, whole]
    constructor
    · rintro ⟨copied, copies, equal⟩
      rw [List.append_nil] at equal
      rw [copies, List.map_injective_iff.mpr (Option.some_injective Nat) (Outcome.ok.inj equal)]
    · intro copies
      exact ⟨_, copies, by rw [List.append_nil]; rfl⟩
  · have toCopy : (if ids.length * 4 < unpacked.length then ids.length
        else unpacked.length / 4) = unpacked.length / 4 := if_neg (by omega)
    rw [toCopy]
    apply iff_of_false
    · intro copies
      rcases Outcome.bind_eq_ok.mp copies with ⟨copied, -, equal⟩
      have missing : (none : Option Nat) ∈ ids.map fun id => some id.toNat := by
        rw [← Outcome.ok.inj equal]
        apply List.mem_append_right
        rw [List.mem_replicate]
        exact ⟨by omega, rfl⟩
      simp at missing
    · intro copies
      have long := (copied_ids_iff.mp copies).length_le
      omega

private theorem first_position {bytes : List UInt8} {block : MetaBlock image comp}
    (begins : bytes.take 8 = leBytes 8 block.pos) : sqfsLe64ToCpu bytes 0 = .ok block.pos := by
  have small : block.pos < 256 ^ 8 := Nat.lt_trans block.pos_lt (by decide)
  rw [sqfsLe64ToCpu, ← loadLe_take 8 bytes 0 8 (Nat.le_refl 8), begins, loadLe_leBytes,
    Nat.mod_eq_of_lt small]
  rfl

/-- The IDs are loaded exactly when the first block has them all, also where `data.c` unpacks
it, and the image has as many words as there are IDs where the list begins. -/
theorem loadIdTable_ids_iff :
    loadIdTable image sb comp = .ok (disk.ids.map fun id => some id.toNat) ↔
      (disk.ids.length ≤ 2048 ∧ disk.FirstInPlace) ∧
        sb.disk.idTable + disk.ids.length * 8 ≤ image.bytes.length := by
  have counted := disk.counted
  have positive := disk.idCount_ne_zero
  have occupied : sb.disk.idCount * 8 ≠ 0 := by omega
  rcases disk.first_block with ⟨block, found, content⟩
  rw [and_comm]
  by_cases inside : sb.disk.idTable + disk.ids.length * 8 ≤ image.bytes.length
  · have read : image.diskBytes sb.disk.idTable (sb.disk.idCount * 8) =
        some ((image.bytes.drop sb.disk.idTable).take (sb.disk.idCount * 8)) := by
      rw [Image.diskBytes, if_neg occupied]
      exact slice_eq_some.mpr ⟨by omega, rfl⟩
    have entry := disk.table.listed_entry found
    rw [Image.diskBytes, if_neg (by decide), Nat.zero_mul, Nat.add_zero] at entry
    have first : sqfsLe64ToCpu ((image.bytes.drop sb.disk.idTable).take (sb.disk.idCount * 8)) 0 =
        .ok block.pos := by
      apply first_position
      rw [List.take_take, Nat.min_eq_left (by omega), (slice_eq_some.mp entry).2]
    have delivered : (fun count => sqfsPreadAll image count sb.disk.idTable)
        (sb.disk.idCount * 8) = .ok _ := sqfsPreadAll_eq_ok.mpr read
    rw [and_iff_right inside, loadIdTable_eq_from, loadIdTableFrom_eq positive delivered first,
      ← counted, FirstInPlace]
    simp only [found, Option.some.injEq, forall_eq', MetaBlock.StartsInPlace, content]
    cases unpacks : block.unpackedInPlace with
    | none => simp
    | some unpacked =>
        simp only [Option.some.injEq, exists_eq_left']
        rw [copiedFrom_eq_iff]
        by_cases few : disk.ids.length ≤ 2048
        · rw [and_iff_right few, List.take_of_length_le few]
        · apply iff_of_false
          · intro starts
            have long := starts.length_le
            have short := block.unpackedInPlace_le unpacks
            rw [encodeIds_length] at long
            rw [sqfsMetaBlockSize] at short
            omega
          · exact fun both => few both.1
  · rw [iff_false_right (fun both => inside both.1)]
    intro loads
    rw [loadIdTable_eq_from, loadIdTableFrom] at loads
    dsimp only at loads
    rw [if_neg positive] at loads
    rcases Outcome.bind_eq_ok.mp loads with ⟨bytes, read, -⟩
    have bound := Image.diskBytes_bound (sqfsPreadAll_eq_ok.mp read) occupied
    omega

/-- Nothing behind the stored list is read exactly when there is one ID. -/
theorem loadIdTable_list_iff :
    (loadIdTableFrom (readStoredList disk.list) image sb comp).Defined ↔
      disk.ids.length = 1 := by
  have counted := disk.counted
  have positive := disk.idCount_ne_zero
  have length := disk.list_length
  constructor
  · intro defined
    rw [loadIdTableFrom] at defined
    dsimp only at defined
    rw [if_neg positive, Outcome.defined_bind, readStoredList, Outcome.defined_ofOption,
      slice_isSome] at defined
    omega
  · intro one
    rcases disk.first_block with ⟨block, found, -⟩
    have begins : disk.list.take 8 = leBytes 8 block.pos := by
      have front := drop_flatMap_of_getElem?
        (fun block : MetaBlock image comp => leBytes_length 8 block.pos) found
      rw [Nat.zero_mul, List.drop_zero] at front
      rw [list, front]
      exact List.take_left' (leBytes_length 8 block.pos)
    have read : readStoredList disk.list (sb.disk.idCount * 8) = .ok (disk.list.take 8) := by
      rw [← counted, one, readStoredList, slice, if_pos (by omega)]
      rfl
    have first : sqfsLe64ToCpu (disk.list.take 8) 0 = .ok block.pos := by
      apply first_position
      rw [List.take_take, Nat.min_self, begins]
    rw [loadIdTableFrom_eq positive read first]
    cases block.unpackedInPlace with
    | none => exact Outcome.defined_err _
    | some unpacked => exact copiedFrom_defined _ _

end DiskIdTable

/-- The ID table is loaded as it should be exactly when it has one ID, with which its block
starts where `data.c` unpacks it. -/
theorem loadIdTable_exact_iff (image : Image) (sb : SqfsSuperblock) (comp : Compressor)
    (disk : DiskIdTable image sb comp) :
    LoadsIds disk ↔ disk.ids.length = 1 ∧ disk.FirstInPlace := by
  constructor
  · intro loads
    exact ⟨disk.loadIdTable_list_iff.mp loads.list, (disk.loadIdTable_ids_iff.mp loads.ids).1.2⟩
  · rintro ⟨one, inPlace⟩
    have listed := disk.table.listed
    have blocks := disk.table.length_blocks
    rw [DiskIdTable.encodeIds_length, one] at blocks
    rw [blocks] at listed
    have bound := Image.diskBytes_bound listed (by decide)
    have inside : sb.disk.idTable + 8 ≤ image.bytes.length := bound
    constructor
    · exact disk.loadIdTable_ids_iff.mpr ⟨⟨by omega, inPlace⟩, by omega⟩
    · exact disk.loadIdTable_list_iff.mpr one

/-! ## A table at the end of the image -/

def lastList : List UInt8 := leBytes 8 168

private theorem lastList_small : lastList.length < 2 ^ 32 := by decide

def lastListCtx : SqfsCtx := numberedCtx 186 lastList lastList_small

private theorem lastIds_layout : lastListCtx.image.bytes =
    lastListCtx.image.bytes.take 168 ++
      (leBytes 2 (2 ^ 15 + (encodeIds [0, 0]).length) ++
        (encodeIds [0, 0] ++ lastListCtx.image.bytes.drop 178)) := by
  decide +kernel

private theorem lastIds_nonempty : 0 < (encodeIds [0, 0]).length := by decide

private theorem lastIds_short : (encodeIds [0, 0]).length ≤ sqfsMetaBlockSize := by decide

def lastIdsBlock : MetaBlock lastListCtx.image storedDeflate :=
  .ofStored lastListCtx.image storedDeflate (lastListCtx.image.bytes.take 168) (encodeIds [0, 0])
    (lastListCtx.image.bytes.drop 178) lastIds_layout lastIds_nonempty lastIds_short

private theorem lastIdsBlock_paged : Paged sqfsMetaBlockSize ([lastIdsBlock].map (·.content))
    (encodeIds [0, 0]) :=
  .single (List.ne_nil_of_length_pos lastIds_nonempty) lastIds_short

private theorem lastIdsBlock_listed : lastListCtx.image.diskBytes 186 (8 * [lastIdsBlock].length) =
    some ([lastIdsBlock].flatMap fun block => leBytes 8 block.pos) := by
  decide +kernel

private theorem lastIds_ne_nil : ([0, 0] : List UInt32) ≠ [] := by decide

private theorem lastIds_few : ([0, 0] : List UInt32).length < 2 ^ 16 := by decide

def lastIdTable : DiskIdTable lastListCtx.image lastListCtx.sb storedDeflate where
  ids := [0, 0]
  counted := rfl
  nonempty := lastIds_ne_nil
  few := lastIds_few
  table := ⟨[lastIdsBlock], lastIdsBlock_paged, lastIdsBlock_listed⟩

/-- Two IDs whose list ends the image are not loaded. -/
theorem loadIdTable_misses_ids :
    ¬ ∀ (image : Image) (sb : SqfsSuperblock) (comp : Compressor)
      (disk : DiskIdTable image sb comp), LoadsIds disk := by
  intro claim
  have loads := (claim _ _ _ lastIdTable).ids
  have failed : (loadIdTable lastListCtx.image lastListCtx.sb storedDeflate).toOption = none := by
    decide +kernel
  rw [loads] at failed
  cases failed

end SquashfsFuse
