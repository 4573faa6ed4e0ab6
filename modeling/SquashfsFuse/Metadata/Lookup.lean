import SquashfsFuse.Foundation.Pages
import SquashfsFuse.Metadata.Stream

/-! Lookup tables: records in metadata blocks that a list of positions leads to. -/

namespace SquashfsFuse

/-- A lookup table at `pos`: a list of the positions of metadata blocks, which hold the
bytes of the records in pages. The blocks may lie anywhere. -/
structure PagedTable (image : Image) (comp : Compressor) (pos : Nat)
    (bytes : List UInt8) where
  blocks : List (MetaBlock image comp)
  paged : Paged sqfsMetaBlockSize (blocks.map (·.content)) bytes
  listed : image.diskBytes pos (8 * blocks.length) =
    some (blocks.flatMap fun block => leBytes 8 block.pos)

theorem MetaStream.paged {image : Image} {comp : Compressor} {stream : MetaStream image comp}
    (chopped : stream.Chopped) :
    Paged sqfsMetaBlockSize (stream.blocks.map (·.content)) (stream.bytesFrom 0 0) := by
  have content : stream.bytesFrom 0 0 = (stream.blocks.map (·.content)).flatten := by
    rw [MetaStream.bytesFrom, List.drop_zero, List.drop_zero, List.flatMap_def]
  rw [content]
  apply Paged.of_chopped
  · exact (List.isChain_map _).mpr chopped
  · intro page member
    rcases List.mem_map.mp member with ⟨block, -, rfl⟩
    exact List.ne_nil_of_length_pos block.nonempty
  · intro page member
    rcases List.mem_map.mp member with ⟨block, -, rfl⟩
    exact block.content_le

theorem sqfsLe64ToCpu_range {words : List Nat} (inRange : ∀ word ∈ words, word < 2 ^ 64)
    {count : Nat} (bound : count ≤ words.length) (rest : List UInt8) :
    ((List.range count).mapM fun i =>
      sqfsLe64ToCpu (words.flatMap (leBytes 8) ++ rest) (i * 8)) = .ok (words.take count) := by
  have loads := @Outcome.mapM_range_eq_ok SqfsError Nat Nat
    (fun i => sqfsLe64ToCpu (words.flatMap (leBytes 8) ++ rest) (i * 8)) id words count bound
  rw [List.map_id] at loads
  apply loads
  intro idx word _ found
  have stored := drop_flatMap_of_getElem? (leBytes_length 8) found
  have small : word < 256 ^ 8 := inRange word (List.mem_of_getElem? found)
  have inside : idx * 8 ≤ (words.flatMap (leBytes 8)).length := by
    rw [length_flatMap_of_uniform (leBytes_length 8)]
    exact Nat.mul_le_mul_right 8 (Nat.le_of_lt (List.getElem?_eq_some_iff.mp found).1)
  apply Outcome.ofOption_eq_ok.mpr
  have whole := List.take_append_drop (idx * 8) (words.flatMap (leBytes 8))
  rw [stored] at whole
  rw [← whole, List.append_assoc, loadLe_append_of_le _ _ _ _ (by rw [List.length_take]; omega),
    List.length_take, Nat.min_eq_left inside, Nat.sub_self, List.append_assoc,
    loadLe_leBytes_zero, Nat.mod_eq_of_lt small]
  rfl

namespace PagedTable

variable {image : Image} {comp : Compressor} {pos : Nat} {bytes : List UInt8}
  (table : PagedTable image comp pos bytes)

theorem length_blocks :
    table.blocks.length = (bytes.length + sqfsMetaBlockSize - 1) / sqfsMetaBlockSize := by
  rw [← table.paged.length (by decide), List.length_map]

def positions : List Nat := table.blocks.map (·.pos)

theorem listed_eq : (table.blocks.flatMap fun block => leBytes 8 block.pos) =
    table.positions.flatMap (leBytes 8) := (List.flatMap_map ..).symm

theorem positions_lt : ∀ position ∈ table.positions, position < 2 ^ 64 := by
  intro position member
  rcases List.mem_map.mp member with ⟨block, -, rfl⟩
  exact Nat.lt_trans block.pos_lt (by decide)

theorem positions_length : table.positions.length = table.blocks.length := List.length_map _

theorem listed_entry {idx : Nat} {block : MetaBlock image comp}
    (found : table.blocks[idx]? = some block) :
    image.diskBytes (pos + idx * 8) 8 = some (leBytes 8 block.pos) := by
  have bound := (List.getElem?_eq_some_iff.mp found).1
  have occupied : 8 * table.blocks.length ≠ 0 := by omega
  have listed := table.listed
  rw [Image.diskBytes, if_neg occupied] at listed
  have stored := drop_flatMap_of_getElem?
    (fun block : MetaBlock image comp => leBytes_length 8 block.pos) found
  have entry : (image.bytes.drop (pos + idx * 8)).take 8 = leBytes 8 block.pos := by
    have shorter : (image.bytes.drop (pos + idx * 8)).take 8 =
        ((((image.bytes.drop pos).take (8 * table.blocks.length))).drop (idx * 8)).take 8 := by
      rw [List.drop_take, List.take_take, Nat.min_eq_left (by omega), List.drop_drop]
    rw [shorter, ← (slice_eq_some.mp listed).2, stored]
    exact List.take_left' (leBytes_length 8 block.pos)
  have inside := (slice_eq_some.mp listed).1
  rw [Image.diskBytes, if_neg (by decide)]
  exact slice_eq_some.mpr ⟨by omega, entry.symm⟩

theorem exists_pages {β : Type v} {encode : β → List UInt8} {width : Nat}
    {records : List β} (table : PagedTable image comp pos (records.flatMap encode))
    (perPage : Nat) (uniform : ∀ record, (encode record).length = width) (positive : 0 < width)
    (fits : perPage * width = sqfsMetaBlockSize) :
    ∃ pages, Paged perPage pages records ∧
      table.blocks.map (·.content) = pages.map fun page => page.flatMap encode := by
  have paged := table.paged
  rw [← fits] at paged
  exact paged.records uniform positive

end PagedTable

end SquashfsFuse
