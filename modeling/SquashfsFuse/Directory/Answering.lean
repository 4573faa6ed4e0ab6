import SquashfsFuse.Directory.Bounds
import SquashfsFuse.Directory.Data

/-! Directories that are listed without a fault, whatever is in their tables. -/

namespace SquashfsFuse

/-! ## Blocks -/

/-- The metadata block is stored as it is, and the image has more bytes of it than the buffer
holds. -/
def Image.MetaOverfills (image : Image) (pos : Nat) : Prop :=
  ∃ header, readMetaHeader image pos = .ok header ∧ header.uncompressed = true ∧
    pos + 2 + header.size < 2 ^ 63 ∧
      sqfsMetaBlockSize < min header.size (image.bytes.length - (pos + 2))

/-- The positions of the blocks that are read for `size` bytes behind an offset from a position
on, with the number of bytes in front of them. -/
inductive ListingBlock (image : Image) (comp : Compressor) (start offset size : Nat) :
    (pos gathered : Nat) → Prop
  | first : ListingBlock image comp start offset size start 0
  | next {pos gathered block behind} : ListingBlock image comp start offset size pos gathered →
      readMetaBlock image comp pos = .ok (block, behind) → offset < gathered + block.length →
      gathered + block.length < offset + size →
      ListingBlock image comp start offset size behind (gathered + block.length)

def SafeDirectory (ctx : SqfsCtx) (inode : SqfsInode) : Prop :=
  inode.get .dirSize ≠ 0 → ∀ pos gathered,
    ListingBlock ctx.image ctx.comp (u64 (ctx.sb.disk.dirTable + inode.get .dirBlockIdx))
      (inode.get .dirBlockOffset) (inode.get .dirSize) pos gathered →
    ¬ ctx.image.MetaOverfills pos

section Blocks

variable {image : Image} {comp : Compressor} {pos start offset size : Nat}

private theorem readMetaBlock_defined (fits : ¬ image.MetaOverfills pos) :
    (readMetaBlock image comp pos).Defined := by
  rw [SquashfsFuse.readMetaBlock, Outcome.defined_bind]
  refine ⟨readMetaHeader_defined image pos, fun header found => ?_⟩
  rw [Outcome.defined_bind]
  refine ⟨?_, fun _ _ => Outcome.defined_ok _⟩
  rw [decompressMetaBlock]
  split
  · next uncompressed =>
      rw [sqfsPreadInto, if_neg fun spills => fits ⟨header, found, uncompressed, spills⟩]
      exact sqfsPreadAll_defined image _ _
  · rw [Outcome.defined_bind]
    exact ⟨sqfsPreadAll_defined image _ _,
      fun stored _ => sqfsCompressorDecompress_defined comp _ stored _⟩

def Gathers (image : Image) (comp : Compressor) (start offset size : Nat)
    (state : DirectoryDataState) : Prop :=
  size ≤ state.copied.length ∨
    ListingBlock image comp start offset size state.blockPos (offset + state.copied.length) ∧
      0 < state.copied.length

theorem Gathers.pass {state : DirectoryDataState}
    (gathers : Gathers image comp start offset size state)
    (fits : ∀ pos gathered, ListingBlock image comp start offset size pos gathered →
      ¬ image.MetaOverfills pos) :
    (∀ next, readDirectoryDataPass image comp size state = .again next →
      Gathers image comp start offset size next) ∧
    ∀ result, readDirectoryDataPass image comp size state = .leave result → result.Defined := by
  unfold readDirectoryDataPass
  split
  · next short =>
      rcases gathers.resolve_left (Nat.not_le_of_lt short) with ⟨listed, some⟩
      rcases (readMetaBlock_defined (fits _ _ listed)).cases with
        ⟨⟨block, behind⟩, read⟩ | ⟨code, failed⟩
      · rw [read]
        dsimp only
        constructor
        · intro next again
          cases again
          rw [Gathers, List.length_append, List.length_take]
          by_cases enough : size ≤ state.copied.length + block.length
          · left
            omega
          · right
            have next := listed.next read (by omega) (by omega)
            rw [Nat.min_eq_right (by omega), ← Nat.add_assoc]
            exact ⟨next, Nat.add_pos_left some _⟩
        · nofun
      · rw [failed]
        constructor
        · nofun
        · intro result left
          cases left
          exact Outcome.defined_err code
  · constructor
    · nofun
    · intro result left
      cases left
      exact Outcome.defined_ok _

private theorem readDirectoryData_defined {dirTable blockIdx : Nat}
    (fits : ∀ pos gathered,
      ListingBlock image comp (u64 (dirTable + blockIdx)) offset size pos gathered →
      ¬ image.MetaOverfills pos) :
    (readDirectoryData image comp dirTable blockIdx offset size).Defined := by
  rw [readDirectoryData, Outcome.defined_bind]
  refine ⟨readMetaBlock_defined (fits _ _ .first), ?_⟩
  rintro ⟨block, behind⟩ read
  dsimp only
  split
  · exact Outcome.defined_err _
  · next inside =>
      split
      · exact Outcome.defined_ok _
      · next short =>
          have gathers : Gathers image comp (u64 (dirTable + blockIdx)) offset size
              ⟨block.drop offset, behind⟩ := by
            right
            have next := ListingBlock.first.next read
              (show offset < 0 + block.length by omega)
              (show 0 + block.length < offset + size by omega)
            have length : offset + (block.drop offset).length = 0 + block.length := by
              rw [List.length_drop]
              omega
            refine ⟨length ▸ next, ?_⟩
            rw [List.length_drop]
            omega
          rcases Option.isSome_iff_exists.mp (@readDirectoryDataPass_isSome image comp size
            ⟨block.drop offset, behind⟩) with ⟨result, run⟩
          rw [run]
          have returned : Pass.Returns (readDirectoryDataPass image comp size)
              ⟨block.drop offset, behind⟩ result := ⟨_, run⟩
          apply @Pass.Returns.invariant _ _ _ _ _
            (Gathers image comp (u64 (dirTable + blockIdx)) offset size) _ returned gathers
          · exact fun state next holds again => (holds.pass fits).1 next again
          · exact fun state result holds left => (holds.pass fits).2 result left

private theorem readMetaBlock_of_overfills (overfills : image.MetaOverfills pos) :
    readMetaBlock image comp pos = .fault := by
  rcases overfills with ⟨header, found, uncompressed, spills⟩
  rw [SquashfsFuse.readMetaBlock, found, Outcome.ok_bind, decompressMetaBlock,
    if_pos uncompressed, sqfsPreadInto, if_pos spills]
  rfl

theorem ListingBlock.entered {block : List UInt8} {behind gathered : Nat}
    (read : readMetaBlock image comp start = .ok (block, behind))
    (listed : ListingBlock image comp start offset size pos gathered) :
    pos = start ∧ gathered = 0 ∨
      offset < block.length ∧ block.length < offset + size ∧
        ∃ state, Pass.Enters (readDirectoryDataPass image comp size)
          ⟨block.drop offset, behind⟩ state ∧ state.blockPos = pos ∧
          offset + state.copied.length = gathered ∧ state.copied.length < size := by
  induction listed with
  | first => exact .inl ⟨rfl, rfl⟩
  | @next pos gathered other next listed otherRead started more induction =>
      right
      rcases induction with ⟨rfl, rfl⟩ | ⟨inside, goesOn, state, entered, rfl, sum, short⟩
      · rw [read] at otherRead
        cases otherRead
        refine ⟨by omega, by omega, _, .start _, rfl, ?_, ?_⟩
        · rw [List.length_drop]
          omega
        · rw [List.length_drop]
          omega
      · have again : readDirectoryDataPass image comp size state =
            .again ⟨state.copied ++ other, next⟩ := by
          rw [readDirectoryDataPass, if_pos short, otherRead]
          dsimp only
          rw [List.take_of_length_le (by omega)]
        refine ⟨inside, goesOn, _, entered.trans (.again again (.start _)), rfl, ?_, ?_⟩
        · rw [List.length_append]
          omega
        · rw [List.length_append]
          omega

private theorem ListingBlock.first_read {gathered : Nat}
    (listed : ListingBlock image comp start offset size pos gathered) :
    pos = start ∨ ∃ block behind, readMetaBlock image comp start = .ok (block, behind) := by
  induction listed with
  | first => exact .inl rfl
  | next listed read _ _ induction =>
      rcases induction with rfl | found
      · exact .inr ⟨_, _, read⟩
      · exact .inr found

private theorem not_metaOverfills_of_defined {dirTable blockIdx gathered : Nat}
    (defined : (readDirectoryData image comp dirTable blockIdx offset size).Defined)
    (listed : ListingBlock image comp (u64 (dirTable + blockIdx)) offset size pos gathered) :
    ¬ image.MetaOverfills pos := by
  intro overfills
  have faulted : readMetaBlock image comp pos = .fault := readMetaBlock_of_overfills overfills
  rw [readDirectoryData] at defined
  rcases listed.first_read with rfl | ⟨block, behind, read⟩
  · rw [faulted] at defined
    exact defined rfl
  · rcases listed.entered read with ⟨rfl, -⟩ | ⟨inside, more, state, entered, rfl, -, short⟩
    · rw [read] at faulted
      cases faulted
    · rw [read, Outcome.ok_bind] at defined
      dsimp only at defined
      rw [if_neg (by omega), if_neg (by omega)] at defined
      have left : readDirectoryDataPass image comp size state = .leave .fault := by
        rw [readDirectoryDataPass, if_pos short, faulted]
      rcases Option.isSome_iff_exists.mp (@readDirectoryDataPass_isSome image comp size
        ⟨block.drop offset, behind⟩) with ⟨result, run⟩
      rw [run] at defined
      exact defined ((entered.returns (.of_leave left)).unique ⟨_, run⟩).symm

end Blocks

/-! ## Entries -/

def DirectoryBuffer.ofBytes (data : List UInt8) : DirectoryBuffer where
  memory := Storage.zero.write 0 data
  size := data.length.toUInt32

private theorem DirectoryBuffer.rest_ofBytes {data : List UInt8} (small : data.length < 2 ^ 32) :
    (ofBytes data).rest 0 = data := by
  have size : (ofBytes data).end_ = data.length := Nat.mod_eq_of_lt small
  rw [rest, size]
  exact Storage.bytesAt_write .zero 0 data

/-- The entries are parsed or refused, since the function stays inside of its buffer. -/
theorem parseDirectoryEntries_defined {data : List UInt8} (small : data.length < 2 ^ 32) :
    (parseDirectoryEntries data).Defined := by
  have listed := readDirentRuns_listed (.ofBytes data)
  rw [DirectoryBuffer.rest_ofBytes small] at listed
  rw [← listed]
  rcases @readDirentRuns_exhausts (.ofBytes data) (fun _ => true) .initial .initial with
    ⟨code, failed⟩ | ⟨cursor, read, -, -⟩
  · rw [failed]
    exact Outcome.defined_err code
  · rw [read]
    exact Outcome.defined_ok _

/-! ## Whole listings -/

section Listings

variable {ctx : SqfsCtx} {inode : SqfsInode}

theorem SafeDirectory.sqfsDirRead_defined (safe : SafeDirectory ctx inode) :
    (sqfsDirRead ctx inode).Defined := by
  unfold sqfsDirRead
  split
  · exact Outcome.defined_err _
  · split
    · exact Outcome.defined_ok _
    · next some =>
        rw [Outcome.defined_bind]
        apply And.intro (readDirectoryData_defined (safe some))
        intro data read
        apply parseDirectoryEntries_defined
        rw [readDirectoryData_length read]
        exact inode.members.load_lt _ 4

theorem SafeDirectory.of_defined (isDir : sqfsInodeIsDir inode.type = true)
    (defined : (sqfsDirRead ctx inode).Defined) : SafeDirectory ctx inode := by
  intro some pos gathered listed
  rw [sqfsDirRead, if_neg (by simp [isDir]), if_neg some, Outcome.defined_bind] at defined
  exact not_metaOverfills_of_defined defined.1 listed

end Listings

end SquashfsFuse
