import SquashfsFuse.Metadata.Slices

/-! Reads by reference return slices of the stream. -/

namespace SquashfsFuse

/-! ## What a read returns -/

/-- A read returns the slice of the stream at its reference, whenever there is one. -/
structure ReadsSlice (image : Image) (comp : Compressor) (tableStart ref size : Nat) :
    Prop where
  defined : (sqfsMetaRead image ref size comp tableStart).Defined
  delivers : ∀ buffer, sqfsMetaRead image ref size comp tableStart = .ok buffer →
    ∃ bytes, bytes.length = size ∧
      MetaSlice image comp.apart (metaBlockPos tableStart ref) (sqfsMetaRefOffset ref) bytes ∧
      buffer = bytes.map some
  succeeds : ∀ bytes, bytes.length = size →
    MetaSlice image comp.apart (metaBlockPos tableStart ref) (sqfsMetaRefOffset ref) bytes →
    ∃ buffer, sqfsMetaRead image ref size comp tableStart = .ok buffer

/-- Two reads in a row. -/
def readTwice (image : Image) (comp : Compressor) (tableStart ref first next second : Nat) :
    Sqfs (List Cell) := do
  let front ← sqfsMetaRead image ref first comp tableStart
  let back ← sqfsMetaRead image next second comp tableStart
  pure (front ++ back)

/-- A read returns the slice at its reference, and returns what two reads in a row return, of
which the second one starts where the first one ends in the stream. -/
structure ReadsStream (image : Image) (comp : Compressor) (tableStart ref size : Nat) :
    Prop extends ReadsSlice image comp tableStart ref size where
  splits : ∀ first second next, first + second = size →
    MetaAdvance image comp.apart (metaBlockPos tableStart ref) (sqfsMetaRefOffset ref) first
      (metaBlockPos tableStart next) (sqfsMetaRefOffset next) →
    ReadsSlice image comp tableStart next second →
    (sqfsMetaRead image ref size comp tableStart).toOption =
      (readTwice image comp tableStart ref first next second).toOption

/-- The blocks have the same bytes for a read where `sqfs_meta_read_block` unpacks them as in
the stream, or end before in both, and the first one does not end in front of the offset. Where
no bytes are asked for, no block is read, so that there also has to be a first block. -/
structure SliceInPlace (image : Image) (comp : Compressor) (pos offset size : Nat) : Prop where
  exists_ : size = 0 → ∃ first, sqfsMetaReadBlock image comp.apart pos = .ok first ∧
    offset ≤ first.length
  inside : 0 < size → ∀ first, sqfsMetaReadBlock image comp pos = .ok first →
    offset ≤ first.length
  same : 0 < size → ∀ bytes, bytes.length = size →
    (MetaSlice image comp pos offset bytes ↔ MetaSlice image comp.apart pos offset bytes)

inductive ComesToBlock (image : Image) (comp : Compressor) : (pos offset size other : Nat) → Prop
  | here {pos offset size : Nat} : 0 < size → ComesToBlock image comp pos offset size pos
  | later {pos offset size other : Nat} {header : MetaHeader} {content : List UInt8} :
      readMetaHeader image pos = .ok header →
      sqfsMetaReadBlock image comp pos = .ok content →
      offset ≤ content.length →
      ComesToBlock image comp (pos + 2 + header.size) 0 (size - (content.length - offset)) other →
      ComesToBlock image comp pos offset size other

/-- `sqfs_meta_read_block` unpacks every block of the bytes as it is. -/
def UnpacksAlike (image : Image) (comp : Compressor) (pos offset size : Nat) : Prop :=
  ∀ other, ComesToBlock image comp.apart pos offset size other →
    sqfsMetaReadBlock image comp other = sqfsMetaReadBlock image comp.apart other

variable {image : Image} {comp : Compressor} {pos offset size : Nat}

/-! ## Offsets behind the first block -/

/-- The wrapped difference exceeds the buffer, so a copy that stays in the buffer has the
length that was asked for. -/
theorem metaReadToCopy_of_behind {blockSize : Nat} (small : offset < 2 ^ 16)
    (outside : blockSize < offset)
    (inBuffer : offset + metaReadToCopy blockSize offset size ≤ sqfsMetaBlockSize) :
    metaReadToCopy blockSize offset size = size := by
  have available : 2 ^ 63 ≤ sub64 blockSize offset := by
    rw [sub64_of_lt outside (by omega)]
    omega
  rw [sqfsMetaBlockSize, metaReadToCopy] at inBuffer
  rw [metaReadToCopy]
  split
  · rfl
  · next large =>
      rw [if_neg large] at inBuffer
      omega

/-- Behind its first block, a read is not refused: it returns cells that were not written,
or leaves the buffer. -/
theorem metaReadFrom_behind {content : List UInt8}
    (read : sqfsMetaReadBlock image comp pos = .ok content) (small : offset < 2 ^ 16)
    (outside : content.length < offset) (more : 0 < size) :
    metaReadFrom image comp pos offset size =
      if offset + metaReadToCopy content.length offset size ≤ sqfsMetaBlockSize then
        .ok (((metaBlockBuf content).drop offset).take size)
      else .fault := by
  by_cases inBuffer : offset + metaReadToCopy content.length offset size ≤ sqfsMetaBlockSize
  · have toCopy := metaReadToCopy_of_behind small outside inBuffer
    rw [if_pos inBuffer]
    rw [toCopy, ← metaBlockBuf_length (sqfsMetaReadBlock_length read)] at inBuffer
    have run : sqfsMetaReadBody image comp ⟨pos, offset, [], size⟩ =
        .ok ⟨pos, offset, ((metaBlockBuf content).drop offset).take size, 0⟩ := by
      rw [sqfsMetaReadBody]
      dsimp only
      rw [read, Outcome.ok_bind, toCopy, memcpyFrom, if_pos inBuffer, Outcome.ofOption_some,
        Outcome.ok_bind, Nat.sub_self, if_pos rfl, List.nil_append]
      rfl
    rw [metaReadFrom, sqfsMetaReadLoop_of_again (sqfsMetaReadPass_of_ok more run)]
    exact sqfsMetaReadLoop_of_leave rfl
  · rw [if_neg inBuffer]
    rw [← metaBlockBuf_length (sqfsMetaReadBlock_length read)] at inBuffer
    have run : sqfsMetaReadBody image comp ⟨pos, offset, [], size⟩ = .fault := by
      rw [sqfsMetaReadBody]
      dsimp only
      rw [read, Outcome.ok_bind, memcpyFrom, if_neg inBuffer]
      rfl
    apply sqfsMetaReadLoop_of_leave
    rw [sqfsMetaReadPass, if_pos more, run]

private theorem metaReadFrom_behind_ne {content : List UInt8}
    (read : sqfsMetaReadBlock image comp pos = .ok content) (small : offset < 2 ^ 16)
    (outside : content.length < offset) (more : 0 < size)
    (defined : (metaReadFrom image comp pos offset size).Defined) :
    ∃ buffer, metaReadFrom image comp pos offset size = .ok buffer ∧
      ∀ bytes : List UInt8, bytes.length = size → buffer ≠ bytes.map some := by
  rw [metaReadFrom_behind read small outside more] at defined ⊢
  split at defined
  · next inBuffer =>
      refine ⟨_, if_pos inBuffer, fun bytes length same => ?_⟩
      have room := metaBlockBuf_length (sqfsMetaReadBlock_length read)
      have toCopy := metaReadToCopy_of_behind small outside inBuffer
      have cell : (((metaBlockBuf content).drop offset).take size)[0]? = some none := by
        rw [List.getElem?_take_of_lt more, List.getElem?_drop, Nat.add_zero, metaBlockBuf,
          List.getElem?_append_right (by rw [List.length_map]; omega), List.length_map,
          List.getElem?_replicate, if_pos (by omega)]
      rw [same, List.getElem?_map] at cell
      rcases Option.map_eq_some_iff.mp cell with ⟨byte, -, equal⟩
      cases equal
  · contradiction

/-! ## Reads by reference -/

section Reads

variable {tableStart ref : Nat}

private theorem sqfsMetaRefOffset_lt (ref : Nat) : sqfsMetaRefOffset ref < 2 ^ 16 :=
  Nat.and_lt_two_pow ref (by decide)

theorem MetaSlice.first {bytes : List UInt8} (slice : MetaSlice image comp pos offset bytes) :
    ∃ first, sqfsMetaReadBlock image comp pos = .ok first ∧ offset ≤ first.length := by
  rcases slice with ⟨first, rest, blocks, inside, -⟩
  cases blocks with
  | cons found read behind => exact ⟨first, read, inside⟩

theorem MetaSlice.nil {first : List UInt8}
    (read : sqfsMetaReadBlock image comp pos = .ok first) (inside : offset ≤ first.length) :
    MetaSlice image comp pos offset [] := by
  rcases header_of_sqfsMetaReadBlock read with ⟨header, found⟩
  have slice := @MetaSlice.of_within image comp pos offset 0 first header found read inside
  rwa [List.take_zero] at slice

theorem MetaSlice.unique {bytes other : List UInt8}
    (slice : MetaSlice image comp pos offset bytes)
    (otherSlice : MetaSlice image comp pos offset other) (length : bytes.length = other.length) :
    bytes = other := by
  have read := metaReadFrom_of_slice slice
  rw [length, metaReadFrom_of_slice otherSlice] at read
  exact (List.map_injective_iff.mpr (Option.some_injective UInt8) (Outcome.ok.inj read)).symm

theorem ReadsSlice.inside (slices : ReadsSlice image comp tableStart ref size)
    (more : 0 < size) {first : List UInt8}
    (read : sqfsMetaReadBlock image comp (metaBlockPos tableStart ref) = .ok first) :
    sqfsMetaRefOffset ref ≤ first.length := by
  have defined := slices.defined
  rw [sqfsMetaRead_eq] at defined
  by_contra outside
  rcases metaReadFrom_behind_ne read (sqfsMetaRefOffset_lt ref) (Nat.lt_of_not_le outside) more
    defined with ⟨buffer, returned, noBytes⟩
  rw [← sqfsMetaRead_eq] at returned
  rcases slices.delivers buffer returned with ⟨bytes, length, -, equal⟩
  exact noBytes bytes length equal

theorem sqfsMetaRead_cases (more : 0 < size)
    (inside : ∀ first, sqfsMetaReadBlock image comp (metaBlockPos tableStart ref) = .ok first →
      sqfsMetaRefOffset ref ≤ first.length) :
    (∃ bytes, bytes.length = size ∧
      MetaSlice image comp (metaBlockPos tableStart ref) (sqfsMetaRefOffset ref) bytes ∧
      sqfsMetaRead image ref size comp tableStart = .ok (bytes.map some)) ∨
    ∃ code, sqfsMetaRead image ref size comp tableStart = .err code := by
  rw [sqfsMetaRead_eq]
  exact metaReadFrom_cases more inside

theorem sqfsMetaRead_of_slice {bytes : List UInt8}
    (slice : MetaSlice image comp (metaBlockPos tableStart ref) (sqfsMetaRefOffset ref) bytes) :
    sqfsMetaRead image ref bytes.length comp tableStart = .ok (bytes.map some) := by
  rw [sqfsMetaRead_eq]
  exact metaReadFrom_of_slice slice

private theorem readsSlice_iff : ReadsSlice image comp tableStart ref size ↔
    SliceInPlace image comp (metaBlockPos tableStart ref) (sqfsMetaRefOffset ref) size := by
  constructor
  · intro slices
    refine ⟨?_, fun more first read => slices.inside more read, fun more bytes length => ?_⟩
    · rintro rfl
      rcases slices.delivers [] rfl with ⟨bytes, -, slice, -⟩
      exact slice.first
    · constructor
      · intro slice
        have returned := sqfsMetaRead_of_slice slice
        rw [length] at returned
        rcases slices.delivers _ returned with ⟨other, -, otherSlice, equal⟩
        rw [List.map_injective_iff.mpr (Option.some_injective UInt8) equal]
        exact otherSlice
      · intro slice
        rcases slices.succeeds bytes length slice with ⟨buffer, returned⟩
        rcases slices.delivers buffer returned with ⟨same, sameLength, otherSlice, equal⟩
        obtain rfl : same = bytes := otherSlice.unique slice (sameLength.trans length.symm)
        rcases sqfsMetaRead_cases more fun first read => slices.inside more read with
          ⟨unpacked, -, inPlace, again⟩ | ⟨code, failed⟩
        · rw [returned, equal] at again
          rw [List.map_injective_iff.mpr (Option.some_injective UInt8) (Outcome.ok.inj again)]
          exact inPlace
        · rw [returned] at failed
          cases failed
  · intro condition
    by_cases more : 0 < size
    · rcases sqfsMetaRead_cases more (condition.inside more) with
        ⟨bytes, length, slice, returned⟩ | ⟨code, failed⟩
      · have inStream := (condition.same more bytes length).mp slice
        refine ⟨?_, fun buffer again => ⟨bytes, length, inStream, ?_⟩, fun _ _ _ => ⟨_, returned⟩⟩
        · rw [returned]
          exact Outcome.defined_ok _
        · rw [returned] at again
          exact (Outcome.ok.inj again).symm
      · refine ⟨?_, fun buffer again => ?_, fun bytes length slice => ?_⟩
        · rw [failed]
          exact Outcome.defined_err _
        · rw [failed] at again
          cases again
        · have returned := sqfsMetaRead_of_slice ((condition.same more bytes length).mpr slice)
          rw [length, failed] at returned
          cases returned
    · obtain rfl : size = 0 := by omega
      rcases condition.exists_ rfl with ⟨first, read, inside⟩
      refine ⟨Outcome.defined_ok _, fun buffer returned => ?_, fun _ _ _ => ⟨[], rfl⟩⟩
      cases returned
      exact ⟨[], rfl, .nil read inside, rfl⟩

end Reads

/-! ## Reads of a stream in parts -/

section Parts

variable {tableStart ref : Nat}

theorem MetaSlice.take {bytes : List UInt8} (slice : MetaSlice image comp pos offset bytes)
    (count : Nat) : MetaSlice image comp pos offset (bytes.take count) := by
  rcases slice with ⟨first, rest, blocks, inside, covered⟩
  exact ⟨first, rest, blocks, inside, (List.take_prefix count bytes).trans covered⟩

theorem MetaAdvance.inside {first nextPos nextOffset : Nat}
    (advance : MetaAdvance image comp pos offset first nextPos nextOffset)
    (inside : ∀ content, sqfsMetaReadBlock image comp pos = .ok content →
      offset ≤ content.length) :
    ∀ content, sqfsMetaReadBlock image comp nextPos = .ok content →
      nextOffset ≤ content.length := by
  induction advance with
  | stay pos offset => exact inside
  | within read fits =>
      intro content again
      rw [read] at again
      cases again
      exact fits
  | beyond _ _ _ _ induction => exact induction fun _ _ => Nat.zero_le _

theorem MetaSlice.of_advance {first nextPos nextOffset : Nat} {bytes : List UInt8}
    (advance : MetaAdvance image comp pos offset first nextPos nextOffset)
    (slice : MetaSlice image comp nextPos nextOffset bytes) :
    ∃ front, front.length = first ∧ MetaSlice image comp pos offset (front ++ bytes) := by
  induction advance with
  | stay pos offset => exact ⟨[], rfl, slice⟩
  | @within pos offset count content read fits =>
      rcases slice with ⟨block, rest, blocks, -, covered⟩
      refine ⟨(content.drop offset).take count, ?_, block, rest, blocks, ?_, ?_⟩
      · rw [List.length_take, List.length_drop]
        omega
      · cases blocks with
        | cons _ again _ =>
            rw [read] at again
            cases again
            omega
      · cases blocks with
        | cons _ again _ =>
            rw [read] at again
            cases again
            have parts : (content :: rest).flatten.drop offset =
                (content.drop offset).take count ++
                  (content :: rest).flatten.drop (offset + count) := by
              have front := List.take_append_drop count ((content :: rest).flatten.drop offset)
              rw [List.drop_drop] at front
              rw [← front, List.flatten_cons, List.drop_append_of_le_length (by omega),
                List.take_append_of_le_length (by rw [List.length_drop]; omega)]
            rw [parts]
            exact (List.prefix_append_right_inj _).mpr covered
  | @beyond pos offset count nextPos nextOffset header content found read inside _ induction =>
      rcases induction slice with ⟨front, length, behind⟩
      refine ⟨content.drop offset ++ front, ?_, ?_⟩
      · rw [List.length_append, List.length_drop, length]
      · rw [List.append_assoc]
        exact .of_beyond found read inside behind

private theorem ReadsSlice.rest_of_slice {first second next : Nat} {bytes : List UInt8}
    (advance : MetaAdvance image comp.apart (metaBlockPos tableStart ref)
      (sqfsMetaRefOffset ref) first (metaBlockPos tableStart next) (sqfsMetaRefOffset next))
    (nextSlices : ReadsSlice image comp tableStart next second) (more : 0 < second)
    (length : bytes.length = first + second)
    (stream : MetaSlice image comp.apart (metaBlockPos tableStart ref) (sqfsMetaRefOffset ref)
      bytes) :
    sqfsMetaRead image next second comp tableStart = .ok ((bytes.drop first).map some) := by
  have inside : ∀ content, sqfsMetaReadBlock image comp.apart (metaBlockPos tableStart ref) =
      .ok content → sqfsMetaRefOffset ref ≤ content.length := by
    intro content read
    rcases stream.first with ⟨first, again, inside⟩
    rw [read] at again
    cases again
    exact inside
  rcases metaReadFrom_cases more (advance.inside inside) with
    ⟨rest, restLength, behind, -⟩ | ⟨code, failed⟩
  · rcases MetaSlice.of_advance advance behind with ⟨start, startLength, joined⟩
    obtain rfl : bytes = start ++ rest := stream.unique joined (by
      rw [List.length_append]
      omega)
    rcases nextSlices.succeeds rest restLength behind with ⟨buffer, back⟩
    rcases nextSlices.delivers buffer back with ⟨again, againLength, slice, rfl⟩
    obtain rfl : again = rest := slice.unique behind (againLength.trans restLength.symm)
    rw [back, List.drop_left' startLength]
  · have front := metaReadFrom_of_slice (stream.take first)
    have frontLength : (bytes.take first).length = first := by
      rw [List.length_take]
      omega
    have read := metaReadFrom_of_slice stream
    rw [frontLength] at front
    rw [length, metaReadFrom_advance advance, front, Outcome.ok_bind, failed] at read
    cases read

private theorem ReadsSlice.readTwice_of_err (slices : ReadsSlice image comp tableStart ref size)
    {first second next : Nat} (whole : first + second = size)
    (advance : MetaAdvance image comp.apart (metaBlockPos tableStart ref)
      (sqfsMetaRefOffset ref) first (metaBlockPos tableStart next) (sqfsMetaRefOffset next))
    (nextSlices : ReadsSlice image comp tableStart next second) {code : SqfsError}
    (failed : sqfsMetaRead image ref size comp tableStart = .err code) :
    (readTwice image comp tableStart ref first next second).toOption = none := by
  rw [readTwice]
  cases sqfsMetaRead image ref first comp tableStart with
  | fault => rfl
  | err code => rfl
  | ok front =>
      rw [Outcome.ok_bind]
      cases back : sqfsMetaRead image next second comp tableStart with
      | fault => rfl
      | err code => rfl
      | ok buffer =>
          rcases nextSlices.delivers buffer back with ⟨rest, restLength, behind, -⟩
          rcases MetaSlice.of_advance advance behind with ⟨start, startLength, joined⟩
          rcases slices.succeeds (start ++ rest)
            (by rw [List.length_append]; omega) joined with ⟨returned, read⟩
          rw [failed] at read
          cases read

private theorem ReadsSlice.splits (slices : ReadsSlice image comp tableStart ref size)
    {first second next : Nat} (whole : first + second = size)
    (advance : MetaAdvance image comp.apart (metaBlockPos tableStart ref)
      (sqfsMetaRefOffset ref) first (metaBlockPos tableStart next) (sqfsMetaRefOffset next))
    (nextSlices : ReadsSlice image comp tableStart next second) :
    (sqfsMetaRead image ref size comp tableStart).toOption =
      (readTwice image comp tableStart ref first next second).toOption := by
  by_cases more : 0 < size
  · rcases sqfsMetaRead_cases more fun first read => slices.inside more read with
      ⟨bytes, length, inPlace, returned⟩ | ⟨code, failed⟩
    · rcases slices.delivers _ returned with ⟨same, -, stream, equal⟩
      obtain rfl : bytes = same := List.map_injective_iff.mpr (Option.some_injective UInt8) equal
      have front := sqfsMetaRead_of_slice (inPlace.take first)
      have frontLength : (bytes.take first).length = first := by
        rw [List.length_take]
        omega
      rw [frontLength] at front
      rw [returned, readTwice, front, Outcome.ok_bind]
      by_cases last : second = 0
      · rw [last, List.take_of_length_le (by omega)]
        exact congrArg some (List.append_nil _).symm
      · rw [nextSlices.rest_of_slice advance (Nat.pos_of_ne_zero last) (by omega) stream,
          Outcome.ok_bind, ← List.map_append, List.take_append_drop]
        rfl
    · rw [failed, Outcome.toOption_err, slices.readTwice_of_err whole advance nextSlices failed]
  · obtain ⟨rfl, rfl⟩ : first = 0 ∧ second = 0 := by omega
    obtain rfl : size = 0 := by omega
    rfl

end Parts

/-! ## Blocks that unpack alike -/

section Alike

variable {tableStart ref : Nat}

private theorem metaReadFrom_eq_apart (small : offset < 2 ^ 16)
    (alike : UnpacksAlike image comp pos offset size) :
    metaReadFrom image comp pos offset size = metaReadFrom image comp.apart pos offset size := by
  induction distance : image.bytes.length - pos using Nat.strongRecOn
    generalizing pos offset size with
  | _ left induction =>
      by_cases more : 0 < size
      · have same := alike pos (.here more)
        rcases (sqfsMetaReadBlock_defined image comp.apart pos).cases with
          ⟨content, read⟩ | ⟨code, failed⟩
        · rw [read] at same
          by_cases inside : offset ≤ content.length
          · rcases header_of_sqfsMetaReadBlock read with ⟨header, found⟩
            by_cases fits : offset + size ≤ content.length
            · rw [metaReadFrom_within same fits, metaReadFrom_within read fits]
            · rcases readBlockFromDisk_header found with ⟨-, -, -, -, bound⟩
              have rest := induction (image.bytes.length - (pos + 2 + header.size)) (by omega)
                (by decide : 0 < 2 ^ 16)
                (fun other comes => alike other (.later found read inside comes)) rfl
              rw [metaReadFrom_beyond same found inside (by omega),
                metaReadFrom_beyond read found inside (by omega), rest]
          · rw [metaReadFrom_behind same small (by omega) more,
              metaReadFrom_behind read small (by omega) more]
        · rw [failed] at same
          rw [metaReadFrom_of_err more same, metaReadFrom_of_err more failed]
      · obtain rfl : size = 0 := by omega
        rw [metaReadFrom_zero, metaReadFrom_zero]

theorem sqfsMetaRead_eq_apart
    (alike : UnpacksAlike image comp (metaBlockPos tableStart ref) (sqfsMetaRefOffset ref) size) :
    sqfsMetaRead image ref size comp tableStart =
      sqfsMetaRead image ref size comp.apart tableStart := by
  rw [sqfsMetaRead_eq, sqfsMetaRead_eq, metaReadFrom_eq_apart (sqfsMetaRefOffset_lt ref) alike]

theorem ComesToBlock.of_le {fewer other : Nat} (comes : ComesToBlock image comp pos offset fewer other)
    (le : fewer ≤ size) : ComesToBlock image comp pos offset size other := by
  induction comes generalizing size with
  | here more => exact .here (by omega)
  | later found read inside _ induction => exact .later found read inside (induction (by omega))

theorem ComesToBlock.of_advance {first second nextPos nextOffset other : Nat}
    (advance : MetaAdvance image comp pos offset first nextPos nextOffset)
    (comes : ComesToBlock image comp nextPos nextOffset second other) :
    ComesToBlock image comp pos offset (first + second) other := by
  induction advance with
  | stay pos offset => exact comes.of_le (by omega)
  | @within pos offset count content read fits =>
      cases comes with
      | here more => exact .here (by omega)
      | later found again inside comes =>
          rw [read] at again
          cases again
          exact .later found read (by omega) (comes.of_le (by omega))
  | beyond found read inside _ induction =>
      exact .later found read inside ((induction comes).of_le (by omega))

/-- Where the blocks unpack alike, reads return slices exactly when the first block does not
end in front of the offset. -/
theorem readsSlice_iff_of_alike
    (alike : UnpacksAlike image comp (metaBlockPos tableStart ref) (sqfsMetaRefOffset ref) size) :
    ReadsSlice image comp tableStart ref size ↔
      (size = 0 → ∃ first,
        sqfsMetaReadBlock image comp.apart (metaBlockPos tableStart ref) = .ok first) ∧
      ∀ first, sqfsMetaReadBlock image comp.apart (metaBlockPos tableStart ref) = .ok first →
        sqfsMetaRefOffset ref ≤ first.length := by
  have apart : ReadsSlice image comp tableStart ref size ↔
      ReadsSlice image comp.apart tableStart ref size := by
    have read := sqfsMetaRead_eq_apart alike
    constructor
    · rintro ⟨defined, delivers, succeeds⟩
      rw [read] at defined delivers succeeds
      exact ⟨defined, delivers, succeeds⟩
    · rintro ⟨defined, delivers, succeeds⟩
      rw [← read] at defined delivers succeeds
      exact ⟨defined, delivers, succeeds⟩
  rw [apart, readsSlice_iff]
  constructor
  · intro condition
    constructor
    · intro empty
      rcases condition.exists_ empty with ⟨first, read, -⟩
      exact ⟨first, read⟩
    · intro first read
      by_cases more : 0 < size
      · exact condition.inside more first read
      · rcases condition.exists_ (by omega) with ⟨same, again, inside⟩
        rw [Compressor.apart_apart, read] at again
        cases again
        exact inside
  · rintro ⟨firstReads, inside⟩
    refine ⟨fun empty => ?_, fun _ => inside, fun _ _ _ => Iff.rfl⟩
    rcases firstReads empty with ⟨first, read⟩
    exact ⟨first, read, inside first read⟩

/-- There, a read is two reads in a row, errors included. -/
theorem sqfsMetaRead_eq_twice
    (alike : UnpacksAlike image comp (metaBlockPos tableStart ref) (sqfsMetaRefOffset ref) size)
    {first second next : Nat} (whole : first + second = size)
    (advance : MetaAdvance image comp.apart (metaBlockPos tableStart ref)
      (sqfsMetaRefOffset ref) first (metaBlockPos tableStart next) (sqfsMetaRefOffset next)) :
    sqfsMetaRead image ref size comp tableStart =
      readTwice image comp tableStart ref first next second := by
  have front := @sqfsMetaRead_eq_apart image comp first tableStart ref fun other comes =>
    alike other (comes.of_le (by omega))
  have back := @sqfsMetaRead_eq_apart image comp second tableStart next fun other comes =>
    alike other (whole ▸ comes.of_advance advance)
  rw [sqfsMetaRead_eq_apart alike, readTwice, front, back, ← whole]
  simp only [sqfsMetaRead_eq]
  exact metaReadFrom_advance advance

end Alike

/-- A read returns the slice of the stream at its reference exactly when the blocks have the
same bytes where they are unpacked in place. Where they unpack alike, it does so exactly when the
first block does not end in front of the offset; and where no bytes are asked for, no block is
read, so that there also has to be a first block. -/
theorem sqfsMetaRead_slice_iff (image : Image) (comp : Compressor)
    (tableStart ref size : Nat) :
    (ReadsStream image comp tableStart ref size ↔
      SliceInPlace image comp (metaBlockPos tableStart ref) (sqfsMetaRefOffset ref) size) ∧
    (UnpacksAlike image comp (metaBlockPos tableStart ref) (sqfsMetaRefOffset ref) size →
      (ReadsStream image comp tableStart ref size ↔
        (size = 0 → ∃ first,
          sqfsMetaReadBlock image comp.apart (metaBlockPos tableStart ref) = .ok first) ∧
        ∀ first, sqfsMetaReadBlock image comp.apart (metaBlockPos tableStart ref) = .ok first →
          sqfsMetaRefOffset ref ≤ first.length) ∧
      ∀ first second next, first + second = size →
        MetaAdvance image comp.apart (metaBlockPos tableStart ref) (sqfsMetaRefOffset ref) first
          (metaBlockPos tableStart next) (sqfsMetaRefOffset next) →
        sqfsMetaRead image ref size comp tableStart =
          readTwice image comp tableStart ref first next second) := by
  have whole : ReadsStream image comp tableStart ref size ↔
      ReadsSlice image comp tableStart ref size :=
    ⟨fun reads => reads.toReadsSlice,
      fun slices => ⟨slices, fun _ _ _ whole => slices.splits whole⟩⟩
  rw [whole]
  refine ⟨readsSlice_iff, fun alike => ⟨readsSlice_iff_of_alike alike, ?_⟩⟩
  intro first second next total advance
  exact sqfsMetaRead_eq_twice alike total advance

example : sqfsMetaRead ⟨[0x01, 0x80, 0x61, 0x01, 0x80, 0x62], by decide⟩ 0 2 storedDeflate 0 =
    .ok [some 0x61, some 0x62] := by decide +kernel

/-! ## An offset behind a short block -/

def shortBlockBytes : List UInt8 := [0x01, 0x80, 0x61]

private theorem shortBlockBytes_inOffT : shortBlockBytes.length < 2 ^ 63 := by decide

def shortBlockImage : Image where
  bytes := shortBlockBytes
  sizeInOffT := shortBlockBytes_inOffT

/-- The byte at offset 2 of a block of one byte is not refused, although there is none. -/
theorem sqfsMetaRead_returns_strangers :
    ¬ ∀ (image : Image) (comp : Compressor) (tableStart ref size : Nat),
      ReadsStream image comp tableStart ref size := by
  intro claim
  have returned : sqfsMetaRead shortBlockImage 2 1 storedDeflate 0 = .ok [none] := by
    decide +kernel
  rcases (claim shortBlockImage storedDeflate 0 2 1).delivers _ returned with
    ⟨bytes, -, -, equal⟩
  cases bytes with
  | nil => cases equal
  | cons byte rest => cases equal

end SquashfsFuse
