import SquashfsFuse.Core.MetaRead

/-! Slices of the stream of metadata blocks. -/

namespace SquashfsFuse

/-! ## The stream -/

/-- The blocks from a position on, one behind the other, as they are unpacked by a
decompressor. The stream of an image is what `comp.apart` unpacks. -/
inductive UnpacksFrom (image : Image) (comp : Compressor) : Nat → List (List UInt8) → Prop
  | nil (pos : Nat) : UnpacksFrom image comp pos []
  | cons {pos : Nat} {header : MetaHeader} {content : List UInt8}
      {contents : List (List UInt8)} :
      readMetaHeader image pos = .ok header →
      sqfsMetaReadBlock image comp pos = .ok content →
      UnpacksFrom image comp (pos + 2 + header.size) contents →
      UnpacksFrom image comp pos (content :: contents)

/-- The bytes behind an offset within the block at a position. They may go on in its
successors. The end of the block is within it, too: a read of the whole block leads there. -/
def MetaSlice (image : Image) (comp : Compressor) (pos offset : Nat) (bytes : List UInt8) :
    Prop :=
  ∃ first rest, UnpacksFrom image comp pos (first :: rest) ∧ offset ≤ first.length ∧
    bytes <+: (first :: rest).flatten.drop offset

/-- From one place of the stream to another one that lies a number of bytes behind it. -/
inductive MetaAdvance (image : Image) (comp : Compressor) :
    (pos offset count nextPos nextOffset : Nat) → Prop
  | stay (pos offset : Nat) : MetaAdvance image comp pos offset 0 pos offset
  | within {pos offset count : Nat} {content : List UInt8} :
      sqfsMetaReadBlock image comp pos = .ok content →
      offset + count ≤ content.length →
      MetaAdvance image comp pos offset count pos (offset + count)
  | beyond {pos offset count nextPos nextOffset : Nat} {header : MetaHeader}
      {content : List UInt8} :
      readMetaHeader image pos = .ok header →
      sqfsMetaReadBlock image comp pos = .ok content →
      offset ≤ content.length →
      MetaAdvance image comp (pos + 2 + header.size) 0 count nextPos nextOffset →
      MetaAdvance image comp pos offset (content.length - offset + count) nextPos nextOffset

/-- The position of the block that a reference names. -/
def metaBlockPos (tableStart ref : Nat) : Nat := u64 (sqfsMetaRefPos ref + tableStart)

variable {image : Image} {comp : Compressor} {pos offset size : Nat}

/-! ## One block -/

theorem readBlockFromDisk_header {header : MetaHeader}
    (read : readMetaHeader image pos = .ok header) :
    ∃ word, readBlockFromDisk image 2 pos = .ok word ∧ .ofWord (leValue word) = header ∧
      u64 (pos + (2 + header.size)) = pos + 2 + header.size ∧
      pos + 2 ≤ image.bytes.length := by
  rcases readMetaHeader_eq_ok.mp read with ⟨word, found, rfl⟩
  have bound := Image.diskBytes_bound found (by decide)
  have inOffT := image.sizeInOffT
  have mask : (0x7FFF : Nat) < 2 ^ 15 := by decide
  have size : (MetaHeader.ofWord (leValue word)).size < 2 ^ 15 := Nat.and_lt_two_pow _ mask
  refine ⟨word, readBlockFromDisk_eq_ok.mpr found, rfl, ?_, bound⟩
  rw [u64_of_lt (by omega), Nat.add_assoc]

theorem header_of_sqfsMetaReadBlock {content : List UInt8}
    (read : sqfsMetaReadBlock image comp pos = .ok content) :
    ∃ header, readMetaHeader image pos = .ok header := by
  unfold sqfsMetaReadBlock at read
  rcases Outcome.bind_eq_ok.mp read with ⟨header, found, -⟩
  exact ⟨header, Outcome.mapErr_eq_ok.mp found⟩

theorem metaBlockBuf_length {content : List UInt8} (fits : content.length ≤ sqfsMetaBlockSize) :
    (metaBlockBuf content).length = sqfsMetaBlockSize := by
  rw [metaBlockBuf, List.length_append, List.length_map, List.length_replicate]
  omega

private theorem memcpyFrom_metaBlockBuf {content : List UInt8} {count : Nat}
    (inside : offset + count ≤ content.length) :
    memcpyFrom (metaBlockBuf content) offset count =
      some (((content.drop offset).take count).map some) := by
  have enough : offset + count ≤ (metaBlockBuf content).length := by
    rw [metaBlockBuf, List.length_append, List.length_map]
    omega
  have front : offset ≤ (content.map some).length := by
    rw [List.length_map]
    omega
  have part : count ≤ ((content.map some).drop offset).length := by
    rw [List.length_drop, List.length_map]
    omega
  rw [memcpyFrom, if_pos enough, metaBlockBuf, List.drop_append_of_le_length front,
    List.take_append_of_le_length part, List.map_take, List.map_drop]

/-! ## The loop -/

theorem sqfsMetaReadPass_of_ok {state next : MetaReadState} (more : 0 < state.bytesRemaining)
    (run : sqfsMetaReadBody image comp state = .ok next) :
    sqfsMetaReadPass image comp state = .again next := by
  rw [sqfsMetaReadPass, if_pos more, run]

theorem sqfsMetaReadBody_moves {state next : MetaReadState}
    (run : sqfsMetaReadBody image comp state = .ok next) :
    next.bytesRemaining = 0 ∨
      state.blockPos + 2 ≤ next.blockPos ∧ state.blockPos + 2 ≤ image.bytes.length := by
  unfold sqfsMetaReadBody at run
  rcases Outcome.bind_eq_ok.mp run with ⟨content, read, run⟩
  rcases Outcome.bind_eq_ok.mp run with ⟨part, -, run⟩
  dsimp only at run
  split at run
  · next done =>
      cases run
      exact .inl done
  · rcases header_of_sqfsMetaReadBlock read with ⟨header, found⟩
    rcases readBlockFromDisk_header found with ⟨word, again, same, behind, bound⟩
    rw [again, Outcome.ok_bind, same, behind] at run
    cases run
    exact .inr ⟨Nat.le_add_right _ _, bound⟩

theorem sqfsMetaReadPass_again {state next : MetaReadState}
    (again : sqfsMetaReadPass image comp state = .again next) :
    0 < state.bytesRemaining ∧ sqfsMetaReadBody image comp state = .ok next := by
  unfold sqfsMetaReadPass at again
  split at again
  · next more =>
      split at again
      · next run =>
          cases again
          exact ⟨more, run⟩
      · cases again
      · cases again
  · cases again

theorem sqfsMetaReadPass_isSome (state : MetaReadState) :
    (Pass.iterate (sqfsMetaReadPass image comp) (image.bytes.length + 2) state).isSome := by
  apply Pass.iterate_isSome_of_variant fun state : MetaReadState =>
    if state.bytesRemaining = 0 then 0 else 1 + (image.bytes.length - state.blockPos)
  · intro state next again
    rcases sqfsMetaReadPass_again again with ⟨more, run⟩
    have moved := sqfsMetaReadBody_moves run
    rw [if_neg (Nat.ne_of_gt more)]
    split
    · omega
    · omega
  · split
    · omega
    · omega

theorem sqfsMetaReadLoop_of_leave {state : MetaReadState} {result : Sqfs (List Cell)}
    (left : sqfsMetaReadPass image comp state = .leave result) :
    sqfsMetaReadLoop image comp state = result := by
  rw [sqfsMetaReadLoop, Pass.iterate_leave _ left]

theorem sqfsMetaReadLoop_of_again {state next : MetaReadState}
    (again : sqfsMetaReadPass image comp state = .again next) :
    sqfsMetaReadLoop image comp state = sqfsMetaReadLoop image comp next := by
  rcases Option.isSome_iff_exists.mp (@sqfsMetaReadPass_isSome image comp next) with
    ⟨result, rest⟩
  rcases Option.isSome_iff_exists.mp (@sqfsMetaReadPass_isSome image comp state) with
    ⟨whole, run⟩
  have same : whole = result := Pass.Returns.unique ⟨_, run⟩ (.of_again again ⟨_, rest⟩)
  rw [sqfsMetaReadLoop, sqfsMetaReadLoop, run, rest, same]

private theorem sqfsMetaReadBody_copied (front : List Cell) (state : MetaReadState) :
    sqfsMetaReadBody image comp { state with copied := front ++ state.copied } =
      sqfsMetaReadBody image comp state >>= fun next =>
        pure { next with copied := front ++ next.copied } := by
  unfold sqfsMetaReadBody
  rw [bind_assoc]
  apply bind_congr
  intro content
  rw [bind_assoc]
  apply bind_congr
  intro part
  rw [List.append_assoc]
  dsimp only
  split
  · rfl
  · rw [bind_assoc]
    rfl

private theorem sqfsMetaReadPass_copied (front : List Cell) (state : MetaReadState) :
    sqfsMetaReadPass image comp { state with copied := front ++ state.copied } =
      (sqfsMetaReadPass image comp state).map
        (fun next => { next with copied := front ++ next.copied })
        (fun result => result >>= fun back => pure (front ++ back)) := by
  unfold sqfsMetaReadPass
  rw [sqfsMetaReadBody_copied]
  dsimp only
  split
  · cases sqfsMetaReadBody image comp state <;> rfl
  · rfl

private theorem sqfsMetaReadLoop_copied (front : List Cell) (pos offset size : Nat) :
    sqfsMetaReadLoop image comp ⟨pos, offset, front, size⟩ =
      sqfsMetaReadLoop image comp ⟨pos, offset, [], size⟩ >>= fun back =>
        pure (front ++ back) := by
  have runs := Pass.iterate_map (@sqfsMetaReadPass_copied image comp front)
    (image.bytes.length + 2) ⟨pos, offset, [], size⟩
  dsimp only at runs
  rw [List.append_nil] at runs
  rcases Option.isSome_iff_exists.mp (@sqfsMetaReadPass_isSome image comp
    ⟨pos, offset, [], size⟩) with ⟨result, run⟩
  rw [sqfsMetaReadLoop, sqfsMetaReadLoop, runs, run]
  rfl

/-! ## Reads from a place -/

def metaReadFrom (image : Image) (comp : Compressor) (pos offset size : Nat) :
    Sqfs (List Cell) :=
  sqfsMetaReadLoop image comp ⟨pos, offset, [], size⟩

theorem metaReadFrom_zero : metaReadFrom image comp pos offset 0 = .ok [] :=
  sqfsMetaReadLoop_of_leave rfl

theorem sqfsMetaRead_eq (image : Image) (ref size : Nat) (comp : Compressor)
    (tableStart : Nat) :
    sqfsMetaRead image ref size comp tableStart =
      metaReadFrom image comp (metaBlockPos tableStart ref) (sqfsMetaRefOffset ref) size := by
  rw [sqfsMetaRead]
  split
  · next empty =>
      rw [empty, metaReadFrom_zero]
      rfl
  · rfl

theorem metaReadFrom_of_err {code : SqfsError} (more : 0 < size)
    (failed : sqfsMetaReadBlock image comp pos = .err code) :
    metaReadFrom image comp pos offset size = .err code := by
  apply sqfsMetaReadLoop_of_leave
  rw [sqfsMetaReadPass, if_pos more, sqfsMetaReadBody, failed]
  rfl

section Block

variable {content : List UInt8} (read : sqfsMetaReadBlock image comp pos = .ok content)

include read

private theorem metaReadToCopy_of_inside (inside : offset ≤ content.length) :
    metaReadToCopy content.length offset size = min size (content.length - offset) := by
  have small := sqfsMetaReadBlock_length read
  have range : content.length < 2 ^ 64 := Nat.lt_of_le_of_lt small (by decide)
  rw [metaReadToCopy, sub64_of_le inside range]
  split
  · omega
  · omega

theorem metaReadFrom_within (inside : offset + size ≤ content.length) :
    metaReadFrom image comp pos offset size =
      .ok (((content.drop offset).take size).map some) := by
  by_cases more : 0 < size
  · have toCopy : metaReadToCopy content.length offset size = size := by
      rw [metaReadToCopy_of_inside read (by omega)]
      omega
    have run : sqfsMetaReadBody image comp ⟨pos, offset, [], size⟩ =
        .ok ⟨pos, offset, ((content.drop offset).take size).map some, 0⟩ := by
      rw [sqfsMetaReadBody]
      dsimp only
      rw [read, Outcome.ok_bind, toCopy, memcpyFrom_metaBlockBuf inside, Outcome.ofOption_some,
        Outcome.ok_bind, Nat.sub_self, if_pos rfl, List.nil_append]
      rfl
    rw [metaReadFrom, sqfsMetaReadLoop_of_again (sqfsMetaReadPass_of_ok more run)]
    exact sqfsMetaReadLoop_of_leave rfl
  · obtain rfl : size = 0 := by omega
    exact metaReadFrom_zero

theorem metaReadFrom_beyond {header : MetaHeader} (found : readMetaHeader image pos = .ok header)
    (inside : offset ≤ content.length) (beyond : content.length - offset ≤ size) :
    metaReadFrom image comp pos offset size =
      metaReadFrom image comp (pos + 2 + header.size) 0 (size - (content.length - offset)) >>=
        fun back => pure ((content.drop offset).map some ++ back) := by
  have length : (content.drop offset).length = content.length - offset := List.length_drop
  by_cases ends : size = content.length - offset
  · rw [metaReadFrom_within read (by omega), ends, Nat.sub_self, metaReadFrom_zero, ← length,
      List.take_length, Outcome.ok_bind, List.append_nil]
    rfl
  · have toCopy : metaReadToCopy content.length offset size = content.length - offset := by
      rw [metaReadToCopy_of_inside read inside]
      omega
    have part := @memcpyFrom_metaBlockBuf offset content (content.length - offset) (by omega)
    rw [← length, List.take_length, length] at part
    rcases readBlockFromDisk_header found with ⟨word, again, same, behind, -⟩
    have rest : ¬ size - (content.length - offset) = 0 := by omega
    have more : 0 < size := by omega
    have run : sqfsMetaReadBody image comp ⟨pos, offset, [], size⟩ =
        .ok ⟨pos + 2 + header.size, 0, (content.drop offset).map some,
          size - (content.length - offset)⟩ := by
      rw [sqfsMetaReadBody]
      dsimp only
      rw [read, Outcome.ok_bind, toCopy, part, Outcome.ofOption_some, Outcome.ok_bind,
        if_neg rest, again, Outcome.ok_bind, same, behind, List.nil_append]
      rfl
    rw [metaReadFrom, sqfsMetaReadLoop_of_again (sqfsMetaReadPass_of_ok more run),
      sqfsMetaReadLoop_copied]
    rfl

end Block

/-! ## Slices -/

section Slices

variable {content : List UInt8} {header : MetaHeader}
  (found : readMetaHeader image pos = .ok header)
  (read : sqfsMetaReadBlock image comp pos = .ok content)

include found read

theorem MetaSlice.of_within (inside : offset + size ≤ content.length) :
    MetaSlice image comp pos offset ((content.drop offset).take size) := by
  refine ⟨content, [], .cons found read (.nil _), by omega, ?_⟩
  rw [List.flatten_singleton]
  exact List.take_prefix size _

theorem MetaSlice.of_beyond (inside : offset ≤ content.length) {bytes : List UInt8}
    (behind : MetaSlice image comp (pos + 2 + header.size) 0 bytes) :
    MetaSlice image comp pos offset (content.drop offset ++ bytes) := by
  rcases behind with ⟨first, rest, blocks, -, covered⟩
  refine ⟨content, first :: rest, .cons found read blocks, inside, ?_⟩
  rw [List.flatten_cons, List.drop_append_of_le_length inside]
  exact (List.prefix_append_right_inj _).mpr covered

private theorem metaReadFrom_of_unpacked {rest : List (List UInt8)} {bytes : List UInt8}
    (behind : UnpacksFrom image comp (pos + 2 + header.size) rest)
    (inside : offset ≤ content.length)
    (covered : bytes <+: content.drop offset ++ rest.flatten) :
    metaReadFrom image comp pos offset bytes.length = .ok (bytes.map some) := by
  induction rest generalizing pos offset content header bytes with
  | nil =>
      rw [List.flatten_nil, List.append_nil] at covered
      have fits := covered.length_le
      rw [List.length_drop] at fits
      rw [metaReadFrom_within read (by omega), ← List.prefix_iff_eq_take.mp covered]
  | cons next rest induction =>
      have length : (content.drop offset).length = content.length - offset := List.length_drop
      by_cases fits : bytes.length ≤ (content.drop offset).length
      · have front := List.prefix_of_prefix_length_le covered (List.prefix_append _ _) fits
        rw [metaReadFrom_within read (by omega), ← List.prefix_iff_eq_take.mp front]
      · rcases List.prefix_of_prefix_length_le (List.prefix_append _ _) covered
          (Nat.le_of_not_le fits) with ⟨back, rfl⟩
        rw [List.length_append] at fits
        rw [List.prefix_append_right_inj] at covered
        cases behind with
        | cons foundNext readNext behind =>
            have reads := induction foundNext readNext behind (Nat.zero_le _) covered
            have remaining : (content.drop offset ++ back).length - (content.length - offset) =
                back.length := by
              rw [List.length_append]
              omega
            rw [metaReadFrom_beyond read found inside (by rw [List.length_append]; omega),
              remaining, reads, List.map_append]
            rfl

end Slices

theorem metaReadFrom_of_slice {bytes : List UInt8}
    (slice : MetaSlice image comp pos offset bytes) :
    metaReadFrom image comp pos offset bytes.length = .ok (bytes.map some) := by
  rcases slice with ⟨first, rest, blocks, inside, covered⟩
  rw [List.flatten_cons, List.drop_append_of_le_length inside] at covered
  cases blocks with
  | cons found read behind => exact metaReadFrom_of_unpacked found read behind inside covered

theorem metaReadFrom_cases (more : 0 < size)
    (inside : ∀ content, sqfsMetaReadBlock image comp pos = .ok content →
      offset ≤ content.length) :
    (∃ bytes, bytes.length = size ∧ MetaSlice image comp pos offset bytes ∧
      metaReadFrom image comp pos offset size = .ok (bytes.map some)) ∨
    ∃ code, metaReadFrom image comp pos offset size = .err code := by
  induction distance : image.bytes.length - pos using Nat.strongRecOn
    generalizing pos offset size with
  | _ left induction =>
      rcases (sqfsMetaReadBlock_defined image comp pos).cases with ⟨content, read⟩ | ⟨code, failed⟩
      · have inside := inside content read
        rcases header_of_sqfsMetaReadBlock read with ⟨header, found⟩
        by_cases fits : offset + size ≤ content.length
        · have length : ((content.drop offset).take size).length = size := by
            rw [List.length_take, List.length_drop]
            omega
          exact .inl ⟨_, length, .of_within found read fits, metaReadFrom_within read fits⟩
        · rcases readBlockFromDisk_header found with ⟨-, -, -, -, bound⟩
          have nearer : image.bytes.length - (pos + 2 + header.size) < left := by omega
          have remaining : 0 < size - (content.length - offset) := by omega
          have beyond := @metaReadFrom_beyond image comp pos offset size content read header found
            inside (by omega)
          rcases induction _ nearer remaining (fun _ _ => Nat.zero_le _) rfl with
            ⟨bytes, length, behind, reads⟩ | ⟨code, failed⟩
          · have whole : (content.drop offset ++ bytes).length = size := by
              rw [List.length_append, List.length_drop]
              omega
            refine .inl ⟨_, whole, .of_beyond found read inside behind, ?_⟩
            rw [beyond, reads, List.map_append]
            rfl
          · rw [beyond, failed]
            exact .inr ⟨code, rfl⟩
      · exact .inr ⟨code, metaReadFrom_of_err more failed⟩

/-! ## Two reads in a row -/

theorem metaReadFrom_advance {first second nextPos nextOffset : Nat}
    (advance : MetaAdvance image comp pos offset first nextPos nextOffset) :
    metaReadFrom image comp pos offset (first + second) =
      metaReadFrom image comp pos offset first >>= fun front =>
        metaReadFrom image comp nextPos nextOffset second >>= fun back =>
          pure (front ++ back) := by
  induction advance with
  | stay pos offset =>
      rw [metaReadFrom_zero, Nat.zero_add, Outcome.ok_bind]
      exact (bind_pure _).symm
  | @within pos offset count content read inside =>
      rw [metaReadFrom_within read inside, Outcome.ok_bind]
      by_cases fits : offset + count + second ≤ content.length
      · rw [metaReadFrom_within read (by omega), metaReadFrom_within read fits, Outcome.ok_bind,
          List.take_add, List.drop_drop, List.map_append]
        rfl
      · rcases header_of_sqfsMetaReadBlock read with ⟨header, found⟩
        have remaining : count + second - (content.length - offset) =
            second - (content.length - (offset + count)) := by omega
        have parts : (content.drop offset).map some =
            ((content.drop offset).take count).map some ++
              (content.drop (offset + count)).map some := by
          rw [← List.map_append, ← List.drop_drop, List.take_append_drop]
        rw [metaReadFrom_beyond read found (by omega) (by omega),
          metaReadFrom_beyond read found (by omega) (by omega), remaining, parts, bind_assoc]
        apply bind_congr
        intro back
        rw [List.append_assoc]
        rfl
  | @beyond pos offset count nextPos nextOffset header content found read inside _ induction =>
      have whole : content.length - offset + count + second - (content.length - offset) =
          count + second := by omega
      have part : content.length - offset + count - (content.length - offset) = count := by omega
      rw [metaReadFrom_beyond read found inside (by omega),
        metaReadFrom_beyond read found inside (by omega), whole, part, induction, bind_assoc,
        bind_assoc]
      apply bind_congr
      intro front
      rw [Outcome.pure_eq, Outcome.ok_bind, bind_assoc]
      apply bind_congr
      intro back
      rw [Outcome.pure_eq, Outcome.ok_bind, List.append_assoc]

end SquashfsFuse
