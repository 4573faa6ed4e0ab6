import SquashfsFuse.Data.InPlace
import SquashfsFuse.Data.ShortBlocks

/-! When a read of a well-formed file delivers its content. -/

namespace SquashfsFuse

/-- For every requested position the blocks unpack in place to the byte of the file. -/
def HasContent (ctx : SqfsCtx) (file : SqfsFileCtx) (offset size : Nat) : Prop :=
  ∀ pos, Requested file offset size pos → ∃ byte,
    InPlaceByte ctx file offset pos byte ∧ (fileContent ctx file)[pos]? = some byte

section Reads

variable {ctx : SqfsCtx} {inode : SqfsInode} {file : SqfsFileCtx} {offset size : Nat}

private theorem WellFormedFile.hasContent_iff (wellFormed : WellFormedFile ctx file) :
    HasContent ctx file offset size ↔ HasZeroFilled ctx file offset size := by
  rw [HasContent, HasZeroFilled, wellFormed.zeroFilled]

theorem WellFormedFile.hasContent (wellFormed : WellFormedFile ctx file)
    (unpacks : UnpacksInPlace ctx file) (init : sqfsFileCtxInit ctx.sb inode = .ok file) :
    HasContent ctx file offset size := by
  have bounds := sqfsFileCtxInit_bounds init
  have positive : 0 < file.blockSize :=
    (sqfsFileCtxInit_fields init).1 ▸ ctx.sb.blockSize_pos
  intro pos requested
  rcases wellFormed.byte_at positive requested.inFile with ⟨byte, image, content⟩
  refine ⟨byte, image.inPlace ?_ ?_, content⟩
  · exact unpacks.at_pos wellFormed.counted bounds.2 positive requested.inFile
  · intro _
    rw [← wellFormed.counted, u32_of_lt bounds.2]

theorem WellFormedFile.plainRead (wellFormed : WellFormedFile ctx file)
    (unpacks : UnpacksInPlace ctx file) (init : sqfsFileCtxInit ctx.sb inode = .ok file)
    (countFits : min size (file.fileSize - offset) < 2 ^ 31) (noWrap : offset + size < 2 ^ 64) :
    PlainRead ctx inode offset size (some {
      ret := (min size (file.fileSize - offset) : Nat)
      out := (((fileContent ctx file).drop offset).take
        (min size (file.fileSize - offset))).map some }) := by
  rcases readStart_cases ctx inode offset size with
    ⟨error, failed, -⟩ | ⟨other, same, nothing, returns⟩ | ⟨other, entered, -⟩
  · rw [init] at failed
    contradiction
  · rw [init] at same
    cases same
    have none : min size (file.fileSize - offset) = 0 := by
      have total := le_requestSize file offset size
      omega
    rw [PlainRead, returns Unit ()]
    simp only [none, List.take_zero, List.map_nil]
    rfl
  · have same := entered.init
    rw [init] at same
    cases same
    have has := wellFormed.hasContent_iff.mp (@WellFormedFile.hasContent ctx inode file offset size
      wellFormed unpacks init)
    rw [← wellFormed.zeroFilled]
    exact @HasZeroFilled.plainRead ctx file ⟨inode, offset, size⟩ has entered
      wellFormed.shortBlocks (show size < 2 ^ 64 by omega) countFits (.inl noWrap)

theorem WellFormedFile.writes_all (wellFormed : WellFormedFile ctx file)
    (unpacks : UnpacksInPlace ctx file) (entered : Enters ctx inode offset size file)
    (noWrap : offset + size < 2 ^ 64) {result : PlainResult} (nonneg : 0 ≤ result.ret)
    (returned : Pass.Returns (plainPass ctx file offset) ⟨0, requestSize file offset size, []⟩
      (some result)) : requestSize file offset size ≤ result.out.length := by
  have bounds := sqfsFileCtxInit_bounds entered.init
  have blockSize := (sqfsFileCtxInit_fields entered.init).1
  have inside := entered.insideFile
  have clamped := requestSize_of_lt inside noWrap
  have has := @WellFormedFile.hasContent ctx inode file offset size wellFormed unpacks entered.init
  have straight := @ShortBlockFile.straight ctx file offset wellFormed.shortBlocks blockSize
    bounds.2 bounds.1
  rcases has offset ⟨Nat.le_refl _, by have := entered.nonempty; omega, inside⟩ with
    ⟨first, begins, -⟩
  have brings := brings_of_returns straight (begins.notBehind bounds.2) nonneg returned
  apply Nat.le_of_not_lt
  intro more
  rcases has (offset + result.out.length) ⟨Nat.le_add_right _ _, by omega, by omega⟩ with
    ⟨byte, present, -⟩
  rcases brings result.out.length more (by omega) with ⟨other, -, value⟩ | ⟨cut, -⟩
  · exact absurd (List.getElem?_eq_some_iff.mp value).1 (Nat.lt_irrefl _)
  · exact absurd cut (present.not_cutShort bounds.2)

end Reads

/-- With every cache lookup missing, a read of a well-formed file returns the number of bytes of
the request that the file has, and exactly these bytes, if and only if the blocks of the request
unpack in place to them. -/
theorem sqfsDataRead_missing_content_iff {ctx : SqfsCtx} {inode : SqfsInode} {file : SqfsFileCtx}
    (init : sqfsFileCtxInit ctx.sb inode = .ok file) (wellFormed : WellFormedFile ctx file)
    (offset size : Nat) (sizeInRange : size < 2 ^ 31) (noWrap : offset + size < 2 ^ 64) :
    SqfsDataRead missingCache ctx () inode offset size (some {
      ret := (min size (file.fileSize - offset) : Nat)
      out := (((fileContent ctx file).drop offset).take
        (min size (file.fileSize - offset))).map some
      cache := () }) ↔
    HasContent ctx file offset size := by
  have exactly := @deliversZeroFilled_iff_canDeliver Unit missingCache _ _ _ ctx file
    ⟨inode, offset, size⟩ () init wellFormed.shortBlocks (by dsimp only; omega)
    missingCache_serves (agreesOnRead_missing ctx inode offset size) trivial
  rw [DeliversZeroFilled, CanDeliver, wellFormed.zeroFilled] at exactly
  rw [wellFormed.hasContent_iff]
  constructor
  · intro read
    rcases exactly.mp ⟨_, read, rfl⟩ with outside | ⟨-, has, -⟩
    · intro pos requested
      have start := requested.start
      have inFile := requested.inFile
      dsimp only at outside
      omega
    · exact has
  · intro has
    rcases exactly.mpr (.inr ⟨by dsimp only; omega, has, .inl noWrap⟩) with ⟨answer, read, same⟩
    rcases Option.map_eq_some_iff.mp same with ⟨⟨ret, out, _⟩, rfl, answers⟩
    cases answers
    exact read

theorem wellFormedFile_hole_and_short_block :
    WellFormedFile (.onBytes [7, 8, 9] (by decide)) {
      fileSize := 4099, blocksStart := 0, blockSize := 4096, blockCount := 2, tailSize := 3
      fragIdx := fragmentInvalid, fragOffset := 0, blockSizes := [0, 2 ^ 24 + 3] } where
  counted := by decide
  listed := rfl
  stored := by
    intro idx location located notHole
    match idx with
    | 0 =>
        cases located
        contradiction
    | 1 =>
        cases located
        exact ⟨[7, 8, 9], by decide +kernel, by decide⟩
    | idx + 2 =>
        have inRange := sqfsFileBlockLocation_lt located
        simp at inRange
  tail := by
    intro some
    cases some

theorem unpacksInPlace_hole_and_short_block :
    UnpacksInPlace (.onBytes [7, 8, 9] (by decide)) {
      fileSize := 4099, blocksStart := 0, blockSize := 4096, blockCount := 2, tailSize := 3
      fragIdx := fragmentInvalid, fragOffset := 0, blockSizes := [0, 2 ^ 24 + 3] } where
  block := by
    intro idx location located notHole
    match idx with
    | 0 =>
        cases located
        contradiction
    | 1 =>
        cases located
        exact (storedContent_apart (by decide)).symm
    | idx + 2 =>
        have inRange := sqfsFileBlockLocation_lt located
        simp at inRange
  tail := by
    intro some
    cases some

private theorem holeAndShortBlock_init :
    sqfsFileCtxInit (SqfsCtx.onBytes [7, 8, 9] (by decide)).sb
      (.ofFile 4099 0 fragmentInvalid 0 [0, 2 ^ 24 + 3]) = .ok {
        fileSize := 4099, blocksStart := 0, blockSize := 4096, blockCount := 2, tailSize := 3
        fragIdx := fragmentInvalid, fragOffset := 0, blockSizes := [0, 2 ^ 24 + 3] } := by
  decide +kernel

/-- A read across the end of the hole and past the end of the file. -/
theorem sqfsDataRead_missing_content_of_hole_and_short_block :
    ∃ result, SqfsDataRead missingCache (.onBytes [7, 8, 9] (by decide)) ()
        (.ofFile 4099 0 fragmentInvalid 0 [0, 2 ^ 24 + 3]) 4094 100 (some result) ∧
      result.ret = 5 ∧ result.out = [some 0, some 0, some 7, some 8, some 9] :=
  ⟨_, (sqfsDataRead_missing_content_iff holeAndShortBlock_init wellFormedFile_hole_and_short_block
    4094 100 (by decide) (by decide)).mpr (wellFormedFile_hole_and_short_block.hasContent
      unpacksInPlace_hole_and_short_block holeAndShortBlock_init),
    by decide +kernel, by decide +kernel⟩

/-! ## A block that fills its buffer -/

def writeZeros : Nat → Decoder → Decoder
  | 0, next => next
  | count + 1, next => .write 0 (writeZeros count next)

private theorem decode_writeZeros {limit count taken : Nat} {source output : List UInt8} (next : Decoder)
    (room : output.length + count ≤ limit) :
    (writeZeros count next).decode limit source taken output =
      next.decode limit source taken (output ++ List.replicate count 0) := by
  induction count generalizing output with
  | zero => rw [writeZeros, List.replicate_zero, List.append_nil]
  | succ count induction =>
      have rest : (output ++ [0]).length + count ≤ limit := by
        rw [List.length_append, List.length_singleton]
        omega
      rw [writeZeros, Decoder.decode, if_pos (by omega), induction rest, List.append_assoc,
        List.replicate_succ]
      rfl

private theorem run_writeZeros {limit start size count taken written : Nat} (next : Decoder)
    (memory : Storage) (room : written + count ≤ limit) :
    (writeZeros count next).run limit start size memory taken written =
      next.run limit start size
        (fun address => if written ≤ address ∧ address < written + count then 0
          else memory address) taken (written + count) := by
  induction count generalizing memory written with
  | zero =>
      congr 1
      funext address
      rw [if_neg (by omega)]
  | succ count induction =>
      rw [writeZeros, Decoder.run, if_pos (by omega), induction _ (by omega),
        Nat.add_assoc, Nat.add_comm 1]
      congr 1
      funext address
      by_cases first : address = written
      · subst first
        rw [if_neg (by omega), if_pos (by omega), Function.update_self]
      · rw [Function.update_of_ne first]
        congr 1
        exact propext (by omega)

/-- A decompressor that fills the output with zeros and then reads a trailer, which must
be 7. -/
def fillThenTrailer : Machine := fun _ limit =>
  .read fun _ => writeZeros limit (.read fun trailer => .done (trailer == some 7))

private theorem fillThenTrailer_apart {limit : Nat} :
    fillThenTrailer.unpack limit limit [0, 7] = some (List.replicate limit 0) := by
  rw [Machine.unpack, Decoder.runAt_separate, fillThenTrailer, Decoder.decode,
    decode_writeZeros _ (Nat.zero_add limit).le]
  rfl

private theorem fillThenTrailer_tailOfOutput {limit : Nat} (room : 2 ≤ limit) :
    fillThenTrailer.unpack limit (limit - 2) [0, 7] = none := by
  rw [Machine.unpack, Decoder.runAt, fillThenTrailer, Decoder.run,
    run_writeZeros _ _ (Nat.zero_add limit).le, Decoder.run]
  rw [if_pos (by decide)]
  simp only [if_pos (show 0 ≤ limit - 2 + (0 + 1) ∧ limit - 2 + (0 + 1) < 0 + limit by omega)]
  rfl
/-- An image that is one block of two bytes, compressed. -/
def trailerCtx : SqfsCtx :=
  { SqfsCtx.onBytes [0, 7] (by decide) with comp := fillThenTrailer.inPlace }

/-- A file of that block. -/
def fullBlockFile : SqfsFileCtx where
  fileSize := 4096
  blocksStart := 0
  blockSize := 4096
  blockCount := 1
  tailSize := 0
  fragIdx := fragmentInvalid
  fragOffset := 0
  blockSizes := [2]

private theorem fullBlock_stored :
    readBlockFromDisk trailerCtx.image (sqfsBlockSizeGet 2) 0 = .ok [0, 7] := by
  decide +kernel

private theorem fullBlock_apart (limit : Nat) :
    storedContent trailerCtx.apart ⟨0, 2⟩ limit = .ok (List.replicate limit 0) := by
  have read : readBlockFromDisk trailerCtx.apart.image (sqfsBlockSizeGet 2) 0 = .ok [0, 7] :=
    fullBlock_stored
  rw [storedContent, if_neg (by decide)]
  simp only [read, Outcome.ok_bind]
  exact sqfsCompressorDecompress_eq_ok.mpr fillThenTrailer_apart

private theorem fullBlock_inPlace {limit : Nat} (room : 2 ≤ limit) :
    storedContent trailerCtx ⟨0, 2⟩ limit = .err .corrupt := by
  have failed : trailerCtx.comp.decompress .tailOfOutput [0, 7] limit = none :=
    fillThenTrailer_tailOfOutput room
  have size : sqfsBlockSizeGet 2 = 2 := by decide
  rw [storedContent, if_neg (by decide)]
  simp only [fullBlock_stored, Outcome.ok_bind]
  rw [size, if_pos room, sqfsCompressorDecompress, failed]

private theorem fullBlockFile_located {idx : Nat} {location : BlockLocation}
    (located : sqfsFileBlockLocation fullBlockFile idx = .ok location) :
    idx = 0 ∧ location = ⟨0, 2⟩ := by
  have inRange := sqfsFileBlockLocation_lt located
  obtain rfl : idx = 0 := Nat.lt_one_iff.mp inRange
  cases located
  exact ⟨rfl, rfl⟩

private theorem wellFormed_fullBlockFile : WellFormedFile trailerCtx fullBlockFile where
  counted := by decide
  listed := rfl
  stored := by
    intro idx location located _
    rcases fullBlockFile_located located with ⟨rfl, rfl⟩
    exact ⟨_, fullBlock_apart _, List.length_replicate⟩
  tail := fun hasTail => absurd hasTail (by decide)

private theorem fullBlockFile_init :
    sqfsFileCtxInit trailerCtx.sb (.ofFile 4096 0 fragmentInvalid 0 [2]) = .ok fullBlockFile := by
  decide +kernel

/-- The file is well-formed, and its first byte is a zero, but the read of it fails. -/
theorem sqfsDataRead_fails_on_full_block :
    sqfsFileCtxInit trailerCtx.sb (.ofFile 4096 0 fragmentInvalid 0 [2]) = .ok fullBlockFile ∧
      WellFormedFile trailerCtx fullBlockFile ∧
      SqfsDataRead missingCache trailerCtx () (.ofFile 4096 0 fragmentInvalid 0 [2]) 0 1
        (some { ret := -1001, out := [], cache := () }) ∧
      ¬ SqfsDataRead missingCache trailerCtx () (.ofFile 4096 0 fragmentInvalid 0 [2]) 0 1 (some {
        ret := (min 1 (fullBlockFile.fileSize - 0) : Nat)
        out := (((fileContent trailerCtx fullBlockFile).drop 0).take
          (min 1 (fullBlockFile.fileSize - 0))).map some
        cache := () }) := by
  have failed : SqfsDataRead missingCache trailerCtx () (.ofFile 4096 0 fragmentInvalid 0 [2]) 0 1
      (some { ret := -1001, out := [], cache := () }) := by
    have entered : Enters trailerCtx (.ofFile 4096 0 fragmentInvalid 0 [2]) 0 1 fullBlockFile :=
      ⟨fullBlockFile_init, by decide, by decide⟩
    have located : sqfsFileBlockLocation fullBlockFile (u32 (0 / fullBlockFile.blockSize)) =
        .ok ⟨0, 2⟩ := by decide +kernel
    have unread : storedContent trailerCtx ⟨0, 2⟩ fullBlockFile.blockSize = .err .corrupt :=
      fullBlock_inPlace (by decide)
    have pass : plainPass trailerCtx fullBlockFile 0 ⟨0, requestSize fullBlockFile 0 1, []⟩ =
        .leave (some ⟨-1001, []⟩) := by
      rw [plainPass_at (by decide) (by decide) rfl, if_neg (by decide)]
      simp only [located]
      rw [if_neg (by decide), plainStored, unread]
      rfl
    obtain ⟨result, read, same⟩ : ∃ result, SqfsDataRead missingCache trailerCtx ()
        (.ofFile 4096 0 fragmentInvalid 0 [2]) 0 1 result ∧ SameResult _ _ result :=
      ((entered.plainRead_iff _).mpr (.of_leave pass)).read missingCache_serves
        (agreesOnRead_missing _ _ _ _) trivial
    cases result with
    | none => exact same.elim
    | some result =>
        rcases same with ⟨sameRet, sameOut, -⟩
        cases result
        cases sameRet
        cases sameOut
        exact read
  refine ⟨fullBlockFile_init, wellFormed_fullBlockFile, failed, fun delivered => ?_⟩
  have same := congrArg (Option.map ReadResult.ret) (delivered.unique failed)
  have differ : ((min 1 (fullBlockFile.fileSize - 0) : Nat) : Int) ≠ -1001 := by decide
  exact differ (Option.some.inj same)

end SquashfsFuse
