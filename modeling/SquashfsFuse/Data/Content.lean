import SquashfsFuse.Data.Serving

/-! What the image holds for the blocks of a file, and that both block readers
deliver it. -/

namespace SquashfsFuse

theorem sqfsPreadInto_eq_ok {image : Image} {room count offset : Nat} {part : List UInt8} :
    sqfsPreadInto image room count offset = .ok part ↔
      image.diskBytes offset count = some part ∧ count ≤ room := by
  have size := image.sizeInOffT
  by_cases fits : count ≤ room
  · rw [sqfsPreadInto_of_le fits, sqfsPreadAll_eq_ok]
    exact ⟨fun found => ⟨found, fits⟩, And.left⟩
  · constructor
    · intro read
      rw [sqfsPreadInto] at read
      split at read
      · contradiction
      · next inside =>
          have found := sqfsPreadAll_eq_ok.mp read
          have bound := Image.diskBytes_bound found (by omega)
          omega
    · exact fun found => absurd found.2 fits

theorem sqfsFileBlockLocation_lt {file : SqfsFileCtx} {idx : Nat} {location : BlockLocation}
    (located : sqfsFileBlockLocation file idx = .ok location) : idx < file.blockCount := by
  rw [sqfsFileBlockLocation] at located
  split at located
  · split at located <;> contradiction
  · omega

/-! ## Blocks on disk -/

/-- What the code unpacks a block on disk to, at most `limit` bytes. A block that is not longer
is unpacked over its own compressed bytes. -/
def storedContent (ctx : SqfsCtx) (location : BlockLocation) (limit : Nat) :
    Sqfs (List UInt8) :=
  let actualSize := sqfsBlockSizeGet location.size
  if sqfsBlockIsUncompressed location.size then
    (sqfsPreadInto ctx.image limit actualSize location.pos).mapErr fun _ => .io
  else do
    let placement := if actualSize ≤ limit then .tailOfOutput else .separate
    let stored ← readBlockFromDisk ctx.image actualSize location.pos
    sqfsCompressorDecompress ctx.comp placement stored limit

theorem storedContent_length {ctx : SqfsCtx} {location : BlockLocation} {limit : Nat}
    {data : List UInt8} (content : storedContent ctx location limit = .ok data) :
    data.length ≤ limit := by
  rw [storedContent] at content
  split at content
  · rw [Outcome.mapErr_eq_ok, sqfsPreadInto_eq_ok] at content
    rw [Image.diskBytes_length content.1]
    exact content.2
  · rcases Outcome.bind_eq_ok.mp content with ⟨stored, -, unpacked⟩
    exact ctx.comp.bounded (sqfsCompressorDecompress_eq_ok.mp unpacked)

/-- The context with a decompressor that has the compressed bytes of every block in a buffer of
their own: the format does not know of any other way to unpack a block. -/
def SqfsCtx.apart (ctx : SqfsCtx) : SqfsCtx := { ctx with comp := ctx.comp.apart }

theorem storedContent_apart {ctx : SqfsCtx} {location : BlockLocation} {limit : Nat}
    (uncompressed : sqfsBlockIsUncompressed location.size = true) :
    storedContent ctx.apart location limit = storedContent ctx location limit := by
  rw [storedContent, storedContent, if_pos uncompressed, if_pos uncompressed]
  rfl

/-- The block buffer after a block of `data` was read into it. A block stored
as it is leaves the rest of the buffer alone, a decompressor leaves it
indeterminate. -/
def refill (location : BlockLocation) (blockBuf : List Cell) (limit : Nat)
    (data : List UInt8) : List Cell :=
  data.map some ++
    if sqfsBlockIsUncompressed location.size then
      blockBuf.drop data.length
    else
      List.replicate (limit - data.length) none

theorem refill_length {location : BlockLocation} {blockBuf : List Cell} {limit : Nat}
    {data : List UInt8} (room : blockBuf.length = limit) (fits : data.length ≤ limit) :
    (refill location blockBuf limit data).length = limit := by
  rw [refill, List.length_append, List.length_map]
  cases sqfsBlockIsUncompressed location.size <;>
    simp only [Bool.false_eq_true, if_false, if_true, List.length_replicate, List.length_drop] <;>
    omega

@[simp] theorem refill_take (location : BlockLocation) (blockBuf : List Cell) (limit : Nat)
    (data : List UInt8) :
    (refill location blockBuf limit data).take data.length = data.map some := by
  rw [refill, List.take_append_of_le_length (by simp), List.take_of_length_le (by simp)]

theorem refill_part {location : BlockLocation} {blockBuf : List Cell} {limit : Nat}
    {data : List UInt8} {start count : Nat} (inside : start + count ≤ data.length) :
    ((refill location blockBuf limit data).drop start).take count =
      ((data.drop start).take count).map some := by
  have cut : ((data.map some).drop start).length = data.length - start := by simp
  rw [refill, List.drop_append_of_le_length (by simp; omega),
    List.take_append_of_le_length (by omega), List.map_take, List.map_drop]

theorem sqfsDataReadBlock_eq (ctx : SqfsCtx) (location : BlockLocation) (blockBuf : List Cell)
    (limit : Nat) (notHole : location.size ≠ 0) :
    sqfsDataReadBlock ctx.image ctx.comp location.pos location.size blockBuf limit =
      storedContent ctx location limit >>= fun data =>
        pure (refill location blockBuf limit data, data.length) := by
  rw [sqfsDataReadBlock, if_neg notHole, storedContent]
  by_cases uncompressed : sqfsBlockIsUncompressed location.size
  · simp only [uncompressed, if_true]
    cases read : sqfsPreadInto ctx.image limit (sqfsBlockSizeGet location.size) location.pos with
    | ok data =>
        have length := Image.diskBytes_length (sqfsPreadInto_eq_ok.mp read).1
        simp [refill, uncompressed, length]
    | err error => rfl
    | fault => rfl
  · simp only [uncompressed, Bool.false_eq_true, if_false, bind_assoc]
    congr 1
    funext stored
    congr 1
    funext output
    simp [refill, uncompressed]

theorem sqfsFragmentReadBlock_length {ctx : SqfsCtx} {fragIdx : Nat} {data : List UInt8}
    (content : sqfsFragmentReadBlock ctx fragIdx = .ok data) :
    data.length ≤ ctx.sb.blockSize := by
  rcases Outcome.bind_eq_ok.mp content with ⟨entry, -, read⟩
  simp only at read
  split at read
  · rw [sqfsPreadInto_eq_ok] at read
    rw [Image.diskBytes_length read.1]
    exact read.2
  · rcases Outcome.bind_eq_ok.mp read with ⟨stored, -, unpacked⟩
    exact ctx.comp.bounded (sqfsCompressorDecompress_eq_ok.mp unpacked)

end SquashfsFuse
