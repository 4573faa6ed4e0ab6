import SquashfsFuse.Foundation.Bytes

/-! Error codes, integer conversions and positioned reads (`utils.c`, `utils.h`). -/

namespace SquashfsFuse

/-! ## Error codes -/

/-- `sqfs_error_t` without `SQFS_OK`. -/
inductive SqfsError
  | corrupt
  | badMagic
  | badVersion
  | badComp
  | badInode
  | badDir
  | badXattr
  | badBlock
  | notFound
  | noMemory
  | io
  | overflow
  deriving Repr, DecidableEq

namespace SqfsError

def code : SqfsError → Int
  | corrupt => -1001
  | badMagic => -1002
  | badVersion => -1003
  | badComp => -1004
  | badInode => -1005
  | badDir => -1006
  | badXattr => -1007
  | badBlock => -1008
  | notFound => -1009
  | noMemory => -1010
  | io => -1011
  | overflow => -1012

theorem code_neg (error : SqfsError) : error.code < 0 := by
  cases error <;> decide

end SqfsError

abbrev Sqfs := Outcome SqfsError

/-! ## Machine integers

Unsigned arithmetic of the source is natural-number arithmetic reduced with
`u16`, `u32` and `u64` where the C expression wraps. -/

def u16 (value : Nat) : Nat := value % 2 ^ 16

def u32 (value : Nat) : Nat := value % 2 ^ 32

def u64 (value : Nat) : Nat := value % 2 ^ 64

/-- The difference of two `size_t` or `uint64_t` values. -/
def sub64 (left right : Nat) : Nat := (left + (2 ^ 64 - right % 2 ^ 64)) % 2 ^ 64

/-- The cast of an unsigned value to `int`. -/
def toInt (value : Nat) : Int :=
  if u32 value < 2 ^ 31 then u32 value else (u32 value : Int) - 2 ^ 32

/-- The cast of an unsigned value to `int16_t`. -/
def toInt16 (value : Nat) : Int :=
  if u16 value < 2 ^ 15 then u16 value else (u16 value : Int) - 2 ^ 16

/-- The cast of an `int64_t` to `uint64_t`. -/
def ofInt64 (value : Int) : Nat := (value % 2 ^ 64).toNat

theorem u16_of_lt {value : Nat} (small : value < 2 ^ 16) : u16 value = value :=
  Nat.mod_eq_of_lt small

theorem u32_of_lt {value : Nat} (small : value < 2 ^ 32) : u32 value = value :=
  Nat.mod_eq_of_lt small

theorem u64_of_lt {value : Nat} (small : value < 2 ^ 64) : u64 value = value :=
  Nat.mod_eq_of_lt small

theorem sub64_of_le {left right : Nat} (ordered : right ≤ left) (small : left < 2 ^ 64) :
    sub64 left right = left - right := by
  unfold sub64
  omega

/-- Past zero the difference wraps to a value close to `2 ^ 64`. -/
theorem sub64_of_lt {left right : Nat} (negative : left < right) (small : right < 2 ^ 64) :
    sub64 left right = 2 ^ 64 - (right - left) := by
  unfold sub64
  omega

theorem toInt_of_lt {value : Nat} (small : value < 2 ^ 31) : toInt value = value := by
  have inRange : value < 2 ^ 32 := by omega
  rw [toInt, u32_of_lt inRange, if_pos small]

/-! ## The image file -/

/-- The content of the image file. The size of a file is an `off_t`, a signed
64-bit integer. -/
structure Image where
  bytes : List UInt8
  sizeInOffT : bytes.length < 2 ^ 63

namespace Image

/-- The bytes on disk at `[pos, pos + count)`. No bytes are on disk anywhere. -/
def diskBytes (image : Image) (pos count : Nat) : Option (List UInt8) :=
  if count = 0 then some [] else slice image.bytes pos count

theorem diskBytes_length {image : Image} {pos count : Nat} {part : List UInt8}
    (found : image.diskBytes pos count = some part) : part.length = count := by
  unfold diskBytes at found
  split at found
  · next empty => simp_all
  · exact slice_length found

theorem diskBytes_bound {image : Image} {pos count : Nat} {part : List UInt8}
    (found : image.diskBytes pos count = some part) (nonempty : count ≠ 0) :
    pos + count ≤ image.bytes.length := by
  rw [diskBytes, if_neg nonempty] at found
  exact (slice_eq_some.mp found).1

end Image

/-- `sqfs_pread_all`: exactly `count` bytes from `offset`, or an error. An
offset that is negative as an `off_t`, or a range that ends at one, makes `pread` fail; the
end of the file is reported as corruption. -/
def sqfsPreadAll (image : Image) (count offset : Nat) : Sqfs (List UInt8) :=
  if count = 0 then
    .ok []
  else if 2 ^ 63 ≤ offset + count then
    .err .io
  else
    match slice image.bytes offset count with
    | some part => .ok part
    | none => .err .corrupt

/-- `sqfs_pread_all` into a buffer of `room` bytes. The bytes that exist are
written before the end of the file is noticed. -/
def sqfsPreadInto (image : Image) (room count offset : Nat) : Sqfs (List UInt8) :=
  if offset + count < 2 ^ 63 ∧ room < min count (image.bytes.length - offset) then
    .fault
  else
    sqfsPreadAll image count offset

theorem sqfsPreadInto_of_le {image : Image} {room count offset : Nat}
    (fits : count ≤ room) :
    sqfsPreadInto image room count offset = sqfsPreadAll image count offset :=
  if_neg (by omega)

theorem sqfsPreadAll_eq_ok {image : Image} {count offset : Nat} {part : List UInt8} :
    sqfsPreadAll image count offset = .ok part ↔
      image.diskBytes offset count = some part := by
  have size := image.sizeInOffT
  unfold sqfsPreadAll Image.diskBytes
  split
  · simp
  · split
    · next negative =>
        have outside : slice image.bytes offset count = none := by
          rw [slice, if_neg (by omega)]
        simp [outside]
    · cases slice image.bytes offset count <;> simp

theorem sqfsPreadAll_cases (image : Image) (count offset : Nat) :
    (∃ part, sqfsPreadAll image count offset = .ok part) ∨
      sqfsPreadAll image count offset = .err .io ∨
      sqfsPreadAll image count offset = .err .corrupt := by
  unfold sqfsPreadAll
  split
  · exact .inl ⟨[], rfl⟩
  · split
    · exact .inr (.inl rfl)
    · cases slice image.bytes offset count with
      | some part => exact .inl ⟨part, rfl⟩
      | none => exact .inr (.inr rfl)

/-! ## Encodings shared by the readers -/

/-- `sqfs_le16_to_cpu` at an offset of a buffer. -/
def sqfsLe16ToCpu (bytes : List UInt8) (offset : Nat) : Sqfs Nat :=
  .ofOption (loadLe 2 bytes offset)

/-- `sqfs_le32_to_cpu` at an offset of a buffer. -/
def sqfsLe32ToCpu (bytes : List UInt8) (offset : Nat) : Sqfs Nat :=
  .ofOption (loadLe 4 bytes offset)

/-- `sqfs_le64_to_cpu` at an offset of a buffer. -/
def sqfsLe64ToCpu (bytes : List UInt8) (offset : Nat) : Sqfs Nat :=
  .ofOption (loadLe 8 bytes offset)

section Loads

variable {bytes : List UInt8} {offset value : Nat}

theorem sqfsLe32ToCpu_lt (loaded : sqfsLe32ToCpu bytes offset = .ok value) : value < 2 ^ 32 :=
  loadLe_lt (Outcome.ofOption_eq_ok.mp loaded)

theorem sqfsLe32ToCpu_word (loaded : sqfsLe32ToCpu bytes offset = .ok value) :
    ∃ word : UInt32, word.toNat = value :=
  loadLe_four (Outcome.ofOption_eq_ok.mp loaded)

theorem sqfsLe64ToCpu_word (loaded : sqfsLe64ToCpu bytes offset = .ok value) :
    ∃ word : UInt64, word.toNat = value :=
  loadLe_eight (Outcome.ofOption_eq_ok.mp loaded)

/-! The fields inside a buffer can be loaded. -/

theorem sqfsLe16ToCpu_of_le (inside : offset + 2 ≤ bytes.length) :
    ∃ value, sqfsLe16ToCpu bytes offset = .ok value := by
  rcases loadLe_of_le inside with ⟨value, loaded⟩
  exact ⟨value, Outcome.ofOption_eq_ok.mpr loaded⟩

theorem sqfsLe32ToCpu_of_le (inside : offset + 4 ≤ bytes.length) :
    ∃ value, sqfsLe32ToCpu bytes offset = .ok value := by
  rcases loadLe_of_le inside with ⟨value, loaded⟩
  exact ⟨value, Outcome.ofOption_eq_ok.mpr loaded⟩

theorem sqfsLe64ToCpu_of_le (inside : offset + 8 ≤ bytes.length) :
    ∃ value, sqfsLe64ToCpu bytes offset = .ok value := by
  rcases loadLe_of_le inside with ⟨value, loaded⟩
  exact ⟨value, Outcome.ofOption_eq_ok.mpr loaded⟩

end Loads

/-- Bit 24 of a size word: the block is stored uncompressed
(`sqfs_block_is_uncompressed`, `sqfs_fragment_is_uncompressed`). -/
def sqfsBlockIsUncompressed (size : Nat) : Bool := size.testBit 24

/-- The low 24 bits of a size word (`sqfs_block_size_get`, `sqfs_fragment_size`). -/
def sqfsBlockSizeGet (size : Nat) : Nat := size &&& 0x00FFFFFF

def sqfsMetaRefPos (ref : Nat) : Nat := ref >>> 16

def sqfsMetaRefOffset (ref : Nat) : Nat := ref &&& 0xFFFF

def sqfsDevMajor (dev : Nat) : Nat := (dev &&& 0xFFF00) >>> 8

def sqfsDevMinor (dev : Nat) : Nat := (dev &&& 0x000FF) ||| ((dev >>> 12) &&& 0xFFF00)

theorem sqfsDevMajor_lt (dev : Nat) : sqfsDevMajor dev < 2 ^ 12 := by
  have masked : dev &&& 0xFFF00 < 2 ^ 20 := Nat.and_lt_two_pow dev (by decide)
  rw [sqfsDevMajor, Nat.shiftRight_eq_div_pow]
  omega

theorem sqfsDevMinor_lt (dev : Nat) : sqfsDevMinor dev < 2 ^ 20 := by
  have low : dev &&& 0x000FF < 2 ^ 20 := Nat.and_lt_two_pow dev (by decide)
  have high : (dev >>> 12) &&& 0xFFF00 < 2 ^ 20 := Nat.and_lt_two_pow _ (by decide)
  exact Nat.or_lt_two_pow low high

theorem sqfsMetaRef_of_parts {pos offset : Nat} (small : offset < 2 ^ 16) :
    sqfsMetaRefPos (pos * 2 ^ 16 + offset) = pos ∧
      sqfsMetaRefOffset (pos * 2 ^ 16 + offset) = offset := by
  have mask : (0xFFFF : Nat) = 2 ^ 16 - 1 := rfl
  rw [sqfsMetaRefPos, sqfsMetaRefOffset, Nat.shiftRight_eq_div_pow, mask,
    Nat.and_two_pow_sub_one_eq_mod]
  omega

end SquashfsFuse
