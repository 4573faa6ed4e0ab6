import Mathlib.Tactic.Ring
import SquashfsFuse.Foundation.Outcome

/-! Byte strings: slices, little-endian integers and overlapping storage. -/

namespace SquashfsFuse

/-! ## Slices -/

/-- The `length` bytes that start at `start`, if the string has that many. -/
def slice (bytes : List UInt8) (start length : Nat) : Option (List UInt8) :=
  if start + length ≤ bytes.length then some ((bytes.drop start).take length) else none

theorem slice_eq_some {bytes part : List UInt8} {start length : Nat} :
    slice bytes start length = some part ↔
      start + length ≤ bytes.length ∧ part = (bytes.drop start).take length := by
  unfold slice
  split <;> simp_all [eq_comm]

theorem slice_length {bytes part : List UInt8} {start length : Nat}
    (sliced : slice bytes start length = some part) : part.length = length := by
  rcases slice_eq_some.mp sliced with ⟨bound, rfl⟩
  rw [List.length_take, List.length_drop]
  omega

theorem slice_isSome {bytes : List UInt8} {start length : Nat} :
    (slice bytes start length).isSome ↔ start + length ≤ bytes.length := by
  unfold slice
  split <;> simp_all

theorem drop_of_slice {bytes part : List UInt8} {start length : Nat}
    (sliced : slice bytes start length = some part) :
    bytes.drop start = part ++ bytes.drop (start + length) := by
  rcases slice_eq_some.mp sliced with ⟨-, rfl⟩
  rw [← List.drop_drop, List.take_append_drop]

@[simp] theorem slice_append_length (before part after : List UInt8) :
    slice (before ++ (part ++ after)) before.length part.length = some part := by
  rw [slice, if_pos (by simp)]
  simp

/-! ## Little-endian integers -/

/-- The `width` low bytes of `value`, least significant byte first. -/
def leBytes : (width value : Nat) → List UInt8
  | 0, _ => []
  | width + 1, value => UInt8.ofNat value :: leBytes width (value / 256)

/-- The integer a little-endian byte string denotes. -/
def leValue : List UInt8 → Nat
  | [] => 0
  | byte :: rest => byte.toNat + 256 * leValue rest

example : leBytes 2 0x1234 = [0x34, 0x12] := by decide

@[simp] theorem leBytes_length (width value : Nat) :
    (leBytes width value).length = width := by
  induction width generalizing value with
  | zero => rfl
  | succ width induction => simp [leBytes, induction]

theorem leValue_lt (bytes : List UInt8) : leValue bytes < 256 ^ bytes.length := by
  induction bytes with
  | nil => simp [leValue]
  | cons byte rest induction =>
      have byteBound := byte.toNat_lt
      simp only [leValue, List.length_cons, Nat.pow_succ]
      omega

theorem leValue_leBytes (width value : Nat) :
    leValue (leBytes width value) = value % 256 ^ width := by
  induction width generalizing value with
  | zero => simp [leBytes, leValue, Nat.mod_one]
  | succ width induction =>
      rw [leBytes, leValue, induction, Nat.pow_succ, Nat.mul_comm (256 ^ width) 256,
        Nat.mod_mul]
      simp

theorem leValue_append (low high : List UInt8) :
    leValue (low ++ high) = leValue low + 256 ^ low.length * leValue high := by
  induction low with
  | nil => simp [leValue]
  | cons byte rest induction =>
      simp only [List.cons_append, leValue, induction, List.length_cons, Nat.pow_succ]
      ring

theorem leBytes_leValue (bytes : List UInt8) :
    leBytes bytes.length (leValue bytes) = bytes := by
  induction bytes with
  | nil => rfl
  | cons byte rest induction =>
      have byteBound := byte.toNat_lt
      have quotient : (byte.toNat + 256 * leValue rest) / 256 = leValue rest := by omega
      have lowByte : UInt8.ofNat (byte.toNat + 256 * leValue rest) = byte := by
        apply UInt8.toNat_inj.mp
        rw [UInt8.toNat_ofNat']
        omega
      simp only [List.length_cons, leBytes, leValue]
      rw [quotient, lowByte, induction]

/-! ## Fields of a record -/

/-- Load the little-endian integer of `width` bytes stored at `offset`. -/
def loadLe (width : Nat) (bytes : List UInt8) (offset : Nat) : Option Nat :=
  (slice bytes offset width).map leValue

theorem loadLe_lt {width offset value : Nat} {bytes : List UInt8}
    (loaded : loadLe width bytes offset = some value) : value < 256 ^ width := by
  rcases Option.map_eq_some_iff.mp loaded with ⟨part, sliced, rfl⟩
  have bound := leValue_lt part
  rwa [slice_length sliced] at bound

theorem loadLe_two {bytes : List UInt8} {offset value : Nat}
    (loaded : loadLe 2 bytes offset = some value) : ∃ word : UInt16, word.toNat = value :=
  ⟨UInt16.ofNat value, UInt16.toNat_ofNat_of_lt' (loadLe_lt loaded)⟩

theorem loadLe_four {bytes : List UInt8} {offset value : Nat}
    (loaded : loadLe 4 bytes offset = some value) : ∃ word : UInt32, word.toNat = value :=
  ⟨UInt32.ofNat value, UInt32.toNat_ofNat_of_lt' (loadLe_lt loaded)⟩

theorem loadLe_eight {bytes : List UInt8} {offset value : Nat}
    (loaded : loadLe 8 bytes offset = some value) : ∃ word : UInt64, word.toNat = value :=
  ⟨UInt64.ofNat value, UInt64.toNat_ofNat_of_lt' (loadLe_lt loaded)⟩

theorem loadLe_of_le {width offset : Nat} {bytes : List UInt8}
    (inside : offset + width ≤ bytes.length) :
    ∃ value, loadLe width bytes offset = some value := by
  rcases Option.isSome_iff_exists.mp (slice_isSome.mpr inside) with ⟨part, sliced⟩
  exact ⟨leValue part, by rw [loadLe, sliced, Option.map_some]⟩

theorem drop_of_loadLe {width offset value : Nat} {bytes : List UInt8}
    (loaded : loadLe width bytes offset = some value) :
    bytes.drop offset = leBytes width value ++ bytes.drop (offset + width) := by
  rcases Option.map_eq_some_iff.mp loaded with ⟨part, sliced, rfl⟩
  have whole := leBytes_leValue part
  rw [slice_length sliced] at whole
  rw [whole]
  exact drop_of_slice sliced

theorem loadLe_append_of_le (width : Nat) (before after : List UInt8) (offset : Nat)
    (behind : before.length ≤ offset) :
    loadLe width (before ++ after) offset = loadLe width after (offset - before.length) := by
  have dropped : (before ++ after).drop offset = after.drop (offset - before.length) := by
    rw [List.drop_append, List.drop_eq_nil_of_le behind, List.nil_append]
  have sameBound : offset + width ≤ (before ++ after).length ↔
      offset - before.length + width ≤ after.length := by
    rw [List.length_append]
    omega
  unfold loadLe slice
  rw [dropped]
  by_cases fits : offset + width ≤ (before ++ after).length
  · rw [if_pos fits, if_pos (sameBound.mp fits)]
  · rw [if_neg fits, if_neg (fun inside => fits (sameBound.mpr inside))]

theorem loadLe_append_of_fits (width : Nat) (record after : List UInt8) (offset : Nat)
    (fits : offset + width ≤ record.length) :
    loadLe width (record ++ after) offset = loadLe width record offset := by
  have fitsBoth : offset + width ≤ (record ++ after).length := by
    rw [List.length_append]
    omega
  unfold loadLe slice
  rw [if_pos fits, if_pos fitsBoth, List.drop_append_of_le_length (by omega),
    List.take_append_of_le_length (by rw [List.length_drop]; omega)]

theorem loadLe_take (width : Nat) (bytes : List UInt8) (offset size : Nat)
    (fits : offset + width ≤ size) :
    loadLe width (bytes.take size) offset = loadLe width bytes offset := by
  have sameBound : offset + width ≤ (bytes.take size).length ↔
      offset + width ≤ bytes.length := by
    rw [List.length_take]
    omega
  unfold loadLe slice
  rw [List.drop_take, List.take_take, Nat.min_eq_left (by omega)]
  by_cases inside : offset + width ≤ bytes.length
  · rw [if_pos inside, if_pos (sameBound.mpr inside)]
  · rw [if_neg inside, if_neg (fun bound => inside (sameBound.mp bound))]

@[simp] theorem loadLe_leBytes_zero (width value : Nat) (after : List UInt8) :
    loadLe width (leBytes width value ++ after) 0 = some (value % 256 ^ width) := by
  rw [loadLe, slice, if_pos (by simp)]
  simp [leValue_leBytes]

@[simp] theorem loadLe_leBytes (width value : Nat) :
    loadLe width (leBytes width value) 0 = some (value % 256 ^ width) := by
  simpa using loadLe_leBytes_zero width value []

@[simp] theorem loadLe_leBytes_skip (width skipped value : Nat) (after : List UInt8)
    (offset : Nat) (behind : skipped ≤ offset) :
    loadLe width (leBytes skipped value ++ after) offset =
      loadLe width after (offset - skipped) := by
  simpa using loadLe_append_of_le width (leBytes skipped value) after offset (by simpa)

/-! ## Storage -/

/-- A piece of memory addressed by byte offset, as members of a union share
it. -/
abbrev Storage := Nat → UInt8

namespace Storage

/-- Storage cleared to zero. -/
def zero : Storage := fun _ => 0

/-- The bytes of `storage` at `offset`, `offset + 1`, …. -/
def bytesAt (storage : Storage) (offset width : Nat) : List UInt8 :=
  (List.range width).map fun index => storage (offset + index)

/-- Load the member of `width` bytes at `offset`. -/
def load (storage : Storage) (offset width : Nat) : Nat :=
  leValue (storage.bytesAt offset width)

/-- Store `value` into the member of `width` bytes at `offset`. -/
def store (storage : Storage) (offset width value : Nat) : Storage := fun address =>
  if offset ≤ address ∧ address < offset + width then
    (leBytes width value).getD (address - offset) 0
  else
    storage address

@[simp] theorem bytesAt_length (storage : Storage) (offset width : Nat) :
    (storage.bytesAt offset width).length = width := by
  simp [bytesAt]

theorem bytesAt_congr {left right : Storage} {offset width : Nat}
    (agree : ∀ address, offset ≤ address → address < offset + width →
      left address = right address) :
    left.bytesAt offset width = right.bytesAt offset width := by
  apply List.map_congr_left
  intro index member
  exact agree (offset + index) (by omega) (by have := List.mem_range.mp member; omega)

theorem drop_bytesAt (storage : Storage) (offset width skipped : Nat) :
    (storage.bytesAt offset width).drop skipped =
      storage.bytesAt (offset + skipped) (width - skipped) := by
  apply List.ext_getElem
  · rw [List.length_drop, bytesAt_length, bytesAt_length]
  · intro index left right
    simp only [bytesAt, List.getElem_drop, List.getElem_map, List.getElem_range]
    rw [Nat.add_assoc]

theorem take_bytesAt (storage : Storage) (offset width kept : Nat) (fits : kept ≤ width) :
    (storage.bytesAt offset width).take kept = storage.bytesAt offset kept := by
  apply List.ext_getElem
  · rw [List.length_take, bytesAt_length, bytesAt_length, Nat.min_eq_left fits]
  · intro index left right
    simp only [bytesAt, List.getElem_take, List.getElem_map, List.getElem_range]

theorem slice_bytesAt (storage : Storage) (offset width start length : Nat)
    (fits : start + length ≤ width) :
    slice (storage.bytesAt offset width) start length =
      some (storage.bytesAt (offset + start) length) := by
  rw [slice, bytesAt_length, if_pos fits, drop_bytesAt, take_bytesAt _ _ _ _ (by omega)]

theorem bytesAt_append (storage : Storage) (offset width more : Nat) :
    storage.bytesAt offset width ++ storage.bytesAt (offset + width) more =
      storage.bytesAt offset (width + more) := by
  have front := storage.take_bytesAt offset (width + more) width (Nat.le_add_right _ _)
  have back := storage.drop_bytesAt offset (width + more) width
  rw [Nat.add_sub_cancel_left] at back
  rw [← front, ← back, List.take_append_drop]

/-- Copy bytes to `offset`, `offset + 1`, …. -/
def write (storage : Storage) (offset : Nat) (bytes : List UInt8) : Storage := fun address =>
  if offset ≤ address ∧ address < offset + bytes.length then
    bytes.getD (address - offset) 0
  else
    storage address

theorem write_outside {storage : Storage} {offset address : Nat} {bytes : List UInt8}
    (outside : address < offset ∨ offset + bytes.length ≤ address) :
    storage.write offset bytes address = storage address :=
  if_neg (by omega)

theorem bytesAt_write (storage : Storage) (offset : Nat) (bytes : List UInt8) :
    (storage.write offset bytes).bytesAt offset bytes.length = bytes := by
  apply List.ext_getElem (bytesAt_length _ _ _)
  intro index left right
  have inside : offset ≤ offset + index ∧ offset + index < offset + bytes.length := by omega
  simp only [bytesAt, List.getElem_map, List.getElem_range, write]
  rw [if_pos inside, Nat.add_sub_cancel_left, List.getD_eq_getElem?_getD,
    List.getElem?_eq_getElem right, Option.getD_some]

theorem bytesAt_write_before {storage : Storage} {offset width start : Nat}
    {bytes : List UInt8} (before : offset + width ≤ start) :
    (storage.write start bytes).bytesAt offset width = storage.bytesAt offset width := by
  apply bytesAt_congr
  intro address _ upper
  exact write_outside (by omega)

theorem load_lt (storage : Storage) (offset width : Nat) :
    storage.load offset width < 256 ^ width := by
  have bound := leValue_lt (storage.bytesAt offset width)
  rwa [bytesAt_length] at bound

theorem bytesAt_store_same (storage : Storage) (offset width value : Nat) :
    (storage.store offset width value).bytesAt offset width = leBytes width value := by
  apply List.ext_getElem (by simp)
  intro index leftBound rightBound
  have inside : index < width := by simpa using rightBound
  simp [bytesAt, store, inside]

@[simp] theorem load_store_same (storage : Storage) (offset width value : Nat) :
    (storage.store offset width value).load offset width = value % 256 ^ width := by
  rw [load, bytesAt_store_same, leValue_leBytes]

theorem load_store_disjoint (storage : Storage) (offset width stored storedWidth value : Nat)
    (disjoint : offset + width ≤ stored ∨ stored + storedWidth ≤ offset) :
    (storage.store stored storedWidth value).load offset width =
      storage.load offset width := by
  unfold load
  rw [bytesAt_congr]
  intro address lower upper
  exact if_neg (by omega)

theorem load_split (storage : Storage) (offset low high : Nat) :
    storage.load offset (low + high) =
      storage.load offset low + 256 ^ low * storage.load (offset + low) high := by
  have parts : storage.bytesAt offset (low + high) =
      storage.bytesAt offset low ++ storage.bytesAt (offset + low) high := by
    simp [bytesAt, List.range_add, Function.comp_def, Nat.add_assoc]
  rw [load, parts, leValue_append, bytesAt_length]
  rfl

theorem load_store_high (storage : Storage) (offset low high value : Nat) :
    (storage.store offset (low + high) value).load (offset + low) high =
      value / 256 ^ low % 256 ^ high := by
  have whole := load_split (storage.store offset (low + high) value) offset low high
  have lowBound := load_lt (storage.store offset (low + high) value) offset low
  have highBound := load_lt (storage.store offset (low + high) value) (offset + low) high
  rw [load_store_same, Nat.pow_add] at whole
  have positive : 0 < 256 ^ low := Nat.pow_pos (by decide)
  rw [Nat.mod_mul] at whole
  have quotients := congrArg (· / 256 ^ low) whole
  simp only [Nat.add_mul_div_left _ _ positive, Nat.div_eq_of_lt lowBound,
    Nat.div_eq_of_lt (Nat.mod_lt value positive), Nat.zero_add] at quotients
  exact quotients.symm

theorem load_store_narrow (storage : Storage) (offset low high value : Nat) :
    (storage.store offset (low + high) value).load offset low = value % 256 ^ low := by
  have whole := load_split (storage.store offset (low + high) value) offset low high
  have lowBound := load_lt (storage.store offset (low + high) value) offset low
  rw [load_store_same, Nat.pow_add] at whole
  have remainders := congrArg (· % 256 ^ low) whole
  simp only [Nat.mod_mul_right_mod, Nat.add_mul_mod_self_left,
    Nat.mod_eq_of_lt lowBound] at remainders
  exact remainders.symm

theorem load_store_low (storage : Storage) (offset low high value : Nat) :
    (storage.store offset low value).load offset (low + high) =
      value % 256 ^ low + 256 ^ low * storage.load (offset + low) high := by
  rw [load_split, load_store_same, load_store_disjoint _ _ _ _ _ _ (by omega)]

end Storage

end SquashfsFuse
