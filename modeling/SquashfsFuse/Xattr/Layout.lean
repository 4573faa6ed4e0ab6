import SquashfsFuse.Core.Xattr
import SquashfsFuse.Foundation.Chunks

/-! The on-disk layout of extended attributes (`xattr.h`), and what the two passes of
the parser make of it. -/

namespace SquashfsFuse

/-! ## Pairs -/

inductive DiskXattrValue
  | inline (value : List UInt8) (short : value.length < 2 ^ 32)
  | outOfLine (ref : UInt64)

/-- `sqfs_xattr_key_t` and `sqfs_xattr_value_t` with the bytes behind them. -/
structure DiskXattr where
  kind : SqfsXattrPrefix
  name : List UInt8
  value : DiskXattrValue
  short : name.length < 2 ^ 16

def SqfsXattrPrefix.code : SqfsXattrPrefix → Nat
  | user => 0
  | trusted => 1
  | security => 2

/-- The bytes behind the size of a value. -/
def DiskXattrValue.stored : DiskXattrValue → List UInt8
  | inline value _ => value
  | outOfLine ref => leBytes 8 ref.toNat

namespace DiskXattr

variable (pair : DiskXattr)

/-- The type of the key: out-of-line values are flagged. -/
def type : Nat :=
  match pair.value with
  | .inline _ _ => pair.kind.code
  | .outOfLine _ => 0x0100 ||| pair.kind.code

def encode : List UInt8 :=
  leBytes 2 pair.type ++ leBytes 2 pair.name.length ++ pair.name ++
    leBytes 4 pair.value.stored.length ++ pair.value.stored

/-- The full name. -/
def key : List UInt8 := pair.kind.str ++ pair.name

/-- The pair as the parser delivers it. -/
def parsed : SqfsXattr := ⟨pair.key, pair.value.stored⟩

end DiskXattr

/-- The bytes of a set of pairs. -/
def encodeXattrs (pairs : List DiskXattr) : List UInt8 := pairs.flatMap DiskXattr.encode

/-! ## Fields -/

private theorem DiskXattrValue.stored_short (value : DiskXattrValue) :
    value.stored.length < 2 ^ 32 := by
  cases value with
  | inline value short => exact short
  | outOfLine ref =>
      rw [stored, leBytes_length]
      decide

namespace DiskXattr

variable (pair : DiskXattr)

theorem encode_length :
    pair.encode.length = pair.name.length + pair.value.stored.length + 8 := by
  simp only [encode, List.length_append, leBytes_length]
  omega

private theorem type_lt : pair.type < 2 ^ 16 := by
  unfold type
  cases pair.value <;> cases pair.kind <;> dsimp only <;> decide

theorem ofType_type : SqfsXattrPrefix.ofType pair.type = some pair.kind := by
  unfold type
  cases pair.value <;> cases pair.kind <;> dsimp only <;> decide

variable (before after : List UInt8)

theorem load_type :
    sqfsLe16ToCpu (before ++ (pair.encode ++ after)) before.length = .ok pair.type := by
  have bound : pair.type < 65536 := pair.type_lt
  rw [sqfsLe16ToCpu, loadLe_append_of_le _ _ _ _ (Nat.le_refl _)]
  simp [encode, Nat.mod_eq_of_lt bound]

theorem load_nameSize :
    sqfsLe16ToCpu (before ++ (pair.encode ++ after)) (before.length + 2) =
      .ok pair.name.length := by
  have bound : pair.name.length < 65536 := pair.short
  rw [sqfsLe16ToCpu, loadLe_append_of_le _ _ _ _ (Nat.le_add_right _ _)]
  simp [encode, Nat.mod_eq_of_lt bound]

theorem load_valueSize :
    sqfsLe32ToCpu (before ++ (pair.encode ++ after))
      (before.length + 4 + pair.name.length) = .ok pair.value.stored.length := by
  have bound : pair.value.stored.length < 4294967296 := pair.value.stored_short
  have split : before ++ (pair.encode ++ after) =
      before ++ leBytes 2 pair.type ++ leBytes 2 pair.name.length ++ pair.name ++
        (leBytes 4 pair.value.stored.length ++ (pair.value.stored ++ after)) := by
    simp [encode]
  have position : before.length + 4 + pair.name.length =
      (before ++ leBytes 2 pair.type ++ leBytes 2 pair.name.length ++ pair.name).length := by
    simp only [List.length_append, leBytes_length]
  rw [sqfsLe32ToCpu, split, position, loadLe_append_of_le _ _ _ _ (Nat.le_refl _), Nat.sub_self]
  simp [Nat.mod_eq_of_lt bound]

private theorem slice_name :
    slice (before ++ (pair.encode ++ after)) (before.length + 4) pair.name.length =
      some pair.name := by
  have sliced := slice_append_length (before ++ leBytes 2 pair.type ++
    leBytes 2 pair.name.length) pair.name
    (leBytes 4 pair.value.stored.length ++ pair.value.stored ++ after)
  simp only [List.length_append, leBytes_length, Nat.add_assoc] at sliced
  rw [← sliced]
  simp [encode]

private theorem slice_value :
    slice (before ++ (pair.encode ++ after)) (before.length + 4 + pair.name.length + 4)
      pair.value.stored.length = some pair.value.stored := by
  have sliced := slice_append_length (before ++ leBytes 2 pair.type ++
    leBytes 2 pair.name.length ++ pair.name ++ leBytes 4 pair.value.stored.length)
    pair.value.stored after
  have position : before.length + 4 + pair.name.length + 4 = (before ++ leBytes 2 pair.type ++
      leBytes 2 pair.name.length ++ pair.name ++
      leBytes 4 pair.value.stored.length).length := by
    simp only [List.length_append, leBytes_length]
  rw [position, ← sliced]
  simp [encode]

end DiskXattr

/-! ## The counting pass -/

section Counting

variable {data : List UInt8}

theorem countXattrPairs_eq_zero {remaining fuel pos : Nat} :
    countXattrPairs data remaining fuel pos = .ok 0 ↔ remaining < pos + 4 := by
  constructor
  · intro counted
    by_contra fits
    cases fuel with
    | zero =>
        rw [countXattrPairs, if_pos (by omega)] at counted
        cases counted
    | succ fuel =>
        rw [countXattrPairs, if_pos (by omega)] at counted
        rcases Outcome.bind_eq_ok.mp counted with ⟨type, -, counted⟩
        rcases Outcome.bind_eq_ok.mp counted with ⟨nameSize, -, counted⟩
        split at counted
        · cases counted
        · dsimp only at counted
          split at counted
          · cases counted
          · rcases Outcome.bind_eq_ok.mp counted with ⟨valueSize, -, counted⟩
            split at counted
            · cases counted
            · rcases Outcome.bind_eq_ok.mp counted with ⟨count, -, counted⟩
              cases counted
  · intro tooShort
    unfold countXattrPairs
    rw [if_neg (by omega)]
    rfl

private theorem countXattrPairs_encode (pair : DiskXattr) (before after : List UInt8) (fuel : Nat)
    (layout : data = before ++ (pair.encode ++ after)) :
    countXattrPairs data data.length (fuel + 1) before.length = (do
      let count ← countXattrPairs data data.length fuel (before ++ pair.encode).length
      pure (count + 1)) := by
  have length : data.length = before.length + (pair.encode.length + after.length) := by
    rw [layout, List.length_append, List.length_append]
  have size := pair.encode_length
  have type := pair.load_type before after
  have nameSize := pair.load_nameSize before after
  have valueSize := pair.load_valueSize before after
  rw [← layout] at type nameSize valueSize
  have behind : before.length + 4 + pair.name.length + 4 + pair.value.stored.length =
      (before ++ pair.encode).length := by
    rw [List.length_append]
    omega
  rw [countXattrPairs, if_pos (by omega)]
  simp only [type, nameSize, Outcome.ok_bind, pair.ofType_type]
  rw [if_neg (by omega)]
  simp only [valueSize, Outcome.ok_bind]
  rw [if_neg (by omega), behind]

private theorem countXattrPairs_cut (pair : DiskXattr) (before after : List UInt8) (fuel : Nat)
    {count : Nat} (layout : data ++ after = before ++ pair.encode) (cut : after ≠ [])
    (counted : countXattrPairs data data.length fuel before.length = .ok count) :
    count = 0 := by
  have missing : 0 < after.length := List.length_pos_iff.mpr cut
  have length := congrArg List.length layout
  rw [List.length_append, List.length_append] at length
  have size := pair.encode_length
  have type := pair.load_type before []
  have nameSize := pair.load_nameSize before []
  have valueSize := pair.load_valueSize before []
  rw [List.append_nil, ← layout] at type nameSize valueSize
  unfold countXattrPairs at counted
  split at counted
  · next header =>
      rw [sqfsLe16ToCpu, loadLe_append_of_fits _ _ _ _ (by omega), ← sqfsLe16ToCpu] at type
      rw [sqfsLe16ToCpu, loadLe_append_of_fits _ _ _ _ (by omega), ← sqfsLe16ToCpu]
        at nameSize
      cases fuel with
      | zero => cases counted
      | succ fuel =>
          simp only [type, nameSize, Outcome.ok_bind, pair.ofType_type] at counted
          split at counted
          · cases counted
          · next value =>
              rw [sqfsLe32ToCpu, loadLe_append_of_fits _ _ _ _ (by omega), ← sqfsLe32ToCpu]
                at valueSize
              simp only [valueSize, Outcome.ok_bind] at counted
              rw [if_pos (by omega)] at counted
              cases counted
  · cases counted
    rfl

theorem encodeXattrs_cons (pair : DiskXattr) (pairs : List DiskXattr) :
    encodeXattrs (pair :: pairs) = pair.encode ++ encodeXattrs pairs := List.flatMap_cons

theorem countXattrPairs_encodeXattrs (pairs : List DiskXattr) (before after : List UInt8)
    (fuel : Nat) (layout : data = before ++ (encodeXattrs pairs ++ after)) :
    countXattrPairs data data.length (fuel + pairs.length) before.length = (do
      let count ← countXattrPairs data data.length fuel (before ++ encodeXattrs pairs).length
      pure (count + pairs.length)) := by
  induction pairs generalizing before with
  | nil =>
      have nothing : before ++ encodeXattrs [] = before := List.append_nil before
      rw [nothing]
      exact (bind_pure _).symm
  | cons pair pairs induction =>
      rw [encodeXattrs_cons, List.append_assoc] at layout
      have following := induction (before ++ pair.encode) (by rw [layout, List.append_assoc])
      rw [List.length_cons, ← Nat.add_assoc, countXattrPairs_encode pair before _ _ layout,
        following, bind_assoc, encodeXattrs_cons, ← List.append_assoc]
      simp only [pure_bind, Nat.add_assoc]

theorem countXattrPairs_short (pairs : List DiskXattr) (before after : List UInt8)
    (fuel : Nat) {count : Nat} (layout : data ++ after = before ++ encodeXattrs pairs)
    (cut : after ≠ []) (inside : before.length ≤ data.length)
    (counted : countXattrPairs data data.length fuel before.length = .ok count) :
    count < pairs.length := by
  induction pairs generalizing before fuel count with
  | nil =>
      have missing : 0 < after.length := List.length_pos_iff.mpr cut
      have length := congrArg List.length layout
      rw [List.length_append, List.length_append, encodeXattrs, List.flatMap_nil,
        List.length_nil] at length
      omega
  | cons pair pairs induction =>
      rw [encodeXattrs_cons, ← List.append_assoc] at layout
      have front : before ++ pair.encode <+: data ++ after := ⟨_, layout.symm⟩
      by_cases whole : (before ++ pair.encode).length ≤ data.length
      · rcases List.prefix_of_prefix_length_le front (List.prefix_append _ _) whole with
          ⟨rest, split⟩
        rw [List.append_assoc] at split
        cases fuel with
        | zero =>
            have size := pair.encode_length
            rw [List.length_append] at whole
            rw [countXattrPairs, if_pos (by omega)] at counted
            cases counted
        | succ fuel =>
            rw [countXattrPairs_encode pair before rest fuel split.symm] at counted
            rcases Outcome.bind_eq_ok.mp counted with ⟨others, following, counted⟩
            cases counted
            have fewer := induction (before ++ pair.encode) fuel layout whole following
            rw [List.length_cons]
            omega
      · rcases List.prefix_of_prefix_length_le (List.prefix_append data after) front
          (by omega) with ⟨rest, split⟩
        have lengths := congrArg List.length split
        rw [List.length_append] at lengths
        have none := countXattrPairs_cut pair before rest fuel split
          (List.length_pos_iff.mp (by omega)) counted
        rw [none]
        exact Nat.succ_pos _

end Counting

/-! ## The filling pass -/

section Filling

variable {data : List UInt8}

private theorem fillXattrPairs_encode (pair : DiskXattr) (before after : List UInt8)
    (pairCount : Nat) (layout : data = before ++ (pair.encode ++ after)) :
    fillXattrPairs data data.length (pairCount + 1) before.length = (do
      let others ← fillXattrPairs data data.length pairCount (before ++ pair.encode).length
      pure (pair.parsed :: others)) := by
  have length : data.length = before.length + (pair.encode.length + after.length) := by
    rw [layout, List.length_append, List.length_append]
  have size := pair.encode_length
  have type := pair.load_type before after
  have nameSize := pair.load_nameSize before after
  have valueSize := pair.load_valueSize before after
  have name := pair.slice_name before after
  have value := pair.slice_value before after
  rw [← layout] at type nameSize valueSize name value
  have behind : before.length + 4 + pair.name.length + 4 + pair.value.stored.length =
      (before ++ pair.encode).length := by
    rw [List.length_append]
    omega
  rw [fillXattrPairs, if_pos (by omega)]
  simp only [type, nameSize, Outcome.ok_bind, pair.ofType_type, name, Outcome.ofOption_some,
    valueSize, value, behind]
  rfl

theorem fillXattrPairs_encodeXattrs (pairs : List DiskXattr) (before after : List UInt8)
    (layout : data = before ++ (encodeXattrs pairs ++ after)) :
    fillXattrPairs data data.length pairs.length before.length =
      .ok (pairs.map DiskXattr.parsed) := by
  induction pairs generalizing before with
  | nil => rfl
  | cons pair pairs induction =>
      rw [encodeXattrs_cons, List.append_assoc] at layout
      have following := induction (before ++ pair.encode) (by rw [layout, List.append_assoc])
      rw [List.length_cons, fillXattrPairs_encode pair before _ _ layout, following]
      rfl

theorem fillXattrPairs_length {remaining pairCount pos : Nat} {xattrs : List SqfsXattr}
    (filled : fillXattrPairs data remaining pairCount pos = .ok xattrs) :
    xattrs.length = pairCount := by
  induction pairCount generalizing pos xattrs with
  | zero =>
      cases filled
      rfl
  | succ pairCount induction =>
      unfold fillXattrPairs at filled
      split at filled
      · rcases Outcome.bind_eq_ok.mp filled with ⟨type, -, filled⟩
        rcases Outcome.bind_eq_ok.mp filled with ⟨nameSize, -, filled⟩
        split at filled
        · cases filled
        · rcases Outcome.bind_eq_ok.mp filled with ⟨name, -, filled⟩
          rcases Outcome.bind_eq_ok.mp filled with ⟨valueSize, -, filled⟩
          rcases Outcome.bind_eq_ok.mp filled with ⟨value, -, filled⟩
          rcases Outcome.bind_eq_ok.mp filled with ⟨others, following, filled⟩
          cases filled
          rw [List.length_cons, induction following]
      · cases filled

end Filling

end SquashfsFuse
