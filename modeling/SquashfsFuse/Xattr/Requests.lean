import Mathlib.Data.List.TakeWhile
import SquashfsFuse.Core.XattrBuffers
import SquashfsFuse.Xattr.Passes

/-! Listing attributes and getting them. -/

namespace SquashfsFuse

/-! ## C strings -/

private theorem take_strlen (string : List UInt8) :
    (string ++ [0]).take (strlen string + 1) = cString string ++ [0] := by
  induction string with
  | nil => rfl
  | cons char string induction =>
      rw [strlen, cString]
      by_cases nul : char = 0
      · rw [List.takeWhile_cons_of_neg (by simp [nul]), nul]
        rfl
      · rw [List.takeWhile_cons_of_pos (by simp [nul]), List.length_cons, List.cons_append,
          List.take_succ_cons, ← cString, ← strlen, induction, List.cons_append]

def cStrings : List UInt8 → List (List UInt8)
  | [] => []
  | char :: rest =>
      if char = 0 then [] :: cStrings rest
      else
        match cStrings rest with
        | [] => []
        | first :: others => (char :: first) :: others

private theorem cStrings_append {string : List UInt8} (rest : List UInt8) (noNul : 0 ∉ string) :
    cStrings (string ++ ([0] ++ rest)) = string :: cStrings rest := by
  induction string with
  | nil => rfl
  | cons char string induction =>
      rw [List.mem_cons, not_or] at noNul
      rw [List.cons_append, cStrings, if_neg (Ne.symm noNul.1), induction noNul.2]

/-! ## Names -/

def xattrNames (pairs : List SqfsXattr) : List UInt8 :=
  pairs.flatMap fun pair => cString pair.key ++ [0]

theorem xattrNames_cons (pair : SqfsXattr) (pairs : List SqfsXattr) :
    xattrNames (pair :: pairs) = cString pair.key ++ [0] ++ xattrNames pairs :=
  List.flatMap_cons

private theorem cStrings_xattrNames (pairs : List SqfsXattr) :
    cStrings (xattrNames pairs) = pairs.map fun pair => cString pair.key := by
  induction pairs with
  | nil => rfl
  | cons pair pairs induction =>
      rw [xattrNames_cons, List.append_assoc, cStrings_append _ (cString_noNul pair.key),
        induction, List.map_cons]

theorem xattrNames_cons_length (pair : SqfsXattr) (pairs : List SqfsXattr) :
    (xattrNames (pair :: pairs)).length = strlen pair.key + 1 + (xattrNames pairs).length := by
  rw [xattrNames_cons, List.length_append, List.length_append, List.length_singleton, strlen]

private theorem namesSize_eq {pairs : List SqfsXattr} (small : (xattrNames pairs).length < 2 ^ 64) :
    namesSize pairs = (xattrNames pairs).length := by
  have loop (total : Nat) (fits : total + (xattrNames pairs).length < 2 ^ 64) :
      pairs.foldl (fun totalSize pair => u64 (totalSize + u64 (strlen pair.key + 1))) total =
        total + (xattrNames pairs).length := by
    clear small
    induction pairs generalizing total with
    | nil => rfl
    | cons pair pairs induction =>
        rw [xattrNames_cons_length] at fits ⊢
        rw [List.foldl_cons, u64_of_lt (show strlen pair.key + 1 < 2 ^ 64 by omega),
          u64_of_lt (by omega), induction _ (by omega)]
        omega
  rw [namesSize, loop 0 (by omega), Nat.zero_add]

private theorem copyNames_eq {pairs : List SqfsXattr} {pos : Nat} {list : List Cell}
    (fits : pos + (xattrNames pairs).length ≤ list.length)
    (small : (xattrNames pairs).length < 2 ^ 64) :
    copyNames pairs pos list = some (list.take pos ++ (xattrNames pairs).map some ++
      list.drop (pos + (xattrNames pairs).length)) := by
  induction pairs generalizing pos list with
  | nil =>
      rw [copyNames]
      simp [xattrNames]
  | cons pair pairs induction =>
      rw [xattrNames_cons_length] at fits small
      have length : (cString pair.key ++ [0]).length = strlen pair.key + 1 := by
        rw [List.length_append, List.length_singleton, strlen]
      have front : (list.take pos).length = pos := by
        rw [List.length_take]
        omega
      have copied : memcpy list pos (cString pair.key ++ [0]) =
          some (list.take pos ++ (cString pair.key ++ [0]).map some ++
            list.drop (pos + (cString pair.key ++ [0]).length)) :=
        if_pos (by omega)
      have step : ((list.take pos ++ (cString pair.key ++ [0]).map some).length) =
          pos + (strlen pair.key + 1) := by
        rw [List.length_append, List.length_map, length, front]
      have placed := @induction (pos + (strlen pair.key + 1))
        (list.take pos ++ (cString pair.key ++ [0]).map some ++
          list.drop (pos + (cString pair.key ++ [0]).length))
        (by rw [List.length_append, step, List.length_drop, length]; omega) (by omega)
      rw [← step, List.take_left, List.drop_length_add_append, List.drop_drop, step,
        length] at placed
      rw [copyNames, u64_of_lt (by omega), take_strlen, copied, Option.bind_eq_bind,
        Option.bind_some, length, placed, xattrNames_cons, List.length_append, length]
      simp only [List.map_append, List.append_assoc, Nat.add_assoc]

/-! ## The size of what is parsed -/

private theorem SqfsXattrPrefix.str_length_le (kind : SqfsXattrPrefix) : kind.str.length ≤ 9 := by
  cases kind <;> decide

section Parsed

variable {data : List UInt8} {remaining : Nat}

private theorem fillXattrPairs_key_le {pairCount pos : Nat} {pairs : List SqfsXattr}
    (filled : fillXattrPairs data remaining pairCount pos = .ok pairs) :
    ∀ pair ∈ pairs, pair.key.length ≤ 9 + data.length := by
  induction pairCount generalizing pos pairs with
  | zero =>
      cases filled
      intro pair member
      cases member
  | succ pairCount induction =>
      unfold fillXattrPairs at filled
      split at filled
      · rcases Outcome.bind_eq_ok.mp filled with ⟨type, -, filled⟩
        rcases Outcome.bind_eq_ok.mp filled with ⟨nameSize, -, filled⟩
        cases known : SqfsXattrPrefix.ofType type with
        | none =>
            rw [known] at filled
            cases filled
        | some kind =>
            rw [known] at filled
            rcases Outcome.bind_eq_ok.mp filled with ⟨name, sliced, filled⟩
            rcases Outcome.bind_eq_ok.mp filled with ⟨valueSize, -, filled⟩
            rcases Outcome.bind_eq_ok.mp filled with ⟨value, -, filled⟩
            rcases Outcome.bind_eq_ok.mp filled with ⟨others, following, equal⟩
            cases equal
            intro pair member
            cases List.mem_cons.mp member with
            | inl first =>
                have fits := slice_eq_some.mp (Outcome.ofOption_eq_ok.mp sliced)
                have name := slice_length (Outcome.ofOption_eq_ok.mp sliced)
                have kindLength := kind.str_length_le
                rw [first, List.length_append, name]
                omega
            | inr later => exact induction following pair later
      · cases filled

private theorem countXattrPairs_le_fuel {fuel pos count : Nat}
    (counted : countXattrPairs data remaining fuel pos = .ok count) : count ≤ fuel := by
  induction fuel generalizing pos count with
  | zero =>
      unfold countXattrPairs at counted
      split at counted
      · cases counted
      · cases counted
        exact Nat.le_refl 0
  | succ fuel induction =>
      unfold countXattrPairs at counted
      split at counted
      · rcases Outcome.bind_eq_ok.mp counted with ⟨type, -, counted⟩
        rcases Outcome.bind_eq_ok.mp counted with ⟨nameSize, -, counted⟩
        cases known : SqfsXattrPrefix.ofType type with
        | none =>
            rw [known] at counted
            cases counted
        | some kind =>
            rw [known] at counted
            dsimp only at counted
            split at counted
            · cases counted
            · rcases Outcome.bind_eq_ok.mp counted with ⟨valueSize, -, counted⟩
              split at counted
              · cases counted
              · rcases Outcome.bind_eq_ok.mp counted with ⟨others, following, equal⟩
                cases equal
                exact Nat.succ_le_succ (induction following)
      · cases counted
        exact Nat.zero_le _

end Parsed

private theorem xattrNames_length_le {pairs : List SqfsXattr} {bound : Nat}
    (short : ∀ pair ∈ pairs, pair.key.length ≤ bound) :
    (xattrNames pairs).length ≤ pairs.length * (bound + 1) := by
  induction pairs with
  | nil => exact Nat.zero_le _
  | cons pair pairs induction =>
      have first := short pair List.mem_cons_self
      have cut : strlen pair.key ≤ pair.key.length := (List.takeWhile_sublist _).length_le
      have rest := induction fun other member => short other (List.mem_cons_of_mem _ member)
      rw [xattrNames_cons_length, List.length_cons, Nat.succ_mul]
      omega

private theorem xattrNames_lt {ctx : SqfsCtx} {ref : Nat} {pairs : List SqfsXattr}
    (parsed : readXattrPairs ctx ref = .ok pairs) : (xattrNames pairs).length < 2 ^ 64 := by
  rcases Outcome.bind_eq_ok.mp parsed with ⟨table, attached, parsed⟩
  rcases Outcome.bind_eq_ok.mp parsed with ⟨block, read, parsed⟩
  have size : block.length ≤ 8192 := readMetadataBlockInternal_length read
  rcases Outcome.bind_eq_ok.mp parsed with ⟨pairCount, counted, filled⟩
  have data : (block.drop (sqfsMetaRefOffset ref)).length ≤ 8192 := by
    rw [List.length_drop]
    omega
  have few := countXattrPairs_le_fuel counted
  split at filled
  · cases filled
    decide
  · have short := fillXattrPairs_key_le filled
    have number := fillXattrPairs_length filled
    have bound := xattrNames_length_le short
    have product : pairs.length * (9 + (block.drop (sqfsMetaRefOffset ref)).length + 1) ≤
        8192 * 8202 := Nat.mul_le_mul (by omega) (by omega)
    omega

/-! ## Requests -/

/-- How a reply reaches the caller. What is written stands at the start of the buffer. -/
def XattrReply.answer (buffer : Option (List Cell)) : XattrReply → Option XattrAnswer
  | .fault => none
  | .err (code, outSize) => some { error := some code, outSize, buffer }
  | .ok (outSize, bytes) =>
      some {
        error := none
        outSize
        buffer := buffer.map fun cells => bytes.map some ++ cells.drop bytes.length }

section Requests

variable {ctx : SqfsCtx} {xattrIdx : Nat}

private theorem memcpy_front {buffer : List Cell} {bytes : List UInt8}
    (fits : bytes.length ≤ buffer.length) :
    memcpy buffer 0 bytes = some (bytes.map some ++ buffer.drop bytes.length) := by
  rw [memcpy, Nat.zero_add, if_pos fits, List.take_zero, List.nil_append]

private theorem searchPairs_eq (name : List UInt8) (value : Option (List Cell))
    (pairs : List SqfsXattr) :
    searchPairs name value pairs =
      XattrReply.answer value
        (match pairs.find? fun pair => cString pair.key == cString name with
        | none => .err (.notFound, 0)
        | some pair => replyWithBytes pair.value (value.map List.length)) := by
  induction pairs with
  | nil => rfl
  | cons pair pairs induction =>
      rw [searchPairs]
      by_cases same : strcmpEqual pair.key name = true
      · have found : (pair :: pairs).find? (fun pair => cString pair.key == cString name) =
            some pair := List.find?_cons_of_pos same
        rw [if_pos same, found]
        cases value with
        | none => rfl
        | some buffer =>
            dsimp only [Option.map_some, replyWithBytes]
            split
            · rfl
            · rw [memcpy_front (by omega)]
              rfl
      · have passed : (pair :: pairs).find? (fun pair => cString pair.key == cString name) =
            pairs.find? (fun pair => cString pair.key == cString name) :=
          List.find?_cons_of_neg same
        rw [if_neg same, passed, induction]

/-- `sqfs_xattr_get` with a buffer does what the reply says. -/
theorem sqfsXattrGetInto_eq (name : List UInt8) (value : Option (List Cell)) :
    sqfsXattrGetInto ctx xattrIdx name value =
      XattrReply.answer value
        (sqfsXattrGet ctx xattrIdx (cString name) (value.map List.length)) := by
  rw [sqfsXattrGetInto, sqfsXattrGet]
  cases ctx.xattrTable.filter SqfsXattrTable.loaded with
  | none => rfl
  | some table =>
      dsimp only
      split
      · rfl
      · rw [xattrPairsOfIdx]
        cases table.entries[xattrIdx]? with
        | none => rfl
        | some entry =>
            dsimp only
            cases readXattrPairs ctx entry.xattrRef with
            | fault => rfl
            | err code => rfl
            | ok pairs => exact searchPairs_eq name value pairs

private theorem listPairs_eq {pairs : List SqfsXattr} (list : Option (List Cell))
    (small : (xattrNames pairs).length < 2 ^ 64) :
    listPairs pairs list =
      XattrReply.answer list (replyWithBytes (xattrNames pairs) (list.map List.length)) := by
  unfold listPairs
  rw [namesSize_eq small]
  cases list with
  | none => rfl
  | some buffer =>
      dsimp only [Option.map_some, replyWithBytes]
      split
      · rfl
      · rw [copyNames_eq (by omega) small, List.take_zero, List.nil_append, Nat.zero_add]
        rfl

/-- `sqfs_xattr_list` with a buffer does what the reply says. -/
theorem sqfsXattrListInto_eq (list : Option (List Cell)) :
    sqfsXattrListInto ctx xattrIdx list =
      XattrReply.answer list (sqfsXattrList ctx xattrIdx (list.map List.length)) := by
  rw [sqfsXattrListInto, sqfsXattrList]
  cases ctx.xattrTable.filter SqfsXattrTable.loaded with
  | none => rfl
  | some table =>
      dsimp only
      split
      · cases list <;> rfl
      · rw [xattrPairsOfIdx]
        cases table.entries[xattrIdx]? with
        | none => rfl
        | some entry =>
            dsimp only
            cases parsed : readXattrPairs ctx entry.xattrRef with
            | fault => rfl
            | err code => rfl
            | ok pairs => exact listPairs_eq list (xattrNames_lt parsed)

end Requests

/-! ## The size protocol -/

/-- A null pointer asks for the size of the bytes, a buffer with room for them takes them, and
a smaller one is left as it is. -/
structure SizeProtocol (call : Option (List Cell) → Option XattrAnswer)
    (bytes : List UInt8) : Prop where
  asked : call none = some { error := none, outSize := bytes.length, buffer := none }
  served : ∀ buffer : List Cell, bytes.length ≤ buffer.length → call (some buffer) =
    some {
      error := none
      outSize := bytes.length
      buffer := some (bytes.map some ++ buffer.drop bytes.length) }
  refused : ∀ buffer : List Cell, buffer.length < bytes.length → call (some buffer) =
    some { error := some .overflow, outSize := bytes.length, buffer := some buffer }

private theorem sizeProtocol_of_reply {call : Option (List Cell) → Option XattrAnswer}
    {bytes : List UInt8} (replies : ∀ buffer, call buffer =
      XattrReply.answer buffer (replyWithBytes bytes (buffer.map List.length))) :
    SizeProtocol call bytes := by
  constructor
  · rw [replies]
    rfl
  · intro buffer room
    rw [replies, Option.map_some, replyWithBytes, if_neg (by omega)]
    rfl
  · intro buffer tooSmall
    rw [replies, Option.map_some, replyWithBytes, if_pos tooSmall]
    rfl

/-- What `sqfs_xattr_list` writes and what `sqfs_xattr_get` finds are the same names, and
every request follows the size protocol. -/
structure ListAndGetAgree (ctx : SqfsCtx) (xattrIdx : Nat) (pairs : List SqfsXattr)
    (written : List UInt8) : Prop where
  listed : SizeProtocol (sqfsXattrListInto ctx xattrIdx) written
  found : ∀ name, cString name ∈ cStrings written → ∃ pair,
    pairs.find? (fun pair => strcmpEqual pair.key name) = some pair ∧
      SizeProtocol (sqfsXattrGetInto ctx xattrIdx name) pair.value
  onlyListed : ∀ name value answer, sqfsXattrGetInto ctx xattrIdx name value = some answer →
    answer.error ≠ some .notFound → cString name ∈ cStrings written

/-- Listing and getting attributes agree. -/
theorem sqfsXattrList_agrees_sqfsXattrGet (ctx : SqfsCtx) (table : SqfsXattrTable)
    (attached : ctx.xattrTable = some table) (loaded : table.loaded = true) (xattrIdx : Nat)
    (valid : xattrIdx ≠ sqfsXattrInvalidIdx) (pairs : List SqfsXattr)
    (parses : xattrPairsOfIdx ctx table xattrIdx = .ok pairs) :
    ∃ written, ListAndGetAgree ctx xattrIdx pairs written := by
  have ready : ctx.xattrTable.filter SqfsXattrTable.loaded = some table := by
    rw [attached, Option.filter_some, if_pos loaded]
  have list (size : Option Nat) : sqfsXattrList ctx xattrIdx size =
      replyWithBytes (xattrNames pairs) size := by
    rw [sqfsXattrList, ready]
    dsimp only
    rw [if_neg valid, parses]
    rfl
  have get (name : List UInt8) (size : Option Nat) : sqfsXattrGet ctx xattrIdx name size =
      match pairs.find? fun pair => cString pair.key == name with
      | none => .err (.notFound, 0)
      | some pair => replyWithBytes pair.value size := by
    rw [sqfsXattrGet, ready]
    dsimp only
    rw [if_neg valid, parses]
    rfl
  refine ⟨xattrNames pairs, ?_, ?_, ?_⟩
  · apply sizeProtocol_of_reply
    intro buffer
    rw [sqfsXattrListInto_eq, list]
  · intro name member
    rw [cStrings_xattrNames] at member
    rcases List.mem_map.mp member with ⟨other, otherMember, same⟩
    have present : (pairs.find? fun pair => strcmpEqual pair.key name).isSome = true := by
      rw [List.find?_isSome]
      exact ⟨other, otherMember, beq_iff_eq.mpr same⟩
    rcases Option.isSome_iff_exists.mp present with ⟨pair, first⟩
    refine ⟨pair, first, ?_⟩
    apply sizeProtocol_of_reply
    intro buffer
    have sought : pairs.find? (fun pair => cString pair.key == cString name) = some pair := first
    rw [sqfsXattrGetInto_eq, get, sought]
  · intro name value answer answered present
    rw [sqfsXattrGetInto_eq, get] at answered
    cases sought : pairs.find? (fun pair => cString pair.key == cString name) with
    | none =>
        rw [sought] at answered
        cases answered
        exact absurd rfl present
    | some pair =>
        have same : (cString pair.key == cString name) = true := by
          have holds := List.find?_some sought
          exact holds
        rw [cStrings_xattrNames]
        exact List.mem_map.mpr ⟨pair, List.mem_of_find?_eq_some sought, beq_iff_eq.mp same⟩

/-- Both attributes of the block are listed and found. -/
theorem sqfsXattrList_agrees_sqfsXattrGet_both :
    ∃ written, ListAndGetAgree twoSetsCtx 0 [firstPair.parsed, secondPair.parsed] written :=
  sqfsXattrList_agrees_sqfsXattrGet twoSetsCtx twoSets rfl rfl 0 (by decide)
    [firstPair.parsed, secondPair.parsed] (by decide +kernel)

end SquashfsFuse
