import SquashfsFuse.Foundation.Json

/-! JSON objects with objects in them: the bytes, and what they stand for. -/

namespace SquashfsFuse

inductive JsonTree
  | scalar (value : JsonScalar)
  | object (members : List (List UInt8 × JsonTree))

/-! ## Reading -/

def readJsonName : List UInt8 → Option (List UInt8 × List UInt8)
  | 0x22 :: rest => do
      let (name, rest) ← readJsonString rest
      match rest with
      | 0x3a :: rest => some (name, rest)
      | _ => none
  | _ => none

def readJsonTreeValue (readMembers : List UInt8 →
    Option (List (List UInt8 × JsonTree) × List UInt8)) :
    List UInt8 → Option (JsonTree × List UInt8)
  | 0x7b :: rest => (readMembers rest).map fun read => (.object read.1, read.2)
  | bytes => (readJsonValue bytes).map fun read => (.scalar read.1, read.2)

def readJsonTreeMembers : (fuel : Nat) → List UInt8 →
    Option (List (List UInt8 × JsonTree) × List UInt8)
  | 0, _ => none
  | fuel + 1, bytes => do
      let (name, rest) ← readJsonName bytes
      let (value, rest) ← readJsonTreeValue (readJsonTreeMembers fuel) rest
      match rest with
      | 0x2c :: rest =>
          (readJsonTreeMembers fuel rest).map fun read => ((name, value) :: read.1, read.2)
      | 0x7d :: rest => some ([(name, value)], rest)
      | _ => none

def readJsonTree : List UInt8 → Option (List (List UInt8 × JsonTree) × List UInt8)
  | 0x7b :: rest => readJsonTreeMembers rest.length rest
  | _ => none

/-! ## Printing -/

/-- The bytes of a value. The bytes of the members of an object have the brace behind them. -/
inductive JsonTreeValue (Members : List UInt8 → List (List UInt8 × JsonTree) → Prop) :
    List UInt8 → JsonTree → Prop
  | scalar {bytes value} : JsonValue bytes value → JsonTreeValue Members bytes (.scalar value)
  | object {bytes members} : Members bytes members →
      JsonTreeValue Members (0x7b :: bytes) (.object members)

inductive JsonTreeMembers : List UInt8 → List (List UInt8 × JsonTree) → Prop
  | last {nameBody name valueBytes value} : JsonBody nameBody name →
      JsonTreeValue JsonTreeMembers valueBytes value →
      JsonTreeMembers (0x22 :: (nameBody ++ 0x22 :: 0x3a :: (valueBytes ++ [0x7d])))
        [(name, value)]
  | cons {nameBody name valueBytes value bytes members} : JsonBody nameBody name →
      JsonTreeValue JsonTreeMembers valueBytes value → JsonTreeMembers bytes members →
      JsonTreeMembers (0x22 :: (nameBody ++ 0x22 :: 0x3a :: (valueBytes ++ 0x2c :: bytes)))
        ((name, value) :: members)

section Trees

variable {nameBody name valueBytes bytes : List UInt8} {scalar : JsonScalar}
  {members : List (List UInt8 × JsonTree)}

theorem readJsonName_of_body (named : JsonBody nameBody name) (rest : List UInt8) :
    readJsonName (0x22 :: (nameBody ++ 0x22 :: 0x3a :: rest)) = some (name, rest) := by
  rw [readJsonName, named.reads]
  rfl

theorem JsonValue.ne_brace (printed : JsonValue valueBytes scalar) :
    ∃ first others, valueBytes = first :: others ∧ first ≠ 0x7b := by
  cases printed with
  | text => exact ⟨_, _, rfl, by decide⟩
  | negative => exact ⟨_, _, rfl, by decide⟩
  | number some_ all =>
      cases valueBytes with
      | nil => exact absurd rfl some_
      | cons digit others =>
          refine ⟨digit, others, rfl, ?_⟩
          rintro rfl
          cases all 0x7b List.mem_cons_self

/-- Members are read as what they are, and nothing behind the brace is looked at. The fuel
bounds the bytes, and with them the members and how deep they lie. -/
theorem JsonTreeMembers.reads (fuel : Nat) (printed : JsonTreeMembers bytes members)
    (enough : bytes.length ≤ fuel) (rest : List UInt8) :
    readJsonTreeMembers fuel (bytes ++ rest) = some (members, rest) := by
  induction fuel generalizing bytes members rest with
  | zero => cases printed <;> cases enough
  | succ fuel induction =>
      have reads {valueBytes : List UInt8} {value : JsonTree} {next : UInt8}
          (printed : JsonTreeValue JsonTreeMembers valueBytes value)
          (shorter : valueBytes.length ≤ fuel + 1) (ends : isDigit next = false)
          (rest : List UInt8) :
          readJsonTreeValue (readJsonTreeMembers fuel) (valueBytes ++ next :: rest) =
            some (value, next :: rest) := by
        cases printed with
        | object inner =>
            rw [List.cons_append, readJsonTreeValue,
              induction inner (Nat.le_of_succ_le_succ shorter)]
            rfl
        | scalar inner =>
            have read := inner.reads ends rest
            rcases inner.ne_brace with ⟨first, others, rfl, notBrace⟩
            rw [List.cons_append] at read ⊢
            rw [readJsonTreeValue.eq_2 _ _ (by simp [notBrace]), read]
            rfl
      cases printed with
      | last named printed =>
          simp only [List.length_cons, List.length_append] at enough
          have value := reads printed (by omega) (by rfl : isDigit 0x7d = false) rest
          have named := readJsonName_of_body named
          simp only [List.cons_append, List.append_assoc, List.nil_append, readJsonTreeMembers,
            named, Option.bind_eq_bind, Option.bind_some, value]
      | @cons _ _ _ _ others members named printed behind =>
          simp only [List.length_cons, List.length_append] at enough
          have value := reads printed (by omega) (by rfl : isDigit 0x2c = false) (others ++ rest)
          have named := readJsonName_of_body named
          simp only [List.cons_append, List.append_assoc, readJsonTreeMembers, named,
            Option.bind_eq_bind, Option.bind_some, value, induction behind (by omega),
            Option.map_some]

theorem JsonTreeMembers.reads_tree (printed : JsonTreeMembers bytes members)
    (rest : List UInt8) : readJsonTree (0x7b :: (bytes ++ rest)) = some (members, rest) := by
  rw [readJsonTree]
  exact printed.reads _ (by rw [List.length_append]; omega) rest

theorem JsonMembers.tree {scalars : List (List UInt8 × JsonScalar)}
    (printed : JsonMembers bytes scalars) :
    JsonTreeMembers bytes (scalars.map fun member => (member.1, .scalar member.2)) := by
  induction printed with
  | last named printed => exact .last named (.scalar printed)
  | cons named printed _ induction => exact .cons named (.scalar printed) induction

def numberMember (member : List UInt8 × Nat) : List UInt8 × JsonTree :=
  (member.1, .scalar (.number member.2))

def numberMembers (first : List UInt8 × Nat) : List (List UInt8 × Nat) → List UInt8
  | [] => 0x22 :: (first.1 ++ 0x22 :: 0x3a :: (decimal first.2 ++ [0x7d]))
  | next :: others =>
      0x22 :: (first.1 ++ 0x22 :: 0x3a :: (decimal first.2 ++ 0x2c :: numberMembers next others))

theorem jsonValue_decimal (number : Nat) : JsonValue (decimal number) (.number number) := by
  have value := JsonValue.number (decimal_ne_nil number) (isDigit_decimal number)
  rw [decimalValue_decimal] at value
  exact value

theorem JsonTreeMembers.numbers (first : List UInt8 × Nat) (others : List (List UInt8 × Nat))
    (plain : ∀ member ∈ first :: others, PlainText member.1) :
    JsonTreeMembers (numberMembers first others) ((first :: others).map numberMember) := by
  induction others generalizing first with
  | nil =>
      rcases List.forall_mem_cons.mp plain with ⟨firstPlain, -⟩
      exact .last (.of_plain firstPlain) (.scalar (jsonValue_decimal first.2))
  | cons next others induction =>
      rcases List.forall_mem_cons.mp plain with ⟨firstPlain, othersPlain⟩
      exact .cons (.of_plain firstPlain) (.scalar (jsonValue_decimal first.2))
        (induction next othersPlain)

theorem JsonValue.printable (printed : JsonValue valueBytes scalar) :
    ∀ byte ∈ valueBytes, 0x20 ≤ byte := by
  have digit {byte : UInt8} (isDigit : isDigit byte = true) : 0x20 ≤ byte :=
    UInt8.le_trans (by decide) (of_decide_eq_true (Bool.and_eq_true_iff.mp isDigit).1)
  intro byte member
  cases printed with
  | text stands =>
      rcases List.mem_cons.mp member with rfl | member
      · decide
      rcases List.mem_append.mp member with inside | last
      · exact stands.printable byte inside
      · rw [List.mem_singleton.mp last]
        decide
  | number _ all => exact digit (all byte member)
  | negative _ all =>
      rcases List.mem_cons.mp member with rfl | member
      · decide
      · exact digit (all byte member)

theorem JsonTreeMembers.printable (length : Nat) (printed : JsonTreeMembers bytes members)
    (short : bytes.length ≤ length) : ∀ byte ∈ bytes, 0x20 ≤ byte := by
  induction length generalizing bytes members with
  | zero => cases printed <;> cases short
  | succ length induction =>
      have inValue {valueBytes : List UInt8} {value : JsonTree}
          (printed : JsonTreeValue JsonTreeMembers valueBytes value)
          (shorter : valueBytes.length ≤ length + 1) : ∀ byte ∈ valueBytes, 0x20 ≤ byte := by
        cases printed with
        | object inner =>
            exact List.forall_mem_cons.mpr
              ⟨by decide, induction inner (Nat.le_of_succ_le_succ shorter)⟩
        | scalar inner => exact inner.printable
      cases printed with
      | last named printed =>
          simp only [List.length_cons, List.length_append] at short
          simp only [List.forall_mem_cons, List.forall_mem_append]
          exact ⟨by decide, named.printable, by decide, by decide, inValue printed (by omega),
            by decide, List.forall_mem_nil _⟩
      | cons named printed behind =>
          simp only [List.length_cons, List.length_append] at short
          simp only [List.forall_mem_cons, List.forall_mem_append]
          exact ⟨by decide, named.printable, by decide, by decide, inValue printed (by omega),
            by decide, induction behind (by omega)⟩

end Trees

end SquashfsFuse
