import Mathlib.Tactic.Basic

/-! JSON strings and objects of scalars: the bytes, and what they stand for. -/

namespace SquashfsFuse

/-! ## Escape sequences -/

def hexValue (digit : UInt8) : Option Nat :=
  if 0x30 ≤ digit ∧ digit ≤ 0x39 then
    some (digit.toNat - 0x30)
  else if 0x61 ≤ digit ∧ digit ≤ 0x66 then
    some (digit.toNat - 0x57)
  else if 0x41 ≤ digit ∧ digit ≤ 0x46 then
    some (digit.toNat - 0x37)
  else
    none

def utf8OfCode (code : Nat) : Option (List UInt8) :=
  if code < 0x80 then
    some [UInt8.ofNat code]
  else if code < 0x800 then
    some [UInt8.ofNat (0xc0 + code / 64), UInt8.ofNat (0x80 + code % 64)]
  else if 0xd800 ≤ code ∧ code < 0xe000 then
    none
  else
    some [UInt8.ofNat (0xe0 + code / 4096), UInt8.ofNat (0x80 + code / 64 % 64),
      UInt8.ofNat (0x80 + code % 64)]

/-- What `\u` and four digits stand for. Halves of surrogate pairs stand for nothing. -/
def unicodeMeaning (first second third fourth : UInt8) : Option (List UInt8) := do
  let first ← hexValue first
  let second ← hexValue second
  let third ← hexValue third
  let fourth ← hexValue fourth
  utf8OfCode (((first * 16 + second) * 16 + third) * 16 + fourth)

def escapeMeaning : UInt8 → Option UInt8
  | 0x22 => some 0x22
  | 0x5c => some 0x5c
  | 0x2f => some 0x2f
  | 0x62 => some 0x08
  | 0x66 => some 0x0c
  | 0x6e => some 0x0a
  | 0x72 => some 0x0d
  | 0x74 => some 0x09
  | _ => none

/-- The body of a JSON string, and the text it stands for. Control characters, quotes and
backslashes do not stand for themselves. -/
inductive JsonBody : List UInt8 → List UInt8 → Prop
  | nil : JsonBody [] []
  | plain {byte body text} : 0x20 ≤ byte → byte ≠ 0x22 → byte ≠ 0x5c → JsonBody body text →
      JsonBody (byte :: body) (byte :: text)
  | short {letter byte body text} : escapeMeaning letter = some byte → JsonBody body text →
      JsonBody (0x5c :: letter :: body) (byte :: text)
  | unicode {first second third fourth bytes body text} :
      unicodeMeaning first second third fourth = some bytes → JsonBody body text →
      JsonBody (0x5c :: 0x75 :: first :: second :: third :: fourth :: body) (bytes ++ text)

def PlainText (text : List UInt8) : Prop :=
  ∀ byte ∈ text, 0x20 ≤ byte ∧ byte ≠ 0x22 ∧ byte ≠ 0x5c

instance (text : List UInt8) : Decidable (PlainText text) :=
  inferInstanceAs (Decidable (∀ byte ∈ text, 0x20 ≤ byte ∧ byte ≠ 0x22 ∧ byte ≠ 0x5c))

/-! ## Reading -/

/-- Read a JSON string behind its opening quote: the text, and the bytes behind the closing
quote. -/
def readJsonString : List UInt8 → Option (List UInt8 × List UInt8)
  | [] => none
  | 0x22 :: rest => some ([], rest)
  | 0x5c :: 0x75 :: first :: second :: third :: fourth :: rest => do
      let bytes ← unicodeMeaning first second third fourth
      let (text, rest) ← readJsonString rest
      some (bytes ++ text, rest)
  | 0x5c :: letter :: rest => do
      let byte ← escapeMeaning letter
      let (text, rest) ← readJsonString rest
      some (byte :: text, rest)
  | [0x5c] => none
  | byte :: rest =>
      if byte < 0x20 then
        none
      else do
        let (text, rest) ← readJsonString rest
        some (byte :: text, rest)

section Bodies

variable {body text other otherText rest : List UInt8} {byte letter : UInt8}

theorem readJsonString_plain (printable : 0x20 ≤ byte) (quote : byte ≠ 0x22)
    (backslash : byte ≠ 0x5c) (rest : List UInt8) :
    readJsonString (byte :: rest) =
      (readJsonString rest).map fun read => (byte :: read.1, read.2) := by
  have control : ¬ byte < 0x20 := UInt8.not_lt.mpr printable
  rw [readJsonString.eq_6 byte rest quote (fun _ _ _ _ _ same _ => backslash same)
    (fun _ _ same _ => backslash same) (fun same _ => backslash same), if_neg control]
  cases readJsonString rest <;> rfl

theorem readJsonString_short (meaning : escapeMeaning letter = some byte) (rest : List UInt8) :
    readJsonString (0x5c :: letter :: rest) =
      (readJsonString rest).map fun read => (byte :: read.1, read.2) := by
  have notUnicode : letter ≠ 0x75 := by
    rintro rfl
    cases meaning
  rw [readJsonString.eq_4 letter rest (fun _ _ _ _ _ same _ => notUnicode same), meaning]
  cases readJsonString rest <;> rfl

/-- A body in front of the closing quote is read as what it stands for, and nothing behind
the quote is looked at. -/
theorem JsonBody.reads (stands : JsonBody body text) (rest : List UInt8) :
    readJsonString (body ++ 0x22 :: rest) = some (text, rest) := by
  induction stands with
  | nil => rfl
  | plain printable quote backslash _ induction =>
      rw [List.cons_append, readJsonString_plain printable quote backslash, induction,
        Option.map_some]
  | short meaning _ induction =>
      rw [List.cons_append, List.cons_append, readJsonString_short meaning, induction,
        Option.map_some]
  | @unicode first second third fourth bytes body text meaning _ induction =>
      change readJsonString (0x5c :: 0x75 :: first :: second :: third :: fourth ::
        (body ++ 0x22 :: rest)) = some (bytes ++ text, rest)
      rw [readJsonString, meaning, induction]
      rfl

theorem escapeMeaning_printable (meaning : escapeMeaning letter = some byte) :
    0x20 ≤ letter := by
  unfold escapeMeaning at meaning
  split at meaning <;> first | decide | cases meaning

theorem hexValue_printable {digit : UInt8} {value : Nat} (read : hexValue digit = some value) :
    0x20 ≤ digit := by
  unfold hexValue at read
  split at read
  · next decimal => exact UInt8.le_trans (by decide) decimal.1
  · split at read
    · next lower => exact UInt8.le_trans (by decide) lower.1
    · split at read
      · next upper => exact UInt8.le_trans (by decide) upper.1
      · cases read

theorem JsonBody.printable (stands : JsonBody body text) : ∀ byte ∈ body, 0x20 ≤ byte := by
  induction stands with
  | nil =>
      intro byte member
      cases member
  | plain printable _ _ _ induction =>
      intro byte member
      rcases List.mem_cons.mp member with rfl | behind
      · exact printable
      · exact induction byte behind
  | short meaning _ induction =>
      intro byte member
      rcases List.mem_cons.mp member with rfl | member
      · decide
      rcases List.mem_cons.mp member with rfl | behind
      · exact escapeMeaning_printable meaning
      · exact induction byte behind
  | unicode meaning _ induction =>
      rcases Option.bind_eq_some_iff.mp meaning with ⟨one, first, meaning⟩
      rcases Option.bind_eq_some_iff.mp meaning with ⟨two, second, meaning⟩
      rcases Option.bind_eq_some_iff.mp meaning with ⟨three, third, meaning⟩
      rcases Option.bind_eq_some_iff.mp meaning with ⟨four, fourth, -⟩
      intro byte member
      rcases List.mem_cons.mp member with rfl | member
      · decide
      rcases List.mem_cons.mp member with rfl | member
      · decide
      rcases List.mem_cons.mp member with rfl | member
      · exact hexValue_printable first
      rcases List.mem_cons.mp member with rfl | member
      · exact hexValue_printable second
      rcases List.mem_cons.mp member with rfl | member
      · exact hexValue_printable third
      rcases List.mem_cons.mp member with rfl | behind
      · exact hexValue_printable fourth
      · exact induction byte behind

theorem JsonBody.append (front : JsonBody body text) (back : JsonBody other otherText) :
    JsonBody (body ++ other) (text ++ otherText) := by
  induction front with
  | nil => exact back
  | plain printable quote backslash _ induction =>
      exact .plain printable quote backslash induction
  | short meaning _ induction => exact .short meaning induction
  | @unicode first second third fourth bytes body text meaning _ induction =>
      rw [List.append_assoc]
      exact .unicode meaning induction

theorem PlainText.append (front : PlainText text) (back : PlainText otherText) :
    PlainText (text ++ otherText) := List.forall_mem_append.mpr ⟨front, back⟩

theorem JsonBody.of_plain (plain : PlainText text) : JsonBody text text := by
  induction text with
  | nil => exact .nil
  | cons byte rest induction =>
      rcases plain byte List.mem_cons_self with ⟨printable, quote, backslash⟩
      exact .plain printable quote backslash
        (induction fun other member => plain other (List.mem_cons_of_mem _ member))

end Bodies

/-! ## Numbers -/

/-- The bytes of a text of ASCII characters. -/
def ascii (text : String) : List UInt8 := text.toList.map Char.toUInt8

def decimal (number : Nat) : List UInt8 := (Nat.toDigits 10 number).map Char.toUInt8

def decimalValue (digits : List UInt8) : Nat :=
  Nat.ofDigitChars 10 (digits.map fun digit => Char.ofNat digit.toNat) 0

def isDigit (byte : UInt8) : Bool := 0x30 ≤ byte && byte ≤ 0x39

theorem isDigit_toUInt8 {char : Char} (digit : char.isDigit = true) :
    isDigit char.toUInt8 = true ∧ Char.ofNat char.toUInt8.toNat = char := by
  have bounds : 48 ≤ char.val ∧ char.val ≤ 57 := by
    simpa [Char.isDigit] using digit
  have low : 48 ≤ char.toNat := bounds.1
  have high : char.toNat ≤ 57 := bounds.2
  have value : char.toUInt8.toNat = char.toNat := by
    change char.toNat % 2 ^ 8 = char.toNat
    omega
  constructor
  · rw [isDigit, Bool.and_eq_true, decide_eq_true_eq, decide_eq_true_eq, UInt8.le_iff_toNat_le,
      UInt8.le_iff_toNat_le, value]
    exact ⟨low, high⟩
  · rw [value, Char.ofNat_toNat]

theorem isDigit_decimal (number : Nat) : ∀ digit ∈ decimal number, isDigit digit = true := by
  intro digit member
  rcases List.mem_map.mp member with ⟨char, printed, rfl⟩
  exact (isDigit_toUInt8 (Nat.isDigit_of_mem_toDigits (by decide) (by decide) printed)).1

theorem decimal_ne_nil (number : Nat) : decimal number ≠ [] := by
  rw [decimal, Ne, List.map_eq_nil_iff]
  exact Nat.toDigits_ne_nil

theorem decimalValue_decimal (number : Nat) : decimalValue (decimal number) = number := by
  have same : (decimal number).map (fun digit => Char.ofNat digit.toNat) =
      Nat.toDigits 10 number := by
    rw [decimal, List.map_map]
    apply (List.map_congr_left _).trans (List.map_id _)
    intro char printed
    exact (isDigit_toUInt8 (Nat.isDigit_of_mem_toDigits (by decide) (by decide) printed)).2
  rw [decimalValue, same, Nat.ofDigitChars_ten_toDigits]

/-! ## Objects -/

inductive JsonScalar
  | text (bytes : List UInt8)
  | number (value : Int)
  deriving Repr, DecidableEq

inductive JsonValue : List UInt8 → JsonScalar → Prop
  | text {body bytes} : JsonBody body bytes → JsonValue (0x22 :: (body ++ [0x22])) (.text bytes)
  | number {digits} : digits ≠ [] → (∀ digit ∈ digits, isDigit digit = true) →
      JsonValue digits (.number (decimalValue digits))
  | negative {digits} : digits ≠ [] → (∀ digit ∈ digits, isDigit digit = true) →
      JsonValue (0x2d :: digits) (.number (-(decimalValue digits)))

def readDecimal (bytes : List UInt8) : Option (Nat × List UInt8) :=
  let digits := bytes.takeWhile isDigit
  if digits = [] then none else some (decimalValue digits, bytes.drop digits.length)

def readJsonValue : List UInt8 → Option (JsonScalar × List UInt8)
  | 0x22 :: rest => (readJsonString rest).map fun read => (.text read.1, read.2)
  | 0x2d :: rest => (readDecimal rest).map fun read => (.number (-read.1), read.2)
  | bytes => (readDecimal bytes).map fun read => (.number read.1, read.2)

def readJsonMember : List UInt8 → Option ((List UInt8 × JsonScalar) × List UInt8)
  | 0x22 :: rest => do
      let (name, rest) ← readJsonString rest
      match rest with
      | 0x3a :: rest => (readJsonValue rest).map fun read => ((name, read.1), read.2)
      | _ => none
  | _ => none

def readJsonMembers : (fuel : Nat) → List UInt8 →
    Option (List (List UInt8 × JsonScalar) × List UInt8)
  | 0, _ => none
  | fuel + 1, bytes => do
      let (member, rest) ← readJsonMember bytes
      match rest with
      | 0x2c :: rest => (readJsonMembers fuel rest).map fun read => (member :: read.1, read.2)
      | 0x7d :: rest => some ([member], rest)
      | _ => none

/-- Read an object: its members, and the bytes behind it. -/
def readJsonObject : List UInt8 → Option (List (List UInt8 × JsonScalar) × List UInt8)
  | 0x7b :: rest => readJsonMembers rest.length rest
  | _ => none

inductive JsonMembers : List UInt8 → List (List UInt8 × JsonScalar) → Prop
  | last {nameBody name valueBytes value} : JsonBody nameBody name →
      JsonValue valueBytes value →
      JsonMembers (0x22 :: (nameBody ++ 0x22 :: 0x3a :: (valueBytes ++ [0x7d])))
        [(name, value)]
  | cons {nameBody name valueBytes value bytes members} : JsonBody nameBody name →
      JsonValue valueBytes value → JsonMembers bytes members →
      JsonMembers (0x22 :: (nameBody ++ 0x22 :: 0x3a :: (valueBytes ++ 0x2c :: bytes)))
        ((name, value) :: members)

section Objects

variable {digits nameBody name valueBytes bytes rest : List UInt8} {value : JsonScalar}
  {next : UInt8} {members : List (List UInt8 × JsonScalar)}

theorem readDecimal_digits (some_ : digits ≠ []) (all : ∀ digit ∈ digits, isDigit digit = true)
    (ends : isDigit next = false) (rest : List UInt8) :
    readDecimal (digits ++ next :: rest) = some (decimalValue digits, next :: rest) := by
  have first : (digits ++ next :: rest).takeWhile isDigit = digits := by
    rw [List.takeWhile_append_of_pos all, List.takeWhile_cons, ends]
    exact List.append_nil digits
  rw [readDecimal, first, if_neg some_, List.drop_left]

theorem JsonValue.reads (printed : JsonValue valueBytes value) (ends : isDigit next = false)
    (rest : List UInt8) :
    readJsonValue (valueBytes ++ next :: rest) = some (value, next :: rest) := by
  cases printed with
  | text stands =>
      rw [List.cons_append, List.append_assoc, List.singleton_append, readJsonValue,
        stands.reads, Option.map_some]
  | negative some_ all =>
      rw [List.cons_append, readJsonValue, readDecimal_digits some_ all ends, Option.map_some]
  | number some_ all =>
      cases valueBytes with
      | nil => exact absurd rfl some_
      | cons digit others =>
          have isDigit := all digit List.mem_cons_self
          have notQuote : digit ≠ 0x22 := by
            rintro rfl
            cases isDigit
          have notMinus : digit ≠ 0x2d := by
            rintro rfl
            cases isDigit
          rw [List.cons_append, readJsonValue.eq_3 _ (by simp [notQuote]) (by simp [notMinus]),
            ← List.cons_append, readDecimal_digits some_ all ends, Option.map_some]

theorem readJsonMember_of_parts (named : JsonBody nameBody name)
    (printed : JsonValue valueBytes value) (ends : isDigit next = false) (rest : List UInt8) :
    readJsonMember (0x22 :: (nameBody ++ 0x22 :: 0x3a :: (valueBytes ++ next :: rest))) =
      some ((name, value), next :: rest) := by
  rw [readJsonMember, named.reads]
  change (readJsonValue (valueBytes ++ next :: rest)).map _ = _
  rw [printed.reads ends, Option.map_some]

theorem JsonMembers.reads (printed : JsonMembers bytes members) :
    ∀ (fuel : Nat) (rest : List UInt8), bytes.length ≤ fuel →
      readJsonMembers fuel (bytes ++ rest) = some (members, rest) := by
  induction printed with
  | last named printed =>
      intro fuel rest enough
      cases fuel with
      | zero => cases enough
      | succ fuel =>
          have member := readJsonMember_of_parts named printed (by rfl : isDigit 0x7d = false)
            rest
          rw [List.cons_append, List.append_assoc, List.cons_append, List.cons_append,
            List.append_assoc, List.singleton_append, readJsonMembers, member]
          rfl
  | @cons nameBody name valueBytes value bytes members named printed _ induction =>
      intro fuel rest enough
      cases fuel with
      | zero => cases enough
      | succ fuel =>
          have member := readJsonMember_of_parts named printed (by rfl : isDigit 0x2c = false)
            (bytes ++ rest)
          have shorter : bytes.length ≤ fuel := by
            simp only [List.length_cons, List.length_append] at enough
            omega
          rw [List.cons_append, List.append_assoc, List.cons_append, List.cons_append,
            List.append_assoc, List.cons_append, readJsonMembers, member]
          change (readJsonMembers fuel (bytes ++ rest)).map _ = _
          rw [induction fuel rest shorter, Option.map_some]

theorem JsonMembers.reads_object (printed : JsonMembers bytes members) (rest : List UInt8) :
    readJsonObject (0x7b :: (bytes ++ rest)) = some (members, rest) := by
  rw [readJsonObject]
  exact printed.reads _ rest (by rw [List.length_append]; omega)

end Objects

end SquashfsFuse
