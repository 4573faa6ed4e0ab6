import SquashfsFuse.Core.Data
import SquashfsFuse.Core.Xattr
import SquashfsFuse.Foundation.Json

/-! Lines of the log file (`log.c`). -/

namespace SquashfsFuse

/-! ## Strings in buffers -/

def readString : List Cell → Sqfs (List UInt8)
  | [] => .fault
  | none :: _ => .fault
  | some byte :: rest =>
      if byte = 0 then
        .ok []
      else do
        let text ← readString rest
        pure (byte :: text)

/-- A string in memory with its NUL, in front of anything. -/
def terminated (text : List UInt8) (behind : List Cell) : List Cell :=
  text.map some ++ some 0 :: behind

theorem readString_terminated (text : List UInt8) (behind : List Cell) :
    readString (terminated text behind) = .ok (cString text) := by
  induction text with
  | nil => rfl
  | cons byte rest induction =>
      change (if byte = 0 then Outcome.ok [] else
        readString (terminated rest behind) >>= fun text => pure (byte :: text)) = _
      rw [cString]
      split
      · next nul => rw [List.takeWhile_cons_of_neg (by simp [nul])]
      · next char =>
          rw [List.takeWhile_cons_of_pos (by simp [char]), ← cString, induction]
          rfl

/-! ## `json_escape_string` -/

def escapedSize (c : UInt8) : Nat :=
  match c with
  | 0x22 | 0x5c | 0x08 | 0x0c | 0x0a | 0x0d | 0x09 => 2
  | _ => if c < 0x20 then 6 else 1

/-- `escaped_len`. No string in memory is long enough for it to wrap. -/
def escapedLen (str : List UInt8) : Nat :=
  str.foldl (fun length c => length + escapedSize c) 0

structure EscapeState where
  escaped : List Cell
  j : Nat
  deriving Repr, DecidableEq

/-- `escaped[j++] = byte`. -/
def EscapeState.put (state : EscapeState) (byte : UInt8) : Sqfs EscapeState :=
  if state.j < state.escaped.length then
    .ok ⟨state.escaped.set state.j (some byte), state.j + 1⟩
  else
    .fault

def EscapeState.puts (state : EscapeState) (bytes : List UInt8) : Sqfs EscapeState :=
  bytes.foldlM EscapeState.put state

/-- A digit of `%x`. -/
def hexDigit (value : UInt8) : UInt8 :=
  if value < 10 then 0x30 + value else 0x57 + value

/-- The format `\u%04x` of a character. -/
def unicodeEscape (c : UInt8) : List UInt8 :=
  [0x5c, 0x75, 0x30, 0x30, hexDigit (c / 16), hexDigit (c % 16)]

/-- The switch of the second pass. `sprintf` returns what it prints without the NUL that it
writes behind. -/
def escapeInto (state : EscapeState) (c : UInt8) : Sqfs EscapeState :=
  match c with
  | 0x22 => state.puts [0x5c, 0x22]
  | 0x5c => state.puts [0x5c, 0x5c]
  | 0x08 => state.puts [0x5c, 0x62]
  | 0x0c => state.puts [0x5c, 0x66]
  | 0x0a => state.puts [0x5c, 0x6e]
  | 0x0d => state.puts [0x5c, 0x72]
  | 0x09 => state.puts [0x5c, 0x74]
  | _ =>
      if c < 0x20 then do
        let printed ← state.puts (unicodeEscape c ++ [0])
        pure { printed with j := state.j + (unicodeEscape c).length }
      else
        state.put c

/-- `json_escape_string`: the buffer it returns, which is null without a string or without
memory. -/
def jsonEscapeString (allocates : Bool) (str : Option (List Cell)) :
    Sqfs (Option (List Cell)) :=
  match str with
  | none => .ok none
  | some str => do
      let text ← readString str
      if allocates then
        let buffer := List.replicate (escapedLen text + 1) none
        let state ← text.foldlM escapeInto ⟨buffer, 0⟩
        let state ← state.put 0
        pure (some state.escaped)
      else
        pure none

/-! ## `sqfs_log` -/

inductive SqfsLogLevel
  | error
  | warn
  | info
  | debug
  deriving Repr, DecidableEq

/-- `level_names`. -/
def SqfsLogLevel.name : SqfsLogLevel → List UInt8
  | error => ascii "ERROR"
  | warn => ascii "WARN"
  | info => ascii "INFO"
  | debug => ascii "DEBUG"

inductive SqfsModule
  | superblock
  | inode
  | directory
  | data
  | fragment
  | compressor
  | cache
  | xattr
  | fuse
  deriving Repr, DecidableEq

/-- `module_names`. -/
def SqfsModule.name : SqfsModule → List UInt8
  | superblock => ascii "superblock"
  | inode => ascii "inode"
  | directory => ascii "directory"
  | data => ascii "data"
  | fragment => ascii "fragment"
  | compressor => ascii "compressor"
  | cache => ascii "cache"
  | xattr => ascii "xattr"
  | fuse => ascii "fuse"

/-- What `clock_gettime` and `gmtime_r` make of the time. -/
structure BrokenDownTime where
  year : Int
  mon : Int
  mday : Int
  hour : Int
  min : Int
  sec : Int
  nsec : Int
  deriving Repr, DecidableEq

/-- The format `%d`. -/
def formatInt (number : Int) : List UInt8 :=
  if number < 0 then 0x2d :: decimal number.natAbs else decimal number.natAbs

/-- The format `%0d` with a width. -/
def formatPadded (width : Nat) (number : Int) : List UInt8 :=
  let sign : List UInt8 := if number < 0 then [0x2d] else []
  let digits := decimal number.natAbs
  sign ++ List.replicate (width - sign.length - digits.length) 0x30 ++ digits

/-- `format_timestamp` into a buffer of 32 bytes. -/
def formatTimestamp : Option BrokenDownTime → List UInt8
  | none => ascii "1970-01-01T00:00:00.000Z"
  | some time =>
      (formatPadded 4 (time.year + 1900) ++ ascii "-" ++ formatPadded 2 (time.mon + 1) ++
        ascii "-" ++ formatPadded 2 time.mday ++ ascii "T" ++ formatPadded 2 time.hour ++
        ascii ":" ++ formatPadded 2 time.min ++ ascii ":" ++ formatPadded 2 time.sec ++
        ascii "." ++ formatPadded 3 (time.nsec.tdiv 1000000) ++ ascii "Z").take 31

/-- `message` after `vsnprintf`. -/
def messageBuffer (formatted : List UInt8) : List Cell :=
  let kept := formatted.take 4095
  terminated kept (List.replicate (4095 - kept.length) none)

/-- What `sqfs_log` writes to its file, once the level is enabled and the file is open. A line
that does not fit into `log_line` is not written. -/
def sqfsLog (allocatesMsg allocatesFile : Bool) (now : Option BrokenDownTime)
    (level : SqfsLogLevel) (module : SqfsModule) (file : Option (List Cell)) (line : Int)
    (formatted : List UInt8) : Sqfs (Option (List UInt8)) := do
  let escapedMsg ← jsonEscapeString allocatesMsg (some (messageBuffer formatted))
  let escapedFile ← jsonEscapeString allocatesFile file
  let msg ← escapedMsg.elim (pure []) readString
  let front := ascii "\x7b\"ts\":\"" ++ formatTimestamp now ++ ascii "\",\"level\":\"" ++
    level.name ++ ascii "\",\"module\":\"" ++ module.name ++ ascii "\",\"msg\":\"" ++ msg
  let logLine ← match level, escapedFile with
    | .debug, some escapedFile => do
        let file ← readString escapedFile
        pure (front ++ ascii "\",\"file\":\"" ++ file ++ ascii "\",\"line\":" ++
          formatInt line ++ ascii "\x7d\n")
    | _, _ => pure (front ++ ascii "\"\x7d\n")
  pure (if logLine.length < 8192 then some logLine else none)

/-! ## What escaping writes -/

def escapeByte (c : UInt8) : List UInt8 :=
  match c with
  | 0x22 => [0x5c, 0x22]
  | 0x5c => [0x5c, 0x5c]
  | 0x08 => [0x5c, 0x62]
  | 0x0c => [0x5c, 0x66]
  | 0x0a => [0x5c, 0x6e]
  | 0x0d => [0x5c, 0x72]
  | 0x09 => [0x5c, 0x74]
  | _ => if c < 0x20 then unicodeEscape c else [c]

theorem escapeByte_length (c : UInt8) : (escapeByte c).length = escapedSize c := by
  unfold escapeByte escapedSize
  split <;> first | rfl | (split <;> rfl)

private theorem escapedLen_eq (text : List UInt8) : escapedLen text = (text.flatMap escapeByte).length := by
  have run : ∀ length, text.foldl (fun length c => length + escapedSize c) length =
      length + (text.flatMap escapeByte).length := by
    induction text with
    | nil =>
        intro length
        rfl
    | cons c rest induction =>
        intro length
        rw [List.foldl_cons, induction, List.flatMap_cons, List.length_append,
          escapeByte_length, Nat.add_assoc]
  exact (run 0).trans (Nat.zero_add _)

private theorem unicodeMeaning_control (c : UInt8) (control : c < 0x20) :
    unicodeMeaning 0x30 0x30 (hexDigit (c / 16)) (hexDigit (c % 16)) = some [c] := by
  have all : ∀ value : Fin 0x20,
      unicodeMeaning 0x30 0x30 (hexDigit (UInt8.ofNat value / 16))
        (hexDigit (UInt8.ofNat value % 16)) = some [UInt8.ofNat value] := by
    decide +kernel
  have here := all ⟨c.toNat, UInt8.lt_iff_toNat_lt.mp control⟩
  rwa [UInt8.ofNat_toNat] at here

private theorem jsonBody_escapeByte (c : UInt8) : JsonBody (escapeByte c) [c] := by
  unfold escapeByte
  split
  case h_8 quote backslash _ _ _ _ _ =>
    split
    · next control => exact .unicode (unicodeMeaning_control c control) .nil
    · next printable => exact .plain (UInt8.not_lt.mp printable) quote backslash .nil
  all_goals exact .short rfl .nil

theorem jsonBody_escaped (text : List UInt8) : JsonBody (text.flatMap escapeByte) text := by
  induction text with
  | nil => exact .nil
  | cons c rest induction =>
      rw [List.flatMap_cons]
      exact (jsonBody_escapeByte c).append induction

/-- The state once `written` is in the buffer, with `room` behind it. -/
def EscapeState.after (written : List UInt8) (room : List Cell) : EscapeState :=
  ⟨written.map some ++ room, written.length⟩

section Passes

variable {written bytes text : List UInt8} {cell : Cell} {room : List Cell}

theorem EscapeState.put_after (byte : UInt8) :
    (after written (cell :: room)).put byte = .ok (after (written ++ [byte]) room) := by
  have inside : written.length < (written.map some ++ cell :: room).length := by
    rw [List.length_append, List.length_map, List.length_cons]
    omega
  rw [put, after]
  apply (if_pos inside).trans
  rw [after, List.set_append_right _ _ (by rw [List.length_map]), List.length_map,
    Nat.sub_self, List.set_cons_zero, List.map_append, List.append_assoc, List.length_append]
  rfl

private theorem EscapeState.puts_after (enough : bytes.length ≤ room.length) :
    (after written room).puts bytes = .ok (after (written ++ bytes) (room.drop bytes.length)) := by
  induction bytes generalizing written room with
  | nil =>
      rw [List.append_nil]
      rfl
  | cons byte rest induction =>
      cases room with
      | nil => cases enough
      | cons cell cells =>
          rw [puts, List.foldlM_cons, put_after, Outcome.ok_bind, ← puts,
            induction (Nat.le_of_succ_le_succ enough), List.append_assoc]
          rfl

/-- A character fills the cells that the first pass counted for it. The one behind them may
take the NUL of `sprintf`. -/
theorem escapeInto_after (c : UInt8) (enough : escapedSize c < room.length) :
    ∃ others, others.length = room.length - escapedSize c ∧
      escapeInto (.after written room) c = .ok (.after (written ++ escapeByte c) others) := by
  rw [← escapeByte_length] at enough ⊢
  revert enough
  unfold escapeInto escapeByte
  split
  case h_8 =>
    split
    · intro enough
      have whole : (unicodeEscape c ++ [0]).length ≤ room.length := enough
      refine ⟨some 0 :: room.drop (unicodeEscape c ++ [0]).length, ?_, ?_⟩
      · rw [List.length_cons, List.length_drop, List.length_append, List.length_singleton]
        omega
      · rw [EscapeState.puts_after whole, Outcome.ok_bind]
        simp [EscapeState.after]
    · intro enough
      cases room with
      | nil => cases enough
      | cons cell rest => exact ⟨rest, rfl, EscapeState.put_after c⟩
  all_goals
    intro enough
    exact ⟨_, List.length_drop, EscapeState.puts_after (Nat.le_of_lt enough)⟩

/-- The second pass fills exactly the cells that the first one counted. -/
theorem escapeAll_after (enough : (text.flatMap escapeByte).length < room.length) :
    ∃ others, others.length = room.length - (text.flatMap escapeByte).length ∧
      text.foldlM escapeInto (.after written room) =
        .ok (.after (written ++ text.flatMap escapeByte) others) := by
  induction text generalizing written room with
  | nil =>
      rw [List.flatMap_nil, List.append_nil]
      exact ⟨room, rfl, rfl⟩
  | cons c rest induction =>
      rw [List.flatMap_cons, List.length_append, escapeByte_length] at enough ⊢
      rcases @escapeInto_after written room c (by omega) with ⟨others, left, first⟩
      rcases @induction (written ++ escapeByte c) others (by omega) with ⟨last, length, run⟩
      refine ⟨last, by omega, ?_⟩
      rw [List.foldlM_cons, first, Outcome.ok_bind, run, List.append_assoc]

/-- The buffer holds the escaped string and its NUL, and nothing else. -/
theorem jsonEscapeString_terminated (text : List UInt8) (behind : List Cell) :
    jsonEscapeString true (some (terminated text behind)) =
      .ok (some (terminated ((cString text).flatMap escapeByte) [])) := by
  have size : (List.replicate (escapedLen (cString text) + 1) (none : Cell)).length =
      ((cString text).flatMap escapeByte).length + 1 := by
    rw [List.length_replicate, escapedLen_eq]
  rcases @escapeAll_after [] (cString text)
    (List.replicate (escapedLen (cString text) + 1) none) (by omega) with ⟨others, left, run⟩
  rw [size, Nat.add_sub_cancel_left] at left
  rcases List.length_eq_one_iff.mp left with ⟨last, rfl⟩
  rw [jsonEscapeString, readString_terminated, Outcome.ok_bind]
  change ((cString text).foldlM escapeInto
    (.after [] (List.replicate (escapedLen (cString text) + 1) none)) >>= _) = _
  rw [run, Outcome.ok_bind, EscapeState.put_after]
  change Outcome.ok (some ((((cString text).flatMap escapeByte) ++ [0]).map some ++ [])) = _
  rw [List.append_nil, List.map_append]
  rfl

/-- The text that is escaped, if there is one and memory for it. -/
def escapedText (allocates : Bool) (str : Option (List UInt8)) : Option (List UInt8) :=
  if allocates then str.map cString else none

theorem jsonEscapeString_eq (allocates : Bool) (str : Option (List UInt8)) (behind : List Cell) :
    jsonEscapeString allocates (str.map fun text => terminated text behind) =
      .ok ((escapedText allocates str).map fun text =>
        terminated (text.flatMap escapeByte) []) := by
  cases str with
  | none => cases allocates <;> rfl
  | some text =>
      cases allocates with
      | true => exact jsonEscapeString_terminated text behind
      | false =>
          rw [Option.map_some, jsonEscapeString, readString_terminated]
          rfl

/-- What was escaped has no NUL, so that `%s` prints all of it. -/
theorem readString_escaped (text : List UInt8) :
    readString (terminated (text.flatMap escapeByte) []) = .ok (text.flatMap escapeByte) := by
  have noNul : 0 ∉ text.flatMap escapeByte := by
    intro member
    cases (jsonBody_escaped text).printable 0 member
  rw [readString_terminated, cString_of_notMem noNul]

end Passes

/-! ## Lines -/

/-- The members of a line: the ones that every line has, and the place in the source, which
is written for `DEBUG` only. -/
def logMembers (now : Option BrokenDownTime) (level : SqfsLogLevel) (module : SqfsModule)
    (message : List UInt8) (file : Option (List UInt8)) (line : Int) :
    List (List UInt8 × JsonScalar) :=
  [(ascii "ts", .text (formatTimestamp now)), (ascii "level", .text level.name),
    (ascii "module", .text module.name), (ascii "msg", .text message)] ++
    match level, file with
    | .debug, some file => [(ascii "file", .text file), (ascii "line", .number line)]
    | _, _ => []

private theorem plainText_isDigit {digits : List UInt8} (all : ∀ digit ∈ digits, isDigit digit = true) :
    PlainText digits := by
  intro digit member
  have bounds := Bool.and_eq_true_iff.mp (all digit member)
  have low := of_decide_eq_true bounds.1
  have high := of_decide_eq_true bounds.2
  refine ⟨UInt8.le_trans (by decide) low, ?_, ?_⟩
  · rintro rfl
    exact absurd low (by decide)
  · rintro rfl
    exact absurd high (by decide)

private theorem plainText_formatPadded (width : Nat) (number : Int) :
    PlainText (formatPadded width number) := by
  have zeros : ∀ count, PlainText (List.replicate count 0x30) := by
    intro count byte member
    rw [List.eq_of_mem_replicate member]
    decide
  have digits := plainText_isDigit (isDigit_decimal number.natAbs)
  unfold formatPadded
  split
  · exact (PlainText.append (by decide +kernel) (zeros _)).append digits
  · exact (PlainText.append (by decide +kernel) (zeros _)).append digits

theorem plainText_formatTimestamp (now : Option BrokenDownTime) :
    PlainText (formatTimestamp now) := by
  cases now with
  | none => decide +kernel
  | some time =>
      intro byte member
      refine PlainText.append ?_ ?_ byte (List.mem_of_mem_take member)
      on_goal 2 => decide +kernel
      iterate 6
        refine PlainText.append (PlainText.append ?_ (by decide +kernel))
          (plainText_formatPadded _ _)
      exact plainText_formatPadded _ _

theorem jsonValue_formatInt (number : Int) : JsonValue (formatInt number) (.number number) := by
  have digits := isDigit_decimal number.natAbs
  have some_ := decimal_ne_nil number.natAbs
  have value := decimalValue_decimal number.natAbs
  unfold formatInt
  split
  · have negative := JsonValue.negative some_ digits
    have same : -(number.natAbs : Int) = number := by omega
    rwa [value, same] at negative
  · have positive := JsonValue.number some_ digits
    have same : (number.natAbs : Int) = number := by omega
    rwa [value, same] at positive

def lineFront (now : Option BrokenDownTime) (level : SqfsLogLevel) (module : SqfsModule)
    (bytes : List UInt8) : List UInt8 :=
  ascii "\"ts\":\"" ++ (formatTimestamp now ++ (ascii "\",\"level\":\"" ++ (level.name ++
    (ascii "\",\"module\":\"" ++ (module.name ++ (ascii "\"," ++ bytes))))))

section Lines

variable {level : SqfsLogLevel} {module : SqfsModule} {bytes msg message path file : List UInt8}
  {members : List (List UInt8 × JsonScalar)}

theorem jsonMembers_front (now : Option BrokenDownTime) (rest : JsonMembers bytes members) :
    JsonMembers (lineFront now level module bytes)
      ((ascii "ts", .text (formatTimestamp now)) :: (ascii "level", .text level.name) ::
        (ascii "module", .text module.name) :: members) := by
  have levelPlain : PlainText level.name := by
    cases level <;> decide +kernel
  have modulePlain : PlainText module.name := by
    cases module <;> decide +kernel
  have object := JsonMembers.cons (.of_plain (by decide +kernel : PlainText (ascii "ts")))
    (.text (.of_plain (plainText_formatTimestamp now)))
    (JsonMembers.cons (.of_plain (by decide +kernel : PlainText (ascii "level")))
      (.text (.of_plain levelPlain))
      (JsonMembers.cons (.of_plain (by decide +kernel : PlainText (ascii "module")))
        (.text (.of_plain modulePlain)) rest))
  simp only [List.append_assoc, List.cons_append, List.nil_append] at object
  exact object

theorem jsonMembers_message (stands : JsonBody msg message) :
    JsonMembers (ascii "\"msg\":\"" ++ (msg ++ ascii "\"\x7d"))
      [(ascii "msg", .text message)] := by
  have object := JsonMembers.last (.of_plain (by decide +kernel : PlainText (ascii "msg")))
    (.text stands)
  simp only [List.append_assoc, List.cons_append, List.nil_append] at object
  exact object

theorem jsonMembers_place (stands : JsonBody msg message) (named : JsonBody path file)
    (line : Int) :
    JsonMembers (ascii "\"msg\":\"" ++ (msg ++ (ascii "\",\"file\":\"" ++ (path ++
        (ascii "\",\"line\":" ++ (formatInt line ++ ascii "\x7d"))))))
      [(ascii "msg", .text message), (ascii "file", .text file),
        (ascii "line", .number line)] := by
  have object := JsonMembers.cons (.of_plain (by decide +kernel : PlainText (ascii "msg")))
    (.text stands)
    (JsonMembers.cons (.of_plain (by decide +kernel : PlainText (ascii "file"))) (.text named)
      (JsonMembers.last (.of_plain (by decide +kernel : PlainText (ascii "line")))
        (jsonValue_formatInt line)))
  simp only [List.append_assoc, List.cons_append, List.nil_append] at object
  exact object

end Lines

def logLine (now : Option BrokenDownTime) (level : SqfsLogLevel) (module : SqfsModule)
    (msg : List UInt8) (path : Option (List UInt8)) (line : Int) : List UInt8 :=
  0x7b :: (lineFront now level module
    (match level, path with
    | .debug, some path =>
        ascii "\"msg\":\"" ++ (msg ++ (ascii "\",\"file\":\"" ++ (path ++
          (ascii "\",\"line\":" ++ (formatInt line ++ ascii "\x7d")))))
    | _, _ => ascii "\"msg\":\"" ++ (msg ++ ascii "\"\x7d")) ++ [0x0a])

/-- A line is one object and its newline. The object has the members of the line and no
others, whatever is in the message and in the path. -/
theorem readJsonObject_logLine (now : Option BrokenDownTime) (level : SqfsLogLevel)
    (module : SqfsModule) (message : List UInt8) (file : Option (List UInt8)) (line : Int) :
    readJsonObject (logLine now level module (message.flatMap escapeByte)
      (file.map fun file => file.flatMap escapeByte) line) =
      some (logMembers now level module message file line, [0x0a]) := by
  have stands := jsonBody_escaped message
  have short : JsonMembers (ascii "\"msg\":\"" ++ (message.flatMap escapeByte ++ ascii "\"\x7d"))
      [(ascii "msg", .text message)] := jsonMembers_message stands
  cases level with
  | debug =>
      cases file with
      | none => exact (jsonMembers_front now short).reads_object [0x0a]
      | some file =>
          exact (jsonMembers_front now
            (jsonMembers_place stands (jsonBody_escaped file) line)).reads_object [0x0a]
  | error => exact (jsonMembers_front now short).reads_object [0x0a]
  | warn => exact (jsonMembers_front now short).reads_object [0x0a]
  | info => exact (jsonMembers_front now short).reads_object [0x0a]

theorem sqfsLog_eq (allocatesMsg allocatesFile : Bool) (now : Option BrokenDownTime)
    (level : SqfsLogLevel) (module : SqfsModule) (file : Option (List UInt8))
    (behind : List Cell) (line : Int) (formatted : List UInt8) :
    sqfsLog allocatesMsg allocatesFile now level module
      (file.map fun text => terminated text behind) line formatted =
      let logLine := logLine now level module
        (((escapedText allocatesMsg (some (formatted.take 4095))).getD []).flatMap escapeByte)
        ((escapedText allocatesFile file).map fun file => file.flatMap escapeByte) line
      .ok (if logLine.length < 8192 then some logLine else none) := by
  have message := jsonEscapeString_eq allocatesMsg (some (formatted.take 4095))
    (List.replicate (4095 - (formatted.take 4095).length) none)
  change jsonEscapeString allocatesMsg (some (messageBuffer formatted)) = _ at message
  have printed : ((escapedText allocatesMsg (some (formatted.take 4095))).map fun text =>
      terminated (text.flatMap escapeByte) []).elim (pure []) readString =
      .ok (((escapedText allocatesMsg (some (formatted.take 4095))).getD []).flatMap
        escapeByte) := by
    cases escapedText allocatesMsg (some (formatted.take 4095)) with
    | none => rfl
    | some text => exact readString_escaped text
  rw [sqfsLog, message, Outcome.ok_bind, jsonEscapeString_eq, Outcome.ok_bind, printed,
    Outcome.ok_bind]
  generalize ((escapedText allocatesMsg (some (formatted.take 4095))).getD []).flatMap
    escapeByte = msg
  have written {bytes other : List UInt8} (same : bytes = other) :
      (Outcome.ok bytes >>= fun logLine =>
        pure (if logLine.length < 8192 then some logLine else none) : Sqfs _) =
        .ok (if other.length < 8192 then some other else none) := by
    rw [same]
    rfl
  have plain (level : SqfsLogLevel) : ascii "\x7b\"ts\":\"" ++ formatTimestamp now ++
      ascii "\",\"level\":\"" ++ level.name ++ ascii "\",\"module\":\"" ++ module.name ++
      ascii "\",\"msg\":\"" ++ msg ++ ascii "\"\x7d\n" =
      0x7b :: (lineFront now level module (ascii "\"msg\":\"" ++ (msg ++ ascii "\"\x7d")) ++
        [0x0a]) := by
    simp only [lineFront, List.append_assoc]
    rfl
  cases level with
  | debug =>
      cases escapedText allocatesFile file with
      | none => exact written (plain .debug)
      | some path =>
          rw [Option.map_some]
          dsimp only
          rw [readString_escaped, Outcome.ok_bind]
          apply written
          simp only [logLine, lineFront, Option.map_some, List.append_assoc]
          rfl
  | error => exact written (plain .error)
  | warn => exact written (plain .warn)
  | info => exact written (plain .info)

/-- Every line that is written is an object of exactly its members. -/
theorem sqfsLog_reads (allocatesMsg allocatesFile : Bool) (now : Option BrokenDownTime)
    (level : SqfsLogLevel) (module : SqfsModule) (file : Option (List UInt8))
    (behind : List Cell) (line : Int) (formatted : List UInt8) :
    ∃ written, sqfsLog allocatesMsg allocatesFile now level module
        (file.map fun text => terminated text behind) line formatted = .ok written ∧
      ∀ bytes, written = some bytes → readJsonObject bytes =
        some (logMembers now level module
          ((escapedText allocatesMsg (some (formatted.take 4095))).getD [])
          (escapedText allocatesFile file) line, [0x0a]) := by
  refine ⟨_, sqfsLog_eq _ _ _ _ _ _ _ _ _, ?_⟩
  intro bytes written
  split at written
  · cases written
    exact readJsonObject_logLine _ _ _ _ _ _
  · cases written

/-- What escaping makes of a string. -/
structure EscapesExactly (text : List UInt8) (behind : List Cell) (escaped : List UInt8) :
    Prop where
  fills : jsonEscapeString true (some (terminated text behind)) =
    .ok (some (terminated escaped []))
  sized : escaped.length = escapedLen text
  stands : JsonBody escaped text
  printable : ∀ byte ∈ escaped, 0x20 ≤ byte
  reads : ∀ rest, readJsonString (escaped ++ 0x22 :: rest) = some (text, rest)

/-- A string without a NUL is escaped into exactly the cells that were counted for it, and
is read back from them. As a message it stays in its string: every line has the members of a
line and no others. -/
theorem jsonEscapeString_reversible (text : List UInt8) (behind : List Cell)
    (noNul : 0 ∉ text) :
    (∃ escaped, EscapesExactly text behind escaped) ∧
      ∀ (allocatesFile : Bool) (now : Option BrokenDownTime) (level : SqfsLogLevel)
        (module : SqfsModule) (file : Option (List UInt8)) (line : Int),
        ∃ written, sqfsLog true allocatesFile now level module
            (file.map fun path => terminated path behind) line text = .ok written ∧
          ∀ bytes, written = some bytes → readJsonObject bytes =
            some (logMembers now level module (text.take 4095)
              (escapedText allocatesFile file) line, [0x0a]) := by
  have stands := jsonBody_escaped text
  constructor
  · refine ⟨text.flatMap escapeByte, ?_, (escapedLen_eq text).symm, stands, stands.printable,
      stands.reads⟩
    rw [jsonEscapeString_terminated, cString_of_notMem noNul]
  · intro allocatesFile now level module file line
    have cut : cString (text.take 4095) = text.take 4095 := by
      apply cString_of_notMem
      intro member
      exact noNul (List.mem_of_mem_take member)
    have logged := sqfsLog_reads true allocatesFile now level module file behind line text
    rwa [escapedText, if_pos rfl, Option.map_some, Option.getD_some, cut] at logged

/-- A quote, a comma and a control character. -/
theorem jsonEscapeString_reversible_quote :
    (∃ escaped, EscapesExactly [0x22, 0x2c, 0x01] [] escaped) ∧
      ∀ (allocatesFile : Bool) (now : Option BrokenDownTime) (level : SqfsLogLevel)
        (module : SqfsModule) (file : Option (List UInt8)) (line : Int),
        ∃ written, sqfsLog true allocatesFile now level module
            (file.map fun path => terminated path []) line [0x22, 0x2c, 0x01] =
              .ok written ∧
          ∀ bytes, written = some bytes → readJsonObject bytes =
            some (logMembers now level module [0x22, 0x2c, 0x01]
              (escapedText allocatesFile file) line, [0x0a]) :=
  jsonEscapeString_reversible [0x22, 0x2c, 0x01] [] (by decide)

end SquashfsFuse
