import SquashfsFuse.Core.LogFile

/-! What a line with data says. -/

namespace SquashfsFuse

/-- The members of a line: the ones that every line has, the data, and the place in the source,
which is written with data for `DEBUG` only. -/
def dataMembers (now : Option BrokenDownTime) (level : SqfsLogLevel) (module : SqfsModule)
    (message : List UInt8) (data : Option (List (List UInt8 × JsonTree))) (file : List UInt8)
    (line : Int) : List (List UInt8 × JsonTree) :=
  [(ascii "ts", .scalar (.text (formatTimestamp now))),
    (ascii "level", .scalar (.text level.name)), (ascii "module", .scalar (.text module.name)),
    (ascii "msg", .scalar (.text message))] ++
    match data, level with
    | none, _ => []
    | some data, .debug => [(ascii "data", .object data), (ascii "file", .scalar (.text file)),
        (ascii "line", .scalar (.number line))]
    | some data, _ => [(ascii "data", .object data)]

def dataTail (level : SqfsLogLevel) (msg : List UInt8) (data : List UInt8) (path : List UInt8)
    (line : Int) : List UInt8 :=
  if data ≠ [] then
    if level = .debug then
      msg ++ (ascii "\",\"data\":" ++ (data ++ (ascii ",\"file\":\"" ++ (path ++
        (ascii "\",\"line\":" ++ (formatInt line ++ ascii "\x7d"))))))
    else
      msg ++ (ascii "\",\"data\":" ++ (data ++ ascii "\x7d"))
  else
    msg ++ ascii "\"\x7d"

/-- The line of a message and a path that are escaped already. -/
def dataLine (now : Option BrokenDownTime) (level : SqfsLogLevel) (module : SqfsModule)
    (msg data path : List UInt8) (line : Int) : List UInt8 :=
  0x7b :: (lineFront now level module (ascii "\"msg\":\"" ++ dataTail level msg data path line) ++
    [0x0a])

section Lines

variable {level : SqfsLogLevel} {module : SqfsModule} {bytes msg message path file : List UInt8}
  {members data : List (List UInt8 × JsonTree)}

theorem jsonTreeMembers_front (now : Option BrokenDownTime)
    (rest : JsonTreeMembers bytes members) :
    JsonTreeMembers (lineFront now level module bytes)
      ((ascii "ts", .scalar (.text (formatTimestamp now))) ::
        (ascii "level", .scalar (.text level.name)) ::
        (ascii "module", .scalar (.text module.name)) :: members) := by
  have levelPlain : PlainText level.name := by
    cases level <;> decide +kernel
  have modulePlain : PlainText module.name := by
    cases module <;> decide +kernel
  have object := JsonTreeMembers.cons (.of_plain (by decide +kernel : PlainText (ascii "ts")))
    (.scalar (.text (.of_plain (plainText_formatTimestamp now))))
    (JsonTreeMembers.cons (.of_plain (by decide +kernel : PlainText (ascii "level")))
      (.scalar (.text (.of_plain levelPlain)))
      (JsonTreeMembers.cons (.of_plain (by decide +kernel : PlainText (ascii "module")))
        (.scalar (.text (.of_plain modulePlain))) rest))
  simp only [List.append_assoc, List.cons_append, List.nil_append] at object
  exact object

def DataReads (data : List UInt8) : Option (List (List UInt8 × JsonTree)) → Prop
  | none => data = []
  | some members => ∃ bytes, data = 0x7b :: bytes ∧ JsonTreeMembers bytes members

theorem jsonTreeMembers_data (now : Option BrokenDownTime) (stands : JsonBody msg message)
    {text : List UInt8} {data : Option (List (List UInt8 × JsonTree))}
    (reads : DataReads text data) (named : JsonBody path file) (line : Int) :
    JsonTreeMembers
      (lineFront now level module (ascii "\"msg\":\"" ++ dataTail level msg text path line))
      (dataMembers now level module message data file line) := by
  have msgPlain : PlainText (ascii "msg") := by decide +kernel
  have dataPlain : PlainText (ascii "data") := by decide +kernel
  have filePlain : PlainText (ascii "file") := by decide +kernel
  have linePlain : PlainText (ascii "line") := by decide +kernel
  cases data with
  | none =>
      cases reads
      have object := JsonTreeMembers.last (.of_plain msgPlain) (.scalar (.text stands))
      simp only [List.append_assoc, List.cons_append, List.nil_append] at object
      exact jsonTreeMembers_front now object
  | some members =>
      rcases reads with ⟨bytes, rfl, inner⟩
      have short := JsonTreeMembers.cons (.of_plain msgPlain) (.scalar (.text stands))
        (JsonTreeMembers.last (.of_plain dataPlain) (.object inner))
      simp only [List.append_assoc, List.cons_append, List.nil_append] at short
      have long := JsonTreeMembers.cons (.of_plain msgPlain) (.scalar (.text stands))
        (JsonTreeMembers.cons (.of_plain dataPlain) (.object inner)
          (JsonTreeMembers.cons (.of_plain filePlain) (.scalar (.text named))
            (JsonTreeMembers.last (.of_plain linePlain)
              (.scalar (jsonValue_formatInt line)))))
      simp only [List.append_assoc, List.cons_append, List.nil_append] at long
      cases level with
      | debug => exact jsonTreeMembers_front now long
      | error => exact jsonTreeMembers_front now short
      | warn => exact jsonTreeMembers_front now short
      | info => exact jsonTreeMembers_front now short

end Lines

private theorem printed_escaped (allocates : Bool) (str : Option (List UInt8)) :
    ((escapedText allocates str).map fun text => terminated (text.flatMap escapeByte) []).elim
        (pure []) readString =
      .ok (((escapedText allocates str).getD []).flatMap escapeByte) := by
  cases escapedText allocates str with
  | none => rfl
  | some text => exact readString_escaped text

/-- The line that is written if it is short enough. -/
theorem sqfsLogData_eq (allocatesMsg allocatesFile : Bool) (now : Option BrokenDownTime)
    (level : SqfsLogLevel) (module : SqfsModule) (file msg jsonData : Option (List UInt8))
    (behind dataBehind : List Cell) (line : Int) :
    sqfsLogData allocatesMsg allocatesFile now level module
      (file.map fun text => terminated text behind) line
      (msg.map fun text => terminated text behind)
      (jsonData.map fun text => terminated text dataBehind) =
      let logLine := dataLine now level module
        (((escapedText allocatesMsg msg).getD []).flatMap escapeByte)
        ((jsonData.map cString).getD [])
        (((escapedText allocatesFile file).getD []).flatMap escapeByte) line
      .ok (if logLine.length < 16384 then some logLine else none) := by
  have data : (jsonData.map fun text => terminated text dataBehind).elim (pure []) readString =
      .ok ((jsonData.map cString).getD []) := by
    cases jsonData with
    | none => rfl
    | some text => exact readString_terminated text dataBehind
  rw [sqfsLogData, jsonEscapeString_eq, Outcome.ok_bind, printed_escaped, Outcome.ok_bind, data,
    Outcome.ok_bind, jsonEscapeString_eq]
  generalize ((escapedText allocatesMsg msg).getD []).flatMap escapeByte = msg
  generalize (jsonData.map cString).getD [] = data
  have written {bytes other : List UInt8} (same : bytes = other) :
      (Outcome.ok bytes >>= fun logLine =>
        pure (if logLine.length < 16384 then some logLine else none) : Sqfs _) =
        .ok (if other.length < 16384 then some other else none) := by
    rw [same]
    rfl
  have front (level : SqfsLogLevel) (tail : List UInt8) : ascii "\x7b\"ts\":\"" ++
      formatTimestamp now ++ ascii "\",\"level\":\"" ++ level.name ++ ascii "\",\"module\":\"" ++
      module.name ++ ascii "\",\"msg\":\"" ++ tail =
      0x7b :: lineFront now level module (ascii "\"msg\":\"" ++ tail) := by
    simp only [lineFront, List.append_assoc]
    rfl
  by_cases some_ : data ≠ []
  · rw [if_pos some_]
    cases level with
    | debug =>
        dsimp only
        rw [Outcome.ok_bind, printed_escaped, Outcome.ok_bind]
        apply written
        rw [dataLine, dataTail, if_pos some_, if_pos rfl, ← List.cons_append, ← front]
        simp only [List.append_assoc]
        rfl
    | error | warn | info =>
        apply written
        rw [dataLine, dataTail, if_pos some_, if_neg (by decide), ← List.cons_append, ← front]
        simp only [List.append_assoc]
        rfl
  · rw [if_neg some_]
    apply written
    rw [dataLine, dataTail, if_neg some_, ← List.cons_append, ← front]
    simp only [List.append_assoc]
    rfl

end SquashfsFuse
