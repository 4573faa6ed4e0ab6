import SquashfsFuse.Core.Utils
import SquashfsFuse.Foundation.Loop

/-! `sqfs_pread_all` with the calls of `pread` it makes (`utils.c`). -/

namespace SquashfsFuse

/-! ## `pread` -/

/-- What the system makes of a call of `pread`: it delivers some bytes, is interrupted by a
signal (`EINTR`), or fails with another error. -/
inductive PreadChoice
  | deliver (count : Nat)
  | interrupt
  | fail
  deriving Repr, DecidableEq

/-- What a call of `pread` ends in. -/
inductive PreadAnswer
  | bytes (delivered : List UInt8)
  | interrupted
  | failed
  deriving Repr, DecidableEq

/-- `pread` of `length` bytes at `pos`. It may deliver any number of bytes from one up to
what there is of the request, and delivers none only where there are none. A negative `off_t`
at the start or at the end of the request is an error. -/
def pread (image : Image) (choice : PreadChoice) (length pos : Nat) : PreadAnswer :=
  match choice with
  | .interrupt => .interrupted
  | .fail => .failed
  | .deliver count =>
      if 2 ^ 63 ≤ pos + length then
        .failed
      else
        .bytes ((image.bytes.drop pos).take (min length (max 1 count)))

section Answers

variable {image : Image} {choice : PreadChoice} {length pos : Nat}

private theorem pread_interrupted (answer : pread image choice length pos = .interrupted) :
    choice = .interrupt := by
  unfold pread at answer
  split at answer
  · rfl
  · cases answer
  · split at answer <;> cases answer

private theorem pread_failed (inRange : pos + length < 2 ^ 63)
    (answer : pread image choice length pos = .failed) : choice = .fail := by
  unfold pread at answer
  split at answer
  · cases answer
  · rfl
  · rw [if_neg (Nat.not_le.mpr inRange)] at answer
    cases answer

private theorem pread_bytes {delivered : List UInt8}
    (answer : pread image choice length pos = .bytes delivered) :
    ∃ count, delivered = (image.bytes.drop pos).take (min length (max 1 count)) := by
  unfold pread at answer
  split at answer
  · cases answer
  · cases answer
  · next count =>
      split at answer
      · cases answer
      · cases answer
        exact ⟨count, rfl⟩

end Answers

/-! ## The loop -/

/-- The locals of `sqfs_pread_all`, with the memory from `buf` on and two counters: the calls
made so far, and those of them that were not interrupted. -/
structure PreadState where
  total : Nat
  memory : Storage
  calls : Nat
  answered : Nat

/-- What `sqfs_pread_all` ends in: the error it returns, if it is not `SQFS_OK`, and its
state. -/
structure PreadEnd where
  error : Option SqfsError
  state : PreadState

/-- One pass through the loop. What the `n`-th call does is `schedule n`. -/
def preadAllPass (image : Image) (schedule : Nat → PreadChoice) (count offset : Nat)
    (state : PreadState) : Pass PreadState PreadEnd :=
  if state.total < count then
    let called := { state with calls := state.calls + 1 }
    let answered := { called with answered := state.answered + 1 }
    match pread image (schedule state.calls) (count - state.total)
        (u64 (offset + state.total)) with
    | .interrupted => .again called
    | .failed => .leave ⟨some .io, answered⟩
    | .bytes delivered =>
        if delivered.length = 0 then
          .leave ⟨some .corrupt, answered⟩
        else
          .again { answered with
            total := state.total + delivered.length
            memory := state.memory.write state.total delivered }
  else
    .leave ⟨none, state⟩

/-- The locals at the start. -/
def PreadState.initial (memory : Storage) : PreadState where
  total := 0
  memory := memory
  calls := 0
  answered := 0

/-- A call of `sqfs_pread_all` ends in a result. Interrupted for ever it need not end. -/
def SqfsPreadAll (image : Image) (schedule : Nat → PreadChoice) (memory : Storage)
    (count offset : Nat) (result : PreadEnd) : Prop :=
  Pass.Returns (preadAllPass image schedule count offset) (.initial memory) result

section Reading

variable {image : Image} {schedule : Nat → PreadChoice} {count offset : Nat}
  {memory : Storage} {state next : PreadState}

/-! ## What was read -/

/-- The bytes so far are those of the file, and the memory behind them is as it was. -/
structure PreadState.Fills (image : Image) (memory : Storage) (count offset : Nat)
    (state : PreadState) : Prop where
  within : state.total ≤ count
  inFile : state.total = 0 ∨ offset + state.total ≤ image.bytes.length
  filled : state.memory.bytesAt 0 state.total = (image.bytes.drop offset).take state.total
  kept : ∀ address, state.total ≤ address → state.memory address = memory address
  paid : state.answered ≤ state.total

theorem PreadState.Fills.initial :
    (PreadState.initial memory).Fills image memory count offset where
  within := Nat.zero_le _
  inFile := .inl rfl
  filled := rfl
  kept := by
    intro address _
    rfl
  paid := Nat.le_refl _

theorem PreadState.Fills.deliver {calls length : Nat} {delivered : List UInt8}
    (fills : state.Fills image memory count offset)
    (bytes : delivered = (image.bytes.drop (offset + state.total)).take length)
    (asked : length ≤ count - state.total) (some_ : delivered.length ≠ 0) :
    PreadState.Fills image memory count offset
      ⟨state.total + delivered.length, state.memory.write state.total delivered, calls,
        state.answered + 1⟩ := by
  have within := fills.within
  have paid := fills.paid
  have short : delivered.length =
      min length (image.bytes.length - (offset + state.total)) := by
    rw [bytes, List.length_take, List.length_drop]
  constructor
  · change state.total + delivered.length ≤ count
    omega
  · change _ ∨ offset + (state.total + delivered.length) ≤ image.bytes.length
    omega
  · have same : delivered =
        (image.bytes.drop (offset + state.total)).take delivered.length := by
      rw [short, ← List.length_drop, ← List.take_eq_take_min]
      exact bytes
    have front : 0 + state.total ≤ state.total := by omega
    have behind : 0 + state.total = state.total := Nat.zero_add _
    change (state.memory.write state.total delivered).bytesAt 0
      (state.total + delivered.length) =
        (image.bytes.drop offset).take (state.total + delivered.length)
    rw [← Storage.bytesAt_append, Storage.bytesAt_write_before front, behind,
      Storage.bytesAt_write, fills.filled, List.take_add, List.drop_drop, ← same]
  · intro address beyond
    change state.total + delivered.length ≤ address at beyond
    change state.memory.write state.total delivered address = memory address
    rw [Storage.write_outside (by omega)]
    exact fills.kept address (by omega)
  · change state.answered + 1 ≤ state.total + delivered.length
    omega

/-- Every pass that is repeated keeps what was read, and one that is not tells what ends
the loop. -/
theorem PreadState.Fills.again (fills : state.Fills image memory count offset)
    (range : offset + count < 2 ^ 63)
    (again : preadAllPass image schedule count offset state = .again next) :
    next.Fills image memory count offset := by
  have within := fills.within
  unfold preadAllPass at again
  split at again
  · next more =>
      have pos : u64 (offset + state.total) = offset + state.total := u64_of_lt (by omega)
      rw [pos] at again
      dsimp only at again
      split at again
      · cases again
        exact ⟨fills.within, fills.inFile, fills.filled, fills.kept, fills.paid⟩
      · cases again
      · next delivered answer =>
          split at again
          · cases again
          · next some_ =>
              cases again
              rcases pread_bytes answer with ⟨limit, bytes⟩
              exact fills.deliver bytes (Nat.min_le_left _ _) some_
  · cases again

inductive PreadState.Ends (image : Image) (schedule : Nat → PreadChoice) (count offset : Nat)
    (state : PreadState) : PreadEnd → Prop
  | whole : state.total = count → state.Ends image schedule count offset ⟨none, state⟩
  | atEnd {last} : state.total < count → image.bytes.length < offset + count →
      last.total = state.total → last.memory = state.memory →
      last.answered = state.answered + 1 →
      state.Ends image schedule count offset ⟨some .corrupt, last⟩
  | failed {last} : schedule state.calls = .fail → last.calls = state.calls + 1 →
      last.total = state.total → last.memory = state.memory →
      last.answered = state.answered + 1 →
      state.Ends image schedule count offset ⟨some .io, last⟩

theorem PreadState.Fills.leave {result : PreadEnd}
    (fills : state.Fills image memory count offset) (range : offset + count < 2 ^ 63)
    (left : preadAllPass image schedule count offset state = .leave result) :
    state.Ends image schedule count offset result := by
  have within := fills.within
  unfold preadAllPass at left
  split at left
  · next more =>
      have pos : u64 (offset + state.total) = offset + state.total := u64_of_lt (by omega)
      rw [pos] at left
      dsimp only at left
      split at left
      · cases left
      · next answer =>
          cases left
          exact .failed (pread_failed (by omega) answer) rfl rfl rfl rfl
      · next delivered answer =>
          split at left
          · next nothing =>
              cases left
              rcases pread_bytes answer with ⟨limit, bytes⟩
              rw [bytes, List.length_take, List.length_drop] at nothing
              exact .atEnd more (by omega) rfl rfl rfl
          · cases left
  · cases left
    exact .whole (by omega)

private theorem preadAllPass_again
    (again : preadAllPass image schedule count offset state = .again next) :
    schedule state.calls = .interrupt ∧ next = { state with calls := state.calls + 1 } ∨
      state.total < next.total := by
  unfold preadAllPass at again
  split at again
  · dsimp only at again
    split at again
    · next answer =>
        cases again
        exact .inl ⟨pread_interrupted answer, rfl⟩
    · cases again
    · split at again
      · cases again
      · next some_ =>
          cases again
          exact .inr (Nat.lt_add_of_pos_right (Nat.pos_of_ne_zero some_))
  · cases again

/-- Unless it is interrupted for ever, the call returns. -/
theorem preadAllPass_terminates
    (answers : ∀ call, ∃ distance, schedule (call + distance) ≠ .interrupt) (remaining : Nat) :
    ∀ (distance : Nat) (state : PreadState), count - state.total ≤ remaining →
      schedule (state.calls + distance) ≠ .interrupt →
      Pass.Terminates (preadAllPass image schedule count offset) state := by
  induction remaining with
  | zero =>
      intro distance state enough _
      exact ⟨⟨none, state⟩, .of_leave (if_neg (by omega))⟩
  | succ remaining closer =>
      intro distance
      induction distance with
      | zero =>
          intro state enough answered
          cases pass : preadAllPass image schedule count offset state with
          | leave result => exact ⟨result, .of_leave pass⟩
          | again next =>
              rcases preadAllPass_again pass with ⟨interrupted, -⟩ | moved
              · exact absurd interrupted answered
              · rcases answers next.calls with ⟨distance, later⟩
                rcases closer distance next (by omega) later with ⟨result, returned⟩
                exact ⟨result, .of_again pass returned⟩
      | succ distance sooner =>
          intro state enough answered
          cases pass : preadAllPass image schedule count offset state with
          | leave result => exact ⟨result, .of_leave pass⟩
          | again next =>
              rcases preadAllPass_again pass with ⟨-, rfl⟩ | moved
              · have shifted : state.calls + 1 + distance = state.calls + (distance + 1) := by
                  omega
                rw [← shifted] at answered
                rcases sooner { state with calls := state.calls + 1 } enough answered with
                  ⟨result, returned⟩
                exact ⟨result, .of_again pass returned⟩
              · rcases answers next.calls with ⟨distance, later⟩
                rcases closer distance next (by omega) later with ⟨result, returned⟩
                exact ⟨result, .of_again pass returned⟩

end Reading

theorem SqfsPreadAll.exists_result (image : Image) (schedule : Nat → PreadChoice)
    (memory : Storage) (count offset : Nat)
    (answers : ∀ call, ∃ distance, schedule (call + distance) ≠ .interrupt) :
    ∃ result, SqfsPreadAll image schedule memory count offset result := by
  rcases answers 0 with ⟨distance, later⟩
  exact preadAllPass_terminates answers count distance (.initial memory) (Nat.sub_le _ _) later

/-! ## The call -/

/-- What a call did once it returned: the range is in the buffer, or the error says why
not. -/
structure DeliversRange (image : Image) (schedule : Nat → PreadChoice) (memory : Storage)
    (count offset : Nat) (result : PreadEnd) : Prop where
  whole : result.error = none →
    image.diskBytes offset count = some (result.state.memory.bytesAt 0 count)
  untouched : ∀ address, count ≤ address → result.state.memory address = memory address
  corrupt : result.error = some .corrupt → 0 < count ∧ image.bytes.length < offset + count
  io : result.error = some .io →
    ∃ call, call + 1 = result.state.calls ∧ schedule call = .fail
  errors : result.error = none ∨ result.error = some .corrupt ∨ result.error = some .io
  calls : result.state.answered ≤ count + 1

section Calls

variable {image : Image} {schedule : Nat → PreadChoice} {count offset : Nat}
  {memory : Storage} {state : PreadState} {result : PreadEnd}

theorem PreadState.Ends.delivers (ends : state.Ends image schedule count offset result)
    (fills : state.Fills image memory count offset) :
    DeliversRange image schedule memory count offset result := by
  have within := fills.within
  have paid := fills.paid
  cases ends with
  | whole finished =>
      constructor
      · intro _
        dsimp only
        rw [← finished, fills.filled, Image.diskBytes]
        split
        · next none => rw [none, List.take_zero]
        · next some_ =>
            rw [slice, if_pos (by have inFile := fills.inFile; omega)]
      · intro address beyond
        exact fills.kept address (by omega)
      · intro equal
        cases equal
      · intro equal
        cases equal
      · exact .inl rfl
      · dsimp only
        omega
  | atEnd more outside total kept answered =>
      constructor
      · intro equal
        cases equal
      · intro address beyond
        dsimp only
        rw [kept]
        exact fills.kept address (by omega)
      · intro _
        exact ⟨by omega, outside⟩
      · intro equal
        cases equal
      · exact .inr (.inl rfl)
      · dsimp only
        omega
  | failed failing called total kept answered =>
      constructor
      · intro equal
        cases equal
      · intro address beyond
        dsimp only
        rw [kept]
        exact fills.kept address (by omega)
      · intro equal
        cases equal
      · intro _
        exact ⟨state.calls, called.symm, failing⟩
      · exact .inr (.inr rfl)
      · dsimp only
        omega

theorem SqfsPreadAll.delivers (range : offset + count < 2 ^ 63)
    (returned : SqfsPreadAll image schedule memory count offset result) :
    DeliversRange image schedule memory count offset result := by
  apply Pass.Returns.invariant returned PreadState.Fills.initial
  · intro state next fills again
    exact fills.again range again
  · intro state result fills left
    exact (fills.leave range left).delivers fills

/-- While no call fails, the loop returns what one read of the range does. -/
theorem SqfsPreadAll.agrees (range : offset + count < 2 ^ 63)
    (never : ∀ call, schedule call ≠ .fail)
    (returned : SqfsPreadAll image schedule memory count offset result) :
    sqfsPreadAll image count offset =
      match result.error with
      | none => .ok (result.state.memory.bytesAt 0 count)
      | some code => .err code := by
  have delivers := returned.delivers range
  rcases delivers.errors with whole | corrupt | io
  · rw [whole]
    exact sqfsPreadAll_eq_ok.mpr (delivers.whole whole)
  · rcases delivers.corrupt corrupt with ⟨some_, outside⟩
    rw [corrupt, sqfsPreadAll, if_neg (Nat.ne_of_gt some_), if_neg (by omega), slice,
      if_neg (by omega)]
  · rcases delivers.io io with ⟨call, -, failing⟩
    exact absurd failing (never call)

end Calls

/-- Whatever the calls of `pread` deliver, and wherever they are interrupted: a returning call
delivered the range or says why not, and no run makes more calls than it has bytes to read
and one. -/
theorem sqfsPreadAll_anySchedule (image : Image) (schedule : Nat → PreadChoice)
    (memory : Storage) (count offset : Nat) (range : offset + count < 2 ^ 63) :
    (∀ state, Pass.Enters (preadAllPass image schedule count offset) (.initial memory) state →
      state.answered ≤ count) ∧
      ∀ result, SqfsPreadAll image schedule memory count offset result →
        DeliversRange image schedule memory count offset result := by
  constructor
  · intro state entered
    have fills : state.Fills image memory count offset :=
      entered.invariant PreadState.Fills.initial fun state next fills again =>
        fills.again range again
    exact Nat.le_trans fills.paid fills.within
  · intro result returned
    exact returned.delivers range

/-- Three bytes, one at a time after an interruption. -/
theorem sqfsPreadAll_anySchedule_three :
    (∀ state, Pass.Enters (preadAllPass ⟨[1, 2, 3], by decide⟩
      (fun call => if call = 0 then .interrupt else .deliver 1) 3 0)
      (.initial Storage.zero) state → state.answered ≤ 3) ∧
      ∀ result, SqfsPreadAll ⟨[1, 2, 3], by decide⟩
        (fun call => if call = 0 then .interrupt else .deliver 1) Storage.zero 3 0 result →
        DeliversRange ⟨[1, 2, 3], by decide⟩
          (fun call => if call = 0 then .interrupt else .deliver 1) Storage.zero 3 0 result :=
  sqfsPreadAll_anySchedule ⟨[1, 2, 3], by decide⟩ _ Storage.zero 3 0 (by decide)

end SquashfsFuse
