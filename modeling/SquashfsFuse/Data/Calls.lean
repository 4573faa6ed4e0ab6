import SquashfsFuse.Data.Plain

/-! Calls of `sqfs_data_read` as their callers see them. -/

namespace SquashfsFuse

/-! ## Calls and answers -/

/-- The arguments of a call of `sqfs_data_read`. -/
structure ReadCall where
  inode : SqfsInode
  offset : Nat
  size : Nat

/-- What the caller sees of a result. -/
def ReadResult.answer (result : ReadResult C) : PlainResult where
  ret := result.ret
  out := result.out

/-- The call returns the answer, or faults where there is none. -/
def Answers (cache : BlockCache C) (ctx : SqfsCtx) (state : C) (call : ReadCall)
    (answer : Option PlainResult) : Prop :=
  ∃ result, SqfsDataRead cache ctx state call.inode call.offset call.size result ∧
    result.map ReadResult.answer = answer

/-- Run a call for at most `fuel` passes of its main loop. -/
def ReadCall.run (cache : BlockCache C) (ctx : SqfsCtx) (fuel : Nat) (state : C)
    (call : ReadCall) : Option (ReadResult C) :=
  match readStart ctx state call.inode call.offset call.size with
  | .returns ret => some { ret, out := [], cache := state }
  | .loops file start => (Pass.iterate (readPass cache ctx file call.offset) fuel start).join

theorem ReadCall.read_of_run {cache : BlockCache C} {ctx : SqfsCtx} {fuel : Nat} {state : C}
    {call : ReadCall} {result : ReadResult C}
    (run : call.run cache ctx fuel state = some result) :
    SqfsDataRead cache ctx state call.inode call.offset call.size (some result) := by
  rw [ReadCall.run] at run
  rw [SqfsDataRead]
  cases start : readStart ctx state call.inode call.offset call.size with
  | returns ret =>
      rw [start] at run
      exact run.symm
  | loops file begun =>
      rw [start] at run
      exact ⟨fuel, Option.join_eq_some_iff.mp run⟩

theorem SqfsDataRead.unique {cache : BlockCache C} {ctx : SqfsCtx} {state : C}
    {inode : SqfsInode} {offset size : Nat} {result other : Option (ReadResult C)}
    (read : SqfsDataRead cache ctx state inode offset size result)
    (alternative : SqfsDataRead cache ctx state inode offset size other) : result = other := by
  rw [SqfsDataRead] at read alternative
  cases start : readStart ctx state inode offset size with
  | returns ret =>
      simp only [start] at read alternative
      rw [read, alternative]
  | loops file begun =>
      simp only [start] at read alternative
      exact read.unique alternative

theorem Answers.unique {cache : BlockCache C} {ctx : SqfsCtx} {state : C} {call : ReadCall}
    {answer other : Option PlainResult} (answers : Answers cache ctx state call answer)
    (alternative : Answers cache ctx state call other) : answer = other := by
  rcases answers with ⟨result, read, rfl⟩
  rcases alternative with ⟨result', read', rfl⟩
  rw [read.unique read']

/-! ## Answers from a cache that agrees with the image -/

def Known (cells : List Cell) : Prop :=
  ∃ bytes : List UInt8, cells = bytes.map some

theorem Known.append {front back : List Cell} (knownFront : Known front)
    (knownBack : Known back) : Known (front ++ back) := by
  rcases knownFront with ⟨bytes, rfl⟩
  rcases knownBack with ⟨others, rfl⟩
  exact ⟨bytes ++ others, List.map_append.symm⟩

theorem Known.replicate (count : Nat) (byte : UInt8) :
    Known (List.replicate count (some byte)) :=
  ⟨List.replicate count byte, List.map_replicate.symm⟩

theorem Known.eq_of_refines {known actual : List Cell} (all : Known known)
    (refines : Refines known actual) : actual = known := by
  rcases all with ⟨bytes, rfl⟩
  exact refines.of_known

theorem Refines.getElem? {known actual : List Cell} {idx : Nat} {byte : UInt8}
    (refines : Refines known actual) (value : known[idx]? = some (some byte)) :
    actual[idx]? = some (some byte) := by
  induction refines generalizing idx with
  | nil => simp at value
  | cons first _ induction =>
      cases idx with
      | zero => exact congrArg some (first byte (Option.some.inj value))
      | succ idx => exact induction value

theorem agreesOnRead_missing (ctx : SqfsCtx) (inode : SqfsInode) (offset size : Nat) :
    AgreesOnRead (fun _ _ => True) (fun _ _ => False) ctx inode offset size :=
  fun _ _ => {
    offersBlock := fun _ _ _ _ _ _ _ _ _ => trivial
    servesBlock := fun _ _ _ _ _ _ served _ => served.elim
    offersFragment := fun _ _ _ _ _ => trivial
    servesFragment := fun _ _ _ served _ => served.elim }

/-! ## A call for a tail -/

/-- Read a file that is a tail in a fragment block. -/
def readTailIn (fragIdx : Nat) : ReadCall where
  inode := .ofFile 2 96 fragIdx 0 []
  offset := 0
  size := 2

/-- The file the call reads. -/
def tailFile (fragIdx : Nat) : SqfsFileCtx where
  fileSize := 2
  blocksStart := 96
  blockSize := 4096
  blockCount := 0
  tailSize := 2
  fragIdx
  fragOffset := 0
  blockSizes := []

theorem readTailIn_init : ∀ fragIdx < 97,
    sqfsFileCtxInit (SqfsCtx.onBytes [] (by decide)).sb (readTailIn fragIdx).inode =
      .ok (tailFile fragIdx) := by
  decide +kernel

theorem tailFile_not_located {fragIdx idx : Nat} {location : BlockLocation} :
    sqfsFileBlockLocation (tailFile fragIdx) idx ≠ .ok location :=
  fun located => Nat.not_lt_zero idx (sqfsFileBlockLocation_lt located)

end SquashfsFuse
