import SquashfsFuse.Data.Delivered

/-! How much a read writes to the buffer of its caller, and how much of it it returns. -/

namespace SquashfsFuse

/-! ## What a pass writes -/

def AppendsWithin (state : ReadState C) :
    Pass (ReadState C) (Option (ReadResult C)) → Prop
  | .leave none => True
  | .leave (some result) => ∃ bytes : List Cell,
      bytes.length ≤ state.bytesRemaining ∧ result.out = state.out ++ bytes
  | .again next => ∃ bytes : List Cell,
      bytes.length ≤ state.bytesRemaining ∧ next.out = state.out ++ bytes ∧
        next.bytesRemaining = state.bytesRemaining - bytes.length

section Passes

variable {cache : BlockCache C} {ctx : SqfsCtx} {file : SqfsFileCtx} {offset blockOffset : Nat}
  {state : ReadState C}

theorem appendsWithin_returned (state : ReadState C) (ret : Int) :
    AppendsWithin state (.leave (some (state.returned ret))) :=
  ⟨[], Nat.zero_le _, (List.append_nil _).symm⟩

private theorem appendsWithin_copied {bytes : List Cell} (fits : bytes.length ≤ state.bytesRemaining)
    (blockBuf : List Cell) (after : C) :
    AppendsWithin state (.again (({ state with blockBuf, cache := after }).copied bytes)) :=
  ⟨bytes, fits, rfl, rfl⟩

private theorem fragmentReadMissing_length_le {start after : C} {fragIdx fragOffset size : Nat}
    {bytes : List UInt8}
    (read : fragmentReadMissing cache ctx start fragIdx fragOffset size = .ok (bytes, after)) :
    bytes.length ≤ size := by
  rw [fragmentReadMissing] at read
  dsimp only at read
  split at read
  · contradiction
  · contradiction
  · split at read
    · contradiction
    · cases read
      exact copyFromFragment_length_le _ _ _ _

private theorem sqfsFragmentRead_length_le {start after : C} {fragIdx fragOffset size : Nat}
    {bytes : List UInt8}
    (read : sqfsFragmentRead cache ctx start fragIdx fragOffset size = .ok (bytes, after)) :
    bytes.length ≤ size := by
  rw [sqfsFragmentRead] at read
  split at read
  · contradiction
  · split at read
    · contradiction
    · split at read
      · contradiction
      · split at read
        · cases read
          exact copyFromFragment_length_le _ _ _ _
        · exact fragmentReadMissing_length_le read

private theorem readTail_appends :
    AppendsWithin state (.leave (readTail cache ctx file blockOffset state)) := by
  rw [readTail, readFromFragment]
  cases read : sqfsFragmentRead cache ctx state.cache file.fragIdx
      (u32 (file.fragOffset + blockOffset)) state.bytesRemaining with
  | fault => trivial
  | err failure =>
      have filled : (List.replicate state.bytesRemaining (some (0 : UInt8))).length ≤
          state.bytesRemaining := Nat.le_of_eq List.length_replicate
      dsimp only [Option.bind_eq_bind, Option.bind_some]
      split
      · exact ⟨_, filled, rfl⟩
      · exact ⟨_, filled, rfl⟩
  | ok delivered =>
      have fits : (delivered.1.map some).length ≤ state.bytesRemaining := by
        rw [List.length_map]
        exact sqfsFragmentRead_length_le read
      dsimp only [Option.bind_eq_bind, Option.bind_some]
      split
      · exact ⟨_, fits, rfl⟩
      · exact ⟨_, fits, rfl⟩

private theorem copyFromCached_length_le {found : Option BlockEntry} {bytesRemaining : Nat}
    {bytes : List Cell} (hit : copyFromCached found blockOffset bytesRemaining = some bytes) :
    bytes.length ≤ bytesRemaining := by
  rw [copyFromCached] at hit
  rcases Option.bind_eq_some_iff.mp hit with ⟨entry, -, copied⟩
  simp only at copied
  split at copied
  · cases copied
    rw [List.length_map, List.length_take]
    omega
  · contradiction

private theorem readMissing_appends {location : BlockLocation} :
    AppendsWithin state (readMissing cache ctx file location blockOffset state) := by
  rw [readMissing]
  split
  · trivial
  · exact appendsWithin_returned state _
  · dsimp only
    split
    · trivial
    · apply appendsWithin_copied
      rw [List.length_take]
      omega

private theorem readStored_appends {location : BlockLocation} :
    AppendsWithin state (readStored cache ctx file location blockOffset state) := by
  rw [readStored]
  split
  · trivial
  · next after found _ =>
      dsimp only
      split
      · next bytes hit =>
          exact appendsWithin_copied (copyFromCached_length_le hit) state.blockBuf after
      · exact @readMissing_appends _ cache ctx file blockOffset
          { state with cache := after } location

/-- No pass writes more than remains of the request, whatever the cache. -/
theorem readPass_appends (cache : BlockCache C) (ctx : SqfsCtx) (file : SqfsFileCtx)
    (offset : Nat) (state : ReadState C) :
    AppendsWithin state (readPass cache ctx file offset state) := by
  rw [readPass]
  split
  · exact appendsWithin_returned state _
  · dsimp only
    split
    · exact readTail_appends
    · split
      · trivial
      · split
        · exact ⟨_, Nat.le_of_eq List.length_replicate, rfl⟩
        · exact appendsWithin_returned state _
      · split
        · have fits : (List.replicate (min (file.blockSize -
              u64 (offset + state.bytesRead) % file.blockSize) state.bytesRemaining)
              (some (0 : UInt8))).length ≤ state.bytesRemaining := by
            rw [List.length_replicate]
            exact Nat.min_le_right _ _
          exact ⟨_, fits, rfl, rfl⟩
        · exact readStored_appends

end Passes

/-! ## Whole calls -/

/-- The bytes that a call of `sqfs_data_read` has written to the buffer of its
caller whenever its main loop begins anew, and when it returns. -/
def DataReadWrites (cache : BlockCache C) (ctx : SqfsCtx) (state : C) (inode : SqfsInode)
    (offset size : Nat) (out : List Cell) : Prop :=
  match readStart ctx state inode offset size with
  | .returns _ => out = []
  | .loops file start =>
      (∃ reached, Pass.Enters (readPass cache ctx file offset) start reached ∧
        reached.out = out) ∨
      ∃ result, Pass.Returns (readPass cache ctx file offset) start (some result) ∧
        result.out = out

theorem SqfsDataRead.writes {cache : BlockCache C} {ctx : SqfsCtx} {state : C}
    {inode : SqfsInode} {offset size : Nat} {result : ReadResult C}
    (read : SqfsDataRead cache ctx state inode offset size (some result)) :
    DataReadWrites cache ctx state inode offset size result.out := by
  rw [SqfsDataRead] at read
  rw [DataReadWrites]
  cases start : readStart ctx state inode offset size with
  | returns ret =>
      rw [start] at read
      rw [Option.some.inj read]
  | loops file begun =>
      rw [start] at read
      exact .inr ⟨result, read, rfl⟩

section Calls

variable {cache : BlockCache C} {ctx : SqfsCtx} {file : SqfsFileCtx} {inode : SqfsInode}
  {offset size : Nat} {state : C}

def ReadState.wanted (state : ReadState C) : Nat := state.out.length + state.bytesRemaining

private theorem wanted_of_again {before next : ReadState C}
    (repeated : readPass cache ctx file offset before = .again next) :
    next.wanted = before.wanted := by
  have appends := readPass_appends cache ctx file offset before
  rw [repeated] at appends
  rcases appends with ⟨bytes, fits, out, remaining⟩
  rw [ReadState.wanted, ReadState.wanted, out, remaining, List.length_append]
  omega

theorem wanted_of_entered {start reached : ReadState C}
    (entered : Pass.Enters (readPass cache ctx file offset) start reached) :
    reached.wanted = start.wanted := by
  induction entered with
  | start => rfl
  | again repeated _ induction => rw [induction, wanted_of_again repeated]

private theorem result_length_le {start : ReadState C} {result : ReadResult C}
    (returned : Pass.Returns (readPass cache ctx file offset) start (some result)) :
    result.out.length ≤ start.wanted := by
  rcases returned.leaves with ⟨last, entered, left⟩
  have appends := readPass_appends cache ctx file offset last
  rw [left] at appends
  rcases appends with ⟨bytes, fits, out⟩
  rw [← wanted_of_entered entered, ReadState.wanted, out, List.length_append]
  omega

private theorem extends_of_entered {start reached : ReadState C}
    (entered : Pass.Enters (readPass cache ctx file offset) start reached) :
    ∃ bytes, reached.out = start.out ++ bytes := by
  induction entered with
  | start => exact ⟨[], (List.append_nil _).symm⟩
  | @again first _ _ repeated _ induction =>
      have appends := readPass_appends cache ctx file offset first
      rw [repeated] at appends
      rcases appends with ⟨bytes, -, out, -⟩
      rcases induction with ⟨others, whole⟩
      exact ⟨bytes ++ others, by rw [whole, out, List.append_assoc]⟩

theorem result_extends {start : ReadState C} {result : ReadResult C}
    (returned : Pass.Returns (readPass cache ctx file offset) start (some result)) :
    ∃ bytes, result.out = start.out ++ bytes := by
  rcases returned.leaves with ⟨last, entered, left⟩
  rcases extends_of_entered entered with ⟨bytes, out⟩
  have appends := readPass_appends cache ctx file offset last
  rw [left] at appends
  rcases appends with ⟨others, -, whole⟩
  exact ⟨bytes ++ others, by rw [whole, out, List.append_assoc]⟩

private theorem Enters.writes_le (entered : Enters ctx inode offset size file) {out : List Cell}
    (writes : DataReadWrites cache ctx state inode offset size out) :
    out.length ≤ requestSize file offset size := by
  rw [DataReadWrites, entered.loops state] at writes
  rcases writes with ⟨reached, passes, rfl⟩ | ⟨result, returned, rfl⟩
  · have sum := wanted_of_entered passes
    simp only [ReadState.wanted, List.length_nil] at sum
    omega
  · have bound := result_length_le returned
    simp only [ReadState.wanted, List.length_nil] at bound
    omega

theorem writes_nil_of_outside (init : sqfsFileCtxInit ctx.sb inode = .ok file)
    (outside : file.fileSize ≤ offset) {out : List Cell}
    (writes : DataReadWrites cache ctx state inode offset size out) : out = [] := by
  have returns : readStart ctx state inode offset size = .returns 0 := by
    rw [readStart, init]
    exact if_pos outside
  rw [DataReadWrites, returns] at writes
  exact writes

/-- A call whose request does not wrap around writes what lies in the request and in
the file at most. -/
theorem writes_le_of_lt (init : sqfsFileCtxInit ctx.sb inode = .ok file)
    (noWrap : offset + size < 2 ^ 64) {out : List Cell}
    (writes : DataReadWrites cache ctx state inode offset size out) :
    out.length ≤ min size (file.fileSize - offset) := by
  rcases readStart_cases ctx inode offset size with
    ⟨error, failed, -⟩ | ⟨other, -, -, returns⟩ | ⟨other, entered, -⟩
  · rw [init] at failed
    contradiction
  · rw [DataReadWrites, returns] at writes
    rw [writes]
    exact Nat.zero_le _
  · have same := entered.init
    rw [init] at same
    cases same
    rw [← requestSize_of_lt entered.insideFile noWrap]
    exact entered.writes_le writes

variable {Inv : C → Prop} {offered served : Nat → BlockEntry → Prop}

/-- A read of a file whose blocks have their nominal sizes returns the number of bytes it wrote,
or comes to a block that cannot be read and fails. -/
theorem SizedFile.read_counts (sized : SizedFile ctx file) (readable : ReadableFile ctx file)
    (init : sqfsFileCtxInit ctx.sb inode = .ok file) (noWrap : offset + size < 2 ^ 64)
    (countFits : min size (file.fileSize - offset) < 2 ^ 31)
    (serves : cache.Serves Inv offered served)
    (agrees : AgreesOnRead offered served ctx inode offset size) (inv : Inv state) :
    ∃ result, SqfsDataRead cache ctx state inode offset size (some result) ∧
      (result.ret = result.out.length ∨
        result.ret < 0 ∧ ∃ pos, Requested file offset size pos ∧ BlockFails ctx file pos) := by
  have bounds := sqfsFileCtxInit_bounds init
  have blockSize := (sqfsFileCtxInit_fields init).1
  rcases readStart_cases ctx inode offset size with
    ⟨error, failed, -⟩ | ⟨other, -, -, returns⟩ | ⟨other, entered, -⟩
  · rw [init] at failed
    contradiction
  · refine ⟨{ ret := 0, out := [], cache := state }, ?_, .inl rfl⟩
    rw [SqfsDataRead, returns]
  · have same := entered.init
    rw [init] at same
    cases same
    have inside := entered.insideFile
    have clamped := requestSize_of_lt inside noWrap
    have supplied := sized.supplied readable bounds.2 (blockSize ▸ ctx.sb.blockSize_pos) bounds.1
      (show offset + requestSize file offset size ≤ file.fileSize by omega)
    rcases supplied.returns blockSize bounds.2 with ⟨plain, returned, counts⟩
    rcases ((entered.plainRead_iff _).mpr returned).read serves agrees inv with
      ⟨result, read, same⟩
    cases result with
    | none => exact same.elim
    | some result =>
        rcases same with ⟨sameRet, refines, -⟩
        have length := refines.length_eq
        have fits := writes_le_of_lt init noWrap read.writes
        refine ⟨result, read, ?_⟩
        rw [sameRet, ← length]
        rcases counts with counted | ⟨negative, pos, behind, before, fails⟩
        · exact .inl (counted (by omega))
        · exact .inr ⟨negative, pos, ⟨behind, by omega, by omega⟩, fails⟩

theorem read_outside (cache : BlockCache C) (state : C) (size : Nat)
    (init : sqfsFileCtxInit ctx.sb inode = .ok file) (outside : file.fileSize ≤ offset) :
    SqfsDataRead cache ctx state inode offset size
      (some { ret := 0, out := [], cache := state }) := by
  have returns : readStart ctx state inode offset size = .returns 0 := by
    rw [readStart, init]
    exact if_pos outside
  rw [SqfsDataRead, returns]

end Calls

end SquashfsFuse
