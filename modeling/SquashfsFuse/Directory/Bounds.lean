import SquashfsFuse.Core.DirectoryBuffer

/-! Parsing a directory stays inside its buffer and finishes. -/

namespace SquashfsFuse

section Bounds

variable {buffer : DirectoryBuffer} {allocates : Nat → Bool} {header : SqfsDirHeader}
  {cursor next : DirectoryCursor} {width length ptr value : Nat}

/-! ## Loads -/

private theorem DirectoryBuffer.end_lt (buffer : DirectoryBuffer) : buffer.end_ < 2 ^ 32 :=
  buffer.size.toNat_lt

theorem DirectoryBuffer.load_of_le (inside : ptr + width ≤ buffer.end_) :
    buffer.load width ptr = .ok (buffer.memory.load ptr width) :=
  if_pos inside

private theorem DirectoryBuffer.copy_of_le (inside : ptr + length ≤ buffer.end_) :
    buffer.copy length ptr = .ok (buffer.memory.bytesAt ptr length) :=
  if_pos inside

private theorem DirectoryBuffer.load_bound (loaded : buffer.load width ptr = .ok value) :
    ptr + width ≤ buffer.end_ := by
  unfold load at loaded
  split at loaded
  · next inside => exact inside
  · cases loaded

/-! ## The invariant -/

/-- The cursor is in the buffer, the entries took eight bytes each, and there is room for
them in an array of a size that did not wrap. -/
structure DirectoryCursor.Within (buffer : DirectoryBuffer) (cursor : DirectoryCursor) :
    Prop where
  inside : cursor.ptr ≤ buffer.end_
  paid : 8 * cursor.entries.length ≤ cursor.ptr
  room : cursor.entries.length ≤ cursor.capacity
  small : cursor.capacity ≤ 16 + 2 * cursor.entries.length

theorem DirectoryCursor.Within.initial : DirectoryCursor.initial.Within buffer :=
  ⟨Nat.zero_le _, Nat.zero_le _, Nat.le_refl _, Nat.zero_le _⟩

theorem DirectoryCursor.Within.remaining (within : cursor.Within buffer) :
    sub64 buffer.end_ cursor.ptr = buffer.end_ - cursor.ptr :=
  sub64_of_le within.inside (Nat.lt_trans buffer.end_lt (by decide))

private theorem growDirents_spec (within : cursor.Within buffer) :
    growDirents allocates cursor = .err .noMemory ∨
      ∃ capacity requests, growDirents allocates cursor =
        .ok { cursor with capacity, requests } ∧
        cursor.entries.length < capacity ∧ capacity ≤ 16 + 2 * cursor.entries.length := by
  have paid := within.paid
  have inside := within.inside
  have bounded := buffer.end_lt
  have room := within.room
  have small := within.small
  unfold growDirents
  split
  · next full =>
      split
      · refine .inr ⟨_, _, rfl, ?_⟩
        split
        · omega
        · have doubled : u64 (cursor.capacity * 2) = cursor.capacity * 2 := u64_of_lt (by omega)
          rw [doubled]
          omega
      · exact .inl rfl
  · next free => exact .inr ⟨cursor.capacity, cursor.requests, rfl, by omega, small⟩

private theorem fillDirent_spec {offset inodeOffset nameLen : Nat} {type : InodeType}
    (free : cursor.entries.length < cursor.capacity)
    (inside : cursor.ptr + (8 + nameLen) ≤ buffer.end_) :
    fillDirent buffer allocates header cursor offset inodeOffset nameLen type =
        .err .noMemory ∨
      ∃ dirent requests,
        fillDirent buffer allocates header cursor offset inodeOffset nameLen type =
          .ok ⟨cursor.ptr + (8 + nameLen), cursor.entries ++ [dirent], cursor.capacity,
            requests⟩ := by
  unfold fillDirent
  rw [if_neg (Nat.not_le.mpr free)]
  split
  · exact .inl rfl
  · rw [DirectoryBuffer.copy_of_le (by omega)]
    exact .inr ⟨_, _, rfl⟩

theorem DirectoryCursor.Within.append {dirent : SqfsDirent} {capacity requests : Nat}
    (within : cursor.Within buffer) (free : cursor.entries.length < capacity)
    (small : capacity ≤ 16 + 2 * cursor.entries.length) (ahead : cursor.ptr + 8 ≤ ptr)
    (inside : ptr ≤ buffer.end_) :
    DirectoryCursor.Within buffer ⟨ptr, cursor.entries ++ [dirent], capacity, requests⟩ := by
  have paid := within.paid
  have one : (cursor.entries ++ [dirent]).length = cursor.entries.length + 1 :=
    List.length_append
  constructor
  · exact inside
  · change 8 * (cursor.entries ++ [dirent]).length ≤ ptr
    omega
  · change (cursor.entries ++ [dirent]).length ≤ capacity
    omega
  · change capacity ≤ 16 + 2 * (cursor.entries ++ [dirent]).length
    omega

private theorem growFill_spec {offset inodeOffset nameLen : Nat} {type : InodeType}
    (within : cursor.Within buffer) (inside : cursor.ptr + (8 + nameLen) ≤ buffer.end_) :
    (∃ code, (growDirents allocates cursor >>= fun grown =>
        fillDirent buffer allocates header grown offset inodeOffset nameLen type) =
          .err code) ∨
      ∃ next, (growDirents allocates cursor >>= fun grown =>
        fillDirent buffer allocates header grown offset inodeOffset nameLen type) =
          .ok next ∧ next.Within buffer ∧ cursor.ptr + 8 ≤ next.ptr := by
  rcases @growDirents_spec buffer allocates cursor within with
    failed | ⟨capacity, requests, grown, free, small⟩
  · exact .inl ⟨_, by rw [failed, Outcome.err_bind]⟩
  · rw [grown, Outcome.ok_bind]
    rcases @fillDirent_spec buffer allocates header { cursor with capacity, requests } offset
      inodeOffset nameLen type free inside with failed | ⟨dirent, asked, filled⟩
    · exact .inl ⟨_, failed⟩
    · have ahead : cursor.ptr + 8 ≤ cursor.ptr + (8 + nameLen) :=
        Nat.add_le_add_left (Nat.le_add_right 8 nameLen) cursor.ptr
      exact .inr ⟨_, filled, within.append free small ahead inside, ahead⟩

/-- A step of the entry loop keeps the invariant and takes eight bytes or more. -/
theorem readDirent_spec (within : cursor.Within buffer) :
    (∃ code, readDirent buffer allocates header cursor = .err code) ∨
      ∃ next, readDirent buffer allocates header cursor = .ok next ∧ next.Within buffer ∧
        cursor.ptr + 8 ≤ next.ptr := by
  have inside := within.inside
  unfold readDirent
  rw [within.remaining]
  split
  · exact .inl ⟨_, rfl⟩
  · next enough =>
      rw [DirectoryBuffer.load_of_le (by omega), DirectoryBuffer.load_of_le (by omega),
        DirectoryBuffer.load_of_le (by omega), DirectoryBuffer.load_of_le (by omega)]
      simp only [Outcome.ok_bind]
      split
      · exact .inl ⟨_, rfl⟩
      · next named =>
          split
          · exact .inl ⟨_, rfl⟩
          · exact growFill_spec within (by omega)

/-! ## The entry loop -/

private theorem readDirent_moves (read : readDirent buffer allocates header cursor = .ok next) :
    cursor.ptr + 8 ≤ buffer.end_ ∧ cursor.ptr + 8 ≤ next.ptr := by
  unfold readDirent at read
  split at read
  · cases read
  · rcases Outcome.bind_eq_ok.mp read with ⟨offset, -, read⟩
    rcases Outcome.bind_eq_ok.mp read with ⟨inodeOffset, -, read⟩
    rcases Outcome.bind_eq_ok.mp read with ⟨typeCode, -, read⟩
    rcases Outcome.bind_eq_ok.mp read with ⟨nameSize, load, read⟩
    have inside := DirectoryBuffer.load_bound load
    dsimp only at read
    split at read
    · cases read
    · split at read
      · cases read
      · rcases Outcome.bind_eq_ok.mp read with ⟨grown, grows, filled⟩
        have same : grown.ptr = cursor.ptr := by
          unfold growDirents at grows
          split at grows
          · split at grows <;> cases grows
            rfl
          · cases grows
            rfl
        unfold fillDirent at filled
        split at filled
        · cases filled
        · split at filled
          · cases filled
          · rcases Outcome.bind_eq_ok.mp filled with ⟨name, -, equal⟩
            cases equal
            rw [same]
            exact ⟨by omega, Nat.add_le_add_left (Nat.le_add_right 8 _) cursor.ptr⟩

variable {entryCount : Nat} {state after : Nat × DirectoryCursor}

theorem direntPass_again (again : direntPass buffer allocates header entryCount state =
      .again after) :
    readDirent buffer allocates header state.2 = .ok after.2 := by
  unfold direntPass at again
  split at again
  · split at again
    · next read =>
        cases again
        exact read
    · cases again
    · cases again
  · cases again

private theorem direntPass_isSome (state : Nat × DirectoryCursor) :
    (Pass.iterate (direntPass buffer allocates header entryCount) (buffer.end_ + 1)
      state).isSome := by
  apply Pass.iterate_isSome_of_variant fun state : Nat × DirectoryCursor =>
    buffer.end_ - state.2.ptr
  · intro state after again
    have moved := readDirent_moves (direntPass_again again)
    omega
  · omega

theorem readDirents_returns (buffer : DirectoryBuffer) (allocates : Nat → Bool)
    (header : SqfsDirHeader) (entryCount : Nat) (cursor : DirectoryCursor) :
    Pass.Returns (direntPass buffer allocates header entryCount) (0, cursor)
      (readDirents buffer allocates header entryCount cursor) := by
  rcases Option.isSome_iff_exists.mp (@direntPass_isSome buffer allocates header entryCount
    (0, cursor)) with ⟨result, run⟩
  unfold readDirents
  rw [run]
  exact ⟨_, run⟩

/-- A call ends in an error, or in a cursor that keeps the invariant and did not move
back. -/
def Advances (buffer : DirectoryBuffer) (ptr : Nat) (outcome : Sqfs DirectoryCursor) : Prop :=
  (∃ code, outcome = .err code) ∨
    ∃ next, outcome = .ok next ∧ next.Within buffer ∧ ptr ≤ next.ptr

private theorem readDirents_advances (within : cursor.Within buffer) :
    Advances buffer cursor.ptr (readDirents buffer allocates header entryCount cursor) := by
  apply @Pass.Returns.invariant _ _ _ _ _ (fun state : Nat × DirectoryCursor =>
    state.2.Within buffer ∧ cursor.ptr ≤ state.2.ptr) (Advances buffer cursor.ptr)
    (readDirents_returns buffer allocates header entryCount cursor) ⟨within, Nat.le_refl _⟩
  · intro state after held again
    rcases @readDirent_spec buffer allocates header state.2 held.1 with
      ⟨code, failed⟩ | ⟨next, read, kept, moved⟩
    · rw [direntPass_again again] at failed
      cases failed
    · rw [direntPass_again again] at read
      cases read
      exact ⟨kept, by omega⟩
  · intro state result held left
    rcases @readDirent_spec buffer allocates header state.2 held.1 with
      ⟨code, failed⟩ | ⟨next, read, -, -⟩
    · unfold direntPass at left
      rw [failed] at left
      split at left
      · cases left
        exact .inl ⟨code, rfl⟩
      · cases left
        exact .inr ⟨state.2, rfl, held⟩
    · unfold direntPass at left
      rw [read] at left
      split at left
      · cases left
      · cases left
        exact .inr ⟨state.2, rfl, held⟩

/-! ## The outer loop -/

theorem readDirentRun_advances (within : cursor.Within buffer) :
    Advances buffer (cursor.ptr + 12) (readDirentRun buffer allocates cursor) := by
  have inside := within.inside
  have paid := within.paid
  unfold readDirentRun
  rw [within.remaining]
  split
  · exact .inl ⟨_, rfl⟩
  · next enough =>
      rw [DirectoryBuffer.load_of_le (by omega), DirectoryBuffer.load_of_le (by omega),
        DirectoryBuffer.load_of_le (by omega)]
      simp only [Outcome.ok_bind]
      have header : cursor.ptr + 12 ≤ buffer.end_ := by omega
      have behind : DirectoryCursor.Within buffer { cursor with ptr := cursor.ptr + 12 } := {
        inside := header
        paid := Nat.le_trans paid (Nat.le_add_right _ 12)
        room := within.room
        small := within.small }
      exact readDirents_advances behind

private theorem readDirents_moves
    (read : readDirents buffer allocates header entryCount cursor = .ok next) :
    cursor.ptr ≤ next.ptr := by
  have returned := readDirents_returns buffer allocates header entryCount cursor
  have moved := @Pass.Returns.invariant _ _ _ _ _ (fun state : Nat × DirectoryCursor =>
    cursor.ptr ≤ state.2.ptr) (fun result => ∀ next, result = .ok next → cursor.ptr ≤ next.ptr)
    returned (Nat.le_refl _)
  apply moved
  · intro state after held again
    have ahead := readDirent_moves (direntPass_again again)
    omega
  · intro state result held left next equal
    cases equal
    unfold direntPass at left
    split at left
    · split at left <;> cases left
    · cases left
      exact held
  · exact read

private theorem readDirentRun_moves (read : readDirentRun buffer allocates cursor = .ok next) :
    cursor.ptr + 12 ≤ buffer.end_ ∧ cursor.ptr + 12 ≤ next.ptr := by
  unfold readDirentRun at read
  split at read
  · cases read
  · rcases Outcome.bind_eq_ok.mp read with ⟨count, -, read⟩
    rcases Outcome.bind_eq_ok.mp read with ⟨start, -, read⟩
    rcases Outcome.bind_eq_ok.mp read with ⟨inodeNumber, load, read⟩
    have inside := DirectoryBuffer.load_bound load
    exact ⟨by omega, readDirents_moves read⟩

theorem direntRunPass_again
    (again : direntRunPass buffer allocates cursor = .again next) :
    cursor.ptr < buffer.end_ ∧ readDirentRun buffer allocates cursor = .ok next := by
  unfold direntRunPass at again
  split at again
  · next inside =>
      split at again
      · next read =>
          cases again
          exact ⟨inside, read⟩
      · cases again
      · cases again
  · cases again

private theorem direntRunPass_isSome (cursor : DirectoryCursor) :
    (Pass.iterate (direntRunPass buffer allocates) (buffer.end_ + 1) cursor).isSome := by
  apply Pass.iterate_isSome_of_variant fun cursor : DirectoryCursor =>
    buffer.end_ - cursor.ptr
  · intro cursor next again
    have moved := readDirentRun_moves (direntRunPass_again again).2
    omega
  · omega

private theorem readDirentRuns_returns (buffer : DirectoryBuffer) (allocates : Nat → Bool)
    (cursor : DirectoryCursor) :
    Pass.Returns (direntRunPass buffer allocates) cursor
      (readDirentRuns buffer allocates cursor) := by
  rcases Option.isSome_iff_exists.mp (@direntRunPass_isSome buffer allocates cursor) with
    ⟨result, run⟩
  unfold readDirentRuns
  rw [run]
  exact ⟨_, run⟩

def Exhausts (buffer : DirectoryBuffer) (outcome : Sqfs DirectoryCursor) : Prop :=
  (∃ code, outcome = .err code) ∨
    ∃ cursor, outcome = .ok cursor ∧ cursor.Within buffer ∧ cursor.ptr = buffer.end_

theorem readDirentRuns_exhausts (within : cursor.Within buffer) :
    Exhausts buffer (readDirentRuns buffer allocates cursor) := by
  apply @Pass.Returns.invariant _ _ _ _ _ (DirectoryCursor.Within buffer) (Exhausts buffer)
    (readDirentRuns_returns buffer allocates cursor) within
  · intro cursor next held again
    rcases @readDirentRun_advances buffer allocates cursor held with
      ⟨code, failed⟩ | ⟨other, read, kept, -⟩
    · rw [(direntRunPass_again again).2] at failed
      cases failed
    · rw [(direntRunPass_again again).2] at read
      cases read
      exact kept
  · intro cursor result held left
    unfold direntRunPass at left
    split at left
    · rcases @readDirentRun_advances buffer allocates cursor held with
        ⟨code, failed⟩ | ⟨other, read, -, -⟩
      · rw [failed] at left
        cases left
        exact .inl ⟨code, rfl⟩
      · rw [read] at left
        cases left
    · next finished =>
        cases left
        exact .inr ⟨cursor, rfl, held, Nat.le_antisymm held.inside (Nat.not_lt.mp finished)⟩

end Bounds

/-! ## The function -/

/-- A call of `parse_directory_entries` returns, without a look outside the buffer. It
delivers the entries of the whole buffer, or leaves the output parameters alone. -/
structure StaysInside (buffer : DirectoryBuffer) (allocates : Nat → Bool)
    (output : DirectoryOutput) : Prop where
  runsTerminate : ∀ cursor, Pass.Terminates (direntRunPass buffer allocates) cursor
  entriesTerminate : ∀ header entryCount state,
    Pass.Terminates (direntPass buffer allocates header entryCount) state
  returns : ∃ ret after, parseDirectoryBuffer buffer allocates output = some (ret, after) ∧
    ((ret = 0 ∧ after.count ≤ buffer.end_ / 8 ∧
        (after.entries.getD []).length = after.count ∧
        ∃ cursor, readDirentRuns buffer allocates .initial = .ok cursor ∧
          cursor.ptr = buffer.end_) ∨
      (∃ code : SqfsError, ret = code.code ∧ after = output))

/-- Whatever the memory holds, whatever size is given, and wherever an allocation fails. -/
theorem parseDirectoryBuffer_inside (buffer : DirectoryBuffer) (allocates : Nat → Bool)
    (output : DirectoryOutput) : StaysInside buffer allocates output where
  runsTerminate := by
    intro cursor
    exact .of_isSome (direntRunPass_isSome cursor)
  entriesTerminate := by
    intro header entryCount state
    exact .of_isSome (direntPass_isSome state)
  returns := by
    rcases @readDirentRuns_exhausts buffer allocates .initial .initial with
      ⟨code, failed⟩ | ⟨cursor, read, within, whole⟩
    · exact ⟨code.code, output, by rw [parseDirectoryBuffer, failed], .inr ⟨code, rfl, rfl⟩⟩
    · refine ⟨0, _, by rw [parseDirectoryBuffer, read], .inl ⟨rfl, ?_, ?_, cursor, read, whole⟩⟩
      · have paid := within.paid
        change cursor.entries.length ≤ buffer.end_ / 8
        omega
      · by_cases empty : cursor.capacity = 0
        · have room := within.room
          simp only [empty, if_true, Option.getD_none, List.length_nil]
          omega
        · simp only [empty, if_false, Option.getD_some]

/-! ## The entries -/

def DirectoryBuffer.rest (buffer : DirectoryBuffer) (ptr : Nat) : List UInt8 :=
  buffer.memory.bytesAt ptr (buffer.end_ - ptr)

section Entries

variable {buffer : DirectoryBuffer} {header : SqfsDirHeader} {cursor : DirectoryCursor}
  {width length ptr offset : Nat}

theorem DirectoryBuffer.rest_length (buffer : DirectoryBuffer) (ptr : Nat) :
    (buffer.rest ptr).length = buffer.end_ - ptr :=
  Storage.bytesAt_length _ _ _

private theorem DirectoryBuffer.drop_rest (buffer : DirectoryBuffer) (ptr skipped : Nat) :
    (buffer.rest ptr).drop skipped = buffer.rest (ptr + skipped) := by
  rw [rest, Storage.drop_bytesAt, rest, Nat.sub_add_eq]

theorem DirectoryBuffer.load_rest (inside : ptr + offset + width ≤ buffer.end_) :
    Outcome.ofOption (loadLe width (buffer.rest ptr) offset) =
      buffer.load width (ptr + offset) := by
  rw [load_of_le inside, loadLe, rest,
    Storage.slice_bytesAt _ _ _ _ _ (by omega), Option.map_some]
  rfl

private theorem growDirents_always (within : cursor.Within buffer) :
    ∃ capacity requests, growDirents (fun _ => true) cursor =
      .ok { cursor with capacity, requests } ∧ cursor.entries.length < capacity := by
  rcases @growDirents_spec buffer (fun _ => true) cursor within with
    failed | ⟨capacity, requests, grown, free, -⟩
  · unfold growDirents at failed
    split at failed
    · rw [if_pos rfl] at failed
      cases failed
    · cases failed
  · exact ⟨capacity, requests, grown, free⟩

private theorem readDirent_listed (within : cursor.Within buffer) :
    (readDirent buffer (fun _ => true) header cursor >>= fun next =>
        pure (next.entries, buffer.rest next.ptr)) =
      (parseDirectoryEntry header (buffer.rest cursor.ptr) >>= fun parsed =>
        pure (cursor.entries ++ [parsed.1], parsed.2)) := by
  have inside := within.inside
  unfold readDirent parseDirectoryEntry
  rw [within.remaining, buffer.rest_length]
  by_cases short : buffer.end_ - cursor.ptr < 8
  · rw [if_pos short, if_pos short, Outcome.err_bind, Outcome.err_bind]
  rw [if_neg short, if_neg short]
  have first : sqfsLe16ToCpu (buffer.rest cursor.ptr) 0 = buffer.load 2 cursor.ptr :=
    DirectoryBuffer.load_rest (by omega)
  have second : sqfsLe16ToCpu (buffer.rest cursor.ptr) 2 = buffer.load 2 (cursor.ptr + 2) :=
    DirectoryBuffer.load_rest (by omega)
  have third : sqfsLe16ToCpu (buffer.rest cursor.ptr) 4 = buffer.load 2 (cursor.ptr + 4) :=
    DirectoryBuffer.load_rest (by omega)
  have fourth : sqfsLe16ToCpu (buffer.rest cursor.ptr) 6 = buffer.load 2 (cursor.ptr + 6) :=
    DirectoryBuffer.load_rest (by omega)
  rw [first, second, third, fourth, DirectoryBuffer.load_of_le (by omega),
    DirectoryBuffer.load_of_le (by omega), DirectoryBuffer.load_of_le (by omega),
    DirectoryBuffer.load_of_le (by omega)]
  simp only [Outcome.ok_bind]
  generalize u16 (buffer.memory.load (cursor.ptr + 6) 2 + 1) = nameLen
  by_cases cut : buffer.end_ - cursor.ptr < 8 + nameLen
  · rw [if_pos cut, if_pos cut, Outcome.err_bind, Outcome.err_bind]
  rw [if_neg cut, if_neg cut]
  cases InodeType.ofBasicCode (buffer.memory.load (cursor.ptr + 4) 2) with
  | none => rfl
  | some type =>
      rcases growDirents_always within with ⟨capacity, requests, grown, free⟩
      have named : slice (buffer.rest cursor.ptr) 8 nameLen =
          some (buffer.memory.bytesAt (cursor.ptr + 8) nameLen) :=
        Storage.slice_bytesAt _ _ _ _ _ (by omega)
      dsimp only
      rw [grown, Outcome.ok_bind, fillDirent, if_neg (Nat.not_le.mpr free),
        if_neg Bool.false_ne_true.symm, DirectoryBuffer.copy_of_le (by dsimp only; omega), named]
      simp only [Outcome.ok_bind, Outcome.ofOption_some, Outcome.pure_eq,
        DirectoryBuffer.drop_rest]

private theorem direntPass_listed {entryCount : Nat} (counted : entryCount < 2 ^ 32) :
    ∀ (left i : Nat) (cursor : DirectoryCursor), i + left = entryCount →
      cursor.Within buffer →
      ∃ result, Pass.Returns (direntPass buffer (fun _ => true) header entryCount) (i, cursor)
          result ∧
        (result >>= fun next => pure (next.entries, buffer.rest next.ptr)) =
          (parseDirectoryRun header left (buffer.rest cursor.ptr) >>= fun parsed =>
            pure (cursor.entries ++ parsed.1, parsed.2)) := by
  intro left
  induction left with
  | zero =>
      intro i cursor total within
      refine ⟨.ok cursor, .of_leave (if_neg (by dsimp only; omega)), ?_⟩
      rw [parseDirectoryRun, Outcome.ok_bind, Outcome.ok_bind, List.append_nil]
  | succ left induction =>
      intro i cursor total within
      have listed := @readDirent_listed buffer header cursor within
      have more : i < entryCount := by omega
      rcases @readDirent_spec buffer (fun _ => true) header cursor within with
        ⟨code, failed⟩ | ⟨next, read, kept, -⟩
      · refine ⟨.err code, .of_leave ?_, ?_⟩
        · rw [direntPass, if_pos more, failed]
        · rw [failed, Outcome.err_bind] at listed
          have parsed := Outcome.bind_pure_eq_err.mp listed.symm
          rw [parseDirectoryRun, parsed]
          rfl
      · have again : direntPass buffer (fun _ => true) header entryCount (i, cursor) =
            .again (i + 1, next) := by
          rw [direntPass, if_pos more, read]
          dsimp only
          rw [u32_of_lt (by omega)]
        rcases induction (i + 1) next (by omega) kept with ⟨result, returned, rest⟩
        refine ⟨result, .of_again again returned, ?_⟩
        rw [read, Outcome.ok_bind] at listed
        rcases Outcome.bind_eq_ok.mp listed.symm with ⟨⟨dirent, tail⟩, parsed, same⟩
        rw [rest, parseDirectoryRun, parsed, Outcome.ok_bind]
        rcases Prod.mk.inj (Outcome.ok.inj same) with ⟨entries, bytes⟩
        rw [← entries, ← bytes]
        dsimp only
        cases parseDirectoryRun header left tail with
        | ok others =>
            simp only [Outcome.ok_bind, Outcome.pure_eq, List.append_assoc, List.singleton_append]
        | err code => rfl
        | fault => rfl

private theorem readDirents_listed {entryCount : Nat} (counted : entryCount < 2 ^ 32)
    (within : cursor.Within buffer) :
    (readDirents buffer (fun _ => true) header entryCount cursor >>= fun next =>
        pure (next.entries, buffer.rest next.ptr)) =
      (parseDirectoryRun header entryCount (buffer.rest cursor.ptr) >>= fun parsed =>
        pure (cursor.entries ++ parsed.1, parsed.2)) := by
  rcases @direntPass_listed buffer header entryCount counted entryCount 0 cursor
    (Nat.zero_add _) within with ⟨result, returned, listed⟩
  rw [(readDirents_returns buffer _ header entryCount cursor).unique returned]
  exact listed

private theorem readDirentRun_listed (within : cursor.Within buffer) :
    (readDirentRun buffer (fun _ => true) cursor >>= fun next =>
        pure (next.entries, buffer.rest next.ptr)) =
      (parseDirectoryHeader (buffer.rest cursor.ptr) >>= fun parsed =>
        pure (cursor.entries ++ parsed.1, parsed.2)) := by
  have inside := within.inside
  unfold readDirentRun parseDirectoryHeader
  rw [within.remaining, buffer.rest_length]
  by_cases short : buffer.end_ - cursor.ptr < 12
  · rw [if_pos short, if_pos short, Outcome.err_bind, Outcome.err_bind]
  rw [if_neg short, if_neg short]
  have count : sqfsLe32ToCpu (buffer.rest cursor.ptr) 0 = buffer.load 4 cursor.ptr :=
    DirectoryBuffer.load_rest (by omega)
  have start : sqfsLe32ToCpu (buffer.rest cursor.ptr) 4 = buffer.load 4 (cursor.ptr + 4) :=
    DirectoryBuffer.load_rest (by omega)
  have number : sqfsLe32ToCpu (buffer.rest cursor.ptr) 8 = buffer.load 4 (cursor.ptr + 8) :=
    DirectoryBuffer.load_rest (by omega)
  rw [count, start, number, DirectoryBuffer.load_of_le (by omega),
    DirectoryBuffer.load_of_le (by omega), DirectoryBuffer.load_of_le (by omega)]
  simp only [Outcome.ok_bind, DirectoryBuffer.drop_rest]
  have behind : DirectoryCursor.Within buffer { cursor with ptr := cursor.ptr + 12 } :=
    ⟨by dsimp only; omega, Nat.le_trans within.paid (Nat.le_add_right _ 12), within.room,
      within.small⟩
  exact readDirents_listed (Nat.mod_lt _ (Nat.two_pow_pos 32)) behind

private theorem direntRunPass_listed :
    ∀ (fuel : Nat) (cursor : DirectoryCursor), buffer.end_ - cursor.ptr ≤ fuel →
      cursor.Within buffer →
      ∃ result, Pass.Returns (direntRunPass buffer (fun _ => true)) cursor result ∧
        (result >>= fun last => pure last.entries) =
          (parseDirectoryLoop fuel (buffer.rest cursor.ptr) >>= fun others =>
            pure (cursor.entries ++ others)) := by
  intro fuel
  induction fuel with
  | zero =>
      intro cursor enough within
      have finished : ¬ cursor.ptr < buffer.end_ := by omega
      have nothing : buffer.rest cursor.ptr = [] :=
        List.eq_nil_of_length_eq_zero (by rw [buffer.rest_length]; omega)
      refine ⟨.ok cursor, .of_leave (if_neg finished), ?_⟩
      rw [nothing, parseDirectoryLoop, Outcome.ok_bind, Outcome.ok_bind, List.append_nil]
  | succ fuel induction =>
      intro cursor enough within
      have listed := @readDirentRun_listed buffer cursor within
      by_cases finished : cursor.ptr < buffer.end_
      · cases bytes : buffer.rest cursor.ptr with
        | nil =>
            have length := buffer.rest_length cursor.ptr
            rw [bytes, List.length_nil] at length
            omega
        | cons byte tail =>
            rw [parseDirectoryLoop, ← bytes]
            rcases @readDirentRun_advances buffer (fun _ => true) cursor within with
              ⟨code, failed⟩ | ⟨next, read, kept, moved⟩
            · refine ⟨.err code, .of_leave ?_, ?_⟩
              · rw [direntRunPass, if_pos finished, failed]
              · rw [failed, Outcome.err_bind] at listed
                have parsed := Outcome.bind_pure_eq_err.mp listed.symm
                rw [parsed]
                rfl
            · have again : direntRunPass buffer (fun _ => true) cursor = .again next := by
                rw [direntRunPass, if_pos finished, read]
              rcases induction next (by omega) kept with ⟨result, returned, rest⟩
              refine ⟨result, .of_again again returned, ?_⟩
              rw [read, Outcome.ok_bind] at listed
              rcases Outcome.bind_eq_ok.mp listed.symm with ⟨⟨dirents, tail⟩, parsed, same⟩
              rw [rest, parsed, Outcome.ok_bind]
              rcases Prod.mk.inj (Outcome.ok.inj same) with ⟨entries, others⟩
              rw [← entries, ← others]
              dsimp only
              cases parseDirectoryLoop fuel tail with
              | ok others => simp only [Outcome.ok_bind, Outcome.pure_eq, List.append_assoc]
              | err code => rfl
              | fault => rfl
      · have nothing : buffer.rest cursor.ptr = [] :=
          List.eq_nil_of_length_eq_zero (by rw [buffer.rest_length]; omega)
        refine ⟨.ok cursor, .of_leave (if_neg finished), ?_⟩
        rw [nothing, parseDirectoryLoop, Outcome.ok_bind, Outcome.ok_bind, List.append_nil]

/-- On its buffer the function parses what the listing of the bytes is, when no allocation
fails. -/
theorem readDirentRuns_listed (buffer : DirectoryBuffer) :
    (readDirentRuns buffer (fun _ => true) .initial >>= fun last => pure last.entries) =
      parseDirectoryEntries (buffer.rest 0) := by
  rcases @direntRunPass_listed buffer (buffer.rest 0).length .initial
    (by rw [buffer.rest_length]; exact Nat.le_refl _) .initial with ⟨result, returned, listed⟩
  unfold parseDirectoryEntries
  rw [(readDirentRuns_returns buffer _ .initial).unique returned]
  have start : DirectoryCursor.initial.ptr = 0 := rfl
  rw [start] at listed
  refine listed.trans ?_
  cases parseDirectoryLoop (buffer.rest 0).length (buffer.rest 0) <;> rfl

end Entries

end SquashfsFuse
