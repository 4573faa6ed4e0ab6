import SquashfsFuse.Data.Calls

/-! Calls that do not look the data cache up. -/

namespace SquashfsFuse

/-! ## Places in a file -/

inductive Place
  | hole
  | stored
  | tail
  | outside
  | unlisted
  deriving DecidableEq

def placeAt (file : SqfsFileCtx) (pos : Nat) : Place :=
  let blockIdx := u32 (u64 pos / file.blockSize)
  if blockIdx = file.blockCount ∧ sqfsFragmentIsNone file.fragIdx = false then
    .tail
  else
    match sqfsFileBlockLocation file blockIdx with
    | .fault => .unlisted
    | .err _ => .outside
    | .ok location => if location.size = 0 then .hole else .stored

def TailAt (file : SqfsFileCtx) (pos : Nat) : Prop :=
  u32 (u64 pos / file.blockSize) = file.blockCount ∧ sqfsFragmentIsNone file.fragIdx = false

def Place.Holds (file : SqfsFileCtx) (pos : Nat) : Place → Prop
  | .tail => TailAt file pos
  | .hole => ¬ TailAt file pos ∧ ∃ location,
      sqfsFileBlockLocation file (u32 (u64 pos / file.blockSize)) = .ok location ∧
        location.size = 0
  | .stored => ¬ TailAt file pos ∧ ∃ location,
      sqfsFileBlockLocation file (u32 (u64 pos / file.blockSize)) = .ok location ∧
        location.size ≠ 0
  | .outside => ¬ TailAt file pos ∧ ∃ error,
      sqfsFileBlockLocation file (u32 (u64 pos / file.blockSize)) = .err error
  | .unlisted => ¬ TailAt file pos ∧
      sqfsFileBlockLocation file (u32 (u64 pos / file.blockSize)) = .fault

theorem placeAt_holds (file : SqfsFileCtx) (pos : Nat) :
    (placeAt file pos).Holds file pos := by
  unfold placeAt
  dsimp only
  split
  · next isTail => exact isTail
  · next notTail =>
      split
      · next faults => exact ⟨notTail, faults⟩
      · next error failed => exact ⟨notTail, error, failed⟩
      · next location located =>
          split
          · next size => exact ⟨notTail, location, located, size⟩
          · next size => exact ⟨notTail, location, located, size⟩

/-- Reading at the position looks the cache up: a stored block is there, or a tail
inside the fragment block. -/
def LooksUp (ctx : SqfsCtx) (file : SqfsFileCtx) (pos : Nat) : Prop :=
  match placeAt file pos with
  | .stored => True
  | .tail => u32 (file.fragOffset + u64 pos % file.blockSize) < ctx.sb.blockSize
  | _ => False

def ReadCall.ComesTo (ctx : SqfsCtx) (call : ReadCall) (property : SqfsFileCtx → Nat → Prop) :
    Prop :=
  ∃ file pos, Enters ctx call.inode call.offset call.size file ∧
    call.offset ≤ pos ∧ pos < call.offset + requestSize file call.offset call.size ∧
    property file pos ∧ placeAt file pos ≠ .hole ∧
    ∀ earlier, call.offset ≤ earlier → earlier < pos → placeAt file earlier = .hole

def ReadCall.UsesCache (ctx : SqfsCtx) (call : ReadCall) : Prop := call.ComesTo ctx (LooksUp ctx)

def ReadCall.LacksSizeWord (ctx : SqfsCtx) (call : ReadCall) : Prop :=
  call.ComesTo ctx fun file pos => placeAt file pos = .unlisted

/-! ## Holes -/

section Holes

variable {ctx : SqfsCtx} {file : SqfsFileCtx}

private theorem placeAt_add (divides : file.blockSize ∣ 2 ^ 64) {pos step : Nat}
    (inside : step < file.blockSize - u64 pos % file.blockSize)
    (hole : placeAt file pos = .hole) : placeAt file (pos + step) = .hole := by
  have parts := Nat.div_add_mod (u64 pos) file.blockSize
  have below : u64 pos < 2 ^ 64 := Nat.mod_lt _ (by decide)
  have nextBlock : file.blockSize * (u64 pos / file.blockSize + 1) ≤ 2 ^ 64 := by
    rcases divides with ⟨blocks, all⟩
    rw [all] at below ⊢
    exact Nat.mul_le_mul_left _ (Nat.div_lt_of_lt_mul below)
  rw [Nat.mul_succ] at nextBlock
  have fits : u64 pos + step < 2 ^ 64 := by
    generalize u64 pos % file.blockSize = start at *
    generalize file.blockSize * (u64 pos / file.blockSize) = front at *
    omega
  have moved : u64 (pos + step) = u64 pos + step := by
    rw [u64, Nat.add_mod, Nat.mod_eq_of_lt (show step < 2 ^ 64 by omega)]
    exact Nat.mod_eq_of_lt fits
  have block : u64 (pos + step) / file.blockSize = u64 pos / file.blockSize := by
    apply Nat.div_eq_of_lt_le
    · rw [moved, Nat.mul_comm]
      omega
    · rw [moved, Nat.mul_comm, Nat.mul_succ]
      omega
  unfold placeAt at hole ⊢
  rwa [block]

/-- The state of the main loop at some progress. -/
def Progress.state (progress : Progress) (blockBuf : List Cell) (cache : C) : ReadState C where
  bytesRead := progress.bytesRead
  bytesRemaining := progress.bytesRemaining
  out := progress.out
  blockBuf
  cache

/-- The result of the reader in place of the plain one. -/
def PlainResult.result (plain : PlainResult) (cache : C) : ReadResult C where
  ret := plain.ret
  out := plain.out
  cache

/-- Up to the progress made, a request of `total` bytes went through holes. -/
structure ThroughHoles (file : SqfsFileCtx) (offset total : Nat) (progress : Progress) :
    Prop where
  total : progress.bytesRead + progress.bytesRemaining = total
  holes : ∀ pos, offset ≤ pos → pos < offset + progress.bytesRead → placeAt file pos = .hole

def holeLength (file : SqfsFileCtx) (offset : Nat) (progress : Progress) : Nat :=
  min (file.blockSize - u64 (offset + progress.bytesRead) % file.blockSize)
    progress.bytesRemaining

def Progress.overHole (file : SqfsFileCtx) (offset : Nat) (progress : Progress) : Progress :=
  progress.copied (List.replicate (holeLength file offset progress) (some 0))

variable {offset total : Nat} {progress : Progress}

theorem ThroughHoles.overHole (divides : file.blockSize ∣ 2 ^ 64)
    (through : ThroughHoles file offset total progress)
    (hole : placeAt file (offset + progress.bytesRead) = .hole) :
    ThroughHoles file offset total (progress.overHole file offset) where
  total := by
    have sum := through.total
    simp only [Progress.overHole, Progress.copied, List.length_replicate, holeLength]
    omega
  holes := by
    intro pos behind before
    simp only [Progress.overHole, Progress.copied, List.length_replicate, holeLength] at before
    by_cases earlier : pos < offset + progress.bytesRead
    · exact through.holes pos behind earlier
    · have here := placeAt_add divides
        (show pos - (offset + progress.bytesRead) < _ by omega) hole
      rwa [show offset + progress.bytesRead + (pos - (offset + progress.bytesRead)) = pos by
        omega] at here

section Passes

variable (cache : BlockCache C) (blockBuf : List Cell) (state : C)

theorem readPass_hole (unfinished : progress.bytesRemaining ≠ 0)
    (hole : placeAt file (offset + progress.bytesRead) = .hole) :
    readPass cache ctx file offset (progress.state blockBuf state) =
      .again ((progress.overHole file offset).state blockBuf state) := by
  have holds := placeAt_holds file (offset + progress.bytesRead)
  rw [hole] at holds
  rcases holds with ⟨notTail, location, located, size⟩
  rw [readPass, Progress.state, if_neg unfinished]
  dsimp only
  rw [located]
  exact (if_neg notTail).trans (if_pos size)

theorem readPass_tail (unfinished : progress.bytesRemaining ≠ 0)
    (tail : placeAt file (offset + progress.bytesRead) = .tail) :
    readPass cache ctx file offset (progress.state blockBuf state) =
      .leave (readTail cache ctx file (u64 (offset + progress.bytesRead) % file.blockSize)
        (progress.state blockBuf state)) := by
  have holds := placeAt_holds file (offset + progress.bytesRead)
  rw [tail] at holds
  rw [readPass, Progress.state, if_neg unfinished]
  exact if_pos holds

theorem readPass_unlisted (unfinished : progress.bytesRemaining ≠ 0)
    (unlisted : placeAt file (offset + progress.bytesRead) = .unlisted) :
    readPass cache ctx file offset (progress.state blockBuf state) = .leave none := by
  have holds := placeAt_holds file (offset + progress.bytesRead)
  rw [unlisted] at holds
  rcases holds with ⟨notTail, faults⟩
  rw [readPass, Progress.state, if_neg unfinished]
  dsimp only
  rw [faults]
  exact if_neg notTail

theorem readTail_behind {blockOffset : Nat} (hasTail : sqfsFragmentIsNone file.fragIdx = false)
    (behind : ctx.sb.blockSize ≤ u32 (file.fragOffset + blockOffset)) :
    readTail cache ctx file blockOffset (progress.state blockBuf state) =
      some ((progress.finished (toInt progress.bytesRemaining)
        (List.replicate progress.bytesRemaining (some 0))).result state) := by
  have corrupt : sqfsFragmentRead cache ctx state file.fragIdx (u32 (file.fragOffset + blockOffset))
      progress.bytesRemaining = .err (.corrupt, state) := by
    rw [sqfsFragmentRead, hasTail, if_neg Bool.false_ne_true, if_pos behind]
  rw [readTail, Progress.state, readFromFragment, corrupt, Progress.finished]
  dsimp only [Option.bind_eq_bind, Option.bind_some]
  split <;> rfl

private theorem readPass_faults (unfinished : progress.bytesRemaining ≠ 0)
    (looksUp : LooksUp ctx file (offset + progress.bytesRead))
    (absent : ∀ key, cache.get state key = none) :
    readPass cache ctx file offset (progress.state blockBuf state) = .leave none := by
  have holds := placeAt_holds file (offset + progress.bytesRead)
  rw [LooksUp] at looksUp
  cases place : placeAt file (offset + progress.bytesRead) with
  | stored =>
      rw [place] at holds
      rcases holds with ⟨notTail, location, located, size⟩
      have faults : readStored cache ctx file location
          (u64 (offset + progress.bytesRead) % file.blockSize)
          (progress.state blockBuf state) = .leave none := by
        rw [readStored, Progress.state, absent]
      rw [readPass, Progress.state, if_neg unfinished]
      dsimp only
      rw [located]
      exact (if_neg notTail).trans ((if_neg size).trans faults)
  | tail =>
      rw [place] at holds looksUp
      rw [readPass_tail cache blockBuf state unfinished place]
      have faults : ∀ size, sqfsFragmentRead cache ctx state file.fragIdx
          (u32 (file.fragOffset + u64 (offset + progress.bytesRead) % file.blockSize)) size =
            .fault := by
        intro size
        rw [sqfsFragmentRead, holds.2, if_neg Bool.false_ne_true,
          if_neg (Nat.not_le_of_lt looksUp), absent]
      rw [readTail, Progress.state, readFromFragment, faults]
      rfl
  | hole | outside | unlisted =>
      rw [place] at looksUp
      exact looksUp.elim

end Passes

theorem readPass_outside (ctx : SqfsCtx) (unfinished : progress.bytesRemaining ≠ 0)
    (outside : placeAt file (offset + progress.bytesRead) = .outside) :
    ∃ plain : PlainResult, ∀ (C : Type) (cache : BlockCache C) (blockBuf : List Cell) (state : C),
      readPass cache ctx file offset (progress.state blockBuf state) =
        .leave (some (plain.result state)) := by
  have holds := placeAt_holds file (offset + progress.bytesRead)
  rw [outside] at holds
  rcases holds with ⟨notTail, error, failed⟩
  by_cases zeros : error = .notFound ∧
      u32 (u64 (offset + progress.bytesRead) / file.blockSize) = file.blockCount
  · let filled := progress.copied (List.replicate progress.bytesRemaining (some 0))
    refine ⟨filled.returned (toInt filled.bytesRead), fun C cache blockBuf state => ?_⟩
    rw [readPass, Progress.state, if_neg unfinished]
    dsimp only
    rw [failed]
    exact (if_neg notTail).trans (if_pos zeros)
  · refine ⟨progress.returned error.code, fun C cache blockBuf state => ?_⟩
    rw [readPass, Progress.state, if_neg unfinished]
    dsimp only
    rw [failed]
    exact (if_neg notTail).trans (if_neg zeros)

private theorem throughHoles_ends (ctx : SqfsCtx) (divides : file.blockSize ∣ 2 ^ 64)
    (positive : 0 < file.blockSize) (through : ThroughHoles file offset total progress) :
    ∃ last, ThroughHoles file offset total last ∧
      (last.bytesRemaining = 0 ∨ placeAt file (offset + last.bytesRead) ≠ .hole) ∧
      ∀ (C : Type) (cache : BlockCache C) (blockBuf : List Cell) (state : C),
        Pass.Enters (readPass cache ctx file offset) (progress.state blockBuf state)
          (last.state blockBuf state) := by
  induction size : progress.bytesRemaining using Nat.strongRecOn generalizing progress with
  | _ bytesRemaining induction =>
      by_cases finished : progress.bytesRemaining = 0
      · exact ⟨progress, through, .inl finished, fun _ _ _ _ => .start _⟩
      · by_cases hole : placeAt file (offset + progress.bytesRead) = .hole
        · have inBlock := Nat.mod_lt (u64 (offset + progress.bytesRead)) positive
          have shrinks : (progress.overHole file offset).bytesRemaining < bytesRemaining := by
            simp only [Progress.overHole, Progress.copied, List.length_replicate, holeLength]
            omega
          rcases induction _ shrinks (through.overHole divides hole) rfl with
            ⟨last, lastThrough, stops, enters⟩
          exact ⟨last, lastThrough, stops, fun C cache blockBuf state =>
            .again (readPass_hole cache blockBuf state finished hole)
              (enters C cache blockBuf state)⟩
        · exact ⟨progress, through, .inr hole, fun _ _ _ _ => .start _⟩

/-- A pass that does not look the cache up and is not at a hole leaves the loop with
the same answer from every cache. There is none exactly at a block without a size
word. -/
theorem readPass_untouched (stops : progress.bytesRemaining = 0 ∨
      placeAt file (offset + progress.bytesRead) ≠ .hole)
    (untouched : progress.bytesRemaining ≠ 0 → ¬ LooksUp ctx file (offset + progress.bytesRead)) :
    ∃ answer : Option PlainResult,
      (answer = none ↔ progress.bytesRemaining ≠ 0 ∧
        placeAt file (offset + progress.bytesRead) = .unlisted) ∧
      ∀ (C : Type) (cache : BlockCache C) (blockBuf : List Cell) (state : C),
        readPass cache ctx file offset (progress.state blockBuf state) =
          .leave (answer.map fun plain => plain.result state) := by
  by_cases finished : progress.bytesRemaining = 0
  · refine ⟨some (progress.returned (toInt progress.bytesRead)),
      iff_of_false (Option.some_ne_none _) (fun lacks => lacks.1 finished),
      fun C cache blockBuf state => ?_⟩
    rw [readPass, Progress.state, if_pos finished]
    rfl
  · have notHole := stops.resolve_left finished
    have notUp := untouched finished
    rw [LooksUp] at notUp
    cases place : placeAt file (offset + progress.bytesRead) with
    | hole => exact absurd place notHole
    | stored =>
        rw [place] at notUp
        exact absurd trivial notUp
    | tail =>
        have holds := placeAt_holds file (offset + progress.bytesRead)
        rw [place] at notUp holds
        refine ⟨some (progress.finished (toInt progress.bytesRemaining)
          (List.replicate progress.bytesRemaining (some 0))),
          iff_of_false (Option.some_ne_none _) (fun lacks => by simp at lacks),
          fun C cache blockBuf state => ?_⟩
        rw [readPass_tail cache blockBuf state finished place,
          readTail_behind cache blockBuf state holds.2 (Nat.le_of_not_lt notUp)]
        rfl
    | outside =>
        rcases readPass_outside ctx finished place with ⟨plain, leaves⟩
        exact ⟨some plain, iff_of_false (Option.some_ne_none _) (fun lacks => by simp at lacks),
          leaves⟩
    | unlisted =>
        exact ⟨none, iff_of_true rfl ⟨finished, rfl⟩, fun C cache blockBuf state =>
          readPass_unlisted cache blockBuf state finished place⟩

end Holes

/-! ## Calls -/

section Calls

variable {ctx : SqfsCtx} {call : ReadCall} {file : SqfsFileCtx} {progress : Progress}
  {property : SqfsFileCtx → Nat → Prop}

theorem ThroughHoles.comesTo_iff (entered : Enters ctx call.inode call.offset call.size file)
    (through : ThroughHoles file call.offset (requestSize file call.offset call.size) progress)
    (stops : progress.bytesRemaining = 0 ∨
      placeAt file (call.offset + progress.bytesRead) ≠ .hole) :
    call.ComesTo ctx property ↔ progress.bytesRemaining ≠ 0 ∧
      placeAt file (call.offset + progress.bytesRead) ≠ .hole ∧
        property file (call.offset + progress.bytesRead) := by
  have sum := through.total
  constructor
  · rintro ⟨other, pos, otherEntered, behind, before, has, notHole, holes⟩
    obtain rfl : other = file := Except.ok.inj (otherEntered.init.symm.trans entered.init)
    have notBefore : ¬ pos < call.offset + progress.bytesRead :=
      fun earlier => notHole (through.holes pos behind earlier)
    have unfinished : progress.bytesRemaining ≠ 0 := by omega
    have notBehind : ¬ call.offset + progress.bytesRead < pos :=
      fun later => stops.resolve_left unfinished
        (holes _ (Nat.le_add_right _ _) later)
    obtain rfl : pos = call.offset + progress.bytesRead := by omega
    exact ⟨unfinished, notHole, has⟩
  · rintro ⟨unfinished, notHole, has⟩
    exact ⟨file, _, entered, Nat.le_add_right _ _, by omega, has, notHole, through.holes⟩

theorem LooksUp.ne_hole {pos : Nat} (looksUp : LooksUp ctx file pos) :
    placeAt file pos ≠ .hole := by
  intro hole
  rw [LooksUp, hole] at looksUp
  exact looksUp

private theorem throughHoles_begun (file : SqfsFileCtx) (offset total : Nat) :
    ThroughHoles file offset total ⟨0, total, []⟩ where
  total := Nat.zero_add total
  holes _ behind before := absurd before (Nat.not_lt_of_le behind)

theorem Enters.begins {inode : SqfsInode} {offset size : Nat}
    (entered : Enters ctx inode offset size file) (state : C) :
    readStart ctx state inode offset size = .loops file
      (Progress.state ⟨0, requestSize file offset size, []⟩ (List.replicate file.blockSize none)
        state) :=
  entered.loops state

theorem Enters.throughHoles (entered : Enters ctx call.inode call.offset call.size file) :
    ∃ last,
      ThroughHoles file call.offset (requestSize file call.offset call.size) last ∧
      (last.bytesRemaining = 0 ∨ placeAt file (call.offset + last.bytesRead) ≠ .hole) ∧
      ∀ (C : Type) (cache : BlockCache C) (blockBuf : List Cell) (state : C),
        Pass.Enters (readPass cache ctx file call.offset)
          (Progress.state ⟨0, requestSize file call.offset call.size, []⟩ blockBuf state)
          (last.state blockBuf state) := by
  have blockSize := (sqfsFileCtxInit_fields entered.init).1
  apply throughHoles_ends ctx
  · rw [blockSize]
    exact ctx.sb.blockSize_dvd
  · rw [blockSize]
    exact ctx.sb.blockSize_pos
  · exact throughHoles_begun file call.offset _

theorem ReadCall.answer_untouched (untouched : ¬ call.UsesCache ctx) :
    ∃ answer : Option PlainResult, (answer = none ↔ call.LacksSizeWord ctx) ∧
      ∀ (C : Type) (cache : BlockCache C) (state : C),
        SqfsDataRead cache ctx state call.inode call.offset call.size
          (answer.map fun plain => plain.result state) := by
  rcases readStart_returns_or_enters ctx call.inode call.offset call.size with
    ⟨ret, early⟩ | ⟨file, entered, -⟩
  · refine ⟨some ⟨ret, []⟩, iff_of_false (Option.some_ne_none _) ?_, fun C cache state => ?_⟩
    · rintro ⟨file, pos, entered, -⟩
      have loops := entered.begins ()
      rw [early] at loops
      cases loops
    · rw [SqfsDataRead, early]
      rfl
  · rcases entered.throughHoles with ⟨last, through, stops, enters⟩
    have notUp : last.bytesRemaining ≠ 0 → ¬ LooksUp ctx file (call.offset + last.bytesRead) :=
      fun unfinished looksUp =>
        untouched ((through.comesTo_iff entered stops).mpr ⟨unfinished, looksUp.ne_hole, looksUp⟩)
    rcases readPass_untouched stops notUp with ⟨answer, lacks, leaves⟩
    refine ⟨answer, lacks.trans ?_, fun C cache state => ?_⟩
    · constructor
      · rintro ⟨unfinished, unlisted⟩
        have notHole : placeAt file (call.offset + last.bytesRead) ≠ .hole := by
          rw [unlisted]
          decide
        exact (through.comesTo_iff entered stops).mpr ⟨unfinished, notHole, unlisted⟩
      · intro lacksSizeWord
        rcases (through.comesTo_iff entered stops).mp lacksSizeWord with
          ⟨unfinished, -, unlisted⟩
        exact ⟨unfinished, unlisted⟩
    · rw [SqfsDataRead, entered.begins]
      exact (enters C cache _ state).returns (.of_leave (leaves C cache _ state))

def LooksUpAt (ctx : SqfsCtx) (file : SqfsFileCtx) (offset : Nat) (state : ReadState C) : Prop :=
  state.bytesRemaining ≠ 0 ∧ LooksUp ctx file (offset + state.bytesRead)

theorem ReadCall.UsesCache.reaches (uses : call.UsesCache ctx) {C : Type} (cache : BlockCache C)
    (state : C) : ∃ file begun reached,
      readStart ctx state call.inode call.offset call.size = .loops file begun ∧
      Pass.Enters (readPass cache ctx file call.offset) begun reached ∧
      LooksUpAt ctx file call.offset reached ∧ reached.cache = state := by
  have ⟨file, _, entered, _⟩ := uses
  rcases entered.throughHoles with ⟨last, through, stops, enters⟩
  rcases (through.comesTo_iff entered stops).mp uses with ⟨unfinished, -, looksUp⟩
  exact ⟨file, _, _, entered.begins state, enters C cache _ state, ⟨unfinished, looksUp⟩, rfl⟩

theorem ReadCall.UsesCache.faults (uses : call.UsesCache ctx) {cache : BlockCache C} {state : C}
    (absent : ∀ key, cache.get state key = none) :
    SqfsDataRead cache ctx state call.inode call.offset call.size none := by
  have ⟨file, _, entered, _⟩ := uses
  rcases entered.throughHoles with ⟨last, through, stops, enters⟩
  rcases (through.comesTo_iff entered stops).mp uses with ⟨unfinished, -, looksUp⟩
  rw [SqfsDataRead, entered.begins]
  apply (enters C cache _ state).returns
  exact .of_leave (readPass_faults cache _ state unfinished looksUp absent)

/-- On a cache which cannot be looked up, a call crashes exactly when it looks it up or
comes to a block without a size word. -/
theorem ReadCall.crashes_iff {cache : BlockCache C} {state : C}
    (absent : ∀ key, cache.get state key = none) :
    SqfsDataRead cache ctx state call.inode call.offset call.size none ↔
      call.UsesCache ctx ∨ call.LacksSizeWord ctx := by
  constructor
  · intro crashes
    apply or_iff_not_imp_left.mpr
    intro untouched
    rcases ReadCall.answer_untouched untouched with ⟨answer, lacks, reads⟩
    apply lacks.mp
    exact Option.map_eq_none_iff.mp ((reads C cache state).unique crashes)
  · rintro (uses | lacksSizeWord)
    · exact uses.faults absent
    · by_cases uses : call.UsesCache ctx
      · exact uses.faults absent
      · rcases ReadCall.answer_untouched uses with ⟨answer, lacks, reads⟩
        have read := reads C cache state
        rwa [lacks.mpr lacksSizeWord] at read

private theorem ThroughHoles.usesCache (entered : Enters ctx call.inode call.offset call.size file)
    (through : ThroughHoles file call.offset (requestSize file call.offset call.size) progress)
    (unfinished : progress.bytesRemaining ≠ 0)
    (looksUp : LooksUp ctx file (call.offset + progress.bytesRead)) : call.UsesCache ctx :=
  (through.comesTo_iff entered (.inr looksUp.ne_hole)).mpr
    ⟨unfinished, looksUp.ne_hole, looksUp⟩

theorem ThroughHoles.again (entered : Enters ctx call.inode call.offset call.size file)
    (untouched : ¬ call.UsesCache ctx)
    (through : ThroughHoles file call.offset (requestSize file call.offset call.size) progress)
    {cache : BlockCache C} {blockBuf : List Cell} {state : C} {next : ReadState C}
    (repeated : readPass cache ctx file call.offset (progress.state blockBuf state) =
      .again next) :
    ∃ after : Progress, next = after.state blockBuf state ∧
      ThroughHoles file call.offset (requestSize file call.offset call.size) after := by
  by_cases stops : progress.bytesRemaining = 0 ∨
      placeAt file (call.offset + progress.bytesRead) ≠ .hole
  · rcases readPass_untouched stops fun unfinished looksUp =>
      untouched (through.usesCache entered unfinished looksUp) with ⟨answer, -, leaves⟩
    rw [leaves] at repeated
    cases repeated
  · rw [not_or, not_not] at stops
    have blockSize := (sqfsFileCtxInit_fields entered.init).1
    have divides : file.blockSize ∣ 2 ^ 64 := by
      rw [blockSize]
      exact ctx.sb.blockSize_dvd
    rw [readPass_hole cache blockBuf state stops.1 stops.2] at repeated
    cases repeated
    exact ⟨_, rfl, through.overHole divides stops.2⟩

theorem ReadCall.usesCache_of_reached {cache : BlockCache C} {state : C}
    {begun reached : ReadState C}
    (loops : readStart ctx state call.inode call.offset call.size = .loops file begun)
    (enters : Pass.Enters (readPass cache ctx file call.offset) begun reached)
    (looksUp : LooksUpAt ctx file call.offset reached) : call.UsesCache ctx := by
  by_contra untouched
  rcases readStart_returns_or_enters ctx call.inode call.offset call.size with
    ⟨ret, early⟩ | ⟨other, entered, -⟩
  · rw [early] at loops
    cases loops
  · rw [entered.begins] at loops
    cases loops
    have followed : ∃ progress : Progress,
        reached = progress.state (List.replicate file.blockSize none) state ∧
          ThroughHoles file call.offset (requestSize file call.offset call.size) progress := by
      apply enters.invariant
      · exact ⟨_, rfl, throughHoles_begun file call.offset _⟩
      · rintro _ next ⟨progress, rfl, through⟩ repeated
        exact through.again entered untouched repeated
    rcases followed with ⟨progress, rfl, through⟩
    exact untouched (through.usesCache entered looksUp.1 looksUp.2)

end Calls

end SquashfsFuse
