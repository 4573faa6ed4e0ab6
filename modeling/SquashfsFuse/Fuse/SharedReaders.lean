import SquashfsFuse.Data.SharedPasses
import SquashfsFuse.Fuse.AnyImage

/-! Threads of a mounted image that read files at the same time. -/

namespace SquashfsFuse

/-! ## Readers -/

/-- A call of `sqfs_vfs_read`. -/
structure FileRead where
  fh : SqfsVfsFh
  offset : Nat
  size : Nat

/-- Where a thread is that makes one call after the other: what the calls returned so far,
`none` standing for a fault, the calls that are left, and the main loop of the first of
them. -/
structure Reader where
  answers : List (Option PlainResult)
  todo : List FileRead
  reading : Option (SqfsFileCtx × ReadState Unit)

namespace Reader

def start (calls : List FileRead) : Reader where
  answers := []
  todo := calls
  reading := none

def returned (reader : Reader) (result : ReadResult Unit) : Reader where
  answers := reader.answers ++ [some result.toVfs.answer]
  todo := reader.todo.tail
  reading := none

def faulted (reader : Reader) : Reader where
  answers := reader.answers ++ [none]
  todo := []
  reading := none

/-- What comes behind a pass of the main loop. -/
def passed (reader : Reader) (file : SqfsFileCtx) :
    Pass (ReadState Unit) (Option (ReadResult Unit)) → Reader
  | .again state => { reader with reading := some (file, state) }
  | .leave (some result) => reader.returned result
  | .leave none => reader.faulted

/-- The program of a thread behind the last one: a pass of the main loop of `sqfs_data_read`, or
`sqfs_vfs_read` up to that loop. -/
def goOn (ctx : SqfsCtx) (reader : Reader) : Option (CacheProgram Reader) :=
  match reader.todo with
  | [] => none
  | read :: _ =>
      match reader.reading with
      | some (file, state) =>
          some ((readPassProgram ctx file read.offset state).map (reader.passed file))
      | none =>
          if read.fh.fileSize ≤ read.offset then
            some (.done (reader.returned { ret := 0, out := [], cache := () }))
          else
            match readStart ctx () read.fh.inode read.offset
                (vfsReadSize read.fh.fileSize read.offset read.size) with
            | .returns ret => some (.done (reader.returned { ret, out := [], cache := () }))
            | .loops file state => some (.done { reader with reading := some (file, state) })

end Reader

private theorem Reader.todo_of_finished {ctx : SqfsCtx} {reader : Reader}
    (finished : reader.goOn ctx = none) : reader.todo = [] := by
  rw [Reader.goOn] at finished
  split at finished
  · assumption
  · split at finished
    · cases finished
    · split at finished
      · cases finished
      · split at finished
        · cases finished
        · cases finished

/-- Threads that make their calls on one data cache. -/
def fileReaders (cache : SqfsCache BlockEntry) (calls : Thread → List FileRead) :
    Crowd Thread DataCache ReaderCall ReaderCall.Answer Reader where
  shared := .fresh cache
  programs thread := .done (.start (calls thread))

/-! ## What the calls return -/

/-- The handle was opened at a path where the file system has a file, and the file has the bytes
where the call reads. -/
structure FileRead.Finds (ctx : SqfsCtx) (store : ImageStore) (read : FileRead)
    (bytes : List UInt8) : Prop where
  offsetFits : read.offset < 2 ^ 63
  sizeFits : read.size < 2 ^ 31
  found : ∃ (path : List UInt8) (address : UInt64) (handle ref : Nat) (content : List UInt8),
    Absolute path ∧ sqfsVfsOpen ctx path address.toNat handle = .ok read.fh ∧
      store.find (pathComponents path) = .ok ref ∧ store.node ref = .file content ∧
      bytes = (content.drop read.offset).take read.size

/-- The result of a call that delivers the bytes. -/
def delivered (bytes : List UInt8) : PlainResult where
  ret := bytes.length
  out := bytes.map some

/-- The size that `sqfs_vfs_read` asks for. -/
def FileRead.limited (read : FileRead) : Nat :=
  vfsReadSize read.fh.fileSize read.offset read.size

section Calls

variable {ctx : SqfsCtx} {store : ImageStore} {read : FileRead} {bytes : List UInt8}

private theorem ReadResult.answer_delivered {result : ReadResult Unit} (ret : result.ret = bytes.length)
    (out : result.out = bytes.map some) : result.toVfs.answer = delivered bytes := by
  have positive : ¬ result.ret < 0 := by
    rw [ret]
    omega
  rw [ReadResult.answer, ReadResult.toVfs, if_neg positive, ret, out]
  rfl

theorem FileRead.Finds.handle (finds : read.Finds ctx store bytes) (stores : Stores ctx store) :
    ∃ ref content, HandleOn ctx store ref content read.fh ∧
      bytes = (content.drop read.offset).take read.size := by
  rcases finds.found with
    ⟨path, address, handle, ref, content, absolute, opened, leads, isFile, bytes⟩
  have resolves := stores.resolves absolute address
  rw [leads] at resolves
  rcases resolves with ⟨inode, resolved, loads, -⟩
  refine ⟨ref, content, ⟨sqfsVfsOpen_opened opened, ?_, isFile⟩, bytes⟩
  rcases sqfsVfsOpen_eq_ok.mp opened with ⟨other, same, -, -, isHandle⟩
  rw [resolved] at same
  cases same
  rw [isHandle]
  exact loads

theorem FileRead.Finds.nothing (finds : read.Finds ctx store bytes) (stores : Stores ctx store)
    (outside : read.fh.fileSize ≤ read.offset) : bytes = [] := by
  rcases finds.handle stores with ⟨ref, content, handle, rfl⟩
  rcases handle.contextOf stores with ⟨-, -, -, -, -, length, -⟩
  rw [List.drop_of_length_le (by omega), List.take_nil]

theorem FileRead.Finds.plainRead (finds : read.Finds ctx store bytes) (stores : Stores ctx store)
    (inside : ¬ read.fh.fileSize ≤ read.offset) :
    PlainRead ctx read.fh.inode read.offset read.limited (some (delivered bytes)) := by
  have offsetFits := finds.offsetFits
  have sizeFits := finds.sizeFits
  rcases finds.handle stores with ⟨ref, content, handle, rfl⟩
  rcases handle.contextOf stores with ⟨file, init, wellFormed, unpacks, sameSize, length, rfl⟩
  have limited : read.limited = min read.size (read.fh.fileSize - read.offset) :=
    vfsReadSize_of_lt (by omega) (by omega)
  have plain := wellFormed.plainRead unpacks init (by omega)
    (show read.offset + read.limited < 2 ^ 64 by omega)
  have asked : min read.limited (file.fileSize - read.offset) = read.limited := by omega
  have same : ((fileContent ctx file).drop read.offset).take read.limited =
      (((fileContent ctx file).take file.fileSize).drop read.offset).take read.size := by
    rw [List.drop_take, List.take_take]
    apply congrArg (List.take · _)
    omega
  rw [asked, same] at plain
  have count : ((((fileContent ctx file).take file.fileSize).drop read.offset).take
      read.size).length = read.limited := by
    rw [List.length_take, List.length_drop, length]
    omega
  rw [delivered, count]
  exact plain

end Calls

/-! ## What a thread keeps -/

/-- A call with the bytes it is to deliver. -/
abbrev ReadJob := FileRead × List UInt8

def ReadJob.PaidBy (ctx : SqfsCtx) (job : ReadJob) (passes : Nat) : Prop :=
  ∀ file begun, ¬ job.1.fh.fileSize ≤ job.1.offset →
    readStart ctx () job.1.fh.inode job.1.offset job.1.limited = .loops file begun →
    Pass.iterate (plainPass ctx file job.1.offset) passes ⟨0, begun.bytesRemaining, []⟩ =
      some (some (delivered job.2))

/-- The steps that a thread takes for the calls at most: one to begin a call, and seven for each
pass. -/
def readSteps (passes : ReadJob → Nat) (jobs : List ReadJob) : Nat :=
  (jobs.map fun job => 7 * passes job + 1).sum

/-- The thread has made its first calls, which delivered what they were to deliver, and is
before the next one or inside its main loop, where the plain reader would be, too. -/
inductive Reader.Keeps (ctx : SqfsCtx) (jobs : List ReadJob) (passes : ReadJob → Nat)
    (left : Nat) (reader : Reader) : Prop
  | between (before after : List ReadJob) (whole : jobs = before ++ after)
      (is : reader =
        ⟨before.map fun job => some (delivered job.2), after.map Prod.fst, none⟩)
      (enough : readSteps passes after ≤ left)
  | inside (before after : List ReadJob) (job : ReadJob) (file : SqfsFileCtx)
      (state : ReadState Unit) (progress : Progress) (fuel : Nat)
      (whole : jobs = before ++ job :: after)
      (is : reader = ⟨before.map fun job => some (delivered job.2),
        (job :: after).map Prod.fst, some (file, state)⟩)
      (entered : Enters ctx job.1.fh.inode job.1.offset job.1.limited file)
      (tracks : Tracks (fun _ => True) file
        (requestSize file job.1.offset job.1.limited) progress state)
      (delivers : Pass.iterate (plainPass ctx file job.1.offset) fuel progress =
        some (some (delivered job.2)))
      (enough : 7 * fuel + readSteps passes after ≤ left)

section Keeps

variable {ctx : SqfsCtx} {store : ImageStore} {jobs before after : List ReadJob} {job : ReadJob}
  {passes : ReadJob → Nat} {left : Nat} {reader : Reader}

theorem ReadJob.mem_of_whole (whole : jobs = before ++ job :: after) : job ∈ jobs := by
  rw [whole]
  exact List.mem_append_right _ List.mem_cons_self

theorem Reader.Keeps.returned {result : ReadResult Unit} (whole : jobs = before ++ job :: after)
    (answers : reader.answers = before.map fun job => some (delivered job.2))
    (todo : reader.todo = (job :: after).map Prod.fst) (ret : result.ret = job.2.length)
    (out : result.out = job.2.map some) (enough : readSteps passes after ≤ left) :
    Reader.Keeps ctx jobs passes left (reader.returned result) := by
  refine .between (before ++ [job]) after ?_ ?_ enough
  · rw [whole, List.append_assoc]
    rfl
  · rw [Reader.returned, answers, todo, ReadResult.answer_delivered ret out, List.map_append]
    rfl

theorem Reader.Keeps.begins (stores : Stores ctx store)
    (finds : job.1.Finds ctx store job.2) (paid : job.PaidBy ctx (passes job))
    (whole : jobs = before ++ job :: after)
    (enough : readSteps passes (job :: after) ≤ left) :
    ∃ next, Reader.goOn ctx ⟨before.map fun job => some (delivered job.2),
        (job :: after).map Prod.fst, none⟩ = some (.done next) ∧
      Reader.Keeps ctx jobs passes (left - 1) next := by
  rw [readSteps, List.map_cons, List.sum_cons] at enough
  have rest : readSteps passes after ≤ left - 1 := by
    rw [readSteps]
    omega
  rw [List.map_cons]
  dsimp only [Reader.goOn]
  by_cases outside : job.1.fh.fileSize ≤ job.1.offset
  · have nothing := finds.nothing stores outside
    refine ⟨_, if_pos outside, .returned whole rfl rfl ?_ ?_ rest⟩
    · rw [nothing]
      rfl
    · rw [nothing]
      rfl
  · rw [if_neg outside]
    have plain := finds.plainRead stores outside
    rcases readStart_returns_or_enters ctx job.1.fh.inode job.1.offset job.1.limited with
      ⟨ret, early⟩ | ⟨file, entered, loops⟩
    · rw [PlainRead, early Unit ()] at plain
      have equal := Option.some.inj plain
      rw [delivered, PlainResult.mk.injEq] at equal
      have start := early Unit ()
      rw [FileRead.limited] at start
      rw [start]
      exact ⟨_, rfl, .returned whole rfl rfl equal.1.symm equal.2.symm rest⟩
    · have start := loops Unit ()
      have delivers := paid file _ outside start
      rw [FileRead.limited] at start
      rw [start]
      refine ⟨_, rfl, .inside before after job file _ _ (passes job) whole rfl entered
        (Tracks.start file _ trivial) delivers ?_⟩
      rw [readSteps]
      omega

theorem Reader.Keeps.mono (keeps : reader.Keeps ctx jobs passes left) {more : Nat}
    (atLeast : left ≤ more) : reader.Keeps ctx jobs passes more := by
  cases keeps with
  | between before after whole is enough =>
      exact .between before after whole is (Nat.le_trans enough atLeast)
  | inside before after job file state progress fuel whole is entered tracks delivers enough =>
      exact .inside before after job file state progress fuel whole is entered tracks delivers
        (Nat.le_trans enough atLeast)

theorem Reader.Keeps.continues (stores : Stores ctx store) (finds : job.1.Finds ctx store job.2)
    {file : SqfsFileCtx} {state : ReadState Unit} {progress : Progress} {fuel : Nat}
    (whole : jobs = before ++ job :: after)
    (is : reader = ⟨before.map fun job => some (delivered job.2),
      (job :: after).map Prod.fst, some (file, state)⟩)
    (entered : Enters ctx job.1.fh.inode job.1.offset job.1.limited file)
    (tracks : Tracks (fun _ => True) file (requestSize file job.1.offset job.1.limited) progress
      state)
    (delivers : Pass.iterate (plainPass ctx file job.1.offset) fuel progress =
      some (some (delivered job.2)))
    (enough : 7 * fuel + readSteps passes after ≤ left) :
    0 < left ∧ ((readPassProgram ctx file job.1.offset state).map (reader.passed file)).Meets
      (ReaderCall.Offers (ExpectedByAll ctx store)) (ReaderCall.Serves (ExpectedByAll ctx store))
      (Reader.Keeps ctx jobs passes) (left - 1) := by
  cases fuel with
  | zero => cases delivers
  | succ fuel =>
      refine ⟨by omega, ?_⟩
      rcases finds.handle stores with ⟨ref, content, handle, -⟩
      have agrees := stores.agrees
        (show ReadsFile ctx store ⟨job.1.fh.inode, job.1.offset, job.1.limited⟩ from
          ⟨ref, content, handle.loads, handle.isFile⟩) file entered
      have blockSize := (sqfsFileCtxInit_fields entered.init).1
      have reaches := readPassProgram_reaches agrees (blockSize ▸ ctx.sb.blockSize_le)
        (blockSize ▸ ctx.sb.blockSize_pos) tracks
        (show 7 * fuel + readSteps passes after + 6 ≤ left - 1 by omega)
      apply Program.Meets.map
      apply Program.Meets.mono reaches
      rintro rest pass ⟨paid, matched⟩
      have later : readSteps passes after ≤ rest := by omega
      cases plain : plainPass ctx file job.1.offset progress with
      | leave result =>
          rw [Pass.iterate_leave fuel plain] at delivers
          rw [plain, Option.some.inj delivers] at matched
          match pass, matched with
          | .leave (some result), ⟨ret, out, _⟩ =>
              have todo : reader.todo = (job :: after).map Prod.fst := by rw [is]
              have answers : reader.answers = before.map fun job => some (delivered job.2) := by
                rw [is]
              exact .returned whole answers todo ret out.of_known later
      | again next =>
          rw [Pass.iterate_again fuel plain] at delivers
          rw [plain] at matched
          match pass, matched with
          | .again nextState, tracked =>
              refine .inside before after job file nextState next fuel whole ?_ entered tracked
                delivers paid
              rw [Reader.passed, is]

/-- The rule for threads that read files of the file system at the same time. -/
theorem Stores.readers (stores : Stores ctx store) {jobs : Thread → List ReadJob}
    (finds : ∀ thread, ∀ job ∈ jobs thread, job.1.Finds ctx store job.2)
    (paid : ∀ thread, ∀ job ∈ jobs thread, job.PaidBy ctx (passes job)) :
    Crowd.Discipline sharedDataCache (Reader.goOn ctx) (DataCache.Keeps (ExpectedByAll ctx store))
      (ReaderCall.Offers (ExpectedByAll ctx store)) (ReaderCall.Serves (ExpectedByAll ctx store))
      (fun thread left reader => reader.Keeps ctx (jobs thread) passes left) where
  serves := sharedDataCache_keeps
  goesOn := by
    intro thread left reader program keeps behind
    cases keeps with
    | between before after whole is enough =>
        cases after with
        | nil =>
            rw [is] at behind
            cases behind
        | cons job after =>
            have member := ReadJob.mem_of_whole whole
            rcases Reader.Keeps.begins stores (finds thread job member)
              (paid thread job member) whole enough with ⟨next, begun, kept⟩
            rw [is, begun] at behind
            cases behind
            rw [readSteps, List.map_cons, List.sum_cons] at enough
            exact ⟨by omega, kept⟩
    | inside before after job file state progress fuel whole is entered tracks delivers enough =>
        have member := ReadJob.mem_of_whole whole
        have continues := Reader.Keeps.continues stores (finds thread job member) whole is
          entered tracks delivers enough
        rw [is] at behind continues
        cases behind
        exact continues
  rests := by
    intro thread left reader keeps finished
    cases keeps with
    | between before after whole is enough =>
        cases after with
        | nil => exact .between before [] whole is (Nat.zero_le _)
        | cons job after =>
            have member := ReadJob.mem_of_whole whole
            rcases Reader.Keeps.begins stores (finds thread job member)
              (paid thread job member) whole enough with ⟨next, begun, -⟩
            rw [is, begun] at finished
            cases finished
    | inside before after job file state progress fuel whole is _ _ _ _ =>
        rw [is] at finished
        cases finished

theorem FileRead.Finds.paid (finds : job.1.Finds ctx store job.2) (stores : Stores ctx store) :
    ∃ passes, job.PaidBy ctx passes := by
  by_cases outside : job.1.fh.fileSize ≤ job.1.offset
  · exact ⟨0, fun _ _ inside => absurd outside inside⟩
  · have plain := finds.plainRead stores outside
    rcases readStart_returns_or_enters ctx job.1.fh.inode job.1.offset job.1.limited with
      ⟨ret, early⟩ | ⟨file, -, loops⟩
    · refine ⟨0, fun file begun _ start => ?_⟩
      rw [early Unit ()] at start
      cases start
    · rw [PlainRead, loops Unit ()] at plain
      rcases plain with ⟨passes, delivers⟩
      refine ⟨passes, fun other begun _ start => ?_⟩
      rw [loops Unit ()] at start
      cases start
      exact delivers

end Keeps

/-! ## What a thread uses -/

/-- The rule for threads that spare what the others are about to read. -/
theorem Reader.handover (ctx : SqfsCtx) :
    Crowd.Handover sharedDataCache (Reader.goOn ctx) DataCache.Accounted
      (fun state entry => entry ∉ state.cache.freed) ReaderCall.Drops ReaderCall.uses
      ReaderCall.gives where
  serves := sharedDataCache_serves
  goesOn := by
    intro reader program behind
    rw [Reader.goOn] at behind
    split at behind
    · cases behind
    · split at behind
      · cases behind
        exact readPassProgram_careful.map _
      · split at behind
        · cases behind
          exact CarefulReader.done _
        · split at behind
          · cases behind
            exact CarefulReader.done _
          · cases behind
            exact CarefulReader.done _

/-! ## All orders -/

section Orders

variable {ctx : SqfsCtx} {store : ImageStore} {Thread : Type} [DecidableEq Thread]
  {jobs : Thread → List ReadJob} {cache : SqfsCache BlockEntry} {maxEntries maxMemory : Nat}
  {hasFreeFn : Bool}

/-- The bytes that a thread was delivered are those of its first calls, and when it takes steps
enough, those of all its calls. -/
theorem Stores.readersDeliver (stores : Stores ctx store)
    (init : sqfsCacheInit maxEntries maxMemory hasFreeFn = some cache)
    (finds : ∀ thread, ∀ job ∈ jobs thread, job.1.Finds ctx store job.2) (thread : Thread) :
    ∃ steps, ∀ schedule last,
      (fileReaders cache fun thread => (jobs thread).map Prod.fst).run sharedDataCache
        (Reader.goOn ctx) schedule = some last →
      (∀ reader, last.programs thread = .done reader →
        reader.answers <+: (jobs thread).map fun job => some (delivered job.2)) ∧
      (steps ≤ schedule.count thread → ∃ reader, last.programs thread = .done reader ∧
        reader.answers = (jobs thread).map fun job => some (delivered job.2)) := by
  have each : ∀ job : ReadJob, ∃ passes, ∀ thread, job ∈ jobs thread → job.PaidBy ctx passes := by
    intro job
    by_cases some : ∃ thread, job ∈ jobs thread
    · rcases some with ⟨thread, member⟩
      rcases (finds thread job member).paid stores with ⟨passes, paid⟩
      exact ⟨passes, fun _ _ => paid⟩
    · exact ⟨0, fun thread member => absurd ⟨thread, member⟩ some⟩
  choose passes paid using each
  have discipline := stores.readers finds fun thread job member => paid job thread member
  have holds : (fileReaders cache fun thread => (jobs thread).map Prod.fst).Holds
      (DataCache.Keeps (ExpectedByAll ctx store))
      (ReaderCall.Offers (ExpectedByAll ctx store)) (ReaderCall.Serves (ExpectedByAll ctx store))
      (fun thread left reader => reader.Keeps ctx (jobs thread) passes left)
      (fun thread => readSteps passes (jobs thread)) :=
    ⟨DataCache.keeps_fresh init _,
      fun thread => .between [] (jobs thread) rfl rfl (Nat.le_refl _)⟩
  have answered : ∀ {left : Nat} {reader : Reader}, reader.Keeps ctx (jobs thread) passes left →
      ∃ before after, jobs thread = before ++ after ∧ reader.todo = after.map Prod.fst ∧
        reader.answers = before.map fun job => some (delivered job.2) := by
    intro left reader keeps
    cases keeps with
    | between before after whole is _ => exact ⟨before, after, whole, by rw [is], by rw [is]⟩
    | inside before after job _ _ _ _ whole is _ _ _ _ =>
        exact ⟨before, job :: after, whole, by rw [is], by rw [is]⟩
  refine ⟨readSteps passes (jobs thread), fun schedule last ran => ?_⟩
  have kept := (discipline.run holds ran).programs thread
  constructor
  · intro reader program
    rw [program] at kept
    rcases answered kept with ⟨before, after, whole, -, answers⟩
    rw [whole, answers, List.map_append]
    exact List.prefix_append _ _
  · intro enough
    rcases discipline.finishes holds ran enough with ⟨reader, program, finished⟩
    rw [program] at kept
    rcases answered kept with ⟨before, after, whole, todo, answers⟩
    refine ⟨reader, program, ?_⟩
    rw [Reader.todo_of_finished finished] at todo
    rw [answers, whole, List.map_eq_nil_iff.mp todo.symm, List.append_nil]

private theorem fileReaders_run (init : sqfsCacheInit maxEntries maxMemory hasFreeFn = some cache)
    (calls : Thread → List FileRead) {schedule : List Thread}
    (spares : (fileReaders cache calls).SparesAlong sharedDataCache (Reader.goOn ctx)
      ReaderCall.Drops ReaderCall.uses schedule) :
    ∃ last, (fileReaders cache calls).run sharedDataCache (Reader.goOn ctx) schedule =
      some last := by
  have unharmed : (fileReaders cache calls).Unharmed DataCache.Accounted
      (fun state entry => entry ∉ state.cache.freed) ReaderCall.uses ReaderCall.gives := by
    refine ⟨DataCache.accounted_fresh init, fun _ => trivial, ?_⟩
    intro thread entry used
    cases used
  rcases (Reader.handover ctx).run unharmed spares with ⟨last, ran, -⟩
  exact ⟨last, ran⟩

private theorem fileReaders_spare_alone (calls : Thread → List FileRead) (thread : Thread)
    (steps : Nat) :
    (fileReaders cache calls).SparesAlong sharedDataCache (Reader.goOn ctx) ReaderCall.Drops
      ReaderCall.uses (List.replicate steps thread) := by
  refine Crowd.sparesAlong_alone ?_ (fun _ _ => rfl) steps
  intro state call entry dropped
  cases call with
  | offer key data memorySize => rfl
  | _ => cases dropped

end Orders

/-! ## One thread alone -/

section Alone

variable {ctx : SqfsCtx} {Thread : Type} [DecidableEq Thread] {thread : Thread}
  {crowd : Crowd Thread DataCache ReaderCall ReaderCall.Answer Reader} {reader : Reader}
  {read : FileRead} {rest : List FileRead}

/-- Steps of the thread alone bring it from one place between its programs to another. -/
def ComesTo (ctx : SqfsCtx) (crowd : Crowd Thread DataCache ReaderCall ReaderCall.Answer Reader)
    (thread : Thread) (cache : DataCache) (reader : Reader) : Prop :=
  ∃ steps, crowd.run sharedDataCache (Reader.goOn ctx) (List.replicate steps thread) =
    some { shared := cache, programs := Function.update crowd.programs thread (.done reader) }

theorem ComesTo.of_program {program : CacheProgram Reader} {after cache : DataCache}
    {next final : Reader} (inside : crowd.programs thread = .done reader)
    (goesOn : reader.goOn ctx = some program)
    (ran : program.run sharedDataCache crowd.shared = some (next, after))
    (behind : ComesTo ctx
      { shared := after, programs := Function.update crowd.programs thread (.done next) }
      thread cache final) :
    ComesTo ctx crowd thread cache final := by
  rcases @Crowd.run_alone _ _ _ _ _ _ sharedDataCache (Reader.goOn ctx)
    { crowd with programs := Function.update crowd.programs thread program } thread _ _ _
    (Function.update_self ..) ran with ⟨steps, alone⟩
  rcases behind with ⟨more, later⟩
  refine ⟨steps + more + 1, ?_⟩
  dsimp only at alone
  rw [Function.update_idem] at alone
  rw [List.replicate_succ, Crowd.run, Crowd.step_goesOn inside goesOn, Option.bind_some,
    List.replicate_add, Crowd.run_append _ alone, later, Function.update_idem]

private theorem ComesTo.of_loop {file : SqfsFileCtx} {state : ReadState Unit} {result : ReadResult Unit}
    {cache : DataCache} (accounted : crowd.shared.Accounted)
    (inside : crowd.programs thread = .done { reader with reading := some (file, state) })
    (todo : reader.todo = read :: rest)
    (returns : Pass.Returns (readPass dataCache ctx file read.offset) (state.on crowd.shared)
      (some (result.on cache))) :
    cache.Accounted ∧ ComesTo ctx crowd thread cache (reader.returned result) := by
  rcases returns with ⟨fuel, returns⟩
  induction fuel generalizing crowd state with
  | zero => cases returns
  | succ fuel induction =>
      rcases @readPassProgram_runs ctx file read.offset state crowd.shared accounted with
        ⟨pass, after, ran, kept, same⟩
      have goesOn : Reader.goOn ctx { reader with reading := some (file, state) } =
          some ((readPassProgram ctx file read.offset state).map
            (Reader.passed { reader with reading := some (file, state) } file)) := by
        rw [Reader.goOn, todo]
      have passed := @Program.run_map _ _ _ _ _ _ _ _ _
        (Reader.passed { reader with reading := some (file, state) } file) _ ran
      cases pass with
      | leave final =>
          rw [Pass.iterate_leave fuel same] at returns
          cases final with
          | none => cases returns
          | some final =>
              rcases ReadResult.on_inj (Option.some.inj (Option.some.inj returns)) with ⟨rfl, rfl⟩
              refine ⟨kept, .of_program inside goesOn passed ⟨0, ?_⟩⟩
              rw [Function.update_idem]
              rfl
      | again next =>
          rw [Pass.iterate_again fuel same] at returns
          let later : Crowd Thread DataCache ReaderCall ReaderCall.Answer Reader :=
            { shared := after, programs := Function.update crowd.programs thread
                (.done { reader with reading := some (file, next) }) }
          rcases @induction later next kept (Function.update_self ..) returns with
            ⟨lastKept, behind⟩
          exact ⟨lastKept, .of_program inside goesOn passed behind⟩

theorem fileReaders_alone {result : ReadResult Unit} {cache : DataCache}
    (accounted : crowd.shared.Accounted) (inside : crowd.programs thread = .done reader)
    (idle : reader.reading = none) (todo : reader.todo = read :: rest)
    (reads : SqfsVfsRead dataCache ctx crowd.shared read.fh read.offset read.size
      (some (result.on cache))) :
    cache.Accounted ∧ ComesTo ctx crowd thread cache
      { answers := reader.answers ++ [some result.answer], todo := rest, reading := none } := by
  have ends : ∀ (data : ReadResult Unit), result = data.toVfs → reader.returned data =
      { answers := reader.answers ++ [some result.answer], todo := rest, reading := none } := by
    rintro data rfl
    rw [Reader.returned, todo, List.tail_cons]
  have stops : ∀ (data : ReadResult Unit), result = data.toVfs → crowd.shared = cache →
      reader.goOn ctx = some (.done (reader.returned data)) →
      cache.Accounted ∧ ComesTo ctx crowd thread cache
        { answers := reader.answers ++ [some result.answer], todo := rest, reading := none } := by
    rintro data same rfl goesOn
    refine ⟨accounted, .of_program inside goesOn rfl ⟨0, ?_⟩⟩
    rw [ends data same, Function.update_idem]
    rfl
  rw [SqfsVfsRead] at reads
  split at reads
  · next outside =>
      rcases ReadResult.on_inj (show result.on cache = ReadResult.on ⟨0, [], ()⟩ crowd.shared from
        Option.some.inj reads) with ⟨same, rfl⟩
      apply stops ⟨0, [], ()⟩ same rfl
      rw [Reader.goOn, todo, idle]
      exact if_pos outside
  · next within =>
      rcases reads with ⟨data, dataRead, equal⟩
      cases data with
      | none => cases equal
      | some data =>
          rcases ReadResult.on_inj (show result.on cache =
              ReadResult.on (ReadResult.toVfs ⟨data.ret, data.out, ()⟩) data.cache from
            Option.some.inj equal) with ⟨same, rfl⟩
          have goesOn : reader.goOn ctx = match readStart ctx () read.fh.inode read.offset
              (vfsReadSize read.fh.fileSize read.offset read.size) with
            | .returns ret => some (.done (reader.returned { ret, out := [], cache := () }))
            | .loops file state => some (.done { reader with reading := some (file, state) }) := by
            rw [Reader.goOn, todo, idle]
            exact if_neg within
          rcases readStart_returns_or_enters ctx read.fh.inode read.offset
            (vfsReadSize read.fh.fileSize read.offset read.size) with
            ⟨ret, early⟩ | ⟨file, -, loops⟩
          · rw [SqfsDataRead, early DataCache _] at dataRead
            cases Option.some.inj dataRead
            rw [early Unit ()] at goesOn
            exact stops ⟨ret, [], ()⟩ same rfl goesOn
          · rw [SqfsDataRead, loops DataCache _] at dataRead
            rw [loops Unit ()] at goesOn
            rw [← ends _ same]
            dsimp only at dataRead goesOn
            let begun : ReadState Unit := {
              bytesRead := 0
              bytesRemaining := requestSize file read.offset
                (vfsReadSize read.fh.fileSize read.offset read.size)
              out := []
              blockBuf := List.replicate file.blockSize none
              cache := () }
            have returns : Pass.Returns (readPass dataCache ctx file read.offset)
              (begun.on crowd.shared)
              (some (ReadResult.on ⟨data.ret, data.out, ()⟩ data.cache)) := dataRead
            have loop := @ComesTo.of_loop ctx Thread _ thread { crowd with
              programs := Function.update crowd.programs thread
                (.done { reader with reading := some (file, begun) }) } reader
              read rest file begun _ data.cache accounted (Function.update_self ..) todo returns
            exact ⟨loop.1, .of_program inside goesOn rfl loop.2⟩

end Alone

/-! ## Mounted images -/

/-- Threads that read files of a mounted tree at the same time, on one data cache: however their
steps are mixed, what a call returned is what the file has there, the calls of a thread return
after a number of its own steps, and only an entry that is dropped while another thread is
about to read it can stop them, so nothing stops a thread that is alone. -/
theorem fileReaders_deliver {sqfsCompressorCreate : Nat → Option Compressor} {image : Image}
    {cacheSizeMb : Nat} {mounted : MountedCtx}
    (initialised : initContext sqfsCompressorCreate image cacheSizeMb false = .ok mounted)
    {tree : DiskTree mounted.ctx.sb.blockSize} (stored : tree.Stored mounted.ctx)
    {Thread : Type} [DecidableEq Thread] {jobs : Thread → List ReadJob}
    (finds : ∀ thread, ∀ job ∈ jobs thread,
      job.1.Finds mounted.ctx (tree.store mounted.ctx) job.2) :
    (∀ thread, ∃ steps, ∀ schedule last,
      (fileReaders mounted.caches.dataCache fun thread => (jobs thread).map Prod.fst).run
        sharedDataCache (Reader.goOn mounted.ctx) schedule = some last →
      (∀ reader, last.programs thread = .done reader →
        reader.answers <+: (jobs thread).map fun job => some (delivered job.2)) ∧
      (steps ≤ schedule.count thread → ∃ reader, last.programs thread = .done reader ∧
        reader.answers = (jobs thread).map fun job => some (delivered job.2))) ∧
    (∀ schedule, (fileReaders mounted.caches.dataCache fun thread =>
        (jobs thread).map Prod.fst).SparesAlong sharedDataCache (Reader.goOn mounted.ctx)
          ReaderCall.Drops ReaderCall.uses schedule →
      ∃ last, (fileReaders mounted.caches.dataCache fun thread =>
        (jobs thread).map Prod.fst).run sharedDataCache (Reader.goOn mounted.ctx) schedule =
          some last) ∧
    ∀ thread steps, ∃ last, (fileReaders mounted.caches.dataCache fun thread =>
        (jobs thread).map Prod.fst).run sharedDataCache (Reader.goOn mounted.ctx)
          (List.replicate steps thread) = some last := by
  have init := (initContext_mounts initialised).dataCache_with
  exact ⟨stored.stores.readersDeliver init finds, fun schedule => fileReaders_run init _,
    fun thread steps => fileReaders_run init _ (fileReaders_spare_alone _ thread steps)⟩

private theorem namedFile_node :
    (mountedFileTree.store namedFileMounted.ctx).node 32 = .file [97, 98, 99] := by
  have stored : (mountedFileTree.store namedFileMounted.ctx).node 32 =
      .file ((fileContent namedFileMounted.ctx namedFileCtx).take namedFileCtx.fileSize) := rfl
  rw [stored, namedFile_content]
  rfl

/-- A read of the file `a`. -/
def namedFileJob (fh : SqfsVfsFh) (offset size : Nat) : ReadJob :=
  (⟨fh, offset, size⟩, (([97, 98, 99] : List UInt8).drop offset).take size)

theorem namedFileJob_finds {fh : SqfsVfsFh} {offset size : Nat}
    (opened : sqfsVfsOpen namedFileMounted.ctx [slash, 0x61] (0 : UInt64).toNat 1 = .ok fh)
    (offsetFits : offset < 2 ^ 63) (sizeFits : size < 2 ^ 31) :
    (namedFileJob fh offset size).1.Finds namedFileMounted.ctx
      (mountedFileTree.store namedFileMounted.ctx) (namedFileJob fh offset size).2 :=
  ⟨offsetFits, sizeFits, [slash, 0x61], 0, 1, 32, [97, 98, 99], rfl, opened, rfl,
    namedFile_node, rfl⟩

/-- Two threads read the file at the same time, one of them behind its end, too. -/
def namedFileJobs : Bool → List ReadJob
  | false => [namedFileJob namedFileFh 0 2, namedFileJob namedFileFh 2 2]
  | true => [namedFileJob namedFileFh 1 5, namedFileJob namedFileFh 3 1]

private theorem namedFileJobs_find (thread : Bool) (job : ReadJob) (member : job ∈ namedFileJobs thread) :
    job.1.Finds namedFileMounted.ctx (mountedFileTree.store namedFileMounted.ctx) job.2 := by
  cases thread with
  | false =>
      rcases List.mem_pair.mp member with rfl | rfl
      · exact namedFileJob_finds namedFile_opened (by decide) (by decide)
      · exact namedFileJob_finds namedFile_opened (by decide) (by decide)
  | true =>
      rcases List.mem_pair.mp member with rfl | rfl
      · exact namedFileJob_finds namedFile_opened (by decide) (by decide)
      · exact namedFileJob_finds namedFile_opened (by decide) (by decide)

theorem fileReaders_deliver_namedFile :
    (∃ steps, ∀ schedule last,
      (fileReaders namedFileMounted.caches.dataCache fun thread =>
        (namedFileJobs thread).map Prod.fst).run sharedDataCache
          (Reader.goOn namedFileMounted.ctx) schedule = some last →
      steps ≤ schedule.count true → ∃ reader, last.programs true = .done reader ∧
        reader.answers = [some (delivered [98, 99]), some (delivered [])]) ∧
    ∀ steps, ∃ last, (fileReaders namedFileMounted.caches.dataCache fun thread =>
        (namedFileJobs thread).map Prod.fst).run sharedDataCache
          (Reader.goOn namedFileMounted.ctx) (List.replicate steps true) = some last := by
  have result := fileReaders_deliver namedFile_mounted mountedFileTree_stored namedFileJobs_find
  rcases result.1 true with ⟨steps, reads⟩
  exact ⟨⟨steps, fun schedule last ran => (reads schedule last ran).2⟩, result.2.2 true⟩

end SquashfsFuse
