import SquashfsFuse.Core.Zstd
import SquashfsFuse.Foundation.Custody

/-! No two threads share a stream, and a call does not notice the calls before it. -/

namespace SquashfsFuse

/-! ## Streams that were used before -/

/-- The streams that a program has which creates, initialises, resets and uses them. -/
inductive ZstdLibrary.Ready {Stream : Type} (library : ZstdLibrary Stream) : Stream → Prop
  | fresh : Ready library (library.initDStream library.createDStream)
  | reset {stream} : Ready library stream → Ready library (library.dctxReset stream)
  | used {stream} (source : List UInt8) (limit : Nat) : Ready library stream →
      Ready library (library.decompressStream stream source limit).2

def ZstdLibrary.session {Stream : Type} (library : ZstdLibrary Stream) (call : ZstdCall) :
    ZstdOutput :=
  (library.decompressStream (library.dctxReset (library.initDStream library.createDStream))
    call.source call.limit).1

/-- A reset starts a new session: nothing is left of those before it. -/
def ZstdLibrary.StartsSessions {Stream : Type} (library : ZstdLibrary Stream) : Prop :=
  ∀ stream, library.Ready stream → ∀ call : ZstdCall,
    (library.decompressStream (library.dctxReset stream) call.source call.limit).1 =
      library.session call

namespace ZstdThreads

section Threads

variable {Thread Stream : Type} [DecidableEq Thread] {library : ZstdLibrary Stream}
  {state next : ZstdThreads Thread Stream} {thread : Thread} {action : ZstdAction}

/-! ## What a step can do -/

inductive Steps (library : ZstdLibrary Stream) (state : ZstdThreads Thread Stream)
    (thread : Thread) : ZstdAction → ZstdThreads Thread Stream → Prop
  | enter {call} : state.point thread = .outside →
      Steps library state thread (.call call) (state.goto thread (.keyOnce call))
  | leave : state.point thread = .outside → state.specific thread = none →
      Steps library state thread .exit (state.goto thread .exited)
  | destroy {dstream stream} : state.point thread = .outside →
      state.specific thread = some dstream → state.streams dstream = some stream →
      Steps library state thread .exit
        { (state.setStream dstream none).goto thread .exited with
          specific := Function.update state.specific thread none }
  | firstKey {call fails} : state.point thread = .keyOnce call → state.keyOnce = .never →
      Steps library state thread (.advance fails)
        { state.goto thread (.createKey call) with keyOnce := .running }
  | pastKey {call fails} : state.point thread = .keyOnce call → state.keyOnce = .done →
      Steps library state thread (.advance fails) (state.goto thread (.getSpecific call))
  | createdKey {call fails} : state.point thread = .createKey call →
      Steps library state thread (.advance fails)
        { state.goto thread (.getSpecific call) with keyOnce := .done, hasKey := !fails }
  | found {call fails dstream} : state.point thread = .getSpecific call →
      state.specific thread = some dstream →
      Steps library state thread (.advance fails) (state.goto thread (.reset call dstream))
  | missing {call fails} : state.point thread = .getSpecific call →
      state.specific thread = none →
      Steps library state thread (.advance fails) (state.goto thread (.createDStream call))
  | notCreated {call} : state.point thread = .createDStream call →
      Steps library state thread (.advance true)
        (state.finish thread call false (.error .noMemory))
  | created {call} : state.point thread = .createDStream call →
      Steps library state thread (.advance false)
        { (state.setStream state.created (some library.createDStream)).goto thread
            (.initDStream call state.created) with created := state.created + 1 }
  | notInitialised {call dstream stream} : state.point thread = .initDStream call dstream →
      state.streams dstream = some stream →
      Steps library state thread (.advance true)
        ((state.setStream dstream none).finish thread call false (.error .noMemory))
  | initialised {call dstream stream} : state.point thread = .initDStream call dstream →
      state.streams dstream = some stream →
      Steps library state thread (.advance false)
        ((state.setStream dstream (some (library.initDStream stream))).goto thread
          (.setSpecific call dstream))
  | notStored {call dstream} : state.point thread = .setSpecific call dstream →
      Steps library state thread (.advance true)
        { state.goto thread (.reset call dstream) with unstored := dstream :: state.unstored }
  | stored {call dstream} : state.point thread = .setSpecific call dstream →
      Steps library state thread (.advance false)
        { state.goto thread (.reset call dstream) with
          specific := Function.update state.specific thread (some dstream) }
  | notReset {call dstream stream} : state.point thread = .reset call dstream →
      state.streams dstream = some stream →
      Steps library state thread (.advance true) (state.finish thread call false (.error .error))
  | wasReset {call dstream stream} : state.point thread = .reset call dstream →
      state.streams dstream = some stream →
      Steps library state thread (.advance false)
        ((state.setStream dstream (some (library.dctxReset stream))).goto thread
          (.decompressStream call dstream))
  | decompressed {call fails dstream stream} :
      state.point thread = .decompressStream call dstream →
      state.streams dstream = some stream →
      Steps library state thread (.advance fails)
        ((state.setStream dstream
            (some (library.decompressStream stream call.source call.limit).2)).finish thread call
          true (zstdResult call (library.decompressStream stream call.source call.limit).1))

section OfStep

variable {call : ZstdCall} {dstream : Nat}
  (stepped : state.step library thread action = some next)

include stepped

private theorem Steps.of_outside (point : state.point thread = .outside) :
    Steps library state thread action next := by
  unfold step at stepped
  rw [point] at stepped
  cases action with
  | call call =>
      cases stepped
      exact .enter point
  | advance fails => cases stepped
  | exit =>
      cases specific : state.specific thread with
      | none =>
          simp only [specific, Option.some.injEq] at stepped
          exact stepped ▸ .leave point specific
      | some dstream =>
          simp only [specific, Option.map_eq_some_iff] at stepped
          rcases stepped with ⟨stream, live, rfl⟩
          exact .destroy point specific live

private theorem Steps.of_keyOnce (point : state.point thread = .keyOnce call) :
    Steps library state thread action next := by
  unfold step at stepped
  rw [point] at stepped
  cases action with
  | call | exit => cases stepped
  | advance fails =>
      cases once : state.keyOnce with
      | never =>
          simp only [once, Option.some.injEq] at stepped
          exact stepped ▸ .firstKey point once
      | running =>
          simp only [once] at stepped
          cases stepped
      | done =>
          simp only [once, Option.some.injEq] at stepped
          exact stepped ▸ .pastKey point once

private theorem Steps.of_createKey (point : state.point thread = .createKey call) :
    Steps library state thread action next := by
  unfold step at stepped
  rw [point] at stepped
  cases action with
  | call | exit => cases stepped
  | advance fails =>
      cases stepped
      exact .createdKey point

private theorem Steps.of_getSpecific (point : state.point thread = .getSpecific call) :
    Steps library state thread action next := by
  unfold step at stepped
  rw [point] at stepped
  cases action with
  | call | exit => cases stepped
  | advance fails =>
      rcases Option.ite_none_right_eq_some.mp stepped with ⟨-, stepped⟩
      cases specific : state.specific thread with
      | none =>
          simp only [specific, Option.some.injEq] at stepped
          exact stepped ▸ .missing point specific
      | some dstream =>
          simp only [specific, Option.some.injEq] at stepped
          exact stepped ▸ .found point specific

private theorem Steps.of_createDStream (point : state.point thread = .createDStream call) :
    Steps library state thread action next := by
  unfold step at stepped
  rw [point] at stepped
  cases action with
  | call | exit => cases stepped
  | advance fails =>
      cases fails with
      | true =>
          cases stepped
          exact .notCreated point
      | false =>
          cases stepped
          exact .created point

private theorem Steps.of_initDStream (point : state.point thread = .initDStream call dstream) :
    Steps library state thread action next := by
  unfold step at stepped
  rw [point] at stepped
  cases action with
  | call | exit => cases stepped
  | advance fails =>
      rcases Option.map_eq_some_iff.mp stepped with ⟨stream, live, rfl⟩
      cases fails with
      | true => exact .notInitialised point live
      | false => exact .initialised point live

private theorem Steps.of_setSpecific (point : state.point thread = .setSpecific call dstream) :
    Steps library state thread action next := by
  unfold step at stepped
  rw [point] at stepped
  cases action with
  | call | exit => cases stepped
  | advance fails =>
      rcases Option.ite_none_right_eq_some.mp stepped with ⟨-, stepped⟩
      cases fails with
      | true =>
          cases stepped
          exact .notStored point
      | false =>
          cases stepped
          exact .stored point

private theorem Steps.of_reset (point : state.point thread = .reset call dstream) :
    Steps library state thread action next := by
  unfold step at stepped
  rw [point] at stepped
  cases action with
  | call | exit => cases stepped
  | advance fails =>
      rcases Option.map_eq_some_iff.mp stepped with ⟨stream, live, rfl⟩
      cases fails with
      | true => exact .notReset point live
      | false => exact .wasReset point live

private theorem Steps.of_decompressStream (point : state.point thread = .decompressStream call dstream) :
    Steps library state thread action next := by
  unfold step at stepped
  rw [point] at stepped
  cases action with
  | call | exit => cases stepped
  | advance fails =>
      rcases Option.map_eq_some_iff.mp stepped with ⟨stream, live, rfl⟩
      exact .decompressed point live

private theorem Steps.of_step : Steps library state thread action next := by
  cases point : state.point thread with
  | outside => exact .of_outside stepped point
  | keyOnce call => exact .of_keyOnce stepped point
  | createKey call => exact .of_createKey stepped point
  | getSpecific call => exact .of_getSpecific stepped point
  | createDStream call => exact .of_createDStream stepped point
  | initDStream call dstream => exact .of_initDStream stepped point
  | setSpecific call dstream => exact .of_setSpecific stepped point
  | reset call dstream => exact .of_reset stepped point
  | decompressStream call dstream => exact .of_decompressStream stepped point
  | exited =>
      unfold step at stepped
      rw [point] at stepped
      cases action <;> cases stepped

end OfStep

/-! ## The key -/

theorem goto_self {point : ZstdPoint} : (state.goto thread point).point thread = point :=
  Function.update_self ..

theorem goto_of_ne {point : ZstdPoint} {other : Thread} (different : other ≠ thread) :
    (state.goto thread point).point other = state.point other :=
  Function.update_of_ne different ..

/-- A thread is past `pthread_once`. -/
def PastKey : ZstdPoint → Prop
  | .outside | .keyOnce _ | .createKey _ | .exited => False
  | _ => True

structure KeySound (state : ZstdThreads Thread Stream) : Prop where
  creating : ∀ thread call, state.point thread = .createKey call → state.keyOnce = .running
  alone : ∀ first second call other, state.point first = .createKey call →
    state.point second = .createKey other → first = second
  running : state.keyOnce = .running → ∃ thread call, state.point thread = .createKey call
  past : ∀ thread, PastKey (state.point thread) → state.keyOnce = .done

theorem KeySound.move {point : ZstdPoint} (sound : state.KeySound)
    (sameOnce : next.keyOnce = state.keyOnce)
    (moves : next.point = Function.update state.point thread point)
    (notBefore : ∀ call, state.point thread ≠ .createKey call)
    (notAfter : ∀ call, point ≠ .createKey call) (past : PastKey point → state.keyOnce = .done) :
    next.KeySound := by
  have creates {other : Thread} {call : ZstdCall} :
      next.point other = .createKey call ↔ state.point other = .createKey call := by
    rw [moves]
    by_cases same : other = thread
    · subst same
      rw [Function.update_self]
      exact ⟨fun creates => absurd creates (notAfter call),
        fun creates => absurd creates (notBefore call)⟩
    · rw [Function.update_of_ne same]
  refine ⟨?_, ?_, ?_, ?_⟩
  · intro other call created
    rw [sameOnce]
    exact sound.creating other call (creates.mp created)
  · exact fun first second call other one two =>
      sound.alone first second call other (creates.mp one) (creates.mp two)
  · intro running
    rcases sound.running (sameOnce.symm.trans running) with ⟨other, call, created⟩
    exact ⟨other, call, creates.mpr created⟩
  · intro other
    rw [sameOnce, moves]
    by_cases same : other = thread
    · subst same
      rw [Function.update_self]
      exact past
    · rw [Function.update_of_ne same]
      exact sound.past other

theorem KeySound.step (sound : state.KeySound) (steps : Steps library state thread action next) :
    next.KeySound := by
  have pastOf {point : ZstdPoint} (at_ : state.point thread = point) (past : PastKey point) :
      state.keyOnce = .done := sound.past thread (at_ ▸ past)
  have elsewhere {point : ZstdPoint} (at_ : state.point thread = point)
      (other : ∀ call, point ≠ .createKey call) (call : ZstdCall) :
      state.point thread ≠ .createKey call := at_ ▸ other call
  cases steps with
  | enter point => exact sound.move rfl rfl (elsewhere point nofun) nofun nofun
  | leave point => exact sound.move rfl rfl (elsewhere point nofun) nofun nofun
  | destroy point => exact sound.move rfl rfl (elsewhere point nofun) nofun nofun
  | @firstKey started _ point never =>
      have nobody (other : Thread) (call : ZstdCall) : state.point other ≠ .createKey call :=
        fun creates => nomatch never.symm.trans (sound.creating other call creates)
      refine ⟨fun _ _ _ => rfl, ?_, fun _ => ⟨thread, _, goto_self⟩, ?_⟩
      · have only {other : Thread} {call : ZstdCall}
            (creates : (state.goto thread (.createKey started)).point other = .createKey call) :
            other = thread := by
          by_contra different
          rw [goto_of_ne different] at creates
          exact nobody other call creates
        exact fun first second call other one two => (only one).trans (only two).symm
      · intro other past
        change PastKey (Function.update state.point thread _ other) at past
        by_cases same : other = thread
        · subst same
          rw [Function.update_self] at past
          exact past.elim
        · rw [Function.update_of_ne same] at past
          exact nomatch never.symm.trans (sound.past other past)
  | pastKey point done =>
      exact sound.move rfl rfl (elsewhere point nofun) nofun fun _ => done
  | @createdKey started _ point =>
      have nobody (other : Thread) (call : ZstdCall) :
          (state.goto thread (.getSpecific started)).point other ≠ .createKey call := by
        by_cases same : other = thread
        · subst same
          rw [goto_self]
          nofun
        · rw [goto_of_ne same]
          exact fun creates => same (sound.alone _ _ _ _ creates point)
      exact ⟨fun other call creates => absurd creates (nobody other call),
        fun first _ call _ creates => absurd creates (nobody first call), nofun, fun _ _ => rfl⟩
  | found point | missing point | created point | initialised point | notStored point
  | stored point | wasReset point =>
      exact sound.move rfl rfl (elsewhere point nofun) nofun fun _ => pastOf point trivial
  | notCreated point | notInitialised point | notReset point | decompressed point =>
      exact sound.move rfl rfl (elsewhere point nofun) nofun nofun

/-! ## The streams -/

def Holds (state : ZstdThreads Thread Stream) (thread : Thread) (dstream : Nat) : Prop :=
  state.specific thread = some dstream ∨ (state.point thread).dstream = some dstream

def IsReady (library : ZstdLibrary Stream) (state : ZstdThreads Thread Stream) (dstream : Nat) :
    Prop :=
  ∃ stream, state.streams dstream = some stream ∧ library.Ready stream

/-- The stream that a thread works on is the one that it would find, if it could be stored. -/
def WorksOn (state : ZstdThreads Thread Stream) (thread : Thread) (dstream : Nat) : Prop :=
  state.specific thread = some dstream ∨
    state.specific thread = none ∧ dstream ∈ state.unstored

def PlacedAt (library : ZstdLibrary Stream) (state : ZstdThreads Thread Stream)
    (thread : Thread) : ZstdPoint → Prop
  | .outside | .keyOnce _ | .createKey _ | .getSpecific _ =>
      ∀ dstream, state.specific thread = some dstream → state.IsReady library dstream
  | .createDStream _ | .exited => state.specific thread = none
  | .initDStream _ dstream =>
      state.specific thread = none ∧ state.streams dstream = some library.createDStream
  | .setSpecific _ dstream => state.specific thread = none ∧ state.IsReady library dstream
  | .reset _ dstream => state.WorksOn thread dstream ∧ state.IsReady library dstream
  | .decompressStream _ dstream =>
      state.WorksOn thread dstream ∧
        ∃ stream, library.Ready stream ∧
          state.streams dstream = some (library.dctxReset stream)

def Placed (library : ZstdLibrary Stream) (state : ZstdThreads Thread Stream) (thread : Thread) :
    Prop :=
  state.PlacedAt library thread (state.point thread)

omit [DecidableEq Thread] in
theorem placed_iff (point : ZstdPoint) (at_ : state.point thread = point) :
    state.Placed library thread ↔ state.PlacedAt library thread point := by
  rw [Placed, at_]

omit [DecidableEq Thread] in
theorem holds_iff (point : ZstdPoint) (at_ : state.point thread = point) (dstream : Nat) :
    state.Holds thread dstream ↔
      state.specific thread = some dstream ∨ point.dstream = some dstream := by
  rw [Holds, at_]

omit [DecidableEq Thread] in
private theorem Placed.frame (placed : state.Placed library thread)
    (point : next.point thread = state.point thread)
    (specific : next.specific thread = state.specific thread)
    (streams : ∀ dstream, state.Holds thread dstream →
      next.streams dstream = state.streams dstream)
    (unstored : ∀ dstream ∈ state.unstored, dstream ∈ next.unstored) :
    next.Placed library thread := by
  have works {dstream : Nat} (works : state.WorksOn thread dstream) :
      next.WorksOn thread dstream := by
    rcases works with found | ⟨missing, lost⟩
    · exact .inl (specific.trans found)
    · exact .inr ⟨specific.trans missing, unstored _ lost⟩
  have ready {dstream : Nat} (held : state.Holds thread dstream)
      (ready : state.IsReady library dstream) : next.IsReady library dstream := by
    rcases ready with ⟨stream, live, ready⟩
    exact ⟨stream, (streams _ held).trans live, ready⟩
  have onPoint {dstream : Nat} (at_ : (state.point thread).dstream = some dstream) :
      next.streams dstream = state.streams dstream := streams _ (.inr at_)
  rw [Placed, point]
  rw [Placed] at placed
  cases at_ : state.point thread with
  | outside | keyOnce | createKey | getSpecific =>
      rw [at_] at placed
      intro dstream found
      have before := specific.symm.trans found
      exact ready (.inl before) (placed dstream before)
  | createDStream | exited =>
      rw [at_] at placed
      exact specific.trans placed
  | initDStream call dstream =>
      rw [at_] at placed
      exact ⟨specific.trans placed.1, (onPoint (by rw [at_]; rfl)).trans placed.2⟩
  | setSpecific call dstream =>
      rw [at_] at placed
      exact ⟨specific.trans placed.1, ready (.inr (by rw [at_]; rfl)) placed.2⟩
  | reset call dstream =>
      rw [at_] at placed
      exact ⟨works placed.1, ready (.inr (by rw [at_]; rfl)) placed.2⟩
  | decompressStream call dstream =>
      rw [at_] at placed
      rcases placed with ⟨worksOn, stream, ready, live⟩
      exact ⟨works worksOn, stream, ready, (onPoint (by rw [at_]; rfl)).trans live⟩

structure StreamsSound (library : ZstdLibrary Stream) (state : ZstdThreads Thread Stream)
    (custody : Custody Thread Stream) : Prop where
  sound : custody.Sound
  objects : custody.objects = state.streams
  created : custody.created = state.created
  holds : ∀ thread dstream, dstream ∈ custody.holds thread ↔ state.Holds thread dstream
  lost : ∀ dstream ∈ custody.lost, dstream ∈ state.unstored
  placed : ∀ thread, state.Placed library thread
  finished : ∀ finished ∈ state.finished, finished.served = true →
    finished.result = zstdResult finished.call (library.session finished.call)

structure Moves (state next : ZstdThreads Thread Stream) (thread : Thread) : Prop where
  point : ∀ other, other ≠ thread → next.point other = state.point other
  specific : ∀ other, other ≠ thread → next.specific other = state.specific other
  unstored : ∀ dstream ∈ state.unstored, dstream ∈ next.unstored

variable {custody after : Custody Thread Stream}

omit [DecidableEq Thread] in
theorem StreamsSound.of_moves (sound : state.StreamsSound library custody)
    (moves : state.Moves next thread) (afterSound : after.Sound)
    (objects : after.objects = next.streams) (created : after.created = next.created)
    (own : ∀ dstream, dstream ∈ after.holds thread ↔ next.Holds thread dstream)
    (others : ∀ other, other ≠ thread → ∀ dstream,
      dstream ∈ after.holds other ↔ dstream ∈ custody.holds other)
    (streams : ∀ other, other ≠ thread → ∀ dstream ∈ custody.holds other,
      after.objects dstream = custody.objects dstream)
    (lost : ∀ dstream ∈ after.lost, dstream ∈ next.unstored)
    (placed : next.Placed library thread)
    (finished : ∀ finished ∈ next.finished, finished.served = true →
      finished.result = zstdResult finished.call (library.session finished.call)) :
    next.StreamsSound library after where
  sound := afterSound
  objects := objects
  created := created
  holds := by
    intro other dstream
    by_cases same : other = thread
    · subst same
      exact own dstream
    · rw [others other same dstream, sound.holds, Holds, Holds, moves.point other same,
        moves.specific other same]
  lost := lost
  placed := by
    intro other
    by_cases same : other = thread
    · subst same
      exact placed
    · apply (sound.placed other).frame (moves.point other same) (moves.specific other same) _
        moves.unstored
      intro dstream held
      rw [← objects, ← sound.objects]
      exact streams other same dstream ((sound.holds other dstream).mpr held)
  finished := finished

theorem moves_goto {point : ZstdPoint} (at_ : next.point = (state.goto thread point).point)
    (specific : next.specific = state.specific) (unstored : next.unstored = state.unstored) :
    state.Moves next thread where
  point := fun other different => by rw [at_, goto_of_ne different]
  specific := fun other _ => by rw [specific]
  unstored := fun dstream lost => by rw [unstored]; exact lost

private theorem moves_update {point : ZstdPoint} {value : Option Nat}
    (at_ : next.point = (state.goto thread point).point)
    (specific : next.specific = Function.update state.specific thread value)
    (unstored : next.unstored = state.unstored) : state.Moves next thread where
  point := fun other different => by rw [at_, goto_of_ne different]
  specific := fun other different => by rw [specific, Function.update_of_ne different]
  unstored := fun dstream lost => by rw [unstored]; exact lost

omit [DecidableEq Thread] in
theorem StreamsSound.stay (sound : state.StreamsSound library custody)
    (moves : state.Moves next thread) (streams : next.streams = state.streams)
    (created : next.created = state.created)
    (own : ∀ dstream, state.Holds thread dstream ↔ next.Holds thread dstream)
    (placed : next.Placed library thread)
    (finished : ∀ finished ∈ next.finished, finished.served = true →
      finished.result = zstdResult finished.call (library.session finished.call)) :
    next.StreamsSound library custody :=
  sound.of_moves moves sound.sound (sound.objects.trans streams.symm)
    (sound.created.trans created.symm) (fun dstream => (sound.holds thread dstream).trans (own _))
    (fun _ _ _ => .rfl) (fun _ _ _ _ => rfl)
    (fun dstream lost => moves.unstored dstream (sound.lost dstream lost)) placed finished

omit [DecidableEq Thread] in
theorem StreamsSound.change (sound : state.StreamsSound library custody)
    (moves : state.Moves next thread) {dstream : Nat} (held : state.Holds thread dstream)
    {stream : Stream} (streams : next.streams = (state.setStream dstream (some stream)).streams)
    (created : next.created = state.created)
    (own : ∀ dstream, state.Holds thread dstream ↔ next.Holds thread dstream)
    (placed : next.Placed library thread)
    (finished : ∀ finished ∈ next.finished, finished.served = true →
      finished.result = zstdResult finished.call (library.session finished.call)) :
    next.StreamsSound library (custody.change dstream stream) := by
  have keeps := (sound.holds thread dstream).mpr held
  refine sound.of_moves moves (sound.sound.change keeps stream) ?_
    (sound.created.trans created.symm) (fun dstream => (sound.holds thread dstream).trans (own _))
    (fun _ _ _ => .rfl) ?_ (fun dstream lost => moves.unstored dstream (sound.lost dstream lost))
    placed finished
  · rw [streams, Custody.change, sound.objects]
    rfl
  · intro other different address others
    have apart : address ≠ dstream := fun same =>
      sound.sound.holds_of_ne keeps different (same ▸ others)
    exact Function.update_of_ne apart ..

omit [DecidableEq Thread] in
theorem StreamsSound.free (sound : state.StreamsSound library custody)
    (moves : state.Moves next thread) {dstream : Nat} (held : state.Holds thread dstream)
    (streams : next.streams = (state.setStream dstream none).streams)
    (created : next.created = state.created)
    (own : ∀ other, state.Holds thread other ∧ other ≠ dstream ↔ next.Holds thread other)
    (placed : next.Placed library thread)
    (finished : ∀ finished ∈ next.finished, finished.served = true →
      finished.result = zstdResult finished.call (library.session finished.call)) :
    next.StreamsSound library (custody.free dstream) := by
  have keeps := (sound.holds thread dstream).mpr held
  refine sound.of_moves moves (sound.sound.free keeps) ?_ (sound.created.trans created.symm) ?_ ?_
    ?_ (fun dstream lost => moves.unstored dstream (sound.lost dstream lost)) placed finished
  · rw [streams, Custody.free, sound.objects]
    rfl
  · intro address
    rw [← own address, ← sound.holds thread address]
    rfl
  · intro other different address
    exact ⟨fun kept => kept.1, fun kept => ⟨kept, fun same =>
      sound.sound.holds_of_ne keeps different (same ▸ kept)⟩⟩
  · intro other different address others
    have apart : address ≠ dstream := fun same =>
      sound.sound.holds_of_ne keeps different (same ▸ others)
    exact Function.update_of_ne apart ..

omit [DecidableEq Thread] in
/-- A thread that returns keeps its stream if it could be stored, and loses it otherwise. -/
theorem StreamsSound.returns (sound : state.StreamsSound library custody)
    {changed : Custody Thread Stream} (changedSound : changed.Sound)
    (holds : changed.holds = custody.holds) (lost : changed.lost = custody.lost)
    (objects : changed.objects = next.streams) (created : changed.created = next.created)
    (streams : ∀ other, other ≠ thread → ∀ dstream ∈ custody.holds other,
      changed.objects dstream = custody.objects dstream)
    (moves : state.Moves next thread) (outside : next.point thread = .outside)
    (specific : next.specific thread = state.specific thread) {dstream : Nat}
    (works : state.WorksOn thread dstream)
    (at_ : (state.point thread).dstream = some dstream) (ready : next.IsReady library dstream)
    (finished : ∀ finished ∈ next.finished, finished.served = true →
      finished.result = zstdResult finished.call (library.session finished.call)) :
    ∃ after, next.StreamsSound library after := by
  have placed : next.Placed library thread := by
    apply (placed_iff _ outside).mpr
    intro other found
    rcases works with stored | ⟨missing, -⟩
    · cases (specific.trans stored).symm.trans found
      exact ready
    · cases (specific.trans missing).symm.trans found
  have kept (dstream : Nat) : next.Holds thread dstream ↔ state.specific thread = some dstream := by
    rw [Holds, specific, outside]
    exact or_iff_left nofun
  have before (dstream : Nat) : dstream ∈ changed.holds thread ↔ state.Holds thread dstream := by
    rw [holds]
    exact sound.holds thread dstream
  have staysLost : ∀ dstream ∈ changed.lost, dstream ∈ next.unstored := by
    rw [lost]
    exact fun dstream lost => moves.unstored dstream (sound.lost dstream lost)
  rcases works with stored | ⟨missing, unstored⟩
  · refine ⟨changed, sound.of_moves moves changedSound objects created ?_ ?_ streams staysLost
      placed finished⟩
    · intro other
      rw [before, kept, Holds, at_, stored]
      exact or_self_iff
    · intro other _ address
      rw [holds]
  · have keeps : dstream ∈ changed.holds thread := (before dstream).mpr (.inr at_)
    refine ⟨changed.lose dstream, sound.of_moves moves (changedSound.lose keeps) objects created
      ?_ ?_ streams ?_ placed finished⟩
    · intro other
      have onlyOne : other ∈ (changed.lose dstream).holds thread ↔
          state.Holds thread other ∧ other ≠ dstream := and_congr_left' (before other)
      rw [onlyOne, kept, Holds, at_, missing]
      constructor
      · rintro ⟨impossible | same, different⟩
        · cases impossible
        · exact absurd (Option.some.inj same).symm different
      · nofun
    · intro other different address
      rw [← holds]
      exact ⟨fun kept => kept.1, fun kept => ⟨kept, fun same =>
        changedSound.holds_of_ne keeps different (same ▸ kept)⟩⟩
    · intro address gone
      rcases List.mem_cons.mp gone with rfl | gone
      · exact moves.unstored _ unstored
      · exact staysLost address gone

omit [DecidableEq Thread] in
theorem holds_of_goto {before : ZstdPoint} (after : ZstdPoint)
    (at_ : state.point thread = before) (then_ : next.point thread = after)
    (specific : next.specific = state.specific) (dstreams : before.dstream = after.dstream)
    (dstream : Nat) : state.Holds thread dstream ↔ next.Holds thread dstream := by
  rw [holds_iff _ at_, holds_iff _ then_, specific, dstreams]

theorem StreamsSound.finish (sound : state.StreamsSound library custody) (thread : Thread)
    (call : ZstdCall) (served : Bool) (result : Except SqfsCompError (List UInt8))
    (right : served = true → result = zstdResult call (library.session call)) :
    ∀ finished ∈ (state.finish thread call served result).finished, finished.served = true →
      finished.result = zstdResult finished.call (library.session finished.call) :=
  List.forall_mem_cons.mpr ⟨right, sound.finished⟩

/-! ## Step by step -/

section Points

variable {call : ZstdCall} {dstream : Nat} {stream : Stream}
  (sound : state.StreamsSound library custody)

include sound

theorem StreamsSound.goesOn {before after : ZstdPoint} (at_ : state.point thread = before)
    (point : next.point = (state.goto thread after).point)
    (specific : next.specific = state.specific) (unstored : next.unstored = state.unstored)
    (streams : next.streams = state.streams) (created : next.created = state.created)
    (finished : next.finished = state.finished) (dstreams : before.dstream = after.dstream)
    (placed : next.PlacedAt library thread after) : next.StreamsSound library custody := by
  have then_ : next.point thread = after := by
    rw [point]
    exact goto_self
  exact sound.stay (moves_goto point specific unstored) streams created
    (holds_of_goto after at_ then_ specific dstreams) ((placed_iff after then_).mpr placed)
    (finished ▸ sound.finished)

theorem StreamsSound.destroy (point : state.point thread = .outside)
    (specific : state.specific thread = some dstream) :
    StreamsSound library { (state.setStream dstream none).goto thread .exited with
      specific := Function.update state.specific thread none } (custody.free dstream) := by
  refine sound.free (by exact moves_update rfl rfl rfl) (.inl specific) rfl rfl ?_ ?_
    sound.finished
  · intro other
    refine (and_congr_left' (holds_iff _ point other)).trans (Iff.trans ?_
      (holds_iff .exited (by exact goto_self) other).symm)
    dsimp only
    rw [Function.update_self, specific]
    simp [ZstdPoint.dstream, eq_comm]
  · exact (placed_iff .exited (by exact goto_self)).mpr (Function.update_self ..)

theorem StreamsSound.found (point : state.point thread = .getSpecific call)
    (specific : state.specific thread = some dstream) :
    (state.goto thread (.reset call dstream)).StreamsSound library custody := by
  have ready := (placed_iff _ point).mp (sound.placed thread) dstream specific
  refine sound.stay (moves_goto rfl rfl rfl) rfl rfl ?_
    ((placed_iff _ goto_self).mpr ⟨.inl specific, ready⟩) sound.finished
  intro other
  refine (holds_iff _ point other).trans (Iff.trans ?_
    (holds_iff (.reset call dstream) goto_self other).symm)
  exact ⟨fun holds => .inl (holds.resolve_right nofun),
    fun holds => .inl (holds.elim id specific.trans)⟩

theorem StreamsSound.notCreated (point : state.point thread = .createDStream call) :
    (state.finish thread call false (.error .noMemory)).StreamsSound library custody := by
  have missing : state.specific thread = none :=
    (placed_iff _ point).mp (sound.placed thread)
  refine sound.stay (moves_goto rfl rfl rfl) rfl rfl
    (holds_of_goto _ point goto_self rfl rfl) ((placed_iff _ goto_self).mpr ?_)
    (sound.finish thread _ _ _ nofun)
  intro dstream found
  cases missing.symm.trans found

private theorem StreamsSound.createStream (point : state.point thread = .createDStream call) :
    StreamsSound library { (state.setStream state.created
        (some library.createDStream)).goto thread (.initDStream call state.created) with
      created := state.created + 1 } (custody.create thread library.createDStream) := by
  have missing : state.specific thread = none :=
    (placed_iff _ point).mp (sound.placed thread)
  have fresh (other : Thread) : state.created ∉ custody.holds other := fun held =>
    absurd ((sound.sound.settled _).mpr (.inl (sound.sound.isSome held)))
      (by rw [sound.created]; exact Nat.lt_irrefl _)
  refine sound.of_moves (moves_goto rfl rfl rfl) (sound.sound.create thread _) ?_
    (congrArg (· + 1) sound.created) ?_ ?_ ?_ (sound.lost ·) ?_ sound.finished
  · rw [Custody.create, sound.objects, sound.created]
    rfl
  · intro dstream
    refine Iff.trans ?_ (holds_iff (.initDStream call state.created)
      (by exact goto_self) dstream).symm
    refine (or_congr_left (sound.holds thread dstream)).trans ?_
    rw [holds_iff _ point, sound.created]
    dsimp only [goto, setStream]
    simp [ZstdPoint.dstream, missing, eq_comm]
  · intro other different dstream
    exact or_iff_left fun same => different same.1
  · intro other _ dstream held
    have apart : dstream ≠ custody.created := fun same =>
      fresh other (sound.created ▸ same ▸ held)
    exact Function.update_of_ne apart ..
  · apply (placed_iff (.initDStream call state.created) (by exact goto_self)).mpr
    exact ⟨missing, Function.update_self ..⟩

theorem StreamsSound.notInitialised (point : state.point thread = .initDStream call dstream) :
    ((state.setStream dstream none).finish thread call false
      (.error .noMemory)).StreamsSound library (custody.free dstream) := by
  have missing : state.specific thread = none :=
    ((placed_iff _ point).mp (sound.placed thread)).1
  refine sound.free (by exact moves_goto rfl rfl rfl) (.inr (by rw [point]; rfl)) rfl rfl ?_ ?_
    (sound.finish thread call false _ nofun)
  · intro other
    refine (and_congr_left' (holds_iff _ point other)).trans (Iff.trans ?_
      (holds_iff .outside (by exact goto_self) other).symm)
    simp [ZstdPoint.dstream, missing, ZstdThreads.finish, goto, setStream, eq_comm]
  · apply (placed_iff .outside (by exact goto_self)).mpr
    intro other found
    cases missing.symm.trans found

theorem StreamsSound.initialised (point : state.point thread = .initDStream call dstream)
    (live : state.streams dstream = some stream) :
    ((state.setStream dstream (some (library.initDStream stream))).goto thread
      (.setSpecific call dstream)).StreamsSound library
      (custody.change dstream (library.initDStream stream)) := by
  rcases (placed_iff _ point).mp (sound.placed thread) with ⟨missing, raw⟩
  obtain rfl : stream = library.createDStream := Option.some.inj (live.symm.trans raw)
  refine sound.change (by exact moves_goto rfl rfl rfl) (.inr (by rw [point]; rfl)) rfl rfl
    (holds_of_goto (.setSpecific call dstream) point (by exact goto_self) rfl rfl) ?_
    sound.finished
  apply (placed_iff (.setSpecific call dstream) (by exact goto_self)).mpr
  exact ⟨missing, _, Function.update_self .., .fresh⟩

theorem StreamsSound.notStored (point : state.point thread = .setSpecific call dstream) :
    StreamsSound library { state.goto thread (.reset call dstream) with
      unstored := dstream :: state.unstored } custody := by
  rcases (placed_iff _ point).mp (sound.placed thread) with ⟨missing, ready⟩
  refine sound.stay ⟨?_, ?_, ?_⟩ rfl rfl
    (holds_of_goto (.reset call dstream) point (by exact goto_self) rfl rfl) ?_ sound.finished
  · exact fun other different => goto_of_ne different
  · exact fun _ _ => rfl
  · exact fun _ lost => List.mem_cons_of_mem _ lost
  · apply (placed_iff (.reset call dstream) (by exact goto_self)).mpr
    exact ⟨.inr ⟨missing, List.mem_cons_self⟩, ready⟩

theorem StreamsSound.stored (point : state.point thread = .setSpecific call dstream) :
    StreamsSound library { state.goto thread (.reset call dstream) with
      specific := Function.update state.specific thread (some dstream) } custody := by
  rcases (placed_iff _ point).mp (sound.placed thread) with ⟨missing, ready⟩
  refine sound.stay (by exact moves_update rfl rfl rfl : state.Moves _ thread) rfl rfl ?_ ?_
    sound.finished
  · intro other
    refine (holds_iff _ point other).trans (Iff.trans ?_
      (holds_iff (.reset call dstream) (by exact goto_self) other).symm)
    dsimp only
    rw [Function.update_self, missing]
    simp [ZstdPoint.dstream]
  · apply (placed_iff (.reset call dstream) (by exact goto_self)).mpr
    exact ⟨.inl (Function.update_self ..), ready⟩

theorem StreamsSound.notReset (point : state.point thread = .reset call dstream) :
    ∃ after, (state.finish thread call false (.error .error)).StreamsSound library after := by
  rcases (placed_iff _ point).mp (sound.placed thread) with ⟨works, ready⟩
  exact sound.returns sound.sound rfl rfl sound.objects sound.created (fun _ _ _ _ => rfl)
    (by exact moves_goto rfl rfl rfl) (by exact goto_self) rfl works (by rw [point]; rfl) ready
    (sound.finish thread call false _ nofun)

theorem StreamsSound.wasReset (point : state.point thread = .reset call dstream)
    (live : state.streams dstream = some stream) :
    ((state.setStream dstream (some (library.dctxReset stream))).goto thread
      (.decompressStream call dstream)).StreamsSound library
      (custody.change dstream (library.dctxReset stream)) := by
  rcases (placed_iff _ point).mp (sound.placed thread) with ⟨works, before, wasLive, ready⟩
  obtain rfl : stream = before := Option.some.inj (live.symm.trans wasLive)
  refine sound.change (by exact moves_goto rfl rfl rfl) (.inr (by rw [point]; rfl)) rfl rfl
    (holds_of_goto (.decompressStream call dstream) point (by exact goto_self) rfl rfl) ?_
    sound.finished
  apply (placed_iff (.decompressStream call dstream) (by exact goto_self)).mpr
  exact ⟨works, stream, ready, Function.update_self ..⟩

theorem StreamsSound.decompressed (starts : library.StartsSessions)
    (point : state.point thread = .decompressStream call dstream)
    (live : state.streams dstream = some stream) :
    ∃ after, ((state.setStream dstream
        (some (library.decompressStream stream call.source call.limit).2)).finish thread call
      true (zstdResult call (library.decompressStream stream call.source
        call.limit).1)).StreamsSound library after := by
  rcases (placed_iff _ point).mp (sound.placed thread) with ⟨works, before, ready, wasReset⟩
  obtain rfl : stream = library.dctxReset before := Option.some.inj (live.symm.trans wasReset)
  have held : dstream ∈ custody.holds thread :=
    (sound.holds thread dstream).mpr (.inr (by rw [point]; rfl))
  have written := starts before ready call
  have changed := sound.sound.change held
    (library.decompressStream (library.dctxReset before) call.source call.limit).2
  refine sound.returns changed rfl rfl ?_ sound.created ?_
    (by exact moves_goto rfl rfl rfl) (by exact goto_self) rfl works (by rw [point]; rfl)
    ⟨_, Function.update_self .., .used _ _ ready.reset⟩
    (sound.finish thread call true _ fun _ => by rw [written])
  · rw [Custody.change, sound.objects]
    rfl
  · intro other different address others
    have apart : address ≠ dstream := fun same =>
      sound.sound.holds_of_ne held different (same ▸ others)
    exact Function.update_of_ne apart ..

end Points

/-- Every step keeps the streams sound. -/
theorem StreamsSound.step (starts : library.StartsSessions)
    (sound : state.StreamsSound library custody)
    (steps : Steps library state thread action next) :
    ∃ after, next.StreamsSound library after := by
  have placed := sound.placed thread
  cases steps with
  | enter point | firstKey point | pastKey point | createdKey point =>
      have before := (placed_iff _ point).mp placed
      exact ⟨custody, sound.goesOn point rfl rfl rfl rfl rfl rfl rfl before⟩
  | leave point specific =>
      exact ⟨custody, sound.goesOn point rfl rfl rfl rfl rfl rfl rfl specific⟩
  | missing point specific =>
      exact ⟨custody, sound.goesOn point rfl rfl rfl rfl rfl rfl rfl specific⟩
  | destroy point specific => exact ⟨_, sound.destroy point specific⟩
  | found point specific => exact ⟨custody, sound.found point specific⟩
  | notCreated point => exact ⟨custody, sound.notCreated point⟩
  | created point => exact ⟨_, sound.createStream point⟩
  | notInitialised point => exact ⟨_, sound.notInitialised point⟩
  | initialised point live => exact ⟨_, sound.initialised point live⟩
  | notStored point => exact ⟨custody, sound.notStored point⟩
  | stored point => exact ⟨custody, sound.stored point⟩
  | notReset point => exact sound.notReset point
  | wasReset point live => exact ⟨_, sound.wasReset point live⟩
  | decompressed point live => exact sound.decompressed starts point live

/-! ## Runs -/

/-- All that holds of the threads. -/
structure Sound (library : ZstdLibrary Stream) (state : ZstdThreads Thread Stream) : Prop where
  key : state.KeySound
  streams : ∃ custody, state.StreamsSound library custody

omit [DecidableEq Thread] in
private theorem sound_start : (start : ZstdThreads Thread Stream).Sound library where
  key := ⟨nofun, nofun, nofun, fun _ past => past.elim⟩
  streams := ⟨.empty, Custody.sound_empty, rfl, rfl,
    fun _ _ => by simp [Custody.empty, Holds, start, ZstdPoint.dstream], nofun, fun _ => nofun,
    nofun⟩

theorem Sound.run (starts : library.StartsSessions) (schedule : List (Thread × ZstdAction))
    (sound : state.Sound library) (run : state.run library schedule = some next) :
    next.Sound library := by
  induction schedule generalizing state with
  | nil =>
      cases run
      exact sound
  | cons action schedule induction =>
      rcases Option.bind_eq_some_iff.mp run with ⟨middle, stepped, rest⟩
      have steps := Steps.of_step stepped
      rcases sound.streams with ⟨custody, streams⟩
      exact induction ⟨sound.key.step steps, streams.step starts steps⟩ rest

/-- `pthread_key_create` has not failed. -/
def KeyUsable (state : ZstdThreads Thread Stream) : Prop :=
  state.keyOnce = .done → state.hasKey = true

/-- A thread in a call can go on, unless it waits for the one that creates the key. -/
theorem Sound.advances (sound : state.Sound library) (usable : state.KeyUsable)
    (inside : state.point thread ≠ .outside) (running : state.point thread ≠ .exited)
    (fails : Bool) :
    (state.step library thread (.advance fails)).isSome ∨
      (∃ call, state.point thread = .keyOnce call) ∧
        ∃ other call, state.point other = .createKey call := by
  rcases sound.streams with ⟨custody, streams⟩
  have placed := streams.placed thread
  have key (past : PastKey (state.point thread)) : state.hasKey = true :=
    usable (sound.key.past thread past)
  unfold step
  cases point : state.point thread with
  | outside => exact absurd point inside
  | exited => exact absurd point running
  | keyOnce call =>
      cases once : state.keyOnce with
      | never => exact .inl rfl
      | running => exact .inr ⟨⟨call, rfl⟩, sound.key.running once⟩
      | done => exact .inl rfl
  | createKey call => exact .inl rfl
  | getSpecific call =>
      left
      dsimp only
      rw [if_pos (key (by rw [point]; trivial))]
      cases state.specific thread <;> rfl
  | createDStream call =>
      left
      cases fails <;> rfl
  | initDStream call dstream =>
      rcases (placed_iff _ point).mp placed with ⟨-, live⟩
      left
      dsimp only
      rw [live]
      rfl
  | setSpecific call dstream =>
      left
      dsimp only
      rw [if_pos (key (by rw [point]; trivial))]
      cases fails <;> rfl
  | reset call dstream =>
      rcases (placed_iff _ point).mp placed with ⟨-, stream, live, -⟩
      left
      dsimp only
      rw [live]
      rfl
  | decompressStream call dstream =>
      rcases (placed_iff _ point).mp placed with ⟨-, stream, -, live⟩
      left
      dsimp only
      rw [live]
      rfl

theorem Sound.ends (sound : state.Sound library) (outside : state.point thread = .outside) :
    (state.step library thread .exit).isSome := by
  rcases sound.streams with ⟨custody, streams⟩
  have ready := (placed_iff _ outside).mp (streams.placed thread)
  unfold step
  rw [outside]
  cases specific : state.specific thread with
  | none => rfl
  | some dstream =>
      rcases ready dstream specific with ⟨stream, live, -⟩
      simp only [live]
      rfl

/-- What is promised of the threads that decompress. -/
structure Safe (library : ZstdLibrary Stream) (state : ZstdThreads Thread Stream) : Prop where
  apart : ∀ first second dstream, state.Holds first dstream → state.Holds second dstream →
    first = second
  live : ∀ thread dstream, state.Holds thread dstream → (state.streams dstream).isSome
  owned : ∀ dstream, (state.streams dstream).isSome →
    (∃ thread, state.Holds thread dstream) ∨ dstream ∈ state.unstored
  advances : state.KeyUsable → ∀ thread fails,
    state.point thread ≠ .outside → state.point thread ≠ .exited →
    (state.step library thread (.advance fails)).isSome ∨
      (∃ call, state.point thread = .keyOnce call) ∧
        ∃ other call, state.point other = .createKey call
  ends : ∀ thread, state.point thread = .outside → (state.step library thread .exit).isSome
  serves : ∀ finished ∈ state.finished, finished.served = true →
    finished.result = zstdResult finished.call (library.session finished.call)

theorem Sound.safe (sound : state.Sound library) : state.Safe library := by
  rcases sound.streams with ⟨custody, streams⟩
  have isSome (dstream : Nat) : (state.streams dstream).isSome ↔
      (∃ thread, state.Holds thread dstream) ∨ dstream ∈ custody.lost := by
    rw [← streams.objects, streams.sound.live dstream]
    exact or_congr_left (exists_congr fun thread => streams.holds thread dstream)
  refine ⟨?_, ?_, ?_,
    fun usable thread fails inside running => sound.advances usable inside running fails,
    fun thread outside => sound.ends outside, streams.finished⟩
  · intro first second dstream one two
    exact streams.sound.apart first second dstream ((streams.holds first dstream).mpr one)
      ((streams.holds second dstream).mpr two)
  · exact fun thread dstream held => (isSome dstream).mpr (.inl ⟨thread, held⟩)
  · exact fun dstream live => ((isSome dstream).mp live).imp id (streams.lost dstream)

end Threads

/-- However threads come, decompress and go, and whatever fails on the way: no two of them ever
work on one stream and none works on a stream that is gone. A stream that is live has a thread,
unless it could not be stored. Unless the key could not be created, none is left waiting but for
the one that creates it. And a call that is served ends as in a session of its own, whichever
calls its thread has made before. -/
theorem zstd_threads_safe {Thread Stream : Type} [DecidableEq Thread]
    (library : ZstdLibrary Stream) (starts : library.StartsSessions)
    (schedule : List (Thread × ZstdAction)) (state : ZstdThreads Thread Stream)
    (run : start.run library schedule = some state) : state.Safe library :=
  (sound_start.run starts schedule run).safe

def rawFrame : List UInt8 → Option (List UInt8)
  | 0x28 :: 0xb5 :: 0x2f :: 0xfd :: 0x20 :: size :: low :: middle :: high :: content =>
      if leValue [low, middle, high] = size.toNat * 8 + 1 ∧ content.length = size.toNat then
        some content
      else
        none
  | _ => none

/-- A library that knows such frames. Its streams say whether they are within a frame, and
after an error only a reset helps. -/
def rawZstd : ZstdLibrary Bool where
  createDStream := false
  initDStream := fun _ => false
  dctxReset := fun _ => false
  decompressStream := fun within source limit =>
    match within, rawFrame source with
    | false, some content =>
        if content.length ≤ limit then
          (⟨false, source.length, content⟩, false)
        else
          (⟨false, 9 + limit, content.take limit⟩, true)
    | _, _ => (⟨true, 0, []⟩, true)

def badCall : ZstdCall := ⟨[1, 2, 3], 4096⟩
def goodCall : ZstdCall :=
  ⟨[0x28, 0xb5, 0x2f, 0xfd, 0x20, 3, 0x19, 0, 0, 0x61, 0x62, 0x63], 4096⟩

/-- Both threads come at once. The first fails on its source, and cannot store its stream; the
second has a stream that it uses twice. -/
def interleaved : List (Bool × ZstdAction) :=
  [(false, .call badCall), (true, .call badCall), (true, .advance false), (true, .advance false),
    (false, .advance false), (true, .advance false), (false, .advance false),
    (true, .advance false), (false, .advance false), (true, .advance false),
    (false, .advance false), (false, .advance true), (true, .advance false),
    (true, .advance false), (false, .advance false), (true, .advance false),
    (true, .call goodCall), (true, .advance false), (true, .advance false),
    (true, .advance false), (true, .advance false), (true, .exit), (false, .advance false)]

theorem zstd_threads_safe_interleaved :
    ∃ state, (start : ZstdThreads Bool Bool).run rawZstd interleaved = some state ∧
      state.Safe rawZstd :=
  ⟨_, rfl, zstd_threads_safe rawZstd (fun _ _ _ => rfl) interleaved _ rfl⟩

end ZstdThreads

end SquashfsFuse
