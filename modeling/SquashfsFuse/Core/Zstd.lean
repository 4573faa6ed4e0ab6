import SquashfsFuse.Core.Compressor
import Mathlib.Logic.Function.Basic

/-! Decompression with `zstd` in many threads (`compressor.c`). A step of a thread is what it
does up to the end of one call of a library. -/

namespace SquashfsFuse

/-! ## One call -/

/-- The error codes of `compressor.h` that `zstd_decompress` returns. -/
inductive SqfsCompError
  | error
  | corrupt
  | noMemory
  deriving Repr, DecidableEq

/-- What `ZSTD_decompressStream` returns and writes. -/
structure ZstdOutput where
  isError : Bool
  inputPos : Nat
  output : List UInt8
  deriving Repr, DecidableEq

/-- The functions of the library, where they succeed. -/
structure ZstdLibrary (Stream : Type) where
  createDStream : Stream
  initDStream : Stream → Stream
  dctxReset : Stream → Stream
  decompressStream : Stream → List UInt8 → Nat → ZstdOutput × Stream

/-- The source of a call of `zstd_decompress`, and the size of its output buffer. -/
structure ZstdCall where
  source : List UInt8
  limit : Nat
  deriving Repr, DecidableEq

/-- The end of `zstd_decompress`. -/
def zstdResult (call : ZstdCall) (written : ZstdOutput) : Except SqfsCompError (List UInt8) :=
  if written.isError then
    .error .error
  else if written.inputPos < call.source.length then
    .error .corrupt
  else
    .ok written.output

/-! ## Threads -/

inductive ZstdPoint
  | outside
  | keyOnce (call : ZstdCall)
  | createKey (call : ZstdCall)
  | getSpecific (call : ZstdCall)
  | createDStream (call : ZstdCall)
  | initDStream (call : ZstdCall) (dstream : Nat)
  | setSpecific (call : ZstdCall) (dstream : Nat)
  | reset (call : ZstdCall) (dstream : Nat)
  | decompressStream (call : ZstdCall) (dstream : Nat)
  | exited
  deriving Repr, DecidableEq

/-- The variable `dstream` of a thread. -/
def ZstdPoint.dstream : ZstdPoint → Option Nat
  | initDStream _ dstream | setSpecific _ dstream | reset _ dstream
  | decompressStream _ dstream => some dstream
  | _ => none

inductive ZstdKeyOnce
  | never
  | running
  | done
  deriving Repr, DecidableEq

/-- What a call ended in, and whether every function succeeded that does not look at the
source. -/
structure ZstdFinished where
  call : ZstdCall
  served : Bool
  result : Except SqfsCompError (List UInt8)

/-- The threads, their streams, and what they have done. `hasKey` says that
`pthread_key_create` has made a key, `specific` has what `pthread_getspecific` returns, and
`unstored` the streams that `pthread_setspecific` did not take. -/
structure ZstdThreads (Thread Stream : Type) where
  keyOnce : ZstdKeyOnce
  hasKey : Bool
  streams : Nat → Option Stream
  created : Nat
  specific : Thread → Option Nat
  point : Thread → ZstdPoint
  finished : List ZstdFinished
  unstored : List Nat

/-- What a thread does: it enters `zstd_decompress`, does its next step, in which a function may
fail, or ends. -/
inductive ZstdAction
  | call (call : ZstdCall)
  | advance (fails : Bool)
  | exit
  deriving Repr, DecidableEq

namespace ZstdThreads

variable {Thread Stream : Type} [DecidableEq Thread]

def goto (state : ZstdThreads Thread Stream) (thread : Thread) (point : ZstdPoint) :
    ZstdThreads Thread Stream :=
  { state with point := Function.update state.point thread point }

/-- The thread returns from `zstd_decompress`. -/
def finish (state : ZstdThreads Thread Stream) (thread : Thread) (call : ZstdCall)
    (served : Bool) (result : Except SqfsCompError (List UInt8)) : ZstdThreads Thread Stream :=
  { state.goto thread .outside with finished := ⟨call, served, result⟩ :: state.finished }

def setStream (state : ZstdThreads Thread Stream) (dstream : Nat) (stream : Option Stream) :
    ZstdThreads Thread Stream :=
  { state with streams := Function.update state.streams dstream stream }

/-- A step of a thread. There is none where a thread has to wait, and none that uses the key
before it is created or a stream that is not live. -/
def step (library : ZstdLibrary Stream) (state : ZstdThreads Thread Stream) (thread : Thread)
    (action : ZstdAction) : Option (ZstdThreads Thread Stream) :=
  match state.point thread, action with
  | .outside, .call call => some (state.goto thread (.keyOnce call))
  | .outside, .exit =>
      -- the destructor of the key, `zstd_dstream_free`
      match state.specific thread with
      | none => some (state.goto thread .exited)
      | some dstream =>
          (state.streams dstream).map fun _ =>
            { (state.setStream dstream none).goto thread .exited with
              specific := Function.update state.specific thread none }
  | .keyOnce call, .advance _ =>
      match state.keyOnce with
      | .never => some { state.goto thread (.createKey call) with keyOnce := .running }
      | .running => none
      | .done => some (state.goto thread (.getSpecific call))
  | .createKey call, .advance fails =>
      -- whether the key was created is not looked at
      some { state.goto thread (.getSpecific call) with keyOnce := .done, hasKey := !fails }
  | .getSpecific call, .advance _ =>
      if state.hasKey then
        match state.specific thread with
        | some dstream => some (state.goto thread (.reset call dstream))
        | none => some (state.goto thread (.createDStream call))
      else
        none
  | .createDStream call, .advance fails =>
      if fails then
        some (state.finish thread call false (.error .noMemory))
      else
        some { (state.setStream state.created (some library.createDStream)).goto thread
            (.initDStream call state.created) with created := state.created + 1 }
  | .initDStream call dstream, .advance fails =>
      (state.streams dstream).map fun stream =>
        if fails then
          (state.setStream dstream none).finish thread call false (.error .noMemory)
        else
          (state.setStream dstream (some (library.initDStream stream))).goto thread
            (.setSpecific call dstream)
  | .setSpecific call dstream, .advance fails =>
      if state.hasKey then
        if fails then
          some { state.goto thread (.reset call dstream) with
            unstored := dstream :: state.unstored }
        else
          some { state.goto thread (.reset call dstream) with
            specific := Function.update state.specific thread (some dstream) }
      else
        none
  | .reset call dstream, .advance fails =>
      (state.streams dstream).map fun stream =>
        if fails then
          state.finish thread call false (.error .error)
        else
          (state.setStream dstream (some (library.dctxReset stream))).goto thread
            (.decompressStream call dstream)
  | .decompressStream call dstream, .advance _ =>
      (state.streams dstream).map fun stream =>
        let (written, after) := library.decompressStream stream call.source call.limit
        (state.setStream dstream (some after)).finish thread call true (zstdResult call written)
  | _, _ => none

/-- The steps of a schedule, one after the other. -/
def run (library : ZstdLibrary Stream) (state : ZstdThreads Thread Stream)
    (schedule : List (Thread × ZstdAction)) : Option (ZstdThreads Thread Stream) :=
  schedule.foldlM (fun state step => state.step library step.1 step.2) state

/-- No thread has called anything yet. -/
def start : ZstdThreads Thread Stream where
  keyOnce := .never
  hasKey := false
  streams := fun _ => none
  created := 0
  specific := fun _ => none
  point := fun _ => .outside
  finished := []
  unstored := []

end ZstdThreads

end SquashfsFuse
