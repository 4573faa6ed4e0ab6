import SquashfsFuse.Foundation.Bytes
import Mathlib.Logic.Function.Basic

/-! Decoders that read their source and write their output in order, and may
find both in one memory. -/

namespace SquashfsFuse

/-- A decoder at work. It asks for the next source byte, which is `none` behind
the last one, writes the next output byte, or stops. What it does next depends
on nothing but the bytes it was given. -/
inductive Decoder
  | read (next : Option UInt8 → Decoder)
  | write (byte : UInt8) (next : Decoder)
  | done (success : Bool)

namespace Decoder

/-- What a decoder makes of a source that nothing disturbs: the bytes `taken` to
the end are still to be read. Output behind the limit is an error. -/
def decode (limit : Nat) (source : List UInt8) :
    Decoder → Nat → List UInt8 → Option (List UInt8)
  | .read next, taken, output => decode limit source (next source[taken]?) (taken + 1) output
  | .write byte next, taken, output =>
      if output.length < limit then decode limit source next taken (output ++ [byte]) else none
  | .done true, _, output => some output
  | .done false, _, _ => none

/-- The run of a decoder in memory, with the output at address zero and the
source, of `size` bytes, at `start`. -/
def run (limit start size : Nat) : Decoder → Storage → Nat → Nat → Option (List UInt8)
  | .read next, memory, taken, written =>
      let byte := if taken < size then some (memory (start + taken)) else none
      run limit start size (next byte) memory (taken + 1) written
  | .write byte next, memory, taken, written =>
      if written < limit then
        run limit start size next (Function.update memory written byte) taken (written + 1)
      else
        none
  | .done true, memory, _, written => some (memory.bytesAt 0 written)
  | .done false, _, _, _ => none

def place (start : Nat) (source : List UInt8) : Storage := fun address =>
  source.getD (address - start) 0

/-- Decode a source that lies at `start`. -/
def runAt (decoder : Decoder) (limit start : Nat) (source : List UInt8) :
    Option (List UInt8) :=
  decoder.run limit start source.length (place start source) 0 0

/-- Whenever the decoder reads a source byte, the output has not reached it yet
or has left an equal byte there. -/
def Intact (limit start : Nat) (source : List UInt8) :
    Decoder → Nat → List UInt8 → Prop
  | .read next, taken, output =>
      (∀ byte ∈ source[taken]?, ∀ other ∈ output[start + taken]?, other = byte) ∧
        Intact limit start source (next source[taken]?) (taken + 1) output
  | .write byte next, taken, output =>
      output.length < limit → Intact limit start source next taken (output ++ [byte])
  | .done _, _, _ => True

structure Mirrors (memory : Storage) (start : Nat) (source output : List UInt8) : Prop where
  written : ∀ index, ∀ byte ∈ output[index]?, memory index = byte
  unread : ∀ index, ∀ byte ∈ source[index]?, output.length ≤ start + index →
    memory (start + index) = byte

variable {limit start taken : Nat} {source output : List UInt8} {memory : Storage}

/-! ## Memory -/

theorem mirrors_place (start : Nat) (source : List UInt8) :
    Mirrors (place start source) start source [] where
  written := by
    intro index byte found
    cases found
  unread := by
    intro index byte found _
    rw [place, Nat.add_sub_cancel_left, List.getD_eq_getElem?_getD, Option.mem_def.mp found]
    rfl

theorem Mirrors.write (mirrors : Mirrors memory start source output) (byte : UInt8) :
    Mirrors (Function.update memory output.length byte) start source (output ++ [byte]) where
  written := by
    intro index other found
    rcases Nat.lt_trichotomy index output.length with less | rfl | greater
    · rw [List.getElem?_append_left less] at found
      rw [Function.update_of_ne (Nat.ne_of_lt less)]
      exact mirrors.written index other found
    · rw [List.getElem?_concat_length] at found
      cases found
      exact Function.update_self ..
    · rw [List.getElem?_eq_none (by simp; omega)] at found
      cases found
  unread := by
    intro index other found behind
    rw [List.length_append, List.length_singleton] at behind
    rw [Function.update_of_ne (by omega)]
    exact mirrors.unread index other found (by omega)

theorem Mirrors.bytesAt (mirrors : Mirrors memory start source output) :
    memory.bytesAt 0 output.length = output := by
  apply List.ext_getElem (Storage.bytesAt_length ..)
  intro index leftBound rightBound
  simp only [Storage.bytesAt, List.getElem_map, List.getElem_range, Nat.zero_add]
  exact mirrors.written index _ (List.getElem?_eq_getElem rightBound)

theorem Mirrors.found (mirrors : Mirrors memory start source output)
    (intact : ∀ byte ∈ source[taken]?, ∀ other ∈ output[start + taken]?, other = byte) :
    (if taken < source.length then some (memory (start + taken)) else none) =
      source[taken]? := by
  by_cases inside : taken < source.length
  · have here : source[taken]? = some source[taken] := List.getElem?_eq_getElem inside
    rw [if_pos inside, here]
    apply congrArg some
    by_cases reached : start + taken < output.length
    · have written : output[start + taken]? = some output[start + taken] :=
        List.getElem?_eq_getElem reached
      rw [mirrors.written _ _ written]
      exact intact _ here _ written
    · exact mirrors.unread _ _ here (by omega)
  · rw [if_neg inside, List.getElem?_eq_none (by omega)]

/-! ## Runs -/

theorem run_eq_decode (decoder : Decoder) (mirrors : Mirrors memory start source output)
    (intact : decoder.Intact limit start source taken output) :
    decoder.run limit start source.length memory taken output.length =
      decoder.decode limit source taken output := by
  induction decoder generalizing memory taken output with
  | read next induction =>
      rw [run, decode, mirrors.found intact.1]
      exact induction _ mirrors intact.2
  | write byte next induction =>
      rw [run, decode]
      by_cases room : output.length < limit
      · have run := induction (mirrors.write byte) (intact room)
        rw [List.length_append] at run
        rw [if_pos room, if_pos room]
        exact run
      · rw [if_neg room, if_neg room]
  | done success =>
      cases success with
      | true => rw [run, decode, mirrors.bytesAt]
      | false => rfl

theorem runAt_eq_decode {decoder : Decoder}
    (intact : decoder.Intact limit start source 0 []) :
    decoder.runAt limit start source = decoder.decode limit source 0 [] :=
  run_eq_decode decoder (mirrors_place start source) intact

theorem intact_of_separate (decoder : Decoder) (taken : Nat) (fits : output.length ≤ limit) :
    decoder.Intact limit limit source taken output := by
  induction decoder generalizing taken output with
  | read next induction =>
      refine ⟨?_, induction _ _ fits⟩
      intro byte _ other reached
      rw [List.getElem?_eq_none (by omega)] at reached
      cases reached
  | write byte next induction =>
      intro room
      apply induction
      rw [List.length_append]
      exact room
  | done success => trivial

theorem runAt_separate (decoder : Decoder) (limit : Nat) (source : List UInt8) :
    decoder.runAt limit limit source = decoder.decode limit source 0 [] :=
  runAt_eq_decode (intact_of_separate decoder 0 (Nat.zero_le _))

theorem run_length {size written : Nat} {result : List UInt8} (decoder : Decoder)
    (fits : written ≤ limit)
    (finished : decoder.run limit start size memory taken written = some result) :
    result.length ≤ limit := by
  induction decoder generalizing memory taken written with
  | read next induction => exact induction _ fits finished
  | write byte next induction =>
      rw [run] at finished
      by_cases room : written < limit
      · rw [if_pos room] at finished
        exact induction room finished
      · rw [if_neg room] at finished
        cases finished
  | done success =>
      cases success with
      | true =>
          cases finished
          rwa [Storage.bytesAt_length]
      | false => cases finished

/-! ## Decoders that check their source -/

/-- The decoder with a check of every byte it reads, which ends the run where
the check fails. -/
def checked (success : Bool) (source : List UInt8) : Decoder → Nat → Decoder
  | .read next, taken => .read fun byte =>
      if byte = source[taken]? then
        (next byte).checked success source (taken + 1)
      else
        .done success
  | .write byte next, taken => .write byte (next.checked success source taken)
  | .done result, _ => .done result

/-- Two decoders make the same moves on a source: what they would do on other
bytes does not count. -/
def SameMoves (left right : Decoder) (source : List UInt8) : Prop :=
  left.checked false source 0 = right.checked false source 0

theorem checked_checked (success other : Bool) (decoder : Decoder) :
    (decoder.checked other source taken).checked success source taken =
      decoder.checked success source taken := by
  induction decoder generalizing taken with
  | read next induction =>
      rw [checked, checked, checked]
      apply congrArg Decoder.read
      funext byte
      by_cases same : byte = source[taken]?
      · rw [if_pos same, if_pos same, if_pos same]
        exact induction byte
      · rw [if_neg same, if_neg same]
  | write byte next induction => rw [checked, checked, checked, induction]
  | done result => rfl

theorem decode_checked (success : Bool) (decoder : Decoder) :
    (decoder.checked success source taken).decode limit source taken output =
      decoder.decode limit source taken output := by
  induction decoder generalizing taken output with
  | read next induction =>
      rw [checked, decode, decode, if_pos rfl]
      exact induction _
  | write byte next induction => rw [checked, decode, decode, induction]
  | done result => rfl

theorem intact_checked (success : Bool) (decoder : Decoder) :
    (decoder.checked success source taken).Intact limit start source taken output ↔
      decoder.Intact limit start source taken output := by
  induction decoder generalizing taken output with
  | read next induction => rw [checked, Intact, Intact, if_pos rfl, induction]
  | write byte next induction => rw [checked, Intact, Intact, induction]
  | done result => rfl

theorem SameMoves.intact {left right : Decoder} (same : left.SameMoves right source)
    (intact : right.Intact limit start source 0 []) :
    left.Intact limit start source 0 [] := by
  rw [← intact_checked false, same, intact_checked]
  exact intact

/-- The check fails in memory where the source does not stay intact. -/
theorem run_checked_of_broken (success : Bool) (decoder : Decoder)
    (mirrors : Mirrors memory start source output)
    (broken : ¬ decoder.Intact limit start source taken output) :
    ((decoder.checked success source taken).run limit start source.length memory taken
      output.length).isSome = success := by
  induction decoder generalizing memory taken output with
  | read next induction =>
      rw [checked, run]
      by_cases intact : ∀ byte ∈ source[taken]?, ∀ other ∈ output[start + taken]?, other = byte
      · rw [mirrors.found intact]
        simp only [if_true]
        apply induction _ mirrors
        intro rest
        exact broken ⟨intact, rest⟩
      · simp only [not_forall] at intact
        rcases intact with ⟨byte, here, other, written, different⟩
        have inside : taken < source.length := (List.getElem?_eq_some_iff.mp here).1
        have changed : some (memory (start + taken)) ≠ source[taken]? := by
          rw [mirrors.written _ _ written, Option.mem_def.mp here]
          exact fun equal => different (Option.some.inj equal)
        simp only [inside, if_true, if_neg changed]
        cases success <;> rfl
  | write byte next induction =>
      rw [checked, run]
      by_cases room : output.length < limit
      · have ends := induction (mirrors.write byte) fun rest => broken fun _ => rest
        rw [List.length_append] at ends
        rw [if_pos room]
        exact ends
      · exact absurd (fun room' => absurd room' room) broken
  | done result => exact absurd trivial broken

/-- A source stays intact exactly when every decoder that makes these moves on
it decodes it in memory. -/
theorem intact_iff (decoder : Decoder) :
    decoder.Intact limit start source 0 [] ↔
      ∀ other : Decoder, other.SameMoves decoder source →
        other.runAt limit start source = other.decode limit source 0 [] := by
  constructor
  · intro intact other same
    exact runAt_eq_decode (same.intact intact)
  · intro alike
    by_contra broken
    let success := (decoder.decode limit source 0 []).isNone
    have ends := run_checked_of_broken success decoder (mirrors_place start source) broken
    have same := alike (decoder.checked success source 0) (checked_checked false success decoder)
    rw [decode_checked, runAt] at same
    rw [List.length_nil, same] at ends
    cases decoded : decoder.decode limit source 0 [] with
    | none => simp [success, decoded] at ends
    | some result => simp [success, decoded] at ends

end Decoder

end SquashfsFuse
