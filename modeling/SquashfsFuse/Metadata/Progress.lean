import SquashfsFuse.Directory.Data
import SquashfsFuse.Metadata.Slices

/-! The loops over metadata blocks terminate on every image. -/

namespace SquashfsFuse

/-- A loop that reads a block of the image in every pass, and moves on to a later position
until its request is satisfied. Only then does it succeed. -/
structure MovesThrough (image : Image) (body : σ → Pass σ (Sqfs ρ)) (position : σ → Nat)
    (satisfied : σ → Prop) : Prop where
  terminates : ∀ state, Pass.Terminates body state
  increases : ∀ state next, body state = .again next →
    satisfied next ∨ position state < position next
  reads : ∀ state next, body state = .again next →
    position state + 2 ≤ image.bytes.length
  succeeds : ∀ state value, body state = .leave (.ok value) → satisfied state
  bounded : ∀ count first last, Pass.Repeats body count first last →
    2 * count ≤ image.bytes.length

section Loops

variable {image : Image} {comp : Compressor}

private theorem MovesThrough.of_passes {body : σ → Pass σ (Sqfs ρ)} {position : σ → Nat}
    {satisfied : σ → Prop} (terminates : ∀ state, Pass.Terminates body state)
    (moves : ∀ state next, body state = .again next →
      satisfied next ∨ position state + 2 ≤ position next)
    (reads : ∀ state next, body state = .again next →
      position state + 2 ≤ image.bytes.length)
    (stops : ∀ state next, satisfied state → body state ≠ .again next)
    (succeeds : ∀ state value, body state = .leave (.ok value) → satisfied state) :
    MovesThrough image body position satisfied where
  terminates := terminates
  increases := by
    intro state next again
    rcases moves state next again with done | moved
    · exact .inl done
    · exact .inr (by omega)
  reads := reads
  succeeds := succeeds
  bounded := by
    intro count first last repeats
    rcases repeats.bounded reads moves stops with zero | bound
    · omega
    · omega

private theorem readDirectoryDataPass_succeeds {size : Nat} {state : DirectoryDataState}
    {data : List UInt8}
    (left : readDirectoryDataPass image comp size state = .leave (.ok data)) :
    size ≤ state.copied.length := by
  unfold readDirectoryDataPass at left
  split at left
  · split at left <;> cases left
  · next enough => exact Nat.not_lt.mp enough

private theorem readDirectoryDataPass_movesThrough (size : Nat) :
    MovesThrough image (readDirectoryDataPass image comp size) DirectoryDataState.blockPos
      fun state => size ≤ state.copied.length := by
  apply MovesThrough.of_passes
  · intro state
    exact .of_isSome (readDirectoryDataPass_isSome state)
  · intro state next again
    exact .inr (readDirectoryDataPass_again again).1
  · intro state next again
    exact (readDirectoryDataPass_again again).2.1
  · intro state next enough again
    exact absurd (readDirectoryDataPass_again again).2.2 (Nat.not_lt.mpr enough)
  · intro state data left
    exact readDirectoryDataPass_succeeds left

private theorem sqfsMetaReadPass_succeeds {state : MetaReadState} {copied : List Cell}
    (left : sqfsMetaReadPass image comp state = .leave (.ok copied)) :
    state.bytesRemaining = 0 := by
  unfold sqfsMetaReadPass at left
  split at left
  · split at left <;> cases left
  · next none => exact Nat.eq_zero_of_not_pos none

private theorem sqfsMetaReadBody_reads {state next : MetaReadState}
    (run : sqfsMetaReadBody image comp state = .ok next) :
    state.blockPos + 2 ≤ image.bytes.length := by
  rcases Outcome.bind_eq_ok.mp run with ⟨content, read, -⟩
  rcases header_of_sqfsMetaReadBlock read with ⟨header, found⟩
  rcases readBlockFromDisk_header found with ⟨word, -, -, -, bound⟩
  exact bound

private theorem sqfsMetaReadPass_movesThrough :
    MovesThrough image (sqfsMetaReadPass image comp) MetaReadState.blockPos
      fun state => state.bytesRemaining = 0 := by
  apply MovesThrough.of_passes
  · intro state
    exact .of_isSome (sqfsMetaReadPass_isSome state)
  · intro state next again
    rcases sqfsMetaReadBody_moves (sqfsMetaReadPass_again again).2 with done | moved
    · exact .inl done
    · exact .inr moved.1
  · intro state next again
    exact sqfsMetaReadBody_reads (sqfsMetaReadPass_again again).2
  · intro state next done again
    exact absurd done (Nat.ne_of_gt (sqfsMetaReadPass_again again).1)
  · intro state copied left
    exact sqfsMetaReadPass_succeeds left

end Loops

/-- The loops over metadata blocks terminate on every image, from wherever they start. -/
theorem metadataLoops_terminate (image : Image) (comp : Compressor) :
    (∀ size, MovesThrough image (readDirectoryDataPass image comp size)
      DirectoryDataState.blockPos fun state => size ≤ state.copied.length) ∧
      MovesThrough image (sqfsMetaReadPass image comp) MetaReadState.blockPos
        fun state => state.bytesRemaining = 0 :=
  ⟨readDirectoryDataPass_movesThrough, sqfsMetaReadPass_movesThrough⟩

end SquashfsFuse
