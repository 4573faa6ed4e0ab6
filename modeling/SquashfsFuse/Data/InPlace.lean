import SquashfsFuse.Core.Data
import SquashfsFuse.Foundation.Decoder

/-! Unpacking a block over the end of its own output buffer. -/

namespace SquashfsFuse

/-- A decompressor: for the size of a source and an output limit, a decoder. -/
abbrev Machine := Nat → Nat → Decoder

namespace Machine

/-- Unpack a source that lies at `start` in the memory of the output buffer. -/
def unpack (machine : Machine) (limit start : Nat) (source : List UInt8) :
    Option (List UInt8) :=
  (machine source.length limit).runAt limit start source

private theorem unpack_length {machine : Machine} {limit start : Nat} {source output : List UInt8}
    (unpacked : machine.unpack limit start source = some output) : output.length ≤ limit :=
  Decoder.run_length _ (Nat.zero_le _) unpacked

/-- The address of the compressed bytes, relative to the output buffer. -/
def address (limit size : Nat) : Placement → Nat
  | .separate => limit
  | .tailOfOutput => limit - size

/-- The machine on the memory that the readers give it. -/
def inPlace (machine : Machine) : Compressor where
  decompress placement source limit :=
    machine.unpack limit (address limit source.length placement) source
  bounded := unpack_length

/-- The machine on a separate copy of the compressed bytes, always. -/
def apart (machine : Machine) : Compressor where
  decompress _ source limit := machine.unpack limit limit source
  bounded := unpack_length

/-- Unpacked over the end of the output buffer, the source stays intact until it
is read. -/
def KeepsSource (machine : Machine) (source : List UInt8) (limit : Nat) : Prop :=
  (machine source.length limit).Intact limit (limit - source.length) source 0 []

/-- Two machines make the same moves on a source and an output limit. -/
def ActsAlike (left right : Machine) (source : List UInt8) (limit : Nat) : Prop :=
  (left source.length limit).SameMoves (right source.length limit) source

/-- The machine with one of its decoders exchanged. -/
def exchange (machine : Machine) (size limit : Nat) (decoder : Decoder) : Machine :=
  fun otherSize otherLimit =>
    if otherSize = size ∧ otherLimit = limit then decoder else machine otherSize otherLimit

variable {machine : Machine} {limit : Nat} {source : List UInt8}

/-- A source stays intact exactly when every machine that makes these moves on it
unpacks it in place as it does a separate copy. -/
theorem keepsSource_iff :
    machine.KeepsSource source limit ↔
      ∀ other : Machine, other.ActsAlike machine source limit →
        other.inPlace.decompress .tailOfOutput source limit =
          other.apart.decompress .tailOfOutput source limit := by
  have separate := fun other : Machine =>
    (other source.length limit).runAt_separate limit source
  rw [KeepsSource, Decoder.intact_iff]
  constructor
  · intro intact other alike
    exact (intact _ alike).trans (separate other).symm
  · intro alike decoder same
    have exchanged : machine.exchange source.length limit decoder source.length limit = decoder :=
      if_pos ⟨rfl, rfl⟩
    have result := alike (machine.exchange source.length limit decoder)
      (by rwa [ActsAlike, exchanged])
    have apart := separate (machine.exchange source.length limit decoder)
    rw [exchanged] at apart
    rw [← apart]
    change Decoder.runAt (machine.exchange _ _ decoder _ _) _ _ _ =
      Decoder.runAt (machine.exchange _ _ decoder _ _) _ _ _ at result
    rwa [exchanged] at result

/-- A reader that unpacks at most one block over the end of a buffer gives the
result of a separate copy, for every machine with the same moves, exactly when
that block stays intact. -/
theorem keepsSource_iff_read {Result : Type} (read : Compressor → Result)
    {Over : List UInt8 → Prop}
    (atMostOne : ∀ {first second}, Over first → Over second → first = second)
    (decides : ∀ other : Machine, read other.inPlace = read other.apart ↔
      ∀ stored, Over stored → other.inPlace.decompress .tailOfOutput stored limit =
        other.apart.decompress .tailOfOutput stored limit) :
    (∀ stored, Over stored → machine.KeepsSource stored limit) ↔
      ∀ other : Machine, (∀ stored, Over stored → other.ActsAlike machine stored limit) →
        read other.inPlace = read other.apart := by
  constructor
  · intro keeps other alike
    apply (decides other).mpr
    intro stored overlaid
    exact keepsSource_iff.mp (keeps stored overlaid) other (alike stored overlaid)
  · intro same stored overlaid
    apply keepsSource_iff.mpr
    intro other alike
    refine (decides other).mp (same other ?_) stored overlaid
    intro again overlaidAgain
    exact atMostOne overlaid overlaidAgain ▸ alike

end Machine

/-! ## The blocks that are unpacked in place -/

/-- `sqfs_data_read_block` unpacks `stored` over the end of its buffer. -/
def DataUnpacksOver (image : Image) (blockPos blockSize uncompSize : Nat)
    (stored : List UInt8) : Prop :=
  blockSize ≠ 0 ∧ sqfsBlockIsUncompressed blockSize = false ∧
    sqfsBlockSizeGet blockSize ≤ uncompSize ∧
    image.diskBytes blockPos (sqfsBlockSizeGet blockSize) = some stored

/-- `sqfs_meta_read_block` unpacks `stored` over the end of its buffer. -/
def MetaUnpacksOver (image : Image) (pos : Nat) (stored : List UInt8) : Prop :=
  ∃ header, readMetaHeader image pos = .ok header ∧ header.uncompressed = false ∧
    header.size ≠ 0 ∧ header.size < sqfsMetaBlockSize ∧
    image.diskBytes (pos + 2) header.size = some stored

/-- `sqfs_fragment_read_block` unpacks `stored` over the end of its buffer. -/
def FragmentUnpacksOver (ctx : SqfsCtx) (fragIdx : Nat) (stored : List UInt8) : Prop :=
  ∃ entry, sqfsFragmentLocation ctx fragIdx = .ok entry ∧
    sqfsBlockIsUncompressed entry.size = false ∧
    sqfsBlockSizeGet entry.size < ctx.sb.blockSize ∧
    ctx.image.diskBytes entry.start (sqfsBlockSizeGet entry.size) = some stored

theorem DataUnpacksOver.unique {image : Image} {blockPos blockSize uncompSize : Nat}
    {first second : List UInt8}
    (left : DataUnpacksOver image blockPos blockSize uncompSize first)
    (right : DataUnpacksOver image blockPos blockSize uncompSize second) : first = second :=
  Option.some.inj (left.2.2.2.symm.trans right.2.2.2)

theorem MetaUnpacksOver.unique {image : Image} {pos : Nat} {first second : List UInt8}
    (left : MetaUnpacksOver image pos first) (right : MetaUnpacksOver image pos second) :
    first = second := by
  rcases left with ⟨header, read, -, -, -, found⟩
  rcases right with ⟨other, otherRead, -, -, -, otherFound⟩
  rw [read] at otherRead
  cases otherRead
  exact Option.some.inj (found.symm.trans otherFound)

theorem FragmentUnpacksOver.unique {ctx : SqfsCtx} {fragIdx : Nat}
    {first second : List UInt8} (left : FragmentUnpacksOver ctx fragIdx first)
    (right : FragmentUnpacksOver ctx fragIdx second) : first = second := by
  rcases left with ⟨entry, located, -, -, found⟩
  rcases right with ⟨other, otherLocated, -, -, otherFound⟩
  rw [located] at otherLocated
  cases otherLocated
  exact Option.some.inj (found.symm.trans otherFound)

/-! ## The three readers -/

private theorem sqfsCompressorDecompress_congr {left right : Compressor} {placement : Placement}
    {source : List UInt8} {limit : Nat} :
    sqfsCompressorDecompress left placement source limit =
        sqfsCompressorDecompress right placement source limit ↔
      left.decompress placement source limit = right.decompress placement source limit := by
  unfold sqfsCompressorDecompress
  cases left.decompress placement source limit <;>
    cases right.decompress placement source limit <;> simp

/-- Reading a block and unpacking it gives the same with two decompressors
exactly when they agree on the bytes of the block. -/
theorem read_and_unpack_congr {left right : Compressor} {placement : Placement} {limit : Nat}
    {Result : Type} {finish : Sqfs (List UInt8) → Sqfs Result}
    (injective : Function.Injective finish)
    {load : Sqfs (List UInt8)} {found : Option (List UInt8)}
    (loads : ∀ stored, load = .ok stored ↔ found = some stored) :
    (do
      let stored ← load
      finish (sqfsCompressorDecompress left placement stored limit)) =
    (do
      let stored ← load
      finish (sqfsCompressorDecompress right placement stored limit)) ↔
      ∀ stored, found = some stored →
        left.decompress placement stored limit = right.decompress placement stored limit := by
  cases load with
  | ok part =>
      have only := (loads part).mp rfl
      simp only [Outcome.ok_bind, only, Option.some.injEq, forall_eq']
      rw [injective.eq_iff, sqfsCompressorDecompress_congr]
  | err code =>
      refine iff_of_true rfl fun stored here => ?_
      cases (loads stored).mpr here
  | fault =>
      refine iff_of_true rfl fun stored here => ?_
      cases (loads stored).mpr here

private theorem unpackedBuffer_injective (uncompSize : Nat) :
    Function.Injective fun unpacked : Sqfs (List UInt8) => (do
      let output ← unpacked
      pure (output.map some ++ List.replicate (uncompSize - output.length) none,
        output.length) : Sqfs (List Cell × Nat)) := by
  intro left right same
  cases left <;> cases right <;>
    simp only [Outcome.ok_bind, Outcome.err_bind, Outcome.fault_bind, Outcome.pure_eq,
      Outcome.ok.injEq, Prod.mk.injEq, Outcome.err.injEq, reduceCtorEq] at same ⊢
  · have parts := (List.append_inj same.1 (by simpa using same.2)).1
    exact (List.map_inj_right fun _ _ => Option.some.inj).mp parts
  · exact same

private theorem sqfsDataReadBlock_inPlace (machine : Machine) (image : Image)
    (blockPos blockSize : Nat) (blockBuf : List Cell) (uncompSize : Nat) :
    sqfsDataReadBlock image machine.inPlace blockPos blockSize blockBuf uncompSize =
        sqfsDataReadBlock image machine.apart blockPos blockSize blockBuf uncompSize ↔
      ∀ stored, DataUnpacksOver image blockPos blockSize uncompSize stored →
        machine.inPlace.decompress .tailOfOutput stored uncompSize =
          machine.apart.decompress .tailOfOutput stored uncompSize := by
  unfold sqfsDataReadBlock DataUnpacksOver
  by_cases hole : blockSize = 0
  · simp [hole]
  · cases uncompressed : sqfsBlockIsUncompressed blockSize with
    | true => simp
    | false =>
        by_cases short : sqfsBlockSizeGet blockSize ≤ uncompSize
        · simp only [hole, short, if_false, if_true, Bool.false_eq_true, not_false_eq_true,
            ne_eq, true_and]
          exact read_and_unpack_congr (unpackedBuffer_injective uncompSize)
            fun stored => readBlockFromDisk_eq_ok
        · simp only [hole, short, if_false, Bool.false_eq_true, false_and, and_false,
            false_implies, implies_true, iff_true]
          rfl

private theorem sqfsMetaReadBlock_inPlace (machine : Machine) (image : Image) (pos : Nat) :
    sqfsMetaReadBlock image machine.inPlace pos = sqfsMetaReadBlock image machine.apart pos ↔
      ∀ stored, MetaUnpacksOver image pos stored →
        machine.inPlace.decompress .tailOfOutput stored sqfsMetaBlockSize =
          machine.apart.decompress .tailOfOutput stored sqfsMetaBlockSize := by
  unfold sqfsMetaReadBlock MetaUnpacksOver
  cases readMetaHeader image pos with
  | err code => simp
  | fault => simp
  | ok header =>
      simp only [Outcome.mapErr_ok, Outcome.ok_bind, Outcome.ok.injEq, exists_eq_left']
      cases uncompressed : header.uncompressed with
      | true => simp
      | false =>
          by_cases short : header.size ≠ 0 ∧ header.size < sqfsMetaBlockSize
          · have valid : ¬ (header.size = 0 ∨ sqfsMetaBlockSize < header.size) := by omega
            rw [if_neg valid, if_neg valid]
            simp only [short.1, short.2, if_false, if_true, Bool.false_eq_true,
              not_false_eq_true, ne_eq, true_and]
            exact read_and_unpack_congr Function.injective_id
              fun stored => readBlockFromDisk_eq_ok
          · refine iff_of_true ?_ fun stored overlaid => absurd ⟨overlaid.2.1, overlaid.2.2.1⟩ short
            by_cases invalid : header.size = 0 ∨ sqfsMetaBlockSize < header.size
            · rw [if_pos invalid, if_pos invalid]
            · have long : ¬ header.size < sqfsMetaBlockSize := fun less =>
                short ⟨fun empty => invalid (.inl empty), less⟩
              simp only [invalid, long, if_false]
              rfl

private theorem sqfsFragmentReadBlock_inPlace (machine : Machine) (ctx : SqfsCtx) (fragIdx : Nat) :
    sqfsFragmentReadBlock { ctx with comp := machine.inPlace } fragIdx =
        sqfsFragmentReadBlock { ctx with comp := machine.apart } fragIdx ↔
      ∀ stored, FragmentUnpacksOver ctx fragIdx stored →
        machine.inPlace.decompress .tailOfOutput stored ctx.sb.blockSize =
          machine.apart.decompress .tailOfOutput stored ctx.sb.blockSize := by
  have located (comp : Compressor) :
      sqfsFragmentLocation { ctx with comp } fragIdx = sqfsFragmentLocation ctx fragIdx := rfl
  unfold sqfsFragmentReadBlock FragmentUnpacksOver
  rw [located machine.inPlace, located machine.apart]
  cases sqfsFragmentLocation ctx fragIdx with
  | err code => simp
  | fault => simp
  | ok entry =>
      simp only [Outcome.ok_bind, Outcome.ok.injEq, exists_eq_left']
      cases uncompressed : sqfsBlockIsUncompressed entry.size with
      | true => simp
      | false =>
          by_cases short : sqfsBlockSizeGet entry.size < ctx.sb.blockSize
          · simp only [short, if_true, Bool.false_eq_true, if_false, true_and]
            exact read_and_unpack_congr Function.injective_id
              fun stored => sqfsPreadAll_eq_ok
          · simp only [short, if_false, Bool.false_eq_true, false_and, and_false,
              false_implies, implies_true, iff_true]
            rfl

/-- For every machine, the three readers that unpack over the end of the output
buffer give what they would give with a separate copy, whatever else the machine
may do on other bytes, exactly when the source stays intact until it is read. -/
theorem inPlace_reads_as_apart_iff (machine : Machine) :
    (∀ image blockPos blockSize blockBuf uncompSize,
      (∀ stored, DataUnpacksOver image blockPos blockSize uncompSize stored →
          machine.KeepsSource stored uncompSize) ↔
        ∀ other : Machine,
          (∀ stored, DataUnpacksOver image blockPos blockSize uncompSize stored →
            other.ActsAlike machine stored uncompSize) →
          sqfsDataReadBlock image other.inPlace blockPos blockSize blockBuf uncompSize =
            sqfsDataReadBlock image other.apart blockPos blockSize blockBuf uncompSize) ∧
    (∀ image pos,
      (∀ stored, MetaUnpacksOver image pos stored →
          machine.KeepsSource stored sqfsMetaBlockSize) ↔
        ∀ other : Machine,
          (∀ stored, MetaUnpacksOver image pos stored →
            other.ActsAlike machine stored sqfsMetaBlockSize) →
          sqfsMetaReadBlock image other.inPlace pos =
            sqfsMetaReadBlock image other.apart pos) ∧
    (∀ ctx fragIdx,
      (∀ stored, FragmentUnpacksOver ctx fragIdx stored →
          machine.KeepsSource stored ctx.sb.blockSize) ↔
        ∀ other : Machine,
          (∀ stored, FragmentUnpacksOver ctx fragIdx stored →
            other.ActsAlike machine stored ctx.sb.blockSize) →
          sqfsFragmentReadBlock { ctx with comp := other.inPlace } fragIdx =
            sqfsFragmentReadBlock { ctx with comp := other.apart } fragIdx) := by
  refine ⟨?_, ?_, ?_⟩
  · intro image blockPos blockSize blockBuf uncompSize
    exact Machine.keepsSource_iff_read
      (fun comp => sqfsDataReadBlock image comp blockPos blockSize blockBuf uncompSize)
      DataUnpacksOver.unique
      fun other => sqfsDataReadBlock_inPlace other image blockPos blockSize blockBuf uncompSize
  · intro image pos
    exact Machine.keepsSource_iff_read (fun comp => sqfsMetaReadBlock image comp pos)
      MetaUnpacksOver.unique fun other => sqfsMetaReadBlock_inPlace other image pos
  · intro ctx fragIdx
    exact Machine.keepsSource_iff_read
      (fun comp => sqfsFragmentReadBlock { ctx with comp } fragIdx)
      FragmentUnpacksOver.unique fun other => sqfsFragmentReadBlock_inPlace other ctx fragIdx

/-- A decoder that turns the source `0, 7` into four zeros and reads the second
byte, a trailer, when it has written them. -/
def zerosWithTrailer : Decoder :=
  .read fun _ => .write 0 (.write 0 (.write 0 (.write 0 (.read fun trailer =>
    .done (trailer == some 7)))))

/-- The zeros overwrite the trailer before it is read. -/
theorem inPlace_loses_trailer :
    ¬ ∀ (machine : Machine) (image : Image) (blockPos blockSize : Nat) (blockBuf : List Cell)
      (uncompSize : Nat),
      sqfsDataReadBlock image machine.inPlace blockPos blockSize blockBuf uncompSize =
        sqfsDataReadBlock image machine.apart blockPos blockSize blockBuf uncompSize := by
  intro same
  have inPlace : sqfsDataReadBlock ⟨[0, 7], by decide⟩
      (Machine.inPlace fun _ _ => zerosWithTrailer) 0 2 (.replicate 4 none) 4 =
      .err .corrupt := by
    decide
  have apart : sqfsDataReadBlock ⟨[0, 7], by decide⟩
      (Machine.apart fun _ _ => zerosWithTrailer) 0 2 (.replicate 4 none) 4 =
      .ok (.replicate 4 (some 0), 4) := by
    decide
  have equal := same (fun _ _ => zerosWithTrailer) ⟨[0, 7], by decide⟩ 0 2 (.replicate 4 none) 4
  rw [inPlace, apart] at equal
  cases equal

end SquashfsFuse
