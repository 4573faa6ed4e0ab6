import SquashfsFuse.Data.Content
import SquashfsFuse.Xattr.Pairs

/-! The two passes of the parser side by side, and the bytes that they look at. -/

namespace SquashfsFuse

/-! ## Recording the passes -/

structure PairSite where
  pos : Nat
  nameSize : Nat
  valueSize : Nat
  deriving Repr, DecidableEq

def countingSites (data : List UInt8) (remaining : Nat) : (fuel pos : Nat) → Sqfs (List PairSite)
  | fuel, pos =>
      if pos + 4 ≤ remaining then
        match fuel with
        | 0 => .fault
        | fuel + 1 => do
            let type ← sqfsLe16ToCpu data pos
            let nameSize ← sqfsLe16ToCpu data (pos + 2)
            match SqfsXattrPrefix.ofType type with
            | none => .err .badXattr
            | some _ =>
                let valuePos := pos + 4 + nameSize
                if remaining < valuePos + 4 then
                  .err .badXattr
                else do
                  let valueSize ← sqfsLe32ToCpu data valuePos
                  let next := valuePos + 4 + valueSize
                  if remaining < next then
                    .err .badXattr
                  else do
                    let sites ← countingSites data remaining fuel next
                    pure (⟨pos, nameSize, valueSize⟩ :: sites)
      else
        pure []

def fillingSites (data : List UInt8) (remaining : Nat) :
    (pairCount pos : Nat) → Sqfs (List (PairSite × SqfsXattr))
  | 0, _ => pure []
  | pairCount + 1, pos =>
      if pos + 4 ≤ remaining then do
        let type ← sqfsLe16ToCpu data pos
        let nameSize ← sqfsLe16ToCpu data (pos + 2)
        match SqfsXattrPrefix.ofType type with
        | none => .fault
        | some kind => do
            let name ← Outcome.ofOption (slice data (pos + 4) nameSize)
            let valuePos := pos + 4 + nameSize
            let valueSize ← sqfsLe32ToCpu data valuePos
            let value ← Outcome.ofOption (slice data (valuePos + 4) valueSize)
            let sites ← fillingSites data remaining pairCount (valuePos + 4 + valueSize)
            pure ((⟨pos, nameSize, valueSize⟩, ⟨kind.str ++ name, value⟩) :: sites)
      else
        .fault

section Recording

variable {data : List UInt8} {remaining : Nat}

private theorem countXattrPairs_eq_sites (fuel pos : Nat) :
    countXattrPairs data remaining fuel pos =
      List.length <$> countingSites data remaining fuel pos := by
  induction fuel generalizing pos with
  | zero =>
      unfold countXattrPairs countingSites
      split
      · rfl
      · rfl
  | succ fuel induction =>
      unfold countXattrPairs countingSites
      split
      · rw [map_bind]
        apply bind_congr
        intro type
        rw [map_bind]
        apply bind_congr
        intro nameSize
        cases SqfsXattrPrefix.ofType type with
        | none => rfl
        | some kind =>
            dsimp only
            split
            · rfl
            · rw [map_bind]
              apply bind_congr
              intro valueSize
              split
              · rfl
              · rw [induction, map_bind, bind_map_left]
                rfl
      · rfl

private theorem fillXattrPairs_eq_sites (pairCount pos : Nat) :
    fillXattrPairs data remaining pairCount pos =
      List.map Prod.snd <$> fillingSites data remaining pairCount pos := by
  induction pairCount generalizing pos with
  | zero => rfl
  | succ pairCount induction =>
      unfold fillXattrPairs fillingSites
      split
      · rw [map_bind]
        apply bind_congr
        intro type
        rw [map_bind]
        apply bind_congr
        intro nameSize
        cases SqfsXattrPrefix.ofType type with
        | none => rfl
        | some kind =>
            simp only [map_bind, induction, bind_map_left]
            rfl
      · rfl

end Recording

/-! ## Inside the block -/

section Inside

variable {data : List UInt8}

/-- With the size of the data as its bound the counting pass stays inside the data. -/
theorem countingSites_defined {fuel pos : Nat} (enough : data.length ≤ pos + fuel) :
    (countingSites data data.length fuel pos).Defined := by
  induction fuel generalizing pos with
  | zero =>
      unfold countingSites
      rw [if_neg (by omega)]
      exact Outcome.defined_ok _
  | succ fuel induction =>
      unfold countingSites
      split
      · next fits =>
          rcases @sqfsLe16ToCpu_of_le data pos (by omega) with ⟨type, loadedType⟩
          rcases @sqfsLe16ToCpu_of_le data (pos + 2) (by omega) with ⟨nameSize, loadedName⟩
          simp only [loadedType, loadedName, Outcome.ok_bind]
          cases SqfsXattrPrefix.ofType type with
          | none => exact Outcome.defined_err _
          | some kind =>
              dsimp only
              split
              · exact Outcome.defined_err _
              · next valueFits =>
                  rcases @sqfsLe32ToCpu_of_le data (pos + 4 + nameSize) (by omega) with
                    ⟨valueSize, loadedValue⟩
                  rw [loadedValue, Outcome.ok_bind]
                  split
                  · exact Outcome.defined_err _
                  · apply Outcome.defined_bind.mpr
                    constructor
                    · exact induction (by omega)
                    · intro sites _
                      exact Outcome.defined_ok _
      · exact Outcome.defined_ok _

/-- What the counting pass has visited, the filling pass visits again. -/
theorem fillingSites_of_counting {fuel pos : Nat} {sites : List PairSite}
    (counted : countingSites data data.length fuel pos = .ok sites) :
    ∃ visited, fillingSites data data.length sites.length pos = .ok visited ∧
      visited.map Prod.fst = sites := by
  induction fuel generalizing pos sites with
  | zero =>
      unfold countingSites at counted
      split at counted
      · cases counted
      · cases counted
        exact ⟨[], rfl, rfl⟩
  | succ fuel induction =>
      unfold countingSites at counted
      split at counted
      · next fits =>
          rcases Outcome.bind_eq_ok.mp counted with ⟨type, loadedType, counted⟩
          rcases Outcome.bind_eq_ok.mp counted with ⟨nameSize, loadedName, counted⟩
          cases known : SqfsXattrPrefix.ofType type with
          | none =>
              rw [known] at counted
              cases counted
          | some kind =>
              rw [known] at counted
              dsimp only at counted
              split at counted
              · cases counted
              · rcases Outcome.bind_eq_ok.mp counted with ⟨valueSize, loadedValue, counted⟩
                split at counted
                · cases counted
                · next inside =>
                    rcases Outcome.bind_eq_ok.mp counted with ⟨others, following, equal⟩
                    cases equal
                    rcases induction following with ⟨visited, filled, same⟩
                    have name : (slice data (pos + 4) nameSize).isSome = true :=
                      slice_isSome.mpr (by omega)
                    have value : (slice data (pos + 4 + nameSize + 4) valueSize).isSome = true :=
                      slice_isSome.mpr (by omega)
                    rcases Option.isSome_iff_exists.mp name with ⟨name, slicedName⟩
                    rcases Option.isSome_iff_exists.mp value with ⟨value, slicedValue⟩
                    refine ⟨(⟨pos, nameSize, valueSize⟩, ⟨kind.str ++ name, value⟩) :: visited,
                      ?_, ?_⟩
                    · rw [List.length_cons, fillingSites, if_pos fits]
                      simp only [loadedType, loadedName, loadedValue, known, slicedName,
                        slicedValue, filled, Outcome.ofOption_some, Outcome.ok_bind]
                      rfl
                    · rw [List.map_cons, same]
      · cases counted
        exact ⟨[], rfl, rfl⟩

end Inside

theorem readMetadataBlockInternal_length {image : Image} {comp : Compressor} {pos : Nat}
    {block : List UInt8} (read : readMetadataBlockInternal image comp pos = .ok block) :
    block.length ≤ sqfsMetaBlockSize := by
  rcases Outcome.bind_eq_ok.mp read with ⟨header, -, read⟩
  rw [decompressMetaBlock] at read
  split at read
  · rcases sqfsPreadInto_eq_ok.mp read with ⟨found, fits⟩
    rwa [Image.diskBytes_length found]
  · rcases Outcome.bind_eq_ok.mp read with ⟨stored, -, unpacked⟩
    exact comp.bounded (sqfsCompressorDecompress_eq_ok.mp unpacked)

/-! ## The parser -/

def parserData (ref : Nat) (block : List UInt8) : List UInt8 := block.drop (sqfsMetaRefOffset ref)

def parserRemaining (ref : Nat) (block : List UInt8) : Nat :=
  sub64 block.length (sqfsMetaRefOffset ref)

/-- The parser looks at no byte outside the block. Where it succeeds, its second pass visits
the pairs of the first and fills a slot for each of them. -/
structure StaysInBlock (ctx : SqfsCtx) (ref : Nat) (block : List UInt8) : Prop where
  inside : (readXattrPairs ctx ref).Defined
  inStep : ∀ pairs, readXattrPairs ctx ref = .ok pairs → ∃ visited,
    fillingSites (parserData ref block) (parserRemaining ref block) pairs.length 0 =
        .ok visited ∧
      visited.map Prod.snd = pairs ∧
      countingSites (parserData ref block) (parserRemaining ref block)
        (parserData ref block).length 0 = .ok (visited.map Prod.fst)

section Parser

variable {ctx : SqfsCtx} {table : SqfsXattrTable} {ref : Nat} {block : List UInt8}

private theorem readXattrPairs_of_read (attached : ctx.xattrTable = some table)
    (read : readMetadataBlockInternal ctx.image ctx.comp
      (u64 (table.tableStart + sqfsMetaRefPos ref)) = .ok block) :
    readXattrPairs ctx ref = (do
      let pairCount ← countXattrPairs (parserData ref block) (parserRemaining ref block)
        (parserData ref block).length 0
      if pairCount = 0 then pure []
      else fillXattrPairs (parserData ref block) (parserRemaining ref block) pairCount 0) := by
  rw [readXattrPairs, attached, Outcome.ofOption_some, Outcome.ok_bind, read, Outcome.ok_bind]
  rfl

/-- Behind the block the number of bytes wraps, and the first key is taken from nowhere. -/
theorem readXattrPairs_outside (attached : ctx.xattrTable = some table)
    (read : readMetadataBlockInternal ctx.image ctx.comp
      (u64 (table.tableStart + sqfsMetaRefPos ref)) = .ok block)
    (outside : block.length < sqfsMetaRefOffset ref) : readXattrPairs ctx ref = .fault := by
  have nothing : parserData ref block = [] := List.drop_of_length_le (by omega)
  have small : sqfsMetaRefOffset ref < 2 ^ 16 := Nat.and_lt_two_pow ref (by decide)
  have wraps := sub64_of_lt outside (Nat.lt_trans small (by decide))
  have counted : countXattrPairs [] (parserRemaining ref block) 0 0 = .fault := by
    rw [countXattrPairs, if_pos (by rw [parserRemaining, wraps]; omega)]
  rw [readXattrPairs_of_read attached read, nothing, List.length_nil, counted]
  rfl

private theorem staysInBlock_of_inside (attached : ctx.xattrTable = some table)
    (read : readMetadataBlockInternal ctx.image ctx.comp
      (u64 (table.tableStart + sqfsMetaRefPos ref)) = .ok block)
    (inside : sqfsMetaRefOffset ref ≤ block.length) : StaysInBlock ctx ref block := by
  have size := readMetadataBlockInternal_length read
  have remaining : parserRemaining ref block = (parserData ref block).length := by
    rw [parserRemaining, parserData, List.length_drop, sub64_of_le inside]
    exact Nat.lt_of_le_of_lt size (by decide)
  have parsed := readXattrPairs_of_read attached read
  rw [countXattrPairs_eq_sites, remaining] at parsed
  have defined := @countingSites_defined (parserData ref block) (parserData ref block).length 0
    (by omega)
  cases counted : countingSites (parserData ref block) (parserData ref block).length
      (parserData ref block).length 0 with
  | fault =>
      rw [counted] at defined
      exact absurd rfl defined
  | err code =>
      rw [counted] at parsed
      have failed : readXattrPairs ctx ref = .err code := parsed
      constructor
      · rw [failed]
        exact Outcome.defined_err code
      · intro pairs succeeded
        rw [failed] at succeeded
        cases succeeded
  | ok sites =>
      rcases fillingSites_of_counting counted with ⟨visited, filled, same⟩
      have delivered : readXattrPairs ctx ref = .ok (visited.map Prod.snd) := by
        rw [parsed, counted]
        change (if sites.length = 0 then pure [] else _) = _
        rw [fillXattrPairs_eq_sites, filled]
        split
        · next empty =>
            rw [← same, List.length_map, List.length_eq_zero_iff] at empty
            rw [empty]
            rfl
        · rfl
      constructor
      · rw [delivered]
        exact Outcome.defined_ok _
      · intro pairs succeeded
        rw [delivered] at succeeded
        cases succeeded
        have visits : (visited.map Prod.snd).length = sites.length := by
          rw [← same, List.length_map, List.length_map]
        rw [remaining, visits, counted]
        exact ⟨visited, filled, rfl, congrArg Outcome.ok same.symm⟩

end Parser

/-- The parser stays inside the block exactly when the reference does not point behind it. -/
theorem readXattrPairs_staysInBlock_iff (ctx : SqfsCtx) (table : SqfsXattrTable)
    (attached : ctx.xattrTable = some table) (ref : Nat) (block : List UInt8)
    (read : readMetadataBlockInternal ctx.image ctx.comp
      (u64 (table.tableStart + sqfsMetaRefPos ref)) = .ok block) :
    StaysInBlock ctx ref block ↔ sqfsMetaRefOffset ref ≤ block.length := by
  constructor
  · intro stays
    by_contra outside
    have faulted := readXattrPairs_outside attached read (Nat.lt_of_not_le outside)
    have defined := stays.inside
    rw [faulted] at defined
    exact Outcome.not_defined_fault defined
  · exact staysInBlock_of_inside attached read

/-- The second of two pairs is read inside the block. -/
theorem readXattrPairs_staysInBlock_second :
    StaysInBlock twoSetsCtx 10 (encodeXattrs [firstPair, secondPair]) :=
  (readXattrPairs_staysInBlock_iff twoSetsCtx twoSets rfl 10
    (encodeXattrs [firstPair, secondPair]) twoSetsBlock.readMetadataBlockInternal).mpr
    (by decide)

/-- A reference behind the block of two pairs makes the parser leave it. -/
theorem readXattrPairs_leaves_block :
    ¬ ∀ (ctx : SqfsCtx) (table : SqfsXattrTable), ctx.xattrTable = some table →
      ∀ (ref : Nat) (block : List UInt8), readMetadataBlockInternal ctx.image ctx.comp
        (u64 (table.tableStart + sqfsMetaRefPos ref)) = .ok block →
      StaysInBlock ctx ref block := by
  intro claim
  have stays := claim twoSetsCtx twoSets rfl 21 (encodeXattrs [firstPair, secondPair])
    twoSetsBlock.readMetadataBlockInternal
  have faulted : readXattrPairs twoSetsCtx 21 = .fault := by decide +kernel
  have defined := stays.inside
  rw [faulted] at defined
  exact Outcome.not_defined_fault defined

end SquashfsFuse
