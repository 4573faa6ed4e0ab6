import SquashfsFuse.Data.Content

/-! Reading a file straight from the image. The plain reader is the main loop of
`sqfs_data_read_internal` without its cache and its block buffer; what the
buffer holds beyond a block is indeterminate. -/

namespace SquashfsFuse

/-! ## The plain reader -/

structure Progress where
  bytesRead : Nat
  bytesRemaining : Nat
  out : List Cell
  deriving Repr, DecidableEq

/-- The value a read returns and the bytes it wrote. -/
structure PlainResult where
  ret : Int
  out : List Cell
  deriving Repr, DecidableEq

namespace Progress

def copied (progress : Progress) (bytes : List Cell) : Progress where
  bytesRead := progress.bytesRead + bytes.length
  bytesRemaining := progress.bytesRemaining - bytes.length
  out := progress.out ++ bytes

def returned (progress : Progress) (ret : Int) : PlainResult where
  ret := ret
  out := progress.out

def finished (progress : Progress) (ret : Int) (bytes : List Cell) : PlainResult where
  ret := if ret < 0 then ret else toInt (progress.bytesRead + ret.toNat)
  out := progress.out ++ bytes

end Progress

/-- `sqfs_fragment_read` without its cache. -/
def plainFragment (ctx : SqfsCtx) (fragIdx offset size : Nat) : Sqfs (List UInt8) :=
  if sqfsFragmentIsNone fragIdx then
    .err .notFound
  else if ctx.sb.blockSize ≤ offset then
    .err .corrupt
  else do
    let data ← sqfsFragmentReadBlock ctx fragIdx
    pure (copyFromFragment ctx.sb.blockSize data offset size)

theorem plainFragment_eq_ok {ctx : SqfsCtx} {fragIdx offset size : Nat} {bytes : List UInt8} :
    plainFragment ctx fragIdx offset size = .ok bytes ↔
      sqfsFragmentIsNone fragIdx = false ∧ offset < ctx.sb.blockSize ∧
        ∃ data, sqfsFragmentReadBlock ctx fragIdx = .ok data ∧
          copyFromFragment ctx.sb.blockSize data offset size = bytes := by
  rw [plainFragment]
  by_cases none : sqfsFragmentIsNone fragIdx = true
  · simp [none]
  · by_cases outside : ctx.sb.blockSize ≤ offset
    · simp [none, outside]
    · simp [none, outside, Outcome.bind_eq_ok, Nat.lt_of_not_le outside]

theorem copyFromFragment_length_le (blockSize : Nat) (data : List UInt8) (fragOffset size : Nat) :
    (copyFromFragment blockSize data fragOffset size).length ≤ size := by
  rw [copyFromFragment]
  split
  · rw [List.length_replicate]
    exact Nat.min_le_left _ _
  · exact List.length_take_le _ _

def plainTail (ctx : SqfsCtx) (file : SqfsFileCtx) (blockOffset : Nat)
    (progress : Progress) : Option PlainResult :=
  match plainFragment ctx file.fragIdx (u32 (file.fragOffset + blockOffset))
      progress.bytesRemaining with
  | .ok bytes => some (progress.finished (toInt bytes.length) (bytes.map some))
  | .err _ => some (progress.finished (toInt progress.bytesRemaining)
      (List.replicate progress.bytesRemaining (some 0)))
  | .fault => none

/-- The cells of the block buffer at `[start, start + count)`, as far as the
block itself determines them. -/
def blockCells (data : List UInt8) (start count : Nat) : List Cell :=
  if start ≤ data.length then
    ((data.drop start).take count).map some
  else
    List.replicate count none

/-- The bytes the loop copies out of a block of `length` bytes. -/
def copyLength (file : SqfsFileCtx) (blockOffset bytesRemaining length : Nat) : Nat :=
  min (min (file.blockSize - blockOffset) bytesRemaining) (sub64 length blockOffset)

def plainStored (ctx : SqfsCtx) (file : SqfsFileCtx) (location : BlockLocation)
    (blockOffset : Nat) (progress : Progress) : Pass Progress (Option PlainResult) :=
  match storedContent ctx location file.blockSize with
  | .fault => .leave none
  | .err error => .leave (some (progress.returned error.code))
  | .ok data =>
      .again (progress.copied (blockCells data blockOffset
        (copyLength file blockOffset progress.bytesRemaining data.length)))

def plainPass (ctx : SqfsCtx) (file : SqfsFileCtx) (offset : Nat) (progress : Progress) :
    Pass Progress (Option PlainResult) :=
  if progress.bytesRemaining = 0 then
    .leave (some (progress.returned (toInt progress.bytesRead)))
  else
    let blockIdx := u32 (u64 (offset + progress.bytesRead) / file.blockSize)
    let blockOffset := u64 (offset + progress.bytesRead) % file.blockSize
    if blockIdx = file.blockCount ∧ sqfsFragmentIsNone file.fragIdx = false then
      .leave (plainTail ctx file blockOffset progress)
    else
      match sqfsFileBlockLocation file blockIdx with
      | .fault => .leave none
      | .err error => .leave (some (progress.returned error.code))
      | .ok location =>
          if location.size = 0 then
            let toCopy := min (file.blockSize - blockOffset) progress.bytesRemaining
            .again (progress.copied (List.replicate toCopy (some 0)))
          else
            plainStored ctx file location blockOffset progress

/-! ## What a pass can do -/

section Pass

variable {ctx : SqfsCtx} {file : SqfsFileCtx} {offset : Nat} {progress next : Progress}
  {result : PlainResult}

theorem plainPass_again (repeated : plainPass ctx file offset progress = .again next) :
    progress.bytesRemaining ≠ 0 ∧
      ¬ (u32 (u64 (offset + progress.bytesRead) / file.blockSize) = file.blockCount ∧
        sqfsFragmentIsNone file.fragIdx = false) ∧
      ∃ location,
        sqfsFileBlockLocation file (u32 (u64 (offset + progress.bytesRead) / file.blockSize)) =
          .ok location ∧
        ((location.size = 0 ∧ next = progress.copied (List.replicate
            (min (file.blockSize - u64 (offset + progress.bytesRead) % file.blockSize)
              progress.bytesRemaining) (some 0))) ∨
          (location.size ≠ 0 ∧ ∃ data, storedContent ctx location file.blockSize = .ok data ∧
            next = progress.copied (blockCells data
              (u64 (offset + progress.bytesRead) % file.blockSize)
              (copyLength file (u64 (offset + progress.bytesRead) % file.blockSize)
                progress.bytesRemaining data.length)))) := by
  rw [plainPass] at repeated
  split at repeated
  · cases repeated
  · next unfinished =>
      dsimp only at repeated
      split at repeated
      · cases repeated
      · next notTail =>
          refine ⟨unfinished, notTail, ?_⟩
          split at repeated
          · cases repeated
          · cases repeated
          · next location located =>
              refine ⟨location, located, ?_⟩
              split at repeated
              · next hole =>
                  cases repeated
                  exact .inl ⟨hole, rfl⟩
              · next notHole =>
                  rw [plainStored] at repeated
                  split at repeated
                  · cases repeated
                  · cases repeated
                  · next data content =>
                      cases repeated
                      exact .inr ⟨notHole, data, content, rfl⟩

theorem plainPass_leave (left : plainPass ctx file offset progress = .leave (some result)) :
    (progress.bytesRemaining = 0 ∧ result = progress.returned (toInt progress.bytesRead)) ∨
      ((u32 (u64 (offset + progress.bytesRead) / file.blockSize) = file.blockCount ∧
          sqfsFragmentIsNone file.fragIdx = false) ∧
        plainTail ctx file (u64 (offset + progress.bytesRead) % file.blockSize) progress =
          some result) ∨
      ∃ error : SqfsError, result = progress.returned error.code := by
  rw [plainPass] at left
  split at left
  · next finished =>
      cases left
      exact .inl ⟨finished, rfl⟩
  · dsimp only at left
    split at left
    · next tail => exact .inr (.inl ⟨tail, Pass.leave.inj left⟩)
    · split at left
      · cases left
      · cases left
        exact .inr (.inr ⟨_, rfl⟩)
      · split at left
        · cases left
        · rw [plainStored] at left
          split at left
          · cases left
          · cases left
            exact .inr (.inr ⟨_, rfl⟩)
          · cases left

end Pass

/-! ## What ties the reader to the plain reader -/

def Refines (known actual : List Cell) : Prop :=
  List.Forall₂ (fun known actual => ∀ byte, known = some byte → actual = some byte) known actual

theorem Refines.refl (cells : List Cell) : Refines cells cells :=
  List.forall₂_same.mpr fun _ _ _ equal => equal

theorem Refines.append {known actual known' actual' : List Cell} (front : Refines known actual)
    (back : Refines known' actual') : Refines (known ++ known') (actual ++ actual') :=
  List.rel_append front back

private theorem Refines.replicate_none {count : Nat} {actual : List Cell}
    (length : actual.length = count) : Refines (List.replicate count none) actual := by
  subst length
  induction actual with
  | nil => exact .nil
  | cons cell rest induction => exact .cons (fun _ equal => nomatch equal) induction

theorem Refines.of_known {bytes : List UInt8} {actual : List Cell}
    (refines : Refines (bytes.map some) actual) : actual = bytes.map some := by
  induction bytes generalizing actual with
  | nil => exact List.forall₂_nil_left_iff.mp refines
  | cons byte rest induction =>
      cases refines with
      | cons first others => rw [first byte rfl, induction others, List.map_cons]

/-- The blocks whose bytes a read of `total` bytes at `offset` looks at. -/
def Touches (file : SqfsFileCtx) (offset total idx : Nat) : Prop :=
  ∃ pos, offset ≤ pos ∧ pos < offset + total ∧ u32 (u64 pos / file.blockSize) = idx

/-- What is offered under the key of a touched block is what the cache may keep
there, and what it serves there is the content of the block. -/
structure Agrees (offered served : Nat → BlockEntry → Prop) (ctx : SqfsCtx)
    (file : SqfsFileCtx) (touched : Nat → Prop) : Prop where
  offersBlock : ∀ idx location address data, touched idx →
    sqfsFileBlockLocation file idx = .ok location → location.size ≠ 0 →
    storedContent ctx location file.blockSize = .ok data → data ≠ [] →
    offered location.pos ⟨address, data, true⟩
  servesBlock : ∀ idx location entry, touched idx →
    sqfsFileBlockLocation file idx = .ok location → location.size ≠ 0 →
    served location.pos entry → entry.isCached = true →
    storedContent ctx location file.blockSize = .ok entry.data
  offersFragment : ∀ address data, touched file.blockCount →
    sqfsFragmentIsNone file.fragIdx = false →
    sqfsFragmentReadBlock ctx file.fragIdx = .ok data →
    offered file.fragIdx ⟨address, data, true⟩
  servesFragment : ∀ entry, touched file.blockCount →
    sqfsFragmentIsNone file.fragIdx = false →
    served file.fragIdx entry → entry.isCached = true →
    sqfsFragmentReadBlock ctx file.fragIdx = .ok entry.data

/-- A read and the plain reader at the same point of a request of `total`
bytes. -/
structure Tracks (Inv : C → Prop) (file : SqfsFileCtx) (total : Nat)
    (progress : Progress) (state : ReadState C) : Prop where
  bytesRead : state.bytesRead = progress.bytesRead
  bytesRemaining : state.bytesRemaining = progress.bytesRemaining
  total : progress.bytesRead + progress.bytesRemaining = total
  out : Refines progress.out state.out
  blockBuf : state.blockBuf.length = file.blockSize
  cache : Inv state.cache

def SameResult (Inv : C → Prop) : Option PlainResult → Option (ReadResult C) → Prop
  | some plain, some result =>
      result.ret = plain.ret ∧ Refines plain.out result.out ∧ Inv result.cache
  | none, none => True
  | _, _ => False

def SameOutcome (Inv : C → Prop) : Sqfs α → Outcome (SqfsError × C) (α × C) → Prop
  | .ok value, .ok (value', after) => value' = value ∧ Inv after
  | .err error, .err (error', after) => error' = error ∧ Inv after
  | .fault, .fault => True
  | _, _ => False

/-! ## The reader follows the plain reader -/

section Refinement

variable {cache : BlockCache C} {Inv : C → Prop} {offered served : Nat → BlockEntry → Prop}
  {ctx : SqfsCtx} {file : SqfsFileCtx} {offset total blockOffset : Nat}
  {progress : Progress} {state : ReadState C}

private theorem blockCells_length {data : List UInt8} {start count : Nat}
    (inside : start ≤ data.length → start + count ≤ data.length) :
    (blockCells data start count).length = count := by
  rw [blockCells]
  split
  · next within =>
      have bound := inside within
      rw [List.length_map, List.length_take, List.length_drop]
      omega
  · exact List.length_replicate

theorem blockCells_getElem? {data : List UInt8} {start count idx : Nat} {byte : UInt8}
    (inside : idx < (blockCells data start count).length)
    (value : data[start + idx]? = some byte) :
    (blockCells data start count)[idx]? = some (some byte) := by
  have bound := (List.getElem?_eq_some_iff.mp value).1
  rw [blockCells, if_pos (by omega)] at inside ⊢
  rw [List.length_map, List.length_take] at inside
  rw [List.getElem?_map, List.getElem?_take_of_lt (by omega), List.getElem?_drop, value,
    Option.map_some]

theorem copyLength_inside {bytesRemaining length : Nat} (small : file.blockSize ≤ 2 ^ 20)
    (bounded : length ≤ file.blockSize) (within : blockOffset ≤ length) :
    copyLength file blockOffset bytesRemaining length =
      min (length - blockOffset) bytesRemaining := by
  rw [copyLength, sub64_of_le within (by omega)]
  omega

/-- Behind the end of a block the difference wraps, and the loop copies up to
the end of the buffer. -/
theorem copyLength_behind {bytesRemaining length : Nat} (small : file.blockSize ≤ 2 ^ 20)
    (behind : length < blockOffset) (inBlock : blockOffset < file.blockSize) :
    copyLength file blockOffset bytesRemaining length =
      min (file.blockSize - blockOffset) bytesRemaining := by
  rw [copyLength, sub64_of_lt behind (by omega)]
  omega

theorem blockCells_copyLength {data : List UInt8} {bytesRemaining : Nat}
    (small : file.blockSize ≤ 2 ^ 20) (fits : data.length ≤ file.blockSize) :
    (blockCells data blockOffset
      (copyLength file blockOffset bytesRemaining data.length)).length =
      copyLength file blockOffset bytesRemaining data.length := by
  apply blockCells_length
  intro within
  rw [copyLength_inside small fits within]
  omega

theorem Tracks.copied {bytes bytes' : List Cell} (tracks : Tracks Inv file total progress state)
    (same : Refines bytes bytes') (fits : bytes.length ≤ progress.bytesRemaining) :
    Tracks Inv file total (progress.copied bytes) (state.copied bytes') where
  bytesRead := by
    have length := same.length_eq
    simp only [ReadState.copied, Progress.copied, tracks.bytesRead, length]
  bytesRemaining := by
    have length := same.length_eq
    simp only [ReadState.copied, Progress.copied, tracks.bytesRemaining, length]
  total := by
    have sum := tracks.total
    simp only [Progress.copied]
    omega
  out := tracks.out.append same
  blockBuf := tracks.blockBuf
  cache := tracks.cache

theorem Tracks.same_returned (tracks : Tracks Inv file total progress state) (ret : Int) :
    SameResult Inv (some (progress.returned ret)) (some (state.returned ret)) :=
  ⟨rfl, tracks.out, tracks.cache⟩

private theorem Tracks.same_finished {bytes bytes' : List Cell} {after : C}
    (tracks : Tracks Inv file total progress state) (ret : Int)
    (same : Refines bytes bytes') (inv : Inv after) :
    SameResult Inv (some (progress.finished ret bytes))
      (if ret < 0 then some { ret, out := state.out ++ bytes', cache := after }
      else some {
        ret := toInt (state.bytesRead + ret.toNat), out := state.out ++ bytes',
        cache := after }) := by
  rw [Progress.finished, tracks.bytesRead]
  split
  · exact ⟨rfl, tracks.out.append same, inv⟩
  · exact ⟨rfl, tracks.out.append same, inv⟩

theorem Tracks.touches (offset : Nat) (tracks : Tracks Inv file total progress state)
    (unfinished : progress.bytesRemaining ≠ 0) :
    Touches file offset total
      (u32 (u64 (offset + progress.bytesRead) / file.blockSize)) := by
  have sum := tracks.total
  exact ⟨offset + progress.bytesRead, by omega, by omega, rfl⟩

private theorem sqfsFragmentRead_same {state : C} (fragOffset size : Nat)
    (serves : cache.Serves Inv offered served)
    (agrees : Agrees offered served ctx file (Touches file offset total))
    (touched : Touches file offset total file.blockCount) (inv : Inv state) :
    SameOutcome Inv (plainFragment ctx file.fragIdx fragOffset size)
      (sqfsFragmentRead cache ctx state file.fragIdx fragOffset size) := by
  rw [plainFragment, sqfsFragmentRead]
  cases none : sqfsFragmentIsNone file.fragIdx with
  | true => exact ⟨rfl, inv⟩
  | false =>
      simp only [Bool.false_eq_true, if_false]
      by_cases outside : ctx.sb.blockSize ≤ fragOffset
      · rw [if_pos outside, if_pos outside]
        exact ⟨rfl, inv⟩
      · rw [if_neg outside, if_neg outside]
        rcases serves.get state (sqfsFragmentCacheKey file.fragIdx) inv with
          ⟨after, found, run, afterInv, good⟩
        rw [run]
        cases hit : found.filter BlockEntry.isCached with
        | some entry =>
            rcases Option.filter_eq_some_iff.mp hit with ⟨present, usable⟩
            have content := agrees.servesFragment entry touched none (good entry present) usable
            simp only [hit, content, Outcome.ok_bind, Outcome.pure_eq]
            exact ⟨rfl, afterInv⟩
        | none =>
            simp only [hit, fragmentReadMissing]
            have newInv := serves.new after afterInv
            cases content : sqfsFragmentReadBlock ctx file.fragIdx with
            | fault => trivial
            | err error => exact ⟨rfl, serves.free _ _ newInv⟩
            | ok data =>
                have accepts := agrees.offersFragment (cache.new after).2 data touched none content
                rcases serves.put (cache.new after).1 (sqfsFragmentCacheKey file.fragIdx) _
                    (blockEntrySize + ctx.sb.blockSize) newInv accepts with
                  ⟨stored, result, putRun, storedInv⟩
                simp only [putRun, Outcome.ok_bind, Outcome.pure_eq]
                refine ⟨rfl, ?_⟩
                split
                · exact storedInv
                · exact serves.free _ _ storedInv

private theorem readTail_same (serves : cache.Serves Inv offered served)
    (agrees : Agrees offered served ctx file (Touches file offset total))
    (touched : Touches file offset total file.blockCount)
    (tracks : Tracks Inv file total progress state) :
    SameResult Inv (plainTail ctx file blockOffset progress)
      (readTail cache ctx file blockOffset state) := by
  have same := sqfsFragmentRead_same (u32 (file.fragOffset + blockOffset))
    progress.bytesRemaining serves agrees touched tracks.cache
  rw [readTail, readFromFragment, plainTail, tracks.bytesRemaining]
  generalize plainFragment ctx file.fragIdx _ _ = plain at same
  generalize sqfsFragmentRead cache ctx state.cache _ _ _ = actual at same
  match plain, actual, same with
  | .fault, .fault, _ => trivial
  | .ok bytes, .ok (_, after), ⟨rfl, inv⟩ =>
      exact tracks.same_finished _ (.refl _) inv
  | .err error, .err (_, after), ⟨rfl, inv⟩ =>
      exact tracks.same_finished _ (.refl _) inv

theorem blockCells_refines {location : BlockLocation} {blockBuf : List Cell}
    {data : List UInt8} {bytesRemaining : Nat} (small : file.blockSize ≤ 2 ^ 20)
    (inBlock : blockOffset < file.blockSize) (room : blockBuf.length = file.blockSize)
    (fits : data.length ≤ file.blockSize) :
    Refines
      (blockCells data blockOffset (copyLength file blockOffset bytesRemaining data.length))
      (((refill location blockBuf file.blockSize data).drop blockOffset).take
        (copyLength file blockOffset bytesRemaining data.length)) := by
  rw [blockCells]
  split
  · next within =>
      have inside : blockOffset + copyLength file blockOffset bytesRemaining data.length ≤
          data.length := by
        rw [copyLength_inside small fits within]
        omega
      rw [refill_part inside]
      exact .refl _
  · next outside =>
      apply Refines.replicate_none
      have behind : data.length < blockOffset := by omega
      rw [copyLength_behind small behind inBlock, List.length_take, List.length_drop,
        refill_length room fits]
      omega

theorem blockCells_fits {data : List UInt8} (bytesRemaining : Nat)
    (small : file.blockSize ≤ 2 ^ 20) (fits : data.length ≤ file.blockSize) :
    (blockCells data blockOffset
      (copyLength file blockOffset bytesRemaining data.length)).length ≤ bytesRemaining := by
  rw [blockCells_copyLength small fits, copyLength]
  omega

theorem offerBlock_serves {state : C} (blockPos : Nat) (data : List UInt8)
    (serves : cache.Serves Inv offered served) (inv : Inv state)
    (accepts : ∀ address, data ≠ [] → offered blockPos ⟨address, data, true⟩) :
    ∃ after, offerBlock cache state blockPos data = some after ∧ Inv after := by
  rw [offerBlock]
  split
  · exact ⟨state, rfl, inv⟩
  · next nonempty =>
      have some := accepts (cache.new state).2 (fun empty => nonempty (by rw [empty]; rfl))
      rcases serves.put (cache.new state).1 (sqfsDataBlockCacheKey blockPos) _
          (blockEntrySize + data.length) (serves.new state inv) some with
        ⟨after, result, run, afterInv⟩
      exact ⟨after, by simp only [run, Option.map_some], afterInv⟩

private theorem readMissing_same {location : BlockLocation} {idx : Nat}
    (serves : cache.Serves Inv offered served)
    (agrees : Agrees offered served ctx file (Touches file offset total))
    (small : file.blockSize ≤ 2 ^ 20) (inBlock : blockOffset < file.blockSize)
    (touched : Touches file offset total idx)
    (located : sqfsFileBlockLocation file idx = .ok location) (notHole : location.size ≠ 0)
    (tracks : Tracks Inv file total progress state) :
    Pass.Matches (Tracks Inv file total) (SameResult Inv)
      (plainStored ctx file location blockOffset progress)
      (readMissing cache ctx file location blockOffset state) := by
  rw [readMissing, plainStored, sqfsDataReadBlock_eq _ _ _ _ notHole]
  cases content : storedContent ctx location file.blockSize with
  | fault => trivial
  | err error => exact tracks.same_returned _
  | ok data =>
      have fits := storedContent_length content
      have bytes : ((refill location state.blockBuf file.blockSize data).take data.length).map
          (Option.getD · 0) = data := by
        rw [refill_take, List.map_map]
        exact List.map_id data
      rcases offerBlock_serves location.pos data serves tracks.cache (fun address nonempty =>
          agrees.offersBlock idx location address data touched located notHole content nonempty)
        with ⟨after, run, inv⟩
      simp only [Outcome.ok_bind, Outcome.pure_eq, bytes, run, ← tracks.bytesRemaining]
      have refilled : Tracks Inv file total progress
          { state with
            blockBuf := refill location state.blockBuf file.blockSize data, cache := after } :=
        { tracks with blockBuf := refill_length tracks.blockBuf fits, cache := inv }
      exact refilled.copied (blockCells_refines small inBlock tracks.blockBuf fits)
        ((blockCells_fits state.bytesRemaining small fits).trans_eq tracks.bytesRemaining)

theorem copyFromCached_same {found : Option BlockEntry} {data : List UInt8}
    {bytesRemaining : Nat} {bytes : List Cell} (small : file.blockSize ≤ 2 ^ 20)
    (fits : data.length ≤ file.blockSize)
    (content : ∀ entry, found = some entry → entry.isCached = true → entry.data = data)
    (hit : copyFromCached found blockOffset bytesRemaining = some bytes) :
    bytes = blockCells data blockOffset
      (copyLength file blockOffset bytesRemaining data.length) := by
  rw [copyFromCached] at hit
  rcases Option.bind_eq_some_iff.mp hit with ⟨entry, usable, copied⟩
  rcases Option.filter_eq_some_iff.mp usable with ⟨present, cached⟩
  simp only [content entry present cached] at copied
  split at copied
  · next covers =>
      cases copied
      have within : blockOffset ≤ data.length := Nat.le_of_lt covers.2
      rw [blockCells, if_pos within, copyLength_inside small fits within,
        sub64_of_le within (by omega)]
  · contradiction

private theorem readStored_same {location : BlockLocation} {idx : Nat}
    (serves : cache.Serves Inv offered served)
    (agrees : Agrees offered served ctx file (Touches file offset total))
    (small : file.blockSize ≤ 2 ^ 20) (inBlock : blockOffset < file.blockSize)
    (touched : Touches file offset total idx)
    (located : sqfsFileBlockLocation file idx = .ok location) (notHole : location.size ≠ 0)
    (tracks : Tracks Inv file total progress state) :
    Pass.Matches (Tracks Inv file total) (SameResult Inv)
      (plainStored ctx file location blockOffset progress)
      (readStored cache ctx file location blockOffset state) := by
  rw [readStored]
  rcases serves.get state.cache (sqfsDataBlockCacheKey location.pos) tracks.cache with
    ⟨after, found, run, inv, good⟩
  have looked : Tracks Inv file total progress { state with cache := after } :=
    { tracks with cache := inv }
  simp only [run]
  cases hit : copyFromCached found blockOffset state.bytesRemaining with
  | none =>
      exact readMissing_same serves agrees small inBlock touched located notHole looked
  | some bytes =>
      have usable : ∃ entry, found = some entry ∧ entry.isCached = true := by
        rcases Option.bind_eq_some_iff.mp hit with ⟨entry, usable, -⟩
        exact ⟨entry, Option.filter_eq_some_iff.mp usable⟩
      rcases usable with ⟨entry, present, cached⟩
      have content := agrees.servesBlock idx location entry touched located notHole
        (good entry present) cached
      have fits := storedContent_length content
      have same := copyFromCached_same small fits
        (fun other equal _ => by rw [Option.some.inj (present.symm.trans equal)]) hit
      rw [plainStored, content, same, ← tracks.bytesRemaining]
      exact looked.copied (.refl _)
        ((blockCells_fits state.bytesRemaining small fits).trans_eq tracks.bytesRemaining)

/-- Every pass of the main loop does what the plain reader does. -/
theorem readPass_same (serves : cache.Serves Inv offered served)
    (agrees : Agrees offered served ctx file (Touches file offset total))
    (small : file.blockSize ≤ 2 ^ 20) (positive : 0 < file.blockSize)
    (tracks : Tracks Inv file total progress state) :
    Pass.Matches (Tracks Inv file total) (SameResult Inv)
      (plainPass ctx file offset progress) (readPass cache ctx file offset state) := by
  rw [plainPass, readPass, tracks.bytesRead, tracks.bytesRemaining]
  by_cases finished : progress.bytesRemaining = 0
  · rw [if_pos finished, if_pos finished]
    exact tracks.same_returned _
  · rw [if_neg finished, if_neg finished]
    have touched := tracks.touches offset finished
    have inBlock := Nat.mod_lt (u64 (offset + progress.bytesRead)) positive
    simp only
    generalize u32 (u64 (offset + progress.bytesRead) / file.blockSize) = idx at touched
    by_cases atTail : idx = file.blockCount ∧ sqfsFragmentIsNone file.fragIdx = false
    · rw [if_pos atTail, if_pos atTail]
      exact readTail_same serves agrees (atTail.1 ▸ touched) tracks
    · rw [if_neg atTail, if_neg atTail]
      cases located : sqfsFileBlockLocation file idx with
      | fault => trivial
      | err error =>
          have notTail : ¬ (error = .notFound ∧ idx = file.blockCount) := by
            rintro ⟨rfl, rfl⟩
            rw [sqfsFileBlockLocation, if_pos (Nat.le_refl _)] at located
            split at located
            · next tail => exact atTail tail
            · cases located
          simp only [if_neg notTail]
          exact tracks.same_returned _
      | ok location =>
          simp only
          by_cases hole : location.size = 0
          · rw [if_pos hole, if_pos hole]
            exact tracks.copied (.refl _) (by rw [List.length_replicate]; omega)
          · rw [if_neg hole, if_neg hole]
            exact readStored_same serves agrees small inBlock touched located hole tracks

end Refinement

/-! ## Whole calls -/

def requestSize (file : SqfsFileCtx) (offset size : Nat) : Nat :=
  if file.fileSize < u64 (offset + size) then file.fileSize - offset else size

/-- What a call that enters the main loop has established. -/
structure Enters (ctx : SqfsCtx) (inode : SqfsInode) (offset size : Nat) (file : SqfsFileCtx) :
    Prop where
  init : sqfsFileCtxInit ctx.sb inode = .ok file
  insideFile : offset < file.fileSize
  nonempty : requestSize file offset size ≠ 0

/-- `sqfs_data_read` without its cache. -/
def PlainRead (ctx : SqfsCtx) (inode : SqfsInode) (offset size : Nat)
    (result : Option PlainResult) : Prop :=
  match readStart ctx () inode offset size with
  | .returns ret => result = some { ret, out := [] }
  | .loops file start =>
      Pass.Returns (plainPass ctx file offset) ⟨0, start.bytesRemaining, []⟩ result

theorem sqfsFileCtxInit_fields {sb : SqfsSuperblock} {inode : SqfsInode} {file : SqfsFileCtx}
    (init : sqfsFileCtxInit sb inode = .ok file) :
    file.blockSize = sb.blockSize ∧ file.fileSize = inode.get .fileFileSize ∧
      file.fragIdx = inode.get .fileFragIdx ∧ file.blockSizes = inode.blockSizes ∧
      file.blockCount = (calculateBlockLayout file.fileSize file.blockSize file.fragIdx).1 := by
  rw [sqfsFileCtxInit] at init
  by_cases wrongType : sqfsInodeIsFile inode.type = false
  · rw [if_pos wrongType] at init
    contradiction
  · rw [if_neg wrongType] at init
    simp only [pure, Except.pure, Except.ok.injEq] at init
    subst init
    simp only [and_self]

theorem Enters.loops {ctx : SqfsCtx} {inode : SqfsInode} {offset size : Nat}
    {file : SqfsFileCtx} (entered : Enters ctx inode offset size file) (cache : C) :
    readStart ctx cache inode offset size = .loops file {
      bytesRead := 0
      bytesRemaining := requestSize file offset size
      out := []
      blockBuf := List.replicate file.blockSize none
      cache } := by
  rw [readStart, entered.init]
  exact (if_neg (Nat.not_le_of_lt entered.insideFile)).trans (if_neg entered.nonempty)

/-- A call fails for an inode that is no file, returns nothing where nothing is
left to read, and otherwise enters the main loop. None of it depends on the
cache. -/
theorem readStart_cases (ctx : SqfsCtx) (inode : SqfsInode) (offset size : Nat) :
    (∃ error, sqfsFileCtxInit ctx.sb inode = .error error ∧ ∀ (C : Type) (cache : C),
      readStart ctx cache inode offset size = .returns error.code) ∨
    (∃ file, sqfsFileCtxInit ctx.sb inode = .ok file ∧
      (file.fileSize ≤ offset ∨ requestSize file offset size = 0) ∧
      ∀ (C : Type) (cache : C), readStart ctx cache inode offset size = .returns 0) ∨
    ∃ file, Enters ctx inode offset size file ∧ ∀ (C : Type) (cache : C),
      readStart ctx cache inode offset size = .loops file {
        bytesRead := 0
        bytesRemaining := requestSize file offset size
        out := []
        blockBuf := List.replicate file.blockSize none
        cache } := by
  cases init : sqfsFileCtxInit ctx.sb inode with
  | error error =>
      left
      exact ⟨error, rfl, fun C cache => by rw [readStart, init]⟩
  | ok file =>
      right
      by_cases outside : file.fileSize ≤ offset
      · left
        refine ⟨file, rfl, .inl outside, fun C cache => ?_⟩
        rw [readStart, init]
        exact if_pos outside
      · by_cases nothing : requestSize file offset size = 0
        · left
          refine ⟨file, rfl, .inr nothing, fun C cache => ?_⟩
          rw [readStart, init]
          simp only [if_neg outside]
          exact if_pos nothing
        · right
          have entered : Enters ctx inode offset size file :=
            ⟨init, Nat.lt_of_not_le outside, nothing⟩
          exact ⟨file, entered, fun C cache => entered.loops cache⟩

theorem readStart_returns_or_enters (ctx : SqfsCtx) (inode : SqfsInode) (offset size : Nat) :
    (∃ ret, ∀ (C : Type) (cache : C),
      readStart ctx cache inode offset size = .returns ret) ∨
    ∃ file, Enters ctx inode offset size file ∧ ∀ (C : Type) (cache : C),
      readStart ctx cache inode offset size = .loops file {
        bytesRead := 0
        bytesRemaining := requestSize file offset size
        out := []
        blockBuf := List.replicate file.blockSize none
        cache } := by
  rcases readStart_cases ctx inode offset size with
    ⟨error, -, fails⟩ | ⟨file, -, -, nothing⟩ | enters
  · exact .inl ⟨error.code, fails⟩
  · exact .inl ⟨0, nothing⟩
  · exact .inr enters

theorem readStart_cache {ctx : SqfsCtx} {state : C} {inode : SqfsInode} {offset size : Nat}
    {file : SqfsFileCtx} {begun : ReadState C}
    (loops : readStart ctx state inode offset size = .loops file begun) :
    begun.cache = state := by
  rcases readStart_returns_or_enters ctx inode offset size with
    ⟨ret, early⟩ | ⟨other, -, enters⟩
  · rw [early] at loops
    cases loops
  · rw [enters] at loops
    cases loops
    rfl

section Calls

variable {cache : BlockCache C} {Inv : C → Prop} {offered served : Nat → BlockEntry → Prop}
  {ctx : SqfsCtx} {inode : SqfsInode} {offset size : Nat} {state : C}

/-- The request of a call agrees with what the cache may hold. -/
def AgreesOnRead (offered served : Nat → BlockEntry → Prop) (ctx : SqfsCtx)
    (inode : SqfsInode) (offset size : Nat) : Prop :=
  ∀ file, Enters ctx inode offset size file →
    Agrees offered served ctx file (Touches file offset (requestSize file offset size))

private theorem Enters.pass_same {file : SqfsFileCtx} (entered : Enters ctx inode offset size file)
    (serves : cache.Serves Inv offered served)
    (agrees : AgreesOnRead offered served ctx inode offset size) :
    ∀ progress state, Tracks Inv file (requestSize file offset size) progress state →
      Pass.Matches (Tracks Inv file (requestSize file offset size)) (SameResult Inv)
        (plainPass ctx file offset progress) (readPass cache ctx file offset state) := by
  intro progress state tracks
  have blockSize := (sqfsFileCtxInit_fields entered.init).1
  exact readPass_same serves (agrees file entered) (blockSize ▸ ctx.sb.blockSize_le)
    (blockSize ▸ ctx.sb.blockSize_pos) tracks

theorem Tracks.start (file : SqfsFileCtx) (total : Nat) (inv : Inv state) :
    Tracks Inv file total ⟨0, total, []⟩ {
      bytesRead := 0
      bytesRemaining := total
      out := []
      blockBuf := List.replicate file.blockSize none
      cache := state } where
  bytesRead := rfl
  bytesRemaining := rfl
  total := Nat.zero_add total
  out := .nil
  blockBuf := List.length_replicate
  cache := inv

/-- A call returns what the plain reader returns. -/
theorem SqfsDataRead.plain {result : Option (ReadResult C)}
    (read : SqfsDataRead cache ctx state inode offset size result)
    (serves : cache.Serves Inv offered served)
    (agrees : AgreesOnRead offered served ctx inode offset size) (inv : Inv state) :
    ∃ plain, PlainRead ctx inode offset size plain ∧ SameResult Inv plain result := by
  rcases readStart_returns_or_enters ctx inode offset size with
    ⟨ret, early⟩ | ⟨file, entered, loops⟩
  · rw [SqfsDataRead, early C state] at read
    subst read
    exact ⟨some ⟨ret, []⟩, by rw [PlainRead, early Unit ()], rfl, .nil, inv⟩
  · rw [SqfsDataRead, loops C state] at read
    simp only [PlainRead, loops Unit ()]
    exact Pass.Returns.simulate_back read
      (Tracks.start file (requestSize file offset size) inv) (entered.pass_same serves agrees)

/-- A call returns whenever the plain reader returns. -/
theorem PlainRead.read {plain : Option PlainResult}
    (read : PlainRead ctx inode offset size plain)
    (serves : cache.Serves Inv offered served)
    (agrees : AgreesOnRead offered served ctx inode offset size) (inv : Inv state) :
    ∃ result, SqfsDataRead cache ctx state inode offset size result ∧
      SameResult Inv plain result := by
  rcases readStart_returns_or_enters ctx inode offset size with
    ⟨ret, early⟩ | ⟨file, entered, loops⟩
  · rw [PlainRead, early Unit ()] at read
    subst read
    exact ⟨some { ret, out := [], cache := state }, by rw [SqfsDataRead, early C state],
      rfl, .nil, inv⟩
  · rw [PlainRead, loops Unit ()] at read
    simp only [SqfsDataRead, loops C state]
    exact Pass.Returns.simulate read
      (Tracks.start file (requestSize file offset size) inv) (entered.pass_same serves agrees)

end Calls

end SquashfsFuse
