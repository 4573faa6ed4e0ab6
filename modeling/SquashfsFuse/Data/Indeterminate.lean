import SquashfsFuse.Data.Delivered
import SquashfsFuse.Data.Termination
import SquashfsFuse.Data.Writes

/-! Reads that start behind the bytes of a block. -/

namespace SquashfsFuse

section Calls

variable {cache : BlockCache C} {Inv : C → Prop} {offered served : Nat → BlockEntry → Prop}
  {ctx : SqfsCtx} {file : SqfsFileCtx} {call : ReadCall} {state : C}

private theorem refill_behind {location : BlockLocation} {limit start count : Nat} {data : List UInt8}
    (behind : data.length ≤ start) :
    ((refill location (List.replicate limit none) limit data).drop start).take count =
      List.replicate (min count (limit - start)) none := by
  have fresh : refill location (List.replicate limit none) limit data =
      data.map some ++ List.replicate (limit - data.length) none := by
    rw [refill, List.drop_replicate, ite_self]
  rw [fresh, List.drop_append, List.drop_eq_nil_of_le (by simpa using behind), List.nil_append,
    List.length_map, List.drop_replicate, List.take_replicate]
  congr 2
  omega

/-- Behind the bytes of its block a pass copies indeterminate bytes out of a new buffer,
whatever the cache. -/
theorem AtStored.pass_behind {touched : Nat → Prop} {offset : Nat} {start : ReadState C}
    {location : BlockLocation} {data : List UInt8}
    (stored : AtStored file offset start location)
    (touches : touched (blockIdxAt file offset start))
    (agrees : Agrees offered served ctx file touched)
    (serves : cache.Serves Inv offered served) (inv : Inv start.cache)
    (content : storedContent ctx location file.blockSize = .ok data)
    (small : file.blockSize ≤ 2 ^ 20)
    (behind : data.length < blockOffsetAt file offset start)
    (inBlock : blockOffsetAt file offset start < file.blockSize)
    (fresh : start.blockBuf = List.replicate file.blockSize none) :
    ∃ after count, 0 < count ∧ after.out = start.out ∧
      readPass cache ctx file offset start =
        .again (ReadState.copied after (List.replicate count none)) := by
  have unfinished := stored.unfinished
  rcases serves.get start.cache (sqfsDataBlockCacheKey location.pos) inv with
    ⟨looked, found, run, lookedInv, good⟩
  have missed : copyFromCached found (blockOffsetAt file offset start) start.bytesRemaining =
      none := by
    apply copyFromCached_none_of_unusable
    intro entry present usable
    have cached := agrees.servesBlock _ location entry touches stored.located stored.notHole
      (good entry present) usable.1
    rw [content] at cached
    cases cached
    exact Nat.lt_asymm behind usable.2
  rcases offerBlock_serves location.pos data serves lookedInv (fun address some =>
    agrees.offersBlock _ location address data touches stored.located stored.notHole content some)
    with ⟨after, taken, -⟩
  have bytes : ((refill location (List.replicate file.blockSize none) file.blockSize data).take
      data.length).map (Option.getD · 0) = data := by
    rw [refill_take, List.map_map]
    exact List.map_id data
  rw [stored.pass, readStored, run]
  simp only [missed, readMissing, sqfsDataReadBlock_eq _ _ _ _ stored.notHole, content, fresh,
    Outcome.ok_bind, Outcome.pure_eq, bytes, taken, refill_behind (Nat.le_of_lt behind)]
  apply Exists.intro _
  apply Exists.intro _
  refine ⟨?_, ?_, rfl⟩
  · rw [sub64_of_lt behind (by omega)]
    omega
  · rfl

/-- A read that starts behind the bytes of a short block starts with indeterminate bytes,
whatever the cache. -/
theorem Enters.starts_indeterminate
    (entered : Enters ctx call.inode call.offset call.size file)
    (serves : cache.Serves Inv offered served)
    (agrees : AgreesOnRead offered served ctx call.inode call.offset call.size) (inv : Inv state)
    {location : BlockLocation} {data : List UInt8}
    (located : sqfsFileBlockLocation file (call.offset / file.blockSize) = .ok location)
    (notHole : location.size ≠ 0)
    (content : storedContent ctx location file.blockSize = .ok data)
    (behind : data.length < call.offset % file.blockSize) {result : ReadResult C}
    (read : SqfsDataRead cache ctx state call.inode call.offset call.size (some result)) :
    result.out[0]? = some none := by
  have bounds := sqfsFileCtxInit_bounds entered.init
  have blockSize := (sqfsFileCtxInit_fields entered.init).1
  have small : file.blockSize ≤ 2 ^ 20 := blockSize ▸ ctx.sb.blockSize_le
  have inBlock := Nat.mod_lt call.offset (show 0 < file.blockSize from
    blockSize ▸ ctx.sb.blockSize_pos)
  have inside := entered.insideFile
  have nonempty := entered.nonempty
  have inRange := sqfsFileBlockLocation_lt located
  have index := @blockIndex_of_lt file call.offset (by omega) (by omega)
  rw [SqfsDataRead, entered.loops] at read
  dsimp only at read
  generalize begun : ReadState.mk 0 (requestSize file call.offset call.size) []
    (List.replicate file.blockSize none) state = start at read
  have idx : blockIdxAt file call.offset start = call.offset / file.blockSize := by
    rw [blockIdxAt, ← begun, Nat.add_zero, index.1]
  have position : blockOffsetAt file call.offset start = call.offset % file.blockSize := by
    rw [blockOffsetAt, ← begun, Nat.add_zero, index.2]
  have stored : AtStored file call.offset start location := by
    refine ⟨begun ▸ nonempty, ?_, idx ▸ located, notHole⟩
    rw [idx]
    omega
  have touches : Touches file call.offset (requestSize file call.offset call.size)
      (blockIdxAt file call.offset start) :=
    ⟨call.offset, Nat.le_refl _, by omega, index.1.trans idx.symm⟩
  rcases stored.pass_behind touches (agrees file entered) serves (begun ▸ inv) content small
    (position ▸ behind) (position ▸ inBlock) (begun ▸ rfl) with ⟨after, count, some, out, pass⟩
  rcases Pass.Returns.cases read with left | ⟨next, again, rest⟩
  · rw [pass] at left
    contradiction
  · rw [pass] at again
    cases again
    rcases result_extends rest with ⟨bytes, whole⟩
    have inFront : 0 < (List.replicate count (none : Cell)).length :=
      Nat.lt_of_lt_of_eq some List.length_replicate.symm
    rw [whole, ReadState.copied, out, ← begun, List.nil_append,
      List.getElem?_append_left inFront, List.getElem?_replicate, if_pos some]

theorem Enters.notBehind (entered : Enters ctx call.inode call.offset call.size file)
    (serves : cache.Serves Inv offered served)
    (agrees : AgreesOnRead offered served ctx call.inode call.offset call.size) (inv : Inv state)
    {result : ReadResult C}
    (read : SqfsDataRead cache ctx state call.inode call.offset call.size (some result))
    (known : result.out[0]? ≠ some none) : NotBehind ctx file call.offset := by
  intro location data located notHole content
  apply Nat.le_of_not_lt
  intro behind
  exact known (entered.starts_indeterminate serves agrees inv located notHole content behind read)

end Calls

end SquashfsFuse
