import SquashfsFuse.Data.Plain
import SquashfsFuse.Data.SharedEntries

/-! Passes of a reader on a data cache that other threads use at the same time. -/

namespace SquashfsFuse

/-! ## What the cache is offered and serves -/

def ReaderCall.Offers (offered : Nat → BlockEntry → Prop) : ReaderCall → Prop
  | .offer key data _ => ∀ address, offered key { address, data, isCached := true }
  | _ => True

/-- A lookup finds only an entry that is allowed under the key. -/
def ReaderCall.Serves (served : Nat → BlockEntry → Prop) : (call : ReaderCall) → call.Answer → Prop
  | .lookUp key, found => ∀ entry, found = some entry → served key entry
  | _, _ => True

private theorem CacheList.move_entries_subset {Value : Type} (list : CacheList Value) (key : Nat) :
    (list.move key).entries ⊆ list.entries := by
  rw [move]
  cases present : list.find key with
  | none => exact List.Subset.refl _
  | some entry =>
      exact List.cons_subset.mpr ⟨(find_mem present).1, List.filter_subset_self _⟩

theorem sharedDataCache_keeps {allowed : Nat → BlockEntry → Prop} {state next : DataCache}
    {call : ReaderCall} {answer : call.Answer} (keeps : state.Keeps allowed)
    (offers : call.Offers allowed) (served : sharedDataCache state call = some (answer, next)) :
    call.Serves allowed answer ∧ next.Keeps allowed := by
  cases call with
  | lookUp key =>
      rcases keeps with ⟨list, represents, good⟩
      rcases SqfsCache.sqfsCacheGetLookup_spec key represents with ⟨cache, run, looked⟩
      rw [sharedDataCache_lookUp run] at served
      cases served
      constructor
      · intro entry found
        rw [CacheList.lookup] at found
        cases present : list.find key with
        | none =>
            rw [present] at found
            cases found
        | some holder =>
            rw [present] at found
            cases found
            rcases CacheList.find_mem present with ⟨member, rfl⟩
            exact good holder member
      · refine ⟨_, looked, ?_⟩
        rw [(list.lookup_keeps key).1]
        exact good
  | move key entry =>
      rcases keeps with ⟨list, represents, good⟩
      rcases SqfsCache.sqfsCacheGetMove_spec key represents with ⟨cache, run, moved⟩
      rw [sharedDataCache_move run] at served
      cases served
      exact ⟨trivial, _, moved, fun holder member =>
        good holder (list.move_entries_subset key member)⟩
  | copy entry =>
      rw [sharedDataCache] at served
      split at served
      · cases served
      · cases served
        exact ⟨trivial, keeps⟩
  | offer key data memorySize =>
      rcases (dataCache_serves allowed).put (dataCache.new state).1 key
          ⟨state.created, data, true⟩ memorySize ((dataCache_serves allowed).new state keeps)
          (offers state.created) with ⟨after, result, run, kept⟩
      rw [sharedDataCache_offer run] at served
      cases served
      exact ⟨trivial, kept⟩
  | discard =>
      cases served
      exact ⟨trivial, keeps⟩
  | free address =>
      cases served
      exact ⟨trivial, keeps⟩

/-! ## What a reader comes to -/

section Passes

variable {allowed : Nat → BlockEntry → Prop} {ctx : SqfsCtx} {file : SqfsFileCtx}
  {offset total blockOffset left budget : Nat} {progress : Progress} {state : ReadState Unit}

/-- Within the budget, and with so many calls left, the program ends in what is wanted, as long
as the cache keeps to what it is offered. -/
abbrev Reaches (allowed : Nat → BlockEntry → Prop) (program : CacheProgram α) (budget left : Nat)
    (wanted : α → Prop) : Prop :=
  program.Meets (ReaderCall.Offers allowed) (ReaderCall.Serves allowed)
    (fun rest value => left ≤ rest ∧ wanted value) budget

theorem Reaches.done {value : α} {wanted : α → Prop} (enough : left ≤ budget)
    (is : wanted value) : Reaches allowed (.done value) budget left wanted :=
  ⟨enough, is⟩

theorem Reaches.call {call : ReaderCall} {next : call.Answer → CacheProgram α}
    {wanted : α → Prop} (enough : left < budget) (offers : call.Offers allowed)
    (goesOn : ∀ answer, call.Serves allowed answer →
      Reaches allowed (next answer) (budget - 1) left wanted) :
    Reaches allowed (.call call next) budget left wanted :=
  ⟨Nat.zero_lt_of_lt enough, offers, goesOn⟩

theorem Reaches.bind {program : CacheProgram α} {rest : α → CacheProgram β}
    {found : α → Prop} {wanted : β → Prop} {middle : Nat}
    (reaches : Reaches allowed program budget middle found)
    (goesOn : ∀ value between, middle ≤ between → found value →
      Reaches allowed (rest value) between left wanted) :
    Reaches allowed (program.bind rest) budget left wanted :=
  Program.Meets.bind (reaches.mono fun between value is => goesOn value between is.1 is.2)

theorem Reaches.map {program : CacheProgram α} {change : α → β} {found : α → Prop}
    {wanted : β → Prop} (reaches : Reaches allowed program budget left found)
    (becomes : ∀ value, found value → wanted (change value)) :
    Reaches allowed (program.map change) budget left wanted :=
  reaches.bind fun value _ enough is => .done enough (becomes value is)

private theorem lookUpProgram_reaches (key : Nat) (enough : left + 3 ≤ budget) :
    Reaches allowed (lookUpProgram key) budget left
      fun found => ∀ entry, found = some entry → allowed key entry := by
  refine Reaches.call (by omega) trivial fun found served => ?_
  cases found with
  | none => exact Reaches.done (by omega) served
  | some entry =>
      exact Reaches.call (by omega) trivial fun _ _ =>
        .call (by omega) trivial fun _ _ => .done (by omega) served

private theorem sqfsFragmentReadProgram_reaches (fragOffset size : Nat)
    (agrees : Agrees allowed allowed ctx file (Touches file offset total))
    (touched : Touches file offset total file.blockCount) (enough : left + 6 ≤ budget) :
    Reaches allowed (sqfsFragmentReadProgram ctx file.fragIdx fragOffset size) budget left
      (· = plainFragment ctx file.fragIdx fragOffset size) := by
  rw [plainFragment, sqfsFragmentReadProgram]
  cases none : sqfsFragmentIsNone file.fragIdx with
  | true => exact .done (by omega) rfl
  | false =>
      simp only [Bool.false_eq_true, if_false]
      by_cases outside : ctx.sb.blockSize ≤ fragOffset
      · rw [if_pos outside, if_pos outside]
        exact .done (by omega) rfl
      · rw [if_neg outside, if_neg outside]
        apply (lookUpProgram_reaches _ (show left + 3 + 3 ≤ budget by omega)).bind
        intro found between more served
        cases hit : found.filter BlockEntry.isCached with
        | some entry =>
            rcases Option.filter_eq_some_iff.mp hit with ⟨present, usable⟩
            have content := agrees.servesFragment entry touched none (served entry present) usable
            simp only [content, Outcome.ok_bind, Outcome.pure_eq]
            exact .done (by omega) rfl
        | none =>
            simp only [fragmentReadMissingProgram]
            cases content : sqfsFragmentReadBlock ctx file.fragIdx with
            | fault => exact .done (by omega) rfl
            | err error =>
                exact Reaches.call (by omega) trivial fun _ _ => .done (by omega) rfl
            | ok data =>
                have accepts : ∀ address, allowed (sqfsFragmentCacheKey file.fragIdx)
                    ⟨address, data, true⟩ := fun address =>
                  agrees.offersFragment address data touched none content
                refine Reaches.call (by omega) accepts fun put _ =>
                  .call (by omega) trivial fun _ _ => ?_
                split
                · exact .done (by omega) rfl
                · exact Reaches.call (by omega) trivial fun _ _ => .done (by omega) rfl

private theorem readTailProgram_reaches
    (agrees : Agrees allowed allowed ctx file (Touches file offset total))
    (touched : Touches file offset total file.blockCount)
    (tracks : Tracks (fun _ => True) file total progress state) (enough : left + 6 ≤ budget) :
    Reaches allowed (readTailProgram ctx file blockOffset state) budget left
      (SameResult (fun _ => True) (plainTail ctx file blockOffset progress)) := by
  rw [readTailProgram, plainTail, ← tracks.bytesRemaining]
  apply (sqfsFragmentReadProgram_reaches _ _ agrees touched enough).map
  rintro outcome rfl
  have finished : ∀ ret (bytes : List Cell),
      SameResult (fun _ => True) (some (progress.finished ret bytes))
        (some (tailReturned state ret bytes)) := by
    intro ret bytes
    rw [Progress.finished, tailReturned, tracks.bytesRead]
    exact ⟨rfl, tracks.out.append (.refl _), trivial⟩
  cases plainFragment ctx file.fragIdx (u32 (file.fragOffset + blockOffset))
      state.bytesRemaining with
  | fault => trivial
  | ok bytes => exact finished _ _
  | err error => exact finished _ _

private theorem readMissingProgram_reaches {location : BlockLocation} {idx : Nat}
    (agrees : Agrees allowed allowed ctx file (Touches file offset total))
    (small : file.blockSize ≤ 2 ^ 20) (inBlock : blockOffset < file.blockSize)
    (touched : Touches file offset total idx)
    (located : sqfsFileBlockLocation file idx = .ok location) (notHole : location.size ≠ 0)
    (tracks : Tracks (fun _ => True) file total progress state) (enough : left + 1 ≤ budget) :
    Reaches allowed (readMissingProgram ctx file location blockOffset state) budget left
      (Pass.Matches (Tracks (fun _ => True) file total) (SameResult fun _ => True)
        (plainStored ctx file location blockOffset progress)) := by
  rw [readMissingProgram, plainStored, sqfsDataReadBlock_eq _ _ _ _ notHole]
  cases content : storedContent ctx location file.blockSize with
  | fault => exact .done (by omega) trivial
  | err error => exact .done (by omega) (tracks.same_returned _)
  | ok data =>
      have fits := storedContent_length content
      have bytes : ((refill location state.blockBuf file.blockSize data).take data.length).map
          (Option.getD · 0) = data := by
        rw [refill_take, List.map_map]
        exact List.map_id data
      have refilled : Tracks (fun _ => True) file total progress
          { state with blockBuf := refill location state.blockBuf file.blockSize data } :=
        { tracks with blockBuf := refill_length tracks.blockBuf fits }
      have refines := @blockCells_refines file blockOffset location state.blockBuf data
        state.bytesRemaining small inBlock tracks.blockBuf fits
      have copied := refilled.copied refines
        ((blockCells_fits state.bytesRemaining small fits).trans_eq tracks.bytesRemaining)
      simp only [Outcome.ok_bind, Outcome.pure_eq, bytes, ← tracks.bytesRemaining]
      split
      · exact .done (by omega) copied
      · next nonempty =>
          refine Reaches.call (by omega) (fun address => ?_) fun _ _ => .done (by omega) copied
          rw [bytes]
          exact agrees.offersBlock idx location address data touched located notHole content
            fun empty => nonempty (by rw [empty]; rfl)

private theorem readStoredProgram_reaches {location : BlockLocation} {idx : Nat}
    (agrees : Agrees allowed allowed ctx file (Touches file offset total))
    (small : file.blockSize ≤ 2 ^ 20) (inBlock : blockOffset < file.blockSize)
    (touched : Touches file offset total idx)
    (located : sqfsFileBlockLocation file idx = .ok location) (notHole : location.size ≠ 0)
    (tracks : Tracks (fun _ => True) file total progress state) (enough : left + 4 ≤ budget) :
    Reaches allowed (readStoredProgram ctx file location blockOffset state) budget left
      (Pass.Matches (Tracks (fun _ => True) file total) (SameResult fun _ => True)
        (plainStored ctx file location blockOffset progress)) := by
  rw [readStoredProgram]
  apply (lookUpProgram_reaches _ (show left + 1 + 3 ≤ budget by omega)).bind
  intro found between more served
  cases hit : copyFromCached found blockOffset state.bytesRemaining with
  | none =>
      exact readMissingProgram_reaches agrees small inBlock touched located notHole tracks more
  | some bytes =>
      rcases Option.bind_eq_some_iff.mp hit with ⟨entry, usable, -⟩
      rcases Option.filter_eq_some_iff.mp usable with ⟨present, cached⟩
      have content := agrees.servesBlock idx location entry touched located notHole
        (served entry present) cached
      have fits := storedContent_length content
      have same := copyFromCached_same small fits
        (fun other equal _ => by rw [Option.some.inj (present.symm.trans equal)]) hit
      rw [plainStored, content, same, ← tracks.bytesRemaining]
      exact .done (by omega) (tracks.copied (.refl _)
        ((blockCells_fits state.bytesRemaining small fits).trans_eq tracks.bytesRemaining))

/-- Whatever the other threads do, a pass does what the plain reader does. -/
theorem readPassProgram_reaches
    (agrees : Agrees allowed allowed ctx file (Touches file offset total))
    (small : file.blockSize ≤ 2 ^ 20) (positive : 0 < file.blockSize)
    (tracks : Tracks (fun _ => True) file total progress state) (enough : left + 6 ≤ budget) :
    Reaches allowed (readPassProgram ctx file offset state) budget left
      (Pass.Matches (Tracks (fun _ => True) file total) (SameResult fun _ => True)
        (plainPass ctx file offset progress)) := by
  rw [plainPass, readPassProgram, tracks.bytesRead, tracks.bytesRemaining]
  by_cases finished : progress.bytesRemaining = 0
  · rw [if_pos finished, if_pos finished]
    exact .done (by omega) (tracks.same_returned _)
  · rw [if_neg finished, if_neg finished]
    have touched := tracks.touches offset finished
    have inBlock := Nat.mod_lt (u64 (offset + progress.bytesRead)) positive
    dsimp only
    generalize u32 (u64 (offset + progress.bytesRead) / file.blockSize) = idx at touched
    by_cases atTail : idx = file.blockCount ∧ sqfsFragmentIsNone file.fragIdx = false
    · rw [if_pos atTail, if_pos atTail]
      exact (readTailProgram_reaches agrees (atTail.1 ▸ touched) tracks enough).map
        fun _ same => same
    · rw [if_neg atTail, if_neg atTail]
      cases located : sqfsFileBlockLocation file idx with
      | fault => exact .done (by omega) trivial
      | err error =>
          have notTail : ¬ (error = .notFound ∧ idx = file.blockCount) := by
            rintro ⟨rfl, rfl⟩
            rw [sqfsFileBlockLocation, if_pos (Nat.le_refl _)] at located
            split at located
            · next tail => exact atTail tail
            · cases located
          dsimp only
          rw [if_neg notTail]
          exact .done (by omega) (tracks.same_returned _)
      | ok location =>
          dsimp only
          by_cases hole : location.size = 0
          · rw [if_pos hole, if_pos hole]
            exact .done (by omega) (tracks.copied (.refl _) (by rw [List.length_replicate]; omega))
          · rw [if_neg hole, if_neg hole]
            exact readStoredProgram_reaches agrees small inBlock touched located hole tracks
              (by omega)

end Passes

end SquashfsFuse
