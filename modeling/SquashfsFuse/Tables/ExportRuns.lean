import SquashfsFuse.Tables.Exports

/-! Histories of lookups by inode number, through the one block that the process keeps. -/

namespace SquashfsFuse

/-! ## The length of the buffer -/

section Buffers

variable {buffer : List Cell}

private theorem sqfsPreadOnto_length {start count : Nat} (image : Image) (offset : Nat)
    (fits : start + count ≤ buffer.length) :
    (sqfsPreadOnto image buffer start count offset).length = buffer.length := by
  rw [sqfsPreadOnto]
  have short : (if 2 ^ 63 ≤ offset + count then [] else
      (image.bytes.drop offset).take count : List UInt8).length ≤ count := by
    split
    · exact Nat.zero_le count
    · exact List.length_take_le count _
  simp only [List.length_append, List.length_take, List.length_map, List.length_drop]
  omega

private theorem unpackOnto_length (comp : Compressor) (placement : Placement)
    (stored : Sqfs (List UInt8)) (length : buffer.length = sqfsMetaBlockSize) :
    (unpackOnto comp placement stored buffer).2.length = sqfsMetaBlockSize := by
  cases stored with
  | fault => exact length
  | err error => exact length
  | ok part =>
      rw [unpackOnto]
      cases unpacked : sqfsCompressorDecompress comp placement part sqfsMetaBlockSize with
      | fault => exact List.length_replicate
      | err error => exact List.length_replicate
      | ok output =>
          have bounded := comp.bounded (sqfsCompressorDecompress_eq_ok.mp unpacked)
          dsimp only
          rw [List.length_append, List.length_map, List.length_replicate]
          omega

private theorem sqfsMetaReadBlockOnto_length (image : Image) (comp : Compressor) (pos : Nat)
    (length : buffer.length = sqfsMetaBlockSize) :
    (sqfsMetaReadBlockOnto image comp pos buffer).2.length = sqfsMetaBlockSize := by
  rw [sqfsMetaReadBlockOnto]
  cases (readMetaHeader image pos).mapErr fun _ => SqfsError.io with
  | fault => exact length
  | err error => exact length
  | ok header =>
      dsimp only
      split
      · exact length
      · next sizeValid =>
          by_cases uncompressed : header.uncompressed = true
          · rw [if_pos uncompressed]
            exact (sqfsPreadOnto_length image _ (by omega)).trans length
          · rw [if_neg uncompressed]
            by_cases short : header.size < sqfsMetaBlockSize
            · rw [if_pos short]
              apply unpackOnto_length
              exact (sqfsPreadOnto_length image _ (by omega)).trans length
            · rw [if_neg short]
              exact unpackOnto_length comp _ _ length

end Buffers

/-! ## Calls -/

/-- A call of `sqfs_inode_load`. -/
structure ExportCall where
  ctx : SqfsCtx
  inodeNum : Nat
  address : Nat

namespace ExportCall

variable (call : ExportCall)

/-- What the call returns, and the static variables behind it. -/
def run (cache : ExportCache) : Sqfs SqfsInode × ExportCache :=
  sqfsInodeLoad call.ctx cache call.inodeNum call.address

def ComesTo (addr : Nat) : Prop := exportMetaBlockAddr call.ctx call.inodeNum = .ok addr

def Reads (addr : Nat) (block : List UInt8) : Prop :=
  sqfsMetaReadBlock call.ctx.image call.ctx.comp addr = .ok block

def Spoils (block : List UInt8) : Prop :=
  ∃ addr, call.ComesTo addr ∧ (∀ own, ¬ call.Reads addr own) ∧
    ∃ buffer : List Cell, buffer.length = sqfsMetaBlockSize ∧ StartsWith buffer block ∧
      ¬ StartsWith (sqfsMetaReadBlockOnto call.ctx.image call.ctx.comp addr buffer).2 block

def Replaces (addr : Nat) : Prop :=
  ∃ other block, other ≠ addr ∧ call.ComesTo other ∧ call.Reads other block

end ExportCall

def cacheAfter (calls : List ExportCall) : ExportCache :=
  calls.foldl (fun cache call => (call.run cache).2) .initial

private theorem cacheAfter_append (calls : List ExportCall) (call : ExportCall) :
    cacheAfter (calls ++ [call]) = (call.run (cacheAfter calls)).2 := by
  rw [cacheAfter, List.foldl_append]
  rfl

/-- Every call returns what it would return as the first of the process, and finds in the
cache nothing but what its image has at the address. -/
def IndependentOfHistory (calls : List ExportCall) : Prop :=
  ∀ before call after, calls = before ++ call :: after →
    (call.run (cacheAfter before)).1 = (call.run .initial).1 ∧
      ∀ addr, call.ComesTo addr → (cacheAfter before).Serves call.ctx addr

/-- Where two calls come to one address, and no call in between replaces the block that the
first of them finds there, the second has the same block there, and no call in between
destroys it. -/
def Undisturbed (calls : List ExportCall) : Prop :=
  ∀ before first between second after, calls = before ++ first :: (between ++ second :: after) →
    ∀ addr block, first.ComesTo addr → first.Reads addr block → second.ComesTo addr →
      (∀ call ∈ between, ¬ call.Replaces addr) →
        second.Reads addr block ∧ ∀ call ∈ between, ¬ call.Spoils block

/-! ## What the cache holds -/

/-- The block in the cache comes from a call of the history. It is intact unless a later
call has destroyed it. -/
structure CachedFrom (calls : List ExportCall) (cache : ExportCache) : Prop where
  length : ∀ buffer, cache.metaBlock = some buffer → buffer.length = sqfsMetaBlockSize
  origin : cache.metaBlockAddr = 0 ∨
    ∃ before first between block, calls = before ++ first :: between ∧
      first.ComesTo cache.metaBlockAddr ∧ first.Reads cache.metaBlockAddr block ∧
      (∀ call ∈ between, ¬ call.Replaces cache.metaBlockAddr) ∧
      ((∀ call ∈ between, ¬ call.Spoils block) → cache.Holds block)

namespace CachedFrom

variable {calls : List ExportCall} {cache next : ExportCache} {call : ExportCall} {addr : Nat}

private theorem extend (cachedFrom : CachedFrom calls cache)
    (length : ∀ buffer, next.metaBlock = some buffer → buffer.length = sqfsMetaBlockSize)
    (sameAddr : next.metaBlockAddr = cache.metaBlockAddr)
    (keeps : ¬ call.Replaces cache.metaBlockAddr)
    (holds : ∀ block, cache.Holds block → ¬ call.Spoils block → next.Holds block) :
    CachedFrom (calls ++ [call]) next := by
  constructor
  · exact length
  · rw [sameAddr]
    cases cachedFrom.origin with
    | inl unused => exact .inl unused
    | inr origin =>
        rcases origin with ⟨before, first, between, block, rfl, comes, reads, kept, held⟩
        right
        refine ⟨before, first, between ++ [call], block, ?_, comes, reads, ?_, ?_⟩
        · rw [List.append_assoc, List.cons_append]
        · intro other member
          cases List.mem_append.mp member with
          | inl earlier => exact kept other earlier
          | inr last =>
              rw [List.mem_singleton.mp last]
              exact keeps
        · intro intact
          apply holds
          · apply held
            intro other member
            exact intact other (List.mem_append_left _ member)
          · exact intact call (List.mem_append_right _ List.mem_cons_self)

theorem unchanged (cachedFrom : CachedFrom calls cache)
    (comes : ∀ addr, call.ComesTo addr → addr = cache.metaBlockAddr) :
    CachedFrom (calls ++ [call]) cache := by
  apply cachedFrom.extend cachedFrom.length rfl
  · intro replaces
    rcases replaces with ⟨other, block, different, comesTo, -⟩
    exact different (comes other comesTo)
  · intro block holds _
    exact holds

theorem failed (cachedFrom : CachedFrom calls cache) (comes : call.ComesTo addr)
    (fails : ∀ own, ¬ call.Reads addr own)
    (length : (cache.overwritten call.ctx addr).length = sqfsMetaBlockSize) :
    CachedFrom (calls ++ [call])
      { cache with metaBlock := some (cache.overwritten call.ctx addr) } := by
  apply cachedFrom.extend
  · intro other equal
    cases equal
    exact length
  · rfl
  · intro replaces
    rcases replaces with ⟨other, block, -, comesToo, reads⟩
    obtain rfl : addr = other := Outcome.ok.inj (comes.symm.trans comesToo)
    exact fails block reads
  · intro block holds intact
    rcases holds.buffered with ⟨cells, buffered, starts⟩
    refine ⟨⟨_, rfl, ?_⟩, holds.size⟩
    by_contra destroyed
    rw [ExportCache.overwritten, buffered, Option.getD_some] at destroyed
    exact intact ⟨addr, comes, fails, cells, cachedFrom.length cells buffered, starts, destroyed⟩

theorem filled {buffer : List Cell} {block : List UInt8} (comes : call.ComesTo addr)
    (reads : call.Reads addr block) (starts : StartsWith buffer block)
    (length : buffer.length = sqfsMetaBlockSize) :
    CachedFrom (calls ++ [call])
      { metaBlock := some buffer, metaSize := block.length, metaBlockAddr := addr } := by
  constructor
  · intro other equal
    cases equal
    exact length
  · right
    refine ⟨calls, call, [], block, rfl, comes, reads, ?_, ?_⟩
    · intro other member
      cases member
    · intro _
      exact ⟨⟨buffer, rfl, starts⟩, rfl⟩

private theorem overwritten_length (cachedFrom : CachedFrom calls cache) (ctx : SqfsCtx) (addr : Nat) :
    (cache.overwritten ctx addr).length = sqfsMetaBlockSize := by
  have bufferLength : (cache.metaBlock.getD
      (List.replicate sqfsMetaBlockSize none)).length = sqfsMetaBlockSize := by
    cases buffered : cache.metaBlock with
    | none => exact List.length_replicate
    | some buffer => exact cachedFrom.length buffer buffered
  exact sqfsMetaReadBlockOnto_length ctx.image ctx.comp addr bufferLength

theorem fill (cachedFrom : CachedFrom calls cache) (comes : call.ComesTo addr) :
    CachedFrom (calls ++ [call]) (cache.fill call.ctx addr).2 := by
  have length := cachedFrom.overwritten_length call.ctx addr
  by_cases hit : cache.metaBlock.isSome ∧ cache.metaBlockAddr = addr
  · rw [ExportCache.fill, if_pos hit]
    apply cachedFrom.unchanged
    intro other comesToo
    rw [hit.2]
    exact Outcome.ok.inj (comesToo.symm.trans comes)
  · by_cases unread : ∀ block,
        sqfsMetaReadBlock call.ctx.image call.ctx.comp addr ≠ .ok block
    · rw [ExportCache.fill_of_unread hit unread]
      exact cachedFrom.failed comes unread length
    · rcases not_forall_not.mp unread with ⟨block, read⟩
      rcases ExportCache.fill_of_read hit read with ⟨starts, done⟩
      rw [done]
      exact filled comes read starts length

theorem step (cachedFrom : CachedFrom calls cache) (call : ExportCall) :
    CachedFrom (calls ++ [call]) (call.run cache).2 := by
  rw [ExportCall.run, sqfsInodeLoad]
  cases found : exportMetaBlockAddr call.ctx call.inodeNum with
  | fault =>
      apply cachedFrom.unchanged
      intro addr comes
      cases found.symm.trans comes
  | err error =>
      apply cachedFrom.unchanged
      intro addr comes
      cases found.symm.trans comes
  | ok addr => exact cachedFrom.fill found

theorem reached (calls : List ExportCall) : CachedFrom calls (cacheAfter calls) := by
  induction calls using List.reverseRecOn with
  | nil =>
      constructor
      · intro buffer equal
        cases equal
      · exact .inl rfl
  | append_singleton calls call induction =>
      rw [cacheAfter_append]
      exact induction.step call

theorem serves {before after : List ExportCall} (cachedFrom : CachedFrom before cache)
    (undisturbed : Undisturbed (before ++ call :: after)) (comes : call.ComesTo addr) :
    cache.Serves call.ctx addr := by
  intro _ sameAddr
  cases cachedFrom.origin with
  | inl unused => exact absurd (sameAddr.symm.trans unused) (exportMetaBlockAddr_ne_zero comes)
  | inr origin =>
      rw [sameAddr] at origin
      rcases origin with ⟨earlier, first, between, block, rfl, firstComes, reads, kept, holds⟩
      have whole : (earlier ++ first :: between) ++ call :: after =
          earlier ++ first :: (between ++ call :: after) := by
        rw [List.append_assoc, List.cons_append]
      rcases undisturbed earlier first between call after whole addr block firstComes reads comes
        kept with ⟨same, intact⟩
      exact ⟨block, same, holds intact⟩

end CachedFrom

/-- Undisturbed histories do not matter: in each of them every call returns what it would
return as the first of the process. -/
theorem sqfsInodeLoad_independent (calls : List ExportCall) (undisturbed : Undisturbed calls) :
    IndependentOfHistory calls := by
  intro before call after split
  rw [split] at undisturbed
  have serves (addr : Nat) (comes : call.ComesTo addr) :
      (cacheAfter before).Serves call.ctx addr :=
    (CachedFrom.reached before).serves undisturbed comes
  constructor
  · rw [ExportCall.run, ExportCall.run, sqfsInodeLoad_of_serves call.address serves]
    symm
    apply sqfsInodeLoad_of_serves
    intro addr comes
    exact ExportCache.initial_current call.ctx addr (exportMetaBlockAddr_ne_zero comes)
  · exact serves

/-- Calls on one image that can all read their blocks do not disturb each other. -/
theorem undisturbed_of_readable {calls : List ExportCall} {ctx : SqfsCtx}
    (sameCtx : ∀ call ∈ calls, call.ctx = ctx)
    (readable : ∀ call ∈ calls, ∀ addr, call.ComesTo addr → ∃ block, call.Reads addr block) :
    Undisturbed calls := by
  intro before first between second after split addr block _ reads _ _
  rw [split] at sameCtx readable
  constructor
  · have same : first.ctx = second.ctx := by
      rw [sameCtx first (by simp), sameCtx second (by simp)]
    rw [ExportCall.Reads, same] at reads
    exact reads
  · intro call member spoils
    rcases spoils with ⟨own, comes, fails, -⟩
    rcases readable call (by simp [member]) own comes with ⟨other, readsOwn⟩
    exact fails other readsOwn

/-- A call on the image with two inodes whose ID table comes next. -/
def numberedCall (inodeNum : Nat) : ExportCall where
  ctx := numberedCtx 186 idListRest idListRest_small
  inodeNum
  address := 0

/-- Looking up both inodes of an image. -/
theorem sqfsInodeLoad_independent_two :
    IndependentOfHistory [numberedCall 1, numberedCall 2] := by
  apply sqfsInodeLoad_independent
  have addresses : (numberedCall 1).ComesTo 150 ∧ (numberedCall 2).ComesTo 150 := by
    rw [ExportCall.ComesTo, ExportCall.ComesTo]
    decide +kernel
  have read := (@numberedBlock 186 idListRest idListRest_small).sqfsMetaReadBlock
    (MetaBlock.ofStored_inPlace ..)
  rw [numberedBlock_pos] at read
  apply @undisturbed_of_readable _ (numberedCtx 186 idListRest idListRest_small)
  · simp [numberedCall]
  · intro call member addr comes
    have here : call = numberedCall 1 ∨ call = numberedCall 2 := by simpa using member
    rcases here with rfl | rfl
    · obtain rfl : 150 = addr := Outcome.ok.inj (addresses.1.symm.trans comes)
      exact ⟨_, read⟩
    · obtain rfl : 150 = addr := Outcome.ok.inj (addresses.2.symm.trans comes)
      exact ⟨_, read⟩

/-- What follows the list of the export table looks like the position of a block. The block
is said to have 64 bytes, and the image ends before. -/
def cutBlockRest : List UInt8 :=
  leBytes 8 194 ++ leBytes 2 (2 ^ 15 + 64) ++ leBytes 8 32 ++ (leBytes 8 168 ++ leBytes 8 0)

private theorem cutBlockRest_small : cutBlockRest.length < 2 ^ 32 := by decide

def cutBlockCall (inodeNum : Nat) : ExportCall where
  ctx := numberedCtx 204 cutBlockRest cutBlockRest_small
  inodeNum
  address := 0

/-- A lookup that fails leaves other references in the buffer: the number 1 belongs to the
root directory before it, and to the pipe behind it. -/
theorem sqfsInodeLoad_depends_on_history :
    ¬ ∀ calls : List ExportCall, IndependentOfHistory calls := by
  intro claim
  have independent := claim [cutBlockCall 1, cutBlockCall 1025, cutBlockCall 1]
    [cutBlockCall 1, cutBlockCall 1025] (cutBlockCall 1) [] rfl
  have first : ((cutBlockCall 1).run .initial).1.toOption.map (·.inodeNumber) = some 1 := by
    decide +kernel
  have last : ((cutBlockCall 1).run (cacheAfter
      [cutBlockCall 1, cutBlockCall 1025])).1.toOption.map (·.inodeNumber) = some 2 := by
    decide +kernel
  rw [independent.1, first] at last
  cases last

end SquashfsFuse
