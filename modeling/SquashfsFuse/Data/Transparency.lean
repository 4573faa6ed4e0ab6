import SquashfsFuse.Data.Calls
import SquashfsFuse.Data.Reading

/-! Reads that share one data cache and reads that each start from an empty one. -/

namespace SquashfsFuse

/-! ## Reads of blocks of nominal size deliver known bytes -/

section Sized

variable {ctx : SqfsCtx} {file : SqfsFileCtx} {offset : Nat} {progress next : Progress}

/-- A read comes to positions in the file, and to the end of a last block that is a hole. -/
structure OnTrack (file : SqfsFileCtx) (offset : Nat) (progress : Progress) : Prop where
  known : Known progress.out
  position : progress.bytesRemaining ≠ 0 →
    offset + progress.bytesRead ≤ file.fileSize ∨
      offset + progress.bytesRead = file.blockCount * file.blockSize

private theorem SizedFile.block_end (sized : SizedFile ctx file)
    (positive : 0 < file.blockSize) {idx : Nat} (inRange : idx < file.blockCount) :
    (nominalSize file idx = file.blockSize ∧
      (idx + 1) * file.blockSize ≤ file.fileSize) ∨
    (nominalSize file idx = file.fileSize - idx * file.blockSize ∧
      idx * file.blockSize ≤ file.fileSize ∧ idx + 1 = file.blockCount) := by
  have counted := sized.counted
  rw [prescribedBlocks] at counted
  rw [nominalSize]
  split at counted
  · next none =>
      have bound := Nat.div_mul_le_self (file.fileSize + file.blockSize - 1) file.blockSize
      rw [← counted] at bound
      by_cases last : idx + 1 = file.blockCount
      · right
        rw [if_pos ⟨none, last⟩]
        rw [← last, Nat.succ_mul] at bound
        exact ⟨rfl, by omega, last⟩
      · left
        rw [if_neg (fun same => last same.2)]
        have more : (idx + 1 + 1) * file.blockSize ≤ file.blockCount * file.blockSize :=
          Nat.mul_le_mul_right _ (by omega)
        rw [Nat.succ_mul] at more
        exact ⟨rfl, by omega⟩
  · next some =>
      left
      rw [if_neg (fun same => some same.1)]
      have bound := Nat.div_mul_le_self file.fileSize file.blockSize
      have atMost : (idx + 1) * file.blockSize ≤ file.blockCount * file.blockSize :=
        Nat.mul_le_mul_right _ inRange
      rw [← counted] at bound
      exact ⟨rfl, Nat.le_trans atMost bound⟩

theorem SizedFile.index (sized : SizedFile ctx file)
    (positive : 0 < file.blockSize) (small : file.blockSize ≤ 2 ^ 20)
    (sizeInRange : file.fileSize < 2 ^ 64) (countInRange : file.blockCount < 2 ^ 32)
    (track : OnTrack file offset progress) (unfinished : progress.bytesRemaining ≠ 0) :
    u32 (u64 (offset + progress.bytesRead) / file.blockSize) =
        (offset + progress.bytesRead) / file.blockSize ∧
      u64 (offset + progress.bytesRead) % file.blockSize =
        (offset + progress.bytesRead) % file.blockSize := by
  have largest : file.fileSize / file.blockSize ≤ file.blockCount := by
    rw [sized.counted, prescribedBlocks]
    split
    · exact Nat.div_le_div_right (by omega)
    · exact Nat.le_refl _
  rcases track.position unfinished with inside | atEnd
  · have atMost : (offset + progress.bytesRead) / file.blockSize ≤
        file.fileSize / file.blockSize := Nat.div_le_div_right inside
    exact blockIndex_of_lt (by omega) (by omega)
  · have atMost : file.blockCount * file.blockSize ≤ 2 ^ 32 * 2 ^ 20 :=
      Nat.mul_le_mul (Nat.le_of_lt countInRange) small
    have quotient : (offset + progress.bytesRead) / file.blockSize = file.blockCount := by
      rw [atEnd, Nat.mul_div_cancel _ positive]
    exact blockIndex_of_lt (by omega) (by omega)

theorem OnTrack.copied (track : OnTrack file offset progress) {bytes : List Cell}
    (known : Known bytes)
    (position : progress.bytesRemaining - bytes.length ≠ 0 →
      offset + progress.bytesRead + bytes.length ≤ file.fileSize ∨
        offset + progress.bytesRead + bytes.length = file.blockCount * file.blockSize) :
    OnTrack file offset (progress.copied bytes) where
  known := track.known.append known
  position := by
    intro unfinished
    rw [Progress.copied, ← Nat.add_assoc]
    exact position unfinished

private theorem SizedFile.stored_onTrack (sized : SizedFile ctx file)
    (positive : 0 < file.blockSize) (small : file.blockSize ≤ 2 ^ 20)
    (track : OnTrack file offset progress) (unfinished : progress.bytesRemaining ≠ 0)
    {location : BlockLocation} {data : List UInt8}
    (located : sqfsFileBlockLocation file ((offset + progress.bytesRead) / file.blockSize) =
      .ok location) (notHole : location.size ≠ 0)
    (content : storedContent ctx location file.blockSize = .ok data) :
    OnTrack file offset (progress.copied
      (blockCells data ((offset + progress.bytesRead) % file.blockSize)
        (copyLength file ((offset + progress.bytesRead) % file.blockSize)
          progress.bytesRemaining data.length))) := by
  have inRange := sqfsFileBlockLocation_lt located
  have length : data.length = nominalSize file ((offset + progress.bytesRead) / file.blockSize) :=
    sized.stored _ location data located notHole content
  have fits := storedContent_length content
  have split := Nat.div_add_mod (offset + progress.bytesRead) file.blockSize
  have inBlock := Nat.mod_lt (offset + progress.bytesRead) positive
  have inside : offset + progress.bytesRead ≤ file.fileSize := by
    rcases track.position unfinished with inside | atEnd
    · exact inside
    · rw [atEnd, Nat.mul_div_cancel _ positive] at inRange
      exact absurd inRange (Nat.lt_irrefl _)
  have ends := sized.block_end positive inRange
  rw [Nat.mul_comm] at split
  rw [← length, Nat.succ_mul] at ends
  generalize (offset + progress.bytesRead) / file.blockSize = idx at *
  generalize (offset + progress.bytesRead) % file.blockSize = blockOffset at *
  have within : blockOffset ≤ data.length := by omega
  rw [copyLength_inside small fits within, blockCells, if_pos within]
  apply track.copied ⟨_, rfl⟩
  rw [List.length_map, List.length_take, List.length_drop]
  omega

private theorem SizedFile.pass_onTrack (sized : SizedFile ctx file)
    (positive : 0 < file.blockSize) (small : file.blockSize ≤ 2 ^ 20)
    (sizeInRange : file.fileSize < 2 ^ 64) (countInRange : file.blockCount < 2 ^ 32)
    (track : OnTrack file offset progress)
    (repeated : plainPass ctx file offset progress = .again next) :
    OnTrack file offset next := by
  rcases plainPass_again repeated with ⟨unfinished, -, location, located, copied⟩
  have index := sized.index positive small sizeInRange countInRange track unfinished
  simp only [index.1, index.2] at located copied
  rcases copied with ⟨-, rfl⟩ | ⟨notHole, data, content, rfl⟩
  · have ends := sized.block_end positive (sqfsFileBlockLocation_lt located)
    have split := Nat.div_add_mod (offset + progress.bytesRead) file.blockSize
    have inBlock := Nat.mod_lt (offset + progress.bytesRead) positive
    rw [Nat.mul_comm] at split
    rw [Nat.succ_mul] at ends
    apply track.copied (.replicate _ _)
    rw [List.length_replicate]
    rcases ends with ⟨-, inFile⟩ | ⟨-, -, last⟩
    · omega
    · rw [← last, Nat.succ_mul]
      omega
  · exact sized.stored_onTrack positive small track unfinished located notHole content

private theorem OnTrack.known_of_leave (track : OnTrack file offset progress) {result : PlainResult}
    (left : plainPass ctx file offset progress = .leave (some result)) : Known result.out := by
  rcases plainPass_leave left with ⟨-, rfl⟩ | ⟨-, tail⟩ | ⟨error, rfl⟩
  · exact track.known
  · rw [plainTail] at tail
    split at tail
    · cases tail
      exact track.known.append ⟨_, rfl⟩
    · cases tail
      exact track.known.append (.replicate _ _)
    · cases tail
  · exact track.known

private theorem SizedFile.plainRead_known {inode : SqfsInode} {size : Nat} {result : PlainResult}
    (sized : ∀ file, sqfsFileCtxInit ctx.sb inode = .ok file → SizedFile ctx file)
    (read : PlainRead ctx inode offset size (some result)) : Known result.out := by
  rcases readStart_returns_or_enters ctx inode offset size with
    ⟨ret, early⟩ | ⟨file, entered, loops⟩
  · rw [PlainRead, early Unit ()] at read
    cases read
    exact ⟨[], rfl⟩
  · rw [PlainRead, loops Unit ()] at read
    have bounds := sqfsFileCtxInit_bounds entered.init
    have blockSize := (sqfsFileCtxInit_fields entered.init).1
    have begun : OnTrack file offset ⟨0, requestSize file offset size, []⟩ :=
      ⟨⟨[], rfl⟩, fun _ => .inl (Nat.le_of_lt entered.insideFile)⟩
    have again : ∀ progress next, OnTrack file offset progress →
        plainPass ctx file offset progress = .again next → OnTrack file offset next :=
      fun progress next track repeated =>
        (sized file entered.init).pass_onTrack (blockSize ▸ ctx.sb.blockSize_pos)
          (blockSize ▸ ctx.sb.blockSize_le) bounds.1 bounds.2 track repeated
    have exit : ∀ progress left, OnTrack file offset progress →
        plainPass ctx file offset progress = .leave left →
        ∀ other, left = some other → Known other.out := by
      rintro progress left track leaves other rfl
      exact track.known_of_leave leaves
    exact Pass.Returns.invariant read begun again exit result rfl

end Sized

/-! ## Sequences of calls -/

/-- The calls return one after the other, sharing a cache. -/
inductive SqfsDataReads (cache : BlockCache C) (ctx : SqfsCtx) :
    C → List ReadCall → C → Prop
  | nil (state) : SqfsDataReads cache ctx state [] state
  | cons {state call result rest last} :
      SqfsDataRead cache ctx state call.inode call.offset call.size (some result) →
      SqfsDataReads cache ctx result.cache rest last →
      SqfsDataReads cache ctx state (call :: rest) last

section Sequences

variable {ctx : SqfsCtx} {calls : List ReadCall} {call : ReadCall} {state : DataCache}

def ReadCall.ReadsBlock (ctx : SqfsCtx) (call : ReadCall) (location : BlockLocation) : Prop :=
  ∃ file idx, Enters ctx call.inode call.offset call.size file ∧
    Touches file call.offset (requestSize file call.offset call.size) idx ∧
    sqfsFileBlockLocation file idx = .ok location ∧ location.size ≠ 0

def ReadCall.ReadsFragment (ctx : SqfsCtx) (call : ReadCall) (fragIdx : Nat) : Prop :=
  ∃ file, Enters ctx call.inode call.offset call.size file ∧
    Touches file call.offset (requestSize file call.offset call.size) file.blockCount ∧
    sqfsFragmentIsNone file.fragIdx = false ∧ file.fragIdx = fragIdx

/-- Where the blocks of the files can be unpacked they have their nominal sizes, and each position
on disk is used with one size word. -/
structure WellFormedCalls (ctx : SqfsCtx) (calls : List ReadCall) : Prop where
  file : ∀ call ∈ calls, ∀ file, sqfsFileCtxInit ctx.sb call.inode = .ok file →
    SizedFile ctx file
  oneSizeWord : ∀ call ∈ calls, ∀ other ∈ calls, ∀ file otherFile,
    sqfsFileCtxInit ctx.sb call.inode = .ok file →
    sqfsFileCtxInit ctx.sb other.inode = .ok otherFile →
    ∀ idx otherIdx location otherLocation,
    sqfsFileBlockLocation file idx = .ok location → location.size ≠ 0 →
    sqfsFileBlockLocation otherFile otherIdx = .ok otherLocation → otherLocation.size ≠ 0 →
    location.pos = otherLocation.pos → location.size = otherLocation.size

/-- No key stands for a block of one call and for a fragment block of another. -/
def KeysApart (ctx : SqfsCtx) (calls : List ReadCall) : Prop :=
  ∀ call ∈ calls, ∀ other ∈ calls, ∀ location fragIdx,
    call.ReadsBlock ctx location → other.ReadsFragment ctx fragIdx →
    sqfsDataBlockCacheKey location.pos ≠ sqfsFragmentCacheKey fragIdx

structure Expected (ctx : SqfsCtx) (calls : List ReadCall) (key : Nat) (entry : BlockEntry) :
    Prop where
  block : entry.isCached = true → ∀ call ∈ calls, ∀ location, call.ReadsBlock ctx location →
    sqfsDataBlockCacheKey location.pos = key →
    storedContent ctx location ctx.sb.blockSize = .ok entry.data
  fragment : entry.isCached = true → ∀ call ∈ calls, ∀ fragIdx,
    call.ReadsFragment ctx fragIdx → sqfsFragmentCacheKey fragIdx = key →
    sqfsFragmentReadBlock ctx fragIdx = .ok entry.data

theorem WellFormedCalls.agrees (wellFormed : WellFormedCalls ctx calls)
    (apart : KeysApart ctx calls) (member : call ∈ calls) :
    AgreesOnRead (Expected ctx calls) (Expected ctx calls) ctx call.inode call.offset
      call.size := by
  intro file entered
  have blockSize := (sqfsFileCtxInit_fields entered.init).1
  constructor
  · intro idx location address data touched located notHole content nonempty
    constructor
    · intro cached other otherMember otherLocation reads sameKey
      obtain ⟨otherFile, otherIdx, otherEntered, -, otherLocated, otherNotHole⟩ := reads
      have size := wellFormed.oneSizeWord other otherMember call member otherFile file
        otherEntered.init entered.init otherIdx idx otherLocation location otherLocated
        otherNotHole located notHole sameKey
      have same : otherLocation = location := by
        cases otherLocation
        cases location
        exact congrArg₂ BlockLocation.mk sameKey size
      rw [same, ← blockSize]
      exact content
    · intro cached other otherMember fragIdx reads sameKey
      exact absurd sameKey.symm (apart call member other otherMember location fragIdx
        ⟨file, idx, entered, touched, located, notHole⟩ reads)
  · intro idx location entry touched located notHole served cached
    rw [blockSize]
    exact served.block cached call member location
      ⟨file, idx, entered, touched, located, notHole⟩ rfl
  · intro address data touched some content
    constructor
    · intro cached other otherMember location reads sameKey
      exact absurd sameKey (apart other otherMember call member location file.fragIdx reads
        ⟨file, entered, touched, some, rfl⟩)
    · intro cached other otherMember fragIdx reads sameKey
      obtain rfl : fragIdx = file.fragIdx := sameKey
      exact content
  · intro entry touched some served cached
    exact served.fragment cached call member file.fragIdx ⟨file, entered, touched, some, rfl⟩ rfl

/-- From a cache that holds what the calls expect, a call answers what the plain
reader answers. -/
theorem WellFormedCalls.answers_iff_plain (wellFormed : WellFormedCalls ctx calls)
    (apart : KeysApart ctx calls) (member : call ∈ calls)
    (keeps : state.Keeps (Expected ctx calls)) (answer : Option PlainResult) :
    Answers dataCache ctx state call answer ↔
      PlainRead ctx call.inode call.offset call.size answer := by
  have serves := dataCache_serves (Expected ctx calls)
  have agrees := wellFormed.agrees apart member
  have same : ∀ plain result, PlainRead ctx call.inode call.offset call.size plain →
      SameResult (DataCache.Keeps (Expected ctx calls)) plain result →
      result.map ReadResult.answer = plain := by
    intro plain result read related
    match plain, result, related with
    | none, none, _ => rfl
    | some plain, some result, ⟨sameRet, refines, _⟩ =>
        have known := SizedFile.plainRead_known (wellFormed.file call member) read
        rw [Option.map_some, ReadResult.answer, sameRet, known.eq_of_refines refines]
  constructor
  · rintro ⟨result, read, rfl⟩
    rcases read.plain serves agrees keeps with ⟨plain, plainRead, related⟩
    rw [same plain result plainRead related]
    exact plainRead
  · intro plainRead
    rcases plainRead.read serves agrees keeps with ⟨result, read, related⟩
    exact ⟨result, read, same answer result plainRead related⟩

private theorem WellFormedCalls.keeps_of_reads (wellFormed : WellFormedCalls ctx calls)
    (apart : KeysApart ctx calls) {earlier : List ReadCall} {last : DataCache}
    (reads : SqfsDataReads dataCache ctx state earlier last) (sub : earlier ⊆ calls)
    (keeps : state.Keeps (Expected ctx calls)) : last.Keeps (Expected ctx calls) := by
  induction reads with
  | nil => exact keeps
  | cons read _ induction =>
      rcases List.cons_subset.mp sub with ⟨member, rest⟩
      rcases read.plain (dataCache_serves (Expected ctx calls)) (wellFormed.agrees apart member)
        keeps with ⟨plain, -, related⟩
      match plain, related with
      | some _, ⟨_, _, kept⟩ => exact induction rest kept

/-- In a sequence of reads that share a data cache, while no key stands both for a block and for a
fragment block, every call answers what it would answer on an empty cache. -/
theorem sqfsDataRead_transparent {maxEntries maxMemory : Nat} {hasFreeFn : Bool}
    {cache : SqfsCache BlockEntry} {earlier : List ReadCall}
    (init : sqfsCacheInit maxEntries maxMemory hasFreeFn = some cache)
    (wellFormed : WellFormedCalls ctx (call :: earlier))
    (apart : KeysApart ctx (call :: earlier))
    (reads : SqfsDataReads dataCache ctx (.fresh cache) earlier state)
    (answer : Option PlainResult) :
    Answers dataCache ctx state call answer ↔
      Answers dataCache ctx (.fresh cache) call answer := by
  have empty := DataCache.keeps_fresh init (Expected ctx (call :: earlier))
  have keeps := wellFormed.keeps_of_reads apart reads (List.subset_cons_self _ _) empty
  have member : call ∈ call :: earlier := List.mem_cons_self
  rw [wellFormed.answers_iff_plain apart member keeps,
    wellFormed.answers_iff_plain apart member empty]

end Sequences

/-! ## Calls that share a key -/

/-- Behind 96 bytes a block of three bytes and a fragment block of two, in a
fragment table that has an entry 96. -/
def sharedKeyCtx : SqfsCtx :=
  { SqfsCtx.onBytes (List.replicate 96 0 ++ [1, 1, 1, 2, 2]) (by decide) with
    fragmentTable := some {
      entries := List.replicate 97 { start := 99, size := 2 ^ 24 + 2, unused := 0 }
      loaded := true } }

/-- Read the file whose only block lies at position 96. -/
def readShortBlock : ReadCall where
  inode := .ofFile 3 96 fragmentInvalid 0 [2 ^ 24 + 3]
  offset := 0
  size := 3

def shortBlockFile : SqfsFileCtx where
  fileSize := 3
  blocksStart := 96
  blockSize := 4096
  blockCount := 1
  tailSize := 3
  fragIdx := fragmentInvalid
  fragOffset := 0
  blockSizes := [2 ^ 24 + 3]

theorem tailFile_of_init {fragIdx : Nat} {file : SqfsFileCtx} (listed : fragIdx < 97)
    (init : sqfsFileCtxInit sharedKeyCtx.sb (readTailIn fragIdx).inode = .ok file) :
    file = tailFile fragIdx :=
  Except.ok.inj (init.symm.trans (readTailIn_init fragIdx listed))

theorem readShortBlock_init :
    sqfsFileCtxInit sharedKeyCtx.sb readShortBlock.inode = .ok shortBlockFile := by
  decide +kernel

theorem shortBlockFile_located {idx : Nat} {location : BlockLocation}
    (located : sqfsFileBlockLocation shortBlockFile idx = .ok location) :
    idx = 0 ∧ location = ⟨96, 2 ^ 24 + 3⟩ := by
  have inRange := sqfsFileBlockLocation_lt located
  obtain rfl : idx = 0 := Nat.lt_one_iff.mp inRange
  cases located
  exact ⟨rfl, rfl⟩

private theorem wellFormed_shortBlockFile : WellFormedFile sharedKeyCtx shortBlockFile where
  counted := by decide
  listed := rfl
  stored := by
    intro idx location located notHole
    rcases shortBlockFile_located located with ⟨rfl, rfl⟩
    exact ⟨[1, 1, 1], by decide +kernel, by decide⟩
  tail := by
    intro some
    cases some

private theorem unpacksInPlace_shortBlockFile : UnpacksInPlace sharedKeyCtx shortBlockFile where
  block := by
    intro idx location located notHole
    rcases shortBlockFile_located located with ⟨rfl, rfl⟩
    exact (storedContent_apart (by decide)).symm
  tail := by
    intro some
    cases some

private theorem sharedKeyCtx_fragment : ∀ fragIdx < 97,
    sqfsFragmentReadBlock sharedKeyCtx.apart fragIdx = .ok [2, 2] ∧
      sqfsFragmentReadBlock sharedKeyCtx fragIdx = .ok [2, 2] := by
  decide +kernel

private theorem wellFormed_tailFile {fragIdx : Nat} (listed : fragIdx < 97) :
    WellFormedFile sharedKeyCtx (tailFile fragIdx) where
  counted := by
    rw [prescribedBlocks, if_neg]
    · exact (Nat.div_eq_of_lt (by decide : 2 < 4096)).symm
    · simp only [sqfsFragmentIsNone, tailFile, fragmentInvalid, beq_iff_eq]
      omega
  listed := rfl
  stored := fun _ _ located _ => absurd located tailFile_not_located
  tail := by
    intro _ _
    exact ⟨[2, 2], (sharedKeyCtx_fragment fragIdx listed).1, Nat.le_refl 2⟩

private theorem unpacksInPlace_tailFile {fragIdx : Nat} (listed : fragIdx < 97) :
    UnpacksInPlace sharedKeyCtx (tailFile fragIdx) where
  block := fun _ _ located _ => absurd located tailFile_not_located
  tail := by
    intro _ _
    have read := sharedKeyCtx_fragment fragIdx listed
    exact read.2.trans read.1.symm

private theorem wellFormed_block_then_tail {fragIdx : Nat} (listed : fragIdx < 97) :
    ∀ call ∈ [readTailIn fragIdx, readShortBlock], ∀ file,
      sqfsFileCtxInit sharedKeyCtx.sb call.inode = .ok file →
      WellFormedFile sharedKeyCtx file ∧ UnpacksInPlace sharedKeyCtx file := by
  intro call member file init
  simp only [List.mem_cons, List.not_mem_nil, or_false] at member
  rcases member with rfl | rfl
  · obtain rfl := tailFile_of_init listed init
    exact ⟨wellFormed_tailFile listed, unpacksInPlace_tailFile listed⟩
  · rw [readShortBlock_init] at init
    cases init
    exact ⟨wellFormed_shortBlockFile, unpacksInPlace_shortBlockFile⟩

private theorem wellFormedCalls_block_then_tail {fragIdx : Nat} (listed : fragIdx < 97) :
    WellFormedCalls sharedKeyCtx [readTailIn fragIdx, readShortBlock] where
  file := by
    intro call member file init
    rcases wellFormed_block_then_tail listed call member file init with ⟨wellFormed, unpacks⟩
    exact wellFormed.sized unpacks
  oneSizeWord := by
    intro call member other otherMember file otherFile init otherInit idx otherIdx location
      otherLocation located notHole otherLocated otherNotHole samePos
    simp only [List.mem_cons, List.not_mem_nil, or_false] at member otherMember
    rcases member with rfl | rfl
    · obtain rfl := tailFile_of_init listed init
      exact absurd located tailFile_not_located
    · rcases otherMember with rfl | rfl
      · obtain rfl := tailFile_of_init listed otherInit
        exact absurd otherLocated tailFile_not_located
      · rw [readShortBlock_init] at init otherInit
        cases init
        cases otherInit
        rw [(shortBlockFile_located located).2, (shortBlockFile_located otherLocated).2]

private theorem keysApart_block_then_tail {fragIdx : Nat} (listed : fragIdx < 96) :
    KeysApart sharedKeyCtx [readTailIn fragIdx, readShortBlock] := by
  intro call member other otherMember location otherIdx readsBlock readsFragment
  simp only [List.mem_cons, List.not_mem_nil, or_false] at member otherMember
  obtain ⟨file, idx, entered, -, located, -⟩ := readsBlock
  obtain ⟨otherFile, otherEntered, -, some, rfl⟩ := readsFragment
  have init := entered.init
  have otherInit := otherEntered.init
  rcases member with rfl | rfl
  · obtain rfl := tailFile_of_init (by omega) init
    exact absurd located tailFile_not_located
  · rw [readShortBlock_init] at init
    cases init
    rcases otherMember with rfl | rfl
    · obtain rfl := tailFile_of_init (by omega) otherInit
      rw [(shortBlockFile_located located).2]
      exact Nat.ne_of_gt listed
    · rw [readShortBlock_init] at otherInit
      cases otherInit
      cases some

/-- A tail in fragment block 5, read after a block at position 96. -/
theorem sqfsDataRead_transparent_block_then_tail :
    ∃ cache state, sqfsCacheInit 64 (2 ^ 20) true = some cache ∧
      SqfsDataReads dataCache sharedKeyCtx (.fresh cache) [readShortBlock] state ∧
      (Answers dataCache sharedKeyCtx state (readTailIn 5) (some ⟨2, [some 2, some 2]⟩) ↔
        Answers dataCache sharedKeyCtx (.fresh cache) (readTailIn 5)
          (some ⟨2, [some 2, some 2]⟩)) := by
  have evaluated : (do
      let cache ← sqfsCacheInit 64 (2 ^ 20) true
      let first ← readShortBlock.run dataCache sharedKeyCtx 3 (.fresh cache)
      return first.answer) = some (⟨3, [some 1, some 1, some 1]⟩ : PlainResult) := by
    decide +kernel
  rcases Option.bind_eq_some_iff.mp evaluated with ⟨cache, init, evaluated⟩
  rcases Option.bind_eq_some_iff.mp evaluated with ⟨first, firstRun, -⟩
  have reads : SqfsDataReads dataCache sharedKeyCtx (.fresh cache) [readShortBlock]
      first.cache := .cons (ReadCall.read_of_run firstRun) (.nil _)
  exact ⟨cache, first.cache, init, reads, sqfsDataRead_transparent init
    (wellFormedCalls_block_then_tail (by decide)) (keysApart_block_then_tail (by decide)) reads _⟩

/-- A fragment block is served from the entry of the block on disk whose
position is its index. -/
theorem sqfsDataRead_block_for_fragment :
    ∃ cache state, sqfsCacheInit 64 (2 ^ 20) true = some cache ∧
      WellFormedCalls sharedKeyCtx [readTailIn 96, readShortBlock] ∧
      (∀ call ∈ [readTailIn 96, readShortBlock], ∀ file,
        sqfsFileCtxInit sharedKeyCtx.sb call.inode = .ok file →
        WellFormedFile sharedKeyCtx file ∧ UnpacksInPlace sharedKeyCtx file) ∧
      SqfsDataReads dataCache sharedKeyCtx (.fresh cache) [readShortBlock] state ∧
      Answers dataCache sharedKeyCtx state (readTailIn 96) (some ⟨2, [some 1, some 1]⟩) ∧
      ¬ Answers dataCache sharedKeyCtx (.fresh cache) (readTailIn 96)
        (some ⟨2, [some 1, some 1]⟩) := by
  have evaluated : (do
      let cache ← sqfsCacheInit 64 (2 ^ 20) true
      let first ← readShortBlock.run dataCache sharedKeyCtx 3 (.fresh cache)
      let second ← (readTailIn 96).run dataCache sharedKeyCtx 3 first.cache
      let alone ← (readTailIn 96).run dataCache sharedKeyCtx 3 (.fresh cache)
      return (second.answer, alone.answer)) =
        some ((⟨2, [some 1, some 1]⟩ : PlainResult), ⟨2, [some 2, some 2]⟩) := by
    decide +kernel
  rcases Option.bind_eq_some_iff.mp evaluated with ⟨cache, init, evaluated⟩
  rcases Option.bind_eq_some_iff.mp evaluated with ⟨first, firstRun, evaluated⟩
  rcases Option.bind_eq_some_iff.mp evaluated with ⟨second, secondRun, evaluated⟩
  rcases Option.bind_eq_some_iff.mp evaluated with ⟨alone, aloneRun, evaluated⟩
  rcases Prod.mk.inj (Option.some.inj evaluated) with ⟨secondAnswer, aloneAnswer⟩
  refine ⟨cache, first.cache, init, wellFormedCalls_block_then_tail (by decide),
    wellFormed_block_then_tail (by decide), .cons (ReadCall.read_of_run firstRun) (.nil _),
    ⟨_, ReadCall.read_of_run secondRun, congrArg some secondAnswer⟩, ?_⟩
  intro same
  have fresh : Answers dataCache sharedKeyCtx (.fresh cache) (readTailIn 96)
      (some ⟨2, [some 2, some 2]⟩) :=
    ⟨_, ReadCall.read_of_run aloneRun, congrArg some aloneAnswer⟩
  have equal := same.unique fresh
  contradiction

end SquashfsFuse
