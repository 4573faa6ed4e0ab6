import SquashfsFuse.Core.Directory
import SquashfsFuse.Metadata.Stream

/-! Directory data across metadata blocks. -/

namespace SquashfsFuse

variable {image : Image} {comp : Compressor}

/-! ## Blocks one behind the other -/

/-- The contents that `read_meta_block` delivers from a position on. -/
inductive BlocksFrom (image : Image) (comp : Compressor) : Nat → List (List UInt8) → Prop
  | nil (pos : Nat) : BlocksFrom image comp pos []
  | cons {pos next : Nat} {content : List UInt8} {contents : List (List UInt8)} :
      readMetaBlock image comp pos = .ok (content, next) →
      BlocksFrom image comp next contents → BlocksFrom image comp pos (content :: contents)

/-- The position behind blocks, the first of which is at `pos`. -/
def positionBehind (blocks : List (MetaBlock image comp)) (pos : Nat) : Nat :=
  blocks.foldl (fun _ block => block.next) pos

/-- The position behind a stream. -/
def MetaStream.behind (stream : MetaStream image comp) : Nat :=
  positionBehind stream.blocks 0

section Blocks

variable {blocks : List (MetaBlock image comp)} {pos : Nat}

private theorem BlocksFrom.of_blocks
    (gapless : blocks.IsChain fun first second => second.pos = first.next)
    (located : ∀ block ∈ blocks.head?, block.pos = pos) {contents : List (List UInt8)}
    (behind : BlocksFrom image comp (positionBehind blocks pos) contents) :
    BlocksFrom image comp pos (blocks.map MetaBlock.content ++ contents) := by
  induction blocks generalizing pos with
  | nil => exact behind
  | cons block blocks induction =>
      have read := block.readMetaBlock
      rw [located block rfl] at read
      exact .cons read (induction gapless.of_cons gapless.rel_head? behind)

private theorem BlocksFrom.through_blocks
    (gapless : blocks.IsChain fun first second => second.pos = first.next)
    (located : ∀ block ∈ blocks.head?, block.pos = pos) {contents : List (List UInt8)}
    (found : BlocksFrom image comp pos contents) :
    ∃ behind, BlocksFrom image comp (positionBehind blocks pos) behind ∧
      contents.flatten <+: blocks.flatMap MetaBlock.content ++ behind.flatten := by
  induction blocks generalizing pos contents with
  | nil => exact ⟨contents, found, List.prefix_rfl⟩
  | cons block blocks induction =>
      cases found with
      | nil => exact ⟨[], .nil _, List.nil_prefix⟩
      | cons read rest =>
          rw [← located block rfl, block.readMetaBlock] at read
          cases read
          rcases induction gapless.of_cons gapless.rel_head? rest with
            ⟨behind, after, covered⟩
          apply Exists.intro behind
          apply And.intro after
          rw [List.flatten_cons, List.flatMap_cons, List.append_assoc]
          exact (List.prefix_append_right_inj _).mpr covered

end Blocks

namespace MetaStream

variable {stream : MetaStream image comp} {idx : Nat} {block : MetaBlock image comp}

private theorem behind_eq (found : stream.blocks[idx]? = some block) :
    stream.behind = positionBehind (stream.blocks.drop (idx + 1)) block.next := by
  rcases List.getElem?_eq_some_iff.mp found with ⟨bound, here⟩
  have parts := List.take_append_drop idx stream.blocks
  rw [List.drop_eq_getElem_cons bound, here] at parts
  have position := congrArg (positionBehind · 0) parts
  exact position.symm.trans List.foldl_append

private theorem gapless_from (found : stream.blocks[idx]? = some block) :
    (block :: stream.blocks.drop (idx + 1)).IsChain fun first second =>
      second.pos = first.next := by
  have gapless := stream.gapless.drop idx
  rcases List.getElem?_eq_some_iff.mp found with ⟨bound, here⟩
  rwa [List.drop_eq_getElem_cons bound, here] at gapless

private theorem blocksFrom (found : stream.blocks[idx]? = some block) {contents : List (List UInt8)}
    (behind : BlocksFrom image comp stream.behind contents) :
    BlocksFrom image comp block.next
      ((stream.blocks.drop (idx + 1)).map MetaBlock.content ++ contents) := by
  rw [behind_eq found] at behind
  have gapless := gapless_from found
  exact behind.of_blocks gapless.tail gapless.rel_head?

private theorem bytesFrom_covers (found : stream.blocks[idx]? = some block)
    {contents : List (List UInt8)} (blocks : BlocksFrom image comp block.next contents) :
    ∃ behind, BlocksFrom image comp stream.behind behind ∧
      contents.flatten <+: stream.bytesFrom (idx + 1) 0 ++ behind.flatten := by
  rw [behind_eq found]
  have gapless := gapless_from found
  exact blocks.through_blocks gapless.tail gapless.rel_head?

end MetaStream

/-! ## The block loop -/

section Loop

variable {size pos : Nat} {front : List UInt8}

private theorem readMetaBlock_next {next : Nat} {block : List UInt8}
    (read : readMetaBlock image comp pos = .ok (block, next)) :
    pos + 2 ≤ next ∧ pos + 2 ≤ image.bytes.length := by
  rcases Outcome.bind_eq_ok.mp read with ⟨header, headerRead, read⟩
  rcases Outcome.bind_eq_ok.mp read with ⟨content, -, equal⟩
  rcases readMetaHeader_eq_ok.mp headerRead with ⟨word, found, -⟩
  cases equal
  exact ⟨Nat.le_add_right _ _, Image.diskBytes_bound found (by decide)⟩

theorem readDirectoryDataPass_again {state next : DirectoryDataState}
    (again : readDirectoryDataPass image comp size state = .again next) :
    state.blockPos + 2 ≤ next.blockPos ∧ state.blockPos + 2 ≤ image.bytes.length ∧
      state.copied.length < size := by
  unfold readDirectoryDataPass at again
  split at again
  · next short =>
      split at again
      · next block blockPos read =>
          cases again
          have moved := readMetaBlock_next read
          exact ⟨moved.1, moved.2, short⟩
      · cases again
      · cases again
  · cases again

theorem readDirectoryDataPass_isSome (state : DirectoryDataState) :
    (Pass.iterate (readDirectoryDataPass image comp size) (image.bytes.length + 1)
      state).isSome := by
  apply Pass.iterate_isSome_of_variant fun state => image.bytes.length - state.blockPos
  · intro state next again
    have moved := readDirectoryDataPass_again again
    omega
  · omega

theorem readDirectoryDataPass_of_enough (enough : size ≤ front.length) :
    readDirectoryDataPass image comp size ⟨front.take size, pos⟩ =
      .leave (.ok (front.take size)) := by
  rw [readDirectoryDataPass, if_neg]
  rw [List.length_take]
  omega

private theorem readDirectoryDataPass_of_block {next : Nat} {content : List UInt8}
    (short : ¬ size ≤ front.length)
    (read : readMetaBlock image comp pos = .ok (content, next)) :
    readDirectoryDataPass image comp size ⟨front.take size, pos⟩ =
      .again ⟨(front ++ content).take size, next⟩ := by
  have whole : front.take size = front := List.take_of_length_le (by omega)
  rw [whole, readDirectoryDataPass, if_pos (Nat.lt_of_not_le short), read]
  dsimp only
  rw [List.take_append, whole]

private theorem readDirectoryDataPass_returns {contents : List (List UInt8)}
    (blocks : BlocksFrom image comp pos contents)
    (enough : size ≤ (front ++ contents.flatten).length) :
    Pass.Returns (readDirectoryDataPass image comp size) ⟨front.take size, pos⟩
      (.ok ((front ++ contents.flatten).take size)) := by
  induction blocks generalizing front with
  | nil pos =>
      rw [List.flatten_nil, List.append_nil] at enough ⊢
      exact .of_leave (readDirectoryDataPass_of_enough enough)
  | @cons pos next content contents read rest induction =>
      by_cases done : size ≤ front.length
      · rw [List.take_append_of_le_length done]
        exact .of_leave (readDirectoryDataPass_of_enough done)
      · rw [List.flatten_cons, ← List.append_assoc] at enough ⊢
        exact .of_again (readDirectoryDataPass_of_block done read) (induction enough)

private theorem readDirectoryDataPass_collects {fuel : Nat} {data : List UInt8}
    (run : Pass.iterate (readDirectoryDataPass image comp size) fuel ⟨front.take size, pos⟩ =
      some (.ok data)) :
    ∃ contents, BlocksFrom image comp pos contents ∧
      size ≤ (front ++ contents.flatten).length ∧
      data = (front ++ contents.flatten).take size := by
  induction fuel generalizing front pos with
  | zero => cases run
  | succ fuel induction =>
      by_cases done : size ≤ front.length
      · rw [Pass.iterate_leave fuel (readDirectoryDataPass_of_enough done)] at run
        cases run
        exact ⟨[], .nil pos, by simpa using done, by simp⟩
      · cases read : readMetaBlock image comp pos with
        | ok result =>
            rw [Pass.iterate_again fuel (readDirectoryDataPass_of_block done read)] at run
            rcases induction run with ⟨contents, blocks, enough, collected⟩
            rw [List.append_assoc, ← List.flatten_cons] at enough collected
            exact ⟨_, .cons read blocks, enough, collected⟩
        | err code =>
            have failed : readDirectoryDataPass image comp size ⟨front.take size, pos⟩ =
                .leave (.err code) := by
              rw [readDirectoryDataPass, if_pos (by rw [List.length_take]; omega), read]
            rw [Pass.iterate_leave fuel failed] at run
            cases run
        | fault =>
            have failed : readDirectoryDataPass image comp size ⟨front.take size, pos⟩ =
                .leave .fault := by
              rw [readDirectoryDataPass, if_pos (by rw [List.length_take]; omega), read]
            rw [Pass.iterate_leave fuel failed] at run
            cases run

end Loop

/-! ## Directory data -/

section Data

variable {dirTable blockIdx offset size : Nat} {data : List UInt8}

/-- What is delivered are the bytes behind an offset of the first block. -/
theorem readDirectoryData_of_first {content : List UInt8} {next : Nat}
    (first : readMetaBlock image comp (u64 (dirTable + blockIdx)) = .ok (content, next)) :
    readDirectoryData image comp dirTable blockIdx offset size = .ok data ↔
      offset < content.length ∧ ∃ contents, BlocksFrom image comp next contents ∧
        size ≤ (content.drop offset ++ contents.flatten).length ∧
        data = (content.drop offset ++ contents.flatten).take size := by
  have length : (content.drop offset).length = content.length - offset := List.length_drop
  rw [readDirectoryData, first, Outcome.ok_bind]
  dsimp only
  by_cases inside : content.length ≤ offset
  · rw [if_pos inside]
    constructor
    · intro failed
      cases failed
    · intro ⟨contrary, _⟩
      omega
  rw [if_neg inside]
  apply Iff.trans _ (and_iff_right (Nat.lt_of_not_le inside)).symm
  by_cases fits : offset + size ≤ content.length
  · have enough : size ≤ (content.drop offset).length := by omega
    rw [if_pos fits]
    constructor
    · intro equal
      cases equal
      exact ⟨[], .nil next, by simpa using enough, by simp⟩
    · intro ⟨contents, _, _, equal⟩
      rw [equal, List.take_append_of_le_length enough]
      rfl
  · rw [if_neg fits]
    have started : content.drop offset = (content.drop offset).take size :=
      (List.take_of_length_le (by omega)).symm
    rcases Option.isSome_iff_exists.mp (@readDirectoryDataPass_isSome image comp size
      ⟨content.drop offset, next⟩) with ⟨result, run⟩
    rw [run]
    dsimp only
    rw [started] at run
    constructor
    · intro equal
      rw [equal] at run
      exact readDirectoryDataPass_collects run
    · intro ⟨contents, blocks, enough, equal⟩
      rw [equal]
      exact Pass.Returns.unique ⟨_, run⟩ (readDirectoryDataPass_returns blocks enough)

theorem readDirectoryData_length
    (read : readDirectoryData image comp dirTable blockIdx offset size = .ok data) :
    data.length = size := by
  rcases Outcome.bind_eq_ok.mp read with ⟨⟨content, next⟩, first, -⟩
  rcases (readDirectoryData_of_first first).mp read with ⟨-, contents, -, enough, rfl⟩
  exact List.length_take_of_le enough

section Stream

variable {stream : MetaStream image comp} {idx : Nat} {block : MetaBlock image comp}

theorem readDirectoryData_of_placed {bytes : List UInt8}
    (found : stream.blocks[idx]? = some block)
    (located : block.pos = dirTable + blockIdx) (inside : offset < block.content.length)
    (placed : bytes <+: stream.bytesFrom idx offset) :
    readDirectoryData image comp dirTable blockIdx offset bytes.length = .ok bytes := by
  have position : u64 (dirTable + blockIdx) = block.pos := by
    rw [← located, u64_of_lt (Nat.lt_trans block.pos_lt (by decide))]
  have whole : block.content.drop offset ++
      ((stream.blocks.drop (idx + 1)).map MetaBlock.content ++ []).flatten =
        stream.bytesFrom idx offset := by
    rw [MetaStream.bytesFrom_of_block found (Nat.le_of_lt inside), List.append_nil,
      ← List.flatMap_def]
    rfl
  apply (readDirectoryData_of_first (position ▸ block.readMetaBlock)).mpr
  apply And.intro inside
  apply Exists.intro _
  apply And.intro (MetaStream.blocksFrom found (.nil _))
  rw [whole]
  exact ⟨placed.length_le, List.prefix_iff_eq_take.mp placed⟩

/-- From a stream of blocks, exactly the bytes behind an offset of the first block are
delivered, and where the stream is too short, bytes of the blocks found behind it. -/
theorem readDirectoryData_eq_ok_iff (stream : MetaStream image comp) (idx : Nat)
    (block : MetaBlock image comp) (found : stream.blocks[idx]? = some block)
    (dirTable blockIdx : Nat) (located : u64 (dirTable + blockIdx) = block.pos)
    (offset size : Nat) (data : List UInt8) :
    readDirectoryData image comp dirTable blockIdx offset size = .ok data ↔
      offset < block.content.length ∧ ∃ behind, BlocksFrom image comp stream.behind behind ∧
        size ≤ (stream.bytesFrom idx offset ++ behind.flatten).length ∧
        data = (stream.bytesFrom idx offset ++ behind.flatten).take size := by
  rw [readDirectoryData_of_first (located ▸ block.readMetaBlock)]
  apply and_congr_right
  intro inside
  rw [MetaStream.bytesFrom_of_block found (Nat.le_of_lt inside)]
  constructor
  · intro ⟨contents, blocks, enough, equal⟩
    rcases MetaStream.bytesFrom_covers found blocks with ⟨behind, after, covered⟩
    have whole : block.content.drop offset ++ contents.flatten <+:
        block.content.drop offset ++ (stream.bytesFrom (idx + 1) 0 ++ behind.flatten) :=
      (List.prefix_append_right_inj _).mpr covered
    rw [← List.append_assoc] at whole
    rcases whole with ⟨rest, whole⟩
    apply Exists.intro behind
    rw [← whole, List.take_append_of_le_length enough, List.length_append]
    exact ⟨after, Nat.le_add_right_of_le enough, equal⟩
  · intro ⟨behind, after, enough, equal⟩
    apply Exists.intro _
    apply And.intro (MetaStream.blocksFrom found after)
    rw [List.flatten_append, ← List.flatMap_def, ← List.append_assoc]
    exact ⟨enough, equal⟩

/-- Two bytes from two stored blocks. -/
theorem readDirectoryData_two_blocks :
    readDirectoryData ⟨[0x01, 0x80, 0x61, 0x01, 0x80, 0x62], by decide⟩ storedDeflate 0 0 0 2 =
      .ok [0x61, 0x62] := by
  let image : Image := ⟨[0x01, 0x80, 0x61, 0x01, 0x80, 0x62], by decide⟩
  let stream := MetaStream.ofTwoStored image storedDeflate [0x61] [0x62] rfl (by decide)
    (by decide)
  let block := MetaBlock.ofStored image storedDeflate [] [0x61] [0x01, 0x80, 0x62] rfl
    (by decide) (by decide)
  exact (readDirectoryData_eq_ok_iff stream 0 block rfl 0 0 rfl 0 2 [0x61, 0x62]).mpr
    ⟨by decide, [], .nil _, by decide, rfl⟩

/-- A directory table of one block is read beyond its end when a block follows. -/
theorem readDirectoryData_passes_end :
    ¬ ∀ (image : Image) (comp : Compressor) (stream : MetaStream image comp) (idx : Nat)
      (block : MetaBlock image comp), stream.blocks[idx]? = some block →
      ∀ dirTable blockIdx : Nat, u64 (dirTable + blockIdx) = block.pos →
      ∀ (offset size : Nat) (data : List UInt8),
      readDirectoryData image comp dirTable blockIdx offset size = .ok data ↔
        offset < block.content.length ∧ size ≤ (stream.bytesFrom idx offset).length ∧
          data = (stream.bytesFrom idx offset).take size := by
  intro claim
  let image : Image := ⟨[0x01, 0x80, 0x61, 0x01, 0x80, 0x62], by decide⟩
  let block := MetaBlock.ofStored image storedDeflate [] [0x61] [0x01, 0x80, 0x62] rfl
    (by decide) (by decide)
  have read : readDirectoryData image storedDeflate 0 0 0 2 = .ok [0x61, 0x62] := by decide
  have short := (claim image storedDeflate ⟨[block], .singleton _⟩ 0 block rfl 0 0 rfl 0 2
    [0x61, 0x62]).mp read
  have length : ([0x61] : List UInt8).length = 1 := rfl
  have bytes : (⟨[block], .singleton _⟩ : MetaStream image storedDeflate).bytesFrom 0 0 =
    [0x61] := rfl
  rw [bytes, length] at short
  omega

end Stream

end Data

end SquashfsFuse
