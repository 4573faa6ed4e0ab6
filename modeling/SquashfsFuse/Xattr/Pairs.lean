import SquashfsFuse.Metadata.Stream
import SquashfsFuse.Xattr.Layout

/-! Which pairs an inode sees. -/

namespace SquashfsFuse

/-! ## Sets of pairs -/

section Sets

variable {image : Image} {comp : Compressor} (stream : MetaStream image comp)
  (tableStart : Nat)

/-- The set of pairs that an entry of the lookup table describes. -/
structure XattrSet (entry : SqfsXattrIdEntry) where
  place : MetaPlace stream tableStart entry.xattrRef
  pairs : List DiskXattr
  counted : pairs.length = entry.count
  sized : (encodeXattrs pairs).length = entry.size
  placed : encodeXattrs pairs <+: place.bytes

/-- What a pair stands for: the value is behind the key or where the reference
points to. -/
structure DiskXattr.Denotes (pair : DiskXattr) (xattr : SqfsXattr) : Prop where
  key : xattr.key = pair.key
  value : match pair.value with
    | .inline value _ => xattr.value = value
    | .outOfLine ref => xattr.value.length < 2 ^ 32 ∧
        ∃ place : MetaPlace stream tableStart ref.toNat,
          leBytes 4 xattr.value.length ++ xattr.value <+: place.bytes

/-- The attributes a set stands for. -/
def XattrSet.Denotes {stream : MetaStream image comp} {tableStart : Nat}
    {entry : SqfsXattrIdEntry} (set : XattrSet stream tableStart entry)
    (xattrs : List SqfsXattr) : Prop :=
  List.Forall₂ (DiskXattr.Denotes stream tableStart) set.pairs xattrs

/-- The set ends in the block in which it starts, the block ends less than four bytes
behind it, and the value of an out-of-line pair is its own reference. -/
structure XattrSet.Isolated {stream : MetaStream image comp} {tableStart : Nat}
    {entry : SqfsXattrIdEntry} (set : XattrSet stream tableStart entry)
    (xattrs : List SqfsXattr) : Prop where
  whole : set.place.offset + entry.size ≤ set.place.block.content.length
  last : set.place.block.content.length < set.place.offset + entry.size + 4
  selfReferring : ∀ pair xattr, (pair, xattr) ∈ set.pairs.zip xattrs →
    ∀ ref, pair.value = .outOfLine ref → xattr.value = leBytes 8 ref.toNat

end Sets

/-! ## The parser -/

section Parsing

variable {image : Image} {comp : Compressor} {stream : MetaStream image comp}
  {tableStart : Nat}

private theorem DiskXattr.Denotes.eq_parsed_iff {pair : DiskXattr} {xattr : SqfsXattr}
    (denotes : pair.Denotes stream tableStart xattr) :
    xattr = pair.parsed ↔
      ∀ ref, pair.value = .outOfLine ref → xattr.value = leBytes 8 ref.toNat := by
  have whole : xattr = pair.parsed ↔ xattr.value = pair.value.stored := by
    constructor
    · rintro rfl
      rfl
    · intro value
      rw [parsed, ← denotes.key, ← value]
  have value := denotes.value
  rw [whole]
  cases stored : pair.value with
  | inline bytes short =>
      rw [stored] at value
      exact iff_of_true value fun ref other => nomatch other
  | outOfLine ref => simp [DiskXattrValue.stored]

private theorem eq_map_parsed_iff {pairs : List DiskXattr} {xattrs : List SqfsXattr}
    (denotes : List.Forall₂ (DiskXattr.Denotes stream tableStart) pairs xattrs) :
    xattrs = pairs.map DiskXattr.parsed ↔
      ∀ pair xattr, (pair, xattr) ∈ pairs.zip xattrs →
        ∀ ref, pair.value = .outOfLine ref → xattr.value = leBytes 8 ref.toNat := by
  induction denotes with
  | nil => simp
  | cons first others induction =>
      rw [List.map_cons, List.cons.injEq, first.eq_parsed_iff, induction, List.zip_cons_cons]
      constructor
      · rintro ⟨here, there⟩ pair xattr member
        rcases List.mem_cons.mp member with equal | member
        · cases equal
          exact here
        · exact there pair xattr member
      · intro all
        exact ⟨all _ _ List.mem_cons_self,
          fun pair xattr member => all pair xattr (List.mem_cons_of_mem _ member)⟩

private theorem readXattrPairs_eq {ctx : SqfsCtx} {table : SqfsXattrTable}
    (loaded : ctx.xattrTable = some table) {stream : MetaStream ctx.image ctx.comp} {ref : Nat}
    (place : MetaPlace stream table.tableStart ref) {tail : List UInt8}
    (behind : place.block.content.drop place.offset = tail) :
    readXattrPairs ctx ref = (do
      let pairCount ← countXattrPairs tail tail.length tail.length 0
      if pairCount = 0 then pure [] else fillXattrPairs tail tail.length pairCount 0) := by
  have remaining : sub64 place.block.content.length place.offset = tail.length := by
    have inside := place.inside
    have content := place.block.content_le
    rw [← behind, List.length_drop, sub64, sqfsMetaBlockSize] at *
    omega
  rw [readXattrPairs, loaded, Outcome.ofOption_some, Outcome.ok_bind, place.blockPos,
    place.block.readMetadataBlockInternal, Outcome.ok_bind, place.refOffset]
  dsimp only
  rw [remaining, behind]

private theorem readXattrPairs_count {ctx : SqfsCtx} {table : SqfsXattrTable}
    (loaded : ctx.xattrTable = some table) {stream : MetaStream ctx.image ctx.comp} {ref : Nat}
    (place : MetaPlace stream table.tableStart ref) {tail : List UInt8}
    (behind : place.block.content.drop place.offset = tail) {xattrs : List SqfsXattr}
    (read : readXattrPairs ctx ref = .ok xattrs) :
    countXattrPairs tail tail.length tail.length 0 = .ok xattrs.length := by
  rw [readXattrPairs_eq loaded place behind] at read
  rcases Outcome.bind_eq_ok.mp read with ⟨pairCount, counted, filled⟩
  rw [counted]
  split at filled
  · next empty =>
      cases filled
      rw [empty, List.length_nil]
  · rw [fillXattrPairs_length filled]

private theorem countXattrPairs_whole (pairs : List DiskXattr) {tail after : List UInt8}
    (split : encodeXattrs pairs ++ after = tail) :
    countXattrPairs tail tail.length tail.length 0 = .ok pairs.length ↔ after.length < 4 := by
  have size : pairs.length ≤ (encodeXattrs pairs).length :=
    length_le_length_flatMap fun pair _ => by rw [pair.encode_length]; omega
  have length := congrArg List.length split
  rw [List.length_append] at length
  have fuel : tail.length - pairs.length + pairs.length = tail.length := by omega
  have counted := countXattrPairs_encodeXattrs pairs [] after (tail.length - pairs.length)
    split.symm
  rw [fuel, List.nil_append, List.length_nil] at counted
  rw [counted]
  constructor
  · intro same
    rcases Outcome.bind_eq_ok.mp same with ⟨count, none, same⟩
    obtain rfl : count = 0 := by
      have equal := Outcome.ok.inj same
      omega
    have tooShort := countXattrPairs_eq_zero.mp none
    omega
  · intro few
    rw [countXattrPairs_eq_zero.mpr (by omega)]
    simp

private theorem readXattrPairs_of_whole {ctx : SqfsCtx} {table : SqfsXattrTable}
    (loaded : ctx.xattrTable = some table) {stream : MetaStream ctx.image ctx.comp} {ref : Nat}
    (place : MetaPlace stream table.tableStart ref) (pairs : List DiskXattr)
    {after : List UInt8}
    (split : encodeXattrs pairs ++ after = place.block.content.drop place.offset)
    (few : after.length < 4) :
    readXattrPairs ctx ref = .ok (pairs.map DiskXattr.parsed) := by
  rw [readXattrPairs_eq loaded place split.symm, (countXattrPairs_whole pairs rfl).mpr few,
    Outcome.ok_bind]
  split
  · next empty =>
      rw [List.length_eq_zero_iff.mp empty]
      rfl
  · exact fillXattrPairs_encodeXattrs pairs [] after rfl

end Parsing

/-- An inode sees exactly its own attributes if and only if its set is isolated. -/
theorem xattrPairsOfIdx_iff (ctx : SqfsCtx) (table : SqfsXattrTable)
    (loaded : ctx.xattrTable = some table) (stream : MetaStream ctx.image ctx.comp)
    (xattrIdx : Nat) (entry : SqfsXattrIdEntry) (found : table.entries[xattrIdx]? = some entry)
    (set : XattrSet stream table.tableStart entry) (xattrs : List SqfsXattr)
    (denotes : set.Denotes xattrs) :
    xattrPairsOfIdx ctx table xattrIdx = .ok xattrs ↔ set.Isolated xattrs := by
  have counts : xattrs.length = set.pairs.length := denotes.length_eq.symm
  have placed := set.placed
  rw [set.place.bytes_eq] at placed
  have tailLength := List.length_drop (i := set.place.offset) (l := set.place.block.content)
  have front := List.prefix_append (set.place.block.content.drop set.place.offset)
    (stream.bytesFrom (set.place.idx + 1) 0)
  have inside := set.place.inside
  have sized := set.sized
  rw [xattrPairsOfIdx, found]
  dsimp only
  constructor
  · intro read
    have counted := readXattrPairs_count loaded set.place rfl read
    rw [counts] at counted
    by_cases whole : set.place.offset + entry.size ≤ set.place.block.content.length
    · rcases List.prefix_of_prefix_length_le placed front (by omega) with ⟨after, split⟩
      have few := (countXattrPairs_whole set.pairs split).mp counted
      rw [readXattrPairs_of_whole loaded set.place set.pairs split few] at read
      have length := congrArg List.length split
      rw [List.length_append] at length
      exact {
        whole
        last := by omega
        selfReferring := (eq_map_parsed_iff denotes).mp (Outcome.ok.inj read).symm }
    · rcases List.prefix_of_prefix_length_le front placed (by omega) with ⟨after, split⟩
      have length := congrArg List.length split
      rw [List.length_append] at length
      have cut := List.length_pos_iff.mp (show 0 < after.length by omega)
      have fewer := countXattrPairs_short set.pairs [] after _ split cut (Nat.zero_le _) counted
      exact absurd fewer (Nat.lt_irrefl _)
  · intro isolated
    have whole := isolated.whole
    have last := isolated.last
    rcases List.prefix_of_prefix_length_le placed front (by omega) with ⟨after, split⟩
    have length := congrArg List.length split
    rw [List.length_append] at length
    rw [readXattrPairs_of_whole loaded set.place set.pairs split (by omega),
      (eq_map_parsed_iff denotes).mpr isolated.selfReferring]

/-! ## Two sets in one block -/

/-- `user.a` with the value `x`. -/
def firstPair : DiskXattr := ⟨.user, [0x61], .inline [0x78] (by decide), by decide⟩

/-- `user.b` with the value `y`. -/
def secondPair : DiskXattr := ⟨.user, [0x62], .inline [0x79] (by decide), by decide⟩

/-- The lookup table of two sets of one pair each. -/
def twoSets : SqfsXattrTable where
  entries := [⟨0, 1, 10⟩, ⟨10, 1, 10⟩]
  tableStart := 0
  loaded := true

/-- Both sets in one stored block. -/
def twoSetsCtx : SqfsCtx :=
  { SqfsCtx.onBytes ([0x14, 0x80] ++ encodeXattrs [firstPair, secondPair]) (by decide) with
    xattrTable := some twoSets }

def twoSetsBlock : MetaBlock twoSetsCtx.image twoSetsCtx.comp :=
  .ofStored _ _ [] (encodeXattrs [firstPair, secondPair]) [] (by decide) (by decide)
    (by decide)

def twoSetsStream : MetaStream twoSetsCtx.image twoSetsCtx.comp := ⟨[twoSetsBlock], .singleton _⟩

theorem firstPair_length : (encodeXattrs [firstPair]).length = 10 := rfl

def firstSet : XattrSet twoSetsStream twoSets.tableStart ⟨0, 1, 10⟩ where
  place := ⟨0, twoSetsBlock, 0, 0, rfl, rfl, rfl, by decide⟩
  pairs := [firstPair]
  counted := List.length_singleton
  sized := firstPair_length
  placed := by decide

def secondSet : XattrSet twoSetsStream twoSets.tableStart ⟨10, 1, 10⟩ where
  place := ⟨0, twoSetsBlock, 0, 10, rfl, rfl, rfl, by decide⟩
  pairs := [secondPair]
  counted := rfl
  sized := rfl
  placed := by decide

/-- The second set is the last of the block and is read as it is. -/
theorem xattrPairsOfIdx_second :
    xattrPairsOfIdx twoSetsCtx twoSets 1 = .ok [secondPair.parsed] :=
  (xattrPairsOfIdx_iff twoSetsCtx twoSets rfl twoSetsStream 1 ⟨10, 1, 10⟩ rfl secondSet
    [secondPair.parsed] (.cons ⟨rfl, rfl⟩ .nil)).mpr {
      whole := by decide
      last := by decide
      selfReferring := by
        intro pair xattr member ref outOfLine
        cases List.mem_singleton.mp member
        cases outOfLine }

/-- The inode with the first set also sees the second. -/
theorem xattrPairsOfIdx_leaks :
    ¬ ∀ (ctx : SqfsCtx) (table : SqfsXattrTable), ctx.xattrTable = some table →
      ∀ stream : MetaStream ctx.image ctx.comp, stream.Chopped →
      ∀ (xattrIdx : Nat) (entry : SqfsXattrIdEntry), table.entries[xattrIdx]? = some entry →
      ∀ (set : XattrSet stream table.tableStart entry) (xattrs : List SqfsXattr),
      set.Denotes xattrs → xattrPairsOfIdx ctx table xattrIdx = .ok xattrs := by
  intro claim
  have alone := claim twoSetsCtx twoSets rfl twoSetsStream (.singleton _) 0 ⟨0, 1, 10⟩ rfl
    firstSet [firstPair.parsed] (.cons ⟨rfl, rfl⟩ .nil)
  have both : xattrPairsOfIdx twoSetsCtx twoSets 0 =
      .ok [firstPair.parsed, secondPair.parsed] := by
    decide +kernel
  rw [both] at alone
  cases Outcome.ok.inj alone

end SquashfsFuse
