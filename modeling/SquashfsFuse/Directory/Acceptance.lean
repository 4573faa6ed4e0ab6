import Mathlib.Data.List.TakeWhile
import SquashfsFuse.Core.Xattr
import SquashfsFuse.Directory.Layout

/-! Which byte strings the parser of directory listings accepts. -/

namespace SquashfsFuse

/-! ## Records as the parser takes them -/

def storedMinusOne (bits value : Nat) : Nat :=
  if value = 0 then 2 ^ bits - 1 else value - 1

private theorem storedMinusOne_lt {bits value : Nat} (small : value < 2 ^ bits) :
    storedMinusOne bits value < 2 ^ bits := by
  rw [storedMinusOne]
  split <;> omega

theorem storedMinusOne_add_one {bits value : Nat} (small : value < 2 ^ bits) :
    (storedMinusOne bits value + 1) % 2 ^ bits = value := by
  rw [storedMinusOne]
  split
  · next zero => rw [zero, Nat.sub_add_cancel Nat.one_le_two_pow, Nat.mod_self]
  · next positive =>
      rw [Nat.sub_add_cancel (Nat.one_le_iff_ne_zero.mpr positive), Nat.mod_eq_of_lt small]

private theorem storedMinusOne_mod {bits stored : Nat} (small : stored < 2 ^ bits) :
    storedMinusOne bits ((stored + 1) % 2 ^ bits) = stored := by
  by_cases last : stored + 1 = 2 ^ bits
  · rw [last, Nat.mod_self, storedMinusOne, if_pos rfl]
    omega
  · rw [Nat.mod_eq_of_lt (by omega), storedMinusOne, if_neg (by omega), Nat.add_sub_cancel]

/-- `sqfs_dir_entry_t` and the name that the parser takes for it. The length is stored
minus one, so the parser takes no name at all where the greatest length is stored. -/
@[ext] structure TakenEntry where
  offset : UInt16
  inodeOffset : Int16
  type : InodeType
  name : List UInt8
  basic : type.code ≤ 7
  short : name.length < 2 ^ 16

/-- `sqfs_dir_header_t` and the entries that the parser takes for it, none where the
greatest count is stored. -/
@[ext] structure TakenRun where
  start : UInt32
  inodeNumber : UInt32
  entries : List TakenEntry
  counted : entries.length < 2 ^ 32

namespace TakenEntry

def encode (entry : TakenEntry) : List UInt8 :=
  leBytes 2 entry.offset.toNat ++ leBytes 2 entry.inodeOffset.toUInt16.toNat ++
    leBytes 2 entry.type.code ++ leBytes 2 (storedMinusOne 16 entry.name.length) ++ entry.name

/-- The entry as the parser delivers it. -/
def dirent (entry : TakenEntry) (start inodeNumber : Nat) : SqfsDirent where
  name := entry.name
  inodeNumber := ofInt64 (toInt inodeNumber + entry.inodeOffset.toInt)
  inodeRef := start * 2 ^ 16 + entry.offset.toNat
  type := entry.type

theorem encode_length (entry : TakenEntry) : entry.encode.length = 8 + entry.name.length := by
  simp [encode]
  omega

end TakenEntry

namespace TakenRun

def encode (run : TakenRun) : List UInt8 :=
  leBytes 4 (storedMinusOne 32 run.entries.length) ++ leBytes 4 run.start.toNat ++
    leBytes 4 run.inodeNumber.toNat ++ run.entries.flatMap TakenEntry.encode

def dirents (run : TakenRun) : List SqfsDirent :=
  run.entries.map (·.dirent run.start.toNat run.inodeNumber.toNat)

theorem encode_length (run : TakenRun) :
    run.encode.length = 12 + (run.entries.flatMap TakenEntry.encode).length := by
  simp [encode]
  omega

end TakenRun

def encodeTaken (runs : List TakenRun) : List UInt8 := runs.flatMap TakenRun.encode

def takenDirents (runs : List TakenRun) : List SqfsDirent := runs.flatMap TakenRun.dirents

/-! ## What is accepted -/

section Acceptance

variable {header : SqfsDirHeader} {rest after : List UInt8}

theorem TakenEntry.loads (entry : TakenEntry) (after : List UInt8) :
    sqfsLe16ToCpu (entry.encode ++ after) 0 = .ok entry.offset.toNat ∧
      sqfsLe16ToCpu (entry.encode ++ after) 2 = .ok entry.inodeOffset.toUInt16.toNat ∧
      sqfsLe16ToCpu (entry.encode ++ after) 4 = .ok entry.type.code ∧
      sqfsLe16ToCpu (entry.encode ++ after) 6 = .ok (storedMinusOne 16 entry.name.length) := by
  have codeFits : entry.type.code < 65536 := entry.type.code_lt
  have sizeFits : storedMinusOne 16 entry.name.length < 65536 := storedMinusOne_lt entry.short
  simp [sqfsLe16ToCpu, TakenEntry.encode, codeFits, sizeFits]

theorem TakenRun.loads (run : TakenRun) (after : List UInt8) :
    sqfsLe32ToCpu (run.encode ++ after) 0 = .ok (storedMinusOne 32 run.entries.length) ∧
      sqfsLe32ToCpu (run.encode ++ after) 4 = .ok run.start.toNat ∧
      sqfsLe32ToCpu (run.encode ++ after) 8 = .ok run.inodeNumber.toNat := by
  have countFits : storedMinusOne 32 run.entries.length < 4294967296 :=
    storedMinusOne_lt run.counted
  simp [sqfsLe32ToCpu, TakenRun.encode, Nat.mod_eq_of_lt countFits]

theorem parseDirectoryEntry_taken (header : SqfsDirHeader) (entry : TakenEntry)
    (after : List UInt8) :
    parseDirectoryEntry header (entry.encode ++ after) =
      .ok (entry.dirent header.start header.inodeNumber, after) := by
  have short := entry.short
  have length := entry.encode_length
  rcases entry.loads after with ⟨loadOffset, loadDifference, loadType, loadSize⟩
  have nameLen : u16 (storedMinusOne 16 entry.name.length + 1) = entry.name.length :=
    storedMinusOne_add_one short
  have name : slice (entry.encode ++ after) 8 entry.name.length = some entry.name := by
    have sliced := slice_append_length (leBytes 2 entry.offset.toNat ++
      leBytes 2 entry.inodeOffset.toUInt16.toNat ++ leBytes 2 entry.type.code ++
      leBytes 2 (storedMinusOne 16 entry.name.length)) entry.name after
    rwa [← List.append_assoc] at sliced
  have behind : (entry.encode ++ after).drop (8 + entry.name.length) = after :=
    List.drop_left' length
  have reference : header.start <<< 16 ||| entry.offset.toNat =
      header.start * 2 ^ 16 + entry.offset.toNat := by
    rw [← Nat.shiftLeft_add_eq_or_of_lt entry.offset.toNat_lt, Nat.shiftLeft_eq]
  rw [parseDirectoryEntry, if_neg (by rw [List.length_append]; omega)]
  simp only [loadOffset, loadDifference, loadType, loadSize, Outcome.ok_bind, nameLen,
    InodeType.ofBasicCode_code entry.basic, name, Outcome.ofOption_some, behind,
    toInt16_toUInt16, reference]
  rw [if_neg (by rw [List.length_append]; omega)]
  rfl

private theorem InodeType.code_of_ofBasicCode {code : Nat} {type : InodeType}
    (known : InodeType.ofBasicCode code = some type) : type.code = code ∧ code ≤ 7 := by
  rw [InodeType.ofBasicCode] at known
  split at known
  · cases known
  · refine ⟨?_, by omega⟩
    unfold InodeType.ofCode at known
    split at known <;> cases known <;> rfl

private theorem parseDirectoryEntry_eq_ok {dirent : SqfsDirent} :
    parseDirectoryEntry header rest = .ok (dirent, after) ↔
      ∃ entry : TakenEntry, rest = entry.encode ++ after ∧
        dirent = entry.dirent header.start header.inodeNumber := by
  constructor
  · intro parsed
    have taken := parsed
    unfold parseDirectoryEntry at parsed
    split at parsed
    · cases parsed
    · rcases Outcome.bind_eq_ok.mp parsed with ⟨offset, loadOffset, parsed⟩
      rcases Outcome.bind_eq_ok.mp parsed with ⟨inodeOffset, loadDifference, parsed⟩
      rcases Outcome.bind_eq_ok.mp parsed with ⟨typeCode, loadType, parsed⟩
      rcases Outcome.bind_eq_ok.mp parsed with ⟨nameSize, loadSize, parsed⟩
      dsimp only at parsed
      split at parsed
      · cases parsed
      · split at parsed
        · cases parsed
        · next type known =>
            rcases Outcome.bind_eq_ok.mp parsed with ⟨name, sliced, equal⟩
            cases equal
            have offsetAt := Outcome.ofOption_eq_ok.mp loadOffset
            have differenceAt := Outcome.ofOption_eq_ok.mp loadDifference
            have typeAt := Outcome.ofOption_eq_ok.mp loadType
            have sizeAt := Outcome.ofOption_eq_ok.mp loadSize
            have nameAt := Outcome.ofOption_eq_ok.mp sliced
            rcases loadLe_two offsetAt with ⟨offset, rfl⟩
            rcases loadLe_two differenceAt with ⟨difference, rfl⟩
            rcases InodeType.code_of_ofBasicCode known with ⟨rfl, basic⟩
            have sizeFits : nameSize < 2 ^ 16 := loadLe_lt sizeAt
            have length := slice_length nameAt
            have short : name.length < 2 ^ 16 := by
              rw [length]
              exact Nat.mod_lt _ (by decide)
            have stored : storedMinusOne 16 name.length = nameSize := by
              rw [length]
              exact storedMinusOne_mod sizeFits
            let entry : TakenEntry :=
              { offset, inodeOffset := ⟨difference⟩, type, name, basic, short }
            have layout : rest = entry.encode ++ rest.drop (8 + u16 (nameSize + 1)) := by
              have parts := drop_of_loadLe offsetAt
              rw [drop_of_loadLe differenceAt, drop_of_loadLe typeAt, drop_of_loadLe sizeAt,
                drop_of_slice nameAt, List.drop_zero] at parts
              simp only [TakenEntry.encode, entry, stored, List.append_assoc]
              exact parts
            refine ⟨entry, layout, ?_⟩
            have again := parseDirectoryEntry_taken header entry
              (rest.drop (8 + u16 (nameSize + 1)))
            rw [← layout, taken] at again
            exact congrArg Prod.fst (Outcome.ok.inj again)
  · rintro ⟨entry, rfl, rfl⟩
    exact parseDirectoryEntry_taken header entry after

private theorem parseDirectoryRun_eq_ok {entryCount : Nat} {dirents : List SqfsDirent} :
    parseDirectoryRun header entryCount rest = .ok (dirents, after) ↔
      ∃ entries : List TakenEntry, entries.length = entryCount ∧
        rest = entries.flatMap TakenEntry.encode ++ after ∧
        dirents = entries.map (·.dirent header.start header.inodeNumber) := by
  induction entryCount generalizing rest dirents with
  | zero =>
      constructor
      · intro parsed
        cases parsed
        exact ⟨[], rfl, rfl, rfl⟩
      · rintro ⟨entries, empty, rfl, rfl⟩
        obtain rfl : entries = [] := List.length_eq_zero_iff.mp empty
        rfl
  | succ entryCount induction =>
      constructor
      · intro parsed
        rcases Outcome.bind_eq_ok.mp parsed with ⟨⟨dirent, behind⟩, first, parsed⟩
        rcases Outcome.bind_eq_ok.mp parsed with ⟨⟨others, last⟩, following, equal⟩
        cases equal
        rcases parseDirectoryEntry_eq_ok.mp first with ⟨entry, rfl, rfl⟩
        rcases induction.mp following with ⟨entries, rfl, rfl, rfl⟩
        exact ⟨entry :: entries, rfl, by rw [List.flatMap_cons, List.append_assoc], rfl⟩
      · rintro ⟨entries, length, rfl, rfl⟩
        cases entries with
        | nil => cases length
        | cons entry entries =>
            have following := induction.mpr ⟨entries, Nat.succ.inj length, rfl, rfl⟩
            rw [List.flatMap_cons, List.append_assoc, parseDirectoryRun,
              parseDirectoryEntry_taken, Outcome.ok_bind]
            dsimp only
            rw [following]
            rfl

private theorem parseDirectoryHeader_eq_ok {dirents : List SqfsDirent} :
    parseDirectoryHeader rest = .ok (dirents, after) ↔
      ∃ run : TakenRun, rest = run.encode ++ after ∧ dirents = run.dirents := by
  constructor
  · intro parsed
    unfold parseDirectoryHeader at parsed
    split at parsed
    · cases parsed
    · rcases Outcome.bind_eq_ok.mp parsed with ⟨count, loadCount, parsed⟩
      rcases Outcome.bind_eq_ok.mp parsed with ⟨start, loadStart, parsed⟩
      rcases Outcome.bind_eq_ok.mp parsed with ⟨inodeNumber, loadNumber, parsed⟩
      rcases parseDirectoryRun_eq_ok.mp parsed with ⟨entries, length, layout, rfl⟩
      have countAt := Outcome.ofOption_eq_ok.mp loadCount
      have startAt := Outcome.ofOption_eq_ok.mp loadStart
      have numberAt := Outcome.ofOption_eq_ok.mp loadNumber
      rcases loadLe_four startAt with ⟨start, rfl⟩
      rcases loadLe_four numberAt with ⟨inodeNumber, rfl⟩
      have countFits : count < 2 ^ 32 := loadLe_lt countAt
      have counted : entries.length < 2 ^ 32 := by
        rw [length]
        exact Nat.mod_lt _ (by decide)
      have stored : storedMinusOne 32 entries.length = count := by
        rw [length]
        exact storedMinusOne_mod countFits
      refine ⟨{ start, inodeNumber, entries, counted }, ?_, rfl⟩
      have parts := drop_of_loadLe countAt
      rw [drop_of_loadLe startAt, drop_of_loadLe numberAt, layout, List.drop_zero] at parts
      simp only [TakenRun.encode, stored, List.append_assoc]
      exact parts
  · rintro ⟨run, rfl, rfl⟩
    have counted := run.counted
    have length := run.encode_length
    rcases run.loads after with ⟨loadCount, loadStart, loadNumber⟩
    have behind : (run.encode ++ after).drop 12 =
        run.entries.flatMap TakenEntry.encode ++ after := by
      rw [TakenRun.encode, List.append_assoc]
      exact List.drop_left' (by simp)
    have announced : u32 (storedMinusOne 32 run.entries.length + 1) = run.entries.length :=
      storedMinusOne_add_one counted
    rw [parseDirectoryHeader, if_neg (by rw [List.length_append]; omega), loadCount, loadStart,
      loadNumber]
    simp only [Outcome.ok_bind, announced, behind]
    exact parseDirectoryRun_eq_ok.mpr ⟨run.entries, rfl, rfl, rfl⟩

private theorem parseDirectoryLoop_nil (fuel : Nat) (dirents : List SqfsDirent) :
    parseDirectoryLoop fuel [] = .ok dirents ↔
      ∃ runs, encodeTaken runs = [] ∧ takenDirents runs = dirents := by
  have empty : parseDirectoryLoop fuel [] = .ok [] := by
    cases fuel <;> rfl
  rw [empty, Outcome.ok.injEq]
  constructor
  · rintro rfl
    exact ⟨[], rfl, rfl⟩
  · rintro ⟨runs, nothing, rfl⟩
    cases runs with
    | nil => rfl
    | cons run runs =>
        have length := run.encode_length
        have split := congrArg List.length
          (List.flatMap_cons.symm.trans nothing : run.encode ++ encodeTaken runs = [])
        rw [List.length_append, List.length_nil] at split
        omega

private theorem parseDirectoryLoop_eq_ok {fuel : Nat} {data : List UInt8} {dirents : List SqfsDirent}
    (enough : data.length ≤ fuel) :
    parseDirectoryLoop fuel data = .ok dirents ↔
      ∃ runs, encodeTaken runs = data ∧ takenDirents runs = dirents := by
  induction fuel generalizing data dirents with
  | zero =>
      obtain rfl : data = [] := List.length_eq_zero_iff.mp (Nat.le_zero.mp enough)
      exact parseDirectoryLoop_nil 0 dirents
  | succ fuel induction =>
      cases data with
      | nil => exact parseDirectoryLoop_nil (fuel + 1) dirents
      | cons byte rest =>
          constructor
          · intro parsed
            rcases Outcome.bind_eq_ok.mp parsed with ⟨⟨first, behind⟩, header, parsed⟩
            rcases Outcome.bind_eq_ok.mp parsed with ⟨others, following, equal⟩
            cases equal
            have shorter := parseDirectoryHeader_length header
            rw [List.length_cons] at enough shorter
            rcases parseDirectoryHeader_eq_ok.mp header with ⟨run, layout, rfl⟩
            rcases (induction (by omega)).mp following with ⟨runs, rfl, rfl⟩
            exact ⟨run :: runs, layout.symm, rfl⟩
          · rintro ⟨runs, layout, rfl⟩
            cases runs with
            | nil => cases layout
            | cons run runs =>
                have split : byte :: rest = run.encode ++ encodeTaken runs :=
                  layout.symm.trans List.flatMap_cons
                have length := congrArg List.length split
                have runLength := run.encode_length
                rw [List.length_append, List.length_cons] at length
                rw [List.length_cons] at enough
                rw [parseDirectoryLoop, parseDirectoryHeader_eq_ok.mpr ⟨run, split, rfl⟩,
                  Outcome.ok_bind]
                dsimp only
                rw [(induction (by omega)).mpr ⟨runs, rfl, rfl⟩]
                rfl

/-- The parser accepts what is made of records, and delivers their entries in order. -/
theorem parseDirectoryEntries_eq_ok {data : List UInt8} {dirents : List SqfsDirent} :
    parseDirectoryEntries data = .ok dirents ↔
      ∃ runs, encodeTaken runs = data ∧ takenDirents runs = dirents :=
  parseDirectoryLoop_eq_ok (Nat.le_refl _)

end Acceptance

/-! ## Records can be told from their bytes -/

theorem TakenEntry.encode_prefixFree : PrefixFree TakenEntry.encode := by
  intro left right rest after same
  have lefts := left.loads rest
  have rights := right.loads after
  rw [same] at lefts
  rcases lefts with ⟨leftOffset, leftDifference, leftType, leftSize⟩
  rcases rights with ⟨rightOffset, rightDifference, rightType, rightSize⟩
  have offsets := UInt16.toNat_inj.mp (Outcome.ok.inj (leftOffset.symm.trans rightOffset))
  have differences : left.inodeOffset = right.inodeOffset := by
    have words := Outcome.ok.inj (leftDifference.symm.trans rightDifference)
    apply Int16.toInt_inj.mp
    rw [← toInt16_toUInt16, words, toInt16_toUInt16]
  have codes := Outcome.ok.inj (leftType.symm.trans rightType)
  have sizes := Outcome.ok.inj (leftSize.symm.trans rightSize)
  have lengths : left.encode.length = right.encode.length := by
    rw [left.encode_length, right.encode_length, ← storedMinusOne_add_one left.short, sizes,
      storedMinusOne_add_one right.short]
  rcases List.append_inj same lengths with ⟨records, behind⟩
  have types : left.type = right.type := by
    have known := InodeType.ofCode_code left.type
    rw [codes, InodeType.ofCode_code] at known
    exact (Option.some.inj known).symm
  have names : left.name = right.name := by
    simp only [TakenEntry.encode, offsets, differences, codes, sizes,
      List.append_cancel_left_eq] at records
    exact records
  exact ⟨TakenEntry.ext offsets differences types names, behind⟩

theorem TakenRun.encode_prefixFree : PrefixFree TakenRun.encode := by
  intro left right rest after same
  have lefts := left.loads rest
  have rights := right.loads after
  rw [same] at lefts
  rcases lefts with ⟨leftCount, leftStart, leftNumber⟩
  rcases rights with ⟨rightCount, rightStart, rightNumber⟩
  have counts := Outcome.ok.inj (leftCount.symm.trans rightCount)
  have starts := UInt32.toNat_inj.mp (Outcome.ok.inj (leftStart.symm.trans rightStart))
  have numbers := UInt32.toNat_inj.mp (Outcome.ok.inj (leftNumber.symm.trans rightNumber))
  have lengths : left.entries.length = right.entries.length := by
    rw [← storedMinusOne_add_one left.counted, counts, storedMinusOne_add_one right.counted]
  simp only [TakenRun.encode, lengths, starts, numbers, List.append_assoc,
    List.append_cancel_left_eq] at same
  rcases TakenEntry.encode_prefixFree.flatMap_append lengths same with ⟨entries, behind⟩
  exact ⟨TakenRun.ext starts numbers entries, behind⟩

/-- There is one way to take bytes as records. -/
theorem encodeTaken_injective {left right : List TakenRun}
    (same : encodeTaken left = encodeTaken right) : left = right :=
  TakenRun.encode_prefixFree.flatMap_injective
    (fun run => by rw [run.encode_length]; omega) same

/-! ## Listings -/

structure TakenRun.Full (run : TakenRun) : Prop where
  nonempty : 0 < run.entries.length
  named : ∀ entry ∈ run.entries, 0 < entry.name.length

def DiskDirEntry.taken (entry : DiskDirEntry) (short : entry.name.length < 2 ^ 16) :
    TakenEntry :=
  { entry with short }

def TakenEntry.listed (entry : TakenEntry) (named : 0 < entry.name.length) : DiskDirEntry :=
  { entry with named, short := Nat.le_of_lt entry.short }

theorem DiskDirEntry.taken_encode (entry : DiskDirEntry) (short : entry.name.length < 2 ^ 16) :
    (entry.taken short).encode = entry.encode := by
  have stored : storedMinusOne 16 entry.name.length = entry.name.length - 1 :=
    if_neg (Nat.ne_of_gt entry.named)
  rw [DiskDirEntry.encode, ← stored]
  rfl

theorem TakenEntry.listed_encode (entry : TakenEntry) (named : 0 < entry.name.length) :
    (entry.listed named).encode = entry.encode :=
  ((entry.listed named).taken_encode entry.short).symm

def DirRun.Fits (run : DirRun) : Prop :=
  run.entries.length < 2 ^ 32 ∧ ∀ entry ∈ run.entries, entry.name.length < 2 ^ 16

def DirRun.taken (run : DirRun) (fits : run.Fits) : TakenRun where
  start := run.start
  inodeNumber := run.inodeNumber
  entries := run.entries.pmap DiskDirEntry.taken fits.2
  counted := by
    rw [List.length_pmap]
    exact fits.1

def TakenRun.listed (run : TakenRun) (full : run.Full) : DirRun where
  start := run.start
  inodeNumber := run.inodeNumber
  entries := run.entries.pmap TakenEntry.listed full.named
  nonempty := by
    rw [List.length_pmap]
    exact full.nonempty
  counted := by
    rw [List.length_pmap]
    exact Nat.le_of_lt run.counted

section Conversions

theorem DirRun.taken_encode (run : DirRun) (fits : run.Fits) :
    (run.taken fits).encode = run.encode := by
  have entries : (run.taken fits).entries.flatMap TakenEntry.encode =
      run.entries.flatMap DiskDirEntry.encode := by
    rw [List.flatMap_def, List.flatMap_def]
    exact congrArg List.flatten (map_pmap_eq DiskDirEntry.taken_encode fits.2)
  have stored : storedMinusOne 32 (run.taken fits).entries.length = run.entries.length - 1 := by
    rw [DirRun.taken, List.length_pmap]
    exact if_neg (Nat.ne_of_gt run.nonempty)
  rw [TakenRun.encode, entries, stored]
  rfl

private theorem DiskDirEntry.taken_dirent (run : DirRun) (entry : DiskDirEntry)
    (short : entry.name.length < 2 ^ 16) :
    (entry.taken short).dirent run.start.toNat run.inodeNumber.toNat = entry.parsed run := rfl

private theorem DirRun.taken_dirents (run : DirRun) (fits : run.Fits) :
    (run.taken fits).dirents = run.entries.map (·.parsed run) :=
  map_pmap_eq (DiskDirEntry.taken_dirent run) fits.2

private theorem DirRun.taken_full (run : DirRun) (fits : run.Fits) : (run.taken fits).Full where
  nonempty := by
    rw [DirRun.taken, List.length_pmap]
    exact run.nonempty
  named := by
    intro entry member
    rcases List.mem_pmap.mp member with ⟨disk, _, rfl⟩
    exact disk.named

theorem TakenRun.listed_encode (run : TakenRun) (full : run.Full) :
    (run.listed full).encode = run.encode := by
  have entries : (run.listed full).entries.flatMap DiskDirEntry.encode =
      run.entries.flatMap TakenEntry.encode := by
    rw [List.flatMap_def, List.flatMap_def]
    exact congrArg List.flatten (map_pmap_eq TakenEntry.listed_encode full.named)
  have stored : (run.listed full).entries.length - 1 =
      storedMinusOne 32 run.entries.length := by
    rw [TakenRun.listed, List.length_pmap]
    exact (if_neg (Nat.ne_of_gt full.nonempty)).symm
  rw [DirRun.encode, entries, stored]
  rfl

theorem TakenEntry.listed_parsed (run : TakenRun) (full : run.Full) (entry : TakenEntry)
    (named : 0 < entry.name.length) : (entry.listed named).parsed (run.listed full) =
      entry.dirent run.start.toNat run.inodeNumber.toNat := rfl

theorem TakenRun.listed_parsed (run : TakenRun) (full : run.Full) :
    (run.listed full).entries.map (·.parsed (run.listed full)) = run.dirents :=
  map_pmap_eq (TakenEntry.listed_parsed run full) full.named

end Conversions

theorem takenRuns_of_listing (listing : List DirRun) (fits : ListingFits listing) :
    encodeTaken (listing.pmap DirRun.taken fits) = encodeListing listing ∧
      takenDirents (listing.pmap DirRun.taken fits) = parsedDirents listing := by
  rw [encodeTaken, encodeListing, takenDirents, parsedDirents, List.flatMap_def,
    List.flatMap_def, List.flatMap_def, List.flatMap_def]
  exact ⟨congrArg List.flatten (map_pmap_eq DirRun.taken_encode fits),
    congrArg List.flatten (map_pmap_eq DirRun.taken_dirents fits)⟩

private theorem listing_of_takenRuns (runs : List TakenRun) (full : ∀ run ∈ runs, run.Full) :
    encodeListing (runs.pmap TakenRun.listed full) = encodeTaken runs ∧
      parsedDirents (runs.pmap TakenRun.listed full) = takenDirents runs := by
  rw [encodeTaken, encodeListing, takenDirents, parsedDirents, List.flatMap_def,
    List.flatMap_def, List.flatMap_def, List.flatMap_def]
  exact ⟨congrArg List.flatten (map_pmap_eq TakenRun.listed_encode full),
    congrArg List.flatten (map_pmap_eq TakenRun.listed_parsed full)⟩

theorem parseDirectoryEntries_encode (listing : List DirRun) (fits : ListingFits listing) :
    parseDirectoryEntries (encodeListing listing) = .ok (parsedDirents listing) := by
  rcases takenRuns_of_listing listing fits with ⟨bytes, dirents⟩
  exact parseDirectoryEntries_eq_ok.mpr ⟨_, bytes, dirents⟩

/-! ## Parsing undoes serialising -/

/-- The limits of the format: a header for at most 256 entries, and names of at most 256
characters. -/
structure DirRun.InFormat (run : DirRun) : Prop where
  few : run.entries.length ≤ 256
  short : ∀ entry ∈ run.entries, entry.name.length ≤ 256
  text : ∀ entry ∈ run.entries, 0 ∉ entry.name

/-- Parsing a listing in the format succeeds, and delivers the names, types and references of
the entries of all runs in order. -/
theorem parseDirectoryEntries_undoes (listing : List DirRun)
    (inFormat : ∀ run ∈ listing, run.InFormat) :
    ∃ dirents, parseDirectoryEntries (encodeListing listing) = .ok dirents ∧
      dirents.map (fun dirent => (dirent.name, dirent.type, dirent.inodeRef)) =
        listing.flatMap (fun run => run.entries.map fun entry =>
          (entry.name, entry.type, run.start.toNat <<< 16 ||| entry.offset.toNat)) ∧
      ∀ dirent ∈ dirents, cString dirent.name = dirent.name := by
  have fits : ListingFits listing := by
    intro run member
    have few := (inFormat run member).few
    refine ⟨by omega, ?_⟩
    intro entry entryMember
    have short := (inFormat run member).short entry entryMember
    omega
  refine ⟨parsedDirents listing, parseDirectoryEntries_encode listing fits, ?_, ?_⟩
  · rw [parsedDirents, List.map_flatMap]
    apply congrArg (List.flatMap · listing)
    funext run
    rw [List.map_map]
    apply List.map_congr_left
    intro entry _
    rw [← Nat.shiftLeft_add_eq_or_of_lt entry.offset.toNat_lt, Nat.shiftLeft_eq]
    rfl
  · intro dirent member
    rcases List.mem_flatMap.mp member with ⟨run, runMember, member⟩
    rcases List.mem_map.mp member with ⟨entry, entryMember, rfl⟩
    exact cString_of_notMem ((inFormat run runMember).text entry entryMember)

theorem fifo_basic : InodeType.fifo.code ≤ 7 := by
  decide

theorem letter_nonempty : 0 < ([0x61] : List UInt8).length := by
  decide

theorem letter_short : ([0x61] : List UInt8).length < 2 ^ 16 := by
  decide

theorem letter_le : ([0x61] : List UInt8).length ≤ 2 ^ 16 :=
  Nat.le_of_lt letter_short

/-- Two runs, of a directory and a pipe and of a socket. -/
def mixedListing : List DirRun := [
  { start := 0
    inodeNumber := 1
    entries := [⟨0, 1, .dir, [0x61], by decide, letter_nonempty, letter_le⟩,
      ⟨32, 2, .fifo, [0x62, 0x63], fifo_basic, by decide, by decide⟩]
    nonempty := Nat.zero_lt_two
    counted := by simp },
  { start := 8194
    inodeNumber := 9
    entries := [⟨0, -1, .socket, [0x64], by decide, by decide, by decide⟩]
    nonempty := Nat.one_pos
    counted := by simp }]

theorem parseDirectoryEntries_undoes_mixed :
    ∃ dirents, parseDirectoryEntries (encodeListing mixedListing) = .ok dirents ∧
      dirents.map (fun dirent => (dirent.name, dirent.type, dirent.inodeRef)) =
        [([0x61], .dir, 0), ([0x62, 0x63], .fifo, 32), ([0x64], .socket, 8194 * 2 ^ 16)] := by
  have inFormat : ∀ run ∈ mixedListing, run.InFormat := by
    intro run member
    rcases List.mem_cons.mp member with rfl | member
    · exact ⟨by decide, by decide, by decide⟩
    · rcases List.mem_singleton.mp member with rfl
      exact ⟨by decide, by decide, by decide⟩
  rcases parseDirectoryEntries_undoes mixedListing inFormat with ⟨dirents, parsed, same, -⟩
  exact ⟨dirents, parsed, same⟩

/-! ## Acceptance and listings -/

/-- What the parser accepts is a listing, and it delivers the entries of the listing. -/
def OnlyListings (flatten : List DirRun → List SqfsDirent) (data : List UInt8) : Prop :=
  ∀ dirents, parseDirectoryEntries data = .ok dirents →
    ∃ listing, encodeListing listing = data ∧ flatten listing = dirents

/-- No record in the bytes announces a length that overflows. -/
def TakenFull (data : List UInt8) : Prop :=
  ∀ runs, encodeTaken runs = data → ∀ run ∈ runs, run.Full

/-- No inode number in the bytes comes out negative. -/
def TakenNonneg (data : List UInt8) : Prop :=
  ∀ runs, encodeTaken runs = data → ∀ run ∈ runs, ∀ entry ∈ run.entries,
    0 ≤ toInt run.inodeNumber.toNat + entry.inodeOffset.toInt

private theorem listingFits_of_names {listing : List DirRun}
    (sized : (encodeListing listing).length < 2 ^ 32)
    (short : ∀ run ∈ listing, ∀ entry ∈ run.entries, entry.name.length < 2 ^ 16) :
    ListingFits listing := by
  intro run member
  have runLength : run.encode.length ≤ (encodeListing listing).length :=
    length_le_length_flatMap_of_mem member
  have entriesLength := run.encode_length
  have count : run.entries.length ≤ (run.entries.flatMap DiskDirEntry.encode).length :=
    length_le_length_flatMap fun entry _ => by rw [entry.encode_length]; omega
  exact ⟨by omega, short run member⟩

private theorem takenDirents_short {runs : List TakenRun} {dirent : SqfsDirent}
    (member : dirent ∈ takenDirents runs) : dirent.name.length < 2 ^ 16 := by
  rcases List.mem_flatMap.mp member with ⟨run, -, member⟩
  rcases List.mem_map.mp member with ⟨entry, -, rfl⟩
  exact entry.short

/-- A listing whose entries the parser delivers is what it takes the bytes for. -/
theorem takenRuns_eq {runs : List TakenRun} {listing : List DirRun}
    (sized : (encodeTaken runs).length < 2 ^ 32)
    (bytes : encodeListing listing = encodeTaken runs)
    (delivered : ∀ run ∈ listing, ∀ entry ∈ run.entries, ∃ dirent ∈ takenDirents runs,
      dirent.name = entry.name) :
    ∃ fits : ListingFits listing, runs = listing.pmap DirRun.taken fits := by
  have short : ∀ run ∈ listing, ∀ entry ∈ run.entries, entry.name.length < 2 ^ 16 := by
    intro run runMember entry member
    rcases delivered run runMember entry member with ⟨dirent, direntMember, same⟩
    rw [← same]
    exact takenDirents_short direntMember
  have fits := listingFits_of_names (by rwa [bytes]) short
  exact ⟨fits, encodeTaken_injective (bytes.symm.trans (takenRuns_of_listing listing fits).1.symm)⟩

private theorem parsedDirents_named (listing : List DirRun) :
    ∀ run ∈ listing, ∀ entry ∈ run.entries, ∃ dirent ∈ parsedDirents listing,
      dirent.name = entry.name := by
  intro run runMember entry member
  exact ⟨entry.parsed run,
    List.mem_flatMap.mpr ⟨run, runMember, List.mem_map.mpr ⟨entry, member, rfl⟩⟩, rfl⟩

theorem listedDirents_named (listing : List DirRun) :
    ∀ run ∈ listing, ∀ entry ∈ run.entries, ∃ dirent ∈ listedDirents listing,
      dirent.name = entry.name := by
  intro run runMember entry member
  exact ⟨entry.dirent run,
    List.mem_flatMap.mpr ⟨run, runMember, List.mem_map.mpr ⟨entry, member, rfl⟩⟩, rfl⟩

section Exact

variable {data : List UInt8}

private theorem OnlyListings.exists_listing {flatten : List DirRun → List SqfsDirent}
    {runs : List TakenRun} (only : OnlyListings flatten data)
    (named : ∀ listing, ∀ run ∈ listing, ∀ entry ∈ run.entries, ∃ dirent ∈ flatten listing,
      dirent.name = entry.name)
    (sized : data.length < 2 ^ 32) (taken : encodeTaken runs = data) :
    ∃ listing, ∃ fits : ListingFits listing, runs = listing.pmap DirRun.taken fits ∧
      parsedDirents listing = flatten listing := by
  rcases only _ (parseDirectoryEntries_eq_ok.mpr ⟨runs, taken, rfl⟩) with
    ⟨listing, bytes, dirents⟩
  have delivered := named listing
  rw [dirents] at delivered
  rcases takenRuns_eq (by rwa [taken]) (bytes.trans taken.symm) delivered with ⟨fits, equal⟩
  refine ⟨listing, fits, equal, ?_⟩
  rw [dirents, equal, (takenRuns_of_listing listing fits).2]

theorem OnlyListings.full {flatten : List DirRun → List SqfsDirent}
    (only : OnlyListings flatten data)
    (named : ∀ listing, ∀ run ∈ listing, ∀ entry ∈ run.entries, ∃ dirent ∈ flatten listing,
      dirent.name = entry.name)
    (sized : data.length < 2 ^ 32) : TakenFull data := by
  intro runs taken run member
  rcases only.exists_listing named sized taken with ⟨listing, fits, rfl, -⟩
  rcases List.mem_pmap.mp member with ⟨disk, _, rfl⟩
  exact disk.taken_full _

theorem OnlyListings.nonneg (only : OnlyListings listedDirents data)
    (sized : data.length < 2 ^ 32) : TakenNonneg data := by
  intro runs taken run member entry entryMember
  rcases only.exists_listing listedDirents_named sized taken with ⟨listing, fits, rfl, same⟩
  rcases List.mem_pmap.mp member with ⟨disk, diskMember, rfl⟩
  rcases List.mem_pmap.mp entryMember with ⟨diskEntry, diskEntryMember, rfl⟩
  exact (parsedDirents_eq_iff listing).mp same disk diskMember diskEntry diskEntryMember

theorem TakenFull.only (full : TakenFull data) : OnlyListings parsedDirents data := by
  intro dirents parsed
  rcases parseDirectoryEntries_eq_ok.mp parsed with ⟨runs, rfl, rfl⟩
  exact ⟨_, listing_of_takenRuns runs (full runs rfl)⟩

private theorem TakenFull.only_listed (full : TakenFull data) (nonneg : TakenNonneg data) :
    OnlyListings listedDirents data := by
  intro dirents parsed
  rcases parseDirectoryEntries_eq_ok.mp parsed with ⟨runs, rfl, rfl⟩
  rcases listing_of_takenRuns runs (full runs rfl) with ⟨bytes, parsedSame⟩
  refine ⟨_, bytes, ?_⟩
  rw [← parsedSame]
  symm
  apply (parsedDirents_eq_iff _).mpr
  intro run member entry entryMember
  rcases List.mem_pmap.mp member with ⟨taken, takenMember, rfl⟩
  rcases List.mem_pmap.mp entryMember with ⟨takenEntry, takenEntryMember, rfl⟩
  exact nonneg runs rfl taken takenMember takenEntry takenEntryMember

end Exact

/-- What the parser accepts are listings exactly when no count and no length of a name
overflows; their inode numbers are right exactly when none comes out negative besides. -/
theorem parseDirectoryEntries_listings_iff (data : List UInt8) (sized : data.length < 2 ^ 32) :
    (OnlyListings parsedDirents data ↔ TakenFull data) ∧
      (OnlyListings listedDirents data ↔ TakenFull data ∧ TakenNonneg data) := by
  constructor
  · exact ⟨fun only => only.full parsedDirents_named sized, TakenFull.only⟩
  · constructor
    · intro only
      exact ⟨only.full listedDirents_named sized, only.nonneg sized⟩
    · intro right
      exact right.1.only_listed right.2

theorem parseDirectoryEntries_listings_mixed :
    (OnlyListings parsedDirents (encodeListing mixedListing) ↔
        TakenFull (encodeListing mixedListing)) ∧
      (OnlyListings listedDirents (encodeListing mixedListing) ↔
        TakenFull (encodeListing mixedListing) ∧ TakenNonneg (encodeListing mixedListing)) :=
  parseDirectoryEntries_listings_iff (encodeListing mixedListing) (by decide)

/-- The bytes of a header, and of an entry for a directory without the name. -/
def bareHeader (count : Nat) : List UInt8 := leBytes 4 count ++ leBytes 4 0 ++ leBytes 4 0

def bareEntry (nameSize : Nat) : List UInt8 :=
  leBytes 2 0 ++ leBytes 2 0 ++ leBytes 2 1 ++ leBytes 2 nameSize

/-- A header with the greatest count is accepted without an entry, and an entry with the
greatest length of a name without a name. -/
theorem parseDirectoryEntries_accepts_bare_records :
    parseDirectoryEntries (bareHeader 0xFFFFFFFF) = .ok [] ∧
      ¬ OnlyListings parsedDirents (bareHeader 0xFFFFFFFF) ∧
      ¬ OnlyListings listedDirents (bareHeader 0xFFFFFFFF) ∧
      parseDirectoryEntries (bareHeader 0 ++ bareEntry 0xFFFF) = .ok [⟨[], 0, 0, .dir⟩] := by
  have accepted : parseDirectoryEntries (bareHeader 0xFFFFFFFF) = .ok [] := by decide +kernel
  have differs {flatten : List DirRun → List SqfsDirent}
      (named : ∀ listing, ∀ run ∈ listing, ∀ entry ∈ run.entries, ∃ dirent ∈ flatten listing,
        dirent.name = entry.name) : ¬ OnlyListings flatten (bareHeader 0xFFFFFFFF) := by
    intro only
    rcases only [] accepted with ⟨listing, bytes, dirents⟩
    cases listing with
    | nil => cases bytes
    | cons run listing =>
        rcases List.exists_mem_of_length_pos run.nonempty with ⟨entry, member⟩
        rcases named (run :: listing) run List.mem_cons_self entry member with
          ⟨dirent, direntMember, -⟩
        rw [dirents] at direntMember
        cases direntMember
  exact ⟨accepted, differs parsedDirents_named, differs listedDirents_named, by decide +kernel⟩

end SquashfsFuse
