import SquashfsFuse.Core.Directory
import SquashfsFuse.Foundation.Chunks
import SquashfsFuse.Inode.Layout

/-! The on-disk layout of directory listings (`directory.h`), and what parsing
makes of it. -/

namespace SquashfsFuse

/-! ## Listings -/

/-- `sqfs_dir_entry_t` with the name behind it. -/
structure DiskDirEntry where
  offset : UInt16
  inodeOffset : Int16
  type : InodeType
  name : List UInt8
  basic : type.code ≤ 7
  named : 0 < name.length
  short : name.length ≤ 2 ^ 16

/-- `sqfs_dir_header_t` with the entries behind it. -/
structure DirRun where
  start : UInt32
  inodeNumber : UInt32
  entries : List DiskDirEntry
  nonempty : 0 < entries.length
  counted : entries.length ≤ 2 ^ 32

namespace DiskDirEntry

def encode (entry : DiskDirEntry) : List UInt8 :=
  leBytes 2 entry.offset.toNat ++ leBytes 2 entry.inodeOffset.toUInt16.toNat ++
    leBytes 2 entry.type.code ++ leBytes 2 (entry.name.length - 1) ++ entry.name

/-- The number of the inode: the 32-bit sum of the number in the header and the
difference. -/
def inodeNumber (entry : DiskDirEntry) (base : UInt32) : Nat :=
  (((base.toNat : Int) + entry.inodeOffset.toInt) % 2 ^ 32).toNat

/-- The entry as the format defines it. -/
def dirent (entry : DiskDirEntry) (run : DirRun) : SqfsDirent where
  name := entry.name
  inodeNumber := entry.inodeNumber run.inodeNumber
  inodeRef := run.start.toNat * 2 ^ 16 + entry.offset.toNat
  type := entry.type

/-- The sum is not negative when the number in the header is taken as signed. -/
def SumNonneg (entry : DiskDirEntry) (base : UInt32) : Prop :=
  0 ≤ toInt base.toNat + entry.inodeOffset.toInt

end DiskDirEntry

namespace DirRun

def encode (run : DirRun) : List UInt8 :=
  leBytes 4 (run.entries.length - 1) ++ leBytes 4 run.start.toNat ++
    leBytes 4 run.inodeNumber.toNat ++ run.entries.flatMap DiskDirEntry.encode

def dirents (run : DirRun) : List SqfsDirent :=
  run.entries.map (·.dirent run)

end DirRun

/-- The bytes of a listing. -/
def encodeListing (listing : List DirRun) : List UInt8 := listing.flatMap DirRun.encode

/-- The entries of a listing in order. -/
def listedDirents (listing : List DirRun) : List SqfsDirent := listing.flatMap DirRun.dirents

/-! ## Lengths -/

def SqfsDirent.diskSize (dirent : SqfsDirent) : Nat := 8 + dirent.name.length

private theorem parseDirectoryEntry_length {header : SqfsDirHeader} {rest after : List UInt8}
    {dirent : SqfsDirent} (parsed : parseDirectoryEntry header rest = .ok (dirent, after)) :
    rest.length = dirent.diskSize + after.length := by
  unfold parseDirectoryEntry at parsed
  split at parsed
  · cases parsed
  · rcases Outcome.bind_eq_ok.mp parsed with ⟨offset, -, parsed⟩
    rcases Outcome.bind_eq_ok.mp parsed with ⟨inodeOffset, -, parsed⟩
    rcases Outcome.bind_eq_ok.mp parsed with ⟨typeCode, -, parsed⟩
    rcases Outcome.bind_eq_ok.mp parsed with ⟨nameSize, -, parsed⟩
    dsimp only at parsed
    split at parsed
    · cases parsed
    · split at parsed
      · cases parsed
      · rcases Outcome.bind_eq_ok.mp parsed with ⟨name, sliced, parsed⟩
        cases parsed
        have length := slice_length (Outcome.ofOption_eq_ok.mp sliced)
        simp only [SqfsDirent.diskSize, List.length_drop]
        omega

private theorem parseDirectoryRun_length {header : SqfsDirHeader} {entryCount : Nat}
    {rest after : List UInt8} {dirents : List SqfsDirent}
    (parsed : parseDirectoryRun header entryCount rest = .ok (dirents, after)) :
    rest.length = (dirents.map SqfsDirent.diskSize).sum + after.length := by
  induction entryCount generalizing rest dirents with
  | zero =>
      cases parsed
      simp
  | succ entryCount induction =>
      rcases Outcome.bind_eq_ok.mp parsed with ⟨⟨dirent, behind⟩, first, parsed⟩
      rcases Outcome.bind_eq_ok.mp parsed with ⟨⟨others, last⟩, following, parsed⟩
      cases parsed
      have front := parseDirectoryEntry_length first
      have back := induction following
      rw [List.map_cons, List.sum_cons]
      omega

theorem parseDirectoryHeader_length {rest after : List UInt8} {dirents : List SqfsDirent}
    (parsed : parseDirectoryHeader rest = .ok (dirents, after)) :
    rest.length = 12 + (dirents.map SqfsDirent.diskSize).sum + after.length := by
  unfold parseDirectoryHeader at parsed
  split at parsed
  · cases parsed
  · rcases Outcome.bind_eq_ok.mp parsed with ⟨count, -, parsed⟩
    rcases Outcome.bind_eq_ok.mp parsed with ⟨start, -, parsed⟩
    rcases Outcome.bind_eq_ok.mp parsed with ⟨inodeNumber, -, parsed⟩
    have length := parseDirectoryRun_length parsed
    rw [List.length_drop] at length
    omega

/-- What is accepted consists of entries and of headers of twelve bytes each. -/
theorem parseDirectoryLoop_length {fuel : Nat} {data : List UInt8} {dirents : List SqfsDirent}
    (parsed : parseDirectoryLoop fuel data = .ok dirents) :
    ∃ headers, data.length = 12 * headers + (dirents.map SqfsDirent.diskSize).sum := by
  induction fuel generalizing data dirents with
  | zero =>
      cases data with
      | nil =>
          cases parsed
          exact ⟨0, rfl⟩
      | cons byte rest => cases parsed
  | succ fuel induction =>
      cases data with
      | nil =>
          cases parsed
          exact ⟨0, rfl⟩
      | cons byte rest =>
          rcases Outcome.bind_eq_ok.mp parsed with ⟨⟨first, behind⟩, run, parsed⟩
          rcases Outcome.bind_eq_ok.mp parsed with ⟨others, following, parsed⟩
          cases parsed
          rcases induction following with ⟨headers, back⟩
          have front := parseDirectoryHeader_length run
          refine ⟨headers + 1, ?_⟩
          rw [List.map_append, List.sum_append]
          omega

/-! ## Parsing a listing -/

/-- The entry as the parser delivers it. -/
def DiskDirEntry.parsed (entry : DiskDirEntry) (run : DirRun) : SqfsDirent :=
  { entry.dirent run with
    inodeNumber := ofInt64 (toInt run.inodeNumber.toNat + entry.inodeOffset.toInt) }

def parsedDirents (listing : List DirRun) : List SqfsDirent :=
  listing.flatMap fun run => run.entries.map (·.parsed run)

def ListingFits (listing : List DirRun) : Prop :=
  ∀ run ∈ listing, run.entries.length < 2 ^ 32 ∧
    ∀ entry ∈ run.entries, entry.name.length < 2 ^ 16

theorem toInt16_toUInt16 (value : Int16) :
    toInt16 value.toUInt16.toNat = value.toInt := by
  have inRange := value.toUInt16.toNat_lt
  have bits : value.toInt = if 2 * value.toUInt16.toNat < 2 ^ 16 then
      (value.toUInt16.toNat : Int) else value.toUInt16.toNat - 2 ^ 16 :=
    value.toBitVec.toInt_eq_toNat_cond
  rw [bits, toInt16, u16_of_lt inRange]
  split <;> split <;> omega

theorem InodeType.ofBasicCode_code {type : InodeType} (basic : type.code ≤ 7) :
    InodeType.ofBasicCode type.code = some type := by
  have known := InodeType.ofCode_code type
  rw [InodeType.ofBasicCode, if_neg, known]
  cases type <;> simp_all [InodeType.code]

theorem DiskDirEntry.encode_length (entry : DiskDirEntry) :
    entry.encode.length = 8 + entry.name.length := by
  simp [DiskDirEntry.encode]
  omega

theorem DirRun.encode_length (run : DirRun) :
    run.encode.length = 12 + (run.entries.flatMap DiskDirEntry.encode).length := by
  simp [DirRun.encode]
  omega

/-! ## Inode numbers -/

/-- The sum that the parser computes is the 32-bit sum exactly when it is not negative. -/
theorem signedSum_eq_iff (base : UInt32) (difference : Int16) :
    ofInt64 (toInt base.toNat + difference.toInt) =
        (((base.toNat : Int) + difference.toInt) % 2 ^ 32).toNat ↔
      0 ≤ toInt base.toNat + difference.toInt := by
  have inRange := base.toNat_lt
  have lower := difference.le_toInt
  have upper := difference.toInt_lt
  rw [ofInt64, toInt, u32_of_lt inRange]
  split <;> omega

private theorem DiskDirEntry.parsed_eq_iff (entry : DiskDirEntry) (run : DirRun) :
    entry.parsed run = entry.dirent run ↔ entry.SumNonneg run.inodeNumber := by
  have numbers : ofInt64 (toInt run.inodeNumber.toNat + entry.inodeOffset.toInt) =
      entry.inodeNumber run.inodeNumber ↔ entry.SumNonneg run.inodeNumber :=
    signedSum_eq_iff run.inodeNumber entry.inodeOffset
  rw [← numbers]
  constructor
  · intro same
    exact congrArg SqfsDirent.inodeNumber same
  · intro same
    rw [DiskDirEntry.parsed, same]
    rfl

theorem parsedDirents_eq_iff (listing : List DirRun) :
    parsedDirents listing = listedDirents listing ↔
      ∀ run ∈ listing, ∀ entry ∈ run.entries, entry.SumNonneg run.inodeNumber := by
  induction listing with
  | nil => simp [parsedDirents, listedDirents]
  | cons run listing induction =>
      have lengths : (run.entries.map (·.parsed run)).length = run.dirents.length := by
        rw [DirRun.dirents, List.length_map, List.length_map]
      have here : run.entries.map (·.parsed run) = run.dirents ↔
          ∀ entry ∈ run.entries, entry.SumNonneg run.inodeNumber := by
        rw [DirRun.dirents, List.map_inj_left]
        simp only [DiskDirEntry.parsed_eq_iff]
      rw [List.forall_mem_cons, ← here, ← induction, parsedDirents, listedDirents,
        List.flatMap_cons, List.flatMap_cons]
      exact ⟨fun same => List.append_inj same lengths,
        fun same => congrArg₂ (· ++ ·) same.1 same.2⟩

theorem encodeListing_length (listing : List DirRun) :
    (encodeListing listing).length =
      12 * listing.length + ((listedDirents listing).map SqfsDirent.diskSize).sum := by
  have entries (run : DirRun) (entries : List DiskDirEntry) :
      (entries.flatMap DiskDirEntry.encode).length =
        ((entries.map (·.dirent run)).map SqfsDirent.diskSize).sum := by
    induction entries with
    | nil => rfl
    | cons entry entries induction =>
        rw [List.flatMap_cons, List.length_append, entry.encode_length, induction]
        rfl
  induction listing with
  | nil => rfl
  | cons run listing induction =>
      have split : encodeListing (run :: listing) = run.encode ++ encodeListing listing :=
        List.flatMap_cons
      have dirents : listedDirents (run :: listing) = run.dirents ++ listedDirents listing :=
        List.flatMap_cons
      rw [split, dirents, List.length_append, run.encode_length, entries run, induction,
        List.map_append, List.sum_append, List.length_cons, DirRun.dirents]
      omega

theorem listingFits_of_length {listing : List DirRun}
    (small : (encodeListing listing).length < 2 ^ 16) : ListingFits listing := by
  intro run runMember
  have runLength : run.encode.length ≤ (encodeListing listing).length :=
    length_le_length_flatMap_of_mem runMember
  have entriesLength := run.encode_length
  have count : run.entries.length ≤ (run.entries.flatMap DiskDirEntry.encode).length :=
    length_le_length_flatMap fun entry _ => by rw [entry.encode_length]; omega
  refine ⟨by omega, ?_⟩
  intro entry member
  have entryLength := entry.encode_length
  have bound : entry.encode.length ≤ (run.entries.flatMap DiskDirEntry.encode).length :=
    length_le_length_flatMap_of_mem member
  omega

end SquashfsFuse
