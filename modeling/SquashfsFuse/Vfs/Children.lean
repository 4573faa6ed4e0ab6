import SquashfsFuse.Directory.Acceptance
import SquashfsFuse.Vfs.PathWalk

/-! The entries of a directory and the attributes of its children. -/

namespace SquashfsFuse

/-! ## File types -/

def InodeType.basic : InodeType → InodeType
  | .dir | .ldir => .dir
  | .file | .lfile => .file
  | .symlink | .lsymlink => .symlink
  | .blkdev | .lblkdev => .blkdev
  | .chrdev | .lchrdev => .chrdev
  | .fifo | .lfifo => .fifo
  | .socket | .lsocket => .socket

/-- `S_IFMT`. -/
def fileTypeMask : Nat := 0o170000

private theorem fileTypeBits_basic (type : InodeType) : fileTypeBits type.basic = fileTypeBits type := by
  cases type <;> rfl

private theorem fileTypeBits_masked (type : InodeType) :
    fileTypeBits type &&& fileTypeMask = fileTypeBits type := by
  cases type <;> decide

/-- The permissions set no bit of another file type. -/
def SqfsInode.PlainPermissions (inode : SqfsInode) : Prop :=
  inode.permissions &&& fileTypeMask ||| fileTypeBits inode.type = fileTypeBits inode.type

private theorem sqfsVfsFillAttr_ino (ctx : SqfsCtx) (inode : SqfsInode) :
    (sqfsVfsFillAttr ctx inode).ino = inode.inodeNumber := by
  unfold sqfsVfsFillAttr
  split <;> rfl

private theorem sqfsVfsFillAttr_type (ctx : SqfsCtx) (inode : SqfsInode) :
    (sqfsVfsFillAttr ctx inode).mode &&& fileTypeMask =
      inode.permissions &&& fileTypeMask ||| fileTypeBits inode.type := by
  have mode : (sqfsVfsFillAttr ctx inode).mode =
      inode.permissions ||| fileTypeBits inode.type := by
    unfold sqfsVfsFillAttr
    split <;> rfl
  rw [mode, Nat.and_or_distrib_right, fileTypeBits_masked]

/-! ## The records of a directory -/

def directoryBytes (ctx : SqfsCtx) (inode : SqfsInode) : Sqfs (List UInt8) :=
  if inode.get .dirSize = 0 then
    pure []
  else
    readDirectoryData ctx.image ctx.comp ctx.sb.disk.dirTable (inode.get .dirBlockIdx)
      (inode.get .dirBlockOffset) (inode.get .dirSize)

theorem sqfsDirRead_eq (ctx : SqfsCtx) {inode : SqfsInode}
    (isDir : sqfsInodeIsDir inode.type = true) :
    sqfsDirRead ctx inode = directoryBytes ctx inode >>= parseDirectoryEntries := by
  rw [sqfsDirRead, directoryBytes, if_neg (by simp [isDir])]
  split <;> rfl

/-- The path leads to a directory that consists of the records. -/
def HasRecords (ctx : SqfsCtx) (path : List UInt8) (address : Nat) (runs : List TakenRun) :
    Prop :=
  ∃ inode, sqfsVfsResolvePath ctx path address = .ok inode ∧
    sqfsInodeIsDir inode.type = true ∧ directoryBytes ctx inode = .ok (encodeTaken runs)

namespace TakenEntry

variable (entry : TakenEntry) (run : TakenRun)

/-- The reference to the inode of the entry. -/
def inodeRef : Nat := run.start.toNat * 2 ^ 16 + entry.offset.toNat

def inodeNumber : Nat :=
  (((run.inodeNumber.toNat : Int) + entry.inodeOffset.toInt) % 2 ^ 32).toNat

/-- The sum is not negative when the number in the header is taken as signed. -/
def SumNonneg : Prop := 0 ≤ toInt run.inodeNumber.toNat + entry.inodeOffset.toInt

end TakenEntry

/-- The entries are consistent with the inodes they refer to, and their names are names. -/
structure Consistent (ctx : SqfsCtx) (address : Nat) (inodeAt : Nat → SqfsInode)
    (runs : List TakenRun) : Prop where
  loads : ∀ run ∈ runs, ∀ entry ∈ run.entries,
    sqfsInodeGetByRef ctx (entry.inodeRef run) address = .ok (inodeAt (entry.inodeRef run))
  numbered : ∀ run ∈ runs, ∀ entry ∈ run.entries,
    (inodeAt (entry.inodeRef run)).inodeNumber = entry.inodeNumber run
  typed : ∀ run ∈ runs, ∀ entry ∈ run.entries,
    (inodeAt (entry.inodeRef run)).type.basic = entry.type
  named : ∀ run ∈ runs, ∀ entry ∈ run.entries,
    entry.name ≠ [] ∧ slash ∉ entry.name ∧ 0 ∉ entry.name
  distinct : ((takenDirents runs).map SqfsDirent.name).Nodup

/-! ## Children -/

/-- Whatever the directory is reported to have is found under its name, with the same inode
number and the same file type. -/
def SameChildren (ctx : SqfsCtx) (path : List UInt8) (address : Nat) : Prop :=
  ∀ entries, sqfsVfsReaddir ctx path address = .ok entries → ∀ entry ∈ entries,
    ∃ attr, sqfsVfsGetattr ctx (path ++ slash :: entry.name) address = .ok attr ∧
      attr.ino = entry.ino ∧ attr.mode &&& fileTypeMask = entry.type

/-- `sqfs_vfs_dirent_t` of an entry. -/
def SqfsDirent.vfs (dirent : SqfsDirent) : SqfsVfsDirent where
  name := dirent.name
  ino := dirent.inodeNumber
  type := fileTypeBits dirent.type

section Children

variable {ctx : SqfsCtx} {path : List UInt8} {address : Nat} {inodeAt : Nat → SqfsInode}
  {runs : List TakenRun}

theorem sqfsVfsReaddir_eq_ok {entries : List SqfsVfsDirent} :
    sqfsVfsReaddir ctx path address = .ok entries ↔
      ∃ runs, HasRecords ctx path address runs ∧
        entries = (takenDirents runs).map SqfsDirent.vfs := by
  constructor
  · intro listed
    rcases Outcome.bind_eq_ok.mp listed with ⟨inode, resolved, listed⟩
    split at listed
    · rcases Outcome.bind_eq_ok.mp listed with ⟨-, -, refused⟩
      cases refused
    · next isDir =>
        have isDir : sqfsInodeIsDir inode.type = true := by simpa using isDir
        have freed := (SqfsInode.freeable_of_isDir isDir).free (ε := Errno)
        cases read : sqfsDirRead ctx inode with
        | fault => simp [read] at listed
        | err code => simp [read, freed] at listed
        | ok dirents =>
            simp only [read, freed, Outcome.ok_bind, Outcome.pure_eq, Outcome.ok.injEq] at listed
            rw [sqfsDirRead_eq ctx isDir] at read
            rcases Outcome.bind_eq_ok.mp read with ⟨data, bytes, parsed⟩
            rcases parseDirectoryEntries_eq_ok.mp parsed with ⟨runs, rfl, rfl⟩
            exact ⟨runs, ⟨inode, resolved, isDir, bytes⟩, listed.symm⟩
  · rintro ⟨runs, ⟨inode, resolved, isDir, bytes⟩, rfl⟩
    have parsed : parseDirectoryEntries (encodeTaken runs) = .ok (takenDirents runs) :=
      parseDirectoryEntries_eq_ok.mpr ⟨runs, rfl, rfl⟩
    rw [sqfsVfsReaddir, resolved, Outcome.ok_bind, if_neg (by simp [isDir]),
      sqfsDirRead_eq ctx isDir, bytes, Outcome.ok_bind, parsed]
    dsimp only
    rw [(SqfsInode.freeable_of_isDir isDir).free]
    rfl

private theorem find?_eq_of_nodup {α : Type u} {β : Type v} [BEq β] [LawfulBEq β] {key : α → β}
    {items : List α} (distinct : (items.map key).Nodup) {item : α} (member : item ∈ items) :
    items.find? (fun other => key other == key item) = some item := by
  induction items with
  | nil => cases member
  | cons first items induction =>
      rw [List.map_cons, List.nodup_cons] at distinct
      rcases List.mem_cons.mp member with rfl | member
      · rw [List.find?_cons_of_pos (by simp)]
      · have different : key first ≠ key item := by
          intro same
          apply distinct.1
          rw [same]
          exact List.mem_map_of_mem member
        rw [List.find?_cons_of_neg (by simpa using different)]
        exact induction distinct.2 member

theorem Consistent.getattr (consistent : Consistent ctx address inodeAt runs)
    (records : HasRecords ctx path address runs) {run : TakenRun} (runMember : run ∈ runs)
    {entry : TakenEntry} (member : entry ∈ run.entries) :
    sqfsVfsGetattr ctx (path ++ slash :: entry.name) address =
      sqfsInodeFree (inodeAt (entry.inodeRef run)) >>= fun _ =>
        .ok (sqfsVfsFillAttr ctx (inodeAt (entry.inodeRef run))) := by
  rcases records with ⟨inode, resolved, isDir, bytes⟩
  rcases consistent.named run runMember entry member with ⟨nonempty, whole, -⟩
  have started : path ≠ [] := by
    rintro rfl
    rw [sqfsVfsResolvePath] at resolved
    rcases Outcome.bind_eq_ok.mp resolved with ⟨root, -, impossible⟩
    cases impossible
  have parsed : parseDirectoryEntries (encodeTaken runs) = .ok (takenDirents runs) :=
    parseDirectoryEntries_eq_ok.mpr ⟨runs, rfl, rfl⟩
  have text : ∀ dirent ∈ takenDirents runs, dirent.cName = dirent.name := by
    intro dirent direntMember
    rcases List.mem_flatMap.mp direntMember with ⟨otherRun, otherRunMember, direntIn⟩
    rcases List.mem_map.mp direntIn with ⟨other, otherMember, rfl⟩
    change cString other.name = other.name
    exact cString_of_notMem (consistent.named otherRun otherRunMember other otherMember).2.2
  have listed : entry.dirent run.start.toNat run.inodeNumber.toNat ∈ takenDirents runs :=
    List.mem_flatMap.mpr ⟨run, runMember, List.mem_map.mpr ⟨entry, member, rfl⟩⟩
  have distinct : ((takenDirents runs).map SqfsDirent.cName).Nodup := by
    rw [List.map_congr_left text]
    exact consistent.distinct
  have found : ((takenDirents runs).find? fun dirent => dirent.cName == entry.name) =
      some (entry.dirent run.start.toNat run.inodeNumber.toNat) := by
    have first := find?_eq_of_nodup distinct listed
    rw [text _ listed] at first
    exact first
  have component : resolveComponent ctx address inode entry.name =
      .ok (inodeAt (entry.inodeRef run)) := by
    have read : sqfsDirRead ctx inode = .ok (takenDirents runs) := by
      rw [sqfsDirRead_eq ctx isDir, bytes, Outcome.ok_bind, parsed]
    rw [resolveComponent_listed isDir read, findMatchingEntry, found]
    dsimp only
    rw [show (entry.dirent run.start.toNat run.inodeNumber.toNat).inodeRef =
      entry.inodeRef run from rfl, consistent.loads run runMember entry member]
  rw [sqfsVfsGetattr, sqfsVfsResolvePath_appended ctx address started nonempty whole, resolved,
    Outcome.ok_bind, component]
  rfl

/-- What an entry says of the inode it refers to is right exactly when the sum is not negative
and the permissions are plain. -/
theorem Consistent.agrees_iff (consistent : Consistent ctx address inodeAt runs)
    {run : TakenRun} (runMember : run ∈ runs) {entry : TakenEntry}
    (member : entry ∈ run.entries) :
    ((sqfsVfsFillAttr ctx (inodeAt (entry.inodeRef run))).ino =
          (entry.dirent run.start.toNat run.inodeNumber.toNat).vfs.ino ∧
        (sqfsVfsFillAttr ctx (inodeAt (entry.inodeRef run))).mode &&& fileTypeMask =
          (entry.dirent run.start.toNat run.inodeNumber.toNat).vfs.type) ↔
      entry.SumNonneg run ∧ (inodeAt (entry.inodeRef run)).PlainPermissions := by
  have number := signedSum_eq_iff run.inodeNumber entry.inodeOffset
  have type : (entry.dirent run.start.toNat run.inodeNumber.toNat).vfs.type =
      fileTypeBits (inodeAt (entry.inodeRef run)).type := by
    rw [← fileTypeBits_basic, consistent.typed run runMember entry member]
    rfl
  rw [sqfsVfsFillAttr_ino, sqfsVfsFillAttr_type, consistent.numbered run runMember entry member,
    type]
  exact and_congr (eq_comm.trans number) Iff.rfl

/-- A directory and its children agree exactly when no inode number comes out negative, no
permissions set bits of another file type, and no child is a symbolic link whose pointer was
overwritten. -/
theorem sqfsVfsReaddir_getattr_iff (ctx : SqfsCtx) (path : List UInt8) (address : Nat)
    (inodeAt : Nat → SqfsInode)
    (consistent : ∀ runs, HasRecords ctx path address runs →
      Consistent ctx address inodeAt runs) :
    SameChildren ctx path address ↔
      ∀ runs, HasRecords ctx path address runs → ∀ run ∈ runs, ∀ entry ∈ run.entries,
        (inodeAt (entry.inodeRef run)).Freeable ∧
          entry.SumNonneg run ∧ (inodeAt (entry.inodeRef run)).PlainPermissions := by
  constructor
  · intro same runs records run runMember entry member
    have agree := consistent runs records
    have listed := sqfsVfsReaddir_eq_ok.mpr ⟨runs, records, rfl⟩
    have child : (entry.dirent run.start.toNat run.inodeNumber.toNat).vfs ∈
        (takenDirents runs).map SqfsDirent.vfs :=
      List.mem_map_of_mem
        (List.mem_flatMap.mpr ⟨run, runMember, List.mem_map.mpr ⟨entry, member, rfl⟩⟩)
    rcases same _ listed _ child with ⟨attr, found, ino, type⟩
    change sqfsVfsGetattr ctx (path ++ slash :: entry.name) address = .ok attr at found
    rw [agree.getattr records runMember member] at found
    rcases @sqfsInodeFree_cases Errno (inodeAt (entry.inodeRef run)) with
      ⟨freeable, freed⟩ | ⟨-, crashed⟩
    · rw [freed] at found
      cases found
      exact ⟨freeable, (agree.agrees_iff runMember member).mp ⟨ino, type⟩⟩
    · rw [crashed] at found
      cases found
  · intro right entries listed child childMember
    rcases sqfsVfsReaddir_eq_ok.mp listed with ⟨runs, records, rfl⟩
    rcases List.mem_map.mp childMember with ⟨dirent, direntMember, rfl⟩
    rcases List.mem_flatMap.mp direntMember with ⟨run, runMember, direntMember⟩
    rcases List.mem_map.mp direntMember with ⟨entry, member, rfl⟩
    have agree := consistent runs records
    rcases right runs records run runMember entry member with ⟨freeable, plain⟩
    refine ⟨_, ?_, (agree.agrees_iff runMember member).mpr plain⟩
    change sqfsVfsGetattr ctx (path ++ slash :: entry.name) address = _
    rw [agree.getattr records runMember member, freeable.free]
    rfl

end Children

/-! ## A tree with one pipe of a given number -/

/-- The entry `a` for the pipe at offset 32 of the first inode block. -/
def pipeEntry : TakenEntry := ⟨32, 0, .fifo, [0x61], fifo_basic, letter_short⟩

def numberedRun (number : UInt32) : TakenRun where
  start := 0
  inodeNumber := number
  entries := [pipeEntry]
  counted := by simp

theorem forall_mem_numberedRun {number : UInt32} {property : TakenRun → TakenEntry → Prop}
    (holds : property (numberedRun number) pipeEntry) :
    ∀ run ∈ [numberedRun number], ∀ entry ∈ run.entries, property run entry := by
  intro run runMember entry member
  cases List.mem_singleton.mp runMember
  cases List.mem_singleton.mp member
  exact holds

/-- A root directory, a pipe and the listing of the directory in one stored block. -/
def numberedTreeBytes (number : UInt32) : List UInt8 :=
  [0x49, 0x80] ++ encodeInode ⟨0o755, 0, 0, 0, 1⟩ (.dir 0 2 24 52 2 : DiskBody 4096) ++
    encodeInode ⟨0o644, 0, 0, 0, number⟩ (.fifo 1 : DiskBody 4096) ++
    encodeTaken [numberedRun number]

private theorem numberedTreeBytes_sizeInOffT (number : UInt32) :
    (numberedTreeBytes number).length < 2 ^ 63 := by
  simp [numberedTreeBytes, encodeInode, DiskBody.encode, encodeTaken, TakenRun.encode,
    TakenEntry.encode, numberedRun, pipeEntry]

def numberedTreeCtx (number : UInt32) : SqfsCtx :=
  .onBytes (numberedTreeBytes number) (numberedTreeBytes_sizeInOffT number)

def numberedInodeAt (number : UInt32) (ref : Nat) : SqfsInode :=
  (sqfsInodeGetByRef (numberedTreeCtx number) ref 0).toOption.getD .calloc

theorem HasRecords.unique {ctx : SqfsCtx} {path : List UInt8} {address : Nat}
    {runs others : List TakenRun} (records : HasRecords ctx path address runs)
    (alternative : HasRecords ctx path address others) : runs = others := by
  rcases records with ⟨inode, resolved, -, bytes⟩
  rcases alternative with ⟨other, otherResolved, -, otherBytes⟩
  rw [resolved] at otherResolved
  cases otherResolved
  rw [bytes] at otherBytes
  exact encodeTaken_injective (Outcome.ok.inj otherBytes)

private theorem numberedTree_consistent {number : UInt32}
    (records : HasRecords (numberedTreeCtx number) [slash] 0 [numberedRun number])
    (loads : (sqfsInodeGetByRef (numberedTreeCtx number)
      (pipeEntry.inodeRef (numberedRun number)) 0).toOption.isSome = true)
    (numbered : (numberedInodeAt number (pipeEntry.inodeRef (numberedRun number))).inodeNumber =
      pipeEntry.inodeNumber (numberedRun number))
    (typed : (numberedInodeAt number (pipeEntry.inodeRef (numberedRun number))).type.basic =
      .fifo) (runs : List TakenRun)
    (others : HasRecords (numberedTreeCtx number) [slash] 0 runs) :
    Consistent (numberedTreeCtx number) 0 (numberedInodeAt number) runs := by
  obtain rfl := others.unique records
  exact {
    loads := forall_mem_numberedRun (Outcome.eq_ok_getD loads)
    numbered := forall_mem_numberedRun numbered
    typed := forall_mem_numberedRun typed
    named := forall_mem_numberedRun (by decide)
    distinct := by simp [takenDirents, TakenRun.dirents, numberedRun] }

private theorem numberedTree_records_two :
    HasRecords (numberedTreeCtx 2) [slash] 0 [numberedRun 2] :=
  ⟨(sqfsVfsResolvePath (numberedTreeCtx 2) [slash] 0).toOption.getD .calloc,
    Outcome.eq_ok_getD (by decide +kernel), by decide +kernel, by decide +kernel⟩

private theorem numberedTree_records_high :
    HasRecords (numberedTreeCtx 0x80000000) [slash] 0 [numberedRun 0x80000000] :=
  ⟨(sqfsVfsResolvePath (numberedTreeCtx 0x80000000) [slash] 0).toOption.getD .calloc,
    Outcome.eq_ok_getD (by decide +kernel), by decide +kernel, by decide +kernel⟩

theorem sqfsVfsReaddir_getattr_two : SameChildren (numberedTreeCtx 2) [slash] 0 := by
  apply (sqfsVfsReaddir_getattr_iff (numberedTreeCtx 2) [slash] 0 (numberedInodeAt 2)
    (numberedTree_consistent numberedTree_records_two (by decide +kernel) (by decide +kernel)
      (by decide +kernel))).mpr
  intro runs records
  obtain rfl := records.unique numberedTree_records_two
  apply forall_mem_numberedRun
  refine ⟨by decide +kernel, ?_, ?_⟩
  · unfold TakenEntry.SumNonneg
    decide
  · unfold SqfsInode.PlainPermissions
    decide +kernel

/-- An inode number from `2 ^ 31` on is listed as another number. -/
theorem sqfsVfsReaddir_extends_sign :
    ¬ ∀ (ctx : SqfsCtx) (path : List UInt8) (address : Nat) (inodeAt : Nat → SqfsInode),
      (∀ runs, HasRecords ctx path address runs → Consistent ctx address inodeAt runs) →
      SameChildren ctx path address := by
  intro claim
  have listed := sqfsVfsReaddir_eq_ok.mpr ⟨_, numberedTree_records_high, rfl⟩
  have same := claim (numberedTreeCtx 0x80000000) [slash] 0 (numberedInodeAt 0x80000000)
    (numberedTree_consistent numberedTree_records_high (by decide +kernel) (by decide +kernel)
      (by decide +kernel)) _ listed ⟨[0x61], 0xFFFFFFFF80000000, 0o010000⟩ (by decide)
  rcases same with ⟨attr, found, ino, -⟩
  have number : (sqfsVfsGetattr (numberedTreeCtx 0x80000000) [slash, slash, 0x61] 0).toOption.map
      SqfsVfsAttr.ino = some 0x80000000 := by
    decide +kernel
  change sqfsVfsGetattr (numberedTreeCtx 0x80000000) [slash, slash, 0x61] 0 = .ok attr at found
  rw [found, Outcome.toOption_ok, Option.map_some, ino] at number
  cases number

end SquashfsFuse
