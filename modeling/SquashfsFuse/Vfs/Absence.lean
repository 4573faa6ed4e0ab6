import SquashfsFuse.Directory.Listing
import SquashfsFuse.Vfs.PathWalk

/-! When a path is reported not to exist. -/

namespace SquashfsFuse

/-! ## Codes of the readers -/

section Codes

variable {bytes : List UInt8} {offset : Nat}

@[simp] theorem sqfsLe16ToCpu_avoids (code : SqfsError) :
    (sqfsLe16ToCpu bytes offset).Avoids code :=
  Outcome.avoids_ofOption _

@[simp] theorem sqfsLe32ToCpu_avoids (code : SqfsError) :
    (sqfsLe32ToCpu bytes offset).Avoids code :=
  Outcome.avoids_ofOption _

@[simp] theorem sqfsLe64ToCpu_avoids (code : SqfsError) :
    (sqfsLe64ToCpu bytes offset).Avoids code :=
  Outcome.avoids_ofOption _

variable {image : Image} {comp : Compressor} {count pos : Nat}

@[simp] theorem sqfsPreadAll_avoids : (sqfsPreadAll image count pos).Avoids .notFound := by
  rcases sqfsPreadAll_cases image count pos with ⟨part, read⟩ | read | read <;> simp [read]

@[simp] theorem sqfsPreadInto_avoids (room : Nat) :
    (sqfsPreadInto image room count pos).Avoids .notFound := by
  unfold sqfsPreadInto
  split <;> simp

@[simp] theorem sqfsCompressorDecompress_avoids (placement : Placement) :
    (sqfsCompressorDecompress comp placement bytes count).Avoids .notFound := by
  unfold sqfsCompressorDecompress
  split <;> simp

@[simp] theorem readMetaHeader_avoids : (readMetaHeader image pos).Avoids .notFound := by
  simp [readMetaHeader]

@[simp] theorem sqfsMetaReadBlock_avoids :
    (sqfsMetaReadBlock image comp pos).Avoids .notFound := by
  rw [sqfsMetaReadBlock, Outcome.avoids_bind]
  refine ⟨Outcome.avoids_mapErr (by simp), ?_⟩
  intro header _
  split
  · simp
  · rw [Outcome.avoids_bind]
    refine ⟨Outcome.avoids_mapErr (by simp), ?_⟩
    intro stored _
    split <;> simp

@[simp] theorem decompressMetaBlock_avoids (header : MetaHeader) :
    (decompressMetaBlock image comp pos header).Avoids .notFound := by
  unfold decompressMetaBlock
  split <;> simp

@[simp] theorem readMetaBlock_avoids : (readMetaBlock image comp pos).Avoids .notFound := by
  simp [readMetaBlock]

/-! ### Inodes -/

@[simp] theorem readInodeMetadata_avoids (ctx : SqfsCtx) (ref size : Nat) :
    (readInodeMetadata ctx ref size).Avoids .notFound := by
  rw [readInodeMetadata]
  simp only [Outcome.avoids_bind, sqfsMetaReadBlock_avoids, true_and]
  intro block _
  split <;> simp

@[simp] theorem parseInodeHeader_avoids (data : List UInt8) :
    (parseInodeHeader data).Avoids .notFound := by
  simp [parseInodeHeader]

@[simp] theorem inodeSizeByRef_avoids (ctx : SqfsCtx) (ref : Nat) (type : InodeType) :
    (inodeSizeByRef ctx ref type).Avoids .notFound := by
  cases type <;> simp [inodeSizeByRef]

@[simp] theorem readBlockSizes_avoids (data : List UInt8) (start count : Nat) :
    (readBlockSizes data start count).Avoids .notFound :=
  Outcome.avoids_mapM fun _ => sqfsLe32ToCpu_avoids _

@[simp] theorem copyTarget_avoids (data : List UInt8) (address size : Nat) :
    (copyTarget data address size).Avoids .notFound := by
  unfold copyTarget
  split <;> simp

private theorem parseInodeOfType_avoids (type : InodeType) (data : List UInt8)
    (blockSize address : Nat) (inode : SqfsInode) :
    (parseInodeOfType type data blockSize address inode).Avoids .notFound := by
  cases type <;>
    simp [parseInodeOfType, parseInodeDir, parseInodeLdir, parseInodeFile, parseInodeLfile,
      parseInodeSymlink, parseInodeLsymlink, parseInodeDev, parseInodeIpc] <;>
    split <;> simp

private theorem parseInode_avoids (data : List UInt8) (blockSize address : Nat) (inode : SqfsInode) :
    (parseInode data blockSize address inode).Avoids .notFound := by
  unfold parseInode
  split
  · simp
  · simp only [Outcome.avoids_bind, parseInodeHeader_avoids, true_and]
    intro header _
    split
    · simp
    · simp only [Outcome.avoids_bind, parseInodeOfType_avoids, true_and]
      intro result _
      split <;> simp

theorem sqfsInodeGetByRef_avoids (ctx : SqfsCtx) (ref address : Nat) :
    (sqfsInodeGetByRef ctx ref address).Avoids .notFound := by
  unfold sqfsInodeGetByRef
  simp only [Outcome.avoids_bind, readInodeMetadata_avoids, parseInodeHeader_avoids, true_and]
  intro rawHeader _ header _
  split
  · simp
  · simp [parseInode_avoids]

/-! ### Directories -/

private theorem readDirectoryDataPass_avoids (size : Nat) {state : DirectoryDataState}
    {result : Sqfs (List UInt8)}
    (left : readDirectoryDataPass image comp size state = .leave result) :
    result.Avoids .notFound := by
  have read := @readMetaBlock_avoids image comp state.blockPos
  unfold readDirectoryDataPass at left
  split at left
  · split at left
    · cases left
    · next code failed =>
        cases left
        rw [failed] at read
        exact (Outcome.avoids_err _).mpr ((Outcome.avoids_err _).mp read)
    · cases left
      exact Outcome.avoids_fault
  · cases left
    exact Outcome.avoids_ok _

private theorem readDirectoryData_avoids (tablePos blockIdx blockOffset size : Nat) :
    (readDirectoryData image comp tablePos blockIdx blockOffset size).Avoids .notFound := by
  have loop (state : DirectoryDataState) (result : Sqfs (List UInt8))
      (returned : Pass.Returns (readDirectoryDataPass image comp size) state result) :
      result.Avoids .notFound := by
    apply @Pass.Returns.invariant _ _ _ _ _ (fun _ => True)
      (fun result => result.Avoids .notFound) returned trivial
    · exact fun _ _ _ _ => trivial
    · exact fun _ _ _ left => readDirectoryDataPass_avoids size left
  unfold readDirectoryData
  simp only [Outcome.avoids_bind, readMetaBlock_avoids, true_and]
  intro first _
  split
  · simp
  · split
    · simp
    · split
      · next result run => exact loop _ _ ⟨_, run⟩
      · simp

@[simp] theorem parseDirectoryEntry_avoids (header : SqfsDirHeader) (rest : List UInt8) :
    (parseDirectoryEntry header rest).Avoids .notFound := by
  unfold parseDirectoryEntry
  split
  · simp
  · simp only [Outcome.avoids_bind, sqfsLe16ToCpu_avoids, true_and]
    intro offset _ inodeOffset _ typeCode _ nameSize _
    split
    · simp
    · split <;> simp

@[simp] theorem parseDirectoryRun_avoids (header : SqfsDirHeader) (entryCount : Nat)
    (rest : List UInt8) : (parseDirectoryRun header entryCount rest).Avoids .notFound := by
  induction entryCount generalizing rest with
  | zero => exact Outcome.avoids_ok _
  | succ entryCount induction => simp [parseDirectoryRun, induction]

@[simp] theorem parseDirectoryHeader_avoids (rest : List UInt8) :
    (parseDirectoryHeader rest).Avoids .notFound := by
  unfold parseDirectoryHeader
  split <;> simp

private theorem parseDirectoryLoop_avoids (fuel : Nat) (data : List UInt8) :
    (parseDirectoryLoop fuel data).Avoids .notFound := by
  induction fuel generalizing data with
  | zero => cases data <;> simp [parseDirectoryLoop]
  | succ fuel induction => cases data <;> simp [parseDirectoryLoop, induction]

private theorem sqfsDirRead_avoids (ctx : SqfsCtx) (inode : SqfsInode) :
    (sqfsDirRead ctx inode).Avoids .notFound := by
  unfold sqfsDirRead
  split
  · simp
  · split
    · simp
    · simp [readDirectoryData_avoids, parseDirectoryEntries, parseDirectoryLoop_avoids]

end Codes

/-! ## How a walk ends -/

/-- Where the walk along a path ends: at an inode, at a component that is looked up
in something else than a directory, at a component that a listing does not have, at
a root inode or a listing that cannot be read (with the error code, if there is
one), or at an entry whose inode cannot be read. -/
inductive WalkEnd
  | reached
  | notDirectory
  | absent
  | unreadable (code : Option SqfsError)
  | unreadableEntry
  deriving DecidableEq

def WalkEnd.Unreadable : WalkEnd → Prop
  | .unreadable _ | .unreadableEntry => True
  | _ => False

def walkFrom (ctx : SqfsCtx) (address : Nat) : SqfsInode → List (List UInt8) → WalkEnd
  | _, [] => .reached
  | inode, component :: components =>
      if sqfsInodeIsDir inode.type = false then
        .notDirectory
      else
        match sqfsDirRead ctx inode with
        | .err code => .unreadable (some code)
        | .fault => .unreadable none
        | .ok entries =>
            match entries.find? fun entry => entry.cName == component with
            | none => .absent
            | some entry =>
                match sqfsInodeGetByRef ctx entry.inodeRef address with
                | .ok inode => walkFrom ctx address inode components
                | _ => .unreadableEntry

/-- The end of the walk from the root along the components of a path. -/
def walkEnd (ctx : SqfsCtx) (path : List UInt8) (address : Nat) : WalkEnd :=
  match sqfsInodeGetByRef ctx ctx.sb.disk.rootInode address with
  | .ok root => walkFrom ctx address root (pathComponents path)
  | .err code => .unreadable (some code)
  | .fault => .unreadable none

/-- What resolution answers at the end of a walk. -/
def WalkEnd.Answers (answer : Vfs SqfsInode) : WalkEnd → Prop
  | .reached => ∃ inode, answer = .ok inode
  | .notDirectory => answer = .err .enotdir ∨ answer = .fault
  | .absent => answer = .err .enoent
  | .unreadable (some code) => code ≠ .notFound ∧ answer = .err (sqfsErrToErrno code)
  | .unreadable none => answer = .fault
  | .unreadableEntry => answer = .err .enoent ∨ answer = .fault

private theorem foldlM_resolveComponent_answers (ctx : SqfsCtx) (address : Nat)
    (components : List (List UInt8)) (inode : SqfsInode) :
    (walkFrom ctx address inode components).Answers
      (components.foldlM (resolveComponent ctx address) inode) := by
  induction components generalizing inode with
  | nil => exact ⟨inode, rfl⟩
  | cons component components induction =>
      rw [walkFrom, List.foldlM_cons]
      by_cases notDir : sqfsInodeIsDir inode.type = false
      · rw [if_pos notDir, resolveComponent_notDir notDir]
        rcases @sqfsInodeFree_cases Errno inode with ⟨-, freed⟩ | ⟨-, crashed⟩
        · rw [freed]
          exact .inl rfl
        · rw [crashed]
          exact .inr rfl
      · have isDir : sqfsInodeIsDir inode.type = true := by simpa using notDir
        rw [if_neg notDir]
        cases listed : sqfsDirRead ctx inode with
        | err code =>
            have avoided := sqfsDirRead_avoids ctx inode
            rw [listed] at avoided
            rw [resolveComponent_unlisted isDir listed]
            exact ⟨(Outcome.avoids_err _).mp avoided, rfl⟩
        | fault =>
            rw [resolveComponent, if_neg notDir, listed]
            rfl
        | ok entries =>
            rw [resolveComponent_listed isDir listed, findMatchingEntry]
            dsimp only
            cases present : entries.find? fun entry => entry.cName == component with
            | none => rfl
            | some entry =>
                dsimp only
                cases loaded : sqfsInodeGetByRef ctx entry.inodeRef address with
                | ok next => exact induction next
                | err code => exact .inl rfl
                | fault => exact .inr rfl

private theorem sqfsVfsResolvePath_answers (ctx : SqfsCtx) {path : List UInt8} (address : Nat)
    (absolute : Absolute path) :
    (walkEnd ctx path address).Answers (sqfsVfsResolvePath ctx path address) := by
  cases path with
  | nil => cases absolute
  | cons first rest =>
      obtain rfl : first = slash := Option.some.inj absolute
      unfold walkEnd
      rw [sqfsVfsResolvePath_foldlM, pathComponents, pathComponents, tokens_cons_delimiter]
      cases loaded : sqfsInodeGetByRef ctx ctx.sb.disk.rootInode address with
      | ok root => exact foldlM_resolveComponent_answers ctx address _ root
      | err code =>
          have avoided := sqfsInodeGetByRef_avoids ctx ctx.sb.disk.rootInode address
          rw [loaded] at avoided
          exact ⟨(Outcome.avoids_err _).mp avoided, rfl⟩
      | fault => rfl

/-! ## The calls on a path -/

/-- The calls that start with the resolution of a path. -/
inductive VfsCall
  | getattr
  | openFile (handle : Nat)
  | readdir
  | readlink (size : Nat)

/-- Whether the call succeeds, and the error it returns. -/
def VfsCall.run (call : VfsCall) (ctx : SqfsCtx) (path : List UInt8) (address : Nat) :
    Vfs Unit :=
  match call with
  | .getattr => do
      let _ ← sqfsVfsGetattr ctx path address
  | .openFile handle => do
      let _ ← sqfsVfsOpen ctx path address handle
  | .readdir => do
      let _ ← sqfsVfsReaddir ctx path address
  | .readlink size => do
      let _ ← sqfsVfsReadlink ctx path address size

private theorem VfsCall.run_avoids (call : VfsCall) {ctx : SqfsCtx} {path : List UInt8}
    {address : Nat} (resolved : (sqfsVfsResolvePath ctx path address).Avoids .enoent) :
    (call.run ctx path address).Avoids .enoent := by
  cases call with
  | getattr => simp [run, sqfsVfsGetattr, resolved]
  | openFile handle =>
      simp only [run, sqfsVfsOpen, Outcome.avoids_bind, Outcome.pure_eq, Outcome.avoids_ok,
        implies_true, and_true, resolved, true_and]
      intro inode _
      split
      · simp
      · split <;> simp
  | readdir =>
      simp only [run, sqfsVfsReaddir, Outcome.avoids_bind, Outcome.pure_eq, Outcome.avoids_ok,
        implies_true, and_true, resolved, true_and]
      intro inode _
      split
      · simp
      · have avoided := sqfsDirRead_avoids ctx inode
        cases read : sqfsDirRead ctx inode with
        | ok entries => simp
        | fault => simp
        | err code =>
            rw [read, Outcome.avoids_err] at avoided
            cases code <;> simp_all [sqfsErrToErrno]
  | readlink size =>
      rw [run, sqfsVfsReadlink]
      split
      · simp
      · simp only [Outcome.avoids_bind, Outcome.pure_eq, Outcome.avoids_ok, implies_true,
          and_true, resolved, true_and]
        intro inode _
        split <;> simp

/-! ## Absence and corruption -/

/-- Only what is absent is reported as absent. -/
structure ReportsCorruption (ctx : SqfsCtx) (path : List UInt8) (address : Nat) : Prop where
  absent : sqfsVfsResolvePath ctx path address = .err .enoent →
    walkEnd ctx path address = .absent
  different : (walkEnd ctx path address).Unreadable →
    sqfsVfsResolvePath ctx path address = .err .eio ∨
      sqfsVfsResolvePath ctx path address = .err .enomem
  calls : ∀ call : VfsCall, call.run ctx path address = .err .enoent →
    walkEnd ctx path address = .absent

private theorem sqfsErrToErrno_eq {code : SqfsError} (found : code ≠ .notFound) :
    sqfsErrToErrno code = .eio ∨ sqfsErrToErrno code = .enomem := by
  cases code <;> simp_all [sqfsErrToErrno]

/-- Apart from unreadable entries, only what is absent is reported as absent. -/
theorem WalkEnd.Answers.absent_of_enoent {ending : WalkEnd} {answer : Vfs SqfsInode}
    (answers : ending.Answers answer) (entries : ending ≠ .unreadableEntry)
    (reported : answer = .err .enoent) : ending = .absent := by
  rw [reported] at answers
  cases ending with
  | absent => rfl
  | reached =>
      rcases answers with ⟨inode, other⟩
      cases other
  | notDirectory =>
      rcases answers with refused | crashed
      · cases refused
      · cases crashed
  | unreadableEntry => exact absurd rfl entries
  | unreadable code =>
      cases code with
      | none => cases answers
      | some code =>
          have other := sqfsErrToErrno_eq answers.1
          rw [← Outcome.err.inj answers.2] at other
          simp at other

/-- Apart from unreadable entries and readers that fault, what is unreadable is reported
with another code. -/
theorem WalkEnd.Answers.unreadable_different {ending : WalkEnd} {answer : Vfs SqfsInode}
    (answers : ending.Answers answer) (entries : ending ≠ .unreadableEntry)
    (reader : ending ≠ .unreadable none) (unreadable : ending.Unreadable) :
    answer = .err .eio ∨ answer = .err .enomem := by
  cases ending with
  | unreadable code =>
      cases code with
      | none => exact absurd rfl reader
      | some code =>
          rw [answers.2]
          exact (sqfsErrToErrno_eq answers.1).imp (congrArg _) (congrArg _)
  | unreadableEntry => exact absurd rfl entries
  | reached | notDirectory | absent => cases unreadable

/-- Corruption is kept apart from absence exactly on the paths whose walk does not
end at an entry with an inode that cannot be read, nor in a reader that faults. -/
theorem sqfsVfsResolvePath_reports_iff (ctx : SqfsCtx) (path : List UInt8) (address : Nat)
    (absolute : Absolute path) :
    ReportsCorruption ctx path address ↔
      walkEnd ctx path address ≠ .unreadableEntry ∧
        walkEnd ctx path address ≠ .unreadable none := by
  have answers := sqfsVfsResolvePath_answers ctx address absolute
  constructor
  · intro reports
    constructor
    · intro ended
      have different := reports.different (ended ▸ trivial)
      rw [ended] at answers
      rcases answers with answer | answer <;> rw [answer] at different <;> simp at different
    · intro ended
      have different := reports.different (ended ▸ trivial)
      rw [ended] at answers
      rw [show sqfsVfsResolvePath ctx path address = .fault from answers] at different
      simp at different
  · rintro ⟨entries, reader⟩
    have absent := answers.absent_of_enoent entries
    refine ⟨absent, answers.unreadable_different entries reader, ?_⟩
    intro call returned
    apply absent
    by_contra present
    exact call.run_avoids present returned

theorem sqfsVfsResolvePath_reports_pipe :
    ReportsCorruption pipeTreeCtx [47, 0x61] 0 :=
  (sqfsVfsResolvePath_reports_iff pipeTreeCtx [47, 0x61] 0 rfl).mpr (by decide +kernel)

/-- The tree with one pipe again, with an entry that points behind the inodes. -/
def danglingTreeCtx : SqfsCtx := .onBytes (pipeTreeBytes 4000) (pipeTreeBytes_sizeInOffT 4000)

/-- The listing has the entry, its inode cannot be read, and the path is reported
not to exist. -/
theorem sqfsVfsResolvePath_misreports_dangling :
    walkEnd danglingTreeCtx [47, 0x61] 0 = .unreadableEntry ∧
      sqfsVfsResolvePath danglingTreeCtx [47, 0x61] 0 = .err .enoent ∧
      VfsCall.getattr.run danglingTreeCtx [47, 0x61] 0 = .err .enoent ∧
      ¬ ReportsCorruption danglingTreeCtx [47, 0x61] 0 := by
  have ended : walkEnd danglingTreeCtx [47, 0x61] 0 = .unreadableEntry := by decide +kernel
  have returned : VfsCall.getattr.run danglingTreeCtx [47, 0x61] 0 = .err .enoent := by
    decide +kernel
  have answer : sqfsVfsResolvePath danglingTreeCtx [47, 0x61] 0 = .err .enoent := by
    have answers := @sqfsVfsResolvePath_answers danglingTreeCtx [47, 0x61] 0 rfl
    rw [ended] at answers
    apply answers.resolve_right
    intro faults
    rw [VfsCall.run, sqfsVfsGetattr, faults] at returned
    cases returned
  refine ⟨ended, answer, returned, ?_⟩
  intro reports
  have absent := reports.absent answer
  rw [ended] at absent
  cases absent

end SquashfsFuse
