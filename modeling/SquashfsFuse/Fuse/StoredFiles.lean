import SquashfsFuse.Data.Reading
import SquashfsFuse.Fuse.Operations
import SquashfsFuse.Vfs.PathWalk

/-! Images whose readers deliver the files of a file system. -/

namespace SquashfsFuse

/-! ## What an image stores -/

/-- A file system as the operations show it: entries are listed with an inode number and the
bits of a file type. -/
abbrev ImageStore := FileStore Nat (List UInt8) (Nat × Nat) Stat Statvfs UInt8

/-- What an entry says. -/
def SqfsDirent.entry (dirent : SqfsDirent) : FileEntry Nat (List UInt8) (Nat × Nat) where
  name := dirent.cName
  ref := dirent.inodeRef
  hint := (dirent.inodeNumber, fileTypeBits dirent.type)

/-- The inode is of the kind of a node, and the readers deliver what is in the node. -/
def ShowsNode (ctx : SqfsCtx) (inode : SqfsInode) :
    FileNode Nat (List UInt8) (Nat × Nat) UInt8 → Prop
  | .directory entries => sqfsInodeIsDir inode.type = true ∧
      ∃ dirents, sqfsDirRead ctx inode = .ok dirents ∧ dirents.map SqfsDirent.entry = entries
  | .file content => sqfsInodeIsFile inode.type = true ∧
      ∃ file, sqfsFileCtxInit ctx.sb inode = .ok file ∧ WellFormedFile ctx file ∧
        UnpacksInPlace ctx file ∧ content = (fileContent ctx file).take file.fileSize
  | .link target => sqfsInodeIsSymlink inode.type = true ∧
      inode.get .symlinkTargetSize = target.length ∧
      ∃ behind, inode.target = some (target ++ behind)
  | .other => sqfsInodeIsDir inode.type = false ∧ sqfsInodeIsFile inode.type = false ∧
      sqfsInodeIsSymlink inode.type = false

structure Shows (ctx : SqfsCtx) (store : ImageStore) (ref : Nat) (inode : SqfsInode) :
    Prop where
  attr : (sqfsVfsFillAttr ctx inode).toStat = store.attr ref
  node : ShowsNode ctx inode (store.node ref)

/-- The inode is read at a reference that can be come to, wherever the target of a symbolic
link is allocated. -/
def Loads (ctx : SqfsCtx) (store : ImageStore) (ref : Nat) (inode : SqfsInode) : Prop :=
  store.Reachable ref ∧ ∃ address : UInt64, sqfsInodeGetByRef ctx ref address.toNat = .ok inode

def Opens (ctx : SqfsCtx) (store : ImageStore) (file : SqfsFileCtx) : Prop :=
  ∃ ref inode content, Loads ctx store ref inode ∧ store.node ref = .file content ∧
    sqfsFileCtxInit ctx.sb inode = .ok file

/-- The readers deliver the file system. Files use each position on disk with one size word,
and no key of the data cache stands for a block of a file and for a fragment block. -/
structure Stores (ctx : SqfsCtx) (store : ImageStore) : Prop where
  root : store.root = ctx.sb.disk.rootInode
  summary : sqfsFuseStatfs ctx = .ok store.summary
  shows : ∀ ref, store.Reachable ref → ∀ address : UInt64,
    ∃ inode, sqfsInodeGetByRef ctx ref address.toNat = .ok inode ∧ Shows ctx store ref inode
  oneSizeWord : ∀ file other, Opens ctx store file → Opens ctx store other →
    ∀ idx otherIdx location otherLocation,
    sqfsFileBlockLocation file idx = .ok location → location.size ≠ 0 →
    sqfsFileBlockLocation other otherIdx = .ok otherLocation → otherLocation.size ≠ 0 →
    location.pos = otherLocation.pos → location.size = otherLocation.size
  keysApart : ∀ file other, Opens ctx store file → Opens ctx store other →
    ∀ idx location, sqfsFileBlockLocation file idx = .ok location → location.size ≠ 0 →
    sqfsFragmentIsNone other.fragIdx = false →
    sqfsDataBlockCacheKey location.pos ≠ sqfsFragmentCacheKey other.fragIdx

/-! ## Paths -/

def FileError.errno : FileError → Errno
  | noEntry => .enoent
  | notDirectory => .enotdir
  | invalid => .einval

/-- A path leads to the inode of what it leads to in the file system, or fails like there. -/
def Resolves (ctx : SqfsCtx) (store : ImageStore) (outcome : Vfs SqfsInode) :
    Except FileError Nat → Prop
  | .ok ref => ∃ inode, outcome = .ok inode ∧ Loads ctx store ref inode ∧
      Shows ctx store ref inode
  | .error error => outcome = .err error.errno

section Paths

variable {ctx : SqfsCtx} {store : ImageStore} {ref : Nat} {inode : SqfsInode}

theorem Stores.loaded (stores : Stores ctx store) (loads : Loads ctx store ref inode) :
    Shows ctx store ref inode := by
  rcases loads with ⟨reachable, address, loaded⟩
  rcases stores.shows ref reachable address with ⟨same, sameLoaded, shown⟩
  rw [loaded] at sameLoaded
  cases sameLoaded
  exact shown

theorem ShowsNode.kinds {node : FileNode Nat (List UInt8) (Nat × Nat) UInt8}
    (shown : ShowsNode ctx inode node) :
    sqfsInodeIsDir inode.type = node.isDirectory ∧ sqfsInodeIsFile inode.type = node.isFile ∧
      sqfsInodeIsSymlink inode.type = node.isLink := by
  have dirOrFile : sqfsInodeIsDir inode.type = true → sqfsInodeIsFile inode.type = false := by
    cases inode.type <;> decide
  have dirOrLink : sqfsInodeIsDir inode.type = true → sqfsInodeIsSymlink inode.type = false := by
    cases inode.type <;> decide
  have fileOrLink : sqfsInodeIsFile inode.type = true →
      sqfsInodeIsDir inode.type = false ∧ sqfsInodeIsSymlink inode.type = false := by
    cases inode.type <;> decide
  have linkOrOther : sqfsInodeIsSymlink inode.type = true →
      sqfsInodeIsDir inode.type = false ∧ sqfsInodeIsFile inode.type = false := by
    cases inode.type <;> decide
  cases node with
  | directory entries => exact ⟨shown.1, dirOrFile shown.1, dirOrLink shown.1⟩
  | file content => exact ⟨(fileOrLink shown.1).1, shown.1, (fileOrLink shown.1).2⟩
  | link target => exact ⟨(linkOrOther shown.1).1, (linkOrOther shown.1).2, shown.1⟩
  | other => exact shown

theorem Shows.freeable (shown : Shows ctx store ref inode) : inode.Freeable := by
  have node := shown.node
  cases kind : store.node ref with
  | directory entries =>
      rw [kind] at node
      exact SqfsInode.freeable_of_isDir node.1
  | file content =>
      rw [kind] at node
      exact SqfsInode.freeable_of_isFile node.1
  | link target =>
      rw [kind] at node
      rcases node with ⟨-, -, behind, stored⟩
      intro _ _
      rw [stored]
      rfl
  | other =>
      rw [kind] at node
      exact SqfsInode.freeable_of_not_symlink node.2.2

theorem Stores.component (stores : Stores ctx store) (loads : Loads ctx store ref inode)
    (address : UInt64) (component : List UInt8) :
    Resolves ctx store (resolveComponent ctx address.toNat inode component)
      (store.lookUp ref component) := by
  have shown := stores.loaded loads
  have node := shown.node
  unfold FileStore.lookUp
  cases kind : store.node ref with
  | directory entries =>
      rw [kind] at node
      rcases node with ⟨isDir, dirents, read, rfl⟩
      rw [resolveComponent_listed isDir read, findMatchingEntry]
      dsimp only
      have same : ((dirents.map SqfsDirent.entry).find? fun entry =>
          decide (entry.name = component)) =
          (dirents.find? fun dirent => dirent.cName == component).map SqfsDirent.entry := by
        rw [List.find?_map]
        apply congrArg
        apply congrArg (dirents.find? ·)
        funext dirent
        rw [Function.comp_apply, Bool.eq_iff_iff, decide_eq_true_iff, beq_iff_eq]
        exact Iff.rfl
      rw [same]
      cases present : dirents.find? fun dirent => dirent.cName == component with
      | none => exact rfl
      | some dirent =>
          have member := List.mem_of_find?_eq_some present
          have reachable : store.Reachable dirent.inodeRef :=
            @FileStore.Reachable.entry _ _ _ _ _ _ store ref _ dirent.entry loads.1 kind
              (List.mem_map_of_mem member)
          rcases stores.shows _ reachable address with ⟨next, loaded, nextShown⟩
          dsimp only [Option.map_some]
          rw [loaded]
          exact ⟨next, rfl, ⟨reachable, address, loaded⟩, nextShown⟩
  | _ =>
      have notDir : sqfsInodeIsDir inode.type = false := by
        rw [shown.node.kinds.1, kind]
        rfl
      rw [resolveComponent_notDir notDir, shown.freeable.free]
      exact rfl

theorem Stores.components (stores : Stores ctx store) (address : UInt64)
    (components : List (List UInt8)) (loads : Loads ctx store ref inode) :
    Resolves ctx store (components.foldlM (resolveComponent ctx address.toNat) inode)
      (store.walk ref components) := by
  induction components generalizing ref inode with
  | nil => exact ⟨inode, rfl, loads, stores.loaded loads⟩
  | cons component components induction =>
      have step := stores.component loads address component
      rw [List.foldlM_cons, FileStore.walk, List.foldlM_cons]
      cases found : store.lookUp ref component with
      | ok next =>
          rw [found] at step
          rcases step with ⟨nextInode, resolved, nextLoads, -⟩
          rw [resolved, Outcome.ok_bind]
          exact induction nextLoads
      | error error =>
          rw [found] at step
          have failed : resolveComponent ctx address.toNat inode component =
            .err error.errno := step
          rw [failed]
          exact rfl

theorem Stores.resolves (stores : Stores ctx store) {path : List UInt8}
    (absolute : Absolute path) (address : UInt64) :
    Resolves ctx store (sqfsVfsResolvePath ctx path address.toNat)
      (store.find (pathComponents path)) := by
  cases path with
  | nil => cases absolute
  | cons first rest =>
      obtain rfl : first = slash := Option.some.inj absolute
      rcases stores.shows store.root .root address with ⟨root, loaded, -⟩
      have same : pathComponents (slash :: rest) = pathComponents rest :=
        tokens_cons_delimiter ..
      rw [sqfsVfsResolvePath_foldlM, ← stores.root, loaded, Outcome.mapErr_ok, Outcome.ok_bind,
        same, FileStore.find]
      exact stores.components address (pathComponents rest) ⟨.root, address, loaded⟩

end Paths

end SquashfsFuse
