import SquashfsFuse.Data.Answering
import SquashfsFuse.Directory.Answering
import SquashfsFuse.Inode.Accepted
import SquashfsFuse.Inode.Lengths
import SquashfsFuse.Vfs.PathWalk
import SquashfsFuse.Vfs.Requests

/-! Operations on paths that do not fault, whatever is in the image. -/

namespace SquashfsFuse

/-! ## What can be come to -/

inductive Named (ctx : SqfsCtx) : Nat → Prop
  | root : Named ctx ctx.sb.disk.rootInode
  | entry {ref inode entries entry} {address : UInt64} : Named ctx ref →
      sqfsInodeGetByRef ctx ref address.toNat = .ok inode →
      sqfsInodeIsDir inode.type = true → sqfsDirRead ctx inode = .ok entries →
      entry ∈ entries → Named ctx entry.inodeRef

/-- The inode is read at such a reference. -/
def Walked (ctx : SqfsCtx) (address : UInt64) (inode : SqfsInode) : Prop :=
  ∃ ref, Named ctx ref ∧ sqfsInodeGetByRef ctx ref address.toNat = .ok inode

/-- What a walk can come to has no inode that is longer than the buffer for it, no extended
symbolic link, and only directories and files that fit their buffers. -/
structure SafeImage (ctx : SqfsCtx) : Prop where
  inodes : ∀ ref block type length, Named ctx ref → ¬ Overlong ctx ref block type length
  links : ∀ address inode, Walked ctx address inode → inode.type ≠ .lsymlink
  directories : ∀ address inode, Walked ctx address inode → sqfsInodeIsDir inode.type = true →
    SafeDirectory ctx inode
  files : ∀ address inode file, Walked ctx address inode →
    sqfsFileCtxInit ctx.sb inode = .ok file → SafeFile ctx file

/-! ## Walks -/

section Walks

variable {ctx : SqfsCtx} {address : UInt64} {inode : SqfsInode}

def Arrives (ctx : SqfsCtx) (address : UInt64) (outcome : Vfs SqfsInode) : Prop :=
  outcome.Defined ∧ ∀ inode, outcome = .ok inode → Walked ctx address inode

theorem SafeImage.freeable (safe : SafeImage ctx) (walked : Walked ctx address inode) :
    inode.Freeable := by
  have notExtended := safe.links address inode walked
  rcases walked with ⟨ref, -, got⟩
  rcases sqfsInodeGetByRef_parses got with ⟨data, parsed⟩
  exact parseInode_freeable parsed notExtended

private theorem arrives_err (errno : Errno) :
    Arrives ctx address (.err errno) := by
  refine ⟨Outcome.defined_err errno, ?_⟩
  intro inode impossible
  cases impossible

theorem SafeImage.component (safe : SafeImage ctx) (walked : Walked ctx address inode)
    (component : List UInt8) :
    Arrives ctx address (resolveComponent ctx address.toNat inode component) := by
  by_cases notDir : sqfsInodeIsDir inode.type = false
  · rw [resolveComponent_notDir notDir, (safe.freeable walked).free, Outcome.ok_bind]
    exact arrives_err _
  · have isDir : sqfsInodeIsDir inode.type = true := by simpa using notDir
    rcases (safe.directories address inode walked isDir).sqfsDirRead_defined.cases with
      ⟨entries, listed⟩ | ⟨code, failed⟩
    · rw [resolveComponent_listed isDir listed, findMatchingEntry]
      cases found : entries.find? fun entry => entry.cName == component with
      | none => exact arrives_err _
      | some entry =>
          dsimp only
          rcases walked with ⟨ref, named, got⟩
          have entryNamed : Named ctx entry.inodeRef :=
            .entry named got isDir listed (List.mem_of_find?_eq_some found)
          have defined := @sqfsInodeGetByRef_defined ctx entry.inodeRef address.toNat
            fun block type length => safe.inodes entry.inodeRef block type length entryNamed
          rcases defined.cases with ⟨child, read⟩ | ⟨code, failed⟩
          · rw [read]
            refine ⟨Outcome.defined_ok _, ?_⟩
            intro inode equal
            cases equal
            exact ⟨entry.inodeRef, entryNamed, read⟩
          · rw [failed]
            exact arrives_err _
    · rw [resolveComponent_unlisted isDir failed]
      exact arrives_err _

theorem SafeImage.components (safe : SafeImage ctx) (walked : Walked ctx address inode)
    (components : List (List UInt8)) :
    Arrives ctx address (components.foldlM (resolveComponent ctx address.toNat) inode) := by
  induction components generalizing inode with
  | nil =>
      refine ⟨Outcome.defined_ok _, ?_⟩
      intro other equal
      cases equal
      exact walked
  | cons component components induction =>
      rcases safe.component walked component with ⟨defined, arrives⟩
      rw [List.foldlM_cons]
      rcases defined.cases with ⟨next, found⟩ | ⟨errno, failed⟩
      · rw [found, Outcome.ok_bind]
        exact induction (arrives next found)
      · rw [failed, Outcome.err_bind]
        exact arrives_err _

theorem SafeImage.resolves (safe : SafeImage ctx) {path : List UInt8} (some : path ≠ [])
    (address : UInt64) : Arrives ctx address (sqfsVfsResolvePath ctx path address.toNat) := by
  cases path with
  | nil => exact absurd rfl some
  | cons first rest =>
      rw [sqfsVfsResolvePath_foldlM]
      have defined := @sqfsInodeGetByRef_defined ctx ctx.sb.disk.rootInode address.toNat
        fun block type length => safe.inodes _ block type length .root
      rcases defined.cases with ⟨root, read⟩ | ⟨code, failed⟩
      · rw [read, Outcome.mapErr_ok, Outcome.ok_bind]
        exact safe.components ⟨_, .root, read⟩ _
      · rw [failed, Outcome.mapErr_err, Outcome.err_bind]
        exact arrives_err _

end Walks

end SquashfsFuse
