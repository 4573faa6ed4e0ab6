import SquashfsFuse.Directory.Listing
import SquashfsFuse.Vfs.VfsOps

/-! Path resolution as a walk through a tree of inodes. -/

namespace SquashfsFuse

/-! ## Trees -/

/-- An image as a function from references to inodes and from directories to
their entries. -/
structure FileTree where
  root : Nat
  inodeAt : Nat → SqfsInode
  entriesOf : SqfsInode → List SqfsDirent

namespace FileTree

variable (tree : FileTree)

inductive Reachable : Nat → Prop
  | root : Reachable tree.root
  | entry {ref dirent} : Reachable ref → sqfsInodeIsDir (tree.inodeAt ref).type = true →
      dirent ∈ tree.entriesOf (tree.inodeAt ref) → Reachable dirent.inodeRef

def lookUp (inode : SqfsInode) (component : List UInt8) : Vfs SqfsInode :=
  if sqfsInodeIsDir inode.type = false then
    .err .enotdir
  else
    match (tree.entriesOf inode).find? fun entry => entry.cName == component with
    | none => .err .enoent
    | some entry => .ok (tree.inodeAt entry.inodeRef)

/-- Look the components up one after the other. -/
def walk : SqfsInode → List (List UInt8) → Vfs SqfsInode
  | inode, [] => .ok inode
  | inode, component :: components => do
      let next ← tree.lookUp inode component
      walk next components

/-- What is no directory can be freed wherever a component is looked up in it. -/
def FreesAlong : SqfsInode → List (List UInt8) → Prop
  | _, [] => True
  | inode, component :: components =>
      (sqfsInodeIsDir inode.type = false → inode.Freeable) ∧
        ∀ next, tree.lookUp inode component = .ok next → FreesAlong next components

/-- The tree is what the readers deliver, and they fail nowhere in it. -/
structure Describes (ctx : SqfsCtx) (address : Nat) : Prop where
  root : tree.root = ctx.sb.disk.rootInode
  inodes : ∀ ref, tree.Reachable ref →
    sqfsInodeGetByRef ctx ref address = .ok (tree.inodeAt ref)
  listings : ∀ ref, tree.Reachable ref → sqfsInodeIsDir (tree.inodeAt ref).type = true →
    sqfsDirRead ctx (tree.inodeAt ref) = .ok (tree.entriesOf (tree.inodeAt ref))

variable {tree}

private theorem walk_append (inode : SqfsInode) (front : List (List UInt8)) (component : List UInt8) :
    tree.walk inode (front ++ [component]) =
      tree.walk inode front >>= fun last => tree.lookUp last component := by
  induction front generalizing inode with
  | nil => exact bind_pure _
  | cons first front induction =>
      rw [List.cons_append, walk, walk, bind_assoc]
      apply congrArg
      funext next
      exact induction next

private theorem lookUp_reachable {ref : Nat} {next : SqfsInode} {component : List UInt8}
    (reachable : tree.Reachable ref)
    (found : tree.lookUp (tree.inodeAt ref) component = .ok next) :
    ∃ ref, tree.Reachable ref ∧ next = tree.inodeAt ref := by
  unfold lookUp at found
  split at found
  · cases found
  · next isDir =>
      split at found
      · cases found
      · next entry present =>
          cases found
          have member := List.mem_of_find?_eq_some present
          exact ⟨_, .entry reachable (by simpa using isDir) member, rfl⟩

end FileTree

/-! ## Components -/

/-- The components of a path that are not empty. -/
def pathComponents (path : List UInt8) : List (List UInt8) := tokens slash path

def Absolute (path : List UInt8) : Prop := path.head? = some slash

private theorem pathComponents_repeated (left right : List UInt8) :
    pathComponents (left ++ slash :: slash :: right) =
      pathComponents (left ++ slash :: right) := by
  rw [pathComponents, tokens_append_cons, tokens_cons_delimiter, pathComponents,
    tokens_append_cons]

private theorem pathComponents_trailing (path : List UInt8) :
    pathComponents (path ++ [slash]) = pathComponents path := by
  rw [pathComponents, tokens_append_cons, tokens_nil, List.append_nil, pathComponents]

private theorem pathComponents_appended (path component : List UInt8) (nonempty : component ≠ [])
    (whole : slash ∉ component) :
    pathComponents (path ++ slash :: component) = pathComponents path ++ [component] := by
  rw [pathComponents, tokens_append_cons, tokens_of_notMem nonempty whole, pathComponents]

theorem Absolute.append {path : List UInt8} (absolute : Absolute path) (rest : List UInt8) :
    Absolute (path ++ rest) := by
  rw [Absolute, List.head?_append, absolute, Option.some_or]

/-! ## The walk of the code -/

section Component

variable {ctx : SqfsCtx} {address ref : Nat} {tree : FileTree} {inode : SqfsInode}
  {component : List UInt8}

/-- What is no directory is freed before the walk is refused. -/
theorem resolveComponent_notDir (notDir : sqfsInodeIsDir inode.type = false) :
    resolveComponent ctx address inode component =
      sqfsInodeFree inode >>= fun _ => .err .enotdir := by
  rw [resolveComponent, if_pos notDir]

theorem resolveComponent_listed (isDir : sqfsInodeIsDir inode.type = true)
    {entries : List SqfsDirent} (listed : sqfsDirRead ctx inode = .ok entries) :
    resolveComponent ctx address inode component =
      findMatchingEntry ctx address entries component := by
  rw [resolveComponent, if_neg (by simp [isDir]), listed]
  dsimp only
  rw [(SqfsInode.freeable_of_isDir isDir).free, Outcome.ok_bind]

theorem resolveComponent_unlisted (isDir : sqfsInodeIsDir inode.type = true) {code : SqfsError}
    (failed : sqfsDirRead ctx inode = .err code) :
    resolveComponent ctx address inode component = .err (sqfsErrToErrno code) := by
  rw [resolveComponent, if_neg (by simp [isDir]), failed]
  dsimp only
  rw [(SqfsInode.freeable_of_isDir isDir).free, Outcome.ok_bind]

private theorem resolveComponent_isDir (describes : tree.Describes ctx address)
    (reachable : tree.Reachable ref) (isDir : sqfsInodeIsDir (tree.inodeAt ref).type = true) :
    resolveComponent ctx address (tree.inodeAt ref) component =
      tree.lookUp (tree.inodeAt ref) component := by
  rw [resolveComponent_listed isDir (describes.listings ref reachable isDir), findMatchingEntry,
    FileTree.lookUp, if_neg (by simp [isDir])]
  cases present : (tree.entriesOf (tree.inodeAt ref)).find?
      fun entry => entry.cName == component with
  | none => rfl
  | some entry =>
      have member := List.mem_of_find?_eq_some present
      dsimp only
      rw [describes.inodes _ (.entry reachable isDir member)]

private theorem resolveComponent_eq_iff (describes : tree.Describes ctx address)
    (reachable : tree.Reachable ref) :
    resolveComponent ctx address (tree.inodeAt ref) component =
        tree.lookUp (tree.inodeAt ref) component ↔
      (sqfsInodeIsDir (tree.inodeAt ref).type = false → (tree.inodeAt ref).Freeable) := by
  by_cases notDir : sqfsInodeIsDir (tree.inodeAt ref).type = false
  · rw [resolveComponent_notDir notDir, FileTree.lookUp, if_pos notDir]
    rcases @sqfsInodeFree_cases Errno (tree.inodeAt ref) with
      ⟨freeable, freed⟩ | ⟨clobbered, crashed⟩
    · rw [freed]
      exact iff_of_true rfl fun _ => freeable
    · rw [crashed]
      exact iff_of_false (by intro same; cases same) fun all => clobbered (all notDir)
  · have isDir : sqfsInodeIsDir (tree.inodeAt ref).type = true := by simpa using notDir
    exact iff_of_true (resolveComponent_isDir describes reachable isDir)
      fun same => absurd same notDir

end Component

private theorem resolveComponents_foldlM (ctx : SqfsCtx) (address fuel : Nat) (inode : SqfsInode)
    (text : List UInt8) (enough : text.length ≤ fuel) :
    resolveComponents ctx address fuel inode text =
      (tokens slash text).foldlM (resolveComponent ctx address) inode := by
  induction fuel generalizing inode text with
  | zero =>
      obtain rfl : text = [] := List.length_eq_zero_iff.mp (Nat.le_zero.mp enough)
      rw [tokens_nil]
      rfl
  | succ fuel induction =>
      cases found : nextToken slash text with
      | none =>
          rw [tokens_of_nextToken_none found, resolveComponents, found]
          rfl
      | some taken =>
          rcases tokens_of_nextToken_some found with ⟨parts, shorter⟩
          rw [parts, resolveComponents, found, List.foldlM_cons]
          apply congrArg (resolveComponent ctx address inode taken.1 >>= ·)
          funext next
          exact induction next taken.2 (by omega)

theorem sqfsVfsResolvePath_foldlM (ctx : SqfsCtx) (first : UInt8) (rest : List UInt8)
    (address : Nat) :
    sqfsVfsResolvePath ctx (first :: rest) address = (do
      let root ← (sqfsInodeGetByRef ctx ctx.sb.disk.rootInode address).mapErr sqfsErrToErrno
      (pathComponents rest).foldlM (resolveComponent ctx address) root) := by
  rw [sqfsVfsResolvePath]
  apply congrArg
  funext root
  dsimp only
  split
  · next isRoot =>
      rw [isRoot.2, pathComponents, tokens_nil]
      rfl
  · exact resolveComponents_foldlM ctx address rest.length root rest (Nat.le_refl _)

theorem sqfsVfsResolvePath_appended (ctx : SqfsCtx) (address : Nat) {path component : List UInt8}
    (started : path ≠ []) (nonempty : component ≠ []) (whole : slash ∉ component) :
    sqfsVfsResolvePath ctx (path ++ slash :: component) address =
      sqfsVfsResolvePath ctx path address >>=
        fun inode => resolveComponent ctx address inode component := by
  cases path with
  | nil => contradiction
  | cons first rest =>
      rw [List.cons_append, sqfsVfsResolvePath_foldlM, sqfsVfsResolvePath_foldlM,
        pathComponents_appended rest component nonempty whole, bind_assoc]
      apply congrArg
      funext root
      rw [List.foldlM_append]
      apply congrArg
      funext inode
      rw [List.foldlM_cons]
      exact bind_pure _

section Walks

variable {ctx : SqfsCtx} {address : Nat} {tree : FileTree} {path : List UInt8}

/-- Where everything can be read, the loop walks through the tree exactly if it crashes at no
inode it frees. -/
theorem foldlM_resolveComponent_eq_iff (describes : tree.Describes ctx address)
    (components : List (List UInt8)) {ref : Nat} (reachable : tree.Reachable ref) :
    components.foldlM (resolveComponent ctx address) (tree.inodeAt ref) =
        tree.walk (tree.inodeAt ref) components ↔
      tree.FreesAlong (tree.inodeAt ref) components := by
  induction components generalizing ref with
  | nil => exact iff_of_true rfl trivial
  | cons component components induction =>
      rw [List.foldlM_cons, FileTree.walk, FileTree.FreesAlong]
      by_cases freed : sqfsInodeIsDir (tree.inodeAt ref).type = false →
          (tree.inodeAt ref).Freeable
      · rw [(resolveComponent_eq_iff describes reachable).mpr freed]
        cases step : tree.lookUp (tree.inodeAt ref) component with
        | ok next =>
            rcases FileTree.lookUp_reachable reachable step with ⟨nextRef, nextReachable, rfl⟩
            rw [Outcome.ok_bind, Outcome.ok_bind, induction nextReachable]
            constructor
            · rintro later
              refine ⟨freed, fun next same => ?_⟩
              cases same
              exact later
            · exact fun both => both.2 _ rfl
        | err code => exact iff_of_true rfl ⟨freed, by intro next same; cases same⟩
        | fault => exact iff_of_true rfl ⟨freed, by intro next same; cases same⟩
      · -- The inode is no directory, and the walk is refused where the code crashes.
        apply iff_of_false
        · have notDir : sqfsInodeIsDir (tree.inodeAt ref).type = false := by
            by_contra isDir
            exact freed fun same => absurd same isDir
          have clobbered : ¬ (tree.inodeAt ref).Freeable := fun freeable => freed fun _ => freeable
          rw [resolveComponent_notDir notDir, sqfsInodeFree_fault clobbered, FileTree.lookUp,
            if_pos notDir]
          intro same
          cases same
        · exact fun both => freed both.1

/-- An absolute path is resolved by walking along its components exactly if the walk crashes at no
inode it frees. -/
theorem sqfsVfsResolvePath_eq_iff (describes : tree.Describes ctx address)
    (absolute : Absolute path) :
    sqfsVfsResolvePath ctx path address =
        tree.walk (tree.inodeAt tree.root) (pathComponents path) ↔
      tree.FreesAlong (tree.inodeAt tree.root) (pathComponents path) := by
  cases path with
  | nil => cases absolute
  | cons first rest =>
      obtain rfl : first = slash := Option.some.inj absolute
      rw [sqfsVfsResolvePath_foldlM, ← describes.root, describes.inodes tree.root .root,
        Outcome.mapErr_ok, Outcome.ok_bind, pathComponents, pathComponents,
        tokens_cons_delimiter]
      exact foldlM_resolveComponent_eq_iff describes _ .root

private theorem sqfsVfsResolvePath_of_components {other : List UInt8} (absolute : Absolute path)
    (alternative : Absolute other) (same : pathComponents path = pathComponents other) :
    sqfsVfsResolvePath ctx path address = sqfsVfsResolvePath ctx other address := by
  cases path with
  | nil => cases absolute
  | cons first rest =>
      cases other with
      | nil => cases alternative
      | cons otherFirst otherRest =>
          obtain rfl : first = slash := Option.some.inj absolute
          obtain rfl : otherFirst = slash := Option.some.inj alternative
          rw [pathComponents, pathComponents, tokens_cons_delimiter, tokens_cons_delimiter] at same
          rw [sqfsVfsResolvePath_foldlM, sqfsVfsResolvePath_foldlM, pathComponents, same]
          rfl

/-- Resolution is the walk from the root along the components of the path: further
slashes change nothing, and a further component is looked up where the path leads. -/
structure ResolvesByWalking (ctx : SqfsCtx) (address : Nat) (tree : FileTree) : Prop where
  walks : ∀ path, Absolute path → sqfsVfsResolvePath ctx path address =
    tree.walk (tree.inodeAt tree.root) (pathComponents path)
  repeated : ∀ left right, Absolute (left ++ slash :: right) →
    sqfsVfsResolvePath ctx (left ++ slash :: slash :: right) address =
      sqfsVfsResolvePath ctx (left ++ slash :: right) address
  trailing : ∀ path, Absolute path → sqfsVfsResolvePath ctx (path ++ [slash]) address =
    sqfsVfsResolvePath ctx path address
  appended : ∀ path component, Absolute path → component ≠ [] → slash ∉ component →
    sqfsVfsResolvePath ctx (path ++ slash :: component) address =
      sqfsVfsResolvePath ctx path address >>= fun inode => tree.lookUp inode component

private theorem resolvesByWalking_of_walks (walks : ∀ path, Absolute path →
    sqfsVfsResolvePath ctx path address =
      tree.walk (tree.inodeAt tree.root) (pathComponents path)) :
    ResolvesByWalking ctx address tree where
  walks
  repeated left right absolute := by
    have doubled : Absolute (left ++ slash :: slash :: right) := by
      cases left with
      | nil => rfl
      | cons first left => exact absolute
    exact sqfsVfsResolvePath_of_components doubled absolute (pathComponents_repeated left right)
  trailing path absolute :=
    sqfsVfsResolvePath_of_components (absolute.append _) absolute (pathComponents_trailing path)
  appended path component absolute nonempty whole := by
    rw [walks _ (absolute.append _), walks path absolute,
      pathComponents_appended path component nonempty whole, FileTree.walk_append]

end Walks

/-- Each absolute path is resolved by walking exactly if the walk along it frees no symbolic link
whose pointer was overwritten, and path resolution is the walk through the tree exactly if no walk
does. -/
theorem sqfsVfsResolvePath_walks_iff (ctx : SqfsCtx) (address : Nat) (tree : FileTree)
    (describes : tree.Describes ctx address) :
    (∀ path, Absolute path → (sqfsVfsResolvePath ctx path address =
        tree.walk (tree.inodeAt tree.root) (pathComponents path) ↔
      tree.FreesAlong (tree.inodeAt tree.root) (pathComponents path))) ∧
    (ResolvesByWalking ctx address tree ↔
      ∀ path, Absolute path → tree.FreesAlong (tree.inodeAt tree.root) (pathComponents path)) := by
  refine ⟨fun path absolute => sqfsVfsResolvePath_eq_iff describes absolute, ?_⟩
  constructor
  · intro resolves path absolute
    exact (sqfsVfsResolvePath_eq_iff describes absolute).mp (resolves.walks path absolute)
  · intro freed
    apply resolvesByWalking_of_walks
    intro path absolute
    exact (sqfsVfsResolvePath_eq_iff describes absolute).mpr (freed path absolute)

/-! ## A tree with one pipe -/

/-- A root directory, a pipe, and the listing of the directory, in one stored block. The
only entry of the listing is for an inode at the given offset. -/
def pipeTreeBytes (offset : UInt16) : List UInt8 :=
  [0x49, 0x80] ++ encodeInode ⟨0o755, 0, 0, 0, 1⟩ (.dir 0 2 24 52 2 : DiskBody 4096) ++
    encodeInode ⟨0o644, 0, 0, 0, 2⟩ (.fifo 1 : DiskBody 4096) ++ encodeListing [pipeRun offset 2]

private theorem pipeTreeBytes_length (offset : UInt16) : (pipeTreeBytes offset).length = 75 := by
  simp [pipeTreeBytes, encodeInode, DiskBody.encode, encodeListing, DirRun.encode,
    DiskDirEntry.encode, pipeRun]

theorem pipeTreeBytes_sizeInOffT (offset : UInt16) :
    (pipeTreeBytes offset).length < 2 ^ 63 := by
  rw [pipeTreeBytes_length]
  decide

/-- The image with the entry `a` for the pipe. -/
def pipeTreeCtx : SqfsCtx := .onBytes (pipeTreeBytes 32) (pipeTreeBytes_sizeInOffT 32)

/-- What the readers deliver of the image. -/
def pipeTree : FileTree where
  root := 0
  inodeAt ref := (sqfsInodeGetByRef pipeTreeCtx ref 0).toOption.getD .calloc
  entriesOf inode := (sqfsDirRead pipeTreeCtx inode).toOption.getD []

private theorem pipeTree_entries :
    pipeTree.entriesOf (pipeTree.inodeAt 0) = [⟨[0x61], 2, 32, .fifo⟩] := by
  decide +kernel

theorem pipeTree_reachable {ref : Nat} (reachable : pipeTree.Reachable ref) :
    ref = 0 ∨ ref = 32 := by
  induction reachable with
  | root => exact .inl rfl
  | entry _ isDir member before =>
      rcases before with rfl | rfl
      · rw [pipeTree_entries] at member
        cases List.mem_singleton.mp member
        exact .inr rfl
      · have isPipe : sqfsInodeIsDir (pipeTree.inodeAt 32).type = false := by decide +kernel
        rw [isPipe] at isDir
        cases isDir

private theorem pipeTree_describes : pipeTree.Describes pipeTreeCtx 0 where
  root := rfl
  inodes ref reachable := by
    apply Outcome.eq_ok_getD
    rcases pipeTree_reachable reachable with rfl | rfl <;> decide +kernel
  listings ref reachable isDir := by
    apply Outcome.eq_ok_getD
    rcases pipeTree_reachable reachable with rfl | rfl
    · decide +kernel
    · have isPipe : sqfsInodeIsDir (pipeTree.inodeAt 32).type = false := by decide +kernel
      rw [isPipe] at isDir
      cases isDir

private theorem FileTree.freesAlong_of_freeable {tree : FileTree}
    (freeable : ∀ ref, tree.Reachable ref → (tree.inodeAt ref).Freeable)
    (components : List (List UInt8)) {ref : Nat} (reachable : tree.Reachable ref) :
    tree.FreesAlong (tree.inodeAt ref) components := by
  induction components generalizing ref with
  | nil => trivial
  | cons component components induction =>
      refine ⟨fun _ => freeable ref reachable, fun next found => ?_⟩
      rcases FileTree.lookUp_reachable reachable found with ⟨nextRef, nextReachable, rfl⟩
      exact induction nextReachable

theorem sqfsVfsResolvePath_walks_pipe : ResolvesByWalking pipeTreeCtx 0 pipeTree := by
  apply (sqfsVfsResolvePath_walks_iff pipeTreeCtx 0 pipeTree pipeTree_describes).2.mpr
  intro path _
  apply FileTree.freesAlong_of_freeable _ _ .root
  intro ref reachable
  rcases pipeTree_reachable reachable with rfl | rfl <;> decide +kernel

/-! ## A tree with one symbolic link -/

/-- The extended symbolic link `l`, whose inode is behind that of the root. -/
def linkRun : DirRun where
  start := 0
  inodeNumber := 2
  entries := [⟨32, 0, .symlink, [0x6C], by decide, by decide, by decide⟩]
  nonempty := Nat.one_pos
  counted := by simp

/-- A root directory, the link to `a`, which has the first set of attributes, and the listing of
the directory, in one stored block. -/
def linkTreeBytes : List UInt8 :=
  [0x52, 0x80] ++ encodeInode ⟨0o755, 0, 0, 0, 1⟩ (.dir 0 2 24 61 2 : DiskBody 4096) ++
    encodeInode ⟨0o777, 0, 0, 0, 2⟩ (.lsymlink 1 1 [0x61] 0 rfl : DiskBody 4096) ++
    encodeListing [linkRun]

def linkTreeCtx : SqfsCtx := .onBytes linkTreeBytes (by decide +kernel)

/-- Where `malloc` finds room for the target. -/
def linkTargetAddress : Nat := 0x5555555592A0

/-- What the readers deliver of the image. -/
def linkTree : FileTree where
  root := 0
  inodeAt ref := (sqfsInodeGetByRef linkTreeCtx ref linkTargetAddress).toOption.getD .calloc
  entriesOf inode := (sqfsDirRead linkTreeCtx inode).toOption.getD []

private theorem linkTree_entries :
    linkTree.entriesOf (linkTree.inodeAt 0) = [⟨[0x6C], 2, 32, .symlink⟩] := by
  decide +kernel

private theorem linkTree_reachable {ref : Nat} (reachable : linkTree.Reachable ref) :
    ref = 0 ∨ ref = 32 := by
  induction reachable with
  | root => exact .inl rfl
  | entry _ isDir member before =>
      rcases before with rfl | rfl
      · rw [linkTree_entries] at member
        cases List.mem_singleton.mp member
        exact .inr rfl
      · have isLink : sqfsInodeIsDir (linkTree.inodeAt 32).type = false := by decide +kernel
        rw [isLink] at isDir
        cases isDir

private theorem linkTree_describes : linkTree.Describes linkTreeCtx linkTargetAddress where
  root := rfl
  inodes ref reachable := by
    apply Outcome.eq_ok_getD
    rcases linkTree_reachable reachable with rfl | rfl <;> decide +kernel
  listings ref reachable isDir := by
    apply Outcome.eq_ok_getD
    rcases linkTree_reachable reachable with rfl | rfl
    · decide +kernel
    · have isLink : sqfsInodeIsDir (linkTree.inodeAt 32).type = false := by decide +kernel
      rw [isLink] at isDir
      cases isDir

/-- A component that is looked up in the link crashes the program. -/
theorem sqfsVfsResolvePath_crashes_behind_link :
    linkTree.Describes linkTreeCtx linkTargetAddress ∧
      sqfsVfsResolvePath linkTreeCtx [slash, 0x6C, slash, 0x78] linkTargetAddress = .fault ∧
      linkTree.walk (linkTree.inodeAt 0) [[0x6C], [0x78]] = .err .enotdir ∧
      ¬ ResolvesByWalking linkTreeCtx linkTargetAddress linkTree := by
  have crashes : sqfsVfsResolvePath linkTreeCtx [slash, 0x6C, slash, 0x78] linkTargetAddress =
      .fault := by
    have ended : (sqfsVfsResolvePath linkTreeCtx [slash, 0x6C, slash, 0x78] linkTargetAddress >>=
        fun _ => pure ()) = (.fault : Vfs Unit) := by
      decide +kernel
    cases outcome : sqfsVfsResolvePath linkTreeCtx [slash, 0x6C, slash, 0x78] linkTargetAddress with
    | fault => rfl
    | ok inode =>
        rw [outcome] at ended
        cases ended
    | err errno =>
        rw [outcome] at ended
        cases ended
  have walked : linkTree.walk (linkTree.inodeAt 0) [[0x6C], [0x78]] = .err .enotdir := by
    have isDir : sqfsInodeIsDir (linkTree.inodeAt 0).type = true := by decide +kernel
    have isLink : sqfsInodeIsDir (linkTree.inodeAt 32).type = false := by decide +kernel
    have first : linkTree.lookUp (linkTree.inodeAt 0) [0x6C] = .ok (linkTree.inodeAt 32) := by
      rw [FileTree.lookUp, if_neg (by simp [isDir]), linkTree_entries]
      rfl
    rw [FileTree.walk, first, Outcome.ok_bind, FileTree.walk, FileTree.lookUp, if_pos isLink]
    rfl
  refine ⟨linkTree_describes, crashes, walked, ?_⟩
  intro resolves
  have components : pathComponents [slash, 0x6C, slash, 0x78] = [[0x6C], [0x78]] := by
    decide +kernel
  have same := resolves.walks [slash, 0x6C, slash, 0x78] rfl
  rw [crashes, components] at same
  cases same.trans walked

end SquashfsFuse
