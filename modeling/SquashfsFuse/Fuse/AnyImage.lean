import SquashfsFuse.Fuse.MountedTrees
import SquashfsFuse.Vfs.Answering

/-! Sessions of requests on any image: what can go wrong is that buffers are too small for what
is in the image, and nothing else. -/

namespace SquashfsFuse

/-- What the kernel calls: paths are not empty, positions are not negative, and files that are
read or released are open. -/
def FuseAllowed (state : FuseState) : FuseRequest → Prop
  | .getattr path _ | .readdir path _ | .openFile path _ _ | .readlink path _ _ => path ≠ []
  | .getxattr path _ _ _ | .listxattr path _ _ => path ≠ []
  | .read fh offset size => 0 ≤ offset ∧ offset < 2 ^ 63 ∧ size < 2 ^ 63 ∧
      (fh ≠ 0 → (state.handles fh).isSome)
  | .release fh => fh ≠ 0 → (state.handles fh).isSome
  | .statfs => True

/-- The cache is consistent, and the handles are on inodes that were walked to. -/
structure FuseState.Sound (ctx : SqfsCtx) (state : FuseState) : Prop where
  cache : state.cache.Consistent
  handles : ∀ fh handle, state.handles fh = some handle →
    handle.Opened ∧ ∃ address, Walked ctx address handle.inode

section Requests

variable {ctx : SqfsCtx} {state : FuseState} {path : List UInt8}

/-! ## Operations that leave the state -/

theorem FuseState.Sound.replies {outcome : Vfs FuseReply} (sound : state.Sound ctx)
    (defined : outcome.Defined) :
    ∃ reply next, some (reply, next) = state.reply outcome ∧ next.Sound ctx := by
  rcases defined.cases with ⟨reply, ended⟩ | ⟨errno, failed⟩
  · rw [ended]
    exact ⟨reply, state, rfl, sound⟩
  · rw [failed]
    exact ⟨.failed errno, state, rfl, sound⟩

private theorem SafeImage.sqfsFuseGetattr_defined (safe : SafeImage ctx) (some : path ≠ [])
    (address : UInt64) : (sqfsFuseGetattr ctx path address.toNat).Defined := by
  rw [sqfsFuseGetattr, sqfsVfsGetattr, Outcome.defined_bind, Outcome.defined_bind]
  refine ⟨⟨(safe.resolves some address).1, fun inode resolved => ?_⟩,
    fun _ _ => Outcome.defined_ok _⟩
  dsimp only
  rw [(safe.freeable ((safe.resolves some address).2 inode resolved)).free]
  exact Outcome.defined_ok _

private theorem SafeImage.sqfsFuseReaddir_defined (safe : SafeImage ctx) (some : path ≠ [])
    (address : UInt64) : (sqfsFuseReaddir ctx path address.toNat).Defined := by
  rw [sqfsFuseReaddir, sqfsVfsReaddir, Outcome.defined_bind, Outcome.defined_bind]
  refine ⟨⟨(safe.resolves some address).1, fun inode resolved => ?_⟩,
    fun _ _ => Outcome.defined_ok _⟩
  have walked := (safe.resolves some address).2 inode resolved
  have freed := (safe.freeable walked).free (ε := Errno)
  split
  · rw [freed]
    exact Outcome.defined_err _
  · next isDir =>
      rw [Bool.not_eq_false] at isDir
      rcases (safe.directories address inode walked isDir).sqfsDirRead_defined.cases with
        ⟨entries, listed⟩ | ⟨code, failed⟩
      · rw [listed]
        dsimp only
        rw [freed]
        exact Outcome.defined_ok _
      · rw [failed]
        dsimp only
        rw [freed]
        exact Outcome.defined_err _

private theorem SafeImage.sqfsFuseReadlink_defined (safe : SafeImage ctx) (some : path ≠ [])
    (address : UInt64) (size : Nat) : (sqfsFuseReadlink ctx path address.toNat size).Defined := by
  rw [sqfsFuseReadlink, sqfsVfsReadlink]
  split
  · exact Outcome.defined_err _
  · rw [Outcome.defined_bind]
    refine ⟨(safe.resolves some address).1, fun inode resolved => ?_⟩
    have walked := (safe.resolves some address).2 inode resolved
    have freed := (safe.freeable walked).free (ε := Errno)
    split
    · rw [freed]
      exact Outcome.defined_err _
    · next isLink =>
        rw [Bool.not_eq_false] at isLink
        have basic : inode.type = .symlink := by
          rcases Bool.or_eq_true _ _ ▸ isLink with basic | extended
          · exact eq_of_beq basic
          · exact absurd (eq_of_beq extended) (safe.links address inode walked)
        rcases walked with ⟨ref, -, got⟩
        rcases sqfsInodeGetByRef_parses got with ⟨data, parsed⟩
        rcases parseInode_target parsed basic with ⟨bytes, target, long⟩
        have sliced : slice bytes 0 (min (inode.get .symlinkTargetSize) (size - 1)) =
            Option.some ((bytes.drop 0).take (min (inode.get .symlinkTargetSize) (size - 1))) :=
          slice_eq_some.mpr ⟨by omega, rfl⟩
        dsimp only
        rw [target, Outcome.ofOption_some, Outcome.ok_bind, sliced, Outcome.ofOption_some,
          Outcome.ok_bind, freed]
        exact Outcome.defined_ok _

private theorem SafeImage.sqfsFuseGetxattr_defined (safe : SafeImage ctx) (some : path ≠ [])
    (noTable : ctx.xattrTable = none) (name : List UInt8) (size : Option Nat)
    (address : UInt64) : (sqfsFuseGetxattr ctx path name size address.toNat).Defined := by
  rw [sqfsFuseGetxattr, sqfsVfsGetxattr]
  split
  · exact Outcome.defined_err _
  · rw [Outcome.defined_bind]
    refine ⟨(safe.resolves some address).1, fun inode resolved => ?_⟩
    dsimp only
    rw [(safe.freeable ((safe.resolves some address).2 inode resolved)).free, Outcome.ok_bind]
    split
    · exact Outcome.defined_err _
    · rw [sqfsXattrGet, noTable]
      exact Outcome.defined_err _

private theorem SafeImage.sqfsFuseListxattr_defined (safe : SafeImage ctx) (some : path ≠ [])
    (noTable : ctx.xattrTable = none) (size : Option Nat) (address : UInt64) :
    (sqfsFuseListxattr ctx path size address.toNat).Defined := by
  rw [sqfsFuseListxattr, sqfsVfsListxattr]
  split
  · exact Outcome.defined_err _
  · rw [Outcome.defined_bind]
    refine ⟨(safe.resolves some address).1, fun inode resolved => ?_⟩
    dsimp only
    rw [(safe.freeable ((safe.resolves some address).2 inode resolved)).free, Outcome.ok_bind]
    split
    · exact Outcome.defined_ok _
    · rw [sqfsXattrList, noTable]
      exact Outcome.defined_err _

/-! ## Operations on handles -/

theorem SafeImage.openFile (safe : SafeImage ctx) (sound : state.Sound ctx) (some : path ≠ [])
    (address : UInt64) (handle : Nat) :
    ∃ reply next, fuseService ctx state (.openFile path address handle)
      (Option.some (reply, next)) ∧ next.Sound ctx := by
  have resolves := safe.resolves some address
  have defined : (sqfsVfsOpen ctx path address.toNat handle).Defined := by
    rw [sqfsVfsOpen, Outcome.defined_bind]
    refine ⟨resolves.1, fun inode resolved => ?_⟩
    have freed := (safe.freeable (resolves.2 inode resolved)).free (ε := Errno)
    split
    · rw [freed]
      exact Outcome.defined_err _
    · split
      · rw [freed]
        exact Outcome.defined_err _
      · exact Outcome.defined_ok _
  rcases defined.cases with ⟨fh, opened⟩ | ⟨errno, failed⟩
  · refine ⟨.opened handle,
      { state with handles := Function.update state.handles handle (Option.some fh) },
      ?_, sound.cache, ?_⟩
    · simp only [fuseService, sqfsFuseOpen, opened, Outcome.ok_bind, Outcome.pure_eq]
    · intro other found allocated
      dsimp only at allocated
      by_cases same : other = handle
      · subst same
        rw [Function.update_self] at allocated
        cases allocated
        rcases sqfsVfsOpen_eq_ok.mp opened with ⟨inode, resolved, -, -, rfl⟩
        exact ⟨sqfsVfsOpen_opened opened, address, resolves.2 inode resolved⟩
      · rw [Function.update_of_ne same] at allocated
        exact sound.handles other found allocated
  · refine ⟨.failed errno, state, ?_, sound⟩
    simp only [fuseService, sqfsFuseOpen, failed, Outcome.err_bind]

private theorem SafeImage.sqfsVfsRead_responds (safe : SafeImage ctx) {cache : DataCache}
    (consistent : cache.Consistent) {handle : SqfsVfsFh} {address : UInt64}
    (opened : handle.Opened) (walked : Walked ctx address handle.inode) {offset size : Nat}
    (noWrap : offset + size < 2 ^ 64) :
    Responds (SqfsVfsRead dataCache ctx cache handle offset size) := by
  rcases opened.init ctx.sb with ⟨file, init, sameSize⟩
  by_cases outside : handle.fileSize ≤ offset
  · simp only [Responds, SqfsVfsRead, if_pos outside]
    exact ⟨⟨_, rfl⟩, fun outcome equal => ⟨_, equal, consistent⟩⟩
  · have listed : file.blockSizes.length = file.blockCount := by
      rcases walked with ⟨ref, -, got⟩
      rcases sqfsInodeGetByRef_parses got with ⟨data, parsed⟩
      exact parseInode_listed parsed init
    have limit := @vfsReadSize_of_lt handle.fileSize offset size noWrap (by omega)
    have answered := (safe.files address handle.inode file walked init).sqfsDataRead_responds
      init listed (show offset + vfsReadSize handle.fileSize offset size < 2 ^ 64 by omega)
      consistent
    simp only [Responds, SqfsVfsRead, if_neg outside]
    constructor
    · rcases answered.1 with ⟨outcome, read⟩
      exact ⟨_, outcome, read, rfl⟩
    · rintro outcome ⟨read, called, rfl⟩
      rcases answered.2 read called with ⟨result, rfl, kept⟩
      exact ⟨_, rfl, kept⟩

private theorem SafeImage.readFile (safe : SafeImage ctx) (sound : state.Sound ctx) {fh size : Nat}
    {offset : Int} (nonneg : 0 ≤ offset) (offsetFits : offset < 2 ^ 63) (sizeFits : size < 2 ^ 63)
    (opened : fh ≠ 0 → (state.handles fh).isSome) :
    ∃ reply next, fuseService ctx state (.read fh offset size) (some (reply, next)) ∧
      next.Sound ctx := by
  by_cases null : fh = 0
  · refine ⟨_, state, ⟨some ⟨-Errno.einval.value, [], state.cache⟩, ?_, rfl⟩, sound⟩
    rw [SqfsFuseRead, if_pos null]
  · rcases Option.isSome_iff_exists.mp (opened null) with ⟨handle, allocated⟩
    rcases sound.handles fh handle allocated with ⟨isOpen, address, walked⟩
    have cast : ofInt64 offset = offset.toNat := by
      rw [ofInt64]
      omega
    have answered := @SafeImage.sqfsVfsRead_responds ctx safe state.cache sound.cache handle
      address isOpen walked offset.toNat size (by omega)
    rcases answered.1 with ⟨outcome, read⟩
    rcases answered.2 outcome read with ⟨result, rfl, kept⟩
    refine ⟨_, { state with cache := result.cache }, ⟨some result, ?_, rfl⟩, kept, sound.handles⟩
    rw [SqfsFuseRead, if_neg null, allocated, cast]
    exact read

theorem FuseState.Sound.release (sound : state.Sound ctx) {fh : Nat}
    (opened : fh ≠ 0 → (state.handles fh).isSome) :
    ∃ reply next, fuseService ctx state (.release fh) (some (reply, next)) ∧ next.Sound ctx := by
  by_cases null : fh = 0
  · refine ⟨.released, state, ?_, sound⟩
    rw [fuseService, sqfsFuseRelease, if_pos null, Option.map_some]
  · rcases Option.isSome_iff_exists.mp (opened null) with ⟨handle, allocated⟩
    refine ⟨.released, { state with handles := Function.update state.handles fh none }, ?_,
      sound.cache, ?_⟩
    · rw [fuseService, sqfsFuseRelease, if_neg null, allocated]
      dsimp only
      rw [(SqfsInode.freeable_of_isFile (sound.handles fh handle allocated).1.isFile).free]
      rfl
    · intro other found kept
      dsimp only at kept
      by_cases same : other = fh
      · subst same
        rw [Function.update_self] at kept
        cases kept
      · rw [Function.update_of_ne same] at kept
        exact sound.handles other found kept

end Requests

/-! ## Sessions -/

/-- Every request is answered, and leaves a sound state. -/
theorem SafeImage.keeps {ctx : SqfsCtx} (safe : SafeImage ctx) (noTable : ctx.xattrTable = none) :
    (fuseService ctx).Keeps (FuseState.Sound ctx) FuseAllowed := by
  refine Service.Keeps.of_unique (fun _ _ _ _ => fuseService_unique) ?_
  intro state request sound allowed
  cases request with
  | getattr path address =>
      apply sound.replies
      rw [Outcome.defined_bind]
      exact ⟨safe.sqfsFuseGetattr_defined allowed address, fun _ _ => Outcome.defined_ok _⟩
  | readdir path address =>
      apply sound.replies
      rw [Outcome.defined_bind]
      exact ⟨safe.sqfsFuseReaddir_defined allowed address, fun _ _ => Outcome.defined_ok _⟩
  | openFile path address handle => exact safe.openFile sound allowed address handle
  | read fh offset size =>
      exact safe.readFile sound allowed.1 allowed.2.1 allowed.2.2.1 allowed.2.2.2
  | release fh => exact sound.release allowed
  | readlink path address size =>
      apply sound.replies
      rw [Outcome.defined_bind]
      exact ⟨safe.sqfsFuseReadlink_defined allowed address size, fun _ _ => Outcome.defined_ok _⟩
  | statfs =>
      apply sound.replies
      rw [sqfsFuseStatfs_eq]
      exact Outcome.defined_ok _
  | getxattr path name size address =>
      apply sound.replies
      rw [Outcome.defined_bind]
      exact ⟨safe.sqfsFuseGetxattr_defined allowed noTable name size address,
        fun _ _ => Outcome.defined_ok _⟩
  | listxattr path size address =>
      apply sound.replies
      rw [Outcome.defined_bind]
      exact ⟨safe.sqfsFuseListxattr_defined allowed noTable size address,
        fun _ _ => Outcome.defined_ok _⟩

/-! ## Images that store a file system -/

section Stored

variable {ctx : SqfsCtx} {store : ImageStore}

theorem Stores.reachable_of_named (stores : Stores ctx store) {ref : Nat}
    (named : Named ctx ref) : store.Reachable ref := by
  induction named with
  | root => exact stores.root ▸ .root
  | @entry ref inode dirents entry address _ got isDir listed member induction =>
      have node := (stores.loaded ⟨induction, address, got⟩).node
      cases kind : store.node ref with
      | directory entries =>
          rw [kind] at node
          rcases node with ⟨-, others, read, rfl⟩
          rw [listed] at read
          cases read
          exact .entry induction kind (List.mem_map_of_mem member)
      | _ =>
          have kinds := node.kinds.1
          rw [kind, isDir] at kinds
          cases kinds

/-- An image that stores a file system is safe, without extended symbolic links. -/
theorem Stores.safe (stores : Stores ctx store)
    (links : ∀ address inode, Walked ctx address inode → inode.type ≠ .lsymlink) :
    SafeImage ctx where
  inodes := by
    intro ref block type length named overlong
    rcases stores.shows ref (stores.reachable_of_named named) 0 with ⟨inode, got, -⟩
    rw [overlong.faults] at got
    cases got
  links := links
  directories := by
    rintro address inode ⟨ref, named, got⟩ isDir
    apply SafeDirectory.of_defined isDir
    have node := (stores.loaded ⟨stores.reachable_of_named named, address, got⟩).node
    cases kind : store.node ref with
    | directory entries =>
        rw [kind] at node
        rcases node with ⟨-, dirents, read, -⟩
        rw [read]
        exact Outcome.defined_ok dirents
    | _ =>
        have kinds := node.kinds.1
        rw [kind, isDir] at kinds
        cases kinds
  files := by
    rintro address inode file ⟨ref, named, got⟩ init
    have node := (stores.loaded ⟨stores.reachable_of_named named, address, got⟩).node
    cases kind : store.node ref with
    | file content =>
        rw [kind] at node
        rcases node with ⟨-, other, same, wellFormed, unpacks, -⟩
        rw [init] at same
        cases same
        exact wellFormed.safe unpacks (sqfsFileCtxInit_bounds init).2
    | _ =>
        have kinds := node.kinds.2.1
        rw [kind, (sqfsFileCtxInit_isFile init).1] at kinds
        cases kinds

end Stored

/-! ## A session on a small image -/

private theorem FuseState.reply_next {state next : FuseState} {outcome : Vfs FuseReply}
    {reply : FuseReply} (replied : some (reply, next) = state.reply outcome) : next = state := by
  cases outcome with
  | ok _ =>
      cases replied
      rfl
  | err _ =>
      cases replied
      rfl
  | fault => cases replied

private theorem fuseService_read_handles {ctx : SqfsCtx} {state next : FuseState} {fh size : Nat}
    {offset : Int} {reply : FuseReply}
    (served : fuseService ctx state (.read fh offset size) (some (reply, next))) :
    next.handles = state.handles := by
  rcases served with ⟨result, -, ended⟩
  cases result with
  | none => cases ended
  | some result =>
      cases ended
      rfl

private theorem fuseService_openFile_handles {ctx : SqfsCtx} {state next : FuseState}
    {path : List UInt8} {address : UInt64} {handle : Nat} {fh : SqfsVfsFh} {reply : FuseReply}
    (opened : sqfsVfsOpen ctx path address.toNat handle = .ok fh)
    (served : fuseService ctx state (.openFile path address handle) (.some (reply, next))) :
    next.handles handle = .some fh := by
  simp only [fuseService, sqfsFuseOpen, opened, Outcome.ok_bind, Outcome.pure_eq] at served
  cases served
  exact Function.update_self handle _ _

def namedFileFh : SqfsVfsFh :=
  (sqfsVfsOpen namedFileMounted.ctx [slash, 0x61] 0 1).toOption.getD ⟨.calloc, 0⟩

theorem namedFile_opened :
    sqfsVfsOpen namedFileMounted.ctx [slash, 0x61] (0 : UInt64).toNat 1 = .ok namedFileFh :=
  Outcome.eq_ok_getD (by decide +kernel)

private theorem namedFileRequests_obey :
    (fuseService namedFileMounted.ctx).Obeys FuseAllowed
      (.mounted namedFileMounted.caches.dataCache) namedFileRequests := by
  refine ⟨List.cons_ne_nil _ _, fun _ listed _ => ?_⟩
  refine ⟨List.cons_ne_nil _ _, fun _ opened openStep => ?_⟩
  have allocated := fuseService_openFile_handles namedFile_opened openStep
  refine ⟨⟨by decide, by decide, by decide, fun _ => Option.isSome_of_eq_some allocated⟩,
    fun _ read readStep => ?_⟩
  rw [← fuseService_read_handles readStep] at allocated
  refine ⟨List.cons_ne_nil _ _, fun _ looked lookStep => ?_⟩
  obtain rfl := FuseState.reply_next lookStep
  exact ⟨fun _ => Option.isSome_of_eq_some allocated, fun _ _ _ => trivial⟩

private theorem namedFile_links (address : UInt64) (inode : SqfsInode)
    (walked : Walked namedFileMounted.ctx address inode) : inode.type ≠ .lsymlink := by
  rcases walked with ⟨ref, named, got⟩
  have reachable := mountedFileTree_stored.stores.reachable_of_named named
  have kinds := (mountedFileTree_stored.stores.loaded ⟨reachable, address, got⟩).node.kinds.2.2
  intro link
  rw [link] at kinds
  rcases mountedFileTree_reachable reachable with rfl | rfl
  · cases kinds
  · cases kinds

/-! ## Mounted images -/

/-- Whatever else is in a mounted image, every request of a session is answered, and every
inode that is read for one can be freed, the inodes of the open files among them. -/
theorem fuseService_answers_any {sqfsCompressorCreate : Nat → Option Compressor} {image : Image}
    {cacheSizeMb : Nat} {mounted : MountedCtx}
    (initialised : initContext sqfsCompressorCreate image cacheSizeMb false = .ok mounted)
    (safe : SafeImage mounted.ctx) {requests : List FuseRequest}
    (obeys : (fuseService mounted.ctx).Obeys FuseAllowed (.mounted mounted.caches.dataCache)
      requests) :
    (∃ replies last, (fuseService mounted.ctx).Session (.mounted mounted.caches.dataCache)
      requests (some (replies, last))) ∧
    (∀ outcome, (fuseService mounted.ctx).Session (.mounted mounted.caches.dataCache) requests
        outcome →
      ∃ replies last, outcome = some (replies, last) ∧ replies.length = requests.length ∧
        ∀ fh handle, last.handles fh = some handle →
          (sqfsInodeFree handle.inode : Vfs Unit) = .ok ()) ∧
    ∀ address inode, Walked mounted.ctx address inode →
      (sqfsInodeFree inode : Vfs Unit) = .ok () := by
  have mounts := initContext_mounts initialised
  have sound : FuseState.Sound mounted.ctx (.mounted mounted.caches.dataCache) :=
    ⟨DataCache.keeps_fresh mounts.dataCache_with _, fun _ _ none => by cases none⟩
  have freed (address : UInt64) (inode : SqfsInode) (walked : Walked mounted.ctx address inode) :
      (sqfsInodeFree inode : Vfs Unit) = .ok () :=
    (safe.freeable walked).free
  rcases (safe.keeps mounts.xattrTable).answered sound obeys with ⟨serves, only⟩
  refine ⟨serves, fun outcome session => ?_, freed⟩
  rcases only outcome session with ⟨replies, last, ended, length, lastSound⟩
  refine ⟨replies, last, ended, length, fun fh handle allocated => ?_⟩
  rcases lastSound.handles fh handle allocated with ⟨-, address, walked⟩
  exact freed address handle.inode walked

theorem fuseService_answers_any_namedFile :
    (∃ replies last, (fuseService namedFileMounted.ctx).Session
      (.mounted namedFileMounted.caches.dataCache) namedFileRequests (some (replies, last))) ∧
    ∀ address inode, Walked namedFileMounted.ctx address inode →
      (sqfsInodeFree inode : Vfs Unit) = .ok () :=
  have answers := fuseService_answers_any namedFile_mounted
    (mountedFileTree_stored.stores.safe namedFile_links) namedFileRequests_obey
  ⟨answers.1, answers.2.2⟩

end SquashfsFuse
