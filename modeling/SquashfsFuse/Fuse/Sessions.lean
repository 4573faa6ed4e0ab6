import SquashfsFuse.Data.Transparency
import SquashfsFuse.Fuse.StoredFiles
import SquashfsFuse.Vfs.Requests

/-! Sessions of requests: an image that stores a file system serves it. -/

namespace SquashfsFuse

/-! ## What is specified of the operations -/

instance (path : List UInt8) : Decidable (Absolute path) :=
  inferInstanceAs (Decidable (path.head? = some slash))

/-- What a request is in terms of the file system. Paths are absolute, handles are not null,
and what is read can be counted by an `int`. Nothing is specified of extended attributes. -/
def FuseRequest.meaning : FuseRequest → Option (FileRequest (List UInt8) Nat)
  | .getattr path _ => if Absolute path then some (.getAttr (pathComponents path)) else none
  | .readdir path _ => if Absolute path then some (.list (pathComponents path)) else none
  | .openFile path _ handle =>
      if Absolute path ∧ handle ≠ 0 then
        some (.openAs (pathComponents path) handle)
      else
        none
  | .read fh offset size =>
      if 0 ≤ offset ∧ offset < 2 ^ 63 ∧ size < 2 ^ 31 then
        some (.readAt fh offset.toNat size)
      else
        none
  | .release fh => some (.close fh)
  | .readlink path _ size =>
      if Absolute path then some (.followLink (pathComponents path) size) else none
  | .statfs => some .summarize
  | .getxattr .. | .listxattr .. => none

def FileReply.fuse : FileReply (List UInt8) (Nat × Nat) Stat Statvfs UInt8 Nat → FuseReply
  | .attr stat => .stat stat
  | .entries listed =>
      .filled (listed.map fun entry =>
        { name := entry.1, stIno := entry.2.1, stMode := entry.2.2 })
  | .target text => .target (text ++ [0])
  | .opened handle => .opened handle
  | .data bytes => .data bytes.length (bytes.map some)
  | .closed => .released
  | .summary stat => .statvfs stat
  | .failed error => .failed error.errno

/-- Requests are answered as the file system answers them. -/
def fuseSpecification (store : ImageStore) :
    Specification (Nat → Option Nat) FuseRequest FuseReply := fun handles request => do
  let meaning ← request.meaning
  let (reply, after) ← store.step handles meaning
  some (reply.fuse, after)

theorem fuseSpecification_eq_some {store : ImageStore} {handles after : Nat → Option Nat}
    {request : FuseRequest} {reply : FuseReply}
    (step : fuseSpecification store handles request = some (reply, after)) :
    ∃ meaning answer, request.meaning = some meaning ∧
      store.step handles meaning = some (answer, after) ∧ reply = answer.fuse := by
  rcases Option.bind_eq_some_iff.mp step with ⟨meaning, means, step⟩
  rcases Option.bind_eq_some_iff.mp step with ⟨⟨answer, next⟩, answered, equal⟩
  cases equal
  exact ⟨meaning, answer, means, answered, rfl⟩

/-! ## The data cache over all files -/

section Cache

variable {ctx : SqfsCtx} {store : ImageStore} {calls : List ReadCall} {call : ReadCall}

def ReadsFile (ctx : SqfsCtx) (store : ImageStore) (call : ReadCall) : Prop :=
  ∃ ref content, Loads ctx store ref call.inode ∧ store.node ref = .file content

theorem ReadsFile.opens (reads : ReadsFile ctx store call) {file : SqfsFileCtx}
    (init : sqfsFileCtxInit ctx.sb call.inode = .ok file) : Opens ctx store file := by
  rcases reads with ⟨ref, content, loads, isFile⟩
  exact ⟨ref, call.inode, content, loads, isFile, init⟩

def ExpectedByAll (ctx : SqfsCtx) (store : ImageStore) (key : Nat) (entry : BlockEntry) : Prop :=
  ∀ calls, (∀ call ∈ calls, ReadsFile ctx store call) → Expected ctx calls key entry

theorem Expected.subset {fewer : List ReadCall} {key : Nat} {entry : BlockEntry}
    (expected : Expected ctx calls key entry) (sub : fewer ⊆ calls) :
    Expected ctx fewer key entry where
  block := fun cached call member => expected.block cached call (sub member)
  fragment := fun cached call member => expected.fragment cached call (sub member)

private theorem Stores.wellFormedCalls (stores : Stores ctx store)
    (files : ∀ call ∈ calls, ReadsFile ctx store call) : WellFormedCalls ctx calls where
  file := by
    intro call member file init
    rcases files call member with ⟨ref, content, loads, isFile⟩
    have node := (stores.loaded loads).node
    rw [isFile] at node
    rcases node with ⟨-, same, sameInit, wellFormed, unpacks, -⟩
    rw [init] at sameInit
    cases sameInit
    exact wellFormed.sized unpacks
  oneSizeWord := by
    intro call member other otherMember file otherFile init otherInit
    exact stores.oneSizeWord file otherFile ((files call member).opens init)
      ((files other otherMember).opens otherInit)

private theorem Stores.callsApart (stores : Stores ctx store)
    (files : ∀ call ∈ calls, ReadsFile ctx store call) : KeysApart ctx calls := by
  rintro call member other otherMember location fragIdx
    ⟨file, idx, entered, -, located, notHole⟩ ⟨otherFile, otherEntered, -, some, rfl⟩
  exact stores.keysApart file otherFile ((files call member).opens entered.init)
    ((files other otherMember).opens otherEntered.init) idx location located notHole some

theorem Stores.agrees (stores : Stores ctx store) (reads : ReadsFile ctx store call) :
    AgreesOnRead (ExpectedByAll ctx store) (ExpectedByAll ctx store) ctx call.inode call.offset
      call.size := by
  intro file entered
  have agrees : ∀ calls, (∀ other ∈ calls, ReadsFile ctx store other) →
      Agrees (Expected ctx (call :: calls)) (Expected ctx (call :: calls)) ctx file
        (Touches file call.offset (requestSize file call.offset call.size)) := by
    intro calls files
    have all : ∀ other ∈ call :: calls, ReadsFile ctx store other :=
      List.forall_mem_cons.mpr ⟨reads, files⟩
    exact (stores.wellFormedCalls all).agrees (stores.callsApart all) List.mem_cons_self file
      entered
  have alone : ∀ other ∈ [call], ReadsFile ctx store other :=
    List.forall_mem_singleton.mpr reads
  constructor
  · intro idx location address data touched located notHole content nonempty calls files
    exact ((agrees calls files).offersBlock idx location address data touched located notHole
      content nonempty).subset (List.subset_cons_self _ _)
  · intro idx location entry touched located notHole served cached
    exact (agrees [] (List.forall_mem_nil _)).servesBlock idx location entry touched located notHole
      (served [call] alone) cached
  · intro address data touched some content calls files
    exact ((agrees calls files).offersFragment address data touched some content).subset
      (List.subset_cons_self _ _)
  · intro entry touched some served cached
    exact (agrees [] (List.forall_mem_nil _)).servesFragment entry touched some
      (served [call] alone) cached

end Cache

/-! ## Reading from a handle -/

section Handles

variable {ctx : SqfsCtx} {store : ImageStore} {state : DataCache} {fh : SqfsVfsFh} {ref : Nat}
  {content : List UInt8} {offset size : Nat}

structure HandleOn (ctx : SqfsCtx) (store : ImageStore) (ref : Nat) (content : List UInt8)
    (fh : SqfsVfsFh) : Prop where
  opened : fh.Opened
  loads : Loads ctx store ref fh.inode
  isFile : store.node ref = .file content

structure RepliesWith (ctx : SqfsCtx) (store : ImageStore) (bytes : List UInt8)
    (result : ReadResult DataCache) : Prop where
  ret : result.ret = bytes.length
  out : result.out = bytes.map some
  cache : result.cache.Keeps (ExpectedByAll ctx store)

theorem HandleOn.contextOf (stores : Stores ctx store)
    (handle : HandleOn ctx store ref content fh) :
    ∃ file, sqfsFileCtxInit ctx.sb fh.inode = .ok file ∧ WellFormedFile ctx file ∧
      UnpacksInPlace ctx file ∧ file.fileSize = fh.fileSize ∧ content.length = fh.fileSize ∧
      content = (fileContent ctx file).take file.fileSize := by
  have node := (stores.loaded handle.loads).node
  rw [handle.isFile] at node
  rcases node with ⟨-, file, init, wellFormed, unpacks, rfl⟩
  have fields := sqfsFileCtxInit_fields init
  have sameSize : file.fileSize = fh.fileSize := by rw [fields.2.1, handle.opened.fileSize]
  have whole := wellFormed.fileSize_le (fields.1 ▸ ctx.sb.blockSize_pos)
  refine ⟨file, init, wellFormed, unpacks, sameSize, ?_, rfl⟩
  rw [List.length_take, Nat.min_eq_left whole, sameSize]

theorem HandleOn.dataRead (stores : Stores ctx store) (handle : HandleOn ctx store ref content fh)
    (keeps : state.Keeps (ExpectedByAll ctx store)) (sizeFits : size < 2 ^ 31)
    (noWrap : offset + size < 2 ^ 64) (inFile : offset + size ≤ content.length) :
    ∃ result, SqfsDataRead dataCache ctx state fh.inode offset size (some result) ∧
      RepliesWith ctx store ((content.drop offset).take size) result := by
  rcases handle.contextOf stores with ⟨file, init, wellFormed, unpacks, sameSize, length, rfl⟩
  let call : ReadCall := ⟨fh.inode, offset, size⟩
  have reads : ReadsFile ctx store call := ⟨ref, _, handle.loads, handle.isFile⟩
  have alone : ∀ other ∈ [call], ReadsFile ctx store other :=
    List.forall_mem_singleton.mpr reads
  have asked : min size (file.fileSize - offset) = size := by omega
  have plain := wellFormed.plainRead unpacks init (by omega) noWrap
  rw [asked] at plain
  have keepsAlone : state.Keeps (Expected ctx [call]) :=
    keeps.mono fun key entry expected => expected [call] alone
  rcases ((stores.wellFormedCalls alone).answers_iff_plain (stores.callsApart alone)
    List.mem_cons_self keepsAlone _).mpr plain with ⟨result, read, answer⟩
  rcases read.plain (dataCache_serves (ExpectedByAll ctx store)) (stores.agrees reads) keeps with
    ⟨other, -, related⟩
  match result, other, related with
  | some result, some _, ⟨_, _, kept⟩ =>
      cases PlainResult.mk.inj (Option.some.inj answer) with
      | intro ret out =>
          refine ⟨result, read, ?_, ?_, kept⟩
          · rw [ret, List.length_take, List.length_drop, length]
            omega
          · rw [out]
            apply congrArg
            rw [List.drop_take, List.take_take]
            apply congrArg (List.take · _)
            omega
  | none, none, _ => cases answer

theorem HandleOn.read (stores : Stores ctx store) (handle : HandleOn ctx store ref content fh)
    (keeps : state.Keeps (ExpectedByAll ctx store)) (offsetFits : offset < 2 ^ 63)
    (sizeFits : size < 2 ^ 31) :
    ∃ result, SqfsVfsRead dataCache ctx state fh offset size (some result) ∧
      RepliesWith ctx store ((content.drop offset).take size) result := by
  rcases handle.contextOf stores with ⟨-, -, -, -, -, length, -⟩
  by_cases outside : fh.fileSize ≤ offset
  · refine ⟨{ ret := 0, out := [], cache := state }, ?_, ?_⟩
    · rw [SqfsVfsRead, if_pos outside]
    · have nothing : (content.drop offset).take size = [] := by
        rw [List.drop_of_length_le (by omega), List.take_nil]
      rw [nothing]
      exact ⟨rfl, rfl, keeps⟩
  · have limited := vfsReadSize_of_lt (show offset + size < 2 ^ 64 by omega)
      (Nat.lt_of_not_le outside)
    have same : (content.drop offset).take (vfsReadSize fh.fileSize offset size) =
        (content.drop offset).take size := by
      rw [limited, ← length, ← List.length_drop, ← List.take_take, List.take_length]
    rcases handle.dataRead stores keeps (show vfsReadSize fh.fileSize offset size < _ by omega)
      (show offset + vfsReadSize fh.fileSize offset size < _ by omega) (by omega) with
      ⟨result, read, delivers⟩
    rw [same] at delivers
    have returned : ¬ result.ret < 0 := by
      rw [delivers.ret]
      omega
    refine ⟨result.toVfs, ?_, ?_, delivers.out, delivers.cache⟩
    · rw [SqfsVfsRead, if_neg outside]
      exact ⟨_, read, rfl⟩
    · rw [ReadResult.toVfs, if_neg returned]
      exact delivers.ret

end Handles

/-! ## Requests for paths -/

section Paths

variable {ctx : SqfsCtx} {store : ImageStore} {state : FuseState} {path : List UInt8}
  {call : SqfsInode → Vfs FuseReply}
  {answer : Nat → FileReply (List UInt8) (Nat × Nat) Stat Statvfs UInt8 Nat}

theorem Stores.replies (stores : Stores ctx store) (absolute : Absolute path) (address : UInt64)
    (answers : ∀ ref inode, Shows ctx store ref inode →
      state.reply (call inode) = some ((answer ref).fuse, state)) :
    state.reply (sqfsVfsResolvePath ctx path address.toNat >>= call) =
      some ((store.answerAt (pathComponents path) answer).fuse, state) := by
  have resolved := stores.resolves absolute address
  rw [FileStore.answerAt]
  cases found : store.find (pathComponents path) with
  | ok ref =>
      rw [found] at resolved
      rcases resolved with ⟨inode, resolved, -, shown⟩
      rw [resolved, Outcome.ok_bind]
      exact answers ref inode shown
  | error error =>
      rw [found] at resolved
      have failed : sqfsVfsResolvePath ctx path address.toNat = .err error.errno := resolved
      rw [failed]
      rfl

theorem Stores.getattr (stores : Stores ctx store) (absolute : Absolute path)
    (address : UInt64) :
    state.reply (sqfsFuseGetattr ctx path address.toNat >>= fun stat => pure (.stat stat)) =
      some ((store.answerAt (pathComponents path) fun ref => .attr (store.attr ref)).fuse,
        state) := by
  simp only [sqfsFuseGetattr, sqfsVfsGetattr, bind_assoc, Outcome.pure_eq, Outcome.ok_bind]
  apply stores.replies absolute address
  intro ref inode shown
  rw [← shown.attr, shown.freeable.free]
  rfl

theorem Stores.readdir (stores : Stores ctx store) (absolute : Absolute path)
    (address : UInt64) :
    state.reply (sqfsFuseReaddir ctx path address.toNat >>= fun calls =>
        pure (.filled calls)) =
      some ((store.answerAt (pathComponents path) store.listing).fuse, state) := by
  simp only [sqfsFuseReaddir, sqfsVfsReaddir, bind_assoc]
  apply stores.replies absolute address
  intro ref inode shown
  rw [FileStore.listing]
  have node := shown.node
  cases kind : store.node ref with
  | directory entries =>
      rw [kind] at node
      rcases node with ⟨isDir, dirents, read, rfl⟩
      rw [if_neg (by rw [isDir]; decide), read]
      simp only [shown.freeable.free, Outcome.ok_bind, Outcome.pure_eq, FuseState.reply,
        FileReply.fuse, List.map_map]
      rfl
  | _ =>
      have notDir : sqfsInodeIsDir inode.type = false := by
        rw [shown.node.kinds.1, kind]
        rfl
      rw [if_pos notDir, shown.freeable.free]
      rfl

theorem Stores.readlink (stores : Stores ctx store) (absolute : Absolute path)
    (address : UInt64) {size : Nat} (room : size ≠ 0) :
    state.reply (sqfsFuseReadlink ctx path address.toNat size >>= fun written =>
        pure (.target written)) =
      some ((store.answerAt (pathComponents path) (store.linkTarget size)).fuse, state) := by
  simp only [sqfsFuseReadlink, sqfsVfsReadlink, if_neg room, bind_assoc]
  apply stores.replies absolute address
  intro ref inode shown
  rw [FileStore.linkTarget]
  have node := shown.node
  cases kind : store.node ref with
  | link target =>
      rw [kind] at node
      rcases node with ⟨isLink, length, behind, stored⟩
      have copied : slice (target ++ behind) 0 (min target.length (size - 1)) =
          some (target.take (size - 1)) := by
        apply slice_eq_some.mpr
        constructor
        · rw [List.length_append]
          omega
        · rw [List.drop_zero, List.take_append_of_le_length (by omega), ← List.take_take,
            List.take_take, Nat.min_comm, ← List.take_take, List.take_length]
      rw [if_neg (by rw [isLink]; decide), stored, length, Outcome.ofOption_some,
        Outcome.ok_bind, copied, Outcome.ofOption_some, Outcome.ok_bind, shown.freeable.free]
      rfl
  | _ =>
      have notLink : sqfsInodeIsSymlink inode.type = false := by
        rw [shown.node.kinds.2.2, kind]
        rfl
      rw [if_pos notLink, shown.freeable.free]
      rfl

end Paths

/-! ## Sessions -/

/-- The handles that the file system has open are allocated and no others are, and the cache
holds what reads expect in it. -/
structure Mirrors (ctx : SqfsCtx) (store : ImageStore) (state : FuseState)
    (handles : Nat → Option Nat) : Prop where
  cache : state.cache.Keeps (ExpectedByAll ctx store)
  closed : ∀ address, handles address = none → state.handles address = none
  opened : ∀ address ref, handles address = some ref → address ≠ 0 ∧
    ∃ fh content, state.handles address = some fh ∧ HandleOn ctx store ref content fh

section Sessions

variable {ctx : SqfsCtx} {store : ImageStore} {state : FuseState}
  {handles after : Nat → Option Nat}

theorem SqfsVfsRead.unique {cache : BlockCache C} {state : C} {fh : SqfsVfsFh}
    {offset size : Nat} {result other : Option (ReadResult C)}
    (read : SqfsVfsRead cache ctx state fh offset size result)
    (alternative : SqfsVfsRead cache ctx state fh offset size other) : result = other := by
  rw [SqfsVfsRead] at read alternative
  split at read
  · next outside =>
      rw [if_pos outside] at alternative
      rw [read, alternative]
  · next inside =>
      rw [if_neg inside] at alternative
      rcases read with ⟨data, dataRead, rfl⟩
      rcases alternative with ⟨otherData, otherRead, rfl⟩
      rw [dataRead.unique otherRead]

theorem SqfsFuseRead.unique {fh size : Nat} {offset : Int}
    {result other : Option (ReadResult DataCache)}
    (read : SqfsFuseRead ctx state fh offset size result)
    (alternative : SqfsFuseRead ctx state fh offset size other) : result = other := by
  rw [SqfsFuseRead] at read alternative
  split at read
  · next null =>
      rw [if_pos null] at alternative
      rw [read, alternative]
  · next some =>
      rw [if_neg some] at alternative
      split at read
      · next dangling =>
          rw [dangling] at alternative
          rw [read, alternative]
      · next handle allocated =>
          rw [allocated] at alternative
          exact SqfsVfsRead.unique read alternative

theorem fuseService_unique {request : FuseRequest}
    {outcome other : Option (FuseReply × FuseState)}
    (served : fuseService ctx state request outcome)
    (alternative : fuseService ctx state request other) : outcome = other := by
  cases request with
  | read fh offset size =>
      rcases served with ⟨result, read, rfl⟩
      rcases alternative with ⟨otherResult, otherRead, rfl⟩
      rw [read.unique otherRead]
  | _ => exact Eq.trans served (Eq.symm alternative)

theorem Mirrors.opens (mirrors : Mirrors ctx store state handles) {handle ref : Nat}
    {content : List UInt8} {fh : SqfsVfsFh} (notNull : handle ≠ 0)
    (onFile : HandleOn ctx store ref content fh) :
    Mirrors ctx store
      { state with handles := Function.update state.handles handle (some fh) }
      (Function.update handles handle (some ref)) where
  cache := mirrors.cache
  closed := by
    intro other closed
    by_cases same : other = handle
    · rw [same, Function.update_self] at closed
      cases closed
    · rw [Function.update_of_ne same] at closed
      exact (Function.update_of_ne same ..).trans (mirrors.closed other closed)
  opened := by
    intro other otherRef opened
    by_cases same : other = handle
    · subst same
      rw [Function.update_self] at opened
      cases opened
      exact ⟨notNull, fh, content, Function.update_self .., onFile⟩
    · rw [Function.update_of_ne same] at opened
      rcases mirrors.opened other otherRef opened with ⟨notNull, fh, content, allocated, on⟩
      exact ⟨notNull, fh, content, (Function.update_of_ne same ..).trans allocated, on⟩

private theorem Mirrors.closes (mirrors : Mirrors ctx store state handles) (handle : Nat) :
    Mirrors ctx store { state with handles := Function.update state.handles handle none }
      (Function.update handles handle none) where
  cache := mirrors.cache
  closed := by
    intro other closed
    by_cases same : other = handle
    · rw [same]
      exact Function.update_self ..
    · rw [Function.update_of_ne same] at closed
      exact (Function.update_of_ne same ..).trans (mirrors.closed other closed)
  opened := by
    intro other ref opened
    by_cases same : other = handle
    · rw [same, Function.update_self] at opened
      cases opened
    · rw [Function.update_of_ne same] at opened
      rcases mirrors.opened other ref opened with ⟨notNull, fh, content, allocated, on⟩
      exact ⟨notNull, fh, content, (Function.update_of_ne same ..).trans allocated, on⟩

theorem Stores.openAs (stores : Stores ctx store) {path : List UInt8}
    (absolute : Absolute path) (address : UInt64) {handle : Nat} (notNull : handle ≠ 0)
    (mirrors : Mirrors ctx store state handles)
    {answer : FileReply (List UInt8) (Nat × Nat) Stat Statvfs UInt8 Nat}
    (step : store.step handles (.openAs (pathComponents path) handle) = some (answer, after)) :
    ∃ next, fuseService ctx state (.openFile path address handle)
      (some (answer.fuse, next)) ∧ Mirrors ctx store next after := by
  have resolved := stores.resolves absolute address
  rw [FileStore.step] at step
  cases free : handles handle with
  | some ref =>
      simp only [free] at step
      cases step
  | none =>
      simp only [free] at step
      cases found : store.find (pathComponents path) with
      | error error =>
          rw [found] at resolved
          simp only [found] at step
          cases step
          have failed : sqfsVfsResolvePath ctx path address.toNat = .err error.errno := resolved
          refine ⟨state, ?_, mirrors⟩
          rw [fuseService, sqfsFuseOpen, sqfsVfsOpen, failed]
          rfl
      | ok ref =>
          rw [found] at resolved
          simp only [found] at step
          rcases resolved with ⟨inode, resolved, loads, shown⟩
          have isFile := shown.node.kinds.2.1
          cases kind : store.node ref with
          | file content =>
              simp only [kind] at step
              cases step
              have isFile : sqfsInodeIsFile inode.type = true := by rw [isFile, kind]; rfl
              have onFile : HandleOn ctx store ref content ⟨inode, inode.get .fileFileSize⟩ :=
                ⟨⟨isFile, rfl⟩, loads, kind⟩
              refine ⟨_, ?_, mirrors.opens notNull onFile⟩
              rw [fuseService, sqfsFuseOpen,
                sqfsVfsOpen_eq_ok.mpr ⟨inode, resolved, isFile, notNull, rfl⟩]
              rfl
          | _ =>
              simp only [kind] at step
              cases step
              have notFile : sqfsInodeIsFile inode.type = false := by rw [isFile, kind]; rfl
              refine ⟨state, ?_, mirrors⟩
              rw [fuseService, sqfsFuseOpen, sqfsVfsOpen, resolved, Outcome.ok_bind,
                if_pos notFile, shown.freeable.free]
              rfl

theorem Stores.readAt (stores : Stores ctx store) {fh size : Nat} {offset : Int}
    (nonneg : 0 ≤ offset) (offsetFits : offset < 2 ^ 63) (sizeFits : size < 2 ^ 31)
    (mirrors : Mirrors ctx store state handles)
    {answer : FileReply (List UInt8) (Nat × Nat) Stat Statvfs UInt8 Nat}
    (step : store.step handles (.readAt fh offset.toNat size) = some (answer, after)) :
    ∃ next, fuseService ctx state (.read fh offset size) (some (answer.fuse, next)) ∧
      Mirrors ctx store next after := by
  rw [FileStore.step] at step
  cases opened : handles fh with
  | none =>
      simp only [opened] at step
      cases step
  | some ref =>
      rcases mirrors.opened fh ref opened with ⟨notNull, handle, content, allocated, onFile⟩
      simp only [opened, onFile.isFile] at step
      cases step
      have cast : ofInt64 offset = offset.toNat := by
        rw [ofInt64]
        omega
      rcases onFile.read stores mirrors.cache (show offset.toNat < 2 ^ 63 by omega) sizeFits with
        ⟨result, read, delivers⟩
      refine ⟨{ state with cache := result.cache }, ⟨some result, ?_, ?_⟩,
        delivers.cache, mirrors.closed, mirrors.opened⟩
      · rw [SqfsFuseRead, if_neg notNull, allocated, cast]
        exact read
      · rw [Option.map_some, delivers.ret, delivers.out]
        rfl

theorem Stores.meets (stores : Stores ctx store) :
    (fuseService ctx).Meets (fuseSpecification store) (Mirrors ctx store) := by
  refine Service.Meets.of_unique (fun _ _ _ _ => fuseService_unique) ?_
  intro state handles request reply after mirrors step
  rcases fuseSpecification_eq_some step with ⟨meaning, answer, means, answered, rfl⟩
  cases request with
  | getattr path address =>
      rcases Option.ite_none_right_eq_some.mp means with ⟨absolute, means⟩
      cases means
      cases answered
      exact ⟨state, (stores.getattr absolute address).symm, mirrors⟩
  | readdir path address =>
      rcases Option.ite_none_right_eq_some.mp means with ⟨absolute, means⟩
      cases means
      cases answered
      exact ⟨state, (stores.readdir absolute address).symm, mirrors⟩
  | openFile path address handle =>
      rcases Option.ite_none_right_eq_some.mp means with ⟨allowed, means⟩
      cases means
      exact stores.openAs allowed.1 address allowed.2 mirrors answered
  | read fh offset size =>
      rcases Option.ite_none_right_eq_some.mp means with ⟨allowed, means⟩
      cases means
      exact stores.readAt allowed.1 allowed.2.1 allowed.2.2 mirrors answered
  | release fh =>
      cases means
      rw [FileStore.step] at answered
      cases opened : handles fh with
      | none =>
          simp only [opened] at answered
          cases answered
      | some ref =>
          simp only [opened] at answered
          cases answered
          rcases mirrors.opened fh ref opened with ⟨notNull, handle, content, allocated, onFile⟩
          refine ⟨_, ?_, mirrors.closes fh⟩
          rw [fuseService, sqfsFuseRelease, if_neg notNull, allocated]
          dsimp only
          rw [(SqfsInode.freeable_of_isFile onFile.opened.isFile).free]
          rfl
  | readlink path address size =>
      rcases Option.ite_none_right_eq_some.mp means with ⟨absolute, means⟩
      cases means
      rw [FileStore.step] at answered
      by_cases room : size = 0
      · rw [if_pos room] at answered
        cases answered
        refine ⟨state, ?_, mirrors⟩
        rw [fuseService, sqfsFuseReadlink, sqfsVfsReadlink, if_pos room]
        rfl
      · rw [if_neg room] at answered
        cases answered
        exact ⟨state, (stores.readlink absolute address room).symm, mirrors⟩
  | statfs =>
      cases means
      cases answered
      refine ⟨state, ?_, mirrors⟩
      rw [fuseService, stores.summary]
      rfl
  | getxattr path name size address => cases means
  | listxattr path size address => cases means

theorem Mirrors.mounted {maxEntries maxMemory : Nat} {hasFreeFn : Bool}
    {cache : SqfsCache BlockEntry}
    (init : sqfsCacheInit maxEntries maxMemory hasFreeFn = some cache) :
    Mirrors ctx store (.mounted cache) fun _ => none where
  cache := DataCache.keeps_fresh init _
  closed := fun _ _ => rfl
  opened := by
    intro address ref opened
    cases opened

/-- A session of requests that are allowed is answered by the file system, whatever the data
cache holds by then. -/
theorem Stores.answers (stores : Stores ctx store) {maxEntries maxMemory : Nat}
    {hasFreeFn : Bool} {cache : SqfsCache BlockEntry}
    (init : sqfsCacheInit maxEntries maxMemory hasFreeFn = some cache)
    {requests : List FuseRequest} {replies : List FuseReply}
    (served : (fuseSpecification store).run (fun _ => none) requests =
      some (replies, handles)) :
    (fuseService ctx).Answers (.mounted cache) requests replies fun last =>
      ∀ address, last.handles address = none ↔ handles address = none := by
  apply (stores.meets.answers (.mounted init) served).imp
  intro last mirrors address
  refine ⟨?_, mirrors.closed address⟩
  intro free
  cases opened : handles address with
  | none => rfl
  | some ref =>
      rcases mirrors.opened address ref opened with ⟨-, fh, -, allocated, -⟩
      rw [allocated] at free
      cases free

end Sessions

end SquashfsFuse
