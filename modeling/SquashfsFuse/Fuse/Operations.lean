import SquashfsFuse.Foundation.FileStore
import SquashfsFuse.Data.Serving
import SquashfsFuse.Fuse.BlockSize
import SquashfsFuse.Vfs.VfsOps

/-! The operations that the kernel calls (`vfs_fuse.c`). -/

namespace SquashfsFuse

/-! ## Attributes -/

def toInt64 (value : Nat) : Int :=
  if u64 value < 2 ^ 63 then u64 value else (u64 value : Int) - 2 ^ 64

def makedev (major minor : Nat) : Nat :=
  (major &&& 0xfff) <<< 8 ||| (major &&& 0xfffff000) <<< 32 ||| (minor &&& 0xff) |||
    (minor &&& 0xffffff00) <<< 12

/-- `S_ISBLK` or `S_ISCHR`. -/
def isDeviceMode (mode : Nat) : Bool :=
  mode &&& 0o170000 == 0o060000 || mode &&& 0o170000 == 0o020000

/-- The members of `struct stat` that are assigned to. -/
structure Stat where
  stIno : Nat
  stMode : Nat
  stNlink : Nat
  stUid : Nat
  stGid : Nat
  stSize : Int
  stBlksize : Int
  stBlocks : Int
  stMtime : Int
  stCtime : Int
  stAtime : Int
  stRdev : Nat
  deriving Repr, DecidableEq

/-- The conversion in `sqfs_fuse_getattr`. -/
def SqfsVfsAttr.toStat (attr : SqfsVfsAttr) : Stat where
  stIno := attr.ino
  stMode := attr.mode
  stNlink := attr.nlink
  stUid := attr.uid
  stGid := attr.gid
  stSize := toInt64 attr.size
  stBlksize := toInt64 attr.blksize
  stBlocks := toInt64 attr.blocks
  stMtime := toInt64 attr.mtime
  stCtime := toInt64 attr.ctime
  stAtime := toInt64 attr.atime
  stRdev := if isDeviceMode attr.mode then makedev attr.rdevMajor attr.rdevMinor else 0

def sqfsFuseGetattr (ctx : SqfsCtx) (path : List UInt8) (address : Nat) : Vfs Stat := do
  let attr ← sqfsVfsGetattr ctx path address
  pure attr.toStat

/-! ## Directories and symbolic links -/

/-- A call of `filler`: the name as a C string, and the members of `struct stat` that are
assigned to. -/
structure FillerCall where
  name : List UInt8
  stIno : Nat
  stMode : Nat
  deriving Repr, DecidableEq

/-- `sqfs_fuse_readdir`. What `filler` returns is not looked at. -/
def sqfsFuseReaddir (ctx : SqfsCtx) (path : List UInt8) (address : Nat) :
    Vfs (List FillerCall) := do
  let entries ← sqfsVfsReaddir ctx path address
  pure (entries.map fun entry =>
    { name := cString entry.name, stIno := entry.ino, stMode := entry.type })

def sqfsFuseReadlink (ctx : SqfsCtx) (path : List UInt8) (address size : Nat) :
    Vfs (List UInt8) :=
  sqfsVfsReadlink ctx path address size

/-! ## The file system -/

structure Statvfs where
  fBsize : Nat
  fFrsize : Nat
  fBlocks : Nat
  fBfree : Nat
  fBavail : Nat
  fFiles : Nat
  fFfree : Nat
  fFavail : Nat
  fFsid : Nat
  fFlag : Nat
  fNamemax : Nat
  deriving Repr, DecidableEq

def sqfsFuseStatfs (ctx : SqfsCtx) : Vfs Statvfs := do
  let stat ← (sqfsVfsStatfs ctx).mapErr sqfsErrToErrno
  pure {
    fBsize := stat.bsize
    fFrsize := stat.frsize
    fBlocks := stat.blocks
    fBfree := 0
    fBavail := 0
    fFiles := stat.files
    fFfree := 0
    fFavail := 0
    fFsid := stat.fsid
    fFlag := stat.flags
    fNamemax := stat.namemax }

/-! ## Extended attributes -/

def sqfsFuseGetxattr (ctx : SqfsCtx) (path name : List UInt8) (size : Option Nat)
    (address : Nat) : Vfs (Int × List UInt8) :=
  sqfsVfsGetxattr ctx path name size address

def sqfsFuseListxattr (ctx : SqfsCtx) (path : List UInt8) (size : Option Nat)
    (address : Nat) : Vfs (Int × List UInt8) :=
  sqfsVfsListxattr ctx path size address

/-! ## Files -/

/-- What the operations find and leave behind: the data cache and the handles that are
allocated, by their addresses. -/
structure FuseState where
  cache : DataCache
  handles : Nat → Option SqfsVfsFh

/-- `sqfs_fuse_open`: the address in `fi->fh` and the handles behind the call. -/
def sqfsFuseOpen (ctx : SqfsCtx) (state : FuseState) (path : List UInt8)
    (address handle : Nat) : Vfs (Nat × FuseState) := do
  let fh ← sqfsVfsOpen ctx path address handle
  pure (handle, { state with handles := Function.update state.handles handle (some fh) })

/-- A call of `sqfs_fuse_read` ends in a result, `none` standing for a fault. -/
def SqfsFuseRead (ctx : SqfsCtx) (state : FuseState) (fh : Nat) (offset : Int) (size : Nat)
    (result : Option (ReadResult DataCache)) : Prop :=
  if fh = 0 then
    result = some { ret := -Errno.einval.value, out := [], cache := state.cache }
  else
    match state.handles fh with
    | none => result = none
    | some handle =>
        SqfsVfsRead dataCache ctx state.cache handle (ofInt64 offset) size result

/-- `sqfs_fuse_release` with `sqfs_vfs_release`: the handles behind the call. -/
def sqfsFuseRelease (state : FuseState) (fh : Nat) : Option FuseState :=
  if fh = 0 then
    some state
  else
    match state.handles fh with
    | none => none
    | some handle =>
        (sqfsInodeFree handle.inode : Vfs Unit).toOption.map fun _ =>
          { state with handles := Function.update state.handles fh none }

/-! ## Requests -/

/-- A call of one of `sqfs_fuse_operations`, with what the allocations in it return. -/
inductive FuseRequest
  | getattr (path : List UInt8) (address : UInt64)
  | readdir (path : List UInt8) (address : UInt64)
  | openFile (path : List UInt8) (address : UInt64) (handle : Nat)
  | read (fh : Nat) (offset : Int) (size : Nat)
  | release (fh : Nat)
  | readlink (path : List UInt8) (address : UInt64) (size : Nat)
  | statfs
  | getxattr (path name : List UInt8) (size : Option Nat) (address : UInt64)
  | listxattr (path : List UInt8) (size : Option Nat) (address : UInt64)
  deriving Repr, DecidableEq

/-- What a call returns and writes for its caller. -/
inductive FuseReply
  | stat (stat : Stat)
  | filled (calls : List FillerCall)
  | opened (fh : Nat)
  | data (ret : Int) (out : List Cell)
  | released
  | target (written : List UInt8)
  | statvfs (stat : Statvfs)
  | attribute (ret : Int) (written : List UInt8)
  | failed (errno : Errno)
  deriving Repr, DecidableEq

def FuseState.reply (state : FuseState) : Vfs FuseReply → Option (FuseReply × FuseState)
  | .ok reply => some (reply, state)
  | .err errno => some (.failed errno, state)
  | .fault => none

/-- The service that a mounted image is. -/
def fuseService (ctx : SqfsCtx) : Service FuseState FuseRequest FuseReply :=
  fun state request outcome =>
    match request with
    | .getattr path address =>
        outcome = state.reply
          (sqfsFuseGetattr ctx path address.toNat >>= fun stat => pure (.stat stat))
    | .readdir path address =>
        outcome = state.reply
          (sqfsFuseReaddir ctx path address.toNat >>= fun calls => pure (.filled calls))
    | .openFile path address handle =>
        outcome = match sqfsFuseOpen ctx state path address.toNat handle with
          | .ok (fh, next) => some (.opened fh, next)
          | .err errno => some (.failed errno, state)
          | .fault => none
    | .read fh offset size =>
        ∃ result, SqfsFuseRead ctx state fh offset size result ∧
          outcome = result.map fun result =>
            (.data result.ret result.out, { state with cache := result.cache })
    | .release fh => outcome = (sqfsFuseRelease state fh).map fun next => (.released, next)
    | .readlink path address size =>
        outcome = state.reply
          (sqfsFuseReadlink ctx path address.toNat size >>= fun written => pure (.target written))
    | .statfs =>
        outcome = state.reply (sqfsFuseStatfs ctx >>= fun stat => pure (.statvfs stat))
    | .getxattr path name size address =>
        outcome = state.reply (sqfsFuseGetxattr ctx path name size address.toNat >>= fun reply =>
          pure (.attribute reply.1 reply.2))
    | .listxattr path size address =>
        outcome = state.reply (sqfsFuseListxattr ctx path size address.toNat >>= fun reply =>
          pure (.attribute reply.1 reply.2))

/-- The state of a new mount. -/
def FuseState.mounted (cache : SqfsCache BlockEntry) : FuseState where
  cache := .fresh cache
  handles := fun _ => none

end SquashfsFuse
