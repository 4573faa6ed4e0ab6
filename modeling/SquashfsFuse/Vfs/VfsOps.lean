import SquashfsFuse.Core.Data
import SquashfsFuse.Core.Directory
import SquashfsFuse.Core.Xattr
import SquashfsFuse.Foundation.Tokens

/-! Operations on paths (`vfs_ops.c`, `vfs.h`). -/

namespace SquashfsFuse

/-! ## Errors -/

inductive Errno
  | enoent
  | eio
  | enomem
  | enotdir
  | einval
  | enodata
  | eopnotsupp
  deriving Repr, DecidableEq

/-- The number that an error has as an `int`. -/
def Errno.value : Errno → Nat
  | enoent => 2
  | eio => 5
  | enomem => 12
  | enotdir => 20
  | einval => 22
  | enodata => 61
  | eopnotsupp => 95

/-- The result of an operation. -/
abbrev Vfs := Outcome Errno

def sqfsErrToErrno : SqfsError → Errno
  | .notFound => .enoent
  | .noMemory => .enomem
  | _ => .eio

/-- `sqfs_err_to_errno` on any `int`, also one that is no error code. -/
def errnoOfInt (err : Int) : Nat :=
  if err = 0 then
    0
  else if err = SqfsError.notFound.code then
    Errno.enoent.value
  else if err = SqfsError.noMemory.code then
    Errno.enomem.value
  else
    Errno.eio.value

/-! ## Path resolution -/

/-- The character `/`. -/
def slash : UInt8 := 47

def SqfsDirent.cName (dirent : SqfsDirent) : List UInt8 := cString dirent.name

/-- The search of `sqfs_vfs_resolve_path` for a matching entry. Loading its inode may fail for any
reason; the entry then counts as not found. -/
def findMatchingEntry (ctx : SqfsCtx) (address : Nat) (entries : List SqfsDirent)
    (component : List UInt8) : Vfs SqfsInode :=
  match entries.find? fun entry => entry.cName == component with
  | none => .err .enoent
  | some entry =>
      match sqfsInodeGetByRef ctx entry.inodeRef address with
      | .ok inode => .ok inode
      | .err _ => .err .enoent
      | .fault => .fault

/-- The body of the loop of `sqfs_vfs_resolve_path`. -/
def resolveComponent (ctx : SqfsCtx) (address : Nat) (inode : SqfsInode)
    (component : List UInt8) : Vfs SqfsInode :=
  if sqfsInodeIsDir inode.type = false then do
    sqfsInodeFree inode
    .err .enotdir
  else
    match sqfsDirRead ctx inode with
    | .err code => do
        sqfsInodeFree inode
        .err (sqfsErrToErrno code)
    | .fault => .fault
    | .ok entries => do
        sqfsInodeFree inode
        findMatchingEntry ctx address entries component

/-- The loop of `sqfs_vfs_resolve_path` over the tokens of the rest of the path.
Every token takes a character, so their number is fuel enough. -/
def resolveComponents (ctx : SqfsCtx) (address : Nat) :
    (fuel : Nat) → SqfsInode → List UInt8 → Vfs SqfsInode
  | fuel, inode, text =>
      match nextToken slash text with
      | none => .ok inode
      | some (component, rest) =>
          match fuel with
          | 0 => .fault
          | fuel + 1 => do
              let inode ← resolveComponent ctx address inode component
              resolveComponents ctx address fuel inode rest

/-- `sqfs_vfs_resolve_path`, where `malloc` has room for the copy of the path. An allocation for
the target of a symbolic link is at `address`; only the last inode of the walk can be one. The
second character of an empty path is outside its copy. -/
def sqfsVfsResolvePath (ctx : SqfsCtx) (path : List UInt8) (address : Nat) :
    Vfs SqfsInode := do
  let root ← (sqfsInodeGetByRef ctx ctx.sb.disk.rootInode address).mapErr sqfsErrToErrno
  match path with
  | [] => .fault
  | first :: rest =>
      if first = slash ∧ rest = [] then
        pure root
      else
        resolveComponents ctx address rest.length root rest

/-! ## Attributes -/

structure SqfsVfsAttr where
  ino : Nat
  mode : Nat
  nlink : Nat
  uid : Nat
  gid : Nat
  size : Nat
  blocks : Nat
  blksize : Nat
  atime : Nat
  mtime : Nat
  ctime : Nat
  rdevMajor : Nat
  rdevMinor : Nat
  deriving Repr, DecidableEq

/-- The `S_IFMT` bits of a type. -/
def fileTypeBits : InodeType → Nat
  | .dir | .ldir => 0o040000
  | .file | .lfile => 0o100000
  | .symlink | .lsymlink => 0o120000
  | .blkdev | .lblkdev => 0o060000
  | .chrdev | .lchrdev => 0o020000
  | .fifo | .lfifo => 0o010000
  | .socket | .lsocket => 0o140000

/-- `sqfs_vfs_fill_attr`. The size of a directory has 32 bits, that of a file 64. -/
def sqfsVfsFillAttr (ctx : SqfsCtx) (inode : SqfsInode) : SqfsVfsAttr :=
  let attr := {
    ino := inode.inodeNumber
    mode := inode.permissions ||| fileTypeBits inode.type
    nlink := inode.linkCount
    uid := inode.uid
    gid := inode.gid
    size := 0
    blocks := 0
    blksize := 0
    atime := inode.mtime
    mtime := inode.mtime
    ctime := inode.mtime
    rdevMajor := 0
    rdevMinor := 0 }
  match inode.type with
  | .dir | .ldir =>
      { attr with
        size := inode.get .dirSize
        blksize := ctx.sb.blockSize
        blocks := u32 (inode.get .dirSize + 511) / 512 }
  | .file | .lfile =>
      { attr with
        size := inode.get .fileFileSize
        blksize := ctx.sb.blockSize
        blocks := u64 (inode.get .fileFileSize + 511) / 512 }
  | .symlink | .lsymlink =>
      { attr with size := inode.get .symlinkTargetSize, blksize := ctx.sb.blockSize }
  | .blkdev | .lblkdev | .chrdev | .lchrdev =>
      { attr with rdevMajor := inode.get .devMajor, rdevMinor := inode.get .devMinor }
  | .fifo | .lfifo | .socket | .lsocket => attr

def sqfsVfsGetattr (ctx : SqfsCtx) (path : List UInt8) (address : Nat) : Vfs SqfsVfsAttr := do
  let inode ← sqfsVfsResolvePath ctx path address
  let attr := sqfsVfsFillAttr ctx inode
  sqfsInodeFree inode
  pure attr

/-! ## Files, directories and symbolic links -/

structure SqfsVfsFh where
  inode : SqfsInode
  fileSize : Nat

/-- `sqfs_vfs_open`, where `malloc` returns `handle` for the handle. -/
def sqfsVfsOpen (ctx : SqfsCtx) (path : List UInt8) (address handle : Nat) :
    Vfs SqfsVfsFh := do
  let inode ← sqfsVfsResolvePath ctx path address
  if sqfsInodeIsFile inode.type = false then do
    sqfsInodeFree inode
    .err .einval
  else if handle = 0 then do
    sqfsInodeFree inode
    .err .enomem
  else
    pure { inode, fileSize := inode.get .fileFileSize }

/-- The limit `sqfs_vfs_read` puts on the size of a read. -/
def vfsReadSize (fileSize offset size : Nat) : Nat :=
  if fileSize < u64 (offset + size) then fileSize - offset else size

/-- What `sqfs_vfs_read` makes of the result of `sqfs_data_read`. -/
def ReadResult.toVfs (result : ReadResult C) : ReadResult C :=
  { result with ret := if result.ret < 0 then -errnoOfInt result.ret else result.ret }

/-- A call of `sqfs_vfs_read` ends in a result, `none` standing for a fault. -/
def SqfsVfsRead (cache : BlockCache C) (ctx : SqfsCtx) (state : C) (fh : SqfsVfsFh)
    (offset size : Nat) (result : Option (ReadResult C)) : Prop :=
  if fh.fileSize ≤ offset then
    result = some { ret := 0, out := [], cache := state }
  else
    ∃ read, SqfsDataRead cache ctx state fh.inode offset
        (vfsReadSize fh.fileSize offset size) read ∧
      result = read.map ReadResult.toVfs

structure SqfsVfsDirent where
  name : List UInt8
  ino : Nat
  type : Nat
  deriving Repr, DecidableEq

def sqfsVfsReaddir (ctx : SqfsCtx) (path : List UInt8) (address : Nat) :
    Vfs (List SqfsVfsDirent) := do
  let inode ← sqfsVfsResolvePath ctx path address
  if sqfsInodeIsDir inode.type = false then do
    sqfsInodeFree inode
    .err .enotdir
  else
    match sqfsDirRead ctx inode with
    | .err code => do
        sqfsInodeFree inode
        .err (sqfsErrToErrno code)
    | .fault => .fault
    | .ok entries => do
        sqfsInodeFree inode
        pure (entries.map fun entry =>
          { name := entry.name, ino := entry.inodeNumber, type := fileTypeBits entry.type })

/-- `sqfs_vfs_readlink` into a buffer of `size` bytes. -/
def sqfsVfsReadlink (ctx : SqfsCtx) (path : List UInt8) (address size : Nat) :
    Vfs (List UInt8) :=
  if size = 0 then
    .err .einval
  else do
    let inode ← sqfsVfsResolvePath ctx path address
    if sqfsInodeIsSymlink inode.type = false then do
      sqfsInodeFree inode
      .err .einval
    else do
      let copySize := min (inode.get .symlinkTargetSize) (size - 1)
      let target ← Outcome.ofOption inode.target
      let copied ← Outcome.ofOption (slice target 0 copySize)
      sqfsInodeFree inode
      pure (copied ++ [0])

/-! ## Extended attributes -/

def getXattrIdxFromInode (inode : SqfsInode) : Nat :=
  if sqfsInodeIsFile inode.type then inode.get .fileXattrIdx else inode.get .xattrIdx

/-- The tail that `sqfs_vfs_getxattr` and `sqfs_vfs_listxattr` share: the length as
an `int`, and the bytes written. -/
def returnXattrReply (reply : XattrReply) : Vfs (Int × List UInt8) := do
  let (outSize, written) ← reply.mapErr fun failure => sqfsErrToErrno failure.1
  pure (toInt outSize, written)

def sqfsVfsGetxattr (ctx : SqfsCtx) (path name : List UInt8) (size : Option Nat)
    (address : Nat) : Vfs (Int × List UInt8) :=
  if ctx.sb.hasXattrs = false then
    .err .eopnotsupp
  else do
    let inode ← sqfsVfsResolvePath ctx path address
    let xattrIdx := getXattrIdxFromInode inode
    sqfsInodeFree inode
    if xattrIdx = sqfsXattrInvalidIdx then
      .err .enodata
    else
      returnXattrReply (sqfsXattrGet ctx xattrIdx name size)

def sqfsVfsListxattr (ctx : SqfsCtx) (path : List UInt8) (size : Option Nat)
    (address : Nat) : Vfs (Int × List UInt8) :=
  if ctx.sb.hasXattrs = false then
    .err .eopnotsupp
  else do
    let inode ← sqfsVfsResolvePath ctx path address
    let xattrIdx := getXattrIdxFromInode inode
    sqfsInodeFree inode
    if xattrIdx = sqfsXattrInvalidIdx then
      pure (0, [])
    else
      returnXattrReply (sqfsXattrList ctx xattrIdx size)

end SquashfsFuse
