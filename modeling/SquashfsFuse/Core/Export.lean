import SquashfsFuse.Core.Data
import SquashfsFuse.Core.Inode

/-! Inodes by their number, through the export table (`inode.c`). -/

namespace SquashfsFuse

/-! ## Metadata blocks in a buffer that is kept -/

/-- `sqfs_pread_all` into a buffer from `start` on. The bytes that exist are written before
the end of the file is noticed. -/
def sqfsPreadOnto (image : Image) (buffer : List Cell) (start count offset : Nat) :
    List Cell :=
  let read := if 2 ^ 63 ≤ offset + count then [] else (image.bytes.drop offset).take count
  buffer.take start ++ read.map some ++ buffer.drop (start + read.length)

/-- The end of `sqfs_meta_read_block`: the size of the block and the buffer behind it. A
decompressor leaves nothing certain behind its output, and nothing at all where it fails. -/
def unpackOnto (comp : Compressor) (placement : Placement) (stored : Sqfs (List UInt8))
    (buffer : List Cell) : Sqfs Nat × List Cell :=
  match stored with
  | .fault => (.fault, buffer)
  | .err error => (.err error, buffer)
  | .ok stored =>
      match sqfsCompressorDecompress comp placement stored sqfsMetaBlockSize with
      | .fault => (.fault, List.replicate sqfsMetaBlockSize none)
      | .err error => (.err error, List.replicate sqfsMetaBlockSize none)
      | .ok output =>
          (.ok output.length,
            output.map some ++ List.replicate (sqfsMetaBlockSize - output.length) none)

/-- `sqfs_meta_read_block` on a buffer of the caller: the size it stores, and the buffer it
leaves. -/
def sqfsMetaReadBlockOnto (image : Image) (comp : Compressor) (pos : Nat)
    (buffer : List Cell) : Sqfs Nat × List Cell :=
  match (readMetaHeader image pos).mapErr fun _ => SqfsError.io with
  | .fault => (.fault, buffer)
  | .err error => (.err error, buffer)
  | .ok header =>
      let stored := readBlockFromDisk image header.size (pos + 2)
      if header.size = 0 ∨ sqfsMetaBlockSize < header.size then
        (.err .corrupt, buffer)
      else if header.uncompressed then
        (List.length <$> stored, sqfsPreadOnto image buffer 0 header.size (pos + 2))
      else if header.size < sqfsMetaBlockSize then
        -- The end of the output buffer takes the compressed bytes.
        unpackOnto comp .tailOfOutput stored
          (sqfsPreadOnto image buffer (sqfsMetaBlockSize - header.size) header.size (pos + 2))
      else
        unpackOnto comp .separate stored buffer

/-! ## The export table -/

/-- The static variables of `sqfs_inode_load`. The buffer is `none` until it is allocated. -/
structure ExportCache where
  metaBlock : Option (List Cell)
  metaSize : Nat
  metaBlockAddr : Nat
  deriving Repr, DecidableEq

namespace ExportCache

/-- The variables at the start of the process. -/
def initial : ExportCache where
  metaBlock := none
  metaSize := 0
  metaBlockAddr := 0

def fill (ctx : SqfsCtx) (cache : ExportCache) (addr : Nat) : Sqfs Unit × ExportCache :=
  if cache.metaBlock.isSome ∧ cache.metaBlockAddr = addr then
    (.ok (), cache)
  else
    let buffer := cache.metaBlock.getD (List.replicate sqfsMetaBlockSize none)
    match sqfsMetaReadBlockOnto ctx.image ctx.comp addr buffer with
    | (.fault, buffer) => (.fault, { cache with metaBlock := some buffer })
    | (.err error, buffer) => (.err error, { cache with metaBlock := some buffer })
    | (.ok size, buffer) =>
        (.ok (), { metaBlock := some buffer, metaSize := size, metaBlockAddr := addr })

def reference (cache : ExportCache) (indexInBlock : Nat) : Sqfs Nat :=
  let offset := indexInBlock * 8
  if cache.metaSize < offset + 8 then
    .err .notFound
  else do
    let buffer ← Outcome.ofOption cache.metaBlock
    let bytes ← Outcome.ofOption (((buffer.drop offset).take 8).mapM id)
    sqfsLe64ToCpu bytes 0

end ExportCache

/-- The first half of `sqfs_inode_load`: the address in the list at `export_table` of the
metadata block for an inode number. -/
def exportMetaBlockAddr (ctx : SqfsCtx) (inodeNum : Nat) : Sqfs Nat :=
  if inodeNum = 0 then
    .err .notFound
  else if ctx.sb.hasExport = false ∨ ctx.sb.disk.exportTable = sqfsInvalidOffset then
    .err .notFound
  else do
    let blockIndex := (inodeNum - 1) / 1024
    let lookupOffset := u64 (ctx.sb.disk.exportTable + blockIndex * 8)
    let entry ← sqfsPreadAll ctx.image 8 lookupOffset
    let addr ← sqfsLe64ToCpu entry 0
    if addr = sqfsInvalidOffset ∨ addr = 0 then
      .err .notFound
    else
      pure addr

/-- `sqfs_inode_load` with its static variables. As in `sqfsInodeGetByRef`, `address` is
what `sqfs_malloc` returns for the target of a symbolic link. -/
def sqfsInodeLoad (ctx : SqfsCtx) (cache : ExportCache) (inodeNum address : Nat) :
    Sqfs SqfsInode × ExportCache :=
  match exportMetaBlockAddr ctx inodeNum with
  | .fault => (.fault, cache)
  | .err error => (.err error, cache)
  | .ok addr =>
      let (filled, cache) := cache.fill ctx addr
      (do
        filled
        let inodeRef ← cache.reference ((inodeNum - 1) % 1024)
        sqfsInodeGetByRef ctx inodeRef address, cache)

end SquashfsFuse
