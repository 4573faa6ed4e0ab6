import SquashfsFuse.Core.Data

/-! Reads across metadata blocks (`sqfs_meta_read` in `data.c`). -/

namespace SquashfsFuse

/-- `block_buf` once a block is unpacked into it. The cells behind the block were never
written, or hold bytes of the block before or scratch data of the decompressor: they count as
indeterminate. -/
def metaBlockBuf (block : List UInt8) : List Cell :=
  block.map some ++ List.replicate (sqfsMetaBlockSize - block.length) none

/-- What `memcpy` takes from a buffer. Beyond the buffer it may take nothing. -/
def memcpyFrom (buf : List Cell) (start length : Nat) : Option (List Cell) :=
  if start + length ≤ buf.length then some ((buf.drop start).take length) else none

/-- The locals of the loop of `sqfs_meta_read`. The bytes of the caller's buffer that
are written so far stand for `bytes_read`. -/
structure MetaReadState where
  blockPos : Nat
  blockOffset : Nat
  copied : List Cell
  bytesRemaining : Nat

/-- How many bytes a pass copies. The difference wraps when the offset lies behind the
block. -/
def metaReadToCopy (blockSize blockOffset bytesRemaining : Nat) : Nat :=
  let available := sub64 blockSize blockOffset
  if bytesRemaining < available then bytesRemaining else available

/-- The body of the loop of `sqfs_meta_read`. -/
def sqfsMetaReadBody (image : Image) (comp : Compressor) (state : MetaReadState) :
    Sqfs MetaReadState := do
  let block ← sqfsMetaReadBlock image comp state.blockPos
  let toCopy := metaReadToCopy block.length state.blockOffset state.bytesRemaining
  -- The source of the copy is the buffer of the block, not only what was unpacked.
  let part ← Outcome.ofOption (memcpyFrom (metaBlockBuf block) state.blockOffset toCopy)
  let copied := state.copied ++ part
  let bytesRemaining := state.bytesRemaining - toCopy
  if bytesRemaining = 0 then
    pure { state with copied, bytesRemaining }
  else do
    let header ← readBlockFromDisk image 2 state.blockPos
    let compressedSize := (MetaHeader.ofWord (leValue header)).size
    pure {
      blockPos := u64 (state.blockPos + (2 + compressedSize))
      blockOffset := 0
      copied
      bytesRemaining }

/-- One pass through the loop of `sqfs_meta_read`. -/
def sqfsMetaReadPass (image : Image) (comp : Compressor) (state : MetaReadState) :
    Pass MetaReadState (Sqfs (List Cell)) :=
  if 0 < state.bytesRemaining then
    match sqfsMetaReadBody image comp state with
    | .ok next => .again next
    | .err code => .leave (.err code)
    | .fault => .leave .fault
  else
    .leave (.ok state.copied)

/-- The loop of `sqfs_meta_read`. Every pass but the last moves on by two bytes of the
image or more, so there is fuel enough. -/
def sqfsMetaReadLoop (image : Image) (comp : Compressor) (state : MetaReadState) :
    Sqfs (List Cell) :=
  match Pass.iterate (sqfsMetaReadPass image comp) (image.bytes.length + 2) state with
  | some result => result
  | none => .fault

/-- `sqfs_meta_read`: the bytes of the caller's buffer. -/
def sqfsMetaRead (image : Image) (ref size : Nat) (comp : Compressor) (tableStart : Nat) :
    Sqfs (List Cell) :=
  if size = 0 then
    pure []
  else
    sqfsMetaReadLoop image comp {
      blockPos := u64 (sqfsMetaRefPos ref + tableStart)
      blockOffset := sqfsMetaRefOffset ref
      copied := []
      bytesRemaining := size }

end SquashfsFuse
