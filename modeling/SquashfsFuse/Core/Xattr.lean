import Mathlib.Data.List.TakeWhile
import SquashfsFuse.Core.Context

/-! Extended attributes (`xattr.c`, `xattr.h`). -/

namespace SquashfsFuse

/-- The bytes of a C string up to its NUL. -/
def cString (bytes : List UInt8) : List UInt8 := bytes.takeWhile (· != 0)

theorem cString_noNul (string : List UInt8) : 0 ∉ cString string := by
  intro member
  have kept := List.mem_takeWhile_imp member
  simp at kept

theorem cString_of_notMem {bytes : List UInt8} (text : 0 ∉ bytes) : cString bytes = bytes := by
  rw [cString, List.takeWhile_eq_self_iff]
  intro byte member
  rw [bne_iff_ne]
  rintro rfl
  exact text member

/-! ## Prefixes -/

inductive SqfsXattrPrefix
  | user
  | trusted
  | security
  deriving Repr, DecidableEq

namespace SqfsXattrPrefix

/-- The low byte of the type of a key (`sqfs_xattr_parse_type`) with the check that
it is a known prefix. -/
def ofType (type : Nat) : Option SqfsXattrPrefix :=
  match type &&& 0x00FF with
  | 0 => some user
  | 1 => some trusted
  | 2 => some security
  | _ => none

/-- `sqfs_xattr_prefix_str`. -/
def str (kind : SqfsXattrPrefix) : List UInt8 :=
  let chars := match kind with
    | user => ['u', 's', 'e', 'r', '.']
    | trusted => ['t', 'r', 'u', 's', 't', 'e', 'd', '.']
    | security => ['s', 'e', 'c', 'u', 'r', 'i', 't', 'y', '.']
  chars.map fun char => UInt8.ofNat char.toNat

end SqfsXattrPrefix

/-! ## Pairs -/

/-- `sqfs_xattr_t`. The key stands without its terminating NUL. -/
structure SqfsXattr where
  key : List UInt8
  value : List UInt8
  deriving Repr, DecidableEq

/-- The counting pass of `read_xattr_pairs` from `pos` on. Every pass of the loop
takes eight bytes or more, so the number of bytes is fuel enough. -/
def countXattrPairs (data : List UInt8) (remaining : Nat) : (fuel pos : Nat) → Sqfs Nat
  | fuel, pos =>
      if pos + 4 ≤ remaining then
        match fuel with
        | 0 => .fault
        | fuel + 1 => do
            let type ← sqfsLe16ToCpu data pos
            let nameSize ← sqfsLe16ToCpu data (pos + 2)
            match SqfsXattrPrefix.ofType type with
            | none => .err .badXattr
            | some _ =>
                let pos := pos + 4 + nameSize
                if remaining < pos + 4 then
                  .err .badXattr
                else do
                  let valueSize ← sqfsLe32ToCpu data pos
                  let pos := pos + 4 + valueSize
                  if remaining < pos then
                    .err .badXattr
                  else do
                    let count ← countXattrPairs data remaining fuel pos
                    pure (count + 1)
      else
        pure 0

/-- The filling pass of `read_xattr_pairs` from `pos` on. A slot that is not filled
would have a null key. -/
def fillXattrPairs (data : List UInt8) (remaining : Nat) :
    (pairCount pos : Nat) → Sqfs (List SqfsXattr)
  | 0, _ => pure []
  | pairCount + 1, pos =>
      if pos + 4 ≤ remaining then do
        let type ← sqfsLe16ToCpu data pos
        let nameSize ← sqfsLe16ToCpu data (pos + 2)
        match SqfsXattrPrefix.ofType type with
        | none => .fault
        | some kind => do
            let name ← Outcome.ofOption (slice data (pos + 4) nameSize)
            let pos := pos + 4 + nameSize
            let valueSize ← sqfsLe32ToCpu data pos
            let value ← Outcome.ofOption (slice data (pos + 4) valueSize)
            let others ← fillXattrPairs data remaining pairCount (pos + 4 + valueSize)
            pure ({ key := kind.str ++ name, value } :: others)
      else
        .fault

/-- `read_xattr_pairs`. Nothing is known of the buffer behind the block. -/
def readXattrPairs (ctx : SqfsCtx) (ref : Nat) : Sqfs (List SqfsXattr) := do
  let table ← Outcome.ofOption ctx.xattrTable
  let block ← readMetadataBlockInternal ctx.image ctx.comp
    (u64 (table.tableStart + sqfsMetaRefPos ref))
  let data := block.drop (sqfsMetaRefOffset ref)
  let remaining := sub64 block.length (sqfsMetaRefOffset ref)
  let pairCount ← countXattrPairs data remaining data.length 0
  if pairCount = 0 then
    pure []
  else
    fillXattrPairs data remaining pairCount 0

/-! ## The ID table -/

/-- The packed little-endian layout of `sqfs_xattr_id_entry_t`. -/
def SqfsXattrIdEntry.ofBytes (bytes : List UInt8) (offset : Nat) : Option SqfsXattrIdEntry := do
  return {
    xattrRef := ← loadLe 8 bytes offset
    count := ← loadLe 4 bytes (offset + 8)
    size := ← loadLe 4 bytes (offset + 12) }

/-- The read of one entry in `read_xattr_id_table`. -/
def readXattrIdEntry (image : Image) (offset : Nat) : Sqfs SqfsXattrIdEntry := do
  let entry ← sqfsPreadAll image 16 offset
  Outcome.ofOption (SqfsXattrIdEntry.ofBytes entry 0)

/-- `read_xattr_id_table`. The 18 bytes are the size of `sqfs_xattr_table_header_t`. -/
def readXattrIdTable (image : Image) (xattrTableOffset : Nat) : Sqfs SqfsXattrTable := do
  let header ← sqfsPreadAll image 18 xattrTableOffset
  let tableStart ← sqfsLe64ToCpu header 0
  let xattrIds ← sqfsLe64ToCpu header 8
  if xattrIds < 2 ^ 32 - 1 then do
    let entriesOffset := u64 (xattrTableOffset + 18)
    let entries ← (List.range xattrIds).mapM fun i =>
      readXattrIdEntry image (u64 (entriesOffset + i * 16))
    pure { entries, tableStart, loaded := true }
  else
    .err .corrupt

/-- `sqfs_xattr_table_load`: the table it leaves in the context. There is none when it
fails. -/
def sqfsXattrTableLoad (ctx : SqfsCtx) : Sqfs SqfsXattrTable :=
  if ctx.sb.disk.flags &&& squashfsFlagNoXattrs ≠ 0 then
    .err .notFound
  else if sqfsTableValid ctx.sb.disk.xattrTable = false then
    .err .notFound
  else
    readXattrIdTable ctx.image ctx.sb.disk.xattrTable

/-! ## Requests -/

/-- What a request returns: `out_size` and the bytes written to the caller's
buffer, or an error code and `out_size`. -/
abbrev XattrReply := Outcome (SqfsError × Nat) (Nat × List UInt8)

def sqfsXattrInvalidIdx : Nat := 0xFFFFFFFF

/-- The pairs of an index, as `sqfs_xattr_get` and `sqfs_xattr_list` obtain them
behind the check of the index. -/
def xattrPairsOfIdx (ctx : SqfsCtx) (table : SqfsXattrTable) (xattrIdx : Nat) :
    Sqfs (List SqfsXattr) :=
  match table.entries[xattrIdx]? with
  | none => .err .badXattr
  | some entry => readXattrPairs ctx entry.xattrRef

/-- The two outcomes of a request for bytes of the caller: `none` is a null buffer,
which asks for the size. -/
def replyWithBytes (bytes : List UInt8) : (size : Option Nat) → XattrReply
  | none => .ok (bytes.length, [])
  | some size =>
      if size < bytes.length then .err (.overflow, bytes.length)
      else .ok (bytes.length, bytes)

/-- `sqfs_xattr_get` with a buffer of `size` bytes. -/
def sqfsXattrGet (ctx : SqfsCtx) (xattrIdx : Nat) (name : List UInt8) (size : Option Nat) :
    XattrReply :=
  match ctx.xattrTable.filter SqfsXattrTable.loaded with
  | none => .err (.notFound, 0)
  | some table =>
      if xattrIdx = sqfsXattrInvalidIdx then
        .err (.notFound, 0)
      else do
        let pairs ← (xattrPairsOfIdx ctx table xattrIdx).mapErr fun code => (code, 0)
        match pairs.find? fun pair => cString pair.key == name with
        | none => .err (.notFound, 0)
        | some pair => replyWithBytes pair.value size

/-- `sqfs_xattr_list` with a buffer of `size` bytes. -/
def sqfsXattrList (ctx : SqfsCtx) (xattrIdx : Nat) (size : Option Nat) : XattrReply :=
  match ctx.xattrTable.filter SqfsXattrTable.loaded with
  | none => .err (.notFound, 0)
  | some table =>
      if xattrIdx = sqfsXattrInvalidIdx then
        .ok (0, [])
      else do
        let pairs ← (xattrPairsOfIdx ctx table xattrIdx).mapErr fun code => (code, 0)
        replyWithBytes (pairs.flatMap fun pair => cString pair.key ++ [0]) size

end SquashfsFuse
