import SquashfsFuse.Core.Data
import SquashfsFuse.Core.Xattr

/-! The requests for attributes with the buffers of their callers (`xattr.c`). -/

namespace SquashfsFuse

/-! ## Strings and copies -/

def strlen (string : List UInt8) : Nat := (cString string).length

/-- `strcmp` finds no difference. -/
def strcmpEqual (left right : List UInt8) : Bool := cString left == cString right

/-- `memcpy` to a position of a buffer. Behind the buffer there is nothing to write to. -/
def memcpy (buffer : List Cell) (pos : Nat) (bytes : List UInt8) : Option (List Cell) :=
  if pos + bytes.length ≤ buffer.length then
    some (buffer.take pos ++ bytes.map some ++ buffer.drop (pos + bytes.length))
  else
    none

/-! ## Requests -/

/-- How a request ends: with `SQFS_OK` or an error, with `out_size`, and with the buffer of
the caller, which is `none` for a null pointer. -/
structure XattrAnswer where
  error : Option SqfsError
  outSize : Nat
  buffer : Option (List Cell)
  deriving Repr, DecidableEq

/-- The search of `sqfs_xattr_get` through the pairs. -/
def searchPairs (name : List UInt8) (value : Option (List Cell)) :
    List SqfsXattr → Option XattrAnswer
  | [] => some { error := some .notFound, outSize := 0, buffer := value }
  | pair :: pairs =>
      if strcmpEqual pair.key name then
        let outSize := pair.value.length
        match value with
        | none => some { error := none, outSize, buffer := none }
        | some buffer =>
            if buffer.length < outSize then
              some { error := some .overflow, outSize, buffer := some buffer }
            else do
              let buffer ← memcpy buffer 0 pair.value
              some { error := none, outSize, buffer := some buffer }
      else
        searchPairs name value pairs

/-- `sqfs_xattr_get`. The result is `none` where the call is undefined. -/
def sqfsXattrGetInto (ctx : SqfsCtx) (xattrIdx : Nat) (name : List UInt8)
    (value : Option (List Cell)) : Option XattrAnswer :=
  match ctx.xattrTable.filter SqfsXattrTable.loaded with
  | none => some { error := some .notFound, outSize := 0, buffer := value }
  | some table =>
      if xattrIdx = sqfsXattrInvalidIdx then
        some { error := some .notFound, outSize := 0, buffer := value }
      else
        match table.entries[xattrIdx]? with
        | none => some { error := some .badXattr, outSize := 0, buffer := value }
        | some entry =>
            match readXattrPairs ctx entry.xattrRef with
            | .fault => none
            | .err code => some { error := some code, outSize := 0, buffer := value }
            | .ok pairs => searchPairs name value pairs

/-- The first loop of `sqfs_xattr_list`: the size of all names. -/
def namesSize (pairs : List SqfsXattr) : Nat :=
  pairs.foldl (fun totalSize pair => u64 (totalSize + u64 (strlen pair.key + 1))) 0

/-- The second loop of `sqfs_xattr_list`. A key is closed by a NUL in memory. -/
def copyNames : (pairs : List SqfsXattr) → (pos : Nat) → (list : List Cell) →
    Option (List Cell)
  | [], _, list => some list
  | pair :: pairs, pos, list => do
      let keyLen := u64 (strlen pair.key + 1)
      let list ← memcpy list pos ((pair.key ++ [0]).take keyLen)
      copyNames pairs (pos + keyLen) list

/-- The end of `sqfs_xattr_list`, with the pairs. -/
def listPairs (pairs : List SqfsXattr) (list : Option (List Cell)) : Option XattrAnswer :=
  let outSize := namesSize pairs
  match list with
  | none => some { error := none, outSize, buffer := none }
  | some buffer =>
      if buffer.length < outSize then
        some { error := some .overflow, outSize, buffer := some buffer }
      else do
        let buffer ← copyNames pairs 0 buffer
        some { error := none, outSize, buffer := some buffer }

/-- `sqfs_xattr_list`. The result is `none` where the call is undefined. -/
def sqfsXattrListInto (ctx : SqfsCtx) (xattrIdx : Nat) (list : Option (List Cell)) :
    Option XattrAnswer :=
  match ctx.xattrTable.filter SqfsXattrTable.loaded with
  | none => some { error := some .notFound, outSize := 0, buffer := list }
  | some table =>
      if xattrIdx = sqfsXattrInvalidIdx then
        some { error := none, outSize := 0, buffer := list }
      else
        match table.entries[xattrIdx]? with
        | none => some { error := some .badXattr, outSize := 0, buffer := list }
        | some entry =>
            match readXattrPairs ctx entry.xattrRef with
            | .fault => none
            | .err code => some { error := some code, outSize := 0, buffer := list }
            | .ok pairs => listPairs pairs list

end SquashfsFuse
