import SquashfsFuse.Core.Utils

/-! The interface to the decompressors (`compressor.c`). -/

namespace SquashfsFuse

/-- Where the compressed bytes of a call lie: in a buffer of their own, or in
the last bytes of the output buffer, which the call may then overwrite before
it has read them. -/
inductive Placement
  | separate
  | tailOfOutput
  deriving Repr, DecidableEq

/-- `sqfs_compressor_t` with the `decompress` function of one of the supported
libraries. The result is the output of a successful call. No call writes more
than the output limit it is given. -/
structure Compressor where
  decompress : Placement → List UInt8 → Nat → Option (List UInt8)
  bounded : ∀ {placement source limit output},
    decompress placement source limit = some output → output.length ≤ limit

/-- The decompressor on a copy of the compressed bytes, wherever the caller has them. -/
def Compressor.apart (comp : Compressor) : Compressor where
  decompress _ := comp.decompress .separate
  bounded := comp.bounded

@[simp] theorem Compressor.apart_apart (comp : Compressor) : comp.apart.apart = comp.apart := rfl

/-- `sqfs_compressor_decompress` as the readers use it: all of them answer
every failure with `SQFS_ERR_CORRUPT`. -/
def sqfsCompressorDecompress (comp : Compressor) (placement : Placement)
    (source : List UInt8) (limit : Nat) : Sqfs (List UInt8) :=
  match comp.decompress placement source limit with
  | some output => .ok output
  | none => .err .corrupt

theorem sqfsCompressorDecompress_eq_ok {comp : Compressor} {placement : Placement}
    {source output : List UInt8} {limit : Nat} :
    sqfsCompressorDecompress comp placement source limit = .ok output ↔
      comp.decompress placement source limit = some output := by
  unfold sqfsCompressorDecompress
  cases comp.decompress placement source limit <;> simp

/-- Inflate restricted to a deflate stream of one final stored block: a byte
`1`, the length, the complemented length and the bytes themselves. -/
def inflateStored (source : List UInt8) (limit : Nat) : Option (List UInt8) :=
  match source with
  | 1 :: low :: high :: notLow :: notHigh :: content =>
      if leValue [notLow, notHigh] = 0xFFFF - leValue [low, high] ∧
          leValue [low, high] ≤ min content.length limit then
        some (content.take (leValue [low, high]))
      else
        none
  | _ => none

/-- A decompressor that understands the stored blocks of a raw deflate stream. -/
def storedDeflate : Compressor where
  decompress _ := inflateStored
  bounded := by
    intro placement source limit output inflated
    unfold inflateStored at inflated
    split at inflated
    · split at inflated
      · next valid =>
          cases inflated
          simp only [List.length_take]
          omega
      · contradiction
    · contradiction

end SquashfsFuse
