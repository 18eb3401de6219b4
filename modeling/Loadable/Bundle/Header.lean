import Loadable.Format.Error

namespace Loadable.Bundle

open Loadable.Format

-- The fixed part at the start of a bundle. The offset table follows it directly,
-- one word for each module.
structure Header where
  moduleCount : UInt32
deriving DecidableEq

namespace Header

def size : Nat := 32

def toBytes (header : Header) : Bytes :=
  Bytes.ofWords ([bundleMagic, header.moduleCount] ++ List.replicate 6 0)

def firstModuleOffset (moduleCount : UInt32) : UInt64 := 32 + 4 * moduleCount.toUInt64

def parse (bytes : Bytes) : Except Error Header :=
  if bytes.length < size then .error (.truncated size bytes.length)
  else if bytes.wordD 0 ≠ bundleMagic then .error (.invalidMagic (bytes.wordD 0))
  else .ok ⟨bytes.wordD 4⟩

-- The first `count` words from `offset` on.
def readWords (bytes : Bytes) : Nat → Nat → Option (List UInt32)
  | 0, _ => some []
  | count + 1, offset =>
    match bytes.word? offset with
    | none => none
    | some word => (readWords bytes count (offset + 4)).map (word :: ·)

def offsets (header : Header) (bytes : Bytes) : Except Error (List UInt32) :=
  match readWords bytes header.moduleCount.toNat size with
  | some offsets => .ok offsets
  | none => .error (.outOfBounds .bundleOffsets)

end Header

end Loadable.Bundle
