import Loadable.Bytes

namespace Loadable.Elf

-- The class and byte order of a file.
structure Encoding where
  wide : Bool
  bigEndian : Bool
deriving DecidableEq

-- Offset and size of a field inside its record.
abbrev Place := Nat × Nat

namespace Encoding

def number (encoding : Encoding) (bytes : Bytes) : Nat :=
  if encoding.bigEndian then bytes.foldl (fun value byte => 256 * value + byte.toNat) 0
  else bytes.foldr (fun byte value => byte.toNat + 256 * value) 0

-- A field of a record. The two classes keep it in different places.
def field (encoding : Encoding) (record : Bytes) (narrow wide : Place) : Nat :=
  let place := if encoding.wide then wide else narrow
  encoding.number (record.slice ⟨place.1, place.2⟩)

def choose (encoding : Encoding) (narrow wide : Nat) : Nat :=
  if encoding.wide then wide else narrow

def fileHeaderSize (encoding : Encoding) : Nat := encoding.choose 52 64
def programHeaderSize (encoding : Encoding) : Nat := encoding.choose 32 56
def sectionHeaderSize (encoding : Encoding) : Nat := encoding.choose 40 64
def symbolSize (encoding : Encoding) : Nat := encoding.choose 16 24
def relSize (encoding : Encoding) : Nat := encoding.choose 8 16
def relaSize (encoding : Encoding) : Nat := encoding.choose 12 24

end Encoding

-- The part of a file that a table claims, if the file is that long.
def extent? (file : Bytes) (offset size : Nat) : Option Bytes :=
  if offset + size ≤ file.length then some (file.slice ⟨offset, size⟩) else none

-- The records of a table that must be whole.
def records? (file : Bytes) (offset size recordSize : Nat) : Option (List Bytes) :=
  match extent? file offset size with
  | none => none
  | some table => if size % recordSize = 0 then some (table.chunks recordSize) else none

-- The bytes of a string table from `offset` up to their terminator. The table must
-- lie in the file and the terminator in the table.
def stringAt? (file : Bytes) (table : Option Span) (offset : Nat) : Option Bytes :=
  match table with
  | none => none
  | some span =>
    let start := span.start + offset
    if start ≤ span.stop ∧ span.stop ≤ file.length then
      let rest := file.slice ⟨start, span.stop - start⟩
      if 0 ∈ rest then some (rest.takeWhile (· ≠ 0)) else none
    else none

end Loadable.Elf
