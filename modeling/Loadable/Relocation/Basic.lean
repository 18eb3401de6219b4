import Loadable.Bytes
import Loadable.IndexMap
import Loadable.Relocation.Region

namespace Loadable

-- A relocation as the object has it, by the index of its symbol there.
structure Candidate where
  sectionName : String
  region : TargetRegion
  offset : UInt32
  rawType : UInt32
  symbolIndex : UInt32
deriving DecidableEq

-- An entry of the relocation table of a module. The type belongs to the
-- architecture and passes through untouched.
structure Relocation where
  offset : UInt32
  rawType : UInt32
  region : TargetRegion
  symbolPosition : UInt32
deriving DecidableEq

namespace Candidate

-- How often each symbol is referred to. Symbols without a reference have no entry.
def countReferences (candidates : List Candidate) : IndexMap UInt32 :=
  candidates.foldl (fun counts candidate =>
    counts.insert candidate.symbolIndex (counts.getD candidate.symbolIndex 0 + 1)) .empty

end Candidate

namespace Relocation

def size : Nat := 16

def toBytes (relocation : Relocation) : Bytes :=
  Bytes.ofWords [relocation.offset, relocation.rawType, relocation.region.code,
    relocation.symbolPosition]

def decode? (bytes : Bytes) : Option Relocation := do
  let offset ← bytes.word? 0
  let rawType ← bytes.word? 4
  let code ← bytes.word? 8
  let symbolPosition ← bytes.word? 12
  return ⟨offset, rawType, .ofCode code, symbolPosition⟩

end Relocation

end Loadable
