import Loadable.Bytes
import Loadable.IndexMap
import Loadable.Symbol.Kind

namespace Loadable

structure Symbol where
  value : UInt32
  size : UInt32
  -- For messages only, never written to a module.
  name : String
  kind : SymbolKind
  sectionIndex : UInt32
  -- How many exported relocations refer to the symbol.
  references : UInt32
deriving DecidableEq

-- What a module keeps of a symbol.
structure SymbolRecord where
  value : UInt32
  sectionIndex : UInt32
  typeCode : UInt32
deriving DecidableEq

-- The symbols of an object by their index in its symbol table.
abbrev SymbolMap := IndexMap Symbol

namespace Symbol

-- The first entry of every symbol table.
def null : Symbol := ⟨0, 0, "", .noType, 0, 0⟩

def record (symbol : Symbol) : SymbolRecord :=
  ⟨symbol.value, symbol.sectionIndex, symbol.kind.code⟩

end Symbol

namespace SymbolRecord

def size : Nat := 16

-- The fourth word is reserved.
def toBytes (record : SymbolRecord) : Bytes :=
  Bytes.ofWords [record.value, record.sectionIndex, record.typeCode, 0]

def decode? (bytes : Bytes) : Option SymbolRecord := do
  let value ← bytes.word? 0
  let sectionIndex ← bytes.word? 4
  let typeCode ← bytes.word? 8
  return ⟨value, sectionIndex, typeCode⟩

end SymbolRecord

end Loadable
