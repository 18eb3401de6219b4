import Loadable.Symbol.Basic
import Loadable.Text.Numeral
import Loadable.Trace

namespace Loadable

open Loadable.Text

-- The symbols a module keeps, with the index each had in the object. A symbol is
-- known to the module by its position here.
structure SymbolTable where
  kept : List (UInt32 × Symbol) := []
  pruned : Nat := 0

namespace SymbolTable

-- Drops the symbols that nothing refers to and keeps the others in their order.
def compact (symbols : SymbolMap) : SymbolTable where
  kept := symbols.entries.filter fun entry => entry.2.references ≠ 0
  pruned := symbols.entries.countP fun entry => entry.2.references = 0

def positionOf? (table : SymbolTable) (index : UInt32) : Option UInt32 :=
  (table.kept.findIdx? fun entry => entry.1 = index).map UInt32.ofNat

def symbols (table : SymbolTable) : List Symbol := table.kept.map Prod.snd

def length (table : SymbolTable) : Nat := table.kept.length

def byteLength (table : SymbolTable) : UInt32 := 16 * UInt32.ofNat table.length

def toBytes (table : SymbolTable) : Bytes :=
  table.symbols.flatMap fun symbol => symbol.record.toBytes

def compactTrace (symbols : SymbolMap) : Trace :=
  symbols.entries.map fun (index, symbol) =>
    match (compact symbols).positionOf? index with
    | none => Trace.debug s!"  symbol `{symbol.name}` (index {index}) has no references, pruned"
    | some position =>
      Trace.debug (s!"  symbol `{symbol.name}` (index {index}) -> position {position}" ++
        s!" [{symbol.kind.name}, value {hexWord symbol.value.toNat}" ++
        s!", section {symbol.sectionIndex}, {symbol.references} reference(s)]")

end SymbolTable

end Loadable
