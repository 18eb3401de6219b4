import Loadable.Diagnostic
import Loadable.Relocation.Basic
import Loadable.Relocation.Names
import Loadable.Symbol.Table

namespace Loadable

open Loadable.Text

structure RelocationTable where
  entries : List Relocation := []

namespace Candidate

def relocation (candidate : Candidate) (position : UInt32) : Relocation :=
  ⟨candidate.offset, candidate.rawType, candidate.region, position⟩

def dangling (candidate : Candidate) : Diagnostic :=
  .danglingRelocation candidate.sectionName candidate.offset candidate.symbolIndex

end Candidate

namespace RelocationTable

-- Turns candidates into entries, by the positions of their symbols. A candidate
-- whose symbol was not kept is left out, with a warning at the end of the log.
def encode (symbols : SymbolTable) (log : BuildLog) : List Candidate → RelocationTable × BuildLog
  | [] => ({}, log)
  | candidate :: rest =>
    match symbols.positionOf? candidate.symbolIndex with
    | some position =>
      let (table, log) := encode symbols log rest
      (⟨candidate.relocation position :: table.entries⟩, log)
    | none => encode symbols (log ++ [candidate.dangling]) rest

def length (table : RelocationTable) : Nat := table.entries.length

def byteLength (table : RelocationTable) : UInt32 := 16 * UInt32.ofNat table.length

def toBytes (table : RelocationTable) : Bytes := table.entries.flatMap Relocation.toBytes

def encodeTrace (candidates : List Candidate) (symbols : SymbolTable) : Trace :=
  candidates.map fun candidate =>
    match symbols.positionOf? candidate.symbolIndex with
    | none => candidate.dangling.record
    | some position =>
      Trace.debug (s!"  {candidate.sectionName}+{hexWord candidate.offset.toNat}" ++
        s!" {Relocation.armName candidate.rawType} ({candidate.rawType})" ++
        s!" -> symbol position {position}")

end RelocationTable

end Loadable
