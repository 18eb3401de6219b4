import Loadable.Build.Assembler
import Loadable.Object.Source

namespace Loadable

open Loadable.Text

-- What a module build takes from an object.
structure Inspection where
  entryPoint : UInt32
  bss : BssRegion
  -- All symbols, each with the number of candidates that refer to it.
  symbols : SymbolMap
  -- The relocations of the exported sections.
  candidates : List Candidate

namespace RawSymbol

def symbol (raw : RawSymbol) (references : UInt32) : Except BuildError Symbol := do
  let value ← narrow "symbol value" raw.value.toNat
  let size ← narrow "symbol size" raw.size.toNat
  return ⟨value, size, raw.name, .ofRaw raw.rawType, raw.sectionIndex, references⟩

end RawSymbol

namespace RelocatedSection

def region (place : RelocatedSection) : TargetRegion := .ofSectionName place.name

def candidate (place : RelocatedSection) (raw : RawRelocation) : Except BuildError Candidate := do
  let offset ← narrow "relocation offset" raw.offset.toNat
  return ⟨place.name, place.region, offset, raw.rawType, raw.symbolIndex⟩

-- None for a section that is not exported; its offsets may be anything.
def candidates (place : RelocatedSection) : Except BuildError (List Candidate) :=
  if place.region.isExported then place.relocations.mapM place.candidate else .ok []

end RelocatedSection

namespace Source

def entryPoint (source : Source) : Except BuildError UInt32 :=
  narrow "entry point" source.entry.toNat

def bssSection? (sections : List SectionInfo) : Option SectionInfo :=
  sections.find? fun part => part.name = ".bss"

def bss (sections : List SectionInfo) : Except BuildError BssRegion :=
  match bssSection? sections with
  | none => .ok {}
  | some part => do
    let start ← narrow "bss start" part.address.toNat
    let length ← narrow "bss length" part.size.toNat
    return ⟨start, length⟩

def presentSymbols (source : Source) : Except BuildError (List RawSymbol) := do
  match ← source.symbols with
  | some symbols => return symbols
  | none => throw .missingSymbolTable

def candidates (relocated : List RelocatedSection) : Except BuildError (List Candidate) :=
  (relocated.mapM RelocatedSection.candidates).map List.flatten

-- Every symbol under its index, the last of those that share one. There is always
-- a null symbol.
def symbolMap (raws : List RawSymbol) (candidates : List Candidate) :
    Except BuildError SymbolMap := do
  let counts := Candidate.countReferences candidates
  let entries ← raws.mapM fun raw => do
    let symbol ← raw.symbol (counts.getD raw.index 0)
    return (raw.index, symbol)
  let symbols := IndexMap.ofList entries
  if symbols.contains 0 then return symbols
  return symbols.insert 0 { Symbol.null with references := counts.getD 0 0 }

def inspect (source : Source) : Except BuildError Inspection := do
  let entryPoint ← source.entryPoint
  let sections ← source.sections
  let bss ← bss sections
  let raws ← source.presentSymbols
  let relocated ← source.relocated
  let candidates ← candidates relocated
  let symbols ← symbolMap raws candidates
  return ⟨entryPoint, bss, symbols, candidates⟩

def sectionRecord (part : SectionInfo) : Record :=
  Trace.debug (s!"  [{part.index}] {part.name}" ++
    s!" (address: {hex part.address.toNat}, size: {part.size})")

def bssRecord (sections : List SectionInfo) : Record :=
  match bssSection? sections with
  | none => Trace.debug "no bss section found"
  | some part =>
    Trace.debug s!"bss section found (start: {hex part.address.toNat}, size: {part.size})"

def relocatedRecord (place : RelocatedSection) : Record :=
  if place.region.isExported then
    Trace.debug (s!"{place.relocations.length} relocation(s)" ++
      s!" in `{place.name}` ({place.region.name})")
  else Trace.debug s!"relocations in `{place.name}` ignored"

-- Sections are told about one by one, up to the first that cannot be taken.
def relocatedTrace : List RelocatedSection → Trace
  | [] => []
  | place :: rest =>
    relocatedRecord place :: Trace.after place.candidates fun _ => relocatedTrace rest

def inspectTrace (source : Source) : Trace :=
  .after source.entryPoint fun entryPoint =>
    Trace.debug s!"entry point: {hexWord entryPoint.toNat}" ::
      Trace.after source.sections fun sections =>
        Trace.debug "sections:" :: sections.map sectionRecord ++ bssRecord sections ::
          Trace.after (bss sections) fun _ =>
            .after source.presentSymbols fun _ =>
              .after source.relocated relocatedTrace

end Source

end Loadable
