import Loadable.Object.Elf.Relocations
import Loadable.Object.Elf.Symbols

namespace Loadable.Elf

open Loadable.Text

-- An object file whose tables are sound. Names are only looked up when they are
-- asked for, so they may still be unreadable.
structure File where
  content : Bytes
  encoding : Encoding
  entry : Nat
  sections : List SectionHeader
  names : Option Span
  symbols : SymbolTable

namespace File

def parse (content : Bytes) : Except Error File := do
  let encoding ← encodingOf content
  let header := FileHeader.read encoding content
  header.checkPrograms encoding content
  let sections ← header.sections encoding content
  let names ← header.names encoding content sections
  let symbols ← SymbolTable.parse encoding content sections .symbolTable
  let _ ← SymbolTable.parse encoding content sections .dynamicSymbols
  checkRelocations sections symbols.home
  return ⟨content, encoding, header.entry, sections, names, symbols⟩

def sectionName (file : File) (part : SectionHeader) : Except Error String := do
  let name ← demand (stringAt? file.content file.names part.name) .nameOffset
  demand (Utf8.decode? name) .nameNotUtf8

-- Section 0 is not listed.
def listed (file : File) : List (SectionHeader × Nat) := file.sections.zipIdx.drop 1

def sectionInfo (file : File) (part : SectionHeader) (index : Nat) : Except Error SectionInfo := do
  let name ← file.sectionName part
  return ⟨index, name, UInt64.ofNat part.address, UInt64.ofNat part.size⟩

def relocations (file : File) (index : Nat) : List RawRelocation :=
  (relocationChain file.sections file.symbols.home index).flatMap fun part =>
    part.relocations file.encoding file.content

-- Sections without relocations are left out, and their names are not looked at.
def relocatedSection? (file : File) (part : SectionHeader) (index : Nat) :
    Except Error (Option RelocatedSection) :=
  match file.relocations index with
  | [] => .ok none
  | relocations => do
    let name ← file.sectionName part
    return some ⟨name, relocations⟩

def sectionList (file : File) : Except Error (List SectionInfo) :=
  file.listed.mapM fun (part, index) => file.sectionInfo part index

def relocatedList (file : File) : Except Error (List RelocatedSection) := do
  let parts ← file.listed.mapM fun (part, index) => file.relocatedSection? part index
  return parts.filterMap id

-- The raw section index of every symbol, the null entry included. The file is read a second
-- time for them.
def rawSectionIndices (file : File) : Except Error (List UInt16) := do
  let header := FileHeader.read file.encoding file.content
  let sections ← header.sections file.encoding file.content
  let _ ← header.names file.encoding file.content sections
  let symbols ← SymbolTable.parse file.encoding file.content sections .symbolTable
  return symbols.entries.map fun entry => UInt16.ofNat entry.sectionIndex

-- A symbol table without any entry is none.
def symbolList (file : File) : Except Error (Option (List RawSymbol)) :=
  if file.symbols.entries.isEmpty then .ok none
  else do
    let raws ← file.rawSectionIndices
    return some (file.symbols.list file.content raws)

def source (file : File) : Source where
  entry := UInt64.ofNat file.entry
  sections := file.sectionList.mapError .object
  symbols := file.symbolList.mapError .object
  relocated := file.relocatedList.mapError .object

end File

-- What an object file offers, if it is one.
def readSource (content : Bytes) : Except BuildError Source :=
  ((File.parse content).map File.source).mapError .object

end Loadable.Elf
