import Loadable.Object.Elf.Header
import Loadable.Object.Source
import Loadable.Text.Utf8

namespace Loadable.Elf

open Loadable.Text

-- Where a symbol is defined.
inductive SymbolPlace
  | undefined
  | absolute
  | nowhere
  | common
  | inSection (index : Nat)
  | unknown
deriving DecidableEq

-- The section index that a module keeps. A reserved index without a meaning here
-- keeps its raw value.
def SymbolPlace.index (place : SymbolPlace) (raw : Option UInt16) : UInt32 :=
  match place with
  | undefined => 0
  | absolute | nowhere => 0xFFF1
  | common => 0xFFF2
  | inSection index => UInt32.ofNat index
  | unknown => (raw.map UInt16.toUInt32).getD 0

structure SymbolEntry where
  name : Nat
  value : Nat
  size : Nat
  info : Nat
  sectionIndex : Nat

namespace SymbolEntry

def read (encoding : Encoding) (record : Bytes) : SymbolEntry where
  name := encoding.field record (0, 4) (0, 4)
  value := encoding.field record (4, 4) (8, 8)
  size := encoding.field record (8, 4) (16, 8)
  info := encoding.field record (12, 1) (4, 1)
  sectionIndex := encoding.field record (14, 2) (6, 2)

def rawType (entry : SymbolEntry) : UInt8 := UInt8.ofNat (entry.info % 16)

-- `extended` is the entry of the extended index table, if the symbol has one.
def place (entry : SymbolEntry) (extended : Option Nat) : SymbolPlace :=
  match entry.sectionIndex with
  | 0 => .undefined
  | 0xFFF1 => if entry.rawType = 4 then .nowhere else .absolute
  | 0xFFF2 => .common
  | 0xFFFF =>
    match extended with
    | some 0 => .nowhere
    | some index => .inSection index
    | none => .unknown
  | index => if index < 0xFF00 then .inSection index else .unknown

end SymbolEntry

structure SymbolTable where
  -- The section it was read from, 0 if there is none.
  home : Nat := 0
  entries : List SymbolEntry := []
  strings : Option Span := none
  extended : List Nat := []

namespace SymbolTable

def strings? (sections : List SectionHeader) (link : Nat) : Except Error (Option Span) :=
  if link = 0 then .ok none
  else do
    let table ← demand sections[link]? .sectionIndex
    require (table.kind = .stringTable) .stringKind
    require table.isAddressable .stringRange
    return some table.span

-- The extended indices of the symbol table in section `home`. Every table that is
-- linked to it must be sound; the last one counts.
def extendedIndices (encoding : Encoding) (file : Bytes) (sections : List SectionHeader)
    (home : Nat) : Except Error (List Nat) := do
  let linked := sections.filter fun part => part.kind = .extendedIndices ∧ part.link = home
  let tables ← linked.mapM fun part => demand (part.records? file 4) .extendedIndices
  return (tables.getLast?.getD []).map encoding.number

-- The first section of the given kind, or an empty table.
def parse (encoding : Encoding) (file : Bytes) (sections : List SectionHeader)
    (kind : SectionKind) : Except Error SymbolTable :=
  match sections.zipIdx.find? fun entry => entry.1.kind = kind with
  | none => .ok {}
  | some (part, home) => do
    let records ← demand (part.records? file encoding.symbolSize) .symbolTable
    let strings ← strings? sections part.link
    let extended ← extendedIndices encoding file sections home
    return { home, entries := records.map (SymbolEntry.read encoding), strings, extended }

-- A name that cannot be read is empty.
def name (table : SymbolTable) (file : Bytes) (entry : SymbolEntry) : String :=
  ((stringAt? file table.strings entry.name).bind Utf8.decode?).getD ""

-- `raw` is the section index that the second pass found under the index of the symbol.
def symbol (table : SymbolTable) (file : Bytes) (raw : Option UInt16) (index : Nat)
    (entry : SymbolEntry) : RawSymbol where
  index := UInt32.ofNat index
  name := table.name file entry
  value := UInt64.ofNat entry.value
  size := UInt64.ofNat entry.size
  rawType := entry.rawType
  sectionIndex := (entry.place table.extended[index]?).index raw

-- The null entry is not listed.
def list (table : SymbolTable) (file : Bytes) (raws : List UInt16) : List RawSymbol :=
  (table.entries.zipIdx.drop 1).map fun (entry, index) => table.symbol file raws[index]? index entry

end SymbolTable

end Loadable.Elf
