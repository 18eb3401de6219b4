import Loadable.Check
import Loadable.Object.Elf.Encoding
import Loadable.Object.Elf.Error

namespace Loadable.Elf

structure FileHeader where
  entry : Nat
  programOffset : Nat
  sectionOffset : Nat
  programEntrySize : Nat
  programCount : Nat
  sectionEntrySize : Nat
  sectionCount : Nat
  nameIndex : Nat

def FileHeader.read (encoding : Encoding) (file : Bytes) : FileHeader where
  entry := encoding.field file (24, 4) (24, 8)
  programOffset := encoding.field file (28, 4) (32, 8)
  sectionOffset := encoding.field file (32, 4) (40, 8)
  programEntrySize := encoding.field file (42, 2) (54, 2)
  programCount := encoding.field file (44, 2) (56, 2)
  sectionEntrySize := encoding.field file (46, 2) (58, 2)
  sectionCount := encoding.field file (48, 2) (60, 2)
  nameIndex := encoding.field file (50, 2) (62, 2)

inductive SectionKind
  | symbolTable
  | stringTable
  | rela
  | noBits
  | rel
  | dynamicSymbols
  | extendedIndices
  | other
deriving DecidableEq

def SectionKind.ofCode : Nat → SectionKind
  | 2 => symbolTable
  | 3 => stringTable
  | 4 => rela
  | 8 => noBits
  | 9 => rel
  | 11 => dynamicSymbols
  | 18 => extendedIndices
  | _ => other

def SectionKind.isRelocation (kind : SectionKind) : Bool := kind = rel || kind = rela

structure SectionHeader where
  name : Nat
  kind : SectionKind
  address : Nat
  offset : Nat
  size : Nat
  link : Nat
  info : Nat

namespace SectionHeader

def read (encoding : Encoding) (record : Bytes) : SectionHeader where
  name := encoding.field record (0, 4) (0, 4)
  kind := .ofCode (encoding.field record (4, 4) (4, 4))
  address := encoding.field record (12, 4) (16, 8)
  offset := encoding.field record (16, 4) (24, 8)
  size := encoding.field record (20, 4) (32, 8)
  link := encoding.field record (24, 4) (40, 4)
  info := encoding.field record (28, 4) (44, 4)

def span (header : SectionHeader) : Span := ⟨header.offset, header.size⟩

-- A string table is not looked into before a string is read, but its end must be a
-- 64-bit offset.
def isAddressable (header : SectionHeader) : Bool := header.span.stop < UInt64.size

def records? (header : SectionHeader) (file : Bytes) (recordSize : Nat) : Option (List Bytes) :=
  Elf.records? file header.offset header.size recordSize

end SectionHeader

def elfMagic : Bytes := [0x7F, 0x45, 0x4C, 0x46]

-- Archives, shared caches, multi-architecture files and import records, which are
-- known but not read.
def foreignMagics : List Bytes :=
  [[0x21, 0x3C, 0x61, 0x72, 0x63, 0x68, 0x3E, 0x0A],
    [0x21, 0x3C, 0x74, 0x68, 0x69, 0x6E, 0x3E, 0x0A],
    [0x64, 0x79, 0x6C, 0x64, 0x5F, 0x76, 0x31, 0x20],
    [0xCA, 0xFE, 0xBA, 0xBE],
    [0xCA, 0xFE, 0xBA, 0xBF],
    [0x00, 0x00, 0xFF, 0xFF, 0x00, 0x00]]

def dosMagic : Bytes := [0x4D, 0x5A]

-- The encoding that the first bytes of a file announce. ELF is the only format that is
-- read: COFF, Mach-O and XCOFF objects are refused for their unknown magic, and PE files
-- as DOS files.
def encodingOf (file : Bytes) : Except Error Encoding := do
  require (16 ≤ file.length) .noMagic
  require (¬ foreignMagics.any fun magic => magic.isPrefixOf file) .unsupportedFormat
  require (¬ dosMagic.isPrefixOf file) .unknownDos
  let width := file.getD 4 0
  require (elfMagic.isPrefixOf file ∧ (width = 1 ∨ width = 2)) .unknownMagic
  let order := file.getD 5 0
  let encoding : Encoding := ⟨width = 2, order = 2⟩
  require (encoding.fileHeaderSize ≤ file.length) .headerSize
  require ((order = 1 ∨ order = 2) ∧ file.getD 6 0 = 1) .unsupportedHeader
  return encoding

namespace FileHeader

-- Section header 0, which holds the counts that do not fit the file header.
def firstSection? (header : FileHeader) (encoding : Encoding) (file : Bytes) :
    Except Error (Option SectionHeader) :=
  if header.sectionOffset = 0 then .ok none
  else do
    require (header.sectionEntrySize = encoding.sectionHeaderSize) .sectionEntrySize
    let record ← demand (extent? file header.sectionOffset encoding.sectionHeaderSize)
      .firstSection
    return some (.read encoding record)

def programTotal (header : FileHeader) (encoding : Encoding) (file : Bytes) : Except Error Nat :=
  if header.programCount ≠ 0xFFFF then .ok header.programCount
  else do
    let first ← demand (← header.firstSection? encoding file) .programCountOverflow
    return first.info

-- Program headers are not used, but their table must be sound.
def checkPrograms (header : FileHeader) (encoding : Encoding) (file : Bytes) :
    Except Error Unit :=
  if header.programOffset = 0 then .ok ()
  else do
    let total ← header.programTotal encoding file
    if total = 0 then return
    require (header.programEntrySize = encoding.programHeaderSize) .programEntrySize
    require (header.programOffset + total * encoding.programHeaderSize ≤ file.length) .programTable

def sectionTotal (header : FileHeader) (encoding : Encoding) (file : Bytes) : Except Error Nat :=
  if header.sectionCount ≠ 0 then .ok header.sectionCount
  else do
    let first ← header.firstSection? encoding file
    return (first.map SectionHeader.size).getD 0

def sections (header : FileHeader) (encoding : Encoding) (file : Bytes) :
    Except Error (List SectionHeader) :=
  if header.sectionOffset = 0 then .ok []
  else do
    let total ← header.sectionTotal encoding file
    if total = 0 then return []
    let size := encoding.sectionHeaderSize
    require (header.sectionEntrySize = size) .sectionEntrySize
    let records ← demand (Elf.records? file header.sectionOffset (total * size) size) .sectionTable
    return records.map (SectionHeader.read encoding)

def nameSection (header : FileHeader) (encoding : Encoding) (file : Bytes) : Except Error Nat :=
  if header.nameIndex ≠ 0xFFFF then .ok header.nameIndex
  else do
    let first ← demand (← header.firstSection? encoding file) .nameIndexOverflow
    return first.link

-- Where the section names are. A table without bytes in the file names nothing.
def names (header : FileHeader) (encoding : Encoding) (file : Bytes)
    (sections : List SectionHeader) : Except Error (Option Span) :=
  if sections.isEmpty then .ok none
  else do
    let index ← header.nameSection encoding file
    require (index ≠ 0) .noNameIndex
    let table ← demand sections[index]? .nameIndex
    if table.kind = .noBits then return none
    require table.isAddressable .nameTableRange
    return some table.span

end FileHeader

end Loadable.Elf
