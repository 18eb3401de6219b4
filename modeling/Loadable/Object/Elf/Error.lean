namespace Loadable.Elf

-- Why a file is no object that can be read.
inductive Error
  | noMagic
  | unsupportedFormat
  | unknownDos
  | unknownMagic
  | headerSize
  | unsupportedHeader
  | programCountOverflow
  | programEntrySize
  | programTable
  | sectionEntrySize
  | sectionTable
  | firstSection
  | nameIndexOverflow
  | noNameIndex
  | nameIndex
  | nameTableRange
  | nameOffset
  | nameNotUtf8
  | symbolTable
  | extendedIndices
  | sectionIndex
  | stringKind
  | stringRange
  | relocationTarget
  | relocationOfRelocations
deriving DecidableEq

def Error.message : Error → String
  | noMagic => "Could not read file magic"
  | unsupportedFormat => "Unsupported file format"
  | unknownDos => "Unknown MS-DOS file"
  | unknownMagic => "Unknown file magic"
  | headerSize => "Invalid ELF header size or alignment"
  | unsupportedHeader => "Unsupported ELF header"
  | programCountOverflow => "Missing ELF section headers for e_phnum overflow"
  | programEntrySize => "Invalid ELF program header entry size"
  | programTable => "Invalid ELF program header size or alignment"
  | sectionEntrySize => "Invalid ELF section header entry size"
  | sectionTable => "Invalid ELF section header offset/size/alignment"
  | firstSection => "Invalid ELF section header offset or size"
  | nameIndexOverflow => "Missing ELF section headers for e_shstrndx overflow"
  | noNameIndex => "Missing ELF e_shstrndx"
  | nameIndex => "Invalid ELF e_shstrndx"
  | nameTableRange => "Invalid ELF shstrtab size"
  | nameOffset => "Invalid ELF section name offset"
  | nameNotUtf8 => "Non UTF-8 ELF section name"
  | symbolTable => "Invalid ELF symbol table data"
  | extendedIndices => "Invalid ELF symtab_shndx data"
  | sectionIndex => "Invalid ELF section index"
  | stringKind => "Invalid ELF string section type"
  | stringRange => "Invalid ELF string section offset or size"
  | relocationTarget => "Invalid ELF sh_info for relocation section"
  | relocationOfRelocations => "Unsupported ELF sh_info for relocation section"

end Loadable.Elf
