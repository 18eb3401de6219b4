import Loadable.Object.Elf.Header
import Loadable.Object.Source

namespace Loadable.Elf

-- Relocation sections count only if they are linked to the symbol table and name
-- a section that they apply to.
def SectionHeader.isRelocationFor (header : SectionHeader) (symbols : Nat) : Bool :=
  header.kind.isRelocation && header.link = symbols && header.info ≠ 0

-- The section that a relocation section applies to must exist and hold no
-- relocations itself. The last sections are checked first.
def checkRelocations (sections : List SectionHeader) (symbols : Nat) : Except Error Unit :=
  sections.reverse.forM fun part =>
    if part.isRelocationFor symbols then do
      let target ← demand sections[part.info]? .relocationTarget
      require (¬ target.kind.isRelocation) .relocationOfRelocations
    else .ok ()

-- The sections whose relocations are those of section `index`: the relocation
-- sections that apply to it, in their order. Those sections form a chain, and a
-- relocation section leads on to the rest of the chain that it is in. A chain
-- ends at section 0.
def relocationChain (sections : List SectionHeader) (symbols index : Nat) : List SectionHeader :=
  let counted := sections.zipIdx.filter fun entry => entry.1.isRelocationFor symbols
  let chain : List (SectionHeader × Nat) :=
    match counted.find? fun entry => entry.2 = index with
    | some (part, _) => counted.filter fun entry => entry.1.info = part.info ∧ index < entry.2
    | none => counted.filter fun entry => entry.1.info = index
  (chain.takeWhile fun entry => entry.2 ≠ 0).map Prod.fst

-- Type and symbol share a word.
def rawRelocation (encoding : Encoding) (record : Bytes) : RawRelocation :=
  let offset := encoding.field record (0, 4) (0, 8)
  let info := encoding.field record (4, 4) (8, 8)
  let unit := if encoding.wide then UInt32.size else UInt8.size
  ⟨UInt64.ofNat offset, UInt32.ofNat (info % unit), UInt32.ofNat (info / unit)⟩

-- A relocation section that cannot be read counts as empty.
def SectionHeader.relocations (header : SectionHeader) (encoding : Encoding) (file : Bytes) :
    List RawRelocation :=
  let size := if header.kind = .rel then encoding.relSize else encoding.relaSize
  ((header.records? file size).getD []).map (rawRelocation encoding)

end Loadable.Elf
