import Loadable.Build.Layout
import Loadable.Build.Stream
import Loadable.Format.Header
import Loadable.Relocation.Table

namespace Loadable

open Loadable.Format
open Loadable.Text

-- Zero-initialised memory that a module asks for.
structure BssRegion where
  start : UInt32 := 0
  length : UInt32 := 0
deriving DecidableEq

def BssRegion.padded (bss : BssRegion) : Except BuildError UInt32 :=
  narrow "padded bss length" (pad64 bss.length.toUInt64).toNat

-- Everything that goes into a module, with sizes that are known to fit.
structure Assembler where
  description : Description
  payload : Bytes
  relocations : RelocationTable
  symbols : SymbolTable
  bss : BssRegion
  paddedBssLength : UInt32
  entryPoint : UInt32
  layout : Layout

namespace Assembler

def make (description : Description) (payload : Bytes) (relocations : RelocationTable)
    (symbols : SymbolTable) (bss : BssRegion) (entryPoint : UInt32) :
    Except BuildError Assembler := do
  let layout ← Layout.compute description payload.length relocations.length symbols.length
  let paddedBssLength ← bss.padded
  return { description, payload, relocations, symbols, bss, paddedBssLength, entryPoint, layout }

-- The header of the first pass. Checksum and total size are not known yet.
def header (assembler : Assembler) : Header where
  entryOffset := assembler.layout.entryOffset
  payloadLength := assembler.layout.paddedPayloadLength
  relocationOffset := assembler.layout.relocationOffset
  relocationCount := assembler.layout.relocationCount
  symbolOffset := assembler.layout.symbolOffset
  symbolCount := assembler.layout.symbolCount
  bssStart := assembler.bss.start
  bssLength := assembler.paddedBssLength
  entryPoint := assembler.entryPoint

def writeHeader (header : Header) : Write Unit :=
  header.words.forM fun word => Stream.write (Bytes.ofWord word)

def writePadding (length : UInt32) : Write Unit := Stream.write (Bytes.zeros length.toNat)

-- The first pass. The stream must stand at the start of the module; the answer is
-- where it stands afterwards.
def writeSections (assembler : Assembler) : Write Nat := do
  let layout := assembler.layout
  writeHeader assembler.header
  let position := (← get).position
  if position ≠ Header.size then throw (.headerSizeMismatch Header.size position)
  Stream.write assembler.description.bytes
  writePadding (layout.paddedDescriptionLength - layout.descriptionLength)
  Stream.write assembler.payload
  writePadding (layout.paddedPayloadLength - layout.payloadLength)
  Stream.write assembler.relocations.toBytes
  Stream.write assembler.symbols.toBytes
  return (← get).position

-- The second pass: the total size, then the checksum over the complete file.
def finalize (content : Bytes) (totalSize : UInt32) : UInt32 × Bytes :=
  let sized := content.overwrite Field.totalSize (Bytes.ofWord totalSize)
  let crc32 := moduleChecksum sized
  (crc32, sized.overwrite Field.crc32 (Bytes.ofWord crc32))

-- Both passes over an empty growing stream.
def assembleWith (assembler : Assembler) : Except BuildError (Header × Bytes) :=
  match assembler.writeSections.run {} with
  | .error error _ => .error error
  | .ok written stream => do
    let totalSize ← narrow "module size" written
    let (crc32, content) := finalize stream.content totalSize
    return ({ assembler.header with crc32, totalSize }, content)

def assemble (assembler : Assembler) : Except BuildError Bytes :=
  assembler.assembleWith.map Prod.snd

def headerTrace (header : Header) : Trace :=
  Trace.debug "header:" ::
    header.words.zipIdx.map fun (word, index) =>
      let place := padLeft ' ' 2 (toString index)
      Trace.debug s!"  [{place}] {hexBytes (Bytes.ofWord word)}"

def finalizeTrace (content : Bytes) (totalSize : UInt32) : Trace :=
  let (crc32, content) := finalize content totalSize
  [Trace.debug s!"calculated CRC32: {hexWord crc32.toNat} over {content.length} bytes"]

def assembleTrace (assembler : Assembler) : Trace :=
  headerTrace assembler.header ++ .after assembler.assembleWith fun (header, content) =>
    finalizeTrace content header.totalSize

end Assembler

end Loadable
