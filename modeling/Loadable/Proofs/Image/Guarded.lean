import Loadable.Proofs.Guarded
import Loadable.Proofs.Image.Acceptance

namespace Loadable.Image

open Loadable.Format
open Loadable.Text

-- The verifier once more, with everything guarded that could go wrong in it beside
-- the image itself: a cut outside of its string, and arithmetic that leaves its width.
namespace Guarded

open Loadable.Guarded

def description (image : Image) : Run Error String := do
  let area ← cut image.bytes Header.size image.header.entryOffset.toNat
  return Utf8.decodeLossy (area.takeWhile (· ≠ 0))

def payload (image : Image) : Run Error Bytes := do
  let start := image.header.entryOffset.toUInt64
  let stop ← sum64 start image.header.payloadLength.toUInt64
  cut image.bytes start.toNat stop.toNat

-- The records of a table, whose size is a product of header words.
def records (bytes : Bytes) (offset count : UInt32) : Run Error (List Bytes) := do
  let size ← product32 16 count
  let stop ← sum64 offset.toUInt64 size.toUInt64
  let table ← cut bytes offset.toNat stop.toNat
  return table.chunks 16

def relocations (image : Image) : Run Error (List Relocation) := do
  let records ← records image.bytes image.header.relocationOffset image.header.relocationCount
  return records.filterMap Relocation.decode?

def symbols (image : Image) : Run Error (List SymbolRecord) := do
  let records ← records image.bytes image.header.symbolOffset image.header.symbolCount
  return records.filterMap SymbolRecord.decode?

def checkBounds (bytes : Bytes) (offset : UInt32) (length : UInt64) (region : Region) :
    Run Error Unit := do
  let stop ← sum64 offset.toUInt64 length
  refuse (require (stop.toNat ≤ bytes.length) (.outOfBounds region))

def checkRegions (bytes : Bytes) (header : Header) : Run Error Unit := do
  refuse (require (Header.size ≤ header.entryOffset.toNat) (.outOfBounds .description))
  checkBounds bytes header.entryOffset header.payloadLength.toUInt64 .payload
  let relocationSize ← product64 16 header.relocationCount.toUInt64
  checkBounds bytes header.relocationOffset relocationSize .relocationTable
  let symbolSize ← product64 16 header.symbolCount.toUInt64
  checkBounds bytes header.symbolOffset symbolSize .symbolTable

def checkPositions (image : Image) : Run Error Unit := do
  let count := image.header.symbolCount
  match (← relocations image).zipIdx.find? fun entry => count ≤ entry.1.symbolPosition with
  | some (relocation, index) =>
    throw (.refused (.danglingPosition index relocation.symbolPosition count))
  | none => return ()

def moduleChecksum (bytes : Bytes) : Run Error UInt32 := do
  if bytes.length < Field.crc32 + 4 then return Checksum.crc32 bytes
  let before ← cut bytes 0 Field.crc32
  let after ← cut bytes (Field.crc32 + 4) bytes.length
  return Checksum.crc32 (before ++ Bytes.zeros 4 ++ after)

def parse (bytes : Bytes) : Run Error Image := do
  let header ← refuse (Header.parse bytes)
  refuse header.checkAlignment
  refuse (require (header.totalSize.toNat = bytes.length)
    (.sizeMismatch header.totalSize bytes.length))
  checkRegions bytes header
  refuse (checkReserved bytes)
  let image : Image := ⟨bytes, header⟩
  checkPositions image
  let computed ← moduleChecksum bytes
  refuse (require (computed = header.crc32) (.checksumMismatch header.crc32 computed))
  return image

end Guarded

end Loadable.Image
