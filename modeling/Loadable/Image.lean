import Loadable.Check
import Loadable.Format.Header
import Loadable.Relocation.Basic
import Loadable.Symbol.Basic
import Loadable.Text.Utf8

namespace Loadable

open Loadable.Format
open Loadable.Text

-- A byte string with the header that was found in it.
structure Image where
  bytes : Bytes
  header : Header
deriving DecidableEq

namespace Image

def descriptionSpan (header : Header) : Span :=
  ⟨Header.size, header.entryOffset.toNat - Header.size⟩

def payloadSpan (header : Header) : Span := ⟨header.entryOffset.toNat, header.payloadLength.toNat⟩

-- The sizes of the tables are products of header words.
def relocationSpan (header : Header) : Span :=
  ⟨header.relocationOffset.toNat, (16 * header.relocationCount).toNat⟩

def symbolSpan (header : Header) : Span :=
  ⟨header.symbolOffset.toNat, (16 * header.symbolCount).toNat⟩

def payload (image : Image) : Bytes := image.bytes.slice (payloadSpan image.header)

def relocations (image : Image) : List Relocation :=
  ((image.bytes.slice (relocationSpan image.header)).chunks Relocation.size).filterMap
    Relocation.decode?

def symbols (image : Image) : List SymbolRecord :=
  ((image.bytes.slice (symbolSpan image.header)).chunks SymbolRecord.size).filterMap
    SymbolRecord.decode?

-- The text up to its terminator, or all of its region if it has none.
def description (image : Image) : String :=
  Utf8.decodeLossy ((image.bytes.slice (descriptionSpan image.header)).takeWhile (· ≠ 0))

def checkBounds (bytes : Bytes) (offset : UInt32) (length : Nat) (region : Region) :
    Except Error Unit :=
  require (offset.toNat + length ≤ bytes.length) (.outOfBounds region)

def checkRegions (bytes : Bytes) (header : Header) : Except Error Unit := do
  require (Header.size ≤ header.entryOffset.toNat) (.outOfBounds .description)
  checkBounds bytes header.entryOffset header.payloadLength.toNat .payload
  checkBounds bytes header.relocationOffset (16 * header.relocationCount.toNat) .relocationTable
  checkBounds bytes header.symbolOffset (16 * header.symbolCount.toNat) .symbolTable

def checkReserved (bytes : Bytes) : Except Error Unit :=
  match Field.reserved.find? fun offset => bytes.wordD offset ≠ 0 with
  | some offset => .error (.reservedNotZero offset (bytes.wordD offset))
  | none => .ok ()

-- Every relocation must refer to an entry of the symbol table.
def checkPositions (image : Image) : Except Error Unit :=
  let count := image.header.symbolCount
  match image.relocations.zipIdx.find? fun entry => count ≤ entry.1.symbolPosition with
  | some (relocation, index) => .error (.danglingPosition index relocation.symbolPosition count)
  | none => .ok ()

def parse (bytes : Bytes) : Except Error Image := do
  let header ← Header.parse bytes
  header.checkAlignment
  require (header.totalSize.toNat = bytes.length) (.sizeMismatch header.totalSize bytes.length)
  checkRegions bytes header
  checkReserved bytes
  let image : Image := ⟨bytes, header⟩
  image.checkPositions
  let computed := moduleChecksum bytes
  require (computed = header.crc32) (.checksumMismatch header.crc32 computed)
  return image

end Image

end Loadable
