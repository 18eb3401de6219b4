import Loadable.Alignment
import Loadable.Checksum
import Loadable.Format.Error

namespace Loadable.Format

-- Where the words of a module header stand.
namespace Field

def magic : Nat := 0
def version : Nat := 4
def entryOffset : Nat := 8
def payloadLength : Nat := 12
def relocationOffset : Nat := 16
def relocationCount : Nat := 20
def symbolOffset : Nat := 24
def symbolCount : Nat := 28
def bssStart : Nat := 32
def bssLength : Nat := 36
def crc32 : Nat := 40
def totalSize : Nat := 44
def entryPoint : Nat := 48
def reserved : List Nat := [52, 56, 60]

end Field

-- The checksum of a module image, which does not depend on the word that holds it.
def moduleChecksum (bytes : Bytes) : UInt32 :=
  if bytes.length < Field.crc32 + 4 then Checksum.crc32 bytes
  else Checksum.crc32 (bytes.take Field.crc32 ++ Bytes.zeros 4 ++ bytes.drop (Field.crc32 + 4))

structure Header where
  entryOffset : UInt32 := 0
  payloadLength : UInt32 := 0
  relocationOffset : UInt32 := 0
  relocationCount : UInt32 := 0
  symbolOffset : UInt32 := 0
  symbolCount : UInt32 := 0
  bssStart : UInt32 := 0
  bssLength : UInt32 := 0
  crc32 : UInt32 := 0
  totalSize : UInt32 := 0
  entryPoint : UInt32 := 0
deriving DecidableEq

namespace Header

def size : Nat := 64

def words (header : Header) : List UInt32 :=
  [moduleMagic, Version.current.versionWord?.getD 0,
    header.entryOffset, header.payloadLength, header.relocationOffset, header.relocationCount,
    header.symbolOffset, header.symbolCount, header.bssStart, header.bssLength,
    header.crc32, header.totalSize, header.entryPoint, 0, 0, 0]

def toBytes (header : Header) : Bytes := Bytes.ofWords header.words

-- The fields as they stand in an image that is known to hold a whole header.
def read (bytes : Bytes) : Header where
  entryOffset := bytes.wordD Field.entryOffset
  payloadLength := bytes.wordD Field.payloadLength
  relocationOffset := bytes.wordD Field.relocationOffset
  relocationCount := bytes.wordD Field.relocationCount
  symbolOffset := bytes.wordD Field.symbolOffset
  symbolCount := bytes.wordD Field.symbolCount
  bssStart := bytes.wordD Field.bssStart
  bssLength := bytes.wordD Field.bssLength
  crc32 := bytes.wordD Field.crc32
  totalSize := bytes.wordD Field.totalSize
  entryPoint := bytes.wordD Field.entryPoint

def parse (bytes : Bytes) : Except Error Header :=
  let truncated := Error.truncated size bytes.length
  match bytes.word? Field.magic with
  | none => .error truncated
  | some magic =>
    if magic ≠ moduleMagic then .error (.invalidMagic magic)
    else
      match Version.detect bytes with
      | some .extended => if bytes.length < size then .error truncated else .ok (read bytes)
      | some .basic => .error (.legacy .basic)
      | none =>
        match bytes.word? Field.version with
        | some word => .error (.unsupportedVersion word)
        | none => .error truncated

-- The fields that must be multiples of `alignment`, in the order they are checked.
def alignedFields (header : Header) : List (String × UInt32) :=
  [("entry_offset", header.entryOffset),
    ("payload_length", header.payloadLength),
    ("relocation_offset", header.relocationOffset),
    ("symbol_offset", header.symbolOffset),
    ("bss_length", header.bssLength),
    ("total_size", header.totalSize)]

def checkAlignment (header : Header) : Except Error Unit :=
  match header.alignedFields.find? fun field => field.2 % alignment ≠ 0 with
  | some (name, value) => .error (.misaligned name value)
  | none => .ok ()

end Header

end Loadable.Format
