import Loadable.Bytes

namespace Loadable.Checksum

-- CRC-32 as in IEEE 802.3: the reflected polynomial, all ones at the start, and
-- the remainder complemented at the end.
def polynomial : UInt32 := 0xEDB88320

def shift (crc : UInt32) : UInt32 :=
  if crc &&& 1 = 1 then (crc >>> 1) ^^^ polynomial else crc >>> 1

def shift8 (crc : UInt32) : UInt32 :=
  shift (shift (shift (shift (shift (shift (shift (shift crc)))))))

def step (crc : UInt32) (byte : UInt8) : UInt32 := shift8 (crc ^^^ byte.toUInt32)

def crc32 (bytes : Bytes) : UInt32 := ~~~(bytes.foldl step 0xFFFFFFFF)

-- "123456789", the usual check value.
example : crc32 [49, 50, 51, 52, 53, 54, 55, 56, 57] = 0xCBF43926 := by decide +kernel

end Loadable.Checksum
