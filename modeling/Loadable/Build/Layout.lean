import Loadable.Build.Description
import Loadable.Build.Error

namespace Loadable

-- Where the regions of a module lie: header, description, payload, relocation
-- table, symbol table.
structure Layout where
  descriptionLength : UInt32
  paddedDescriptionLength : UInt32
  payloadLength : UInt32
  paddedPayloadLength : UInt32
  entryOffset : UInt32
  relocationOffset : UInt32
  relocationCount : UInt32
  symbolOffset : UInt32
  symbolCount : UInt32
  totalSize : UInt32
deriving DecidableEq

namespace Layout

-- Offsets are added up in 64 bits and must then fit a header word.
def relocationStart (entryOffset paddedPayloadLength : UInt32) : UInt64 :=
  entryOffset.toUInt64 + paddedPayloadLength.toUInt64

def symbolStart (relocationStart : UInt64) (relocationCount : UInt32) : UInt64 :=
  relocationStart + 16 * relocationCount.toUInt64

def moduleEnd (symbolStart : UInt64) (symbolCount : UInt32) : UInt64 :=
  symbolStart + 16 * symbolCount.toUInt64

def compute (description : Description)
    (payloadLength relocationCount symbolCount : Nat) : Except BuildError Layout := do
  let payloadLength ← narrow "payload length" payloadLength
  let relocationCount ← narrow "relocation count" relocationCount
  let symbolCount ← narrow "symbol count" symbolCount
  let paddedPayloadLength ← narrow "padded payload length" (pad64 payloadLength.toUInt64).toNat
  let entryOffset := 64 + description.paddedLength
  let relocations := relocationStart entryOffset paddedPayloadLength
  let symbols := symbolStart relocations relocationCount
  let relocationOffset ← narrow "relocation table offset" relocations.toNat
  let symbolOffset ← narrow "symbol table offset" symbols.toNat
  let totalSize ← narrow "module size" (moduleEnd symbols symbolCount).toNat
  return {
    descriptionLength := description.length
    paddedDescriptionLength := description.paddedLength
    payloadLength
    paddedPayloadLength
    entryOffset
    relocationOffset
    relocationCount
    symbolOffset
    symbolCount
    totalSize
  }

end Layout

end Loadable
