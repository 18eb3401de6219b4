import Loadable.Proofs.Alignment
import Loadable.Proofs.Image.Corruption

namespace Loadable

open Loadable.Format

namespace Image

-- One thing that a module image has to satisfy, and how a byte string is refused that
-- does not.
structure Demand where
  met : Prop
  [decidable : Decidable met]
  error : Error

attribute [instance] Demand.decidable

namespace Demand

def aligned (field : String) (value : UInt32) : Demand :=
  ⟨value.toNat % 8 = 0, .misaligned field value⟩

def zero (bytes : Bytes) (offset : Nat) : Demand :=
  ⟨bytes.wordD offset = 0, .reservedNotZero offset (bytes.wordD offset)⟩

-- The fourth word of a relocation record is the position of its symbol.
def refers (bytes : Bytes) (header : Header) (index : Nat) : Demand :=
  let position := bytes.wordD (header.relocationOffset.toNat + 16 * index + 12)
  ⟨position < header.symbolCount, .danglingPosition index position header.symbolCount⟩

end Demand

end Image

end Loadable
