import Loadable.Format.Version
import Loadable.Text.Numeral

namespace Loadable.Format

open Loadable.Text

-- The stretches of an image that its header locates.
inductive Region
  | description
  | payload
  | relocationTable
  | symbolTable
  | bundleOffsets
deriving DecidableEq

def Region.name : Region → String
  | description => "description"
  | payload => "payload"
  | relocationTable => "relocation table"
  | symbolTable => "symbol table"
  | bundleOffsets => "bundle offset table"

-- Why an image is no module, or no bundle.
inductive Error
  | truncated (expected found : Nat)
  | invalidMagic (magic : UInt32)
  | legacy (version : Version)
  | unsupportedVersion (word : UInt32)
  | misaligned (field : String) (value : UInt32)
  | sizeMismatch (declared : UInt32) (actual : Nat)
  | checksumMismatch (stored computed : UInt32)
  | outOfBounds (region : Region)
  | reservedNotZero (offset : Nat) (value : UInt32)
  | danglingPosition (index : Nat) (position count : UInt32)
deriving DecidableEq

def Error.message : Error → String
  | truncated expected found => s!"image truncated: expected at least {expected} bytes, found {found}"
  | invalidMagic magic => s!"invalid magic number {hexWord magic.toNat}"
  | legacy version => s!"{version.name} format modules are deprecated and not supported"
  | unsupportedVersion word => s!"unsupported version word {hexWord word.toNat}"
  | misaligned field value => s!"header field `{field}` is not a multiple of 8 ({hex value.toNat})"
  | sizeMismatch declared actual => s!"header declares {declared} bytes but the image is {actual} bytes long"
  | checksumMismatch stored computed =>
    s!"checksum mismatch: stored {hexWord stored.toNat}, computed {hexWord computed.toNat}"
  | outOfBounds region => s!"{region.name} lies outside of the image"
  | reservedNotZero offset value =>
    s!"reserved header word at offset {offset} is {hexWord value.toNat}, must be zero"
  | danglingPosition index position count =>
    s!"relocation {index} refers to symbol position {position}, table has {count} symbols"

end Loadable.Format
