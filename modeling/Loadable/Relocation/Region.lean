import Loadable.Text.Split

namespace Loadable

open Loadable.Text

-- The kind of memory that the offset of a relocation counts from.
inductive TargetRegion
  | none
  | text
  | data
  | readOnlyData
  | bss
deriving DecidableEq

namespace TargetRegion

-- The dot-separated parts of a section name decide by the first one that is not
-- empty: `.text` and `.text.main` are code, `.ARM.exidx` is nothing a module keeps.
def ofSectionName (name : String) : TargetRegion :=
  match (Text.split '.' name.toList).find? fun part => part ≠ [] with
  | Option.none => none
  | some part =>
    if part = "text".toList then text
    else if part = "data".toList then data
    else if part = "rodata".toList then readOnlyData
    else if part = "bss".toList then bss
    else none

def code : TargetRegion → UInt32
  | none => 0
  | text => 1
  | data => 2
  | readOnlyData => 3
  | bss => 4

def ofCode (code : UInt32) : TargetRegion :=
  match code.toNat with
  | 1 => text
  | 2 => data
  | 3 => readOnlyData
  | 4 => bss
  | _ => none

-- Relocations of other regions stay behind in the object.
def isExported (region : TargetRegion) : Bool := region ≠ none

def name : TargetRegion → String
  | none => "none"
  | text => "text"
  | data => "data"
  | readOnlyData => "rodata"
  | bss => "bss"

end TargetRegion

end Loadable
