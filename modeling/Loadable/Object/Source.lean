import Loadable.Build.Error

namespace Loadable

structure RawSymbol where
  index : UInt32
  name : String
  value : UInt64
  size : UInt64
  rawType : UInt8
  sectionIndex : UInt32
deriving DecidableEq

structure RawRelocation where
  offset : UInt64
  rawType : UInt32
  symbolIndex : UInt32
deriving DecidableEq

-- A section with the relocations that apply to it.
structure RelocatedSection where
  name : String
  relocations : List RawRelocation
deriving DecidableEq

structure SectionInfo where
  index : Nat
  name : String
  address : UInt64
  size : UInt64
deriving DecidableEq

-- What an object file offers. Each of the three lists may be unreadable on its own;
-- an object without a symbol table has none to list.
structure Source where
  entry : UInt64
  sections : Except BuildError (List SectionInfo)
  symbols : Except BuildError (Option (List RawSymbol))
  relocated : Except BuildError (List RelocatedSection)

end Loadable
