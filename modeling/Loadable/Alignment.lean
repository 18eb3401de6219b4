namespace Loadable

-- Every region of a module starts on a multiple of this many bytes.
def alignment : UInt32 := 8

-- The least multiple of a power of two `align` from `value` up.
def alignUp (value align : UInt32) : UInt32 :=
  (value + align - 1) &&& ~~~(align - 1)

-- The same in 64 bits, for sizes that may not fit a header word yet.
def alignUp64 (value align : UInt64) : UInt64 :=
  (value + align - 1) &&& ~~~(align - 1)

def pad64 (value : UInt64) : UInt64 := alignUp64 value alignment.toUInt64

end Loadable
