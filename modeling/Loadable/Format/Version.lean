import Loadable.Bytes

namespace Loadable.Format

-- "AIKM" and "AIKB".
def moduleMagic : UInt32 := 0x4D4B4941
def bundleMagic : UInt32 := 0x424B4941

-- Two generations of the module format. The basic one is recognised and refused.
inductive Version
  | basic
  | extended
deriving DecidableEq

namespace Version

def current : Version := .extended

def headerSize : Version → UInt32
  | basic => 32
  | extended => 64

-- The second word of a header: major version above, header size below. The basic
-- format keeps its payload size there.
def versionWord? : Version → Option UInt32
  | basic => none
  | extended => some ((1 : UInt32) <<< 16 ||| (extended.headerSize &&& 0xFFFF))

def bundleHeaderSize : Version → UInt32
  | basic => 16
  | extended => 32

def isDeprecated (version : Version) : Bool := version != current

def name : Version → String
  | basic => "basic"
  | extended => "extended"

-- The generation of a module image. A foreign version word is taken for a payload
-- size of the basic format once the image can hold a basic header.
def detect (bytes : Bytes) : Option Version :=
  if bytes.word? 0 = some moduleMagic then
    match bytes.word? 4 with
    | none => none
    | some word =>
      if some word = extended.versionWord? then some extended
      else if basic.headerSize.toNat ≤ bytes.length then some basic
      else none
  else none

end Version

end Loadable.Format
