namespace Loadable.Text

def padLeft (fill : Char) (width : Nat) (text : String) : String :=
  String.ofList (List.replicate (width - text.length) fill) ++ text

def padRight (fill : Char) (width : Nat) (text : String) : String :=
  text ++ String.ofList (List.replicate (width - text.length) fill)

def hexDigits (value : Nat) : String := String.ofList (Nat.toDigits 16 value)

-- `0x2a`
def hex (value : Nat) : String := "0x" ++ hexDigits value

-- `0x0000002a`: a whole word, leading zeros included.
def hexWord (value : Nat) : String := "0x" ++ padLeft '0' 8 (hexDigits value)

def hexByte (byte : UInt8) : String := padLeft '0' 2 (hexDigits byte.toNat)

def hexBytes (bytes : List UInt8) : String := String.join (bytes.map hexByte)

end Loadable.Text
