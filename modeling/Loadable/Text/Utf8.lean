import Loadable.Bytes

namespace Loadable.Text.Utf8

def encode (text : String) : Bytes := text.toList.flatMap String.utf8EncodeChar

-- What a leading byte announces: the bits it carries itself, how many bytes
-- follow it, and the range of the first of these. Later ones are always in
-- 0x80..0xBF; the narrower ranges keep out overlong forms, surrogates and
-- values past the last character.
structure Lead where
  bits : Nat
  tails : Nat
  low : UInt8
  high : UInt8

def Lead.of? (byte : UInt8) : Option Lead :=
  if byte < 0x80 then some ⟨byte.toNat, 0, 0x80, 0xBF⟩
  else if byte < 0xC2 then none
  else if byte < 0xE0 then some ⟨byte.toNat - 0xC0, 1, 0x80, 0xBF⟩
  else if byte = 0xE0 then some ⟨0, 2, 0xA0, 0xBF⟩
  else if byte = 0xED then some ⟨13, 2, 0x80, 0x9F⟩
  else if byte < 0xF0 then some ⟨byte.toNat - 0xE0, 2, 0x80, 0xBF⟩
  else if byte = 0xF0 then some ⟨0, 3, 0x90, 0xBF⟩
  else if byte < 0xF4 then some ⟨byte.toNat - 0xF0, 3, 0x80, 0xBF⟩
  else if byte = 0xF4 then some ⟨4, 3, 0x80, 0x8F⟩
  else none

-- Collects the `tails` bytes that follow a leading byte. Stops in front of the
-- first byte that cannot follow, so that this one starts anew.
def collect (bits : Nat) (low high : UInt8) : Nat → Bytes → Option Nat × Bytes
  | 0, rest => (some bits, rest)
  | _ + 1, [] => (none, [])
  | tails + 1, byte :: rest =>
    if low ≤ byte ∧ byte ≤ high then
      collect (bits * 64 + byte.toNat % 64) 0x80 0xBF tails rest
    else (none, byte :: rest)

theorem length_collect_le (bits : Nat) (low high : UInt8) (tails : Nat) (bytes : Bytes) :
    (collect bits low high tails bytes).2.length ≤ bytes.length := by
  induction bytes generalizing bits low high tails with
  | nil => cases tails <;> simp [collect]
  | cons byte rest ih =>
      cases tails with
      | zero => simp [collect]
      | succ tails =>
          simp only [collect]
          split
          · exact Nat.le_succ_of_le (ih _ _ _ _)
          · exact Nat.le_refl _

-- The characters of a byte string, `none` for each longest stretch that starts
-- like a character and is none, or else for a single byte.
def scan : Bytes → List (Option Char)
  | [] => []
  | byte :: rest =>
    match Lead.of? byte with
    | none => none :: scan rest
    | some lead =>
      have := length_collect_le lead.bits lead.low lead.high lead.tails rest
      let found := collect lead.bits lead.low lead.high lead.tails rest
      found.1.map Char.ofNat :: scan found.2
termination_by bytes => bytes.length

def replacement : Char := '\uFFFD'

def decodeLossy (bytes : Bytes) : String :=
  String.ofList ((scan bytes).map fun character => character.getD replacement)

def decode? (bytes : Bytes) : Option String :=
  ((scan bytes).mapM id).map String.ofList

end Loadable.Text.Utf8
