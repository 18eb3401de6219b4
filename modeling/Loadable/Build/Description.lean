import Loadable.Alignment
import Loadable.Diagnostic
import Loadable.Text.Utf8

namespace Loadable

open Loadable.Text

-- The text that follows the header of a module, with its terminator. An empty
-- description takes no space at all.
structure Description where
  bytes : Bytes := []
  length_le : bytes.length ≤ 33 := by simp

namespace Description

-- The longest text, in bytes, that is stored whole.
def limit : Nat := 32

def isTooLong (text : String) : Bool := limit < (Utf8.encode text).length

-- A text past the limit is cut to one byte less, and so fits 32 bytes with its
-- terminator. The cut may fall inside a character.
def kept (text : String) : Bytes :=
  if isTooLong text then (Utf8.encode text).take (limit - 1) else Utf8.encode text

theorem length_kept_le (text : String) : (kept text).length ≤ limit := by
  unfold kept
  split
  next => simp only [List.length_take, limit]; omega
  next h => simpa [isTooLong] using h

def ofText (text : String) : Description where
  bytes := if kept text = [] then [] else kept text ++ [0]
  length_le := by
    have h := length_kept_le text
    simp only [limit] at h
    split
    · simp
    · simp only [List.length_append, List.length_singleton]
      omega

def warnings (text : String) : BuildLog :=
  if isTooLong text then
    [.descriptionTooLong (Utf8.encode text).length limit (limit - 1)]
  else []

def length (description : Description) : UInt32 := UInt32.ofNat description.bytes.length

def paddedLength (description : Description) : UInt32 := alignUp description.length alignment

end Description

end Loadable
