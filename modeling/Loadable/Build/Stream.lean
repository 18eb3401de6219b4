import Loadable.Build.Error
import Loadable.Bytes

namespace Loadable

-- What a module is written to: a buffer that grows as needed, or one of a fixed
-- size.
structure Stream where
  content : Bytes := []
  position : Nat := 0
  growable : Bool := true

-- A write that fails leaves behind what it had written until then.
abbrev Write := EStateM BuildError Stream

namespace Stream

def fixed (content : Bytes) : Stream := { content, growable := false }

def seek (stream : Stream) (position : Nat) : Stream := { stream with position }

-- How many of `count` bytes the stream takes at its position.
def room (stream : Stream) (count : Nat) : Nat :=
  if stream.growable then count else min count (stream.content.length - stream.position)

-- The stream after taking `bytes`. A fixed stream that is positioned past its end
-- takes nothing.
def take (stream : Stream) (bytes : Bytes) : Stream :=
  let count := stream.room bytes.length
  if count = 0 then stream
  else { stream with
    content := stream.content.overwrite stream.position (bytes.take count)
    position := stream.position + count }

def write (bytes : Bytes) : Write Unit := do
  let stream ← get
  set (stream.take bytes)
  if stream.room bytes.length < bytes.length then throw (.io "failed to write whole buffer")

end Stream

end Loadable
