import Loadable.Files.Error
import Loadable.Object.Elf.Error
import Loadable.Text.Numeral

namespace Loadable

open Loadable.Text

-- Why a module cannot be built.
inductive BuildError
  | missingSymbolTable
  | headerSizeMismatch (expected found : Nat)
  | valueOutOfRange (what : String) (value : Nat)
  | object (cause : Elf.Error)
  | file (path : String) (cause : OsError)
  | io (reason : String)
deriving DecidableEq

def BuildError.message : BuildError → String
  | missingSymbolTable => "object file carries no symbol table"
  | headerSizeMismatch expected found =>
    s!"header size mismatch: expected {expected} bytes, stream is at {found}"
  | valueOutOfRange what value => s!"{what} ({hex value}) does not fit in a 32-bit header field"
  | object cause => s!"cannot parse object file: {cause.message}"
  | file path cause => s!"`{path}`: {cause.message}"
  | io reason => reason

-- A size or address as a header word.
def narrow (what : String) (value : Nat) : Except BuildError UInt32 :=
  if value < UInt32.size then .ok (UInt32.ofNat value) else .error (.valueOutOfRange what value)

end Loadable
