namespace Loadable

-- Why the system refuses an operation on a path.
inductive OsError
  | notFound
  | notADirectory
  | isADirectory
  | busy
  | nameTooLong
  -- A path with a NUL character, which never reaches the system.
  | unusablePath
deriving DecidableEq

namespace OsError

def number? : OsError → Option Nat
  | notFound => some 2
  | busy => some 16
  | notADirectory => some 20
  | isADirectory => some 21
  | nameTooLong => some 36
  | unusablePath => none

def reason : OsError → String
  | notFound => "No such file or directory"
  | busy => "Device or resource busy"
  | notADirectory => "Not a directory"
  | isADirectory => "Is a directory"
  | nameTooLong => "File name too long"
  | unusablePath => "file name contained an unexpected NUL byte"

def message (error : OsError) : String :=
  match error.number? with
  | some number => s!"{error.reason} (os error {number})"
  | none => error.reason

end OsError

end Loadable
