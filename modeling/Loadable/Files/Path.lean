import Loadable.Check
import Loadable.Files.Error
import Loadable.Text.Split

namespace Loadable.Path

open Loadable.Text

-- The longest path and the longest name in it, in bytes.
def limit : Nat := 4095
def nameLimit : Nat := 255

-- What the spelling of a path must satisfy before it is followed.
def check (path : String) : Except OsError Unit := do
  require ('\x00' ∉ path.toList) .unusablePath
  require (path ≠ "") .notFound
  require (path.utf8ByteSize ≤ limit) .nameTooLong

def checkName (name : String) : Except OsError Unit :=
  require (name.utf8ByteSize ≤ nameLimit) .nameTooLong

-- The pieces of a path between slashes. A leading slash gives an empty piece first.
def pieces (path : String) : List String := (Text.split '/' path.toList).map String.ofList

def isAbsolute (path : String) : Bool := path.toList.head? = some '/'

-- Pieces that name nothing: between doubled slashes, after a trailing one, or a dot.
def isTrivial (piece : String) : Bool := piece = "" || piece = "."

def dropTrivialEnd (pieces : List String) : List String :=
  (pieces.reverse.dropWhile isTrivial).reverse

-- Everything in front of the last named piece, as it is spelt. The first piece
-- stays even if it is a dot, or the empty one in front of the root.
def parent? (path : String) : Option String :=
  match pieces path with
  | [] => none
  | first :: rest =>
    match (dropTrivialEnd rest).reverse with
    | _ :: before =>
      match dropTrivialEnd before.reverse with
      | [] => some (if isAbsolute path then "/" else first)
      | kept => some ("/".intercalate (first :: kept))
    | [] => if first = "" then none else some ""

-- The directory that a path puts its file in.
def directory (path : String) : String :=
  match parent? path with
  | none | some "" => "."
  | some parent => parent

end Loadable.Path
