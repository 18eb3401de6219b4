import Loadable.Bytes
import Loadable.Check
import Loadable.Files.Error
import Loadable.Files.Path

namespace Loadable

-- A place in the tree, by the names on the way from the root.
abbrev Location := List String

inductive FileNode
  | file (content : Bytes)
  | directory
deriving DecidableEq

-- The files and directories that the tools see. The root is always a directory.
structure FileTree where
  nodes : List (Location × FileNode) := []
  -- Where paths start that do not start at the root.
  current : Location := []

namespace FileTree

def node? (tree : FileTree) (location : Location) : Option FileNode :=
  if location = [] then some .directory else tree.nodes.lookup location

def remove (tree : FileTree) (location : Location) : FileTree :=
  { tree with nodes := tree.nodes.filter fun entry => entry.1 ≠ location }

-- Puts a node in place of what was there.
def put (tree : FileTree) (location : Location) (node : FileNode) : FileTree :=
  { tree with nodes := (location, node) :: (tree.remove location).nodes }

def requireDirectory (tree : FileTree) (location : Location) : Except OsError Unit :=
  match tree.node? location with
  | none => .error .notFound
  | some (.file _) => .error .notADirectory
  | some .directory => .ok ()

-- Follows the pieces of a path. What a piece starts from must be a directory, and
-- its name must not be too long; what the last one leads to need not exist.
def walk (tree : FileTree) (location : Location) : List String → Except OsError Location
  | [] => .ok location
  | piece :: rest => do
    tree.requireDirectory location
    Path.checkName piece
    if Path.isTrivial piece then tree.walk location rest
    else if piece = ".." then tree.walk location.dropLast rest
    else tree.walk (location ++ [piece]) rest

def start (tree : FileTree) (path : String) : Location :=
  if Path.isAbsolute path then [] else tree.current

def locate (tree : FileTree) (path : String) : Except OsError Location := do
  Path.check path
  tree.walk (tree.start path) (Path.pieces path)

def find (tree : FileTree) (path : String) : Except OsError FileNode := do
  let location ← tree.locate path
  demand (tree.node? location) .notFound

def read (tree : FileTree) (path : String) : Except OsError Bytes := do
  match ← tree.find path with
  | .file content => return content
  | .directory => throw .isADirectory

-- The content of the file at a place that is known to hold one.
def contentAt (tree : FileTree) (location : Location) : Bytes :=
  match tree.node? location with
  | some (.file content) => content
  | _ => []

def isFile (tree : FileTree) (path : String) : Bool := (tree.read path).isOk

def isHidden (name : String) : Bool := name.toList.head? = some '.'

-- The usual length of the name of a staging file.
def stagingLength : Nat := 16

-- A hidden name longer than all hidden names in the tree and in `besides`.
def freshName (tree : FileTree) (besides : List String) : String :=
  let hidden := (besides ++ tree.nodes.flatMap Prod.fst).filter isHidden
  let longest := (hidden.map String.length).foldl max (stagingLength - 1)
  "." ++ String.ofList (List.replicate longest 'x')

-- The path from the root to what `path` names.
def fullPath (tree : FileTree) (path : String) : String :=
  if Path.isAbsolute path then path
  else String.join (tree.current.map fun name => "/" ++ name) ++ "/" ++ path

-- A new empty file in `directory`, under a name that is not in use and is not that
-- of `output` either. It is known by its full path, which must not be too long.
def stage (tree : FileTree) (directory output : String) : Except OsError (Location × FileTree) := do
  let name := tree.freshName (Path.pieces output)
  Path.check (tree.fullPath directory ++ "/" ++ name)
  let home ← tree.locate directory
  tree.requireDirectory home
  let location := home ++ [name]
  return (location, tree.put location (.file []))

-- Moves the file at `source` to `path`, in place of a file that is there. The path
-- has to end in a name, with no slash behind it.
def rename (tree : FileTree) (source : Location) (path : String) : Except OsError FileTree := do
  Path.check path
  let pieces := Path.pieces path
  let named := (pieces.reverse.dropWhile (· = "")).reverse
  let parent ← tree.walk (tree.start path) named.dropLast
  tree.requireDirectory parent
  let name := named.getLast?.getD "."
  require (name ≠ "." ∧ name ≠ "..") .busy
  Path.checkName name
  require (named = pieces) .notADirectory
  let target := parent ++ [name]
  require (tree.node? target ≠ some .directory) .isADirectory
  let node ← demand (tree.node? source) .notFound
  return (tree.remove source).put target node

-- All files, and the directories that hold nothing, below the current directory.
def listing (tree : FileTree) : List String :=
  let inside := tree.nodes.filterMap fun (location, node) =>
    if tree.current.isPrefixOf location then some (location.drop tree.current.length, node) else none
  let names := inside.filterMap fun (location, node) =>
    match node with
    | .file _ => some ("/".intercalate location)
    | .directory =>
      if location = [] ∨ inside.any fun (other, _) => location.isPrefixOf other && other ≠ location
      then none else some ("/".intercalate location ++ "/")
  names.mergeSort fun first second => first ≤ second

end FileTree

end Loadable
