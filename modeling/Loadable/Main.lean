import Loadable.Command.Build
import Loadable.Command.Bundle

namespace Loadable

open Loadable.Text

-- Takes over what the disk holds on the way to `path`.
def survey (tree : FileTree) (path : String) : IO FileTree := do
  let base ← IO.currentDir
  let mut tree := tree
  let mut location := if Path.isAbsolute path then [] else tree.current
  for piece in Path.pieces path do
    if piece = ".." then location := location.dropLast
    else if ¬ Path.isTrivial piece then
      location := location ++ [piece]
      let place := base / ("/" ++ "/".intercalate location)
      if ← place.isDir then tree := tree.put location .directory
      else if ← place.pathExists then
        match ← (IO.FS.readBinFile place).toBaseIO with
        | .ok content => tree := tree.put location (.file content.toList)
        | .error _ => pure ()
  return tree

-- The files that a run may look at, with the working directory.
def surveyAll (paths : List String) : IO FileTree := do
  let base ← IO.currentDir
  let start ← survey {} (base.toString ++ "/.")
  let current := (Path.pieces base.toString).filter (· ≠ "")
  paths.foldlM survey { start with current }

-- Puts the files on the disk that are new or changed, each in one step.
def settle (before after : FileTree) : IO Unit := do
  let base ← IO.currentDir
  for (location, node) in after.nodes do
    match node with
    | .directory => pure ()
    | .file content =>
      if before.node? location ≠ some node then
        let place := base / ("/" ++ "/".intercalate location)
        let staging := place.toString ++ ".tmp"
        IO.FS.writeBinFile staging ⟨content.toArray⟩
        IO.FS.rename staging place

def randomWords (count : Nat) : IO (List UInt64) := do
  let bytes ← IO.getRandomBytes (USize.ofNat (8 * count))
  return (Bytes.chunks 8 bytes.toList).map fun piece =>
    piece.foldl (fun word byte => word * 256 + byte.toUInt64) 0

-- Colours are for terminals, unless the environment insists on them.
def usesColour : IO Bool := do
  match ← IO.getEnv "CLICOLOR_FORCE" with
  | some "0" | none => (← IO.getStdout).isTty
  | some _ => return true

def elapsedText (milliseconds : Nat) : String :=
  let hundredths := padLeft '0' 2 (toString (milliseconds / 10 % 100))
  s!"{milliseconds / 1000}.{hundredths}s"

-- Paths may stand in any argument, whole or after an option.
def candidatePaths (arguments : List String) : List String :=
  arguments.flatMap fun argument =>
    [argument, String.ofList (argument.toList.drop 2),
      String.ofList ((argument.toList.dropWhile (· ≠ '=')).drop 1)]

end Loadable

-- The tool is chosen by the name it is called by.
def main (arguments : List String) : IO UInt32 := do
  let start ← IO.monoMsNow
  let name := (← IO.appPath).fileName.getD ""
  let words ← Loadable.randomWords 64
  let tree ← Loadable.surveyAll (Loadable.candidatePaths arguments)
  let elapsed := Loadable.elapsedText ((← IO.monoMsNow) - start)
  let setting : Loadable.Command.Setting := ⟨← Loadable.usesColour, elapsed⟩
  let outcome :=
    if name = "aik-bundle" then Loadable.Command.Bundle.run setting words tree arguments
    else Loadable.Command.Build.run setting tree arguments
  Loadable.settle tree outcome.tree
  IO.eprint outcome.errors
  IO.print outcome.output
  return outcome.status
