import Loadable.Arguments.Grammar
import Loadable.Build.Run

namespace Loadable.Arguments

-- What the module builder is asked to do.
inductive BuildMode
  | check (path : String)
  | build (options : BuildOptions) (verify : Bool)

structure BuildRequest where
  mode : BuildMode
  verbose : Bool

def buildGrammar : Grammar :=
  [⟨"elf", some 'e', .value⟩,
    ⟨"input-bin", some 'i', .value⟩,
    ⟨"output-bin", some 'o', .value⟩,
    ⟨"description", some 'd', .value⟩,
    ⟨"verbose", none, .flag⟩,
    ⟨"verify", none, .flag⟩,
    ⟨"check", none, .value⟩] ++ standardOptions

-- A build needs its three files. A check needs none of them.
def isCompleteBuild (found : Matches) : Bool :=
  found.isUsed "check" ||
    (found.isUsed "elf" && found.isUsed "input-bin" && found.isUsed "output-bin")

def parseBuild (arguments : List String) : Except Error BuildRequest := do
  let found ← parse buildGrammar isCompleteBuild arguments
  let given (name : String) : String := (found.value? name).getD ""
  let mode : BuildMode :=
    match found.value? "check" with
    | some path => .check path
    | none =>
      .build ⟨given "elf", given "input-bin", given "output-bin", given "description"⟩
        (found.isUsed "verify")
  return ⟨mode, found.isUsed "verbose"⟩

end Loadable.Arguments
