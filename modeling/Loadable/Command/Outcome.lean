import Loadable.Arguments.Grammar
import Loadable.Console
import Loadable.Files.Tree

namespace Loadable.Command

-- How a tool runs: whether it styles its texts, and the text for the time it took.
structure Setting where
  colour : Bool := false
  elapsed : String := "0.00s"

-- The end of a run: the files it leaves, its exit status and what it wrote.
structure Outcome where
  tree : FileTree
  status : UInt32
  output : String
  errors : String := ""

-- Errors in the arguments end a run with status 2, a request for help or the
-- version with 0.
def refuse (tree : FileTree) (version usage : String) : Arguments.Error → Outcome
  | .displayHelp => ⟨tree, 0, usage, ""⟩
  | .displayVersion => ⟨tree, 0, version ++ "\n", ""⟩
  | .missingRequired => ⟨tree, 2, "", "error: a required argument is missing\n\n" ++ usage⟩
  | .emptyValue => ⟨tree, 2, "", "error: an option is missing its value\n\n" ++ usage⟩
  | .unknown => ⟨tree, 2, "", "error: an argument was not expected\n\n" ++ usage⟩
  | .multipleUse => ⟨tree, 2, "", "error: an option was given more than once\n\n" ++ usage⟩
  | .tooManyValues => ⟨tree, 2, "", "error: a flag was given a value\n\n" ++ usage⟩

end Loadable.Command
