import Loadable.Files.Error
import Loadable.Format.Error

namespace Loadable

-- Why modules cannot be packed. A file that exists is written to without fail in a
-- `FileTree`, so no error stands for a failed write.
inductive BundleError
  | noModules
  | missingModule (path : String)
  | invalidModule (path : String) (cause : Format.Error)
  | tooLarge (size : UInt64)
  | file (path : String) (cause : OsError)
deriving DecidableEq

def BundleError.message : BundleError → String
  | noModules => "no modules to pack"
  | missingModule path => s!"module file `{path}` does not exist"
  | invalidModule path cause => s!"`{path}` is not a valid module: {cause.message}"
  | tooLarge size => s!"bundle exceeds the 4 GiB addressable by its offset table ({size} bytes)"
  | file path cause => s!"`{path}`: {cause.message}"

end Loadable
