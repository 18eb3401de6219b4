import Loadable.Arguments.Grammar

namespace Loadable.Arguments

-- What the packer is asked to do.
structure BundleRequest where
  modules : List String
  -- Without one, a name is drawn.
  output : Option String
  verify : Bool
  verbose : Bool

def bundleGrammar : Grammar :=
  [⟨"module", some 'm', .values⟩,
    ⟨"output", some 'o', .value⟩,
    ⟨"verify", none, .flag⟩,
    ⟨"verbose", none, .flag⟩] ++ standardOptions

def isCompleteBundle (found : Matches) : Bool := found.isUsed "module"

def parseBundle (arguments : List String) : Except Error BundleRequest := do
  let found ← parse bundleGrammar isCompleteBundle arguments
  return ⟨found.values "module", found.value? "output", found.isUsed "verify",
    found.isUsed "verbose"⟩

end Loadable.Arguments
