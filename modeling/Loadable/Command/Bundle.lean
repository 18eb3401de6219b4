import Loadable.Arguments.Bundle
import Loadable.Bundle.Name
import Loadable.Bundle.Packing
import Loadable.Command.Outcome

namespace Loadable.Command.Bundle

open Loadable.Arguments
open Loadable.Text

def version : String := "aik-bundle 0.1.0"

def usage : String :=
  "usage: aik-bundle -m MODULE [-m MODULE ...] [-o BUNDLE] [--verify] [--verbose]\n"

def opening (colour : Bool) (modules : List String) (output : String) : String :=
  let verb := Style.cyan.paint colour "Packing:"
  s!"ℹ️ {verb} {modules.length} module(s) into `{output}`\n"

def failure (colour : Bool) (error : BundleError) : String :=
  let verb := Style.red.paint colour "Error:"
  s!"❌ {verb} {error.message}\n"

def row (packed : Bundle.PackedModule) (index : Nat) : String :=
  s!"   Module {index}: {hexWord packed.offset.toNat}  {packed.path}\n"

def success (setting : Setting) (summary : Bundle.Summary) : String :=
  let verb := Style.green.paint setting.colour "Success:"
  String.join (summary.modules.zipIdx.map fun (packed, index) => row packed index) ++
  s!"✔️ {verb} `{summary.path}` ({summary.totalSize} bytes) in {setting.elapsed}\n"

def pack (setting : Setting) (tree : FileTree) (modules : List String) (output : String)
    (verify verbose : Bool) : Outcome :=
  let packing := Loadable.Bundle.pack tree modules output verify
  let errors := Console.render verbose setting.colour (packing.trace modules.length)
  let opening := opening setting.colour modules output
  match packing.result with
  | .error error => ⟨packing.tree, 1, opening ++ failure setting.colour error, errors⟩
  | .ok summary => ⟨packing.tree, 0, opening ++ success setting summary, errors⟩

-- A bundle without a given name gets one that is drawn from `words`.
def run (setting : Setting) (words : List UInt64) (tree : FileTree) (arguments : List String) :
    Outcome :=
  match parseBundle arguments with
  | .error error => refuse tree version usage error
  | .ok request =>
    let output := request.output.getD (Loadable.Bundle.randomName words)
    pack setting tree request.modules output request.verify request.verbose

end Loadable.Command.Bundle
