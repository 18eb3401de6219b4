import Loadable.Text.Style
import Loadable.Trace

namespace Loadable.Console

open Loadable.Text

-- The least severe level that is shown.
def limit (verbose : Bool) : Level := if verbose then .debug else .info

def shows (verbose : Bool) (level : Level) : Bool := level.rank ≤ (limit verbose).rank

def label (colour : Bool) : Level → String
  | .error => "❌ " ++ Style.red.paint colour "Error:"
  | .warn => "⚠️ " ++ Style.yellow.paint colour "Warning:"
  | .info => "ℹ️ " ++ Style.cyan.paint colour "Info:"
  | .debug | .trace => "  " ++ Style.dim.paint colour "debug:"

def line (colour : Bool) (record : Record) : String :=
  s!"{label colour record.level} {record.text}\n"

-- What a run writes to the standard error stream.
def render (verbose colour : Bool) (trace : Trace) : String :=
  String.join ((trace.filter fun record => shows verbose record.level).map (line colour))

end Loadable.Console
