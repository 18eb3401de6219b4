namespace Loadable

inductive Level
  | error
  | warn
  | info
  | debug
  | trace
deriving DecidableEq

namespace Level

-- More severe levels come first.
def rank : Level → Nat
  | error => 1
  | warn => 2
  | info => 3
  | debug => 4
  | trace => 5

def name : Level → String
  | error => "ERROR"
  | warn => "WARN"
  | info => "INFO"
  | debug => "DEBUG"
  | trace => "TRACE"

end Level

-- One line of what a run tells about itself. Tracing only looks at the results of
-- the steps it tells about, so it never changes them.
structure Record where
  level : Level
  text : String
deriving DecidableEq

abbrev Trace := List Record

namespace Trace

def info (text : String) : Record := ⟨.info, text⟩

def debug (text : String) : Record := ⟨.debug, text⟩

-- What is told once `step` has succeeded. A step that fails ends the trace.
def after {ε α : Type} (step : Except ε α) (rest : α → Trace) : Trace :=
  match step with
  | .ok result => rest result
  | .error _ => []

end Trace

end Loadable
