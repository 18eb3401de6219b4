import Loadable.Text.Numeral
import Loadable.Text.Style
import Loadable.Trace

namespace Loadable

open Loadable.Text

-- A warning of a build that goes on without the offending data.
inductive Diagnostic
  | danglingRelocation (sectionName : String) (offset symbolIndex : UInt32)
  | descriptionTooLong (length limit kept : Nat)
deriving DecidableEq

namespace Diagnostic

def isDangling : Diagnostic → Bool
  | danglingRelocation .. => true
  | descriptionTooLong .. => false

def isTooLong : Diagnostic → Bool
  | danglingRelocation .. => false
  | descriptionTooLong .. => true

def kindName : Diagnostic → String
  | danglingRelocation .. => "dangling relocation symbol"
  | descriptionTooLong .. => "description too long"

def description : Diagnostic → String
  | danglingRelocation sectionName offset symbolIndex =>
    s!"relocation at `{sectionName}`+{hex offset.toNat} refers to symbol {symbolIndex}" ++
      " which is not in the symbol table"
  | descriptionTooLong length limit _ =>
    s!"description is {length} bytes long, must be {limit} bytes or less"

def notes : Diagnostic → List String
  | danglingRelocation .. => ["the relocation has been dropped"]
  | descriptionTooLong _ _ kept => [s!"only the first {kept} bytes have been kept"]

-- One line.
def brief (warning : Diagnostic) : String := s!"warning: {warning.description}\n"

-- The warning with its notes, styled for a terminal.
def full (colour : Bool) (warning : Diagnostic) : String :=
  let title := Style.yellow.paint colour "warning"
  let text := Style.white.paint colour warning.description
  let mark := Style.cyan.paint colour "= note:"
  s!"{title}: {text}\n" ++ String.join (warning.notes.map fun note => s!"  {mark} {note}\n")

def record (warning : Diagnostic) : Record :=
  Trace.debug s!"recorded warning: {warning.description}"

end Diagnostic

-- The warnings of one build, in the order they arose.
abbrev BuildLog := List Diagnostic

namespace BuildLog

def brief (log : BuildLog) : String := String.join (log.map Diagnostic.brief)

def total (colour : Bool) (log : BuildLog) : String :=
  let title := Style.yellow.paint colour "warning"
  match log.length with
  | 0 => ""
  | 1 =>
    let text := Style.white.paint colour "1 warning emitted"
    s!"{title}: {text}\n"
  | count =>
    let number := Style.white.paint colour (toString count)
    let text := Style.white.paint colour "warnings emitted"
    s!"{title}: {number} {text}\n"

def full (colour : Bool) (log : BuildLog) : String :=
  String.join (log.map (Diagnostic.full colour)) ++ log.total colour

end BuildLog

end Loadable
