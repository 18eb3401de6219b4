import Loadable.Check

namespace Loadable.Arguments

inductive Error
  | missingRequired
  | emptyValue
  | unknown
  | multipleUse
  | tooManyValues
  | displayHelp
  | displayVersion
deriving DecidableEq

inductive OptionKind
  | flag
  | value
  -- A value for each use.
  | values
  | help
  | version
deriving DecidableEq

structure OptionSpec where
  name : String
  short : Option Char := none
  kind : OptionKind

def OptionSpec.takesValue (spec : OptionSpec) : Bool := spec.kind = .value || spec.kind = .values

-- The options of a command that has no positional arguments.
abbrev Grammar := List OptionSpec

def standardOptions : Grammar :=
  [⟨"help", some 'h', .help⟩, ⟨"version", some 'V', .version⟩]

-- The uses of options in their order, with their values, and an option whose value
-- may still come.
structure Matches where
  uses : List (String × Option String) := []
  pending : Option String := none

namespace Matches

-- A new use ends the wait for a value, and leaves the waiting option without one.
def settle (found : Matches) : Matches :=
  match found.pending with
  | none => found
  | some name => ⟨found.uses ++ [(name, none)], none⟩

def use (found : Matches) (name : String) (value : Option String) : Matches :=
  ⟨found.settle.uses ++ [(name, value)], none⟩

def await (found : Matches) (name : String) : Matches := ⟨found.settle.uses, some name⟩

def supply (found : Matches) (value : String) : Except Error Matches :=
  match found.pending with
  | none => .error .unknown
  | some name => .ok ⟨found.uses ++ [(name, some value)], none⟩

def isUsed (found : Matches) (name : String) : Bool := found.uses.any fun entry => entry.1 = name

def values (found : Matches) (name : String) : List String :=
  found.uses.filterMap fun entry => if entry.1 = name then entry.2 else none

def value? (found : Matches) (name : String) : Option String := (found.values name).head?

-- An option without an attached value.
def plain (found : Matches) (spec : OptionSpec) : Except Error Matches :=
  match spec.kind with
  | .help => .error .displayHelp
  | .version => .error .displayVersion
  | .flag => .ok (found.use spec.name none)
  | .value | .values => .ok (found.await spec.name)

def attached (found : Matches) (spec : OptionSpec) (value : String) : Except Error Matches :=
  if spec.takesValue then .ok (found.use spec.name (some value)) else .error .tooManyValues

-- `--name` or `--name=value`, without the dashes.
def long (grammar : Grammar) (found : Matches) (text : List Char) : Except Error Matches := do
  let name := String.ofList (text.takeWhile (· ≠ '='))
  let spec ← demand (grammar.find? fun spec => spec.name = name) .unknown
  match text.dropWhile (· ≠ '=') with
  | [] => found.plain spec
  | _ :: value => found.attached spec (String.ofList value)

-- `-abc`, without the dash: flags, the last of them perhaps an option with what
-- follows as its value. An equals sign before the value is no part of it.
def cluster (grammar : Grammar) (found : Matches) : List Char → Except Error Matches
  | [] => .ok found
  | letter :: rest => do
    let spec ← demand (grammar.find? fun spec => spec.short = some letter) .unknown
    if spec.takesValue then
      match rest with
      | [] => found.plain spec
      | '=' :: value => found.attached spec (String.ofList value)
      | value => found.attached spec (String.ofList value)
    else
      let next ← found.plain spec
      next.cluster grammar rest

def accept (grammar : Grammar) (found : Matches) (argument : String) : Except Error Matches :=
  match argument.toList with
  | '-' :: '-' :: text => found.long grammar text
  | '-' :: letter :: rest => found.cluster grammar (letter :: rest)
  | _ => found.supply argument

-- Reads the arguments up to the first that has no place. Nothing may follow `--`.
def scan (grammar : Grammar) (found : Matches) : List String → Except Error Matches
  | [] => .ok found
  | argument :: rest =>
    if argument = "--" then
      if rest = [] then .ok found else .error .unknown
    else do
      let next ← found.accept grammar argument
      next.scan grammar rest

-- The options in the order of their first use.
def usedNames (found : Matches) : List String :=
  found.uses.foldl (fun names entry => if entry.1 ∈ names then names else names ++ [entry.1]) []

def checkUse (grammar : Grammar) (found : Matches) (name : String) : Except Error Unit := do
  let spec ← demand (grammar.find? fun spec => spec.name = name) .unknown
  require (¬ spec.takesValue ∨ found.values name ≠ []) .emptyValue
  let count := found.uses.countP fun entry => entry.1 = name
  require (spec.kind = .values ∨ count ≤ 1) .multipleUse

end Matches

-- What is wrong with a single argument comes first, then a last option without any
-- value, then missing options, then options that were used wrongly.
def parse (grammar : Grammar) (isComplete : Matches → Bool) (arguments : List String) :
    Except Error Matches := do
  let found ← Matches.scan grammar {} arguments
  match found.pending with
  | some name => require (found.values name ≠ []) .emptyValue
  | none => pure ()
  let found := found.settle
  require (isComplete found) .missingRequired
  found.usedNames.forM (found.checkUse grammar)
  return found

end Loadable.Arguments
