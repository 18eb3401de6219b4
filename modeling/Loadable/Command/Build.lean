import Loadable.Arguments.Build
import Loadable.Command.Outcome
import Loadable.Image

namespace Loadable.Command.Build

open Loadable.Arguments
open Loadable.Text

def version : String := "aik-mod 0.1.0"

def usage : String :=
  "usage: aik-mod -e OBJECT -i PAYLOAD -o MODULE [-d TEXT] [--verify] [--verbose]\n" ++
  "       aik-mod --check MODULE [--verbose]\n"

-- A verb that ends in column 12, followed by what it is done to.
def status (colour : Bool) (verb subject : String) : String :=
  let indent := padLeft ' ' (12 - verb.length) ""
  s!"{indent}{Style.green.paint colour verb} {subject}"

def failure (colour : Bool) (reason : String) : String :=
  let title := Style.red.paint colour "error"
  s!"{title}: {Style.white.paint colour reason}\n"

def row (label value : String) : String :=
  let label := padRight ' ' 18 label
  s!"    {label} {value}\n"

def table (offset count : UInt32) (unit : String) : String :=
  s!"{hexWord offset.toNat} ({count} {unit})"

def headerRows (header : Format.Header) : String :=
  row "entry offset" (hexWord header.entryOffset.toNat) ++
  row "payload length" (toString header.payloadLength) ++
  row "relocations" (table header.relocationOffset header.relocationCount "entries") ++
  row "symbols" (table header.symbolOffset header.symbolCount "entries") ++
  row "bss" (table header.bssStart header.bssLength "bytes") ++
  row "entry point" (hexWord header.entryPoint.toNat) ++
  row "total size" (toString header.totalSize) ++
  row "crc32" (hexWord header.crc32.toNat)

def imageRows (image : Image) : String :=
  (if image.description = "" then "" else row "description" image.description) ++
  headerRows image.header

-- Reads a module and shows its header. The answer is the text, or why there is none.
def examine (tree : FileTree) (path : String) : Except String String := do
  let bytes ← (tree.read path).mapError fun error => s!"`{path}`: {error.message}"
  let image ← (Image.parse bytes).mapError Format.Error.message
  return imageRows image

def check (setting : Setting) (tree : FileTree) (path : String) : Outcome :=
  let opening := status setting.colour "Checking" s!"`{path}`" ++ "\n"
  match examine tree path with
  | .ok rows => ⟨tree, 0, opening ++ rows, ""⟩
  | .error reason => ⟨tree, 1, opening ++ failure setting.colour reason, ""⟩

-- Reads a finished module back.
def confirm (tree : FileTree) (path : String) : Except String Unit := do
  let bytes ← (tree.read path).mapError OsError.message
  let _ ← (Image.parse bytes).mapError fun error =>
    s!"verification of `{path}` failed: {error.message}"

def finished (setting : Setting) (report : BuildReport) : String :=
  status setting.colour "Finished" report.path ++
  s!" ({report.header.totalSize} bytes, {report.header.symbolCount} symbol(s)," ++
  s!" {report.header.relocationCount} relocation(s)) in {setting.elapsed}\n"

def conclude (setting : Setting) (report : BuildReport) : String :=
  BuildLog.full setting.colour report.warnings ++ finished setting report

def build (setting : Setting) (tree : FileTree) (options : BuildOptions) (verify verbose : Bool) :
    Outcome :=
  let errors := Console.render verbose setting.colour (Build.trace tree options)
  let opening := status setting.colour "Building" s!"`{options.output}`" ++ "\n"
  match Build.run tree options with
  | (final, .error error) =>
    ⟨final, 1, opening ++ failure setting.colour error.message, errors⟩
  | (final, .ok report) =>
    if verify then
      match confirm final report.path with
      | .error reason => ⟨final, 1, opening ++ failure setting.colour reason, errors⟩
      | .ok () =>
        let verified := status setting.colour "Verified" s!"`{report.path}`" ++ "\n"
        ⟨final, 0, opening ++ verified ++ conclude setting report, errors⟩
    else ⟨final, 0, opening ++ conclude setting report, errors⟩

def run (setting : Setting) (tree : FileTree) (arguments : List String) : Outcome :=
  match parseBuild arguments with
  | .error error => refuse tree version usage error
  | .ok request =>
    match request.mode with
    | .check path => check setting tree path
    | .build options verify => build setting tree options verify request.verbose

end Loadable.Command.Build
