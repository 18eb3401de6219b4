import Loadable.Files.Tree
import Loadable.Object.Elf.File
import Loadable.Object.Inspection

namespace Loadable

open Loadable.Text

-- The paths and the text that a module is built from.
structure BuildOptions where
  object : String
  payload : String
  output : String
  description : String

structure BuildReport where
  path : String
  header : Format.Header
  layout : Layout
  pruned : Nat
  warnings : BuildLog

namespace Build

def readFile (tree : FileTree) (path : String) : Except BuildError Bytes :=
  (tree.read path).mapError (.file path)

def readObject (tree : FileTree) (path : String) : Except BuildError Source := do
  let content ← readFile tree path
  Elf.readSource content

-- A module that is ready to be written.
structure Draft where
  assembler : Assembler
  pruned : Nat
  warnings : BuildLog

def draftFrom (description : String) (payload : Bytes) (object : Inspection) :
    Except BuildError Draft := do
  let symbols := SymbolTable.compact object.symbols
  let (relocations, warnings) :=
    RelocationTable.encode symbols (Description.warnings description) object.candidates
  let assembler ← Assembler.make (.ofText description) payload relocations symbols
    object.bss object.entryPoint
  return ⟨assembler, symbols.pruned, warnings⟩

-- The payload is read before the object.
def draft (tree : FileTree) (options : BuildOptions) : Except BuildError Draft := do
  let payload ← readFile tree options.payload
  let source ← readObject tree options.object
  let object ← source.inspect
  draftFrom options.description payload object

-- Both passes over the staging file: the second one reads back what the first one
-- wrote.
def fill (assembler : Assembler) (staging : Location) (tree : FileTree) :
    Except BuildError (Format.Header × FileTree) :=
  match assembler.writeSections.run {} with
  | .error error _ => .error error
  | .ok written stream => do
    let tree := tree.put staging (.file stream.content)
    let totalSize ← narrow "module size" written
    let (crc32, content) := Assembler.finalize (tree.contentAt staging) totalSize
    return ({ assembler.header with crc32, totalSize }, tree.put staging (.file content))

-- The module appears at `output` in one step, after both passes. Whatever fails,
-- the staging file is gone afterwards.
def publish (tree : FileTree) (assembler : Assembler) (output : String) :
    FileTree × Except BuildError Format.Header :=
  let directory := Path.directory output
  match tree.stage directory output with
  | .error error => (tree, .error (.file directory error))
  | .ok (staging, staged) =>
    match fill assembler staging staged with
    | .error error => (staged.remove staging, .error error)
    | .ok (header, filled) =>
      match filled.rename staging output with
      | .error error => (filled.remove staging, .error (.file output error))
      | .ok final => (final, .ok header)

def run (tree : FileTree) (options : BuildOptions) : FileTree × Except BuildError BuildReport :=
  match draft tree options with
  | .error error => (tree, .error error)
  | .ok draft =>
    let (final, written) := publish tree draft.assembler options.output
    (final, written.map fun header =>
      ⟨options.output, header, draft.assembler.layout, draft.pruned, draft.warnings⟩)

def inspectionTrace (object : Inspection) : Trace :=
  let symbols := SymbolTable.compact object.symbols
  Trace.info (s!"object: {object.symbols.size} symbol(s)," ++
      s!" {object.candidates.length} exported relocation(s)") ::
    Trace.debug "compacting symbol table:" :: SymbolTable.compactTrace object.symbols ++
    Trace.debug "encoding relocations:" :: RelocationTable.encodeTrace object.candidates symbols ++
    [Trace.info s!"kept {symbols.length} symbol(s), pruned {symbols.pruned}"]

def publishTrace (tree : FileTree) (assembler : Assembler) (output : String) : Trace :=
  .after (tree.stage (Path.directory output) output) fun _ =>
    assembler.assembleTrace ++ .after (publish tree assembler output).2 fun header =>
      [Trace.info (s!"wrote {header.totalSize} bytes to `{output}`" ++
        s!" (CRC32 {hexWord header.crc32.toNat})")]

def trace (tree : FileTree) (options : BuildOptions) : Trace :=
  (Description.warnings options.description).map Diagnostic.record ++
  .after (readFile tree options.payload) fun payload =>
    Trace.info s!"payload: {payload.length} bytes from `{options.payload}`" ::
    Trace.after (readObject tree options.object) fun source =>
      source.inspectTrace ++ .after source.inspect fun object =>
        inspectionTrace object ++
        .after (draftFrom options.description payload object) fun draft =>
          publishTrace tree draft.assembler options.output

end Build

end Loadable
