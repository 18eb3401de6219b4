import Loadable.Bundle.Packing
import Loadable.Object.Inspection

namespace Loadable

open Loadable.Format

-- A place to put modules and bundles together by hand: the parts of one build, an
-- image that is worked on, and images put aside. The tools do without it. It only serves
-- the driver of the tests, which calls the parts of the library one by one.
structure Workbench where
  symbols : SymbolMap := .empty
  candidates : List Candidate := []
  table : SymbolTable := {}
  relocations : RelocationTable := {}
  description : Description := {}
  payload : Bytes := []
  bss : BssRegion := {}
  entryPoint : UInt32 := 0
  log : BuildLog := []
  image : Bytes := []
  stash : List Bytes := []

namespace Workbench

inductive Step
  | putSymbol (index : UInt32) (symbol : Symbol)
  | removeSymbol (index : UInt32)
  | addCandidate (candidate : Candidate)
  | clearCandidates
  | countReferences
  | inspect (source : Source)
  | compact
  | encode
  | describe (text : String)
  | setPayload (payload : Bytes)
  | setBss (bss : BssRegion)
  | setEntryPoint (entryPoint : UInt32)
  | layout (payloadLength relocationCount symbolCount : Nat)
  | header
  | assemble
  | load (image : Bytes)
  | patch (offset : Nat) (bytes : Bytes)
  | truncate (length : Nat)
  | append (bytes : Bytes)
  | fixSize
  | fixChecksum
  | finalize (totalSize : UInt32)
  | showImage
  | verify
  | showLog
  | resetLog
  | stash
  | unstash (index : Nat)
  | bundle (verify : Bool)
  | parseBundle
  | slice (span : Span)

inductive Answer
  | done
  | replaced (hadSymbol : Bool)
  | removed (hadSymbol : Bool)
  | counts (references : IndexMap UInt32)
  | inspection (result : Except BuildError Inspection)
  | table (table : SymbolTable) (indices : List UInt32)
  | relocations (table : RelocationTable)
  | description (description : Description)
  | size (size : Nat)
  | layout (result : Except BuildError Layout)
  | header (result : Except BuildError Header)
  | assembled (result : Except BuildError Bytes)
  | inRange (isInRange : Bool)
  | checksum (crc32 : UInt32)
  | fixedChecksum (crc32 : UInt32) (isInRange : Bool)
  | bytes (bytes : Bytes)
  | verified (result : Except Format.Error Image)
  | log (log : BuildLog)
  | packing (packing : Bundle.Packing) (output : String) (total : Nat)
  | bundle (result : Except Format.Error Bundle.Header) (bytes : Bytes)

def assembler (bench : Workbench) : Except BuildError Assembler :=
  Assembler.make bench.description bench.payload bench.relocations bench.table bench.bss bench.entryPoint

-- Every symbol gets the number of candidates that refer to it.
def recount (bench : Workbench) : SymbolMap :=
  let counts := Candidate.countReferences bench.candidates
  bench.symbols.mapValues fun index symbol => { symbol with references := counts.getD index 0 }

-- Overwrites a stretch that lies in the image.
def patch (bench : Workbench) (offset : Nat) (bytes : Bytes) : Workbench × Bool :=
  if offset + bytes.length ≤ bench.image.length then
    ({ bench with image := bench.image.overwrite offset bytes }, true)
  else (bench, false)

def stashName (index : Nat) : String := s!"m{index}.aikm"

def bundleName : String := "bundle.bin"

-- The stash as files.
def stashTree (bench : Workbench) : FileTree :=
  { nodes := bench.stash.zipIdx.map fun (image, index) => ([stashName index], .file image) }

def packStash (bench : Workbench) (verify : Bool) : Bundle.Packing :=
  Bundle.pack bench.stashTree ((List.range bench.stash.length).map stashName) bundleName verify

-- A step, its answer, and what it tells about itself.
def step (bench : Workbench) : Step → Workbench × Answer × Trace
  | .putSymbol index symbol =>
    ({ bench with symbols := bench.symbols.insert index symbol },
      .replaced (bench.symbols.contains index), [])
  | .removeSymbol index =>
    ({ bench with symbols := bench.symbols.erase index },
      .removed (bench.symbols.contains index), [])
  | .addCandidate candidate =>
    ({ bench with candidates := bench.candidates ++ [candidate] }, .done, [])
  | .clearCandidates => ({ bench with candidates := [] }, .done, [])
  | .countReferences =>
    ({ bench with symbols := bench.recount },
      .counts (Candidate.countReferences bench.candidates), [])
  | .inspect source =>
    let result := source.inspect
    let next :=
      match result with
      | .ok found =>
        { bench with
          symbols := found.symbols
          candidates := found.candidates
          bss := found.bss
          entryPoint := found.entryPoint }
      | .error _ => bench
    (next, .inspection result, source.inspectTrace)
  | .compact =>
    let table := SymbolTable.compact bench.symbols
    ({ bench with table }, .table table bench.symbols.indices,
      SymbolTable.compactTrace bench.symbols)
  | .encode =>
    let (relocations, log) := RelocationTable.encode bench.table bench.log bench.candidates
    ({ bench with relocations, log }, .relocations relocations,
      RelocationTable.encodeTrace bench.candidates bench.table)
  | .describe text =>
    let description := Description.ofText text
    let warnings := Description.warnings text
    ({ bench with description, log := bench.log ++ warnings }, .description description,
      warnings.map Diagnostic.record)
  | .setPayload payload => ({ bench with payload }, .size payload.length, [])
  | .setBss bss => ({ bench with bss }, .done, [])
  | .setEntryPoint entryPoint => ({ bench with entryPoint }, .done, [])
  | .layout payloadLength relocationCount symbolCount =>
    (bench, .layout (Layout.compute bench.description payloadLength relocationCount symbolCount), [])
  | .header => (bench, .header (bench.assembler.map Assembler.header), [])
  | .assemble =>
    let result := bench.assembler.bind Assembler.assemble
    let next :=
      match result with
      | .ok image => { bench with image }
      | .error _ => bench
    (next, .assembled result, .after bench.assembler Assembler.assembleTrace)
  | .load image => ({ bench with image }, .size image.length, [])
  | .patch offset bytes =>
    let (next, inRange) := bench.patch offset bytes
    (next, .inRange inRange, [])
  | .truncate length => ({ bench with image := bench.image.take length }, .done, [])
  | .append bytes => ({ bench with image := bench.image ++ bytes }, .done, [])
  | .fixSize =>
    let size := UInt32.ofNat bench.image.length
    let (next, inRange) := bench.patch Field.totalSize (Bytes.ofWord size)
    (next, .inRange inRange, [])
  | .fixChecksum =>
    let crc32 := moduleChecksum bench.image
    let (next, inRange) := bench.patch Field.crc32 (Bytes.ofWord crc32)
    (next, .fixedChecksum crc32 inRange, [])
  | .finalize totalSize =>
    let (crc32, image) := Assembler.finalize bench.image totalSize
    ({ bench with image }, .checksum crc32, Assembler.finalizeTrace bench.image totalSize)
  | .showImage => (bench, .bytes bench.image, [])
  | .verify => (bench, .verified (Image.parse bench.image), [])
  | .showLog => (bench, .log bench.log, [])
  | .resetLog => ({ bench with log := [] }, .done, [])
  | .stash =>
    let stash := bench.stash ++ [bench.image]
    ({ bench with stash }, .size stash.length, [])
  | .unstash index =>
    match bench.stash[index]? with
    | some image =>
      let stash := bench.stash.eraseIdx index
      ({ bench with image, stash }, .size stash.length, [])
    | none => (bench, .size bench.stash.length, [])
  | .bundle verify =>
    let packing := bench.packStash verify
    let total := bench.stash.length
    let next :=
      match packing.result, packing.tree.read bundleName with
      | .ok _, .ok image => { bench with image }
      | _, _ => bench
    (next, .packing packing bundleName total, packing.trace total)
  | .parseBundle => (bench, .bundle (Bundle.Header.parse bench.image) bench.image, [])
  | .slice span =>
    if span.Within bench.image.length then
      ({ bench with image := bench.image.slice span }, .inRange true, [])
    else (bench, .inRange false, [])

-- How much of everything there is.
def sizes (bench : Workbench) : List Nat :=
  [bench.symbols.size, bench.candidates.length, bench.table.length, bench.relocations.length,
    bench.log.length, bench.image.length, bench.stash.length]

end Workbench

end Loadable
