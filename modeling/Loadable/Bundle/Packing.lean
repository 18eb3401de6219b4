import Loadable.Bundle.Error
import Loadable.Bundle.Header
import Loadable.Files.Tree
import Loadable.Image
import Loadable.Trace

namespace Loadable.Bundle

open Loadable.Text

-- Where a module lies in a bundle.
structure PackedModule where
  path : String
  offset : UInt32
  length : UInt64
  paddedLength : UInt64
deriving DecidableEq

-- What has been packed so far. The room in front of the first module is kept free
-- for header and offset table. After each module it is reported how many are done.
structure Progress where
  modules : List PackedModule
  position : UInt64
  content : Bytes
  reported : List Nat

structure Summary where
  path : String
  modules : List PackedModule
  totalSize : UInt64

def Summary.offsets (summary : Summary) : List UInt32 := summary.modules.map PackedModule.offset

namespace Progress

def start (moduleCount : UInt32) : Progress :=
  let room := Header.firstModuleOffset moduleCount
  ⟨[], room, Bytes.zeros room.toNat, []⟩

def add (progress : Progress) (path : String) (content : Bytes) : Progress :=
  let length := UInt64.ofNat content.length
  let paddedLength := pad64 length
  { modules := progress.modules ++ [⟨path, progress.position.toUInt32, length, paddedLength⟩]
    position := progress.position + paddedLength
    content := progress.content ++ content ++ Bytes.zeros (paddedLength - length).toNat
    reported := progress.reported ++ [progress.modules.length + 1] }

def pack (tree : FileTree) (verify : Bool) (progress : Progress) (path : String) :
    Except BundleError Progress := do
  let content ← (tree.read path).mapError (.file path)
  if verify then
    let _ ← (Image.parse content).mapError (.invalidModule path)
  require (progress.position.toNat < UInt32.size) (.tooLarge progress.position)
  return progress.add path content

-- Packs one module after the other, up to the first that cannot be packed.
def packAll (tree : FileTree) (verify : Bool) (progress : Progress) :
    List String → Progress × Option BundleError
  | [] => (progress, none)
  | path :: rest =>
    match progress.pack tree verify path with
    | .error error => (progress, some error)
    | .ok next => next.packAll tree verify rest

-- The finished bundle: header and offset table go into the room kept for them.
def finish (progress : Progress) (moduleCount : UInt32) : Bytes :=
  progress.content.overwrite 0 ((Header.mk moduleCount).toBytes ++
    Bytes.ofWords (progress.modules.map PackedModule.offset))

end Progress

-- A packing run: the files afterwards, how far it came, and its result. It came
-- nowhere if the staging file could not be created.
structure Packing where
  tree : FileTree
  progress : Option Progress
  result : Except BundleError Summary

-- The modules must be files before anything is written.
def checkModules (tree : FileTree) (modules : List String) : Except BundleError Unit := do
  require (modules ≠ []) .noModules
  match modules.find? fun path => ¬ tree.isFile path with
  | some path => throw (.missingModule path)
  | none => return

-- The bundle appears at `output` in one step. Whatever fails, the staging file is
-- gone afterwards.
def publish (tree : FileTree) (modules : List String) (output : String) (verify : Bool) : Packing :=
  let directory := Path.directory output
  let moduleCount := UInt32.ofNat modules.length
  match tree.stage directory output with
  | .error error => ⟨tree, none, .error (.file directory error)⟩
  | .ok (staging, staged) =>
    match (Progress.start moduleCount).packAll staged verify modules with
    | (progress, some error) => ⟨staged.remove staging, some progress, .error error⟩
    | (progress, none) =>
      let filled := staged.put staging (.file (progress.finish moduleCount))
      match filled.rename staging output with
      | .error error => ⟨filled.remove staging, some progress, .error (.file output error)⟩
      | .ok final => ⟨final, some progress, .ok ⟨output, progress.modules, progress.position⟩⟩

def pack (tree : FileTree) (modules : List String) (output : String) (verify : Bool) : Packing :=
  match checkModules tree modules with
  | .error error => ⟨tree, none, .error error⟩
  | .ok () => publish tree modules output verify

namespace Packing

-- The reports of a run in the order in which they were made: how many modules are done, and
-- of how many. The total is the same in each of them.
def reports (packing : Packing) (total : Nat) : List (Nat × Nat) :=
  match packing.progress with
  | none => []
  | some progress => progress.reported.map fun done => (done, total)

def moduleRecord (packed : PackedModule) (index : Nat) : Record :=
  Trace.debug (s!"module {index} `{packed.path}` at {hexWord packed.offset.toNat}" ++
    s!" ({packed.length} bytes, {packed.paddedLength} padded)")

def trace (packing : Packing) (moduleCount : Nat) : Trace :=
  match packing.progress with
  | none => []
  | some progress =>
    let room := Header.firstModuleOffset (UInt32.ofNat moduleCount)
    Trace.debug s!"reserved {room} bytes for header and offset table" ::
      progress.modules.zipIdx.map (fun (packed, index) => moduleRecord packed index) ++
      .after packing.result fun summary =>
        [Trace.info (s!"wrote {summary.modules.length} module(s)," ++
          s!" {summary.totalSize} bytes to `{summary.path}`")]

end Packing

end Loadable.Bundle
