import Loadable.Bundle.Packing
import Loadable.Proofs.Files.Staging

namespace Loadable.Bundle

open Loadable.FileTree

variable {tree other : FileTree} {verify : Bool} {modules : List String}

-- What stands in the files at some paths.
def Reads (tree : FileTree) (paths : List String) (files : List (String × Bytes)) : Prop :=
  files.map Prod.fst = paths ∧ ∀ file ∈ files, tree.read file.1 = .ok file.2

namespace Progress

variable {progress next : Progress} {path : String} {cause : Format.Error}

theorem pack_eq_ok_iff (progress next : Progress) (path : String) :
    progress.pack tree verify path = .ok next ↔
      ∃ content, tree.read path = .ok content ∧
        (verify → ∃ image, Image.parse content = .ok image) ∧
        progress.position.toNat < UInt32.size ∧ next = progress.add path content := by
  cases verify <;> simp [pack, -bind_pure_comp]

theorem pack_eq_invalidModule {place : String}
    (h : progress.pack tree verify path = .error (.invalidModule place cause)) :
    place = path ∧ ∃ content, tree.read path = .ok content ∧
      Image.parse content = .error cause := by
  simp only [pack, bind_eq_error_iff, mapError_eq_error_iff, mapError_eq_ok_iff, reduceCtorEq,
    and_false, exists_false, false_or] at h
  obtain ⟨content, hread, h⟩ := h
  cases verify with
  | false => simp [bind_eq_error_iff, require_eq_error_iff, pure, Except.pure] at h
  | true =>
      obtain ⟨hparse, rfl⟩ : Image.parse content = .error cause ∧ path = place := by
        simpa [bind_eq_error_iff, mapError_eq_error_iff, require_eq_error_iff, pure,
          Except.pure] using h
      exact ⟨rfl, content, hread, hparse⟩

-- Two runs agree that agree on every module, whatever came before it.
theorem packAll_congr_step {verify' : Bool} (progress : Progress)
    (h : ∀ path ∈ modules, ∀ progress : Progress,
      progress.pack other verify' path = progress.pack tree verify path) :
    progress.packAll other verify' modules = progress.packAll tree verify modules := by
  induction modules generalizing progress with
  | nil => rfl
  | cons path rest ih =>
      have ⟨hpath, hrest⟩ := List.forall_mem_cons.mp h
      rw [packAll, packAll, hpath progress]
      cases progress.pack tree verify path with
      | error error => rfl
      | ok next => exact ih next hrest

-- What is read decides what is packed, wherever it is read from.
theorem packAll_congr (progress : Progress)
    (h : ∀ path ∈ modules, other.read path = tree.read path) :
    progress.packAll other verify modules = progress.packAll tree verify modules := by
  apply packAll_congr_step
  intro path hmem progress
  simp only [pack, h path hmem]

def addAll (progress : Progress) (files : List (String × Bytes)) : Progress :=
  files.foldl (fun progress file => progress.add file.1 file.2) progress

-- The reports count the modules, and leave none out.
def Counted (progress : Progress) : Prop :=
  progress.reported = (List.range progress.modules.length).map (· + 1)

theorem counted_start (moduleCount : UInt32) : (start moduleCount).Counted := rfl

theorem Counted.add (h : progress.Counted) (path : String) (content : Bytes) :
    (progress.add path content).Counted := by
  have hreported : progress.reported = _ := h
  simp only [Counted, Progress.add, List.length_append, List.length_singleton, List.range_succ,
    List.map_append, List.map_singleton, hreported]

theorem Counted.addAll (h : progress.Counted) (files : List (String × Bytes)) :
    (progress.addAll files).Counted := by
  induction files generalizing progress with
  | nil => exact h
  | cons file rest ih => exact ih (h.add file.1 file.2)

theorem packAll_eq_none (h : progress.packAll tree verify modules = (next, none)) :
    ∃ files, Reads tree modules files ∧ next = progress.addAll files := by
  induction modules generalizing progress with
  | nil => exact ⟨[], ⟨rfl, List.forall_mem_nil _⟩, (Prod.mk.inj h).1.symm⟩
  | cons path rest ih =>
      rw [packAll] at h
      cases hpack : progress.pack tree verify path with
      | error error =>
          rw [hpack] at h
          cases h
      | ok first =>
          rw [hpack] at h
          obtain ⟨content, hread, _, _, rfl⟩ := (pack_eq_ok_iff _ _ _).mp hpack
          obtain ⟨files, ⟨rfl, hfiles⟩, hnext⟩ := ih h
          exact ⟨(path, content) :: files, ⟨rfl, List.forall_mem_cons.mpr ⟨hread, hfiles⟩⟩, hnext⟩

-- A module is only called invalid if its verification fails.
theorem packAll_eq_invalidModule
    (h : progress.packAll tree verify modules = (next, some (.invalidModule path cause))) :
    path ∈ modules ∧ ∃ content, tree.read path = .ok content ∧
      Image.parse content = .error cause := by
  induction modules generalizing progress with
  | nil => cases h
  | cons first rest ih =>
      rw [packAll] at h
      cases hpack : progress.pack tree verify first with
      | error error =>
          rw [hpack] at h
          obtain ⟨_, herror⟩ := Prod.mk.inj h
          rw [Option.some.inj herror] at hpack
          obtain ⟨rfl, hcontent⟩ := pack_eq_invalidModule hpack
          exact ⟨List.mem_cons_self, hcontent⟩
      | ok next =>
          rw [hpack] at h
          obtain ⟨hmem, hcontent⟩ := ih h
          exact ⟨List.mem_cons_of_mem _ hmem, hcontent⟩

end Progress

-- How far a run comes that packs all of some files.
def packed (files : List (String × Bytes)) : Progress :=
  (Progress.start (UInt32.ofNat files.length)).addAll files

def bundleOf (files : List (String × Bytes)) : Bytes :=
  (packed files).finish (UInt32.ofNat files.length)

-- The bundle of what its modules hold.
def Made (tree : FileTree) (modules : List String) (content : Bytes) : Prop :=
  ∃ files, Reads tree modules files ∧ content = bundleOf files

theorem checkModules_eq_ok_iff (tree : FileTree) (modules : List String) (result : Unit) :
    checkModules tree modules = .ok result ↔
      modules ≠ [] ∧ ∀ path ∈ modules, ∃ content, tree.read path = .ok content := by
  have hfile : ∀ path, tree.isFile path = true ↔ ∃ content, tree.read path = .ok content := by
    intro path
    cases hread : tree.read path <;> simp [isFile, hread, Except.isOk, Except.toBool]
  simp only [checkModules, bind_eq_ok_iff, require_eq_ok, ← hfile]
  cases hfind : modules.find? fun path => ¬tree.isFile path with
  | some missing =>
      have hmissing := List.find?_some hfind
      have hmem := List.mem_of_find?_eq_some hfind
      constructor
      · rintro ⟨_, _, h⟩
        cases h
      · rintro ⟨_, hfiles⟩
        simp [hfiles missing hmem] at hmissing
  | none =>
      have hpresent := List.find?_eq_none.mp hfind
      constructor
      · rintro ⟨_, hne, _⟩
        exact ⟨hne, fun path hmem => by simpa using hpresent path hmem⟩
      · rintro ⟨hne, _⟩
        exact ⟨(), hne, rfl⟩

-- An error that blames a module for being none is right about it.
def Justified (tree : FileTree) (modules : List String) (error : BundleError) : Prop :=
  ∀ path cause, error = .invalidModule path cause →
    path ∈ modules ∧ ∃ content, tree.read path = .ok content ∧ Image.parse content = .error cause

-- How a run ends that has packed its modules, or come to the first that it cannot pack.
def conclude (tree : FileTree) (output : String) (moduleCount : UInt32) (staging : Location) :
    Progress × Option BundleError → Packing
  | (progress, some error) => ⟨tree, some progress, .error error⟩
  | (progress, none) =>
    match (tree.put staging (.file (progress.finish moduleCount))).rename staging output with
    | .error error => ⟨tree, some progress, .error (.file output error)⟩
    | .ok final => ⟨final, some progress, .ok ⟨output, progress.modules, progress.position⟩⟩

-- The staging file is never read as a module, since all of those are there before it, and
-- a run that fails leaves nothing of it.
theorem publish_eq {result : Unit} (hmodules : checkModules tree modules = .ok result)
    (output : String) (verify : Bool) :
    publish tree modules output verify =
      match tree.stage (Path.directory output) output with
      | .error error => ⟨tree, none, .error (.file (Path.directory output) error)⟩
      | .ok (staging, _) => conclude tree output (.ofNat modules.length) staging
          ((Progress.start (.ofNat modules.length)).packAll tree verify modules) := by
  unfold publish
  dsimp only
  cases hstage : tree.stage (Path.directory output) output with
  | error error => rfl
  | ok staged =>
      obtain ⟨staging, staged⟩ := staged
      obtain ⟨hunused, rfl⟩ := stage_eq_ok hstage
      have hreads : ∀ path ∈ modules,
          (tree.put staging (.file [])).read path = tree.read path := by
        intro path hmem
        obtain ⟨content, hread⟩ := ((checkModules_eq_ok_iff _ _ _).mp hmodules).2 path hmem
        rw [hread, hunused.read_put [] hread]
      dsimp only
      rw [Progress.packAll_congr _ hreads]
      rcases (Progress.start (UInt32.ofNat modules.length)).packAll tree verify modules
        with ⟨progress, _ | error⟩
      · simp only [conclude, put_put]
        cases (tree.put staging (.file (progress.finish (.ofNat modules.length)))).rename staging
          output with
        | error error =>
            dsimp only
            rw [hunused.remove_put]
        | ok final => rfl
      · simp only [conclude, hunused.remove_put]

-- A bundle is published whole or not at all.
theorem publish_cases {result : Unit} (hmodules : checkModules tree modules = .ok result)
    (output : String) (verify : Bool) :
    (∃ progress error, publish tree modules output verify = ⟨tree, progress, .error error⟩ ∧
        Justified tree modules error) ∨
      ∃ files final, Reads tree modules files ∧ tree.Replaced output (bundleOf files) final ∧
        publish tree modules output verify =
          ⟨final, some (packed files),
            .ok ⟨output, (packed files).modules, (packed files).position⟩⟩ := by
  rw [publish_eq hmodules]
  cases hstage : tree.stage (Path.directory output) output with
  | error error => exact Or.inl ⟨_, _, rfl, nofun⟩
  | ok staged =>
      obtain ⟨staging, staged⟩ := staged
      obtain ⟨hunused, rfl⟩ := stage_eq_ok hstage
      dsimp only
      rcases hpack : (Progress.start (UInt32.ofNat modules.length)).packAll tree verify modules
        with ⟨progress, _ | error⟩
      · obtain ⟨files, ⟨rfl, hfiles⟩, rfl⟩ := Progress.packAll_eq_none hpack
        have hpacked : (Progress.start (UInt32.ofNat files.length)).addAll files =
            packed files := rfl
        have hbundle : (packed files).finish (UInt32.ofNat files.length) = bundleOf files := rfl
        simp only [conclude, List.length_map, hpacked, hbundle]
        cases hrename : (tree.put staging (.file (bundleOf files))).rename staging output with
        | error error => exact Or.inl ⟨_, _, rfl, nofun⟩
        | ok final =>
            exact Or.inr ⟨files, final, ⟨rfl, hfiles⟩, hunused.replaced_of_rename hrename, rfl⟩
      · refine Or.inl ⟨_, _, rfl, ?_⟩
        rintro path cause rfl
        exact Progress.packAll_eq_invalidModule hpack

theorem pack_cases (tree : FileTree) (modules : List String) (output : String) (verify : Bool) :
    (∃ progress error, pack tree modules output verify = ⟨tree, progress, .error error⟩ ∧
        Justified tree modules error) ∨
      ∃ files final, Reads tree modules files ∧ tree.Replaced output (bundleOf files) final ∧
        pack tree modules output verify =
          ⟨final, some (packed files),
            .ok ⟨output, (packed files).modules, (packed files).position⟩⟩ := by
  unfold pack
  cases hmodules : checkModules tree modules with
  | error error =>
      refine Or.inl ⟨_, _, rfl, ?_⟩
      rintro path cause rfl
      simp only [checkModules, bind_eq_error_iff, require_eq_error_iff, reduceCtorEq, and_false,
        false_or] at hmodules
      obtain ⟨_, _, hmissing⟩ := hmodules
      split at hmissing <;> cases hmissing
  | ok _ => exact publish_cases hmodules output verify

end Loadable.Bundle
