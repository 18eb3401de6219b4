import Loadable.Proofs.Bundle.Contents
import Loadable.Proofs.Image.Corruption

namespace Loadable.Bundle

variable {tree : FileTree} {modules : List String}

-- The path leads to a file that the verifier accepts.
def Acceptable (tree : FileTree) (path : String) : Prop :=
  ∃ content, tree.read path = .ok content ∧ (Image.parse content).isOk

theorem exists_parse_of_isOk {content : Bytes} (h : (Image.parse content).isOk) :
    ∃ image, Image.parse content = .ok image :=
  (Image.exists_parse_iff content).mpr ((Image.isOk_parse_iff content).mp h)

-- Sizes and offsets of an image are whole multiples of the alignment, the total among them.
theorem roundUp_length_of_isOk {content : Bytes} (h : (Image.parse content).isOk) :
    roundUp content.length 8 = content.length := by
  have haccepted := (Image.isOk_parse_iff content).mp h
  have haligned := haccepted.aligned ("total_size", (Format.Header.read content).totalSize)
    (by simp [Format.Header.alignedFields])
  have hmod : content.length % 8 = 0 := by
    rw [← haccepted.fits.total]
    exact congrArg UInt32.toNat haligned
  rw [roundUp]
  omega

namespace Progress

variable {progress : Progress} {path : String} {content : Bytes} {before : Nat}
  {done : List (String × Bytes)}

theorem pack_of_acceptable (progress : Progress) (h : Acceptable tree path) :
    progress.pack tree true path = progress.pack tree false path := by
  obtain ⟨content, hread, hok⟩ := h
  obtain ⟨image, hparse⟩ := exists_parse_of_isOk hok
  simp [pack, hread, hparse, Except.mapError]

theorem pack_of_refused (progress : Progress) {cause : Format.Error}
    (hread : tree.read path = .ok content) (hparse : Image.parse content = .error cause) :
    progress.pack tree true path = .error (.invalidModule path cause) := by
  simp [pack, hread, hparse, Except.mapError]

theorem acceptable_of_packAll {next : Progress}
    (h : progress.packAll tree true modules = (next, none)) :
    ∀ path ∈ modules, Acceptable tree path := by
  induction modules generalizing progress with
  | nil => exact List.forall_mem_nil _
  | cons path rest ih =>
      rw [packAll] at h
      cases hpack : progress.pack tree true path with
      | error error =>
          rw [hpack] at h
          cases h
      | ok first =>
          rw [hpack] at h
          obtain ⟨content, hread, hparse, _, _⟩ := (pack_eq_ok_iff _ _ _).mp hpack
          have hok := (Image.isOk_parse_iff content).mpr
            ((Image.exists_parse_iff content).mp (hparse rfl))
          exact List.forall_mem_cons.mpr ⟨⟨content, hread, hok⟩, ih h⟩

-- Acceptable files at the start of a list are packed, as long as they can be addressed.
theorem Exact.packAll_append (h : progress.Exact before done) {files : List (String × Bytes)}
    (hfits : before + span ((done ++ files).map Prod.snd) < UInt32.size)
    (hreads : ∀ file ∈ files, tree.read file.1 = .ok file.2)
    (hok : ∀ file ∈ files, (Image.parse file.2).isOk) (rest : List String) :
    progress.packAll tree true (files.map Prod.fst ++ rest) =
      (progress.addAll files).packAll tree true rest := by
  induction files generalizing progress done with
  | nil => rfl
  | cons file others ih =>
      obtain ⟨hread, hreads⟩ := List.forall_mem_cons.mp hreads
      obtain ⟨haccepted, hok⟩ := List.forall_mem_cons.mp hok
      have hsplit : done ++ file :: others = done ++ [file] ++ others := by
        rw [List.append_assoc, List.singleton_append]
      have hroom := hfits
      simp only [List.map_append, List.map_cons, span_append, span_cons] at hroom
      have hposition : progress.position.toNat < UInt32.size := by
        rw [h.position]
        omega
      have hpack : progress.pack tree true file.1 = .ok (progress.add file.1 file.2) :=
        (pack_eq_ok_iff _ _ _).mpr
          ⟨file.2, hread, fun _ => exists_parse_of_isOk haccepted, hposition, rfl⟩
      rw [List.map_cons, List.cons_append, packAll, hpack]
      rw [hsplit] at hfits
      exact ih (h.add file.1 (by omega)) hfits hreads hok

end Progress

variable {output : String} {files : List (String × Bytes)}

-- The run with verification and the run without it can only differ by a refusal.
theorem pack_eq_of_acceptable (h : ∀ path ∈ modules, Acceptable tree path) (output : String) :
    pack tree modules output true = pack tree modules output false := by
  unfold pack
  cases hmodules : checkModules tree modules with
  | error error => rfl
  | ok _ =>
      dsimp only
      rw [publish_eq hmodules, publish_eq hmodules, Progress.packAll_congr_step _
        fun path hmem progress => progress.pack_of_acceptable (h path hmem)]

theorem acceptable_of_pack (h : (pack tree modules output true).result.isOk) :
    ∀ path ∈ modules, Acceptable tree path := by
  unfold pack at h
  cases hmodules : checkModules tree modules with
  | error error =>
      rw [hmodules] at h
      cases h
  | ok _ =>
      rw [hmodules] at h
      dsimp only at h
      rw [publish_eq hmodules] at h
      cases hstage : tree.stage (Path.directory output) output with
      | error error =>
          rw [hstage] at h
          cases h
      | ok staged =>
          rw [hstage] at h
          dsimp only at h
          rcases hpack : (Progress.start (.ofNat modules.length)).packAll tree true modules
            with ⟨progress, _ | error⟩
          · exact Progress.acceptable_of_packAll hpack
          · rw [hpack] at h
            cases h

-- The run stops at the first module that is refused, whatever follows it.
theorem pack_of_first_refused (hreads : Reads tree modules files)
    (hsize : totalSize (files.map Prod.snd) < UInt32.size)
    (hstage : (tree.stage (Path.directory output) output).isOk)
    {before after : List (String × Bytes)} {path : String} {content : Bytes}
    {cause : Format.Error} (hfiles : files = before ++ (path, content) :: after)
    (hbefore : ∀ file ∈ before, (Image.parse file.2).isOk)
    (hparse : Image.parse content = .error cause) :
    (pack tree modules output true).result = .error (.invalidModule path cause) := by
  obtain ⟨rfl, hcontents⟩ := hreads
  have hmodules : checkModules tree (files.map Prod.fst) = .ok () := by
    refine (checkModules_eq_ok_iff _ _ _).mpr ⟨by simp [hfiles], ?_⟩
    intro path hmem
    obtain ⟨file, hfile, rfl⟩ := List.mem_map.mp hmem
    exact ⟨file.2, hcontents file hfile⟩
  have hpaths : files.map Prod.fst = before.map Prod.fst ++ path :: after.map Prod.fst := by
    rw [hfiles, List.map_append, List.map_cons]
  have hreadable : ∀ file ∈ before, tree.read file.1 = .ok file.2 := fun file hmem =>
    hcontents file (hfiles ▸ List.mem_append_left _ hmem)
  have hread : tree.read path = .ok content :=
    hcontents (path, content) (hfiles ▸ List.mem_append_right _ List.mem_cons_self)
  have hfits : room files.length + span (([] ++ before).map Prod.snd) < UInt32.size := by
    rw [totalSize, List.length_map, hfiles, List.map_append, span_append, ← hfiles] at hsize
    rw [List.nil_append]
    omega
  obtain ⟨staged, hstaged⟩ : ∃ staged, tree.stage (Path.directory output) output = .ok staged := by
    cases htree : tree.stage (Path.directory output) output with
    | ok staged => exact ⟨staged, rfl⟩
    | error error =>
        rw [htree] at hstage
        cases hstage
  rw [pack, hmodules]
  dsimp only
  rw [publish_eq hmodules, hstaged, List.length_map, hpaths,
    (exact_start_of_totalSize hsize).packAll_append hfits hreadable hbefore, Progress.packAll,
    Progress.pack_of_refused _ hread hparse]
  rfl

theorem exists_reads_of_acceptable (h : ∀ path ∈ modules, Acceptable tree path) :
    ∃ files, Reads tree modules files ∧ ∀ file ∈ files, (Image.parse file.2).isOk := by
  induction modules with
  | nil => exact ⟨[], ⟨rfl, List.forall_mem_nil _⟩, List.forall_mem_nil _⟩
  | cons path rest ih =>
      obtain ⟨⟨content, hread, hok⟩, hrest⟩ := List.forall_mem_cons.mp h
      obtain ⟨files, ⟨rfl, hfiles⟩, haccepted⟩ := ih hrest
      exact ⟨(path, content) :: files, ⟨rfl, List.forall_mem_cons.mpr ⟨hread, hfiles⟩⟩,
        List.forall_mem_cons.mpr ⟨hok, haccepted⟩⟩

theorem packAll_of_acceptable (hsize : totalSize (files.map Prod.snd) < UInt32.size)
    (hreads : ∀ file ∈ files, tree.read file.1 = .ok file.2)
    (hok : ∀ file ∈ files, (Image.parse file.2).isOk) :
    (Progress.start (.ofNat files.length)).packAll tree true (files.map Prod.fst) =
      (packed files, none) := by
  have hstart := exact_start_of_totalSize hsize
  rw [totalSize, List.length_map] at hsize
  have hpacked := hstart.packAll_append hsize hreads hok []
  rwa [List.append_nil] at hpacked

-- Where every module is accepted, nothing but the output is left to fail.
theorem error_eq_file_of_acceptable (hne : modules ≠ [])
    (h : ∀ path ∈ modules, Acceptable tree path)
    (hsize : ∀ files, Reads tree modules files → totalSize (files.map Prod.snd) < UInt32.size)
    {error : BundleError} (herror : (pack tree modules output true).result = .error error) :
    ∃ cause, error = .file (Path.directory output) cause ∨ error = .file output cause := by
  have hmodules : checkModules tree modules = .ok () :=
    (checkModules_eq_ok_iff _ _ _).mpr
      ⟨hne, fun path hmem => (h path hmem).imp fun _ hcontent => hcontent.1⟩
  obtain ⟨files, hreads, hok⟩ := exists_reads_of_acceptable h
  have htotal := hsize files hreads
  obtain ⟨rfl, hcontents⟩ := hreads
  rw [pack, hmodules] at herror
  dsimp only at herror
  rw [publish_eq hmodules, List.length_map, packAll_of_acceptable htotal hcontents hok] at herror
  cases hstage : tree.stage (Path.directory output) output with
  | error cause =>
      rw [hstage] at herror
      exact ⟨cause, Or.inl (Except.error.inj herror).symm⟩
  | ok staged =>
      rw [hstage] at herror
      dsimp only [conclude] at herror
      split at herror
      next cause _ => exact ⟨cause, Or.inr (Except.error.inj herror).symm⟩
      next => cases herror

theorem exists_first_refused {files : List (String × Bytes)}
    (h : ∃ file ∈ files, ¬(Image.parse file.2).isOk) :
    ∃ before path content cause after, files = before ++ (path, content) :: after ∧
      (∀ file ∈ before, (Image.parse file.2).isOk) ∧ Image.parse content = .error cause := by
  cases hfirst : firstError (files.map fun file => failure? (Image.parse file.2)) with
  | none =>
      obtain ⟨file, hmem, hrefused⟩ := h
      rw [firstError_map_eq_none_iff] at hfirst
      exact absurd ((failure?_eq_none_iff _).mp (hfirst file hmem)) hrefused
  | some cause =>
      obtain ⟨before, file, after, hfiles, hbefore, hfile⟩ :=
        (firstError_map_eq_some_iff _ _ _).mp hfirst
      exact ⟨before, file.1, file.2, cause, after, hfiles,
        fun earlier hmem => (failure?_eq_none_iff _).mp (hbefore earlier hmem),
        (failure?_eq_some_iff _ _).mp hfile⟩

theorem forall_of_forall₂ {α β : Type} {R : α → β → Prop} {P : α → Prop} {Q : β → Prop}
    {inputs : List α} {answers : List β} (h : List.Forall₂ R inputs answers)
    (hanswers : ∀ answer ∈ answers, Q answer)
    (hstep : ∀ input answer, R input answer → Q answer → P input) :
    ∀ input ∈ inputs, P input := by
  induction h with
  | nil => exact List.forall_mem_nil _
  | cons hfirst _ ih =>
      obtain ⟨hanswer, hrest⟩ := List.forall_mem_cons.mp hanswers
      exact List.forall_mem_cons.mpr ⟨hstep _ _ hfirst hanswer, ih hrest⟩

-- Modules that were verified stand in the bundle as they are, and pass once more.
structure Summary.Verified (summary : Summary) (bundle : Bytes)
    (files : List (String × Bytes)) : Prop where
  bytes : bundle = Bytes.ofWords ([Format.bundleMagic, .ofNat files.length] ++
    List.replicate 6 0 ++ summary.offsets) ++ files.flatMap Prod.snd
  lengths : ∀ packed ∈ summary.modules, packed.paddedLength = packed.length
  modules : ∀ packed ∈ summary.modules,
    (Image.parse (bundle.slice ⟨packed.offset.toNat, packed.length.toNat⟩)).isOk

theorem verified_bundleOf (hsize : totalSize (files.map Prod.snd) < UInt32.size)
    (hok : ∀ file ∈ files, (Image.parse file.2).isOk) :
    (Summary.mk output (packed files).modules (packed files).position).Verified (bundleOf files)
      files := by
  have hholds := holds_bundleOf hsize
  have hmodules : List.Forall₂
      (fun packed file => packed.Describes file ∧
        (bundleOf files).slice ⟨packed.offset.toNat, file.2.length⟩ = file.2)
      (packed files).modules files :=
    (exact_packed hsize).modules.mp (fun _ _ hdescribes hslice => ⟨hdescribes, hslice⟩)
      (List.forall₂_map_left_iff.mp (List.forall₂_map_right_iff.mp hholds.modules))
  refine ⟨?_, ?_, ?_⟩
  · have hfilled : (files.map Prod.snd).flatMap filled = files.flatMap Prod.snd := by
      rw [List.flatMap_map]
      apply List.flatMap_congr
      intro file hmem
      rw [filled, roundUp_length_of_isOk (hok file hmem), Nat.sub_self]
      exact List.append_nil _
    rw [hholds.bytes, hfilled, List.length_map]
    rfl
  · refine forall_of_forall₂ hmodules hok fun packed file hpacked haccepted => ?_
    apply UInt64.toNat.inj
    rw [hpacked.1.paddedLength, hpacked.1.length, roundUp_length_of_isOk haccepted]
  · refine forall_of_forall₂ hmodules hok fun packed file hpacked haccepted => ?_
    rwa [hpacked.1.length, hpacked.2]

theorem exists_verified_of_pack
    (hsize : ∀ files, Reads tree modules files → totalSize (files.map Prod.snd) < UInt32.size)
    (hok : (pack tree modules output true).result.isOk) :
    ∃ files summary bundle, Reads tree modules files ∧
      (pack tree modules output true).result = .ok summary ∧
      (pack tree modules output true).tree.read output = .ok bundle ∧
      summary.Verified bundle files := by
  have hacceptable := acceptable_of_pack hok
  rcases pack_cases tree modules output true with
    ⟨progress, error, herror, _⟩ | ⟨files, final, hreads, hreplaced, hpack⟩
  · rw [herror] at hok
    cases hok
  · have haccepted : ∀ file ∈ files, (Image.parse file.2).isOk := by
      intro file hmem
      obtain ⟨content, hread, hparse⟩ :=
        hacceptable file.1 (hreads.1 ▸ List.mem_map_of_mem hmem)
      rw [hreads.2 file hmem, Except.ok.injEq] at hread
      rwa [hread]
    rw [hpack]
    exact ⟨files, _, bundleOf files, hreads, rfl, hreplaced.read,
      verified_bundleOf (hsize files hreads) haccepted⟩

-- Verification only decides whether there is a bundle, never what is in it. It blames the
-- first module that is none.
theorem verification_is_transparent (tree : FileTree) (modules : List String) (output : String)
    (hsize : ∀ files, Reads tree modules files → totalSize (files.map Prod.snd) < UInt32.size) :
    let checked := pack tree modules output true
    let plain := pack tree modules output false
    (checked.result.isOk ↔
      plain.result.isOk ∧ ∀ path ∈ modules, Acceptable tree path) ∧
    (checked.result.isOk → checked = plain ∧
      ∃ files summary bundle, Reads tree modules files ∧ checked.result = .ok summary ∧
        checked.tree.read output = .ok bundle ∧ summary.Verified bundle files) ∧
    ∀ files, Reads tree modules files → (tree.stage (Path.directory output) output).isOk →
      (∃ file ∈ files, ¬(Image.parse file.2).isOk) →
      ∃ before path content cause after, files = before ++ (path, content) :: after ∧
        (∀ file ∈ before, (Image.parse file.2).isOk) ∧ Image.parse content = .error cause ∧
        checked.result = .error (.invalidModule path cause) := by
  intro checked plain
  have hsame : (∀ path ∈ modules, Acceptable tree path) → checked = plain := fun hacceptable =>
    pack_eq_of_acceptable hacceptable output
  refine ⟨⟨fun hok => ?_, fun ⟨hok, hacceptable⟩ => ?_⟩, fun hok => ?_, ?_⟩
  · have hacceptable := acceptable_of_pack hok
    exact ⟨hsame hacceptable ▸ hok, hacceptable⟩
  · rwa [hsame hacceptable]
  · exact ⟨hsame (acceptable_of_pack hok), exists_verified_of_pack hsize hok⟩
  · intro files hreads hstage hrefused
    obtain ⟨before, path, content, cause, after, hfiles, hbefore, hparse⟩ :=
      exists_first_refused hrefused
    exact ⟨before, path, content, cause, after, hfiles, hbefore, hparse,
      pack_of_first_refused hreads (hsize files hreads) hstage hfiles hbefore hparse⟩

-- A module, and a file that is none.
def sampleImages : FileTree :=
  ⟨[(["module"], .file Image.sample), (["notes"], .file [1, 2, 3])], []⟩

theorem read_sampleImages :
    sampleImages.read "module" = .ok Image.sample ∧ sampleImages.read "notes" = .ok [1, 2, 3] :=
  ⟨(FileTree.read_eq_ok_iff _ _ _).mpr ⟨["module"], by decide +kernel, rfl⟩,
    (FileTree.read_eq_ok_iff _ _ _).mpr ⟨["notes"], by decide +kernel, rfl⟩⟩

theorem sample_verification_is_transparent :
    (pack sampleImages ["module", "module"] "bundle" true).result.isOk ∧
      pack sampleImages ["module", "module"] "bundle" true =
        pack sampleImages ["module", "module"] "bundle" false ∧
      (pack sampleImages ["module", "notes"] "bundle" true).result =
        .error (.invalidModule "notes" (.truncated 64 3)) := by
  have haccepted : (Image.parse Image.sample).isOk :=
    (Image.isOk_parse_iff _).mpr Image.accepted_sample
  obtain ⟨hmodule, hnotes⟩ := read_sampleImages
  have hgood : Reads sampleImages ["module", "module"]
      [("module", Image.sample), ("module", Image.sample)] := ⟨rfl, by simp [hmodule]⟩
  have hbad : Reads sampleImages ["module", "notes"]
      [("module", Image.sample), ("notes", [1, 2, 3])] := ⟨rfl, by simp [hmodule, hnotes]⟩
  obtain ⟨hok, hsame, _⟩ := verification_is_transparent sampleImages ["module", "module"] "bundle"
    fun files hreads => hgood.eq hreads ▸ by decide +kernel
  obtain ⟨_, _, hrefuse⟩ := verification_is_transparent sampleImages ["module", "notes"] "bundle"
    fun files hreads => hbad.eq hreads ▸ by decide +kernel
  have hchecked : (pack sampleImages ["module", "module"] "bundle" true).result.isOk := by
    refine hok.mpr ⟨by decide +kernel, fun path hmem => ?_⟩
    obtain rfl : path = "module" := by simpa using hmem
    exact ⟨Image.sample, hmodule, haccepted⟩
  refine ⟨hchecked, (hsame hchecked).1, ?_⟩
  obtain ⟨before, path, content, cause, after, hfiles, hbefore, hparse, hresult⟩ :=
    hrefuse _ hbad (by decide +kernel) ⟨("notes", [1, 2, 3]), by simp, by decide +kernel⟩
  -- The first file is accepted, so it is the second one that is blamed.
  cases before with
  | nil =>
      cases hfiles
      rw [hparse] at haccepted
      cases haccepted
  | cons first rest =>
      rcases List.append_eq_singleton_iff.mp (List.cons.inj hfiles).2.symm with
        ⟨rfl, hlast⟩ | ⟨_, hnone⟩
      · cases hlast
        rw [hresult, ← Except.error.inj hparse]
        rfl
      · cases hnone

end Loadable.Bundle
