import Loadable.Command.Bundle
import Loadable.Proofs.Arguments
import Loadable.Proofs.Build.Publication
import Loadable.Proofs.Bundle.Verification
import Loadable.Proofs.Command.Rows

namespace Loadable.Command

open Loadable.Arguments
open Loadable.Build (sampleTree)
open Loadable.Bundle (Acceptable Reads totalSize)

theorem acceptable_of_parse {tree : FileTree} {path : String} {content : Bytes} {image : Image}
    (hread : tree.read path = .ok content) (hparse : Image.parse content = .ok image) :
    Acceptable tree path :=
  ⟨content, hread, by rw [hparse]; rfl⟩

theorem acceptable_of_replaced {tree final : FileTree} {path output : String} {content : Bytes}
    {image : Image} (h : Acceptable tree path) (hreplaced : tree.Replaced output content final)
    (hparse : Image.parse content = .ok image) : Acceptable final path := by
  obtain ⟨old, hread, hok⟩ := h
  rcases hreplaced.read_of_read hread with hsame | hnew
  · exact ⟨old, hsame, hok⟩
  · exact acceptable_of_parse hnew hparse

namespace Build

variable {tree : FileTree} {arguments : List String} {options : BuildOptions}
  {verify verbose : Bool} {path : String}

theorem confirm_eq_ok {content : Bytes} {image : Image} (hread : tree.read path = .ok content)
    (hparse : Image.parse content = .ok image) : confirm tree path = .ok () := by
  simp [confirm, hread, hparse, Except.mapError]

-- Reading a finished module back neither fails the build nor changes what it leaves.
theorem build_cases (setting : Setting) (tree : FileTree) (options : BuildOptions)
    (verify verbose : Bool) :
    (build setting tree options verify verbose).tree = (Loadable.Build.run tree options).1 ∧
      (build setting tree options verify verbose).status =
        if (Loadable.Build.run tree options).2.isOk then 0 else 1 := by
  unfold build
  dsimp only
  rcases Loadable.Build.run_cases tree options with
    ⟨error, hrun⟩ | ⟨report, content, final, _, hparse, hreplaced, hpath, hrun⟩
  · rw [hrun]
    exact ⟨rfl, rfl⟩
  · have hconfirm : confirm final report.path = .ok () :=
      confirm_eq_ok (hpath ▸ hreplaced.read) hparse
    rw [hrun]
    cases verify with
    | false => exact ⟨rfl, rfl⟩
    | true => simp [hconfirm, Except.isOk, Except.toBool]

theorem run_of_build (setting : Setting) (tree : FileTree)
    (h : parseBuild arguments = .ok ⟨.build options verify, verbose⟩) :
    run setting tree arguments = build setting tree options verify verbose := by
  rw [run, h]

theorem run_of_check (setting : Setting) (tree : FileTree)
    (h : parseBuild arguments = .ok ⟨.check path, verbose⟩) :
    run setting tree arguments = check setting tree path := by
  rw [run, h]

-- What a build with status 0 leaves at its output.
theorem exists_image_of_status {setting : Setting}
    (h : (build setting tree options verify verbose).status = 0) :
    ∃ report content, (Loadable.Build.run tree options).2 = .ok report ∧
      Image.parse content = .ok ⟨content, report.header⟩ ∧
      tree.Replaced options.output content (build setting tree options verify verbose).tree := by
  obtain ⟨htree, hstatus⟩ := build_cases setting tree options verify verbose
  rw [htree]
  rw [hstatus] at h
  rcases Loadable.Build.run_cases tree options with
    ⟨error, hrun⟩ | ⟨report, content, final, _, hparse, hreplaced, _, hrun⟩
  · rw [hrun] at h
    cases h
  · rw [hrun]
    exact ⟨report, content, rfl, hparse, hreplaced⟩

theorem check_of_parse (setting : Setting) {image : Image}
    (hread : tree.read path = .ok image.bytes) (hparse : Image.parse image.bytes = .ok image) :
    check setting tree path =
      ⟨tree, 0, status setting.colour "Checking" s!"`{path}`" ++ "\n" ++ imageRows image, ""⟩ := by
  have hexamine : examine tree path = .ok (imageRows image) := by
    simp only [examine, hread, hparse, Except.mapError, ok_bind]
    rfl
  unfold check
  dsimp only
  rw [hexamine]

-- All that a run of the builder can do to the files, whatever it is asked for.
theorem tree_run (setting : Setting) (tree : FileTree) (arguments : List String) :
    (run setting tree arguments).tree = tree ∨
      ∃ output content image, Image.parse content = .ok image ∧
        tree.Replaced output content (run setting tree arguments).tree := by
  unfold run
  split
  next error _ => exact Or.inl (by cases error <;> rfl)
  next request _ =>
    split
    next path _ =>
      left
      unfold check
      dsimp only
      split <;> rfl
    next options verify _ =>
      rw [(build_cases setting tree options verify request.verbose).1]
      rcases Loadable.Build.run_cases tree options with
        ⟨error, hrun⟩ | ⟨report, content, final, _, hparse, hreplaced, _, hrun⟩
      · exact Or.inl (by rw [hrun])
      · refine Or.inr ⟨options.output, content, _, hparse, ?_⟩
        rwa [hrun]

end Build

-- A series of runs of the builder, with the outputs of those that built something.
inductive Builds (start : FileTree) : List String → FileTree → Prop
  | none : Builds start [] start
  | other {outputs : List String} {now : FileTree} (setting : Setting) (arguments : List String) :
      Builds start outputs now → Builds start outputs (Build.run setting now arguments).tree
  | built {outputs : List String} {now : FileTree} (setting : Setting) {arguments : List String}
      {options : BuildOptions} {verify verbose : Bool} :
      Builds start outputs now →
      parseBuild arguments = .ok ⟨.build options verify, verbose⟩ →
      (Build.run setting now arguments).status = 0 →
      Builds start (options.output :: outputs) (Build.run setting now arguments).tree

-- No run of the builder spoils a module, although it may put another one in its place.
theorem acceptable_run {tree : FileTree} {path : String} (h : Acceptable tree path)
    (setting : Setting) (arguments : List String) :
    Acceptable (Build.run setting tree arguments).tree path := by
  rcases Build.tree_run setting tree arguments with hsame | ⟨_, _, _, hparse, hreplaced⟩
  · rwa [hsame]
  · exact acceptable_of_replaced h hreplaced hparse

theorem Builds.acceptable {start now : FileTree} {outputs : List String}
    (h : Builds start outputs now) : ∀ path ∈ outputs, Acceptable now path := by
  induction h with
  | none => exact List.forall_mem_nil _
  | other setting arguments _ ih =>
      exact fun path hmem => acceptable_run (ih path hmem) setting arguments
  | built setting _ hparse hstatus ih =>
      refine List.forall_mem_cons.mpr
        ⟨?_, fun path hmem => acceptable_run (ih path hmem) setting _⟩
      rw [Build.run_of_build setting _ hparse] at hstatus ⊢
      obtain ⟨report, content, _, himage, hreplaced⟩ := Build.exists_image_of_status hstatus
      exact acceptable_of_parse hreplaced.read himage

namespace Bundle

-- How a run of the packer ends that starts to pack, and what it says about its result.
inductive Ends (setting : Setting) (start : FileTree) (opening : String) :
    Except BundleError Loadable.Bundle.Summary → Outcome → Prop
  | packed (summary : Loadable.Bundle.Summary) (final : FileTree) (errors : String) :
      Ends setting start opening (.ok summary)
        ⟨final, 0, opening ++ success setting summary, errors⟩
  | failed (error : BundleError) (errors : String) :
      Ends setting start opening (.error error)
        ⟨start, 1, opening ++ failure setting.colour error, errors⟩

theorem ends_pack (setting : Setting) (tree : FileTree) (modules : List String) (output : String)
    (verify verbose : Bool) :
    Ends setting tree (opening setting.colour modules output)
      (Loadable.Bundle.pack tree modules output verify).result
      (pack setting tree modules output verify verbose) := by
  unfold pack
  dsimp only
  rcases Loadable.Bundle.pack_cases tree modules output verify with
    ⟨progress, error, hpack, _⟩ | ⟨files, final, _, _, hpack⟩
  · rw [hpack]
    exact .failed error _
  · rw [hpack]
    exact .packed _ final _

-- The packer blames no module that the verifier accepts.
theorem result_ne_invalidModule {tree : FileTree} {modules : List String}
    (h : ∀ path ∈ modules, Acceptable tree path) (output : String) (verify : Bool) (path : String)
    (cause : Format.Error) :
    (Loadable.Bundle.pack tree modules output verify).result ≠
      .error (.invalidModule path cause) := by
  intro hresult
  rcases Loadable.Bundle.pack_cases tree modules output verify with
    ⟨progress, error, hpack, hjustified⟩ | ⟨_, _, _, _, hpack⟩
  · rw [hpack] at hresult
    obtain ⟨hmem, content, hread, hrefused⟩ := hjustified path cause (Except.error.inj hresult)
    obtain ⟨found, hfound, hok⟩ := h path hmem
    rw [hread, Except.ok.injEq] at hfound
    rw [← hfound, hrefused] at hok
    cases hok
  · rw [hpack] at hresult
    cases hresult

end Bundle

-- Whatever the builder reports as built is a module for all that read it: for its own
-- verification, for a check of the output, and for the packer.
theorem tools_accept_what_was_built (tree : FileTree) :
    (∀ (setting setting' : Setting) (plain verifying : List String) (options : BuildOptions)
        (verbose verbose' : Bool),
      parseBuild plain = .ok ⟨.build options false, verbose⟩ →
      parseBuild verifying = .ok ⟨.build options true, verbose'⟩ →
      (Build.run setting tree plain).status = (Build.run setting' tree verifying).status ∧
        (Build.run setting tree plain).tree = (Build.run setting' tree verifying).tree) ∧
    (∀ (setting : Setting) (arguments : List String) (options : BuildOptions)
        (verify verbose : Bool),
      parseBuild arguments = .ok ⟨.build options verify, verbose⟩ →
      (Build.run setting tree arguments).status = 0 →
      let final := (Build.run setting tree arguments).tree
      ∃ report image, (Loadable.Build.run tree options).2 = .ok report ∧
        final.read options.output = .ok image.bytes ∧ Image.parse image.bytes = .ok image ∧
        image.header = report.header ∧
        ∀ (setting' : Setting) (check : List String) (verbose' : Bool),
          parseBuild check = .ok ⟨.check options.output, verbose'⟩ →
          ∃ listing,
            Build.IsListing (Build.moduleEntries image.description report.header) listing ∧
            Build.run setting' final check =
              ⟨final, 0, Build.status setting'.colour "Checking" s!"`{options.output}`" ++ "\n" ++
                listing, ""⟩) ∧
    ∀ (outputs : List String) (now : FileTree), Builds tree outputs now →
      ∀ (setting : Setting) (words : List UInt64) (arguments : List String)
        (request : BundleRequest),
        parseBundle arguments = .ok request → request.verify → request.modules ⊆ outputs →
        let output := request.output.getD (Loadable.Bundle.randomName words)
        let result := (Loadable.Bundle.pack now request.modules output true).result
        Bundle.Ends setting now (Bundle.opening setting.colour request.modules output) result
            (Bundle.run setting words now arguments) ∧
          (∀ path cause, result ≠ .error (.invalidModule path cause)) ∧
          ((∀ files, Reads now request.modules files →
              totalSize (files.map Prod.snd) < UInt32.size) →
            ∀ error, result = .error error →
              ∃ cause, error = .file (Path.directory output) cause ∨ error = .file output cause) := by
  refine ⟨?_, ?_, ?_⟩
  · intro setting setting' plain verifying options verbose verbose' hplain hverifying
    obtain ⟨htree, hstatus⟩ := Build.build_cases setting tree options false verbose
    obtain ⟨htree', hstatus'⟩ := Build.build_cases setting' tree options true verbose'
    rw [Build.run_of_build setting tree hplain, Build.run_of_build setting' tree hverifying]
    exact ⟨hstatus.trans hstatus'.symm, htree.trans htree'.symm⟩
  · intro setting arguments options verify verbose hparse hstatus
    rw [Build.run_of_build setting tree hparse] at hstatus ⊢
    obtain ⟨report, content, hreport, himage, hreplaced⟩ := Build.exists_image_of_status hstatus
    refine ⟨report, ⟨content, report.header⟩, hreport, hreplaced.read, himage, rfl, ?_⟩
    intro setting' check verbose' hcheck
    rw [Build.run_of_check setting' _ hcheck]
    exact ⟨_, Build.isListing_imageRows ⟨content, report.header⟩,
      Build.check_of_parse setting' hreplaced.read himage⟩
  · intro outputs now hbuilds setting words arguments request hparse hverify hmodules
    have hacceptable : ∀ path ∈ request.modules, Acceptable now path := fun path hmem =>
      hbuilds.acceptable path (hmodules hmem)
    refine ⟨?_, Bundle.result_ne_invalidModule hacceptable _ true, fun hsize error herror =>
      Loadable.Bundle.error_eq_file_of_acceptable (modules_ne_nil hparse) hacceptable hsize herror⟩
    have hrun : Bundle.run setting words now arguments =
        Bundle.pack setting now request.modules
          (request.output.getD (Loadable.Bundle.randomName words)) request.verify
          request.verbose := by
      rw [Bundle.run, hparse]
    rw [hrun, hverify]
    exact Bundle.ends_pack setting now request.modules _ true request.verbose

-- The module even takes the place of the payload that it is built from.
def sampleBuild : List String := ["-e", "object", "-i", "payload", "-o", "payload"]

def samplePacking : List String := ["-m", "payload", "-o", "bundle", "--verify"]

theorem sample_tools_accept_what_was_built :
    let final := (Build.run {} sampleTree sampleBuild).tree
    let result := (Loadable.Bundle.pack final ["payload"] "bundle" true).result
    (Build.run {} sampleTree (sampleBuild ++ ["--verify"])).status = 0 ∧
      (Build.run {} sampleTree (sampleBuild ++ ["--verify"])).tree = final ∧
      (∃ (image : Image) (listing : String), final.read "payload" = .ok image.bytes ∧
        Build.IsListing (Build.moduleEntries image.description image.header) listing ∧
        Build.run {} final ["--check", "payload"] =
          ⟨final, 0, "    Checking `payload`\n" ++ listing, ""⟩) ∧
      Bundle.Ends {} final "ℹ️ Packing: 1 module(s) into `bundle`\n" result
        (Bundle.run {} [] final samplePacking) ∧
      ∀ error, result = .error error →
        ∃ cause, error = .file "." cause ∨ error = .file "bundle" cause := by
  intro final result
  obtain ⟨hverified, hchecked, hpacked⟩ := tools_accept_what_was_built sampleTree
  have hparse : parseBuild sampleBuild =
      .ok ⟨.build ⟨"object", "payload", "payload", ""⟩ false, false⟩ := by rfl
  have hstatus : (Build.run {} sampleTree sampleBuild).status = 0 := by decide +kernel
  obtain ⟨hsame, htree⟩ := hverified {} {} sampleBuild (sampleBuild ++ ["--verify"]) _ _ _ hparse
    (by rfl)
  obtain ⟨report, image, _, hread, _, hheader, hcheck⟩ :=
    hchecked {} sampleBuild _ _ _ hparse hstatus
  obtain ⟨listing, hlisting, hchecking⟩ := hcheck {} ["--check", "payload"] false (by rfl)
  obtain ⟨hends, _, hfault⟩ := hpacked ["payload"] final (.built {} .none hparse hstatus) {} []
    samplePacking _ (by rfl) rfl (List.Subset.refl _)
  refine ⟨hsame ▸ hstatus, htree.symm, ⟨image, listing, hread, hheader ▸ hlisting, hchecking⟩,
    hends, hfault fun files hreads => ?_⟩
  have hlength : (final.read "payload").map List.length = .ok 72 := by decide +kernel
  have hsample : Reads final ["payload"] [("payload", image.bytes)] := ⟨rfl, by simpa using hread⟩
  rw [hread] at hlength
  obtain rfl := hreads.eq hsample
  have hbytes : image.bytes.length = 72 := Except.ok.inj hlength
  have htotal : totalSize [image.bytes] = 36 + roundUp image.bytes.length 8 := rfl
  rw [List.map_singleton, htotal, hbytes]
  decide

end Loadable.Command
