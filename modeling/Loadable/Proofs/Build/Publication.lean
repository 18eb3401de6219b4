import Loadable.Build.Run
import Loadable.Proofs.Build.ReadBack
import Loadable.Proofs.Files.Staging

namespace Loadable.Build

open Loadable.FileTree

-- The second pass reads back what the first one left, so the staging file ends up with
-- the module that is assembled over a stream.
theorem fill_eq (assembler : Assembler) {staging : Location} (h : staging ≠ []) (tree : FileTree) :
    fill assembler staging tree = assembler.assembleWith.map fun written =>
      (written.1, tree.put staging (.file written.2)) := by
  unfold fill Assembler.assembleWith
  cases assembler.writeSections.run {} with
  | error error _ => rfl
  | ok written stream =>
      simp only [contentAt_put tree h, put_put]
      cases narrow "module size" written <;> rfl

-- A module is published whole or not at all.
theorem publish_cases (tree : FileTree) (assembler : Assembler) (output : String) :
    (∃ error, publish tree assembler output = (tree, .error error)) ∨
      ∃ header content final, assembler.assembleWith = .ok (header, content) ∧
        tree.Replaced output content final ∧
        publish tree assembler output = (final, .ok header) := by
  unfold publish
  dsimp only
  cases hstage : tree.stage (Path.directory output) output with
  | error error => exact Or.inl ⟨.file (Path.directory output) error, rfl⟩
  | ok staged =>
      obtain ⟨staging, staged⟩ := staged
      obtain ⟨hunused, rfl⟩ := stage_eq_ok hstage
      simp only [fill_eq assembler hunused.ne_root, put_put]
      cases hassemble : assembler.assembleWith with
      | error error =>
          left
          simp [Except.map, hunused.remove_put]
      | ok written =>
          simp only [Except.map]
          cases hrename : (tree.put staging (.file written.2)).rename staging output with
          | error error =>
              left
              simp [hunused.remove_put]
          | ok final =>
              right
              exact ⟨_, _, final, rfl, hunused.replaced_of_rename hrename, rfl⟩

-- The module that the content of two files and a text determine.
def moduleOf (description : String) (payload object : Bytes) : Except BuildError Bytes := do
  let source ← Elf.readSource object
  let inspection ← source.inspect
  let drafted ← draftFrom description payload inspection
  drafted.assembler.assemble

-- The module of what its files hold.
def Made (tree : FileTree) (options : BuildOptions) (content : Bytes) : Prop :=
  ∃ payload object, tree.read options.payload = .ok payload ∧
    tree.read options.object = .ok object ∧
    moduleOf options.description payload object = .ok content

-- What was drafted passes its verification once it is assembled.
theorem parse_of_draftFrom {description : String} {payload : Bytes} {inspection : Inspection}
    {drafted : Draft} {header : Format.Header} {content : Bytes}
    (h : draftFrom description payload inspection = .ok drafted)
    (hassemble : drafted.assembler.assembleWith = .ok (header, content)) :
    Image.parse content = .ok ⟨content, header⟩ := by
  simp only [draftFrom, bind_eq_ok_iff, pure_eq_ok_iff] at h
  obtain ⟨assembler, hmake, rfl⟩ := h
  have hsized := (Assembler.make_eq_ok hmake).1
  rw [Assembler.assembleWith_eq (Assembler.length_body hsized)] at hassemble
  obtain ⟨rfl, rfl⟩ := Prod.mk.inj (Except.ok.inj hassemble)
  exact Assembler.parse_image_of_make hmake

theorem made_of_draft {tree : FileTree} {options : BuildOptions} {drafted : Draft}
    {header : Format.Header} {content : Bytes} (h : draft tree options = .ok drafted)
    (hassemble : drafted.assembler.assembleWith = .ok (header, content)) :
    Made tree options content ∧ Image.parse content = .ok ⟨content, header⟩ := by
  simp only [draft, readObject, readFile, bind_eq_ok_iff, mapError_eq_ok_iff] at h
  obtain ⟨payload, hpayload, source, ⟨object, hobject, hsource⟩, inspection, hinspect, hdraft⟩ := h
  refine ⟨⟨payload, object, hpayload, hobject, ?_⟩, parse_of_draftFrom hdraft hassemble⟩
  simp only [moduleOf, hsource, hinspect, hdraft, ok_bind]
  rw [Assembler.assemble, hassemble]
  rfl

-- A build that does not fail leaves the module that its report speaks of.
theorem run_cases (tree : FileTree) (options : BuildOptions) :
    (∃ error, run tree options = (tree, .error error)) ∨
      ∃ report content final, Made tree options content ∧
        Image.parse content = .ok ⟨content, report.header⟩ ∧
        tree.Replaced options.output content final ∧
        report.path = options.output ∧ run tree options = (final, .ok report) := by
  unfold run
  cases hdraft : draft tree options with
  | error error => exact Or.inl ⟨error, rfl⟩
  | ok drafted =>
      dsimp only
      rcases publish_cases tree drafted.assembler options.output with
        ⟨error, hpublish⟩ | ⟨header, content, final, hassemble, hreplaced, hpublish⟩
      · left
        rw [hpublish]
        exact ⟨error, rfl⟩
      · right
        rw [hpublish]
        obtain ⟨hmade, hparse⟩ := made_of_draft hdraft hassemble
        exact ⟨_, content, final, hmade, hparse, hreplaced, rfl, rfl⟩

-- The smallest object with a symbol table: a file header, an empty section header that
-- also serves as the only symbol and as the name of all sections, and the header of the
-- symbol table.
def bareObject : Bytes :=
  Bytes.ofWords ([0x464C457F, 0x00010101, 0, 0, 0x00280001, 1, 0, 0, 52, 0, 52, 0x00280000,
    0x00010002] ++ List.replicate 10 0 ++ [0, 2, 0, 0, 52, 16, 0, 0, 0, 16])

def sampleTree : FileTree :=
  ⟨[(["object"], .file bareObject), (["payload"], .file [1, 2, 3])], []⟩

-- The file that appears is the module that is assembled over a stream. Its header is the
-- one that is reported, without having been read back, and the size that was laid out, the
-- one that was measured, the one in the header and that of the file are the same.
theorem published_file_is_assembled_module (tree : FileTree) (description : Description)
    (payload : Bytes) (relocations : RelocationTable) (symbols : SymbolTable) (bss : BssRegion)
    (entryPoint : UInt32) (assembler : Assembler) (output : String) (header : Format.Header)
    (hmake : Assembler.make description payload relocations symbols bss entryPoint =
      .ok assembler)
    (hpublish : (publish tree assembler output).2 = .ok header) :
    ∃ content written stream, (publish tree assembler output).1.read output = .ok content ∧
      assembler.assemble = .ok content ∧ Format.Header.parse content = .ok header ∧
      assembler.writeSections.run {} = .ok written stream ∧ written = content.length ∧
      header.totalSize.toNat = content.length ∧
      assembler.layout.totalSize.toNat = content.length := by
  obtain ⟨hsized, _⟩ := Assembler.make_eq_ok hmake
  have hlength := Assembler.length_image hsized
  rcases publish_cases tree assembler output with
    ⟨error, herror⟩ | ⟨found, content, final, hassemble, hreplaced, hok⟩
  · rw [herror] at hpublish
    cases hpublish
  · rw [Assembler.assembleWith_eq (Assembler.length_body hsized)] at hassemble
    obtain ⟨rfl, rfl⟩ := Prod.mk.inj (Except.ok.inj hassemble)
    rw [hok] at hpublish ⊢
    obtain rfl := Except.ok.inj hpublish
    refine ⟨_, _, _, hreplaced.read, Assembler.assemble_eq hsized,
      Format.Header.parse_toBytes _ _, assembler.run_writeSections, ?_, hlength, hlength⟩
    rw [List.length_append, List.length_append, Format.Header.length_toBytes,
      Format.Header.length_toBytes]

-- The relocation refers to no symbol, which only the verifier would mind. The module takes
-- the place of a file.
theorem sample_published_file :
    ∃ assembler header content,
      Assembler.make (.ofText "hi") [1, 2, 3] ⟨[⟨4, 2, .text, 7⟩]⟩ {} ⟨0x20000000, 12⟩ 0x41 =
        .ok assembler ∧
      (publish sampleTree assembler "payload").2 = .ok header ∧
      (publish sampleTree assembler "payload").1.read "payload" = .ok content ∧
      assembler.assemble = .ok content ∧ Format.Header.parse content = .ok header ∧
      assembler.layout.totalSize.toNat = content.length := by
  obtain ⟨assembler, header, hmake, hpublish⟩ : ∃ assembler header,
      Assembler.make (.ofText "hi") [1, 2, 3] ⟨[⟨4, 2, .text, 7⟩]⟩ {} ⟨0x20000000, 12⟩ 0x41 =
        .ok assembler ∧
      (publish sampleTree assembler "payload").2 = .ok header := ⟨_, _, rfl, rfl⟩
  obtain ⟨content, _, _, hread, hassemble, hparse, _, _, _, hsize⟩ :=
    published_file_is_assembled_module sampleTree _ _ _ _ _ _ assembler "payload" header hmake
      hpublish
  exact ⟨assembler, header, content, hmake, hpublish, hread, hassemble, hparse, hsize⟩

end Loadable.Build
