import Loadable.Proofs.Build.ReadBack
import Loadable.Proofs.Object.Inspection

namespace Loadable

theorem forall₂_mem_right {α β : Type} {R : α → β → Prop} {inputs : List α} {answers : List β}
    (h : List.Forall₂ R inputs answers) :
    List.Forall₂ (fun input answer => R input answer ∧ answer ∈ answers) inputs answers := by
  obtain ⟨hlength, hpairs⟩ := List.forall₂_iff_zip.mp h
  exact List.forall₂_iff_zip.mpr
    ⟨hlength, fun hmem => ⟨hpairs hmem, (List.of_mem_zip hmem).2⟩⟩

-- A record of a module says what the object said of the symbol.
structure SymbolRecord.Restates (record : SymbolRecord) (raw : RawSymbol) : Prop where
  value : record.value.toNat = raw.value.toNat
  sectionIndex : record.sectionIndex = raw.sectionIndex
  typeCode : record.typeCode = (SymbolKind.ofRaw raw.rawType).code

theorem RawSymbol.restates_record {raw : RawSymbol} {references : UInt32} {symbol : Symbol}
    (h : raw.symbol references = .ok symbol) :
    symbol.record.Restates raw ∧ symbol.references = references := by
  obtain ⟨value, size, hvalue, _, rfl⟩ := (RawSymbol.symbol_eq_ok_iff _ _ _).mp h
  exact ⟨⟨hvalue, rfl, rfl⟩, rfl⟩

namespace Source

-- A relocation of a module says what the object said: it changes the same place in the
-- same way, and by the same symbol.
structure Restated (source : Source) (image : Image) (entry : RelocatedSection × RawRelocation)
    (relocation : Relocation) : Prop where
  offset : relocation.offset.toNat = entry.2.offset.toNat
  rawType : relocation.rawType = entry.2.rawType
  region : relocation.region = .ofSectionName entry.1.name
  symbol : ∃ raw record, source.denoted? entry.2.symbolIndex = some raw ∧
    image.symbols[relocation.symbolPosition.toNat]? = some record ∧ record.Restates raw

-- The index of the symbol means something in the object.
def refers (source : Source) (entry : RelocatedSection × RawRelocation) : Bool :=
  (source.denoted? entry.2.symbolIndex).isSome

variable {source : Source} {object : Inspection} {image : Image}

-- One relocation on its way through the build: it is left out if its index means
-- nothing, and otherwise leads to the record of its symbol.
theorem rel_encode (hinspect : source.inspect = .ok object)
    (hcount : object.candidates.length < UInt32.size)
    (hlength : (SymbolTable.compact object.symbols).length < UInt32.size)
    (himage : image.symbols = (SymbolTable.compact object.symbols).symbols.map Symbol.record)
    {entry : RelocatedSection × RawRelocation} {candidate : Candidate}
    (hcandidate : entry.1.candidate entry.2 = .ok candidate)
    (hmem : candidate ∈ object.candidates) :
    Option.Rel (source.Restated image) (Option.guard source.refers entry)
      (((SymbolTable.compact object.symbols).positionOf? candidate.symbolIndex).map
        candidate.relocation) := by
  obtain ⟨offset, hoffset, rfl⟩ := (RelocatedSection.candidate_eq_ok_iff _ _ _).mp hcandidate
  have hreferred := Candidate.references_ne_zero hcount hmem
  cases hdenoted : source.denoted? entry.2.symbolIndex with
  | none =>
      have hguard : Option.guard source.refers entry = none := by
        rw [Option.guard_eq_none_iff, refers, hdenoted]
        rfl
      have hget := get?_of_denoted?_eq_none hinspect hdenoted
      rw [hguard, SymbolTable.positionOf?_compact_eq_none hget]
      exact Option.Rel.none
  | some raw =>
      have hguard : Option.guard source.refers entry = some entry := by
        rw [Option.guard_eq_some_iff, refers, hdenoted]
        exact ⟨rfl, rfl⟩
      obtain ⟨symbol, hget, hraw⟩ := get?_of_denoted?_eq_some hinspect hdenoted
      obtain ⟨hrestates, hreferences⟩ := RawSymbol.restates_record hraw
      -- The candidate itself is what keeps its symbol from being pruned.
      have hkept : symbol.references ≠ 0 := hreferences ▸ hreferred
      obtain ⟨position, hposition, hrecord⟩ :=
        SymbolTable.exists_positionOf?_compact hlength hget hkept
      rw [hguard, hposition]
      refine Option.Rel.some
        ⟨hoffset, rfl, rfl, raw, symbol.record, hdenoted, ?_, hrestates⟩
      rw [himage, List.getElem?_map]
      exact congrArg (Option.map Symbol.record) hrecord

-- From the object to the verified module, no relocation is lost, added, moved or turned to
-- another symbol, but for those whose index means nothing in the object.
theorem references_are_preserved (source : Source) (object : Inspection) (text : String)
    (payload : Bytes) (log : BuildLog) (assembler : Assembler)
    (hinspect : source.inspect = .ok object) (hcount : source.exported.length < UInt32.size)
    (hmake : Assembler.make (.ofText text) payload
      (RelocationTable.encode (.compact object.symbols) log object.candidates).1
      (.compact object.symbols) object.bss object.entryPoint = .ok assembler) :
    ∃ bytes image, assembler.assemble = .ok bytes ∧ Image.parse bytes = .ok image ∧
      List.Forall₂ (source.Restated image) (source.exported.filter source.refers)
        image.relocations := by
  have hcandidates := (rel_of_inspect hinspect).1
  obtain ⟨hsized, _, _, hrelocations, hsymbols⟩ := Assembler.make_eq_ok hmake
  refine ⟨assembler.image.bytes, assembler.image, Assembler.assemble_eq hsized,
    Assembler.parse_image_of_make hmake, ?_⟩
  have hlength := Assembler.length_symbols_lt hsized
  have himage := Assembler.symbols_image hsized
  rw [hsymbols] at hlength himage
  rw [Assembler.relocations_image hsized, hrelocations, RelocationTable.entries_encode,
    ← List.filterMap_eq_filter]
  have hpairs := forall₂_mem_right hcandidates
  exact List.rel_filterMap (fun _ _ hpair => rel_encode hinspect
    (hcandidates.length_eq ▸ hcount) hlength himage hpair.1 hpair.2) hpairs

-- Index 7 is listed twice and index 0 not at all; nothing has index 9.
def sample : Source where
  entry := 0x08000041
  sections := .ok [⟨1, ".text", 0, 8⟩, ⟨2, ".bss", 0x20000000, 12⟩]
  symbols := .ok (some [⟨7, "old", 1, 0, 0, 0⟩, ⟨3, "spare", 2, 0, 1, 1⟩,
    ⟨7, "main", 0x40, 4, 2, 1⟩])
  relocated := .ok [⟨".text.main", [⟨4, 10, 7⟩, ⟨8, 2, 9⟩]⟩,
    ⟨".ARM.exidx", [⟨0x100000000, 42, 3⟩]⟩, ⟨".data", [⟨0, 2, 0⟩]⟩]

theorem sample_references_are_preserved :
    ∃ object assembler bytes image, sample.inspect = .ok object ∧
      Assembler.make (.ofText "hi") [1, 2, 3]
        (RelocationTable.encode (.compact object.symbols) [] object.candidates).1
        (.compact object.symbols) object.bss object.entryPoint = .ok assembler ∧
      assembler.assemble = .ok bytes ∧ Image.parse bytes = .ok image ∧
      List.Forall₂ (sample.Restated image)
        (sample.exported.filter sample.refers) image.relocations ∧
      image.relocations.length = 2 := by
  obtain ⟨object, assembler, hinspect, hmake⟩ : ∃ object assembler,
      sample.inspect = .ok object ∧ Assembler.make (.ofText "hi") [1, 2, 3]
        (RelocationTable.encode (.compact object.symbols) [] object.candidates).1
        (.compact object.symbols) object.bss object.entryPoint = .ok assembler :=
    ⟨_, _, rfl, rfl⟩
  obtain ⟨bytes, image, hassemble, hparse, hreferences⟩ :=
    references_are_preserved sample object _ _ _ assembler hinspect (by decide) hmake
  have hlength : (sample.exported.filter sample.refers).length = 2 := by decide
  exact ⟨object, assembler, bytes, image, hinspect, hmake, hassemble, hparse, hreferences,
    hreferences.length_eq.symm.trans hlength⟩

end Source

end Loadable
