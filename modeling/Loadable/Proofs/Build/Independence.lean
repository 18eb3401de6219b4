import Loadable.Build.Run
import Loadable.Proofs.Build.Accounting

namespace Loadable

theorem findIdx?_congr {α : Type} {p q : α → Bool} {items : List α}
    (h : ∀ item ∈ items, p item = q item) : items.findIdx? p = items.findIdx? q := by
  induction items with
  | nil => rfl
  | cons item rest ih =>
      rw [List.findIdx?_cons, List.findIdx?_cons, h item List.mem_cons_self,
        ih fun other hmem => h other (List.mem_cons_of_mem _ hmem)]

namespace SymbolTable

-- What a table tells of its symbols, each with the index it had in the object.
def records (table : SymbolTable) : List (UInt32 × SymbolRecord) :=
  table.kept.map fun entry => (entry.1, entry.2.record)

-- Two tables that tell the same, but for the indices.
def Renumbered (f : UInt32 → UInt32) (table table' : SymbolTable) : Prop :=
  table'.records = table.records.map fun entry => (f entry.1, entry.2)

variable {f : UInt32 → UInt32} {table table' : SymbolTable}

theorem positionOf?_eq (table : SymbolTable) (index : UInt32) :
    table.positionOf? index =
      (table.records.findIdx? fun entry => entry.1 = index).map UInt32.ofNat := by
  rw [positionOf?, records, List.findIdx?_map]
  rfl

theorem Renumbered.length_eq (h : table.Renumbered f table') : table'.length = table.length := by
  have hlength := congrArg List.length h
  rwa [List.length_map, records, records, List.length_map, List.length_map] at hlength

theorem Renumbered.toBytes_eq (h : table.Renumbered f table') :
    table'.toBytes = table.toBytes := by
  have hbytes : ∀ table : SymbolTable,
      table.toBytes = table.records.flatMap fun entry => entry.2.toBytes := fun table => by
    rw [toBytes, symbols, records, List.flatMap_map, List.flatMap_map]
  rw [hbytes, hbytes, h, List.flatMap_map]

-- Positions stay, provided that no two indices are taken for one.
theorem Renumbered.positionOf?_eq (h : table.Renumbered f table') (index : UInt32)
    (hinjective : ∀ entry ∈ table.records, f entry.1 = f index → entry.1 = index) :
    table'.positionOf? (f index) = table.positionOf? index := by
  rw [SymbolTable.positionOf?_eq, SymbolTable.positionOf?_eq, h, List.findIdx?_map]
  congr 1
  apply findIdx?_congr
  intro entry hmem
  by_cases hsame : entry.1 = index
  · simp [hsame]
  · have hother : f entry.1 ≠ f index := fun hindex => hsame (hinjective entry hmem hindex)
    simp [hsame, hother]

end SymbolTable

namespace Assembler

-- A module has nothing in it but what its header and its body have.
theorem assemble_congr {assembler assembler' : Assembler}
    (hheader : assembler'.header = assembler.header) (hbody : assembler'.body = assembler.body) :
    assembler'.assemble = assembler.assemble := by
  unfold assemble assembleWith
  rw [run_writeSections, run_writeSections, hheader, hbody]

-- Of the symbols, only their number and their bytes get there.
theorem make_bind_assemble_congr {table table' : SymbolTable}
    (hlength : table'.length = table.length) (hbytes : table'.toBytes = table.toBytes)
    (description : Description) (payload : Bytes) (relocations : RelocationTable)
    (bss : BssRegion) (entryPoint : UInt32) :
    (make description payload relocations table' bss entryPoint >>= assemble) =
      (make description payload relocations table bss entryPoint >>= assemble) := by
  simp only [make, bind_assoc, pure_bind, hlength]
  refine bind_congr_of_ok fun layout _ => bind_congr_of_ok fun padded _ => ?_
  apply assemble_congr
  · rfl
  · simp only [body, descriptionRegion, payloadRegion, hbytes]

end Assembler

-- A relocation that asks for the same change at the same place, by a symbol of another index.
structure Candidate.Renumbered (f : UInt32 → UInt32) (candidate candidate' : Candidate) :
    Prop where
  region : candidate'.region = candidate.region
  offset : candidate'.offset = candidate.offset
  rawType : candidate'.rawType = candidate.rawType
  symbolIndex : candidate'.symbolIndex = f candidate.symbolIndex

theorem Candidate.Renumbered.relocation_eq {f : UInt32 → UInt32} {candidate candidate' : Candidate}
    (h : candidate.Renumbered f candidate') : candidate'.relocation = candidate.relocation := by
  funext position
  rw [Candidate.relocation, Candidate.relocation, h.region, h.offset, h.rawType]

namespace Inspection

-- The module that is made of an object.
def emitted (object : Inspection) (text : String) (payload : Bytes) : Except BuildError Bytes := do
  let drafted ← Build.draftFrom text payload object
  drafted.assembler.assemble

-- Two objects with the same relocations to take over and the same to say of the symbols
-- that these refer to, which come in the same order in both.
structure Renumbered (f : UInt32 → UInt32) (object object' : Inspection) : Prop where
  candidates : List.Forall₂ (Candidate.Renumbered f) object.candidates object'.candidates
  increasing : ∀ index ∈ object.used, ∀ later ∈ object.used, index < later → f index < f later
  symbols : ∀ index ∈ object.used, (object'.symbols.get? (f index)).map Symbol.record =
    (object.symbols.get? index).map Symbol.record

variable {f : UInt32 → UInt32} {object object' : Inspection}

theorem Renumbered.used_eq (h : object.Renumbered f object') :
    object'.used = object.used.map f := by
  rw [used, used, List.map_map, ← List.forall₂_eq_eq_eq, List.forall₂_map_left_iff,
    List.forall₂_map_right_iff]
  exact h.candidates.flip.imp fun _ _ hcandidate => hcandidate.symbolIndex

theorem Renumbered.injective (h : object.Renumbered f object') {index other : UInt32}
    (hindex : index ∈ object.used) (hother : other ∈ object.used) (hsame : f index = f other) :
    index = other := by
  by_contra hne
  rcases UInt32.lt_or_lt_of_ne hne with hlt | hlt
  · exact UInt32.ne_of_lt (h.increasing _ hindex _ hother hlt) hsame
  · exact UInt32.ne_of_lt (h.increasing _ hother _ hindex hlt) hsame.symm

theorem emitted_eq (object : Inspection) (text : String) (payload : Bytes) :
    object.emitted text payload =
      Assembler.make (.ofText text) payload
        (RelocationTable.encode (.compact object.symbols) [] object.candidates).1
        (.compact object.symbols) object.bss object.entryPoint >>= Assembler.assemble := by
  have hrelocations : (RelocationTable.encode (.compact object.symbols)
      (Description.warnings text) object.candidates).1 =
        (RelocationTable.encode (.compact object.symbols) [] object.candidates).1 :=
    congrArg RelocationTable.mk ((RelocationTable.entries_encode _ _ _).trans
      (RelocationTable.entries_encode _ _ _).symm)
  simp only [emitted, Build.draftFrom, hrelocations, bind_assoc, pure_bind]

end Inspection

-- What a symbol table makes of a symbol as the object has it. No value is cut here that an
-- inspection lets pass.
def RawSymbol.record (raw : RawSymbol) : SymbolRecord :=
  ⟨raw.value.toUInt32, raw.sectionIndex, (SymbolKind.ofRaw raw.rawType).code⟩

theorem RawSymbol.record_of_symbol {raw : RawSymbol} {references : UInt32} {symbol : Symbol}
    (h : raw.symbol references = .ok symbol) : symbol.record = raw.record := by
  obtain ⟨hrestates, _⟩ := RawSymbol.restates_record h
  rw [RawSymbol.record, ← eq_toUInt32_of_toNat hrestates.value, ← hrestates.sectionIndex,
    ← hrestates.typeCode]

namespace Source

-- Two objects that say the same to a module. Symbols that nothing refers to, sections that
-- are not exported, names and sizes may be anything, and so may the indices of symbols as
-- long as their order stays.
structure Renumbered (f : UInt32 → UInt32) (source source' : Source) : Prop where
  relocations : List.Forall₂ (fun entry entry' => entry'.1.region = entry.1.region ∧
    entry'.2 = { entry.2 with symbolIndex := f entry.2.symbolIndex })
    source.exported source'.exported
  increasing : ∀ entry ∈ source.exported, ∀ later ∈ source.exported,
    entry.2.symbolIndex < later.2.symbolIndex →
      f entry.2.symbolIndex < f later.2.symbolIndex
  symbols : ∀ entry ∈ source.exported,
    (source'.denoted? (f entry.2.symbolIndex)).map RawSymbol.record =
      (source.denoted? entry.2.symbolIndex).map RawSymbol.record

variable {f : UInt32 → UInt32} {source source' : Source} {object object' : Inspection}

theorem used_eq_map (hinspect : source.inspect = .ok object) :
    object.used = source.exported.map fun entry => entry.2.symbolIndex := by
  rw [Inspection.used, candidates_eq_map hinspect, List.map_map]
  rfl

theorem record_of_inspect (hinspect : source.inspect = .ok object) (index : UInt32) :
    (object.symbols.get? index).map Symbol.record =
      (source.denoted? index).map RawSymbol.record := by
  cases hdenoted : source.denoted? index with
  | none => rw [get?_of_denoted?_eq_none hinspect hdenoted]; rfl
  | some raw =>
      obtain ⟨symbol, hget, hsymbol⟩ := get?_of_denoted?_eq_some hinspect hdenoted
      rw [hget]
      exact congrArg some (RawSymbol.record_of_symbol hsymbol)

theorem Renumbered.inspected (h : source.Renumbered f source')
    (hinspect : source.inspect = .ok object) (hinspect' : source'.inspect = .ok object') :
    object.Renumbered f object' := by
  have hused := used_eq_map hinspect
  refine ⟨?_, ?_, ?_⟩
  · rw [candidates_eq_map hinspect, candidates_eq_map hinspect', List.forall₂_map_left_iff,
      List.forall₂_map_right_iff]
    refine h.relocations.imp fun entry entry' hentry => ?_
    obtain ⟨hregion, hraw⟩ := hentry
    exact ⟨hregion, by rw [hraw], by rw [hraw], by rw [hraw]⟩
  · simp only [hused, List.forall_mem_map]
    exact h.increasing
  · simp only [hused, List.forall_mem_map, record_of_inspect hinspect, record_of_inspect hinspect']
    exact h.symbols

-- Which symbols are kept, and as what: those with an index that is used.
theorem mem_records_compact_iff (hinspect : source.inspect = .ok object)
    (hcount : object.candidates.length < UInt32.size) (index : UInt32) (record : SymbolRecord) :
    (index, record) ∈ (SymbolTable.compact object.symbols).records ↔
      index ∈ object.used ∧ (object.symbols.get? index).map Symbol.record = some record := by
  rw [SymbolTable.records, List.mem_map]
  constructor
  · rintro ⟨⟨_, symbol⟩, hmem, heq⟩
    obtain ⟨rfl, rfl⟩ := Prod.mk.inj heq
    obtain ⟨hget, hreferred⟩ := (SymbolTable.mem_kept_compact_iff _ _ _).mp hmem
    exact ⟨(references_ne_zero_iff hinspect hcount hget).mp hreferred, by rw [hget]; rfl⟩
  · rintro ⟨hused, hrecord⟩
    obtain ⟨symbol, hget, rfl⟩ := Option.map_eq_some_iff.mp hrecord
    have hreferred := (references_ne_zero_iff hinspect hcount hget).mpr hused
    exact ⟨(index, symbol), (SymbolTable.mem_kept_compact_iff _ _ _).mpr ⟨hget, hreferred⟩, rfl⟩

-- Both tables are in the order of their indices, which `f` keeps. So it is enough that they
-- have the same records.
theorem renumbered_compact (hinspect : source.inspect = .ok object)
    (hinspect' : source'.inspect = .ok object')
    (hcount : object.candidates.length < UInt32.size) (h : object.Renumbered f object') :
    (SymbolTable.compact object.symbols).Renumbered f (.compact object'.symbols) := by
  have hcount' : object'.candidates.length < UInt32.size := h.candidates.length_eq ▸ hcount
  have hmem := mem_records_compact_iff hinspect hcount
  have hmem' := mem_records_compact_iff hinspect' hcount'
  have hascending : ∀ symbols : SymbolMap, (SymbolTable.compact symbols).records.Pairwise
      fun earlier later => earlier.1 < later.1 := fun symbols =>
    List.pairwise_map.mpr (SymbolTable.ascending_kept_compact symbols)
  refine IndexMap.eq_of_mem_iff Prod.fst (hascending _) ?_ ?_
  · refine List.pairwise_map.mpr ((hascending _).imp_of_mem fun hearlier hlater hlt => ?_)
    exact h.increasing _ ((hmem _ _).mp hearlier).1 _ ((hmem _ _).mp hlater).1 hlt
  · rintro ⟨index, record⟩
    rw [hmem', h.used_eq, List.mem_map, List.mem_map]
    constructor
    · rintro ⟨⟨original, hused, rfl⟩, hrecord⟩
      rw [h.symbols original hused] at hrecord
      exact ⟨(original, record), (hmem _ _).mpr ⟨hused, hrecord⟩, rfl⟩
    · rintro ⟨⟨original, _⟩, hentry, heq⟩
      obtain ⟨rfl, rfl⟩ := Prod.mk.inj heq
      obtain ⟨hused, hrecord⟩ := (hmem _ _).mp hentry
      exact ⟨⟨original, hused, rfl⟩, (h.symbols original hused).trans hrecord⟩

theorem encode_of_renumbered (hinspect : source.inspect = .ok object)
    (hinspect' : source'.inspect = .ok object')
    (hcount : object.candidates.length < UInt32.size) (h : object.Renumbered f object') :
    (RelocationTable.encode (.compact object'.symbols) [] object'.candidates).1 =
      (RelocationTable.encode (.compact object.symbols) [] object.candidates).1 := by
  have htables := renumbered_compact hinspect hinspect' hcount h
  apply congrArg RelocationTable.mk
  rw [RelocationTable.entries_encode, RelocationTable.entries_encode, ← List.forall₂_eq_eq_eq]
  refine List.rel_filterMap (fun candidate' candidate hpair => ?_)
    (forall₂_mem_right h.candidates.flip)
  obtain ⟨hcandidate, hmem⟩ := hpair
  have hposition := htables.positionOf?_eq candidate.symbolIndex fun entry hentry =>
    h.injective ((mem_records_compact_iff hinspect hcount _ _).mp hentry).1
      (List.mem_map_of_mem hmem)
  rw [hcandidate.symbolIndex, hposition, hcandidate.relocation_eq]
  cases (SymbolTable.compact object.symbols).positionOf? candidate.symbolIndex with
  | none => exact Option.Rel.none
  | some position => exact Option.Rel.some rfl

theorem emitted_of_renumbered (hinspect : source.inspect = .ok object)
    (hinspect' : source'.inspect = .ok object')
    (hcount : object.candidates.length < UInt32.size) (hbss : object'.bss = object.bss)
    (hentry : object'.entryPoint = object.entryPoint) (h : object.Renumbered f object')
    (text : String) (payload : Bytes) :
    object'.emitted text payload = object.emitted text payload := by
  have htables := renumbered_compact hinspect hinspect' hcount h
  rw [Inspection.emitted_eq, Inspection.emitted_eq,
    encode_of_renumbered hinspect hinspect' hcount h, hbss, hentry]
  exact Assembler.make_bind_assemble_congr htables.length_eq htables.toBytes_eq _ _ _ _ _

-- A module depends on the relocations that it takes over and on the symbols that they refer
-- to, on the entry point and the zeroed memory, and on nothing else of the object.
theorem module_depends_only_on_what_is_referenced (source source' : Source)
    (object object' : Inspection) (f : UInt32 → UInt32) (hinspect : source.inspect = .ok object)
    (hinspect' : source'.inspect = .ok object') (hexported : source.exported.length < UInt32.size)
    (hentry : object'.entryPoint = object.entryPoint) (hbss : object'.bss = object.bss) :
    (object.Renumbered f object' → ∀ (text : String) (payload : Bytes),
      object'.emitted text payload = object.emitted text payload) ∧
    (source.Renumbered f source' → ∀ (text : String) (payload : Bytes),
      object'.emitted text payload = object.emitted text payload) := by
  have hcount : object.candidates.length < UInt32.size :=
    (rel_of_inspect hinspect).1.length_eq ▸ hexported
  constructor
  · intro h text payload
    exact emitted_of_renumbered hinspect hinspect' hcount hbss hentry h text payload
  · intro h text payload
    have hobject := h.inspected hinspect hinspect'
    exact emitted_of_renumbered hinspect hinspect' hcount hbss hentry hobject text payload

-- The sample with every index doubled, and with other names, sizes, symbols and sections
-- where a module has nothing of them.
def sampleRenumbered : Source where
  entry := 0x08000041
  sections := .ok [⟨3, ".bss", 0x20000000, 12⟩]
  symbols := .ok (some [⟨14, "start", 0x40, 8, 2, 1⟩, ⟨5, "extra", 9, 1, 1, 3⟩])
  relocated := .ok [⟨".text", [⟨4, 10, 14⟩]⟩, ⟨".text.late", [⟨8, 2, 18⟩]⟩,
    ⟨".debug_info", [⟨0, 2, 5⟩]⟩, ⟨".data.rel", [⟨0, 2, 0⟩]⟩]

theorem sample_module_is_renumbered :
    ∃ object object' bytes, sample.inspect = .ok object ∧
      sampleRenumbered.inspect = .ok object' ∧
      object.Renumbered (2 * ·) object' ∧ sample.Renumbered (2 * ·) sampleRenumbered ∧
      object.emitted "hi" [1, 2, 3] = .ok bytes ∧ object'.emitted "hi" [1, 2, 3] = .ok bytes ∧
      ∀ text payload, object'.emitted text payload = object.emitted text payload := by
  obtain ⟨object, object', assembler, hinspect, hinspect', hentry, hbss, hmake⟩ :
      ∃ object object' assembler, sample.inspect = .ok object ∧
        sampleRenumbered.inspect = .ok object' ∧
        object'.entryPoint = object.entryPoint ∧ object'.bss = object.bss ∧
        Assembler.make (.ofText "hi") [1, 2, 3]
          (RelocationTable.encode (.compact object.symbols) [] object.candidates).1
          (.compact object.symbols) object.bss object.entryPoint = .ok assembler :=
    ⟨_, _, _, rfl, rfl, rfl, rfl, rfl⟩
  have hrenumbered : sample.Renumbered (2 * ·) sampleRenumbered :=
    ⟨by decide, by decide, by decide⟩
  have hobject := hrenumbered.inspected hinspect hinspect'
  obtain ⟨hmodule, hmodule'⟩ := module_depends_only_on_what_is_referenced sample
    sampleRenumbered object object' (2 * ·) hinspect hinspect' (by decide) hentry hbss
  have hbytes : object.emitted "hi" [1, 2, 3] = .ok assembler.image.bytes := by
    rw [Inspection.emitted_eq, hmake, ok_bind]
    exact Assembler.assemble_eq (Assembler.make_eq_ok hmake).1
  exact ⟨object, object', _, hinspect, hinspect', hobject, hrenumbered, hbytes,
    (hmodule hobject _ _).trans hbytes, hmodule' hrenumbered⟩

end Source

end Loadable
