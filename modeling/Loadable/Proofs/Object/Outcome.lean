import Loadable.Proofs.Build.Accounting

namespace Loadable

namespace RawSymbol

def steps (raw : RawSymbol) : List (Option BuildError) :=
  [excess "symbol value" raw.value.toNat, excess "symbol size" raw.size.toNat]

theorem failure?_symbol (raw : RawSymbol) (references : UInt32) :
    failure? (raw.symbol references) = firstError raw.steps := by
  rw [RawSymbol.symbol, steps, firstError_cons, ← failure?_narrow]
  refine failure?_bind fun _ _ => ?_
  rw [firstError_cons, ← failure?_narrow]
  exact failure?_bind fun _ _ => rfl

end RawSymbol

-- A symbol says what the object said of it.
structure Symbol.Restates (symbol : Symbol) (raw : RawSymbol) : Prop where
  value : symbol.value.toNat = raw.value.toNat
  size : symbol.size.toNat = raw.size.toNat
  name : symbol.name = raw.name
  kind : symbol.kind = .ofRaw raw.rawType
  sectionIndex : symbol.sectionIndex = raw.sectionIndex

namespace RelocatedSection

-- A candidate says what the object said of the relocation, and of the section only where it
-- belongs.
structure Took (place : RelocatedSection) (raw : RawRelocation) (candidate : Candidate) :
    Prop where
  sectionName : candidate.sectionName = place.name
  region : candidate.region = .ofSectionName place.name
  offset : candidate.offset.toNat = raw.offset.toNat
  rawType : candidate.rawType = raw.rawType
  symbolIndex : candidate.symbolIndex = raw.symbolIndex

theorem failure?_candidate (place : RelocatedSection) (raw : RawRelocation) :
    failure? (place.candidate raw) = excess "relocation offset" raw.offset.toNat := by
  rw [candidate, ← failure?_narrow]
  cases narrow "relocation offset" raw.offset.toNat <;> rfl

theorem exported_cons (place : RelocatedSection) (rest : List RelocatedSection) :
    exported (place :: rest) =
      (if place.region.isExported then place.relocations.map fun raw => (place, raw) else []) ++
        exported rest := by
  unfold exported
  rw [List.filter_cons]
  split
  · rfl
  · rfl

end RelocatedSection

namespace Source

open RelocatedSection (failure?_candidate exported_cons)

-- What can be read of the sections.
def readableSections (source : Source) : List SectionInfo :=
  match source.sections with
  | .ok sections => sections
  | .error _ => []

def missingSymbols (source : Source) : Option BuildError :=
  match source.symbols with
  | .ok none => some .missingSymbolTable
  | _ => none

def bssSteps (part : SectionInfo) : List (Option BuildError) :=
  [excess "bss start" part.address.toNat, excess "bss length" part.size.toNat]

-- Everything that an inspection takes from an object can be read and fits a word. What it
-- does not take may be anything.
structure Fits (source : Source) : Prop where
  entryPoint : source.entry.toNat < UInt32.size
  sections : source.sections.isOk
  bss : ∀ part, bssSection? source.readableSections = some part →
    part.address.toNat < UInt32.size ∧ part.size.toNat < UInt32.size
  symbols : ∃ raws, source.symbols = .ok (some raws)
  relocated : source.relocated.isOk
  offsets : ∀ entry ∈ source.exported, entry.2.offset.toNat < UInt32.size
  values : ∀ raw ∈ source.listed, raw.value.toNat < UInt32.size ∧ raw.size.toNat < UInt32.size

-- What an inspection answers with.
structure Kept (source : Source) (object : Inspection) : Prop where
  entryPoint : object.entryPoint.toNat = source.entry.toNat
  bss : (object.bss.start.toNat, object.bss.length.toNat) =
    ((bssSection? source.readableSections).map fun part =>
      (part.address.toNat, part.size.toNat)).getD (0, 0)
  candidates : List.Forall₂ (fun entry candidate => entry.1.Took entry.2 candidate)
    source.exported object.candidates
  indices : ∀ index, index ∈ object.symbols.indices ↔
    index = 0 ∨ ∃ raw ∈ source.listed, raw.index = index
  symbols : ∀ index raw, source.denoted? index = some raw →
    ∃ symbol, object.symbols.get? index = some symbol ∧ symbol.Restates raw
  references : source.exported.length < UInt32.size → ∀ index symbol,
    object.symbols.get? index = some symbol → symbol.references.toNat =
      object.candidates.countP fun candidate => candidate.symbolIndex = index

-- The steps of an inspection in their order, each with the error that it ends in if it fails.
def steps (source : Source) : List (Option BuildError) :=
  [excess "entry point" source.entry.toNat, failure? source.sections] ++
    (bssSection? source.readableSections).toList.flatMap bssSteps ++
    [failure? source.symbols, source.missingSymbols, failure? source.relocated] ++
    source.exported.map (fun entry => excess "relocation offset" entry.2.offset.toNat) ++
    source.listed.flatMap RawSymbol.steps

theorem failure?_bss (sections : List SectionInfo) :
    failure? (bss sections) = firstError ((bssSection? sections).toList.flatMap bssSteps) := by
  rw [bss]
  cases bssSection? sections with
  | none => rfl
  | some part =>
      rw [Option.toList_some, List.flatMap_singleton, bssSteps, firstError_cons, ← failure?_narrow]
      refine failure?_bind fun _ _ => ?_
      rw [firstError_cons, ← failure?_narrow]
      exact failure?_bind fun _ _ => rfl

theorem failure?_presentSymbols (source : Source) :
    failure? source.presentSymbols = (failure? source.symbols).or source.missingSymbols := by
  unfold presentSymbols missingSymbols
  cases source.symbols with
  | error error => rfl
  | ok symbols => cases symbols <;> rfl

theorem failure?_candidates (relocated : List RelocatedSection) :
    failure? (candidates relocated) =
      firstError ((RelocatedSection.exported relocated).map fun entry =>
        excess "relocation offset" entry.2.offset.toNat) := by
  rw [candidates, failure?_map, failure?_mapM]
  induction relocated with
  | nil => rfl
  | cons place rest ih =>
      rw [List.map_cons, firstError_cons, ih, exported_cons, List.map_append, firstError_append,
        RelocatedSection.candidates]
      congr 1
      split
      · rw [failure?_mapM, List.map_map]
        simp only [failure?_candidate]
        rfl
      · rfl

theorem failure?_symbolMap (raws : List RawSymbol) (found : List Candidate) :
    failure? (symbolMap raws found) = firstError (raws.flatMap RawSymbol.steps) := by
  have hentry : ∀ raw : RawSymbol, failure? (do
      let symbol ← raw.symbol ((Candidate.countReferences found).getD raw.index 0)
      return (raw.index, symbol)) = firstError raw.steps := fun raw => by
    rw [← raw.failure?_symbol]
    exact failure?_bind_eq_left fun _ => rfl
  rw [symbolMap, failure?_bind_eq_left, failure?_mapM, firstError_flatMap]
  · simp only [hentry]
  · intro entries
    show failure? (if (IndexMap.ofList entries).contains 0 then _ else _) = none
    split <;> rfl

-- What the later steps look at is what the earlier ones have read.
theorem failure?_inspect (source : Source) :
    failure? source.inspect = firstError source.steps := by
  simp only [steps, List.cons_append, List.nil_append, firstError_cons, firstError_append,
    firstError_nil, Option.or_none, Option.or_assoc]
  rw [inspect, entryPoint, ← failure?_narrow]
  refine failure?_bind fun _ _ => failure?_bind fun sections hsections => ?_
  have hreadable : source.readableSections = sections := by rw [readableSections, hsections]
  rw [hreadable, ← failure?_bss]
  refine failure?_bind fun _ _ => ?_
  rw [← Option.or_assoc, ← failure?_presentSymbols]
  refine failure?_bind fun raws hraws => failure?_bind fun relocated hrelocated => ?_
  have hexported : source.exported = RelocatedSection.exported relocated := by
    rw [exported, hrelocated]
  rw [hexported, listed_of_presentSymbols hraws, ← failure?_candidates]
  refine failure?_bind fun found _ => ?_
  rw [← failure?_symbolMap raws found]
  exact failure?_bind_eq_left fun _ => rfl

theorem steps_eq_none_iff (source : Source) :
    (∀ step ∈ source.steps, step = none) ↔ source.Fits := by
  have hsymbols : failure? source.symbols = none ∧ source.missingSymbols = none ↔
      ∃ raws, source.symbols = .ok (some raws) := by
    unfold missingSymbols
    cases source.symbols with
    | error error => simp
    | ok symbols => cases symbols <;> simp
  simp only [steps, List.forall_mem_append, List.forall_mem_cons, List.forall_mem_map,
    List.forall_mem_flatMap, List.not_mem_nil, false_implies, implies_true, and_true,
    excess_eq_none_iff, failure?_eq_none_iff, bssSteps, RawSymbol.steps, Option.mem_toList]
  constructor
  · rintro ⟨⟨⟨⟨⟨hentry, hsections⟩, hbss⟩, hread, hpresent, hrelocated⟩, hoffsets⟩, hvalues⟩
    have hread := hsymbols.mp ⟨(failure?_eq_none_iff _).mpr hread, hpresent⟩
    exact ⟨hentry, hsections, hbss, hread, hrelocated, hoffsets, hvalues⟩
  · intro h
    obtain ⟨hread, hpresent⟩ := hsymbols.mpr h.symbols
    exact ⟨⟨⟨⟨⟨h.entryPoint, h.sections⟩, h.bss⟩, (failure?_eq_none_iff _).mp hread, hpresent,
      h.relocated⟩, h.offsets⟩, h.values⟩

theorem isOk_inspect_iff (source : Source) : source.inspect.isOk ↔ source.Fits := by
  rw [← failure?_eq_none_iff, failure?_inspect, firstError_eq_none_iff, steps_eq_none_iff]

theorem fits_of_inspect {source : Source} {object : Inspection}
    (hinspect : source.inspect = .ok object) : source.Fits :=
  (isOk_inspect_iff source).mp (by rw [hinspect]; rfl)

theorem isSome_denoted?_iff (source : Source) (index : UInt32) :
    (source.denoted? index).isSome ↔ index = 0 ∨ ∃ raw ∈ source.listed, raw.index = index := by
  rw [denoted?, RawSymbol.denoted?, Option.isSome_or, Bool.or_eq_true, List.find?_isSome]
  simp only [List.mem_reverse, decide_eq_true_eq]
  rw [or_comm]
  split <;> simp_all

theorem toNat_bss {sections : List SectionInfo} {region : BssRegion}
    (h : bss sections = .ok region) : (region.start.toNat, region.length.toNat) =
      ((bssSection? sections).map fun part => (part.address.toNat, part.size.toNat)).getD (0, 0) := by
  unfold bss at h
  cases hpart : bssSection? sections with
  | none =>
      rw [hpart] at h
      cases h
      rfl
  | some part =>
      simp only [hpart, bind_eq_ok_iff, narrow_eq_ok_iff, pure_eq_ok_iff] at h
      obtain ⟨start, hstart, length, hlength, rfl⟩ := h
      exact Prod.ext hstart hlength

theorem isSome_get?_eq {source : Source} {object : Inspection}
    (hinspect : source.inspect = .ok object) (index : UInt32) :
    (object.symbols.get? index).isSome = (source.denoted? index).isSome := by
  cases hdenoted : source.denoted? index with
  | none => rw [get?_of_denoted?_eq_none hinspect hdenoted]; rfl
  | some raw =>
      obtain ⟨symbol, hget, _⟩ := get?_of_denoted?_eq_some hinspect hdenoted
      rw [hget]
      rfl

theorem kept_of_inspect {source : Source} {object : Inspection}
    (hinspect : source.inspect = .ok object) : source.Kept object := by
  obtain ⟨hcandidates, hsymbols⟩ := rel_of_inspect hinspect
  have hcount : source.exported.length < UInt32.size →
      object.candidates.length < UInt32.size := fun h => hcandidates.length_eq ▸ h
  have ⟨hentry, hbss⟩ : source.entryPoint = .ok object.entryPoint ∧
      bss source.readableSections = .ok object.bss := by
    simp only [inspect, bind_eq_ok_iff, pure_eq_ok_iff] at hinspect
    obtain ⟨_, hentry, _, hsections, _, hbss, _, _, _, _, _, _, _, _, rfl⟩ := hinspect
    rw [readableSections, hsections]
    exact ⟨hentry, hbss⟩
  refine ⟨(narrow_eq_ok_iff _ _ _).mp hentry, toNat_bss hbss, ?_, fun index => ?_, ?_, ?_⟩
  · refine hcandidates.imp fun entry candidate hcandidate => ?_
    obtain ⟨offset, hoffset, rfl⟩ := (RelocatedSection.candidate_eq_ok_iff _ _ _).mp hcandidate
    exact ⟨rfl, rfl, hoffset, rfl, rfl⟩
  · rw [IndexMap.mem_indices_iff, isSome_get?_eq hinspect, isSome_denoted?_iff]
  · intro index raw hdenoted
    obtain ⟨symbol, hget, hsymbol⟩ := get?_of_denoted?_eq_some hinspect hdenoted
    obtain ⟨value, size, hvalue, hsize, rfl⟩ := (RawSymbol.symbol_eq_ok_iff _ _ _).mp hsymbol
    exact ⟨_, hget, hvalue, hsize, rfl, rfl, rfl⟩
  · intro hexported index symbol hget
    exact references_of_get? hinspect (hcount hexported) hget

-- The object without the sections that are not exported.
def withoutIgnored (source : Source) : Source :=
  { source with relocated := source.relocated.map fun relocated =>
      relocated.filter fun place => place.region.isExported }

theorem candidates_filter (relocated : List RelocatedSection) :
    candidates (relocated.filter fun place => place.region.isExported) = candidates relocated := by
  induction relocated with
  | nil => rfl
  | cons place rest ih =>
      have hcons : ∀ places, candidates (place :: places) =
          place.candidates >>= fun found => (candidates places).map (found ++ ·) := by
        intro places
        rw [candidates, candidates, List.mapM_cons]
        cases place.candidates with
        | error error => rfl
        | ok found => cases places.mapM RelocatedSection.candidates <;> rfl
      rw [hcons, ← ih, List.filter_cons]
      by_cases hexported : place.region.isExported
      · rw [if_pos hexported, hcons]
      · rw [if_neg hexported, RelocatedSection.candidates, if_neg hexported, ok_bind]
        cases candidates (rest.filter fun place => place.region.isExported) <;> rfl

theorem inspect_withoutIgnored (source : Source) :
    source.withoutIgnored.inspect = source.inspect := by
  unfold inspect
  refine bind_congr_of_ok fun _ _ => bind_congr_of_ok fun _ _ => bind_congr_of_ok fun _ _ =>
    bind_congr_of_ok fun raws _ => ?_
  rw [withoutIgnored]
  cases source.relocated with
  | error error => rfl
  | ok relocated =>
      show (candidates (relocated.filter _) >>= _) = (candidates relocated >>= _)
      rw [candidates_filter]

-- An inspection succeeds if all that it takes fits, and then takes all of it. It fails with
-- the error of its first step that fails, and what is not exported has no part in it.
theorem inspection_takes_what_fits (source : Source) :
    (source.inspect.isOk ↔ source.Fits) ∧
      (∀ object, source.inspect = .ok object → source.Kept object) ∧
      (∀ error, source.inspect = .error error ↔
        ∃ before after, source.steps = before ++ some error :: after ∧
          ∀ step ∈ before, step = none) ∧
      source.withoutIgnored.inspect = source.inspect := by
  refine ⟨isOk_inspect_iff source, fun object hinspect => kept_of_inspect hinspect,
    fun error => ?_, inspect_withoutIgnored source⟩
  rw [← failure?_eq_some_iff, failure?_inspect, firstError_eq_some_iff]

-- The sample, but for the length of its zeroed memory and for its symbols.
def sampleTooLarge : Source :=
  { sample with
    sections := .ok [⟨1, ".text", 0x100000000, 8⟩, ⟨2, ".bss", 0, 0x100000000⟩]
    symbols := .ok none }

-- Neither the offset in a section that is not exported nor the address of `.text` matters, and
-- that there are no symbols is only noticed later.
theorem sample_is_taken :
    ∃ object, sample.inspect = .ok object ∧ sample.Kept object ∧
      object.symbols.indices = [0, 3, 7] ∧ object.bss = ⟨0x20000000, 12⟩ ∧
      sampleTooLarge.inspect = .error (.valueOutOfRange "bss length" 0x100000000) := by
  obtain ⟨_, hkept, _, _⟩ := inspection_takes_what_fits sample
  obtain ⟨_, _, hfailed, _⟩ := inspection_takes_what_fits sampleTooLarge
  obtain ⟨object, hinspect, hindices, hbss⟩ : ∃ object, sample.inspect = .ok object ∧
      object.symbols.indices = [0, 3, 7] ∧ object.bss = ⟨0x20000000, 12⟩ := ⟨_, rfl, rfl, rfl⟩
  exact ⟨object, hinspect, hkept object hinspect, hindices, hbss,
    (hfailed _).mpr ⟨[none, none, none], _, rfl, by simp⟩⟩

end Source

end Loadable
