import Loadable.Object.Inspection
import Loadable.Proofs.Build.Layout
import Loadable.Proofs.Check
import Loadable.Proofs.IndexMap

namespace Loadable

namespace Candidate

theorem countReferences_concat (candidates : List Candidate) (candidate : Candidate) :
    countReferences (candidates ++ [candidate]) =
      (countReferences candidates).insert candidate.symbolIndex
        ((countReferences candidates).getD candidate.symbolIndex 0 + 1) := by
  simp only [countReferences, List.foldl_append, List.foldl_cons, List.foldl_nil]

-- Counts are kept in words and may wrap.
theorem getD_countReferences (candidates : List Candidate) (index : UInt32) :
    (countReferences candidates).getD index 0 =
      UInt32.ofNat (candidates.countP fun candidate => candidate.symbolIndex = index) := by
  induction candidates using List.reverseRecOn with
  | nil => rfl
  | append_singleton earlier candidate ih =>
      rw [countReferences_concat, IndexMap.getD, IndexMap.get?_insert, List.countP_append,
        List.countP_singleton, UInt32.ofNat_add]
      by_cases h : index = candidate.symbolIndex
      · subst h
        rw [if_pos rfl, Option.getD_some, ih, if_pos (decide_eq_true rfl)]
        rfl
      · rw [if_neg h, ← IndexMap.getD, ih, if_neg (by simpa using Ne.symm h)]
        exact (UInt32.add_zero _).symm

theorem references_ne_zero {candidates : List Candidate}
    (hlength : candidates.length < UInt32.size) {candidate : Candidate}
    (h : candidate ∈ candidates) :
    (countReferences candidates).getD candidate.symbolIndex 0 ≠ 0 := by
  have hpos : 0 < candidates.countP fun other => other.symbolIndex = candidate.symbolIndex :=
    List.countP_pos_iff.mpr ⟨candidate, h, decide_eq_true rfl⟩
  have hle := List.countP_le_length
    (p := fun other : Candidate => other.symbolIndex = candidate.symbolIndex) (l := candidates)
  intro hzero
  have hcount := congrArg UInt32.toNat (hzero.symm.trans (getD_countReferences _ _))
  rw [UInt32.toNat_ofNat_of_lt' (Nat.lt_of_le_of_lt hle hlength)] at hcount
  exact absurd hcount (Nat.ne_of_lt hpos)

end Candidate

theorem RawSymbol.symbol_eq_ok_iff (raw : RawSymbol) (references : UInt32) (symbol : Symbol) :
    raw.symbol references = .ok symbol ↔
      ∃ value size : UInt32, value.toNat = raw.value.toNat ∧ size.toNat = raw.size.toNat ∧
        symbol = ⟨value, size, raw.name, .ofRaw raw.rawType, raw.sectionIndex, references⟩ := by
  simp only [RawSymbol.symbol, bind_eq_ok_iff, narrow_eq_ok_iff, pure_eq_ok_iff]
  constructor
  · rintro ⟨value, hvalue, size, hsize, rfl⟩
    exact ⟨value, size, hvalue, hsize, rfl⟩
  · rintro ⟨value, size, hvalue, hsize, rfl⟩
    exact ⟨value, hvalue, size, hsize, rfl⟩

theorem eq_toUInt32_of_toNat {word : UInt32} {value : UInt64} (h : word.toNat = value.toNat) :
    word = value.toUInt32 := by
  apply UInt32.toNat.inj
  rw [UInt64.toNat_toUInt32, ← h]
  exact (Nat.mod_eq_of_lt word.toNat_lt).symm

namespace RelocatedSection

theorem candidate_eq_ok_iff (place : RelocatedSection) (raw : RawRelocation)
    (candidate : Candidate) :
    place.candidate raw = .ok candidate ↔
      ∃ offset : UInt32, offset.toNat = raw.offset.toNat ∧
        candidate = ⟨place.name, place.region, offset, raw.rawType, raw.symbolIndex⟩ := by
  simp only [RelocatedSection.candidate, bind_eq_ok_iff, narrow_eq_ok_iff, pure_eq_ok_iff]

theorem eq_of_candidate {place : RelocatedSection} {raw : RawRelocation}
    {candidate : Candidate} (h : place.candidate raw = .ok candidate) :
    candidate = ⟨place.name, place.region, raw.offset.toUInt32, raw.rawType, raw.symbolIndex⟩ := by
  obtain ⟨offset, hoffset, rfl⟩ := (candidate_eq_ok_iff _ _ _).mp h
  rw [eq_toUInt32_of_toNat hoffset]

-- The relocations that a module may take over, each with the section it applies to.
def exported (places : List RelocatedSection) : List (RelocatedSection × RawRelocation) :=
  (places.filter fun place => place.region.isExported).flatMap fun place =>
    place.relocations.map fun raw => (place, raw)

end RelocatedSection

namespace RawSymbol

def null : RawSymbol := ⟨0, "", 0, 0, 0, 0⟩

-- The symbol that an index means: the last one listed for it. Index 0 always means one.
def denoted? (raws : List RawSymbol) (index : UInt32) : Option RawSymbol :=
  (raws.reverse.find? fun raw => raw.index = index).or (if index = 0 then some null else none)

end RawSymbol

namespace Source

theorem forall₂_candidates {relocated : List RelocatedSection} {found : List Candidate}
    (h : candidates relocated = .ok found) :
    List.Forall₂ (fun entry candidate => entry.1.candidate entry.2 = .ok candidate)
      (RelocatedSection.exported relocated) found := by
  obtain ⟨parts, hparts, rfl⟩ := (map_eq_ok_iff _ _ _).mp h
  clear h
  rw [mapM_eq_ok_iff] at hparts
  induction hparts with
  | nil => exact List.Forall₂.nil
  | @cons place part rest others hplace _ ih =>
      unfold RelocatedSection.candidates at hplace
      unfold RelocatedSection.exported
      rw [List.filter_cons, List.flatten_cons]
      by_cases hexported : place.region.isExported
      · rw [if_pos hexported, mapM_eq_ok_iff] at hplace
        rw [if_pos hexported, List.flatMap_cons]
        exact List.rel_append (List.forall₂_map_left_iff.mpr hplace) ih
      · rw [if_neg hexported, Except.ok.injEq] at hplace
        rw [if_neg hexported, ← hplace]
        exact ih

-- Searching the listed symbols and searching the entries made of them go hand in hand.
theorem rel_lookup (references : UInt32 → UInt32) {raws : List RawSymbol}
    {entries : List (UInt32 × Symbol)}
    (h : List.Forall₂ (fun raw entry => ∃ symbol,
      raw.symbol (references raw.index) = .ok symbol ∧ entry = (raw.index, symbol)) raws entries)
    (index : UInt32) :
    Option.Rel (fun raw symbol => raw.symbol (references index) = .ok symbol)
      (raws.find? fun raw => raw.index = index) (entries.lookup index) := by
  induction h with
  | nil => exact Option.Rel.none
  | @cons raw entry rest others hentry _ ih =>
      obtain ⟨symbol, hsymbol, rfl⟩ := hentry
      rw [List.find?_cons, IndexMap.lookup_cons_eq]
      by_cases hindex : raw.index = index
      · subst hindex
        rw [if_pos rfl, decide_eq_true rfl]
        exact Option.Rel.some hsymbol
      · rw [if_neg (Ne.symm hindex), decide_eq_false hindex]
        exact ih

theorem rel_symbolMap {raws : List RawSymbol} {found : List Candidate} {symbols : SymbolMap}
    (h : symbolMap raws found = .ok symbols) (index : UInt32) :
    Option.Rel
      (fun raw symbol => raw.symbol ((Candidate.countReferences found).getD index 0) = .ok symbol)
      (RawSymbol.denoted? raws index) (symbols.get? index) := by
  simp only [symbolMap, bind_eq_ok_iff, mapM_eq_ok_iff, pure_eq_ok_iff] at h
  obtain ⟨entries, hentries, h⟩ := h
  have hsymbols : symbols = if (IndexMap.ofList entries).contains 0 then .ofList entries else
      (IndexMap.ofList entries).insert 0 { Symbol.null with
        references := (Candidate.countReferences found).getD 0 0 } := by
    split at h
    next hcontains => rw [if_pos hcontains]; exact (Except.ok.inj h).symm
    next hcontains => rw [if_neg hcontains]; exact (Except.ok.inj h).symm
  have hlisted := rel_lookup ((Candidate.countReferences found).getD · 0)
    (List.forall₂_reverse_iff.mpr hentries) index
  rw [hsymbols, IndexMap.get?_ite_insert, IndexMap.get?_ofList, RawSymbol.denoted?]
  generalize (raws.reverse.find? fun raw => raw.index = index) = listed at hlisted ⊢
  generalize entries.reverse.lookup index = entry at hlisted ⊢
  cases hlisted with
  | some hsymbol => exact Option.Rel.some hsymbol
  | none =>
      by_cases hzero : index = 0
      · subst hzero
        exact Option.Rel.some rfl
      · rw [if_neg hzero, if_neg hzero]
        exact Option.Rel.none

-- The symbols that an object lists and the relocations that a module may take over from
-- it. What cannot be read lists nothing.
def listed (source : Source) : List RawSymbol :=
  match source.symbols with
  | .ok (some raws) => raws
  | _ => []

def exported (source : Source) : List (RelocatedSection × RawRelocation) :=
  match source.relocated with
  | .ok relocated => RelocatedSection.exported relocated
  | .error _ => []

def denoted? (source : Source) (index : UInt32) : Option RawSymbol :=
  RawSymbol.denoted? source.listed index

theorem listed_of_presentSymbols {source : Source} {raws : List RawSymbol}
    (h : source.presentSymbols = .ok raws) : source.listed = raws := by
  obtain ⟨symbols, hsymbols, h⟩ := (bind_eq_ok_iff _ _ _).mp h
  cases symbols with
  | none => cases h
  | some present =>
      rw [listed, hsymbols]
      exact ((pure_eq_ok_iff present raws).mp h).symm

-- What an inspection preserves of the object.
theorem rel_of_inspect {source : Source} {object : Inspection} (h : source.inspect = .ok object) :
    List.Forall₂ (fun entry candidate => entry.1.candidate entry.2 = .ok candidate)
        source.exported object.candidates ∧
      ∀ index, Option.Rel
        (fun raw symbol =>
          raw.symbol ((Candidate.countReferences object.candidates).getD index 0) = .ok symbol)
        (source.denoted? index) (object.symbols.get? index) := by
  simp only [inspect, bind_eq_ok_iff, pure_eq_ok_iff] at h
  obtain ⟨_, _, _, _, _, _, raws, hraws, relocated, hrelocated, found, hfound, symbols, hsymbols,
    rfl⟩ := h
  have hexported : source.exported = RelocatedSection.exported relocated := by
    rw [exported, hrelocated]
  rw [hexported]
  refine ⟨forall₂_candidates hfound, fun index => ?_⟩
  rw [denoted?, listed_of_presentSymbols hraws]
  exact rel_symbolMap hsymbols index

variable {source : Source} {object : Inspection} {index : UInt32}

theorem candidates_eq_map (hinspect : source.inspect = .ok object) :
    object.candidates = source.exported.map fun entry =>
      ⟨entry.1.name, entry.1.region, entry.2.offset.toUInt32, entry.2.rawType,
        entry.2.symbolIndex⟩ := by
  symm
  rw [← List.forall₂_eq_eq_eq, List.forall₂_map_left_iff]
  exact (rel_of_inspect hinspect).1.imp fun _ _ hcandidate =>
    (RelocatedSection.eq_of_candidate hcandidate).symm

theorem get?_of_denoted?_eq_none (hinspect : source.inspect = .ok object)
    (h : source.denoted? index = none) : object.symbols.get? index = none := by
  have hsymbol := (rel_of_inspect hinspect).2 index
  rw [h] at hsymbol
  cases hget : object.symbols.get? index with
  | none => rfl
  | some symbol => rw [hget] at hsymbol; cases hsymbol

theorem get?_of_denoted?_eq_some (hinspect : source.inspect = .ok object) {raw : RawSymbol}
    (h : source.denoted? index = some raw) :
    ∃ symbol, object.symbols.get? index = some symbol ∧
      raw.symbol ((Candidate.countReferences object.candidates).getD index 0) = .ok symbol := by
  have hsymbol := (rel_of_inspect hinspect).2 index
  rw [h] at hsymbol
  cases hget : object.symbols.get? index with
  | none => rw [hget] at hsymbol; cases hsymbol
  | some symbol =>
      rw [hget] at hsymbol
      cases hsymbol with
      | some hraw => exact ⟨symbol, rfl, hraw⟩

end Source

end Loadable
