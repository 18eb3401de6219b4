import Loadable.Proofs.Object.Outcome
import Loadable.Proofs.Symbol.Rank

namespace Loadable

-- A relocation that a module may take over, with the number of the section it applies to.
-- Sections may share a name, so it takes the number to tell them apart.
structure Site where
  number : Nat
  place : RelocatedSection
  raw : RawRelocation

-- All that a loader has to find what a relocation changes.
def Relocation.target (relocation : Relocation) : TargetRegion × UInt32 :=
  (relocation.region, relocation.offset)

namespace Site

-- What the relocation changes in the object.
def location (site : Site) : Nat × UInt64 := (site.number, site.raw.offset)

def candidate (site : Site) : Candidate :=
  ⟨site.place.name, site.place.region, site.raw.offset.toUInt32, site.raw.rawType,
    site.raw.symbolIndex⟩

-- The module tells apart whatever is apart in the object.
def Distinguished (emitted : List (Site × Relocation)) : Prop :=
  ∀ one ∈ emitted, ∀ other ∈ emitted, one.2.target = other.2.target →
    one.1.location = other.1.location

end Site

namespace Source

def sites (source : Source) : List Site :=
  match source.relocated with
  | .ok relocated =>
    (relocated.zipIdx.filter fun entry => entry.1.region.isExported).flatMap fun entry =>
      entry.1.relocations.map fun raw => ⟨entry.2, entry.1, raw⟩
  | .error _ => []

theorem exported_eq_map_sites (source : Source) :
    source.exported = source.sites.map fun site => (site.place, site.raw) := by
  unfold exported sites
  cases source.relocated with
  | error error => rfl
  | ok relocated =>
      have hplaces : (relocated.filter fun place => place.region.isExported) =
          (relocated.zipIdx.filter fun entry => entry.1.region.isExported).map Prod.fst := by
        conv_lhs => rw [← List.zipIdx_map_fst 0 relocated, List.filter_map]
        rfl
      show RelocatedSection.exported relocated = _
      rw [RelocatedSection.exported, hplaces, List.flatMap_map, List.map_flatMap]
      simp only [List.map_map]
      rfl

variable {source : Source} {object : Inspection}

theorem candidates_eq_map_sites (hinspect : source.inspect = .ok object) :
    object.candidates = source.sites.map Site.candidate := by
  rw [candidates_eq_map hinspect, exported_eq_map_sites, List.map_map]
  rfl

theorem toNat_offset_lt (hinspect : source.inspect = .ok object) {site : Site}
    (hmem : site ∈ source.sites) : site.raw.offset.toNat < UInt32.size := by
  have hoffsets := (fits_of_inspect hinspect).offsets
  rw [exported_eq_map_sites, List.forall_mem_map] at hoffsets
  exact hoffsets site hmem

-- An emitted relocation has the region of its section and the offset in its section.
theorem forall₂_target (hinspect : source.inspect = .ok object) (log : BuildLog) :
    List.Forall₂ (fun site relocation =>
        relocation.target = (site.place.region, site.raw.offset.toUInt32))
      (source.sites.filter fun site => object.symbols.survives site.raw.symbolIndex)
      (RelocationTable.encode (.compact object.symbols) log object.candidates).1.entries := by
  have hrestates := RelocationTable.forall₂_restates object.symbols log object.candidates
  rw [candidates_eq_map_sites hinspect, List.filter_map, List.forall₂_map_left_iff] at hrestates
  rw [candidates_eq_map_sites hinspect]
  exact hrestates.imp fun site relocation h => Prod.ext h.region h.offset

theorem target_eq_iff (hinspect : source.inspect = .ok object) {one other : Site}
    (hone : one ∈ source.sites) (hother : other ∈ source.sites) :
    (one.place.region, one.raw.offset.toUInt32) =
        (other.place.region, other.raw.offset.toUInt32) ↔
      one.place.region = other.place.region ∧ one.raw.offset = other.raw.offset := by
  have hfits := toNat_offset_lt hinspect hone
  have hfits' := toNat_offset_lt hinspect hother
  rw [Prod.mk.injEq, ← UInt32.toNat_inj, ← UInt64.toNat_inj, UInt64.toNat_toUInt32,
    UInt64.toNat_toUInt32, Nat.mod_eq_of_lt hfits, Nat.mod_eq_of_lt hfits']

-- An offset stays the one in its section, and of the section a module only has the region. So
-- places are told apart exactly if no two sections of a region are changed at one offset.
theorem places_are_apart_iff_sections_are (source : Source) (object : Inspection)
    (log : BuildLog) (hinspect : source.inspect = .ok object) :
    ∃ emitted : List (Site × Relocation),
      emitted.map Prod.fst =
          source.sites.filter (fun site => object.symbols.survives site.raw.symbolIndex) ∧
        emitted.map Prod.snd =
          (RelocationTable.encode (.compact object.symbols) log object.candidates).1.entries ∧
        (∀ one ∈ emitted, ∀ other ∈ emitted, one.2.target = other.2.target ↔
          one.1.place.region = other.1.place.region ∧ one.1.raw.offset = other.1.raw.offset) ∧
        (Site.Distinguished emitted ↔ ∀ one ∈ emitted, ∀ other ∈ emitted,
          one.1.place.region = other.1.place.region → one.1.raw.offset = other.1.raw.offset →
            one.1.number = other.1.number) ∧
        ((∀ one ∈ source.sites, ∀ other ∈ source.sites,
            one.place.region = other.place.region → one.number = other.number) →
          Site.Distinguished emitted) := by
  have htargets := forall₂_target hinspect log
  obtain ⟨hlength, hpairs⟩ := List.forall₂_iff_zip.mp htargets
  refine ⟨List.zip _ _, List.map_fst_zip hlength.le, List.map_snd_zip hlength.ge, ?_⟩
  generalize hemitted : List.zip _ _ = emitted at hpairs ⊢
  have hsite : ∀ one ∈ emitted, one.1 ∈ source.sites := fun one hone =>
    List.mem_of_mem_filter (List.of_mem_zip (hemitted ▸ hone)).1
  have htarget : ∀ one ∈ emitted, ∀ other ∈ emitted, one.2.target = other.2.target ↔
      one.1.place.region = other.1.place.region ∧ one.1.raw.offset = other.1.raw.offset := by
    intro one hone other hother
    rw [hpairs hone, hpairs hother]
    exact target_eq_iff hinspect (hsite one hone) (hsite other hother)
  have hdistinguished : Site.Distinguished emitted ↔ ∀ one ∈ emitted, ∀ other ∈ emitted,
      one.1.place.region = other.1.place.region → one.1.raw.offset = other.1.raw.offset →
        one.1.number = other.1.number := by
    constructor
    · intro h one hone other hother hregion hoffset
      have hsame := (htarget one hone other hother).mpr ⟨hregion, hoffset⟩
      exact congrArg Prod.fst (h one hone other hother hsame)
    · intro h one hone other hother hsame
      obtain ⟨hregion, hoffset⟩ := (htarget one hone other hother).mp hsame
      exact Prod.ext (h one hone other hother hregion hoffset) hoffset
  refine ⟨htarget, hdistinguished, fun h => hdistinguished.mpr ?_⟩
  exact fun one hone other hother hregion _ =>
    h _ (hsite one hone) _ (hsite other hother) hregion

theorem sample_places_are_apart :
    ∃ object emitted, sample.inspect = .ok object ∧
      emitted.map Prod.snd =
        (RelocationTable.encode (.compact object.symbols) [] object.candidates).1.entries ∧
      emitted.map (fun entry => (entry.2.target, entry.1.location)) =
        [((.text, 4), 0, 4), ((.data, 0), 2, 0)] ∧ Site.Distinguished emitted := by
  obtain ⟨object, hinspect, hsites, htargets⟩ : ∃ object, sample.inspect = .ok object ∧
      (sample.sites.filter fun site => object.symbols.survives site.raw.symbolIndex).map
        Site.location = [(0, 4), (2, 0)] ∧
      (RelocationTable.encode (.compact object.symbols) [] object.candidates).1.entries.map
        Relocation.target = [(.text, 4), (.data, 0)] := ⟨_, rfl, rfl, rfl⟩
  obtain ⟨emitted, hfst, hsnd, _, _, hapart⟩ :=
    places_are_apart_iff_sections_are sample object [] hinspect
  refine ⟨object, emitted, hinspect, hsnd, ?_, hapart (by decide)⟩
  rw [← hfst, List.map_map] at hsites
  rw [← hsnd, List.map_map] at htargets
  exact List.zip_map'.symm.trans (congrArg₂ List.zip htargets hsites)

-- Two sections of code, each changed at its start.
def sampleSections : Source :=
  { sample with relocated := .ok [⟨".text.a", [⟨0, 2, 7⟩]⟩, ⟨".text.b", [⟨0, 10, 3⟩]⟩] }

theorem sections_of_a_region_are_confused :
    ∃ object emitted, sampleSections.inspect = .ok object ∧
      emitted.map Prod.fst = sampleSections.sites ∧
      emitted.map Prod.snd =
        (RelocationTable.encode (.compact object.symbols) [] object.candidates).1.entries ∧
      ¬Site.Distinguished emitted := by
  obtain ⟨object, hinspect, hentries⟩ : ∃ object, sampleSections.inspect = .ok object ∧
      (RelocationTable.encode (.compact object.symbols) [] object.candidates).1.entries =
        [⟨0, 2, .text, 1⟩, ⟨0, 10, .text, 0⟩] := ⟨_, rfl, rfl⟩
  refine ⟨object, sampleSections.sites.zip [⟨0, 2, .text, 1⟩, ⟨0, 10, .text, 0⟩], hinspect, rfl,
    hentries.symm, fun h => ?_⟩
  have hsame := h _ List.mem_cons_self _ (List.mem_cons_of_mem _ List.mem_cons_self) rfl
  exact absurd (congrArg Prod.fst hsame) (by decide)

end Source

end Loadable
