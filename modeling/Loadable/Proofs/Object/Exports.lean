import Loadable.Proofs.Object.Outcome
import Loadable.Proofs.Text.Split

namespace Loadable

namespace TargetRegion

-- The name is `dots` dots and the tag of the region, or begins with that and one more dot.
def Tags (region : TargetRegion) (dots : Nat) (name : String) : Prop :=
  region.isExported ∧ Text.Opens '.' dots region.name.toList name.toList

instance (region : TargetRegion) (dots : Nat) (name : String) :
    Decidable (region.Tags dots name) :=
  inferInstanceAs (Decidable (_ ∧ _))

-- The tag of a region is a part of a name that has something in it.
theorem tag_ne_nil (region : TargetRegion) : region.name.toList ≠ [] := by
  cases region <;> decide

theorem dot_not_mem_tag (region : TargetRegion) : '.' ∉ region.name.toList := by
  cases region <;> decide

theorem ofSectionName_eq_iff {region : TargetRegion} (h : region.isExported) (name : String) :
    ofSectionName name = region ↔
      (Text.split '.' name.toList).find? (fun part => part ≠ []) = some region.name.toList := by
  unfold ofSectionName
  cases (Text.split '.' name.toList).find? fun part => part ≠ [] with
  | none => exact iff_of_false (fun heq => by subst heq; cases h) (by simp)
  | some part =>
      rw [Option.some.injEq]
      by_cases htag : ∃ other : TargetRegion, other.isExported ∧ part = other.name.toList
      · obtain ⟨other, hother, rfl⟩ := htag
        revert h hother
        cases other <;> cases region <;> decide
      · have hne : ∀ other : TargetRegion, other.isExported → part ≠ other.name.toList :=
          fun other hother heq => htag ⟨other, hother, heq⟩
        have htext : part ≠ "text".toList := hne text rfl
        have hdata : part ≠ "data".toList := hne data rfl
        have hrodata : part ≠ "rodata".toList := hne readOnlyData rfl
        have hbss : part ≠ "bss".toList := hne bss rfl
        dsimp only
        rw [if_neg htext, if_neg hdata, if_neg hrodata, if_neg hbss]
        exact iff_of_false (fun heq => by subst heq; cases h) (hne region h)

-- A section belongs to the region whose tag stands behind the leading dots of its name.
theorem ofSectionName_eq_iff_tags {region : TargetRegion} (h : region.isExported)
    (name : String) : ofSectionName name = region ↔ ∃ dots, region.Tags dots name := by
  rw [ofSectionName_eq_iff h]
  constructor
  · intro hfind
    obtain ⟨dots, hopens⟩ := Text.opens_of_find?_split hfind
    exact ⟨dots, h, hopens⟩
  · rintro ⟨dots, _, hopens⟩
    exact Text.find?_split_of_opens region.tag_ne_nil region.dot_not_mem_tag hopens

end TargetRegion

namespace RelocatedSection

open TargetRegion

-- All that the section has is taken, and it is taken for `region`.
def TakenFor (place : RelocatedSection) (region : TargetRegion) (part : List Candidate) : Prop :=
  List.Forall₂ (fun raw candidate => place.Took raw candidate ∧ candidate.region = region)
    place.relocations part

-- Of a section with a tag in its name all is taken, for the region of the tag, and of one
-- without a tag nothing.
structure ExportedByTag (place : RelocatedSection) (part : List Candidate) : Prop where
  tagged : ∀ (region : TargetRegion) dots, region.Tags dots place.name → place.TakenFor region part
  untagged : (∀ (region : TargetRegion) dots, ¬region.Tags dots place.name) → part = []

theorem takenFor_of_candidates {place : RelocatedSection} {part : List Candidate}
    (h : place.candidates = .ok part) (hexported : place.region.isExported) :
    place.TakenFor place.region part := by
  rw [candidates, if_pos hexported, mapM_eq_ok_iff] at h
  refine h.imp fun raw candidate hcandidate => ?_
  obtain ⟨offset, hoffset, rfl⟩ := (candidate_eq_ok_iff _ _ _).mp hcandidate
  exact ⟨⟨rfl, rfl, hoffset, rfl, rfl⟩, rfl⟩

theorem exportedByTag_of_candidates {place : RelocatedSection} {part : List Candidate}
    (h : place.candidates = .ok part) : place.ExportedByTag part := by
  constructor
  · intro region dots htags
    have hregion : place.region = region :=
      (ofSectionName_eq_iff_tags htags.1 place.name).mpr ⟨dots, htags⟩
    subst hregion
    exact takenFor_of_candidates h htags.1
  · intro hnone
    have hignored : ¬place.region.isExported := by
      intro hexported
      obtain ⟨dots, htags⟩ := (ofSectionName_eq_iff_tags hexported place.name).mp rfl
      exact hnone _ dots htags
    rw [candidates, if_neg hignored] at h
    exact (Except.ok.inj h).symm

end RelocatedSection

namespace Source

-- Sections are exported by the tag in their name. It need not stand behind one dot: there may
-- be any number of them in front, or none.
theorem sections_are_exported_by_tag (source : Source) (object : Inspection)
    (hinspect : source.inspect = .ok object) :
    ∃ relocated parts, source.relocated = .ok relocated ∧
      List.Forall₂ RelocatedSection.ExportedByTag relocated parts ∧
      object.candidates = parts.flatten := by
  simp only [inspect, bind_eq_ok_iff, pure_eq_ok_iff] at hinspect
  obtain ⟨_, _, _, _, _, _, _, _, relocated, hrelocated, found, hfound, _, _, rfl⟩ := hinspect
  obtain ⟨parts, hparts, rfl⟩ := (map_eq_ok_iff _ _ _).mp hfound
  rw [mapM_eq_ok_iff] at hparts
  exact ⟨relocated, parts, hrelocated,
    hparts.imp fun _ _ hpart => RelocatedSection.exportedByTag_of_candidates hpart, rfl⟩

-- Tags that are only the start of a word, or only stand further behind, do not count.
def sampleNames : Source :=
  { sample with relocated := .ok [⟨".rodata.str1.1", [⟨0, 2, 7⟩, ⟨8, 2, 3⟩]⟩,
      ⟨".textual", [⟨0, 2, 7⟩]⟩, ⟨".debug.text", [⟨0, 2, 7⟩]⟩, ⟨".bss.", [⟨4, 2, 7⟩]⟩] }

theorem sample_sections_are_exported :
    ∃ object relocated parts, sampleNames.inspect = .ok object ∧
      sampleNames.relocated = .ok relocated ∧
      List.Forall₂ RelocatedSection.ExportedByTag relocated parts ∧
      object.candidates = parts.flatten ∧
      object.candidates.map (fun candidate => (candidate.sectionName, candidate.region)) =
        [(".rodata.str1.1", .readOnlyData), (".rodata.str1.1", .readOnlyData), (".bss.", .bss)] := by
  obtain ⟨object, hinspect, htaken⟩ : ∃ object, sampleNames.inspect = .ok object ∧
      object.candidates.map (fun candidate => (candidate.sectionName, candidate.region)) =
        [(".rodata.str1.1", .readOnlyData), (".rodata.str1.1", .readOnlyData), (".bss.", .bss)] :=
    ⟨_, rfl, rfl⟩
  obtain ⟨relocated, parts, hrelocated, hparts, hcandidates⟩ :=
    sections_are_exported_by_tag sampleNames object hinspect
  exact ⟨object, relocated, parts, hinspect, hrelocated, hparts, hcandidates, htaken⟩

-- One name without a dot and one with two.
def sampleUndotted : Source :=
  { sample with relocated := .ok [⟨"text", [⟨0, 2, 7⟩]⟩, ⟨"..data.x", [⟨4, 10, 3⟩]⟩] }

theorem sections_without_their_dot_are_exported :
    ∃ object, sampleUndotted.inspect = .ok object ∧
      object.candidates = [⟨"text", .text, 0, 2, 7⟩, ⟨"..data.x", .data, 4, 10, 3⟩] ∧
      ∀ region : TargetRegion, ¬region.Tags 1 "text" ∧ ¬region.Tags 1 "..data.x" := by
  refine ⟨_, rfl, rfl, fun region => ?_⟩
  cases region <;> decide

end Source

end Loadable
