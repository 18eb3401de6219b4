import Loadable.Arguments.Bundle
import Loadable.Proofs.Check

namespace Loadable.Arguments

namespace Matches

variable {found : Matches} {grammar : Grammar} {name : String}

theorem mem_foldl_names_iff (names : List String) (uses : List (String × Option String)) :
    name ∈ uses.foldl (fun names entry => if entry.1 ∈ names then names else names ++ [entry.1])
        names ↔
      name ∈ names ∨ ∃ entry ∈ uses, entry.1 = name := by
  induction uses generalizing names with
  | nil => simp
  | cons entry rest ih =>
      rw [List.foldl_cons, ih, List.exists_mem_cons_iff, ← or_assoc]
      apply or_congr_left
      split
      next hmem =>
        constructor
        · exact Or.inl
        · rintro (hname | rfl)
          · exact hname
          · exact hmem
      next => rw [List.mem_append, List.mem_singleton, @eq_comm _ name]

theorem mem_usedNames_iff : name ∈ found.usedNames ↔ found.isUsed name := by
  simp [usedNames, mem_foldl_names_iff, isUsed]

-- An option that takes values is not used without one.
theorem values_ne_nil_of_checkUse {spec : OptionSpec} {result : Unit}
    (hspec : grammar.find? (fun spec => spec.name = name) = some spec) (htakes : spec.takesValue)
    (h : found.checkUse grammar name = .ok result) : found.values name ≠ [] := by
  simp only [checkUse, hspec, bind_eq_ok_iff, demand_eq_ok, Option.some.injEq,
    require_eq_ok] at h
  obtain ⟨_, rfl, _, hvalues, _⟩ := h
  exact hvalues.resolve_left (not_not_intro htakes)

end Matches

variable {grammar : Grammar} {isComplete : Matches → Bool} {arguments : List String}
  {found : Matches}

theorem checkUse_of_parse (h : parse grammar isComplete arguments = .ok found) :
    isComplete found ∧ ∀ name, found.isUsed name →
      found.checkUse grammar name = .ok () := by
  obtain ⟨scanned, _, h⟩ := (bind_eq_ok_iff _ _ _).mp h
  have hchecks : isComplete scanned.settle ∧
      (∃ result, scanned.settle.usedNames.forM (scanned.settle.checkUse grammar) = .ok result) ∧
      found = scanned.settle := by
    cases hpending : scanned.pending with
    | none => simpa [hpending, -bind_pure_comp] using h
    | some name =>
        simp only [hpending, bind_eq_ok_iff, require_eq_ok, pure_eq_ok_iff] at h
        obtain ⟨_, _, _, hcomplete, hresult, hused, hfound⟩ := h
        exact ⟨hcomplete, ⟨hresult, hused⟩, hfound⟩
  obtain ⟨hcomplete, ⟨result, hused⟩, rfl⟩ := hchecks
  refine ⟨hcomplete, fun name hname => ?_⟩
  exact (forM_eq_ok_iff _ _ _).mp hused name (Matches.mem_usedNames_iff.mpr hname)

-- There is always something to pack.
theorem modules_ne_nil {request : BundleRequest} (h : parseBundle arguments = .ok request) :
    request.modules ≠ [] := by
  simp only [parseBundle, bind_eq_ok_iff, pure_eq_ok_iff] at h
  obtain ⟨found, hparse, rfl⟩ := h
  obtain ⟨hcomplete, hused⟩ := checkUse_of_parse hparse
  exact Matches.values_ne_nil_of_checkUse rfl rfl (hused "module" hcomplete)

end Loadable.Arguments
