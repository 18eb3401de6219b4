import Loadable.Proofs.Build.Publication
import Loadable.Proofs.Bundle.Publication

namespace Loadable

-- A run that fails leaves all files as they were. A run that succeeds leaves a content
-- of the right making at its output, and all else as it was.
def AllOrNothing {ε α : Type} (tree : FileTree) (output : String) (Made : Bytes → Prop)
    (final : FileTree) (result : Except ε α) : Prop :=
  match result with
  | .error _ => final = tree
  | .ok _ => ∃ content, Made content ∧ tree.Replaced output content final

theorem AllOrNothing.of_isOk {ε α : Type} {tree final : FileTree} {output : String}
    {Made : Bytes → Prop} {result : Except ε α} (h : AllOrNothing tree output Made final result)
    (hok : result.isOk = true) : ∃ content, Made content ∧ tree.Replaced output content final := by
  cases result with
  | error error => cases hok
  | ok answer => exact h

-- Both tools publish whole files or nothing. What they publish is made of what their
-- inputs held before the run, even if the output is one of these.
theorem output_is_all_or_nothing (tree : FileTree) :
    (∀ options : BuildOptions,
      AllOrNothing tree options.output (Build.Made tree options) (Build.run tree options).1
        (Build.run tree options).2) ∧
    ∀ (modules : List String) (output : String) (verify : Bool),
      AllOrNothing tree output (Bundle.Made tree modules)
        (Bundle.pack tree modules output verify).tree
        (Bundle.pack tree modules output verify).result := by
  refine ⟨fun options => ?_, fun modules output verify => ?_⟩
  · rcases Build.run_cases tree options with
      ⟨error, hrun⟩ | ⟨report, content, final, hmade, _, hreplaced, _, hrun⟩
    · rw [hrun]
      rfl
    · rw [hrun]
      exact ⟨content, hmade, hreplaced⟩
  · rcases Bundle.pack_cases tree modules output verify with
      ⟨progress, error, hpack, _⟩ | ⟨files, final, hreads, hreplaced, hpack⟩
    · rw [hpack]
      rfl
    · rw [hpack]
      exact ⟨_, ⟨files, hreads, rfl⟩, hreplaced⟩

-- A module and a bundle in place of one of the files that they are made of.
theorem sample_output_is_all_or_nothing :
    (∃ content, Build.Made Build.sampleTree ⟨"object", "payload", "payload", ""⟩ content ∧
      Build.sampleTree.Replaced "payload" content
        (Build.run Build.sampleTree ⟨"object", "payload", "payload", ""⟩).1) ∧
    ∃ content, Bundle.Made Build.sampleTree ["payload", "object"] content ∧
      Build.sampleTree.Replaced "payload" content
        (Bundle.pack Build.sampleTree ["payload", "object"] "payload" false).tree := by
  obtain ⟨hbuild, hpack⟩ := output_is_all_or_nothing Build.sampleTree
  have hbuilt : (Build.run Build.sampleTree ⟨"object", "payload", "payload", ""⟩).2.isOk =
      true := by
    decide +kernel
  have hpacked : (Bundle.pack Build.sampleTree ["payload", "object"] "payload" false).result.isOk =
      true := by
    decide +kernel
  exact ⟨AllOrNothing.of_isOk (hbuild _) hbuilt, AllOrNothing.of_isOk (hpack _ _ _) hpacked⟩

end Loadable
