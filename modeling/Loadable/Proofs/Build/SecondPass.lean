import Loadable.Build.Assembler
import Loadable.Proofs.Image.Corruption

namespace Loadable

open Loadable.Format
open Bytes

namespace Assembler

theorem length_finalize (content : Bytes) (totalSize : UInt32) :
    (finalize content totalSize).2.length = max content.length 48 := by
  rw [finalize, length_overwrite, length_overwrite, length_ofWord, length_ofWord]
  show max (max content.length 48) 44 = _
  omega

theorem le_length_overwrite_totalSize (content : Bytes) (totalSize : UInt32) :
    44 ≤ (content.overwrite 44 (ofWord totalSize)).length := by
  rw [length_overwrite, length_ofWord]
  omega

-- Both patches stand next to each other and cover what was in their places.
theorem finalize_eq_of_agreeOutside {a b : Bytes} (totalSize : UInt32)
    (h : AgreeOutside ⟨40, 8⟩ (a.extended 48) (b.extended 48)) :
    finalize a totalSize = finalize b totalSize := by
  have hlength : ∀ bytes : Bytes, 48 ≤ (bytes.extended 48).length := fun bytes => by
    rw [length_extended]
    omega
  have hsized : AgreeOutside ⟨40, 4⟩ (a.overwrite 44 (ofWord totalSize))
      (b.overwrite 44 (ofWord totalSize)) := by
    rw [← overwrite_extended a, ← overwrite_extended b]
    exact h.overwrite_stop (hlength a) (hlength b)
  have ha := le_length_overwrite_totalSize a totalSize
  have hb := le_length_overwrite_totalSize b totalSize
  have hcrc := Image.moduleChecksum_eq_of_agreeOutside ha hb hsized
  have hstamped : ∀ crc32 : UInt32,
      (a.overwrite 44 (ofWord totalSize)).overwrite 40 (ofWord crc32) =
        (b.overwrite 44 (ofWord totalSize)).overwrite 40 (ofWord crc32) := fun crc32 =>
    AgreeOutside.eq (@AgreeOutside.overwrite_stop _ _ (ofWord crc32) 40 0 hsized ha hb)
  simp only [finalize, Field.totalSize, Field.crc32]
  rw [hcrc, hstamped]

-- The second pass over any file, be it too short for a header. The file it leaves carries its
-- own checksum, nothing of what stood in the two places comes in, and to do it again changes
-- nothing.
theorem second_pass_is_a_fixed_point (content : Bytes) (totalSize : UInt32) :
    let crc32 := (finalize content totalSize).1
    let result := (finalize content totalSize).2
    result.length = max content.length 48 ∧
      AgreeOutside ⟨40, 8⟩ result (content.extended 48) ∧
      result.word? 44 = some totalSize ∧
      result.word? 40 = some crc32 ∧
      crc32 = moduleChecksum result ∧
      (∀ other : Bytes, AgreeOutside ⟨40, 8⟩ (other.extended 48) (content.extended 48) →
        finalize other totalSize = (crc32, result)) ∧
      finalize result totalSize = (crc32, result) := by
  intro crc32 result
  have hlength : result.length = max content.length 48 := length_finalize content totalSize
  have hlong := le_length_overwrite_totalSize content totalSize
  have hsized : AgreeOutside ⟨44, 4⟩ (content.overwrite 44 (ofWord totalSize))
      (content.extended 48) := agreeOutside_overwrite content 44 (ofWord totalSize)
  have hstamped : AgreeOutside ⟨40, 4⟩ result (content.overwrite 44 (ofWord totalSize)) := by
    have hpatch := agreeOutside_overwrite (content.overwrite 44 (ofWord totalSize)) 40
      (ofWord crc32)
    rwa [length_ofWord, extended_of_le hlong] at hpatch
  have hagree : AgreeOutside ⟨40, 8⟩ result (content.extended 48) :=
    AgreeOutside.trans (hstamped.mono (by decide) (by decide)) (hsized.mono (by decide) (by decide))
  refine ⟨hlength, hagree, ?_, word?_overwrite _ _ _, ?_, ?_, ?_⟩
  · have hword := word?_overwrite content 44 totalSize
    rwa [word?, ← hstamped.drop_eq (Nat.le_refl 44)] at hword
  · exact (Image.moduleChecksum_eq_of_agreeOutside (by rw [hlength, Field.crc32]; omega) hlong
      hstamped).symm
  · exact fun other hother => finalize_eq_of_agreeOutside totalSize hother
  · apply finalize_eq_of_agreeOutside
    rwa [extended_of_le (by omega)]

-- Three bytes, and the same three with a gap and an old stamp behind them.
theorem sample_second_pass :
    let stale : Bytes := [1, 2, 3] ++ zeros 37 ++ [9, 9, 9, 9, 7, 7]
    finalize stale 48 = finalize [1, 2, 3] 48 ∧
      (finalize [1, 2, 3] 48).2.length = 48 ∧
      (finalize [1, 2, 3] 48).2.word? 44 = some 48 ∧
      finalize (finalize [1, 2, 3] 48).2 48 = finalize [1, 2, 3] 48 := by
  intro stale
  obtain ⟨hlength, _, hword, _, _, hindependent, hagain⟩ :=
    second_pass_is_a_fixed_point [1, 2, 3] 48
  refine ⟨hindependent stale ?_, hlength, hword, hagain⟩
  exact agreeOutside_overwrite [1, 2, 3] 40 [9, 9, 9, 9, 7, 7, 0, 0]

end Assembler

end Loadable
