import Loadable.Object.Elf.Encoding
import Loadable.Proofs.Bytes
import Mathlib.Algebra.Group.Nat.Defs
import Mathlib.Data.List.Induction

namespace Loadable.Elf

namespace Encoding

theorem number_lt (encoding : Encoding) (bytes : Bytes) :
    encoding.number bytes < 256 ^ bytes.length := by
  unfold number
  split
  · induction bytes using List.reverseRecOn with
    | nil => simp
    | append_singleton bytes byte ih =>
        have := byte.toNat_lt
        rw [List.foldl_append, List.length_append, List.length_singleton, Nat.pow_succ]
        simp only [List.foldl_cons, List.foldl_nil]
        omega
  · induction bytes with
    | nil => simp
    | cons byte bytes ih =>
        have := byte.toNat_lt
        rw [List.foldr_cons, List.length_cons, Nat.pow_succ]
        omega

theorem number_slice_lt (encoding : Encoding) (bytes : Bytes) (span : Span) :
    encoding.number (bytes.slice span) < 256 ^ span.length := by
  refine Nat.lt_of_lt_of_le (encoding.number_lt _) (Nat.pow_le_pow_right (by decide) ?_)
  rw [Bytes.slice, List.length_take]
  exact Nat.min_le_left _ _

theorem field_lt (encoding : Encoding) (record : Bytes) (size : Nat) {narrow wide : Place}
    (hnarrow : narrow.2 ≤ size) (hwide : wide.2 ≤ size) :
    encoding.field record narrow wide < 256 ^ size := by
  refine Nat.lt_of_lt_of_le (encoding.number_slice_lt record _)
    (Nat.pow_le_pow_right (by decide) ?_)
  split <;> assumption

end Encoding

-- The records of a table stand one behind the other in the file.
theorem records?_eq_some {content : Bytes} {offset size recordSize : Nat} {records : List Bytes}
    (hsize : 0 < recordSize) (h : records? content offset size recordSize = some records) :
    records = (List.range (size / recordSize)).map fun k =>
      content.slice ⟨offset + recordSize * k, recordSize⟩ := by
  by_cases hwithin : offset + size ≤ content.length
  · rw [records?, extent?, if_pos hwithin] at h
    dsimp only at h
    split at h
    next hwhole =>
      have hcount : recordSize * (size / recordSize) = size :=
        Nat.mul_div_cancel' (Nat.dvd_of_mod_eq_zero hwhole)
      have hlength : (content.slice ⟨offset, size⟩).length = recordSize * (size / recordSize) := by
        rw [content.length_slice ⟨offset, size⟩ hwithin, hcount]
      rw [← Option.some.inj h, Bytes.chunks_eq_map_range hsize _ hlength]
      apply List.map_congr_left
      intro k hk
      have hlast := Nat.mul_le_mul_left recordSize (List.mem_range.mp hk)
      rw [Nat.mul_succ] at hlast
      have hpiece : recordSize * k + recordSize ≤ size := by omega
      exact content.take_drop_slice ⟨offset, size⟩ hpiece
    next => cases h
  · rw [records?, extent?, if_neg hwithin] at h
    cases h

end Loadable.Elf
