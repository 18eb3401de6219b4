import Loadable.Proofs.Bundle.Contents

namespace Loadable.Bundle

-- Filling modules up keeps them a multiple of eight apart, wherever the first of them starts.
theorem mod_of_mem_starts {start place : Nat} {contents : List Bytes}
    (h : place ∈ starts start contents) : place % 8 = start % 8 := by
  induction contents generalizing start with
  | nil => exact absurd h List.not_mem_nil
  | cons content rest ih =>
      have hfilled := roundUp_mod content.length 8
      rcases List.mem_cons.mp h with rfl | hrest
      · rfl
      · have hplace := ih hrest
        omega

-- The table takes four bytes for each module, so it moves the first one by four or by nothing.
theorem room_mod (moduleCount : Nat) : room moduleCount % 8 = 4 * (moduleCount % 2) := by
  rw [room]
  omega

theorem Holds.mod_of_mem {bundle : Bytes} {contents : List Bytes} {offsets : List UInt32}
    (h : Holds bundle contents offsets) :
    ∀ offset ∈ offsets, offset.toNat % 8 = 4 * (contents.length % 2) := by
  intro offset hmem
  have hplace : offset.toNat ∈ starts (room contents.length) contents := by
    rw [room, ← h.places]
    exact List.mem_map_of_mem hmem
  rw [mod_of_mem_starts hplace, room_mod]

-- Modules are aligned to each other. In the bundle they are aligned if their number is even;
-- otherwise each of them lies four bytes past a multiple of eight.
theorem modules_are_aligned_iff_even (tree : FileTree) (modules : List String) (output : String)
    (verify : Bool) (files : List (String × Bytes)) (hreads : Reads tree modules files)
    (hsize : totalSize (files.map Prod.snd) < UInt32.size)
    (hpack : (pack tree modules output verify).result.isOk) :
    let packing := pack tree modules output verify
    ∃ summary bundle header, packing.result = .ok summary ∧
      packing.tree.read output = .ok bundle ∧ Header.parse bundle = .ok header ∧
      header.offsets bundle = .ok summary.offsets ∧ summary.offsets.length = modules.length ∧
      (∀ offset ∈ summary.offsets, offset.toNat % 8 = 4 * (modules.length % 2)) ∧
      ((∀ offset ∈ summary.offsets, offset % alignment = 0) ↔ modules.length % 2 = 0) := by
  intro packing
  rcases pack_cases tree modules output verify with
    ⟨progress, error, herror, _⟩ | ⟨found, final, hfound, hreplaced, hok⟩
  · rw [herror] at hpack
    cases hpack
  obtain rfl := hreads.eq hfound
  obtain ⟨header, hparse, _, hoffsets⟩ := (holds_bundleOf hsize).header
  have hmod := (holds_bundleOf hsize).mod_of_mem
  have hcount : files.length = modules.length := by
    rw [← hreads.1, List.length_map]
  have hlength : ((packed files).modules.map PackedModule.offset).length = modules.length := by
    rw [List.length_map, (exact_packed hsize).modules.length_eq, hcount]
  rw [List.length_map, hcount] at hmod
  have hpacking : packing = _ := hok
  rw [hpacking]
  refine ⟨_, bundleOf files, header, rfl, hreplaced.read, hparse, hoffsets, hlength, hmod,
    fun haligned => ?_, fun heven offset hmem => ?_⟩
  · by_contra hodd
    -- There is a module then, and it is four bytes off.
    obtain ⟨offset, hmem⟩ := List.exists_mem_of_length_pos
      (l := (packed files).modules.map PackedModule.offset) (by omega)
    have hoff := hmod offset hmem
    have hzero := (mod_alignment_eq_zero_iff offset).mp (haligned offset hmem)
    omega
  · rw [mod_alignment_eq_zero_iff, hmod offset hmem, heven]

theorem sample_modules_are_aligned :
    ∃ summary, (pack sampleFiles ["odd", "empty"] "bundle" false).result = .ok summary ∧
      summary.offsets.length = 2 ∧ ∀ offset ∈ summary.offsets, offset % alignment = 0 := by
  have hreads : Reads sampleFiles ["odd", "empty"] [("odd", [1, 2, 3]), ("empty", [])] :=
    ⟨rfl, by decide +kernel⟩
  have hok : (pack sampleFiles ["odd", "empty"] "bundle" false).result.isOk := by
    decide +kernel
  obtain ⟨summary, _, _, hsummary, _, _, _, hlength, _, haligned⟩ :=
    modules_are_aligned_iff_even _ _ _ _ _ hreads (by decide) hok
  exact ⟨summary, hsummary, hlength, haligned.mpr rfl⟩

-- The module of a bundle that holds no other.
theorem single_module_is_misaligned :
    Reads sampleFiles ["odd"] [("odd", [1, 2, 3])] ∧ totalSize [[1, 2, 3]] < UInt32.size ∧
      ∃ summary, (pack sampleFiles ["odd"] "bundle" false).result = .ok summary ∧
        summary.offsets = [36] ∧ ¬∀ offset ∈ summary.offsets, offset % alignment = 0 := by
  have hoffsets :
      (pack sampleFiles ["odd"] "bundle" false).result.map Summary.offsets = .ok [36] := by
    decide +kernel
  obtain ⟨summary, hsummary, hsingle⟩ := (map_eq_ok_iff _ _ _).mp hoffsets
  have hmem : 36 ∈ summary.offsets := hsingle ▸ List.mem_singleton_self 36
  have hoff : (36 : UInt32) % alignment ≠ 0 := by decide
  exact ⟨⟨rfl, by decide +kernel⟩, by decide, summary, hsummary, hsingle,
    fun haligned => hoff (haligned 36 hmem)⟩

end Loadable.Bundle
