import Loadable.Bytes
import Mathlib.Data.List.Basic

namespace Loadable.Bytes

-- The word at an offset is the one whose bytes stand there.
theorem word?_eq_some_iff (bytes : Bytes) (offset : Nat) (word : UInt32) :
    bytes.word? offset = some word ↔ (bytes.drop offset).take 4 = ofWord word := by
  constructor
  · intro h
    unfold word? at h
    split at h
    · rename_i a b c d rest hdrop
      rw [hdrop, ← Option.some.inj h, ofWord_joinWord]
      rfl
    · cases h
  · intro h
    have hdrop : bytes.drop offset = ofWord word ++ (bytes.drop offset).drop 4 := by
      rw [← h, List.take_append_drop]
    unfold word?
    rw [hdrop]
    simp only [ofWord, List.cons_append, joinWord_ofWord]

theorem exists_word?_iff (bytes : Bytes) (offset : Nat) :
    (∃ word, bytes.word? offset = some word) ↔ offset + 4 ≤ bytes.length := by
  simp only [word?_eq_some_iff]
  constructor
  · rintro ⟨word, h⟩
    have hlength := congrArg List.length h
    simp only [List.length_take, List.length_drop, length_ofWord] at hlength
    omega
  · intro h
    have hlength : ((bytes.drop offset).take 4).length = 4 := by
      simp only [List.length_take, List.length_drop]
      omega
    obtain ⟨a, b, c, d, heq⟩ := List.length_eq_four.mp hlength
    exact ⟨joinWord a b c d, by rw [heq, ofWord_joinWord]⟩

theorem word?_eq_some_wordD (bytes : Bytes) (offset : Nat) (h : offset + 4 ≤ bytes.length) :
    bytes.word? offset = some (bytes.wordD offset) := by
  obtain ⟨word, hword⟩ := (exists_word?_iff bytes offset).mpr h
  rw [wordD, hword, Option.getD_some]

theorem word?_eq_ite (bytes : Bytes) (offset : Nat) :
    bytes.word? offset = if offset + 4 ≤ bytes.length then some (bytes.wordD offset) else none := by
  split
  next h => exact word?_eq_some_wordD bytes offset h
  next h =>
    rw [Option.eq_none_iff_forall_ne_some]
    exact fun word hword => h ((exists_word?_iff bytes offset).mp ⟨word, hword⟩)

-- A word does not depend on the bytes around it.
theorem wordD_congr {a b : Bytes} (offset : Nat)
    (h : (a.drop offset).take 4 = (b.drop offset).take 4) : a.wordD offset = b.wordD offset := by
  have hword : a.word? offset = b.word? offset := by
    ext word
    rw [word?_eq_some_iff, word?_eq_some_iff, h]
  rw [wordD, wordD, hword]

theorem word?_append (before bytes : Bytes) (offset : Nat) :
    (before ++ bytes).word? (before.length + offset) = bytes.word? offset := by
  simp only [word?, List.drop_length_add_append]

-- The words of a list stand one after the other, four bytes each.
theorem word?_ofWords {words : List UInt32} {i : Nat} {word : UInt32}
    (h : words[i]? = some word) (rest : Bytes) :
    (ofWords words ++ rest).word? (4 * i) = some word := by
  induction words generalizing i with
  | nil => simp at h
  | cons first others ih =>
      have hwords : ofWords (first :: others) ++ rest =
          ofWord first ++ (ofWords others ++ rest) := by
        simp only [ofWords, List.flatMap_cons, List.append_assoc]
      rw [hwords]
      cases i with
      | zero =>
          cases Option.some.inj h
          exact word?_append_ofWord [] word _
      | succ i =>
          rw [Nat.mul_succ, Nat.add_comm, ← length_ofWord first, word?_append]
          exact ih h

-- Slices

theorem slice_of_eq_append {bytes before part after : Bytes} {span : Span}
    (h : bytes = before ++ part ++ after) (hstart : span.start = before.length)
    (hlength : span.length = part.length) : bytes.slice span = part := by
  rw [h, slice, hstart, hlength, List.append_assoc, List.drop_left, List.take_left]

-- A piece of a slice is a slice itself.
theorem take_drop_slice (bytes : Bytes) (span : Span) {offset size : Nat}
    (h : offset + size ≤ span.length) :
    ((bytes.slice span).drop offset).take size = bytes.slice ⟨span.start + offset, size⟩ := by
  rw [slice, List.drop_take, List.take_take, List.drop_drop, Nat.min_eq_left (by omega)]
  rfl

theorem takeWhile_append_zeros (bytes : Bytes) (count : Nat) :
    (bytes ++ zeros count).takeWhile (· ≠ 0) = bytes.takeWhile (· ≠ 0) := by
  induction bytes with
  | nil => cases count <;> rfl
  | cons byte rest ih => rw [List.cons_append, List.takeWhile_cons, List.takeWhile_cons, ih]

-- Pieces

theorem chunks_nil (size : Nat) : chunks size [] = [] := by
  rw [chunks, dif_pos (Or.inr rfl)]

theorem chunks_append {size : Nat} (hsize : 0 < size) {piece : Bytes} (rest : Bytes)
    (h : piece.length = size) : chunks size (piece ++ rest) = piece :: chunks size rest := by
  have hne : piece ++ rest ≠ [] := by
    intro he
    have := congrArg List.length he
    simp only [List.length_append, List.length_nil] at this
    omega
  rw [chunks, dif_neg (by simp [hne]; omega)]
  simp only [← h, List.take_left', List.drop_left']

theorem chunks_flatMap {α : Type} {size : Nat} (hsize : 0 < size) (encode : α → Bytes)
    (hencode : ∀ value, (encode value).length = size) (values : List α) :
    chunks size (values.flatMap encode) = values.map encode := by
  induction values with
  | nil => exact chunks_nil size
  | cons value rest ih =>
      rw [List.flatMap_cons, chunks_append hsize _ (hencode value), ih, List.map_cons]

-- A string of whole pieces has no shorter one at its end.
theorem chunks_whole {size : Nat} (hsize : 0 < size) (count : Nat) {bytes : Bytes}
    (h : bytes.length = size * count) :
    (chunks size bytes).length = count ∧ ∀ piece ∈ chunks size bytes, piece.length = size := by
  induction count generalizing bytes with
  | zero =>
      have hnil : bytes = [] := List.length_eq_zero_iff.mp h
      simp [hnil, chunks_nil]
  | succ count ih =>
      rw [Nat.mul_succ] at h
      have hpiece : (bytes.take size).length = size := by
        simp only [List.length_take]
        omega
      have hrest : (bytes.drop size).length = size * count := by
        simp only [List.length_drop]
        omega
      obtain ⟨hcount, hsizes⟩ := ih hrest
      rw [← List.take_append_drop size bytes, chunks_append hsize _ hpiece]
      refine ⟨by rw [List.length_cons, hcount], ?_⟩
      intro piece hmem
      rcases List.mem_cons.mp hmem with rfl | hmem
      · exact hpiece
      · exact hsizes piece hmem

theorem chunks_eq_map_range {size : Nat} (hsize : 0 < size) (count : Nat) {bytes : Bytes}
    (h : bytes.length = size * count) :
    chunks size bytes =
      (List.range count).map fun index => (bytes.drop (size * index)).take size := by
  induction count generalizing bytes with
  | zero =>
      have hnil : bytes = [] := List.length_eq_zero_iff.mp h
      rw [hnil, chunks_nil, List.range_zero, List.map_nil]
  | succ count ih =>
      rw [Nat.mul_succ] at h
      have hpiece : (bytes.take size).length = size := by
        rw [List.length_take]
        omega
      have hrest : (bytes.drop size).length = size * count := by
        rw [List.length_drop]
        omega
      conv_lhs => rw [← List.take_append_drop size bytes]
      rw [chunks_append hsize _ hpiece, ih hrest, List.range_succ_eq_map, List.map_cons,
        List.map_map, Nat.mul_zero, List.drop_zero]
      congr 1
      apply List.map_congr_left
      intro index _
      simp only [Function.comp_apply, List.drop_drop, Nat.mul_succ, Nat.add_comm]

-- Words

theorem ofWords_append (first rest : List UInt32) :
    ofWords (first ++ rest) = ofWords first ++ ofWords rest :=
  List.flatMap_append

theorem ofWord_inj {a b : UInt32} : ofWord a = ofWord b ↔ a = b := by
  constructor
  · intro h
    have hb : (ofWord b).word? 0 = some b := word?_append_ofWord [] b []
    rw [← h] at hb
    exact Option.some.inj ((word?_append_ofWord [] a []).symm.trans hb)
  · exact congrArg ofWord

theorem ofWords_inj {a b : List UInt32} : ofWords a = ofWords b ↔ a = b := by
  constructor
  · intro h
    have hpieces := congrArg (chunks 4) h
    rw [ofWords, ofWords, chunks_flatMap (by decide) _ length_ofWord,
      chunks_flatMap (by decide) _ length_ofWord] at hpieces
    exact List.map_injective_iff.mpr (fun _ _ => ofWord_inj.mp) hpieces
  · exact congrArg ofWords

-- Words that are read one after the other are what stands there.
theorem ofWords_map_wordD (bytes : Bytes) {start count : Nat} (h : start + 4 * count ≤ bytes.length) :
    ofWords ((List.range count).map fun i => bytes.wordD (start + 4 * i)) =
      (bytes.drop start).take (4 * count) := by
  induction count with
  | zero => rw [Nat.mul_zero, List.take_zero]; rfl
  | succ count ih =>
      have hlast := (word?_eq_some_iff _ _ _).mp
        (bytes.word?_eq_some_wordD (start + 4 * count) (by omega))
      rw [List.range_succ, List.map_append, ofWords_append, ih (by omega), Nat.mul_succ,
        List.take_add, List.drop_drop, hlast]
      simp [ofWords]

-- Patches

theorem overwrite_append {before part after patch : Bytes} (h : part.length = patch.length) :
    (before ++ part ++ after).overwrite before.length patch = before ++ patch ++ after := by
  have hgap : before.length - (before ++ part ++ after).length = 0 := by
    simp only [List.length_append]
    omega
  rw [overwrite, hgap, ← h]
  simp [zeros]

theorem overwrite_ofWords {words : List UInt32} {i : Nat} (h : i < words.length) (word : UInt32)
    (rest : Bytes) :
    (ofWords words ++ rest).overwrite (4 * i) (ofWord word) =
      ofWords (words.set i word) ++ rest := by
  have hbefore : (ofWords (words.take i)).length = 4 * i := by
    rw [length_ofWords, List.length_take_of_le (Nat.le_of_lt h)]
  have hwords : ofWords words ++ rest =
      ofWords (words.take i) ++ ofWord words[i] ++ (ofWords (words.drop (i + 1)) ++ rest) := by
    conv_lhs => rw [← List.take_append_drop i words, List.drop_eq_getElem_cons h]
    simp only [ofWords, List.flatMap_append, List.flatMap_cons, List.append_assoc]
  rw [hwords, ← hbefore, overwrite_append (by rfl), List.set_eq_take_append_cons_drop, if_pos h]
  simp only [ofWords, List.flatMap_append, List.flatMap_cons, List.append_assoc]

-- What stands in a string that was written over, also where it had to grow.
theorem getElem?_overwrite_eq_ite (bytes : Bytes) (offset : Nat) (patch : Bytes) (i : Nat) :
    (bytes.overwrite offset patch)[i]? =
      if offset ≤ i ∧ i < offset + patch.length then patch[i - offset]?
      else if bytes.length ≤ i ∧ i < offset then some 0
      else bytes[i]? := by
  have hstart : (bytes.take offset ++ zeros (offset - bytes.length)).length = offset := by
    rw [List.length_append, List.length_take, length_zeros]
    omega
  rw [overwrite, List.append_assoc _ patch]
  by_cases hbefore : i < offset
  · rw [List.getElem?_append_left (by omega), if_neg (by omega)]
    by_cases hin : i < bytes.length
    · rw [List.getElem?_append_left (by rw [List.length_take]; omega), List.getElem?_take,
        if_pos hbefore, if_neg (by omega)]
    · have hgap : i - (bytes.take offset).length < offset - bytes.length := by
        rw [List.length_take]
        omega
      rw [List.getElem?_append_right (by rw [List.length_take]; omega), if_pos (by omega), zeros,
        List.getElem?_replicate, if_pos hgap]
  · rw [List.getElem?_append_right (by omega), hstart]
    by_cases hin : i < offset + patch.length
    · rw [List.getElem?_append_left (by omega), if_pos (by omega)]
    · rw [List.getElem?_append_right (by omega), List.getElem?_drop, if_neg (by omega),
        if_neg (by omega)]
      congr 1
      omega

theorem getElem?_overwrite {bytes patch : Bytes} {offset : Nat}
    (h : offset + patch.length ≤ bytes.length) (i : Nat) :
    (bytes.overwrite offset patch)[i]? =
      if offset ≤ i ∧ i < offset + patch.length then patch[i - offset]? else bytes[i]? := by
  rw [getElem?_overwrite_eq_ite, if_neg (c := bytes.length ≤ i ∧ i < offset) (by omega)]

-- Writing one piece behind the other is writing both at once.
theorem overwrite_overwrite (bytes : Bytes) (offset : Nat) (first second : Bytes) :
    (bytes.overwrite offset first).overwrite (offset + first.length) second =
      bytes.overwrite offset (first ++ second) := by
  have hstart : (bytes.take offset ++ zeros (offset - bytes.length) ++ first).length =
      offset + first.length := by
    rw [List.length_append, List.length_append, List.length_take, length_zeros]
    omega
  have hgap : offset + first.length - (bytes.overwrite offset first).length = 0 := by
    rw [length_overwrite]
    omega
  rw [overwrite, hgap, overwrite, ← hstart, List.take_left, ← List.drop_drop, List.drop_left,
    hstart, List.drop_drop]
  simp only [overwrite, zeros, List.replicate_zero, List.append_nil, List.append_assoc,
    List.length_append, Nat.add_assoc]

-- A string that is at least so long, with zeros where it was not.
def extended (bytes : Bytes) (length : Nat) : Bytes := bytes ++ zeros (length - bytes.length)

theorem extended_of_le {bytes : Bytes} {length : Nat} (h : length ≤ bytes.length) :
    bytes.extended length = bytes := by
  rw [extended, Nat.sub_eq_zero_of_le h]
  exact List.append_nil _

theorem getElem?_extended (bytes : Bytes) (length i : Nat) :
    (bytes.extended length)[i]? =
      if bytes.length ≤ i ∧ i < length then some 0 else bytes[i]? := by
  rw [extended, List.getElem?_append, zeros, List.getElem?_replicate]
  by_cases hin : i < bytes.length
  · rw [if_pos hin, if_neg (by omega)]
  · rw [if_neg hin]
    by_cases hzero : i < length
    · rw [if_pos (by omega), if_pos (by omega)]
    · rw [if_neg (by omega), if_neg (by omega), List.getElem?_eq_none (by omega)]

theorem length_extended (bytes : Bytes) (length : Nat) :
    (bytes.extended length).length = max bytes.length length := by
  rw [extended, List.length_append, length_zeros]
  omega

-- A patch writes over all the zeros that it needs.
theorem overwrite_extended (bytes : Bytes) (offset : Nat) (patch : Bytes) :
    (bytes.extended (offset + patch.length)).overwrite offset patch =
      bytes.overwrite offset patch := by
  apply List.ext_getElem?
  intro i
  have hlength : (bytes.extended (offset + patch.length)).length =
      max bytes.length (offset + patch.length) := length_extended _ _
  rw [getElem?_overwrite (by omega), getElem?_overwrite_eq_ite, getElem?_extended]
  by_cases hin : offset ≤ i ∧ i < offset + patch.length
  · rw [if_pos hin, if_pos hin]
  · rw [if_neg hin, if_neg hin]
    by_cases hzero : bytes.length ≤ i ∧ i < offset
    · rw [if_pos hzero, if_pos (by omega)]
    · rw [if_neg hzero, if_neg (by omega)]

theorem word?_overwrite (bytes : Bytes) (offset : Nat) (word : UInt32) :
    (bytes.overwrite offset (ofWord word)).word? offset = some word := by
  have hstart : (bytes.take offset ++ zeros (offset - bytes.length)).length = offset := by
    rw [List.length_append, List.length_take, length_zeros]
    omega
  have hword := word?_append_ofWord (bytes.take offset ++ zeros (offset - bytes.length)) word
    (bytes.drop (offset + (ofWord word).length))
  rwa [hstart] at hword

end Loadable.Bytes
