import Loadable.Proofs.Checksum
import Loadable.Proofs.Image.Acceptance

namespace Loadable

open Loadable.Format

namespace Bytes

-- Two strings that read the same, and end at the same place, outside of a window.
def AgreeOutside (window : Span) (a b : Bytes) : Prop :=
  ∀ i, i < window.start ∨ window.stop ≤ i → a[i]? = b[i]?

variable {window wide : Span} {a b c patch : Bytes}

theorem AgreeOutside.take_eq (h : AgreeOutside window a b) {count : Nat}
    (hcount : count ≤ window.start) : a.take count = b.take count := by
  apply List.ext_getElem?
  intro i
  simp only [List.getElem?_take]
  split
  · exact h i (Or.inl (by omega))
  · rfl

theorem AgreeOutside.drop_eq (h : AgreeOutside window a b) {count : Nat}
    (hcount : window.stop ≤ count) : a.drop count = b.drop count := by
  apply List.ext_getElem?
  intro i
  simp only [List.getElem?_drop]
  exact h _ (Or.inr (by omega))

-- A window that is written over on both sides leaves the difference where it was.
theorem AgreeOutside.overwrite (h : AgreeOutside window a b) {offset : Nat} {patch : Bytes}
    (ha : offset + patch.length ≤ a.length) (hb : offset + patch.length ≤ b.length) :
    AgreeOutside window (a.overwrite offset patch) (b.overwrite offset patch) := by
  intro i hi
  rw [getElem?_overwrite ha, getElem?_overwrite hb, h i hi]

theorem AgreeOutside.overwrite_ne (h : AgreeOutside window a b) {offset : Nat} {patch : Bytes}
    (ha : offset + patch.length ≤ a.length) (hb : offset + patch.length ≤ b.length)
    (hdisjoint : window.stop ≤ offset ∨ offset + patch.length ≤ window.start) (hne : a ≠ b) :
    a.overwrite offset patch ≠ b.overwrite offset patch := by
  intro heq
  apply hne
  apply List.ext_getElem?
  intro i
  by_cases hi : window.start ≤ i ∧ i < window.stop
  · have hread := congrArg (fun bytes : Bytes => bytes[i]?) heq
    simp only [getElem?_overwrite ha, getElem?_overwrite hb] at hread
    rwa [if_neg (by omega), if_neg (by omega)] at hread
  · exact h i (by omega)

theorem AgreeOutside.wordD_eq (h : AgreeOutside window a b) {offset : Nat}
    (hdisjoint : window.stop ≤ offset ∨ offset + 4 ≤ window.start) :
    a.wordD offset = b.wordD offset := by
  apply wordD_congr
  rcases hdisjoint with hafter | hbefore
  · rw [h.drop_eq hafter]
  · rw [List.take_drop, List.take_drop, h.take_eq hbefore]

theorem AgreeOutside.trans (hab : AgreeOutside window a b) (hbc : AgreeOutside window b c) :
    AgreeOutside window a c := fun i hi => (hab i hi).trans (hbc i hi)

theorem AgreeOutside.mono (h : AgreeOutside window a b) (hstart : wide.start ≤ window.start)
    (hstop : window.stop ≤ wide.stop) : AgreeOutside wide a b := fun i hi => h i (by omega)

theorem AgreeOutside.eq {start : Nat} (h : AgreeOutside ⟨start, 0⟩ a b) : a = b := by
  apply List.ext_getElem?
  intro i
  exact h i (Nat.lt_or_ge i start)

-- A patch makes no difference but where it stands, once there is room for it.
theorem agreeOutside_overwrite (bytes : Bytes) (offset : Nat) (patch : Bytes) :
    AgreeOutside ⟨offset, patch.length⟩ (bytes.overwrite offset patch)
      (bytes.extended (offset + patch.length)) := by
  have hlength : (bytes.extended (offset + patch.length)).length =
      max bytes.length (offset + patch.length) := length_extended _ _
  intro i hi
  rw [← overwrite_extended, getElem?_overwrite (by omega), if_neg]
  simp only [Span.stop] at hi
  omega

-- What it does stand over is no longer a difference.
theorem AgreeOutside.overwrite_stop {start size : Nat}
    (h : AgreeOutside ⟨start, size + patch.length⟩ a b)
    (ha : start + size + patch.length ≤ a.length) (hb : start + size + patch.length ≤ b.length) :
    AgreeOutside ⟨start, size⟩ (a.overwrite (start + size) patch)
      (b.overwrite (start + size) patch) := by
  intro i hi
  rw [getElem?_overwrite ha, getElem?_overwrite hb]
  split
  next => rfl
  next hout =>
    apply h i
    simp only [Span.stop] at hi ⊢
    omega

end Bytes

open Bytes

theorem Checksum.crc32_ne_of_agreeOutside {start : Nat} {a b : Bytes}
    (hlength : a.length = b.length) (hagree : AgreeOutside ⟨start, 4⟩ a b) (hne : a ≠ b) :
    crc32 a ≠ crc32 b := by
  have hsplit : ∀ bytes : Bytes, bytes =
      bytes.take start ++ (bytes.drop start).take 4 ++ bytes.drop (start + 4) := by
    intro bytes
    rw [List.append_assoc, ← List.drop_drop, List.take_append_drop, List.take_append_drop]
  have hbefore : a.take start = b.take start := hagree.take_eq (Nat.le_refl _)
  have hafter : a.drop (start + 4) = b.drop (start + 4) := hagree.drop_eq (Nat.le_refl _)
  intro heq
  rw [hsplit a, hsplit b, hbefore, hafter] at heq
  have hwindow : (a.drop start).take 4 = (b.drop start).take 4 := by
    refine crc32_burst _ _ ?_ ?_ heq
    · exact (List.length_take ..).trans_le (Nat.min_le_left _ _)
    · simp only [List.length_take, List.length_drop, hlength]
  apply hne
  rw [hsplit a, hsplit b, hbefore, hwindow, hafter]

namespace Image

theorem moduleChecksum_eq_crc32 {bytes : Bytes} (h : Field.crc32 + 4 ≤ bytes.length) :
    moduleChecksum bytes = Checksum.crc32 (bytes.overwrite Field.crc32 (zeros 4)) := by
  have hgap : Field.crc32 - bytes.length = 0 := by omega
  rw [moduleChecksum, if_neg (by omega), Bytes.overwrite, hgap]
  simp only [zeros, List.replicate_zero, List.append_nil, List.length_replicate]

theorem moduleChecksum_ne_of_agreeOutside {start : Nat} {a b : Bytes}
    (hlong : Field.crc32 + 4 ≤ a.length) (hlength : a.length = b.length)
    (hdisjoint : start + 4 ≤ Field.crc32 ∨ Field.crc32 + 4 ≤ start)
    (hagree : AgreeOutside ⟨start, 4⟩ a b) (hne : a ≠ b) : moduleChecksum a ≠ moduleChecksum b := by
  have ha : Field.crc32 + (zeros 4).length ≤ a.length := hlong
  have hb : Field.crc32 + (zeros 4).length ≤ b.length := hlength ▸ hlong
  rw [moduleChecksum_eq_crc32 ha, moduleChecksum_eq_crc32 hb]
  refine Checksum.crc32_ne_of_agreeOutside ?_ (hagree.overwrite ha hb)
    (hagree.overwrite_ne ha hb hdisjoint hne)
  rw [length_overwrite, length_overwrite, hlength]

theorem moduleChecksum_eq_of_agreeOutside {a b : Bytes} (ha : Field.crc32 + 4 ≤ a.length)
    (hb : Field.crc32 + 4 ≤ b.length) (hagree : AgreeOutside ⟨Field.crc32, 4⟩ a b) :
    moduleChecksum a = moduleChecksum b := by
  have hbefore : a.take Field.crc32 = b.take Field.crc32 := hagree.take_eq (Nat.le_refl _)
  have hafter : a.drop (Field.crc32 + 4) = b.drop (Field.crc32 + 4) :=
    hagree.drop_eq (Nat.le_refl _)
  rw [moduleChecksum, moduleChecksum, if_neg (by omega), if_neg (by omega), hbefore, hafter]

theorem isOk_parse_iff (bytes : Bytes) : (parse bytes).isOk ↔ Accepted bytes := by
  rw [← exists_parse_iff]
  cases parse bytes with
  | ok image => simp [Except.isOk, Except.toBool]
  | error error => simp [Except.isOk, Except.toBool]

variable {a b : Bytes}

-- Two images with the same checksum word have the same checksum.
theorem Accepted.eq_of_burst (ha : Accepted a) (hb : Accepted b) {start : Nat}
    (hlength : a.length = b.length)
    (hdisjoint : start + 4 ≤ Field.crc32 ∨ Field.crc32 + 4 ≤ start)
    (hagree : AgreeOutside ⟨start, 4⟩ a b) : a = b := by
  by_contra hne
  have hlong : Field.crc32 + 4 ≤ a.length := Nat.le_trans (by decide) ha.whole
  have hword : a.wordD Field.crc32 = b.wordD Field.crc32 := hagree.wordD_eq hdisjoint
  apply moduleChecksum_ne_of_agreeOutside hlong hlength hdisjoint hagree hne
  rw [ha.checksum, hb.checksum]
  exact hword

-- Two images that only differ in their checksum words do not even differ there.
theorem Accepted.eq_of_crc (ha : Accepted a) (hb : Accepted b)
    (hagree : AgreeOutside ⟨Field.crc32, 4⟩ a b) : a = b := by
  have halong : Field.crc32 + 4 ≤ a.length := Nat.le_trans (by decide) ha.whole
  have hblong : Field.crc32 + 4 ≤ b.length := Nat.le_trans (by decide) hb.whole
  have hword : a.wordD Field.crc32 = b.wordD Field.crc32 := by
    have hsum := moduleChecksum_eq_of_agreeOutside halong hblong hagree
    rwa [ha.checksum, hb.checksum] at hsum
  have hbytes : ∀ bytes : Bytes, Field.crc32 + 4 ≤ bytes.length →
      (bytes.drop Field.crc32).take 4 = ofWord (bytes.wordD Field.crc32) := fun bytes hlong =>
    (word?_eq_some_iff _ _ _).mp (word?_eq_some_wordD bytes _ hlong)
  have hbefore : a.take Field.crc32 = b.take Field.crc32 := hagree.take_eq (Nat.le_refl _)
  have hafter : a.drop (Field.crc32 + 4) = b.drop (Field.crc32 + 4) :=
    hagree.drop_eq (Nat.le_refl _)
  rw [← List.take_append_drop Field.crc32 a, ← List.take_append_drop Field.crc32 b, hbefore,
    ← List.take_append_drop 4 (a.drop Field.crc32), ← List.take_append_drop 4 (b.drop Field.crc32),
    hbytes a halong, hbytes b hblong, hword, List.drop_drop, List.drop_drop, hafter]

-- The header says how long its image is.
theorem Accepted.eq_of_isPrefix (ha : Accepted a) (hb : Accepted b) (h : a <+: b) : a = b := by
  obtain ⟨rest, rfl⟩ := h
  have htotal : a.wordD Field.totalSize = (a ++ rest).wordD Field.totalSize := by
    have hlong : Field.totalSize + 4 ≤ a.length := Nat.le_trans (by decide) ha.whole
    apply wordD_congr
    rw [List.take_drop, List.take_drop, List.take_append_of_le_length hlong]
  have hlength : a.length = (a ++ rest).length := by
    rw [← ha.fits.total, ← hb.fits.total]
    exact congrArg UInt32.toNat htotal
  have hnil : rest = [] := by
    rw [List.length_append] at hlength
    exact List.length_eq_zero_iff.mp (by omega)
  rw [hnil, List.append_nil]

-- No small damage goes unnoticed: not to four consecutive bytes, not to the checksum
-- itself, and nothing may be cut off or added.
theorem corruption_is_detected (h : (parse a).isOk) :
    (∀ b start, b.length = a.length →
      (start + 4 ≤ Field.crc32 ∨ Field.crc32 + 4 ≤ start) →
      AgreeOutside ⟨start, 4⟩ a b → b ≠ a → (parse b).isOk = false) ∧
    (∀ b, AgreeOutside ⟨Field.crc32, 4⟩ a b → b ≠ a → (parse b).isOk = false) ∧
    (∀ b, b <+: a ∨ a <+: b → b ≠ a → (parse b).isOk = false) := by
  have ha := (isOk_parse_iff a).mp h
  simp only [← Bool.not_eq_true, isOk_parse_iff]
  refine ⟨?_, ?_, ?_⟩
  · intro b start hlength hdisjoint hagree hne hb
    exact hne (ha.eq_of_burst hb hlength.symm hdisjoint hagree).symm
  · intro b hagree hne hb
    exact hne (ha.eq_of_crc hb hagree).symm
  · rintro b (hstart | hextension) hne hb
    · exact hne (hb.eq_of_isPrefix ha hstart)
    · exact hne (ha.eq_of_isPrefix hb hextension).symm

theorem sample_damage_is_detected :
    (parse sample).isOk ∧ (parse (sample.set 75 9)).isOk = false ∧
      (parse (sample.set 41 (sample.getD 41 0 + 1))).isOk = false ∧
      (parse (sample.take 104)).isOk = false ∧ (parse (sample ++ zeros 8)).isOk = false := by
  have hsample : (parse sample).isOk := (isOk_parse_iff _).mpr accepted_sample
  obtain ⟨hburst, hcrc, hlength⟩ := corruption_is_detected hsample
  refine ⟨hsample, ?_, ?_, ?_, ?_⟩
  · refine hburst _ 75 List.length_set (by decide) ?_ ?_
    · intro i hi
      simp only [Span.stop] at hi
      rw [List.getElem?_set_ne (by omega)]
    · intro heq
      have hread : some (9 : UInt8) = some 4 := congrArg (fun bytes : Bytes => bytes[75]?) heq
      exact absurd hread (by decide)
  · refine hcrc _ ?_ ?_
    · intro i hi
      simp only [Span.stop, Field.crc32] at hi
      rw [List.getElem?_set_ne (by omega)]
    · intro heq
      have hread := congrArg (fun bytes : Bytes => bytes.getD 41 0) heq
      rw [List.getD_eq_getElem?_getD, List.getElem?_set_self (by decide), Option.getD_some] at hread
      exact absurd (UInt8.add_eq_left.mp hread) (by decide)
  · refine hlength _ (Or.inl (List.take_prefix _ _)) fun heq => ?_
    exact absurd (congrArg List.length heq) (by decide)
  · refine hlength _ (Or.inr (List.prefix_append _ _)) fun heq => ?_
    exact absurd (congrArg List.length heq) (by decide)

end Image

end Loadable
