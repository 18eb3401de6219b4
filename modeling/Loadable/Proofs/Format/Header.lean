import Loadable.Format.Header
import Loadable.Proofs.Bytes
import Mathlib.Tactic.SplitIfs

namespace Loadable.Format

-- What the second word of an extended header holds: version 1, 64 bytes.
def extendedWord : UInt32 := 0x00010040

theorem Version.versionWord?_extended : Version.extended.versionWord? = some extendedWord := by
  decide

theorem Version.detect_eq (bytes : Bytes) :
    Version.detect bytes =
      if 8 ≤ bytes.length ∧ bytes.wordD Field.magic = moduleMagic then
        if bytes.wordD Field.version = extendedWord then some .extended
        else if 32 ≤ bytes.length then some .basic
        else none
      else none := by
  have hbasic : Version.basic.headerSize.toNat = 32 := rfl
  simp only [detect, versionWord?_extended, hbasic, Bytes.word?_eq_ite, Field.magic, Field.version,
    Nat.zero_add, Nat.reduceAdd, Option.some.injEq]
  by_cases height : 8 ≤ bytes.length
  case neg => simp [height]
  have hfour : 4 ≤ bytes.length := by omega
  by_cases hversion : bytes.wordD 4 = extendedWord <;> simp [hfour, height, hversion]

theorem Version.detect_eq_extended_iff (bytes : Bytes) :
    Version.detect bytes = some .extended ↔
      bytes.word? 0 = some moduleMagic ∧ bytes.word? 4 = some extendedWord := by
  rw [detect_eq, bytes.word?_eq_ite, bytes.word?_eq_ite]
  split_ifs <;> grind [Field.magic, Field.version]

namespace Header

theorem length_toBytes (header : Header) : header.toBytes.length = size := by
  rw [toBytes, Bytes.length_ofWords]
  rfl

theorem read_toBytes (header : Header) (rest : Bytes) : read (header.toBytes ++ rest) = header := by
  have hword : ∀ i word, header.words[i]? = some word →
      (header.toBytes ++ rest).wordD (4 * i) = word := by
    intro i word h
    rw [Bytes.wordD, toBytes, Bytes.word?_ofWords h, Option.getD_some]
  unfold read
  congr 1
  · exact hword 2 _ rfl
  · exact hword 3 _ rfl
  · exact hword 4 _ rfl
  · exact hword 5 _ rfl
  · exact hword 6 _ rfl
  · exact hword 7 _ rfl
  · exact hword 8 _ rfl
  · exact hword 9 _ rfl
  · exact hword 10 _ rfl
  · exact hword 11 _ rfl
  · exact hword 12 _ rfl

-- A word of a header that was written is patched in place.
theorem overwrite_totalSize (header : Header) (totalSize : UInt32) (rest : Bytes) :
    (header.toBytes ++ rest).overwrite Field.totalSize (Bytes.ofWord totalSize) =
      { header with totalSize }.toBytes ++ rest := by
  have hplace : 11 < header.words.length := (by decide : 11 < 16)
  exact Bytes.overwrite_ofWords hplace totalSize rest

theorem overwrite_crc32 (header : Header) (crc32 : UInt32) (rest : Bytes) :
    (header.toBytes ++ rest).overwrite Field.crc32 (Bytes.ofWord crc32) =
      { header with crc32 }.toBytes ++ rest := by
  have hplace : 10 < header.words.length := (by decide : 10 < 16)
  exact Bytes.overwrite_ofWords hplace crc32 rest

-- A header is read word by word, and only a whole one.
theorem parse_eq (bytes : Bytes) :
    parse bytes =
      let truncated := Error.truncated size bytes.length
      if bytes.length < 4 then .error truncated
      else if bytes.wordD Field.magic ≠ moduleMagic then
        .error (.invalidMagic (bytes.wordD Field.magic))
      else if bytes.length < 8 then .error truncated
      else if bytes.wordD Field.version ≠ extendedWord then
        if 32 ≤ bytes.length then .error (.legacy .basic)
        else .error (.unsupportedVersion (bytes.wordD Field.version))
      else if bytes.length < size then .error truncated
      else .ok (read bytes) := by
  simp only [parse, Version.detect_eq, Bytes.word?_eq_ite, Field.magic, Field.version,
    Nat.zero_add, Nat.reduceAdd]
  simp only [← Nat.not_le]
  by_cases hfour : 4 ≤ bytes.length
  case neg => simp [hfour]
  by_cases hmagic : bytes.wordD 0 = moduleMagic
  case neg => simp [hfour, hmagic]
  by_cases height : 8 ≤ bytes.length
  case neg => simp [hfour, hmagic, height]
  by_cases hversion : bytes.wordD 4 = extendedWord
  · simp [hfour, hmagic, height, hversion]
  · by_cases hlong : 32 ≤ bytes.length <;> simp [hfour, hmagic, height, hversion, hlong]

-- A header is found at the start of whatever begins with the two words of an
-- extended image and is long enough.
theorem parse_eq_ok_iff (bytes : Bytes) (header : Header) :
    parse bytes = .ok header ↔
      size ≤ bytes.length ∧ bytes.word? Field.magic = some moduleMagic ∧
        bytes.word? Field.version = some extendedWord ∧ header = read bytes := by
  have hsize : size = 64 := rfl
  rw [parse_eq, bytes.word?_eq_ite, bytes.word?_eq_ite]
  split_ifs <;> grind [Field.magic, Field.version]

theorem parse_toBytes (header : Header) (rest : Bytes) :
    parse (header.toBytes ++ rest) = .ok header := by
  have hwhole : size ≤ (header.toBytes ++ rest).length := by
    rw [List.length_append, length_toBytes]
    exact Nat.le_add_right _ _
  exact (parse_eq_ok_iff _ _).mpr ⟨hwhole, Bytes.word?_ofWords (i := 0) rfl rest,
    Bytes.word?_ofWords (i := 1) rfl rest, (read_toBytes header rest).symm⟩

-- The checksum does not depend on what the header holds for it.
theorem moduleChecksum_toBytes (header : Header) (crc : UInt32) (rest : Bytes) :
    moduleChecksum ({ header with crc32 := crc }.toBytes ++ rest) =
      moduleChecksum (header.toBytes ++ rest) := by
  have hlong : ∀ h : Header, ¬(h.toBytes ++ rest).length < Field.crc32 + 4 := by
    intro h
    rw [List.length_append, length_toBytes, Nat.not_lt]
    exact Nat.le_add_right_of_le (by decide)
  rw [moduleChecksum, moduleChecksum, if_neg (hlong _), if_neg (hlong _)]
  rfl

-- The header with the checksum of the image that `rest` follows it in.
def stamped (header : Header) (rest : Bytes) : Header :=
  { header with crc32 := moduleChecksum (header.toBytes ++ rest) }

theorem moduleChecksum_stamped (header : Header) (rest : Bytes) :
    moduleChecksum ((header.stamped rest).toBytes ++ rest) = (header.stamped rest).crc32 :=
  header.moduleChecksum_toBytes _ rest

end Header

end Loadable.Format
