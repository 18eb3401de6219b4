import Loadable.Proofs.Build.Passes
import Mathlib.Tactic.SplitIfs
import Mathlib.Tactic.Tauto

namespace Loadable.Format.Header

variable {bytes : Bytes} {header : Header}

theorem run_writeHeader (header : Header) (before : Bytes) :
    (Assembler.writeHeader header).run (.ofContent before) =
      .ok () (.ofContent (before ++ header.toBytes)) := by
  have hroom : (Stream.ofContent before).room header.toBytes.length = header.toBytes.length := rfl
  rw [Assembler.writeHeader_eq, Stream.run_write, hroom, if_neg (Nat.lt_irrefl _),
    Stream.take_ofContent]

theorem exists_parse_eq_ok_iff (bytes : Bytes) :
    (∃ header, parse bytes = .ok header) ↔
      Version.detect bytes = some .extended ∧ size ≤ bytes.length := by
  simp only [parse_eq_ok_iff, Version.detect_eq_extended_iff, exists_and_left, exists_eq, and_true]
  tauto

-- Only the reserved words of a header are not kept.
theorem toBytes_of_parse (h : parse bytes = .ok header) :
    header.toBytes = bytes.take 52 ++ Bytes.zeros 12 := by
  obtain ⟨hlength, hmagic, hversion, rfl⟩ := (parse_eq_ok_iff _ _).mp h
  have hsize : size = 64 := rfl
  have hmagic : bytes.wordD 0 = moduleMagic := Option.getD_eq_iff.mpr (Or.inl hmagic)
  have hversion : bytes.wordD 4 = extendedWord := Option.getD_eq_iff.mpr (Or.inl hversion)
  have hwords : (read bytes).words =
      (List.range 13).map (fun i => bytes.wordD (0 + 4 * i)) ++ [0, 0, 0] := by
    rw [words, ← hmagic, Version.current, Version.versionWord?_extended, ← hversion]
    rfl
  rw [toBytes, hwords, Bytes.ofWords_append, Bytes.ofWords_map_wordD _ (by omega)]
  rfl

theorem toBytes_eq_take_iff (h : parse bytes = .ok header) :
    header.toBytes = bytes.take size ↔ ∀ offset ∈ Field.reserved, bytes.word? offset = some 0 := by
  have hlength : 64 ≤ bytes.length := ((parse_eq_ok_iff _ _).mp h).1
  have htake : bytes.take size = bytes.take 52 ++
      Bytes.ofWords [bytes.wordD 52, bytes.wordD 56, bytes.wordD 60] := by
    rw [show size = 52 + 4 * 3 from rfl, List.take_add,
      ← Bytes.ofWords_map_wordD bytes (by omega : 52 + 4 * 3 ≤ bytes.length)]
    rfl
  have hzeros : Bytes.zeros 12 = Bytes.ofWords [0, 0, 0] := rfl
  rw [toBytes_of_parse h, htake, List.append_cancel_left_eq, hzeros, Bytes.ofWords_inj, eq_comm,
    Field.reserved]
  simp only [List.forall_mem_cons, bytes.word?_eq_some_wordD 52 (by omega),
    bytes.word?_eq_some_wordD 56 (by omega), bytes.word?_eq_some_wordD 60 (by omega),
    Option.some.injEq, List.cons.injEq]
  simp

-- What a byte string that is no header is refused as. One that was cut short has the right words
-- as far as it goes.
def Refused (bytes : Bytes) : Error → Prop
  | .invalidMagic magic =>
    4 ≤ bytes.length ∧ bytes.wordD Field.magic = magic ∧ magic ≠ moduleMagic
  | .legacy version => version = .basic ∧ Version.detect bytes = some .basic
  | .unsupportedVersion word =>
    8 ≤ bytes.length ∧ bytes.length < 32 ∧ bytes.wordD Field.magic = moduleMagic ∧
      bytes.wordD Field.version = word ∧ word ≠ extendedWord
  | .truncated expected found =>
    expected = size ∧ found = bytes.length ∧ bytes.length < size ∧
      (4 ≤ bytes.length → bytes.wordD Field.magic = moduleMagic) ∧
      (8 ≤ bytes.length → bytes.wordD Field.version = extendedWord)
  | _ => False

theorem parse_eq_error_iff (bytes : Bytes) (error : Error) :
    parse bytes = .error error ↔ Refused bytes error := by
  have hsize : size = 64 := rfl
  rw [parse_eq]
  -- For every kind of error, the tests in front of it say what else is known of the bytes.
  cases error with
  | invalidMagic magic => split_ifs <;> grind [Refused]
  | legacy version => split_ifs <;> grind [Refused, Version.detect_eq]
  | unsupportedVersion word => split_ifs <;> grind [Refused]
  | truncated expected found => split_ifs <;> grind [Refused]
  | _ => split_ifs <;> simp [Refused]

-- A header is read as it was written, whatever follows it. Of any other string, the generation
-- that shows in it and its length say whether there is a header in it.
theorem codec_agrees_with_detection (header : Header) (before rest bytes : Bytes) :
    header.toBytes.length = size ∧
      Assembler.writeHeader header = Stream.write header.toBytes ∧
      (Assembler.writeHeader header).run (.ofContent before) =
        .ok () (.ofContent (before ++ header.toBytes)) ∧
      parse (header.toBytes ++ rest) = .ok header ∧
      ((∃ found, parse bytes = .ok found) ↔
        Version.detect bytes = some .extended ∧ size ≤ bytes.length) ∧
      (∀ found, parse bytes = .ok found →
        found.toBytes = bytes.take 52 ++ Bytes.zeros 12 ∧
          (found.toBytes = bytes.take size ↔
            ∀ offset ∈ Field.reserved, bytes.word? offset = some 0)) ∧
      ∀ error, parse bytes = .error error ↔ Refused bytes error :=
  ⟨header.length_toBytes, Assembler.writeHeader_eq header, run_writeHeader header before,
    parse_toBytes header rest, exists_parse_eq_ok_iff bytes,
    fun _ h => ⟨toBytes_of_parse h, toBytes_eq_take_iff h⟩, parse_eq_error_iff bytes⟩

-- One of the reserved words is not zero here.
def sampleBytes : Bytes :=
  Bytes.ofWords [moduleMagic, extendedWord, 64, 8, 72, 0, 72, 0, 0x20000000, 16, 5, 72, 0x41, 0, 7, 0]

theorem sample_header_is_read :
    ∃ found, parse sampleBytes = .ok found ∧
      found.toBytes = sampleBytes.take 52 ++ Bytes.zeros 12 ∧
      found.toBytes ≠ sampleBytes.take size := by
  obtain ⟨-, -, -, -, hok, hback, -⟩ := codec_agrees_with_detection {} [] [] sampleBytes
  obtain ⟨found, hfound⟩ := hok.mpr (by decide)
  obtain ⟨hbytes, hsame⟩ := hback found hfound
  exact ⟨found, hfound, hbytes, hsame.not.mpr (by decide)⟩

end Loadable.Format.Header
