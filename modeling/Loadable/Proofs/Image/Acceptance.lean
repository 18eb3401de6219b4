import Loadable.Image
import Loadable.Proofs.Check
import Loadable.Proofs.Format.Header
import Loadable.Proofs.Records

namespace Loadable

open Loadable.Format

namespace Format.Header

-- The whole of an image is accounted for, and no region leaves it.
structure Fits (header : Header) (bytes : Bytes) : Prop where
  total : header.totalSize.toNat = bytes.length
  description : size ≤ header.entryOffset.toNat
  payload : header.entryOffset.toNat + header.payloadLength.toNat ≤ bytes.length
  relocations : header.relocationOffset.toNat + 16 * header.relocationCount.toNat ≤ bytes.length
  symbols : header.symbolOffset.toNat + 16 * header.symbolCount.toNat ≤ bytes.length

def Aligned (header : Header) : Prop :=
  ∀ field ∈ header.alignedFields, field.2 % alignment = 0

theorem checkAlignment_eq_ok_iff (header : Header) (result : Unit) :
    header.checkAlignment = .ok result ↔ header.Aligned := by
  unfold checkAlignment Aligned
  split
  next name value hfind =>
    have hmem := List.mem_of_find?_eq_some hfind
    have hodd := List.find?_some hfind
    simp only [reduceCtorEq, false_iff]
    intro haligned
    simp [haligned _ hmem] at hodd
  next hnone => simpa using hnone

end Format.Header

namespace Image

-- The total size of an image is a word, and it is its length.
theorem length_lt_of_fits {bytes : Bytes} {header : Header} (h : header.Fits bytes) :
    bytes.length < UInt32.size := by
  rw [← h.total]
  exact header.totalSize.toNat_lt

theorem toNat_mul_of_fits {bytes : Bytes} {offset count : UInt32}
    (h : offset.toNat + 16 * count.toNat ≤ bytes.length) (hlength : bytes.length < UInt32.size) :
    (16 * count).toNat = 16 * count.toNat := by
  have hsize : UInt32.size = 2 ^ 32 := rfl
  rw [UInt32.toNat_mul]
  exact Nat.mod_eq_of_lt (by simp only [UInt32.toNat_ofNat]; omega)

-- What makes a byte string a module image: everything that its verification asks for.
structure Accepted (bytes : Bytes) : Prop where
  whole : Header.size ≤ bytes.length
  magic : bytes.word? Field.magic = some moduleMagic
  version : bytes.word? Field.version = some extendedWord
  aligned : (Header.read bytes).Aligned
  fits : (Header.read bytes).Fits bytes
  reserved : ∀ offset ∈ Field.reserved, bytes.wordD offset = 0
  positions : ∀ relocation ∈ relocations ⟨bytes, .read bytes⟩,
    relocation.symbolPosition < (Header.read bytes).symbolCount
  checksum : moduleChecksum bytes = (Header.read bytes).crc32

theorem checkRegions_eq_ok_iff (bytes : Bytes) (header : Header) (result : Unit)
    (htotal : header.totalSize.toNat = bytes.length) :
    checkRegions bytes header = .ok result ↔ header.Fits bytes := by
  simp only [checkRegions, checkBounds, bind_eq_ok_iff, require_eq_ok]
  constructor
  · rintro ⟨_, hdescription, _, hpayload, _, hrelocations, hsymbols⟩
    exact ⟨htotal, hdescription, hpayload, hrelocations, hsymbols⟩
  · intro h
    exact ⟨(), h.description, (), h.payload, (), h.relocations, h.symbols⟩

theorem checkReserved_eq_ok_iff (bytes : Bytes) (result : Unit) :
    checkReserved bytes = .ok result ↔ ∀ offset ∈ Field.reserved, bytes.wordD offset = 0 := by
  unfold checkReserved
  split
  next offset hfind =>
    have hmem := List.mem_of_find?_eq_some hfind
    have hset := List.find?_some hfind
    simp only [reduceCtorEq, false_iff]
    intro hzero
    simp [hzero _ hmem] at hset
  next hnone => simpa using hnone

theorem checkPositions_eq_ok_iff (image : Image) (result : Unit) :
    image.checkPositions = .ok result ↔
      ∀ relocation ∈ image.relocations, relocation.symbolPosition < image.header.symbolCount := by
  simp only [checkPositions]
  split
  next relocation index hfind =>
    have hmem := List.mem_of_find?_eq_some hfind
    have hbeyond := List.find?_some hfind
    simp only [reduceCtorEq, false_iff]
    intro hwithin
    have hlt := hwithin _ (List.fst_mem_of_mem_zipIdx hmem)
    simp [UInt32.not_le.mpr hlt] at hbeyond
  next hnone =>
    simp only [true_iff]
    intro relocation hmem
    obtain ⟨index, hget⟩ := List.mem_iff_getElem?.mp hmem
    have hentry : (relocation, index) ∈ image.relocations.zipIdx :=
      List.mem_zipIdx_iff_getElem?.mpr hget
    simpa using List.find?_eq_none.mp hnone _ hentry

theorem parse_eq_ok_iff (bytes : Bytes) (image : Image) :
    parse bytes = .ok image ↔ Accepted bytes ∧ image = ⟨bytes, .read bytes⟩ := by
  simp only [parse, bind_eq_ok_iff, pure_eq_ok_iff, Header.parse_eq_ok_iff,
    Header.checkAlignment_eq_ok_iff, checkReserved_eq_ok_iff, checkPositions_eq_ok_iff,
    require_eq_ok]
  constructor
  · rintro ⟨header, ⟨hwhole, hmagic, hversion, rfl⟩, _, haligned, _, htotal, _, hregions, _,
      hreserved, _, hpositions, _, hchecksum, rfl⟩
    have hfits := (checkRegions_eq_ok_iff bytes _ _ htotal).mp hregions
    exact ⟨⟨hwhole, hmagic, hversion, haligned, hfits, hreserved, hpositions, hchecksum⟩, rfl⟩
  · rintro ⟨h, rfl⟩
    have hregions := (checkRegions_eq_ok_iff bytes _ () h.fits.total).mpr h.fits
    exact ⟨_, ⟨h.whole, h.magic, h.version, rfl⟩, (), h.aligned, (), h.fits.total, (), hregions, (),
      h.reserved, (), h.positions, (), h.checksum, rfl⟩

theorem exists_parse_iff (bytes : Bytes) :
    (∃ image, parse bytes = .ok image) ↔ Accepted bytes := by
  simp only [parse_eq_ok_iff, exists_and_left, exists_eq, and_true]

-- Whatever follows a header that describes it and carries its checksum is accepted.
theorem accepted_toBytes {header : Header} {rest : Bytes} (haligned : header.Aligned)
    (hfits : header.Fits (header.toBytes ++ rest))
    (hpositions : ∀ relocation ∈ relocations ⟨header.toBytes ++ rest, header⟩,
      relocation.symbolPosition < header.symbolCount)
    (hchecksum : moduleChecksum (header.toBytes ++ rest) = header.crc32) :
    Accepted (header.toBytes ++ rest) := by
  have hread := header.read_toBytes rest
  have hword : ∀ {i word}, header.words[i]? = some word →
      (header.toBytes ++ rest).word? (4 * i) = some word := fun h => Bytes.word?_ofWords h rest
  refine ⟨?_, hword (i := 0) rfl, hword (i := 1) rfl, ?_, ?_, ?_, ?_, ?_⟩
  · rw [List.length_append, Header.length_toBytes]
    exact Nat.le_add_right _ _
  · rwa [hread]
  · rwa [hread]
  · intro offset hmem
    simp only [Field.reserved, List.mem_cons, List.not_mem_nil, or_false] at hmem
    rcases hmem with rfl | rfl | rfl
    · exact congrArg (Option.getD · 0) (hword (i := 13) rfl)
    · exact congrArg (Option.getD · 0) (hword (i := 14) rfl)
    · exact congrArg (Option.getD · 0) (hword (i := 15) rfl)
  · rwa [hread]
  · rwa [hread]

-- A small module: a text, a payload, and one relocation with its symbol.
def sampleHeader : Header where
  entryOffset := 72
  payloadLength := 8
  relocationOffset := 80
  relocationCount := 1
  symbolOffset := 96
  symbolCount := 1
  bssStart := 0x20000000
  bssLength := 16
  totalSize := 112
  entryPoint := 0x08000041

def sampleBody : Bytes :=
  [0x68, 0x69, 0, 0, 0, 0, 0, 0] ++ [1, 2, 3, 4, 5, 6, 7, 8] ++
    Relocation.toBytes ⟨4, 2, .text, 0⟩ ++ SymbolRecord.toBytes ⟨0x40, 2, 1⟩

def sample : Bytes := (sampleHeader.stamped sampleBody).toBytes ++ sampleBody

theorem accepted_sample : Accepted sample := by
  apply accepted_toBytes
  · unfold Header.Aligned
    decide
  · exact ⟨rfl, by decide, by decide, by decide, by decide⟩
  · intro relocation hmem
    have htable : relocation ∈ (Bytes.chunks Relocation.size
        ([⟨4, 2, .text, 0⟩].flatMap Relocation.toBytes)).filterMap Relocation.decode? := hmem
    rw [Relocation.decode_table, List.mem_singleton] at htable
    rw [htable]
    decide
  · exact sampleHeader.moduleChecksum_stamped sampleBody

end Image

end Loadable
