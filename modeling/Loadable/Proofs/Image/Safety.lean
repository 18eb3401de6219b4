import Loadable.Proofs.Image.Guarded

namespace Loadable.Image

open Loadable.Format

variable {bytes : Bytes} {header : Header}

namespace Guarded

open Loadable.Guarded

theorem checkBounds_eq (bytes : Bytes) (offset : UInt32) {length : UInt64} (region : Region)
    (h : length.toNat < 16 * UInt32.size) :
    checkBounds bytes offset length region =
      refuse (Image.checkBounds bytes offset length.toNat region) := by
  rw [checkBounds, sum64_word offset h, Image.checkBounds, ← toNat_add_word offset h]
  rfl

theorem checkRegions_eq (bytes : Bytes) (header : Header) :
    checkRegions bytes header = refuse (Image.checkRegions bytes header) := by
  have htable : ∀ count : UInt32, (16 * count.toUInt64).toNat < 16 * UInt32.size := by
    intro count
    have hcount : count.toNat < UInt32.size := count.toNat_lt
    rw [toNat_sixteen_mul]
    omega
  simp only [checkRegions, product64_sixteen, checkBounds_eq _ _ _ (toNat_toUInt64_lt _),
    ok_bind, checkBounds_eq _ _ _ (htable _), toNat_sixteen_mul, UInt32.toNat_toUInt64,
    Image.checkRegions, refuse, mapError_bind]

theorem records_eq_ok {offset count : UInt32}
    (h : offset.toNat + 16 * count.toNat ≤ bytes.length) (hlength : bytes.length < UInt32.size) :
    records bytes offset count =
      .ok ((bytes.slice ⟨offset.toNat, (16 * count).toNat⟩).chunks 16) := by
  have hsize : UInt32.size = 2 ^ 32 := rfl
  have hproduct : UInt32.toNat 16 * count.toNat < UInt32.size := by
    simp only [UInt32.toNat_ofNat]
    omega
  have hexact := toNat_mul_of_fits h hlength
  have hlong := toNat_toUInt64_lt (16 * count)
  have hstop := toNat_add_word offset hlong
  rw [UInt32.toNat_toUInt64] at hstop
  rw [records, product32_eq_ok hproduct, ok_bind, sum64_word offset hlong, ok_bind, hstop,
    cut_eq_ok bytes (by omega), Nat.add_sub_cancel_left]
  rfl

theorem relocations_eq_ok (h : header.Fits bytes) :
    relocations ⟨bytes, header⟩ = .ok (Image.relocations ⟨bytes, header⟩) := by
  rw [relocations, records_eq_ok h.relocations (length_lt_of_fits h)]
  rfl

theorem symbols_eq_ok (h : header.Fits bytes) :
    symbols ⟨bytes, header⟩ = .ok (Image.symbols ⟨bytes, header⟩) := by
  rw [symbols, records_eq_ok h.symbols (length_lt_of_fits h)]
  rfl

theorem payload_eq_ok (h : header.Fits bytes) :
    payload ⟨bytes, header⟩ = .ok (Image.payload ⟨bytes, header⟩) := by
  have hlong := toNat_toUInt64_lt header.payloadLength
  have hpayload := h.payload
  simp only [payload, sum64_word _ hlong, ok_bind, toNat_add_word _ hlong, UInt32.toNat_toUInt64]
  rw [cut_eq_ok bytes (by omega), Nat.add_sub_cancel_left]
  rfl

theorem description_eq_ok (h : header.Fits bytes) :
    description ⟨bytes, header⟩ = .ok (Image.description ⟨bytes, header⟩) := by
  have hbefore := h.description
  have hwithin := h.payload
  simp only [description]
  rw [cut_eq_ok bytes (by omega)]
  rfl

theorem checkPositions_eq (h : header.Fits bytes) :
    checkPositions ⟨bytes, header⟩ = refuse (Image.checkPositions ⟨bytes, header⟩) := by
  simp only [checkPositions, relocations_eq_ok h, ok_bind, Image.checkPositions]
  generalize List.find? _ _ = found
  cases found with
  | none => rfl
  | some entry => rfl

theorem moduleChecksum_eq_ok (bytes : Bytes) :
    moduleChecksum bytes = .ok (Format.moduleChecksum bytes) := by
  unfold moduleChecksum Format.moduleChecksum
  split
  · rfl
  · rename_i hlong
    have hbefore : (cut bytes 0 Field.crc32 : Run Error Bytes) = .ok (bytes.take Field.crc32) :=
      cut_eq_ok bytes (by omega)
    have hafter : (cut bytes (Field.crc32 + 4) bytes.length : Run Error Bytes) =
        .ok (bytes.drop (Field.crc32 + 4)) := by
      rw [cut_eq_ok bytes (by omega), Bytes.slice, List.take_of_length_le]
      simp only [List.length_drop]
      exact Nat.le_refl _
    rw [hbefore, ok_bind, hafter, ok_bind]
    rfl

-- No input makes the verifier fault: guarded, it gives the same answer to every
-- byte string.
theorem parse_eq (bytes : Bytes) : parse bytes = refuse (Image.parse bytes) := by
  simp only [parse, Image.parse, refuse, mapError_bind]
  refine bind_congr_of_ok fun header hheader => ?_
  refine bind_congr_of_ok fun _ _ => ?_
  refine bind_congr_of_ok fun _ htotal => ?_
  rw [checkRegions_eq]
  refine bind_congr_of_ok fun _ hregions => ?_
  -- From here on the regions are known to lie in the image.
  simp only [refuse, mapError_eq_ok_iff, require_eq_ok] at htotal hregions
  have hfits := (checkRegions_eq_ok_iff bytes header () htotal).mp hregions
  rw [checkPositions_eq hfits, moduleChecksum_eq_ok]
  rfl

end Guarded

-- What the readers of an image rely on: no cut or product of theirs goes wrong, and
-- they find as much as the header announces.
structure Sound (image : Image) : Prop where
  description : Guarded.description image = .ok image.description
  payload : Guarded.payload image = .ok image.payload
  relocations : Guarded.relocations image = .ok image.relocations
  symbols : Guarded.symbols image = .ok image.symbols
  relocationProduct :
    (16 * image.header.relocationCount).toNat = 16 * image.header.relocationCount.toNat
  symbolProduct : (16 * image.header.symbolCount).toNat = 16 * image.header.symbolCount.toNat
  relocationRecords : ∀ piece ∈ Bytes.chunks 16 (image.bytes.slice (relocationSpan image.header)),
    piece.length = 16 ∧ (Relocation.decode? piece).isSome
  symbolRecords : ∀ piece ∈ Bytes.chunks 16 (image.bytes.slice (symbolSpan image.header)),
    piece.length = 16 ∧ (SymbolRecord.decode? piece).isSome
  length_payload : image.payload.length = image.header.payloadLength.toNat
  length_relocations : image.relocations.length = image.header.relocationCount.toNat
  length_symbols : image.symbols.length = image.header.symbolCount.toNat
  positions : ∀ relocation ∈ image.relocations,
    relocation.symbolPosition.toNat < image.symbols.length

theorem length_table {offset count : UInt32} (h : offset.toNat + 16 * count.toNat ≤ bytes.length)
    (hlength : bytes.length < UInt32.size) :
    (bytes.slice ⟨offset.toNat, (16 * count).toNat⟩).length = 16 * count.toNat := by
  have hexact := toNat_mul_of_fits h hlength
  rw [Bytes.length_slice _ _ (by simp only [Span.Within, Span.stop]; omega), hexact]

theorem sound_of_accepted (h : Accepted bytes) : Sound ⟨bytes, .read bytes⟩ := by
  have hfits := h.fits
  have hlength := length_lt_of_fits hfits
  have hrelocations := length_table hfits.relocations hlength
  have hsymbols := length_table hfits.symbols hlength
  have hcount := SymbolRecord.length_decode_table _ hsymbols
  exact {
    description := Guarded.description_eq_ok hfits
    payload := Guarded.payload_eq_ok hfits
    relocations := Guarded.relocations_eq_ok hfits
    symbols := Guarded.symbols_eq_ok hfits
    relocationProduct := toNat_mul_of_fits hfits.relocations hlength
    symbolProduct := toNat_mul_of_fits hfits.symbols hlength
    relocationRecords := fun piece hp => by
      have hpiece := (Bytes.chunks_whole (by decide) _ hrelocations).2 piece hp
      exact ⟨hpiece, by rw [Relocation.decode?_of_le (Nat.le_of_eq hpiece.symm)]; rfl⟩
    symbolRecords := fun piece hp => by
      have hpiece := (Bytes.chunks_whole (by decide) _ hsymbols).2 piece hp
      exact ⟨hpiece, by rw [SymbolRecord.decode?_of_le (by omega)]; rfl⟩
    length_payload := Bytes.length_slice _ _ hfits.payload
    length_relocations := Relocation.length_decode_table _ hrelocations
    length_symbols := hcount
    positions := fun relocation hmem => by
      have hbelow := UInt32.lt_iff_toNat_lt.mp (h.positions relocation hmem)
      exact Nat.lt_of_lt_of_eq hbelow hcount.symm }

-- The verifier may be run on anything, and what it lets through may be read.
theorem verification_never_faults (bytes : Bytes) :
    Guarded.parse bytes = (parse bytes).mapError .refused ∧
      ∀ image, parse bytes = .ok image → image.bytes = bytes ∧ Sound image := by
  refine ⟨Guarded.parse_eq bytes, ?_⟩
  intro image himage
  obtain ⟨haccepted, rfl⟩ := (parse_eq_ok_iff bytes image).mp himage
  exact ⟨rfl, sound_of_accepted haccepted⟩

theorem sample_never_faults :
    parse sample = .ok ⟨sample, .read sample⟩ ∧ Sound ⟨sample, .read sample⟩ := by
  have hparse : parse sample = .ok ⟨sample, .read sample⟩ :=
    (parse_eq_ok_iff _ _).mpr ⟨accepted_sample, rfl⟩
  exact ⟨hparse, ((verification_never_faults sample).2 _ hparse).2⟩

end Loadable.Image
