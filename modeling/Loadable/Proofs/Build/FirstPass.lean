import Loadable.Proofs.Build.ReadBack

namespace Loadable

open Loadable.Format

namespace Stream

-- A fixed stream takes what fits and keeps the rest of what it held.
theorem take_fixed (array bytes : Bytes) :
    let taken := min array.length bytes.length
    (fixed array).take bytes = ⟨bytes.take taken ++ array.drop taken, taken, false⟩ := by
  intro taken
  have hroom : (fixed array).room bytes.length = taken := Nat.min_comm _ _
  refine eq_of_fields ?_ ?_ (growable_take _ _)
  · rw [content_take, hroom]
    split
    next hnone => rw [hnone, List.take_zero, List.nil_append, List.drop_zero]; rfl
    next =>
      have hlength : (bytes.take taken).length = taken := by
        rw [List.length_take]
        omega
      show array.overwrite 0 (bytes.take taken) = _
      rw [Bytes.overwrite, hlength, Nat.zero_add, Nat.zero_sub]
      rfl
  · rw [position_take, hroom]
    exact Nat.zero_add taken

end Stream

namespace Assembler

variable {assembler : Assembler}

-- The module as it stands between the passes, without its total size and its checksum.
-- Description and payload are followed by zeros up to where the next region may start.
def unfinished (assembler : Assembler) : Bytes :=
  let filled (content : Bytes) :=
    content ++ Bytes.zeros (roundUp content.length 8 - content.length)
  { assembler.header with crc32 := 0, totalSize := 0 }.toBytes ++
    filled assembler.description.bytes ++ filled assembler.payload ++
    assembler.relocations.toBytes ++ assembler.symbols.toBytes

-- The zeros that were laid out are the ones that are missing.
theorem unfinished_eq (h : assembler.WellSized) :
    assembler.unfinished = assembler.header.toBytes ++ assembler.body := by
  have hpadding : ∀ {content : Bytes} {length padded : UInt32}, length.toNat = content.length →
      padded.toNat = roundUp content.length 8 →
      (padded - length).toNat = roundUp content.length 8 - content.length := by
    intro content length padded hlength hpadded
    have hle := le_roundUp content.length (show 0 < 8 by decide)
    rw [UInt32.toNat_sub_of_le, hlength, hpadded]
    rw [UInt32.le_iff_toNat_le, hlength, hpadded]
    exact hle
  have hdescription := hpadding h.layout.descriptionLength h.layout.paddedDescriptionLength
  have hpayload := hpadding h.layout.payloadLength h.layout.paddedPayloadLength
  simp only [body, descriptionRegion, payloadRegion, hdescription, hpayload, unfinished,
    List.append_assoc]
  rfl

theorem length_unfinished (h : assembler.WellSized) :
    assembler.unfinished.length = assembler.layout.totalSize.toNat := by
  rw [unfinished_eq h, length_body h, List.length_append, Header.length_toBytes]

-- Behind the start of a stream the header is all that is ever written.
theorem run_writeSections_of_behind (assembler : Assembler) {stream : Stream}
    (h : 0 < stream.position) :
    let written := stream.room Header.size
    ∃ after, stream.Took assembler.header.toBytes written after ∧
      assembler.writeSections.run stream =
        .error (if written = Header.size then
            .headerSizeMismatch Header.size (stream.position + Header.size)
          else .io "failed to write whole buffer") after := by
  intro written
  have hheader : assembler.header.toBytes.length = Header.size := assembler.header.length_toBytes
  have hsome : assembler.header.toBytes ≠ [] :=
    List.ne_nil_of_length_pos (by rw [hheader]; decide)
  have hle := stream.room_le Header.size
  refine ⟨_, hheader ▸ stream.took_take hsome, ?_⟩
  rw [run_writeSections_eq]
  by_cases hroom : stream.room Header.size < Header.size
  · rw [if_pos hroom, if_neg (by omega)]
  · rw [if_neg hroom, if_pos (by omega), if_pos (by omega)]

-- The first pass over any stream. From the start it writes the whole module or, where that
-- does not fit, as much of it as does. From anywhere else it gets no further than the header.
theorem first_pass_on_any_stream (description : Description) (payload : Bytes)
    (relocations : RelocationTable) (symbols : SymbolTable) (bss : BssRegion)
    (entryPoint : UInt32) (assembler : Assembler)
    (hmake : make description payload relocations symbols bss entryPoint = .ok assembler) :
    let image := assembler.unfinished
    image.length = assembler.layout.totalSize.toNat ∧
      assembler.writeSections.run {} = .ok image.length ⟨image, image.length, true⟩ ∧
      (∀ array : Bytes,
        let written := min array.length image.length
        let after : Stream := ⟨image.take written ++ array.drop written, written, false⟩
        assembler.writeSections.run (.fixed array) =
          if image.length ≤ array.length then .ok image.length after
          else .error (.io "failed to write whole buffer") after) ∧
      ∀ stream : Stream, 0 < stream.position →
        let written := if stream.growable then 64
          else min 64 (stream.content.length - stream.position)
        ∃ after, stream.Took assembler.header.toBytes written after ∧
          assembler.writeSections.run stream =
            .error (if written = 64 then .headerSizeMismatch 64 (stream.position + 64)
              else .io "failed to write whole buffer") after := by
  intro image
  obtain ⟨hsized, _⟩ := make_eq_ok hmake
  have himage : image = assembler.header.toBytes ++ assembler.body := unfinished_eq hsized
  refine ⟨length_unfinished hsized, ?_, fun array => ?_, fun stream hbehind => ?_⟩
  · rw [run_writeSections, ← himage]
    rfl
  · intro written after
    have hafter : (Stream.fixed array).take image = after := Stream.take_fixed array image
    have hroom : (Stream.fixed array).room image.length = min image.length array.length := rfl
    rw [run_writeSections_of_start assembler rfl, ← himage, hafter]
    by_cases hfits : image.length ≤ array.length
    · rw [if_neg (by omega), if_pos hfits]
    · rw [if_pos (by omega), if_neg hfits]
  · exact run_writeSections_of_behind assembler hbehind

-- A buffer that ends within the third word of the header, and one in which the header starts
-- behind a gap and does not end.
theorem sample_first_pass :
    ∃ assembler : Assembler,
      make (.ofText "hi") [1, 2, 3] ⟨[⟨4, 2, .text, 7⟩]⟩ {} ⟨0x20000000, 12⟩ 0x41 =
        .ok assembler ∧
      assembler.unfinished.length = 96 ∧
      assembler.writeSections.run (.fixed (Bytes.zeros 10)) =
        .error (.io "failed to write whole buffer")
          ⟨assembler.unfinished.take 10, 10, false⟩ ∧
      (∃ after, assembler.writeSections.run { position := 8 } =
        .error (.headerSizeMismatch 64 72) after ∧ after.content[3]? = some 0) ∧
      ∃ after, assembler.writeSections.run ⟨Bytes.zeros 20, 8, false⟩ =
        .error (.io "failed to write whole buffer") after ∧ after.position = 20 := by
  obtain ⟨assembler, hmake, htotal⟩ : ∃ assembler,
      make (.ofText "hi") [1, 2, 3] ⟨[⟨4, 2, .text, 7⟩]⟩ {} ⟨0x20000000, 12⟩ 0x41 =
        .ok assembler ∧ assembler.layout.totalSize.toNat = 96 := ⟨_, rfl, rfl⟩
  obtain ⟨hlength, _, hfixed, hbehind⟩ := first_pass_on_any_stream _ _ _ _ _ _ assembler hmake
  rw [htotal] at hlength
  obtain ⟨grown, hgrown, hmismatch⟩ := hbehind { position := 8 } (by decide)
  obtain ⟨full, hfull, hio⟩ := hbehind ⟨Bytes.zeros 20, 8, false⟩ (by decide)
  have harray := hfixed (Bytes.zeros 10)
  simp only [hlength] at harray
  exact ⟨assembler, hmake, hlength, harray, ⟨grown, hmismatch, hgrown.content 3⟩, full, hio,
    hfull.position⟩

end Assembler

end Loadable
