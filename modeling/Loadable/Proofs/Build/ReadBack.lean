import Loadable.Proofs.Build.Passes
import Loadable.Proofs.Image.Acceptance
import Loadable.Proofs.Relocation.Encoding
import Loadable.Proofs.Tables

namespace Loadable

open Loadable.Format

namespace Assembler

variable {assembler : Assembler}

-- All sizes of a module are what its parts need, none of them wrapped.
structure WellSized (assembler : Assembler) : Prop where
  layout : assembler.layout.Exact assembler.description assembler.payload.length
    assembler.relocations.length assembler.symbols.length
  bss : assembler.paddedBssLength.toNat = roundUp assembler.bss.length.toNat 8

theorem make_eq_ok {description : Description} {payload : Bytes} {relocations : RelocationTable}
    {symbols : SymbolTable} {bss : BssRegion} {entryPoint : UInt32}
    (h : make description payload relocations symbols bss entryPoint = .ok assembler) :
    assembler.WellSized ∧ assembler.description = description ∧ assembler.payload = payload ∧
      assembler.relocations = relocations ∧ assembler.symbols = symbols := by
  simp only [make, bind_eq_ok_iff, pure_eq_ok_iff, BssRegion.padded_eq_ok_iff] at h
  obtain ⟨layout, hlayout, padded, hpadded, rfl⟩ := h
  exact ⟨⟨Layout.exact_of_compute hlayout, hpadded⟩, rfl, rfl, rfl, rfl⟩

theorem length_symbols_lt (h : assembler.WellSized) :
    assembler.symbols.length < UInt32.size := by
  rw [← h.layout.symbolCount]
  exact assembler.layout.symbolCount.toNat_lt

-- A part with what pads it to a size that is known to hold it.
theorem length_append_padding {content : Bytes} {length padded : UInt32}
    (hlength : length.toNat = content.length) (hle : content.length ≤ padded.toNat) :
    (content ++ Bytes.zeros (padded - length).toNat).length = padded.toNat := by
  have hsub : length ≤ padded := UInt32.le_iff_toNat_le.mpr (by omega)
  rw [List.length_append, Bytes.length_zeros, UInt32.toNat_sub_of_le _ _ hsub]
  omega

theorem length_descriptionRegion (h : assembler.WellSized) :
    assembler.descriptionRegion.length = assembler.layout.paddedDescriptionLength.toNat := by
  apply length_append_padding h.layout.descriptionLength
  rw [h.layout.paddedDescriptionLength]
  exact le_roundUp _ (by decide)

theorem length_payloadRegion (h : assembler.WellSized) :
    assembler.payloadRegion.length = assembler.layout.paddedPayloadLength.toNat := by
  apply length_append_padding h.layout.payloadLength
  rw [h.layout.paddedPayloadLength]
  exact le_roundUp _ (by decide)

theorem exists_padding (h : assembler.WellSized) :
    ∃ padding < 8, assembler.payloadRegion = assembler.payload ++ Bytes.zeros padding := by
  have hlt := roundUp_lt assembler.payload.length (show 0 < 8 by decide)
  have hpadded := h.layout.paddedPayloadLength
  have hlength := length_payloadRegion h
  rw [payloadRegion, List.length_append, Bytes.length_zeros] at hlength
  exact ⟨_, by omega, rfl⟩

theorem length_body (h : assembler.WellSized) :
    assembler.layout.totalSize.toNat = Header.size + assembler.body.length := by
  have hentry := h.layout.entryOffset
  have hrelocations := h.layout.relocationOffset
  have hsymbols := h.layout.symbolOffset
  have htotal := h.layout.totalSize
  have hheader : Header.size = 64 := rfl
  rw [body, List.length_append, List.length_append, List.length_append,
    length_descriptionRegion h, length_payloadRegion h, RelocationTable.length_toBytes,
    SymbolTable.length_toBytes]
  omega

-- The module as it leaves both passes.
def image (assembler : Assembler) : Image :=
  ⟨assembler.finished.toBytes ++ assembler.body, assembler.finished⟩

theorem length_image (h : assembler.WellSized) :
    assembler.finished.totalSize.toNat = assembler.image.bytes.length := by
  rw [image, List.length_append, Header.length_toBytes, ← length_body h]
  rfl

theorem assemble_eq (h : assembler.WellSized) : assembler.assemble = .ok assembler.image.bytes := by
  rw [assemble, assembleWith_eq (length_body h)]
  rfl

-- What the header says of the regions is what was laid out, and the BSS is rounded up too.
theorem aligned_finished (h : assembler.WellSized) : assembler.finished.Aligned := by
  have hlayout := h.layout.aligned
  have hbss : assembler.paddedBssLength.toNat % 8 = 0 := by
    rw [h.bss, roundUp_mod]
  simp only [Layout.alignedFields, List.forall_mem_cons] at hlayout
  obtain ⟨_, hpayload, hentry, hrelocations, hsymbols, htotal, _⟩ := hlayout
  intro field hmem
  rw [mod_alignment_eq_zero_iff]
  simp only [Header.alignedFields, List.mem_cons, List.not_mem_nil, or_false] at hmem
  rcases hmem with rfl | rfl | rfl | rfl | rfl | rfl
  · exact hentry
  · exact hpayload
  · exact hrelocations
  · exact hsymbols
  · exact hbss
  · exact htotal

theorem fits_finished (h : assembler.WellSized) :
    assembler.finished.Fits assembler.image.bytes := by
  have hentry := h.layout.entryOffset
  have hrelocations := h.layout.relocationOffset
  have hrelocationCount := h.layout.relocationCount
  have hsymbols := h.layout.symbolOffset
  have hsymbolCount := h.layout.symbolCount
  have htotal := h.layout.totalSize
  have hlength := length_image h
  have hsize : assembler.finished.totalSize = assembler.layout.totalSize := rfl
  rw [hsize] at hlength
  refine ⟨hlength, ?_, ?_, ?_, ?_⟩
  · show 64 ≤ assembler.layout.entryOffset.toNat
    omega
  · show assembler.layout.entryOffset.toNat + assembler.layout.paddedPayloadLength.toNat ≤ _
    omega
  · show assembler.layout.relocationOffset.toNat +
      16 * assembler.layout.relocationCount.toNat ≤ _
    omega
  · show assembler.layout.symbolOffset.toNat + 16 * assembler.layout.symbolCount.toNat ≤ _
    omega

theorem payload_image (h : assembler.WellSized) :
    assembler.image.payload = assembler.payloadRegion := by
  have hbytes : assembler.image.bytes =
      assembler.finished.toBytes ++ assembler.descriptionRegion ++ assembler.payloadRegion ++
        (assembler.relocations.toBytes ++ assembler.symbols.toBytes) := by
    simp only [image, body, List.append_assoc]
  apply Bytes.slice_of_eq_append hbytes
  · rw [List.length_append, Header.length_toBytes, length_descriptionRegion h]
    exact h.layout.entryOffset
  · exact (length_payloadRegion h).symm

theorem length_before_relocations (h : assembler.WellSized) :
    assembler.layout.relocationOffset.toNat =
      (assembler.finished.toBytes ++ assembler.descriptionRegion ++
        assembler.payloadRegion).length := by
  rw [List.length_append, List.length_append, Header.length_toBytes, length_descriptionRegion h,
    length_payloadRegion h, h.layout.relocationOffset, h.layout.entryOffset]
  rfl

theorem relocations_image (h : assembler.WellSized) :
    assembler.image.relocations = assembler.relocations.entries := by
  have hfits := fits_finished h
  have hbytes : assembler.image.bytes =
      assembler.finished.toBytes ++ assembler.descriptionRegion ++ assembler.payloadRegion ++
        assembler.relocations.toBytes ++ assembler.symbols.toBytes := by
    simp only [image, body, List.append_assoc]
  have hslice : assembler.image.bytes.slice (Image.relocationSpan assembler.finished) =
      assembler.relocations.toBytes := by
    apply Bytes.slice_of_eq_append hbytes (length_before_relocations h)
    rw [RelocationTable.length_toBytes, ← h.layout.relocationCount]
    exact Image.toNat_mul_of_fits hfits.relocations (Image.length_lt_of_fits hfits)
  have htable := Relocation.decode_table assembler.relocations.entries
  rwa [← RelocationTable.toBytes, ← hslice] at htable

theorem symbols_image (h : assembler.WellSized) :
    assembler.image.symbols = assembler.symbols.symbols.map Symbol.record := by
  have hfits := fits_finished h
  have hbytes : assembler.image.bytes =
      assembler.finished.toBytes ++ assembler.descriptionRegion ++ assembler.payloadRegion ++
        assembler.relocations.toBytes ++ assembler.symbols.toBytes ++ [] := by
    simp only [image, body, List.append_assoc, List.append_nil]
  have hslice : assembler.image.bytes.slice (Image.symbolSpan assembler.finished) =
      assembler.symbols.toBytes := by
    apply Bytes.slice_of_eq_append hbytes
    · rw [List.length_append, ← length_before_relocations h, RelocationTable.length_toBytes]
      exact h.layout.symbolOffset
    · rw [SymbolTable.length_toBytes, ← h.layout.symbolCount]
      exact Image.toNat_mul_of_fits hfits.symbols (Image.length_lt_of_fits hfits)
  have htable := SymbolRecord.decode_table (assembler.symbols.symbols.map Symbol.record)
  rwa [List.flatMap_map, ← SymbolTable.toBytes, ← hslice] at htable

-- What both passes write is what the verifier reads, if every relocation refers to a
-- symbol that was kept.
theorem parse_image (h : assembler.WellSized)
    (hpositions : ∀ relocation ∈ assembler.relocations.entries,
      relocation.symbolPosition < assembler.layout.symbolCount) :
    Image.parse assembler.image.bytes = .ok assembler.image := by
  have haccepted : Image.Accepted assembler.image.bytes := by
    apply Image.accepted_toBytes (aligned_finished h) (fits_finished h)
    · intro relocation hmem
      have hentry : relocation ∈ assembler.image.relocations := hmem
      rw [relocations_image h] at hentry
      exact hpositions relocation hentry
    · exact Header.moduleChecksum_stamped _ _
  refine (Image.parse_eq_ok_iff _ _).mpr ⟨haccepted, ?_⟩
  rw [image, Header.read_toBytes]

-- Relocations that were encoded against the symbols of the module do refer to them.
theorem parse_image_of_make {description : Description} {payload : Bytes} {symbols : SymbolTable}
    {log : BuildLog} {candidates : List Candidate} {bss : BssRegion} {entryPoint : UInt32}
    (h : make description payload (RelocationTable.encode symbols log candidates).1 symbols bss
      entryPoint = .ok assembler) :
    Image.parse assembler.image.bytes = .ok assembler.image := by
  obtain ⟨hsized, _, _, hrelocations, rfl⟩ := make_eq_ok h
  apply parse_image hsized
  intro relocation hmem
  rw [hrelocations] at hmem
  rw [UInt32.lt_iff_toNat_lt, hsized.layout.symbolCount]
  exact RelocationTable.position_lt_of_mem_encode (length_symbols_lt hsized) hmem

-- The verifier accepts whatever is assembled, and finds in it what went in.
theorem assembled_module_reads_back (text : String) (payload : Bytes) (symbols : SymbolMap)
    (log : BuildLog) (candidates : List Candidate) (bss : BssRegion) (entryPoint : UInt32)
    (assembler : Assembler)
    (hmake : make (.ofText text) payload
      (RelocationTable.encode (.compact symbols) log candidates).1 (.compact symbols) bss
      entryPoint = .ok assembler) :
    ∃ bytes image, assembler.assemble = .ok bytes ∧ Image.parse bytes = .ok image ∧
      image.header = { assembler.header with
        totalSize := .ofNat bytes.length, crc32 := moduleChecksum bytes } ∧
      image.header.totalSize.toNat = bytes.length ∧
      (∃ padding < 8, image.payload = payload ++ Bytes.zeros padding) ∧
      image.relocations = (RelocationTable.encode (.compact symbols) log candidates).1.entries ∧
      image.symbols = (SymbolTable.compact symbols).symbols.map Symbol.record := by
  obtain ⟨hsized, _, hpayload, hrelocations, hsymbols⟩ := make_eq_ok hmake
  have hlength := length_image hsized
  refine ⟨assembler.image.bytes, assembler.image, assemble_eq hsized, parse_image_of_make hmake,
    ?_, hlength, ?_, ?_, ?_⟩
  · have hchecksum : moduleChecksum assembler.image.bytes = assembler.finished.crc32 :=
      Header.moduleChecksum_stamped _ _
    rw [hchecksum, ← hlength, UInt32.ofNat_toNat]
    rfl
  · rw [payload_image hsized, ← hpayload]
    exact exists_padding hsized
  · rw [relocations_image hsized, hrelocations]
  · rw [symbols_image hsized, hsymbols]

-- One symbol of two is referred to, and one of two relocations refers to nothing.
def sampleSymbols : SymbolMap :=
  .ofList [(5, ⟨0x40, 4, "main", .func, 1, 1⟩), (2, ⟨0x80, 4, "spare", .object, 2, 0⟩)]

def sampleCandidates : List Candidate :=
  [⟨".data", .data, 8, 2, 9⟩, ⟨".text", .text, 4, 10, 5⟩]

theorem sample_reads_back :
    ∃ assembler bytes image,
      make (.ofText "hi") [1, 2, 3]
        (RelocationTable.encode (.compact sampleSymbols) [] sampleCandidates).1
        (.compact sampleSymbols) ⟨0x20000000, 12⟩ 0x08000041 = .ok assembler ∧
      assembler.assemble = .ok bytes ∧ Image.parse bytes = .ok image ∧
      image.relocations = [⟨4, 10, .text, 0⟩] ∧ image.symbols = [⟨0x40, 1, 2⟩] := by
  obtain ⟨assembler, hmake⟩ : ∃ assembler, make (.ofText "hi") [1, 2, 3]
      (RelocationTable.encode (.compact sampleSymbols) [] sampleCandidates).1
      (.compact sampleSymbols) ⟨0x20000000, 12⟩ 0x08000041 = .ok assembler := ⟨_, rfl⟩
  obtain ⟨bytes, image, hassemble, hparse, _, _, _, hrelocations, hsymbols⟩ :=
    assembled_module_reads_back _ _ _ _ _ _ _ _ hmake
  exact ⟨assembler, bytes, image, hmake, hassemble, hparse, hrelocations, hsymbols⟩

end Assembler

end Loadable
