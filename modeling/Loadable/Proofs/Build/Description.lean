import Loadable.Proofs.Build.ReadBack
import Loadable.Proofs.Text.Utf8

namespace Loadable

open Loadable.Format
open Loadable.Text
open Loadable.Text.Utf8 (span spell LongestWithin)

namespace Description

-- The part of a text in front of its first zero character.
def beforeNul (text : String) : List Char := text.toList.takeWhile (· ≠ '\x00')

-- What a module shows of the text it was assembled with.
inductive Shown (text : String) : List Char → Prop
  | whole (h : text.utf8ByteSize ≤ 32 ∨ span (beforeNul text) ≤ 31) :
      Shown text (beforeNul text)
  | cut {fitting : List Char} (htext : 32 < text.utf8ByteSize)
      (hlong : 31 < span (beforeNul text)) (hfitting : LongestWithin 31 (beforeNul text) fitting) :
      Shown text (fitting ++ if span fitting < 31 then [Utf8.replacement] else [])

theorem isTooLong_iff (text : String) : isTooLong text = true ↔ 32 < text.utf8ByteSize := by
  rw [← Utf8.span_toList]
  exact decide_eq_true_iff

-- The terminator is a zero among those that fill the region.
theorem exists_zeros (text : String) :
    ∃ count, (ofText text).bytes = kept text ++ Bytes.zeros count := by
  by_cases hnil : kept text = []
  · exact ⟨0, (if_pos hnil).trans (by rw [hnil]; rfl)⟩
  · exact ⟨1, if_neg hnil⟩

theorem takeWhile_kept (text : String) :
    (kept text).takeWhile (· ≠ 0) =
      if isTooLong text then (spell (beforeNul text)).take 31 else spell (beforeNul text) := by
  have hencoded : (Utf8.encode text).takeWhile (· ≠ 0) = spell (beforeNul text) :=
    Utf8.takeWhile_spell text.toList
  rw [kept]
  split
  · rw [← List.take_takeWhile, hencoded]
    rfl
  · exact hencoded

-- A cut behind the first zero character takes nothing from what is shown.
theorem exists_shown (text : String) :
    ∃ shown, Shown text shown ∧
      Utf8.decodeLossy ((kept text).takeWhile (· ≠ 0)) = String.ofList shown := by
  rw [takeWhile_kept]
  split
  next htoo =>
    rw [isTooLong_iff] at htoo
    by_cases hlong : 31 < span (beforeNul text)
    · exact ⟨_, .cut htoo hlong (Utf8.longestWithin_wholeWithin 31 _),
        Utf8.decodeLossy_take_spell hlong⟩
    · have hfits : span (beforeNul text) ≤ 31 := Nat.le_of_not_lt hlong
      rw [List.take_of_length_le hfits, Utf8.decodeLossy_spell]
      exact ⟨_, .whole (.inr hfits), rfl⟩
  next hshort =>
    rw [isTooLong_iff, Nat.not_lt] at hshort
    exact ⟨_, .whole (.inl hshort), Utf8.decodeLossy_spell _⟩

theorem length_kept (text : String) :
    (kept text).length = if text.utf8ByteSize ≤ 32 then text.utf8ByteSize else 31 := by
  have hlength : (Utf8.encode text).length = text.utf8ByteSize := Utf8.span_toList text
  rw [kept]
  split
  next htoo =>
    rw [isTooLong_iff] at htoo
    rw [if_neg (Nat.not_le_of_lt htoo), List.length_take, hlength]
    exact Nat.min_eq_left (Nat.le_of_lt (Nat.lt_of_succ_lt htoo))
  next hshort =>
    rw [isTooLong_iff, Nat.not_lt] at hshort
    rw [if_pos hshort, hlength]

theorem kept_eq_nil_iff (text : String) : kept text = [] ↔ text = "" := by
  rw [← List.length_eq_zero_iff, length_kept, ← String.utf8ByteSize_eq_zero_iff]
  split <;> omega

-- The bytes of a text and its terminator.
theorem length_ofText (text : String) :
    (ofText text).bytes.length =
      if text = "" then 0 else if text.utf8ByteSize ≤ 32 then text.utf8ByteSize + 1 else 32 := by
  rw [ofText]
  simp only [kept_eq_nil_iff]
  split
  · rfl
  · rw [List.length_append, length_kept]
    split <;> rfl

-- One warning for a text that is cut, and no other step of a build gives one like it.
theorem countP_isTooLong (text : String) (table : SymbolTable) (log : BuildLog)
    (candidates : List Candidate) :
    (RelocationTable.encode table (log ++ warnings text) candidates).2.countP
        Diagnostic.isTooLong =
      log.countP Diagnostic.isTooLong + if 32 < text.utf8ByteSize then 1 else 0 := by
  have hdangling : ∀ candidates : List Candidate,
      (candidates.map Candidate.dangling).countP Diagnostic.isTooLong = 0 := by
    intro candidates
    rw [List.countP_map]
    exact List.countP_eq_zero.mpr fun _ _ => Bool.false_ne_true
  rw [RelocationTable.log_encode, List.countP_append, List.countP_append, hdangling, Nat.add_zero,
    warnings]
  congr 1
  simp only [isTooLong_iff]
  split <;> rfl

end Description

namespace Assembler

variable {assembler : Assembler}

-- The terminator is looked for in the whole region, the padding included.
theorem description_image (h : assembler.WellSized) :
    assembler.image.description =
      Utf8.decodeLossy (assembler.description.bytes.takeWhile (· ≠ 0)) := by
  have hbytes : assembler.image.bytes =
      assembler.finished.toBytes ++ assembler.descriptionRegion ++
        (assembler.payloadRegion ++ assembler.relocations.toBytes ++
          assembler.symbols.toBytes) := by
    simp only [image, body, List.append_assoc]
  have hlength : assembler.layout.entryOffset.toNat - 64 = assembler.descriptionRegion.length := by
    rw [length_descriptionRegion h, h.layout.entryOffset, Nat.add_sub_cancel_left]
  have hslice : assembler.image.bytes.slice (Image.descriptionSpan assembler.finished) =
      assembler.descriptionRegion :=
    Bytes.slice_of_eq_append hbytes (Header.length_toBytes _).symm hlength
  have hfilled := Bytes.takeWhile_append_zeros assembler.description.bytes
    (assembler.layout.paddedDescriptionLength - assembler.layout.descriptionLength).toNat
  rw [← descriptionRegion, ← hslice] at hfilled
  exact congrArg Utf8.decodeLossy hfilled

theorem exists_shown_image {text : String} (h : assembler.WellSized)
    (htext : assembler.description = .ofText text) :
    ∃ shown, Description.Shown text shown ∧
      assembler.image.description = String.ofList shown := by
  obtain ⟨count, hbytes⟩ := Description.exists_zeros text
  rw [description_image h, htext, hbytes, Bytes.takeWhile_append_zeros]
  exact Description.exists_shown text

theorem entryOffset_of_text {text : String} (h : assembler.WellSized)
    (htext : assembler.description = .ofText text) :
    assembler.layout.entryOffset.toNat =
      if text = "" then 64
      else 64 + roundUp (if text.utf8ByteSize ≤ 32 then text.utf8ByteSize + 1 else 32) 8 := by
  rw [h.layout.entryOffset, h.layout.paddedDescriptionLength, htext, Description.length_ofText]
  split <;> rfl

-- A description comes back as it was up to its first zero character, unless it is cut, and
-- then without the rest of a character that the cut divides.
theorem description_reads_back (text : String) (payload : Bytes) (relocations : RelocationTable)
    (symbols : SymbolTable) (bss : BssRegion) (entryPoint : UInt32) (assembler : Assembler)
    (hmake : make (.ofText text) payload relocations symbols bss entryPoint = .ok assembler) :
    ∃ bytes, assembler.assemble = .ok bytes ∧
      ((∀ relocation ∈ relocations.entries, relocation.symbolPosition.toNat < symbols.length) →
        ∃ image, Image.parse bytes = .ok image) ∧
      (∀ image, Image.parse bytes = .ok image →
        (∃ shown, Description.Shown text shown ∧ image.description = String.ofList shown) ∧
        image.header.entryOffset.toNat =
          (if text = "" then 64
          else 64 + roundUp (if text.utf8ByteSize ≤ 32 then text.utf8ByteSize + 1 else 32) 8) ∧
        image.header.entryOffset.toNat ≤ 104) ∧
      ∀ (table : SymbolTable) (log : BuildLog) (candidates : List Candidate),
        (RelocationTable.encode table (log ++ Description.warnings text) candidates).2.countP
            Diagnostic.isTooLong =
          log.countP Diagnostic.isTooLong + if 32 < text.utf8ByteSize then 1 else 0 := by
  obtain ⟨hsized, htext, _, hrelocations, hsymbols⟩ := make_eq_ok hmake
  refine ⟨assembler.image.bytes, assemble_eq hsized, ?_, ?_, Description.countP_isTooLong text⟩
  · intro hpositions
    refine ⟨assembler.image, parse_image hsized ?_⟩
    intro relocation hmem
    rw [UInt32.lt_iff_toNat_lt, hsized.layout.symbolCount, hsymbols]
    exact hpositions relocation (hrelocations ▸ hmem)
  · intro image hparse
    have himage : image = assembler.image := by
      rw [((Image.parse_eq_ok_iff _ _).mp hparse).2, Assembler.image, Header.read_toBytes]
    subst himage
    have hentry := entryOffset_of_text hsized htext
    refine ⟨exists_shown_image hsized htext, hentry, ?_⟩
    show assembler.layout.entryOffset.toNat ≤ 104
    have hlayout := hsized.layout.entryOffset
    have hpadded := hsized.layout.paddedDescriptionLength
    have hlength := assembler.description.length_le
    have hlt := roundUp_lt assembler.description.bytes.length (show 0 < 8 by decide)
    omega

-- The cut falls behind the first of three bytes.
def sampleText : String := "aaaaaaaaaaaaaaaaaaaaaaaaaaaaaa€ and more"

theorem sample_description_reads_back :
    ∃ assembler bytes image,
      make (.ofText sampleText) [1, 2, 3] {} {} {} 0 = .ok assembler ∧
      assembler.assemble = .ok bytes ∧ Image.parse bytes = .ok image ∧
      image.description = "aaaaaaaaaaaaaaaaaaaaaaaaaaaaaa\uFFFD" ∧
      image.header.entryOffset.toNat = 96 := by
  obtain ⟨assembler, hmake⟩ : ∃ assembler,
      make (.ofText sampleText) [1, 2, 3] {} {} {} 0 = .ok assembler := ⟨_, rfl⟩
  obtain ⟨bytes, hassemble, haccepted, hread, _⟩ :=
    description_reads_back sampleText _ _ _ _ _ assembler hmake
  obtain ⟨image, hparse⟩ := haccepted (fun _ hmem => absurd hmem List.not_mem_nil)
  obtain ⟨⟨shown, hshown, hdescription⟩, hentry, _⟩ := hread image hparse
  refine ⟨assembler, bytes, image, hmake, hassemble, hparse, ?_, hentry⟩
  rw [hdescription]
  cases hshown with
  | whole hfits => exact absurd hfits (by decide)
  | cut _ _ hfitting =>
      rw [hfitting.eq (Utf8.longestWithin_wholeWithin 31 _)]
      rfl

end Assembler

end Loadable
