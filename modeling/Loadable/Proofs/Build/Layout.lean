import Loadable.Build.Assembler
import Loadable.Proofs.Alignment
import Loadable.Proofs.Check

namespace Loadable

@[simp] theorem narrow_eq_ok_iff (what : String) (value : Nat) (word : UInt32) :
    narrow what value = .ok word ↔ word.toNat = value := by
  unfold narrow
  split
  next hlt =>
    simp only [Except.ok.injEq]
    constructor
    · rintro rfl
      exact UInt32.toNat_ofNat_of_lt' hlt
    · rintro rfl
      exact UInt32.ofNat_toNat
  next hge =>
    simp only [reduceCtorEq, false_iff]
    intro heq
    exact hge (heq ▸ word.toNat_lt)

-- What is wrong with a number that has to fit a word.
def excess (what : String) (value : Nat) : Option BuildError :=
  if value < UInt32.size then none else some (.valueOutOfRange what value)

theorem excess_eq_none_iff (what : String) (value : Nat) :
    excess what value = none ↔ value < UInt32.size := by
  unfold excess
  split <;> simp_all

theorem excess_eq_some_iff (what : String) (value : Nat) (error : BuildError) :
    excess what value = some error ↔
      UInt32.size ≤ value ∧ error = .valueOutOfRange what value := by
  unfold excess
  split <;> simp_all [eq_comm]

theorem failure?_narrow (what : String) (value : Nat) :
    failure? (narrow what value) = excess what value := by
  unfold narrow excess
  split <;> rfl

namespace Description

theorem toNat_length (description : Description) :
    description.length.toNat = description.bytes.length := by
  have hle := description.length_le
  exact UInt32.toNat_ofNat_of_lt' (hle.trans_lt (by decide))

theorem toNat_paddedLength (description : Description) :
    description.paddedLength.toNat = roundUp description.bytes.length 8 := by
  have hle := description.length_le
  have hsize : UInt32.size = 2 ^ 32 := rfl
  have halign : alignment.toNat = 2 ^ 3 := rfl
  rw [paddedLength, toNat_alignUp halign, toNat_length]
  · rfl
  · rw [toNat_length, halign]
    omega

end Description

theorem BssRegion.padded_eq_ok_iff (bss : BssRegion) (padded : UInt32) :
    bss.padded = .ok padded ↔ padded.toNat = roundUp bss.length.toNat 8 := by
  rw [BssRegion.padded, narrow_eq_ok_iff, toNat_pad64]

namespace Layout

-- The layout of a module in exact numbers: nothing in it has wrapped.
structure Exact (description : Description) (payload relocations symbols : Nat)
    (layout : Layout) : Prop where
  descriptionLength : layout.descriptionLength.toNat = description.bytes.length
  paddedDescriptionLength :
    layout.paddedDescriptionLength.toNat = roundUp description.bytes.length 8
  payloadLength : layout.payloadLength.toNat = payload
  paddedPayloadLength : layout.paddedPayloadLength.toNat = roundUp payload 8
  entryOffset : layout.entryOffset.toNat = 64 + layout.paddedDescriptionLength.toNat
  relocationOffset :
    layout.relocationOffset.toNat = layout.entryOffset.toNat + layout.paddedPayloadLength.toNat
  relocationCount : layout.relocationCount.toNat = relocations
  symbolOffset : layout.symbolOffset.toNat = layout.relocationOffset.toNat + 16 * relocations
  symbolCount : layout.symbolCount.toNat = symbols
  totalSize : layout.totalSize.toNat = layout.symbolOffset.toNat + 16 * symbols

-- The size of a module, whether it fits a word or not.
def exactSize (description : Description) (payload relocations symbols : Nat) : Nat :=
  64 + roundUp description.bytes.length 8 + roundUp payload 8 + 16 * relocations + 16 * symbols

-- Everything in a layout that says where a region starts or how much room it takes.
def alignedFields (layout : Layout) : List UInt32 :=
  [layout.paddedDescriptionLength, layout.paddedPayloadLength, layout.entryOffset,
    layout.relocationOffset, layout.symbolOffset, layout.totalSize]

namespace Exact

variable {description : Description} {payload relocations symbols : Nat} {layout : Layout}

theorem totalSize_eq (h : layout.Exact description payload relocations symbols) :
    layout.totalSize.toNat = exactSize description payload relocations symbols := by
  rw [h.totalSize, h.symbolOffset, h.relocationOffset, h.entryOffset, h.paddedDescriptionLength,
    h.paddedPayloadLength, exactSize]

-- Every size and offset is a sum of rounded ones and of whole records.
theorem aligned (h : layout.Exact description payload relocations symbols) :
    ∀ field ∈ layout.alignedFields, field.toNat % 8 = 0 := by
  have hentry := h.entryOffset
  have hrelocations := h.relocationOffset
  have hsymbols := h.symbolOffset
  have htotal := h.totalSize
  have hdescription : layout.paddedDescriptionLength.toNat % 8 = 0 := by
    rw [h.paddedDescriptionLength, roundUp_mod]
  have hpayload : layout.paddedPayloadLength.toNat % 8 = 0 := by
    rw [h.paddedPayloadLength, roundUp_mod]
  intro field hmem
  simp only [alignedFields, List.mem_cons, List.not_mem_nil, or_false] at hmem
  rcases hmem with rfl | rfl | rfl | rfl | rfl | rfl <;> omega

end Exact

theorem toNat_relocationStart (entryOffset paddedPayloadLength : UInt32) :
    (relocationStart entryOffset paddedPayloadLength).toNat =
      entryOffset.toNat + paddedPayloadLength.toNat := by
  have hentry := entryOffset.toNat_lt
  have hpayload := paddedPayloadLength.toNat_lt
  rw [relocationStart, UInt64.toNat_add, UInt32.toNat_toUInt64, UInt32.toNat_toUInt64]
  omega

-- A table behind a start below 2 ^ 40 ends where it should.
theorem toNat_add_records {start : UInt64} (h : start.toNat < 2 ^ 40) (count : UInt32) :
    (start + 16 * count.toUInt64).toNat = start.toNat + 16 * count.toNat := by
  have hcount := count.toNat_lt
  have hsixteen : (16 : UInt64).toNat = 16 := rfl
  rw [UInt64.toNat_add, UInt64.toNat_mul, UInt32.toNat_toUInt64, hsixteen]
  omega

theorem toNat_symbolStart (entryOffset paddedPayloadLength relocationCount : UInt32) :
    (symbolStart (relocationStart entryOffset paddedPayloadLength) relocationCount).toNat =
      entryOffset.toNat + paddedPayloadLength.toNat + 16 * relocationCount.toNat := by
  have hentry := entryOffset.toNat_lt
  have hpayload := paddedPayloadLength.toNat_lt
  have hstart := toNat_relocationStart entryOffset paddedPayloadLength
  rw [symbolStart, toNat_add_records (by omega), hstart]

theorem toNat_moduleEnd (entryOffset paddedPayloadLength relocationCount symbolCount : UInt32) :
    (moduleEnd (symbolStart (relocationStart entryOffset paddedPayloadLength) relocationCount)
        symbolCount).toNat =
      entryOffset.toNat + paddedPayloadLength.toNat + 16 * relocationCount.toNat +
        16 * symbolCount.toNat := by
  have hentry := entryOffset.toNat_lt
  have hpayload := paddedPayloadLength.toNat_lt
  have hrelocations := relocationCount.toNat_lt
  have hstart := toNat_symbolStart entryOffset paddedPayloadLength relocationCount
  rw [moduleEnd, toNat_add_records (by omega), hstart]

theorem toNat_entryOffset (description : Description) :
    (64 + description.paddedLength).toNat = 64 + description.paddedLength.toNat := by
  have hle := description.length_le
  have hlt : roundUp description.bytes.length 8 < _ := roundUp_lt _ (by decide)
  have hheader : (64 : UInt32).toNat = 64 := rfl
  rw [UInt32.toNat_add, description.toNat_paddedLength, hheader]
  omega

theorem exact_of_compute {description : Description} {payload relocations symbols : Nat}
    {layout : Layout} (h : compute description payload relocations symbols = .ok layout) :
    layout.Exact description payload relocations symbols := by
  simp only [compute, bind_eq_ok_iff, narrow_eq_ok_iff, pure_eq_ok_iff] at h
  obtain ⟨payloadLength, rfl, relocationCount, rfl, symbolCount, rfl, paddedLength, hpadded,
    relocationOffset, hrelocations, symbolOffset, hsymbols, totalSize, htotal, rfl⟩ := h
  rw [toNat_relocationStart] at hrelocations
  rw [toNat_symbolStart, ← hrelocations] at hsymbols
  rw [toNat_moduleEnd, ← hrelocations, ← hsymbols] at htotal
  exact {
    descriptionLength := description.toNat_length
    paddedDescriptionLength := description.toNat_paddedLength
    payloadLength := rfl
    paddedPayloadLength := hpadded.trans (toNat_pad64 payloadLength)
    entryOffset := toNat_entryOffset description
    relocationOffset := hrelocations
    relocationCount := rfl
    symbolOffset := hsymbols
    symbolCount := rfl
    totalSize := htotal }

end Layout

end Loadable
