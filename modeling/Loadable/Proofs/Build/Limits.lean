import Loadable.Proofs.Build.ReadBack
import Loadable.Proofs.Image.Safety

namespace Loadable

section Narrowed

variable {α : Type} {answer : α} {quantities : List (String × Nat)}

-- What a run of range checks comes to: the first quantity that does not fit a word, or the
-- answer.
def narrowed (quantities : List (String × Nat)) (answer : α) : Except BuildError α :=
  match quantities.find? fun quantity => UInt32.size ≤ quantity.2 with
  | some (what, value) => .error (.valueOutOfRange what value)
  | none => .ok answer

theorem narrow_bind {what : String} {value : Nat} {next : UInt32 → Except BuildError α}
    (h : value < UInt32.size → next (.ofNat value) = narrowed quantities answer) :
    (narrow what value >>= next) = narrowed ((what, value) :: quantities) answer := by
  unfold narrow
  split
  next hlt =>
    rw [ok_bind, h hlt, narrowed, narrowed, List.find?_cons_of_neg (by simpa using hlt)]
  next hge =>
    rw [error_bind, narrowed, List.find?_cons_of_pos (by simpa using hge)]

theorem failure?_narrowed :
    failure? (narrowed quantities answer) =
      firstError (quantities.map fun quantity => excess quantity.1 quantity.2) := by
  induction quantities with
  | nil => rfl
  | cons quantity rest ih =>
      have hstep : (narrow quantity.1 quantity.2 >>= fun _ => narrowed rest answer) =
          narrowed (quantity :: rest) answer := narrow_bind fun _ => rfl
      rw [← hstep, failure?_bind fun _ _ => ih, failure?_narrow, List.map_cons, firstError_cons]

theorem isOk_narrowed_iff :
    (narrowed quantities answer).isOk ↔ ∀ quantity ∈ quantities, quantity.2 < UInt32.size := by
  rw [← failure?_eq_none_iff, failure?_narrowed, firstError_map_eq_none_iff]
  simp only [excess_eq_none_iff]

theorem narrowed_eq_error_iff (error : BuildError) :
    narrowed quantities answer = .error error ↔
      ∃ before what value after, quantities = before ++ (what, value) :: after ∧
        (∀ earlier ∈ before, earlier.2 < UInt32.size) ∧ UInt32.size ≤ value ∧
        error = .valueOutOfRange what value := by
  rw [← failure?_eq_some_iff, failure?_narrowed, firstError_map_eq_some_iff]
  simp only [Prod.exists, excess_eq_none_iff, excess_eq_some_iff]

end Narrowed

namespace Layout

-- What has to fit a word, in the order in which it is looked at.
def quantities (description : Description) (payload relocations symbols : Nat) :
    List (String × Nat) :=
  let entry := 64 + roundUp description.bytes.length 8
  let relocationTable := entry + roundUp payload 8
  let symbolTable := relocationTable + 16 * relocations
  [("payload length", payload), ("relocation count", relocations), ("symbol count", symbols),
    ("padded payload length", roundUp payload 8), ("relocation table offset", relocationTable),
    ("symbol table offset", symbolTable), ("module size", symbolTable + 16 * symbols)]

variable (description : Description) (payload relocations symbols : Nat)

-- The layout that results where all of them do.
def ofSizes : Layout where
  descriptionLength := description.length
  paddedDescriptionLength := description.paddedLength
  payloadLength := .ofNat payload
  paddedPayloadLength := .ofNat (roundUp payload 8)
  entryOffset := 64 + description.paddedLength
  relocationOffset := .ofNat (64 + roundUp description.bytes.length 8 + roundUp payload 8)
  relocationCount := .ofNat relocations
  symbolOffset :=
    .ofNat (64 + roundUp description.bytes.length 8 + roundUp payload 8 + 16 * relocations)
  symbolCount := .ofNat symbols
  totalSize := .ofNat (exactSize description payload relocations symbols)

theorem compute_eq :
    compute description payload relocations symbols =
      narrowed (quantities description payload relocations symbols)
        (ofSizes description payload relocations symbols) := by
  refine narrow_bind fun hpayload => narrow_bind fun hrelocations => narrow_bind fun hsymbols => ?_
  rw [toNat_pad64, UInt32.toNat_ofNat_of_lt' hpayload]
  refine narrow_bind fun hpadded => ?_
  simp only [toNat_relocationStart, toNat_symbolStart, toNat_moduleEnd, toNat_entryOffset,
    description.toNat_paddedLength, UInt32.toNat_ofNat_of_lt' hpadded,
    UInt32.toNat_ofNat_of_lt' hrelocations, UInt32.toNat_ofNat_of_lt' hsymbols]
  exact narrow_bind fun _ => narrow_bind fun _ => narrow_bind fun _ => rfl

-- All the quantities fit if the last of them does.
theorem forall_quantities_lt_iff :
    (∀ quantity ∈ quantities description payload relocations symbols, quantity.2 < UInt32.size) ↔
      exactSize description payload relocations symbols < UInt32.size := by
  have hle := le_roundUp payload (show 0 < 8 by decide)
  simp only [quantities, List.forall_mem_cons, exactSize]
  constructor
  · rintro ⟨_, _, _, _, _, _, htotal, _⟩
    exact htotal
  · intro htotal
    refine ⟨?_, ?_, ?_, ?_, ?_, ?_, htotal, by simp⟩ <;> omega

-- The computation once more, with every sum, difference and product guarded against a word
-- that is not the exact number.
namespace Guarded

open Loadable.Guarded

-- Where a table ends.
def tableEnd (start : UInt64) (count : UInt32) : Run BuildError UInt64 := do
  let size ← product64 16 count.toUInt64
  sum64 start size

def compute (description : Description) (payloadLength relocationCount symbolCount : Nat) :
    Run BuildError Layout := do
  let payloadLength ← refuse (narrow "payload length" payloadLength)
  let relocationCount ← refuse (narrow "relocation count" relocationCount)
  let symbolCount ← refuse (narrow "symbol count" symbolCount)
  let paddedLength ← Guarded.alignUp description.length alignment
  let padded ← Guarded.alignUp64 payloadLength.toUInt64 alignment.toUInt64
  let paddedPayloadLength ← refuse (narrow "padded payload length" padded.toNat)
  let entryOffset ← exactly UInt32.toNat (64 + paddedLength.toNat) (64 + paddedLength)
  let relocations ← sum64 entryOffset.toUInt64 paddedPayloadLength.toUInt64
  let symbols ← tableEnd relocations relocationCount
  let moduleEnd ← tableEnd symbols symbolCount
  let relocationOffset ← refuse (narrow "relocation table offset" relocations.toNat)
  let symbolOffset ← refuse (narrow "symbol table offset" symbols.toNat)
  let totalSize ← refuse (narrow "module size" moduleEnd.toNat)
  return {
    descriptionLength := description.length
    paddedDescriptionLength := paddedLength
    payloadLength
    paddedPayloadLength
    entryOffset
    relocationOffset
    relocationCount
    symbolOffset
    symbolCount
    totalSize
  }

theorem tableEnd_eq_ok {start : UInt64} (h : start.toNat < 2 ^ 40) (count : UInt32) :
    tableEnd start count = .ok (start + 16 * count.toUInt64) := by
  have hcount := count.toNat_lt
  have hlong : UInt64.size = 2 ^ 64 := rfl
  have hsize := toNat_sixteen_mul count
  rw [tableEnd, product64_sixteen, ok_bind, sum64_eq_ok (by omega)]

-- No size is too large for this: each sum starts from words that were already checked.
theorem compute_eq :
    compute description payload relocations symbols =
      refuse (Layout.compute description payload relocations symbols) := by
  have hword : UInt32.size = 2 ^ 32 := rfl
  have hlong : UInt64.size = 2 ^ 64 := rfl
  have halign : alignment.toNat = 8 := rfl
  have halign64 : alignment.toUInt64.toNat = 8 := rfl
  have hdescription : (Guarded.alignUp description.length alignment : Run BuildError UInt32) =
      .ok description.paddedLength := by
    have hle := description.length_le
    refine (alignUp_eq_ok_iff _ _ _).mpr ⟨by decide, ?_, rfl⟩
    rw [description.toNat_length]
    omega
  have hentry :
      (exactly UInt32.toNat (64 + description.paddedLength.toNat) (64 + description.paddedLength) :
        Run BuildError UInt32) = .ok (64 + description.paddedLength) := by
    apply exactly_eq_ok
    rw [toNat_entryOffset]
    rfl
  simp only [compute, Layout.compute, refuse, mapError_bind]
  refine bind_congr_of_ok fun payloadLength _ => ?_
  refine bind_congr_of_ok fun relocationCount _ => ?_
  refine bind_congr_of_ok fun symbolCount _ => ?_
  have hpadded : (Guarded.alignUp64 payloadLength.toUInt64 alignment.toUInt64 : Run BuildError UInt64) =
      .ok (pad64 payloadLength.toUInt64) := by
    have hlt := payloadLength.toNat_lt
    refine (alignUp64_eq_ok_iff _ _ _).mpr ⟨by decide, ?_, rfl⟩
    rw [UInt32.toNat_toUInt64]
    omega
  rw [hdescription, ok_bind, hpadded, ok_bind]
  refine bind_congr_of_ok fun paddedPayloadLength _ => ?_
  have hentrylt := (64 + description.paddedLength).toNat_lt
  have hpayloadlt := paddedPayloadLength.toNat_lt
  have hcountlt := relocationCount.toNat_lt
  have hstart := toNat_relocationStart (64 + description.paddedLength) paddedPayloadLength
  have hmiddle :=
    toNat_symbolStart (64 + description.paddedLength) paddedPayloadLength relocationCount
  have hrelocations :
      (sum64 (64 + description.paddedLength).toUInt64 paddedPayloadLength.toUInt64 :
        Run BuildError UInt64) =
      .ok (relocationStart (64 + description.paddedLength) paddedPayloadLength) := by
    apply sum64_eq_ok
    rw [UInt32.toNat_toUInt64, UInt32.toNat_toUInt64]
    omega
  rw [hentry, ok_bind, hrelocations, ok_bind, tableEnd_eq_ok (by omega), ok_bind, ← symbolStart,
    tableEnd_eq_ok (by omega), ok_bind]
  rfl

end Guarded

end Layout

namespace Assembler

theorem isOk_make_iff (description : Description) (payload : Bytes)
    (relocations : RelocationTable) (symbols : SymbolTable) (bss : BssRegion)
    (entryPoint : UInt32) :
    (make description payload relocations symbols bss entryPoint).isOk ↔
      (Layout.compute description payload.length relocations.length symbols.length).isOk ∧
        roundUp bss.length.toNat 8 < UInt32.size := by
  rw [make, BssRegion.padded, narrow, toNat_pad64]
  cases Layout.compute description payload.length relocations.length symbols.length with
  | error error => simp [Except.isOk, Except.toBool]
  | ok layout =>
      rw [ok_bind]
      split
      next hlt => simp [hlt, Except.isOk, Except.toBool, pure, Except.pure]
      next hge => simp [hge, Except.isOk, Except.toBool]

-- A layout is computed exactly where the whole module fits a word, and nothing in it wraps.
-- Where the module does not fit, the first quantity to leave the range is the one reported.
theorem layout_is_exact_or_refused (description : Description)
    (payload relocations symbols : Nat) :
    let result := Layout.compute description payload relocations symbols
    (result.isOk ↔ Layout.exactSize description payload relocations symbols < UInt32.size) ∧
      (∀ layout, result = .ok layout →
        layout.Exact description payload relocations symbols ∧
          layout.totalSize.toNat = Layout.exactSize description payload relocations symbols ∧
          ∀ field ∈ layout.alignedFields, field.toNat % 8 = 0) ∧
      (∀ error, result = .error error ↔
        ∃ before what value after,
          Layout.quantities description payload relocations symbols =
              before ++ (what, value) :: after ∧
            (∀ earlier ∈ before, earlier.2 < UInt32.size) ∧ UInt32.size ≤ value ∧
            error = .valueOutOfRange what value) ∧
      Layout.Guarded.compute description payload relocations symbols =
        result.mapError .refused ∧
      ∀ (content : Bytes) (relocationTable : RelocationTable) (symbolTable : SymbolTable)
        (bss : BssRegion) (entryPoint : UInt32),
        (make description content relocationTable symbolTable bss entryPoint).isOk ↔
          (Layout.compute description content.length relocationTable.length
            symbolTable.length).isOk ∧ roundUp bss.length.toNat 8 < UInt32.size := by
  intro result
  have hresult : result = narrowed (Layout.quantities description payload relocations symbols)
      (Layout.ofSizes description payload relocations symbols) := Layout.compute_eq _ _ _ _
  refine ⟨?_, fun layout hlayout => ?_, fun error => ?_, Layout.Guarded.compute_eq _ _ _ _,
    isOk_make_iff description⟩
  · rw [hresult, isOk_narrowed_iff]
    exact Layout.forall_quantities_lt_iff description payload relocations symbols
  · have hexact := Layout.exact_of_compute hlayout
    exact ⟨hexact, hexact.totalSize_eq, hexact.aligned⟩
  · rw [hresult]
    exact narrowed_eq_error_iff error

-- The largest payload that fits, and a payload that only no longer fits once it is rounded up.
theorem sample_layouts :
    (∃ layout, Layout.compute (.ofText "") 0xFFFFFFB8 0 0 = .ok layout ∧
      layout.totalSize.toNat = 0xFFFFFFF8) ∧
      Layout.compute (.ofText "") 0xFFFFFFF9 0 0 =
        .error (.valueOutOfRange "padded payload length" 0x100000000) := by
  obtain ⟨_, hfits, _⟩ := layout_is_exact_or_refused (.ofText "") 0xFFFFFFB8 0 0
  obtain ⟨_, _, hrefused, _⟩ := layout_is_exact_or_refused (.ofText "") 0xFFFFFFF9 0 0
  refine ⟨⟨_, rfl, (hfits _ rfl).2.1⟩, (hrefused _).mpr ?_⟩
  exact ⟨[("payload length", 0xFFFFFFF9), ("relocation count", 0), ("symbol count", 0)], _, _, _,
    rfl, by decide, by decide, rfl⟩

end Assembler

end Loadable
