import Loadable.Proofs.Records
import Loadable.Relocation.Table
import Loadable.Symbol.Table
import Mathlib.Algebra.Group.Nat.Defs

namespace Loadable

-- The bytes of a table hold its records, one in every 16 bytes, and nothing else. The size that
-- the table gives for them is a word, so it is right only as long as it fits.
structure Holds {α : Type} (decode : Bytes → Option α) (records : List α) (bytes : Bytes)
    (byteLength : UInt32) : Prop where
  length : bytes.length = 16 * records.length
  decoded : (bytes.chunks 16).map decode = records.map some
  byteLength : records.length < 2 ^ 28 → byteLength.toNat = bytes.length

theorem holds_flatMap {α : Type} (encode : α → Bytes) (decode : Bytes → Option α)
    (hencode : ∀ value, (encode value).length = 16)
    (hdecode : ∀ value, decode (encode value) = some value) (records : List α) :
    Holds decode records (records.flatMap encode) (16 * UInt32.ofNat records.length) where
  length := length_flatMap_records encode hencode records
  decoded := map_chunks_flatMap (by decide) encode decode hencode hdecode records
  byteLength := by
    intro hfew
    have hcount : (UInt32.ofNat records.length).toNat = records.length :=
      UInt32.toNat_ofNat_of_lt' (Nat.lt_trans hfew (by decide))
    have hsixteen : (16 : UInt32).toNat = 16 := rfl
    rw [length_flatMap_records encode hencode, UInt32.toNat_mul, hcount, hsixteen]
    exact Nat.mod_eq_of_lt (by omega)

theorem RelocationTable.holds (table : RelocationTable) :
    Holds Relocation.decode? table.entries table.toBytes table.byteLength :=
  holds_flatMap _ _ Relocation.length_toBytes Relocation.decode?_toBytes table.entries

theorem SymbolTable.holds (table : SymbolTable) :
    Holds SymbolRecord.decode? (table.symbols.map Symbol.record) table.toBytes table.byteLength := by
  have h := holds_flatMap _ _ SymbolRecord.length_toBytes SymbolRecord.decode?_toBytes
    (table.symbols.map Symbol.record)
  rw [List.flatMap_map, List.length_map, symbols, List.length_map] at h
  exact h

theorem RelocationTable.length_toBytes (table : RelocationTable) :
    table.toBytes.length = 16 * table.length :=
  table.holds.length

theorem SymbolTable.length_toBytes (table : SymbolTable) :
    table.toBytes.length = 16 * table.length := by
  rw [table.holds.length, List.length_map, symbols, List.length_map]
  rfl

-- Tables are decoded to what they hold. Of any other bytes, records are decoded as far as there
-- are words for them, and only what they do not keep is lost: a code that no region has, and the
-- reserved word of a symbol.
theorem tables_hold_their_records (relocations : RelocationTable) (symbols : SymbolTable)
    (bytes : Bytes) :
    Holds Relocation.decode? relocations.entries relocations.toBytes relocations.byteLength ∧
      Holds SymbolRecord.decode? (symbols.symbols.map Symbol.record) symbols.toBytes
        symbols.byteLength ∧
      ((Relocation.decode? bytes).isSome ↔ 16 ≤ bytes.length) ∧
      (∀ relocation, Relocation.decode? bytes = some relocation →
        relocation.toBytes =
            (if bytes.wordD 8 ≤ 4 then bytes.take 16
            else Bytes.overwrite (bytes.take 16) 8 (Bytes.zeros 4)) ∧
          (relocation.toBytes = bytes.take 16 ↔ bytes.wordD 8 ≤ 4)) ∧
      ((SymbolRecord.decode? bytes).isSome ↔ 12 ≤ bytes.length) ∧
      ∀ record, SymbolRecord.decode? bytes = some record →
        record.toBytes = bytes.take 12 ++ Bytes.zeros 4 :=
  ⟨relocations.holds, symbols.holds, Relocation.isSome_decode?_iff bytes,
    fun _ h => ⟨Relocation.toBytes_eq_overwrite h, Relocation.toBytes_eq_take_iff h⟩,
    SymbolRecord.isSome_decode?_iff bytes, fun _ h => SymbolRecord.toBytes_of_decode? h⟩

-- In these bytes the third word is a code that no region has. The type of a symbol may be any.
theorem sample_tables_hold_their_records :
    let table : RelocationTable := ⟨[⟨4, 2, .text, 7⟩]⟩
    let bytes := Bytes.ofWords [1, 2, 5, 3, 6]
    table.byteLength.toNat = table.toBytes.length ∧
      (∃ relocation, Relocation.decode? bytes = some relocation ∧
        relocation.toBytes = Bytes.ofWords [1, 2, 0, 3]) ∧
      ∃ record, SymbolRecord.decode? bytes = some record ∧
        record.toBytes = Bytes.ofWords [1, 2, 5, 0] := by
  intro table bytes
  obtain ⟨htable, -, hrelocation, hregion, hsymbol, hrecord⟩ :=
    tables_hold_their_records table {} bytes
  obtain ⟨relocation, hdecoded⟩ := Option.isSome_iff_exists.mp (hrelocation.mpr (by decide))
  obtain ⟨record, hread⟩ := Option.isSome_iff_exists.mp (hsymbol.mpr (by decide))
  exact ⟨htable.byteLength (by decide), ⟨relocation, hdecoded, (hregion relocation hdecoded).1⟩,
    record, hread, hrecord record hread⟩

end Loadable
