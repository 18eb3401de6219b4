import Loadable.Relocation.Basic
import Loadable.Symbol.Basic
import Loadable.Proofs.Bytes

namespace Loadable

-- A table of records: cut into records again and decoded, it gives what was encoded.
theorem map_chunks_flatMap {α : Type} {size : Nat} (hsize : 0 < size) (encode : α → Bytes)
    (decode : Bytes → Option α) (hencode : ∀ value, (encode value).length = size)
    (hdecode : ∀ value, decode (encode value) = some value) (values : List α) :
    (Bytes.chunks size (values.flatMap encode)).map decode = values.map some := by
  rw [Bytes.chunks_flatMap hsize encode hencode, List.map_map]
  exact List.map_congr_left fun value _ => hdecode value

theorem filterMap_chunks_flatMap {α : Type} {size : Nat} (hsize : 0 < size) (encode : α → Bytes)
    (decode : Bytes → Option α) (hencode : ∀ value, (encode value).length = size)
    (hdecode : ∀ value, decode (encode value) = some value) (values : List α) :
    (Bytes.chunks size (values.flatMap encode)).filterMap decode = values := by
  have h := congrArg (List.filterMap id)
    (map_chunks_flatMap hsize encode decode hencode hdecode values)
  rw [List.filterMap_map, List.filterMap_map] at h
  exact h.trans List.filterMap_some

theorem length_flatMap_records {α : Type} {size : Nat} (encode : α → Bytes)
    (hencode : ∀ value, (encode value).length = size) (values : List α) :
    (values.flatMap encode).length = size * values.length := by
  induction values with
  | nil => rfl
  | cons value rest ih =>
      rw [List.flatMap_cons, List.length_append, List.length_cons, hencode, ih, Nat.mul_succ,
        Nat.add_comm]

-- A string of whole records gives one value for each of them.
theorem length_filterMap_chunks {α : Type} {size : Nat} (hsize : 0 < size)
    (decode : Bytes → Option α) (hdecode : ∀ piece, piece.length = size → (decode piece).isSome)
    (count : Nat) {bytes : Bytes} (h : bytes.length = size * count) :
    ((Bytes.chunks size bytes).filterMap decode).length = count := by
  obtain ⟨hcount, hpieces⟩ := Bytes.chunks_whole hsize count h
  rw [List.filterMap_length_eq_length.mpr fun piece hp => hdecode piece (hpieces piece hp), hcount]

theorem TargetRegion.ofCode_code (region : TargetRegion) : ofCode region.code = region := by
  cases region <;> rfl

-- Codes without a region are those of none.
theorem TargetRegion.code_ofCode (code : UInt32) :
    (ofCode code).code = if code ≤ 4 then code else 0 := by
  split
  next hle =>
    have hcodes : code = 0 ∨ code = 1 ∨ code = 2 ∨ code = 3 ∨ code = 4 := by grind
    rcases hcodes with rfl | rfl | rfl | rfl | rfl <;> rfl
  next hlarge =>
    have hnone : ofCode code = none := by
      have hlarge : ¬code.toNat ≤ 4 := UInt32.le_iff_toNat_le.not.mp hlarge
      unfold ofCode
      split <;> first | rfl | omega
    rw [hnone]
    rfl

namespace Relocation

theorem length_toBytes (relocation : Relocation) : relocation.toBytes.length = size := rfl

theorem decode?_of_le {bytes : Bytes} (h : size ≤ bytes.length) :
    decode? bytes =
      some ⟨bytes.wordD 0, bytes.wordD 4, .ofCode (bytes.wordD 8), bytes.wordD 12⟩ := by
  have hword : ∀ offset, offset + 4 ≤ size → bytes.word? offset = some (bytes.wordD offset) :=
    fun offset hoffset => bytes.word?_eq_some_wordD offset (by omega)
  rw [decode?, hword 0 (by decide), hword 4 (by decide), hword 8 (by decide), hword 12 (by decide)]
  rfl

theorem isSome_decode?_iff (bytes : Bytes) : (decode? bytes).isSome ↔ size ≤ bytes.length := by
  constructor
  · intro h
    by_contra hshort
    have hlast : bytes.word? 12 = none := by
      rw [Bytes.word?_eq_ite, if_neg (by unfold size at hshort; omega)]
    simp [decode?, hlast] at h
  · intro h
    rw [decode?_of_le h]
    rfl

theorem take_size {bytes : Bytes} (h : size ≤ bytes.length) :
    bytes.take size =
      Bytes.ofWords [bytes.wordD 0, bytes.wordD 4, bytes.wordD 8, bytes.wordD 12] :=
  (Bytes.ofWords_map_wordD bytes (by rwa [Nat.zero_add] : 0 + 4 * 4 ≤ bytes.length)).symm

theorem toBytes_of_decode? {bytes : Bytes} {relocation : Relocation}
    (h : decode? bytes = some relocation) :
    relocation.toBytes =
      Bytes.ofWords [bytes.wordD 0, bytes.wordD 4,
        if bytes.wordD 8 ≤ 4 then bytes.wordD 8 else 0, bytes.wordD 12] := by
  have hlength : size ≤ bytes.length := (isSome_decode?_iff bytes).mp (h ▸ rfl)
  rw [decode?_of_le hlength, Option.some.injEq] at h
  rw [← h, toBytes, TargetRegion.code_ofCode]

-- Encoded again, a record is what it was decoded from, but for a code that no region has.
theorem toBytes_eq_overwrite {bytes : Bytes} {relocation : Relocation}
    (h : decode? bytes = some relocation) :
    relocation.toBytes =
      if bytes.wordD 8 ≤ 4 then bytes.take size
      else Bytes.overwrite (bytes.take size) 8 (Bytes.zeros 4) := by
  rw [toBytes_of_decode? h, take_size ((isSome_decode?_iff bytes).mp (h ▸ rfl))]
  split
  next => rfl
  next =>
    have hplace : 2 < [bytes.wordD 0, bytes.wordD 4, bytes.wordD 8, bytes.wordD 12].length :=
      (by decide : 2 < 4)
    have hpatch := Bytes.overwrite_ofWords hplace 0 []
    rw [List.append_nil, List.append_nil] at hpatch
    exact hpatch.symm

theorem toBytes_eq_take_iff {bytes : Bytes} {relocation : Relocation}
    (h : decode? bytes = some relocation) :
    relocation.toBytes = bytes.take size ↔ bytes.wordD 8 ≤ 4 := by
  rw [toBytes_of_decode? h, take_size ((isSome_decode?_iff bytes).mp (h ▸ rfl)), Bytes.ofWords_inj]
  simp only [List.cons.injEq, true_and, and_true]
  split
  next hle => exact iff_of_true rfl hle
  next hlarge => exact iff_of_false (fun hzero => hlarge (hzero ▸ by decide)) hlarge

theorem decode?_toBytes (relocation : Relocation) :
    decode? relocation.toBytes = some relocation := by
  have hword : ∀ i word,
      [relocation.offset, relocation.rawType, relocation.region.code,
        relocation.symbolPosition][i]? = some word →
      relocation.toBytes.wordD (4 * i) = word := by
    intro i word h
    rw [Bytes.wordD, toBytes, ← List.append_nil (Bytes.ofWords _), Bytes.word?_ofWords h,
      Option.getD_some]
  rw [decode?_of_le (Nat.le_of_eq relocation.length_toBytes.symm)]
  congr 1
  congr 1
  · exact hword 0 _ rfl
  · exact hword 1 _ rfl
  · exact (congrArg TargetRegion.ofCode (hword 2 _ rfl)).trans (TargetRegion.ofCode_code _)
  · exact hword 3 _ rfl

theorem decode_table (entries : List Relocation) :
    (Bytes.chunks size (entries.flatMap toBytes)).filterMap decode? = entries :=
  filterMap_chunks_flatMap (by decide) _ _ length_toBytes decode?_toBytes entries

theorem length_decode_table (count : Nat) {table : Bytes} (h : table.length = size * count) :
    ((table.chunks size).filterMap decode?).length = count :=
  length_filterMap_chunks (by decide) _
    (fun _ hp => by rw [decode?_of_le (Nat.le_of_eq hp.symm)]; rfl) count h

end Relocation

namespace SymbolRecord

theorem length_toBytes (record : SymbolRecord) : record.toBytes.length = size := rfl

-- The last word of a record is not looked at, nor need it be there.
theorem decode?_of_le {bytes : Bytes} (h : 12 ≤ bytes.length) :
    decode? bytes = some ⟨bytes.wordD 0, bytes.wordD 4, bytes.wordD 8⟩ := by
  have hword : ∀ offset, offset + 4 ≤ 12 → bytes.word? offset = some (bytes.wordD offset) :=
    fun offset hoffset => bytes.word?_eq_some_wordD offset (by omega)
  rw [decode?, hword 0 (by decide), hword 4 (by decide), hword 8 (by decide)]
  rfl

theorem isSome_decode?_iff (bytes : Bytes) : (decode? bytes).isSome ↔ 12 ≤ bytes.length := by
  constructor
  · intro h
    by_contra hshort
    have hlast : bytes.word? 8 = none := by rw [Bytes.word?_eq_ite, if_neg (by omega)]
    simp [decode?, hlast] at h
  · intro h
    rw [decode?_of_le h]
    rfl

theorem toBytes_of_decode? {bytes : Bytes} {record : SymbolRecord}
    (h : decode? bytes = some record) : record.toBytes = bytes.take 12 ++ Bytes.zeros 4 := by
  have hlength : 12 ≤ bytes.length := (isSome_decode?_iff bytes).mp (h ▸ rfl)
  rw [decode?_of_le hlength, Option.some.injEq] at h
  have htake : bytes.take 12 =
      Bytes.ofWords [bytes.wordD 0, bytes.wordD 4, bytes.wordD 8] :=
    (Bytes.ofWords_map_wordD bytes (by omega : 0 + 4 * 3 ≤ bytes.length)).symm
  rw [← h, htake]
  rfl

theorem decode?_toBytes (record : SymbolRecord) : decode? record.toBytes = some record := by
  have hword : ∀ i word,
      [record.value, record.sectionIndex, record.typeCode, 0][i]? = some word →
      record.toBytes.wordD (4 * i) = word := by
    intro i word h
    rw [Bytes.wordD, toBytes, ← List.append_nil (Bytes.ofWords _), Bytes.word?_ofWords h,
      Option.getD_some]
  rw [decode?_of_le (by rw [length_toBytes]; decide)]
  congr 1
  congr 1
  · exact hword 0 _ rfl
  · exact hword 1 _ rfl
  · exact hword 2 _ rfl

theorem decode_table (records : List SymbolRecord) :
    (Bytes.chunks size (records.flatMap toBytes)).filterMap decode? = records :=
  filterMap_chunks_flatMap (by decide) _ _ length_toBytes decode?_toBytes records

theorem length_decode_table (count : Nat) {table : Bytes} (h : table.length = size * count) :
    ((table.chunks size).filterMap decode?).length = count :=
  length_filterMap_chunks (by decide) _
    (fun _ hp => by rw [decode?_of_le (hp.symm ▸ by decide)]; rfl) count h

end SymbolRecord

end Loadable
