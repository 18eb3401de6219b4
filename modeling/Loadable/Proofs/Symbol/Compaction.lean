import Loadable.Symbol.Table
import Loadable.Proofs.IndexMap

namespace Loadable.SymbolTable

-- A position leads back to the index it was found for.
theorem getElem?_of_positionOf? {table : SymbolTable} {index position : UInt32}
    (hlength : table.length ≤ UInt32.size) (h : table.positionOf? index = some position) :
    ∃ symbol, table.kept[position.toNat]? = some (index, symbol) := by
  obtain ⟨i, hi, rfl⟩ := Option.map_eq_some_iff.mp h
  obtain ⟨hlt, hindex, _⟩ := List.findIdx?_eq_some_iff_getElem.mp hi
  have hexact : (UInt32.ofNat i).toNat = i :=
    UInt32.toNat_ofNat_of_lt' (Nat.lt_of_lt_of_le hlt hlength)
  refine ⟨table.kept[i].2, ?_⟩
  rw [hexact, List.getElem?_eq_getElem hlt, Option.some.injEq]
  exact Prod.ext (of_decide_eq_true hindex) rfl

theorem exists_positionOf?_iff (table : SymbolTable) (index : UInt32) :
    (∃ position, table.positionOf? index = some position) ↔
      ∃ symbol, (index, symbol) ∈ table.kept := by
  constructor
  · rintro ⟨position, h⟩
    obtain ⟨i, hi, rfl⟩ := Option.map_eq_some_iff.mp h
    obtain ⟨hlt, hindex, _⟩ := List.findIdx?_eq_some_iff_getElem.mp hi
    have hentry : table.kept[i] = (index, table.kept[i].2) :=
      Prod.ext (of_decide_eq_true hindex) rfl
    exact ⟨table.kept[i].2, hentry ▸ List.getElem_mem hlt⟩
  · rintro ⟨symbol, hmem⟩
    cases hfind : table.kept.findIdx? fun entry => entry.1 = index with
    | none =>
        have hother := List.findIdx?_eq_none_iff.mp hfind _ hmem
        simp at hother
    | some i =>
        exact ⟨UInt32.ofNat i, congrArg (Option.map UInt32.ofNat) hfind⟩

-- Compaction keeps exactly what is referred to.
theorem mem_kept_compact_iff (symbols : SymbolMap) (index : UInt32) (symbol : Symbol) :
    (index, symbol) ∈ (compact symbols).kept ↔
      symbols.get? index = some symbol ∧ symbol.references ≠ 0 := by
  rw [IndexMap.get?_eq_some_iff, compact, List.mem_filter, decide_eq_true_iff]

theorem positionOf?_compact_eq_none {symbols : SymbolMap} {index : UInt32}
    (h : symbols.get? index = none) : (compact symbols).positionOf? index = none := by
  rw [Option.eq_none_iff_forall_ne_some]
  intro position hposition
  obtain ⟨symbol, hmem⟩ := (exists_positionOf?_iff _ _).mp ⟨position, hposition⟩
  have hkept := (mem_kept_compact_iff symbols index symbol).mp hmem
  rw [h] at hkept
  cases hkept.1

-- A symbol that is referred to has a position, and stands there.
theorem exists_positionOf?_compact {symbols : SymbolMap} {index : UInt32} {symbol : Symbol}
    (hlength : (compact symbols).length < UInt32.size) (hget : symbols.get? index = some symbol)
    (hreferred : symbol.references ≠ 0) :
    ∃ position, (compact symbols).positionOf? index = some position ∧
      (compact symbols).symbols[position.toNat]? = some symbol := by
  have hmem := (mem_kept_compact_iff symbols index symbol).mpr ⟨hget, hreferred⟩
  obtain ⟨position, hposition⟩ := (exists_positionOf?_iff _ _).mpr ⟨symbol, hmem⟩
  obtain ⟨other, hentry⟩ := getElem?_of_positionOf? (Nat.le_of_lt hlength) hposition
  have hother := (mem_kept_compact_iff symbols index other).mp (List.mem_of_getElem? hentry)
  have hsame : other = symbol := Option.some.inj (hother.1.symm.trans hget)
  refine ⟨position, hposition, ?_⟩
  rw [SymbolTable.symbols, List.getElem?_map, hentry, hsame]
  rfl

-- Compaction leaves the indices in ascending order, so no index stands twice.
theorem ascending_kept_compact (symbols : SymbolMap) :
    (compact symbols).kept.Pairwise fun earlier later => earlier.1 < later.1 :=
  symbols.ascending.filter _

theorem nodup_indices_compact (symbols : SymbolMap) :
    ((compact symbols).kept.map Prod.fst).Nodup := by
  rw [List.nodup_iff_pairwise_ne, List.pairwise_map]
  exact (ascending_kept_compact symbols).imp UInt32.ne_of_lt

theorem length_compact_add_pruned (symbols : SymbolMap) :
    (compact symbols).length + (compact symbols).pruned = symbols.size := by
  have hsplit := List.length_eq_countP_add_countP
    (fun entry : UInt32 × Symbol => entry.2.references ≠ 0) (l := symbols.entries)
  rw [SymbolTable.length, compact, IndexMap.size, hsplit, ← List.countP_eq_length_filter]
  congr 1
  apply List.countP_congr
  intro entry _
  simp

theorem length_compact_le_size (symbols : SymbolMap) :
    (compact symbols).length ≤ UInt32.size :=
  Nat.le_trans (List.length_filter_le _ _) symbols.size_le

-- Who stands at a position has that position.
theorem positionOf?_of_getElem? {symbols : SymbolMap} {position : Nat} {index : UInt32}
    {symbol : Symbol} (h : (compact symbols).kept[position]? = some (index, symbol)) :
    (compact symbols).positionOf? index = some (UInt32.ofNat position) := by
  obtain ⟨hlt, hentry⟩ := List.getElem?_eq_some_iff.mp h
  have hfind : (compact symbols).kept.findIdx? (fun entry => entry.1 = index) = some position := by
    rw [List.findIdx?_eq_some_iff_getElem]
    refine ⟨hlt, by simp [hentry], fun earlier hearlier => ?_⟩
    have hbelow := List.pairwise_iff_getElem.mp (ascending_kept_compact symbols) earlier position
      (Nat.lt_trans hearlier hlt) hlt hearlier
    rw [hentry] at hbelow
    simpa using UInt32.ne_of_lt hbelow
  rw [positionOf?, hfind]
  rfl

end Loadable.SymbolTable
