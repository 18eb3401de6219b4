import Loadable.Proofs.Build.References
import Mathlib.Data.List.Perm.Subperm

namespace Loadable

namespace Inspection

-- The index of the symbol is one that the object has a symbol for.
def knows (object : Inspection) (candidate : Candidate) : Bool :=
  object.symbols.contains candidate.symbolIndex

-- The indices that the candidates have their symbols by.
def used (object : Inspection) : List UInt32 := object.candidates.map Candidate.symbolIndex

-- A relocation made of a candidate, which stands for the symbol at its position.
def Emitted (table : SymbolTable) (candidate : Candidate) (relocation : Relocation) : Prop :=
  relocation = candidate.relocation relocation.symbolPosition ∧
    ∃ symbol, table.kept[relocation.symbolPosition.toNat]? = some (candidate.symbolIndex, symbol)

-- What became of the symbols and candidates of an object: the tables, and the log before
-- and after.
structure Accounted (object : Inspection) (table : SymbolTable) (relocations : RelocationTable)
    (before after : BuildLog) : Prop where
  references : ∀ position < table.length, ∃ symbol, table.symbols[position]? = some symbol ∧
    relocations.entries.countP (fun relocation => relocation.symbolPosition.toNat = position) =
      symbol.references.toNat ∧ 1 ≤ symbol.references.toNat
  positions : ∀ relocation ∈ relocations.entries, relocation.symbolPosition.toNat < table.length
  emitted : List.Forall₂ (Emitted table) (object.candidates.filter object.knows)
    relocations.entries
  dropped : after = before ++
    (object.candidates.filter fun candidate => !object.knows candidate).map Candidate.dangling
  candidates : relocations.length + (after.length - before.length) = object.candidates.length
  symbols : table.length + table.pruned = object.symbols.size

end Inspection

namespace Source

variable {source : Source} {object : Inspection}

theorem references_of_get? (hinspect : source.inspect = .ok object)
    (hcount : object.candidates.length < UInt32.size) {index : UInt32} {symbol : Symbol}
    (hget : object.symbols.get? index = some symbol) :
    symbol.references.toNat =
      object.candidates.countP fun candidate => candidate.symbolIndex = index := by
  have hsymbol := (rel_of_inspect hinspect).2 index
  rw [hget] at hsymbol
  cases hdenoted : source.denoted? index with
  | none => rw [hdenoted] at hsymbol; cases hsymbol
  | some raw =>
      rw [hdenoted] at hsymbol
      cases hsymbol with
      | some hraw =>
          rw [(RawSymbol.restates_record hraw).2, Candidate.getD_countReferences]
          exact UInt32.toNat_ofNat_of_lt' (Nat.lt_of_le_of_lt List.countP_le_length hcount)

theorem references_ne_zero_iff (hinspect : source.inspect = .ok object)
    (hcount : object.candidates.length < UInt32.size) {index : UInt32} {symbol : Symbol}
    (hget : object.symbols.get? index = some symbol) :
    symbol.references ≠ 0 ↔ index ∈ object.used := by
  have hreferences := references_of_get? hinspect hcount hget
  have hzero : symbol.references ≠ 0 ↔ 0 < symbol.references.toNat :=
    ⟨fun h => Nat.pos_of_ne_zero fun hnone => h (UInt32.toNat.inj hnone),
      fun h hnone => absurd h (by simp [hnone])⟩
  rw [hzero, hreferences, List.countP_pos_iff, Inspection.used, List.mem_map]
  simp only [decide_eq_true_eq]

-- Every symbol that is kept takes up a candidate of its own.
theorem length_compact_le (hinspect : source.inspect = .ok object)
    (hcount : object.candidates.length < UInt32.size) :
    (SymbolTable.compact object.symbols).length ≤ object.candidates.length := by
  have hsubset : (SymbolTable.compact object.symbols).kept.map Prod.fst ⊆ object.used := by
    intro index hindex
    obtain ⟨⟨_, symbol⟩, hmem, rfl⟩ := List.mem_map.mp hindex
    obtain ⟨hget, hreferred⟩ := (SymbolTable.mem_kept_compact_iff _ _ _).mp hmem
    exact (references_ne_zero_iff hinspect hcount hget).mp hreferred
  have hle := (List.subperm_of_subset (SymbolTable.nodup_indices_compact _) hsubset).length_le
  rwa [Inspection.used, List.length_map, List.length_map] at hle

-- No candidate loses its symbol to the compaction: the candidate itself keeps it.
theorem isSome_positionOf?_eq_knows (hinspect : source.inspect = .ok object)
    (hcount : object.candidates.length < UInt32.size) {candidate : Candidate}
    (hmem : candidate ∈ object.candidates) :
    ((SymbolTable.compact object.symbols).positionOf? candidate.symbolIndex).isSome =
      object.knows candidate := by
  have hlength := Nat.lt_of_le_of_lt (length_compact_le hinspect hcount) hcount
  rw [Inspection.knows, IndexMap.contains]
  cases hget : object.symbols.get? candidate.symbolIndex with
  | none => rw [SymbolTable.positionOf?_compact_eq_none hget]; rfl
  | some symbol =>
      have hreferred : symbol.references ≠ 0 :=
        (references_ne_zero_iff hinspect hcount hget).mpr (List.mem_map_of_mem hmem)
      obtain ⟨position, hposition, _⟩ :=
        SymbolTable.exists_positionOf?_compact hlength hget hreferred
      rw [hposition]
      rfl

-- A candidate becomes a relocation of a position if its symbol stands there.
theorem countP_encode (hinspect : source.inspect = .ok object)
    (hcount : object.candidates.length < UInt32.size) (log : BuildLog) {position : Nat}
    {index : UInt32} {symbol : Symbol}
    (hentry : (SymbolTable.compact object.symbols).kept[position]? = some (index, symbol)) :
    (RelocationTable.encode (.compact object.symbols) log object.candidates).1.entries.countP
        (fun relocation => relocation.symbolPosition.toNat = position) =
      object.candidates.countP fun candidate => candidate.symbolIndex = index := by
  have hlength := Nat.lt_of_le_of_lt (length_compact_le hinspect hcount) hcount
  have hexact : (UInt32.ofNat position).toNat = position :=
    UInt32.toNat_ofNat_of_lt' (Nat.lt_trans (List.getElem?_eq_some_iff.mp hentry).1 hlength)
  rw [RelocationTable.entries_encode, List.countP_filterMap]
  apply List.countP_congr
  intro candidate _
  cases hposition : (SymbolTable.compact object.symbols).positionOf? candidate.symbolIndex with
  | none =>
      have hother : candidate.symbolIndex ≠ index := by
        rintro rfl
        rw [SymbolTable.positionOf?_of_getElem? hentry] at hposition
        cases hposition
      simpa using hother
  | some found =>
      simp only [Option.map_some, Option.getD_some, Candidate.relocation, decide_eq_true_eq]
      constructor
      · rintro rfl
        obtain ⟨other, hother⟩ := SymbolTable.getElem?_of_positionOf? hlength.le hposition
        exact congrArg Prod.fst (Option.some.inj (hother.symm.trans hentry))
      · rintro rfl
        rw [SymbolTable.positionOf?_of_getElem? hentry] at hposition
        rw [← Option.some.inj hposition, hexact]

theorem rel_emitted (hinspect : source.inspect = .ok object)
    (hcount : object.candidates.length < UInt32.size) (log : BuildLog) :
    List.Forall₂ (Inspection.Emitted (.compact object.symbols))
      (object.candidates.filter object.knows)
      (RelocationTable.encode (.compact object.symbols) log object.candidates).1.entries := by
  have hlength := Nat.lt_of_le_of_lt (length_compact_le hinspect hcount) hcount
  rw [RelocationTable.entries_encode]
  apply forall₂_filter_filterMap
  · intro candidate hmem
    rw [Option.isSome_map, isSome_positionOf?_eq_knows hinspect hcount hmem]
  · intro candidate _ relocation hrelocation
    obtain ⟨position, hposition, rfl⟩ := Option.map_eq_some_iff.mp hrelocation
    exact ⟨rfl, SymbolTable.getElem?_of_positionOf? hlength.le hposition⟩

theorem log_eq_append_dropped (hinspect : source.inspect = .ok object)
    (hcount : object.candidates.length < UInt32.size) (log : BuildLog) :
    (RelocationTable.encode (.compact object.symbols) log object.candidates).2 = log ++
      (object.candidates.filter fun candidate => !object.knows candidate).map
        Candidate.dangling := by
  rw [RelocationTable.log_encode]
  congr 2
  apply List.filter_congr
  intro candidate hmem
  rw [← isSome_positionOf?_eq_knows hinspect hcount hmem, Option.not_isSome]

-- A symbol is kept for the relocations that refer to it, and a candidate is left out only
-- if the object has no symbol for it.
theorem everything_is_accounted_for (source : Source) (object : Inspection) (log : BuildLog)
    (hinspect : source.inspect = .ok object) (hexported : source.exported.length < UInt32.size) :
    let table := SymbolTable.compact object.symbols
    let encoded := RelocationTable.encode table log object.candidates
    object.Accounted table encoded.1 log encoded.2 := by
  intro table encoded
  have hcount : object.candidates.length < UInt32.size :=
    (rel_of_inspect hinspect).1.length_eq ▸ hexported
  have hlength := Nat.lt_of_le_of_lt (length_compact_le hinspect hcount) hcount
  have hemitted := rel_emitted hinspect hcount log
  have hdropped := log_eq_append_dropped hinspect hcount log
  refine ⟨fun position hlt => ?_, ?_, hemitted, hdropped, ?_, ?_⟩
  · obtain ⟨⟨index, symbol⟩, hentry⟩ : ∃ entry, table.kept[position]? = some entry :=
      ⟨_, List.getElem?_eq_getElem hlt⟩
    obtain ⟨hget, hreferred⟩ :=
      (SymbolTable.mem_kept_compact_iff _ _ _).mp (List.mem_of_getElem? hentry)
    refine ⟨symbol, ?_, ?_, ?_⟩
    · rw [SymbolTable.symbols, List.getElem?_map, hentry]
      rfl
    · rw [countP_encode hinspect hcount log hentry, references_of_get? hinspect hcount hget]
    · exact Nat.pos_of_ne_zero fun hzero => hreferred (UInt32.toNat.inj hzero)
  · exact fun relocation hmem => RelocationTable.position_lt_of_mem_encode hlength hmem
  · have hsplit := List.length_eq_length_filter_add object.knows (l := object.candidates)
    rw [hdropped, List.length_append, List.length_map, Nat.add_sub_cancel_left, hsplit,
      hemitted.length_eq]
    rfl
  · exact SymbolTable.length_compact_add_pruned _

theorem sample_is_accounted_for :
    ∃ object, sample.inspect = .ok object ∧ sample.exported.length < UInt32.size ∧
      (let table := SymbolTable.compact object.symbols
       let encoded := RelocationTable.encode table [] object.candidates
       object.Accounted table encoded.1 [] encoded.2 ∧ table.length = 2 ∧ table.pruned = 1 ∧
         encoded.2 = [.danglingRelocation ".text.main" 8 9]) := by
  obtain ⟨object, hinspect, hlength, hpruned, hlog⟩ : ∃ object, sample.inspect = .ok object ∧
      (SymbolTable.compact object.symbols).length = 2 ∧
      (SymbolTable.compact object.symbols).pruned = 1 ∧
      (RelocationTable.encode (.compact object.symbols) [] object.candidates).2 =
        [.danglingRelocation ".text.main" 8 9] := ⟨_, rfl, rfl, rfl, rfl⟩
  exact ⟨object, hinspect, by decide,
    everything_is_accounted_for sample object [] hinspect (by decide), hlength, hpruned, hlog⟩

end Source

end Loadable
