import Loadable.Proofs.Relocation.Encoding

namespace Loadable

namespace SymbolMap

-- The index is one of a symbol that something refers to.
def survives (symbols : SymbolMap) (index : UInt32) : Bool :=
  (symbols.get? index).any fun symbol => symbol.references ≠ 0

-- How many of the symbols with smaller indices are referred to.
def rank (symbols : SymbolMap) (index : UInt32) : Nat :=
  symbols.entries.countP fun entry => entry.1 < index ∧ entry.2.references ≠ 0

theorem survives_iff (symbols : SymbolMap) (index : UInt32) :
    symbols.survives index ↔ ∃ symbol, (index, symbol) ∈ (SymbolTable.compact symbols).kept := by
  simp only [SymbolTable.mem_kept_compact_iff, survives, Option.any_eq_true, decide_eq_true_eq]

end SymbolMap

namespace SymbolTable

-- Compaction by numbers: the symbols that survive take the positions from zero up, each
-- the one that is its rank.
structure Ranked (symbols : SymbolMap) (table : SymbolTable) : Prop where
  position : ∀ index position, table.positionOf? index = some position ↔
    symbols.survives index ∧ position.toNat = symbols.rank index
  below : ∀ index, symbols.survives index → symbols.rank index < table.length
  symbol : ∀ index, symbols.survives index →
    table.symbols[symbols.rank index]? = symbols.get? index
  increasing : ∀ index other, symbols.survives index → symbols.survives other →
    (index < other ↔ symbols.rank index < symbols.rank other)
  onto : ∀ position < table.length, ∃ index, symbols.survives index ∧
    symbols.rank index = position
  pruned : table.pruned + table.length = symbols.size

variable {symbols : SymbolMap} {index other : UInt32} {symbol : Symbol}

theorem rank_of_getElem? {position : Nat}
    (h : (compact symbols).kept[position]? = some (index, symbol)) :
    symbols.rank index = position := by
  rw [← IndexMap.countP_lt_of_getElem? (ascending_kept_compact symbols) h, SymbolMap.rank, compact,
    List.countP_filter]
  simp only [Bool.decide_and]

-- Who survives stands at its rank.
theorem getElem?_rank (h : symbols.survives index) :
    ∃ symbol, (compact symbols).kept[symbols.rank index]? = some (index, symbol) := by
  obtain ⟨symbol, hmem⟩ := (symbols.survives_iff index).mp h
  obtain ⟨position, hposition⟩ := List.mem_iff_getElem?.mp hmem
  exact ⟨symbol, rank_of_getElem? hposition ▸ hposition⟩

theorem survives_of_getElem? {position : Nat}
    (h : (compact symbols).kept[position]? = some (index, symbol)) : symbols.survives index :=
  (symbols.survives_iff index).mpr ⟨symbol, List.mem_of_getElem? h⟩

theorem rank_lt_rank (hindex : symbols.survives index) (hother : symbols.survives other)
    (hlt : index < other) : symbols.rank index < symbols.rank other := by
  obtain ⟨_, hentry⟩ := getElem?_rank hindex
  obtain ⟨_, hentry'⟩ := getElem?_rank hother
  obtain ⟨hbound, hkept⟩ := List.getElem?_eq_some_iff.mp hentry
  obtain ⟨hbound', hkept'⟩ := List.getElem?_eq_some_iff.mp hentry'
  by_contra hge
  have hascending := List.pairwise_iff_getElem.mp (ascending_kept_compact symbols)
  rcases Nat.lt_or_eq_of_le (Nat.not_lt.mp hge) with hbelow | hsame
  · have hgt := hascending _ _ hbound' hbound hbelow
    rw [hkept, hkept'] at hgt
    exact UInt32.lt_asymm hlt hgt
  · rw [hsame, hentry] at hentry'
    exact UInt32.ne_of_lt hlt (congrArg Prod.fst (Option.some.inj hentry'))

theorem rank_lt_rank_iff (hindex : symbols.survives index) (hother : symbols.survives other) :
    index < other ↔ symbols.rank index < symbols.rank other := by
  refine ⟨rank_lt_rank hindex hother, fun hrank => ?_⟩
  by_contra hge
  rcases UInt32.lt_or_eq_of_le (UInt32.not_lt.mp hge) with hlt | rfl
  · exact Nat.lt_asymm hrank (rank_lt_rank hother hindex hlt)
  · exact Nat.lt_irrefl _ hrank

theorem positionOf?_compact_eq_some_iff (symbols : SymbolMap) (index position : UInt32) :
    (compact symbols).positionOf? index = some position ↔
      symbols.survives index ∧ position.toNat = symbols.rank index := by
  constructor
  · intro hposition
    obtain ⟨symbol, hentry⟩ := getElem?_of_positionOf? (length_compact_le_size symbols) hposition
    exact ⟨survives_of_getElem? hentry, (rank_of_getElem? hentry).symm⟩
  · rintro ⟨hsurvives, hrank⟩
    obtain ⟨symbol, hentry⟩ := getElem?_rank hsurvives
    rw [positionOf?_of_getElem? hentry, ← hrank, UInt32.ofNat_toNat]

theorem ranked_compact (symbols : SymbolMap) : (compact symbols).Ranked symbols where
  position := positionOf?_compact_eq_some_iff symbols
  below index hsurvives := by
    obtain ⟨symbol, hentry⟩ := getElem?_rank hsurvives
    exact (List.getElem?_eq_some_iff.mp hentry).1
  symbol index hsurvives := by
    obtain ⟨symbol, hentry⟩ := getElem?_rank hsurvives
    have hget := ((mem_kept_compact_iff symbols index symbol).mp (List.mem_of_getElem? hentry)).1
    rw [SymbolTable.symbols, List.getElem?_map, hentry, hget]
    rfl
  increasing _ _ := rank_lt_rank_iff
  onto position hlt := by
    have hentry := List.getElem?_eq_getElem hlt
    exact ⟨_, survives_of_getElem? hentry, rank_of_getElem? hentry⟩
  pruned := by rw [Nat.add_comm, length_compact_add_pruned]

-- Compaction on its way through the map: each symbol that it keeps gets the next position.
structure Pass where
  table : SymbolTable := {}
  positions : IndexMap UInt32 := .empty

namespace Pass

def take (pass : Pass) (entry : UInt32 × Symbol) : Pass :=
  if entry.2.references = 0 then
    { pass with table := { pass.table with pruned := pass.table.pruned + 1 } }
  else
    { table := { pass.table with kept := pass.table.kept ++ [entry] }
      positions := pass.positions.insert entry.1 (.ofNat pass.table.length) }

def run (symbols : SymbolMap) : Pass := symbols.entries.foldl take {}

-- What the pass has got when it has seen some of the entries.
structure Numbers (seen : List (UInt32 × Symbol)) (pass : Pass) : Prop where
  kept : pass.table.kept = seen.filter fun entry => entry.2.references ≠ 0
  pruned : pass.table.pruned = seen.countP fun entry => entry.2.references = 0
  positions : ∀ index, pass.positions.get? index = pass.table.positionOf? index

theorem Numbers.take {seen : List (UInt32 × Symbol)} {pass : Pass} (h : Numbers seen pass)
    {entry : UInt32 × Symbol} (hnew : ∀ earlier ∈ seen, earlier.1 < entry.1) :
    Numbers (seen ++ [entry]) (pass.take entry) := by
  unfold Pass.take
  by_cases hzero : entry.2.references = 0
  · rw [if_pos hzero]
    refine ⟨?_, ?_, h.positions⟩
    · simp [h.kept, hzero]
    · simp [h.pruned, hzero]
  · rw [if_neg hzero]
    refine ⟨?_, ?_, fun index => ?_⟩
    · simp [h.kept, hzero]
    · simp [h.pruned, hzero]
    · rw [IndexMap.get?_insert, h.positions, positionOf?, positionOf?, List.findIdx?_append]
      by_cases hindex : index = entry.1
      · have habsent : (pass.table.kept.findIdx? fun other => other.1 = index) = none := by
          rw [List.findIdx?_eq_none_iff, h.kept]
          intro earlier hmem
          have hlt := hnew earlier (List.mem_of_mem_filter hmem)
          simpa [hindex] using UInt32.ne_of_lt hlt
        rw [if_pos hindex, habsent, List.findIdx?_singleton, if_pos (by simp [hindex])]
        simp [SymbolTable.length]
      · rw [if_neg hindex, List.findIdx?_singleton, if_neg (by simpa using Ne.symm hindex)]
        simp

theorem numbers_foldl {entries seen : List (UInt32 × Symbol)} {pass : Pass}
    (h : Numbers seen pass)
    (hascending : (seen ++ entries).Pairwise fun earlier later => earlier.1 < later.1) :
    Numbers (seen ++ entries) (entries.foldl Pass.take pass) := by
  induction entries generalizing seen pass with
  | nil => rwa [List.append_nil]
  | cons entry rest ih =>
      have hnew : ∀ earlier ∈ seen, earlier.1 < entry.1 := fun earlier hmem =>
        (List.pairwise_append.mp hascending).2.2 earlier hmem entry List.mem_cons_self
      rw [← List.singleton_append, ← List.append_assoc] at hascending ⊢
      exact ih (h.take hnew) hascending

-- The positions that the pass gives out are the places in the table that it ends with.
theorem run_eq (symbols : SymbolMap) :
    (run symbols).table = compact symbols ∧
      ∀ index, (run symbols).positions.get? index = (compact symbols).positionOf? index := by
  have hstart : Numbers [] {} := ⟨rfl, rfl, fun _ => rfl⟩
  have hend : Numbers symbols.entries (run symbols) :=
    numbers_foldl hstart (by rw [List.nil_append]; exact symbols.ascending)
  have htable : (run symbols).table = compact symbols := by
    have hkept := hend.kept
    have hpruned := hend.pruned
    generalize (run symbols).table = table at hkept hpruned
    obtain ⟨kept, pruned⟩ := table
    rw [compact, SymbolTable.mk.injEq]
    exact ⟨hkept, hpruned⟩
  exact ⟨htable, fun index => by rw [hend.positions, htable]⟩

end Pass

end SymbolTable

namespace RelocationTable

-- A relocation made of a candidate without a change, but for the rank in place of the index.
structure Restates (symbols : SymbolMap) (candidate : Candidate) (relocation : Relocation) :
    Prop where
  offset : relocation.offset = candidate.offset
  rawType : relocation.rawType = candidate.rawType
  region : relocation.region = candidate.region
  position : relocation.symbolPosition.toNat = symbols.rank candidate.symbolIndex

theorem isSome_positionOf?_compact (symbols : SymbolMap) (index : UInt32) :
    ((SymbolTable.compact symbols).positionOf? index).isSome = symbols.survives index := by
  rw [Bool.eq_iff_iff, Option.isSome_iff_exists]
  simp only [SymbolTable.positionOf?_compact_eq_some_iff]
  constructor
  · rintro ⟨_, hsurvives, _⟩
    exact hsurvives
  · intro hsurvives
    have hlt := (SymbolTable.ranked_compact symbols).below index hsurvives
    have hexact := UInt32.toNat_ofNat_of_lt'
      (Nat.lt_of_lt_of_le hlt (SymbolTable.length_compact_le_size symbols))
    exact ⟨.ofNat (symbols.rank index), hsurvives, hexact⟩

theorem forall₂_restates (symbols : SymbolMap) (log : BuildLog) (candidates : List Candidate) :
    List.Forall₂ (Restates symbols)
      (candidates.filter fun candidate => symbols.survives candidate.symbolIndex)
      (encode (.compact symbols) log candidates).1.entries := by
  rw [entries_encode]
  apply forall₂_filter_filterMap
  · intro candidate _
    rw [Option.isSome_map, isSome_positionOf?_compact]
  · intro candidate _ relocation hrelocation
    obtain ⟨position, hposition, rfl⟩ := Option.map_eq_some_iff.mp hrelocation
    have hrank := (SymbolTable.positionOf?_compact_eq_some_iff _ _ _).mp hposition
    exact ⟨rfl, rfl, rfl, hrank.2⟩

-- Whatever the counts say and whatever the candidates refer to: positions are ranks among
-- the symbols with a count, and a candidate is kept if its symbol is and reported otherwise.
theorem positions_are_ranks (symbols : SymbolMap) (candidates : List Candidate)
    (log : BuildLog) :
    let table := SymbolTable.compact symbols
    let pass := SymbolTable.Pass.run symbols
    let encoded := encode table log candidates
    table.Ranked symbols ∧
      (pass.table = table ∧ ∀ index, pass.positions.get? index = table.positionOf? index) ∧
      List.Forall₂ (Restates symbols)
        (candidates.filter fun candidate => symbols.survives candidate.symbolIndex)
        encoded.1.entries ∧
      encoded.2 = log ++
        (candidates.filter fun candidate => !symbols.survives candidate.symbolIndex).map
          fun candidate => .danglingRelocation candidate.sectionName candidate.offset
            candidate.symbolIndex := by
  intro table pass encoded
  refine ⟨SymbolTable.ranked_compact symbols, SymbolTable.Pass.run_eq symbols,
    forall₂_restates symbols log candidates, ?_⟩
  have hlog := log_encode table log candidates
  simp only [← Option.not_isSome, table, isSome_positionOf?_compact] at hlog
  exact hlog

end RelocationTable

end Loadable
