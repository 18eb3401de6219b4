import Loadable.Object.Elf.File
import Loadable.Proofs.Object.Elf.Encoding
import Loadable.Proofs.Object.Outcome
import Mathlib.Data.List.Sort

namespace Loadable.Elf

variable {encoding : Encoding} {content : Bytes} {sections : List SectionHeader}

namespace SectionHeader

-- The entries of the symbol table that a section holds.
def entryCount (part : SectionHeader) (encoding : Encoding) : Nat :=
  part.size / encoding.symbolSize

def entry (part : SectionHeader) (encoding : Encoding) (content : Bytes) (k : Nat) : SymbolEntry :=
  .read encoding (content.slice ⟨part.offset + encoding.symbolSize * k, encoding.symbolSize⟩)

end SectionHeader

-- The entry for symbol `k` in the table of extended indices that is linked to the symbol table
-- in section `home`. Of several such tables it is the last.
def extendedIndex? (encoding : Encoding) (content : Bytes) (sections : List SectionHeader)
    (home k : Nat) : Option Nat :=
  (sections.filter fun part => part.kind = .extendedIndices ∧ part.link = home).getLast?.bind
    fun part =>
      if k < part.size / 4 then some (encoding.number (content.slice ⟨part.offset + 4 * k, 4⟩))
      else none

namespace SymbolEntry

-- The section that an entry names: its raw index, or the extended one that it refers to.
def sectionNumber (entry : SymbolEntry) (extended : Option Nat) : Nat :=
  if entry.sectionIndex = 0xFFFF then extended.getD 0xFFFF else entry.sectionIndex

theorem read_lt (encoding : Encoding) (record : Bytes) :
    (read encoding record).value < UInt64.size ∧ (read encoding record).size < UInt64.size ∧
      (read encoding record).sectionIndex < UInt16.size :=
  ⟨encoding.field_lt record 8 (by decide) (by decide),
    encoding.field_lt record 8 (by decide) (by decide),
    encoding.field_lt record 2 (by decide) (by decide)⟩

-- A module keeps the section that an entry names, but for an extended index that is zero.
theorem toNat_index_place {entry : SymbolEntry} {extended : Option Nat}
    (hraw : entry.sectionIndex < UInt16.size)
    (hextended : ∀ number, extended = some number → number < UInt32.size) :
    ((entry.place extended).index (some (UInt16.ofNat entry.sectionIndex))).toNat =
      if entry.sectionIndex = 0xFFFF ∧ extended = some 0 then 0xFFF1
      else entry.sectionNumber extended := by
  unfold place sectionNumber
  split
  next h => simp [h, SymbolPlace.index]
  next h => split <;> simp [h, SymbolPlace.index]
  next h => simp [h, SymbolPlace.index]
  next h =>
    cases extended with
    | none => simp [h, SymbolPlace.index]
    | some number =>
        have hnumber := UInt32.toNat_ofNat_of_lt' (hextended number rfl)
        cases number with
        | zero => simp [h, SymbolPlace.index]
        | succ number => simpa [h, SymbolPlace.index] using hnumber
  next h =>
    have hplain : ¬(entry.sectionIndex = 0xFFFF ∧ extended = some 0) := fun hand => h hand.1
    rw [if_neg hplain, if_neg h]
    split
    next => exact UInt32.toNat_ofNat_of_lt' (Nat.lt_trans hraw (by decide))
    next => exact UInt16.toNat_ofNat_of_lt' hraw

-- What an inspection makes of an entry, with the extended index that the file has for it. An
-- extended index of zero is the only one that is not kept.
structure Kept (entry : SymbolEntry) (extended : Option Nat) (symbol : Symbol) : Prop where
  value : symbol.value.toNat = entry.value
  size : symbol.size.toNat = entry.size
  kind : symbol.kind = .ofRaw (UInt8.ofNat (entry.info % 16))
  sectionIndex : symbol.sectionIndex.toNat =
    if entry.sectionIndex = 0xFFFF ∧ extended = some 0 then 0xFFF1
    else entry.sectionNumber extended

end SymbolEntry

theorem extendedIndex?_lt {home k number : Nat}
    (h : extendedIndex? encoding content sections home k = some number) :
    number < UInt32.size := by
  obtain ⟨part, _, hnumber⟩ := Option.bind_eq_some_iff.mp h
  split at hnumber
  next => exact Option.some.inj hnumber ▸ encoding.number_slice_lt content _
  next => cases hnumber

namespace SymbolTable

theorem getElem?_extendedIndices {home : Nat} {extended : List Nat}
    (h : extendedIndices encoding content sections home = .ok extended) (k : Nat) :
    extended[k]? = extendedIndex? encoding content sections home k := by
  simp only [extendedIndices, bind_eq_ok_iff, mapM_eq_ok_iff, pure_eq_ok_iff] at h
  obtain ⟨tables, htables, rfl⟩ := h
  have hrecords : tables = (sections.filter fun part =>
      part.kind = .extendedIndices ∧ part.link = home).map fun part =>
        (List.range (part.size / 4)).map fun k => content.slice ⟨part.offset + 4 * k, 4⟩ := by
    symm
    rw [← List.forall₂_eq_eq_eq, List.forall₂_map_left_iff]
    refine htables.imp fun part table htable => ?_
    exact (records?_eq_some (by decide) ((demand_eq_ok _ _ _).mp htable)).symm
  rw [hrecords, List.getLast?_map, extendedIndex?]
  cases (sections.filter fun part => part.kind = .extendedIndices ∧ part.link = home).getLast? with
  | none => rfl
  | some part =>
      rw [Option.map_some, Option.getD_some, Option.bind_some, List.map_map, List.getElem?_map]
      split
      next hk =>
        rw [List.getElem?_range hk]
        rfl
      next hk =>
        rw [List.getElem?_eq_none (by rw [List.length_range]; omega)]
        rfl

-- A symbol table holds what its section does.
theorem parse_eq_ok {kind : SectionKind} {table : SymbolTable}
    (h : parse encoding content sections kind = .ok table) (hsome : table.entries ≠ []) :
    ∃ part home, sections.zipIdx.find? (fun entry => entry.1.kind = kind) = some (part, home) ∧
      table.entries = (List.range (part.entryCount encoding)).map (part.entry encoding content) ∧
      ∀ k, table.extended[k]? = extendedIndex? encoding content sections home k := by
  unfold parse at h
  split at h
  next hnone =>
    cases h
    exact absurd rfl hsome
  next part home hfind =>
    simp only [bind_eq_ok_iff, demand_eq_ok, pure_eq_ok_iff] at h
    obtain ⟨records, hrecords, strings, _, extended, hextended, rfl⟩ := h
    have hsize : 0 < encoding.symbolSize := by
      unfold Encoding.symbolSize Encoding.choose
      split <;> decide
    refine ⟨part, home, hfind, ?_, getElem?_extendedIndices hextended⟩
    rw [records?_eq_some hsize hrecords, List.map_map]
    rfl

end SymbolTable

namespace File

variable {file : File}

theorem parse_eq_ok (h : parse content = .ok file) :
    file.content = content ∧
      (FileHeader.read file.encoding content).sections file.encoding content = .ok file.sections ∧
      (FileHeader.read file.encoding content).names file.encoding content file.sections =
        .ok file.names ∧
      SymbolTable.parse file.encoding content file.sections .symbolTable = .ok file.symbols := by
  simp only [parse, bind_eq_ok_iff, pure_eq_ok_iff] at h
  obtain ⟨_, _, _, _, _, hsections, _, hnames, _, hsymbols, _, _, _, _, rfl⟩ := h
  exact ⟨rfl, hsections, hnames, hsymbols⟩

-- The second pass sees the symbols that the first one saw.
theorem rawSectionIndices_eq (h : parse content = .ok file) :
    file.rawSectionIndices =
      .ok (file.symbols.entries.map fun entry => UInt16.ofNat entry.sectionIndex) := by
  obtain ⟨rfl, hsections, hnames, hsymbols⟩ := parse_eq_ok h
  rw [rawSectionIndices, hsections, ok_bind, hnames, ok_bind, hsymbols]
  rfl

-- Symbol `k` as both passes together list it.
def symbolAt (file : File) (part : SectionHeader) (k : Nat) : RawSymbol :=
  let entry := part.entry file.encoding file.content k
  file.symbols.symbol file.content (some (UInt16.ofNat entry.sectionIndex)) k entry

theorem list_eq {part : SectionHeader} (h : file.symbols.entries =
      (List.range (part.entryCount file.encoding)).map (part.entry file.encoding file.content)) :
    file.symbols.list file.content
        (file.symbols.entries.map fun entry => UInt16.ofNat entry.sectionIndex) =
      (List.range' 1 (part.entryCount file.encoding - 1)).map (file.symbolAt part) := by
  have hnumbered : ((List.range (part.entryCount file.encoding)).map
      (part.entry file.encoding file.content)).zipIdx =
        (List.range (part.entryCount file.encoding)).map fun k =>
          (part.entry file.encoding file.content k, k) := by
    apply List.ext_getElem <;> simp
  have hdrop : (List.range (part.entryCount file.encoding)).drop 1 =
      List.range' 1 (part.entryCount file.encoding - 1) := by
    rw [List.range_eq_range', List.drop_range']
  rw [SymbolTable.list, h, hnumbered, ← List.map_drop, hdrop, List.map_map]
  apply List.map_congr_left
  intro k hk
  have hlt : k < part.entryCount file.encoding := by
    rw [List.mem_range'_1] at hk
    omega
  rw [Function.comp_apply, symbolAt]
  dsimp only
  rw [List.getElem?_map, List.getElem?_map, List.getElem?_range hlt]
  rfl

theorem symbolList_eq (h : parse content = .ok file) {raws : List RawSymbol}
    (hlist : file.symbolList = .ok (some raws)) :
    ∃ part home,
      file.sections.zipIdx.find? (fun entry => entry.1.kind = .symbolTable) = some (part, home) ∧
      0 < part.entryCount file.encoding ∧
      raws = (List.range' 1 (part.entryCount file.encoding - 1)).map (file.symbolAt part) ∧
      ∀ k, file.symbols.extended[k]? = extendedIndex? file.encoding content file.sections home k := by
  rw [symbolList, rawSectionIndices_eq h] at hlist
  split at hlist
  next => cases hlist
  next hsome =>
    obtain ⟨rfl, _, _, hsymbols⟩ := parse_eq_ok h
    obtain ⟨part, home, hfind, hentries, hextended⟩ :=
      SymbolTable.parse_eq_ok hsymbols (by simpa using hsome)
    have hraws := Option.some.inj (Except.ok.inj hlist)
    refine ⟨part, home, hfind, ?_, hraws.symm.trans (list_eq hentries), hextended⟩
    rw [hentries] at hsome
    exact Nat.pos_of_ne_zero fun hzero => hsome (by rw [hzero]; rfl)

-- Of all symbols that are listed under the index of symbol `k`, the last one is looked up.
theorem find?_reverse_symbolAt (file : File) (part : SectionHeader) {k count : Nat}
    (hpos : 1 ≤ k) (hlt : k < count) (hlast : count ≤ k + UInt32.size) :
    ((List.range' 1 (count - 1)).map (file.symbolAt part)).reverse.find?
        (fun raw => raw.index = UInt32.ofNat k) = some (file.symbolAt part k) := by
  have hsplit : List.range' 1 (count - 1) =
      List.range' 1 (k - 1) ++ k :: List.range' (k + 1) (count - 1 - k) := by
    have hcount : count - 1 = (k - 1) + (count - 1 - k + 1) := by omega
    have hk : 1 + (k - 1) = k := by omega
    rw [hcount, ← List.range'_append_1, List.range'_succ, hk]
    congr 3
    omega
  have hafter : ∀ raw ∈ ((List.range' (k + 1) (count - 1 - k)).map (file.symbolAt part)).reverse,
      ¬raw.index = UInt32.ofNat k := by
    intro raw hmem hindex
    obtain ⟨j, hj, rfl⟩ := List.mem_map.mp (List.mem_reverse.mp hmem)
    rw [List.mem_range'_1] at hj
    have hnumber := congrArg UInt32.toNat hindex
    simp only [symbolAt, SymbolTable.symbol, UInt32.toNat_ofNat'] at hnumber
    unfold UInt32.size at hlast
    omega
  rw [hsplit, List.map_append, List.map_cons, List.reverse_append, List.reverse_cons,
    List.append_assoc, List.find?_append, List.find?_eq_none.mpr (by simpa using hafter),
    Option.none_or, List.singleton_append]
  exact List.find?_cons_of_pos (decide_eq_true rfl)

theorem mem_indices_symbolAt_iff (file : File) (part : SectionHeader) {count : Nat}
    (hpos : 0 < count) (index : UInt32) :
    (index = 0 ∨ ∃ raw ∈ (List.range' 1 (count - 1)).map (file.symbolAt part), raw.index = index) ↔
      index.toNat < count := by
  simp only [List.mem_map, List.mem_range'_1]
  constructor
  · rintro (rfl | ⟨_, ⟨k, hk, rfl⟩, rfl⟩)
    · exact hpos
    · refine Nat.lt_of_le_of_lt (Nat.mod_le k _) (by omega)
  · intro hlt
    by_cases hzero : index = 0
    · exact Or.inl hzero
    · have : index.toNat ≠ 0 := fun h => hzero (UInt32.toNat_inj.mp h)
      exact Or.inr ⟨_, ⟨index.toNat, by omega, rfl⟩, UInt32.ofNat_toNat⟩

theorem kept_of_restates {part : SectionHeader} {home k : Nat} {symbol : Symbol}
    (hextended : file.symbols.extended[k]? =
      extendedIndex? file.encoding file.content file.sections home k)
    (h : symbol.Restates (file.symbolAt part k)) :
    (part.entry file.encoding file.content k).Kept
      (extendedIndex? file.encoding file.content file.sections home k) symbol := by
  obtain ⟨hvalue, hsize, hsection⟩ := SymbolEntry.read_lt file.encoding
    (file.content.slice ⟨part.offset + file.encoding.symbolSize * k, file.encoding.symbolSize⟩)
  refine ⟨h.value.trans (UInt64.toNat_ofNat_of_lt' hvalue),
    h.size.trans (UInt64.toNat_ofNat_of_lt' hsize), h.kind, ?_⟩
  rw [h.sectionIndex, symbolAt, SymbolTable.symbol, hextended]
  exact SymbolEntry.toNat_index_place hsection fun _ => extendedIndex?_lt

-- Both passes read the first symbol table of the file, and what they find is joined entry by
-- entry. Indices are words, so of more entries than there are words only the last ones are kept.
theorem symbols_reach_the_map (content : Bytes) (file : File) (object : Inspection)
    (hparse : parse content = .ok file) (hinspect : file.source.inspect = .ok object) :
    ∃ part home,
      file.sections.zipIdx.find? (fun entry => entry.1.kind = .symbolTable) = some (part, home) ∧
      object.symbols.indices =
        (List.range (min (part.entryCount file.encoding) UInt32.size)).map UInt32.ofNat ∧
      ∀ k, 1 ≤ k → k < part.entryCount file.encoding →
        part.entryCount file.encoding ≤ k + UInt32.size →
          ∃ symbol, object.symbols.get? (UInt32.ofNat k) = some symbol ∧
            (part.entry file.encoding content k).Kept
              (extendedIndex? file.encoding content file.sections home k) symbol := by
  obtain ⟨raws, hsymbols⟩ := (Source.fits_of_inspect hinspect).symbols
  have hlisted : file.source.listed = raws := by rw [Source.listed, hsymbols]
  have hkept := Source.kept_of_inspect hinspect
  obtain ⟨part, home, hfind, hpos, hraws, hextended⟩ :=
    symbolList_eq hparse ((mapError_eq_ok_iff _ _ _).mp hsymbols)
  obtain ⟨rfl, -⟩ := parse_eq_ok hparse
  refine ⟨part, home, hfind, IndexMap.indices_eq_range (Nat.min_le_right _ _) fun index => ?_,
    fun k hk hlt hlast => ?_⟩
  · rw [hkept.indices, hlisted, hraws, mem_indices_symbolAt_iff file part hpos, Nat.lt_min]
    exact (and_iff_left index.toNat_lt).symm
  · have hdenoted : file.source.denoted? (UInt32.ofNat k) = some (file.symbolAt part k) := by
      rw [Source.denoted?, RawSymbol.denoted?, hlisted, hraws,
        file.find?_reverse_symbolAt part hk hlt hlast]
      rfl
    obtain ⟨symbol, hget, hrestates⟩ := hkept.symbols _ _ hdenoted
    exact ⟨symbol, hget, kept_of_restates (hextended k) hrestates⟩

-- A file that can be read and inspected, and what is found of it by evaluation.
theorem exists_inspected (content : Bytes) (found : File → Inspection → Bool)
    (h : ((parse content).toOption.any fun file =>
      file.source.inspect.toOption.any (found file)) = true) :
    ∃ file object, parse content = .ok file ∧ file.source.inspect = .ok object ∧
      found file object := by
  cases hparse : parse content with
  | error error => rw [hparse] at h; cases h
  | ok file =>
      rw [hparse] at h
      change file.source.inspect.toOption.any (found file) = true at h
      cases hinspect : file.source.inspect with
      | error error => rw [hinspect] at h; cases h
      | ok object => rw [hinspect] at h; exact ⟨file, object, rfl, hinspect, h⟩

-- A header, the headers of no section, of the symbol table and of its extended indices, and
-- those two sections. The empty first symbol also serves as the name of both.
def sampleContent (symbols : List UInt32) (extended : List UInt32) : Bytes :=
  Bytes.ofWords ([0x464C457F, 0x00010101, 0, 0, 0x00280001, 1, 0x41, 0, 52, 0, 52, 0x00280000,
    0x00010003] ++ List.replicate 10 0 ++
    [0, 2, 0, 0, 172, 4 * UInt32.ofNat symbols.length, 0, 0, 0, 16] ++
    [0, 18, 0, 0, 172 + 4 * UInt32.ofNat symbols.length, 4 * UInt32.ofNat extended.length, 1, 0,
      0, 4] ++ symbols ++ extended)

-- The second symbol has an extended index, the others are reserved ones.
def sampleObject : Bytes :=
  sampleContent [0, 0, 0, 0, 0, 0x40, 4, 0xFFFF0012, 0, 0x80, 8, 0xFF010011, 0, 0, 0, 0xFFF10004]
    [0, 0x12345, 0, 0]

theorem sample_symbols_reach_the_map :
    ∃ file object part symbol, parse sampleObject = .ok file ∧
      file.source.inspect = .ok object ∧
      file.sections.zipIdx.find? (fun entry => entry.1.kind = .symbolTable) = some (part, 1) ∧
      object.symbols.indices = [0, 1, 2, 3] ∧ object.symbols.get? 1 = some symbol ∧
      (part.entry file.encoding sampleObject 1).Kept (some 0x12345) symbol := by
  obtain ⟨file, object, hparse, hinspect, hfound⟩ := exists_inspected sampleObject
    (fun file _ =>
      ((file.sections.zipIdx.find? fun entry => entry.1.kind = .symbolTable).map fun entry =>
        (entry.1.entryCount file.encoding, entry.2)) = some (4, 1) ∧
      extendedIndex? file.encoding sampleObject file.sections 1 1 = some 0x12345)
    (by decide +kernel)
  obtain ⟨hcount, hextended⟩ := of_decide_eq_true hfound
  obtain ⟨part, home, hfind, hindices, hkept⟩ :=
    symbols_reach_the_map sampleObject file object hparse hinspect
  rw [hfind, Option.map_some, Option.some.injEq, Prod.mk.injEq] at hcount
  obtain ⟨hcount, rfl⟩ := hcount
  rw [hcount] at hindices hkept
  obtain ⟨symbol, hget, hsymbol⟩ := hkept 1 (by decide) (by decide) (by decide)
  exact ⟨file, object, part, symbol, hparse, hinspect, hfind, hindices, hget,
    hextended ▸ hsymbol⟩

-- The second symbol has an extended index that is zero.
def sampleZero : Bytes :=
  sampleContent [0, 0, 0, 0, 0, 0x40, 4, 0xFFFF0012] [0, 0]

theorem zero_extended_index_is_not_kept :
    ∃ file object part symbol, parse sampleZero = .ok file ∧
      file.source.inspect = .ok object ∧
      file.sections.zipIdx.find? (fun entry => entry.1.kind = .symbolTable) = some (part, 1) ∧
      part.entryCount file.encoding = 2 ∧
      (part.entry file.encoding sampleZero 1).sectionIndex = 0xFFFF ∧
      extendedIndex? file.encoding sampleZero file.sections 1 1 = some 0 ∧
      object.symbols.get? 1 = some symbol ∧ symbol.sectionIndex = 0xFFF1 := by
  obtain ⟨file, object, hparse, hinspect, hfound⟩ := exists_inspected sampleZero
    (fun file object =>
      ((file.sections.zipIdx.find? fun entry => entry.1.kind = .symbolTable).map fun entry =>
        (entry.1.entryCount file.encoding, entry.2,
          (entry.1.entry file.encoding sampleZero 1).sectionIndex)) = some (2, 1, 0xFFFF) ∧
      extendedIndex? file.encoding sampleZero file.sections 1 1 = some 0 ∧
      (object.symbols.get? 1).map Symbol.sectionIndex = some 0xFFF1)
    (by decide +kernel)
  obtain ⟨hpart, hextended, hsymbol⟩ := of_decide_eq_true hfound
  obtain ⟨⟨part, home⟩, hfind, hpart⟩ := Option.map_eq_some_iff.mp hpart
  obtain ⟨symbol, hget, hindex⟩ := Option.map_eq_some_iff.mp hsymbol
  rw [Prod.mk.injEq, Prod.mk.injEq] at hpart
  obtain ⟨hcount, rfl, hraw⟩ := hpart
  exact ⟨file, object, part, symbol, hparse, hinspect, hfind, hcount, hraw, hextended, hget,
    hindex⟩

end File

end Loadable.Elf
