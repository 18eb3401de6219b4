import Loadable.Relocation.Table
import Loadable.Proofs.Symbol.Compaction
import Mathlib.Data.List.Forall2

namespace Loadable

-- What is kept of a list and what is made of it go together, if both leave out the same.
theorem forall₂_filter_filterMap {α β : Type} {R : α → β → Prop} {p : α → Bool}
    {f : α → Option β} {items : List α} (hkept : ∀ item ∈ items, (f item).isSome = p item)
    (hmade : ∀ item ∈ items, ∀ answer, f item = some answer → R item answer) :
    List.Forall₂ R (items.filter p) (items.filterMap f) := by
  induction items with
  | nil => exact List.Forall₂.nil
  | cons item rest ih =>
      have ⟨hitem, hrest⟩ := List.forall_mem_cons.mp hkept
      have ⟨hanswer, hothers⟩ := List.forall_mem_cons.mp hmade
      rw [List.filter_cons, List.filterMap_cons, ← hitem]
      cases hf : f item with
      | none => exact ih hrest hothers
      | some answer => exact List.Forall₂.cons (hanswer answer hf) (ih hrest hothers)

namespace RelocationTable

-- Every candidate whose symbol was kept gives one entry, in the order of the candidates.
theorem entries_encode (symbols : SymbolTable) (log : BuildLog) (candidates : List Candidate) :
    (encode symbols log candidates).1.entries =
      candidates.filterMap fun candidate =>
        (symbols.positionOf? candidate.symbolIndex).map candidate.relocation := by
  induction candidates generalizing log with
  | nil => rfl
  | cons candidate rest ih =>
      rw [encode]
      cases hposition : symbols.positionOf? candidate.symbolIndex with
      | none =>
          simp only [List.filterMap_cons, hposition, Option.map_none]
          exact ih _
      | some position =>
          simp only [List.filterMap_cons, hposition, Option.map_some, ih log]

-- Every candidate whose symbol was not kept gives one warning, in the order of the candidates.
theorem log_encode (symbols : SymbolTable) (log : BuildLog) (candidates : List Candidate) :
    (encode symbols log candidates).2 =
      log ++ (candidates.filter fun candidate =>
        (symbols.positionOf? candidate.symbolIndex).isNone).map Candidate.dangling := by
  induction candidates generalizing log with
  | nil => exact (List.append_nil log).symm
  | cons candidate rest ih =>
      rw [encode, List.filter_cons]
      cases hposition : symbols.positionOf? candidate.symbolIndex with
      | none =>
          rw [Option.isNone_none, if_pos rfl, List.map_cons]
          exact (ih _).trans (List.append_assoc _ _ _)
      | some position =>
          exact ih log

theorem position_lt_of_mem_encode {symbols : SymbolTable} {log : BuildLog}
    {candidates : List Candidate} {relocation : Relocation}
    (hlength : symbols.length < UInt32.size)
    (h : relocation ∈ (encode symbols log candidates).1.entries) :
    relocation.symbolPosition.toNat < symbols.length := by
  rw [entries_encode, List.mem_filterMap] at h
  obtain ⟨candidate, _, hcandidate⟩ := h
  obtain ⟨position, hposition, rfl⟩ := Option.map_eq_some_iff.mp hcandidate
  obtain ⟨symbol, hentry⟩ := SymbolTable.getElem?_of_positionOf? (Nat.le_of_lt hlength) hposition
  exact (List.getElem?_eq_some_iff.mp hentry).1

end RelocationTable

end Loadable
