namespace Loadable

-- A finite map from symbol indices. Its entries stand in ascending order of their
-- indices, one for each.
structure IndexMap (α : Type) where
  entries : List (UInt32 × α)
  ascending : entries.Pairwise fun earlier later => earlier.1 < later.1

namespace IndexMap

variable {α β : Type}

def empty : IndexMap α := ⟨[], List.Pairwise.nil⟩

def size (map : IndexMap α) : Nat := map.entries.length

def indices (map : IndexMap α) : List UInt32 := map.entries.map Prod.fst

def get? (map : IndexMap α) (index : UInt32) : Option α := map.entries.lookup index

def getD (map : IndexMap α) (index : UInt32) (default : α) : α := (map.get? index).getD default

def contains (map : IndexMap α) (index : UInt32) : Bool := (map.get? index).isSome

-- Puts an entry in its place; it takes the place of one with the same index.
def place (index : UInt32) (value : α) : List (UInt32 × α) → List (UInt32 × α)
  | [] => [(index, value)]
  | entry :: rest =>
    if index < entry.1 then (index, value) :: entry :: rest
    else if index = entry.1 then (index, value) :: rest
    else entry :: place index value rest

theorem mem_place {index : UInt32} {value : α} {entry : UInt32 × α} {entries : List (UInt32 × α)}
    (h : entry ∈ place index value entries) : entry = (index, value) ∨ entry ∈ entries := by
  induction entries with
  | nil => simpa [place] using h
  | cons first rest ih =>
      simp only [place] at h
      split at h
      · simpa using h
      · split at h
        · rcases List.mem_cons.mp h with h | h
          · exact Or.inl h
          · exact Or.inr (List.mem_cons_of_mem _ h)
        · rcases List.mem_cons.mp h with h | h
          · exact Or.inr (h ▸ List.mem_cons_self)
          · exact (ih h).imp id (List.mem_cons_of_mem _)

theorem pairwise_place {index : UInt32} {value : α} {entries : List (UInt32 × α)}
    (h : entries.Pairwise fun earlier later => earlier.1 < later.1) :
    (place index value entries).Pairwise fun earlier later => earlier.1 < later.1 := by
  induction entries with
  | nil => simp [place]
  | cons first rest ih =>
      have ⟨hfirst, hrest⟩ := List.pairwise_cons.mp h
      simp only [place]
      split
      next hlt =>
        refine List.pairwise_cons.mpr ⟨fun entry he => ?_, h⟩
        rcases List.mem_cons.mp he with he | he
        · exact he ▸ hlt
        · exact UInt32.lt_trans hlt (hfirst entry he)
      next hge =>
        split
        next heq =>
          refine List.pairwise_cons.mpr ⟨fun entry he => ?_, hrest⟩
          exact heq ▸ hfirst entry he
        next hne =>
          refine List.pairwise_cons.mpr ⟨fun entry he => ?_, ih hrest⟩
          rcases mem_place he with he | he
          · subst he
            exact UInt32.lt_of_le_of_ne (UInt32.not_lt.mp hge) fun heq => hne heq.symm
          · exact hfirst entry he

def insert (map : IndexMap α) (index : UInt32) (value : α) : IndexMap α :=
  ⟨place index value map.entries, pairwise_place map.ascending⟩

def erase (map : IndexMap α) (index : UInt32) : IndexMap α :=
  ⟨map.entries.filter fun entry => entry.1 ≠ index, map.ascending.filter _⟩

-- Later entries replace earlier ones of the same index.
def ofList (entries : List (UInt32 × α)) : IndexMap α :=
  entries.foldl (fun map entry => map.insert entry.1 entry.2) empty

def mapValues (f : UInt32 → α → β) (map : IndexMap α) : IndexMap β :=
  ⟨map.entries.map fun entry => (entry.1, f entry.1 entry.2),
    List.pairwise_map.mpr (map.ascending.imp id)⟩

end IndexMap

end Loadable
