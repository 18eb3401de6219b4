import Loadable.IndexMap
import Mathlib.Data.List.Induction
import Mathlib.Data.List.Perm.Subperm
import Mathlib.Data.List.Sort

namespace Loadable.IndexMap

variable {α : Type}

theorem lookup_cons_eq (entry : UInt32 × α) (rest : List (UInt32 × α)) (index : UInt32) :
    (entry :: rest).lookup index = if index = entry.1 then some entry.2 else rest.lookup index := by
  rw [List.lookup_cons]
  by_cases h : index = entry.1
  · rw [if_pos h, beq_iff_eq.mpr h]
  · rw [if_neg h, beq_eq_false_iff_ne.mpr h]

theorem lookup_place (index : UInt32) (value : α) (entries : List (UInt32 × α)) (other : UInt32) :
    (place index value entries).lookup other =
      if other = index then some value else entries.lookup other := by
  induction entries with
  | nil => exact lookup_cons_eq (index, value) [] other
  | cons entry rest ih =>
      simp only [place]
      by_cases hbefore : index < entry.1
      · rw [if_pos hbefore, lookup_cons_eq]
      · rw [if_neg hbefore]
        by_cases hsame : index = entry.1
        · rw [if_pos hsame, lookup_cons_eq, lookup_cons_eq]
          by_cases h : other = index
          · rw [if_pos h, if_pos h]
          · rw [if_neg h, if_neg h, if_neg (hsame ▸ h)]
        · rw [if_neg hsame, lookup_cons_eq, lookup_cons_eq, ih]
          by_cases h : other = entry.1
          · have hne : other ≠ index := fun he => hsame (he.symm.trans h)
            rw [if_pos h, if_neg hne, if_pos h]
          · rw [if_neg h, if_neg h]

theorem get?_insert (map : IndexMap α) (index : UInt32) (value : α) (other : UInt32) :
    (map.insert index value).get? other = if other = index then some value else map.get? other :=
  lookup_place index value map.entries other

-- An entry that is only put in if there is none.
theorem get?_ite_insert (map : IndexMap α) (index : UInt32) (value : α) (other : UInt32) :
    (if map.contains index then map else map.insert index value).get? other =
      (map.get? other).or (if other = index then some value else none) := by
  by_cases hcontains : map.contains index
  · rw [if_pos hcontains]
    by_cases h : other = index
    · obtain ⟨present, hpresent⟩ := Option.isSome_iff_exists.mp hcontains
      rw [h, hpresent]
      rfl
    · rw [if_neg h, Option.or_none]
  · rw [if_neg hcontains, get?_insert]
    by_cases h : other = index
    · have habsent : map.get? index = none := by simpa [contains] using hcontains
      rw [if_pos h, if_pos h, h, habsent]
      rfl
    · rw [if_neg h, if_neg h, Option.or_none]

-- No index has two entries, so finding an entry and having it is the same.
theorem get?_eq_some_iff (map : IndexMap α) (index : UInt32) (value : α) :
    map.get? index = some value ↔ (index, value) ∈ map.entries := by
  obtain ⟨entries, ascending⟩ := map
  show entries.lookup index = some value ↔ (index, value) ∈ entries
  induction entries with
  | nil => simp
  | cons entry rest ih =>
      have ⟨hfirst, hrest⟩ := List.pairwise_cons.mp ascending
      rw [lookup_cons_eq, List.mem_cons]
      by_cases h : index = entry.1
      · have habsent : (index, value) ∉ rest := fun hmem =>
          UInt32.ne_of_lt (hfirst _ hmem) h.symm
        rw [if_pos h, or_iff_left habsent, Option.some.injEq]
        constructor
        · exact fun hvalue => Prod.ext h hvalue.symm
        · exact fun hentry => (congrArg Prod.snd hentry).symm
      · have hne : (index, value) ≠ entry := fun he => h (congrArg Prod.fst he)
        rw [if_neg h, or_iff_right hne]
        exact ih hrest

theorem mem_indices_iff (map : IndexMap α) (index : UInt32) :
    index ∈ map.indices ↔ (map.get? index).isSome := by
  rw [Option.isSome_iff_exists, indices, List.mem_map]
  simp only [get?_eq_some_iff]
  constructor
  · rintro ⟨⟨_, value⟩, hmem, rfl⟩
    exact ⟨value, hmem⟩
  · rintro ⟨value, hmem⟩
    exact ⟨(index, value), hmem, rfl⟩

-- The last entry of an index is the one that counts.
theorem get?_ofList (entries : List (UInt32 × α)) (index : UInt32) :
    (ofList entries).get? index = entries.reverse.lookup index := by
  induction entries using List.reverseRecOn with
  | nil => rfl
  | append_singleton earlier entry ih =>
      have hsnoc : ofList (earlier ++ [entry]) = (ofList earlier).insert entry.1 entry.2 := by
        simp only [ofList, List.foldl_append, List.foldl_cons, List.foldl_nil]
      rw [hsnoc, get?_insert, ih, List.reverse_append, List.reverse_singleton,
        List.singleton_append, lookup_cons_eq]

-- An entry stands behind those with smaller indices, and behind no other.
theorem countP_lt_of_getElem? {entries : List (UInt32 × α)}
    (h : entries.Pairwise fun earlier later => earlier.1 < later.1) {i : Nat} {entry : UInt32 × α}
    (hi : entries[i]? = some entry) : entries.countP (fun other => other.1 < entry.1) = i := by
  induction entries generalizing i with
  | nil => simp at hi
  | cons first rest ih =>
      have ⟨hfirst, hrest⟩ := List.pairwise_cons.mp h
      cases i with
      | zero =>
          obtain rfl : first = entry := by simpa using hi
          rw [List.countP_eq_zero]
          intro other hmem
          rcases List.mem_cons.mp hmem with rfl | hmem
          · simp
          · simpa using UInt32.le_of_lt (hfirst other hmem)
      | succ i =>
          have hrest? : rest[i]? = some entry := by simpa using hi
          have hlt := hfirst entry (List.mem_of_getElem? hrest?)
          rw [List.countP_cons_of_pos (by simpa using hlt), ih hrest hrest?]

-- There are no more indices than words.
theorem size_le (map : IndexMap α) : map.size ≤ UInt32.size := by
  have hnodup : (map.entries.map fun entry => entry.1.toNat).Nodup := by
    rw [List.nodup_iff_pairwise_ne, List.pairwise_map]
    exact map.ascending.imp fun hlt => Nat.ne_of_lt (UInt32.lt_iff_toNat_lt.mp hlt)
  have hsubset : (map.entries.map fun entry => entry.1.toNat) ⊆ List.range UInt32.size := by
    intro number hmem
    obtain ⟨entry, _, rfl⟩ := List.mem_map.mp hmem
    exact List.mem_range.mpr entry.1.toNat_lt
  have hle := (List.subperm_of_subset hnodup hsubset).length_le
  rwa [List.length_map, List.length_range] at hle

-- Items in ascending order are known by their members alone.
theorem eq_of_mem_iff {β : Type} (index : β → UInt32) {items items' : List β}
    (h : items.Pairwise fun earlier later => index earlier < index later)
    (h' : items'.Pairwise fun earlier later => index earlier < index later)
    (hmem : ∀ item, item ∈ items ↔ item ∈ items') : items = items' := by
  have : Std.Irrefl fun earlier later : β => index earlier < index later :=
    ⟨fun item => UInt32.lt_irrefl (index item)⟩
  have : Std.Antisymm fun earlier later : β => index earlier < index later :=
    ⟨fun _ _ hlt hgt => absurd hgt (UInt32.lt_asymm hlt)⟩
  exact h.eq_of_mem_iff h' hmem

-- The indices below a bound, without a gap.
theorem indices_eq_range {map : IndexMap α} {count : Nat} (hcount : count ≤ UInt32.size)
    (h : ∀ index, index ∈ map.indices ↔ index.toNat < count) :
    map.indices = (List.range count).map UInt32.ofNat := by
  have hword : ∀ k ∈ List.range count, (UInt32.ofNat k).toNat = k := fun k hk =>
    UInt32.toNat_ofNat_of_lt' (Nat.lt_of_lt_of_le (List.mem_range.mp hk) hcount)
  refine eq_of_mem_iff id (List.pairwise_map.mpr map.ascending) ?_ fun index => ?_
  · refine List.pairwise_map.mpr (List.pairwise_lt_range.imp_of_mem fun hj hk hlt => ?_)
    rwa [id, id, UInt32.lt_iff_toNat_lt, hword _ hj, hword _ hk]
  · rw [h, List.mem_map]
    constructor
    · exact fun hlt => ⟨index.toNat, List.mem_range.mpr hlt, UInt32.ofNat_toNat⟩
    · rintro ⟨k, hk, rfl⟩
      rw [hword k hk]
      exact List.mem_range.mp hk

end Loadable.IndexMap
