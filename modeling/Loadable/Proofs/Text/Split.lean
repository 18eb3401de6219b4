import Loadable.Text.Split
import Mathlib.Data.List.Basic

namespace Loadable.Text

variable {separator : Char}

theorem split_ne_nil (separator : Char) (text : List Char) : split separator text ≠ [] := by
  induction text with
  | nil => simp [split]
  | cons c rest ih =>
      rw [split]
      split
      · simp
      · split <;> simp

theorem split_cons_self (rest : List Char) :
    split separator (separator :: rest) = [] :: split separator rest := by
  obtain ⟨part, parts, hrest⟩ := List.exists_cons_of_ne_nil (split_ne_nil separator rest)
  rw [split, hrest]
  exact if_pos rfl

theorem split_cons_of_ne {c : Char} (h : c ≠ separator) {rest part : List Char}
    {parts : List (List Char)} (hrest : split separator rest = part :: parts) :
    split separator (c :: rest) = (c :: part) :: parts := by
  rw [split, hrest]
  exact if_neg h

-- Every part ends at the next separator.
theorem split_append_cons {word : List Char} (h : separator ∉ word) (rest : List Char) :
    split separator (word ++ separator :: rest) = word :: split separator rest := by
  induction word with
  | nil => exact split_cons_self rest
  | cons c word ih =>
      obtain ⟨hc, hword⟩ := List.ne_and_not_mem_of_not_mem_cons h
      exact split_cons_of_ne hc.symm (ih hword)

theorem split_of_not_mem {word : List Char} (h : separator ∉ word) :
    split separator word = [word] := by
  induction word with
  | nil => rfl
  | cons c word ih =>
      obtain ⟨hc, hword⟩ := List.ne_and_not_mem_of_not_mem_cons h
      exact split_cons_of_ne hc.symm (ih hword)

-- `word` follows on `count` separators and ends with the text or at a separator.
def Opens (separator : Char) (count : Nat) (word text : List Char) : Prop :=
  text = List.replicate count separator ++ word ∨
    List.replicate count separator ++ word ++ [separator] <+: text

instance (separator : Char) (count : Nat) (word text : List Char) :
    Decidable (Opens separator count word text) :=
  inferInstanceAs (Decidable (_ ∨ _))

theorem opens_succ_iff (count : Nat) (word rest : List Char) :
    Opens separator (count + 1) word (separator :: rest) ↔ Opens separator count word rest := by
  simp only [Opens, List.replicate_succ, List.cons_append, List.cons.injEq, true_and,
    List.cons_prefix_cons]

theorem find?_cons_of_ne_nil {part : List Char} (h : part ≠ []) (parts : List (List Char)) :
    (part :: parts).find? (fun part => part ≠ []) = some part :=
  List.find?_cons_of_pos (decide_eq_true h)

-- The first part with something in it is the word behind the leading separators.
theorem find?_split_of_opens {count : Nat} {word text : List Char} (hsome : word ≠ [])
    (hword : separator ∉ word) (h : Opens separator count word text) :
    (split separator text).find? (fun part => part ≠ []) = some word := by
  induction count generalizing text with
  | zero =>
      rcases h with htext | ⟨rest, htext⟩
      · rw [htext, List.replicate_zero, List.nil_append, split_of_not_mem hword,
          find?_cons_of_ne_nil hsome]
      · rw [← htext, List.replicate_zero, List.nil_append, List.append_assoc,
          List.singleton_append, split_append_cons hword, find?_cons_of_ne_nil hsome]
  | succ count ih =>
      obtain ⟨rest, rfl⟩ : ∃ rest, text = separator :: rest := by
        rcases h with rfl | ⟨rest, rfl⟩ <;> exact ⟨_, rfl⟩
      rw [split_cons_self, List.find?_cons_of_neg (by simp)]
      exact ih ((opens_succ_iff count word rest).mp h)

theorem opens_of_find?_split {word text : List Char}
    (h : (split separator text).find? (fun part => part ≠ []) = some word) :
    ∃ count, Opens separator count word text := by
  induction text with
  | nil => simp [split] at h
  | cons c rest ih =>
      by_cases hc : c = separator
      · subst hc
        rw [split_cons_self, List.find?_cons_of_neg (by simp)] at h
        obtain ⟨count, hopens⟩ := ih h
        exact ⟨count + 1, (opens_succ_iff count word rest).mpr hopens⟩
      -- The text starts with its first part, which has at least `c` in it.
      refine ⟨0, ?_⟩
      by_cases hmem : separator ∈ c :: rest
      · obtain ⟨first, tail, htext, hfirst⟩ := List.eq_append_cons_of_mem hmem
        have hsome : first ≠ [] := by
          rintro rfl
          exact hc (List.cons.inj htext).1
        rw [htext, split_append_cons hfirst, find?_cons_of_ne_nil hsome, Option.some.injEq] at h
        subst h
        exact Or.inr ⟨tail, by simp [htext]⟩
      · rw [split_of_not_mem hmem, find?_cons_of_ne_nil (List.cons_ne_nil c rest),
          Option.some.injEq] at h
        exact Or.inl h

end Loadable.Text
