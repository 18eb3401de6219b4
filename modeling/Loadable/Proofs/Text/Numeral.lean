import Loadable.Text.Numeral
import Mathlib.Data.List.Basic

namespace Loadable.Text

def digitCharacters : List Char := "0123456789abcdef".toList

-- Digits, the most significant one first, and the number that they stand for.
inductive Numeral (base : Nat) : List Char → Nat → Prop
  | nil : Numeral base [] 0
  | snoc {characters : List Char} {number digit : Nat} {character : Char} :
      Numeral base characters number → digit < base →
      digitCharacters[digit]? = some character →
      Numeral base (characters ++ [character]) (base * number + digit)

-- `0x` and the eight digits of a word, however small it is.
def IsWord (text : String) (word : UInt32) : Prop :=
  ∃ characters, text = "0x" ++ String.ofList characters ∧ characters.length = 8 ∧
    Numeral 16 characters word.toNat

-- A number in as few digits as it takes.
def IsCount (text : String) (count : UInt32) : Prop :=
  ∃ characters, text = String.ofList characters ∧ characters ≠ [] ∧
    (characters.head? = some '0' → characters = ['0']) ∧ Numeral 10 characters count.toNat

theorem digitCharacters_getElem? :
    ∀ digit < 16, digitCharacters[digit]? = some digit.digitChar := by
  decide

variable {base number : Nat} {characters : List Char}

theorem Numeral.digit (h : Numeral base characters number) (hbase : base ≤ 16) {digit : Nat}
    (hdigit : digit < base) :
    Numeral base (characters ++ [digit.digitChar]) (base * number + digit) :=
  h.snoc hdigit (digitCharacters_getElem? digit (Nat.lt_of_lt_of_le hdigit hbase))

theorem numeral_toDigits (hpos : 1 < base) (hbase : base ≤ 16) (number : Nat) :
    Numeral base (Nat.toDigits base number) number := by
  induction number using Nat.strongRecOn with
  | ind number ih =>
      rw [Nat.toDigits_eq_if hpos]
      split
      next hlt => simpa using Numeral.nil.digit hbase hlt
      next hge =>
        have hquotient := ih (number / base) (Nat.div_lt_self (by omega) hpos)
        have hnumeral := hquotient.digit hbase (Nat.mod_lt number (by omega))
        rwa [Nat.div_add_mod] at hnumeral

theorem Numeral.padded (h : Numeral base characters number) (hpos : 0 < base) (count : Nat) :
    Numeral base (List.replicate count '0' ++ characters) number := by
  induction h with
  | nil =>
      rw [List.append_nil]
      induction count with
      | zero => exact .nil
      | succ count ih =>
          rw [List.replicate_succ']
          exact ih.snoc hpos rfl
  | snoc _ hdigit hcharacter ih =>
      rw [← List.append_assoc]
      exact ih.snoc hdigit hcharacter

-- Only zero starts with a zero: what stands in front of the last digit is not zero itself.
theorem eq_zero_of_head?_toDigits (hpos : 1 < base) (hbase : base ≤ 16)
    (h : (Nat.toDigits base number).head? = some '0') : number = 0 := by
  induction number using Nat.strongRecOn with
  | ind number ih =>
      rw [Nat.toDigits_eq_if hpos] at h
      split at h
      next hlt => exact Nat.digitChar_eq_zero.mp (Option.some.inj h)
      next hge =>
        rw [List.head?_append_of_ne_nil _ Nat.toDigits_ne_nil] at h
        have hquotient := ih (number / base) (Nat.div_lt_self (by omega) hpos) h
        have hfront := Nat.div_pos (Nat.not_lt.mp hge) (by omega)
        omega

theorem isWord_hexWord (word : UInt32) : IsWord (hexWord word.toNat) word := by
  have hlength : (Nat.toDigits 16 word.toNat).length ≤ 8 :=
    (Nat.length_toDigits_le_iff (by decide) (by decide)).mpr word.toNat_lt
  refine ⟨_, ?_, ?_, (numeral_toDigits (by decide) (by decide) word.toNat).padded (by decide)
    (8 - (Nat.toDigits 16 word.toNat).length)⟩
  · rw [hexWord, padLeft, hexDigits, String.length_ofList, String.ofList_append]
  · rw [List.length_append, List.length_replicate]
    omega

example : hexWord 0x2a = "0x0000002a" := by decide

theorem isCount_toString (count : UInt32) : IsCount (toString count) count := by
  have hnumeral := numeral_toDigits (show 1 < 10 by decide) (by decide) count.toNat
  refine ⟨_, Nat.toString_eq_ofList_toDigits, Nat.toDigits_ne_nil, fun hzero => ?_, hnumeral⟩
  rw [eq_zero_of_head?_toDigits (by decide) (by decide) hzero]
  rfl

end Loadable.Text
