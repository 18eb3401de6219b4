namespace Loadable

-- Module and bundle images, files and payloads. Every multi-byte field of the
-- module and bundle formats is a 32-bit word, least significant byte first.
abbrev Bytes := List UInt8

-- A stretch of a byte string.
structure Span where
  start : Nat
  length : Nat
deriving DecidableEq

def Span.stop (span : Span) : Nat := span.start + span.length

def Span.Within (span : Span) (size : Nat) : Prop := span.stop ≤ size

instance (span : Span) (size : Nat) : Decidable (span.Within size) :=
  inferInstanceAs (Decidable (span.stop ≤ size))

namespace Bytes

def zeros (count : Nat) : Bytes := List.replicate count 0

def ofWord (word : UInt32) : Bytes :=
  [word.toUInt8, (word >>> 8).toUInt8, (word >>> 16).toUInt8, (word >>> 24).toUInt8]

def ofWords (words : List UInt32) : Bytes := words.flatMap ofWord

def joinWord (a b c d : UInt8) : UInt32 :=
  UInt32.ofNat (a.toNat + 0x100 * b.toNat + 0x10000 * c.toNat + 0x1000000 * d.toNat)

-- The word at `offset`, if all four of its bytes are there.
def word? (bytes : Bytes) (offset : Nat) : Option UInt32 :=
  match bytes.drop offset with
  | a :: b :: c :: d :: _ => some (joinWord a b c d)
  | _ => none

def wordD (bytes : Bytes) (offset : Nat) : UInt32 := (bytes.word? offset).getD 0

def slice (bytes : Bytes) (span : Span) : Bytes := (bytes.drop span.start).take span.length

-- Writes `patch` at `offset`. A string that ends before it grows, and what lies
-- between its old end and `offset` reads zero.
def overwrite (bytes : Bytes) (offset : Nat) (patch : Bytes) : Bytes :=
  bytes.take offset ++ zeros (offset - bytes.length) ++ patch ++ bytes.drop (offset + patch.length)

-- Consecutive pieces of `size` bytes; the last one may be shorter.
def chunks (size : Nat) (bytes : Bytes) : List Bytes :=
  if h : size = 0 ∨ bytes = [] then []
  else
    have : (bytes.drop size).length < bytes.length := by
      have := List.length_pos_iff.mpr fun he => h (Or.inr he)
      simp only [List.length_drop]
      omega
    bytes.take size :: chunks size (bytes.drop size)
termination_by bytes.length

@[simp] theorem length_zeros (count : Nat) : (zeros count).length = count := by simp [zeros]

@[simp] theorem length_ofWord (word : UInt32) : (ofWord word).length = 4 := rfl

@[simp] theorem length_ofWords (words : List UInt32) : (ofWords words).length = 4 * words.length := by
  induction words with
  | nil => rfl
  | cons word rest ih =>
      simp only [ofWords, List.flatMap_cons, List.length_append, List.length_cons] at ih ⊢
      rw [length_ofWord, ih]
      omega

theorem length_overwrite (bytes : Bytes) (offset : Nat) (patch : Bytes) :
    (bytes.overwrite offset patch).length = max bytes.length (offset + patch.length) := by
  simp only [overwrite, List.length_append, List.length_take, length_zeros, List.length_drop]
  omega

theorem length_slice (bytes : Bytes) (span : Span) (h : span.Within bytes.length) :
    (bytes.slice span).length = span.length := by
  simp only [Span.Within, Span.stop] at h
  simp only [slice, List.length_take, List.length_drop]
  omega

theorem joinWord_ofWord (word : UInt32) :
    joinWord word.toUInt8 (word >>> 8).toUInt8 (word >>> 16).toUInt8 (word >>> 24).toUInt8 = word := by
  apply UInt32.toNat.inj
  have := word.toNat_lt
  simp only [joinWord, UInt32.toNat_ofNat', UInt32.toNat_toUInt8, UInt32.toNat_shiftRight,
    Nat.shiftRight_eq_div_pow, UInt32.toNat_ofNat, Nat.reducePow, Nat.reduceMod]
  omega

theorem ofWord_joinWord (a b c d : UInt8) : ofWord (joinWord a b c d) = [a, b, c, d] := by
  have := a.toNat_lt
  have := b.toNat_lt
  have := c.toNat_lt
  have := d.toNat_lt
  simp only [ofWord, List.cons.injEq, and_true]
  refine ⟨?_, ?_, ?_, ?_⟩ <;> apply UInt8.toNat.inj <;>
    simp only [joinWord, UInt32.toNat_ofNat', UInt32.toNat_toUInt8, UInt32.toNat_shiftRight,
      Nat.shiftRight_eq_div_pow, UInt32.toNat_ofNat, Nat.reducePow, Nat.reduceMod] <;> omega

-- A word is read back wherever it was written.
theorem word?_append_ofWord (before : Bytes) (word : UInt32) (after : Bytes) :
    (before ++ ofWord word ++ after).word? before.length = some word := by
  simp only [word?, List.append_assoc, List.drop_left]
  simp only [ofWord, List.cons_append, joinWord_ofWord]

end Bytes

end Loadable
