import Loadable.Bytes
import Loadable.Proofs.Alignment
import Loadable.Proofs.Check

-- Arithmetic and cuts that stop where they would go wrong. A computation that is written down once
-- more with them gives the same answers if nothing goes wrong in it.
namespace Loadable.Guarded

inductive Stop (ε : Type)
  -- A word that is not the exact number.
  | wrapped (exact : Int)
  | outOfRange (start stop : Nat)
  -- Not a fault: the computation itself says no.
  | refused (error : ε)

abbrev Run (ε : Type) := Except (Stop ε)

variable {ε : Type}

def refuse {α : Type} (check : Except ε α) : Run ε α := check.mapError .refused

-- A word of any width that has to be the exact number.
def exactly {word : Type} (toNat : word → Nat) (exact : Int) (result : word) : Run ε word := do
  require ((toNat result : Int) = exact) (.wrapped exact)
  return result

def sum64 (a b : UInt64) : Run ε UInt64 := exactly UInt64.toNat (a.toNat + b.toNat) (a + b)

def product32 (a b : UInt32) : Run ε UInt32 := exactly UInt32.toNat (a.toNat * b.toNat) (a * b)

def product64 (a b : UInt64) : Run ε UInt64 := exactly UInt64.toNat (a.toNat * b.toNat) (a * b)

def alignUp (value align : UInt32) : Run ε UInt32 := do
  let sum ← exactly UInt32.toNat (value.toNat + align.toNat) (value + align)
  let last ← exactly UInt32.toNat (sum.toNat - 1) (sum - 1)
  let mask ← exactly UInt32.toNat (align.toNat - 1) (align - 1)
  return last &&& ~~~mask

def alignUp64 (value align : UInt64) : Run ε UInt64 := do
  let sum ← exactly UInt64.toNat (value.toNat + align.toNat) (value + align)
  let last ← exactly UInt64.toNat (sum.toNat - 1) (sum - 1)
  let mask ← exactly UInt64.toNat (align.toNat - 1) (align - 1)
  return last &&& ~~~mask

def cut (bytes : Bytes) (start stop : Nat) : Run ε Bytes := do
  require (start ≤ stop ∧ stop ≤ bytes.length) (.outOfRange start stop)
  return bytes.slice ⟨start, stop - start⟩

theorem exactly_eq_ok_iff {word : Type} {toNat : word → Nat} {exact : Int} {result answer : word} :
    (exactly toNat exact result : Run ε word) = .ok answer ↔
      answer = result ∧ (toNat result : Int) = exact := by
  simp only [exactly, bind_eq_ok_iff, require_eq_ok, pure_eq_ok_iff, exists_const, and_comm]

theorem exactly_eq_ok {word : Type} {toNat : word → Nat} {exact : Int} {result : word}
    (h : (toNat result : Int) = exact) : (exactly toNat exact result : Run ε word) = .ok result :=
  exactly_eq_ok_iff.mpr ⟨rfl, h⟩

theorem sum64_eq_ok {a b : UInt64} (h : a.toNat + b.toNat < UInt64.size) :
    (sum64 a b : Run ε UInt64) = .ok (a + b) := by
  apply exactly_eq_ok
  rw [UInt64.toNat_add, Nat.mod_eq_of_lt h, Int.natCast_add]

theorem product32_eq_ok {a b : UInt32} (h : a.toNat * b.toNat < UInt32.size) :
    (product32 a b : Run ε UInt32) = .ok (a * b) := by
  apply exactly_eq_ok
  rw [UInt32.toNat_mul, Nat.mod_eq_of_lt h, Int.natCast_mul]

theorem product64_eq_ok {a b : UInt64} (h : a.toNat * b.toNat < UInt64.size) :
    (product64 a b : Run ε UInt64) = .ok (a * b) := by
  apply exactly_eq_ok
  rw [UInt64.toNat_mul, Nat.mod_eq_of_lt h, Int.natCast_mul]

theorem cut_eq_ok (bytes : Bytes) {start stop : Nat} (h : start ≤ stop ∧ stop ≤ bytes.length) :
    (cut bytes start stop : Run ε Bytes) = .ok (bytes.slice ⟨start, stop - start⟩) := by
  simp only [cut, require, h, and_self, if_true]
  rfl

-- Sixteen times a word needs 36 bits, and with a word added to it no more than 37.
theorem toNat_sixteen_mul (count : UInt32) :
    (16 * count.toUInt64).toNat = 16 * count.toNat := by
  have hcount := count.toNat_lt
  rw [UInt64.toNat_mul, UInt32.toNat_toUInt64]
  exact Nat.mod_eq_of_lt (by simp only [UInt64.toNat_ofNat]; omega)

theorem product64_sixteen (count : UInt32) :
    (product64 16 count.toUInt64 : Run ε UInt64) = .ok (16 * count.toUInt64) := by
  have hcount := count.toNat_lt
  have hsize : UInt64.size = 2 ^ 64 := rfl
  apply product64_eq_ok
  rw [UInt32.toNat_toUInt64]
  simp only [UInt64.toNat_ofNat]
  omega

theorem toNat_toUInt64_lt (word : UInt32) : word.toUInt64.toNat < 16 * UInt32.size := by
  have hword := word.toNat_lt
  have hsize : UInt32.size = 2 ^ 32 := rfl
  rw [UInt32.toNat_toUInt64]
  omega

theorem toNat_add_lt (offset : UInt32) {length : UInt64} (h : length.toNat < 16 * UInt32.size) :
    offset.toUInt64.toNat + length.toNat < UInt64.size := by
  have hoffset := offset.toNat_lt
  have hsize : UInt64.size = 2 ^ 64 := rfl
  have hword : UInt32.size = 2 ^ 32 := rfl
  rw [UInt32.toNat_toUInt64]
  omega

theorem sum64_word (offset : UInt32) {length : UInt64} (h : length.toNat < 16 * UInt32.size) :
    (sum64 offset.toUInt64 length : Run ε UInt64) = .ok (offset.toUInt64 + length) :=
  sum64_eq_ok (toNat_add_lt offset h)

theorem toNat_add_word (offset : UInt32) {length : UInt64} (h : length.toNat < 16 * UInt32.size) :
    (offset.toUInt64 + length).toNat = offset.toNat + length.toNat := by
  rw [UInt64.toNat_add, Nat.mod_eq_of_lt (toNat_add_lt offset h), UInt32.toNat_toUInt64]

theorem toNat_add_eq_iff {width : Nat} (a b : BitVec width) :
    ((a + b).toNat : Int) = a.toNat + b.toNat ↔ a.toNat + b.toNat < 2 ^ width := by
  rw [BitVec.toNat_add, ← Int.natCast_add, Int.natCast_inj,
    Nat.mod_eq_iff_lt (Nat.two_pow_pos width).ne']

theorem toNat_sub_one_eq_iff {width : Nat} (bits : BitVec width) :
    ((bits - 1).toNat : Int) = bits.toNat - 1 ↔ 0 < bits.toNat := by
  constructor
  · intro h
    omega
  · intro hpos
    rw [toNat_sub_one hpos]
    omega

-- Rounding up takes three exact steps, on words of every width. The sum is the one that can leave
-- the range above, and a guarded run ends there even if the step down would bring it back.
theorem steps_exact_iff {width : Nat} (value align : BitVec width) (answer : Prop) :
    (((value + align).toNat : Int) = value.toNat + align.toNat ∧
      ((value + align - 1).toNat : Int) = (value + align).toNat - 1 ∧
      ((align - 1).toNat : Int) = align.toNat - 1 ∧ answer) ↔
      0 < align.toNat ∧ value.toNat + align.toNat < 2 ^ width ∧ answer := by
  rw [toNat_add_eq_iff, toNat_sub_one_eq_iff, toNat_sub_one_eq_iff]
  constructor
  · rintro ⟨hfits, _, hpos, hanswer⟩
    exact ⟨hpos, hfits, hanswer⟩
  · rintro ⟨hpos, hfits, hanswer⟩
    rw [BitVec.toNat_add_of_lt hfits]
    exact ⟨hfits, by omega, hpos, hanswer⟩

theorem alignUp_eq_ok_iff (value align rounded : UInt32) :
    (alignUp value align : Run ε UInt32) = .ok rounded ↔
      0 < align.toNat ∧ value.toNat + align.toNat < UInt32.size ∧
        rounded = Loadable.alignUp value align := by
  simp only [alignUp, bind_eq_ok_iff, exactly_eq_ok_iff, pure_eq_ok_iff, and_assoc,
    exists_eq_left]
  exact steps_exact_iff value.toBitVec align.toBitVec _

-- The last multiple of eight in the range is its own answer, but out of reach.
example : (alignUp 0xFFFFFFF8 8 : Run ε UInt32) = .error (.wrapped 0x100000000) := rfl

theorem alignUp64_eq_ok_iff (value align rounded : UInt64) :
    (alignUp64 value align : Run ε UInt64) = .ok rounded ↔
      0 < align.toNat ∧ value.toNat + align.toNat < UInt64.size ∧
        rounded = Loadable.alignUp64 value align := by
  simp only [alignUp64, bind_eq_ok_iff, exactly_eq_ok_iff, pure_eq_ok_iff, and_assoc,
    exists_eq_left]
  exact steps_exact_iff value.toBitVec align.toBitVec _

end Loadable.Guarded
