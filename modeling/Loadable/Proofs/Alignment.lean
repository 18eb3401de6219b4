import Loadable.Alignment
import Mathlib.Data.BitVec
import Mathlib.Data.Nat.Bitwise

namespace Loadable

-- The least multiple of `align` from `value` up, as a number of any size.
def roundUp (value align : Nat) : Nat := (value + align - 1) / align * align

theorem le_roundUp (value : Nat) {align : Nat} (h : 0 < align) : value ≤ roundUp value align := by
  have hmod := Nat.mod_lt (value + align - 1) h
  have hsum := Nat.div_add_mod' (value + align - 1) align
  unfold roundUp
  omega

theorem roundUp_lt (value : Nat) {align : Nat} (h : 0 < align) :
    roundUp value align < value + align := by
  have hle := Nat.div_mul_le_self (value + align - 1) align
  unfold roundUp
  omega

theorem roundUp_mod (value align : Nat) : roundUp value align % align = 0 := Nat.mul_mod_left _ _

-- Clearing the bits of a mask is the same on words of every width.
theorem toNat_and_not {width : Nat} (bits mask : BitVec width) :
    (bits &&& ~~~mask).toNat = Nat.ldiff bits.toNat mask.toNat := by
  apply Nat.eq_of_testBit_eq
  intro i
  rw [BitVec.testBit_toNat, BitVec.getLsbD_and, BitVec.getLsbD_not, Nat.testBit_ldiff,
    BitVec.testBit_toNat, BitVec.testBit_toNat]
  by_cases hi : i < width
  · simp [hi]
  · simp [BitVec.getLsbD_of_ge bits i (by omega)]

-- Clearing the bits below a power of two leaves a multiple of it.
theorem ldiff_two_pow_sub_one (bits k : Nat) :
    Nat.ldiff bits (2 ^ k - 1) = bits / 2 ^ k * 2 ^ k := by
  apply Nat.eq_of_testBit_eq
  intro i
  rw [Nat.testBit_ldiff, Nat.testBit_two_pow_sub_one, Nat.testBit_mul_two_pow,
    Nat.testBit_div_two_pow]
  by_cases hi : k ≤ i
  · rw [Nat.sub_add_cancel hi]
    simp [hi]
  · simp [hi, show i < k by omega]

theorem toNat_sub_one {width : Nat} {bits : BitVec width} (hpos : 0 < bits.toNat) :
    (bits - 1).toNat = bits.toNat - 1 := by
  have hlt := bits.isLt
  have hone : (1 : BitVec width).toNat = 1 :=
    (BitVec.toNat_ofNat 1 width).trans (Nat.mod_eq_of_lt (by omega))
  rw [BitVec.toNat_sub_of_le, hone]
  rw [BitVec.le_def, hone]
  exact hpos

-- The sum of both may just leave the range and come back with the step down: it is exact if that
-- step is taken first.
theorem toNat_add_sub_one_and_not {width : Nat} (value align : BitVec width)
    (hpos : 0 < align.toNat) (h : value.toNat + align.toNat - 1 < 2 ^ width) :
    ((value + align - 1) &&& ~~~(align - 1)).toNat =
      Nat.ldiff (value.toNat + align.toNat - 1) (align.toNat - 1) := by
  have hlast : (value + align - 1).toNat = value.toNat + align.toNat - 1 := by
    rw [add_sub_assoc, BitVec.toNat_add_of_lt, toNat_sub_one hpos, Nat.add_sub_assoc hpos]
    rw [toNat_sub_one hpos, ← Nat.add_sub_assoc hpos]
    exact h
  rw [toNat_and_not, hlast, toNat_sub_one hpos]

theorem toNat_alignUp_eq_ldiff {value align : UInt32} (hpos : 0 < align.toNat)
    (h : value.toNat + align.toNat - 1 < UInt32.size) :
    (alignUp value align).toNat =
      Nat.ldiff (value.toNat + align.toNat - 1) (align.toNat - 1) :=
  toNat_add_sub_one_and_not value.toBitVec align.toBitVec hpos h

theorem toNat_alignUp64_eq_ldiff {value align : UInt64} (hpos : 0 < align.toNat)
    (h : value.toNat + align.toNat - 1 < UInt64.size) :
    (alignUp64 value align).toNat =
      Nat.ldiff (value.toNat + align.toNat - 1) (align.toNat - 1) :=
  toNat_add_sub_one_and_not value.toBitVec align.toBitVec hpos h

theorem toNat_alignUp {value align : UInt32} {k : Nat} (hpow : align.toNat = 2 ^ k)
    (h : value.toNat + align.toNat - 1 < UInt32.size) :
    (alignUp value align).toNat = roundUp value.toNat align.toNat := by
  rw [toNat_alignUp_eq_ldiff (hpow ▸ Nat.two_pow_pos k) h, hpow, ldiff_two_pow_sub_one, roundUp]

theorem toNat_alignUp64 {value align : UInt64} {k : Nat} (hpow : align.toNat = 2 ^ k)
    (h : value.toNat + align.toNat - 1 < UInt64.size) :
    (alignUp64 value align).toNat = roundUp value.toNat align.toNat := by
  rw [toNat_alignUp64_eq_ldiff (hpow ▸ Nat.two_pow_pos k) h, hpow, ldiff_two_pow_sub_one, roundUp]

theorem toNat_pad64_of_lt {value : UInt64} (h : value.toNat + 7 < UInt64.size) :
    (pad64 value).toNat = roundUp value.toNat 8 := by
  have halign : alignment.toUInt64.toNat = 2 ^ 3 := rfl
  rw [pad64, toNat_alignUp64 halign (by rw [halign]; omega)]
  rfl

-- A size that came from a word can always be rounded up in 64 bits.
theorem toNat_pad64 (value : UInt32) : (pad64 value.toUInt64).toNat = roundUp value.toNat 8 := by
  have hvalue := value.toNat_lt
  have hsize : UInt64.size = 2 ^ 64 := rfl
  rw [toNat_pad64_of_lt, UInt32.toNat_toUInt64]
  rw [UInt32.toNat_toUInt64]
  omega

theorem mod_alignment_eq_zero_iff (word : UInt32) :
    word % alignment = 0 ↔ word.toNat % 8 = 0 := by
  rw [← UInt32.toNat_inj, UInt32.toNat_mod]
  rfl

end Loadable
