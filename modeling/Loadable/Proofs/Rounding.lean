import Loadable.Proofs.Guarded
import Mathlib.Algebra.Order.Floor.Div
import Mathlib.Order.Bounds.Basic

namespace Loadable

-- What a value can be rounded up to.
def multiplesFrom (align value : Nat) : Set Nat := {multiple | align ∣ multiple ∧ value ≤ multiple}

theorem multiplesFrom_subset (align : Nat) {value larger : Nat} (h : value ≤ larger) :
    multiplesFrom align larger ⊆ multiplesFrom align value :=
  fun _ hmultiple => ⟨hmultiple.1, h.trans hmultiple.2⟩

theorem isLeast_roundUp (value : Nat) {align : Nat} (h : 0 < align) :
    IsLeast (multiplesFrom align value) (roundUp value align) := by
  refine ⟨⟨Nat.dvd_of_mod_eq_zero (roundUp_mod value align), le_roundUp value h⟩, ?_⟩
  rintro _ ⟨⟨quotient, rfl⟩, hle⟩
  have hquotient : value ⌈/⌉ align ≤ quotient := (ceilDiv_le_iff_le_mul h).mpr hle
  calc
    roundUp value align = align * (value ⌈/⌉ align) := by
      rw [roundUp, Nat.ceilDiv_eq_add_pred_div, Nat.mul_comm]
    _ ≤ align * quotient := Nat.mul_le_mul_left align hquotient

theorem roundUp_of_dvd {value align : Nat} (hpos : 0 < align) (h : align ∣ value) :
    roundUp value align = value :=
  (isLeast_roundUp value hpos).unique ⟨⟨h, le_rfl⟩, fun _ hmultiple => hmultiple.2⟩

theorem roundUp_le_roundUp {value larger align : Nat} (hpos : 0 < align) (h : value ≤ larger) :
    roundUp value align ≤ roundUp larger align :=
  (isLeast_roundUp larger hpos).mono (isLeast_roundUp value hpos) (multiplesFrom_subset align h)

theorem dvd_two_pow_of_lt {align width : Nat} (hpow : align.isPowerOfTwo)
    (hlt : align < 2 ^ width) : align ∣ 2 ^ width := by
  obtain ⟨k, rfl⟩ := hpow
  exact Nat.pow_dvd_pow 2 ((Nat.pow_lt_pow_iff_right (by decide)).mp hlt).le

-- What rounding up to multiples of `align` comes to on words that count up to `size`. The values
-- to be rounded are those for which the number behind the mask is in the range. `guarded` is the
-- same rounding with no step that may wrap, and nothing else that it could stop at.
structure RoundsUp {word : Type} (toNat : word → Nat) (size : Nat) (align : word)
    (round : word → word) (guarded : word → Guarded.Run Empty word) : Prop where
  isLeast : ∀ value, toNat value + toNat align - 1 < size →
    IsLeast (multiplesFrom (toNat align) (toNat value)) (toNat (round value))
  lt : ∀ value, toNat value + toNat align - 1 < size →
    toNat (round value) < toNat value + toNat align
  idempotent : ∀ value, toNat value + toNat align - 1 < size →
    toNat (round value) + toNat align - 1 < size ∧ round (round value) = round value
  monotone : ∀ value larger, toNat value ≤ toNat larger →
    toNat larger + toNat align - 1 < size → toNat (round value) ≤ toNat (round larger)
  guarded_eq_ok_iff : ∀ value rounded, guarded value = .ok rounded ↔
    toNat value + toNat align < size ∧ rounded = round value

section

variable {word : Type} {toNat : word → Nat} {size : Nat} {align : word} {round : word → word}
  {guarded : word → Guarded.Run Empty word}

theorem RoundsUp.of_roundUp (hinjective : Function.Injective toNat) (hpos : 0 < toNat align)
    (hdvd : toNat align ∣ size)
    (hround : ∀ value, toNat value + toNat align - 1 < size →
      toNat (round value) = roundUp (toNat value) (toNat align))
    (hguarded : ∀ value rounded, guarded value = .ok rounded ↔
      0 < toNat align ∧ toNat value + toNat align < size ∧ rounded = round value) :
    RoundsUp toNat size align round guarded where
  isLeast value hfits := by
    rw [hround value hfits]
    exact isLeast_roundUp (toNat value) hpos
  lt value hfits := by
    rw [hround value hfits]
    exact roundUp_lt (toNat value) hpos
  idempotent value hfits := by
    -- The size is a multiple too, so there is one more between the rounded value and the size.
    have hle : roundUp (toNat value) (toNat align) ≤ size - toNat align :=
      (isLeast_roundUp (toNat value) hpos).2 ⟨Nat.dvd_sub hdvd (dvd_refl _), by omega⟩
    have hagain : toNat (round value) + toNat align - 1 < size := by
      rw [hround value hfits]
      omega
    refine ⟨hagain, hinjective ?_⟩
    rw [hround (round value) hagain, hround value hfits, roundUp_of_dvd hpos]
    exact Nat.dvd_of_mod_eq_zero (roundUp_mod _ _)
  monotone value larger hle hfits := by
    rw [hround value (by omega), hround larger hfits]
    exact roundUp_le_roundUp hpos hle
  guarded_eq_ok_iff value rounded := by
    rw [hguarded]
    exact and_iff_right hpos

end

-- The narrow mask and the wide one differ above the narrow range, where there is nothing to clear.
theorem alignUp64_toUInt64 {value align : UInt32}
    (h : value.toNat + align.toNat - 1 < UInt32.size) :
    alignUp64 value.toUInt64 align.toUInt64 = (alignUp value align).toUInt64 := by
  rcases Nat.eq_zero_or_pos align.toNat with hzero | hpos
  · obtain rfl : align = 0 := UInt32.toNat_inj.mp hzero
    -- The mask of zero covers everything, whatever the sum was.
    simp [alignUp, alignUp64]
  · have hwide : UInt32.size < UInt64.size := by decide
    apply UInt64.toNat_inj.mp
    rw [UInt32.toNat_toUInt64, toNat_alignUp_eq_ldiff hpos h, toNat_alignUp64_eq_ldiff]
    · rw [UInt32.toNat_toUInt64, UInt32.toNat_toUInt64]
    · rwa [UInt32.toNat_toUInt64]
    · rw [UInt32.toNat_toUInt64, UInt32.toNat_toUInt64]
      omega

theorem guarded_alignUp64_toUInt64 {value align rounded : UInt32}
    (h : (Guarded.alignUp value align : Guarded.Run Empty UInt32) = .ok rounded) :
    (Guarded.alignUp64 value.toUInt64 align.toUInt64 : Guarded.Run Empty UInt64) =
      .ok rounded.toUInt64 := by
  obtain ⟨hpos, hfits, rfl⟩ := (Guarded.alignUp_eq_ok_iff value align rounded).mp h
  have hwide : UInt32.size < UInt64.size := by decide
  refine (Guarded.alignUp64_eq_ok_iff _ _ _).mpr ⟨?_, ?_, ?_⟩
  · rwa [UInt32.toNat_toUInt64]
  · rw [UInt32.toNat_toUInt64, UInt32.toNat_toUInt64]
    omega
  · exact (alignUp64_toUInt64 (by omega)).symm

-- Rounding up to a power of two is exact in both widths, for all values up to the last multiple in
-- the range. For that multiple alone the sum wraps, and the step down brings it back; a guarded run
-- does not get that far.
theorem rounding_up_gives_least_multiple :
    (∀ align : UInt32, align.toNat.isPowerOfTwo →
      RoundsUp UInt32.toNat UInt32.size align (alignUp · align)
        (Guarded.alignUp · align)) ∧
      (∀ align : UInt64, align.toNat.isPowerOfTwo →
        RoundsUp UInt64.toNat UInt64.size align (alignUp64 · align)
          (Guarded.alignUp64 · align)) ∧
      ∀ value align : UInt32,
        (value.toNat + align.toNat - 1 < UInt32.size →
          alignUp64 value.toUInt64 align.toUInt64 = (alignUp value align).toUInt64) ∧
        ∀ rounded, (Guarded.alignUp value align : Guarded.Run Empty UInt32) = .ok rounded →
          (Guarded.alignUp64 value.toUInt64 align.toUInt64 : Guarded.Run Empty UInt64) =
            .ok rounded.toUInt64 := by
  refine ⟨fun align hpow => ?_, fun align hpow => ?_, fun value align =>
    ⟨alignUp64_toUInt64, fun _ => guarded_alignUp64_toUInt64⟩⟩
  · have ⟨k, hk⟩ := hpow
    exact .of_roundUp (fun _ _ => UInt32.toNat_inj.mp) (Nat.pos_of_isPowerOfTwo hpow)
      (dvd_two_pow_of_lt hpow align.toNat_lt) (fun value => toNat_alignUp hk)
      (fun value => Guarded.alignUp_eq_ok_iff value align)
  · have ⟨k, hk⟩ := hpow
    exact .of_roundUp (fun _ _ => UInt64.toNat_inj.mp) (Nat.pos_of_isPowerOfTwo hpow)
      (dvd_two_pow_of_lt hpow align.toNat_lt) (fun value => toNat_alignUp64 hk)
      (fun value => Guarded.alignUp64_eq_ok_iff value align)

-- Close to the end of the narrow range, at the end of the wide one, and for no power of two.
theorem sample_rounding_up :
    IsLeast (multiplesFrom 8 0xFFFFFFF1) (alignUp 0xFFFFFFF1 8).toNat ∧
      (alignUp 0xFFFFFFF1 8).toNat ≤ (alignUp 0xFFFFFFF8 8).toNat ∧
      (Guarded.alignUp 0xFFFFFFF1 8 : Guarded.Run Empty UInt32) = .ok 0xFFFFFFF8 ∧
      IsLeast (multiplesFrom 8 0xFFFFFFFFFFFFFFF8) (alignUp64 0xFFFFFFFFFFFFFFF8 8).toNat ∧
      alignUp64 (alignUp64 0xFFFFFFFFFFFFFFF8 8) 8 = alignUp64 0xFFFFFFFFFFFFFFF8 8 ∧
      alignUp64 0xFFFFFFF8 8 = (alignUp 0xFFFFFFF8 8).toUInt64 ∧
      (Guarded.alignUp64 10 3 : Guarded.Run Empty UInt64) = .ok 12 := by
  obtain ⟨hnarrow, hwide, hagree⟩ := rounding_up_gives_least_multiple
  have hwords := hnarrow 8 ⟨3, rfl⟩
  have hlong := hwide 8 ⟨3, rfl⟩
  exact ⟨hwords.isLeast 0xFFFFFFF1 (by decide),
    hwords.monotone 0xFFFFFFF1 0xFFFFFFF8 (by decide) (by decide),
    (hwords.guarded_eq_ok_iff 0xFFFFFFF1 0xFFFFFFF8).mpr ⟨by decide, rfl⟩,
    hlong.isLeast 0xFFFFFFFFFFFFFFF8 (by decide),
    (hlong.idempotent 0xFFFFFFFFFFFFFFF8 (by decide)).2,
    (hagree 0xFFFFFFF8 8).1 (by decide), (hagree 10 3).2 12 rfl⟩

end Loadable
