import Loadable.Checksum
import Mathlib.Data.Nat.Digits.Defs

namespace Loadable.Checksum

theorem low_bit (crc : UInt32) : crc &&& 1 = 0 ∨ crc &&& 1 = 1 := by
  have h : (crc &&& 1).toNat = crc.toNat % 2 := by
    rw [UInt32.toNat_and, UInt32.toNat_one, Nat.and_one_is_mod]
  rcases Nat.mod_two_eq_zero_or_one crc.toNat with h0 | h1
  · exact Or.inl (UInt32.toNat.inj (h.trans h0))
  · exact Or.inr (UInt32.toNat.inj (h.trans h1))

theorem low_bit_xor (a b : UInt32) : (a ^^^ b) &&& 1 = a &&& 1 ^^^ b &&& 1 := by
  apply UInt32.toNat.inj
  simp only [UInt32.toNat_and, UInt32.toNat_xor]
  exact Nat.and_xor_distrib_right

-- Adding the polynomial twice adds nothing.
theorem xor_xor_cancel (a b c : UInt32) : (a ^^^ c) ^^^ (b ^^^ c) = a ^^^ b := by
  have h : (a ^^^ c) ^^^ (b ^^^ c) = (a ^^^ b) ^^^ (c ^^^ c) := by ac_rfl
  rw [h, UInt32.xor_self, UInt32.xor_zero]

-- Each step is linear over exclusive or: it only depends on the difference of two
-- registers how the difference goes on.
theorem shift_xor (a b : UInt32) : shift (a ^^^ b) = shift a ^^^ shift b := by
  simp only [shift, low_bit_xor, UInt32.shiftRight_xor]
  rcases low_bit a with ha | ha <;> rcases low_bit b with hb | hb <;> simp [ha, hb]
  · ac_rfl
  · ac_rfl
  · exact (xor_xor_cancel _ _ _).symm

theorem shift_eq_zero {crc : UInt32} (h : shift crc = 0) : crc = 0 := by
  have hlow : (crc >>> 1).toNat = crc.toNat / 2 := by
    simp [UInt32.toNat_shiftRight, Nat.shiftRight_eq_div_pow]
  rcases low_bit crc with heven | hodd
  · have hhalf : crc >>> 1 = 0 := by simpa [shift, heven] using h
    have hbit : crc.toNat % 2 = 0 := by
      rw [← Nat.and_one_is_mod, ← UInt32.toNat_one, ← UInt32.toNat_and, heven]
      rfl
    rw [hhalf, UInt32.toNat_zero] at hlow
    apply UInt32.toNat.inj
    rw [UInt32.toNat_zero]
    omega
  · -- The polynomial has its top bit set, and no shifted register has.
    have hpoly : crc >>> 1 = polynomial := by simpa [shift, hodd] using h
    rw [hpoly] at hlow
    have hbound := crc.toNat_lt
    simp only [polynomial, UInt32.toNat_ofNat, Nat.reducePow, Nat.reduceMod] at hlow
    omega

theorem shift_injective : Function.Injective shift := by
  intro a b h
  have hzero : shift (a ^^^ b) = 0 := by rw [shift_xor, h, UInt32.xor_self]
  exact UInt32.xor_eq_zero_iff.mp (shift_eq_zero hzero)

theorem shift8_eq_iterate : shift8 = shift^[8] := rfl

theorem iterate_shift_xor (count : Nat) (a b : UInt32) :
    shift^[count] (a ^^^ b) = shift^[count] a ^^^ shift^[count] b := by
  induction count generalizing a b with
  | zero => rfl
  | succ count ih => simp only [Function.iterate_succ_apply, shift_xor, ih]

theorem iterate_shift_injective (count : Nat) : Function.Injective shift^[count] :=
  shift_injective.iterate count

-- An even register only moves down.
theorem shift_double (half : Nat) (h : 2 * half < UInt32.size) :
    shift (UInt32.ofNat (2 * half)) = UInt32.ofNat half := by
  have heven : UInt32.ofNat (2 * half) &&& 1 = 0 := by
    apply UInt32.toNat.inj
    rw [UInt32.toNat_and, UInt32.toNat_one, Nat.and_one_is_mod, UInt32.toNat_ofNat_of_lt' h]
    simp
  apply UInt32.toNat.inj
  simp only [shift, heven]
  rw [if_neg (by decide), UInt32.toNat_shiftRight, UInt32.toNat_ofNat_of_lt' h,
    UInt32.toNat_ofNat_of_lt' (by omega)]
  simp [Nat.shiftRight_eq_div_pow]

theorem iterate_shift_mul (count value : Nat) (h : 2 ^ count * value < UInt32.size) :
    shift^[count] (UInt32.ofNat (2 ^ count * value)) = UInt32.ofNat value := by
  induction count with
  | zero => simp
  | succ count ih =>
      have heq : 2 ^ (count + 1) * value = 2 * (2 ^ count * value) := by ring
      rw [heq] at h ⊢
      rw [Function.iterate_succ_apply, shift_double _ h, ih (by omega)]

-- The bytes of a window as one number, the first of them lowest.
def load (window : Bytes) : Nat := Nat.ofDigits 256 (window.map UInt8.toNat)

theorem load_cons (byte : UInt8) (window : Bytes) :
    load (byte :: window) = byte.toNat + 2 ^ 8 * load window := by
  simp [load, Nat.ofDigits_cons]

theorem digit_lt {window : Bytes} {digit : Nat} (h : digit ∈ window.map UInt8.toNat) :
    digit < 256 := by
  obtain ⟨byte, _, rfl⟩ := List.mem_map.mp h
  exact byte.toNat_lt

theorem load_lt (window : Bytes) : load window < 256 ^ window.length := by
  have hdigits : ∀ digit ∈ window.map UInt8.toNat, digit < 256 := fun _ => digit_lt
  have h := Nat.ofDigits_lt_base_pow_length (by decide) hdigits
  rwa [List.length_map] at h

theorem load_injective {a b : Bytes} (hlength : a.length = b.length) (h : load a = load b) :
    a = b := by
  have hmap := Nat.ofDigits_inj_of_len_eq (by decide) (by simpa using hlength)
    (fun _ => digit_lt) (fun _ => digit_lt) h
  exact (List.map_inj_right fun _ _ => UInt8.toNat.inj).mp hmap

theorem xor_two_pow_mul (low high : Nat) (h : low < 2 ^ 8) :
    low ^^^ 2 ^ 8 * high = low + 2 ^ 8 * high := by
  have hmod : (low ^^^ 2 ^ 8 * high) % 2 ^ 8 = low := by
    rw [Nat.xor_mod_two_pow, Nat.mod_eq_of_lt h, Nat.mul_mod_right, Nat.xor_zero]
  have hdiv : (low ^^^ 2 ^ 8 * high) / 2 ^ 8 = high := by
    rw [Nat.xor_div_two_pow, Nat.div_eq_of_lt h, Nat.mul_div_cancel_left _ (by decide),
      Nat.zero_xor]
  omega

-- Up to four bytes go through the register as if they had been added to it at once.
theorem foldl_step_eq (register : UInt32) (window : Bytes) (h : window.length ≤ 4) :
    window.foldl step register =
      shift^[8 * window.length] (register ^^^ UInt32.ofNat (load window)) := by
  induction window generalizing register with
  | nil => simp [load]
  | cons byte window ih =>
      simp only [List.length_cons] at h
      have hsmall : 2 ^ 8 * load window < UInt32.size := by
        have hload := load_lt window
        have hpow : 256 ^ window.length ≤ 256 ^ 3 := Nat.pow_le_pow_right (by decide) (by omega)
        have : UInt32.size = 2 ^ 8 * 256 ^ 3 := rfl
        omega
      have hword : UInt32.ofNat (load (byte :: window)) =
          byte.toUInt32 ^^^ UInt32.ofNat (2 ^ 8 * load window) := by
        rw [load_cons, ← xor_two_pow_mul _ _ byte.toNat_lt, UInt32.ofNat_xor,
          UInt32.ofNat_uInt8ToNat]
      calc
        window.foldl step (step register byte) =
            shift^[8 * window.length] (step register byte ^^^ UInt32.ofNat (load window)) :=
          ih _ (by omega)
        _ = shift^[8 * window.length] (shift^[8] (register ^^^ byte.toUInt32) ^^^
              shift^[8] (UInt32.ofNat (2 ^ 8 * load window))) := by
          rw [iterate_shift_mul 8 _ hsmall, step, shift8_eq_iterate]
        _ = shift^[8 * window.length + 8] (register ^^^ UInt32.ofNat (load (byte :: window))) := by
          rw [← iterate_shift_xor, hword, UInt32.xor_assoc, Function.iterate_add_apply]

theorem step_injective (byte : UInt8) : Function.Injective fun register => step register byte := by
  intro a b h
  exact (UInt32.xor_left_inj _).mp (iterate_shift_injective 8 h)

theorem foldl_step_injective (bytes : Bytes) :
    Function.Injective fun register => bytes.foldl step register := by
  induction bytes with
  | nil => exact fun _ _ h => h
  | cons byte rest ih => exact fun a b h => step_injective byte (ih h)

theorem foldl_step_window_injective (register : UInt32) {a b : Bytes} (ha : a.length ≤ 4)
    (hlength : a.length = b.length) (h : a.foldl step register = b.foldl step register) :
    a = b := by
  rw [foldl_step_eq register a ha, foldl_step_eq register b (hlength ▸ ha), hlength] at h
  have hword := (UInt32.xor_right_inj _).mp (iterate_shift_injective _ h)
  have hsize : ∀ bytes : Bytes, bytes.length ≤ 4 → load bytes < UInt32.size := by
    intro bytes hle
    exact (load_lt bytes).trans_le (Nat.pow_le_pow_right (by decide) hle)
  have hload := congrArg UInt32.toNat hword
  rw [UInt32.toNat_ofNat_of_lt' (hsize a ha), UInt32.toNat_ofNat_of_lt' (hsize b (hlength ▸ ha))]
    at hload
  exact load_injective hlength hload

-- A burst of up to four bytes anywhere in a string changes its checksum.
theorem crc32_burst (before after : Bytes) {a b : Bytes} (ha : a.length ≤ 4)
    (hlength : a.length = b.length)
    (h : crc32 (before ++ a ++ after) = crc32 (before ++ b ++ after)) : a = b := by
  simp only [crc32, List.foldl_append] at h
  have hregister := foldl_step_injective after (UInt32.not_inj.mp h)
  exact foldl_step_window_injective _ ha hlength hregister

end Loadable.Checksum
