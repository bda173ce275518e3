import Mathlib
import SwarmFlight.Number.Binary

/-!
# The datum of a number and the order of numbers

Lean compares numbers by unpacking their words; `Datum.ofFloat` splits the same words by
hand. The two agree (`Datum.ofFloat_eq`), so a number is finite, negative or positive
exactly when its datum says so (`isFinite_iff`, `lt_zero_iff`, `le_zero_iff`).

`Dyadic.magnitude` is the exact size of a finite number. Those of words have at most 53
significant bits (`Datum.fields_of_finite`), so one below `2 ^ 64` is below it by at least
`2 ^ 11` (`Datum.magnitude_le_of_lt`).
-/

namespace SwarmFlight

open Float.Model Float.Model.UnpackedFloat

/-! ## Words -/

namespace Datum

/-- The datum of an unpacked number. -/
def ofUnpacked : UnpackedFloat → Datum
  | .infinity s => .infinity (s == .negative)
  | .notANumber => .nan
  | .zero s => .finite ⟨s == .negative, 0, -1074⟩
  | .finite s m e _ => .finite ⟨s == .negative, m, e⟩

section Words

variable (w : UInt64)

theorem toNat_unpackExponent :
    (@unpackExponent Format.binary64 w.toBitVec).toNat
      = ((w >>> 52) &&& 0x7ff).toNat := by
  have h := Nat.and_two_pow_sub_one_eq_mod (w.toNat >>> 52) 11
  simp [unpackExponent, ← h]

theorem toNat_unpackMantissa :
    (@unpackMantissa Format.binary64 w.toBitVec).toNat
      = (w &&& 0xfffffffffffff).toNat := by
  have h := Nat.and_two_pow_sub_one_eq_mod w.toNat 52
  simp [unpackMantissa, ← h]

theorem toNat_unpackSign :
    (@unpackSign Format.binary64 w.toBitVec).toNat = (w >>> 63).toNat := by
  have hlt : w.toNat / 2 ^ 63 < 2 := by
    have := w.toNat_lt
    omega
  simp only [unpackSign, BitVec.toNat_cast, BitVec.extractLsb_toNat, UInt64.toNat_toBitVec,
    UInt64.toNat_shiftRight, Nat.shiftRight_eq_div_pow]
  exact Nat.mod_eq_of_lt hlt

theorem sign_unpackSign :
    (Sign.ofBitVec (@unpackSign Format.binary64 w.toBitVec) == .negative)
      = (w >>> 63 == 1) := by
  have hs := toNat_unpackSign w
  have hw : w >>> 63 == 1 ↔ (w >>> 63).toNat = 1 := by
    rw [beq_iff_eq, ← UInt64.toNat_inj]
    rfl
  generalize @unpackSign Format.binary64 w.toBitVec = b at *
  rw [Bool.eq_iff_iff, hw, ← hs]
  rcases BitVec.eq_zero_or_eq_one b with rfl | rfl <;> decide

theorem ofBits_eq : ofBits w = ofUnpacked (UnpackedFloat.unpack Format.binary64 w.toBitVec) := by
  have hinf : @unpackExponent Format.binary64 w.toBitVec = -1#_ ↔
      ((w >>> 52) &&& 0x7ff).toNat = 2047 := by
    rw [← toNat_unpackExponent, ← BitVec.toNat_inj]
    exact Iff.rfl
  have hsub : @unpackExponent Format.binary64 w.toBitVec = 0#_ ↔
      ((w >>> 52) &&& 0x7ff).toNat = 0 := by
    rw [← toNat_unpackExponent, ← BitVec.toNat_inj]
    exact Iff.rfl
  have hfrac : @unpackMantissa Format.binary64 w.toBitVec = 0#_ ↔
      (w &&& 0xfffffffffffff).toNat = 0 := by
    rw [← toNat_unpackMantissa, ← BitVec.toNat_inj]
    exact Iff.rfl
  have hone : (1#1 ++ @unpackMantissa Format.binary64 w.toBitVec).toNat
      = hiddenBit + (w &&& 0xfffffffffffff).toNat := by
    rw [BitVec.toNat_append, ← Nat.shiftLeft_add_eq_or_of_lt (BitVec.isLt _),
      toNat_unpackMantissa]
    rfl
  unfold ofBits UnpackedFloat.unpack
  simp only [hinf, hsub, hfrac, ← sign_unpackSign]
  split_ifs with h1 h2 h3 h4
  · rfl
  · rfl
  · simp only [ofUnpacked, h4]
  · simp only [ofUnpacked, toNat_unpackMantissa, toNat_unpackExponent, h3]
    rfl
  · simp only [ofUnpacked, hone, toNat_unpackExponent]
    rfl

end Words

variable {x : Float} {d : Dyadic}

/-- Splitting a word by hand gives what unpacking it gives. -/
theorem ofFloat_eq (x : Float) : ofFloat x = ofUnpacked x.toModel.unpack := ofBits_eq x.toBits

theorem unpack_of_finite (h : ofFloat x = .finite d) : x.toModel.unpack.isFinite = true := by
  rw [ofFloat_eq] at h
  cases hu : x.toModel.unpack <;> rw [hu] at h <;> first | rfl | cases h

theorem isFinite_iff : x.isFinite = true ↔ ∃ d, ofFloat x = .finite d := by
  constructor
  · intro h
    have hf : x.toModel.unpack.isFinite = true := h
    rw [ofFloat_eq]
    cases hu : x.toModel.unpack <;> rw [hu] at hf
    · cases hf
    · cases hf
    · exact ⟨_, rfl⟩
    · exact ⟨_, rfl⟩
  · rintro ⟨d, h⟩
    exact unpack_of_finite h

theorem lt_iff {x y : Float} : x < y ↔ x.toModel.unpack.lt y.toModel.unpack = true :=
  decide_eq_true_iff

theorem le_iff {x y : Float} : x ≤ y ↔ x.toModel.unpack.le y.toModel.unpack = true :=
  decide_eq_true_iff

theorem unpack_zero : (0.0 : Float).toModel.unpack = .zero .positive := by rfl

/-- A finite number is below zero if it has a sign and is not a negative zero. -/
theorem lt_zero_iff (h : ofFloat x = .finite d) :
    x < 0.0 ↔ d.negative = true ∧ d.significand ≠ 0 := by
  rw [ofFloat_eq] at h
  rw [lt_iff, unpack_zero]
  cases hu : x.toModel.unpack with
  | infinity s => rw [hu] at h; cases h
  | notANumber => rw [hu] at h; cases h
  | zero s =>
    rw [hu] at h
    cases h
    simp [UnpackedFloat.lt, UnpackedFloat.compare]
  | finite s m e hm =>
    rw [hu] at h
    cases h
    cases s with
    | negative => exact iff_of_true rfl ⟨rfl, hm.ne'⟩
    | positive => exact iff_of_false Bool.false_ne_true fun hn => Bool.false_ne_true hn.1

/-- A finite number is not above zero if it has a sign or is a zero. -/
theorem le_zero_iff (h : ofFloat x = .finite d) :
    x ≤ 0.0 ↔ d.negative = true ∨ d.significand = 0 := by
  rw [ofFloat_eq] at h
  rw [le_iff, unpack_zero]
  cases hu : x.toModel.unpack with
  | infinity s => rw [hu] at h; cases h
  | notANumber => rw [hu] at h; cases h
  | zero s =>
    rw [hu] at h
    cases h
    simp [UnpackedFloat.le, UnpackedFloat.compare]
  | finite s m e hm =>
    rw [hu] at h
    cases h
    cases s with
    | negative => exact iff_of_true rfl (.inl rfl)
    | positive => exact iff_of_false Bool.false_ne_true fun hn => hn.elim Bool.false_ne_true hm.ne'

end Datum

/-! ## Magnitudes -/

namespace Dyadic

variable (d : Dyadic)

/-- The exact absolute value. -/
def magnitude : ℚ := d.significand * 2 ^ d.exponent

theorem quotient_den_pos : 0 < d.quotient.2 := by
  unfold quotient
  split
  · exact Nat.one_pos
  · exact Nat.pow_pos (by decide)

/-- The magnitude is the quotient that conversions work with. -/
theorem magnitude_eq : d.magnitude = d.quotient.1 / d.quotient.2 := by
  unfold magnitude quotient
  split
  · rename_i h
    obtain ⟨n, hn⟩ := Int.eq_ofNat_of_zero_le h
    simp [hn]
  · rename_i h
    obtain ⟨n, hn⟩ := Int.eq_ofNat_of_zero_le (show 0 ≤ -d.exponent by omega)
    have he : d.exponent = -(n : ℤ) := by omega
    simp [he, div_eq_mul_inv]

end Dyadic

namespace Datum

variable {x : Float} {d : Dyadic}

/-- The fields of a finite number : an exponent of -1074 at least, a significand of 53 bits at most,
and of 53 bits exactly above the least exponent. -/
theorem fields_of_finite (h : ofFloat x = .finite d) : d.significand < 2 ^ 53 ∧
    (d.exponent = -1074 ∨ 2 ^ 52 ≤ d.significand) := by
  have hfrac : (x.toBits &&& 0xfffffffffffff).toNat < 2 ^ 52 := by
    rw [UInt64.toNat_and]
    exact Nat.lt_of_le_of_lt Nat.and_le_right (by decide)
  simp only [ofFloat, ofBits] at h
  split at h
  · split at h <;> cases h
  · split at h
    · cases h
      exact ⟨by dsimp only; omega, .inl rfl⟩
    · cases h
      simp only [hiddenBit]
      exact ⟨by omega, .inr (by omega)⟩

/-- The greatest number below `2 ^ 64` is `2 ^ 64 - 2 ^ 11`. -/
theorem magnitude_le_of_lt (h : ofFloat x = .finite d) (hlt : d.magnitude < 2 ^ 64) :
    d.magnitude ≤ 2 ^ 64 - 2 ^ 11 := by
  obtain ⟨hm, he⟩ := fields_of_finite h
  have hm' : (d.significand : ℚ) ≤ 2 ^ 53 - 1 := by
    have : ((d.significand + 1 : ℕ) : ℚ) ≤ ((2 ^ 53 : ℕ) : ℚ) := Nat.cast_le.2 hm
    push_cast at this
    linarith
  unfold Dyadic.magnitude at *
  rcases le_or_gt d.exponent 11 with hexp | hexp
  · have hp : (2 : ℚ) ^ d.exponent ≤ 2 ^ (11 : ℤ) := zpow_le_zpow_right₀ (by norm_num) hexp
    calc (d.significand : ℚ) * 2 ^ d.exponent
        ≤ (2 ^ 53 - 1) * 2 ^ (11 : ℤ) := mul_le_mul hm' hp (by positivity) (by norm_num)
      _ = 2 ^ 64 - 2 ^ 11 := by norm_num
  · have hbig : 2 ^ 52 ≤ d.significand := he.resolve_left (by omega)
    have hbig' : (2 : ℚ) ^ 52 ≤ d.significand := by exact_mod_cast hbig
    have hp : (2 : ℚ) ^ (12 : ℤ) ≤ 2 ^ d.exponent :=
      zpow_le_zpow_right₀ (by norm_num) (by omega)
    have : (2 : ℚ) ^ 52 * 2 ^ (12 : ℤ) ≤ d.significand * 2 ^ d.exponent :=
      mul_le_mul hbig' hp (by positivity) (by positivity)
    norm_num at this hlt
    linarith

end Datum

end SwarmFlight
