import SwarmFlight.Proofs.Number.Size

/-!
# A number and its opposite

A significand and an exponent that a word can hold come back from it as they were packed
(`Number.unpack_pack_of_fits`). So the opposite of a finite number differs from it in its sign only
(`Number.unpack_neg`), and the range from the opposite of a positive number up to the number is not
empty and has a finite length (`Number.IsPositive.neg_lt`, `Number.IsPositive.isFinite_sub_neg`),
unless the number is too large.
-/

namespace SwarmFlight

open Float.Model Float.Model.UnpackedFloat

namespace Number

variable {x y : Float} {m n : Nat} {e f : Int} {s : Sign}

/-- Whether a word has room for a significand with an exponent. -/
def Fits (m : Nat) (e : Int) : Prop :=
  m < 2 ^ 52 ∧ e = -1074 ∨ m.log2 = 52 ∧ -1074 ≤ e ∧ e ≤ 971

/-- A number above zero whose exponent is at most `hi`. -/
def IsPositive (hi : Int) (x : Float) : Prop :=
  ∃ m e, ∃ hm : 0 < m, x.toModel.unpack = .finite .positive m e hm ∧ e ≤ hi

/-! ## Words -/

theorem exponent_bounds {d : Dyadic} (h : Datum.ofFloat x = .finite d) :
    -1074 ≤ d.exponent ∧ d.exponent ≤ 971 := by
  have hfield : ((x.toBits >>> 52) &&& 0x7ff).toNat ≤ 2047 := by
    rw [UInt64.toNat_and]
    exact Nat.and_le_right
  simp only [Datum.ofFloat, Datum.ofBits] at h
  split at h
  · split at h <;> cases h
  · split at h
    all_goals
      cases h
      constructor <;> dsimp only <;> omega

theorem fits_of_unpack {hm : 0 < m} (h : x.toModel.unpack = .finite s m e hm) : Fits m e := by
  have hdatum : Datum.ofFloat x = .finite ⟨s == .negative, m, e⟩ := by
    rw [Datum.ofFloat_eq, h]
    rfl
  obtain ⟨hlo, hhi⟩ := exponent_bounds hdatum
  obtain ⟨hlt, hbig⟩ := Datum.fields_of_finite hdatum
  by_cases hsmall : m < 2 ^ 52
  · exact .inl ⟨hsmall, hbig.resolve_right (Nat.not_le.2 hsmall)⟩
  · exact .inr ⟨(Nat.log2_eq_iff hm.ne').2 ⟨Nat.not_lt.1 hsmall, hlt⟩, hlo, hhi⟩

/-- What is below the least number with 53 bits has a word of its own. -/
theorem unpack_pack_of_lt (hm : 0 < m) (hlt : m < 2 ^ 52) :
    UnpackedFloat.unpack Format.binary64
        (UnpackedFloat.pack Format.binary64 (.finite s m (-1074) hm)) =
      .finite s m (-1074) hm := by
  have hlog : ¬ m.log2 + 1 = Format.binary64.mantissaBits := by
    have hlog := (Nat.log2_lt hm.ne').2 hlt
    show ¬ m.log2 + 1 = 53
    omega
  have hbiased : (-1074 + (Format.binary64.exponentBias : Int) +
      (Format.binary64.mantissaBitsWithoutImplicit : Nat)).toNat = 1 := by decide
  have hroom : ¬ 2 ^ Format.binary64.exponentBits ≤ 1 + 1 := by decide
  have hmantissa : (BitVec.ofNat 52 m).toNat = m := Nat.mod_eq_of_lt hlt
  have hne : BitVec.ofNat 52 m ≠ 0#52 := fun heq =>
    hm.ne' (hmantissa.symm.trans (congrArg BitVec.toNat heq))
  have hnot : 0#11 ≠ -1#11 := by decide
  simp only [UnpackedFloat.pack, hbiased, if_neg hroom, if_neg hlog]
  rw [UnpackedFloat.unpack]
  simp only [unpackMantissa_packComponents, unpackExponent_packComponents,
    unpackSign_packComponents, Sign.ofBitVec_toBitVec, if_neg hnot, if_true]
  rw [dif_neg hne]
  congr 1

theorem unpack_pack_of_fits {hm : 0 < m} (h : Fits m e) :
    UnpackedFloat.unpack Format.binary64 (UnpackedFloat.pack Format.binary64 (.finite s m e hm)) =
      .finite s m e hm := by
  rcases h with ⟨hlt, rfl⟩ | ⟨hlog, hlo, hhi⟩
  · exact unpack_pack_of_lt hm hlt
  · exact unpack_pack hm hlog hlo hhi

theorem unpack_neg {hm : 0 < m} (h : x.toModel.unpack = .finite s m e hm) :
    (-x).toModel.unpack = .finite (-s) m e hm := by
  have hneg : (-x).toModel = Float.Model.pack (.finite (-s) m e hm) := by
    show Float.Model.pack x.toModel.unpack.neg = _
    rw [h]
    rfl
  rw [hneg]
  exact unpack_pack_of_fits (fits_of_unpack h)

/-! ## Doubling -/

/-- Nothing is rounded of a significand that stands at its place. -/
theorem round_self (hm : 0 < m) (h : Format.binary64.targetExponent (totalExponent m e) = e) :
    UnpackedFloat.round Format.binary64 s m e = .finite s m e hm := by
  have hshift : ∀ em : ExtendedMantissa, em >>> 0 = em := fun _ => rfl
  have hrounded : (ExtendedMantissa.ofMantissaAndAccuracy m .exact).roundedMantissa = m := rfl
  have hmantissa : (ExtendedMantissa.ofMantissaAndAccuracy m .exact).mantissa = m := rfl
  simp only [UnpackedFloat.round, h, decreaseExponent, sub_self, Int.toNat_zero,
    Nat.shiftLeft_zero, Nat.cast_zero, sub_zero, add_zero, roundWithAccuracy,
    shiftToTargetExponent, shiftToExponent, hshift, hrounded, hmantissa, dif_neg hm.ne']

theorem round_of_lt (hm : 0 < m) (hlt : m < 2 ^ 53) :
    UnpackedFloat.round Format.binary64 s m (-1074) = .finite s m (-1074) hm := by
  have hlog := (Nat.log2_lt hm.ne').2 hlt
  have hmin : Format.binary64.minExponent = -1074 := rfl
  have hbits : Format.binary64.mantissaBits = 53 := rfl
  refine round_self hm ?_
  rw [Format.targetExponent, totalExponent, hmin, hbits]
  omega

/-- The double of a significand fits again if the exponent leaves room for it. -/
theorem round_double (hm : 0 < m) (h : Fits m e) (hhi : e ≤ 969) :
    ∃ n f, ∃ hn : 0 < n, UnpackedFloat.round Format.binary64 s (2 * m) e = .finite s n f hn ∧
      Fits n f := by
  rcases h with ⟨hlt, rfl⟩ | ⟨hlog, hlo, -⟩
  · refine ⟨2 * m, -1074, by omega, round_of_lt _ (by omega), ?_⟩
    by_cases hsmall : 2 * m < 2 ^ 52
    · exact .inl ⟨hsmall, rfl⟩
    · exact .inr ⟨(Nat.log2_eq_iff (by omega)).2 ⟨by omega, by omega⟩, by decide, by decide⟩
  · have hlog2 : (2 * m).log2 = 53 := by
      rw [Nat.mul_comm]
      exact (log2_mul_two_pow hm.ne' 1).trans (by omega)
    obtain ⟨n, f, hn, hround, hlogn, hlow, hhigh⟩ :=
      round_eq (m := 2 * m) (e := e) (s := s) (by omega) (by unfold totalExponent; omega)
    unfold totalExponent at hlow hhigh
    exact ⟨n, f, hn, hround, .inr ⟨hlogn, by omega, by omega⟩⟩

namespace IsPositive

/-- What lies above zero and not above a positive number has no higher exponent. -/
theorem of_not_lt (hx : x.isFinite) (hpos : ¬ x ≤ 0.0) (hge : ¬ y < x) (hy : IsPositive e y) :
    IsPositive e x := by
  obtain ⟨n, f, hn, huy, hf⟩ := hy
  rw [Datum.le_iff, Datum.unpack_zero] at hpos
  rw [Datum.lt_iff, huy] at hge
  rcases parts_of_isFinite hx with ⟨s, hs⟩ | ⟨s, m, g, hm, hs⟩
  · rw [hs] at hpos
    exact absurd rfl hpos
  · rw [hs] at hpos hge
    cases s with
    | negative => exact absurd rfl hpos
    | positive =>
      refine ⟨m, g, hm, hs, not_lt.1 fun hlt => hge ?_⟩
      have hfg : compare f g = .lt := Int.compare_eq_lt.2 (hf.trans_lt hlt)
      simp only [UnpackedFloat.lt, UnpackedFloat.compare, hfg]
      rfl

theorem neg_lt (hx : IsPositive e x) : -x < x := by
  obtain ⟨m, f, hm, hu, -⟩ := hx
  rw [Datum.lt_iff, unpack_neg hu, hu]
  rfl

theorem isFinite_neg (hx : IsPositive e x) : (-x).isFinite := by
  obtain ⟨m, f, hm, hu, -⟩ := hx
  show (-x).toModel.unpack.isFinite = true
  rw [unpack_neg hu]
  rfl

theorem isFinite_sub_neg (hx : IsPositive 969 x) : (x - -x).isFinite := by
  obtain ⟨m, e, hm, hu, hhi⟩ := hx
  obtain ⟨n, f, hn, hround, hfits⟩ := round_double (s := .positive) hm (fits_of_unpack hu) hhi
  have hpos : (0 : Int) < (m : Int) - -(m : Int) := by omega
  have hdiff : UnpackedFloat.sub Format.binary64 x.toModel.unpack (-x).toModel.unpack =
      .finite .positive n f hn := by
    rw [hu, unpack_neg hu]
    have hnat : ((m : Int) - -(m : Int)).toNat = 2 * m := by omega
    simp only [UnpackedFloat.sub, decreaseExponent, min_self, sub_self, Int.toNat_zero,
      Nat.shiftLeft_zero]
    show UnpackedFloat.normalize Format.binary64 ((m : Int) - -(m : Int)) e .positive = _
    rw [UnpackedFloat.normalize, Int.compare_eq_gt.2 hpos, hnat]
    exact hround
  have hunpack : (x - -x).toModel.unpack = .finite .positive n f hn := by
    refine (congrArg (fun u => (Float.Model.pack u).unpack) hdiff).trans ?_
    exact unpack_pack_of_fits hfits
  show (x - -x).toModel.unpack.isFinite = true
  rw [hunpack]
  rfl

end IsPositive

end Number

end SwarmFlight
