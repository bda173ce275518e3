import SwarmFlight.Duration
import SwarmFlight.Proofs.Number.Arithmetic

/-!
# The size of numbers

Rounding a number of at least 53 bits leaves a significand of just 53 bits, and the exponent
moves by one at most (`Number.roundWithAccuracy_eq`, `Number.round_eq`). So bounds of the
exponents of positive numbers (`Number.Scaled`) give bounds for their product, quotient and
sum.

Hence a span of time that is not zero is a positive number of seconds of a size that its
range allows for (`Duration.scaled_toSeconds`), and the ratio of two spans is finite
(`Duration.isFinite_ratio`).
-/

namespace SwarmFlight

open Float.Model Float.Model.UnpackedFloat

namespace Number

variable {x y : Float} {m n : Nat} {e f : Int} {s : Sign} {r : Accuracy}

/-! ## Rounding -/

theorem targetExponent_eq {t : Int} (h : -1021 ≤ t) :
    Format.binary64.targetExponent t = t - 53 := by
  have hmin : Format.binary64.minExponent = -1074 := rfl
  have hbits : Format.binary64.mantissaBits = 53 := rfl
  rw [Format.targetExponent, hmin, hbits]
  omega

theorem mantissa_shiftRight (em : ExtendedMantissa) (k : Nat) :
    (em >>> k).mantissa = em.mantissa / 2 ^ k := by
  induction k with
  | zero => exact (Nat.div_one _).symm
  | succ k ih =>
    show (em >>> k).mantissa / 2 = _
    rw [ih, Nat.div_div_eq_div_mul, Nat.pow_succ]

theorem mantissa_ofMantissaAndAccuracy (m : Nat) (r : Accuracy) :
    (ExtendedMantissa.ofMantissaAndAccuracy m r).mantissa = m := by
  rcases r with _ | ⟨_ | _ | _⟩ <;> rfl

/-- Rounding takes a significand to itself or the next one. -/
theorem roundedMantissa_bounds (em : ExtendedMantissa) :
    em.mantissa ≤ em.roundedMantissa ∧ em.roundedMantissa ≤ em.mantissa + 1 := by
  obtain ⟨m, _ | _, _ | _⟩ := em <;>
    simp only [ExtendedMantissa.roundedMantissa, ExtendedMantissa.accuracy,
      Accuracy.roundToNearestEven] <;> omega

/-- A significand of 53 bits at least is shifted until it has 53 bits. -/
theorem shiftToTargetExponent_eq (hlog : 52 ≤ m.log2) (hlow : -1021 ≤ totalExponent m e) :
    shiftToTargetExponent Format.binary64 m e r =
      (ExtendedMantissa.ofMantissaAndAccuracy m r >>> (m.log2 - 52),
        e + (m.log2 - 52 : Nat)) := by
  have hshift : (totalExponent m e - 53 - e).toNat = m.log2 - 52 := by
    unfold totalExponent
    omega
  simp only [shiftToTargetExponent, targetExponent_eq hlow, shiftToExponent, hshift]

theorem div_two_pow_bounds (hlog : 52 ≤ m.log2) :
    2 ^ 52 ≤ m / 2 ^ (m.log2 - 52) ∧ m / 2 ^ (m.log2 - 52) < 2 ^ 53 := by
  have hm : m ≠ 0 := by
    rintro rfl
    rw [Nat.log2_zero] at hlog
    omega
  have hpow : 0 < 2 ^ (m.log2 - 52) := Nat.two_pow_pos _
  constructor
  · rw [Nat.le_div_iff_mul_le hpow, ← Nat.pow_add, Nat.add_sub_cancel' hlog]
    exact Nat.log2_self_le hm
  · rw [Nat.div_lt_iff_lt_mul hpow, ← Nat.pow_add,
      show 53 + (m.log2 - 52) = m.log2 + 1 by omega]
    exact Nat.lt_log2_self

/-- What is rounded keeps its size or gets to the next power of two. -/
theorem roundWithAccuracy_eq (hlog : 52 ≤ m.log2) (hlow : -1021 ≤ totalExponent m e) :
    ∃ n f, ∃ hn : 0 < n, roundWithAccuracy Format.binary64 s m e r = .finite s n f hn ∧
      n.log2 = 52 ∧ totalExponent m e - 53 ≤ f ∧ f ≤ totalExponent m e - 52 := by
  obtain ⟨hge, hlt⟩ := div_two_pow_bounds hlog
  let em := ExtendedMantissa.ofMantissaAndAccuracy m r >>> (m.log2 - 52)
  have hem : em.mantissa = m / 2 ^ (m.log2 - 52) := by
    rw [mantissa_shiftRight, mantissa_ofMantissaAndAccuracy]
  obtain ⟨hfloor, hceil⟩ := roundedMantissa_bounds em
  have hround : roundWithAccuracy Format.binary64 s m e r =
      let (final, exponent) := shiftToTargetExponent Format.binary64 em.roundedMantissa
        (e + (m.log2 - 52 : Nat)) .exact
      if h : final.mantissa = 0 then .zero s
      else .finite s final.mantissa exponent (Nat.pos_of_ne_zero h) := by
    rw [roundWithAccuracy, shiftToTargetExponent_eq hlog hlow]
  have hbase : e + (m.log2 - 52 : Nat) = totalExponent m e - 53 := by
    unfold totalExponent
    omega
  rw [hround, hbase]
  have hpos : em.roundedMantissa ≠ 0 := by omega
  have hlog' : em.roundedMantissa.log2 = 52 ∨ em.roundedMantissa.log2 = 53 := by
    have h52 : 52 ≤ em.roundedMantissa.log2 := (Nat.le_log2 hpos).2 (by omega)
    have h54 : em.roundedMantissa.log2 < 54 := (Nat.log2_lt hpos).2 (by omega)
    omega
  have hlow' : -1021 ≤ totalExponent em.roundedMantissa (totalExponent m e - 53) := by
    rw [totalExponent]
    omega
  have hfinal := div_two_pow_bounds (show 52 ≤ em.roundedMantissa.log2 by omega)
  rw [shiftToTargetExponent_eq (by omega) hlow']
  simp only [mantissa_shiftRight, mantissa_ofMantissaAndAccuracy]
  have hne : em.roundedMantissa / 2 ^ (em.roundedMantissa.log2 - 52) ≠ 0 := by omega
  refine ⟨_, _, Nat.pos_of_ne_zero hne, dif_neg hne, (Nat.log2_eq_iff hne).2 hfinal, ?_, ?_⟩
  · omega
  · omega

theorem log2_mul_two_pow (hm : m ≠ 0) (k : Nat) : (m * 2 ^ k).log2 = m.log2 + k := by
  have hpow : 0 < 2 ^ k := Nat.two_pow_pos k
  rw [Nat.log2_eq_iff (Nat.mul_ne_zero hm hpow.ne'), Nat.pow_add,
    show m.log2 + k + 1 = m.log2 + 1 + k by omega, Nat.pow_add]
  exact ⟨Nat.mul_le_mul_right _ (Nat.log2_self_le hm),
    Nat.mul_lt_mul_of_pos_right Nat.lt_log2_self hpow⟩

theorem round_eq (hm : m ≠ 0) (hlow : -1021 ≤ totalExponent m e) :
    ∃ n f, ∃ hn : 0 < n, UnpackedFloat.round Format.binary64 s m e = .finite s n f hn ∧
      n.log2 = 52 ∧ totalExponent m e - 53 ≤ f ∧ f ≤ totalExponent m e - 52 := by
  let k := (e - (totalExponent m e - 53)).toNat
  have hdef : UnpackedFloat.round Format.binary64 s m e
      = roundWithAccuracy Format.binary64 s (m * 2 ^ k) (e - k) .exact := by
    simp only [UnpackedFloat.round, targetExponent_eq hlow, decreaseExponent, Nat.shiftLeft_eq]
    rfl
  have hk : k = 52 - m.log2 := by
    show (e - (totalExponent m e - 53)).toNat = _
    unfold totalExponent
    omega
  have hlog := log2_mul_two_pow hm k
  have htotal : totalExponent (m * 2 ^ k) (e - k) = totalExponent m e := by
    unfold totalExponent
    omega
  rw [hdef, ← htotal]
  exact roundWithAccuracy_eq (by omega) (htotal ▸ hlow)

/-! ## Scales -/

/-- A positive number with a significand of 53 bits and an exponent between two bounds. -/
def Scaled (lo hi : Int) (x : Float) : Prop :=
  ∃ m e, ∃ hm : 0 < m, x.toModel.unpack = .finite .positive m e hm ∧ m.log2 = 52 ∧
    lo ≤ e ∧ e ≤ hi

theorem toNat_hidden_append (m : BitVec 52) : (1#1 ++ m).toNat = 2 ^ 52 + m.toNat := by
  rw [BitVec.toNat_append, ← Nat.shiftLeft_add_eq_or_of_lt m.isLt]
  rfl

/-- A number with a significand of 53 bits comes back from its word as it was packed. -/
theorem unpack_pack (hm : 0 < m) (hlog : m.log2 = 52) (hlo : -1074 ≤ e) (hhi : e ≤ 971) :
    UnpackedFloat.unpack Format.binary64 (UnpackedFloat.pack Format.binary64 (.finite s m e hm)) =
      .finite s m e hm := by
  obtain ⟨hge, hlt⟩ := (Nat.log2_eq_iff hm.ne').1 hlog
  have hbias : ((Format.binary64.exponentBias : Nat) : Int) = 1023 := rfl
  have hbits : m.log2 + 1 = Format.binary64.mantissaBits := by
    rw [hlog]
    rfl
  have hbiased : (e + Format.binary64.exponentBias +
      (Format.binary64.mantissaBitsWithoutImplicit : Nat)).toNat = (e + 1075).toNat := by
    rw [hbias]
    show (e + 1023 + 52).toNat = _
    omega
  have hroom : ¬ 2 ^ Format.binary64.exponentBits ≤ (e + 1075).toNat + 1 := by
    show ¬ 2048 ≤ _
    omega
  have hexp : (BitVec.ofNat 11 (e + 1075).toNat).toNat = (e + 1075).toNat :=
    Nat.mod_eq_of_lt (by omega)
  have hne1 : BitVec.ofNat 11 (e + 1075).toNat ≠ -1#11 := fun heq => by
    have htop : (e + 1075).toNat = 2047 := hexp.symm.trans (congrArg BitVec.toNat heq)
    omega
  have hne0 : BitVec.ofNat 11 (e + 1075).toNat ≠ 0#11 := fun heq => by
    have hbottom : (e + 1075).toNat = 0 := hexp.symm.trans (congrArg BitVec.toNat heq)
    omega
  simp only [UnpackedFloat.pack, hbiased, if_neg hroom, if_pos hbits]
  rw [UnpackedFloat.unpack]
  simp only [unpackMantissa_packComponents, unpackExponent_packComponents,
    unpackSign_packComponents, Sign.ofBitVec_toBitVec, if_neg hne1, if_neg hne0]
  congr 1
  · rw [toNat_hidden_append, BitVec.toNat_ofNat]
    omega
  · rw [hbias, hexp]
    show ((e + 1075).toNat : Int) - ((1023 : Int) + 52) = e
    omega

/-- What is rounded has a scale, unless that is out of range. -/
theorem scaled_of_pack {lo hi : Int} {u : UnpackedFloat} (h : x.toModel = Float.Model.pack u)
    (hu : ∃ n f, ∃ hn : 0 < n, u = .finite .positive n f hn ∧ n.log2 = 52 ∧ lo ≤ f ∧ f ≤ hi)
    (hlo : -1074 ≤ lo) (hhi : hi ≤ 971) : Scaled lo hi x := by
  obtain ⟨n, f, hn, rfl, hlog, hlof, hhif⟩ := hu
  refine ⟨n, f, hn, ?_, hlog, hlof, hhif⟩
  rw [h]
  exact unpack_pack hn hlog (hlo.trans hlof) (hhif.trans hhi)

namespace Scaled

variable {a b c d : Int}

theorem isFinite (h : Scaled a b x) : x.isFinite := by
  obtain ⟨m, e, hm, hx, -⟩ := h
  show x.toModel.unpack.isFinite = true
  rw [hx]
  rfl

theorem mono (h : Scaled a b x) (hlo : c ≤ a) (hhi : b ≤ d) : Scaled c d x := by
  obtain ⟨m, e, hm, hx, hlog, hae, heb⟩ := h
  exact ⟨m, e, hm, hx, hlog, hlo.trans hae, heb.trans hhi⟩

theorem mul (hx : Scaled a b x) (hy : Scaled c d y) (hlo : -1074 ≤ a + c + 52)
    (hhi : b + d + 54 ≤ 971) : Scaled (a + c + 52) (b + d + 54) (x * y) := by
  obtain ⟨m, e, hm, hux, hlogm, hae, heb⟩ := hx
  obtain ⟨n, f, hn, huy, hlogn, hcf, hfd⟩ := hy
  refine scaled_of_pack rfl ?_ hlo hhi
  rw [hux, huy]
  have hmn : m * n ≠ 0 := Nat.mul_ne_zero hm.ne' hn.ne'
  obtain ⟨hgem, hltm⟩ := (Nat.log2_eq_iff hm.ne').1 hlogm
  obtain ⟨hgen, hltn⟩ := (Nat.log2_eq_iff hn.ne').1 hlogn
  have hlog : 104 ≤ (m * n).log2 ∧ (m * n).log2 < 106 := by
    constructor
    · exact (Nat.le_log2 hmn).2 (le_of_eq_of_le (by norm_num) (Nat.mul_le_mul hgem hgen))
    · exact (Nat.log2_lt hmn).2 (lt_of_lt_of_eq (Nat.mul_lt_mul'' hltm hltn) (by norm_num))
  obtain ⟨k, g, hk, hround, hlogk, hlog', hhig⟩ :=
    roundWithAccuracy_eq (m := m * n) (e := e + f) (s := .positive) (r := .exact) (by omega)
      (by unfold totalExponent; omega)
  unfold totalExponent at hlog' hhig
  exact ⟨k, g, hk, hround, hlogk, by omega, by omega⟩

theorem div (hx : Scaled a b x) (hy : Scaled c d y) (hlo : -1021 ≤ a - d)
    (hhi : b - c - 51 ≤ 971) : Scaled (a - d - 53) (b - c - 51) (x / y) := by
  obtain ⟨m, e, hm, hux, hlogm, hae, heb⟩ := hx
  obtain ⟨n, f, hn, huy, hlogn, hcf, hfd⟩ := hy
  refine scaled_of_pack rfl ?_ (by omega) hhi
  rw [hux, huy]
  obtain ⟨hgem, hltm⟩ := (Nat.log2_eq_iff hm.ne').1 hlogm
  obtain ⟨hgen, hltn⟩ := (Nat.log2_eq_iff hn.ne').1 hlogn
  have hcore : divCore Format.binary64 m e n f =
      (m * 2 ^ 53 / n, e - f - 53, accuracyOfFraction (m * 2 ^ 53 % n) n) := by
    have htarget : Format.binary64.targetExponent (totalExponent m e - totalExponent n f)
        = e - f - 53 := by
      rw [targetExponent_eq (by unfold totalExponent; omega)]
      unfold totalExponent
      omega
    have hmin : min (e - f) (e - f - 53) = e - f - 53 := by omega
    have hshift : (e - f - (e - f - 53)).toNat = 53 := by omega
    simp only [divCore, htarget, hmin, hshift, Nat.shiftLeft_eq]
  have hge : 2 ^ 52 ≤ m * 2 ^ 53 / n := by
    rw [Nat.le_div_iff_mul_le hn]
    exact Nat.mul_le_mul hgem hltn.le
  have hlt : m * 2 ^ 53 / n < 2 ^ 54 := by
    rw [Nat.div_lt_iff_lt_mul hn]
    omega
  have hq : m * 2 ^ 53 / n ≠ 0 := by omega
  have hlog52 := (Nat.le_log2 hq).2 hge
  have hlog54 := (Nat.log2_lt hq).2 hlt
  obtain ⟨k, g, hk, hround, hlogk, hlog', hhig⟩ :=
    roundWithAccuracy_eq (m := m * 2 ^ 53 / n) (e := e - f - 53) (s := .positive)
      (r := accuracyOfFraction (m * 2 ^ 53 % n) n) hlog52 (by unfold totalExponent; omega)
  unfold totalExponent at hlog' hhig
  refine ⟨k, g, hk, ?_, hlogk, by omega, by omega⟩
  simp only [UnpackedFloat.div, hcore]
  exact hround

theorem add (hx : Scaled a b x) (hy : Scaled c d y) (hlo : -1021 ≤ max a c)
    (hhi : max b d + 2 ≤ 971) : Scaled (max a c) (max b d + 2) (x + y) := by
  obtain ⟨m, e, hm, hux, hlogm, hae, heb⟩ := hx
  obtain ⟨n, f, hn, huy, hlogn, hcf, hfd⟩ := hy
  refine scaled_of_pack rfl ?_ (by omega) hhi
  rw [hux, huy]
  let i := (e - min e f).toNat
  let j := (f - min e f).toNat
  have hsum : UnpackedFloat.add Format.binary64 (.finite .positive m e hm)
      (.finite .positive n f hn)
        = UnpackedFloat.round Format.binary64 .positive (m * 2 ^ i + n * 2 ^ j) (min e f) := by
    have hpos : (0 : Int) < ((m * 2 ^ i + n * 2 ^ j : Nat) : Int) := by
      have : 0 < m * 2 ^ i := Nat.mul_pos hm (Nat.two_pow_pos i)
      omega
    simp only [UnpackedFloat.add, decreaseExponent, Nat.shiftLeft_eq, Sign.apply]
    rw [← Nat.cast_add, UnpackedFloat.normalize, Int.compare_eq_gt.2 hpos]
    rfl
  have hne : m * 2 ^ i + n * 2 ^ j ≠ 0 := by
    have : 0 < m * 2 ^ i := Nat.mul_pos hm (Nat.two_pow_pos i)
    omega
  obtain ⟨hgem, hltm⟩ := (Nat.log2_eq_iff hm.ne').1 hlogm
  obtain ⟨hgen, hltn⟩ := (Nat.log2_eq_iff hn.ne').1 hlogn
  have hlowi : 52 + i ≤ (m * 2 ^ i + n * 2 ^ j).log2 := by
    rw [Nat.le_log2 hne, Nat.pow_add]
    exact (Nat.mul_le_mul_right _ hgem).trans (Nat.le_add_right _ _)
  have hlowj : 52 + j ≤ (m * 2 ^ i + n * 2 ^ j).log2 := by
    rw [Nat.le_log2 hne, Nat.pow_add]
    exact (Nat.mul_le_mul_right _ hgen).trans (Nat.le_add_left _ _)
  have hhigh : (m * 2 ^ i + n * 2 ^ j).log2 < 54 + max i j := by
    have hi : 2 ^ i ≤ 2 ^ max i j := Nat.pow_le_pow_right (by decide) (le_max_left i j)
    have hj : 2 ^ j ≤ 2 ^ max i j := Nat.pow_le_pow_right (by decide) (le_max_right i j)
    rw [Nat.log2_lt hne, Nat.pow_add]
    calc m * 2 ^ i + n * 2 ^ j
        < 2 ^ 53 * 2 ^ max i j + 2 ^ 53 * 2 ^ max i j :=
          Nat.add_lt_add (Nat.mul_lt_mul_of_lt_of_le hltm hi (Nat.two_pow_pos _))
            (Nat.mul_lt_mul_of_lt_of_le hltn hj (Nat.two_pow_pos _))
      _ = 2 ^ 54 * 2 ^ max i j := by omega
  have hexp : ((max i j : Nat) : Int) + min e f = max e f := by omega
  obtain ⟨k, g, hk, hround, hlogk, hlog', hhig⟩ :=
    round_eq (e := min e f) (s := .positive) hne (by unfold totalExponent; omega)
  unfold totalExponent at hlog' hhig
  exact ⟨k, g, hk, hsum.trans hround, hlogk, by omega, by omega⟩

/-- A zero added changes no scale. -/
theorem add_isZero (hx : Scaled a b x) (hy : IsZero y) (hlo : -1074 ≤ a) (hhi : b ≤ 971) :
    Scaled a b (x + y) := by
  obtain ⟨m, e, hm, hux, hlog, hae, heb⟩ := hx
  obtain ⟨t, ht⟩ := hy
  refine scaled_of_pack rfl ⟨m, e, hm, ?_, hlog, hae, heb⟩ hlo hhi
  rw [hux, ht]
  rfl

theorem zero_add (hy : Scaled a b y) (hx : IsZero x) (hlo : -1074 ≤ a) (hhi : b ≤ 971) :
    Scaled a b (x + y) := by
  obtain ⟨m, e, hm, huy, hlog, hae, heb⟩ := hy
  obtain ⟨t, ht⟩ := hx
  refine scaled_of_pack rfl ⟨m, e, hm, ?_, hlog, hae, heb⟩ hlo hhi
  rw [huy, ht]
  rfl

end Scaled

/-- Below `2 ^ 64` a natural number keeps its size. -/
theorem scaled_ofNat (hn : n ≠ 0) (hlt : n < 2 ^ 64) :
    Scaled (n.log2 - 52) (n.log2 - 49) (Float.ofNat n) := by
  have hlog : n.log2 < 64 := (Nat.log2_lt hn).2 hlt
  by_cases hsmall : n < 2 ^ 53
  · have hdef : Float.ofNat n = n.toUInt64.toFloat * Float.ofBits 0x3FF0000000000000 :=
      dif_pos ⟨hsmall, by decide⟩
    have hround : Scaled (n.log2 - 52) (n.log2 - 51) n.toUInt64.toFloat := by
      have hnat : n.toUInt64.toNat = n := Nat.mod_eq_of_lt hlt
      have hpos : (0 : Int) < (n : Int) := by omega
      have hparts : UnpackedFloat.ofUInt64 Format.binary64 n.toUInt64
          = UnpackedFloat.round Format.binary64 .positive n 0 := by
        rw [UnpackedFloat.ofUInt64, hnat, UnpackedFloat.ofNat, UnpackedFloat.ofInt,
          UnpackedFloat.normalize, Int.compare_eq_gt.2 hpos]
        rfl
      obtain ⟨k, g, hk, hround, hlogk, hlog', hhig⟩ :=
        round_eq (e := 0) (s := .positive) hn (by unfold totalExponent; omega)
      unfold totalExponent at hlog' hhig
      exact scaled_of_pack rfl ⟨k, g, hk, hparts.trans hround, hlogk, by omega, by omega⟩
        (by omega) (by omega)
    have hone : Scaled (-52) (-52) (Float.ofBits 0x3FF0000000000000) :=
      ⟨2 ^ 52, -52, by decide, by rfl, by rfl, by decide, by decide⟩
    rw [hdef]
    exact (hround.mul hone (by omega) (by omega)).mono (by omega) (by omega)
  · have hdef : Float.ofNat n = Float.ofModel (Float.Model.ofScientific n 0) :=
      dif_neg fun h => hsmall h.1
    have hparts : UnpackedFloat.ofScientific Format.binary64 n 0
        = roundWithAccuracy Format.binary64 .positive (n * 2 ^ 53) (-53) .exact := by
      have hbits : Format.binary64.mantissaBits = 53 := rfl
      have hbig : ¬ (0 : Int) > 2 ^ Format.binary64.exponentBits := by decide
      have hdeep : ¬ (0 : Int) < -(2 ^ Format.binary64.exponentBits + (n.log2 : Int)) := by
        have : (0 : Int) ≤ 2 ^ Format.binary64.exponentBits := by decide
        omega
      simp only [UnpackedFloat.ofScientific, dif_neg hn, if_neg hbig, if_neg hdeep, le_refl,
        if_true, UnpackedFloat.mul, hbits, Nat.shiftLeft_eq, Int.toNat_zero, Nat.pow_zero,
        Nat.mul_one]
      rfl
    have hlogn := log2_mul_two_pow hn 53
    obtain ⟨k, g, hk, hround, hlogk, hlog', hhig⟩ :=
      roundWithAccuracy_eq (m := n * 2 ^ 53) (e := -53) (s := .positive) (r := .exact)
        (by omega) (by unfold totalExponent; omega)
    unfold totalExponent at hlog' hhig
    rw [hdef]
    exact scaled_of_pack rfl ⟨k, g, hk, hparts.trans hround, hlogk, by omega, by omega⟩
      (by omega) (by omega)

theorem isZero_ofNat_zero : IsZero (Float.ofNat 0) := ⟨.positive, by rfl⟩

end Number

/-! ## Seconds -/

namespace Duration

open Number

variable {a b d : Duration}

theorem scaled_billion : Scaled (-23) (-23) 1e9 :=
  ⟨10 ^ 9 * 2 ^ 23, -23, by decide, by rfl, by rfl, by decide, by decide⟩

theorem isZero_subsecond (h : d.subsecond = 0) : IsZero (Float.ofNat d.subsecond / 1e9) := by
  obtain ⟨m, e, hm, hu, -⟩ := scaled_billion
  rw [h]
  exact isZero_ofNat_zero.div hu

theorem scaled_subsecond (h : d.subsecond ≠ 0) :
    Scaled (-82) (-48) (Float.ofNat d.subsecond / 1e9) := by
  have hlt : d.subsecond < 2 ^ 30 := (Nat.mod_lt _ (by decide)).trans (by decide)
  have hlog : d.subsecond.log2 < 30 := (Nat.log2_lt h).2 hlt
  exact ((scaled_ofNat h (by omega)).div scaled_billion (by omega) (by omega)).mono
    (by omega) (by omega)

theorem isZero_toSeconds_zero : IsZero zero.toSeconds :=
  isZero_ofNat_zero.add (isZero_subsecond rfl)

/-- A number of seconds is positive unless it stands for no time at all. -/
theorem scaled_toSeconds (h : d ≠ zero) : Scaled (-82) 16 d.toSeconds := by
  have hlt : d.seconds < 2 ^ 64 := Nat.div_lt_of_lt_mul (Nat.mul_comm _ _ ▸ d.inRange)
  unfold toSeconds
  by_cases hwhole : d.seconds = 0
  · have hpart : d.subsecond ≠ 0 := by
      intro hpart
      refine h (ext ?_)
      rw [← Nat.div_add_mod d.nanos nanosPerSecond]
      change nanosPerSecond * d.seconds + d.subsecond = 0
      rw [hwhole, hpart]
      rfl
    rw [hwhole]
    exact ((scaled_subsecond hpart).zero_add isZero_ofNat_zero (by omega) (by omega)).mono
      (by omega) (by omega)
  · have hscaled := scaled_ofNat hwhole hlt
    have hlog := (Nat.log2_lt hwhole).2 hlt
    by_cases hpart : d.subsecond = 0
    · exact (hscaled.add_isZero (isZero_subsecond hpart) (by omega) (by omega)).mono
        (by omega) (by omega)
    · exact (hscaled.add (scaled_subsecond hpart) (by omega) (by omega)).mono
        (by omega) (by omega)

/-- The part that one span of time is of another is zero if the first is no time at all. -/
theorem isZero_ratio (h : b ≠ zero) : IsZero (zero.toSeconds / b.toSeconds) := by
  obtain ⟨m, e, hm, hu, -⟩ := scaled_toSeconds h
  exact isZero_toSeconds_zero.div hu

theorem isFinite_ratio (h : b ≠ zero) : (a.toSeconds / b.toSeconds).isFinite := by
  by_cases ha : a = zero
  · rw [ha]
    exact (isZero_ratio h).isFinite
  · exact ((scaled_toSeconds ha).div (scaled_toSeconds h) (by decide) (by decide)).isFinite

end Duration

end SwarmFlight
