import SwarmFlight.Proofs.Number.Opposite

/-!
# Rounding to nearest

Every number stands for a real one (`Number.value`), and an infinity for the power of two where the
range ends. What an operation gives is meant to be the nearest of these values, and the even one of
two (`Number.toNearest`). Rounding to nearest keeps the order (`Number.toNearest_mono`) and leaves
a value as it is (`Number.toNearest_of_representable`).

The code keeps a significand and two bits, of what comes after it, and shifts them to the place that
the format has for the significand. The bits still say on which side of the middle the exact result
lies (`Number.Describes.shiftRight`), so what is packed in the end is the nearest value
(`Number.rounds_of_describes`).
-/

namespace SwarmFlight

open Float.Model Float.Model.UnpackedFloat

namespace Number

variable {x : Float} {m n : Nat} {e t : Int} {s : Sign} {r : Accuracy} {q a v w : ℝ}
  {em : ExtendedMantissa}

/-! ## Exact values -/

/-- The factor that a sign stands for. -/
def factor : Sign → ℝ
  | .positive => 1
  | .negative => -1

/-- The power of two where the range of numbers ends. -/
noncomputable def limit : ℝ := 2 ^ (1024 : ℤ)

/-- The exact value of a number in parts. An infinity stands for the end of the range, and what
is not a number for zero. -/
noncomputable def valueOf : UnpackedFloat → ℝ
  | .infinity s => factor s * limit
  | .notANumber => 0
  | .zero _ => 0
  | .finite s m e _ => factor s * (m * 2 ^ e)

/-- The exact value of a number. -/
noncomputable def value (x : Float) : ℝ := valueOf x.toModel.unpack

theorem isNaN_of_unpack {u : UnpackedFloat} (h : x.toModel.unpack = u) (hu : u.isNaN = false) :
    x.isNaN = false := by
  show x.toModel.unpack.isNaN = false
  rwa [h]

/-- The values of numbers. -/
def Representable (q : ℝ) : Prop :=
  ∃ m e : ℤ, |m| ≤ 2 ^ 53 ∧ -1074 ≤ e ∧ e ≤ 971 ∧ q = m * 2 ^ e

theorem representable_of_nat (hm : m ≤ 2 ^ 53) (hlo : -1074 ≤ e) (hhi : e ≤ 971) :
    Representable (m * 2 ^ e) := by
  refine ⟨m, e, ?_, hlo, hhi, by norm_cast⟩
  rw [abs_of_nonneg (Int.natCast_nonneg m)]
  exact_mod_cast hm

theorem Representable.neg (h : Representable q) : Representable (-q) := by
  obtain ⟨m, e, hm, hlo, hhi, rfl⟩ := h
  exact ⟨-m, e, by rwa [abs_neg], hlo, hhi, by push_cast; ring⟩

theorem Representable.factor_mul (h : Representable q) (s : Sign) :
    Representable (factor s * q) := by
  cases s with
  | positive => rwa [factor, one_mul]
  | negative =>
    rw [factor, neg_one_mul]
    exact h.neg

theorem representable_zero : Representable 0 :=
  ⟨0, 0, by decide, by decide, by decide, by norm_num⟩

theorem limit_pos : 0 < limit := zpow_pos two_pos 1024

theorem limit_eq : limit = 2 ^ 53 * 2 ^ (971 : ℤ) := by
  rw [limit, ← zpow_natCast, ← zpow_add₀ two_ne_zero]
  rfl

/-- A significand of 53 bits is out of range with an exponent above 971. -/
theorem limit_le (ht : 971 < t) (hv : 2 ^ 52 ≤ v) : limit ≤ v * 2 ^ t := by
  have hpow : limit ≤ 2 ^ 52 * 2 ^ t := by
    rw [limit, ← zpow_natCast, ← zpow_add₀ two_ne_zero]
    exact zpow_le_zpow_right₀ one_le_two (by push_cast; omega)
  exact hpow.trans (mul_le_mul_of_nonneg_right hv (by positivity))

theorem representable_limit : Representable limit := by
  rw [limit_eq]
  exact_mod_cast representable_of_nat (m := 2 ^ 53) le_rfl (by decide) le_rfl

theorem Representable.le_limit (h : Representable q) : q ≤ limit := by
  obtain ⟨m, e, hm, -, hhi, rfl⟩ := h
  have hm' : (m : ℝ) ≤ 2 ^ 53 := by exact_mod_cast (le_abs_self m).trans hm
  rw [limit_eq]
  exact mul_le_mul hm' (zpow_le_zpow_right₀ one_le_two hhi) (by positivity) (by positivity)

theorem lt_of_fits (hm : 0 < m) (h : Fits m e) : m < 2 ^ 53 := by
  rcases h with ⟨hlt, -⟩ | ⟨hlog, -⟩
  · exact hlt.trans (by decide)
  · exact ((Nat.log2_eq_iff hm.ne').1 hlog).2

theorem bounds_of_fits (h : Fits m e) : -1074 ≤ e ∧ e ≤ 971 := by
  rcases h with ⟨-, rfl⟩ | ⟨-, hlo, hhi⟩
  · decide
  · exact ⟨hlo, hhi⟩

theorem representable_value (x : Float) : Representable (value x) := by
  unfold value
  cases hx : x.toModel.unpack with
  | infinity s => exact representable_limit.factor_mul s
  | notANumber => exact representable_zero
  | zero s => exact representable_zero
  | finite s m e hm =>
    have hfits := fits_of_unpack hx
    obtain ⟨hlo, hhi⟩ := bounds_of_fits hfits
    exact (representable_of_nat (lt_of_fits hm hfits).le hlo hhi).factor_mul s

/-! ## The nearest number -/

/-- One of the values that come closest. -/
structure IsNearest (q v : ℝ) : Prop where
  representable : Representable v
  closest : ∀ w, Representable w → |v - q| ≤ |w - q|

namespace IsNearest

theorem neg (h : IsNearest q v) : IsNearest (-q) (-v) := by
  refine ⟨h.representable.neg, fun w hw => ?_⟩
  calc |-v - -q| = |v - q| := by rw [neg_sub_neg, abs_sub_comm]
    _ ≤ |-w - q| := h.closest (-w) hw.neg
    _ = |w - -q| := by rw [← abs_neg, neg_sub, sub_neg_eq_add, sub_neg_eq_add, add_comm]

/-- Rounding does not pass a value. -/
theorem le_of_le (h : IsNearest q v) (ha : Representable a) (hle : q ≤ a) : v ≤ a := by
  by_contra hlt
  rw [not_le] at hlt
  have hclosest := h.closest a ha
  rw [abs_of_nonneg (by linarith), abs_of_nonneg (by linarith)] at hclosest
  linarith

theorem ge_of_ge (h : IsNearest q v) (ha : Representable a) (hle : a ≤ q) : a ≤ v :=
  neg_le_neg_iff.1 (h.neg.le_of_le ha.neg (neg_le_neg hle))

/-- A value is rounded to itself. -/
theorem eq_self (h : IsNearest q v) (hq : Representable q) : v = q :=
  le_antisymm (h.le_of_le hq le_rfl) (h.ge_of_ge hq le_rfl)

/-- Rounding keeps the order. -/
theorem le_of_lt (h : IsNearest q v) (h' : IsNearest a w) (hlt : q < a) : v ≤ w := by
  by_contra hwv
  rw [not_le] at hwv
  have hq := sq_le_sq.2 (h.closest w h'.representable)
  have ha := sq_le_sq.2 (h'.closest v h.representable)
  nlinarith

end IsNearest

/-- The nearest integer, and the even one of two. -/
noncomputable def halfEven (y : ℝ) : ℤ :=
  if Int.fract y < 1 / 2 then ⌊y⌋ else if Int.fract y = 1 / 2 then ⌊y⌋ + ⌊y⌋ % 2 else ⌊y⌋ + 1

theorem abs_halfEven_sub_le (y : ℝ) : |(halfEven y : ℝ) - y| ≤ 1 / 2 := by
  have hy : y = ⌊y⌋ + Int.fract y := (Int.floor_add_fract y).symm
  have hnonneg := Int.fract_nonneg y
  have hlt := Int.fract_lt_one y
  rw [halfEven, abs_le]
  split_ifs with hlow hhalf
  · constructor <;> linarith
  · rcases Int.emod_two_eq_zero_or_one ⌊y⌋ with heven | hodd
    · rw [heven]
      push_cast
      constructor <;> linarith
    · rw [hodd]
      push_cast
      constructor <;> linarith
  · push_cast
    constructor <;> linarith

/-- The nearest integer is not below an integer that the number is not below. -/
theorem le_halfEven {N : ℤ} (h : N ≤ q) : N ≤ halfEven q := by
  obtain ⟨hlow, -⟩ := abs_le.1 (abs_halfEven_sub_le q)
  have hlt : (N : ℝ) - 1 < halfEven q := by linarith
  have hlt' : N - 1 < halfEven q := by exact_mod_cast hlt
  omega

theorem halfEven_le {N : ℤ} (h : q ≤ N) : halfEven q ≤ N := by
  obtain ⟨-, hhigh⟩ := abs_le.1 (abs_halfEven_sub_le q)
  have hlt : (halfEven q : ℝ) < N + 1 := by linarith
  have hlt' : halfEven q < N + 1 := by exact_mod_cast hlt
  omega

/-- The exponent at which a number is rounded. -/
noncomputable def roundingExponent (q : ℝ) : ℤ := max (Int.log 2 q - 52) (-1074)

/-- The value that is nearest to a number that is not negative, and the even one of two. -/
noncomputable def magnitude (q : ℝ) : ℝ :=
  min (halfEven (q / 2 ^ roundingExponent q) * 2 ^ roundingExponent q) limit

/-- The value that is nearest to a number, and the even one of two. -/
noncomputable def toNearest (q : ℝ) : ℝ := if q < 0 then -magnitude (-q) else magnitude q

section Grid

variable {M : ℤ} {z : ℝ}

/-- The nearest integer leads to the nearest multiple. -/
theorem multiple_closest (hM : |M - z| ≤ 1 / 2) (t N : ℤ) :
    |M * 2 ^ t - z * 2 ^ t| ≤ |N * 2 ^ t - z * 2 ^ t| := by
  have hpow : (0 : ℝ) < 2 ^ t := by positivity
  rw [← sub_mul, ← sub_mul, abs_mul, abs_mul]
  refine mul_le_mul_of_nonneg_right ?_ (abs_nonneg _)
  by_cases heq : N = M
  · rw [heq]
  · have hone : (1 : ℝ) ≤ |(N : ℝ) - M| := by exact_mod_cast Int.one_le_abs (sub_ne_zero.2 heq)
    have hsplit := abs_sub_le (N : ℝ) z M
    rw [abs_sub_comm z] at hsplit
    linarith

/-- No value comes closer, if those between two multiples are all farther down. -/
theorem grid_closest (hM : |M - z| ≤ 1 / 2) (hbig : -1074 < t → 2 ^ 52 ≤ z) (hw : Representable w) :
    |M * 2 ^ t - z * 2 ^ t| ≤ |w - z * 2 ^ t| := by
  obtain ⟨m, e, hm, hlo, -, rfl⟩ := hw
  rcases le_or_gt t e with hte | het
  · have hmultiple : (m : ℝ) * 2 ^ e = (m * 2 ^ (e - t).toNat : ℤ) * 2 ^ t := by
      push_cast
      rw [mul_assoc, ← zpow_natCast, ← zpow_add₀ two_ne_zero, Int.toNat_of_nonneg (by omega),
        sub_add_cancel]
    rw [hmultiple]
    exact multiple_closest hM t _
  · have hz := hbig (by omega)
    have hpow : (0 : ℝ) < 2 ^ t := by positivity
    have hbelow : (m : ℝ) * 2 ^ e ≤ 2 ^ 52 * 2 ^ t := by
      have hm' : (m : ℝ) ≤ 2 ^ 53 := by exact_mod_cast (le_abs_self m).trans hm
      have he : (2 : ℝ) ^ e ≤ 2 ^ (t - 1) := zpow_le_zpow_right₀ one_le_two (by omega)
      calc (m : ℝ) * 2 ^ e ≤ 2 ^ 53 * 2 ^ (t - 1) :=
            mul_le_mul hm' he (by positivity) (by positivity)
        _ = 2 ^ 52 * 2 ^ t := by
            rw [zpow_sub_one₀ two_ne_zero]
            ring
    have hedge : (2 : ℝ) ^ 52 * 2 ^ t ≤ z * 2 ^ t := mul_le_mul_of_nonneg_right hz hpow.le
    have hclosest := multiple_closest hM t (2 ^ 52)
    push_cast at hclosest
    refine hclosest.trans ?_
    rw [abs_sub_comm, abs_sub_comm (_ * _) (z * _), abs_of_nonneg (by linarith),
      abs_of_nonneg (by linarith)]
    linarith

end Grid

theorem isNearest_self (h : Representable q) : IsNearest q q :=
  ⟨h, fun w _ => by rw [sub_self, abs_zero]; exact abs_nonneg _⟩

/-- How large a number is at the exponent at which it is rounded. -/
theorem scaled_bounds (hq : 0 < q) : q / 2 ^ roundingExponent q < 2 ^ 53 ∧
    (-1074 < roundingExponent q → 2 ^ 52 ≤ q / 2 ^ roundingExponent q) := by
  have hpow : (0 : ℝ) < 2 ^ roundingExponent q := by positivity
  rw [div_lt_iff₀ hpow, le_div_iff₀ hpow, ← zpow_natCast, ← zpow_natCast, ← zpow_add₀ two_ne_zero,
    ← zpow_add₀ two_ne_zero]
  constructor
  · refine (Int.lt_zpow_succ_log_self Nat.one_lt_two q).trans_le ?_
    refine zpow_le_zpow_right₀ one_le_two ?_
    unfold roundingExponent
    push_cast
    omega
  · intro hnormal
    refine le_trans ?_ (Int.zpow_log_le_self Nat.one_lt_two hq)
    refine zpow_le_zpow_right₀ one_le_two ?_
    unfold roundingExponent at *
    push_cast
    omega

@[simp] theorem halfEven_zero : halfEven 0 = 0 := by
  simp [halfEven]

@[simp] theorem magnitude_zero : magnitude 0 = 0 := by
  simp [magnitude, limit_pos.le]

theorem isNearest_magnitude (hq : 0 ≤ q) : IsNearest q (magnitude q) := by
  rcases hq.eq_or_lt with rfl | hpos
  · rw [magnitude_zero]
    exact isNearest_self representable_zero
  obtain ⟨hlt, hbig⟩ := scaled_bounds hpos
  unfold magnitude
  have hlo : -1074 ≤ roundingExponent q := le_max_right _ _
  generalize roundingExponent q = t at *
  have hpow : (0 : ℝ) < 2 ^ t := by positivity
  have hq' : q = q / 2 ^ t * 2 ^ t := (div_mul_cancel₀ q hpow.ne').symm
  have hz : 0 ≤ q / 2 ^ t := by positivity
  generalize q / 2 ^ t = z at *
  rcases le_or_gt t 971 with hhi | hhi
  · have h0 : 0 ≤ halfEven z := le_halfEven (by exact_mod_cast hz)
    have h53 : halfEven z ≤ 2 ^ 53 := halfEven_le (by exact_mod_cast hlt.le)
    have hrep : Representable (halfEven z * 2 ^ t) :=
      ⟨halfEven z, t, abs_le.2 ⟨by omega, h53⟩, hlo, hhi, rfl⟩
    rw [min_eq_left hrep.le_limit]
    refine ⟨hrep, fun w hw => ?_⟩
    rw [hq']
    exact grid_closest (abs_halfEven_sub_le z) hbig hw
  · have hz52 := hbig (by omega)
    have hM52 : (2 : ℝ) ^ 52 ≤ halfEven z := by
      have h52 : 2 ^ 52 ≤ halfEven z := le_halfEven (by exact_mod_cast hz52)
      exact_mod_cast h52
    rw [min_eq_right (limit_le hhi hM52)]
    refine ⟨representable_limit, fun w hw => ?_⟩
    have hover : limit ≤ q := hq' ▸ limit_le hhi hz52
    have hle := hw.le_limit
    rw [abs_sub_comm, abs_sub_comm w, abs_of_nonneg (by linarith), abs_of_nonneg (by linarith)]
    linarith

/-- Rounding finds the nearest value. -/
theorem isNearest_toNearest (q : ℝ) : IsNearest q (toNearest q) := by
  unfold toNearest
  split_ifs with hneg
  · have hnearest := (isNearest_magnitude (q := -q) (by linarith)).neg
    rwa [neg_neg] at hnearest
  · exact isNearest_magnitude (not_lt.1 hneg)

/-- Rounding keeps the order. -/
theorem toNearest_mono : Monotone toNearest := by
  intro q q' hle
  rcases hle.eq_or_lt with rfl | hlt
  · exact le_rfl
  · exact (isNearest_toNearest q).le_of_lt (isNearest_toNearest q') hlt

/-- Rounding leaves a value as it is. -/
theorem toNearest_of_representable (h : Representable q) : toNearest q = q :=
  (isNearest_toNearest q).eq_self h

theorem toNearest_value (x : Float) : toNearest (value x) = value x :=
  toNearest_of_representable (representable_value x)

theorem toNearest_factor_mul (hq : 0 ≤ q) (s : Sign) :
    toNearest (factor s * q) = factor s * magnitude q := by
  cases s with
  | positive => rw [factor, one_mul, one_mul, toNearest, if_neg (not_lt.2 hq)]
  | negative =>
    rw [factor, neg_one_mul, neg_one_mul, toNearest, neg_neg]
    split_ifs with hneg
    · rfl
    · obtain rfl : q = 0 := by linarith
      rw [neg_zero, magnitude_zero, neg_zero]

/-! ## Significands with a remainder -/

/-- A significand and its two bits say where a number lies. -/
def Describes (z : ℝ) : ExtendedMantissa → Prop
  | ⟨m, false, false⟩ => z = m
  | ⟨m, false, true⟩ => m < z ∧ z < m + 1 / 2
  | ⟨m, true, false⟩ => z = m + 1 / 2
  | ⟨m, true, true⟩ => m + 1 / 2 < z ∧ z < m + 1

namespace Describes

variable {z : ℝ}

theorem mantissa_eq (h : Describes z em) : (em.mantissa : ℤ) = ⌊z⌋ := by
  symm
  rw [Int.floor_eq_iff]
  obtain ⟨m, _ | _, _ | _⟩ := em <;> simp only [Describes] at h <;> push_cast <;>
    constructor <;> linarith

theorem roundedMantissa_eq (h : Describes z em) : (em.roundedMantissa : ℤ) = halfEven z := by
  have hfloor := h.mantissa_eq
  have hfract : Int.fract z = z - em.mantissa := by
    rw [Int.fract, ← hfloor]
    rfl
  rw [halfEven, ← hfloor, hfract]
  obtain ⟨m, _ | _, _ | _⟩ := em <;> simp only [Describes] at h
  · rw [if_pos (by dsimp only; linarith)]
    rfl
  · rw [if_pos (by dsimp only; linarith)]
    rfl
  · rw [if_neg (by dsimp only; linarith), if_pos (by dsimp only; linarith)]
    rfl
  · rw [if_neg (by dsimp only; linarith), if_neg (by dsimp only; linarith)]
    rfl

/-- A shift halves the number. -/
theorem shiftRightOne (h : Describes z em) : Describes (z / 2) em.shiftRightOne := by
  obtain ⟨m, a, b⟩ := em
  have hm : (m : ℝ) = 2 * (m / 2 : ℕ) + (m % 2 : ℕ) := by exact_mod_cast (Nat.div_add_mod m 2).symm
  show Describes (z / 2) ⟨m / 2, m % 2 != 0, a || b⟩
  rcases Nat.mod_two_eq_zero_or_one m with hbit | hbit
  · rw [hbit, Nat.cast_zero] at hm
    rw [show (m % 2 != 0) = false by rw [hbit]; rfl]
    cases a <;> cases b <;> simp only [Describes, Bool.or_false, Bool.or_true] at * <;>
      first | linarith | (constructor <;> linarith)
  · rw [hbit, Nat.cast_one] at hm
    rw [show (m % 2 != 0) = true by rw [hbit]; rfl]
    cases a <;> cases b <;> simp only [Describes, Bool.or_false, Bool.or_true] at * <;>
      first | linarith | (constructor <;> linarith)

theorem shiftRight (h : Describes z em) (k : Nat) : Describes (z / 2 ^ k) (em >>> k) := by
  induction k with
  | zero => rwa [pow_zero, div_one]
  | succ k ih =>
    rw [pow_succ, ← div_div]
    exact ih.shiftRightOne

end Describes

/-! ## The rounding of parts -/

/-- A number that is what a real number is rounded to. -/
structure Rounds (q : ℝ) (x : Float) : Prop where
  number : x.isNaN = false
  value_eq : value x = toNearest q

theorem targetExponent_eq_max (t : Int) :
    Format.binary64.targetExponent t = max (t - 53) (-1074) := by
  have hmin : Format.binary64.minExponent = -1074 := rfl
  have hbits : Format.binary64.mantissaBits = 53 := rfl
  rw [Format.targetExponent, hmin, hbits]
  omega

/-- The exponent to which a significand is shifted. -/
theorem targetExponent_totalExponent (m : Nat) (e : Int) :
    Format.binary64.targetExponent (totalExponent m e) = max (m.log2 + e - 52) (-1074) := by
  rw [targetExponent_eq_max, totalExponent]
  omega

/-- An exponent that is out of range makes an infinity. -/
theorem unpack_pack_of_overflow (hm : 0 < m) (he : 971 < e) :
    UnpackedFloat.unpack Format.binary64 (UnpackedFloat.pack Format.binary64 (.finite s m e hm)) =
      .infinity s := by
  have hover : 2 ^ Format.binary64.exponentBits ≤
      (e + Format.binary64.exponentBias +
        (Format.binary64.mantissaBitsWithoutImplicit : Nat)).toNat + 1 := by
    have hbias : ((Format.binary64.exponentBias : Nat) : Int) = 1023 := rfl
    rw [hbias]
    show 2048 ≤ (e + 1023 + 52).toNat + 1
    omega
  simp only [UnpackedFloat.pack, if_pos hover]
  cases s <;> rfl

/-- A significand that was rounded is at its place, unless it has got one bit too many. -/
theorem roundWithAccuracy_eq_of_shift
    (hshift : shiftToTargetExponent Format.binary64 m e r = (em, t))
    (hem : em.roundedMantissa = n) (hn : n ≤ 2 ^ 53) (ht : -1074 ≤ t) :
    roundWithAccuracy Format.binary64 s m e r =
      if h : n = 0 then .zero s
      else if n < 2 ^ 53 then .finite s n t (Nat.pos_of_ne_zero h)
      else .finite s (2 ^ 52) (t + 1) (Nat.two_pow_pos 52) := by
  have hround : roundWithAccuracy Format.binary64 s m e r =
      let (final, exponent) := shiftToTargetExponent Format.binary64 n t .exact
      if h : final.mantissa = 0 then .zero s
      else .finite s final.mantissa exponent (Nat.pos_of_ne_zero h) := by
    rw [roundWithAccuracy, hshift, ← hem]
  rw [hround]
  rcases hn.lt_or_eq with hlt | rfl
  · have hlog : n.log2 ≤ 52 := by
      by_cases hzero : n = 0
      · rw [hzero, Nat.log2_zero]
        omega
      · have := (Nat.log2_lt hzero).2 hlt
        omega
    have hstay : (Format.binary64.targetExponent (totalExponent n t) - t).toNat = 0 := by
      rw [targetExponent_totalExponent]
      omega
    simp only [shiftToTargetExponent, shiftToExponent, hstay, mantissa_shiftRight,
      mantissa_ofMantissaAndAccuracy, Nat.pow_zero, Nat.div_one, Nat.cast_zero, add_zero,
      if_pos hlt]
  · have hnext : (Format.binary64.targetExponent (totalExponent (2 ^ 53) t) - t).toNat = 1 := by
      rw [targetExponent_totalExponent, Nat.log2_two_pow]
      omega
    simp only [shiftToTargetExponent, shiftToExponent, hnext, mantissa_shiftRight,
      mantissa_ofMantissaAndAccuracy]
    rfl

/-- The value of parts at their place, in range or not. -/
theorem value_of_finite {hm : 0 < m} (hx : x.toModel = Float.Model.pack (.finite s m e hm))
    (hfits : m < 2 ^ 52 ∧ e = -1074 ∨ m.log2 = 52 ∧ -1074 ≤ e) :
    x.isNaN = false ∧ value x = factor s * min (m * 2 ^ e : ℝ) limit := by
  rcases le_or_gt e 971 with he | he
  · have hfits' : Fits m e := hfits.imp_right fun h => ⟨h.1, h.2, he⟩
    have hunpack : x.toModel.unpack = .finite s m e hm := by
      rw [hx]
      exact unpack_pack_of_fits hfits'
    have hrep := representable_of_nat (lt_of_fits hm hfits').le (bounds_of_fits hfits').1 he
    rw [value, hunpack, min_eq_left hrep.le_limit]
    exact ⟨isNaN_of_unpack hunpack rfl, rfl⟩
  · have hlog : m.log2 = 52 := (hfits.resolve_left (by omega)).1
    have hunpack : x.toModel.unpack = .infinity s := by
      rw [hx]
      exact unpack_pack_of_overflow hm he
    have hm52 : (2 : ℝ) ^ 52 ≤ m := by exact_mod_cast ((Nat.log2_eq_iff hm.ne').1 hlog).1
    rw [value, hunpack, min_eq_right (limit_le he hm52)]
    exact ⟨isNaN_of_unpack hunpack rfl, rfl⟩

theorem value_of_rounded (hx : x.toModel = Float.Model.pack (if h : n = 0 then .zero s
      else if n < 2 ^ 53 then .finite s n t (Nat.pos_of_ne_zero h)
      else .finite s (2 ^ 52) (t + 1) (Nat.two_pow_pos 52)))
    (hn : n ≤ 2 ^ 53) (ht : -1074 ≤ t) (hbig : -1074 < t → 2 ^ 52 ≤ n) :
    x.isNaN = false ∧ value x = factor s * min (n * 2 ^ t : ℝ) limit := by
  split_ifs at hx with hzero hlt
  · obtain ⟨u, hu⟩ := isZero_of_pack hx rfl
    refine ⟨isNaN_of_unpack hu rfl, ?_⟩
    rw [value, hu, hzero, Nat.cast_zero, zero_mul, min_eq_left limit_pos.le, mul_zero]
    rfl
  · refine value_of_finite hx ?_
    by_cases hsmall : n < 2 ^ 52
    · exact .inl ⟨hsmall, by by_contra hne; exact absurd (hbig (by omega)) (by omega)⟩
    · exact .inr ⟨(Nat.log2_eq_iff hzero).2 ⟨by omega, hlt⟩, ht⟩
  · obtain rfl : n = 2 ^ 53 := by omega
    have hsame : ((2 ^ 53 : ℕ) : ℝ) * 2 ^ t = (2 ^ 52 : ℕ) * 2 ^ (t + 1) := by
      rw [zpow_add_one₀ two_ne_zero]
      push_cast
      ring
    rw [hsame]
    exact value_of_finite hx (.inr ⟨Nat.log2_two_pow, by omega⟩)

/-- The exponent that the bits of a significand lead to is the one at which its number is
rounded. -/
theorem targetExponent_eq_roundingExponent (hq : 0 < q) (hm : (m : ℤ) = ⌊q / 2 ^ e⌋)
    (he : e ≤ Format.binary64.targetExponent (totalExponent m e)) :
    Format.binary64.targetExponent (totalExponent m e) = roundingExponent q := by
  have hpow : (0 : ℝ) < 2 ^ e := by positivity
  obtain ⟨hfloor, hceil⟩ := Int.floor_eq_iff.1 hm.symm
  rw [Int.cast_natCast, le_div_iff₀ hpow] at hfloor
  rw [Int.cast_natCast, div_lt_iff₀ hpow] at hceil
  rw [targetExponent_totalExponent] at he ⊢
  rcases Nat.eq_zero_or_pos m with rfl | hpos
  · rw [Nat.cast_zero, zero_add, one_mul] at hceil
    have hlog := (Int.lt_zpow_iff_log_lt Nat.one_lt_two hq).1 (by exact_mod_cast hceil)
    rw [Nat.log2_zero] at he ⊢
    rw [roundingExponent]
    omega
  · have hlow : (m.log2 : ℤ) + e ≤ Int.log 2 q := by
      refine (Int.zpow_le_iff_le_log Nat.one_lt_two hq).1 (le_trans ?_ hfloor)
      have hm2 : (2 : ℝ) ^ m.log2 ≤ m := by exact_mod_cast Nat.log2_self_le hpos.ne'
      rw [Nat.cast_ofNat, zpow_add₀ two_ne_zero, zpow_natCast]
      exact mul_le_mul_of_nonneg_right hm2 hpow.le
    have hhigh : Int.log 2 q < m.log2 + 1 + e := by
      refine (Int.lt_zpow_iff_log_lt Nat.one_lt_two hq).1 (hceil.trans_le ?_)
      have hm2 : (m : ℝ) + 1 ≤ 2 ^ (m.log2 + 1) := by exact_mod_cast Nat.lt_log2_self (n := m)
      rw [Nat.cast_ofNat, zpow_add₀ two_ne_zero, zpow_add_one₀ two_ne_zero, zpow_natCast,
        ← pow_succ]
      exact mul_le_mul_of_nonneg_right hm2 hpow.le
    rw [roundingExponent]
    omega

/-- What is left of a significand that was shifted has 53 bits at most, and no less above the least
exponent. -/
theorem shifted_bounds {k : Nat}
    (hk : Format.binary64.targetExponent (totalExponent m e) = e + k) :
    -1074 ≤ e + k ∧ m / 2 ^ k < 2 ^ 53 ∧ (-1074 < e + k → 2 ^ 52 ≤ m / 2 ^ k) := by
  rw [targetExponent_totalExponent] at hk
  refine ⟨by omega, ?_, fun hnormal => ?_⟩
  · rw [Nat.div_lt_iff_lt_mul (Nat.two_pow_pos k), ← Nat.pow_add]
    exact Nat.lt_log2_self.trans_le (Nat.pow_le_pow_right (by decide) (by omega))
  · have hlog : 52 ≤ m.log2 := by omega
    obtain rfl : k = m.log2 - 52 := by omega
    exact (div_two_pow_bounds hlog).1

/-- A significand with its remainder is rounded to nearest. -/
theorem rounds_of_describes {z : ℝ}
    (hx : x.toModel = Float.Model.pack (roundWithAccuracy Format.binary64 s m e r))
    (hz : Describes z (.ofMantissaAndAccuracy m r))
    (he : e ≤ Format.binary64.targetExponent (totalExponent m e)) :
    Rounds (factor s * (z * 2 ^ e)) x := by
  obtain ⟨k, hk⟩ : ∃ k : ℕ, Format.binary64.targetExponent (totalExponent m e) = e + k :=
    ⟨_, (Int.toNat_of_nonneg (Int.sub_nonneg.2 he) ▸ (add_sub_cancel _ _).symm)⟩
  obtain ⟨hlo, hlt, hbig⟩ := shifted_bounds hk
  have hshift : shiftToTargetExponent Format.binary64 m e r =
      (ExtendedMantissa.ofMantissaAndAccuracy m r >>> k, e + k) := by
    simp only [shiftToTargetExponent, shiftToExponent, hk, add_sub_cancel_left, Int.toNat_natCast]
  have hrounded := (hz.shiftRight k).roundedMantissa_eq
  have hbounds := roundedMantissa_bounds (ExtendedMantissa.ofMantissaAndAccuracy m r >>> k)
  rw [mantissa_shiftRight, mantissa_ofMantissaAndAccuracy] at hbounds
  generalize hn : (ExtendedMantissa.ofMantissaAndAccuracy m r >>> k).roundedMantissa = n at *
  have hn53 : n ≤ 2 ^ 53 := by omega
  rw [roundWithAccuracy_eq_of_shift hshift hn hn53 hlo] at hx
  obtain ⟨hnumber, hvalue⟩ := value_of_rounded hx hn53 hlo fun h => (hbig h).trans hbounds.1
  -- the significand that the code rounds is the nearest integer
  have hfloor : (m : ℤ) = ⌊z⌋ := by
    rw [← hz.mantissa_eq, mantissa_ofMantissaAndAccuracy]
  have hz0 : 0 ≤ z := Int.floor_nonneg.1 (hfloor ▸ Int.natCast_nonneg m)
  have hcast : (n : ℝ) = halfEven (z / 2 ^ k) := by exact_mod_cast hrounded
  have hmagnitude : magnitude (z * 2 ^ e) = min (n * 2 ^ (e + k) : ℝ) limit := by
    rw [hcast]
    rcases hz0.eq_or_lt with rfl | hpos
    · rw [zero_mul, magnitude_zero, zero_div, halfEven_zero, Int.cast_zero, zero_mul,
        min_eq_left limit_pos.le]
    · have hsame : z * 2 ^ e / 2 ^ (e + k) = z / 2 ^ k := by
        rw [zpow_add₀ two_ne_zero, zpow_natCast]
        field_simp
      have hq : z * 2 ^ e / 2 ^ e = z := by field_simp
      rw [magnitude, ← targetExponent_eq_roundingExponent (by positivity) (by rw [hq, hfloor]) he,
        hk, hsame]
  refine ⟨hnumber, ?_⟩
  rw [hvalue, toNearest_factor_mul (by positivity), hmagnitude]

end Number

end SwarmFlight
