import SwarmFlight.Proofs.Number.Nearest

/-!
# Correct rounding

Sums, differences, products, quotients and square roots of finite numbers are the exact ones,
rounded to nearest (`Number.rounds_add`, `Number.rounds_sub`, `Number.rounds_mul`,
`Number.rounds_div`, `Number.rounds_sqrt`), and numbers are compared as their values are
(`Number.compare_eq`). So what lies between two values is rounded to something between them
(`Number.Rounds.bounds`), and what is no larger than a finite number to a finite number
(`Number.Rounds.isFinite`).

A sum of numbers that are not below zero may overflow, and the infinity that it then is stands for
the end of the range. Such sums and their square roots still keep the order
(`Number.rounds_add_of_nonneg`, `Number.sqrt_le_sqrt`).
-/

namespace SwarmFlight

open Float.Model Float.Model.UnpackedFloat

namespace Number

variable {x y : Float} {m n : Nat} {e f : Int} {s : Sign} {r : Accuracy} {q z : ℝ}

/-! ## Operations -/

theorem factor_mul (s s' : Sign) : factor (s * s') = factor s * factor s' := by
  cases s <;> cases s' <;> simp [factor]

theorem factor_div (s s' : Sign) : factor (s / s') = factor s / factor s' := by
  cases s <;> cases s' <;> simp [factor] <;> rfl

theorem factor_neg (s : Sign) : factor (-s) = -factor s := by
  cases s <;> simp [factor]

theorem IsZero.value_eq (h : IsZero x) : value x = 0 := by
  obtain ⟨s, hs⟩ := h
  rw [value, hs]
  rfl

theorem rounds_self (h : x.isNaN = false) : Rounds (value x) x :=
  ⟨h, (toNearest_value x).symm⟩

theorem isNaN_of_isFinite (h : x.isFinite) : x.isNaN = false := by
  rcases parts_of_isFinite h with ⟨s, hs⟩ | ⟨s, m, e, hm, hs⟩
  · exact isNaN_of_unpack hs rfl
  · exact isNaN_of_unpack hs rfl

theorem IsZero.rounds (h : IsZero x) : Rounds 0 x :=
  h.value_eq ▸ rounds_self (isNaN_of_isFinite h.isFinite)

theorem value_of_unpack {hm : 0 < m} (h : x.toModel.unpack = .finite s m e hm) :
    value x = factor s * (m * 2 ^ e) := by
  rw [value, h]
  rfl

theorem describes_exact (m : Nat) : Describes m (.ofMantissaAndAccuracy m .exact) := rfl

/-- A significand whose exponent is not above its place. -/
theorem le_targetExponent_iff : e ≤ Format.binary64.targetExponent (totalExponent m e) ↔
    e ≤ -1074 ∨ 52 ≤ m.log2 := by
  rw [targetExponent_totalExponent]
  omega

theorem rounds_mul (hx : x.isFinite) (hy : y.isFinite) : Rounds (value x * value y) (x * y) := by
  rcases parts_of_isFinite hx with hzero | ⟨s, m, e, hm, hux⟩
  · rw [IsZero.value_eq hzero, zero_mul]
    exact (IsZero.mul_right hzero hy).rounds
  rcases parts_of_isFinite hy with hzero | ⟨s', n, f, hn, huy⟩
  · rw [IsZero.value_eq hzero, mul_zero]
    exact (IsZero.mul_left hzero hx).rounds
  have hprod : (x * y).toModel = Float.Model.pack
      (roundWithAccuracy Format.binary64 (s * s') (m * n) (e + f) .exact) := by
    show Float.Model.pack (UnpackedFloat.mul _ x.toModel.unpack y.toModel.unpack) = _
    rw [hux, huy]
    rfl
  have hplace : e + f ≤ -1074 ∨ 52 ≤ (m * n).log2 := by
    have hmn : m * n ≠ 0 := Nat.mul_ne_zero hm.ne' hn.ne'
    rcases fits_of_unpack hux with ⟨-, he⟩ | ⟨hlog, -⟩
    · rcases fits_of_unpack huy with ⟨-, hf⟩ | ⟨hlog, -⟩
      · omega
      · exact .inr ((Nat.le_log2 hmn).2 (((Nat.log2_eq_iff hn.ne').1 hlog).1.trans
          (Nat.le_mul_of_pos_left n hm)))
    · exact .inr ((Nat.le_log2 hmn).2 (((Nat.log2_eq_iff hm.ne').1 hlog).1.trans
        (Nat.le_mul_of_pos_right m hn)))
  have hrounds := rounds_of_describes hprod (describes_exact _) (le_targetExponent_iff.2 hplace)
  rw [value_of_unpack hux, value_of_unpack huy]
  convert hrounds using 1
  rw [factor_mul, zpow_add₀ two_ne_zero]
  push_cast
  ring

theorem rounds_round (hm : 0 < m)
    (hx : x.toModel = Float.Model.pack (UnpackedFloat.round Format.binary64 s m e)) :
    Rounds (factor s * (m * 2 ^ e)) x := by
  let k := (e - Format.binary64.targetExponent (totalExponent m e)).toNat
  have hdef : UnpackedFloat.round Format.binary64 s m e
      = roundWithAccuracy Format.binary64 s (m * 2 ^ k) (e - k) .exact := by
    simp only [UnpackedFloat.round, decreaseExponent, Nat.shiftLeft_eq]
    rfl
  have htotal : totalExponent (m * 2 ^ k) (e - k) = totalExponent m e := by
    rw [totalExponent, totalExponent, log2_mul_two_pow hm.ne']
    push_cast
    ring
  have hrounds := rounds_of_describes (hdef ▸ hx) (describes_exact _) (by rw [htotal]; omega)
  convert hrounds using 2
  rw [zpow_sub₀ two_ne_zero, zpow_natCast]
  push_cast
  field_simp

theorem rounds_normalize {n : Int} (hx : x.toModel =
    Float.Model.pack (UnpackedFloat.normalize Format.binary64 n e s)) : Rounds (n * 2 ^ e) x := by
  rcases lt_trichotomy n 0 with hneg | rfl | hpos
  · rw [UnpackedFloat.normalize, Int.compare_eq_lt.2 hneg] at hx
    have hrounds := rounds_round (by omega) hx
    convert hrounds using 1
    have hcast : (((-n).toNat : ℤ) : ℝ) = -n := by
      rw [Int.toNat_of_nonneg (by omega)]
      push_cast
      rfl
    rw [Int.cast_natCast] at hcast
    rw [hcast, factor]
    ring
  · rw [Int.cast_zero, zero_mul]
    exact (isZero_of_pack hx rfl).rounds
  · rw [UnpackedFloat.normalize, Int.compare_eq_gt.2 hpos] at hx
    have hrounds := rounds_round (by omega) hx
    convert hrounds using 1
    have hcast : ((n.toNat : ℤ) : ℝ) = n := by
      rw [Int.toNat_of_nonneg (by omega)]
    rw [Int.cast_natCast] at hcast
    rw [hcast, factor, one_mul]

/-- A significand that was shifted to a lower exponent. -/
theorem apply_mul_zpow {g : Int} (hg : g ≤ e) (s : Sign) (m : Nat) :
    ((s.apply (m <<< (e - g).toNat : Nat) : ℤ) : ℝ) * 2 ^ g = factor s * (m * 2 ^ e) := by
  have hshift : ((m <<< (e - g).toNat : ℕ) : ℝ) * 2 ^ g = m * 2 ^ e := by
    rw [Nat.shiftLeft_eq]
    push_cast
    rw [mul_assoc, ← zpow_natCast, ← zpow_add₀ two_ne_zero, Int.toNat_of_nonneg (by omega),
      sub_add_cancel]
  cases s with
  | positive =>
    rw [factor, one_mul, ← hshift]
    rfl
  | negative =>
    rw [factor, neg_one_mul, ← hshift, ← neg_mul]
    congr 1
    exact Int.cast_neg _

/-- A number with the parts of another one. -/
theorem rounds_of_pack (hm : 0 < m) (hx : x.toModel = Float.Model.pack (.finite s m e hm))
    (h : Fits m e) : Rounds (factor s * (m * 2 ^ e)) x := by
  have hunpack : x.toModel.unpack = .finite s m e hm := by
    rw [hx]
    exact unpack_pack_of_fits h
  rw [← value_of_unpack hunpack]
  exact rounds_self (isNaN_of_unpack hunpack rfl)

theorem rounds_add (hx : x.isFinite) (hy : y.isFinite) : Rounds (value x + value y) (x + y) := by
  rcases parts_of_isFinite hx with hzero | ⟨s, m, e, hm, hux⟩
  · rw [IsZero.value_eq hzero, zero_add]
    rcases parts_of_isFinite hy with hzero' | ⟨s', n, f, hn, huy⟩
    · rw [IsZero.value_eq hzero']
      exact (IsZero.add hzero hzero').rounds
    · obtain ⟨t, ht⟩ := hzero
      rw [value_of_unpack huy]
      refine rounds_of_pack hn ?_ (fits_of_unpack huy)
      show Float.Model.pack (UnpackedFloat.add _ x.toModel.unpack y.toModel.unpack) = _
      rw [ht, huy]
      rfl
  rcases parts_of_isFinite hy with hzero | ⟨s', n, f, hn, huy⟩
  · obtain ⟨t, ht⟩ := hzero
    rw [IsZero.value_eq ⟨t, ht⟩, add_zero, value_of_unpack hux]
    refine rounds_of_pack hm ?_ (fits_of_unpack hux)
    show Float.Model.pack (UnpackedFloat.add _ x.toModel.unpack y.toModel.unpack) = _
    rw [hux, ht]
    rfl
  have hsum : (x + y).toModel = Float.Model.pack (UnpackedFloat.normalize Format.binary64
      (s.apply (m <<< (e - min e f).toNat : Nat) + s'.apply (n <<< (f - min e f).toNat : Nat))
      (min e f) .positive) := by
    show Float.Model.pack (UnpackedFloat.add _ x.toModel.unpack y.toModel.unpack) = _
    rw [hux, huy]
    rfl
  have hrounds := rounds_normalize hsum
  rwa [Int.cast_add, add_mul, apply_mul_zpow (min_le_left e f), apply_mul_zpow (min_le_right e f),
    ← value_of_unpack hux, ← value_of_unpack huy] at hrounds

theorem parts_sub (u v : UnpackedFloat) :
    UnpackedFloat.sub Format.binary64 u v = UnpackedFloat.add Format.binary64 u v.neg := by
  cases u <;> cases v <;> try rfl
  rename_i s m e _ s' n f _
  have happly : ∀ k : Int, (-s').apply k = -s'.apply k := fun k => by
    cases s'
    · exact (Int.neg_neg k).symm
    · rfl
  simp only [UnpackedFloat.sub, UnpackedFloat.add, UnpackedFloat.neg, happly, Int.sub_eq_add_neg]

theorem parts_neg (hx : x.isFinite) : (-x).toModel.unpack = x.toModel.unpack.neg := by
  rcases parts_of_isFinite hx with ⟨s, hs⟩ | ⟨s, m, e, hm, hs⟩
  · show UnpackedFloat.unpack _ (UnpackedFloat.pack _ x.toModel.unpack.neg) = _
    rw [hs]
    cases s <;> rfl
  · rw [unpack_neg hs, hs]
    rfl

theorem isFinite_neg (hx : x.isFinite) : (-x).isFinite := by
  show (-x).toModel.unpack.isFinite = true
  rw [parts_neg hx]
  rcases parts_of_isFinite hx with ⟨s, hs⟩ | ⟨s, m, e, hm, hs⟩ <;> rw [hs] <;> rfl

theorem value_neg (hx : x.isFinite) : value (-x) = -value x := by
  rw [value, value, parts_neg hx]
  rcases parts_of_isFinite hx with ⟨s, hs⟩ | ⟨s, m, e, hm, hs⟩ <;> rw [hs]
  · exact neg_zero.symm
  · exact (congrArg (· * _) (factor_neg s)).trans (neg_mul _ _)

/-- A difference is the sum with the opposite. -/
theorem sub_eq_add_opposite (x : Float) (hy : y.isFinite) : x - y = x + -y := by
  show Float.ofModel (Float.Model.pack (UnpackedFloat.sub _ x.toModel.unpack y.toModel.unpack)) =
    Float.ofModel (Float.Model.pack (UnpackedFloat.add _ x.toModel.unpack (-y).toModel.unpack))
  rw [parts_neg hy, parts_sub]

theorem rounds_sub (hx : x.isFinite) (hy : y.isFinite) : Rounds (value x - value y) (x - y) := by
  rw [sub_eq_add_opposite x hy, sub_eq_add_neg, ← value_neg hy]
  exact rounds_add hx (isFinite_neg hy)

/-- The whole part of a fraction with what is left of it. -/
theorem describes_fraction (m : Nat) (hn : 0 < n) :
    Describes ((m : ℝ) / n) (.ofMantissaAndAccuracy (m / n) (accuracyOfFraction (m % n) n)) := by
  have hn' : (0 : ℝ) < n := by exact_mod_cast hn
  have hz : (m : ℝ) / n = (m / n : ℕ) + (m % n : ℕ) / n := by
    have hsplit : (m : ℝ) = n * (m / n : ℕ) + (m % n : ℕ) := by
      exact_mod_cast (Nat.div_add_mod m n).symm
    rw [div_eq_iff hn'.ne', add_mul, div_mul_cancel₀ _ hn'.ne', mul_comm _ (n : ℝ)]
    exact hsplit
  have hlt : ((m % n : ℕ) : ℝ) / n < 1 := by
    rw [div_lt_one hn']
    exact_mod_cast Nat.mod_lt m hn
  rw [hz]
  generalize m % n = k at *
  generalize m / n = l at *
  unfold accuracyOfFraction
  split_ifs with hzero
  · show (l : ℝ) + (k : ℕ) / n = l
    rw [hzero, Nat.cast_zero, zero_div, add_zero]
  · have hpos : 0 < (k : ℝ) / n := div_pos (by exact_mod_cast Nat.pos_of_ne_zero hzero) hn'
    rcases lt_trichotomy (2 * k) n with hcmp | hcmp | hcmp
    · have hhalf : (k : ℝ) / n < 1 / 2 := by
        rw [div_lt_div_iff₀ hn' two_pos]
        exact_mod_cast (by omega : k * 2 < 1 * n)
      rw [Nat.compare_eq_lt.2 hcmp]
      exact ⟨by linarith, by linarith⟩
    · have hhalf : (k : ℝ) / n = 1 / 2 := by
        rw [div_eq_div_iff hn'.ne' two_ne_zero]
        exact_mod_cast (by omega : k * 2 = 1 * n)
      rw [Nat.compare_eq_eq.2 hcmp]
      show (l : ℝ) + (k : ℝ) / n = l + 1 / 2
      rw [hhalf]
    · have hhalf : 1 / 2 < (k : ℝ) / n := by
        rw [div_lt_div_iff₀ two_pos hn']
        exact_mod_cast (by omega : 1 * n < k * 2)
      rw [Nat.compare_eq_gt.2 hcmp]
      exact ⟨by linarith, by linarith⟩

/-- The whole part of a fraction has 53 bits, if the numerator is shifted far enough. -/
theorem le_log2_div {k : Nat} (hm : 0 < m) (hn : 0 < n) (h : n.log2 + 53 ≤ m.log2 + k) :
    52 ≤ (m * 2 ^ k / n).log2 := by
  have hle : 2 ^ 52 * n ≤ m * 2 ^ k :=
    calc 2 ^ 52 * n ≤ 2 ^ 52 * 2 ^ (n.log2 + 1) := Nat.mul_le_mul_left _ Nat.lt_log2_self.le
      _ ≤ 2 ^ m.log2 * 2 ^ k := by
          rw [← Nat.pow_add, ← Nat.pow_add]
          exact Nat.pow_le_pow_right (by decide) (by omega)
      _ ≤ m * 2 ^ k := Nat.mul_le_mul_right _ (Nat.log2_self_le hm.ne')
  have hdiv := (Nat.le_div_iff_mul_le hn).2 hle
  exact (Nat.le_log2 (by omega)).2 hdiv

theorem rounds_div (hx : x.isFinite) (hy : y.isFinite) (hy0 : value y ≠ 0) :
    Rounds (value x / value y) (x / y) := by
  rcases parts_of_isFinite hy with hzero | ⟨s', n, f, hn, huy⟩
  · exact absurd (IsZero.value_eq hzero) hy0
  rcases parts_of_isFinite hx with hzero | ⟨s, m, e, hm, hux⟩
  · rw [IsZero.value_eq hzero, zero_div]
    exact (IsZero.div hzero huy).rounds
  let g := min (e - f) (Format.binary64.targetExponent (totalExponent m e - totalExponent n f))
  let k := (e - f - g).toNat
  have hk : (k : ℤ) = e - f - g := Int.toNat_of_nonneg (by omega)
  have hquot : (x / y).toModel = Float.Model.pack (roundWithAccuracy Format.binary64 (s / s')
      (m * 2 ^ k / n) g (accuracyOfFraction (m * 2 ^ k % n) n)) := by
    show Float.Model.pack (UnpackedFloat.div _ x.toModel.unpack y.toModel.unpack) = _
    rw [hux, huy, ← Nat.shiftLeft_eq]
    rfl
  have hplace : g ≤ -1074 ∨ 52 ≤ (m * 2 ^ k / n).log2 := by
    have hg : g ≤ Format.binary64.targetExponent (totalExponent m e - totalExponent n f) :=
      min_le_right _ _
    rw [targetExponent_eq_max, totalExponent, totalExponent] at hg
    exact or_iff_not_imp_left.2 fun hhigh => le_log2_div hm hn (by omega)
  have hrounds := rounds_of_describes hquot (describes_fraction _ hn)
    (le_targetExponent_iff.2 hplace)
  rw [value_of_unpack hux, value_of_unpack huy]
  convert hrounds using 1
  have hpow : (2 : ℝ) ^ e / 2 ^ f = 2 ^ k * 2 ^ g := by
    rw [← zpow_sub₀ two_ne_zero, ← zpow_natCast, hk, ← zpow_add₀ two_ne_zero, sub_add_cancel]
  rw [factor_div, mul_div_mul_comm, mul_div_mul_comm, hpow]
  push_cast
  ring

/-- The whole part of a square root with what is left of it. -/
theorem describes_sqrt (m : Nat) : Describes (√m) (.ofMantissaAndAccuracy m.sqrt
    (if m - m.sqrt * m.sqrt = 0 then .exact
      else .inexact (if m - m.sqrt * m.sqrt ≤ m.sqrt then .lt else .gt))) := by
  have hle : m.sqrt * m.sqrt ≤ m := Nat.sqrt_le m
  have hlt : m < (m.sqrt + 1) * (m.sqrt + 1) := Nat.lt_succ_sqrt m
  generalize m.sqrt = k at *
  have hk : (0 : ℝ) ≤ k := Nat.cast_nonneg k
  split_ifs with hzero hlow
  · show √(m : ℝ) = k
    rw [Real.sqrt_eq_iff_mul_self_eq (Nat.cast_nonneg m) hk]
    exact_mod_cast (by omega : m = k * k)
  · constructor
    · rw [Real.lt_sqrt hk, sq]
      exact_mod_cast (by omega : k * k < m)
    · rw [Real.sqrt_lt' (by linarith)]
      have hm : (m : ℝ) ≤ k * k + k := by exact_mod_cast (by omega : m ≤ k * k + k)
      nlinarith
  · constructor
    · rw [Real.lt_sqrt (by linarith)]
      have hm : (k : ℝ) * k + k + 1 ≤ m := by exact_mod_cast (by omega : k * k + k + 1 ≤ m)
      nlinarith
    · rw [Real.sqrt_lt' (by linarith), sq]
      exact_mod_cast hlt

/-- The whole part of a square root has 53 bits, if the number is shifted far enough. -/
theorem le_log2_sqrt {k : Nat} (hm : 0 < m) (h : 104 ≤ m.log2 + k) :
    52 ≤ (m * 2 ^ k).sqrt.log2 := by
  have hle : 2 ^ 52 * 2 ^ 52 ≤ m * 2 ^ k :=
    calc 2 ^ 52 * 2 ^ 52 ≤ 2 ^ m.log2 * 2 ^ k := by
          rw [← Nat.pow_add, ← Nat.pow_add]
          exact Nat.pow_le_pow_right (by decide) (by omega)
      _ ≤ m * 2 ^ k := Nat.mul_le_mul_right _ (Nat.log2_self_le hm.ne')
  have hsqrt := Nat.le_sqrt.2 hle
  exact (Nat.le_log2 (by omega)).2 hsqrt

theorem rounds_sqrt (hx : x.isFinite) (hx0 : 0 ≤ value x) : Rounds (√(value x)) x.sqrt := by
  rcases parts_of_isFinite hx with ⟨t, ht⟩ | ⟨s, m, e, hm, hux⟩
  · rw [IsZero.value_eq ⟨t, ht⟩, Real.sqrt_zero]
    refine (isZero_of_pack (s := t) rfl ?_).rounds
    rw [ht]
    rfl
  cases s with
  | negative =>
    rw [value_of_unpack hux, factor, neg_one_mul, Right.nonneg_neg_iff] at hx0
    exact absurd hx0 (not_le.2 (by positivity))
  | positive =>
    let g := min (e / 2) (Format.binary64.targetExponent ((totalExponent m e + 1) / 2))
    let k := (e - 2 * g).toNat
    have hk : (k : ℤ) = e - 2 * g := Int.toNat_of_nonneg (by omega)
    have hroot : x.sqrt.toModel = Float.Model.pack (roundWithAccuracy Format.binary64 .positive
        (m * 2 ^ k).sqrt g
        (if m * 2 ^ k - (m * 2 ^ k).sqrt * (m * 2 ^ k).sqrt = 0 then .exact
          else .inexact (if m * 2 ^ k - (m * 2 ^ k).sqrt * (m * 2 ^ k).sqrt ≤ (m * 2 ^ k).sqrt
            then .lt else .gt))) := by
      show Float.Model.pack (UnpackedFloat.sqrt _ x.toModel.unpack) = _
      rw [hux, ← Nat.shiftLeft_eq]
      rfl
    have hplace : g ≤ -1074 ∨ 52 ≤ (m * 2 ^ k).sqrt.log2 := by
      have hg : g ≤ Format.binary64.targetExponent ((totalExponent m e + 1) / 2) :=
        min_le_right _ _
      rw [targetExponent_eq_max, totalExponent] at hg
      exact or_iff_not_imp_left.2 fun hhigh => le_log2_sqrt hm (by omega)
    have hrounds := rounds_of_describes hroot (describes_sqrt _) (le_targetExponent_iff.2 hplace)
    rw [value_of_unpack hux]
    convert hrounds using 1
    have hpow : (m : ℝ) * 2 ^ e = m * 2 ^ k * (2 ^ g) ^ 2 := by
      rw [mul_assoc, ← zpow_natCast 2 k, ← zpow_natCast, ← zpow_mul, ← zpow_add₀ two_ne_zero, hk]
      congr 2
      push_cast
      ring
    rw [factor, one_mul, one_mul, hpow, Real.sqrt_mul (by positivity), Real.sqrt_sq (by positivity)]
    push_cast
    rfl

/-! ## Order -/

theorem value_lt_of_exponent_lt (hm : 0 < m) (hn : 0 < n) (hme : Fits m e) (hnf : Fits n f)
    (hlt : e < f) : (m : ℝ) * 2 ^ e < n * 2 ^ f := by
  have hlog : n.log2 = 52 := by
    rcases hnf with ⟨-, rfl⟩ | ⟨hlog, -⟩
    · exact absurd (bounds_of_fits hme).1 (not_le.2 hlt)
    · exact hlog
  have hn52 : (2 : ℝ) ^ 52 ≤ n := by exact_mod_cast ((Nat.log2_eq_iff hn.ne').1 hlog).1
  have hm53 : (m : ℝ) < 2 ^ 53 := by exact_mod_cast lt_of_fits hm hme
  calc (m : ℝ) * 2 ^ e < 2 ^ 53 * 2 ^ e := mul_lt_mul_of_pos_right hm53 (by positivity)
    _ = 2 ^ 52 * 2 ^ (e + 1) := by
        rw [zpow_add_one₀ two_ne_zero]
        ring
    _ ≤ n * 2 ^ f :=
        mul_le_mul hn52 (zpow_le_zpow_right₀ one_le_two (by omega)) (by positivity) (by positivity)

/-- Parts are compared by their exponents first. -/
theorem compare_parts (hm : 0 < m) (hn : 0 < n) (hme : Fits m e) (hnf : Fits n f) :
    (compare e f).then (compare m n) = cmp ((m : ℝ) * 2 ^ e) (n * 2 ^ f) := by
  rcases lt_trichotomy e f with hlt | rfl | hgt
  · rw [Int.compare_eq_lt.2 hlt]
    exact ((cmp_eq_lt_iff _ _).2 (value_lt_of_exponent_lt hm hn hme hnf hlt)).symm
  · rw [Int.compare_eq_eq.2 rfl, cmp_mul_pos_right (by positivity), ← cmp_eq_compare]
    rcases lt_trichotomy m n with hlt | rfl | hgt
    · rw [(cmp_eq_lt_iff m n).2 hlt, (cmp_eq_lt_iff (m : ℝ) n).2 (by exact_mod_cast hlt)]
      rfl
    · rw [cmp_self_eq_eq, cmp_self_eq_eq]
      rfl
    · rw [(cmp_eq_gt_iff m n).2 hgt, (cmp_eq_gt_iff (m : ℝ) n).2 (by exact_mod_cast hgt)]
      rfl
  · rw [Int.compare_eq_gt.2 hgt]
    exact ((cmp_eq_gt_iff _ _).2 (value_lt_of_exponent_lt hn hm hnf hme hgt)).symm

theorem magnitude_bounds (hm : 0 < m) (h : Fits m e) :
    (0 : ℝ) < m * 2 ^ e ∧ (m : ℝ) * 2 ^ e < limit := by
  have hm53 : (m : ℝ) < 2 ^ 53 := by exact_mod_cast lt_of_fits hm h
  refine ⟨by positivity, ?_⟩
  rw [limit_eq]
  exact mul_lt_mul hm53 (zpow_le_zpow_right₀ one_le_two (bounds_of_fits h).2) (by positivity)
    (by positivity)

theorem some_lt {a b : ℝ} (h : a < b) : some .lt = some (cmp a b) := by
  rw [(cmp_eq_lt_iff a b).2 h]

theorem some_gt {a b : ℝ} (h : b < a) : some .gt = some (cmp a b) := by
  rw [(cmp_eq_gt_iff a b).2 h]

/-- Numbers are compared as their values are. -/
theorem compare_eq (hx : x.isNaN = false) (hy : y.isNaN = false) :
    x.toModel.unpack.compare y.toModel.unpack = some (cmp (value x) (value y)) := by
  have hlimit := limit_pos
  change x.toModel.unpack.isNaN = false at hx
  change y.toModel.unpack.isNaN = false at hy
  rw [value, value]
  cases hux : x.toModel.unpack with
  | notANumber => rw [hux] at hx; cases hx
  | infinity s =>
    cases huy : y.toModel.unpack with
    | notANumber => rw [huy] at hy; cases hy
    | infinity s' =>
      cases s <;> cases s' <;> simp only [valueOf, factor, one_mul, neg_one_mul]
      · rw [cmp_self_eq_eq]; rfl
      · exact some_lt (by linarith)
      · exact some_gt (by linarith)
      · rw [cmp_self_eq_eq]; rfl
    | zero s' =>
      cases s <;> simp only [valueOf, factor, one_mul, neg_one_mul]
      · exact some_lt (neg_lt_zero.2 hlimit)
      · exact some_gt hlimit
    | finite s' n f hn =>
      obtain ⟨hpos, hlt⟩ := magnitude_bounds hn (fits_of_unpack huy)
      cases s <;> cases s' <;> simp only [valueOf, factor, one_mul, neg_one_mul]
      · exact some_lt (neg_lt_neg hlt)
      · exact some_lt (by linarith)
      · exact some_gt (by linarith)
      · exact some_gt hlt
  | zero s =>
    cases huy : y.toModel.unpack with
    | notANumber => rw [huy] at hy; cases hy
    | infinity s' =>
      cases s' <;> simp only [valueOf, factor, one_mul, neg_one_mul]
      · exact some_gt (neg_lt_zero.2 hlimit)
      · exact some_lt hlimit
    | zero s' =>
      simp only [valueOf]
      rw [cmp_self_eq_eq]
      rfl
    | finite s' n f hn =>
      obtain ⟨hpos, -⟩ := magnitude_bounds hn (fits_of_unpack huy)
      cases s' <;> simp only [valueOf, factor, one_mul, neg_one_mul]
      · exact some_gt (neg_lt_zero.2 hpos)
      · exact some_lt hpos
  | finite s m e hm =>
    obtain ⟨hpos, hlt⟩ := magnitude_bounds hm (fits_of_unpack hux)
    cases huy : y.toModel.unpack with
    | notANumber => rw [huy] at hy; cases hy
    | infinity s' =>
      cases s <;> cases s' <;> simp only [valueOf, factor, one_mul, neg_one_mul]
      · exact some_gt (neg_lt_neg hlt)
      · exact some_lt (by linarith)
      · exact some_gt (by linarith)
      · exact some_lt hlt
    | zero s' =>
      cases s <;> simp only [valueOf, factor, one_mul, neg_one_mul]
      · exact some_lt (neg_lt_zero.2 hpos)
      · exact some_gt hpos
    | finite s' n f hn =>
      obtain ⟨hpos', -⟩ := magnitude_bounds hn (fits_of_unpack huy)
      have hparts := compare_parts hm hn (fits_of_unpack hux) (fits_of_unpack huy)
      cases s <;> cases s' <;> simp only [valueOf]
      · rw [cmp_mul_neg_left (by simp [factor]), ← cmp_swap, ← hparts]
        rfl
      · exact some_lt (by simp only [factor]; linarith)
      · exact some_gt (by simp only [factor]; linarith)
      · rw [factor, one_mul, one_mul, ← hparts]
        rfl

/-- Only numbers have an order. -/
theorem isNaN_of_compare {o : Ordering} (h : x.toModel.unpack.compare y.toModel.unpack = some o) :
    x.isNaN = false ∧ y.isNaN = false := by
  show x.toModel.unpack.isNaN = false ∧ y.toModel.unpack.isNaN = false
  cases hx : x.toModel.unpack with
  | notANumber => rw [hx] at h; cases h
  | _ =>
    refine ⟨rfl, ?_⟩
    cases hy : y.toModel.unpack with
    | notANumber => rw [hx, hy] at h; cases h
    | _ => rfl

theorem isNaN_of_lt (h : x < y) : x.isNaN = false ∧ y.isNaN = false :=
  isNaN_of_compare (beq_iff_eq.1 (Datum.lt_iff.1 h))

theorem isNaN_of_le (h : x ≤ y) : x.isNaN = false ∧ y.isNaN = false := by
  rw [Datum.le_iff, UnpackedFloat.le] at h
  cases hcompare : x.toModel.unpack.compare y.toModel.unpack with
  | none => rw [hcompare] at h; cases h
  | some o => exact isNaN_of_compare hcompare

theorem lt_iff_value (hx : x.isNaN = false) (hy : y.isNaN = false) :
    x < y ↔ value x < value y := by
  rw [Datum.lt_iff, UnpackedFloat.lt, compare_eq hx hy, ← cmp_eq_lt_iff]
  simp

theorem le_iff_value (hx : x.isNaN = false) (hy : y.isNaN = false) :
    x ≤ y ↔ value x ≤ value y := by
  rw [Datum.le_iff, UnpackedFloat.le, compare_eq hx hy, Option.any_some, ← not_lt, ← cmp_eq_gt_iff]
  cases cmp (value x) (value y) <;> simp

theorem beq_iff_value (hx : x.isNaN = false) (hy : y.isNaN = false) :
    x == y ↔ value x = value y := by
  show (x.toModel.unpack.compare y.toModel.unpack == some .eq) = true ↔ _
  rw [compare_eq hx hy, ← cmp_eq_eq_iff]
  simp

/-! ## Range -/

theorem abs_factor (s : Sign) : |factor s| = 1 := by
  cases s <;> simp [factor]

/-- A number is finite if its value is in range. -/
theorem isFinite_iff_abs_lt (hx : x.isNaN = false) : x.isFinite ↔ |value x| < limit := by
  change x.toModel.unpack.isNaN = false at hx
  show x.toModel.unpack.isFinite = true ↔ _
  rw [value]
  cases hu : x.toModel.unpack with
  | notANumber => rw [hu] at hx; cases hx
  | infinity s =>
    refine iff_of_false Bool.false_ne_true ?_
    rw [valueOf, abs_mul, abs_factor, one_mul, abs_of_pos limit_pos]
    exact lt_irrefl limit
  | zero s => exact iff_of_true rfl (abs_zero.trans_lt limit_pos)
  | finite s m e hm =>
    obtain ⟨hpos, hlt⟩ := magnitude_bounds hm (fits_of_unpack hu)
    refine iff_of_true rfl ?_
    rwa [valueOf, abs_mul, abs_factor, one_mul, abs_of_pos hpos]

theorem abs_value_lt (hx : x.isFinite) : |value x| < limit :=
  (isFinite_iff_abs_lt (isNaN_of_isFinite hx)).1 hx

theorem toNearest_le {a : ℝ} (ha : Representable a) (h : q ≤ a) : toNearest q ≤ a :=
  (isNearest_toNearest q).le_of_le ha h

theorem le_toNearest {a : ℝ} (ha : Representable a) (h : a ≤ q) : a ≤ toNearest q :=
  (isNearest_toNearest q).ge_of_ge ha h

theorem Rounds.nonneg (h : Rounds q x) (hq : 0 ≤ q) : 0 ≤ value x := by
  rw [h.value_eq]
  exact le_toNearest representable_zero hq

/-- What is rounded between two values comes between them. -/
theorem Rounds.bounds (h : Rounds q x) {a b : ℝ} (ha : Representable a) (hb : Representable b)
    (hlo : a ≤ q) (hhi : q ≤ b) : a ≤ value x ∧ value x ≤ b := by
  rw [h.value_eq]
  exact ⟨le_toNearest ha hlo, toNearest_le hb hhi⟩

theorem Representable.abs (h : Representable q) : Representable |q| := by
  rcases abs_choice q with heq | heq
  · rwa [heq]
  · rw [heq]
    exact h.neg

/-- What is no larger than a finite number is rounded to a finite number. -/
theorem Rounds.isFinite (h : Rounds q x) (hy : y.isFinite) (hle : |q| ≤ |value y|) :
    x.isFinite := by
  obtain ⟨hlo, hhi⟩ := abs_le.1 hle
  have hrep := (representable_value y).abs
  exact (isFinite_iff_abs_lt h.number).2
    ((abs_le.2 (h.bounds hrep.neg hrep hlo hhi)).trans_lt (abs_value_lt hy))

theorem Rounds.le_iff (h : Rounds q x) (h' : Rounds z y) : x ≤ y ↔ toNearest q ≤ toNearest z := by
  rw [le_iff_value h.number h'.number, h.value_eq, h'.value_eq]

/-- Numbers that are not equal are no nearer than the least number above zero. -/
theorem Representable.least_le_sub {a b : ℝ} (ha : Representable a) (hb : Representable b)
    (hlt : a < b) : 2 ^ (-1074 : ℤ) ≤ b - a := by
  have hgrid : ∀ {c : ℝ}, Representable c → ∃ n : ℤ, c = n * 2 ^ (-1074 : ℤ) := by
    rintro c ⟨m, e, -, hlo, -, rfl⟩
    refine ⟨m * 2 ^ (e + 1074).toNat, ?_⟩
    push_cast
    rw [mul_assoc, ← zpow_natCast, ← zpow_add₀ two_ne_zero, Int.toNat_of_nonneg (by omega)]
    congr 2
    ring
  obtain ⟨m, rfl⟩ := hgrid ha
  obtain ⟨n, rfl⟩ := hgrid hb
  have hpow : (0 : ℝ) < 2 ^ (-1074 : ℤ) := by positivity
  have hmn : m < n := by exact_mod_cast lt_of_mul_lt_mul_right hlt hpow.le
  have hone : (1 : ℝ) ≤ n - m := by exact_mod_cast Int.sub_pos.2 hmn
  rw [← sub_mul]
  exact le_mul_of_one_le_left hpow.le hone

/-! ## Zero and one -/

theorem representable_one : Representable 1 :=
  ⟨1, 0, by decide, by decide, by decide, by norm_num⟩

theorem one_lt_limit : 1 < limit := by
  rw [limit]
  exact one_lt_zpow₀ one_lt_two (by decide)

theorem value_zero : value 0.0 = 0 := IsZero.value_eq ⟨.positive, by rfl⟩

theorem value_one : value 1.0 = 1 := by
  have hunpack : (1.0 : Float).toModel.unpack = .finite .positive (2 ^ 52) (-52) (by decide) := by
    rfl
  rw [value_of_unpack hunpack, factor, one_mul]
  norm_num

theorem value_sub_zero (hx : x.isFinite) :
    (x - 0.0).isFinite ∧ value (x - 0.0) = value x := by
  have hrounds := rounds_sub hx (y := 0.0) (by decide)
  rw [value_zero, sub_zero] at hrounds
  exact ⟨hrounds.isFinite hx le_rfl, hrounds.value_eq.trans (toNearest_value x)⟩

theorem value_zero_add (hx : x.isFinite) :
    (0.0 + x).isNaN = false ∧ value (0.0 + x) = value x := by
  have hrounds := rounds_add (x := 0.0) (by decide) hx
  rw [value_zero, zero_add] at hrounds
  exact ⟨hrounds.number, hrounds.value_eq.trans (toNearest_value x)⟩

theorem value_nonneg_iff (hx : x.isNaN = false) : 0.0 ≤ x ↔ 0 ≤ value x := by
  rw [le_iff_value (by decide) hx, value_zero]

theorem value_nonpos_iff (hx : x.isNaN = false) : x ≤ 0.0 ↔ value x ≤ 0 := by
  rw [le_iff_value hx (by decide), value_zero]

/-! ## Infinities -/

theorem value_of_infinity (h : x.toModel.unpack = .infinity .positive) : value x = limit := by
  rw [value, h, valueOf, factor, one_mul]

/-- A number that is neither finite nor below zero. -/
theorem unpack_of_not_finite (hx : x.isNaN = false) (hx0 : 0 ≤ value x) (h : ¬ x.isFinite) :
    x.toModel.unpack = .infinity .positive := by
  change x.toModel.unpack.isNaN = false at hx
  change ¬ x.toModel.unpack.isFinite = true at h
  rw [value] at hx0
  cases hu : x.toModel.unpack with
  | notANumber => rw [hu] at hx; cases hx
  | zero s => rw [hu] at h; exact absurd rfl h
  | finite s m e hm => rw [hu] at h; exact absurd rfl h
  | infinity s =>
    cases s with
    | positive => rfl
    | negative =>
      rw [hu, valueOf, factor, neg_one_mul] at hx0
      have hlimit := limit_pos
      linarith

theorem toNearest_of_limit_le (h : limit ≤ q) : toNearest q = limit :=
  le_antisymm (isNearest_toNearest q).representable.le_limit (le_toNearest representable_limit h)

/-- A sum that overflows is as large as can be. -/
theorem rounds_of_infinity (hx : x.toModel = Float.Model.pack (.infinity .positive))
    (h : limit ≤ q) : Rounds q x := by
  have hunpack : x.toModel.unpack = .infinity .positive := by
    rw [hx]
    rfl
  exact ⟨isNaN_of_unpack hunpack rfl,
    (value_of_infinity hunpack).trans (toNearest_of_limit_le h).symm⟩

theorem rounds_add_of_nonneg (hx : x.isNaN = false) (hy : y.isNaN = false) (hx0 : 0 ≤ value x)
    (hy0 : 0 ≤ value y) : Rounds (value x + value y) (x + y) := by
  by_cases hxf : x.isFinite
  · by_cases hyf : y.isFinite
    · exact rounds_add hxf hyf
    · have huy := unpack_of_not_finite hy hy0 hyf
      refine rounds_of_infinity ?_ (by rw [value_of_infinity huy]; linarith)
      show Float.Model.pack (UnpackedFloat.add _ x.toModel.unpack y.toModel.unpack) = _
      rw [huy]
      rcases parts_of_isFinite hxf with ⟨s, hs⟩ | ⟨s, m, e, hm, hs⟩
      · rw [hs]
        rfl
      · rw [hs]
        rfl
  · have hux := unpack_of_not_finite hx hx0 hxf
    refine rounds_of_infinity ?_ (by rw [value_of_infinity hux]; linarith)
    show Float.Model.pack (UnpackedFloat.add _ x.toModel.unpack y.toModel.unpack) = _
    rw [hux]
    by_cases hyf : y.isFinite
    · rcases parts_of_isFinite hyf with ⟨s, hs⟩ | ⟨s, m, e, hm, hs⟩
      · rw [hs]
        rfl
      · rw [hs]
        rfl
    · rw [unpack_of_not_finite hy hy0 hyf]
      rfl

theorem unpack_sqrt_of_infinity (h : x.toModel.unpack = .infinity .positive) :
    x.sqrt.toModel.unpack = .infinity .positive := by
  show UnpackedFloat.unpack _ (UnpackedFloat.pack _ (UnpackedFloat.sqrt _ x.toModel.unpack)) = _
  rw [h]
  rfl

theorem isNaN_sqrt (hx : x.isNaN = false) (hx0 : 0 ≤ value x) : x.sqrt.isNaN = false := by
  by_cases hxf : x.isFinite
  · exact (rounds_sqrt hxf hx0).number
  · exact isNaN_of_unpack (unpack_sqrt_of_infinity (unpack_of_not_finite hx hx0 hxf)) rfl

/-- The square root keeps the order, up to the infinity. -/
theorem sqrt_le_sqrt (hx : x.isNaN = false) (hy : y.isNaN = false) (hx0 : 0 ≤ value x)
    (hle : value x ≤ value y) : x.sqrt ≤ y.sqrt := by
  have hy0 := hx0.trans hle
  rw [le_iff_value (isNaN_sqrt hx hx0) (isNaN_sqrt hy hy0)]
  by_cases hyf : y.isFinite
  · have hxf : x.isFinite := (rounds_self hx).isFinite hyf (by
      rwa [abs_of_nonneg hx0, abs_of_nonneg hy0])
    rw [(rounds_sqrt hxf hx0).value_eq, (rounds_sqrt hyf hy0).value_eq]
    exact toNearest_mono (Real.sqrt_le_sqrt hle)
  · rw [value_of_infinity (unpack_sqrt_of_infinity (unpack_of_not_finite hy hy0 hyf))]
    exact (representable_value _).le_limit

end Number

end SwarmFlight
