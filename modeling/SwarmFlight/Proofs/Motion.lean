import SwarmFlight.Proofs.Number.Correct
import SwarmFlight.Proofs.Settings.Runnable

/-!
# Dampening

With thresholds that settings may have (`Integrator.Tuned`, `Settings.tuned_of_validate`), the
fraction that is taken away between them is the full one times a progress that rounding keeps in
order and between 0 and 1 (`Integrator.Tuned.rounds_ramp`). The thresholds may be as close as two
numbers can be, since their difference is never rounded to nothing
(`Integrator.Tuned.width_pos`). So the fraction grows with the speed and does not leave its range,
also where the ramp meets its ends (`Integrator.Tuned.factor_mono`,
`Integrator.Tuned.factor_bounds`).

A number from which such a fraction of itself is taken comes closer to zero and does not pass it
(`Integrator.shrinks_sub_mul`), and then neither the length of a velocity nor its energy grows
(`Integrator.dampening_never_drives`).
-/

namespace SwarmFlight

open Number

/-- A span of time is a finite number of seconds, and not below zero. -/
theorem Duration.toSeconds_bounds (d : Duration) :
    d.toSeconds.isFinite ∧ 0 ≤ value d.toSeconds := by
  by_cases hd : d = zero
  · rw [hd]
    exact ⟨isZero_toSeconds_zero.isFinite, isZero_toSeconds_zero.value_eq.ge⟩
  · have hscaled := scaled_toSeconds hd
    obtain ⟨m, e, hm, hu, -⟩ := scaled_toSeconds hd
    refine ⟨hscaled.isFinite, ?_⟩
    rw [value_of_unpack hu, factor, one_mul]
    positivity

namespace Integrator

variable {i : Integrator} {s t : Float}

/-! ## The full fraction -/

theorem rounds_fraction (i : Integrator) :
    Rounds (value maxDampenPerSecond * value i.step.toSeconds)
      (maxDampenPerSecond * i.step.toSeconds) :=
  rounds_mul (by decide) i.step.toSeconds_bounds.1

/-- The full fraction takes away no more than there is. -/
theorem fullDampening_bounds (i : Integrator) : i.fullDampening.isFinite ∧
    0 ≤ value i.fullDampening ∧ value i.fullDampening ≤ 1 := by
  have hrounds := i.rounds_fraction
  have hhalf : 0 ≤ value maxDampenPerSecond := (value_nonneg_iff (by decide)).1 (by decide)
  have hnonneg := hrounds.nonneg (mul_nonneg hhalf i.step.toSeconds_bounds.2)
  simp only [fullDampening]
  split_ifs with hlt
  · rw [lt_iff_value hrounds.number (by decide), value_one] at hlt
    refine ⟨(isFinite_iff_abs_lt hrounds.number).2 ?_, hnonneg, hlt.le⟩
    rw [abs_of_nonneg hnonneg]
    exact hlt.trans one_lt_limit
  · rw [value_one]
    exact ⟨by decide, zero_le_one, le_rfl⟩

/-- The full fraction is half the time step in seconds, and 1 at most. -/
theorem fullDampening_eq (i : Integrator) :
    i.fullDampening = min (maxDampenPerSecond * i.step.toSeconds) 1.0 := by
  have hrounds := i.rounds_fraction
  show _ = if _ ≤ (1.0 : Float) then _ else _
  simp only [fullDampening]
  split_ifs with hlt hle hle
  · rfl
  · rw [lt_iff_value hrounds.number (by decide)] at hlt
    rw [le_iff_value hrounds.number (by decide)] at hle
    exact absurd hlt.le hle
  · rw [lt_iff_value hrounds.number (by decide), not_lt] at hlt
    rw [le_iff_value hrounds.number (by decide)] at hle
    rcases isZero_or_eq_of_beq ((beq_iff_value hrounds.number (by decide)).2 (le_antisymm hle hlt))
      with ⟨-, hzero⟩ | heq
    · exact absurd (value_one.symm.trans hzero.value_eq) one_ne_zero
    · exact heq.symm
  · rfl

/-! ## The ramp -/

/-- Thresholds that settings may have. -/
structure Tuned (i : Integrator) : Prop where
  low : 0.0 ≤ i.minDampen
  ordered : i.minDampen < i.maxDampen
  finite : i.maxDampen.isFinite

/-- How far a speed is from the lower threshold to the upper one, as it is reckoned. -/
noncomputable def progress (i : Integrator) (v : ℝ) : ℝ :=
  toNearest (toNearest (v - value i.minDampen) / toNearest (value i.maxDampen - value i.minDampen))

namespace Tuned

variable {v w : ℝ}

theorem values (h : i.Tuned) : 0 ≤ value i.minDampen ∧ value i.minDampen < value i.maxDampen := by
  obtain ⟨hlow, hhigh⟩ := isNaN_of_lt h.ordered
  exact ⟨(value_nonneg_iff hlow).1 h.low, (lt_iff_value hlow hhigh).1 h.ordered⟩

/-- The way between the thresholds is not rounded to nothing, however close they are. -/
theorem width_pos (h : i.Tuned) : 0 < toNearest (value i.maxDampen - value i.minDampen) := by
  have hleast : Representable (2 ^ (-1074 : ℤ)) :=
    ⟨1, -1074, by decide, by decide, by decide, by norm_num⟩
  refine lt_of_lt_of_le (by positivity) (le_toNearest hleast ?_)
  exact (representable_value _).least_le_sub (representable_value _) h.values.2

theorem progress_mono (h : i.Tuned) (hle : v ≤ w) : i.progress v ≤ i.progress w :=
  toNearest_mono (div_le_div_of_nonneg_right (toNearest_mono (sub_le_sub_right hle _))
    h.width_pos.le)

theorem progress_low (i : Integrator) : i.progress (value i.minDampen) = 0 := by
  rw [progress, sub_self, toNearest_of_representable representable_zero, zero_div,
    toNearest_of_representable representable_zero]

theorem progress_high (h : i.Tuned) : i.progress (value i.maxDampen) = 1 := by
  rw [progress, div_self h.width_pos.ne', toNearest_of_representable representable_one]

theorem isFinite_minDampen (h : i.Tuned) : i.minDampen.isFinite := by
  obtain ⟨hlow, hlt⟩ := h.values
  refine (rounds_self (isNaN_of_lt h.ordered).1).isFinite h.finite ?_
  rw [abs_of_nonneg hlow, abs_of_nonneg (hlow.trans hlt.le)]
  exact hlt.le

/-- The difference from the lower threshold, of a speed that is not above the upper one. -/
theorem rounds_above (h : i.Tuned) (hs : s.isNaN = false) (hlow : value i.minDampen ≤ value s)
    (hhigh : value s ≤ value i.maxDampen) : (s - i.minDampen).isFinite ∧
      value (s - i.minDampen) = toNearest (value s - value i.minDampen) := by
  have hmin := h.values.1
  have hfinite : s.isFinite := by
    refine (rounds_self hs).isFinite h.finite ?_
    rwa [abs_of_nonneg (hmin.trans hlow), abs_of_nonneg (hmin.trans (hlow.trans hhigh))]
  have hrounds := rounds_sub hfinite h.isFinite_minDampen
  refine ⟨hrounds.isFinite hfinite ?_, hrounds.value_eq⟩
  rw [abs_of_nonneg (sub_nonneg.2 hlow), abs_of_nonneg (hmin.trans hlow)]
  exact sub_le_self _ hmin

theorem progress_bounds (h : i.Tuned) (hlow : value i.minDampen ≤ v)
    (hhigh : v ≤ value i.maxDampen) : 0 ≤ i.progress v ∧ i.progress v ≤ 1 :=
  ⟨(progress_low i).symm.trans_le (h.progress_mono hlow),
    (h.progress_mono hhigh).trans_eq h.progress_high⟩

/-- The progress of a speed is what the quotient of the two differences comes to. -/
theorem value_quotient (h : i.Tuned) (hs : s.isNaN = false) (hlow : value i.minDampen ≤ value s)
    (hhigh : value s ≤ value i.maxDampen) :
    ((s - i.minDampen) / (i.maxDampen - i.minDampen)).isFinite ∧
      value ((s - i.minDampen) / (i.maxDampen - i.minDampen)) = i.progress (value s) := by
  obtain ⟨hdFinite, hd⟩ := h.rounds_above hs hlow hhigh
  obtain ⟨hwFinite, hw⟩ := h.rounds_above (isNaN_of_lt h.ordered).2 h.values.2.le le_rfl
  have hquot := rounds_div hdFinite hwFinite (by rw [hw]; exact h.width_pos.ne')
  have hprogress : value ((s - i.minDampen) / (i.maxDampen - i.minDampen)) =
      i.progress (value s) := by
    rw [hquot.value_eq, hd, hw, progress]
  obtain ⟨hp0, hp1⟩ := h.progress_bounds hlow hhigh
  refine ⟨(rounds_self hquot.number).isFinite (y := 1.0) (by decide) ?_, hprogress⟩
  rwa [hprogress, value_one, abs_one, abs_of_nonneg hp0]

theorem between (h : i.Tuned) (hlow : i.minDampen < s) (hhigh : ¬ s > i.maxDampen) :
    value i.minDampen ≤ value s ∧ value s ≤ value i.maxDampen := by
  obtain ⟨hmin, hs⟩ := isNaN_of_lt hlow
  rw [lt_iff_value hmin hs] at hlow
  rw [gt_iff_lt, lt_iff_value (isNaN_of_lt h.ordered).2 hs, not_lt] at hhigh
  exact ⟨hlow.le, hhigh⟩

/-- The fraction between the thresholds. -/
theorem rounds_ramp (h : i.Tuned) (hlow : i.minDampen < s) (hhigh : ¬ s > i.maxDampen) :
    Rounds (value i.fullDampening * i.progress (value s)) (i.dampeningFactor s) := by
  obtain ⟨hbelow, habove⟩ := h.between hlow hhigh
  obtain ⟨hquotFinite, hquot⟩ := h.value_quotient (isNaN_of_lt hlow).2 hbelow habove
  obtain ⟨hp0, hp1⟩ := h.progress_bounds hbelow habove
  obtain ⟨hmFinite, hm0, -⟩ := i.fullDampening_bounds
  obtain ⟨hspanFinite, hspan⟩ := value_sub_zero hmFinite
  have hprod := rounds_mul hspanFinite hquotFinite
  rw [hspan, hquot] at hprod
  have hprodFinite := hprod.isFinite hmFinite (by
    rw [abs_of_nonneg (mul_nonneg hm0 hp0), abs_of_nonneg hm0]
    exact mul_le_of_le_one_right hm0 hp1)
  obtain ⟨hnumber, hsum⟩ := value_zero_add hprodFinite
  rw [dampeningFactor, if_neg hhigh, if_pos hlow]
  exact ⟨hnumber, hsum.trans hprod.value_eq⟩

end Tuned

end Integrator

namespace Settings

variable {s : Settings} {a : AgentSettings}

theorem dampening_of_forAgents (h : s.forAgents = .ok a) :
    a.minDampen = s.minDampen ∧ a.maxDampen = s.maxDampen := by
  unfold forAgents at h
  cases hp : span s.packetInterval <;> rw [hp] at h
  · cases h
  · cases hc : span s.calculateInterval <;> rw [hc] at h <;> cases h
    exact ⟨rfl, rfl⟩

/-- The thresholds of settings that pass validation. -/
theorem tuned_of_validate (h : s.validate = .ok ()) (ha : s.forAgents = .ok a) :
    a.integrator.Tuned := by
  rw [validate_eq_ok_iff] at h
  simp only [checks, List.forall_mem_cons] at h
  obtain ⟨-, -, -, -, -, -, -, -, -, -, hdampen, -⟩ := h
  simp only [Bool.not_eq_false', Bool.and_eq_true, decide_eq_true_iff] at hdampen
  obtain ⟨⟨hlow, hordered⟩, hfinite⟩ := hdampen
  obtain ⟨hmin, hmax⟩ := dampening_of_forAgents ha
  refine ⟨?_, ?_, ?_⟩ <;> simp only [AgentSettings.integrator, hmin, hmax]
  · exact hlow
  · exact hordered
  · exact hfinite

end Settings

namespace Integrator

variable {i : Integrator} {s t : Float}

/-! ## The factor -/

namespace Tuned

/-- The fraction that is taken away, by where the speed lies. -/
theorem factor_cases (h : i.Tuned) (s : Float) :
    s > i.maxDampen ∧ i.dampeningFactor s = i.fullDampening ∨
      i.minDampen < s ∧ ¬ s > i.maxDampen ∧
        Rounds (value i.fullDampening * i.progress (value s)) (i.dampeningFactor s) ∨
      ¬ i.minDampen < s ∧ i.dampeningFactor s = 0.0 := by
  by_cases hhigh : s > i.maxDampen
  · exact .inl ⟨hhigh, if_pos hhigh⟩
  · by_cases hlow : i.minDampen < s
    · exact .inr (.inl ⟨hlow, hhigh, h.rounds_ramp hlow hhigh⟩)
    · exact .inr (.inr ⟨hlow, (if_neg hhigh).trans (if_neg hlow)⟩)

theorem factor_bounds (h : i.Tuned) (s : Float) : (i.dampeningFactor s).isFinite ∧
    0 ≤ value (i.dampeningFactor s) ∧
    value (i.dampeningFactor s) ≤ value i.fullDampening := by
  obtain ⟨hfinite, hm0, -⟩ := i.fullDampening_bounds
  rcases h.factor_cases s with ⟨-, heq⟩ | ⟨hlow, hhigh, hrounds⟩ | ⟨-, heq⟩
  · rw [heq]
    exact ⟨hfinite, hm0, le_rfl⟩
  · obtain ⟨hbelow, habove⟩ := h.between hlow hhigh
    obtain ⟨hp0, hp1⟩ := h.progress_bounds hbelow habove
    have hle := mul_le_of_le_one_right hm0 hp1
    refine ⟨hrounds.isFinite hfinite ?_, ?_⟩
    · rwa [abs_of_nonneg (mul_nonneg hm0 hp0), abs_of_nonneg hm0]
    · exact hrounds.bounds representable_zero (representable_value _) (mul_nonneg hm0 hp0) hle
  · rw [heq, value_zero]
    exact ⟨by decide, le_rfl, hm0⟩

theorem factor_nonneg (h : i.Tuned) (s : Float) : 0.0 ≤ i.dampeningFactor s := by
  obtain ⟨hfinite, hlow, -⟩ := h.factor_bounds s
  exact (value_nonneg_iff (isNaN_of_isFinite hfinite)).2 hlow

theorem factor_le (h : i.Tuned) (s : Float) : i.dampeningFactor s ≤ i.fullDampening := by
  obtain ⟨hfinite, -, hhigh⟩ := h.factor_bounds s
  exact (le_iff_value (isNaN_of_isFinite hfinite)
    (isNaN_of_isFinite i.fullDampening_bounds.1)).2 hhigh

theorem factor_of_le (h : i.Tuned) (hle : s ≤ i.minDampen) : i.dampeningFactor s = 0.0 := by
  obtain ⟨hs, hmin⟩ := isNaN_of_le hle
  rw [le_iff_value hs hmin] at hle
  rcases h.factor_cases s with ⟨hhigh, -⟩ | ⟨hlow, -⟩ | ⟨-, heq⟩
  · rw [gt_iff_lt, lt_iff_value (isNaN_of_lt h.ordered).2 hs] at hhigh
    exact absurd (h.values.2.trans hhigh) (not_lt.2 hle)
  · rw [lt_iff_value hmin hs] at hlow
    exact absurd hlow (not_lt.2 hle)
  · exact heq

theorem factor_of_ge (h : i.Tuned) (hle : i.maxDampen ≤ s) :
    i.dampeningFactor s == i.fullDampening := by
  obtain ⟨hmax, hs⟩ := isNaN_of_le hle
  have hm := i.fullDampening_bounds.1
  rw [le_iff_value hmax hs] at hle
  rcases h.factor_cases s with ⟨-, heq⟩ | ⟨hlow, hhigh, hrounds⟩ | ⟨hlow, -⟩
  · rw [heq]
    exact beq_self hm
  · obtain ⟨-, habove⟩ := h.between hlow hhigh
    rw [le_antisymm habove hle, h.progress_high, mul_one] at hrounds
    rw [beq_iff_value hrounds.number (isNaN_of_isFinite hm), hrounds.value_eq,
      toNearest_value]
  · rw [lt_iff_value (isNaN_of_lt h.ordered).1 hs] at hlow
    exact absurd (h.values.2.trans_le hle) hlow

/-- The faster, the larger is the fraction. -/
theorem factor_mono (h : i.Tuned) (hle : s ≤ t) : i.dampeningFactor s ≤ i.dampeningFactor t := by
  obtain ⟨hs, ht⟩ := isNaN_of_le hle
  rw [le_iff_value hs ht] at hle
  rcases h.factor_cases t with ⟨-, heq⟩ | ⟨hlow, hhigh, hrounds⟩ | ⟨hlow, -⟩
  · rw [heq]
    exact h.factor_le s
  · rcases h.factor_cases s with ⟨hhigh', -⟩ | ⟨hlow', hhigh', hrounds'⟩ | ⟨-, heq⟩
    · rw [gt_iff_lt, lt_iff_value (isNaN_of_lt h.ordered).2 hs] at hhigh'
      exact absurd (hhigh'.trans_le hle) (not_lt.2 (h.between hlow hhigh).2)
    · rw [hrounds'.le_iff hrounds]
      exact toNearest_mono (mul_le_mul_of_nonneg_left (h.progress_mono hle)
        i.fullDampening_bounds.2.1)
    · rw [heq]
      exact h.factor_nonneg t
  · have hlow' : s ≤ i.minDampen := by
      have hmin := (isNaN_of_lt h.ordered).1
      rw [lt_iff_value hmin ht, not_lt] at hlow
      exact (le_iff_value hs hmin).2 (hle.trans hlow)
    rw [h.factor_of_le hlow']
    exact h.factor_nonneg t

end Tuned

end Integrator

/-! ## Lengths -/

namespace Vec3

variable {a b : Vec3}

/-- The exact sum of the squares. -/
noncomputable def energy (a : Vec3) : ℝ := value a.x ^ 2 + value a.y ^ 2 + value a.z ^ 2

/-- A vector with no component larger than that of another one. -/
structure Inside (a b : Vec3) : Prop where
  x : |value a.x| ≤ |value b.x|
  y : |value a.y| ≤ |value b.y|
  z : |value a.z| ≤ |value b.z|

theorem Inside.energy_le (h : a.Inside b) : a.energy ≤ b.energy :=
  add_le_add (add_le_add (sq_le_sq.2 h.x) (sq_le_sq.2 h.y)) (sq_le_sq.2 h.z)

theorem rounds_square {c : Float} (hc : c.isFinite) : Rounds (value c ^ 2) (c * c) := by
  rw [sq]
  exact rounds_mul hc hc

/-- The sum of the squares as it is reckoned. -/
theorem rounds_squares (ha : a.isFinite) : 0 ≤ value (a.x * a.x + a.y * a.y + a.z * a.z) ∧ Rounds
    (toNearest (toNearest (value a.x ^ 2) + toNearest (value a.y ^ 2)) + toNearest (value a.z ^ 2))
    (a.x * a.x + a.y * a.y + a.z * a.z) := by
  obtain ⟨hx, hy, hz⟩ := isFinite_iff.1 ha
  have hxx := rounds_square hx
  have hyy := rounds_square hy
  have hzz := rounds_square hz
  have hxx0 := hxx.nonneg (sq_nonneg _)
  have hyy0 := hyy.nonneg (sq_nonneg _)
  have hzz0 := hzz.nonneg (sq_nonneg _)
  have hsum := rounds_add_of_nonneg hxx.number hyy.number hxx0 hyy0
  have hsum0 := hsum.nonneg (add_nonneg hxx0 hyy0)
  have hall := rounds_add_of_nonneg hsum.number hzz.number hsum0 hzz0
  refine ⟨hall.nonneg (add_nonneg hsum0 hzz0), ?_⟩
  rwa [hsum.value_eq, hxx.value_eq, hyy.value_eq, hzz.value_eq] at hall

/-- The length grows with the components, even where it overflows. -/
theorem Inside.length_le (h : a.Inside b) (ha : a.isFinite) (hb : b.isFinite) :
    a.length ≤ b.length := by
  obtain ⟨hnonneg, hra⟩ := rounds_squares ha
  obtain ⟨-, hrb⟩ := rounds_squares hb
  refine sqrt_le_sqrt hra.number hrb.number hnonneg ?_
  rw [hra.value_eq, hrb.value_eq]
  exact toNearest_mono (add_le_add (toNearest_mono (add_le_add
    (toNearest_mono (sq_le_sq.2 h.x)) (toNearest_mono (sq_le_sq.2 h.y))))
    (toNearest_mono (sq_le_sq.2 h.z)))

end Vec3

/-! ## Dampened velocities -/

namespace Integrator

variable {i : Integrator} {x f d : Float}

/-- A number is taken towards zero, and not past it. -/
structure Shrinks (x d : Float) : Prop where
  finite : d.isFinite
  nonneg : 0.0 ≤ x → 0.0 ≤ d ∧ d ≤ x
  nonpos : x ≤ 0.0 → x ≤ d ∧ d ≤ 0.0

theorem Shrinks.abs_value_le (h : Shrinks x d) (hx : x.isFinite) : |value d| ≤ |value x| := by
  have hd := isNaN_of_isFinite h.finite
  replace hx := isNaN_of_isFinite hx
  rcases le_total 0 (value x) with hpos | hneg
  · obtain ⟨hlow, hhigh⟩ := h.nonneg ((value_nonneg_iff hx).2 hpos)
    rw [value_nonneg_iff hd] at hlow
    rw [le_iff_value hd hx] at hhigh
    rwa [abs_of_nonneg hlow, abs_of_nonneg hpos]
  · obtain ⟨hlow, hhigh⟩ := h.nonpos ((value_nonpos_iff hx).2 hneg)
    rw [le_iff_value hx hd] at hlow
    rw [value_nonpos_iff hd] at hhigh
    rw [abs_of_nonpos hhigh, abs_of_nonpos hneg]
    exact neg_le_neg hlow

/-- A fraction of a number is taken away from it. -/
theorem shrinks_sub_mul (hx : x.isFinite) (hf : f.isFinite) (hf0 : 0 ≤ value f)
    (hf1 : value f ≤ 1) : Shrinks x (x - x * f) := by
  have hrep := representable_value x
  have hprod := rounds_mul hx hf
  have hprodFinite := hprod.isFinite hx (by
    rw [abs_mul, abs_of_nonneg hf0]
    exact mul_le_of_le_one_right (abs_nonneg _) hf1)
  have hdiff := rounds_sub hx hprodFinite
  have hnumber := isNaN_of_isFinite hx
  have hpos : 0 ≤ value x → 0 ≤ value (x - x * f) ∧ value (x - x * f) ≤ value x := fun hx0 => by
    obtain ⟨hlow, hhigh⟩ := hprod.bounds representable_zero hrep (mul_nonneg hx0 hf0)
      (mul_le_of_le_one_right hx0 hf1)
    exact hdiff.bounds representable_zero hrep (sub_nonneg.2 hhigh) (sub_le_self _ hlow)
  have hneg : value x ≤ 0 → value x ≤ value (x - x * f) ∧ value (x - x * f) ≤ 0 := fun hx0 => by
    obtain ⟨hlow, hhigh⟩ := hprod.bounds hrep representable_zero
      (le_mul_of_le_one_right hx0 hf1) (mul_nonpos_of_nonpos_of_nonneg hx0 hf0)
    exact hdiff.bounds hrep representable_zero (le_sub_self_iff _ |>.2 hhigh) (sub_nonpos.2 hlow)
  have hfinite : (x - x * f).isFinite := by
    refine (rounds_self hdiff.number).isFinite hx ?_
    rcases le_total 0 (value x) with hx0 | hx0
    · rw [abs_of_nonneg (hpos hx0).1, abs_of_nonneg hx0]
      exact (hpos hx0).2
    · rw [abs_of_nonpos (hneg hx0).2, abs_of_nonpos hx0]
      exact neg_le_neg (hneg hx0).1
  refine ⟨hfinite, fun hx0 => ?_, fun hx0 => ?_⟩
  · rw [value_nonneg_iff hnumber] at hx0
    rw [value_nonneg_iff hdiff.number, le_iff_value hdiff.number hnumber]
    exact hpos hx0
  · rw [value_nonpos_iff hnumber] at hx0
    rw [value_nonpos_iff hdiff.number, le_iff_value hnumber hdiff.number]
    exact hneg hx0

/-- Dampening takes each component towards zero. -/
theorem Tuned.shrinks_dampen (h : i.Tuned) {v : Vec3} (hv : v.isFinite) :
    Shrinks v.x (i.dampen v).x ∧ Shrinks v.y (i.dampen v).y ∧ Shrinks v.z (i.dampen v).z := by
  obtain ⟨hx, hy, hz⟩ := Vec3.isFinite_iff.1 hv
  obtain ⟨hfinite, hlow, hhigh⟩ := h.factor_bounds v.length
  have hone := hhigh.trans i.fullDampening_bounds.2.2
  exact ⟨shrinks_sub_mul hx hfinite hlow hone, shrinks_sub_mul hy hfinite hlow hone,
    shrinks_sub_mul hz hfinite hlow hone⟩

/-- The fraction of the velocity that dampening takes away grows with the speed, from nothing up to
the lower threshold to the full fraction from the upper one on, and never leaves this range. So each
component of a velocity is taken towards zero and not past it, and neither the length of a velocity
nor its energy grows, however large it is. -/
theorem dampening_never_drives (i : Integrator) (hlow : 0.0 ≤ i.minDampen)
    (hordered : i.minDampen < i.maxDampen) (hfinite : i.maxDampen.isFinite) :
    (∀ s t, s ≤ t → i.dampeningFactor s ≤ i.dampeningFactor t) ∧
      (∀ s ≤ i.minDampen, i.dampeningFactor s = 0.0) ∧
      (∀ s, i.maxDampen ≤ s → i.dampeningFactor s == min (0.5 * i.step.toSeconds) 1.0) ∧
      (∀ s, 0.0 ≤ i.dampeningFactor s ∧
        i.dampeningFactor s ≤ min (0.5 * i.step.toSeconds) 1.0) ∧
      ∀ v : Vec3, v.isFinite →
        Shrinks v.x (i.dampen v).x ∧ Shrinks v.y (i.dampen v).y ∧ Shrinks v.z (i.dampen v).z ∧
          (i.dampen v).length ≤ v.length ∧ (i.dampen v).energy ≤ v.energy := by
  have h : i.Tuned := ⟨hlow, hordered, hfinite⟩
  have hfull : min (0.5 * i.step.toSeconds) 1.0 = i.fullDampening := i.fullDampening_eq.symm
  rw [hfull]
  refine ⟨fun s t => h.factor_mono, fun s => h.factor_of_le, fun s => h.factor_of_ge,
    fun s => ⟨h.factor_nonneg s, h.factor_le s⟩, fun v hv => ?_⟩
  obtain ⟨hx, hy, hz⟩ := h.shrinks_dampen hv
  obtain ⟨hvx, hvy, hvz⟩ := Vec3.isFinite_iff.1 hv
  have hinside : (i.dampen v).Inside v :=
    ⟨hx.abs_value_le hvx, hy.abs_value_le hvy, hz.abs_value_le hvz⟩
  have hdampened := Vec3.isFinite_iff.2 ⟨hx.finite, hy.finite, hz.finite⟩
  exact ⟨hx, hy, hz, hinside.length_le hdampened hv, hinside.energy_le⟩

theorem dampening_never_drives_usual :
    AgentSettings.usual.integrator.dampeningFactor 0.1 = 0.0 ∧
      AgentSettings.usual.integrator.dampeningFactor 0.4 ≤
        AgentSettings.usual.integrator.dampeningFactor 0.6 ∧
      (AgentSettings.usual.integrator.dampen ⟨1e200, -3.0, 0.0⟩).length ≤
        Vec3.length ⟨1e200, -3.0, 0.0⟩ := by
  obtain ⟨hmono, hlow, -, -, hdampen⟩ :=
    dampening_never_drives AgentSettings.usual.integrator (by decide) (by decide) (by decide)
  obtain ⟨-, -, -, hlength, -⟩ := hdampen ⟨1e200, -3.0, 0.0⟩ (by decide +kernel)
  exact ⟨hlow 0.1 (by decide), hmono 0.4 0.6 (by decide), hlength⟩

end Integrator

end SwarmFlight
