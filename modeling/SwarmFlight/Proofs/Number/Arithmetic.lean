import Mathlib
import SwarmFlight.Proofs.Number.Binary64
import SwarmFlight.Vec3

/-!
# Reckoning with numbers

What stays exact in spite of rounding. A finite number stays the same when a zero is added
(`Number.add_isZero`), and the difference of equal numbers is a zero (`Number.isZero_sub`).
There are two zeros (`Number.IsZero`), and a product with either of them is one. Only finite
numbers have a finite sum, difference or product.

The same holds of vectors, component by component.
-/

namespace SwarmFlight

open Float.Model Float.Model.UnpackedFloat

variable {x y : Float}

namespace Number

/-! ## Finite numbers -/

theorem isFinite_unpack_pack {u : UnpackedFloat}
    (h : (UnpackedFloat.unpack Format.binary64 (UnpackedFloat.pack Format.binary64 u)).isFinite) :
    u.isFinite := by
  cases u with
  | infinity s => cases s <;> cases h
  | notANumber => cases h
  | zero s => rfl
  | finite s m e hm => rfl

/-- The parts of a finite number. -/
theorem parts_of_isFinite (h : x.isFinite) : (∃ s, x.toModel.unpack = .zero s) ∨
    ∃ s m e, ∃ hm : 0 < m, x.toModel.unpack = .finite s m e hm := by
  change x.toModel.unpack.isFinite = true at h
  cases hu : x.toModel.unpack with
  | infinity s => rw [hu] at h; cases h
  | notANumber => rw [hu] at h; cases h
  | zero s => exact .inl ⟨s, rfl⟩
  | finite s m e hm => exact .inr ⟨s, m, e, hm, rfl⟩

theorem isFinite_of_add (h : (x + y).isFinite) : x.isFinite ∧ y.isFinite := by
  have hsum : (UnpackedFloat.add Format.binary64 x.toModel.unpack y.toModel.unpack).isFinite :=
    isFinite_unpack_pack h
  change x.toModel.unpack.isFinite = true ∧ y.toModel.unpack.isFinite = true
  revert hsum
  cases x.toModel.unpack <;> cases y.toModel.unpack <;> simp only [UnpackedFloat.add] <;>
    (try split) <;> simp [UnpackedFloat.isFinite]

theorem isFinite_of_sub (h : (x - y).isFinite) : x.isFinite ∧ y.isFinite := by
  have hdiff : (UnpackedFloat.sub Format.binary64 x.toModel.unpack y.toModel.unpack).isFinite :=
    isFinite_unpack_pack h
  change x.toModel.unpack.isFinite = true ∧ y.toModel.unpack.isFinite = true
  revert hdiff
  cases x.toModel.unpack <;> cases y.toModel.unpack <;> simp only [UnpackedFloat.sub] <;>
    (try split) <;> simp [UnpackedFloat.isFinite]

theorem isFinite_of_mul (h : (x * y).isFinite) : x.isFinite ∧ y.isFinite := by
  have hprod : (UnpackedFloat.mul Format.binary64 x.toModel.unpack y.toModel.unpack).isFinite :=
    isFinite_unpack_pack h
  change x.toModel.unpack.isFinite = true ∧ y.toModel.unpack.isFinite = true
  revert hprod
  cases x.toModel.unpack <;> cases y.toModel.unpack <;>
    simp [UnpackedFloat.mul, UnpackedFloat.isFinite]

/-! ## Zeros -/

/-- Whether a number is zero, of either sign. -/
def IsZero (x : Float) : Prop := ∃ s, x.toModel.unpack = .zero s

theorem isZero_of_pack {s : Sign} {u : UnpackedFloat}
    (h : x.toModel = Float.Model.pack u) (hu : u = .zero s) : IsZero x := by
  refine ⟨s, ?_⟩
  rw [h, hu]
  cases s <;> rfl

namespace IsZero

theorem isFinite (h : IsZero x) : x.isFinite := by
  obtain ⟨s, hs⟩ := h
  show x.toModel.unpack.isFinite = true
  rw [hs]
  rfl

theorem add (hx : IsZero x) (hy : IsZero y) : IsZero (x + y) := by
  obtain ⟨s, hs⟩ := hx
  obtain ⟨t, ht⟩ := hy
  have hsum : UnpackedFloat.add Format.binary64 x.toModel.unpack y.toModel.unpack
      = .zero (if s == t then s else .positive) := by
    rw [hs, ht]
    cases s <;> cases t <;> rfl
  exact isZero_of_pack rfl hsum

theorem mul_right (hx : IsZero x) (hy : y.isFinite) : IsZero (x * y) := by
  obtain ⟨s, hs⟩ := hx
  rcases parts_of_isFinite hy with ⟨t, ht⟩ | ⟨t, m, e, hm, ht⟩
  all_goals exact isZero_of_pack (s := s * t) rfl (by rw [hs, ht]; rfl)

theorem mul_left (hx : IsZero x) (hy : y.isFinite) : IsZero (y * x) := by
  obtain ⟨s, hs⟩ := hx
  rcases parts_of_isFinite hy with ⟨t, ht⟩ | ⟨t, m, e, hm, ht⟩
  all_goals exact isZero_of_pack (s := t * s) rfl (by rw [hs, ht]; rfl)

theorem div {s : Sign} {m : Nat} {e : Int} {hm : 0 < m} (hx : IsZero x)
    (hy : y.toModel.unpack = .finite s m e hm) : IsZero (x / y) := by
  obtain ⟨t, ht⟩ := hx
  exact isZero_of_pack (s := t / s) rfl (by rw [ht, hy]; rfl)

end IsZero

/-! ## Equal numbers -/

theorem beq_self (h : x.isFinite) : x == x := by
  refine Float.beq_self_iff.2 ?_
  rintro rfl
  exact absurd h (by decide +kernel)

/-- The two zeros are equal. -/
theorem IsZero.beq (hx : IsZero x) (hy : IsZero y) : x == y := by
  obtain ⟨s, hs⟩ := hx
  obtain ⟨t, ht⟩ := hy
  change (x.toModel.unpack.compare y.toModel.unpack == some .eq) = true
  rw [hs, ht]
  rfl

theorem isZero_zero : IsZero 0 := ⟨.positive, by rfl⟩

theorem isZero_neg_zero : IsZero (-0) := ⟨.negative, by rfl⟩

/-- Equal numbers are the same, or both are zero. -/
theorem isZero_or_eq_of_beq (h : x == y) : IsZero x ∧ IsZero y ∨ x = y := by
  obtain ⟨-, -, heq | ⟨rfl, rfl⟩ | ⟨rfl, rfl⟩⟩ := Float.beq_iff_ne_nan_and_eq.1 h
  · exact .inr heq
  · exact .inl ⟨isZero_zero, isZero_neg_zero⟩
  · exact .inl ⟨isZero_neg_zero, isZero_zero⟩

theorem beq_symm (h : x == y) : y == x := by
  rcases isZero_or_eq_of_beq h with ⟨hx, hy⟩ | rfl
  · exact hy.beq hx
  · exact h

/-- What equals zero is a zero. -/
theorem isZero_of_beq (h : x == 0.0) : IsZero x := by
  rcases isZero_or_eq_of_beq h with ⟨hx, -⟩ | rfl
  · exact hx
  · exact isZero_zero

/-- A finite number stays the same when a zero is added. -/
theorem add_isZero (hx : x.isFinite) (hy : IsZero y) : x + y == x := by
  rcases parts_of_isFinite hx with hzero | ⟨s, m, e, hm, hs⟩
  · exact (IsZero.add hzero hy).beq hzero
  · obtain ⟨t, ht⟩ := hy
    have hsum : UnpackedFloat.add Format.binary64 x.toModel.unpack y.toModel.unpack =
        x.toModel.unpack := by
      rw [hs, ht]
      rfl
    have hsame : x + y = x := by
      refine (congrArg (fun u => Float.ofModel (Float.Model.pack u)) hsum).trans ?_
      exact Float.ofBits_toBits x
    rw [hsame]
    exact beq_self hx

/-- The difference of equal finite numbers is a zero. -/
theorem isZero_sub (hx : x.isFinite) (h : x == y) : IsZero (x - y) := by
  rcases isZero_or_eq_of_beq h with ⟨⟨s, hs⟩, t, ht⟩ | rfl
  · have hdiff : UnpackedFloat.sub Format.binary64 x.toModel.unpack y.toModel.unpack
        = .zero (if s == -t then s else .positive) := by
      rw [hs, ht]
      cases s <;> cases t <;> rfl
    exact isZero_of_pack rfl hdiff
  · rcases parts_of_isFinite hx with ⟨s, hs⟩ | ⟨s, m, e, hm, hs⟩
    · refine isZero_of_pack (s := .positive) rfl ?_
      rw [hs]
      cases s <;> rfl
    · refine isZero_of_pack (s := .positive) rfl ?_
      rw [hs]
      simp [UnpackedFloat.sub, UnpackedFloat.normalize]

end Number

/-- Numbers that are equal are in order. -/
theorem Datum.le_of_beq (h : x == y) : x ≤ y := by
  have heq : (x.toModel.unpack.compare y.toModel.unpack == some .eq) = true := h
  rw [le_iff, UnpackedFloat.le, beq_iff_eq.1 heq]
  rfl

/-! ## Vectors -/

namespace Vec3

variable {a b : Vec3} {s : Float}

theorem isFinite_iff : a.isFinite ↔ a.x.isFinite ∧ a.y.isFinite ∧ a.z.isFinite := by
  simp [isFinite, and_assoc]

theorem beq_iff : a == b ↔ a.x == b.x ∧ a.y == b.y ∧ a.z == b.z := by
  show (a.x == b.x && a.y == b.y && a.z == b.z) = true ↔ _
  simp [and_assoc]

theorem beq_self (h : a.isFinite) : a == a := by
  obtain ⟨hx, hy, hz⟩ := isFinite_iff.1 h
  exact beq_iff.2 ⟨Number.beq_self hx, Number.beq_self hy, Number.beq_self hz⟩

theorem beq_symm (h : a == b) : b == a := by
  obtain ⟨hx, hy, hz⟩ := beq_iff.1 h
  exact beq_iff.2 ⟨Number.beq_symm hx, Number.beq_symm hy, Number.beq_symm hz⟩

/-- Whether every component is zero. -/
def IsZero (a : Vec3) : Prop := Number.IsZero a.x ∧ Number.IsZero a.y ∧ Number.IsZero a.z

theorem isFinite_of_sub (h : (a - b).isFinite) : a.isFinite ∧ b.isFinite := by
  obtain ⟨hx, hy, hz⟩ := isFinite_iff.1 h
  obtain ⟨hax, hbx⟩ := Number.isFinite_of_sub hx
  obtain ⟨hay, hby⟩ := Number.isFinite_of_sub hy
  obtain ⟨haz, hbz⟩ := Number.isFinite_of_sub hz
  exact ⟨isFinite_iff.2 ⟨hax, hay, haz⟩, isFinite_iff.2 ⟨hbx, hby, hbz⟩⟩

theorem isFinite_of_add (h : (a + b).isFinite) : a.isFinite ∧ b.isFinite := by
  obtain ⟨hx, hy, hz⟩ := isFinite_iff.1 h
  obtain ⟨hax, hbx⟩ := Number.isFinite_of_add hx
  obtain ⟨hay, hby⟩ := Number.isFinite_of_add hy
  obtain ⟨haz, hbz⟩ := Number.isFinite_of_add hz
  exact ⟨isFinite_iff.2 ⟨hax, hay, haz⟩, isFinite_iff.2 ⟨hbx, hby, hbz⟩⟩

theorem isFinite_of_mul (h : (a * s).isFinite) : a.isFinite ∧ s.isFinite := by
  obtain ⟨hx, hy, hz⟩ := isFinite_iff.1 h
  obtain ⟨hax, hs⟩ := Number.isFinite_of_mul hx
  exact ⟨isFinite_iff.2 ⟨hax, (Number.isFinite_of_mul hy).1, (Number.isFinite_of_mul hz).1⟩, hs⟩

theorem add_isZero (ha : a.isFinite) (hb : b.IsZero) : a + b == a := by
  obtain ⟨hx, hy, hz⟩ := isFinite_iff.1 ha
  exact beq_iff.2 ⟨Number.add_isZero hx hb.1, Number.add_isZero hy hb.2.1,
    Number.add_isZero hz hb.2.2⟩

theorem isZero_sub (ha : a.isFinite) (h : a == b) : (a - b).IsZero := by
  obtain ⟨hx, hy, hz⟩ := isFinite_iff.1 ha
  obtain ⟨hbx, hby, hbz⟩ := beq_iff.1 h
  exact ⟨Number.isZero_sub hx hbx, Number.isZero_sub hy hby, Number.isZero_sub hz hbz⟩

theorem IsZero.add (ha : a.IsZero) (hb : b.IsZero) : (a + b).IsZero :=
  ⟨ha.1.add hb.1, ha.2.1.add hb.2.1, ha.2.2.add hb.2.2⟩

theorem IsZero.mul (ha : a.IsZero) (hs : s.isFinite) : (a * s).IsZero :=
  ⟨ha.1.mul_right hs, ha.2.1.mul_right hs, ha.2.2.mul_right hs⟩

theorem mul_isZero (ha : a.isFinite) (hs : Number.IsZero s) : (a * s).IsZero := by
  obtain ⟨hx, hy, hz⟩ := isFinite_iff.1 ha
  exact ⟨hs.mul_left hx, hs.mul_left hy, hs.mul_left hz⟩

theorem isZero_zero : zero.IsZero := ⟨⟨.positive, rfl⟩, ⟨.positive, rfl⟩, ⟨.positive, rfl⟩⟩

theorem IsZero.beq (ha : a.IsZero) (hb : b.IsZero) : a == b :=
  beq_iff.2 ⟨ha.1.beq hb.1, ha.2.1.beq hb.2.1, ha.2.2.beq hb.2.2⟩

theorem isZero_of_beq (h : a == zero) : a.IsZero := by
  obtain ⟨hx, hy, hz⟩ := beq_iff.1 h
  exact ⟨Number.isZero_of_beq hx, Number.isZero_of_beq hy, Number.isZero_of_beq hz⟩

end Vec3

end SwarmFlight
