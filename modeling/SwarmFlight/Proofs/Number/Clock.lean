import SwarmFlight.Duration

/-!
# Reckoning with instants

`later` is the instant after a delay. It exists as long as the sum stays in range
(`isSome_add?_iff`), and waiting for an instant ends there or now (`add?_timeTo`).
-/

namespace SwarmFlight

namespace Duration

variable {now t a b : Instant} {d : Duration}

theorem nanos_inj : a = b ↔ a.nanos = b.nanos := ⟨congrArg _, ext⟩

theorem not_le : ¬ a ≤ b ↔ b < a := Nat.not_le

theorem not_lt : ¬ a < b ↔ b ≤ a := Nat.not_lt

theorem le_max_left : now ≤ now.max t := by
  rw [le_def, nanos_max]
  exact Nat.le_max_left _ _

theorem le_max_right : t ≤ now.max t := by
  rw [le_def, nanos_max]
  exact Nat.le_max_right _ _

theorem max_eq_left (h : now ≤ t) : t.max now = t := by
  rw [nanos_inj, nanos_max]
  exact Nat.max_eq_left h

theorem isSome_add?_iff : (now.add? d).isSome ↔ now.nanos + d.nanos < durationLimit := by
  rw [Option.isSome_iff_exists]
  constructor
  · rintro ⟨t, ht⟩
    exact add?_eq_some_iff.1 ht ▸ t.inRange
  · intro h
    exact ⟨⟨_, h⟩, add?_eq_some_iff.2 rfl⟩

theorem add?_zero (now : Instant) : now.add? .zero = some now := add?_eq_some_iff.2 rfl

/-- Waiting until `due` ends at `due`, or at once if that has passed. -/
theorem add?_timeTo (now due : Instant) : now.add? (now.timeTo due) = some (now.max due) := by
  rw [add?_eq_some_iff, nanos_max, timeTo, nanos_sub, Nat.add_comm, Nat.sub_add_eq_max]
  exact Nat.max_comm _ _

/-- The instant `d` after `now`, if there is one. -/
def later (now : Instant) (d : Duration) : Instant := (now.add? d).getD now

theorem later_eq (h : now.add? d = some t) : now.later d = t := by rw [later, h]; rfl

theorem nanos_later (h : now.nanos + d.nanos < durationLimit) :
    (now.later d).nanos = now.nanos + d.nanos := by
  obtain ⟨t, ht⟩ := Option.isSome_iff_exists.1 (isSome_add?_iff.2 h)
  rw [later_eq ht, add?_eq_some_iff.1 ht]

end Duration

end SwarmFlight
