import SwarmFlight.Number.Decimal

/-!
# Durations

A duration is a whole number of nanoseconds below `2 ^ 64` seconds; an instant is the
duration since the start of a run. Sums can leave the range (`add?`), differences stop at
zero (`sub`). Seconds are read from a binary64 number by rounding its exact value to the
nearest nanosecond (`ofSeconds?`) and given back as whole seconds plus a fraction
(`toSeconds`).
-/

namespace SwarmFlight

/-- Nanoseconds in a second. -/
def nanosPerSecond : Nat := 1000000000

/-- All durations are shorter than this many nanoseconds, `2 ^ 64` seconds. -/
def durationLimit : Nat := UInt64.size * nanosPerSecond

/-- A span of time in whole nanoseconds. -/
structure Duration where
  nanos : Nat
  inRange : nanos < durationLimit := by decide
  deriving DecidableEq

/-- An instant is the time that has passed since the start of the run. -/
abbrev Instant := Duration

namespace Duration

/-- No time at all, and the start of a run. -/
def zero : Duration where
  nanos := 0

instance : Inhabited Duration := ⟨zero⟩

instance : LE Duration := ⟨fun a b => a.nanos ≤ b.nanos⟩

instance : LT Duration := ⟨fun a b => a.nanos < b.nanos⟩

instance (a b : Duration) : Decidable (a ≤ b) := inferInstanceAs (Decidable (a.nanos ≤ b.nanos))

instance (a b : Duration) : Decidable (a < b) := inferInstanceAs (Decidable (a.nanos < b.nanos))

/-- The duration of `n` nanoseconds, if there is one. -/
def ofNanos? (n : Nat) : Option Duration :=
  if h : n < durationLimit then some ⟨n, h⟩ else none

/-- The later of two instants. -/
def max (a b : Duration) : Duration := if a ≤ b then b else a

/-- The sum, if it is in range. -/
def add? (a b : Duration) : Option Duration := ofNanos? (a.nanos + b.nanos)

/-- The difference, or zero where it would be negative. -/
def sub (a b : Duration) : Duration :=
  ⟨a.nanos - b.nanos, Nat.lt_of_le_of_lt (Nat.sub_le _ _) a.inRange⟩

/-- The time left until `later`, zero once it has passed. -/
def timeTo (now later : Instant) : Duration := later.sub now

@[simp] theorem nanos_zero : zero.nanos = 0 := rfl

@[simp] theorem nanos_sub (a b : Duration) : (a.sub b).nanos = a.nanos - b.nanos := rfl

theorem le_def (a b : Duration) : a ≤ b ↔ a.nanos ≤ b.nanos := Iff.rfl

theorem lt_def (a b : Duration) : a < b ↔ a.nanos < b.nanos := Iff.rfl

@[ext] theorem ext {a b : Duration} (h : a.nanos = b.nanos) : a = b := by
  cases a; cases b; cases h; rfl

theorem nanos_max (a b : Duration) : (a.max b).nanos = Nat.max a.nanos b.nanos := by
  unfold max
  split <;> rename_i h <;> rw [le_def] at h <;> simp only [Nat.max_def] <;> split <;> omega

/-- A sum exists exactly when the nanoseconds add up to less than the limit. -/
theorem add?_eq_some_iff {a b c : Duration} : a.add? b = some c ↔ c.nanos = a.nanos + b.nanos := by
  unfold add? ofNanos?
  constructor
  · intro h
    split at h
    · cases h; rfl
    · cases h
  · intro h
    have hc := c.inRange
    rw [h] at hc
    rw [dif_pos hc]
    exact congrArg some (ext h.symm)

/-! ## Seconds -/

/-- Whole seconds. -/
def seconds (d : Duration) : Nat := d.nanos / nanosPerSecond

/-- Nanoseconds beyond the whole seconds. -/
def subsecond (d : Duration) : Nat := d.nanos % nanosPerSecond

/-- The duration nearest to a number of seconds, ties going to the even nanosecond. There is none
for a number that is negative, not finite or out of range; a negative zero is zero. -/
def ofSeconds? (x : Float) : Option Duration :=
  match Datum.ofFloat x with
  | .finite d =>
    if d.negative ∧ d.significand ≠ 0 then none
    else ofNanos? (nearest (d.quotient.1 * nanosPerSecond) d.quotient.2)
  | _ => none

/-- The number of seconds : the whole seconds and the fraction, each as a number, added up. -/
def toSeconds (d : Duration) : Float :=
  Float.ofNat d.seconds + Float.ofNat d.subsecond / 1e9

/-! ## Texts -/

/-- The text of an instant : seconds with three decimals. -/
def text (t : Instant) : String := fixedText 3 t.toSeconds ++ "s"

/-- `whole` and the fraction `part / 10 ^ places`, without zeros at the end. -/
def trimmed (whole part places : Nat) : String :=
  let digits := Nat.toDigits 10 part
  let padded := List.replicate (places - digits.length) '0' ++ digits
  let kept := (padded.reverse.dropWhile (· = '0')).reverse
  if kept.isEmpty then toString whole else s!"{whole}." ++ String.ofList kept

/-- The text of a duration in the largest unit whose whole part is not zero. -/
def unitText (d : Duration) : String :=
  if 0 < d.seconds then trimmed d.seconds d.subsecond 9 ++ "s"
  else if 1000000 ≤ d.nanos then trimmed (d.nanos / 1000000) (d.nanos % 1000000) 6 ++ "ms"
  else if 1000 ≤ d.nanos then trimmed (d.nanos / 1000) (d.nanos % 1000) 3 ++ "µs"
  else toString d.nanos ++ "ns"

end Duration

end SwarmFlight
