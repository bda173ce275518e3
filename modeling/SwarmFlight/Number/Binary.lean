/-!
# The exact value of a binary64 number

`Datum.ofFloat` splits a number into its sign, its significand and its power of two, so
that texts and time conversions can be computed from the exact value in integer
arithmetic. `nearest` is the one rounding rule that they share : the nearest integer to a
quotient, and of two equally near ones the even one (`nearest_le_succ`, `le_nearest`).
-/

namespace SwarmFlight

/-- A finite binary64 number `± significand * 2 ^ exponent`. -/
structure Dyadic where
  negative : Bool
  significand : Nat
  exponent : Int
  deriving DecidableEq, Repr

/-- What a binary64 word stands for. -/
inductive Datum where
  | finite (value : Dyadic)
  | infinity (negative : Bool)
  | nan
  deriving DecidableEq, Repr

/-- The leading bit of a significand of 53 bits, which a word leaves out. -/
def hiddenBit : Nat := 0x10000000000000

/-- The datum of a word : one sign bit, eleven bits of biased exponent, 52 bits of fraction. -/
def Datum.ofBits (word : UInt64) : Datum :=
  let negative := word >>> 63 == 1
  let field := ((word >>> 52) &&& 0x7ff).toNat
  let fraction := (word &&& 0xfffffffffffff).toNat
  if field = 2047 then
    if fraction = 0 then .infinity negative else .nan
  else if field = 0 then
    .finite ⟨negative, fraction, -1074⟩
  else
    .finite ⟨negative, hiddenBit + fraction, (field : Int) - 1075⟩

/-- The datum of a number. -/
def Datum.ofFloat (x : Float) : Datum := Datum.ofBits x.toBits

/-- The magnitude as a quotient of natural numbers, the denominator being positive. -/
def Dyadic.quotient (d : Dyadic) : Nat × Nat :=
  if 0 ≤ d.exponent then (d.significand * Nat.pow 2 d.exponent.toNat, 1)
  else (d.significand, Nat.pow 2 (-d.exponent).toNat)

/-- The integer nearest to `num / den` : of two equally near ones, the even one. -/
def nearest (num den : Nat) : Nat :=
  let whole := num / den
  let twice := 2 * (num % den)
  if twice < den then whole
  else if den < twice then whole + 1
  else if whole % 2 = 0 then whole else whole + 1

/-- Rounding never falls below the whole part. -/
theorem le_nearest (num den : Nat) : num / den ≤ nearest num den := by
  unfold nearest
  dsimp only
  split <;> (try split) <;> (try split) <;> omega

/-- Rounding never passes the next integer. -/
theorem nearest_le_succ (num den : Nat) : nearest num den ≤ num / den + 1 := by
  unfold nearest
  dsimp only
  split <;> (try split) <;> (try split) <;> omega

end SwarmFlight
