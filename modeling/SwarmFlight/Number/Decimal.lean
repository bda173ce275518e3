import SwarmFlight.Number.Binary

/-!
# Decimal texts of binary64 numbers

Two texts are written from the exact value of a number.

* `shortestText` : the fewest decimal digits that read back as the same number, the
  nearest such decimal when there are several, and the larger of two equally near ones.
  The text is positional at every magnitude and a whole number has no point.
* `fixedText` : a given number of places, the exact value rounded to the nearest
  decimal, a tie going to the even digit.

Both write `NaN`, `inf` and `-inf`, and both keep the sign of a negative zero.
-/

namespace SwarmFlight

/-! ## Shortest digits -/

/-- A positive decimal `digits * 10 ^ power`. -/
structure Decimal where
  digits : Nat
  power : Int
  deriving DecidableEq, Repr

/-- The reals that round to a number, and the number itself, over one denominator. -/
structure Neighbourhood where
  low : Nat
  value : Nat
  high : Nat
  den : Nat
  /-- Whether the two ends belong to it. -/
  closed : Bool

/-- The neighbourhood of a positive dyadic : half-way to each of its neighbours. Below a power of
two the neighbour is half as far; the ends round to an even significand. -/
def Dyadic.neighbourhood (d : Dyadic) : Neighbourhood :=
  let narrow := d.significand = hiddenBit ∧ -1074 < d.exponent
  let scaled := { d with significand := 4 * d.significand, exponent := d.exponent }.quotient
  let unit := ({ d with significand := 1 } : Dyadic).quotient.1
  { low := scaled.1 - (if narrow then unit else 2 * unit)
    value := scaled.1
    high := scaled.1 + 2 * unit
    den := 4 * scaled.2
    closed := d.significand % 2 = 0 }

/-- Whether `num / den` lies in the neighbourhood. -/
def Neighbourhood.contains (n : Neighbourhood) (num den : Nat) : Bool :=
  if n.closed then n.low * den ≤ num * n.den && num * n.den ≤ n.high * den
  else n.low * den < num * n.den && num * n.den < n.high * den

/-- The grid point on `10 ^ power` that lies in the neighbourhood and is nearest to its value, if
one of the two grid points beside the value lies in it. A tie goes up. -/
def Neighbourhood.gridPoint (n : Neighbourhood) (power : Int) : Option Decimal :=
  let step := if 0 ≤ power then Nat.pow 10 power.toNat else 1
  let den := if 0 ≤ power then 1 else Nat.pow 10 (-power).toNat
  -- the value is `quotient + remainder / base` steps of the grid
  let num := n.value * den
  let base := n.den * step
  let below := num / base
  let lowerFits := n.contains (below * step) den
  let upperFits := n.contains ((below + 1) * step) den
  if upperFits && (!lowerFits || base ≤ 2 * (num % base)) then some ⟨below + 1, power⟩
  else if lowerFits then some ⟨below, power⟩
  else none

/-- The number of decimal digits. -/
def digitCount (n : Nat) : Nat := (Nat.toDigits 10 n).length

/-- The least `k` with `num / den < 10 ^ k`. -/
def decimalOrder (num den : Nat) : Int :=
  if den ≤ num then (digitCount (num / den) : Int)
  else
    -- `den / num` has a digit more than the zeros after the point, unless it is a power of ten
    let k := digitCount (den / num)
    if num * Nat.pow 10 k ≤ den then -(k : Int) else 1 - (k : Int)

/-- The same decimal with one zero less at the end, if it ends in one. -/
def Decimal.trim (d : Decimal) : Decimal :=
  if d.digits % 10 = 0 then ⟨d.digits / 10, d.power + 1⟩ else d

/-- The first grid, from one digit on, that has a point in the neighbourhood. Seventeen digits
always suffice, so the search is over at most that many grids. The point ends in a zero only where
it is the power of ten above the value, found on the first grid. -/
def Neighbourhood.shortest (n : Neighbourhood) : Decimal :=
  let order := decimalOrder n.value n.den
  let first := (List.range 17).findSome? fun (i : Nat) => n.gridPoint (order - 1 - (i : Int))
  (first.getD ⟨0, 0⟩).trim

/-! ## Texts -/

/-- `n` zeros. -/
def zeros (n : Nat) : String := String.ofList (List.replicate n '0')

/-- A text of digits with a point before the last `places` of them, padded on the left. -/
def withPoint (digits : Nat) (places : Nat) : String :=
  let text := Nat.toDigits 10 digits
  let padded := List.replicate (places + 1 - text.length) '0' ++ text
  let split := padded.length - places
  if places = 0 then String.ofList padded
  else String.ofList (padded.take split ++ '.' :: padded.drop split)

/-- The positional text of a decimal, without zeros at the end of a fraction. -/
def Decimal.text (d : Decimal) : String :=
  if 0 ≤ d.power then toString d.digits ++ zeros d.power.toNat
  else withPoint d.digits (-d.power).toNat

/-- Prefix of a negative number, a negative zero included. -/
def signText (negative : Bool) : String := if negative then "-" else ""

/-- The text of a datum that is not finite, or of a finite one by `magnitude`. -/
def Datum.text (magnitude : Dyadic → String) : Datum → String
  | .nan => "NaN"
  | .infinity negative => signText negative ++ "inf"
  | .finite d => signText d.negative ++ magnitude d

/-- The shortest positional text that reads back as the same number. -/
def shortestText (x : Float) : String :=
  (Datum.ofFloat x).text fun d =>
    if d.significand = 0 then "0" else d.neighbourhood.shortest.text

/-- The text with exactly `places` decimals. -/
def fixedText (places : Nat) (x : Float) : String :=
  (Datum.ofFloat x).text fun d =>
    let q := d.quotient
    withPoint (nearest (q.1 * Nat.pow 10 places) q.2) places

end SwarmFlight
