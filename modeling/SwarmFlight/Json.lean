import SwarmFlight.Number.Binary

/-!
# JSON values

A value keeps what its text says : the members of an object stay in order and repeated,
and a number keeps its decimal digits and whether it was written as a whole number, so
that reading a `Float` from it (`Numeral.toFloat?`) rounds only once.
-/

namespace SwarmFlight

/-- A number as written : `± digits * 10 ^ exponent`. -/
structure Numeral where
  negative : Bool
  digits : Nat
  exponent : Int
  /-- Written without fraction and exponent. -/
  whole : Bool
  deriving DecidableEq, Repr

/-- A JSON value. A string literal names no text if an escape in it names no character. -/
inductive Json where
  | null
  | bool (b : Bool)
  | number (n : Numeral)
  | string (text? : Option String)
  | array (elements : List Json)
  | object (members : List (Option String × Json))
  deriving Inhabited

namespace Numeral

/-- The numeral of a natural number. -/
def ofNat (n : Nat) : Numeral := ⟨false, n, 0, true⟩

/-- The natural number, if the numeral is one, written without sign, fraction and exponent. -/
def toNat? (n : Numeral) : Option Nat :=
  if n.whole && !n.negative then some n.digits else none

/-- The power of ten just above the number, if it is not zero. -/
def order (n : Numeral) : Int := (Nat.toDigits 10 n.digits).length + n.exponent

/-- The nearest binary64 number, if there is one. Beyond these orders of magnitude the answer does
not depend on the digits. -/
def toFloat? (n : Numeral) : Option Float :=
  let magnitude :=
    if n.digits = 0 ∨ n.order < -400 then some 0.0
    else if 400 < n.order then none
    else
      let x := Float.ofScientific n.digits (n.exponent < 0) n.exponent.natAbs
      if x.isFinite then some x else none
  magnitude.map fun x => if n.negative then -x else x

end Numeral

namespace Json

/-- A string that names a text. -/
def text (s : String) : Json := .string (some s)

/-- A natural number. -/
def nat (n : Nat) : Json := .number (.ofNat n)

/-- An object of some members. -/
def ofMembers (members : List (String × Json)) : Json :=
  .object (members.map fun (key, value) => (some key, value))

/-- The number of a value that is one. -/
def toFloat? : Json → Option Float
  | number n => n.toFloat?
  | _ => none

/-- The natural number below `limit` of a value that is one. -/
def toNatBelow? (limit : Nat) : Json → Option Nat
  | number n => n.toNat?.filter (· < limit)
  | _ => none

/-- The text of a value that is one. -/
def toText? : Json → Option String
  | string text? => text?
  | _ => none

end Json

end SwarmFlight
