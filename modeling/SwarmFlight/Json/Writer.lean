import SwarmFlight.Json

/-!
# Writing JSON

`Json.render` writes a value without blanks. Quotes, backslashes and control characters are
escaped; every other character stands for itself.
-/

namespace SwarmFlight

namespace Json

/-- The hexadecimal digit of a number below 16. -/
def hexDigit (n : Nat) : Char :=
  if n < 10 then Char.ofNat ('0'.toNat + n) else Char.ofNat ('a'.toNat + (n - 10))

/-- A character inside a string literal. -/
def escaped (c : Char) : List Char :=
  if c = '"' then ['\\', '"']
  else if c = '\\' then ['\\', '\\']
  else if c.toNat < 0x20 then
    ['\\', 'u', '0', '0', hexDigit (c.toNat / 16), hexDigit (c.toNat % 16)]
  else [c]

/-- A text with a string literal added. -/
def writeQuoted (out s : String) : String :=
  ((s.toList.flatMap escaped).foldl String.push (out.push '"')).push '"'

/-- A text with a numeral added. -/
def writeNumeral (out : String) (n : Numeral) : String :=
  let out := (if n.negative then out.push '-' else out) ++ toString n.digits
  if n.whole then out else out ++ "e" ++ toString n.exponent

mutual

/-- A text with a value added. A string literal that names no text is written as an empty one. -/
def write (out : String) : Json → String
  | null => out ++ "null"
  | bool b => out ++ if b then "true" else "false"
  | number n => writeNumeral out n
  | string text? => writeQuoted out (text?.getD "")
  | array elements => (writeElements (out.push '[') elements).push ']'
  | object members => (writeMembers (out ++ "\x7b") members) ++ "\x7d"

/-- A text with values added, commas between them. -/
def writeElements (out : String) : List Json → String
  | [] => out
  | [v] => write out v
  | v :: w :: rest => writeElements ((write out v).push ',') (w :: rest)

/-- A text with members added, commas between them. -/
def writeMembers (out : String) : List (Option String × Json) → String
  | [] => out
  | [(key, v)] => write ((writeQuoted out (key.getD "")).push ':') v
  | (key, v) :: m :: rest =>
    writeMembers ((write ((writeQuoted out (key.getD "")).push ':') v).push ',') (m :: rest)

end

/-- The text of a value. -/
def render (v : Json) : String := write "" v

end Json

end SwarmFlight
