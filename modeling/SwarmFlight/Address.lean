/-!
# Addresses

An agent is known by a 32-bit address, written as four decimal octets with dots. A swarm
takes consecutive addresses from a base, so `offset?` enumerates it. `ofText?` reads
exactly the texts that `text` writes.
-/

namespace SwarmFlight

/-- The identity of an agent on the network. -/
structure Address where
  raw : UInt32
  deriving DecidableEq, Inhabited

namespace Address

/-- The four octets, highest first. -/
def octets (a : Address) : List UInt8 :=
  [(a.raw >>> 24).toUInt8, (a.raw >>> 16).toUInt8, (a.raw >>> 8).toUInt8, a.raw.toUInt8]

/-- The address of four octets, highest first. -/
def ofOctets (o₁ o₂ o₃ o₄ : UInt8) : Address :=
  ⟨(o₁.toUInt32 <<< 24) ||| (o₂.toUInt32 <<< 16) ||| (o₃.toUInt32 <<< 8) ||| o₄.toUInt32⟩

/-- The lowest octet, the number of the host in its network. -/
def hostOctet (a : Address) : UInt8 := a.raw.toUInt8

/-- The address `n` further on, if there is one. -/
def offset? (a : Address) (n : Nat) : Option Address :=
  if a.raw.toNat + n < UInt32.size then some ⟨UInt32.ofNat (a.raw.toNat + n)⟩ else none

/-- How far `a` lies after `base`, going round at the top of the range. -/
def distanceFrom (a base : Address) : Nat := (a.raw - base.raw).toNat

/-- The dotted text. -/
def text (a : Address) : String := ".".intercalate (a.octets.map fun o => toString o.toNat)

/-- An octet : one to three digits without a leading zero, at most 255. -/
def octetOfText? (digits : List Char) : Option UInt8 :=
  if digits.isEmpty ∨ 3 < digits.length ∨ ¬ digits.all Char.isDigit then none
  else if digits.head? = some '0' ∧ 1 < digits.length then none
  else
    let n := digits.foldl (fun n c => 10 * n + (c.toNat - '0'.toNat)) 0
    if n ≤ 255 then some (UInt8.ofNat n) else none

/-- The parts of a text between its dots. -/
def dotted : List Char → List (List Char)
  | [] => [[]]
  | '.' :: rest => [] :: dotted rest
  | c :: rest =>
    match dotted rest with
    | [] => [[c]]
    | part :: parts => (c :: part) :: parts

/-- The address of a dotted text. -/
def ofText? (s : String) : Option Address :=
  match (dotted s.toList).map octetOfText? with
  | [some o₁, some o₂, some o₃, some o₄] => some (ofOctets o₁ o₂ o₃ o₄)
  | _ => none

end Address

end SwarmFlight
