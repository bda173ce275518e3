import SwarmFlight.Failure
import SwarmFlight.Role
import SwarmFlight.Vec3

/-!
# Beacons

A beacon is what an agent broadcasts : its position and its role. On the wire it takes 25
bytes : the three components as binary64 words, lowest byte first, and one byte for the
role. `decode` accepts 25 bytes with a role byte of 0 or 1, and nothing else.
-/

namespace SwarmFlight

/-- The position and role that an agent makes known. -/
structure Beacon where
  position : Vec3
  role : Role
  deriving Inhabited

/-- Bytes of an encoded beacon : three words and a role. -/
def beaconSize : Nat := 3 * 8 + 1

/-! ## Words -/

/-- The `n` lowest bytes of a word, lowest first. -/
def lowBytes : Nat → UInt64 → List UInt8
  | 0, _ => []
  | n + 1, w => w.toUInt8 :: lowBytes n (w >>> 8)

/-- The word of some bytes, lowest first. -/
def wordOfBytes : List UInt8 → UInt64
  | [] => 0
  | b :: rest => b.toUInt64 ||| (wordOfBytes rest <<< 8)

@[simp] theorem length_lowBytes (n : Nat) (w : UInt64) : (lowBytes n w).length = n := by
  induction n generalizing w with
  | zero => rfl
  | succ n ih => simp [lowBytes, ih]

/-- The eight bytes of a number. -/
def floatBytes (x : Float) : List UInt8 := lowBytes 8 x.toBits

/-- The number of eight bytes. -/
def floatOfBytes (bytes : List UInt8) : Float := Float.ofBits (wordOfBytes bytes)

/-! ## The wire format -/

/-- The byte of a role. -/
def Role.byte : Role → UInt8
  | .follower => 0
  | .leader => 1

/-- The role of a byte. -/
def Role.ofByte? (b : UInt8) : Option Role :=
  if b = 0 then some .follower else if b = 1 then some .leader else none

@[simp] theorem Role.ofByte?_byte (r : Role) : Role.ofByte? r.byte = some r := by
  cases r <;> decide

namespace Beacon

/-- The bytes of a beacon. -/
def encode (b : Beacon) : List UInt8 :=
  floatBytes b.position.x ++ floatBytes b.position.y ++ floatBytes b.position.z ++ [b.role.byte]

@[simp] theorem length_encode (b : Beacon) : b.encode.length = beaconSize := by
  simp [encode, floatBytes, beaconSize]

/-- The beacon of some bytes. -/
def decode (bytes : List UInt8) : Except Failure Beacon :=
  if bytes.length = beaconSize then
    match (bytes.drop 24).head?.bind Role.ofByte? with
    | some role =>
      .ok ⟨⟨floatOfBytes (bytes.take 8), floatOfBytes ((bytes.drop 8).take 8),
        floatOfBytes ((bytes.drop 16).take 8)⟩, role⟩
    | none => .error .invalidPayload
  else .error .invalidPayload

end Beacon

end SwarmFlight
