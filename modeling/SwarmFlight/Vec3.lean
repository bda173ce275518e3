/-!
# Vectors in space

Three binary64 components. Every operation works component by component in the order
written, so its rounding is fixed; `length` sums the squares from left to right.
-/

namespace SwarmFlight

/-- A vector : metres, metres per second or newtons, as its use says. -/
structure Vec3 where
  x : Float
  y : Float
  z : Float

namespace Vec3

/-- The zero vector. -/
def zero : Vec3 := ⟨0.0, 0.0, 0.0⟩

instance : Inhabited Vec3 := ⟨zero⟩

/-- Equality of the three numbers, for which the two zeros are equal and a NaN equals nothing. -/
instance : BEq Vec3 := ⟨fun a b => a.x == b.x && a.y == b.y && a.z == b.z⟩

instance : Add Vec3 := ⟨fun a b => ⟨a.x + b.x, a.y + b.y, a.z + b.z⟩⟩

instance : Sub Vec3 := ⟨fun a b => ⟨a.x - b.x, a.y - b.y, a.z - b.z⟩⟩

instance : Neg Vec3 := ⟨fun a => ⟨-a.x, -a.y, -a.z⟩⟩

/-- The product component by component. -/
instance : Mul Vec3 := ⟨fun a b => ⟨a.x * b.x, a.y * b.y, a.z * b.z⟩⟩

instance : HMul Vec3 Float Vec3 := ⟨fun a s => ⟨a.x * s, a.y * s, a.z * s⟩⟩

instance : HDiv Vec3 Float Vec3 := ⟨fun a s => ⟨a.x / s, a.y / s, a.z / s⟩⟩

/-- The Euclidean length. -/
def length (a : Vec3) : Float := (a.x * a.x + a.y * a.y + a.z * a.z).sqrt

/-- The length of the way from `a` to `b`. -/
def distanceTo (a b : Vec3) : Float := (b - a).length

/-- Whether every component is finite. -/
def isFinite (a : Vec3) : Bool := a.x.isFinite && a.y.isFinite && a.z.isFinite

end Vec3

end SwarmFlight
