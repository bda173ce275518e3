import SwarmFlight.Random.Cipher

/-!
# Random numbers

A generator is a key, the number of its next block and the 64-bit words of the current
block that are still unused. Everything random in a run is drawn from generators made from
a seed, so a run can be repeated.

* `next` : the next 64-bit word, two words of the key stream, the lower one first.
* `unit` : a number in `[0, 1)` on a grid of `2 ^ -53`.
* `range?` : a number in `[low, high)`, drawn anew while rounding puts it at `high`.
* `chance` : true with a given probability.
-/

namespace SwarmFlight

/-- A seeded source of random words. -/
structure Generator where
  key : Vector UInt32 8
  /-- Number of the next block. -/
  block : UInt64
  /-- Words of the current block not yet drawn. -/
  unused : List UInt64

namespace Generator

/-! ## Seeding -/

/-- One step of the congruential generator that spreads a seed over the key. -/
def spread (s : UInt64) : UInt64 := s * 6364136223846793005 + 11634580027462260723

/-- The word given out at a state of it : the high bits, rotated by the highest five. -/
def scramble (s : UInt64) : UInt32 :=
  let x := (((s >>> 18) ^^^ s) >>> 27).toUInt32
  let n := (s >>> 59).toUInt32
  (x >>> n) ||| (x <<< ((32 - n) &&& 31))

/-- The key words from a seed on. -/
def keyWords : Nat → UInt64 → List UInt32
  | 0, _ => []
  | n + 1, s => scramble (spread s) :: keyWords n (spread s)

@[simp] theorem length_keyWords (n : Nat) (s : UInt64) : (keyWords n s).length = n := by
  induction n generalizing s with
  | zero => rfl
  | succ n ih => simp [keyWords, ih]

/-- The generator of a seed. -/
def ofSeed (seed : UInt64) : Generator where
  key := ⟨(keyWords 8 seed).toArray, by simp⟩
  block := 0
  unused := []

/-! ## Words -/

/-- Words taken two by two, the lower one first. -/
def pairs : List UInt32 → List UInt64
  | low :: high :: rest => (low.toUInt64 ||| (high.toUInt64 <<< 32)) :: pairs rest
  | _ => []

/-- The 64-bit words of a block. -/
def blockWords (key : Vector UInt32 8) (block : UInt64) : List UInt64 :=
  pairs (keyStream key block).toList

/-- The next word. -/
def next (g : Generator) : UInt64 × Generator :=
  match g.unused with
  | w :: rest => (w, { g with unused := rest })
  | [] =>
    let words := blockWords g.key g.block
    (words.headD 0, { g with block := g.block + 1, unused := words.tail })

/-! ## Numbers -/

/-- The next number in `[0, 1)`. -/
def unit (g : Generator) : Float × Generator :=
  let (w, g) := g.next
  ((w >>> 11).toFloat * (1.0 / 9007199254740992.0), g)

/-- How often a number of a range is drawn anew at most. A draw falls on the upper end at most about
every second time, and does so in a narrow range only. -/
def redrawLimit : Nat := 4611686018427387904

/-- A number from `low` on that fills `scale`, drawn anew while it is not below `high`. The lower
end itself if the draws are used up. -/
def drawBelow (low high scale : Float) : Nat → Generator → Float × Generator
  | 0, g => (low, g)
  | n + 1, g =>
    let (w, g) := g.next
    let v := Float.ofBits ((w >>> 12) ||| 0x3ff0000000000000)
    let r := (v - 1.0) * scale + low
    if r < high then (r, g) else drawBelow low high scale n g

/-- The next number in `[low, high)`. The lower end, without a draw, if the range is empty; nothing
if an end or the length of the range is not finite. -/
def range? (g : Generator) (low high : Float) : Option (Float × Generator) :=
  if low ≥ high then some (low, g)
  else if low < high && low.isFinite && high.isFinite && (high - low).isFinite then
    some (drawBelow low high (high - low) redrawLimit g)
  else none

/-- The probability itself if it is below 1, and 1 otherwise, also for one that is not a number. -/
def atMostOne (p : Float) : Float := if p < 1.0 then p else 1.0

/-- True with probability `p`. No number is drawn for a probability that is not above zero. -/
def chance (g : Generator) (p : Float) : Bool × Generator :=
  if p ≤ 0.0 then (false, g)
  else
    let (x, g) := g.unit
    (x < atMostOne p, g)

end Generator

end SwarmFlight
