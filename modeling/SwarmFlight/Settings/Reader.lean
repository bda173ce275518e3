import SwarmFlight.Json.Reader
import SwarmFlight.Settings

/-!
# Reading settings and messages from JSON

A record is written as an object or as the array of its fields in order. In an object the
order is free, members that are no fields are passed over, and no field may be given twice
(`fieldValues`). The settings of a run and of a compromise take their usual values for what
is missing; every other record needs all its fields.
-/

namespace SwarmFlight

namespace Json

/-- The value given for each of some fields, if it is given. -/
def fieldValues (names : List String) : Json → Option (List (Option Json))
  | object members =>
    if members.any (·.1.isNone) then none
    else
      names.mapM fun name =>
        match members.filter (·.1 = some name) with
        | [] => some none
        | [(_, value)] => some (some value)
        | _ => none
  | array elements =>
    if names.length < elements.length then none
    else some ((List.range names.length).map (elements[·]?))
  | _ => none

/-- The values of some fields, all of which have to be given. -/
def allFields (names : List String) (v : Json) : Option (List Json) := do
  (← v.fieldValues names).mapM id

/-- A value read by `read?`, or `usual` if it is missing. -/
def orUsual {α : Type} (usual : α) (read? : Json → Option α) : Option Json → Option α
  | none => some usual
  | some v => read? v

end Json

open Json

/-- A vector. -/
def Vec3.ofJson? (v : Json) : Option Vec3 := do
  match ← v.allFields ["x", "y", "z"] with
  | [x, y, z] => return ⟨← x.toFloat?, ← y.toFloat?, ← z.toFloat?⟩
  | _ => none

/-- A role, as its name or as an object with its name as the one member, which is null. -/
def Role.ofJson? : Json → Option Role
  | .string (some "Leader") => some .leader
  | .string (some "Follower") => some .follower
  | .object [(some "Leader", .null)] => some .leader
  | .object [(some "Follower", .null)] => some .follower
  | _ => none

/-- A beacon. -/
def Beacon.ofJson? (v : Json) : Option Beacon := do
  match ← v.allFields ["position", "role"] with
  | [position, role] => return ⟨← Vec3.ofJson? position, ← Role.ofJson? role⟩
  | _ => none

/-- An address as its dotted text. -/
def Address.ofJson? (v : Json) : Option Address := do Address.ofText? (← v.toText?)

/-- The settings of a compromise. -/
def CompromiseSetting.ofJson? (v : Json) : Option CompromiseSetting := do
  match ← v.fieldValues ["at_secs", "host_octet"] with
  | [seconds, octet] =>
    return { seconds := ← orUsual usual.seconds toFloat? seconds
             hostOctet := ← orUsual usual.hostOctet
               (fun v => (v.toNatBelow? 256).map UInt8.ofNat) octet }
  | _ => none

/-- The settings of a compromise, or null for none. -/
def compromiseOfJson? : Json → Option (Option CompromiseSetting)
  | .null => some none
  | v => (CompromiseSetting.ofJson? v).map some

namespace Settings

/-- The names of the settings, in order. -/
def fieldNames : List String :=
  ["attraction_gain", "repulsion_gain", "seed", "follower_count", "spawn_radius",
    "duration_secs", "packet_interval_secs", "calculate_interval_secs",
    "positions_output_path", "follower_start_delay_secs", "position_sample_interval_secs",
    "min_dampen", "max_dampen", "base_address", "link_latency_secs", "packet_loss",
    "compromise"]

/-- The settings of a run. -/
def ofJson? (v : Json) : Option Settings := do
  match ← v.fieldValues fieldNames with
  | [attraction, repulsion, seed, followers, radius, duration, packet, calculate, path, delay,
      sample, minDampen, maxDampen, base, latency, loss, compromise] =>
    return {
      attractionGain := ← orUsual usual.attractionGain toFloat? attraction
      repulsionGain := ← orUsual usual.repulsionGain toFloat? repulsion
      seed := ← orUsual usual.seed
        (fun v => (v.toNatBelow? UInt64.size).map UInt64.ofNat) seed
      followerCount := ← orUsual usual.followerCount
        (fun v => (v.toNatBelow? UInt32.size).map UInt32.ofNat) followers
      spawnRadius := ← orUsual usual.spawnRadius toFloat? radius
      duration := ← orUsual usual.duration toFloat? duration
      packetInterval := ← orUsual usual.packetInterval toFloat? packet
      calculateInterval := ← orUsual usual.calculateInterval toFloat? calculate
      positionsPath := ← orUsual usual.positionsPath toText? path
      followerStartDelay := ← orUsual usual.followerStartDelay toFloat? delay
      sampleInterval := ← orUsual usual.sampleInterval toFloat? sample
      minDampen := ← orUsual usual.minDampen toFloat? minDampen
      maxDampen := ← orUsual usual.maxDampen toFloat? maxDampen
      baseAddress := ← orUsual usual.baseAddress Address.ofJson? base
      linkLatency := ← orUsual usual.linkLatency toFloat? latency
      packetLoss := ← orUsual usual.packetLoss toFloat? loss
      compromise := ← orUsual usual.compromise compromiseOfJson? compromise }
  | _ => none

/-- The settings that a text holds. -/
def ofText? (s : String) : Option Settings := do ofJson? (← Json.ofText? s)

end Settings

end SwarmFlight
