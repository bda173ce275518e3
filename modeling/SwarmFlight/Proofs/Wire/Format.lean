import Mathlib
import SwarmFlight.Proofs.Wire

/-!
# The wire format, byte by byte

`Wire` states the format by itself : a number is written as its eight bytes, the lowest
first, and a role as the varint of its place among the roles. `Beacon.encode` writes a beacon
so (`Beacon.encode_eq_written`), and `Beacon.decode` reads 25 bytes so and refuses any other
number of them (`Beacon.decode_eq_read`).

Each beacon has one spelling. A varint could spell a small index in many bytes, but after
three words there is room for one byte only, so the bytes that are accepted are those that
end with 0 or 1, and what is accepted is written back as it came
(`Beacon.encode_decode_bijective`). The words of NaNs are the exception : all of them are read
as one number.
-/

namespace SwarmFlight

open Float.Model Float.Model.UnpackedFloat

/-! ## The format -/

namespace Wire

/-- The eight bytes of a word, the lowest first. -/
def word (w : UInt64) : List UInt8 :=
  (List.range 8).map fun i => UInt8.ofNat (w.toNat / 256 ^ i)

/-- The bytes of an index : seven bits each, the lowest first, and the high bit set in all
bytes but the last. -/
def varint (n : Nat) : List UInt8 :=
  if n < 128 then [UInt8.ofNat n] else UInt8.ofNat (n % 128 + 128) :: varint (n / 128)
termination_by n

/-- The roles in the order of their indices. -/
def roles : List Role := [.follower, .leader]

/-- A beacon as the format writes it. -/
def written (b : Beacon) : List UInt8 :=
  word b.position.x.toBits ++ word b.position.y.toBits ++ word b.position.z.toBits ++
    varint (roles.idxOf b.role)

/-- The number at the start of some bytes, and the bytes after it. -/
def readNumber (bytes : List UInt8) : Option (Float × List UInt8) :=
  if 8 ≤ bytes.length then
    some (Float.ofBits (UInt64.ofNat (Nat.ofDigits 256 ((bytes.take 8).map UInt8.toNat))),
      bytes.drop 8)
  else none

/-- The index at the start of some bytes, and the bytes after it. -/
def readVarint : List UInt8 → Option (Nat × List UInt8)
  | [] => none
  | b :: rest =>
    if b.toNat < 128 then some (b.toNat, rest)
    else (readVarint rest).map fun (n, rest) => (b.toNat - 128 + 128 * n, rest)

/-- The beacon at the start of some bytes. -/
def readBeacon (bytes : List UInt8) : Option Beacon := do
  let (x, bytes) ← readNumber bytes
  let (y, bytes) ← readNumber bytes
  let (z, bytes) ← readNumber bytes
  let (index, _) ← readVarint bytes
  let role ← roles[index]?
  return ⟨⟨x, y, z⟩, role⟩

/-- The beacon of 25 bytes. -/
def read (bytes : List UInt8) : Except Failure Beacon :=
  if bytes.length = 25 then
    match readBeacon bytes with
    | some b => .ok b
    | none => .error .invalidPayload
  else .error .invalidPayload

end Wire

/-- Whether no component is a NaN. -/
def Vec3.IsNumber (v : Vec3) : Prop :=
  v.x.isNaN = false ∧ v.y.isNaN = false ∧ v.z.isNaN = false

/-! ## Words -/

theorem lowBytes_eq_map (n : Nat) (w : UInt64) :
    lowBytes n w = (List.range n).map fun i => UInt8.ofNat (w.toNat / 256 ^ i) := by
  induction n generalizing w with
  | zero => rfl
  | succ n ih =>
    have hshift : (w >>> 8).toNat = w.toNat / 256 := by
      rw [UInt64.toNat_shiftRight, Nat.shiftRight_eq_div_pow]
      rfl
    have hfirst : w.toUInt8 = UInt8.ofNat w.toNat := by
      rw [← UInt8.toNat_inj]
      simp
    rw [lowBytes, ih, hshift, List.range_succ_eq_map]
    simp only [List.map_cons, List.map_map, Nat.pow_zero, Nat.div_one, hfirst]
    refine congrArg _ (List.map_congr_left fun i _ => ?_)
    rw [Function.comp_apply, Nat.div_div_eq_div_mul, Nat.pow_succ, Nat.mul_comm]

/-- A word is its first byte and 256 times the word of the others. -/
theorem toNat_wordOfBytes_cons (b : UInt8) {rest : List UInt8} (hlength : rest.length < 8)
    (hrest : (wordOfBytes rest).toNat < 256 ^ rest.length) :
    (wordOfBytes (b :: rest)).toNat = b.toNat + 256 * (wordOfBytes rest).toNat := by
  have hlt : (wordOfBytes rest).toNat * 2 ^ 8 < 2 ^ 64 := by
    have hpow : 256 ^ rest.length ≤ 256 ^ 7 := Nat.pow_le_pow_right (by decide) (by omega)
    omega
  have hhigh : (wordOfBytes rest <<< 8).toNat = (wordOfBytes rest).toNat <<< 8 := by
    rw [UInt64.toNat_shiftLeft, Nat.shiftLeft_eq, Nat.shiftLeft_eq]
    exact Nat.mod_eq_of_lt hlt
  rw [wordOfBytes, UInt64.toNat_or, hhigh, UInt8.toNat_toUInt64, Nat.or_comm,
    ← Nat.shiftLeft_add_eq_or_of_lt b.toNat_lt, Nat.shiftLeft_eq]
  omega

/-- Up to eight bytes are the digits of their word. -/
theorem toNat_wordOfBytes {bytes : List UInt8} (h : bytes.length ≤ 8) :
    (wordOfBytes bytes).toNat = Nat.ofDigits 256 (bytes.map UInt8.toNat) := by
  induction bytes with
  | nil => rfl
  | cons b rest ih =>
    have hlength : rest.length < 8 := by simpa using h
    have ih := ih hlength.le
    have hrest : (wordOfBytes rest).toNat < 256 ^ rest.length := by
      have hdigits : (rest.map UInt8.toNat).length = rest.length := List.length_map _
      rw [ih, ← hdigits]
      refine Nat.ofDigits_lt_base_pow_length (by decide) fun d hd => ?_
      obtain ⟨b, -, rfl⟩ := List.mem_map.1 hd
      exact b.toNat_lt
    rw [toNat_wordOfBytes_cons b hlength hrest, ih, List.map_cons, Nat.ofDigits_cons]

theorem lowBytes_wordOfBytes {bytes : List UInt8} (h : bytes.length ≤ 8) :
    lowBytes bytes.length (wordOfBytes bytes) = bytes := by
  induction bytes with
  | nil => rfl
  | cons b rest ih =>
    have hlength : rest.length ≤ 8 := by
      simp only [List.length_cons] at h
      omega
    have hword : (wordOfBytes (b :: rest)).toNat = b.toNat + 256 * (wordOfBytes rest).toNat := by
      rw [toNat_wordOfBytes h, toNat_wordOfBytes hlength, List.map_cons, Nat.ofDigits_cons]
    have hb := b.toNat_lt
    have hlow : (wordOfBytes (b :: rest)).toUInt8 = b := by
      rw [← UInt8.toNat_inj, UInt64.toNat_toUInt8, hword]
      omega
    have hshift : wordOfBytes (b :: rest) >>> 8 = wordOfBytes rest := by
      rw [← UInt64.toNat_inj, UInt64.toNat_shiftRight, Nat.shiftRight_eq_div_pow, hword]
      change (b.toNat + 256 * (wordOfBytes rest).toNat) / 256 = _
      omega
    rw [List.length_cons, lowBytes, hlow, hshift, ih hlength]

/-! ## Numbers -/

/-- A word that is no NaN is kept by the number it makes. -/
theorem toBits_ofBits {w : UInt64} (h : (Float.ofBits w).isNaN = false) :
    (Float.ofBits w).toBits = w := by
  have hpack := @UnpackedFloat.pack_unpack Format.binary64 w.toBitVec
  split at hpack
  · -- the word of a NaN is read as the one NaN there is
    have hnan : (UnpackedFloat.unpack Format.binary64 (UnpackedFloat.pack Format.binary64
        (UnpackedFloat.unpack Format.binary64 w.toBitVec))).isNaN = false := h
    rw [hpack, unpack_packedNaN] at hnan
    cases hnan
  · exact UInt64.toBitVec_inj.1 hpack

theorem floatBytes_floatOfBytes {bytes : List UInt8} (hlength : bytes.length = 8)
    (h : (floatOfBytes bytes).isNaN = false) : floatBytes (floatOfBytes bytes) = bytes := by
  have hbytes := lowBytes_wordOfBytes hlength.le
  rw [hlength] at hbytes
  rw [floatBytes, floatOfBytes, toBits_ofBits h, hbytes]

theorem floatBytes_eq_word (x : Float) : floatBytes x = Wire.word x.toBits :=
  lowBytes_eq_map 8 x.toBits

theorem readNumber_append {bytes : List UInt8} (h : bytes.length = 8) (rest : List UInt8) :
    Wire.readNumber (bytes ++ rest) = some (floatOfBytes bytes, rest) := by
  have hword : UInt64.ofNat (Nat.ofDigits 256 (bytes.map UInt8.toNat)) = wordOfBytes bytes := by
    rw [← toNat_wordOfBytes h.le, UInt64.ofNat_toNat]
  rw [Wire.readNumber, if_pos (by simp [h]), List.take_left' h, List.drop_left' h, hword,
    floatOfBytes]

/-! ## Roles -/

theorem Role.byte_eq_varint (r : Role) : [r.byte] = Wire.varint (Wire.roles.idxOf r) := by
  cases r <;> rw [Wire.varint] <;> decide

/-- A byte alone is the varint of a role, or of none : one with the high bit set is cut short,
and one above 1 is the index of no role. -/
theorem readVarint_singleton (b : UInt8) :
    ((Wire.readVarint [b]).bind fun i => Wire.roles[i.1]?) = Role.ofByte? b := by
  by_cases h0 : b = 0
  · subst h0
    rfl
  by_cases h1 : b = 1
  · subst h1
    rfl
  have hb : 2 ≤ b.toNat := by
    have h0 : b.toNat ≠ 0 := fun h => h0 (UInt8.toNat_inj.1 h)
    have h1 : b.toNat ≠ 1 := fun h => h1 (UInt8.toNat_inj.1 h)
    omega
  rw [Role.ofByte?, if_neg h0, if_neg h1, Wire.readVarint]
  split
  · exact List.getElem?_eq_none hb
  · rfl

theorem Role.byte_ofByte? {b : UInt8} {r : Role} (h : Role.ofByte? b = some r) : r.byte = b := by
  unfold ofByte? at h
  split_ifs at h <;> cases h <;> symm <;> assumption

theorem Role.isSome_ofByte? (b : UInt8) : (Role.ofByte? b).isSome ↔ b = 0 ∨ b = 1 := by
  unfold ofByte?
  split_ifs <;> simp [*]

/-! ## Beacons -/

/-- Twenty-five bytes are three words and a byte. -/
theorem exists_words {bytes : List UInt8} (h : bytes.length = beaconSize) :
    ∃ xs ys zs : List UInt8, ∃ b, xs.length = 8 ∧ ys.length = 8 ∧ zs.length = 8 ∧
      bytes = xs ++ (ys ++ (zs ++ [b])) := by
  change bytes.length = 25 at h
  have hlast : (bytes.drop 24).length = 1 := by simp [h]
  obtain ⟨b, hb⟩ := List.length_eq_one_iff.1 hlast
  refine ⟨bytes.take 8, (bytes.drop 8).take 8, (bytes.drop 16).take 8, b,
    by simp [h], by simp [h], by simp [h], ?_⟩
  have hrest : (bytes.drop 16).drop 8 = [b] := by rw [List.drop_drop, ← hb]
  have hmiddle : (bytes.drop 8).drop 8 = bytes.drop 16 := List.drop_drop
  rw [← hrest, List.take_append_drop, ← hmiddle, List.take_append_drop, List.take_append_drop]

namespace Beacon

section Words

variable {xs ys zs : List UInt8} (hx : xs.length = 8) (hy : ys.length = 8) (hz : zs.length = 8)
  (b : UInt8)
include hx hy hz

theorem decode_words : decode (xs ++ (ys ++ (zs ++ [b]))) =
    match Role.ofByte? b with
    | some role => .ok ⟨⟨floatOfBytes xs, floatOfBytes ys, floatOfBytes zs⟩, role⟩
    | none => .error .invalidPayload := by
  have hlength : (xs ++ (ys ++ (zs ++ [b]))).length = beaconSize := by
    simp [hx, hy, hz, beaconSize]
  have hdrop : (xs ++ (ys ++ (zs ++ [b]))).drop 8 = ys ++ (zs ++ [b]) := List.drop_left' hx
  have hdrop' : (xs ++ (ys ++ (zs ++ [b]))).drop 16 = zs ++ [b] := by
    rw [show 16 = 8 + 8 from rfl, ← List.drop_drop, hdrop, List.drop_left' hy]
  have hrole : (xs ++ (ys ++ (zs ++ [b]))).drop 24 = [b] := by
    rw [show 24 = 16 + 8 from rfl, ← List.drop_drop, hdrop', List.drop_left' hz]
  rw [decode, if_pos hlength, hrole, hdrop', hdrop, List.take_left' hx, List.take_left' hy,
    List.take_left' hz]
  rfl

theorem readBeacon_words : Wire.readBeacon (xs ++ (ys ++ (zs ++ [b]))) =
    (Role.ofByte? b).map fun role =>
      ⟨⟨floatOfBytes xs, floatOfBytes ys, floatOfBytes zs⟩, role⟩ := by
  simp only [Wire.readBeacon, readNumber_append hx, readNumber_append hy, readNumber_append hz,
    Option.bind_eq_bind, Option.bind_some, ← readVarint_singleton]
  cases Wire.readVarint [b] with
  | none => rfl
  | some i =>
    simp only [Option.bind_some]
    cases Wire.roles[i.1]? <;> rfl

end Words

/-- A beacon is written in the format. -/
theorem encode_eq_written (b : Beacon) : b.encode = Wire.written b := by
  rw [encode, Wire.written, floatBytes_eq_word, floatBytes_eq_word, floatBytes_eq_word,
    Role.byte_eq_varint]

/-- Twenty-five bytes are read in the format, and any other number of them is refused. -/
theorem decode_eq_read (bytes : List UInt8) : decode bytes = Wire.read bytes := by
  by_cases hlength : bytes.length = beaconSize
  · have hread : Wire.read bytes = match Wire.readBeacon bytes with
        | some b => .ok b
        | none => .error .invalidPayload := if_pos hlength
    obtain ⟨xs, ys, zs, b, hx, hy, hz, rfl⟩ := exists_words hlength
    rw [hread, decode_words hx hy hz, readBeacon_words hx hy hz]
    cases Role.ofByte? b <;> rfl
  · have hread : Wire.read bytes = .error .invalidPayload := if_neg hlength
    rw [hread, decode, if_neg hlength]

/-- What is accepted is written back as it came. -/
theorem encode_of_decode {bytes : List UInt8} {b : Beacon} (h : decode bytes = .ok b)
    (hnumber : b.position.IsNumber) : b.encode = bytes := by
  have hlength : bytes.length = beaconSize := by
    by_contra hne
    rw [decode, if_neg hne] at h
    cases h
  obtain ⟨xs, ys, zs, c, hx, hy, hz, rfl⟩ := exists_words hlength
  rw [decode_words hx hy hz] at h
  cases hrole : Role.ofByte? c with
  | none => rw [hrole] at h; cases h
  | some role =>
    rw [hrole] at h
    cases h
    obtain ⟨hnx, hny, hnz⟩ := hnumber
    simp only [encode, floatBytes_floatOfBytes hx hnx, floatBytes_floatOfBytes hy hny,
      floatBytes_floatOfBytes hz hnz, Role.byte_ofByte? hrole, List.append_assoc]

/-- The bytes that are accepted. -/
theorem exists_decode_iff (bytes : List UInt8) : (∃ b, decode bytes = .ok b) ↔
    bytes.length = 25 ∧ (bytes.getLast? = some 0 ∨ bytes.getLast? = some 1) := by
  by_cases hlength : bytes.length = beaconSize
  · obtain ⟨xs, ys, zs, c, hx, hy, hz, rfl⟩ := exists_words hlength
    have hlast : (xs ++ (ys ++ (zs ++ [c]))).getLast? = some c := by simp
    have hrole := Role.isSome_ofByte? c
    rw [decode_words hx hy hz, hlast]
    simp only [Option.some.injEq]
    rw [← hrole]
    refine ⟨fun ⟨b, hb⟩ => ⟨hlength, ?_⟩, fun ⟨_, hsome⟩ => ?_⟩
    · cases h : Role.ofByte? c with
      | none => rw [h] at hb; cases hb
      | some role => rfl
    · obtain ⟨role, h⟩ := Option.isSome_iff_exists.1 hsome
      exact ⟨_, by rw [h]⟩
  · refine iff_of_false (fun ⟨b, hb⟩ => ?_) fun h => hlength h.1
    rw [decode, if_neg hlength] at hb
    cases hb

/-- The only failure of `decode`. -/
theorem decode_error {bytes : List UInt8} {f : Failure} (h : decode bytes = .error f) :
    f = .invalidPayload := by
  unfold decode at h
  split at h
  · split at h <;> cases h
    rfl
  · cases h
    rfl

/-- Beacons and the bytes that are accepted correspond to each other : a beacon is written in
25 bytes of the format and read back bit for bit, and of all bytes exactly those are accepted
that are 25 with a 0 or a 1 as the last, to be written again as they came unless a component is
a NaN. All others are an invalid payload. -/
theorem encode_decode_bijective :
    (∀ b : Beacon, b.encode = Wire.written b ∧ b.encode.length = 25 ∧ decode b.encode = .ok b) ∧
    ∀ bytes : List UInt8,
      decode bytes = Wire.read bytes ∧
      (bytes.length = 25 ∧ (bytes.getLast? = some 0 ∨ bytes.getLast? = some 1) →
        ∃ b, decode bytes = .ok b ∧ (b.position.IsNumber → b.encode = bytes)) ∧
      (¬ (bytes.length = 25 ∧ (bytes.getLast? = some 0 ∨ bytes.getLast? = some 1)) →
        decode bytes = .error .invalidPayload) := by
  refine ⟨fun b => ⟨encode_eq_written b, length_encode b, decode_encode b⟩, fun bytes =>
    ⟨decode_eq_read bytes, fun haccepted => ?_, fun hrefused => ?_⟩⟩
  · obtain ⟨b, hb⟩ := (exists_decode_iff bytes).2 haccepted
    exact ⟨b, hb, encode_of_decode hb⟩
  · cases h : decode bytes with
    | ok b => exact absurd ((exists_decode_iff bytes).1 ⟨b, h⟩) hrefused
    | error f => rw [decode_error h]

/-- The bytes of the negative zero, the positive infinity, the least positive number and a
leader. -/
def extremeBytes : List UInt8 :=
  [0, 0, 0, 0, 0, 0, 0, 0x80] ++ [0, 0, 0, 0, 0, 0, 0xf0, 0x7f] ++ [1, 0, 0, 0, 0, 0, 0, 0] ++ [1]

/-- Zeros with a sign, infinities and subnormal numbers are kept, and a role of 2 is refused. -/
theorem encode_decode_bijective_extremes :
    (∃ b, decode extremeBytes = .ok b ∧ b.role = .leader ∧ b.encode = extremeBytes) ∧
    decode (extremeBytes.take 24 ++ [2]) = .error .invalidPayload := by
  refine ⟨?_, (encode_decode_bijective.2 (extremeBytes.take 24 ++ [2])).2.2 (by decide)⟩
  obtain ⟨b, hb, hback⟩ := (encode_decode_bijective.2 extremeBytes).2.1 (by decide)
  have hread : b = ⟨⟨Float.ofBits 0x8000000000000000, Float.ofBits 0x7ff0000000000000,
      Float.ofBits 1⟩, .leader⟩ := by
    have hwords : decode extremeBytes = .ok ⟨⟨floatOfBytes [0, 0, 0, 0, 0, 0, 0, 0x80],
        floatOfBytes [0, 0, 0, 0, 0, 0, 0xf0, 0x7f], floatOfBytes [1, 0, 0, 0, 0, 0, 0, 0]⟩,
        .leader⟩ := by rfl
    rw [hb] at hwords
    cases hwords
    rfl
  subst hread
  exact ⟨_, hb, rfl, hback ⟨by decide, by decide, by decide⟩⟩

end Beacon

end SwarmFlight
