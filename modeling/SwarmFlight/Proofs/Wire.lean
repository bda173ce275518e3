import Mathlib
import SwarmFlight.Beacon

/-!
# The wire format of beacons

The bytes of a word, lowest first, make up the word again (`wordOfBytes_lowBytes`), and so
what is encoded is what is decoded (`Beacon.decode_encode`).
-/

namespace SwarmFlight

/-- The lowest bytes of a word are what is left of it modulo a power of 256. -/
theorem toNat_wordOfBytes_lowBytes {n : Nat} (hn : n ≤ 8) (w : UInt64) :
    (wordOfBytes (lowBytes n w)).toNat = w.toNat % 2 ^ (8 * n) := by
  induction n generalizing w with
  | zero => simp [lowBytes, wordOfBytes, Nat.mod_one]
  | succ n ih =>
    have ih := ih (Nat.le_of_succ_le hn) (w >>> 8)
    have hshift : (w >>> 8).toNat = w.toNat / 2 ^ 8 := by
      rw [UInt64.toNat_shiftRight, Nat.shiftRight_eq_div_pow]
      rfl
    have hlt : (wordOfBytes (lowBytes n (w >>> 8))).toNat * 2 ^ 8 < 2 ^ 64 := by
      have hpow : 2 ^ (8 * n) ≤ 2 ^ 56 := Nat.pow_le_pow_right Nat.two_pos (by omega)
      have hmod := Nat.mod_lt (w >>> 8).toNat (Nat.two_pow_pos (8 * n))
      omega
    have hhigh : (wordOfBytes (lowBytes n (w >>> 8)) <<< 8).toNat =
        (wordOfBytes (lowBytes n (w >>> 8))).toNat <<< 8 := by
      rw [UInt64.toNat_shiftLeft, Nat.shiftLeft_eq, Nat.shiftLeft_eq]
      exact Nat.mod_eq_of_lt hlt
    have hlow : w.toUInt8.toUInt64.toNat = w.toNat % 2 ^ 8 := by simp
    rw [lowBytes, wordOfBytes, UInt64.toNat_or, hhigh, hlow, Nat.or_comm,
      ← Nat.shiftLeft_add_eq_or_of_lt (Nat.mod_lt _ (Nat.two_pow_pos 8)), ih, hshift,
      Nat.shiftLeft_eq, show 8 * (n + 1) = 8 + 8 * n by omega, Nat.pow_add, Nat.mod_mul,
      Nat.add_comm, Nat.mul_comm]

theorem wordOfBytes_lowBytes (w : UInt64) : wordOfBytes (lowBytes 8 w) = w := by
  rw [← UInt64.toNat_inj, toNat_wordOfBytes_lowBytes (Nat.le_refl 8)]
  exact Nat.mod_eq_of_lt w.toNat_lt

theorem floatOfBytes_floatBytes (x : Float) : floatOfBytes (floatBytes x) = x := by
  rw [floatOfBytes, floatBytes, wordOfBytes_lowBytes, Float.ofBits_toBits]

theorem length_floatBytes (x : Float) : (floatBytes x).length = 8 := length_lowBytes 8 _

/-- What is encoded is what is decoded. -/
theorem Beacon.decode_encode (b : Beacon) : decode b.encode = .ok b := by
  have hx := length_floatBytes b.position.x
  have hy := length_floatBytes b.position.y
  have hz := length_floatBytes b.position.z
  have hencode : b.encode = floatBytes b.position.x ++ (floatBytes b.position.y ++
      (floatBytes b.position.z ++ [b.role.byte])) := by
    simp only [encode, List.append_assoc]
  have hdrop : b.encode.drop 8 = floatBytes b.position.y ++
      (floatBytes b.position.z ++ [b.role.byte]) := by
    rw [hencode, List.drop_left' hx]
  have hdrop' : b.encode.drop 16 = floatBytes b.position.z ++ [b.role.byte] := by
    rw [show 16 = 8 + 8 from rfl, ← List.drop_drop, hdrop, List.drop_left' hy]
  have hrole : b.encode.drop 24 = [b.role.byte] := by
    rw [show 24 = 16 + 8 from rfl, ← List.drop_drop, hdrop', List.drop_left' hz]
  rw [decode, if_pos (length_encode b), hrole, hdrop', hdrop, hencode, List.take_left' hx,
    List.take_left' hy, List.take_left' hz]
  simp [floatOfBytes_floatBytes]

end SwarmFlight
