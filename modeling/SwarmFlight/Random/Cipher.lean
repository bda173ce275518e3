/-!
# The ChaCha block function with twelve rounds

`keyStream` turns a key of eight words and a block number into the sixteen words of one
block, the third and fourth words of the block number (the stream number) being zero.
-/

namespace SwarmFlight

/-- A 4 by 4 matrix of words, row by row. -/
abbrev CipherState := Vector UInt32 16

namespace CipherState

/-- A word with its bits moved round to the left. -/
def rotateLeft (w : UInt32) (n : UInt32) : UInt32 := (w <<< n) ||| (w >>> (32 - n))

/-- One quarter round on the words at four places. -/
def quarterRound (s : CipherState) (a b c d : Fin 16) : CipherState :=
  let s := s.set a (s[a] + s[b])
  let s := s.set d (rotateLeft (s[d] ^^^ s[a]) 16)
  let s := s.set c (s[c] + s[d])
  let s := s.set b (rotateLeft (s[b] ^^^ s[c]) 12)
  let s := s.set a (s[a] + s[b])
  let s := s.set d (rotateLeft (s[d] ^^^ s[a]) 8)
  let s := s.set c (s[c] + s[d])
  s.set b (rotateLeft (s[b] ^^^ s[c]) 7)

/-- A round over the columns and a round over the diagonals. -/
def doubleRound (s : CipherState) : CipherState :=
  let s := s.quarterRound 0 4 8 12
  let s := s.quarterRound 1 5 9 13
  let s := s.quarterRound 2 6 10 14
  let s := s.quarterRound 3 7 11 15
  let s := s.quarterRound 0 5 10 15
  let s := s.quarterRound 1 6 11 12
  let s := s.quarterRound 2 7 8 13
  s.quarterRound 3 4 9 14

/-- `n` double rounds. -/
def rounds : Nat → CipherState → CipherState
  | 0, s => s
  | n + 1, s => rounds n s.doubleRound

/-- The state a block starts from : the constants, the key and the block number. -/
def start (key : Vector UInt32 8) (block : UInt64) : CipherState :=
  #v[0x61707865, 0x3320646e, 0x79622d32, 0x6b206574,
    key[0], key[1], key[2], key[3], key[4], key[5], key[6], key[7],
    block.toUInt32, (block >>> 32).toUInt32, 0, 0]

end CipherState

/-- The words of one block : twelve rounds, and the state they started from added on. -/
def keyStream (key : Vector UInt32 8) (block : UInt64) : Vector UInt32 16 :=
  let s := CipherState.start key block
  (CipherState.rounds 6 s).zipWith (· + ·) s

end SwarmFlight
