import PeerCache.Bytes

/-!
# `PeerCache.Hash.Sha256`: the SHA-256 digest

The message is padded to whole blocks of sixteen words. Each block is stretched
to a schedule of 64 words and mixed into a state of eight words, which starts
from fixed values. The final state, highest byte first, is the digest.

`Sha256.twice` hashes the digest once more. It is the hash used for placement
and for checksums.

* `Sha256.length_digest`, `Sha256.length_twice`: a digest has 32 bytes.
-/

set_option autoImplicit false

namespace PeerCache.Sha256

/-- Rotation to the right. -/
@[inline] def rotate (x n : UInt32) : UInt32 := (x >>> n) ||| (x <<< (32 - n))

/-- The state that blocks are mixed into. -/
structure State where
  a : UInt32
  b : UInt32
  c : UInt32
  d : UInt32
  e : UInt32
  f : UInt32
  g : UInt32
  h : UInt32

/-- The state before the first block: fractional parts of the square roots of the first primes. -/
def initial : State :=
  ⟨0x6a09e667, 0xbb67ae85, 0x3c6ef372, 0xa54ff53a, 0x510e527f, 0x9b05688c, 0x1f83d9ab, 0x5be0cd19⟩

/-- The constant of each round: fractional parts of the cube roots of the first 64 primes. -/
def roundConstants : Array UInt32 :=
  #[0x428a2f98, 0x71374491, 0xb5c0fbcf, 0xe9b5dba5, 0x3956c25b, 0x59f111f1, 0x923f82a4, 0xab1c5ed5,
    0xd807aa98, 0x12835b01, 0x243185be, 0x550c7dc3, 0x72be5d74, 0x80deb1fe, 0x9bdc06a7, 0xc19bf174,
    0xe49b69c1, 0xefbe4786, 0x0fc19dc6, 0x240ca1cc, 0x2de92c6f, 0x4a7484aa, 0x5cb0a9dc, 0x76f988da,
    0x983e5152, 0xa831c66d, 0xb00327c8, 0xbf597fc7, 0xc6e00bf3, 0xd5a79147, 0x06ca6351, 0x14292967,
    0x27b70a85, 0x2e1b2138, 0x4d2c6dfc, 0x53380d13, 0x650a7354, 0x766a0abb, 0x81c2c92e, 0x92722c85,
    0xa2bfe8a1, 0xa81a664b, 0xc24b8b70, 0xc76c51a3, 0xd192e819, 0xd6990624, 0xf40e3585, 0x106aa070,
    0x19a4c116, 0x1e376c08, 0x2748774c, 0x34b0bcb5, 0x391c0cb3, 0x4ed8aa4a, 0x5b9cca4f, 0x682e6ff3,
    0x748f82ee, 0x78a5636f, 0x84c87814, 0x8cc70208, 0x90befffa, 0xa4506ceb, 0xbef9a3f7, 0xc67178f2]

/-- The word with the given bytes, highest first. -/
@[inline] def word (b0 b1 b2 b3 : UInt8) : UInt32 :=
  (b0.toUInt32 <<< 24) ||| (b1.toUInt32 <<< 16) ||| (b2.toUInt32 <<< 8) ||| b3.toUInt32

/-- The four bytes of a word, highest first. -/
def wordBytes (w : UInt32) : Bytes :=
  [(w >>> 24).toUInt8, (w >>> 16).toUInt8, (w >>> 8).toUInt8, w.toUInt8]

/-- What follows a message of `length` bytes: a one bit, zeros up to eight bytes
short of a whole block, and the length in bits. -/
def padding (length : Nat) : Bytes :=
  0x80 :: List.replicate ((119 - length % 64) % 64) 0 ++ (Bytes.little 8 (8 * length)).reverse

/-- The words of a message of whole words, after those already collected. -/
def words (collected : Array UInt32) : Bytes → Array UInt32
  | b0 :: b1 :: b2 :: b3 :: rest => words (collected.push (word b0 b1 b2 b3)) rest
  | _ => collected

/-- Adds `n` words to a schedule, each from four earlier ones. -/
def stretch (schedule : Array UInt32) : Nat → Array UInt32
  | 0 => schedule
  | n + 1 =>
    let i := schedule.size
    let w15 := schedule.getD (i - 15) 0
    let w2 := schedule.getD (i - 2) 0
    let s0 := rotate w15 7 ^^^ rotate w15 18 ^^^ (w15 >>> 3)
    let s1 := rotate w2 17 ^^^ rotate w2 19 ^^^ (w2 >>> 10)
    stretch (schedule.push (schedule.getD (i - 16) 0 + s0 + schedule.getD (i - 7) 0 + s1)) n

/-- The last `n` of the 64 rounds. -/
def rounds (schedule : Array UInt32) :
    (n : Nat) → (a b c d e f g h : UInt32) → State
  | 0, a, b, c, d, e, f, g, h => ⟨a, b, c, d, e, f, g, h⟩
  | n + 1, a, b, c, d, e, f, g, h =>
    let s1 := rotate e 6 ^^^ rotate e 11 ^^^ rotate e 25
    let choice := (e &&& f) ^^^ (~~~e &&& g)
    let t1 := h + s1 + choice + roundConstants.getD (63 - n) 0 + schedule.getD (63 - n) 0
    let s0 := rotate a 2 ^^^ rotate a 13 ^^^ rotate a 22
    let majority := (a &&& b) ^^^ (a &&& c) ^^^ (b &&& c)
    rounds schedule n (t1 + s0 + majority) a b c (d + t1) e f g

/-- Mixes one block of sixteen words into the state. -/
def mix (s : State) (block : Array UInt32) : State :=
  let t := rounds (stretch block 48) 64 s.a s.b s.c s.d s.e s.f s.g s.h
  ⟨s.a + t.a, s.b + t.b, s.c + t.c, s.d + t.d, s.e + t.e, s.f + t.f, s.g + t.g, s.h + t.h⟩

/-- Mixes the blocks from the one numbered `start` on, `n` in all. -/
def absorb (message : Array UInt32) (start : Nat) : Nat → State → State
  | 0, s => s
  | n + 1, s =>
    absorb message (start + 1) n (mix s (message.extract (16 * start) (16 * start + 16)))

/-- The 32 bytes of a state. -/
def State.toBytes (s : State) : Bytes :=
  wordBytes s.a ++ wordBytes s.b ++ wordBytes s.c ++ wordBytes s.d ++
    wordBytes s.e ++ wordBytes s.f ++ wordBytes s.g ++ wordBytes s.h

/-- The digest of a message. -/
def digest (message : Bytes) : Bytes :=
  let ws := words #[] (message ++ padding message.length)
  (absorb ws 0 (ws.size / 16) initial).toBytes

/-- The digest of the digest. -/
def twice (message : Bytes) : Bytes := digest (digest message)

@[simp] theorem length_digest (message : Bytes) : (digest message).length = 32 := rfl

@[simp] theorem length_twice (message : Bytes) : (twice message).length = 32 := rfl

end PeerCache.Sha256
