import PeerCache.Random.Source

/-!
# `PeerCache.Random.ChaCha`: a stream cipher as a generator

The generator gives out the key stream of ChaCha with twelve rounds, 32 bits at
a time. A 64-bit seed is stretched to the key by a small congruential generator.
A 64-bit word takes two words of the stream, low one first. Bytes take whole
words, and what is left of the last one is dropped.

A number below a bound is the upper half of the product of a 64-bit word and the
bound. A word is refused when the lower half lies past the largest multiple that
keeps all numbers equally likely. At least every second word is accepted, so the
number of tries is capped without being felt.
-/

set_option autoImplicit false

namespace PeerCache

namespace ChaCha

/-- Rotation to the left. -/
@[inline] def rotate (x n : UInt32) : UInt32 := (x <<< n) ||| (x >>> (32 - n))

/-- The quarter round on four places of the state. -/
@[inline] def quarter (s : Array UInt32) (i j k l : Nat) : Array UInt32 :=
  let a := s.getD i 0
  let b := s.getD j 0
  let c := s.getD k 0
  let d := s.getD l 0
  let a := a + b
  let d := rotate (d ^^^ a) 16
  let c := c + d
  let b := rotate (b ^^^ c) 12
  let a := a + b
  let d := rotate (d ^^^ a) 8
  let c := c + d
  let b := rotate (b ^^^ c) 7
  (((s.setIfInBounds i a).setIfInBounds j b).setIfInBounds k c).setIfInBounds l d

/-- `n` times a round over the columns and one over the diagonals. -/
def doubleRounds (s : Array UInt32) : Nat → Array UInt32
  | 0 => s
  | n + 1 =>
    let s := quarter s 0 4 8 12
    let s := quarter s 1 5 9 13
    let s := quarter s 2 6 10 14
    let s := quarter s 3 7 11 15
    let s := quarter s 0 5 10 15
    let s := quarter s 1 6 11 12
    let s := quarter s 2 7 8 13
    let s := quarter s 3 4 9 14
    doubleRounds s n

/-- The sixteen words of the stream that belong to a counter value. -/
def block (key : Array UInt32) (counter : UInt64) : Array UInt32 :=
  let constants : Array UInt32 := #[0x61707865, 0x3320646e, 0x79622d32, 0x6b206574]
  let start := constants ++ key ++ #[counter.toUInt32, (counter >>> 32).toUInt32, 0, 0]
  Array.zipWith (· + ·) start (doubleRounds start 6)

/-- `n` words of key, each from the next state of a congruential generator. -/
def keyWords (state : UInt64) : (n : Nat) → List UInt32
  | 0 => []
  | n + 1 =>
    let state := state * 6364136223846793005 + 11634580027462260723
    let x := (((state >>> 18) ^^^ state) >>> 27).toUInt32
    let turn := (state >>> 59).toUInt32
    ((x >>> turn) ||| (x <<< ((32 - turn) % 32))) :: keyWords state n

end ChaCha

/-- A position in a key stream: the words still at hand, and the counter of the next block. -/
structure ChaChaStream where
  key : Array UInt32
  counter : UInt64
  pending : List UInt32

namespace ChaChaStream

/-- The start of the stream that belongs to a seed. -/
def ofSeed (seed : UInt64) : ChaChaStream := ⟨(ChaCha.keyWords seed 8).toArray, 0, []⟩

/-- The next 32 bits of the stream. -/
def half (s : ChaChaStream) : UInt32 × ChaChaStream :=
  match s.pending with
  | w :: pending => (w, { s with pending })
  | [] =>
    match (ChaCha.block s.key s.counter).toList with
    | w :: pending => (w, { s with counter := s.counter + 1, pending })
    | [] => (0, s)

/-- The next 64 bits of the stream, the lower half first. -/
def word (s : ChaChaStream) : UInt64 × ChaChaStream :=
  let (low, s) := s.half
  let (high, s) := s.half
  ((high.toUInt64 <<< 32) ||| low.toUInt64, s)

/-- Draws words until one is accepted, at most `tries` times, and returns the
upper half of its product with the bound. -/
def scaled (zone bound : Nat) : (tries : Nat) → ChaChaStream → Nat × ChaChaStream
  | 0, s => (0, s)
  | tries + 1, s =>
    let (w, s) := s.word
    let product := w.toNat * bound
    if product % UInt64.size ≤ zone then (product / UInt64.size, s) else scaled zone bound tries s

/-- A number below the bound. A bound of zero draws nothing. -/
def below (s : ChaChaStream) (bound : Nat) : Nat × ChaChaStream :=
  if bound = 0 then (0, s)
  else scaled ((bound <<< (63 - bound.log2)) - 1) bound 1024 s

/-- The bytes of successive words of the stream, lowest first. -/
def bytes (s : ChaChaStream) (n : Nat) : Bytes × ChaChaStream :=
  if _h : n = 0 then ([], s)
  else
    let (w, s) := s.half
    let (rest, s) := bytes s (n - 4)
    (Bytes.little (min 4 n) w.toNat ++ rest, s)
termination_by n

theorem scaled_lt (zone bound tries : Nat) (s : ChaChaStream) (h : 0 < bound) :
    (scaled zone bound tries s).1 < bound := by
  induction tries generalizing s with
  | zero => exact h
  | succ tries ih =>
      simp only [scaled]
      split
      · have hw : s.word.1.toNat < UInt64.size := s.word.1.toNat_lt
        rw [Nat.div_lt_iff_lt_mul (by decide), Nat.mul_comm bound]
        exact Nat.mul_lt_mul_of_pos_right hw h
      · exact ih _

theorem length_bytes (s : ChaChaStream) (n : Nat) : (s.bytes n).1.length = n := by
  fun_induction bytes s n with
  | case1 s => rfl
  | case2 s n hn w s' hw rest s'' hrest ih =>
      simp only [hrest] at ih
      simp only [List.length_append, Bytes.length_little, ih]
      omega

instance : RandomSource ChaChaStream where
  word := word
  below := below
  bytes := bytes
  below_lt s bound h := by
    simp only [below, Nat.ne_of_gt h, if_false]
    exact scaled_lt _ _ _ _ h
  length_bytes := length_bytes

end ChaChaStream

end PeerCache
