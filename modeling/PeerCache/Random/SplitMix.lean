import PeerCache.Random.Source

/-!
# `PeerCache.Random.SplitMix`: a small generator with a script in front

`SplitMix` steps a 64-bit counter by a fixed odd number and scrambles it. Words
listed in `script` are given out first, which lets a run be steered. A number
below a bound is the next word reduced modulo the bound.
-/

set_option autoImplicit false

namespace PeerCache

/-- A list of words to give out first, then a scrambled counter. -/
structure SplitMix where
  script : List UInt64
  counter : UInt64

namespace SplitMix

/-- Spreads the bits of a counter value. -/
def scramble (z : UInt64) : UInt64 :=
  let z := (z ^^^ (z >>> 30)) * 0xbf58476d1ce4e5b9
  let z := (z ^^^ (z >>> 27)) * 0x94d049bb133111eb
  z ^^^ (z >>> 31)

/-- The next word. -/
def word (s : SplitMix) : UInt64 × SplitMix :=
  match s.script with
  | w :: script => (w, { s with script })
  | [] =>
    let counter := s.counter + 0x9e3779b97f4a7c15
    (scramble counter, { s with counter })

/-- The next word modulo the bound. A bound of zero draws nothing. -/
def below (s : SplitMix) (bound : Nat) : Nat × SplitMix :=
  if bound = 0 then (0, s)
  else
    let (w, s) := s.word
    (w.toNat % bound, s)

/-- The bytes of successive words, lowest first. The last word is cut short. -/
def bytes (s : SplitMix) (n : Nat) : Bytes × SplitMix :=
  if _h : n = 0 then ([], s)
  else
    let (w, s) := s.word
    let (rest, s) := bytes s (n - 8)
    (Bytes.little (min 8 n) w.toNat ++ rest, s)
termination_by n

theorem length_bytes (s : SplitMix) (n : Nat) : (s.bytes n).1.length = n := by
  fun_induction bytes s n with
  | case1 s => rfl
  | case2 s n hn w s' hw rest s'' hrest ih =>
      simp only [hrest] at ih
      simp only [List.length_append, Bytes.length_little, ih]
      omega

instance : RandomSource SplitMix where
  word := word
  below := below
  bytes := bytes
  below_lt s bound h := by
    simp only [below, Nat.ne_of_gt h, if_false]
    exact Nat.mod_lt _ h
  length_bytes := length_bytes

end SplitMix

end PeerCache
