import PeerCache.Bytes

/-!
# `PeerCache.Random.Source`: where random numbers come from

A source is a state from which words, numbers below a bound, and byte strings
are drawn. Each draw returns the next state. The cache is written against the
class alone, so what is proved of it holds for every source that keeps the two
laws: a number drawn below a positive bound is below it, and as many bytes come
as were asked for.

`Counted` wraps a source and counts the draws made from it.
-/

set_option autoImplicit false

namespace PeerCache

/-- A state that random values are drawn from. -/
class RandomSource (σ : Type) where
  /-- A uniform 64-bit word. -/
  word : σ → UInt64 × σ
  /-- A number below the bound, or zero when the bound is zero. -/
  below : σ → Nat → Nat × σ
  /-- As many uniform bytes as asked for. -/
  bytes : σ → Nat → Bytes × σ
  below_lt : ∀ (s : σ) (bound : Nat), 0 < bound → (below s bound).1 < bound
  length_bytes : ∀ (s : σ) (n : Nat), (bytes s n).1.length = n

namespace RandomSource

/-- One fair bit: the lowest of a word. -/
def coin {σ : Type} [RandomSource σ] (s : σ) : Bool × σ :=
  let (w, s) := word s
  (w &&& 1 == 1, s)

end RandomSource

/-- A source together with the number of draws made from it. -/
structure Counted (σ : Type) where
  source : σ
  draws : Nat

namespace Counted

/-- Makes one draw and counts it. -/
def draw {σ α : Type} (f : σ → α × σ) (s : Counted σ) : α × Counted σ :=
  let (value, source) := f s.source
  (value, ⟨source, s.draws + 1⟩)

instance {σ : Type} [RandomSource σ] : RandomSource (Counted σ) where
  word := draw RandomSource.word
  below s bound := draw (RandomSource.below · bound) s
  bytes s n := draw (RandomSource.bytes · n) s
  below_lt s bound h := RandomSource.below_lt s.source bound h
  length_bytes s n := RandomSource.length_bytes s.source n

end Counted

end PeerCache
