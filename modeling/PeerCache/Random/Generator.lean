import PeerCache.Random.ChaCha
import PeerCache.Random.SplitMix

/-!
# `PeerCache.Random.Generator`: a generator chosen while the program runs
-/

set_option autoImplicit false

namespace PeerCache

/-- A generator of either kind. -/
inductive Generator where
  | splitMix (state : SplitMix)
  | chaCha (state : ChaChaStream)

namespace Generator

/-- Draws from whichever generator it is. -/
@[inline] def draw {α : Type} (ofSplitMix : SplitMix → α × SplitMix)
    (ofChaCha : ChaChaStream → α × ChaChaStream) : Generator → α × Generator
  | .splitMix s => let (value, s) := ofSplitMix s; (value, .splitMix s)
  | .chaCha s => let (value, s) := ofChaCha s; (value, .chaCha s)

instance : RandomSource Generator where
  word := draw RandomSource.word RandomSource.word
  below g bound := draw (RandomSource.below · bound) (RandomSource.below · bound) g
  bytes g n := draw (RandomSource.bytes · n) (RandomSource.bytes · n) g
  below_lt g bound h := by
    cases g with
    | splitMix s => exact RandomSource.below_lt s bound h
    | chaCha s => exact RandomSource.below_lt s bound h
  length_bytes g n := by
    cases g with
    | splitMix s => exact RandomSource.length_bytes s n
    | chaCha s => exact RandomSource.length_bytes s n

end Generator

end PeerCache
