/-!
# `PeerCache.Weight`: the arithmetic of acceptance

Whether a candidate is accepted depends on a product of fractions. The program
computes it with machine floats. The class below names the operations used, so
the same definitions can also be read with exact rational numbers.
-/

set_option autoImplicit false

namespace PeerCache

/-- Numbers that acceptance can be computed with. -/
class Weight (w : Type) extends Mul w, OfScientific w, NatCast w, LT w where
  decLt : DecidableLT w

namespace Weight

variable {w : Type} [Weight w]

instance : DecidableLT w := decLt

/-- Machine floats. -/
instance : Weight Float where
  natCast := Float.ofNat
  decLt := fun a b => inferInstanceAs (Decidable (a < b))

/-- Exact fractions. -/
instance : Weight Rat where
  decLt := fun a b => inferInstanceAs (Decidable (a < b))

/-- `result` times the `n`th power of `base`, by repeated squaring. -/
def timesPow (result base : w) (n : Nat) : w :=
  if n = 0 then result
  else
    timesPow (if n % 2 = 1 then result * base else result) (base * base) (n / 2)
termination_by n

end Weight

end PeerCache
