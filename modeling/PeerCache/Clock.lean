import PeerCache.Timestamp

/-!
# `PeerCache.Clock`: a clock that is set by hand

The clock counts seconds in 64 bits and wraps around when it is advanced past
the end. Reading it gives a timestamp, which is held below its bound.
-/

set_option autoImplicit false

namespace PeerCache

/-- A clock that moves only when told to. -/
structure Clock where
  secs : UInt64
deriving DecidableEq

namespace Clock

/-- The time on the clock. -/
def now (c : Clock) : Timestamp := .ofSecs c.secs.toNat

/-- The clock set to a time. -/
def set (_ : Clock) (secs : UInt64) : Clock := ⟨secs⟩

/-- The clock moved ahead. -/
def advance (c : Clock) (secs : UInt64) : Clock := ⟨c.secs + secs⟩

end Clock

end PeerCache
