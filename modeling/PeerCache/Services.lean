/-!
# `PeerCache.Services`: what a peer says it offers

A peer advertises its services as a set of bits. Announcements about one host
are merged by union, so a bit once learned is never lost.
-/

set_option autoImplicit false

namespace PeerCache

/-- A set of advertised services, one bit each. -/
structure Services where
  bits : UInt64
deriving DecidableEq

namespace Services

/-- Nothing advertised. -/
def none : Services := ⟨0⟩

/-- A full node that serves the complete chain. -/
def network : Services := ⟨1⟩

/-- A node that serves compact block filters. -/
def compactFilters : Services := ⟨64⟩

instance : Inhabited Services := ⟨none⟩

/-- The services in either set. -/
def union (a b : Services) : Services := ⟨a.bits ||| b.bits⟩

/-- Whether every service of `b` is also in `a`. -/
def contains (a b : Services) : Bool := a.bits &&& b.bits == b.bits

@[simp] theorem bits_union (a b : Services) : (a.union b).bits = a.bits ||| b.bits := rfl

@[simp] theorem none_union (a : Services) : none.union a = a :=
  congrArg mk UInt64.zero_or

end Services

end PeerCache
