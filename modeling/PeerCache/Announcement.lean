import PeerCache.Net.Endpoint
import PeerCache.Services
import PeerCache.Timestamp

/-!
# `PeerCache.Announcement`: an endpoint as gossip describes it

A peer that relays an endpoint also relays what it knows about it: the services
on offer, the time it was last seen, and its protocol version. The last-seen
time is a claim until the endpoint has been dialled.
-/

set_option autoImplicit false

namespace PeerCache

/-- An endpoint and the metadata that travels with it. -/
structure Announcement where
  endpoint : Endpoint
  services : Services
  /-- When the peer was last seen, zero when nobody knows. -/
  seen : Timestamp
  version : UInt32
deriving DecidableEq

namespace Announcement

/-- An endpoint of which only the last-seen time is known. -/
def ofEndpoint (endpoint : Endpoint) (seen : Timestamp) : Announcement :=
  ⟨endpoint, .none, seen, 0⟩

/-- The address announced. -/
def ip (a : Announcement) : Ip := a.endpoint.ip

/-- The announcement with its endpoint in canonical notation. -/
def canonical (a : Announcement) : Announcement := { a with endpoint := a.endpoint.canonical }

@[simp] theorem ip_canonical (a : Announcement) : a.canonical.ip = a.ip.canonical := by
  simp [canonical, ip]

@[simp] theorem canonical_canonical (a : Announcement) :
    a.canonical.canonical = a.canonical := by
  simp [canonical]

end Announcement

end PeerCache
