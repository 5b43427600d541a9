import PeerCache.Net.Ip

/-!
# `PeerCache.Net.Routing`: which addresses the public internet can reach

An address is routable unless it lies in one of a fixed list of blocks: ranges
that mean "here" or "everyone", private networks, and ranges set aside for
documentation and benchmarks. The lists below are those blocks, each given by
its first address and the number of leading bits that all its members share.

An embedded IPv4 address is judged as the IPv4 address it embeds.
-/

set_option autoImplicit false

namespace PeerCache

namespace Ipv4

/-- The address as a number of 32 bits. -/
def toNat (ip : Ipv4) : Nat :=
  ((ip.a.toNat * 256 + ip.b.toNat) * 256 + ip.c.toNat) * 256 + ip.d.toNat

/-- Whether the address agrees with `base` in the first `bits` bits. -/
def within (ip base : Ipv4) (bits : Nat) : Bool :=
  ip.toNat >>> (32 - bits) == base.toNat >>> (32 - bits)

/-- The blocks that the public internet does not route. -/
def reserved : List (Ipv4 × Nat) :=
  [(⟨0, 0, 0, 0⟩, 8),          -- this network
   (⟨10, 0, 0, 0⟩, 8),         -- private
   (⟨127, 0, 0, 0⟩, 8),        -- loopback
   (⟨169, 254, 0, 0⟩, 16),     -- link local
   (⟨172, 16, 0, 0⟩, 12),      -- private
   (⟨192, 0, 2, 0⟩, 24),       -- documentation
   (⟨192, 168, 0, 0⟩, 16),     -- private
   (⟨198, 18, 0, 0⟩, 15),      -- benchmarks
   (⟨198, 51, 100, 0⟩, 24),    -- documentation
   (⟨203, 0, 113, 0⟩, 24),     -- documentation
   (⟨224, 0, 0, 0⟩, 4),        -- multicast
   (⟨255, 255, 255, 255⟩, 32)] -- broadcast

/-- Whether the address lies outside every reserved block. -/
def isRoutable (ip : Ipv4) : Bool :=
  reserved.all fun (base, bits) => !ip.within base bits

/-- Whether the address lies in `127.0.0.0/8`. -/
def isLoopback (ip : Ipv4) : Bool := ip.within ⟨127, 0, 0, 0⟩ 8

end Ipv4

namespace Ipv6

/-- The address as a number of 128 bits. -/
def toNat (ip : Ipv6) : Nat := ip.words.foldl (fun n w => n * 65536 + w.toNat) 0

/-- Whether the address agrees with `base` in the first `bits` bits. -/
def within (ip base : Ipv6) (bits : Nat) : Bool :=
  ip.toNat >>> (128 - bits) == base.toNat >>> (128 - bits)

/-- The blocks that the public internet does not route. -/
def reserved : List (Ipv6 × Nat) :=
  [(⟨0, 0, 0, 0, 0, 0, 0, 0⟩, 128),        -- unspecified
   (⟨0, 0, 0, 0, 0, 0, 0, 1⟩, 128),        -- loopback
   (⟨0x2001, 0x10, 0, 0, 0, 0, 0, 0⟩, 28), -- overlay identifiers
   (⟨0x2001, 0xdb8, 0, 0, 0, 0, 0, 0⟩, 32), -- documentation
   (⟨0xfc00, 0, 0, 0, 0, 0, 0, 0⟩, 7),     -- unique local
   (⟨0xfe80, 0, 0, 0, 0, 0, 0, 0⟩, 10),    -- link local
   (⟨0xff00, 0, 0, 0, 0, 0, 0, 0⟩, 8)]     -- multicast

/-- Whether the address lies outside every reserved block. -/
def isRoutable (ip : Ipv6) : Bool :=
  reserved.all fun (base, bits) => !ip.within base bits

/-- Whether the address is `::1`. -/
def isLoopback (ip : Ipv6) : Bool := ip.within ⟨0, 0, 0, 0, 0, 0, 0, 1⟩ 128

end Ipv6

namespace Ip

/-- Whether the public internet can reach the address, in either notation. -/
def isRoutable (ip : Ip) : Bool :=
  match ip.canonical with
  | .v4 ip => ip.isRoutable
  | .v6 ip => ip.isRoutable

/-- Whether the address means the same host, in either notation. -/
def isLoopback (ip : Ip) : Bool :=
  match ip.canonical with
  | .v4 ip => ip.isLoopback
  | .v6 ip => ip.isLoopback

@[simp] theorem isRoutable_canonical (ip : Ip) : ip.canonical.isRoutable = ip.isRoutable := by
  simp [isRoutable]

@[simp] theorem isLoopback_canonical (ip : Ip) : ip.canonical.isLoopback = ip.isLoopback := by
  simp [isLoopback]

end Ip

end PeerCache
