import PeerCache.Net.Routing

/-!
# `PeerCache.Net.Group`: the coarse neighbourhood of an address

Whoever owns one address often owns its neighbours. Addresses are therefore
grouped, and limits are set per group: routable IPv4 addresses by their first 16
bits, routable IPv6 addresses by their first 32. All loopback addresses make one
group and all other unroutable addresses another, so a private range cannot fan
out over many groups.

A group is fed to the placement hash as a short key: a tag byte, then the bytes
that the members share.

* `Group.key_injective`: the key determines the group.
-/

set_option autoImplicit false

namespace PeerCache

/-- The neighbourhood of an address. -/
inductive Group where
  /-- Addresses that the public internet does not route, loopback apart. -/
  | unroutable
  /-- Routable IPv4 addresses with these first two bytes. -/
  | v4 (a b : UInt8)
  /-- Routable IPv6 addresses with these first two words. -/
  | v6 (w0 w1 : UInt16)
  /-- The host itself. -/
  | loopback
deriving DecidableEq

namespace Group

/-- The group of an address, the same for both notations of a host. -/
def ofIp (ip : Ip) : Group :=
  if ip.isLoopback then .loopback
  else if !ip.isRoutable then .unroutable
  else match ip.canonical with
    | .v4 ip => .v4 ip.a ip.b
    | .v6 ip => .v6 ip.w0 ip.w1

/-- The bytes that stand for the group in the placement hash. -/
def key : Group → Bytes
  | .unroutable => [0]
  | .v4 a b => [1, a, b]
  | .v6 w0 w1 => 2 :: Bytes.big16 w0 ++ Bytes.big16 w1
  | .loopback => [255]

@[simp] theorem ofIp_canonical (ip : Ip) : ofIp ip.canonical = ofIp ip := by
  simp [ofIp]

theorem length_key_le (g : Group) : g.key.length ≤ 5 := by
  cases g <;> simp [key]

theorem key_injective {g h : Group} (same : g.key = h.key) : g = h := by
  cases g <;> cases h <;> simp_all [key, Bytes.big16]
  rename_i w0 w1 v0 v1
  obtain ⟨h0, l0, h1, l1⟩ := same
  exact ⟨by rw [← Bytes.ofBig16_big16 w0, h0, l0, Bytes.ofBig16_big16],
    by rw [← Bytes.ofBig16_big16 w1, h1, l1, Bytes.ofBig16_big16]⟩

end Group

end PeerCache
