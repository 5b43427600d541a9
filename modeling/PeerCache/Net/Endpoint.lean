import PeerCache.Net.Ip

/-!
# `PeerCache.Net.Endpoint`: where a peer can be dialled

An endpoint is an address with a port. An IPv6 endpoint may also carry a flow
label and a scope. Neither belongs to the host, so the canonical form drops both
along with the embedded notation.
-/

set_option autoImplicit false

namespace PeerCache

/-- An address and port to dial. -/
inductive Endpoint where
  | v4 (ip : Ipv4) (port : UInt16)
  | v6 (ip : Ipv6) (port : UInt16) (flow scope : UInt32)
deriving DecidableEq

namespace Endpoint

/-- The endpoint of `ip` at `port`, with neither flow label nor scope. -/
def ofIp : Ip → UInt16 → Endpoint
  | .v4 ip, port => .v4 ip port
  | .v6 ip, port => .v6 ip port 0 0

/-- The address of the endpoint. -/
def ip : Endpoint → Ip
  | .v4 ip _ => .v4 ip
  | .v6 ip _ _ _ => .v6 ip

/-- The port of the endpoint. -/
def port : Endpoint → UInt16
  | .v4 _ port => port
  | .v6 _ port _ _ => port

/-- The endpoint in the notation used for bookkeeping. -/
def canonical (e : Endpoint) : Endpoint := ofIp e.ip.canonical e.port

instance : Inhabited Endpoint := ⟨ofIp default 0⟩

@[simp] theorem ip_ofIp (ip : Ip) (port : UInt16) : (ofIp ip port).ip = ip := by
  cases ip <;> rfl

@[simp] theorem port_ofIp (ip : Ip) (port : UInt16) : (ofIp ip port).port = port := by
  cases ip <;> rfl

@[simp] theorem ip_canonical (e : Endpoint) : e.canonical.ip = e.ip.canonical := by
  simp [canonical]

@[simp] theorem port_canonical (e : Endpoint) : e.canonical.port = e.port := by
  simp [canonical]

@[simp] theorem canonical_canonical (e : Endpoint) : e.canonical.canonical = e.canonical := by
  simp [canonical]

end Endpoint

end PeerCache
