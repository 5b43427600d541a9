/-!
# `PeerCache.Policy`: what a cache admits and which network it serves

A network is told apart by a magic number of 32 bits, which also opens the peers
file. Well-known networks have names. Names are matched without regard to the
case of ASCII letters.
-/

set_option autoImplicit false

namespace PeerCache

/-- The number that identifies a network. -/
structure NetworkMagic where
  value : UInt32
deriving DecidableEq

namespace NetworkMagic

/-- The production network. -/
def mainnet : NetworkMagic := ⟨0xd9b4bef9⟩

/-- The public test network. -/
def testnet : NetworkMagic := ⟨0x0709110b⟩

/-- A private network for regression tests. -/
def regtest : NetworkMagic := ⟨0xdab5bffa⟩

/-- The names of the well-known networks. -/
def names : List (String × NetworkMagic) :=
  [("mainnet", mainnet), ("main", mainnet), ("testnet", testnet), ("test", testnet),
   ("regtest", regtest)]

/-- An upper-case ASCII letter in lower case, any other character as it is. -/
def foldCase (c : Char) : Char := if 'A' ≤ c ∧ c ≤ 'Z' then Char.ofNat (c.toNat + 32) else c

/-- The network of that name. -/
def ofName? (name : String) : Option NetworkMagic :=
  names.lookup (name.map foldCase)

end NetworkMagic

/-- The rules that a cache runs under. -/
structure Policy where
  /-- Admit addresses that the public internet does not route. -/
  allowUnroutable : Bool
  /-- Check every structural rule after each change. -/
  audits : Bool
  /-- The network that the cache serves. -/
  magic : NetworkMagic
deriving DecidableEq

namespace Policy

/-- Public addresses of the production network, with every change checked. -/
def standard : Policy := ⟨false, true, .mainnet⟩

/-- Any address of the private network, with every change checked. -/
def testing : Policy := ⟨true, true, .regtest⟩

instance : Inhabited Policy := ⟨standard⟩

/-- The rules, shown for diagnosis. -/
def describe (p : Policy) : String :=
  "AddrManConfig \x7b allow_non_routable: " ++ toString p.allowUnroutable ++
  ", consistency_checks: " ++ toString p.audits ++
  ", network_magic: NetworkMagic(" ++ toString p.magic.value.toNat ++ ") \x7d"

end Policy

end PeerCache
