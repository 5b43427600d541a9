import PeerCache.Bytes

/-!
# `PeerCache.Net.Ip`: addresses and their two notations

One IPv4 host can be written in two ways: as an IPv4 address and as the IPv6
address `::ffff:a.b.c.d` that embeds it. `Ip.canonical` picks the first. All
bookkeeping uses the canonical form, so a host cannot hold two places by
changing notation.

The wire form is always sixteen bytes, an IPv4 address being embedded.

* `Ip.ofWide_wide`: the canonical form can be read back from the wide one.
* `Ip.canonical_canonical`: canonical addresses are left alone.
-/

set_option autoImplicit false

namespace PeerCache

/-- An IPv4 address, written `a.b.c.d`. -/
structure Ipv4 where
  a : UInt8
  b : UInt8
  c : UInt8
  d : UInt8
deriving DecidableEq, Hashable

/-- An IPv6 address as its eight words, highest first. -/
structure Ipv6 where
  w0 : UInt16
  w1 : UInt16
  w2 : UInt16
  w3 : UInt16
  w4 : UInt16
  w5 : UInt16
  w6 : UInt16
  w7 : UInt16
deriving DecidableEq, Hashable

/-- An address of either family. -/
inductive Ip where
  | v4 (ip : Ipv4)
  | v6 (ip : Ipv6)
deriving DecidableEq, Hashable

namespace Ipv4

/-- The IPv6 address `::ffff:a.b.c.d`. -/
def embed (ip : Ipv4) : Ipv6 :=
  ⟨0, 0, 0, 0, 0, 0xffff, Bytes.ofBig16 ip.a ip.b, Bytes.ofBig16 ip.c ip.d⟩

/-- The address whose upper and lower half are the given words. -/
def ofWords (high low : UInt16) : Ipv4 :=
  ⟨UInt8.ofNat (high.toNat / 256), high.toUInt8, UInt8.ofNat (low.toNat / 256), low.toUInt8⟩

end Ipv4

namespace Ipv6

/-- The eight words in order. -/
def words (ip : Ipv6) : List UInt16 :=
  [ip.w0, ip.w1, ip.w2, ip.w3, ip.w4, ip.w5, ip.w6, ip.w7]

/-- The address with the given eight words. -/
def ofWords? : List UInt16 → Option Ipv6
  | [w0, w1, w2, w3, w4, w5, w6, w7] => some ⟨w0, w1, w2, w3, w4, w5, w6, w7⟩
  | _ => none

/-- The sixteen bytes of the address, highest first. -/
def toBytes (ip : Ipv6) : Bytes := ip.words.flatMap Bytes.big16

/-- Whether the address embeds an IPv4 address. -/
def IsEmbedded (ip : Ipv6) : Prop :=
  ip.w0 = 0 ∧ ip.w1 = 0 ∧ ip.w2 = 0 ∧ ip.w3 = 0 ∧ ip.w4 = 0 ∧ ip.w5 = 0xffff

instance (ip : Ipv6) : Decidable ip.IsEmbedded := by unfold IsEmbedded; infer_instance

/-- The IPv4 address inside `::ffff:a.b.c.d`. -/
def embedded? (ip : Ipv6) : Option Ipv4 :=
  if ip.IsEmbedded then some (Ipv4.ofWords ip.w6 ip.w7) else none

end Ipv6

namespace Ip

instance : Inhabited Ip := ⟨.v4 ⟨0, 0, 0, 0⟩⟩

instance : EquivBEq Ip := inferInstance

instance : LawfulHashable Ip := inferInstance

/-- The address in its shorter family: an embedded IPv4 address is taken out. -/
def ofWide (ip : Ipv6) : Ip :=
  match ip.embedded? with
  | some ip => .v4 ip
  | none => .v6 ip

/-- The one notation used for bookkeeping. -/
def canonical : Ip → Ip
  | .v4 ip => .v4 ip
  | .v6 ip => ofWide ip

/-- The address as IPv6, an IPv4 address being embedded. -/
def wide : Ip → Ipv6
  | .v4 ip => ip.embed
  | .v6 ip => ip

/-- The sixteen bytes that stand for the address on disk and in hashes. -/
def toBytes (ip : Ip) : Bytes := ip.wide.toBytes

/-- The canonical address with the given sixteen bytes. -/
def ofBytes? : Bytes → Option Ip
  | [b0, b1, b2, b3, b4, b5, b6, b7, b8, b9, b10, b11, b12, b13, b14, b15] =>
    some <| ofWide
      ⟨Bytes.ofBig16 b0 b1, Bytes.ofBig16 b2 b3, Bytes.ofBig16 b4 b5, Bytes.ofBig16 b6 b7,
       Bytes.ofBig16 b8 b9, Bytes.ofBig16 b10 b11, Bytes.ofBig16 b12 b13, Bytes.ofBig16 b14 b15⟩
  | _ => none

end Ip

theorem Ipv4.ofWords_ofBig16 (ip : Ipv4) :
    Ipv4.ofWords (Bytes.ofBig16 ip.a ip.b) (Bytes.ofBig16 ip.c ip.d) = ip := by
  obtain ⟨a, b, c, d⟩ := ip
  have ha : a.toNat < 256 := a.toNat_lt
  have hb : b.toNat < 256 := b.toNat_lt
  have hc : c.toNat < 256 := c.toNat_lt
  have hd : d.toNat < 256 := d.toNat_lt
  simp only [Ipv4.ofWords, Ipv4.mk.injEq]
  refine ⟨?_, ?_, ?_, ?_⟩ <;> apply UInt8.toNat.inj <;>
    simp only [Bytes.ofBig16, UInt8.toNat_ofNat', UInt16.toNat_ofNat', UInt16.toNat_toUInt8] <;>
    omega

theorem Ipv4.embedded?_embed (ip : Ipv4) : ip.embed.embedded? = some ip := by
  simp [Ipv6.embedded?, Ipv4.embed, Ipv6.IsEmbedded, Ipv4.ofWords_ofBig16]

theorem Ipv6.embed_of_embedded? {ip : Ipv6} {small : Ipv4} (h : ip.embedded? = some small) :
    small.embed = ip := by
  obtain ⟨w0, w1, w2, w3, w4, w5, w6, w7⟩ := ip
  unfold Ipv6.embedded? at h
  split at h
  · next he =>
    obtain ⟨h0, h1, h2, h3, h4, h5⟩ := he
    cases h
    simp only at h0 h1 h2 h3 h4 h5
    subst h0 h1 h2 h3 h4 h5
    simp only [Ipv4.embed, Ipv4.ofWords, Bytes.ofBig16_big16]
  · cases h

namespace Ip

theorem ofWide_wide (ip : Ip) : ofWide ip.wide = ip.canonical := by
  cases ip with
  | v4 ip => simp [wide, ofWide, canonical, Ipv4.embedded?_embed]
  | v6 ip => rfl

@[simp] theorem canonical_ofWide (ip : Ipv6) : (ofWide ip).canonical = ofWide ip := by
  unfold ofWide
  split
  · rfl
  · next h => simp [canonical, ofWide, h]

@[simp] theorem canonical_canonical (ip : Ip) : ip.canonical.canonical = ip.canonical := by
  cases ip with
  | v4 ip => rfl
  | v6 ip => exact canonical_ofWide ip

theorem wide_ofWide (ip : Ipv6) : (ofWide ip).wide = ip := by
  unfold ofWide
  split
  · next h => exact Ipv6.embed_of_embedded? h
  · rfl

theorem wide_canonical (ip : Ip) : ip.canonical.wide = ip.wide := by
  cases ip with
  | v4 ip => rfl
  | v6 ip => exact wide_ofWide ip

@[simp] theorem toBytes_canonical (ip : Ip) : ip.canonical.toBytes = ip.toBytes := by
  rw [toBytes, toBytes, wide_canonical]

@[simp] theorem length_toBytes (ip : Ip) : ip.toBytes.length = 16 := by
  simp [toBytes, Ipv6.toBytes, Ipv6.words]

theorem ofBytes?_toBytes (ip : Ip) : ofBytes? ip.toBytes = some ip.canonical := by
  rw [← ofWide_wide]
  simp [toBytes, Ipv6.toBytes, Ipv6.words, Bytes.big16, ofBytes?, Bytes.ofBig16_big16]

end Ip

end PeerCache
