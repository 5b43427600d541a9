import PeerCache.Net.Endpoint
import PeerCache.Net.Group
import PeerCache.Text.Hex

/-!
# `PeerCache.Net.Printer`: addresses and endpoints as text

IPv6 addresses are printed in their recommended form: lower-case groups without
leading zeros, and the longest run of at least two zero groups (the first of
several) as `::`. An embedded IPv4 address keeps its dots.
-/

set_option autoImplicit false

namespace PeerCache

namespace Ipv4

/-- Four decimal numbers with dots between them. -/
def toText (ip : Ipv4) : String :=
  ".".intercalate [toString ip.a.toNat, toString ip.b.toNat, toString ip.c.toNat,
    toString ip.d.toNat]

end Ipv4

namespace Ipv6

/-- Groups with colons between them. -/
def groupsText (groups : List UInt16) : String :=
  ":".intercalate (groups.map fun g => Hex.ofNat g.toNat)

/-- Where the longest run of zero groups starts, and its length. Of several
longest runs the first counts. -/
def longestZeros (groups : List UInt16) : Nat × Nat :=
  (List.range groups.length).foldl (fun best start =>
    let run := ((groups.drop start).takeWhile (· == 0)).length
    if best.2 < run then (start, run) else best) (0, 0)

/-- The recommended text of the address. -/
def toText (ip : Ipv6) : String :=
  match ip.embedded? with
  | some small => "::ffff:" ++ small.toText
  | none =>
    let (start, run) := longestZeros ip.words
    if 1 < run then
      groupsText (ip.words.take start) ++ "::" ++ groupsText (ip.words.drop (start + run))
    else groupsText ip.words

end Ipv6

/-- The text of an address, as it is written and not as its canonical form. -/
def Ip.toText : Ip → String
  | .v4 ip => ip.toText
  | .v6 ip => ip.toText

/-- The text of an endpoint. A scope of zero and the flow label are not shown. -/
def Endpoint.toText : Endpoint → String
  | .v4 ip port => ip.toText ++ ":" ++ toString port.toNat
  | .v6 ip port _ scope =>
    let scope := if scope == 0 then "" else "%" ++ toString scope.toNat
    "[" ++ ip.toText ++ scope ++ "]:" ++ toString port.toNat

/-- The key bytes of a group, shown for diagnosis. -/
def Group.describe (g : Group) : String :=
  "NetGroup([" ++ ", ".intercalate (g.key.map Hex.ofByte) ++ "])"

end PeerCache
