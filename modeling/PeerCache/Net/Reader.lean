import PeerCache.Net.Endpoint
import PeerCache.Text.Reader

/-!
# `PeerCache.Net.Reader`: addresses and endpoints from text

A text is accepted only as a whole.

* An IPv4 address is four decimal numbers up to 255 with dots between them. A
  number has at most three digits and no leading zero.
* An IPv6 address is eight groups of one to four hexadecimal digits with colons
  between them. One run of groups may be written `::`, which stands for at least
  one zero group. The last two groups may be written as an IPv4 address, but not
  in front of the `::`.
* An endpoint is `a.b.c.d:port` or `[ip]:port`, where the bracket may end in a
  scope `%n`. Port and scope are decimal and may have leading zeros.
-/

set_option autoImplicit false

namespace PeerCache.Net

open PeerCache.Text (Reader)
open PeerCache.Text.Reader (digits exactly ofDigits number)

/-- A decimal number up to 255, written without leading zeros. -/
def readOctet : Reader UInt8 := do
  let ds ← digits 10
  let n := ofDigits 10 ds
  if ds.length ≤ 3 ∧ (ds.length = 1 ∨ ds.head? ≠ some '0') ∧ n < 256 then return UInt8.ofNat n
  else failure

/-- Four octets with dots between them. -/
def readIpv4 : Reader Ipv4 := do
  let a ← readOctet
  exactly '.'
  let b ← readOctet
  exactly '.'
  let c ← readOctet
  exactly '.'
  let d ← readOctet
  return ⟨a, b, c, d⟩

/-- One to four hexadecimal digits. -/
def readGroup : Reader UInt16 := do
  let ds ← digits 16
  if ds.length ≤ 4 then return UInt16.ofNat (ofDigits 16 ds) else failure

/-- As many groups as the text has, up to `left`. A colon goes before each group
but the first. Where two groups are still allowed an IPv4 address may take their
place, and ends the list. Returns the groups and whether an IPv4 address ended
them. -/
def readGroups : (left : Nat) → (first : Bool) → Reader (List UInt16 × Bool)
  | 0, _ => return ([], false)
  | left + 1, first =>
    let separator : Reader Unit := if first then return () else exactly ':'
    let dotted : Reader (List UInt16 × Bool) := do
      if left = 0 then failure
      separator
      let ip ← readIpv4
      return ([Bytes.ofBig16 ip.a ip.b, Bytes.ofBig16 ip.c ip.d], true)
    let plain : Reader (List UInt16 × Bool) := do
      separator
      let g ← readGroup
      let (gs, ended) ← readGroups left false
      return (g :: gs, ended)
    dotted <|> plain <|> return ([], false)

/-- Eight groups, or fewer around one `::`. -/
def readIpv6 : Reader Ipv6 := do
  let (head, ended) ← readGroups 8 true
  if head.length = 8 then
    return ← (Ipv6.ofWords? head : Option Ipv6)
  if ended then failure
  exactly ':'
  exactly ':'
  let (tail, _) ← readGroups (7 - head.length) true
  let zeros := List.replicate (8 - head.length - tail.length) 0
  return ← (Ipv6.ofWords? (head ++ zeros ++ tail) : Option Ipv6)

/-- A colon and a port. -/
def readPort : Reader UInt16 := do
  exactly ':'
  return UInt16.ofNat (← number 10 65536)

/-- An optional `%` and scope, zero when absent. -/
def readScope : Reader UInt32 := do
  let scope ← optional (exactly '%' *> number 10 4294967296)
  return UInt32.ofNat (scope.getD 0)

/-- `a.b.c.d:port`. -/
def readEndpoint4 : Reader Endpoint := do
  let ip ← readIpv4
  return .v4 ip (← readPort)

/-- `[ip]:port` or `[ip%scope]:port`. -/
def readEndpoint6 : Reader Endpoint := do
  exactly '['
  let ip ← readIpv6
  let scope ← readScope
  exactly ']'
  return .v6 ip (← readPort) 0 scope

end PeerCache.Net

namespace PeerCache

/-- The address that a text denotes. -/
def Ip.ofText? (text : String) : Option Ip :=
  (Net.readIpv4.whole text.toList).map .v4 <|> (Net.readIpv6.whole text.toList).map .v6

/-- The endpoint that a text denotes. -/
def Endpoint.ofText? (text : String) : Option Endpoint :=
  Net.readEndpoint4.whole text.toList <|> Net.readEndpoint6.whole text.toList

/-- Why a text denotes no address or endpoint. -/
inductive AddressTextError where
  | ip
  | endpoint
deriving DecidableEq

/-- The wording of the error. -/
def AddressTextError.message : AddressTextError → String
  | .ip => "invalid IP address syntax"
  | .endpoint => "invalid socket address syntax"

end PeerCache
