import PeerCache.Bytes
import PeerCache.Text.Reader

/-!
# `PeerCache.Text.Hex`: hexadecimal

Numbers and bytes are written in lower case. Either case can be read.
-/

set_option autoImplicit false

namespace PeerCache.Hex

/-- The digits of a number, with no leading zero. -/
def ofNat (n : Nat) : String := String.ofList (Nat.toDigits 16 n)

/-- The digits of a number, filled up with zeros to at least `width`. -/
def padded (width n : Nat) : String :=
  let digits := Nat.toDigits 16 n
  String.ofList (List.replicate (width - digits.length) '0' ++ digits)

/-- The two digits of a byte. -/
def ofByte (b : UInt8) : String := padded 2 b.toNat

/-- The digits of bytes, two for each. -/
def ofBytes (bytes : Bytes) : String := String.join (bytes.map ofByte)

/-- Reads two digits at a time. Bytes already read are given latest first. -/
def readBytes (done : Bytes) : List Char → Option Bytes
  | [] => some done.reverse
  | [_] => none
  | high :: low :: rest =>
    match Text.Reader.digit? 16 high, Text.Reader.digit? 16 low with
    | some h, some l => readBytes (UInt8.ofNat (16 * h + l) :: done) rest
    | _, _ => none

/-- The bytes that digits denote, two for each. -/
def toBytes? (text : String) : Option Bytes := readBytes [] text.toList

end PeerCache.Hex
