import PeerCache.Net.Printer
import PeerCache.Placement
import PeerCache.Record
import PeerCache.Text.Hex

/-!
# `PeerCache.Error`: what can go wrong

Three kinds of failure are kept apart.

* A `Violation` is a structural rule that a cache breaks.
* A `StorageError` is a reason why stored bytes could not be used. Loading
  reports it, and the cache goes on empty.
* A `Fault` is a step that must never be reached: a broken assumption inside an
  operation, upon which the operation stops.
-/

set_option autoImplicit false

namespace PeerCache

/-- A structural rule that a cache breaks. -/
inductive Violation where
  | orderLength (length new tried : Nat)
  | tableCounts (new tried foundNew foundTried : Nat)
  | triedWithReferences (id : RecordId)
  | orphan (id : RecordId)
  | tooManyReferences (id : RecordId) (refs max : Nat)
  | addressIndex (id : RecordId)
  | orderIndex (id : RecordId)
  | danglingSlot (id : RecordId) (bucket position : Nat)
  | misplaced (id : RecordId) (table : TableKind) (bucket position : Nat)
  | referenceCount (id : RecordId) (expected found : Nat)
deriving DecidableEq

/-- The wording of a violation. -/
def Violation.message : Violation → String
  | .orderLength length new tried =>
    "random order holds " ++ toString length ++ " ids but new=" ++ toString new ++
      " tried=" ++ toString tried
  | .tableCounts new tried foundNew foundTried =>
    "table counters new=" ++ toString new ++ " tried=" ++ toString tried ++
      " disagree with records (" ++ toString foundNew ++ "/" ++ toString foundTried ++ ")"
  | .triedWithReferences id =>
    "record " ++ id.describe ++ " is in tried but still has new-table references"
  | .orphan id => "record " ++ id.describe ++ " is in neither table"
  | .tooManyReferences id refs max =>
    "record " ++ id.describe ++ " has " ++ toString refs ++ " references (max " ++
      toString max ++ ")"
  | .addressIndex id => "address index does not point at record " ++ id.describe
  | .orderIndex id => "random order does not point at record " ++ id.describe
  | .danglingSlot id bucket position =>
    "grid slot (" ++ toString bucket ++ ", " ++ toString position ++
      ") references missing record " ++ id.describe
  | .misplaced id table bucket position =>
    "record " ++ id.describe ++ " sits in the wrong " ++ table.name ++ " slot (" ++
      toString bucket ++ ", " ++ toString position ++ ")"
  | .referenceCount id expected found =>
    "record " ++ id.describe ++ " counts " ++ toString expected ++
      " references but the new grid holds " ++ toString found

/-- A reason why stored bytes could not be used. -/
inductive StorageError where
  | badMagic (expected found : UInt32)
  | checksumMismatch
  | unsupportedKeySize (size : UInt8)
  | tableTooLarge (new tried : UInt32)
  | duplicateAddress (ip : Ip)
  | truncated
  | codec (reason : String)
  | corrupted (violation : Violation)
  /-- The file itself could not be read or written. -/
  | unreadable
deriving DecidableEq

/-- The wording of a storage error. -/
def StorageError.message : StorageError → String
  | .badMagic expected found =>
    "network magic mismatch: expected 0x" ++ Hex.padded 8 expected.toNat ++ ", found 0x" ++
      Hex.padded 8 found.toNat
  | .checksumMismatch => "peers file checksum mismatch"
  | .unsupportedKeySize size =>
    "unsupported key size " ++ toString size.toNat ++ " (expected " ++ toString keySize ++ ")"
  | .tableTooLarge new tried =>
    "table counts exceed capacity: new=" ++ toString new.toNat ++ " tried=" ++
      toString tried.toNat
  | .duplicateAddress ip => "duplicate address " ++ ip.toText ++ " in serialized cache"
  | .truncated => "serialized data truncated"
  | .codec reason => "codec error: " ++ reason
  | .corrupted violation => "address cache corrupted: " ++ violation.message
  | .unreadable => "I/O error"

/-- Why a decoder of stored bytes gave up. -/
inductive DecodeFailure where
  | endOfInput
  | other (reason : String)
deriving DecidableEq

/-- A decoder that runs out of bytes has met a truncated file. -/
def StorageError.ofDecodeFailure : DecodeFailure → StorageError
  | .endOfInput => .truncated
  | .other reason => .codec reason

/-- A step that must never be reached. -/
inductive Fault where
  /-- A place outside the sampling order. -/
  | orderIndex
  /-- A counter that would fall below zero. -/
  | counter
  /-- A record removed while it still holds a slot. -/
  | stillPlaced (id : RecordId)
  /-- A promoted record that holds more references than were found. -/
  | strayReferences (id : RecordId)
  /-- A round of discovery with more permits than can be counted. -/
  | permits
  /-- A change after which the cache breaks a structural rule. -/
  | inconsistent (violation : Violation)
deriving DecidableEq

end PeerCache
