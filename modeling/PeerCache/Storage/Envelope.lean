import PeerCache.Error
import PeerCache.Policy

/-!
# `PeerCache.Storage.Envelope`: stored bytes with a magic and a checksum

An envelope is the magic of a network, lowest byte first, then the content, then
the double SHA-256 of the content. Opening one refuses bytes that are too few,
that belong to another network, or that have changed, and looks for these in that
order.
-/

set_option autoImplicit false

namespace PeerCache.Envelope

/-- The length of the magic. -/
def magicSize : Nat := 4

/-- The length of the checksum. -/
def checksumSize : Nat := 32

/-- The content with magic and checksum around it. -/
def wrap (magic : NetworkMagic) (content : Bytes) : Bytes :=
  Bytes.little magicSize magic.value.toNat ++ content ++ Sha256.twice content

/-- The content of an envelope. -/
def unwrap (magic : NetworkMagic) (data : Bytes) : Except StorageError Bytes :=
  if data.length < magicSize + checksumSize then .error .truncated
  else
    let found := UInt32.ofNat (Bytes.ofLittle (data.take magicSize))
    if found ≠ magic.value then .error (.badMagic magic.value found)
    else
      let rest := data.drop magicSize
      let content := rest.take (rest.length - checksumSize)
      if Sha256.twice content ≠ rest.drop (rest.length - checksumSize) then
        .error .checksumMismatch
      else .ok content

end PeerCache.Envelope
