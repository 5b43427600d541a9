import PeerCache.Cache.Basic
import PeerCache.Decoder

/-!
# `PeerCache.Cache.Stored`: one record on disk

A stored record keeps what cannot be computed again: the announcement, the
source and the history. Its number, its slots and its place in the sampling
order are not stored. A time of zero stands for "never".
-/

set_option autoImplicit false

namespace PeerCache

/-- A record as it is stored. -/
structure StoredRecord where
  ip : Ip
  port : UInt16
  services : UInt64
  seen : UInt64
  version : UInt32
  source : Ip
  lastSuccess : UInt64
  lastTry : UInt64
  attempts : UInt32

namespace StoredRecord

/-- The stored form of a time that may be missing. -/
def ofTime? (t : Option Timestamp) : UInt64 := UInt64.ofNat ((t.map Timestamp.secs).getD 0)

/-- The time with that stored form. -/
def toTime? (secs : UInt64) : Option Timestamp :=
  if secs = 0 then none else some (.ofSecs secs.toNat)

/-- What is stored of a record. -/
def ofRecord (r : Record) : StoredRecord where
  ip := r.ip.canonical
  port := r.endpoint.port
  services := r.peer.services.bits
  seen := UInt64.ofNat r.peer.seen.secs
  version := r.peer.version
  source := r.source.canonical
  lastSuccess := ofTime? r.lastSuccess
  lastTry := ofTime? r.lastTry
  attempts := r.attempts

/-- The endpoint of a stored record. -/
def endpoint (s : StoredRecord) : Endpoint := .ofIp s.ip s.port

/-- The record that was stored, holding no slot yet. -/
def toRecord (s : StoredRecord) (orderIndex : Nat) : Record where
  peer := ⟨s.endpoint, ⟨s.services⟩, .ofSecs s.seen.toNat, s.version⟩
  source := s.source
  lastSuccess := toTime? s.lastSuccess
  lastTry := toTime? s.lastTry
  attempts := s.attempts
  inTried := false
  refs := 0
  orderIndex := orderIndex

/-- The bytes of a stored record. -/
def toBytes (s : StoredRecord) : Bytes :=
  s.ip.toBytes ++ Bytes.little 2 s.port.toNat ++ Bytes.little 8 s.services.toNat ++
    Bytes.little 8 s.seen.toNat ++ Bytes.little 4 s.version.toNat ++ s.source.toBytes ++
    Bytes.little 8 s.lastSuccess.toNat ++ Bytes.little 8 s.lastTry.toNat ++
    Bytes.little 4 s.attempts.toNat

/-- Sixteen bytes as a canonical address. -/
def decodeIp : Decoder Ip := do
  match Ip.ofBytes? (← Decoder.take 16) with
  | some ip => return ip
  | none => throw (.ofDecodeFailure .endOfInput)

/-- Reads a stored record. -/
def decode : Decoder StoredRecord := do
  let ip ← decodeIp
  let port := UInt16.ofNat (← Decoder.little 2)
  let services := UInt64.ofNat (← Decoder.little 8)
  let seen := UInt64.ofNat (← Decoder.little 8)
  let version := UInt32.ofNat (← Decoder.little 4)
  let source ← decodeIp
  let lastSuccess := UInt64.ofNat (← Decoder.little 8)
  let lastTry := UInt64.ofNat (← Decoder.little 8)
  let attempts := UInt32.ofNat (← Decoder.little 4)
  return { ip, port, services, seen, version, source, lastSuccess, lastTry, attempts }

end StoredRecord

end PeerCache
