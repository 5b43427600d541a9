import PeerCache.Hash.Sha256
import PeerCache.Net.Endpoint
import PeerCache.Net.Group

/-!
# `PeerCache.Placement`: which slot an endpoint may take

The cache keeps two tables. Endpoints known from gossip go into the *new* table,
endpoints that have been reached into the *tried* table. A keyed hash fixes the
slot: without the key nobody can aim an endpoint at a chosen slot, and with it
every slot can be computed again.

Two limits come from hashing in two stages. The first stage is reduced to a small
number before it enters the second, so all endpoints that one group of informants
relays share 64 new buckets, and all endpoints of one group share 8 tried
buckets.

The byte strings that are hashed are definitions of their own. A field of
variable length is written with its length in front, and the slot hash carries a
tag for the table.

* `Placement.newBucket_eq`: the new bucket depends on the announced endpoint only
  through a number below 64.
* `Placement.triedBucket_eq`: likewise for the tried bucket, below 8.
-/

set_option autoImplicit false

namespace PeerCache

/-- Buckets of the new table. -/
abbrev newBucketCount : Nat := 1024

/-- Buckets of the tried table. -/
abbrev triedBucketCount : Nat := 256

/-- Slots in a bucket of either table. -/
abbrev bucketSize : Nat := 64

/-- New buckets that the endpoints relayed by one group can reach. -/
def newBucketsPerSourceGroup : Nat := 64

/-- Tried buckets that the endpoints of one group can reach. -/
def triedBucketsPerGroup : Nat := 8

/-- The length of a placement key in bytes. -/
def keySize : Nat := 32

/-- The secret that decides every slot of a cache. -/
structure PlacementKey where
  bytes : Bytes
  length_bytes : bytes.length = keySize
deriving DecidableEq

namespace PlacementKey

/-- The key with the given bytes, if there are as many as a key has. -/
def ofBytes? (bytes : Bytes) : Option PlacementKey :=
  if h : bytes.length = keySize then some ⟨bytes, h⟩ else none

instance : Inhabited PlacementKey := ⟨⟨List.replicate keySize 0, List.length_replicate⟩⟩

/-- A key is never shown. -/
def describe (_ : PlacementKey) : String := "SecretKey(..)"

end PlacementKey

/-- The two tables of a cache. -/
inductive TableKind where
  /-- Endpoints known from gossip only. -/
  | new
  /-- Endpoints that have been reached. -/
  | tried
deriving DecidableEq

namespace TableKind

/-- The byte that tells the tables apart in the slot hash. -/
def tag : TableKind → UInt8
  | .new => 0x4e
  | .tried => 0x4b

/-- The name of the table. -/
def name : TableKind → String
  | .new => "new"
  | .tried => "tried"

end TableKind

namespace Placement

/-- A field with its length in front. -/
def field (bytes : Bytes) : Bytes := UInt8.ofNat bytes.length :: bytes

/-- The bytes that stand for an endpoint: its address, then its port, highest byte first. -/
def endpointKey (e : Endpoint) : Bytes := e.ip.toBytes ++ Bytes.big16 e.port

/-- First stage of the new bucket: who is announced, and by whom. -/
def newFirst (key : PlacementKey) (group source : Group) : Bytes :=
  key.bytes ++ field group.key ++ field source.key

/-- First stage of the tried bucket. -/
def triedFirst (key : PlacementKey) (e : Endpoint) : Bytes := key.bytes ++ field (endpointKey e)

/-- Second stage of either bucket: a group and the reduced first stage. -/
def second (key : PlacementKey) (group : Group) (reduced : Nat) : Bytes :=
  key.bytes ++ field group.key ++ Bytes.little 8 reduced

/-- The slot inside a bucket. -/
def slotInput (key : PlacementKey) (table : TableKind) (bucket : Nat) (e : Endpoint) : Bytes :=
  key.bytes ++ table.tag :: Bytes.little 4 bucket ++ field (endpointKey e)

/-- The hash of a byte string as a number: the first eight bytes, lowest first. -/
def fold (input : Bytes) : Nat := Bytes.ofLittle ((Sha256.twice input).take 8)

/-- The new bucket that a source group and a reduced first stage lead to. -/
def newBucketOf (key : PlacementKey) (source : Group) (reduced : Nat) : Fin newBucketCount :=
  Fin.ofNat newBucketCount (fold (second key source reduced))

/-- The tried bucket that a group and a reduced first stage lead to. -/
def triedBucketOf (key : PlacementKey) (group : Group) (reduced : Nat) : Fin triedBucketCount :=
  Fin.ofNat triedBucketCount (fold (second key group reduced))

/-- The new bucket for `e` when `source` announces it. -/
def newBucket (key : PlacementKey) (e : Endpoint) (source : Ip) : Fin newBucketCount :=
  let first := fold (newFirst key (Group.ofIp e.ip) (Group.ofIp source))
  newBucketOf key (Group.ofIp source) (first % newBucketsPerSourceGroup)

/-- The tried bucket for `e`. -/
def triedBucket (key : PlacementKey) (e : Endpoint) : Fin triedBucketCount :=
  let first := fold (triedFirst key e)
  triedBucketOf key (Group.ofIp e.ip) (first % triedBucketsPerGroup)

/-- The slot for `e` inside a bucket. Only the bucket's lowest 32 bits count. -/
def slot (key : PlacementKey) (table : TableKind) (bucket : Nat) (e : Endpoint) : Fin bucketSize :=
  Fin.ofNat bucketSize (fold (slotInput key table bucket e))

@[simp] theorem endpointKey_canonical (e : Endpoint) : endpointKey e.canonical = endpointKey e := by
  simp [endpointKey]

theorem newBucket_eq (key : PlacementKey) (e : Endpoint) (source : Ip) :
    ∃ reduced < newBucketsPerSourceGroup,
      newBucket key e source = newBucketOf key (Group.ofIp source) reduced :=
  ⟨_, Nat.mod_lt _ (by decide), rfl⟩

theorem triedBucket_eq (key : PlacementKey) (e : Endpoint) :
    ∃ reduced < triedBucketsPerGroup,
      triedBucket key e = triedBucketOf key (Group.ofIp e.ip) reduced :=
  ⟨_, Nat.mod_lt _ (by decide), rfl⟩

@[simp] theorem newBucket_canonical (key : PlacementKey) (e : Endpoint) (source : Ip) :
    newBucket key e.canonical source.canonical = newBucket key e source := by
  simp [newBucket]

@[simp] theorem triedBucket_canonical (key : PlacementKey) (e : Endpoint) :
    triedBucket key e.canonical = triedBucket key e := by
  simp [triedBucket, triedFirst]

@[simp] theorem slot_canonical (key : PlacementKey) (table : TableKind) (bucket : Nat)
    (e : Endpoint) : slot key table bucket e.canonical = slot key table bucket e := by
  simp [slot, slotInput]

end Placement

end PeerCache
