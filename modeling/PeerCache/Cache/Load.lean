import PeerCache.Cache.Audit
import PeerCache.Cache.Encode

/-!
# `PeerCache.Cache.Load`: the cache from bytes

Loading replaces the whole cache or empties it. There is nothing between: bytes
that cannot be used leave an empty cache under another key.

Slots are computed again from the stored key. The bucket lists count only when
the version and the number of buckets are the ones in use. Otherwise each new
record gets its primary slot, if that is still free. Records are lost where slots
collide: a new record that ends without a slot, and a tried record whose slot is
taken.

The records that end without a slot are removed one after the other. Each removal
moves another record in the sampling order, and in which order they are removed is
not known, so a load is given a `RemovalOrder`.

A record is checked against those before it as soon as it is read, so an address
that occurs twice is reported even when the bytes end soon after.
-/

set_option autoImplicit false

namespace PeerCache

/-- How many records were loaded, and how many were lost to collisions. -/
structure LoadReport where
  newCount : Nat
  triedCount : Nat
  lostNew : Nat
  lostTried : Nat
deriving DecidableEq

/-- The report of a load of nothing. -/
def LoadReport.zero : LoadReport := ⟨0, 0, 0, 0⟩

/-- An order in which records are removed. A hash map may list them in any. -/
structure RemovalOrder where
  arrange : List RecordId → List RecordId
  perm : ∀ ids, (arrange ids).Perm ids

/-- The order of the numbers, in which records are listed here. -/
def RemovalOrder.ascending : RemovalOrder := ⟨id, List.Perm.refl⟩

namespace Cache

/-- Adds a stored record that holds no slot yet. Its address must be unknown. -/
def insertStored (c : Cache) (s : StoredRecord) : Except StorageError (RecordId × Cache) :=
  if c.addresses.contains s.ip then .error (.duplicateAddress s.ip)
  else
    let id : RecordId := ⟨c.nextId⟩
    .ok (id, { c with
      nextId := c.nextId + 1
      addresses := c.addresses.insert s.ip id
      records := c.records.insert id (s.toRecord c.order.size)
      order := c.order.push id })

/-- Gives a slot of the new table to a record if the slot is free and the record
may hold another one. -/
def offerFree (c : Cache) (id : RecordId) (b : Fin newBucketCount) : Cache :=
  match c.records[id]? with
  | none => c
  | some r =>
    let p := c.newSlot b r.endpoint
    if (c.newTable.get b p).isNone && r.refs < maxReferences then
      (c.putNew b p id).modifyRecord id fun r => { r with refs := r.refs + 1 }
    else c

/-- Adds a stored new record, with its primary slot when there are no bucket lists. -/
def loadNew (listed : Bool) (c : Cache) (s : StoredRecord) : Except StorageError Cache := do
  let (id, c) ← c.insertStored s
  let c := { c with newCount := c.newCount + 1 }
  if listed then return c
  else return c.offerFree id (Placement.newBucket c.key s.endpoint s.source)

/-- Adds a stored tried record, or counts it as lost when its slot is taken. -/
def loadTried (state : Cache × Nat) (s : StoredRecord) : Except StorageError (Cache × Nat) :=
  let (c, lost) := state
  if c.addresses.contains s.ip then .error (.duplicateAddress s.ip)
  else
    let (b, p) := c.triedSlot s.endpoint
    if (c.triedTable.get b p).isSome then .ok (c, lost + 1)
    else do
      let (id, c) ← c.insertStored s
      return ({ c.modifyRecord id (fun r => { r with inTried := true }) with
        triedTable := (c.triedTable.set b p id).2
        triedCount := c.triedCount + 1 }, lost)

/-- Follows one entry of a bucket list. Entries beyond the new records do not count. -/
def loadEntry (newTotal : Nat) (b : Fin newBucketCount) (c : Cache) (entry : Nat) : Cache :=
  if entry < newTotal then c.offerFree ⟨entry⟩ b else c

/-- Reads a bucket list and follows its entries. -/
def decodeBucket (newTotal : Nat) (c : Cache) (b : Fin newBucketCount) : Decoder Cache := do
  Decoder.fold (.little 4) (fun c entry => .ok (loadEntry newTotal b c entry))
    (← Decoder.little 4) c

/-- Reads a bucket list that does not count. -/
def skipBucket : Decoder Unit := do
  Decoder.fold (.little 4) (fun _ _ => .ok ()) (← Decoder.little 4) ()

/-- Reads a cache. New records may still be without a slot. Returns how many
tried records were lost as well. -/
def decode (policy : Policy) : Decoder (Cache × Nat) := do
  let version ← Decoder.little 1
  let size ← Decoder.little 1
  if size ≠ keySize then throw (.unsupportedKeySize (UInt8.ofNat size))
  let keyBytes ← Decoder.take keySize
  let newTotal ← Decoder.little 4
  let triedTotal ← Decoder.little 4
  let buckets := (← Decoder.little 4) ^^^ bucketMarker
  if newBucketCount * bucketSize < newTotal ∨ triedBucketCount * bucketSize < triedTotal then
    throw (.tableTooLarge (UInt32.ofNat newTotal) (UInt32.ofNat triedTotal))
  -- Records of another version are read as well, but its bucket lists say nothing.
  let listed := version = formatVersion ∧ buckets = newBucketCount
  let key := (PlacementKey.ofBytes? keyBytes).getD default
  let c ← Decoder.fold StoredRecord.decode (loadNew listed) newTotal (ofKey policy key)
  let (c, lost) ← Decoder.fold StoredRecord.decode loadTried triedTotal (c, 0)
  if listed then
    return (← (List.finRange newBucketCount).foldlM (decodeBucket newTotal) c, lost)
  else
    Decoder.fold skipBucket (fun _ _ => .ok ()) buckets ()
    return (c, lost)

/-- The records that hold no slot of either table. -/
def unplaced (c : Cache) : List RecordId :=
  (c.records.toList.filter fun (_, r) => !r.inTried && r.refs == 0).map Prod.fst

/-- Reads a whole cache, drops the new records without a slot, and tests the result. -/
def ofBytes (policy : Policy) (order : RemovalOrder) (data : Bytes) :
    Checked (Except StorageError (Cache × LoadReport)) :=
  match (decode policy).run data with
  | .error e => return .error e
  -- Bytes after the last list are ignored.
  | .ok ((c, lostTried), _) => do
    let lost := order.arrange c.unplaced
    let c ← lost.foldlM (fun c id => c.delete id) c
    match c.audit with
    | .error violation => return .error (.corrupted violation)
    | .ok _ => return .ok (c, ⟨c.newCount, c.triedCount, lost.length, lostTried⟩)

/-- Replaces the cache by the one in `data`. When that fails the cache is emptied. -/
def load {σ : Type} [RandomSource σ] (c : Cache) (order : RemovalOrder) (data : Bytes) :
    Draw σ (Except StorageError LoadReport × Cache) := do
  match ← ofBytes c.policy order data with
  | .ok (loaded, report) => return (.ok report, loaded)
  | .error e => return (.error e, ← c.clear)

end Cache

end PeerCache
