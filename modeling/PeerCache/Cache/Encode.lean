import PeerCache.Cache.Stored

/-!
# `PeerCache.Cache.Encode`: the cache as bytes

All numbers are little endian and of fixed width.

| bytes | content |
|---|---|
| 1 | format version |
| 1 | length of the placement key |
| 32 | placement key |
| 4 | number of new records |
| 4 | number of tried records |
| 4 | number of new buckets, with bit 30 flipped |
| 74 each | new records, then tried records, by number |
| 4 + 4 each | per new bucket: how many slots are held, and by which new records |

A bucket list names a record by its place among the new records of the file.
-/

set_option autoImplicit false

namespace PeerCache

/-- The version of the format. -/
def formatVersion : Nat := 1

/-- The bit that marks the field with the number of buckets. -/
def bucketMarker : Nat := 1 <<< 30

namespace Cache

/-- The records that are not tried, by number. -/
def newRecords (c : Cache) : List (RecordId × Record) :=
  c.records.toList.filter fun (_, r) => !r.inTried

/-- The tried records, by number. -/
def triedRecords (c : Cache) : List (RecordId × Record) :=
  c.records.toList.filter fun (_, r) => r.inTried

/-- The place of each number in a list. -/
def places (ids : List RecordId) : Std.ExtHashMap RecordId Nat := .ofList ids.zipIdx

/-- The bytes of a record. -/
def recordBytes (r : Record) : Bytes := (StoredRecord.ofRecord r).toBytes

/-- The bytes of a bucket list: its length, then its entries. -/
def listBytes (entries : List Nat) : Bytes :=
  Bytes.little 4 entries.length ++ entries.flatMap (Bytes.little 4)

/-- The records that hold slots of a bucket, by their places in the file. -/
def bucketEntries (c : Cache) (places : Std.ExtHashMap RecordId Nat) (b : Fin newBucketCount) :
    List Nat :=
  (c.newTable.bucket b).filterMap fun (_, id) => places[id]?

/-- The cache as bytes. -/
def encode (c : Cache) : Bytes :=
  let new := c.newRecords
  let tried := c.triedRecords
  let places := places (new.map Prod.fst)
  Bytes.little 1 formatVersion ++ Bytes.little 1 keySize ++ c.key.bytes ++
    Bytes.little 4 new.length ++ Bytes.little 4 tried.length ++
    Bytes.little 4 (newBucketCount ^^^ bucketMarker) ++
    new.flatMap (fun (_, r) => recordBytes r) ++ tried.flatMap (fun (_, r) => recordBytes r) ++
    (List.finRange newBucketCount).flatMap fun b => listBytes (c.bucketEntries places b)

end Cache

end PeerCache
