import Std.Data.ExtHashMap
import Std.Data.ExtTreeMap
import PeerCache.Error
import PeerCache.Policy
import PeerCache.Random.Source
import PeerCache.SlotTable

/-!
# `PeerCache.Cache.Basic`: the cache and its bookkeeping

A cache holds records and finds them in four ways: by number, by address, by
place in the sampling order, and by slot of the new or the tried table. Two
counters say how many records are in each table. The indexes are plain data.
That they agree is a property of the states that operations reach, and
`Cache.audit` tests it.

Changes to several indexes are made in small steps, between which the indexes
may disagree. A step whose assumption fails stops with a `Fault`.

Numbers given to records only grow, so a record keeps its number for life and a
number is never used twice between two resets.
-/

set_option autoImplicit false

namespace PeerCache

/-- The outcome of a step that assumes a sound cache. -/
abbrev Checked := Except Fault

/-- A step that also draws from a random source of type `σ`. -/
abbrev Draw (σ : Type) := StateT σ Checked

namespace Draw

variable {σ : Type} [RandomSource σ]

/-- A number below the bound. -/
@[inline] def below (bound : Nat) : Draw σ Nat := fun s => .ok (RandomSource.below s bound)

/-- One fair bit. -/
@[inline] def coin : Draw σ Bool := fun s => .ok (RandomSource.coin s)

/-- A fresh placement key. -/
def key : Draw σ PlacementKey := fun s =>
  let drawn := RandomSource.bytes s keySize
  .ok (⟨drawn.1, RandomSource.length_bytes s keySize⟩, drawn.2)

end Draw

/-- Peers that may be dialled, the slots they hold, and indexes to find them. -/
structure Cache where
  policy : Policy
  key : PlacementKey
  records : Std.ExtTreeMap RecordId Record
  /-- The number of the record with each address. -/
  addresses : Std.ExtHashMap Ip RecordId
  /-- All record numbers, in the order that samples are drawn from. -/
  order : Array RecordId
  nextId : Nat
  newCount : Nat
  triedCount : Nat
  newTable : SlotTable newBucketCount bucketSize RecordId
  triedTable : SlotTable triedBucketCount bucketSize RecordId

/-- The numbers of records and of occupied slots. -/
structure CacheStats where
  newCount : Nat
  triedCount : Nat
  newSlots : Nat
  triedSlots : Nat
deriving DecidableEq

namespace Cache

/-- The empty cache with the given key. -/
def ofKey (policy : Policy) (key : PlacementKey) : Cache where
  policy := policy
  key := key
  records := ∅
  addresses := ∅
  order := #[]
  nextId := 0
  newCount := 0
  triedCount := 0
  newTable := .empty (by decide)
  triedTable := .empty (by decide)

/-- The empty cache with a key drawn at random. -/
def new {σ : Type} [RandomSource σ] (policy : Policy) : Draw σ Cache :=
  return ofKey policy (← Draw.key)

/-- Drops every record and draws another key. -/
def clear {σ : Type} [RandomSource σ] (c : Cache) : Draw σ Cache := new c.policy

/-- The number of records. -/
def size (c : Cache) : Nat := c.order.size

/-- Whether there is no record. -/
def isEmpty (c : Cache) : Bool := c.order.isEmpty

/-- The numbers of records and of occupied slots. -/
def stats (c : Cache) : CacheStats :=
  ⟨c.newCount, c.triedCount, c.newTable.size, c.triedTable.size⟩

/-- The record for an endpoint, with its number. The port must match as well as
the address, and both notations of a host find the same record. -/
def lookup (c : Cache) (e : Endpoint) : Option (RecordId × Record) := do
  let id ← c.addresses[e.ip.canonical]?
  let r ← c.records[id]?
  if r.endpoint = e.canonical then some (id, r) else none

/-- The record for an endpoint. -/
def find? (c : Cache) (e : Endpoint) : Option Record := (c.lookup e).map Prod.snd

/-- Whether there is a record for the endpoint. -/
def contains (c : Cache) (e : Endpoint) : Bool := (c.lookup e).isSome

/-- Changes one record in place. -/
def modifyRecord (c : Cache) (id : RecordId) (f : Record → Record) : Cache :=
  { c with records := c.records.modify id f }

/-- Exchanges two places of the sampling order. -/
def swapOrder (c : Cache) (i j : Nat) : Checked Cache :=
  if i = j then .ok c
  else if h : i < c.order.size ∧ j < c.order.size then
    let idI := c.order[i]
    let idJ := c.order[j]
    .ok { c with
      records := (c.records.modify idI fun r => { r with orderIndex := j }).modify idJ
        fun r => { r with orderIndex := i }
      order := c.order.swap i j }
  else .error .orderIndex

/-- Adds an unplaced record for an unknown address and returns its number. The
claimed last-seen time is lowered by the penalty. -/
def create (c : Cache) (peer : Announcement) (source : Ip) (penalty : Nat) : RecordId × Cache :=
  let id : RecordId := ⟨c.nextId⟩
  let peer := { peer with seen := peer.seen.earlier penalty }
  (id, { c with
    nextId := c.nextId + 1
    addresses := c.addresses.insert peer.ip id
    records := c.records.insert id (.ofAnnouncement peer source c.order.size)
    order := c.order.push id
    newCount := c.newCount + 1 })

/-- Removes a record that holds no slot. Its place in the sampling order goes to
the record that was last. -/
def delete (c : Cache) (id : RecordId) : Checked Cache :=
  match c.records[id]? with
  | none => .ok c
  | some r =>
    if r.inTried || r.refs != 0 then .error (.stillPlaced id)
    else if c.order.size = 0 then .error .orderIndex
    else do
      -- Only the last place of the order can be given up.
      let c ← c.swapOrder r.orderIndex (c.order.size - 1)
      if c.newCount = 0 then .error .counter
      else .ok { c with
        order := c.order.pop
        addresses := c.addresses.erase r.ip
        records := c.records.erase id
        newCount := c.newCount - 1 }

/-- The slot of the new table that a record takes in a bucket. -/
def newSlot (c : Cache) (b : Fin newBucketCount) (e : Endpoint) : Fin bucketSize :=
  Placement.slot c.key .new b e

/-- The bucket and slot of the new table for an endpoint that `source` announces. -/
def primarySlot (c : Cache) (e : Endpoint) (source : Ip) : Fin newBucketCount × Fin bucketSize :=
  let b := Placement.newBucket c.key e source
  (b, c.newSlot b e)

/-- The bucket and slot of the tried table for an endpoint. -/
def triedSlot (c : Cache) (e : Endpoint) : Fin triedBucketCount × Fin bucketSize :=
  let b := Placement.triedBucket c.key e
  (b, Placement.slot c.key .tried b e)

/-- Frees a slot of the new table. A record that loses its last slot is removed. -/
def clearNew (c : Cache) (b : Fin newBucketCount) (p : Fin bucketSize) : Checked Cache :=
  match c.newTable.take b p with
  | (none, _) => .ok c
  | (some id, newTable) =>
    let c := { c with newTable }.modifyRecord id fun r => { r with refs := r.refs - 1 }
    match c.records[id]? with
    | some r => if r.refs = 0 && !r.inTried then c.delete id else .ok c
    | none => .ok c

/-- Gives a slot of the new table to a record. -/
def putNew (c : Cache) (b : Fin newBucketCount) (p : Fin bucketSize) (id : RecordId) : Cache :=
  { c with newTable := (c.newTable.set b p id).2 }

/-- The state of the cache, shown for diagnosis. -/
def describe (c : Cache) : String :=
  "AddrMan \x7b new_count: " ++ toString c.newCount ++ ", tried_count: " ++
    toString c.triedCount ++ ", config: " ++ c.policy.describe ++ ", .. \x7d"

end Cache

end PeerCache
