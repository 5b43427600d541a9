import PeerCache.Cache.Audit

/-!
# `PeerCache.Cache.Learn`: taking in an announcement

An announced endpoint is judged in three steps.

1. Unless the policy admits it, an unroutable address is ignored.
2. An unknown address gets a record. For a known one the announcement is merged
   into the record, and only news earns the record a further slot. A record may
   hold up to eight slots, and each further one is half as likely as the one
   before.
3. The slot is the one that the placement hash gives for the endpoint and the
   informant. If another record holds it, that record gives way when it is
   terrible, or when it has further slots and the newcomer has none. A newcomer
   that finds no slot is dropped again.

The last-seen time of a record moves only in coarse steps, so that relayed times
do not show when exactly a session took place.
-/

set_option autoImplicit false

namespace PeerCache

/-- A peer claimed to be seen within this time counts as online. -/
def onlineWindow : Nat := Record.day

/-- The step in which the last-seen time of an online peer moves. -/
def onlineStep : Nat := 60 * 60

/-- The step in which the last-seen time of any other peer moves. -/
def staleStep : Nat := Record.day

namespace Record

/-- The step in which an announcement may move the last-seen time. -/
def updateStep (claim now : Timestamp) : Nat :=
  if now.since claim < onlineWindow then onlineStep else staleStep

/-- The last-seen time after an announcement that claims another one. -/
def mergeSeen (seen claim : Timestamp) (penalty : Nat) (now : Timestamp) : Timestamp :=
  if !claim.isZero && (seen.isZero || seen < claim.earlier (updateStep claim now + penalty)) then
    claim.earlier penalty
  else seen

/-- The record after an announcement of the same address. -/
def merge (r : Record) (a : Announcement) (penalty : Nat) (now : Timestamp) : Record :=
  { r with peer :=
    { r.peer with
      seen := mergeSeen r.peer.seen a.seen penalty now
      services := r.peer.services.union a.services
      version := if a.version = 0 then r.peer.version else a.version } }

/-- Whether a claimed last-seen time tells something that the record does not know. -/
def isNews (r : Record) (claim : Timestamp) : Bool :=
  !claim.isZero && (r.peer.seen.isZero || r.peer.seen < claim)

/-- Whether the record may hold a further slot of the new table. -/
def hasRoom (r : Record) : Bool := !r.inTried && r.refs < maxReferences

end Record

namespace Cache

variable {σ : Type} [RandomSource σ]

/-- Merges an announcement into the record of a known address. Returns whether
the record should be offered a further slot. -/
def refresh (c : Cache) (id : RecordId) (a : Announcement) (penalty : Nat) (now : Timestamp) :
    Draw σ (Bool × Cache) :=
  match c.records[id]? with
  | none => return (false, c)
  | some old => do
    let r := old.merge a penalty now
    let c := c.modifyRecord id fun _ => r
    if !r.isNews a.seen || !r.hasRoom then return (false, c)
    else if r.refs = 0 then return (true, c)
    else return ((← Draw.below (1 <<< r.refs)) == 0, c)

/-- Whether the holder of a slot gives way to a record that holds `refs` slots. -/
def givesWay (c : Cache) (holder : RecordId) (refs : Nat) (now : Timestamp) : Bool :=
  match c.records[holder]? with
  | none => true
  | some r => r.isTerrible now || (1 < r.refs && refs == 0)

/-- Gives a slot of the new table to a record and counts the reference. -/
def addReference (c : Cache) (b : Fin newBucketCount) (p : Fin bucketSize) (id : RecordId) :
    Cache :=
  (c.putNew b p id).modifyRecord id fun r => { r with refs := r.refs + 1 }

/-- Offers a record the slot for its endpoint and an informant. Returns whether
the record still has to be counted as created, which it has not when it found no
slot or was known before. -/
def offerSlot (c : Cache) (id : RecordId) (source : Ip) (created : Bool) (now : Timestamp) :
    Checked (Bool × Cache) :=
  match c.records[id]? with
  | none => return (false, c)
  | some r =>
    let (b, p) := c.primarySlot r.endpoint source
    match c.newTable.get b p with
    | none => return (created, c.addReference b p id)
    | some holder =>
      if holder = id then return (created, c)
      else if c.givesWay holder r.refs now then
        return (created, (← c.clearNew b p).addReference b p id)
      else if r.refs = 0 then return (false, ← c.delete id)
      else return (false, c)

/-- Takes in an announcement, without the closing audit. -/
def learnUnaudited (c : Cache) (a : Announcement) (source : Ip) (penalty : Nat)
    (now : Timestamp) : Draw σ (Bool × Cache) := do
  let a := a.canonical
  let source := source.canonical
  if !c.policy.allowUnroutable && !a.ip.isRoutable then return (false, c)
  else match c.addresses[a.ip]? with
    | some id =>
      let (wanted, c) ← c.refresh id a penalty now
      if wanted then c.offerSlot id source false now else return (false, c)
    | none =>
      let (id, c) := c.create a source penalty
      c.offerSlot id source true now

/-- Takes in an endpoint that `source` announces, its last-seen time lowered by
`penalty` seconds. Returns whether an unknown address is now stored. -/
def learn (c : Cache) (a : Announcement) (source : Ip) (penalty : Nat) (now : Timestamp) :
    Draw σ (Bool × Cache) := do
  let (created, c) ← c.learnUnaudited a source penalty now
  return (created, ← c.audited)

end Cache

end PeerCache
