import PeerCache.Cache.Audit

/-!
# `PeerCache.Cache.Dial`: what dialling a peer has shown

* `Cache.confirm`: the peer was reached. Its record moves to the tried table. A
  record that held the slot there goes back to the new table, to the slot that
  its own endpoint and source give, and whatever held that slot loses a
  reference.
* `Cache.noteAttempt`: an attempt was made.
* `Cache.noteAlive`: a session is alive, which may move the last-seen time.

Only `noteAlive` touches the last-seen time, and at most once in twenty minutes.
-/

set_option autoImplicit false

namespace PeerCache

/-- What became of a record when its endpoint was reached. -/
inductive Confirmation where
  /-- No record matches the endpoint. -/
  | unknown
  /-- The history was updated, and the record stays where it is. -/
  | refreshed
  /-- The record moved to the tried table and displaced the given endpoint. -/
  | promoted (evicted : Option Endpoint)
deriving DecidableEq

/-- A live session moves the last-seen time at most once in this time. -/
def aliveStep : Nat := 20 * 60

namespace Cache

variable {σ : Type} [RandomSource σ]

/-- The buckets of the new table in which a record holds the slot of an endpoint. -/
def heldBuckets (c : Cache) (id : RecordId) (e : Endpoint) : List (Fin newBucketCount) :=
  (List.finRange newBucketCount).filter fun b => c.newTable.get b (c.newSlot b e) == some id

/-- The buckets of the new table in order, the one with the given number first. After the
last bucket comes bucket zero. -/
def bucketsFrom (offset : Nat) : List (Fin newBucketCount) :=
  (List.range newBucketCount).map fun n =>
    ⟨(n + offset) % newBucketCount, Nat.mod_lt _ (by decide)⟩

/-- Whether a search that begins at a bucket finds a record in a slot of an endpoint. -/
def foundFrom (c : Cache) (offset : Nat) (id : RecordId) (e : Endpoint) : Bool :=
  (bucketsFrom offset).any fun b => c.newTable.get b (c.newSlot b e) == some id

/-- Frees the slots that an endpoint has in the given buckets. -/
def freeNew (c : Cache) (e : Endpoint) (held : List (Fin newBucketCount)) : Cache :=
  { c with
    newTable := held.foldl (fun table b => (table.take b (c.newSlot b e)).2) c.newTable }

/-- Moves a record that has left the tried table to its primary slot of the new
table. Returns the endpoint. -/
def demote (c : Cache) (id : RecordId) : Checked (Option Endpoint × Cache) :=
  match c.records[id]? with
  | none => return (none, c)
  | some r => do
    let c := c.modifyRecord id fun r => { r with inTried := false }
    let (b, p) := c.primarySlot r.endpoint r.source
    let c ← c.clearNew b p
    let c := (c.putNew b p id).modifyRecord id fun r => { r with refs := 1 }
    return (some r.endpoint, { c with newCount := c.newCount + 1 })

/-- Moves a record from the given buckets of the new table to its slot of the
tried table. Returns the endpoint that held that slot. -/
def promote (c : Cache) (id : RecordId) (e : Endpoint) (held : List (Fin newBucketCount)) :
    Checked (Option Endpoint × Cache) := do
  -- From here to the end the record is counted in neither table.
  let c := (c.freeNew e held).modifyRecord id fun r => { r with refs := r.refs - held.length }
  if c.newCount = 0 then throw .counter
  let c := { c with newCount := c.newCount - 1 }
  if (c.records[id]?.map Record.refs).getD 0 ≠ 0 then throw (.strayReferences id)
  let (b, p) := c.triedSlot e
  let (occupant, triedTable) := c.triedTable.take b p
  let c := { c with triedTable }
  let (evicted, c) ← match occupant with
    | none => pure (none, c)
    | some other =>
      if c.triedCount = 0 then throw .counter
      demote { c with triedCount := c.triedCount - 1 } other
  let c := { c with
    triedTable := (c.triedTable.set b p id).2
    triedCount := c.triedCount + 1 }
  return (evicted, c.modifyRecord id fun r => { r with inTried := true })

/-- Records that an endpoint was reached, without the closing audit. Whether the
record holds a slot is searched from a bucket drawn at random, and its slots are
then taken from it in the order of the buckets. -/
def confirmUnaudited (c : Cache) (e : Endpoint) (now : Timestamp) :
    Draw σ (Confirmation × Cache) :=
  match c.lookup e with
  | none => return (.unknown, c)
  | some (id, r) => do
    let c := c.modifyRecord id fun r =>
      { r with lastSuccess := some now, lastTry := some now, attempts := 0 }
    if r.inTried then return (.refreshed, c)
    let offset ← Draw.below newBucketCount
    if !c.foundFrom offset id r.endpoint then return (.refreshed, c)
    let (evicted, c) ← c.promote id r.endpoint (c.heldBuckets id r.endpoint)
    return (.promoted evicted, c)

/-- Records that an endpoint was reached. -/
def confirm (c : Cache) (e : Endpoint) (now : Timestamp) : Draw σ (Confirmation × Cache) := do
  let (outcome, c) ← c.confirmUnaudited e now
  return (outcome, ← c.audited)

/-- The attempts after one more, stopping at the largest number that is kept. -/
def oneMore (attempts : UInt32) : UInt32 := if attempts + 1 = 0 then attempts else attempts + 1

/-- Records an attempt to reach an endpoint. -/
def noteAttempt (c : Cache) (e : Endpoint) (now : Timestamp) : Checked Cache :=
  match c.lookup e with
  | none => c.audited
  | some (id, _) =>
    (c.modifyRecord id fun r =>
      { r with lastTry := some now, attempts := oneMore r.attempts }).audited

/-- Records that a session with an endpoint is alive. -/
def noteAlive (c : Cache) (e : Endpoint) (now : Timestamp) : Checked Cache :=
  match c.lookup e with
  | none => c.audited
  | some (id, r) =>
    if aliveStep < now.since r.peer.seen then
      (c.modifyRecord id fun r => { r with peer := { r.peer with seen := now } }).audited
    else c.audited

end Cache

end PeerCache
