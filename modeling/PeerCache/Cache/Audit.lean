import PeerCache.Cache.Basic

/-!
# `PeerCache.Cache.Audit`: testing the structural rules

`Cache.audit` tests that the indexes of a cache agree: the sampling order, the
address index, the counters, and both tables. It reports the first rule that it
finds broken. `Cache.audited` stops with a fault when the policy asks for audits
and a rule is broken. Every operation that changes the cache ends with it.
-/

set_option autoImplicit false

namespace PeerCache

/-- The most slots of the new table that one record holds. -/
def maxReferences : Nat := 8

namespace Cache

/-- Tests one record on its own and against the indexes that lead to it. -/
def auditRecord (c : Cache) (id : RecordId) (r : Record) : Except Violation Unit := do
  if r.inTried then
    if r.refs ≠ 0 then throw (.triedWithReferences id)
  else
    if r.refs = 0 then throw (.orphan id)
    if maxReferences < r.refs then throw (.tooManyReferences id r.refs maxReferences)
  if c.addresses[r.ip]? ≠ some id then throw (.addressIndex id)
  if c.order[r.orderIndex]? ≠ some id then throw (.orderIndex id)

/-- Tests that a slot of the tried table holds a tried record that belongs there. -/
def auditTriedSlot (c : Cache) (b : Fin triedBucketCount) (p : Fin bucketSize) (id : RecordId) :
    Except Violation Unit :=
  match c.records[id]? with
  | none => throw (.danglingSlot id b p)
  | some r =>
    if r.inTried ∧ (b, p) = c.triedSlot r.endpoint then return ()
    else throw (.misplaced id .tried b p)

/-- Tests that a slot of the new table holds a record that belongs there. -/
def auditNewSlot (c : Cache) (b : Fin newBucketCount) (p : Fin bucketSize) (id : RecordId) :
    Except Violation Unit :=
  match c.records[id]? with
  | none => throw (.danglingSlot id b p)
  | some r =>
    if r.inTried = false ∧ p = c.newSlot b r.endpoint then return ()
    else throw (.misplaced id .new b p)

/-- How often each number occurs in a list. -/
def tally (ids : List RecordId) : Std.ExtHashMap RecordId Nat :=
  ids.foldl (fun counts id => counts.insert id (counts.getD id 0 + 1)) ∅

/-- Tests that a record of the new table counts the slots it holds. -/
def auditReferences (held : Std.ExtHashMap RecordId Nat) (id : RecordId) (r : Record) :
    Except Violation Unit :=
  let found := held.getD id 0
  if r.inTried ∨ found = r.refs then return () else throw (.referenceCount id r.refs found)

/-- Tests every structural rule and reports the first that is broken. -/
def audit (c : Cache) : Except Violation Unit := do
  if c.order.size ≠ c.newCount + c.triedCount then
    throw (.orderLength c.order.size c.newCount c.triedCount)
  let records := c.records.toList
  records.forM fun (id, r) => c.auditRecord id r
  let foundTried := records.countP fun (_, r) => r.inTried
  let foundNew := records.countP fun (_, r) => !r.inTried
  let counts := Violation.tableCounts c.newCount c.triedCount foundNew foundTried
  if foundNew ≠ c.newCount ∨ foundTried ≠ c.triedCount ∨ c.addresses.size ≠ c.records.size then
    throw counts
  let tried := c.triedTable.occupied
  tried.forM fun (b, p, id) => c.auditTriedSlot b p id
  if tried.length ≠ c.triedCount then throw counts
  let new := c.newTable.occupied
  new.forM fun (b, p, id) => c.auditNewSlot b p id
  let held := tally (new.map fun (_, _, id) => id)
  records.forM fun (id, r) => auditReferences held id r

/-- The cache itself, unless its policy asks for audits and a rule is broken. -/
def audited (c : Cache) : Checked Cache :=
  if c.policy.audits then
    match c.audit with
    | .ok _ => .ok c
    | .error violation => .error (.inconsistent violation)
  else .ok c

end Cache

end PeerCache
