import PeerCache.Cache.Basic

/-!
# `PeerCache.Cache.Equality`: when two caches hold the same

Two caches are the same to a user when they agree on the key, on what they know
about each address, and on the address in each slot. The numbers of records, the
next number and the sampling order belong to one instance and do not count.
-/

set_option autoImplicit false

namespace PeerCache

namespace Cache

/-- The record with the given address. -/
def recordAt? (c : Cache) (ip : Ip) : Option Record := do c.records[← c.addresses[ip]?]?

/-- The addresses that hold slots of a table, with the slots. -/
def slotHolders {rows cols : Nat} (c : Cache) (table : SlotTable rows cols RecordId) :
    List (Fin rows × Fin cols × Ip) :=
  table.occupied.filterMap fun (b, p, id) => c.records[id]?.map fun r => (b, p, r.ip)

/-- Whether two records agree, their places in the sampling order aside. -/
def sameRecord (r s : Record) : Bool := r = { s with orderIndex := r.orderIndex }

/-- Whether two caches hold the same. -/
def sameContents (c d : Cache) : Bool :=
  c.key = d.key && c.newCount = d.newCount && c.triedCount = d.triedCount &&
    c.records.size = d.records.size &&
    (c.records.toList.all fun (_, r) => (d.recordAt? r.ip).any (sameRecord r)) &&
    c.slotHolders c.newTable = d.slotHolders d.newTable &&
    c.slotHolders c.triedTable = d.slotHolders d.triedTable

end Cache

end PeerCache
