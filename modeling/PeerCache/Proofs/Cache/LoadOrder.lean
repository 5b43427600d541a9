import PeerCache.Proofs.Cache.Load
import PeerCache.Proofs.Cache.Sample

/-!
# `PeerCache.Proofs.Cache.LoadOrder`: the order in which a load removes records

The records that find no slot are removed in an order that nothing fixes. Each removal
moves the last record of the sampling order to the place that becomes free. So the order
of removal decides the sampling order of what is left, and no more.

* `Coherent.reordered`: key, tables and records decide a coherent cache, up to its sampling
  order.
* `LedTo.reordered`: whatever the order of removal, bytes lead to one such cache.
* `ofBytes_reordered`: the same, said of two loads.
-/

set_option autoImplicit false

namespace PeerCache

namespace Cache

variable {d d' : Cache} {policy : Policy}

/-- A cache that bytes can lead to when the records without slots are removed in some
order. -/
def LedTo (policy : Policy) (data : Bytes) (d : Cache) (report : LoadReport) : Prop :=
  ∃ (m : Cache) (lostTried : Nat) (rest : Bytes) (l : List RecordId),
    (decode policy).run data = .ok ((m, lostTried), rest) ∧ l.Perm m.unplaced ∧
      l.foldlM (fun c id => c.delete id) m = .ok d ∧ d.audit = .ok () ∧
      report = ⟨d.newCount, d.triedCount, l.length, lostTried⟩

/-- Coherent caches with the same key, tables and records differ in the sampling order
only. -/
theorem Coherent.reordered (h : Coherent ∅ ∅ d) (h' : Coherent ∅ ∅ d')
    (hpolicy : d'.policy = d.policy) (hkey : d'.key = d.key) (hnext : d'.nextId = d.nextId)
    (hnew : d'.newTable = d.newTable) (htried : d'.triedTable = d.triedTable)
    (hrecord : ∀ id : RecordId,
      d'.records[id]?.map Record.unranked = d.records[id]?.map Record.unranked) :
    Reordered d d' := by
  have hids : ∀ tried, d'.idsIn tried = d.idsIn tried := by
    intro tried
    ext id
    have hin := congrArg (Option.map Record.inTried) (hrecord id)
    simp only [Option.map_map] at hin
    rw [mem_idsIn, mem_idsIn, ← Option.map_eq_some_iff, ← Option.map_eq_some_iff]
    exact iff_of_eq (congrArg (· = some tried) hin)
  have haddresses : d'.addresses = d.addresses := by
    refine Std.ExtHashMap.ext_getElem? fun ip => Option.ext fun id => ?_
    have hip := congrArg (Option.map Record.ip) (hrecord id)
    simp only [Option.map_map] at hip
    rw [h'.addresses_iff, h.addresses_iff, ← Option.map_eq_some_iff, ← Option.map_eq_some_iff]
    exact iff_of_eq (congrArg (· = some ip) hip)
  have hnewCount : d'.newCount = d.newCount := by
    rw [h'.newCount_eq, h.newCount_eq, hids]
  have htriedCount : d'.triedCount = d.triedCount := by
    rw [h'.triedCount_eq, h.triedCount_eq, hids]
  refine ⟨?_, hrecord⟩
  rw [← hpolicy, ← hkey, ← hnext, ← hnew, ← htried, ← haddresses, ← hnewCount, ← htriedCount]

variable {data : Bytes} {report report' : LoadReport} {order order' : RemovalOrder}

/-- A load removes them in one of the orders. -/
theorem ledTo_of_ofBytes (h : ofBytes policy order data = .ok (.ok (d, report))) :
    LedTo policy data d report := by
  obtain ⟨m, lostTried, rest, hrun, hreport, hdelete, hd, -⟩ := exists_run_of_ofBytes h
  have hperm := order.perm m.unplaced
  refine ⟨m, lostTried, rest, _, hrun, hperm, hdelete, hd.sound.audit, ?_⟩
  rw [hreport, hperm.length_eq]

/-- The order in which the records without slots are removed decides the sampling order
and nothing else. -/
theorem LedTo.reordered (h' : LedTo policy data d' report')
    (h : ofBytes policy order data = .ok (.ok (d, report))) :
    Reordered d d' ∧ report' = report := by
  obtain ⟨m, lostTried, rest, hrun, hreport, -, hd, hpruned, newTotal, hm⟩ :=
    exists_run_of_ofBytes h
  obtain ⟨m', lostTried', rest', l, hrun', hperm, hdelete, -, hreport'⟩ := h'
  rw [hrun] at hrun'
  cases hrun'
  obtain ⟨e, hdelete', hd', hpruned'⟩ := hm.toCoherent.prune hperm
  rw [hdelete] at hdelete'
  cases hdelete'
  have hrecord : ∀ id : RecordId,
      d'.records[id]?.map Record.unranked = d.records[id]?.map Record.unranked := by
    intro id
    by_cases hid : id ∈ m.unplaced
    · rw [hpruned.gone id hid, hpruned'.gone id (hperm.mem_iff.mpr hid)]
    · rw [hpruned.others id hid, hpruned'.others id fun hl => hid (hperm.mem_iff.mp hl)]
  have hreordered : Reordered d d' := hd.reordered hd'
    (hpruned'.policy.trans hpruned.policy.symm) (hpruned'.key.trans hpruned.key.symm)
    (hpruned'.nextId.trans hpruned.nextId.symm) (hpruned'.newTable.trans hpruned.newTable.symm)
    (hpruned'.triedTable.trans hpruned.triedTable.symm) hrecord
  refine ⟨hreordered, ?_⟩
  rw [hreport, hreport', hreordered.rest, hperm.length_eq]

/-- Bytes that are accepted are accepted under any order of removal, with the same report
and a cache that differs in the sampling order only. -/
theorem ofBytes_reordered (h : ofBytes policy order data = .ok (.ok (d, report)))
    (order' : RemovalOrder) :
    ∃ d' : Cache, ofBytes policy order' data = .ok (.ok (d', report)) ∧ Reordered d d' := by
  obtain ⟨m, lostTried, rest, hrun, -⟩ := exists_run_of_ofBytes h
  obtain ⟨d', haccepted, -⟩ := exists_ofBytes_of_run hrun order'
  obtain ⟨hreordered, hreport⟩ := (ledTo_of_ofBytes haccepted).reordered h
  rw [hreport] at haccepted
  exact ⟨d', haccepted, hreordered⟩

end Cache

end PeerCache
