import PeerCache.Book
import PeerCache.Proofs.Cache.LoadOrder
import PeerCache.Proofs.Envelope

/-!
# `PeerCache.Proofs.PeersFile`: a book reads its file whole or not at all

Reading a peers file passes three layers: the file is found, its envelope is opened,
and the content is decoded. Each of them can refuse. Whichever does, the book is left
with an empty cache and with its counters as they were.

* `Book.loadFrom_of_holds`, `Book.loadFrom_of_not_holds`: the two outcomes.
* `Book.loadFrom_all_or_nothing`: a load succeeds exactly when the file holds content
  that is accepted. What it leads to depends on the content and the policy alone.
-/

set_option autoImplicit false

namespace PeerCache

namespace Cache

/-! ### A cache that holds nothing -/

/-- There is no record, every slot is free, and the audit passes. -/
structure HoldsNothing (c : Cache) : Prop where
  records : ∀ id : RecordId, c.records[id]? = none
  size : c.size = 0
  stats : c.stats = ⟨0, 0, 0, 0⟩
  newTable : ∀ b p, c.newTable.get b p = none
  triedTable : ∀ b p, c.triedTable.get b p = none
  audit : c.audit = .ok ()

theorem holdsNothing_ofKey (policy : Policy) (key : PlacementKey) :
    HoldsNothing (ofKey policy key) where
  records id := by simp [ofKey]
  size := rfl
  stats := by simp [stats, ofKey, SlotTable.size_eq, SlotTable.occupied_eq]
  newTable b p := SlotTable.get_empty b p
  triedTable b p := SlotTable.get_empty b p
  audit := (coherent_ofKey policy key).sound.audit

end Cache

namespace PeersFile

/-- The file holds the content in an envelope of its network, and a cache under the
policy accepts it. -/
structure Holds (file : PeersFile) (folder : Folder) (policy : Policy)
    (order : RemovalOrder) (blob : Bytes) (d : Cache) (report : LoadReport) : Prop where
  envelope : folder.read? file.path = some (Envelope.wrap file.magic blob)
  accepted : Cache.ofBytes policy order blob = .ok (.ok (d, report))

theorem read_eq_ok_iff {file : PeersFile} {folder : Folder} {blob : Bytes} :
    file.read folder = .ok blob ↔
      folder.read? file.path = some (Envelope.wrap file.magic blob) := by
  unfold read
  cases folder.read? file.path with
  | none => simp
  | some data => simp [Envelope.unwrap_eq_ok_iff]

end PeersFile

namespace Book

variable {σ : Type} [RandomSource σ] {file : PeersFile} {folder : Folder}
  {order : RemovalOrder}

/-- Content that is accepted becomes the cache, and the load is counted. -/
theorem loadFrom_of_holds (b : Book) {blob : Bytes} {d : Cache} {report : LoadReport}
    (h : file.Holds folder b.cache.policy order blob d report) (s : σ) :
    b.loadFrom order file folder s =
      .ok ((.ok report, { b with cache := d, metrics := b.metrics.countLoad report }), s) := by
  have hload : b.cache.load order blob s = .ok ((.ok report, d), s) := Cache.load_of_ok h.accepted s
  unfold loadFrom
  rw [PeersFile.read_eq_ok_iff.mpr h.envelope]
  exact Draw.run_bind hload

/-- Otherwise the load fails, and the book is left with an empty cache. -/
theorem loadFrom_of_not_holds (b : Book)
    (h : ¬ ∃ (blob : Bytes) (d : Cache) (report : LoadReport),
      file.Holds folder b.cache.policy order blob d report) (s : σ) :
    ∃ (e : StorageError) (key : PlacementKey) (s' : σ), b.loadFrom order file folder s =
      .ok ((.error e, { b with cache := .ofKey b.cache.policy key }), s') := by
  obtain ⟨c, s', hnew, key, rfl⟩ := Cache.ensures_new b.cache.policy s
  cases hread : file.read folder with
  | error e =>
      have hclear : b.clear s = .ok ({ b with cache := .ofKey b.cache.policy key }, s') :=
        Draw.run_bind hnew
      refine ⟨e, key, s', ?_⟩
      unfold loadFrom
      rw [hread]
      exact Draw.run_bind hclear
  | ok blob =>
      have henvelope := PeersFile.read_eq_ok_iff.mp hread
      obtain ⟨result, hresult, -⟩ := Cache.ofBytes_outcome b.cache.policy order blob
      cases result with
      | ok x => exact absurd ⟨blob, x.1, x.2, henvelope, hresult⟩ h
      | error e =>
          have hload := Cache.load_of_error hresult hnew
          refine ⟨e, key, s', ?_⟩
          unfold loadFrom
          rw [hread]
          exact Draw.run_bind hload

/-- Loading a peers file is all or nothing. It succeeds exactly when the file holds the
magic of its network, content that is accepted, and the checksum of that content. The
cache is then the one that the content leads to under the policy, whatever the book held
before, and up to the sampling order there is only one. The load and its losses are
counted. In every other case the book is left with a cache that holds nothing and passes
the audit, and nothing is counted. -/
theorem loadFrom_all_or_nothing (b : Book) (order : RemovalOrder) (file : PeersFile)
    (folder : Folder) (s : σ) :
    (∃ (blob : Bytes) (d : Cache) (report : LoadReport),
      file.Holds folder b.cache.policy order blob d report ∧
      b.loadFrom order file folder s = .ok ((.ok report, { b with
        cache := d
        metrics := { b.metrics with
          loads := b.metrics.loads + 1
          prunedNew := b.metrics.prunedNew + UInt64.ofNat report.lostNew
          prunedTried := b.metrics.prunedTried + UInt64.ofNat report.lostTried } }), s) ∧
      Cache.LedTo b.cache.policy blob d report ∧
      ∀ (d' : Cache) (report' : LoadReport), Cache.LedTo b.cache.policy blob d' report' →
        Cache.Reordered d d' ∧ report' = report) ∨
    (¬ ∃ (blob : Bytes) (d : Cache) (report : LoadReport),
      file.Holds folder b.cache.policy order blob d report) ∧
      ∃ (e : StorageError) (d : Cache) (s' : σ),
        b.loadFrom order file folder s = .ok ((.error e, { b with cache := d }), s') ∧
          d.policy = b.cache.policy ∧ d.HoldsNothing := by
  by_cases h : ∃ (blob : Bytes) (d : Cache) (report : LoadReport),
      file.Holds folder b.cache.policy order blob d report
  · obtain ⟨blob, d, report, hholds⟩ := h
    refine Or.inl ⟨blob, d, report, hholds, b.loadFrom_of_holds hholds s,
      Cache.ledTo_of_ofBytes hholds.accepted, ?_⟩
    intro d' report' hled
    exact hled.reordered hholds.accepted
  · obtain ⟨e, key, s', hrun⟩ := b.loadFrom_of_not_holds h s
    exact Or.inr ⟨h, e, _, s', hrun, rfl, Cache.holdsNothing_ofKey b.cache.policy key⟩

end Book

end PeerCache
