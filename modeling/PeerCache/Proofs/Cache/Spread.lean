import PeerCache.Proofs.Cache.LoadLosses
import PeerCache.Proofs.Cache.Runs

/-!
# `PeerCache.Proofs.Cache.Spread`: caches with given records

A record that stands alone in a bucket list collides with nobody, so a load keeps it
(`StoredCache.Loads.exists_of_alone`). Content that gives each of its records a bucket of
its own (`StoredCache.spread`) is loaded without a loss. So, up to the number of buckets,
whatever records one writes down, a reachable cache has these and no others
(`exists_load_spread`).

No placement hash is computed for this: whichever slot a record gets in its bucket, nobody
else asks for it.
-/

set_option autoImplicit false

namespace PeerCache

namespace StoredCache

variable {f : StoredCache} {d : Cache} {report : LoadReport} {key : PlacementKey}
  {new : List StoredRecord} {s : StoredRecord} {i : Nat} {b : Fin newBucketCount}

/-! ### Records that are kept -/

/-- A new record is left when it has an entry in a list that names nobody else. -/
theorem Loads.exists_of_alone (h : f.Loads d report) (hlisted : f.Listed)
    (hs : f.new[i]? = some s) (hentry : (b, i) ∈ f.entries)
    (halone : ∀ j : Nat, (b, j) ∈ f.entries → j = i) :
    ∃ r : Record, d.lookup s.endpoint = some (⟨i⟩, r) ∧ r.inTried = false ∧ s.Restored r := by
  cases hlookup : d.lookup s.endpoint with
  | some x =>
      obtain ⟨id, r⟩ := x
      obtain ⟨rfl, hkept⟩ := h.new_kept i s hs id r hlookup
      exact ⟨r, rfl, hkept⟩
  | none =>
      have hlost := (h.new_lost_iff_listed hlisted i s hs).mp hlookup
      -- An earlier entry of the list is one of the same record, and so on without end.
      have hnever : ∀ n : Nat, f.entries[n]? ≠ some (b, i) := by
        intro n
        induction n using Nat.strong_induction_on with
        | _ n ih =>
            intro hn
            obtain ⟨k, j, hlt, hk, -⟩ := hlost n b hn
            rw [halone j (List.mem_of_getElem? hk)] at hk
            exact ih k hlt hk
      obtain ⟨n, hn⟩ := List.getElem?_of_mem hentry
      exact absurd hn (hnever n)

/-- When every new record is left, the cache has as many as were stored. -/
theorem Loads.newCount_of_kept (h : f.Loads d report) (hd : Cache.Coherent ∅ ∅ d)
    (hkept : ∀ (i : Nat) (s : StoredRecord), f.new[i]? = some s → d.lookup s.endpoint ≠ none) :
    d.newCount = f.new.length := by
  have hle : d.newCount ≤ f.new.length := by
    have hcount := h.newCount
    omega
  refine Nat.le_antisymm hle ?_
  have hsub : (Finset.range f.new.length).image RecordId.mk ⊆ d.idsIn false := by
    intro id hid
    obtain ⟨i, hi, rfl⟩ := Finset.mem_image.mp hid
    have hs := List.getElem?_eq_getElem (Finset.mem_range.mp hi)
    obtain ⟨⟨id, r⟩, hlookup⟩ := Option.ne_none_iff_exists'.mp (hkept i _ hs)
    obtain ⟨rfl, hnew, -⟩ := h.new_kept i _ hs id r hlookup
    exact Cache.mem_idsIn.mpr ⟨r, (Cache.lookup_eq_some hlookup).1, hnew⟩
  have hinjective : Function.Injective RecordId.mk := fun _ _ heq => congrArg RecordId.number heq
  have hcard := Finset.card_le_card hsub
  rw [Finset.card_image_of_injective _ hinjective, Finset.card_range] at hcard
  rw [hd.newCount_eq, Finset.sdiff_empty]
  exact hcard

/-! ### A bucket for each record -/

/-- Content in which each record is named in the bucket with its number. -/
def spread (key : PlacementKey) (new : List StoredRecord) : StoredCache :=
  ofNew key new fun b => if b.val < new.length then [b.val] else []

theorem mem_entries_spread :
    (b, i) ∈ (spread key new).entries ↔ i = b.val ∧ i < new.length := by
  rw [spread, entries_ofNew, List.mem_flatMap]
  constructor
  · rintro ⟨b', -, hmem⟩
    by_cases hlt : b'.val < new.length
    · rw [if_pos hlt] at hmem
      obtain ⟨rfl, rfl⟩ : b = b' ∧ i = b'.val := by simpa using hmem
      exact ⟨rfl, hlt⟩
    · rw [if_neg hlt] at hmem
      cases hmem
  · rintro ⟨rfl, hlt⟩
    refine ⟨b, List.mem_finRange b, ?_⟩
    rw [if_pos hlt]
    exact List.mem_singleton_self _

theorem fits_spread (hlength : new.length ≤ newBucketCount) (hnew : ∀ s ∈ new, s.Canonical) :
    (spread key new).Fits := by
  refine fits_ofNew key (hlength.trans (by decide)) hnew fun b => ?_
  have hb := b.isLt
  have hcount : newBucketCount < Bytes.span 4 := by decide
  split
  · refine ⟨show 1 < Bytes.span 4 by decide, fun entry hentry => ?_⟩
    rw [List.mem_singleton.mp hentry]
    omega
  · exact ⟨by decide, nofun⟩

/-- The addresses of the content are those of the new records. -/
theorem nodup_ips_spread (hnodup : (new.map StoredRecord.ip).Nodup) :
    (((spread key new).new ++ (spread key new).tried).map StoredRecord.ip).Nodup := by
  rw [spread, ofNew, List.append_nil]
  exact hnodup

/-- Such content loses nothing. -/
theorem Loads.exists_of_spread (h : (spread key new).Loads d report)
    (hlength : new.length ≤ newBucketCount) (hs : new[i]? = some s) :
    ∃ r : Record, d.lookup s.endpoint = some (⟨i⟩, r) ∧ r.inTried = false ∧ s.Restored r := by
  have hi : i < new.length := (List.getElem?_eq_some_iff.mp hs).1
  refine h.exists_of_alone (b := ⟨i, hi.trans_le hlength⟩) (listed_ofNew key new _) hs
    (mem_entries_spread.mpr ⟨rfl, hi⟩) fun j hj => ?_
  exact (mem_entries_spread.mp hj).1

theorem Loads.size_of_spread (h : (spread key new).Loads d report) (hd : Cache.Coherent ∅ ∅ d)
    (hlength : new.length ≤ newBucketCount) : d.size = new.length := by
  have hnew : d.newCount = new.length := by
    refine h.newCount_of_kept hd fun i s hs => ?_
    obtain ⟨r, hlookup, -⟩ := h.exists_of_spread hlength hs
    rw [hlookup]
    exact Option.some_ne_none _
  have htried : report.triedCount = d.triedCount ∧ report.triedCount + report.lostTried = 0 :=
    h.triedCount
  have hsize : d.size = d.newCount + d.triedCount := (Cache.audit_eq_ok_iff.mp hd.sound.audit).1
  omega

/-- And it adds nothing. -/
theorem Loads.every_of_spread (h : (spread key new).Loads d report) :
    Cache.Every (fun r => ∃ s ∈ new, s.Restored r) d := by
  intro id r hr
  cases hkind : r.inTried with
  | false =>
      obtain ⟨s, hs, hrestored⟩ := h.exists_new id r hr hkind
      exact ⟨s, List.mem_of_getElem? hs, hrestored⟩
  | true =>
      obtain ⟨s, hs, -⟩ := h.exists_tried id r hr hkind
      cases hs

end StoredCache

namespace Cache

variable {c : Cache} {key : PlacementKey} {new : List StoredRecord} {allowed : Operation → Prop}

/-- No more records than buckets, in canonical notation and with different addresses: a
load leads to a cache that has these records and no others. -/
theorem exists_load_spread (h : Reachable allowed c) (w : Type) [Weight w]
    (hlength : new.length ≤ newBucketCount) (hcanonical : ∀ s ∈ new, s.Canonical)
    (hnodup : (new.map StoredRecord.ip).Nodup) (order : RemovalOrder)
    (hop : allowed (.load order (StoredCache.spread key new).toBytes))
    {σ : Type} [RandomSource σ] (s : σ) :
    ∃ d : Cache, (Operation.load order (StoredCache.spread key new).toBytes).perform w c s
        = .ok (d, s) ∧
      Reachable allowed d ∧ d.size = new.length ∧
      (∀ (i : Nat) (s : StoredRecord), new[i]? = some s → ∃ r : Record,
        d.lookup s.endpoint = some (⟨i⟩, r) ∧ r.inTried = false ∧ s.Restored r) ∧
      Every (fun r => ∃ s ∈ new, s.Restored r) d := by
  have hfits : (StoredCache.spread key new).Fits := StoredCache.fits_spread hlength hcanonical
  obtain ⟨m, lost, hleads, hrun⟩ :=
    hfits.exists_run (StoredCache.nodup_ips_spread hnodup) c.policy
  obtain ⟨d, hbytes, -, hd, hpruned, -⟩ := exists_ofBytes_of_run hrun order
  have hloads := (hleads.gathered hfits).loads hfits hd hpruned
  have hperform := Draw.run_map Prod.snd (load_of_ok hbytes s)
  exact ⟨d, hperform, .step (w := w) h hop hperform, hloads.size_of_spread hd hlength,
    fun i s hs => hloads.exists_of_spread hlength hs, hloads.every_of_spread⟩

end Cache

/-! ### Ten peers -/

/-- Ten peers that were never tried, at addresses next to each other. -/
def StoredRecord.tenPeers : List StoredRecord :=
  (List.range 10).map fun n => { untried with ip := .v4 ⟨8, 8, 8, .ofNat n⟩ }

namespace Cache

/-- For instance, a load leads to a cache of ten peers, none of them terrible. -/
theorem exists_load_tenPeers : ∃ c : Cache,
    (Operation.load .ascending (StoredCache.spread default StoredRecord.tenPeers).toBytes).perform
      Rat (ofKey .standard default) (⟨[], 0⟩ : SplitMix) = .ok (c, ⟨[], 0⟩) ∧
    Reachable (fun _ => True) c ∧ c.size = 10 ∧
    Every (fun r => r.isTerrible (.ofSecs 1700000000) = false) c := by
  have hempty : Reachable (fun _ => True) (ofKey .standard default) := .ofKey .standard default
  have hcanonical : ∀ s ∈ StoredRecord.tenPeers, s.Canonical := by
    intro s hs
    obtain ⟨n, -, rfl⟩ := List.mem_map.mp hs
    exact ⟨rfl, rfl⟩
  obtain ⟨c, hrun, hc, hsize, -, hrestored⟩ :=
    exists_load_spread hempty Rat (by decide) hcanonical (by decide) .ascending trivial
      (⟨[], 0⟩ : SplitMix)
  refine ⟨c, hrun, hc, hsize, fun id r hr => ?_⟩
  obtain ⟨s, hs, hkept⟩ := hrestored id r hr
  have hhealthy : ∀ s ∈ StoredRecord.tenPeers,
      (s.toRecord 0).isTerrible (.ofSecs 1700000000) = false := by decide
  exact (StoredRecord.restored_iff.mp hkept).isTerrible.trans (hhealthy s hs)

end Cache

end PeerCache
