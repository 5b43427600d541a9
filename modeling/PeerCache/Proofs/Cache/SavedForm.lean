import PeerCache.Proofs.Cache.RoundTrip

/-!
# `PeerCache.Proofs.Cache.SavedForm`: what a save keeps of a cache

The bytes of a time use zero for "never". A cache with a time zero in one of its
histories is therefore stored as the cache in which those histories say "never"
(`encode_saved`). That cache, `Cache.saved`, has no time zero left, so the round trip
applies to it.

`Coherent.exists_load`: the bytes of every coherent cache are accepted, and the loaded
cache holds the same as `Cache.saved`. `saved_eq_self`: without a time zero this is
the cache itself.
-/

set_option autoImplicit false

namespace PeerCache

namespace Record

/-- The record with "never" in place of a time zero. -/
def saved (r : Record) : Record :=
  { r with
    lastSuccess := r.lastSuccess.filter (· ≠ .zero)
    lastTry := r.lastTry.filter (· ≠ .zero) }

theorem dated_saved (r : Record) : r.saved.Dated where
  lastSuccess := by simp [saved, Option.filter_eq_some_iff]
  lastTry := by simp [saved, Option.filter_eq_some_iff]

theorem Dated.saved_eq {r : Record} (h : r.Dated) : r.saved = r := by
  have hkept : ∀ t : Option Timestamp, t ≠ some .zero → t.filter (· ≠ .zero) = t := by
    intro t ht
    cases t with
    | none => rfl
    | some t =>
        have hne : t ≠ .zero := fun hzero => ht (congrArg some hzero)
        rw [Option.filter_some, if_pos (decide_eq_true hne)]
  rw [saved, hkept _ h.lastSuccess, hkept _ h.lastTry]

end Record

namespace StoredRecord

/-- A time zero has the same stored form as a missing time. -/
theorem ofTime?_filter (t : Option Timestamp) : ofTime? (t.filter (· ≠ .zero)) = ofTime? t := by
  cases t with
  | none => rfl
  | some t =>
      by_cases hzero : t = .zero
      · subst hzero
        rfl
      · rw [Option.filter_some, if_pos (decide_eq_true hzero)]

theorem ofRecord_saved (r : Record) : ofRecord r.saved = ofRecord r := by
  show StoredRecord.mk _ _ _ _ _ _ (ofTime? (r.lastSuccess.filter (· ≠ .zero)))
    (ofTime? (r.lastTry.filter (· ≠ .zero))) _ = _
  rw [ofTime?_filter, ofTime?_filter]
  rfl

end StoredRecord

namespace Cache

variable {c : Cache}

/-- The cache with "never" in place of each time zero in the histories. -/
def saved (c : Cache) : Cache := { c with records := c.records.map fun _ r => r.saved }

theorem records_saved (c : Cache) (id : RecordId) :
    c.saved.records[id]? = c.records[id]?.map Record.saved :=
  Std.ExtTreeMap.getElem?_map

/-- The invariant does not depend on the histories. -/
theorem Coherent.saved (h : Coherent ∅ ∅ c) : Coherent ∅ ∅ c.saved :=
  h.congr (records_saved c) (fun _ _ _ => ⟨rfl, rfl, rfl, rfl, rfl⟩) rfl

theorem every_dated_saved (c : Cache) : Every Record.Dated c.saved := by
  intro id s hs
  rw [records_saved, Option.map_eq_some_iff] at hs
  obtain ⟨r, -, rfl⟩ := hs
  exact r.dated_saved

/-- A cache without a time zero is not changed. -/
theorem saved_eq_self (h : Every Record.Dated c) : c.saved = c := by
  have hrecords : c.records.map (fun _ r => r.saved) = c.records := by
    refine Std.ExtTreeMap.ext_getElem? fun id => ?_
    rw [Std.ExtTreeMap.getElem?_map]
    cases hr : c.records[id]? with
    | none => rfl
    | some r => exact congrArg some (h id r hr).saved_eq
  rw [Cache.saved, hrecords]

/-- A change of records that keeps the table and the stored form of each does not show
in the bytes. -/
theorem encode_map {f : Record → Record} (c : Cache) (htried : ∀ r, (f r).inTried = r.inTried)
    (hstored : ∀ r, StoredRecord.ofRecord (f r) = StoredRecord.ofRecord r) :
    ({ c with records := c.records.map fun _ r => f r } : Cache).encode = c.encode := by
  have hbytes : ∀ r : Record, recordBytes (f r) = recordBytes r := fun r => by
    rw [recordBytes, recordBytes, hstored]
  simp only [encode_eq, newRecords, triedRecords, Std.ExtTreeMap.toList_map, List.filter_map,
    Function.comp_def, htried, List.length_map, List.flatMap_map, List.map_map, hbytes]
  rfl

/-- The stored form does not tell a time zero from "never". -/
theorem encode_saved (c : Cache) : c.saved.encode = c.encode :=
  c.encode_map (fun _ => rfl) StoredRecord.ofRecord_saved

variable {σ : Type} [RandomSource σ]

/-- The bytes of a coherent cache are accepted whole by any other cache. The loaded
cache holds the same, but for the times zero. -/
theorem Coherent.exists_load (h : Coherent ∅ ∅ c) (c₀ : Cache) (order : RemovalOrder) (s : σ) :
    ∃ d : Cache, c₀.load order c.encode s = .ok ((.ok ⟨c.newCount, c.triedCount, 0, 0⟩, d), s) ∧
      Coherent ∅ ∅ d ∧ d.policy = c₀.policy ∧ Every Record.Dated d ∧
      c.saved.sameContents d = true := by
  obtain ⟨d, hbytes, hcopy, hd, hpolicy⟩ :=
    ofBytes_encode h.saved c.every_dated_saved c₀.policy order
  rw [encode_saved] at hbytes
  have hload := load_of_ok hbytes s
  exact ⟨d, hload, hd, hpolicy, ((ensures_load c₀ order c.encode).of_run hload).2.2,
    (hcopy.sameContents h.saved hd).2⟩

end Cache

end PeerCache
