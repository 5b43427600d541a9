import Mathlib.Data.Finset.Card
import PeerCache.Cache.Encode

/-!
# `PeerCache.Proofs.Cache.Records`: looking up records and counting them

A step that changes records is described by what a lookup returns after it. The
lemmas on `modify`, `insert` and `erase` put the lookup into that form: a
modified map is the old one with a function applied to each record.

`Cache.idsIn` is the set of record numbers in one table. The counters of a cache
are the sizes of these two sets.

`Cache.Descends` says that every record of the later cache was there before, with
the same history. Moving records between slots, tables and places of the order, and
removing records, leads to a descendant.
-/

set_option autoImplicit false

namespace PeerCache

theorem RecordId.compare_eq_iff {a b : RecordId} : compare a b = .eq ↔ a = b :=
  Std.LawfulEqCmp.compare_eq_iff_eq

section Lookup

variable (m : Std.ExtTreeMap RecordId Record) (id j : RecordId)

/-- A modified map applies the change to one record and keeps every other. -/
theorem getElem?_modify_eq_map (f : Record → Record) :
    (m.modify id f)[j]? = m[j]?.map fun r => if j = id then f r else r := by
  rw [Std.ExtTreeMap.getElem?_modify]
  by_cases h : id = j
  · subst h
    simp
  · rw [if_neg (by simpa [RecordId.compare_eq_iff] using h)]
    simp [Ne.symm h]

theorem getElem?_insert_eq_ite (r : Record) :
    (m.insert id r)[j]? = if j = id then some r else m[j]? := by
  rw [Std.ExtTreeMap.getElem?_insert]
  by_cases h : id = j
  · simp [h]
  · simp [h, Ne.symm h]

theorem getElem?_erase_eq_ite :
    (m.erase id)[j]? = if j = id then none else m[j]? := by
  rw [Std.ExtTreeMap.getElem?_erase]
  by_cases h : id = j
  · simp [h]
  · simp [h, Ne.symm h]

theorem mem_iff_exists_getElem? : id ∈ m ↔ ∃ r, m[id]? = some r := by
  rw [Std.ExtTreeMap.mem_iff_isSome_getElem?, Option.isSome_iff_exists]

/-- The numbers in a listing of the records differ. -/
theorem nodup_ids : (m.toList.map Prod.fst).Nodup := by
  rw [List.Nodup, List.pairwise_map]
  exact m.distinct_keys_toList.imp fun h he => h (RecordId.compare_eq_iff.mpr he)

end Lookup

namespace Cache

section

variable (c : Cache) (id : RecordId) (f : Record → Record)

theorem records_modifyRecord (j : RecordId) : (c.modifyRecord id f).records[j]? =
    c.records[j]?.map fun r => if j = id then f r else r :=
  getElem?_modify_eq_map c.records id j f

theorem getElem?_modifyRecord_self :
    (c.modifyRecord id f).records[id]? = c.records[id]?.map f := by
  simp [records_modifyRecord]

theorem getElem?_modifyRecord_of_ne {j : RecordId} (hj : j ≠ id) :
    (c.modifyRecord id f).records[j]? = c.records[j]? := by
  simp [records_modifyRecord, hj]

end

/-- The numbers of the records in one of the tables. -/
def idsIn (c : Cache) (tried : Bool) : Finset RecordId :=
  ((c.records.toList.filter fun (_, r) => r.inTried == tried).map Prod.fst).toFinset

@[simp] theorem mem_idsIn {c : Cache} {tried : Bool} {id : RecordId} :
    id ∈ c.idsIn tried ↔ ∃ r, c.records[id]? = some r ∧ r.inTried = tried := by
  simp [idsIn]

/-- The set has as many members as the listing of the records has entries. -/
theorem card_idsIn (c : Cache) (tried : Bool) :
    (c.idsIn tried).card = (c.records.toList.filter fun (_, r) => r.inTried == tried).length := by
  rw [idsIn, List.toFinset_card_of_nodup, List.length_map]
  exact (nodup_ids c.records).sublist (List.filter_sublist.map _)

theorem card_idsIn_false (c : Cache) : (c.idsIn false).card = c.newRecords.length := by
  rw [card_idsIn, newRecords]
  simp

theorem card_idsIn_true (c : Cache) : (c.idsIn true).card = c.triedRecords.length := by
  rw [card_idsIn, triedRecords]
  simp

/-- The numbers of all records. -/
def ids (c : Cache) : Finset RecordId := (c.records.toList.map Prod.fst).toFinset

@[simp] theorem mem_ids {c : Cache} {id : RecordId} :
    id ∈ c.ids ↔ ∃ r, c.records[id]? = some r := by
  rw [← mem_iff_exists_getElem?]
  simp [ids]

theorem card_ids (c : Cache) : c.ids.card = c.records.size := by
  rw [ids, List.toFinset_card_of_nodup (nodup_ids c.records), List.length_map,
    Std.ExtTreeMap.length_toList]

/-- Every record is in one of the tables. -/
theorem size_records (c : Cache) :
    c.records.size = (c.idsIn false).card + (c.idsIn true).card := by
  have hperm := List.filter_append_perm (fun x => !x.2.inTried) c.records.toList
  simp only [Bool.not_not] at hperm
  rw [← Std.ExtTreeMap.length_toList, ← hperm.length_eq, List.length_append, card_idsIn_false,
    card_idsIn_true]
  rfl

/-- A change of records that leaves each in its table leaves the set. -/
theorem idsIn_congr {c d : Cache} {tried : Bool} {g : RecordId → Record → Record}
    (hrec : ∀ j, d.records[j]? = c.records[j]?.map (g j))
    (hg : ∀ j r, c.records[j]? = some r → (g j r).inTried = r.inTried) :
    d.idsIn tried = c.idsIn tried := by
  ext j
  rw [mem_idsIn, mem_idsIn, hrec]
  cases hj : c.records[j]? with
  | none => simp
  | some r => simp [hg j r hj]

end Cache

/-! ### History -/

/-- The record without its place in the sampling order. -/
def Record.unranked (r : Record) : Record := { r with orderIndex := 0 }

/-- What does not depend on that place is the same of two records that differ in it only. -/
theorem Record.congr_unranked {α : Type} {r s : Record} (h : r.unranked = s.unranked)
    (f : Record → α) (hf : ∀ r : Record, f r.unranked = f r) : f r = f s := by
  rw [← hf r, h, hf s]

/-- Two records agree on all that is known about the peer. Their tables, references
and places in the sampling order may differ. -/
def Record.SameHistory (r s : Record) : Prop :=
  s = { r with inTried := s.inTried, refs := s.refs, orderIndex := s.orderIndex }

theorem Record.SameHistory.trans {r s t : Record} (hrs : r.SameHistory s) (hst : s.SameHistory t) :
    r.SameHistory t := by
  rw [Record.SameHistory] at hrs hst ⊢
  rw [hst, hrs]

theorem Record.SameHistory.of_unranked {r s : Record} (h : s.unranked = r.unranked) :
    r.SameHistory s := by
  have hs : s = { s.unranked with orderIndex := s.orderIndex } := rfl
  rw [Record.SameHistory, hs, h]
  rfl

/-- The judgement does not look at the place of the record in the cache. -/
theorem Record.SameHistory.isTerrible {r s : Record} {now : Timestamp} (h : r.SameHistory s) :
    s.isTerrible now = r.isTerrible now := by
  rw [h]
  rfl

/-- No time in the history of the record is second zero, which stands for "never"
in the stored form. -/
structure Record.Dated (r : Record) : Prop where
  lastSuccess : r.lastSuccess ≠ some .zero
  lastTry : r.lastTry ≠ some .zero

theorem Record.SameHistory.dated {r s : Record} (h : r.SameHistory s) (hr : r.Dated) :
    s.Dated := by
  rw [h]
  exact ⟨hr.lastSuccess, hr.lastTry⟩

namespace Cache

variable {c d e : Cache}

/-- Every record of the later cache was in the earlier one, with the same history. -/
def Descends (c d : Cache) : Prop :=
  ∀ (id : RecordId) (s : Record), d.records[id]? = some s →
    ∃ r : Record, c.records[id]? = some r ∧ r.SameHistory s

theorem Descends.refl (c : Cache) : Descends c c := fun _ s hs => ⟨s, hs, rfl⟩

theorem Descends.trans (hcd : Descends c d) (hde : Descends d e) : Descends c e := by
  intro id t ht
  obtain ⟨s, hs, hst⟩ := hde id t ht
  obtain ⟨r, hr, hrs⟩ := hcd id s hs
  exact ⟨r, hr, hrs.trans hst⟩

/-- A change of records that keeps the history of each leads to a descendant. -/
theorem Descends.of_map {g : RecordId → Record → Record}
    (hrec : ∀ j, d.records[j]? = c.records[j]?.map (g j))
    (hg : ∀ (j : RecordId) (r : Record), c.records[j]? = some r → r.SameHistory (g j r)) :
    Descends c d := by
  intro id s hs
  rw [hrec, Option.map_eq_some_iff] at hs
  obtain ⟨r, hr, rfl⟩ := hs
  exact ⟨r, hr, hg id r hr⟩

/-- A change of one record that keeps its history leads to a descendant. -/
theorem Descends.of_modify {id : RecordId} {f : Record → Record}
    (hrec : ∀ j, d.records[j]? = c.records[j]?.map fun r => if j = id then f r else r)
    (hf : ∀ r : Record, r.SameHistory (f r)) : Descends c d := by
  refine .of_map hrec fun j r _ => ?_
  by_cases hj : j = id
  · rw [if_pos hj]
    exact hf r
  · rw [if_neg hj]
    rfl

/-- Every record is of a kind. -/
def Every (P : Record → Prop) (c : Cache) : Prop :=
  ∀ (id : RecordId) (r : Record), c.records[id]? = some r → P r

/-- An empty cache has no record of another kind. -/
theorem every_ofKey (P : Record → Prop) (policy : Policy) (key : PlacementKey) :
    Every P (ofKey policy key) := by
  intro id r hr
  simp [ofKey] at hr

/-- A descendant has records of the kind only, when the kind is a matter of history. -/
theorem Descends.every {P : Record → Prop} (h : Descends c d)
    (hP : ∀ r s : Record, r.SameHistory s → P r → P s) (hc : Every P c) : Every P d := by
  intro id s hs
  obtain ⟨r, hr, hrs⟩ := h id s hs
  exact hP r s hrs (hc id r hr)

theorem Descends.dated (h : Descends c d) (hc : Every Record.Dated c) : Every Record.Dated d :=
  h.every (fun _ _ => Record.SameHistory.dated) hc

theorem Every.modifyRecord {P : Record → Prop} (hc : Every P c) {id : RecordId}
    {f : Record → Record} (hf : ∀ r, P r → P (f r)) : Every P (c.modifyRecord id f) := by
  intro j s hs
  rw [records_modifyRecord, Option.map_eq_some_iff] at hs
  obtain ⟨r, hr, rfl⟩ := hs
  split
  · exact hf r (hc j r hr)
  · exact hc j r hr

/-- The record found for an endpoint is in the cache, under that endpoint. -/
theorem lookup_eq_some {e : Endpoint} {id : RecordId} {r : Record}
    (h : c.lookup e = some (id, r)) : c.records[id]? = some r ∧ r.endpoint = e.canonical := by
  simp only [lookup, Option.bind_eq_bind, Option.bind_eq_some_iff] at h
  obtain ⟨id', -, r', hr', h⟩ := h
  split at h
  · next he =>
    cases h
    exact ⟨hr', he⟩
  · cases h

end Cache

end PeerCache
