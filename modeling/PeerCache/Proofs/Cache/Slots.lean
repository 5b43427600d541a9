import PeerCache.Cache.Learn
import PeerCache.Proofs.Cache.Bookkeeping

/-!
# `PeerCache.Proofs.Cache.Slots`: giving and freeing slots

The steps that change the new table, each with what it does to the invariant. Both
come from one statement about the slots and the references of one record
(`Coherent.retable`).

* `Coherent.put` gives a free slot to a record.
* `Coherent.clearNew` frees a slot. Its holder loses one reference, and is removed
  when that was the last one. `Cleared` says what stays.
-/

set_option autoImplicit false

namespace PeerCache

namespace Cache

variable {c d : Cache} {loose : Set RecordId} {uncounted : Finset RecordId}
  {id : RecordId} {r : Record}

/-- A change of the slots and the references of one record keeps the tables right,
when every holder belongs where it is, the other records keep their slots, and the
one record counts those that it has. -/
theorem Placed.retable (h : Placed c) {f : Nat → Nat}
    (hrec : ∀ j, d.records[j]? =
      c.records[j]?.map fun r => if j = id then { r with refs := f r.refs } else r)
    (hkey : d.key = c.key) (htried : d.triedTable = c.triedTable)
    (hslot : ∀ b p j, d.newTable.get b p = some j →
      ∃ r : Record, c.records[j]? = some r ∧ r.inTried = false ∧ c.newSlot b r.endpoint = p)
    (hothers : ∀ j, j ≠ id → d.newTable.held j = c.newTable.held j)
    (hself : ∀ r, c.records[id]? = some r →
      (d.newTable.held id).card = f r.refs ∧ f r.refs ≤ maxReferences) : Placed d where
  tried_iff b p j := by
    rw [htried, h.tried_iff, hrec]
    cases hr : c.records[j]? with
    | none => simp
    | some r => by_cases hj : j = id <;> simp [hj, triedSlot, hkey, Record.endpoint]
  new_slot b p j hget := by
    obtain ⟨r, hr, hnew, hp⟩ := hslot b p j hget
    refine ⟨_, by rw [hrec, hr]; rfl, ?_⟩
    rw [newSlot, hkey]
    dsimp only
    split
    · exact ⟨hnew, hp⟩
    · exact ⟨hnew, hp⟩
  card_held j r' hr' := by
    rw [hrec, Option.map_eq_some_iff] at hr'
    obtain ⟨r, hr, rfl⟩ := hr'
    by_cases hj : j = id
    · subst hj
      rw [if_pos rfl]
      exact (hself r hr).1
    · rw [if_neg hj, hothers j hj]
      exact h.card_held j r hr
  refs_le j r' hr' := by
    rw [hrec, Option.map_eq_some_iff] at hr'
    obtain ⟨r, hr, rfl⟩ := hr'
    by_cases hj : j = id
    · subst hj
      rw [if_pos rfl]
      exact (hself r hr).2
    · rw [if_neg hj]
      exact h.refs_le j r hr

/-- Such a change keeps the whole invariant. What is loose and what is counted may
change along with it. -/
theorem Coherent.retable (h : Coherent loose uncounted c) {f : Nat → Nat} {loose' : Set RecordId}
    {uncounted' : Finset RecordId}
    (hrec : ∀ j, d.records[j]? =
      c.records[j]?.map fun r => if j = id then { r with refs := f r.refs } else r)
    (hrest : d = { c with
      records := d.records, newTable := d.newTable, newCount := d.newCount })
    (hslot : ∀ b p j, d.newTable.get b p = some j →
      ∃ r : Record, c.records[j]? = some r ∧ r.inTried = false ∧ c.newSlot b r.endpoint = p)
    (hothers : ∀ j, j ≠ id → d.newTable.held j = c.newTable.held j)
    (hself : ∀ r, c.records[id]? = some r →
      (d.newTable.held id).card = f r.refs ∧ f r.refs ≤ maxReferences ∧
        (f r.refs = 0 → id ∈ loose'))
    (hloose : loose \ {id} ⊆ loose') (hcount : d.newCount = (c.idsIn false \ uncounted').card) :
    Coherent loose' uncounted' d := by
  have hids : ∀ tried, d.idsIn tried = c.idsIn tried := fun tried =>
    idsIn_congr hrec fun j r _ => by by_cases hj : j = id <;> simp [hj]
  have hplaced : Placed d :=
    h.toPlaced.retable hrec (by rw [hrest]) (by rw [hrest]) hslot hothers fun r hr =>
      ⟨(hself r hr).1, (hself r hr).2.1⟩
  refine ⟨h.toIndexed.congr hrec (fun j r _ => ?_) (by rw [hrest]) (by rw [hrest]) (by rw [hrest]),
    hplaced, fun j r' hr' hnew hrefs => ?_, ?_, ?_⟩
  · by_cases hj : j = id <;> simp [hj, Record.endpoint]
  · rw [hrec, Option.map_eq_some_iff] at hr'
    obtain ⟨r, hr, rfl⟩ := hr'
    by_cases hj : j = id
    · subst hj
      rw [if_pos rfl] at hrefs
      exact (hself r hr).2.2 hrefs
    · rw [if_neg hj] at hnew hrefs
      exact hloose ⟨h.mem_loose j r hr hnew hrefs, hj⟩
  · rw [hids]
    exact hcount
  · have htried : d.triedCount = c.triedCount := by rw [hrest]
    rw [hids, htried]
    exact h.triedCount_eq

/-! ### Giving a free slot -/

/-- A record of the new table that has room may take the free slot that its
endpoint hashes to in a bucket. It is no longer loose then. -/
theorem Coherent.put (h : Coherent loose uncounted c) {b : Fin newBucketCount}
    {p : Fin bucketSize} (hfree : c.newTable.get b p = none) (hr : c.records[id]? = some r)
    (hnew : r.inTried = false) (hrefs : r.refs < maxReferences)
    (hslot : c.newSlot b r.endpoint = p)
    (hrec : ∀ j, d.records[j]? =
      c.records[j]?.map fun r => if j = id then { r with refs := r.refs + 1 } else r)
    (hrest : d = { c with records := d.records, newTable := c.newTable.update b p (some id) }) :
    Coherent (loose \ {id}) uncounted d := by
  have htable : d.newTable = c.newTable.update b p (some id) := by rw [hrest]
  refine h.retable hrec (by rw [hrest]) (fun b' p' j hget => ?_) (fun j hj => ?_)
    (fun r' hr' => ?_) subset_rfl (by rw [hrest]; exact h.newCount_eq)
  · rw [htable, SlotTable.get_update] at hget
    split at hget
    · next hbp =>
      obtain ⟨rfl, rfl⟩ := hbp
      cases hget
      exact ⟨r, hr, hnew, hslot⟩
    · exact h.new_slot b' p' j hget
  · rw [htable]
    refine SlotTable.held_update_of_ne ?_ fun he => hj (Option.some.inj he).symm
    rw [hfree]
    exact nofun
  · rw [hr] at hr'
    cases hr'
    -- The slot was free, so the record has one more than before.
    have hnotin : (b, p) ∉ c.newTable.held id := by
      rw [SlotTable.mem_held, hfree]
      exact nofun
    rw [htable, SlotTable.held_update, if_pos rfl, Finset.card_insert_of_notMem hnotin,
      h.card_held id r hr]
    exact ⟨rfl, hrefs, nofun⟩

theorem records_addReference (c : Cache) (b : Fin newBucketCount) (p : Fin bucketSize)
    (id j : RecordId) : (c.addReference b p id).records[j]? =
      c.records[j]?.map fun r => if j = id then { r with refs := r.refs + 1 } else r :=
  getElem?_modify_eq_map c.records id j _

theorem descends_addReference (c : Cache) (b : Fin newBucketCount) (p : Fin bucketSize)
    (id : RecordId) : Descends c (c.addReference b p id) :=
  .of_modify (records_addReference c b p id) fun _ => rfl

theorem Coherent.addReference (h : Coherent loose uncounted c) {b : Fin newBucketCount}
    {p : Fin bucketSize} (hfree : c.newTable.get b p = none) (hr : c.records[id]? = some r)
    (hnew : r.inTried = false) (hrefs : r.refs < maxReferences)
    (hslot : c.newSlot b r.endpoint = p) :
    Coherent (loose \ {id}) uncounted (c.addReference b p id) :=
  h.put hfree hr hnew hrefs hslot (records_addReference c b p id) rfl

/-! ### Freeing a slot -/

/-- The cache with a slot of the new table freed and one reference of its holder
taken off. The holder may be left without any. -/
def released (c : Cache) (b : Fin newBucketCount) (p : Fin bucketSize) (id : RecordId) : Cache :=
  { c with newTable := c.newTable.update b p none }.modifyRecord id fun r =>
    { r with refs := r.refs - 1 }

theorem records_released (c : Cache) (b : Fin newBucketCount) (p : Fin bucketSize)
    (id j : RecordId) : (c.released b p id).records[j]? =
      c.records[j]?.map fun r => if j = id then { r with refs := r.refs - 1 } else r :=
  getElem?_modify_eq_map c.records id j _

theorem Coherent.released (h : Coherent loose uncounted c) {b : Fin newBucketCount}
    {p : Fin bucketSize} (hget : c.newTable.get b p = some id) :
    Coherent (insert id loose) uncounted (c.released b p id) := by
  have htable : (c.released b p id).newTable = c.newTable.update b p none := rfl
  refine h.retable (f := fun n => n - 1) (records_released c b p id) rfl (fun b' p' j hget' => ?_)
    (fun j hj => ?_) (fun r hr => ⟨?_, ?_, fun _ => Or.inl rfl⟩) ?_ h.newCount_eq
  · rw [htable, SlotTable.get_update] at hget'
    split at hget'
    · cases hget'
    · exact h.new_slot b' p' j hget'
  · refine SlotTable.held_update_of_ne ?_ nofun
    rw [hget]
    exact fun he => hj (Option.some.inj he).symm
  · have hmem : (b, p) ∈ c.newTable.held id := SlotTable.mem_held.mpr hget
    rw [htable, SlotTable.held_update, if_neg nofun, Finset.card_erase_of_mem hmem,
      h.card_held id r hr]
  · exact Nat.le_trans (Nat.sub_le _ _) (h.refs_le id r hr)
  · exact fun j hj => Or.inr hj.1

/-- What freeing a slot of the new table leaves and what it changes. The holder
loses a reference and is removed with its last one. Every other record keeps all
but its place in the sampling order. -/
structure Cleared (b : Fin newBucketCount) (p : Fin bucketSize) (c d : Cache) : Prop where
  policy : d.policy = c.policy
  key : d.key = c.key
  nextId : d.nextId = c.nextId
  newTable : d.newTable = c.newTable.update b p none
  triedTable : d.triedTable = c.triedTable
  triedCount : d.triedCount = c.triedCount
  holder : ∀ id r, c.newTable.get b p = some id → c.records[id]? = some r →
    d.records[id]? = if r.refs = 1 then none else some { r with refs := r.refs - 1 }
  others : ∃ f, ∀ j, c.newTable.get b p ≠ some j →
    d.records[j]? = c.records[j]?.map (Record.moved f)

/-- The slot is free afterwards. -/
theorem Cleared.get_eq_none {b : Fin newBucketCount} {p : Fin bucketSize} (h : Cleared b p c d) :
    d.newTable.get b p = none := by
  rw [h.newTable, SlotTable.get_update, if_pos ⟨rfl, rfl⟩]

/-- Every endpoint belongs where it did. -/
theorem Cleared.newSlot_eq {b : Fin newBucketCount} {p : Fin bucketSize} (h : Cleared b p c d)
    (b' : Fin newBucketCount) (e : Endpoint) : d.newSlot b' e = c.newSlot b' e := by
  rw [newSlot, newSlot, h.key]

/-- A record that does not hold the slot changes at most its place in the sampling
order. -/
theorem Cleared.unranked_others {b : Fin newBucketCount} {p : Fin bucketSize} {j : RecordId}
    (h : Cleared b p c d) (hj : c.newTable.get b p ≠ some j) :
    d.records[j]?.map Record.unranked = c.records[j]?.map Record.unranked := by
  obtain ⟨f, hothers⟩ := h.others
  rw [hothers j hj, Option.map_map, Record.unranked_comp_moved]

theorem Cleared.descends {b : Fin newBucketCount} {p : Fin bucketSize} (h : Cleared b p c d)
    (hplaced : Placed c) : Descends c d := by
  intro id s hs
  by_cases hget : c.newTable.get b p = some id
  · obtain ⟨r, hr, -⟩ := hplaced.new_slot b p id hget
    rw [h.holder id r hget hr] at hs
    split at hs
    · cases hs
    · cases hs
      exact ⟨r, hr, rfl⟩
  · obtain ⟨f, hothers⟩ := h.others
    rw [hothers id hget, Option.map_eq_some_iff] at hs
    obtain ⟨r, hr, rfl⟩ := hs
    exact ⟨r, hr, rfl⟩

/-- Freeing an occupied slot takes a reference off the holder, which is removed
when it has none left. -/
theorem clearNew_of_some {b : Fin newBucketCount} {p : Fin bucketSize}
    (hget : c.newTable.get b p = some id) (hr : c.records[id]? = some r) :
    c.clearNew b p =
      if r.refs - 1 = 0 && !r.inTried then (c.released b p id).delete id
      else .ok (c.released b p id) := by
  have hr' : (c.released b p id).records[id]? = some { r with refs := r.refs - 1 } := by
    rw [records_released, hr]
    simp
  unfold Cache.clearNew
  simp only [SlotTable.take, hget]
  split
  · next s hs =>
    rw [Option.some.inj (hs.symm.trans hr')]
    rfl
  · next hnone => exact absurd (hr'.symm.trans hnone) (by simp)

theorem Cleared.of_free {b : Fin newBucketCount} {p : Fin bucketSize}
    (hfree : c.newTable.get b p = none) : Cleared b p c c where
  policy := rfl
  key := rfl
  nextId := rfl
  newTable := (SlotTable.update_none_of_get hfree).symm
  triedTable := rfl
  triedCount := rfl
  holder id r hget := by
    rw [hfree] at hget
    cases hget
  others := by
    refine ⟨id, fun j _ => ?_⟩
    have hid : Record.moved id = id := rfl
    rw [hid, Option.map_id, id]

/-- The holder keeps the slots that it has left. -/
theorem Cleared.of_released {b : Fin newBucketCount} {p : Fin bucketSize}
    (hget : c.newTable.get b p = some id) (hr : c.records[id]? = some r) (hmore : r.refs ≠ 1) :
    Cleared b p c (c.released b p id) where
  policy := rfl
  key := rfl
  nextId := rfl
  newTable := rfl
  triedTable := rfl
  triedCount := rfl
  holder j s he hs := by
    rw [hget] at he
    cases he
    rw [hr] at hs
    cases hs
    rw [records_released, hr, if_neg hmore, Option.map_some, if_pos rfl]
  others := by
    refine ⟨fun n => n, fun j hj => ?_⟩
    have hne : j ≠ id := by
      rintro rfl
      exact hj hget
    rw [records_released]
    simp only [if_neg hne]
    rfl

/-- The holder goes with its last slot. -/
theorem Cleared.of_removed {b : Fin newBucketCount} {p : Fin bucketSize}
    (hget : c.newTable.get b p = some id) (hr : c.records[id]? = some r) (hlast : r.refs = 1)
    (h : Removed id (c.released b p id) d) : Cleared b p c d where
  policy := h.policy
  key := h.key
  nextId := h.nextId
  newTable := h.newTable
  triedTable := h.triedTable
  triedCount := h.triedCount
  holder j s he hs := by
    rw [hget] at he
    cases he
    rw [hr] at hs
    cases hs
    rw [h.gone, if_pos hlast]
  others := by
    obtain ⟨f, hothers⟩ := h.others
    refine ⟨f, fun j hj => ?_⟩
    have hne : j ≠ id := by
      rintro rfl
      exact hj hget
    rw [hothers j hne, records_released]
    simp only [if_neg hne, Option.map_id_fun']
    rfl

/-- Freeing a slot of the new table succeeds and keeps the invariant. The holder of
the slot must be counted, since it may have to be removed. -/
theorem Coherent.clearNew (h : Coherent loose uncounted c) (b : Fin newBucketCount)
    (p : Fin bucketSize) (hcounted : ∀ id, c.newTable.get b p = some id → id ∉ uncounted) :
    ∃ d, c.clearNew b p = .ok d ∧ Coherent loose uncounted d ∧ Cleared b p c d := by
  cases hget : c.newTable.get b p with
  | none => exact ⟨c, by simp [Cache.clearNew, SlotTable.take, hget], h, .of_free hget⟩
  | some id =>
      obtain ⟨r, hr, hnew, -⟩ := h.new_slot b p id hget
      have hrel := h.released hget
      have hr' : (c.released b p id).records[id]? = some { r with refs := r.refs - 1 } := by
        rw [records_released, hr]
        simp
      -- The holder counts the slot that is freed.
      have hpos : r.refs ≠ 0 := by
        rw [← h.card_held id r hr, Finset.card_ne_zero]
        exact ⟨(b, p), SlotTable.mem_held.mpr hget⟩
      rw [clearNew_of_some hget hr]
      by_cases hlast : r.refs = 1
      · -- The last reference is gone, and the holder goes with it.
        obtain ⟨d, hdelete, hcoherent, hremoved⟩ :=
          hrel.delete hr' hnew (by simp [hlast]) (hcounted id hget)
        refine ⟨d, by simp [hlast, hnew, hdelete], hcoherent.mono ?_,
          .of_removed hget hr hlast hremoved⟩
        intro j s hs _ _ hj
        rcases hj with rfl | hj
        · rw [hremoved.gone] at hs
          cases hs
        · exact hj
      · -- It has other slots, so it is not loose.
        have hleft : r.refs - 1 ≠ 0 := by omega
        refine ⟨c.released b p id, by rw [if_neg (by simp [hleft])], hrel.mono ?_,
          .of_released hget hr hlast⟩
        intro j s hs _ hrefs hj
        rcases hj with rfl | hj
        · rw [hr'] at hs
          cases hs
          exact absurd hrefs hleft
        · exact hj

/-- A record may take a slot over from another holder. -/
theorem Coherent.takeOver (h : Coherent loose uncounted c) (hr : c.records[id]? = some r)
    (hnew : r.inTried = false) (hrefs : r.refs < maxReferences) {b : Fin newBucketCount}
    {p : Fin bucketSize} (hslot : c.newSlot b r.endpoint = p)
    (hother : c.newTable.get b p ≠ some id)
    (hcounted : ∀ j, c.newTable.get b p = some j → j ∉ uncounted) :
    ∃ d, c.clearNew b p = .ok d ∧ Coherent (loose \ {id}) uncounted (d.addReference b p id) ∧
      Descends c (d.addReference b p id) ∧ Cleared b p c d := by
  obtain ⟨d, hclear, hd, hcleared⟩ := h.clearNew b p hcounted
  obtain ⟨f, hmoved⟩ := hcleared.others
  have hrd : d.records[id]? = some (r.moved f) := by
    rw [hmoved id hother, hr]
    rfl
  have hplace : d.newSlot b r.endpoint = p := (hcleared.newSlot_eq b r.endpoint).trans hslot
  exact ⟨d, hclear, hd.addReference hcleared.get_eq_none hrd hnew hrefs hplace,
    (hcleared.descends h.toPlaced).trans (descends_addReference d b p id), hcleared⟩

end Cache

end PeerCache
