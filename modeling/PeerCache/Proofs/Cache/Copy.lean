import PeerCache.Proofs.Cache.Load

/-!
# `PeerCache.Proofs.Cache.Copy`: loading what was stored

A load of the bytes of a cache builds the cache again under other numbers: each
record gets its place in the file as its number. `Copy` says how far that has come.
The records read so far are a prefix of the list of all records, new ones first, and
the slots of the new table that have been given out are those in `done`. Each such
slot is held by the record that held it before, under its new number.

Every step of the load extends the copy (`Copy.loadNew_all`, `Copy.loadTried_all`,
`Copy.loadEntries`), and none of the checks on the way fails: addresses differ
because the stored cache has one record per address, a slot of the tried table is
free because the stored cache had one holder for it, and a record that is offered a
slot holds fewer than it did before.
-/

set_option autoImplicit false

namespace PeerCache

open Decoder

/-- The entries of a list with one more at the end. -/
theorem getElem?_concat_eq_some {α : Type} {l : List α} {x y : α} {i : Nat} :
    (l ++ [x])[i]? = some y ↔ l[i]? = some y ∨ i = l.length ∧ x = y := by
  rw [List.getElem?_append]
  split
  · next hlt =>
    have hne : i ≠ l.length := Nat.ne_of_lt hlt
    simp [hne]
  · next hge =>
    have hnone : l[i]? = none := List.getElem?_eq_none (Nat.le_of_not_lt hge)
    by_cases hi : i = l.length
    · simp [hi]
    · have hpos : i - l.length ≠ 0 := by omega
      simp [hnone, hi, hpos]

namespace Cache

variable {policy : Policy} {c m : Cache} {L : List (RecordId × Record)}
  {done : Set (Fin newBucketCount × Fin bucketSize)} {newTotal : Nat}

theorem mem_newRecords {x : RecordId × Record} :
    x ∈ c.newRecords ↔ c.records[x.1]? = some x.2 ∧ x.2.inTried = false := by
  obtain ⟨id, r⟩ := x
  simp [newRecords]

theorem mem_triedRecords {x : RecordId × Record} :
    x ∈ c.triedRecords ↔ c.records[x.1]? = some x.2 ∧ x.2.inTried = true := by
  obtain ⟨id, r⟩ := x
  simp [triedRecords]

theorem nodup_newRecords (c : Cache) : (c.newRecords.map Prod.fst).Nodup :=
  (nodup_ids c.records).sublist (List.filter_sublist.map _)

/-- All records, new ones first, as they are stored. -/
def storedRecords (c : Cache) : List (RecordId × Record) := c.newRecords ++ c.triedRecords

theorem mem_storedRecords {x : RecordId × Record} :
    x ∈ c.storedRecords ↔ c.records[x.1]? = some x.2 := by
  rw [storedRecords, List.mem_append, mem_newRecords, mem_triedRecords]
  cases x.2.inTried <;> simp

theorem nodup_storedRecords (c : Cache) : (c.storedRecords.map Prod.fst).Nodup := by
  rw [storedRecords, List.map_append, List.nodup_append']
  refine ⟨c.nodup_newRecords,
    (nodup_ids c.records).sublist (List.filter_sublist.map _), fun id hid hid' => ?_⟩
  obtain ⟨x, hx, rfl⟩ := List.mem_map.mp hid
  obtain ⟨y, hy, he⟩ := List.mem_map.mp hid'
  obtain ⟨hx, hnew⟩ := mem_newRecords.mp hx
  obtain ⟨hy, htried⟩ := mem_triedRecords.mp hy
  rw [he, hx] at hy
  rw [← Option.some.inj hy, hnew] at htried
  cases htried

/-- A number occurs at one place of the list. -/
theorem place_unique {L : List (RecordId × Record)} (hnodup : (L.map Prod.fst).Nodup) {i j : Nat}
    {x y : RecordId × Record} (hi : L[i]? = some x) (hj : L[j]? = some y) (he : x.1 = y.1) :
    i = j := by
  have hlt : i < (L.map Prod.fst).length := by
    rw [List.length_map]
    exact (List.getElem?_eq_some_iff.mp hi).1
  refine (List.getElem?_inj hlt hnodup).mp ?_
  rw [List.getElem?_map, List.getElem?_map, hi, hj]
  exact congrArg some he

/-- The number of a record does not occur earlier in the list. -/
theorem notMem_earlier {pre post : List (RecordId × Record)} {x : RecordId × Record}
    (hsplit : c.storedRecords = pre ++ x :: post) : x.1 ∉ pre.map Prod.fst := by
  have hnodup := c.nodup_storedRecords
  rw [hsplit, List.map_append, List.map_cons, List.nodup_append'] at hnodup
  exact fun hmem => hnodup.2.2 hmem List.mem_cons_self

/-- A cache that holds the records of a list under their places, and of the slots
that they held in another cache those of the tried table and the given ones of the
new table. -/
structure Copy (c : Cache) (L : List (RecordId × Record))
    (done : Set (Fin newBucketCount × Fin bucketSize)) (m : Cache) : Prop where
  key : m.key = c.key
  nextId : m.nextId = L.length
  size_order : m.order.size = L.length
  records : ∀ id : RecordId, m.records[id]? = L[id.number]?.map fun x =>
    { x.2 with orderIndex := id.number, refs := (m.newTable.held id).card }
  newTable : ∀ b p id, m.newTable.get b p = some id ↔
    (b, p) ∈ done ∧ ∃ x, L[id.number]? = some x ∧ c.newTable.get b p = some x.1
  triedTable : ∀ b p id, m.triedTable.get b p = some id ↔
    ∃ x, L[id.number]? = some x ∧ c.triedTable.get b p = some x.1

/-- The address of a record that is still to come is unknown to the copy. -/
theorem Copy.unknown (hm : Copy c L done m) (hload : Loading policy newTotal m) (h : Indexed c)
    (hL : ∀ x ∈ L, c.records[x.1]? = some x.2) {x : RecordId × Record}
    (hx : c.records[x.1]? = some x.2) (hfresh : x.1 ∉ L.map Prod.fst) :
    ¬ m.addresses.contains (StoredRecord.ofRecord x.2).ip := by
  rw [StoredRecord.ip_ofRecord (h.canonical x.1 x.2 hx).1]
  intro hknown
  obtain ⟨id, hid⟩ := Option.isSome_iff_exists.mp
    (Std.ExtHashMap.isSome_getElem?_eq_contains.trans hknown)
  -- The known address is that of a record read before, and addresses do not repeat.
  obtain ⟨r, hr, hip⟩ := (hload.addresses_iff _ id).mp hid
  rw [hm.records, Option.map_eq_some_iff] at hr
  obtain ⟨y, hy, rfl⟩ := hr
  have hmem := List.mem_of_getElem? hy
  have he : y.1 = x.1 := h.id_unique (hL y hmem) hx hip
  exact hfresh (he ▸ List.mem_map_of_mem hmem)

/-! ### Reading the records -/

/-- The empty cache is the copy of nothing. -/
theorem copy_ofKey (c : Cache) (policy : Policy) : Copy c [] ∅ (ofKey policy c.key) where
  key := rfl
  nextId := rfl
  size_order := rfl
  records := by simp [ofKey]
  newTable := by simp [ofKey]
  triedTable := by simp [ofKey]

/-- A record that is added goes to the end of the copied list. -/
theorem Copy.append (hm : Copy c L ∅ m) (hload : Loading policy newTotal m) {x : RecordId × Record}
    {d : Cache} (hkey : d.key = m.key) (hnextId : d.nextId = m.nextId + 1)
    (hsize : d.order.size = m.order.size + 1) (hnewTable : d.newTable = m.newTable)
    (hrecords : ∀ id : RecordId, d.records[id]? = if id = ⟨m.nextId⟩ then
      some { x.2 with orderIndex := m.nextId, refs := 0 } else m.records[id]?)
    (htried : ∀ b p id, d.triedTable.get b p = some id ↔
      m.triedTable.get b p = some id ∨ id = ⟨m.nextId⟩ ∧ c.triedTable.get b p = some x.1) :
    Copy c (L ++ [x]) ∅ d where
  key := hkey.trans hm.key
  nextId := by rw [hnextId, hm.nextId, List.length_append, List.length_singleton]
  size_order := by rw [hsize, hm.size_order, List.length_append, List.length_singleton]
  records id := by
    rw [hrecords, hnewTable]
    by_cases hid : id = ⟨m.nextId⟩
    · -- The number was free, so no slot names it.
      subst hid
      have hnone : m.newTable.held ⟨m.nextId⟩ = ∅ :=
        SlotTable.held_eq_empty_iff.mpr (hload.get_ne_of_none hload.getElem?_nextId).1
      rw [if_pos rfl, hnone, hm.nextId]
      simp
    · have hne : id.number ≠ L.length := by
        rw [← hm.nextId]
        exact fun he => hid (congrArg RecordId.mk he)
      rw [if_neg hid, hm.records]
      congr 1
      ext1 y
      rw [getElem?_concat_eq_some]
      simp [hne]
  newTable b p id := by simp [hnewTable, hm.newTable]
  triedTable b p id := by
    rw [htried, hm.triedTable]
    simp only [getElem?_concat_eq_some]
    constructor
    · rintro (⟨y, hy, hget⟩ | ⟨rfl, hget⟩)
      · exact ⟨y, Or.inl hy, hget⟩
      · exact ⟨x, Or.inr ⟨hm.nextId, rfl⟩, hget⟩
    · rintro ⟨y, hy | ⟨hid, rfl⟩, hget⟩
      · exact Or.inl ⟨y, hy, hget⟩
      · refine Or.inr ⟨?_, hget⟩
        rw [hm.nextId, ← hid]

/-- A stored new record extends the copy. -/
theorem Copy.loadNew (h : Coherent ∅ ∅ c) (hdated : Every Record.Dated c) (hm : Copy c L ∅ m)
    (hload : Loading policy newTotal m) (hL : ∀ x ∈ L, c.records[x.1]? = some x.2)
    {x : RecordId × Record} (hx : x ∈ c.newRecords) (hfresh : x.1 ∉ L.map Prod.fst) :
    ∃ d : Cache, m.loadNew true (.ofRecord x.2) = .ok d ∧ Copy c (L ++ [x]) ∅ d ∧
      Loading policy newTotal d := by
  obtain ⟨hr, hnew⟩ := mem_newRecords.mp hx
  obtain ⟨hendpoint, hsource⟩ := h.canonical x.1 x.2 hr
  have hunknown := hm.unknown hload h.toIndexed hL hr hfresh
  have hrun := loadNew_of_unknown hunknown
  have hnext := hload.loadNew (StoredRecord.canonical_ofRecord x.2) true
  rw [hrun] at hnext
  refine ⟨_, hrun, hm.append hload rfl rfl (Array.size_push _) rfl (fun id => ?_) fun b p id => ?_,
    hnext.1⟩
  · refine (records_inserted m _ id).trans ?_
    rw [StoredRecord.toRecord_ofRecord hendpoint hsource (hdated x.1 x.2 hr), hm.size_order,
      hm.nextId, ← hnew]
  · have hno := h.get_ne_of_new hr hnew b p
    simp [Cache.inserted, hno]

/-- A stored tried record extends the copy, and is not lost. -/
theorem Copy.loadTried (h : Coherent ∅ ∅ c) (hdated : Every Record.Dated c) (hm : Copy c L ∅ m)
    (hload : Loading policy newTotal m) (hnext : newTotal ≤ m.nextId)
    (hL : ∀ x ∈ L, c.records[x.1]? = some x.2) {x : RecordId × Record} (hx : x ∈ c.triedRecords)
    (hfresh : x.1 ∉ L.map Prod.fst) :
    ∃ d : Cache, Cache.loadTried (m, 0) (.ofRecord x.2) = .ok (d, 0) ∧ Copy c (L ++ [x]) ∅ d ∧
      Loading policy newTotal d ∧ newTotal ≤ d.nextId := by
  obtain ⟨hr, htried⟩ := mem_triedRecords.mp hx
  obtain ⟨hendpoint, hsource⟩ := h.canonical x.1 x.2 hr
  have hunknown := hm.unknown hload h.toIndexed hL hr hfresh
  obtain ⟨b, p, hslot⟩ : ∃ b p, c.triedSlot x.2.endpoint = (b, p) := ⟨_, _, rfl⟩
  have hget : c.triedTable.get b p = some x.1 := (h.tried_iff b p x.1).mpr ⟨x.2, hr, htried, hslot⟩
  have hslotm : m.triedSlot (StoredRecord.ofRecord x.2).endpoint = (b, p) := by
    rw [StoredRecord.endpoint_ofRecord hendpoint, triedSlot, hm.key]
    exact hslot
  have hfree : m.triedTable.get b p = none := by
    -- The record that held the slot before has not been read yet.
    refine Option.eq_none_iff_forall_ne_some.mpr fun id hid => ?_
    obtain ⟨y, hy, hgety⟩ := (hm.triedTable b p id).mp hid
    rw [hget] at hgety
    exact hfresh (Option.some.inj hgety ▸ List.mem_map_of_mem (List.mem_of_getElem? hy))
  have hrun := loadTried_of_free hunknown hslotm hfree 0
  have hstep := hload.loadTried (StoredRecord.canonical_ofRecord x.2) hnext 0
  rw [hrun] at hstep
  refine ⟨_, hrun,
    hm.append hload rfl rfl (Array.size_push _) rfl (fun id => ?_) fun b' p' id => ?_, hstep⟩
  · -- The record is read as a new one and put into the table at once.
    rw [records_seated, records_inserted,
      StoredRecord.toRecord_ofRecord hendpoint hsource (hdated x.1 x.2 hr), hm.size_order,
      hm.nextId]
    by_cases hid : id = ⟨L.length⟩
    · simp [hid, ← htried]
    · simp [hid]
  · show (m.triedTable.update b p (some ⟨m.nextId⟩)).get b' p' = some id ↔ _
    rw [SlotTable.get_update]
    split
    · next hbp =>
      obtain ⟨rfl, rfl⟩ := hbp
      simp [hfree, hget, eq_comm]
    · next hbp =>
      have hno : c.triedTable.get b' p' ≠ some x.1 := fun hget' => by
        have hslot' := (h.of_triedTable hr hget').2
        rw [hslot] at hslot'
        exact hbp ⟨(Prod.mk.inj hslot').1, (Prod.mk.inj hslot').2⟩
      simp [hno]

/-- Reading all stored new records. -/
theorem Copy.loadNew_all (h : Coherent ∅ ∅ c) (hdated : Every Record.Dated c)
    {pre post : List (RecordId × Record)} (hsplit : c.newRecords = pre ++ post)
    (hm : Copy c pre ∅ m) (hload : Loading policy newTotal m) :
    ∃ d : Cache,
      (post.map fun x => StoredRecord.ofRecord x.2).foldlM (Cache.loadNew true) m = .ok d ∧
        Copy c c.newRecords ∅ d ∧ Loading policy newTotal d := by
  -- `pre` is what the copy holds already, `post` what is still to be read.
  induction post generalizing pre m with
  | nil =>
      rw [List.append_nil] at hsplit
      rw [hsplit]
      exact ⟨m, rfl, hm, hload⟩
  | cons x post ih =>
      have hx : x ∈ c.newRecords := hsplit ▸ List.mem_append_right pre List.mem_cons_self
      have hpre : ∀ y ∈ pre, c.records[y.1]? = some y.2 := fun y hy =>
        (mem_newRecords.mp (hsplit ▸ List.mem_append_left _ hy)).1
      have hfresh : x.1 ∉ pre.map Prod.fst :=
        notMem_earlier (by rw [storedRecords, hsplit, List.append_assoc, List.cons_append])
      obtain ⟨d, hrun, hd, hdload⟩ := hm.loadNew h hdated hload hpre hx hfresh
      obtain ⟨e, hrest, he⟩ := ih (by rw [hsplit, List.append_assoc]; rfl) hd hdload
      refine ⟨e, ?_, he⟩
      rw [List.map_cons, List.foldlM_cons, hrun]
      exact hrest

/-- Reading all stored tried records. None is lost. -/
theorem Copy.loadTried_all (h : Coherent ∅ ∅ c) (hdated : Every Record.Dated c)
    {pre post : List (RecordId × Record)} (hsplit : c.triedRecords = pre ++ post)
    (hm : Copy c (c.newRecords ++ pre) ∅ m) (hload : Loading policy newTotal m)
    (hnext : newTotal ≤ m.nextId) :
    ∃ d : Cache,
      (post.map fun x => StoredRecord.ofRecord x.2).foldlM Cache.loadTried (m, 0) = .ok (d, 0) ∧
        Copy c c.storedRecords ∅ d ∧ Loading policy newTotal d := by
  induction post generalizing pre m with
  | nil =>
      rw [List.append_nil] at hsplit
      rw [storedRecords, hsplit]
      exact ⟨m, rfl, hm, hload⟩
  | cons x post ih =>
      have hx : x ∈ c.triedRecords := hsplit ▸ List.mem_append_right pre List.mem_cons_self
      have hall : c.storedRecords = (c.newRecords ++ pre) ++ x :: post := by
        rw [storedRecords, hsplit, List.append_assoc]
      have hpre : ∀ y ∈ c.newRecords ++ pre, c.records[y.1]? = some y.2 := fun y hy =>
        mem_storedRecords.mp (hall ▸ List.mem_append_left _ hy)
      obtain ⟨d, hrun, hd, hdload, hdnext⟩ :=
        hm.loadTried h hdated hload hnext hpre hx (notMem_earlier hall)
      rw [List.append_assoc] at hd
      obtain ⟨e, hrest, he⟩ := ih (by rw [hsplit, List.append_assoc]; rfl) hd hdload hdnext
      refine ⟨e, ?_, he⟩
      rw [List.map_cons, List.foldlM_cons, hrun]
      exact hrest

/-! ### Following the bucket lists -/

/-- Giving a record a slot that it held before extends the copy. -/
theorem Copy.addReference (hm : Copy c L done m) (hnodup : (L.map Prod.fst).Nodup) {i : Nat}
    {x : RecordId × Record} (hi : L[i]? = some x) {b : Fin newBucketCount} {p : Fin bucketSize}
    (hget : c.newTable.get b p = some x.1) (hfree : m.newTable.get b p = none) :
    Copy c L (insert (b, p) done) (m.addReference b p ⟨i⟩) where
  key := hm.key
  nextId := hm.nextId
  size_order := hm.size_order
  records id := by
    have hheld : (m.addReference b p ⟨i⟩).newTable.held id
        = (m.newTable.update b p (some ⟨i⟩)).held id := rfl
    rw [records_addReference, hm.records, hheld, Option.map_map]
    by_cases hid : id = ⟨i⟩
    · -- The record gains a slot and counts it.
      subst hid
      have hnotin : (b, p) ∉ m.newTable.held ⟨i⟩ := by
        rw [SlotTable.mem_held, hfree]
        simp
      rw [SlotTable.held_update, if_pos rfl, Finset.card_insert_of_notMem hnotin]
      simp only [if_true]
      rfl
    · rw [SlotTable.held_update_of_ne (by rw [hfree]; simp)
        (fun he => hid (Option.some.inj he).symm)]
      simp only [if_neg hid]
      rfl
  newTable b' p' id := by
    show (m.newTable.update b p (some ⟨i⟩)).get b' p' = some id ↔ _
    rw [SlotTable.get_update]
    split
    · next hbp =>
      obtain ⟨rfl, rfl⟩ := hbp
      constructor
      · intro he
        cases he
        exact ⟨Or.inl rfl, x, hi, hget⟩
      · rintro ⟨-, y, hy, hgety⟩
        rw [hget] at hgety
        rw [place_unique hnodup hi hy (Option.some.inj hgety)]
    · next hbp =>
      have hne : (b', p') ≠ (b, p) := fun he =>
        hbp ⟨(Prod.mk.inj he).1.symm, (Prod.mk.inj he).2.symm⟩
      rw [hm.newTable, Set.mem_insert_iff, or_iff_right hne]
  triedTable := hm.triedTable

/-! ### Bucket lists -/

/-- The place of a number in a list without repetitions. -/
theorem getElem?_places {ids : List RecordId} (hnodup : ids.Nodup) {id : RecordId} {i : Nat}
    (hi : ids[i]? = some id) : (places ids)[id]? = some i := by
  have hkeys : (ids.zipIdx.map Prod.fst).Nodup := by simpa using hnodup
  refine Std.ExtHashMap.getElem?_ofList_of_mem (beq_self_eq_true id) ?_
    (List.mk_mem_zipIdx_iff_getElem?.mpr hi)
  exact (List.pairwise_map.mp hkeys).imp fun hne => beq_eq_false_iff_ne.mpr hne

/-- The place in the file of a record that holds a slot of the new table. -/
theorem exists_place (h : Placed c) {b : Fin newBucketCount} {p : Fin bucketSize} {id : RecordId}
    (hget : c.newTable.get b p = some id) : ∃ (i : Nat) (r : Record),
      c.newRecords[i]? = some (id, r) ∧ (places (c.newRecords.map Prod.fst))[id]? = some i := by
  obtain ⟨r, hr, hnew, -⟩ := h.new_slot b p id hget
  have hmem : (id, r) ∈ c.newRecords := mem_newRecords.mpr ⟨hr, hnew⟩
  obtain ⟨i, hi⟩ := List.mem_iff_getElem?.mp hmem
  exact ⟨i, r, hi, getElem?_places c.nodup_newRecords (by rw [List.getElem?_map, hi]; rfl)⟩

/-- An entry of a bucket list gives its record the slot that it held before. -/
theorem Copy.loadEntry (h : Coherent ∅ ∅ c) (hm : Copy c c.storedRecords done m)
    (hload : Loading policy c.newRecords.length m) {b : Fin newBucketCount} {p : Fin bucketSize}
    {id : RecordId} {r : Record} {i : Nat} (hi : c.newRecords[i]? = some (id, r))
    (hget : c.newTable.get b p = some id) (hbp : (b, p) ∉ done) :
    Copy c c.storedRecords (insert (b, p) done) (Cache.loadEntry c.newRecords.length b m i) ∧
      Loading policy c.newRecords.length (Cache.loadEntry c.newRecords.length b m i) := by
  refine ⟨?_, hload.loadEntry b i⟩
  have hlt : i < c.newRecords.length := (List.getElem?_eq_some_iff.mp hi).1
  have hstored : c.storedRecords[i]? = some (id, r) := by
    rw [storedRecords, List.getElem?_append_left hlt, hi]
  have hr : c.records[id]? = some r :=
    mem_storedRecords.mp (List.mem_of_getElem? hstored)
  have hrm : m.records[(⟨i⟩ : RecordId)]?
      = some { r with orderIndex := i, refs := (m.newTable.held ⟨i⟩).card } := by
    rw [hm.records, hstored]
    rfl
  have hplace : m.newSlot b r.endpoint = p := by
    rw [newSlot, hm.key]
    exact (h.of_newTable hr hget).2
  -- The slot was not given out yet, and only slots that were given out are held.
  have hfree : m.newTable.get b p = none :=
    Option.eq_none_iff_forall_ne_some.mpr fun j hj => hbp ((hm.newTable b p j).mp hj).1
  have hroom : (m.newTable.held ⟨i⟩).card < maxReferences := by
    -- The record holds a part of the slots that it held before.
    have hsub : m.newTable.held ⟨i⟩ ⊂ c.newTable.held id := by
      refine (Finset.ssubset_iff_of_subset ?_).mpr ⟨(b, p), SlotTable.mem_held.mpr hget, ?_⟩
      · rintro ⟨b', p'⟩ hmem
        obtain ⟨-, y, hy, hgety⟩ := (hm.newTable b' p' ⟨i⟩).mp (SlotTable.mem_held.mp hmem)
        rw [hstored] at hy
        cases hy
        exact SlotTable.mem_held.mpr hgety
      · rw [SlotTable.mem_held, hfree]
        simp
    exact Nat.lt_of_lt_of_le (h.card_held id r hr ▸ Finset.card_lt_card hsub) (h.refs_le id r hr)
  rw [Cache.loadEntry, if_pos hlt, offerFree_of_some hrm]
  have hok : m.newTable.get b (m.newSlot b r.endpoint) = none ∧
      (m.newTable.held ⟨i⟩).card < maxReferences := by
    rw [hplace]
    exact ⟨hfree, hroom⟩
  show Copy _ _ _ (if m.newTable.get b (m.newSlot b r.endpoint) = none ∧
    (m.newTable.held ⟨i⟩).card < maxReferences then
      m.addReference b (m.newSlot b r.endpoint) ⟨i⟩ else m)
  rw [if_pos hok, hplace]
  exact hm.addReference c.nodup_storedRecords hstored hget hfree

/-- The entries of a bucket list give out the slots of the bucket, one after the other. -/
theorem Copy.loadEntries (h : Coherent ∅ ∅ c) {b : Fin newBucketCount}
    {slots : List (Fin bucketSize × RecordId)}
    (hslots : ∀ x ∈ slots, c.newTable.get b x.1 = some x.2) (hnodup : (slots.map Prod.fst).Nodup)
    (hm : Copy c c.storedRecords done m) (hload : Loading policy c.newRecords.length m)
    (hdone : ∀ x ∈ slots, (b, x.1) ∉ done) :
    ∃ d : Cache,
      (slots.filterMap fun x => (places (c.newRecords.map Prod.fst))[x.2]?).foldlM
        (fun m entry => .ok (Cache.loadEntry c.newRecords.length b m entry) :
          Cache → Nat → Except StorageError Cache) m = .ok d ∧
      Copy c c.storedRecords (done ∪ {s | s.1 = b ∧ s.2 ∈ slots.map Prod.fst}) d ∧
      Loading policy c.newRecords.length d := by
  -- The slots of the bucket that were followed move from `slots` to `done`.
  induction slots generalizing done m with
  | nil => exact ⟨m, rfl, by simpa using hm, hload⟩
  | cons x slots ih =>
      obtain ⟨p, id⟩ := x
      obtain ⟨hp, hnodup⟩ := List.nodup_cons.mp hnodup
      have hget := hslots (p, id) List.mem_cons_self
      obtain ⟨i, r, hi, hplace⟩ := exists_place h.toPlaced hget
      obtain ⟨hm', hload'⟩ := hm.loadEntry h hload hi hget (hdone (p, id) List.mem_cons_self)
      obtain ⟨d, hrun, hd, hdload⟩ := ih (fun y hy => hslots y (List.mem_cons_of_mem _ hy)) hnodup
        hm' hload' fun y hy hmem => by
          rcases Set.mem_insert_iff.mp hmem with he | hmem
          · exact hp (List.mem_map.mpr ⟨y, hy, (Prod.mk.inj he).2⟩)
          · exact hdone y (List.mem_cons_of_mem _ hy) hmem
      refine ⟨d, ?_, ?_, hdload⟩
      · rw [List.filterMap_cons, hplace]
        exact hrun
      · have hset : insert (b, p) done ∪ {s | s.1 = b ∧ s.2 ∈ slots.map Prod.fst}
            = done ∪ {s | s.1 = b ∧ s.2 ∈ ((p, id) :: slots).map Prod.fst} := by
          ext ⟨b', p'⟩
          simp only [Set.mem_union, Set.mem_insert_iff, Set.mem_ofPred_eq, List.map_cons,
            List.mem_cons, Prod.mk.injEq]
          tauto
        rw [← hset]
        exact hd

/-- Reading a bucket list gives out the slots of the bucket. -/
theorem Copy.decodeBucket (h : Coherent ∅ ∅ c) (hm : Copy c c.storedRecords done m)
    (hload : Loading policy c.newRecords.length m) (hcapacity : c.newRecords.length < Bytes.span 4)
    (b : Fin newBucketCount) (hdone : ∀ p, (b, p) ∉ done) :
    ∃ d : Cache, (Cache.decodeBucket c.newRecords.length m b).Reads
        (listBytes (c.bucketEntries (places (c.newRecords.map Prod.fst)) b)) d ∧
      Copy c c.storedRecords (done ∪ {s | s.1 = b ∧ s.2 ∈ (c.newTable.bucket b).map Prod.fst}) d ∧
      Loading policy c.newRecords.length d := by
  have hslots : ∀ x ∈ c.newTable.bucket b, c.newTable.get b x.1 = some x.2 :=
    fun x hx => SlotTable.mem_bucket.mp hx
  obtain ⟨d, hrun, hd, hdload⟩ :=
    hm.loadEntries h hslots (c.newTable.nodup_bucket b) hload fun x _ => hdone x.1
  refine ⟨d, ?_, hd, hdload⟩
  refine .bind (reads_little ?_) (.fold (fun entry hentry => reads_little ?_) hrun)
  · have hle : (c.bucketEntries (places (c.newRecords.map Prod.fst)) b).length ≤ bucketSize :=
      (List.length_filterMap_le _ _).trans (c.newTable.length_bucket_le b)
    exact Nat.lt_of_le_of_lt hle (by decide)
  · obtain ⟨⟨p, id⟩, hx, hentry⟩ := List.mem_filterMap.mp hentry
    obtain ⟨i, r, hi, hplace⟩ := exists_place h.toPlaced (SlotTable.mem_bucket.mp hx)
    obtain rfl : i = entry := Option.some.inj (hplace.symm.trans hentry)
    exact ((List.getElem?_eq_some_iff.mp hi).1).trans hcapacity

/-- The copy when the bucket lists have been read, except those that are left. -/
structure BucketsLeft (policy : Policy) (c : Cache) (left : List (Fin newBucketCount))
    (m : Cache) : Prop where
  nodup : left.Nodup
  loading : Loading policy c.newRecords.length m
  copy : ∃ done, Copy c c.storedRecords done m ∧ (∀ b ∈ left, ∀ p, (b, p) ∉ done) ∧
    ∀ b p, b ∉ left → c.newTable.get b p ≠ none → (b, p) ∈ done

/-- Reading the next bucket list. -/
theorem BucketsLeft.decodeBucket (h : Coherent ∅ ∅ c)
    (hcapacity : c.newRecords.length < Bytes.span 4) {b : Fin newBucketCount}
    {left : List (Fin newBucketCount)} (hm : BucketsLeft policy c (b :: left) m) :
    ∃ d : Cache, (Cache.decodeBucket c.newRecords.length m b).Reads
        (listBytes (c.bucketEntries (places (c.newRecords.map Prod.fst)) b)) d ∧
      BucketsLeft policy c left d := by
  obtain ⟨hb, hnodup⟩ := List.nodup_cons.mp hm.nodup
  obtain ⟨done, hcopy, hleft, hgiven⟩ := hm.copy
  obtain ⟨d, hread, hd, hdload⟩ :=
    hcopy.decodeBucket h hm.loading hcapacity b (hleft b List.mem_cons_self)
  refine ⟨d, hread, hnodup, hdload, _, hd, fun b' hb' p hmem => ?_, fun b' p hb' hget => ?_⟩
  · rcases hmem with hmem | ⟨he, -⟩
    · exact hleft b' (List.mem_cons_of_mem b hb') p hmem
    · exact hb (he ▸ hb')
  · by_cases he : b' = b
    · subst he
      obtain ⟨id, hid⟩ := Option.ne_none_iff_exists'.mp hget
      exact Or.inr ⟨rfl, List.mem_map.mpr ⟨(p, id), SlotTable.mem_bucket.mpr hid, rfl⟩⟩
    · exact Or.inl (hgiven b' p (fun hmem => (List.mem_cons.mp hmem).elim he hb') hget)

/-- Reading all bucket lists gives out every slot. -/
theorem Copy.decodeBuckets (h : Coherent ∅ ∅ c) (hm : Copy c c.storedRecords ∅ m)
    (hload : Loading policy c.newRecords.length m)
    (hcapacity : c.newRecords.length < Bytes.span 4) :
    ∃ d : Cache,
      ((List.finRange newBucketCount).foldlM (Cache.decodeBucket c.newRecords.length) m).Reads
        ((List.finRange newBucketCount).flatMap fun b =>
          listBytes (c.bucketEntries (places (c.newRecords.map Prod.fst)) b)) d ∧
      Copy c c.storedRecords Set.univ d ∧ Loading policy c.newRecords.length d := by
  have hstart : BucketsLeft policy c (List.finRange newBucketCount) m :=
    ⟨List.nodup_finRange _, hload, ∅, hm, fun _ _ _ => Set.notMem_empty _,
      fun b _ hb => absurd (List.mem_finRange b) hb⟩
  -- The buckets in the fold are those that are left, so the list is made a variable.
  generalize List.finRange newBucketCount = left at hstart ⊢
  have hstep : ∀ b left m, BucketsLeft policy c (b :: left) m → ∃ d : Cache,
      (Cache.decodeBucket c.newRecords.length m b).Reads
        (listBytes (c.bucketEntries (places (c.newRecords.map Prod.fst)) b)) d ∧
      BucketsLeft policy c left d := fun _ _ _ hleft => hleft.decodeBucket h hcapacity
  obtain ⟨d, hread, hd⟩ := Reads.foldlM hstep hstart
  obtain ⟨done, hcopy, -, hgiven⟩ := hd.copy
  refine ⟨d, hread, ⟨hcopy.key, hcopy.nextId, hcopy.size_order, hcopy.records, fun b p id => ?_,
    hcopy.triedTable⟩, hd.loading⟩
  rw [hcopy.newTable]
  constructor
  · exact fun hmem => ⟨trivial, hmem.2⟩
  · rintro ⟨-, x, hx, hget⟩
    exact ⟨hgiven b p List.not_mem_nil (by rw [hget]; simp), x, hx, hget⟩

end Cache

end PeerCache
