import PeerCache.Proofs.Cache.Copy
import PeerCache.Proofs.Cache.Runs

/-!
# `PeerCache.Proofs.Cache.RoundTrip`: a cache is recovered from its bytes

The bytes of a cache leave out the numbers of the records, the sampling order and
the slots. A load gives new numbers, computes the slots again, and ends with a copy
of all records and of all slots (`reads_decode`). What the numbers were does not
show: the copy holds the same and is stored as the same bytes.

* `Copy.toList_records`: the records of the copy, listed.
* `SameSlots`: the slots of the copy, against those of the cache.
* `Copy.encode`, `Copy.sameContents`: what the copy shares with the cache.

The round trip holds for every cache that operations lead to, when none of them is
given time zero. The stored form of a time uses zero for "never", so a record that
was confirmed at time zero would be loaded as one that never was.
-/

set_option autoImplicit false

namespace PeerCache

open Decoder

namespace Cache

variable {c d : Cache}

/-! ### The sizes of the tables -/

/-- The new records of a sound cache fit into the new table. -/
theorem Sound.length_newRecords_le (h : Sound c) :
    c.newRecords.length ≤ newBucketCount * bucketSize := by
  rw [← card_idsIn_false]
  refine SlotTable.card_le_of_held (t := c.newTable) fun id hid hheld => ?_
  obtain ⟨r, hr, hnew⟩ := mem_idsIn.mp hid
  obtain ⟨⟨hpos, -⟩, hcard, -⟩ := h.new id r hr hnew
  rw [hheld, Finset.card_empty] at hcard
  omega

/-- The tried records of a sound cache fit into the tried table. -/
theorem Sound.length_triedRecords_le (h : Sound c) :
    c.triedRecords.length ≤ triedBucketCount * bucketSize := by
  rw [← card_idsIn_true]
  refine SlotTable.card_le_of_held (t := c.triedTable) fun id hid hheld => ?_
  obtain ⟨r, hr, htried⟩ := mem_idsIn.mp hid
  rw [(h.tried id r hr htried).2.1] at hheld
  exact Finset.singleton_ne_empty _ hheld

/-! ### Reading the bytes -/

/-- The bytes of a cache, one field after the other. -/
theorem encode_eq (c : Cache) : c.encode = Bytes.little 1 formatVersion ++
    (Bytes.little 1 keySize ++ (c.key.bytes ++ (Bytes.little 4 c.newRecords.length ++
    (Bytes.little 4 c.triedRecords.length ++ (Bytes.little 4 (newBucketCount ^^^ bucketMarker) ++
    (c.newRecords.flatMap (fun x => recordBytes x.2) ++
    (c.triedRecords.flatMap (fun x => recordBytes x.2) ++
    ((List.finRange newBucketCount).flatMap (fun b =>
      listBytes (c.bucketEntries (places (c.newRecords.map Prod.fst)) b)) ++ [])))))))) := by
  simp [encode]

/-- Stored records are read one after the other, and added in the same order. -/
theorem reads_records {β : Type} {step : β → StoredRecord → Except StorageError β} {acc acc' : β}
    {l : List (RecordId × Record)}
    (hsteps : (l.map fun x => StoredRecord.ofRecord x.2).foldlM step acc = .ok acc') :
    (Decoder.fold StoredRecord.decode step l.length acc).Reads
      (l.flatMap fun x => recordBytes x.2) acc' := by
  have hitems : ∀ s ∈ l.map fun x => StoredRecord.ofRecord x.2,
      StoredRecord.decode.Reads s.toBytes s := by
    intro s hs
    obtain ⟨x, -, rfl⟩ := List.mem_map.mp hs
    exact StoredRecord.reads_decode (StoredRecord.canonical_ofRecord x.2)
  have hread := Reads.fold hitems hsteps
  rw [List.length_map, List.flatMap_map] at hread
  exact hread

/-- The bytes of a coherent cache are read to the end, nothing is lost, and the
result is a copy with all slots. -/
theorem reads_decode (h : Coherent ∅ ∅ c) (hdated : Every Record.Dated c) (policy : Policy) :
    ∃ d : Cache, (decode policy).Reads c.encode (d, 0) ∧ Copy c c.storedRecords Set.univ d ∧
      Loading policy c.newRecords.length d := by
  have hnewLe := h.sound.length_newRecords_le
  have htriedLe := h.sound.length_triedRecords_le
  have hnewLt : c.newRecords.length < Bytes.span 4 := Nat.lt_of_le_of_lt hnewLe (by decide)
  have htriedLt : c.triedRecords.length < Bytes.span 4 := Nat.lt_of_le_of_lt htriedLe (by decide)
  -- The three parts of the body.
  obtain ⟨m, hnews, hm, hmload⟩ := Copy.loadNew_all h hdated (List.nil_append _).symm
    (copy_ofKey c policy) (loading_ofKey policy c.key c.newRecords.length)
  have hnext : c.newRecords.length ≤ m.nextId := hm.nextId.ge
  rw [← List.append_nil c.newRecords] at hm
  obtain ⟨m', htrieds, hm', hmload'⟩ :=
    hm.loadTried_all h hdated (List.nil_append _).symm hmload hnext
  obtain ⟨d, hlists, hd, hload⟩ := hm'.decodeBuckets h hmload' hnewLt
  refine ⟨d, ?_, hd, hload⟩
  have hlisted : formatVersion = formatVersion ∧
      newBucketCount ^^^ bucketMarker ^^^ bucketMarker = newBucketCount := ⟨rfl, by decide⟩
  have hkey : (PlacementKey.ofBytes? c.key.bytes).getD default = c.key := by
    rw [PlacementKey.ofBytes?, dif_pos c.key.length_bytes, Option.getD_some]
  rw [encode_eq]
  refine .bind (reads_little (by decide)) ?_
  refine .bind (reads_little (by decide)) ?_
  rw [if_neg (by simp)]
  refine .bind (reads_take c.key.length_bytes) ?_
  refine .bind (reads_little hnewLt) ?_
  refine .bind (reads_little htriedLt) ?_
  refine .bind (reads_little (by decide)) ?_
  dsimp only
  rw [if_neg (by omega), decide_eq_true hlisted, hkey]
  refine .bind (reads_records hnews) (.bind (reads_records htrieds) ?_)
  rw [if_pos hlisted]
  exact .bind hlists (.pure (d, 0))

/-! ### The copy under its new numbers -/

/-- The records of a list, numbered by their places from `start` on. -/
def renumbered (start : Nat) (l : List (RecordId × Record)) : List (RecordId × Record) :=
  (l.zipIdx start).map fun x => (⟨x.2⟩, { x.1.2 with orderIndex := x.2 })

@[simp] theorem length_renumbered (start : Nat) (l : List (RecordId × Record)) :
    (renumbered start l).length = l.length := by
  simp [renumbered]

theorem renumbered_append (start : Nat) (l l' : List (RecordId × Record)) :
    renumbered start (l ++ l') = renumbered start l ++ renumbered (start + l.length) l' := by
  simp [renumbered, List.zipIdx_append]

theorem getElem?_renumbered (start i : Nat) (l : List (RecordId × Record)) :
    (renumbered start l)[i]? = l[i]?.map fun x =>
      (⟨start + i⟩, { x.2 with orderIndex := start + i }) := by
  simp [renumbered, List.getElem?_zipIdx, Function.comp_def]

theorem mem_renumbered_zero {l : List (RecordId × Record)} {id : RecordId} {r : Record} :
    (id, r) ∈ renumbered 0 l ↔
      ∃ x, l[id.number]? = some x ∧ r = { x.2 with orderIndex := id.number } := by
  rw [List.mem_iff_getElem?]
  simp only [getElem?_renumbered, Nat.zero_add, Option.map_eq_some_iff, Prod.mk.injEq]
  constructor
  · rintro ⟨i, x, hi, rfl, rfl⟩
    exact ⟨x, hi, rfl⟩
  · rintro ⟨x, hx, rfl⟩
    exact ⟨id.number, x, hx, rfl, rfl⟩

/-- The numbers grow along the list. -/
theorem pairwise_renumbered (start : Nat) (l : List (RecordId × Record)) :
    (renumbered start l).Pairwise fun x y => x.1.number < y.1.number := by
  rw [renumbered, List.pairwise_map]
  have hplaces := List.pairwise_lt_range' (s := start) (n := l.length)
  rw [← List.zipIdx_map_snd, List.pairwise_map] at hplaces
  exact hplaces

/-- The stored form of a record does not depend on its number. -/
theorem flatMap_recordBytes_renumbered (start : Nat) (l : List (RecordId × Record)) :
    (renumbered start l).flatMap (fun x => recordBytes x.2)
      = l.flatMap fun x => recordBytes x.2 := by
  induction l generalizing start with
  | nil => rfl
  | cons x l ih =>
      have hcons : renumbered start (x :: l)
          = (⟨start⟩, { x.2 with orderIndex := start }) :: renumbered (start + 1) l := rfl
      rw [hcons, List.flatMap_cons, List.flatMap_cons, ih]
      rfl

/-- Only the place in the sampling order of a record changes. -/
theorem exists_of_mem_renumbered {start : Nat} {l : List (RecordId × Record)}
    {y : RecordId × Record} (hy : y ∈ renumbered start l) :
    ∃ x ∈ l, y.2 = { x.2 with orderIndex := y.1.number } := by
  obtain ⟨i, hi⟩ := List.mem_iff_getElem?.mp hy
  rw [getElem?_renumbered, Option.map_eq_some_iff] at hi
  obtain ⟨x, hx, rfl⟩ := hi
  exact ⟨x, List.mem_of_getElem? hx, rfl⟩

/-- A record of the copy is the stored record at its place, but for its place in the
sampling order. -/
theorem Copy.getElem?_records (hd : Copy c c.storedRecords Set.univ d) (h : Placed c)
    (id : RecordId) : d.records[id]? = c.storedRecords[id.number]?.map fun x =>
      { x.2 with orderIndex := id.number } := by
  rw [hd.records]
  cases hx : c.storedRecords[id.number]? with
  | none => rfl
  | some x =>
      -- All slots were given out, so the references are those of the stored record.
      have hheld : d.newTable.held id = c.newTable.held x.1 := by
        ext ⟨b, p⟩
        rw [SlotTable.mem_held, SlotTable.mem_held, hd.newTable, hx]
        simp
      have hr : c.records[x.1]? = some x.2 := mem_storedRecords.mp (List.mem_of_getElem? hx)
      rw [hheld, Option.map_some, h.card_held x.1 x.2 hr, Option.map_some]

/-- The records of the copy, listed. -/
theorem Copy.toList_records (hd : Copy c c.storedRecords Set.univ d) (h : Placed c) :
    d.records.toList = renumbered 0 c.storedRecords := by
  have hsorted : d.records.toList.Pairwise fun x y => x.1.number < y.1.number := by
    exact d.records.ordered_keys_toList.imp fun hlt => Nat.compare_eq_lt.mp hlt
  -- Both lists are sorted by number and have the same members.
  have hmem : ∀ x, x ∈ d.records.toList ↔ x ∈ renumbered 0 c.storedRecords := by
    rintro ⟨id, r⟩
    rw [Std.ExtTreeMap.mem_toList_iff_getElem?_eq_some, hd.getElem?_records h, mem_renumbered_zero,
      Option.map_eq_some_iff]
    simp only [eq_comm]
  have hlt : (renumbered 0 c.storedRecords).Pairwise fun x y => x.1.number < y.1.number :=
    pairwise_renumbered 0 c.storedRecords
  refine List.Perm.eq_of_pairwise (fun x y _ _ hxy hyx => absurd hxy (Nat.lt_asymm hyx)) hsorted
    hlt ?_
  rw [List.perm_ext_iff_of_nodup (hsorted.imp fun hxy he => ?_) (hlt.imp fun hxy he => ?_)]
  · exact hmem
  · exact absurd (he ▸ hxy) (Nat.lt_irrefl _)
  · exact absurd (he ▸ hxy) (Nat.lt_irrefl _)

/-- The new records of the copy are numbered first, and the tried ones after them. -/
theorem Copy.split_records (hd : Copy c c.storedRecords Set.univ d) (h : Placed c) :
    d.newRecords = renumbered 0 c.newRecords ∧
      d.triedRecords = renumbered c.newRecords.length c.triedRecords := by
  have hlist : d.records.toList
      = renumbered 0 c.newRecords ++ renumbered c.newRecords.length c.triedRecords := by
    rw [hd.toList_records h, storedRecords, renumbered_append, Nat.zero_add]
  have hnew : ∀ y ∈ renumbered 0 c.newRecords, y.2.inTried = false := fun y hy => by
    obtain ⟨x, hx, he⟩ := exists_of_mem_renumbered hy
    rw [he]
    exact (mem_newRecords.mp hx).2
  have htried : ∀ y ∈ renumbered c.newRecords.length c.triedRecords, y.2.inTried = true :=
    fun y hy => by
      obtain ⟨x, hx, he⟩ := exists_of_mem_renumbered hy
      rw [he]
      exact (mem_triedRecords.mp hx).2
  constructor
  · rw [newRecords, hlist, List.filter_append, List.filter_eq_self.mpr (by simpa using hnew),
      List.filter_eq_nil_iff.mpr (by simpa using htried), List.append_nil]
  · rw [triedRecords, hlist, List.filter_append, List.filter_eq_nil_iff.mpr (by simpa using hnew),
      List.filter_eq_self.mpr (by simpa using htried), List.nil_append]

/-! ### The copy holds the same -/

section

variable {rows cols : Nat} {t u : SlotTable rows cols RecordId}

/-- Two tables have the same records in the same slots, by number in one and by place
in the file in the other. -/
def SameSlots (c : Cache) (t u : SlotTable rows cols RecordId) : Prop :=
  ∀ b p, (t.get b p = none ∧ u.get b p = none) ∨
    ∃ (i : Nat) (x : RecordId × Record), c.storedRecords[i]? = some x ∧
      t.get b p = some x.1 ∧ u.get b p = some ⟨i⟩

/-- A table has the same slots as another when it has the holders of the other
under their new numbers. -/
theorem sameSlots_of_iff (hmem : ∀ b p id, t.get b p = some id → id ∈ c.records)
    (hiff : ∀ b p id, u.get b p = some id ↔
      ∃ x, c.storedRecords[id.number]? = some x ∧ t.get b p = some x.1) : SameSlots c t u := by
  intro b p
  cases hget : t.get b p with
  | none =>
      refine Or.inl ⟨rfl, Option.eq_none_iff_forall_ne_some.mpr fun id hid => ?_⟩
      obtain ⟨x, -, hx⟩ := (hiff b p id).mp hid
      rw [hget] at hx
      cases hx
  | some id =>
      obtain ⟨r, hr⟩ := (mem_iff_exists_getElem? c.records id).mp (hmem b p id hget)
      obtain ⟨i, hi⟩ := List.mem_iff_getElem?.mp (mem_storedRecords.mpr hr : (id, r) ∈ _)
      exact Or.inr ⟨i, (id, r), hi, rfl, (hiff b p ⟨i⟩).mpr ⟨(id, r), hi, hget⟩⟩

/-- The same slots are held by the same addresses. -/
theorem SameSlots.slotHolders (h : SameSlots c t u)
    (hd : ∀ id : RecordId, d.records[id]? = c.storedRecords[id.number]?.map fun x =>
      { x.2 with orderIndex := id.number }) : d.slotHolders u = c.slotHolders t := by
  rw [slotHolders_eq, slotHolders_eq]
  congr 1
  funext b
  congr 1
  funext p
  rcases h b p with ⟨ht, hu⟩ | ⟨i, x, hi, ht, hu⟩
  · simp [ht, hu]
  · have hx : c.records[x.1]? = some x.2 := mem_storedRecords.mp (List.mem_of_getElem? hi)
    simp only [ht, hu, Option.map_some, Option.bind_some, hd, hi, hx]
    rfl

end

theorem Copy.sameSlots_new (hd : Copy c c.storedRecords Set.univ d) (h : Sound c) :
    SameSlots c c.newTable d.newTable :=
  sameSlots_of_iff h.newTable_mem fun b p id => by simp [hd.newTable]

theorem Copy.sameSlots_tried (hd : Copy c c.storedRecords Set.univ d) (h : Sound c) :
    SameSlots c c.triedTable d.triedTable :=
  sameSlots_of_iff h.triedTable_mem hd.triedTable

/-- The bucket lists of the copy name the same places. -/
theorem Copy.bucketEntries (hd : Copy c c.storedRecords Set.univ d) (h : Coherent ∅ ∅ c)
    (b : Fin newBucketCount) :
    d.bucketEntries (places (d.newRecords.map Prod.fst)) b
      = c.bucketEntries (places (c.newRecords.map Prod.fst)) b := by
  rw [Cache.bucketEntries, Cache.bucketEntries, SlotTable.bucket_eq, SlotTable.bucket_eq,
    List.filterMap_filterMap, List.filterMap_filterMap]
  congr 1
  funext p
  rcases hd.sameSlots_new h.sound b p with ⟨ht, hu⟩ | ⟨i, x, hi, ht, hu⟩
  · simp [ht, hu]
  · -- The place of the record among the new ones is its new number.
    obtain ⟨j, r, hj, hplace⟩ := exists_place h.toPlaced ht
    have hlt : j < c.newRecords.length := (List.getElem?_eq_some_iff.mp hj).1
    have hstored : c.storedRecords[j]? = some (x.1, r) := by
      rw [storedRecords, List.getElem?_append_left hlt, hj]
    obtain rfl : i = j := place_unique c.nodup_storedRecords hi hstored rfl
    have hplace' : (places (d.newRecords.map Prod.fst))[(⟨i⟩ : RecordId)]? = some i := by
      refine getElem?_places d.nodup_newRecords ?_
      rw [(hd.split_records h.toPlaced).1, List.getElem?_map, getElem?_renumbered, hj]
      simp
    simp only [ht, hu, Option.map_some, Option.bind_some, hplace, hplace']

/-- The copy is stored as the same bytes. -/
theorem Copy.encode (hd : Copy c c.storedRecords Set.univ d) (h : Coherent ∅ ∅ c) :
    d.encode = c.encode := by
  obtain ⟨hnew, htried⟩ := hd.split_records h.toPlaced
  rw [encode_eq, encode_eq, hd.key]
  simp only [hd.bucketEntries h]
  simp only [hnew, htried, length_renumbered, flatMap_recordBytes_renumbered]

/-- The number of records is the number of stored records. -/
theorem length_storedRecords (c : Cache) : c.storedRecords.length = c.records.size := by
  rw [size_records, card_idsIn_false, card_idsIn_true, storedRecords, List.length_append]

theorem Copy.counts (hd : Copy c c.storedRecords Set.univ d) (h : Coherent ∅ ∅ c)
    (h' : Coherent ∅ ∅ d) : d.newCount = c.newCount ∧ d.triedCount = c.triedCount := by
  obtain ⟨hnew, htried⟩ := hd.split_records h.toPlaced
  rw [h.sound.newCount_eq, h.sound.triedCount_eq, h'.sound.newCount_eq, h'.sound.triedCount_eq,
    hnew, htried, length_renumbered, length_renumbered]
  exact ⟨rfl, rfl⟩

/-- The copy holds the same as the cache, in both readings of the comparison. -/
theorem Copy.sameContents (hd : Copy c c.storedRecords Set.univ d) (h : Coherent ∅ ∅ c)
    (h' : Coherent ∅ ∅ d) : d.sameContents c = true ∧ c.sameContents d = true := by
  have hrecords := hd.getElem?_records h.toPlaced
  obtain ⟨hnewCount, htriedCount⟩ := hd.counts h h'
  have hsize : d.records.size = c.records.size := by
    rw [← Std.ExtTreeMap.length_toList, hd.toList_records h.toPlaced, length_renumbered,
      length_storedRecords]
  have hnewSlots := (hd.sameSlots_new h.sound).slotHolders hrecords
  have htriedSlots := (hd.sameSlots_tried h.sound).slotHolders hrecords
  -- From the copy to the cache, and back.
  have hto : ∀ x ∈ d.records.toList, (c.recordAt? x.2.ip).any (sameRecord x.2) = true := by
    rintro ⟨id, r⟩ hmem
    rw [Std.ExtTreeMap.mem_toList_iff_getElem?_eq_some, hrecords, Option.map_eq_some_iff] at hmem
    obtain ⟨x, hx, rfl⟩ := hmem
    have hr := mem_storedRecords.mp (List.mem_of_getElem? hx)
    have hfound := h.toIndexed.recordAt? hr
    show (c.recordAt? x.2.ip).any _ = true
    rw [hfound]
    simp [sameRecord]
  have hfrom : ∀ x ∈ c.records.toList, (d.recordAt? x.2.ip).any (sameRecord x.2) = true := by
    rintro ⟨id, r⟩ hmem
    rw [Std.ExtTreeMap.mem_toList_iff_getElem?_eq_some] at hmem
    obtain ⟨i, hi⟩ := List.mem_iff_getElem?.mp (mem_storedRecords.mpr hmem : (id, r) ∈ _)
    have hr : d.records[(⟨i⟩ : RecordId)]? = some { r with orderIndex := i } := by
      rw [hrecords, hi]
      rfl
    have hfound := h'.toIndexed.recordAt? hr
    show (d.recordAt? r.ip).any _ = true
    rw [show r.ip = ({ r with orderIndex := i } : Record).ip from rfl, hfound]
    simp [sameRecord]
  rw [← List.all_eq_true] at hto hfrom
  simp only [Cache.sameContents, hd.key, hnewCount, htriedCount, hsize, hnewSlots, htriedSlots]
  simp [hto, hfrom]

/-! ### The round trip -/

/-- No record of the copy is left without a slot. -/
theorem Copy.coherent (hd : Copy c c.storedRecords Set.univ d) (h : Coherent ∅ ∅ c)
    {policy : Policy} {newTotal : Nat} (hload : Loading policy newTotal d) : Coherent ∅ ∅ d := by
  -- A record without references would have had none in the stored cache.
  refine hload.toCoherent.mono fun id r hr hnew hrefs _ => ?_
  rw [hd.getElem?_records h.toPlaced, Option.map_eq_some_iff] at hr
  obtain ⟨x, hx, rfl⟩ := hr
  exact h.mem_loose x.1 x.2 (mem_storedRecords.mp (List.mem_of_getElem? hx)) hnew hrefs

/-- A coherent cache has no records to remove. -/
theorem Coherent.unplaced_eq_nil (h : Coherent ∅ ∅ c) : c.unplaced = [] := by
  refine List.eq_nil_iff_forall_not_mem.mpr fun id hid => ?_
  obtain ⟨r, hr, hnew, hrefs⟩ := mem_unplaced.mp hid
  exact h.mem_loose id r hr hnew hrefs

/-- The bytes of a coherent cache are accepted, whole. -/
theorem ofBytes_encode (h : Coherent ∅ ∅ c) (hdated : Every Record.Dated c) (policy : Policy)
    (order : RemovalOrder) :
    ∃ d : Cache, ofBytes policy order c.encode = .ok (.ok (d, ⟨c.newCount, c.triedCount, 0, 0⟩)) ∧
      Copy c c.storedRecords Set.univ d ∧ Coherent ∅ ∅ d ∧ d.policy = policy := by
  obtain ⟨d, hread, hd, hload⟩ := reads_decode h hdated policy
  have hcoherent := hd.coherent h hload
  obtain ⟨hnewCount, htriedCount⟩ := hd.counts h hcoherent
  have hrun : (decode policy).run c.encode = .ok ((d, 0), []) := by
    have hall := hread []
    rw [List.append_nil] at hall
    exact hall
  have hnone : order.arrange d.unplaced = [] := by
    rw [← List.perm_nil, ← hcoherent.unplaced_eq_nil]
    exact order.perm d.unplaced
  have hdelete : (order.arrange d.unplaced).foldlM (fun c id => c.delete id) d = .ok d := by
    rw [hnone]
    rfl
  refine ⟨d, ?_, hd, hcoherent, hload.policy_eq⟩
  rw [ofBytes_of_run hrun hdelete hcoherent.sound.audit, hnewCount, htriedCount,
    hcoherent.unplaced_eq_nil]
  rfl

variable {σ : Type} [RandomSource σ]

/-- A cache that operations lead to, none of them at time zero, is recovered from its
bytes by any other cache. The report counts its records and no losses, the loaded
cache holds the same, and it is stored as the same bytes. -/
theorem Reachable.load_encode (h : Reachable Operation.IsDated c) (c₀ : Cache)
    (order : RemovalOrder) (s : σ) :
    ∃ d : Cache, c₀.load order c.encode s = .ok ((.ok ⟨c.newCount, c.triedCount, 0, 0⟩, d), s) ∧
      d.sameContents c = true ∧ c.sameContents d = true ∧ d.encode = c.encode := by
  obtain ⟨d, hload, hd, hcoherent, -⟩ := ofBytes_encode h.coherent h.dated c₀.policy order
  obtain ⟨hto, hfrom⟩ := hd.sameContents h.coherent hcoherent
  exact ⟨d, load_of_ok hload s, hto, hfrom, hd.encode h.coherent⟩

/-- For instance, one announcement that was learnt is loaded by an empty cache. -/
theorem load_encode_after_learn : ∃ (c : Cache) (s : SplitMix),
    (Operation.learn (.ofEndpoint (.ofIp (.v4 ⟨8, 8, 8, 8⟩) 8333) .zero)
      (.v4 ⟨9, 9, 9, 9⟩) 0 .zero).perform Rat (ofKey .standard default) ⟨[], 0⟩ = .ok (c, s) ∧
    ∃ d : Cache, (ofKey .testing default).load .ascending c.encode s
        = .ok ((.ok ⟨c.newCount, c.triedCount, 0, 0⟩, d), s) ∧
      d.sameContents c = true ∧ c.sameContents d = true ∧ d.encode = c.encode := by
  have hempty : Reachable Operation.IsDated (ofKey .standard default) := .ofKey .standard default
  obtain ⟨c, s, hrun, hc⟩ := hempty.exists_step Rat (.learn _ _ _ _) trivial (⟨[], 0⟩ : SplitMix)
  exact ⟨c, s, hrun, hc.load_encode (ofKey .testing default) .ascending s⟩

end Cache

end PeerCache
