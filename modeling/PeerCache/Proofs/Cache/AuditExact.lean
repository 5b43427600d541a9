import Mathlib.Data.List.Nodup
import Mathlib.Data.List.Perm.Subperm
import PeerCache.Proofs.Cache.Audit

/-!
# `PeerCache.Proofs.Cache.AuditExact`: the audit accepts sound caches only

The audit goes over the records and the slots once and compares a few sizes. It never
asks whether the sampling order names a record twice, whether the address index holds
an address that no record has, or whether a tried record has a slot at all.
`audit_eq_ok_iff_sound` shows that it need not. A cache passes exactly when it follows
the structural rules, however it came about.

The reason is the same in the three cases. The records lead to different places of an
index, and the index has no more places than there are records. So every place is one
that a record leads to (`mem_of_nodup_of_length_le`, `length_le_size_of_mem`).
-/

set_option autoImplicit false

namespace PeerCache

/-- Different members of a list that are as many as the list has are all of it. -/
theorem mem_of_nodup_of_length_le {α : Type} {part whole : List α} (hnodup : part.Nodup)
    (hsub : part ⊆ whole) (hlength : whole.length ≤ part.length) {a : α} (ha : a ∈ whole) :
    a ∈ part :=
  ((List.subperm_of_subset hnodup hsub).perm_of_length_le hlength).mem_iff.mpr ha

/-- An index has at least as many entries as there are different addresses in it. -/
theorem length_le_size_of_mem {index : Std.ExtHashMap Ip RecordId} {ips : List Ip}
    (hnodup : ips.Nodup) (hmem : ∀ ip ∈ ips, ip ∈ index) : ips.length ≤ index.size := by
  induction ips generalizing index with
  | nil => exact Nat.zero_le _
  | cons ip ips ih =>
      obtain ⟨hnotin, hnodup⟩ := List.nodup_cons.mp hnodup
      have hip : ip ∈ index := hmem ip List.mem_cons_self
      have hpos : index.size ≠ 0 := by
        rw [ne_eq, ← Std.ExtHashMap.eq_empty_iff_size_eq_zero]
        rintro rfl
        simp at hip
      -- The other addresses are still there without the first one.
      have hrest : ips.length ≤ (index.erase ip).size := ih hnodup fun ip' hip' => by
        rw [Std.ExtHashMap.mem_erase]
        refine ⟨beq_eq_false_iff_ne.mpr ?_, hmem ip' (List.mem_cons_of_mem ip hip')⟩
        rintro rfl
        exact hnotin hip'
      rw [Std.ExtHashMap.size_erase, if_pos hip] at hrest
      rw [List.length_cons]
      omega

namespace Cache

variable {c : Cache}

/-- What a record determines differs between records when it leads back to the record. -/
theorem nodup_map_records {β : Type} {f : Record → β} {back : β → Option RecordId}
    (hback : ∀ (id : RecordId) (r : Record), c.records[id]? = some r → back (f r) = some id) :
    (c.records.toList.map fun x => f x.2).Nodup := by
  rw [List.Nodup, List.pairwise_map]
  refine c.records.distinct_keys_toList.imp_of_mem fun {x y} hx hy hne he => hne ?_
  have hid := hback x.1 x.2 (Std.ExtTreeMap.mem_toList_iff_getElem?_eq_some.mp hx)
  rw [he, hback y.1 y.2 (Std.ExtTreeMap.mem_toList_iff_getElem?_eq_some.mp hy)] at hid
  exact RecordId.compare_eq_iff.mpr (Option.some.inj hid).symm

/-- When every record stands at its place and there are no more places, the order lists
the records. -/
theorem order_iff_of_places (hsize : c.order.size = c.records.size)
    (hplace : ∀ (id : RecordId) (r : Record), c.records[id]? = some r →
      c.order[r.orderIndex]? = some id) (i : Nat) (id : RecordId) :
    c.order[i]? = some id ↔ ∃ r : Record, c.records[id]? = some r ∧ r.orderIndex = i := by
  constructor
  · intro hget
    have hi : i ∈ List.range c.order.size :=
      List.mem_range.mpr (Array.getElem?_eq_some_iff.mp hget).1
    have hsub : (c.records.toList.map fun x => x.2.orderIndex) ⊆ List.range c.order.size := by
      intro j hj
      obtain ⟨x, hx, rfl⟩ := List.mem_map.mp hj
      have hx := hplace x.1 x.2 (Std.ExtTreeMap.mem_toList_iff_getElem?_eq_some.mp hx)
      exact List.mem_range.mpr (Array.getElem?_eq_some_iff.mp hx).1
    have hmem := mem_of_nodup_of_length_le (nodup_map_records hplace) hsub
      (by simp [hsize]) hi
    obtain ⟨⟨id', r⟩, hr, rfl⟩ := List.mem_map.mp hmem
    have hr := Std.ExtTreeMap.mem_toList_iff_getElem?_eq_some.mp hr
    rw [hplace id' r hr] at hget
    obtain rfl := Option.some.inj hget
    exact ⟨r, hr, rfl⟩
  · rintro ⟨r, hr, rfl⟩
    exact hplace id r hr

/-- When every record is found under its address and there are no more entries, the
index leads to the records and nowhere else. -/
theorem addresses_iff_of_entries (hsize : c.addresses.size = c.records.size)
    (hentry : ∀ (id : RecordId) (r : Record), c.records[id]? = some r →
      c.addresses[r.ip]? = some id) (ip : Ip) (id : RecordId) :
    c.addresses[ip]? = some id ↔ ∃ r : Record, c.records[id]? = some r ∧ r.ip = ip := by
  constructor
  · intro hget
    have hmem : ip ∈ c.records.toList.map fun x => x.2.ip := by
      by_contra hnotin
      -- Along with this one there would be more addresses than entries.
      have hfound : ∀ ip' ∈ ip :: c.records.toList.map (fun x => x.2.ip), ip' ∈ c.addresses := by
        intro ip' hip'
        rcases List.mem_cons.mp hip' with rfl | hip'
        · rw [Std.ExtHashMap.mem_iff_isSome_getElem?, hget]
          rfl
        · obtain ⟨x, hx, rfl⟩ := List.mem_map.mp hip'
          rw [Std.ExtHashMap.mem_iff_isSome_getElem?,
            hentry x.1 x.2 (Std.ExtTreeMap.mem_toList_iff_getElem?_eq_some.mp hx)]
          rfl
      have hle := length_le_size_of_mem
        (List.nodup_cons.mpr ⟨hnotin, nodup_map_records hentry⟩) hfound
      rw [List.length_cons, List.length_map, Std.ExtTreeMap.length_toList, hsize] at hle
      omega
    obtain ⟨⟨id', r⟩, hr, rfl⟩ := List.mem_map.mp hmem
    have hr := Std.ExtTreeMap.mem_toList_iff_getElem?_eq_some.mp hr
    rw [hentry id' r hr] at hget
    obtain rfl := Option.some.inj hget
    exact ⟨r, hr, rfl⟩
  · rintro ⟨r, hr, rfl⟩
    exact hentry id r hr

/-- When the slots of the tried table hold tried records that belong there, and there are
as many as tried records, every tried record holds its slot. -/
theorem held_eq_of_triedSlots (hlength : c.triedTable.occupied.length = c.triedRecords.length)
    (hslot : ∀ b p id, c.triedTable.get b p = some id →
      ∃ r : Record, c.records[id]? = some r ∧ r.inTried = true ∧ (b, p) = c.triedSlot r.endpoint)
    {id : RecordId} {r : Record} (hr : c.records[id]? = some r) (htried : r.inTried = true) :
    c.triedTable.held id = {c.triedSlot r.endpoint} := by
  -- A record holds no slot but its own.
  have hsub : ∀ (id : RecordId) (r : Record), c.records[id]? = some r →
      c.triedTable.held id ⊆ {c.triedSlot r.endpoint} := by
    rintro id r hr ⟨b, p⟩ hmem
    obtain ⟨r', hr', -, hbp⟩ := hslot b p id (SlotTable.mem_held.mp hmem)
    rw [hr] at hr'
    cases hr'
    exact Finset.mem_singleton.mpr hbp
  have hnodup : (c.triedTable.occupied.map fun x => x.2.2).Nodup := by
    rw [List.nodup_iff_count_le_one]
    intro id
    rw [SlotTable.count_occupied]
    cases hr : c.records[id]? with
    | some r => exact (Finset.card_le_card (hsub id r hr)).trans (Finset.card_singleton _).le
    | none =>
        have hnone : c.triedTable.held id = ∅ := by
          rw [SlotTable.held_eq_empty_iff]
          intro b p hget
          obtain ⟨r, hr', -⟩ := hslot b p id hget
          rw [hr] at hr'
          cases hr'
        rw [hnone]
        exact Nat.zero_le 1
  have hlisted : (c.triedTable.occupied.map fun x => x.2.2) ⊆ c.triedRecords.map Prod.fst := by
    intro id hid
    obtain ⟨⟨b, p, _⟩, hx, rfl⟩ := List.mem_map.mp hid
    obtain ⟨r, hr, htried, -⟩ := hslot b p _ (SlotTable.mem_occupied.mp hx)
    refine List.mem_map.mpr ⟨(_, r), ?_, rfl⟩
    simpa [triedRecords, htried] using hr
  -- So the slots name every tried record.
  have hmem : id ∈ c.triedTable.occupied.map fun x => x.2.2 := by
    refine mem_of_nodup_of_length_le hnodup hlisted ?_ (List.mem_map.mpr ⟨(id, r), ?_, rfl⟩)
    · rw [List.length_map, List.length_map, hlength]
    · simpa [triedRecords, htried] using hr
  obtain ⟨⟨b, p, _⟩, hx, rfl⟩ := List.mem_map.mp hmem
  have hbp : (b, p) ∈ c.triedTable.held _ := SlotTable.mem_held.mpr (SlotTable.mem_occupied.mp hx)
  have heq := Finset.mem_singleton.mp (hsub _ r hr hbp)
  rw [heq] at hbp
  exact (hsub _ r hr).antisymm (Finset.singleton_subset_iff.mpr hbp)

/-- A cache that passes its audit follows the structural rules. -/
theorem Sound.of_audit (h : c.audit = .ok ()) : Sound c := by
  obtain ⟨hlength, hrecord, ⟨hnewCount, htriedCount, haddresses⟩, htriedSlot, htriedLength,
    hnewSlot, hrefs⟩ := audit_eq_ok_iff.mp h
  have hsize : c.order.size = c.records.size := by
    have hsplit := c.size_records
    rw [card_idsIn_false, card_idsIn_true] at hsplit
    omega
  exact {
    order_iff := order_iff_of_places hsize fun id r hr => (hrecord id r hr).2.2
    addresses_iff := addresses_iff_of_entries haddresses fun id r hr => (hrecord id r hr).2.1
    newCount_eq := hnewCount.symm
    triedCount_eq := htriedCount.symm
    tried := fun id r hr htried => by
      have hzero := (hrecord id r hr).1
      rw [if_pos htried] at hzero
      refine ⟨hzero,
        held_eq_of_triedSlots (htriedLength.trans htriedCount.symm) htriedSlot hr htried,
        SlotTable.held_eq_empty_iff.mpr fun b p hget => ?_⟩
      obtain ⟨r', hr', hnew, -⟩ := hnewSlot b p id hget
      rw [hr] at hr'
      cases hr'
      rw [htried] at hnew
      cases hnew
    new := fun id r hr hnew => by
      have hbounds := (hrecord id r hr).1
      rw [hnew, if_neg Bool.false_ne_true] at hbounds
      refine ⟨⟨Nat.one_le_iff_ne_zero.mpr hbounds.1, hbounds.2⟩,
        (hrefs id r hr).resolve_left (by simp [hnew]), fun b p hget => ?_,
        SlotTable.held_eq_empty_iff.mpr fun b p hget => ?_⟩
      · obtain ⟨r', hr', -, hp⟩ := hnewSlot b p id hget
        rw [hr] at hr'
        cases hr'
        exact hp
      · obtain ⟨r', hr', htried, -⟩ := htriedSlot b p id hget
        rw [hr] at hr'
        cases hr'
        rw [hnew] at htried
        cases htried
    newTable_mem := fun b p id hget => by
      obtain ⟨r, hr, -⟩ := hnewSlot b p id hget
      exact (mem_iff_exists_getElem? c.records id).mpr ⟨r, hr⟩
    triedTable_mem := fun b p id hget => by
      obtain ⟨r, hr, -⟩ := htriedSlot b p id hget
      exact (mem_iff_exists_getElem? c.records id).mpr ⟨r, hr⟩ }

/-- The audit is exact. A cache passes it if and only if it follows the structural rules,
whether or not operations can lead to it. -/
theorem audit_eq_ok_iff_sound (c : Cache) : c.audit = .ok () ↔ Sound c :=
  ⟨Sound.of_audit, Sound.audit⟩

end Cache

end PeerCache
