import Mathlib.Data.Fintype.Perm
import PeerCache.Proofs.Cache.Sound

/-!
# `PeerCache.Proofs.Cache.Renaming`: equal caches differ in their numbering

The numbers of the records belong to one cache. Two caches that compare equal have
the same records under other numbers, in the same slots. `Renames` says so, with a
permutation of all numbers that leads from one cache to the other. A number without
record leads to one without.

* `Renames.refl`, `Renames.symm`, `Renames.trans`: renaming is an equivalence.
* `Renames.get_newTable`, `Renames.addresses`, `Renames.lookup`: what is found in one
  cache is found in the other, under the other number.
* `sameContents_iff`: two coherent caches compare equal exactly when a permutation
  renames one to the other.

The comparison goes by address and by slot and knows no permutation. The permutation
is made from it: the two caches know the same addresses, and a map between finitely
many numbers extends to all.
-/

set_option autoImplicit false

namespace PeerCache

/-- An injective map on finitely many elements extends to a permutation. -/
theorem exists_perm_eq_on {α : Type} [DecidableEq α] (f : α → α) (elements : Finset α)
    (hinj : Set.InjOn f elements) : ∃ π : Equiv.Perm α, ∀ a ∈ elements, π a = f a := by
  induction elements using Finset.induction_on with
  | empty => exact ⟨Equiv.refl α, by simp⟩
  | insert a elements ha ih =>
      obtain ⟨π, hπ⟩ := ih (hinj.mono (by simp))
      -- The last element is sent where it belongs by one transposition.
      refine ⟨π.trans (Equiv.swap (π a) (f a)), fun x hx => ?_⟩
      rw [Equiv.trans_apply]
      rcases Finset.mem_insert.mp hx with rfl | hx
      · exact Equiv.swap_apply_left _ _
      · have hne : x ≠ a := fun he => ha (he ▸ hx)
        have hne' : f x ≠ f a := fun he =>
          hne (hinj (Finset.mem_insert_of_mem hx) (Finset.mem_insert_self a elements) he)
        rw [← hπ x hx] at hne' ⊢
        exact Equiv.swap_apply_of_ne_of_ne (π.injective.ne hne) hne'

theorem Record.sameRecord_iff {r s : Record} :
    Cache.sameRecord r s = true ↔ s.unranked = r.unranked := by
  rw [Cache.sameRecord, decide_eq_true_iff]
  constructor
  · intro he
    rw [he]
    rfl
  · intro he
    have hr : r = { r.unranked with orderIndex := r.orderIndex } := rfl
    rw [hr, ← he]
    rfl

namespace SlotTable

variable {rows cols : Nat} {α β : Type} [DecidableEq α] [DecidableEq β]

/-- Tables in which corresponding entries hold the same slots agree slot by slot. -/
theorem get_eq_map {t : SlotTable rows cols α} {u : SlotTable rows cols β} (π : α ≃ β)
    (h : ∀ a, u.held (π a) = t.held a) (b : Fin rows) (p : Fin cols) :
    u.get b p = (t.get b p).map π := by
  refine Option.ext fun x => ?_
  rw [← mem_held, ← π.apply_symm_apply x, h, mem_held, π.apply_symm_apply, Option.map_eq_some_iff]
  constructor
  · intro hget
    exact ⟨π.symm x, hget, π.apply_symm_apply x⟩
  · rintro ⟨a, hget, rfl⟩
    rw [π.symm_apply_apply]
    exact hget

end SlotTable

namespace Cache

variable {c d e : Cache} {id : RecordId} {r : Record} {π ρ : Equiv.Perm RecordId}

/-- The record numbered `id` in one cache is the record `π id` of the other. It may
have another place in the sampling order there, and holds the same slots. -/
structure Renames (π : Equiv.Perm RecordId) (c d : Cache) : Prop where
  key : d.key = c.key
  record : ∀ id : RecordId,
    d.records[π id]?.map Record.unranked = c.records[id]?.map Record.unranked
  newSlots : ∀ id : RecordId, d.newTable.held (π id) = c.newTable.held id
  triedSlots : ∀ id : RecordId, d.triedTable.held (π id) = c.triedTable.held id

namespace Renames

theorem refl (c : Cache) : Renames (Equiv.refl RecordId) c c where
  key := rfl
  record _ := rfl
  newSlots _ := rfl
  triedSlots _ := rfl

theorem symm (h : Renames π c d) : Renames π.symm d c where
  key := h.key.symm
  record id := by
    have hid := h.record (π.symm id)
    rw [π.apply_symm_apply] at hid
    exact hid.symm
  newSlots id := by
    have hid := h.newSlots (π.symm id)
    rw [π.apply_symm_apply] at hid
    exact hid.symm
  triedSlots id := by
    have hid := h.triedSlots (π.symm id)
    rw [π.apply_symm_apply] at hid
    exact hid.symm

theorem trans (h : Renames π c d) (h' : Renames ρ d e) : Renames (π.trans ρ) c e where
  key := h'.key.trans h.key
  record id := (h'.record (π id)).trans (h.record id)
  newSlots id := (h'.newSlots (π id)).trans (h.newSlots id)
  triedSlots id := (h'.triedSlots (π id)).trans (h.triedSlots id)

/-! ### Corresponding records -/

theorem exists_record (h : Renames π c d) (hr : c.records[id]? = some r) :
    ∃ s : Record, d.records[π id]? = some s ∧ s.unranked = r.unranked := by
  have hid := h.record id
  rw [hr, Option.map_some, Option.map_eq_some_iff] at hid
  exact hid

/-- A number without record leads to one without. -/
theorem getElem?_eq_none_iff (h : Renames π c d) :
    d.records[π id]? = none ↔ c.records[id]? = none := by
  rw [← Option.map_eq_none_iff (f := Record.unranked), h.record, Option.map_eq_none_iff]

theorem get_newTable (h : Renames π c d) (b : Fin newBucketCount) (p : Fin bucketSize) :
    d.newTable.get b p = (c.newTable.get b p).map π :=
  SlotTable.get_eq_map π h.newSlots b p

theorem get_triedTable (h : Renames π c d) (b : Fin triedBucketCount) (p : Fin bucketSize) :
    d.triedTable.get b p = (c.triedTable.get b p).map π :=
  SlotTable.get_eq_map π h.triedSlots b p

theorem primarySlot (h : Renames π c d) (e : Endpoint) (source : Ip) :
    d.primarySlot e source = c.primarySlot e source := by
  rw [Cache.primarySlot, Cache.primarySlot, newSlot, newSlot, h.key]

theorem triedSlot (h : Renames π c d) (e : Endpoint) : d.triedSlot e = c.triedSlot e := by
  rw [Cache.triedSlot, Cache.triedSlot, h.key]

/-- An address is known under the other number. -/
theorem addresses (h : Renames π c d) (hc : Indexed c) (hd : Indexed d) (ip : Ip) :
    d.addresses[ip]? = c.addresses[ip]?.map π := by
  refine Option.ext fun x => ?_
  rw [← π.apply_symm_apply x, hd.addresses_iff, Option.map_eq_some_iff]
  constructor
  · rintro ⟨s, hs, hip⟩
    obtain ⟨r, hr, hsame⟩ := h.symm.exists_record hs
    rw [π.symm_apply_apply] at hr
    refine ⟨π.symm x, (hc.addresses_iff _ _).mpr ⟨r, hr, ?_⟩, rfl⟩
    rw [Record.congr_unranked hsame Record.ip fun _ => rfl]
    exact hip
  · rintro ⟨id, hid, he⟩
    obtain ⟨r, hr, hip⟩ := (hc.addresses_iff _ _).mp hid
    obtain ⟨s, hs, hsame⟩ := h.exists_record hr
    refine ⟨s, by rw [← he]; exact hs, ?_⟩
    rw [Record.congr_unranked hsame Record.ip fun _ => rfl]
    exact hip

/-- An endpoint is found in both caches or in neither. -/
theorem lookup (h : Renames π c d) (hc : Indexed c) (hd : Indexed d) (e : Endpoint) :
    (c.lookup e = none ∧ d.lookup e = none) ∨ ∃ (id : RecordId) (r s : Record),
      c.lookup e = some (id, r) ∧ d.lookup e = some (π id, s) ∧ s.unranked = r.unranked := by
  cases hfound : c.lookup e with
  | some found =>
      obtain ⟨id, r⟩ := found
      obtain ⟨hr, he⟩ := hc.lookup_eq_some_iff.mp hfound
      obtain ⟨s, hs, hsame⟩ := h.exists_record hr
      have he' : s.endpoint = e.canonical :=
        (Record.congr_unranked hsame Record.endpoint fun _ => rfl).trans he
      exact Or.inr ⟨id, r, s, rfl, hd.lookup_eq_some_iff.mpr ⟨hs, he'⟩, hsame⟩
  | none =>
      refine Or.inl ⟨rfl, hd.lookup_eq_none_iff.mpr fun id s hs he => ?_⟩
      obtain ⟨r, hr, hsame⟩ := h.symm.exists_record hs
      refine hc.lookup_eq_none_iff.mp hfound (π.symm id) r hr ?_
      rw [Record.congr_unranked hsame Record.endpoint fun _ => rfl]
      exact he

/-! ### Counting -/

theorem idsIn (h : Renames π c d) (tried : Bool) :
    d.idsIn tried = (c.idsIn tried).map π.toEmbedding := by
  ext x
  rw [Finset.mem_map_equiv, mem_idsIn, mem_idsIn]
  constructor
  · rintro ⟨s, hs, hin⟩
    obtain ⟨r, hr, hsame⟩ := h.symm.exists_record hs
    exact ⟨r, hr, (Record.congr_unranked hsame Record.inTried fun _ => rfl).trans hin⟩
  · rintro ⟨r, hr, hin⟩
    obtain ⟨s, hs, hsame⟩ := h.exists_record hr
    rw [π.apply_symm_apply] at hs
    exact ⟨s, hs, (Record.congr_unranked hsame Record.inTried fun _ => rfl).trans hin⟩

theorem counts (h : Renames π c d) (hc : Coherent ∅ ∅ c) (hd : Coherent ∅ ∅ d) :
    d.newCount = c.newCount ∧ d.triedCount = c.triedCount := by
  rw [hc.newCount_eq, hd.newCount_eq, hc.triedCount_eq, hd.triedCount_eq, h.idsIn, h.idsIn,
    Finset.sdiff_empty, Finset.sdiff_empty, Finset.card_map, Finset.card_map]
  exact ⟨rfl, rfl⟩

theorem size_records (h : Renames π c d) : d.records.size = c.records.size := by
  rw [Cache.size_records, Cache.size_records, h.idsIn, h.idsIn, Finset.card_map, Finset.card_map]

/-! ### Renaming and the comparison -/

/-- The holders of corresponding tables have the same addresses. -/
theorem slotHolders (h : Renames π c d) {rows cols : Nat} {t u : SlotTable rows cols RecordId}
    (hget : ∀ b p, u.get b p = (t.get b p).map π) : d.slotHolders u = c.slotHolders t := by
  rw [slotHolders_eq, slotHolders_eq]
  congr 1
  funext b
  congr 1
  funext p
  rw [hget, Option.bind_map]
  congr 1
  funext id
  have hip : ∀ x : Option Record, x.map (fun r => (b, p, r.ip))
      = (x.map Record.unranked).map fun r => (b, p, r.ip) := fun x => by
    rw [Option.map_map]
    rfl
  rw [Function.comp_apply, hip d.records[π id]?, h.record, ← hip]

/-- A renamed cache compares equal. -/
theorem sameContents (h : Renames π c d) (hc : Coherent ∅ ∅ c) (hd : Coherent ∅ ∅ d) :
    c.sameContents d = true := by
  have hrecords : ∀ x ∈ c.records.toList, (d.recordAt? x.2.ip).any (sameRecord x.2) = true := by
    rintro ⟨id, r⟩ hmem
    rw [Std.ExtTreeMap.mem_toList_iff_getElem?_eq_some] at hmem
    obtain ⟨s, hs, hsame⟩ := h.exists_record hmem
    have hip : s.ip = r.ip := Record.congr_unranked hsame Record.ip fun _ => rfl
    have hfound := hd.toIndexed.recordAt? hs
    rw [hip] at hfound
    show (d.recordAt? r.ip).any (sameRecord r) = true
    rw [hfound]
    exact Record.sameRecord_iff.mpr hsame
  rw [← List.all_eq_true] at hrecords
  obtain ⟨hnewCount, htriedCount⟩ := h.counts hc hd
  simp only [Cache.sameContents, h.key, hnewCount, htriedCount, h.size_records,
    h.slotHolders h.get_newTable, h.slotHolders h.get_triedTable]
  simp [hrecords]

end Renames

section

variable {rows cols : Nat} {t u : SlotTable rows cols RecordId}

/-- Where the addresses of the holders are the same, the holders correspond. -/
theorem get_of_slotHolders (hd : Indexed d)
    (hmem : ∀ b p id, t.get b p = some id → id ∈ c.records)
    (hrec : ∀ (id : RecordId) (r : Record), c.records[id]? = some r →
      ∃ s : Record, d.records[π id]? = some s ∧ s.unranked = r.unranked)
    (hholders : c.slotHolders t = d.slotHolders u) {b : Fin rows} {p : Fin cols}
    (hget : t.get b p = some id) : u.get b p = some (π id) := by
  obtain ⟨r, hr⟩ := (mem_iff_exists_getElem? c.records id).mp (hmem b p id hget)
  have hin : (b, p, r.ip) ∈ c.slotHolders t := mem_slotHolders.mpr ⟨id, r, hget, hr, rfl⟩
  rw [hholders, mem_slotHolders] at hin
  obtain ⟨id', s', hget', hs', hip'⟩ := hin
  -- Both numbers have the address of the record.
  obtain ⟨s, hs, hsame⟩ := hrec id r hr
  have hip : s.ip = r.ip := Record.congr_unranked hsame Record.ip fun _ => rfl
  rw [hget', hd.id_unique hs' hs (hip'.trans hip.symm)]

end

/-- Two caches that compare equal are renamed by a permutation. -/
theorem exists_renames (hc : Coherent ∅ ∅ c) (hd : Coherent ∅ ∅ d)
    (hsame : c.sameContents d = true) : ∃ π : Equiv.Perm RecordId, Renames π c d := by
  simp only [Cache.sameContents, Bool.and_eq_true, decide_eq_true_eq] at hsame
  obtain ⟨⟨⟨⟨⟨⟨hkey, -⟩, -⟩, hsize⟩, hall⟩, hnewHolders⟩, htriedHolders⟩ := hsame
  -- Each record has a counterpart with the same address.
  have hcounterpart : ∀ id : RecordId, ∃ id' : RecordId, ∀ r, c.records[id]? = some r →
      ∃ s : Record, d.records[id']? = some s ∧ s.unranked = r.unranked := by
    intro id
    cases hr : c.records[id]? with
    | none => exact ⟨id, nofun⟩
    | some r =>
        have hany := List.all_eq_true.mp hall (id, r)
          (Std.ExtTreeMap.mem_toList_iff_getElem?_eq_some.mpr hr)
        rw [Option.any_eq_true] at hany
        obtain ⟨s, hs, hrs⟩ := hany
        obtain ⟨id', hs'⟩ := exists_of_recordAt? hs
        refine ⟨id', fun r' hr' => ⟨s, hs', ?_⟩⟩
        cases hr'
        exact Record.sameRecord_iff.mp hrs
  choose f hf using hcounterpart
  have hinj : Set.InjOn f c.ids := by
    intro id hid id' hid' he
    obtain ⟨r, hr⟩ := mem_ids.mp hid
    obtain ⟨r', hr'⟩ := mem_ids.mp hid'
    obtain ⟨s, hs, hrs⟩ := hf id r hr
    obtain ⟨s', hs', hrs'⟩ := hf id' r' hr'
    rw [he, hs'] at hs
    cases hs
    refine hc.id_unique hr hr' ?_
    exact Record.congr_unranked (hrs.symm.trans hrs') Record.ip fun _ => rfl
  obtain ⟨π, hπ⟩ := exists_perm_eq_on f c.ids hinj
  have hto : ∀ (id : RecordId) (r : Record), c.records[id]? = some r →
      ∃ s : Record, d.records[π id]? = some s ∧ s.unranked = r.unranked := by
    intro id r hr
    rw [hπ id (mem_ids.mpr ⟨r, hr⟩)]
    exact hf id r hr
  -- There are as many records in both, so no record of the other cache is left out.
  have himage : c.ids.map π.toEmbedding = d.ids := by
    refine Finset.eq_of_subset_of_card_le (fun x hx => ?_) ?_
    · obtain ⟨id, hid, rfl⟩ := Finset.mem_map.mp hx
      obtain ⟨r, hr⟩ := mem_ids.mp hid
      obtain ⟨s, hs, -⟩ := hto id r hr
      exact mem_ids.mpr ⟨s, hs⟩
    · rw [Finset.card_map, card_ids, card_ids, hsize]
  have hrecord : ∀ id : RecordId,
      d.records[π id]?.map Record.unranked = c.records[id]?.map Record.unranked := by
    intro id
    cases hr : c.records[id]? with
    | some r =>
        obtain ⟨s, hs, hrs⟩ := hto id r hr
        rw [hs, Option.map_some, hrs, Option.map_some]
    | none =>
        have hnot : π id ∉ d.ids := by
          rw [← himage, Finset.mem_map_equiv, Equiv.symm_apply_apply, mem_ids, hr]
          simp
        rw [mem_ids, not_exists] at hnot
        rw [Option.eq_none_iff_forall_ne_some.mpr hnot]
  have hfrom : ∀ (id : RecordId) (s : Record), d.records[id]? = some s →
      ∃ r : Record, c.records[π.symm id]? = some r ∧ r.unranked = s.unranked := by
    intro id s hs
    have hid := hrecord (π.symm id)
    rw [Equiv.apply_symm_apply, hs, eq_comm, Option.map_some, Option.map_eq_some_iff] at hid
    exact hid
  refine ⟨π, hkey.symm, hrecord, fun id => ?_, fun id => ?_⟩
  · ext ⟨b, p⟩
    rw [SlotTable.mem_held, SlotTable.mem_held]
    constructor
    · intro hget
      have hback :=
        get_of_slotHolders hc.toIndexed hd.sound.newTable_mem hfrom hnewHolders.symm hget
      rwa [Equiv.symm_apply_apply] at hback
    · exact get_of_slotHolders hd.toIndexed hc.sound.newTable_mem hto hnewHolders
  · ext ⟨b, p⟩
    rw [SlotTable.mem_held, SlotTable.mem_held]
    constructor
    · intro hget
      have hback :=
        get_of_slotHolders hc.toIndexed hd.sound.triedTable_mem hfrom htriedHolders.symm hget
      rwa [Equiv.symm_apply_apply] at hback
    · exact get_of_slotHolders hd.toIndexed hc.sound.triedTable_mem hto htriedHolders

/-- Two coherent caches compare equal exactly when they differ in their numbering. -/
theorem sameContents_iff (hc : Coherent ∅ ∅ c) (hd : Coherent ∅ ∅ d) :
    c.sameContents d = true ↔ ∃ π : Equiv.Perm RecordId, Renames π c d := by
  constructor
  · exact exists_renames hc hd
  · rintro ⟨π, h⟩
    exact h.sameContents hc hd

end Cache

end PeerCache
