import Mathlib.Data.Set.Insert
import PeerCache.Cache.Audit
import PeerCache.Cache.Equality
import PeerCache.Proofs.Cache.Records
import PeerCache.Proofs.SlotTable

/-!
# `PeerCache.Proofs.Cache.Sound`: the structural rules of a cache

`Cache.Sound` states what the indexes of a cache have to do with its records. It
is what a cache satisfies between two operations.

Within an operation the rules fail for a while. A record that was just created
holds no slot yet, and a record on its way to the tried table is counted in
neither table. `Cache.Coherent loose uncounted` allows for that. The records in
`loose` may be without a slot, and the records in `uncounted` are left out of the
counter of the new table. All else holds at every moment. An operation is
followed through states of this kind, and `Coherent ∅ ∅` implies `Sound`
(`Coherent.sound`).

The invariant has a part for the indexes (`Indexed`) and a part for the tables
(`Placed`). Each has a lemma saying that it only reads some fields of the records:
`Indexed.congr` and `Placed.congr`.
-/

set_option autoImplicit false

namespace PeerCache

namespace Cache

/-- The structural rules of a cache. -/
structure Sound (c : Cache) : Prop where
  /-- The sampling order lists every record once, at the place the record names. -/
  order_iff : ∀ (i : Nat) (id : RecordId), c.order[i]? = some id ↔
    ∃ r : Record, c.records[id]? = some r ∧ r.orderIndex = i
  /-- The address index leads from the address of each record to its number. -/
  addresses_iff : ∀ (ip : Ip) (id : RecordId), c.addresses[ip]? = some id ↔
    ∃ r : Record, c.records[id]? = some r ∧ r.ip = ip
  newCount_eq : c.newCount = c.newRecords.length
  triedCount_eq : c.triedCount = c.triedRecords.length
  /-- A tried record holds the slot its endpoint hashes to, and nothing else. -/
  tried : ∀ (id : RecordId) (r : Record), c.records[id]? = some r → r.inTried = true →
    r.refs = 0 ∧ c.triedTable.held id = {c.triedSlot r.endpoint} ∧ c.newTable.held id = ∅
  /-- Any other record holds as many slots of the new table as it counts, each at
  the position its endpoint hashes to in the bucket. -/
  new : ∀ (id : RecordId) (r : Record), c.records[id]? = some r → r.inTried = false →
    (1 ≤ r.refs ∧ r.refs ≤ maxReferences) ∧ (c.newTable.held id).card = r.refs ∧
      (∀ b p, c.newTable.get b p = some id → p = c.newSlot b r.endpoint) ∧
      c.triedTable.held id = ∅
  /-- No slot names a record that is not there. -/
  newTable_mem : ∀ b p id, c.newTable.get b p = some id → id ∈ c.records
  triedTable_mem : ∀ b p id, c.triedTable.get b p = some id → id ∈ c.records

/-- The indexes other than the tables agree with the records, and every record is
kept in canonical notation under a number that was given out. -/
structure Indexed (c : Cache) : Prop where
  order_iff : ∀ (i : Nat) (id : RecordId), c.order[i]? = some id ↔
    ∃ r : Record, c.records[id]? = some r ∧ r.orderIndex = i
  addresses_iff : ∀ (ip : Ip) (id : RecordId), c.addresses[ip]? = some id ↔
    ∃ r : Record, c.records[id]? = some r ∧ r.ip = ip
  number_lt : ∀ (id : RecordId) (r : Record), c.records[id]? = some r → id.number < c.nextId
  canonical : ∀ (id : RecordId) (r : Record), c.records[id]? = some r →
    r.endpoint.canonical = r.endpoint ∧ r.source.canonical = r.source

/-- The tables agree with the records. -/
structure Placed (c : Cache) : Prop where
  tried_iff : ∀ b p id, c.triedTable.get b p = some id ↔
    ∃ r : Record, c.records[id]? = some r ∧ r.inTried = true ∧ c.triedSlot r.endpoint = (b, p)
  new_slot : ∀ b p id, c.newTable.get b p = some id →
    ∃ r : Record, c.records[id]? = some r ∧ r.inTried = false ∧ c.newSlot b r.endpoint = p
  card_held : ∀ (id : RecordId) (r : Record), c.records[id]? = some r →
    (c.newTable.held id).card = r.refs
  refs_le : ∀ (id : RecordId) (r : Record), c.records[id]? = some r → r.refs ≤ maxReferences

/-- The rules within an operation: records in `loose` may be without a slot, and
the counter of the new table leaves out the records in `uncounted`. -/
structure Coherent (loose : Set RecordId) (uncounted : Finset RecordId) (c : Cache) : Prop
    extends Indexed c, Placed c where
  mem_loose : ∀ (id : RecordId) (r : Record), c.records[id]? = some r → r.inTried = false →
    r.refs = 0 → id ∈ loose
  newCount_eq : c.newCount = (c.idsIn false \ uncounted).card
  triedCount_eq : c.triedCount = (c.idsIn true).card

variable {c d : Cache} {loose : Set RecordId} {uncounted : Finset RecordId}

theorem Indexed.orderIndex_lt (h : Indexed c) {id : RecordId} {r : Record}
    (hr : c.records[id]? = some r) : r.orderIndex < c.order.size := by
  have hget : c.order[r.orderIndex]? = some id := (h.order_iff _ _).mpr ⟨r, hr, rfl⟩
  exact (Array.getElem?_eq_some_iff.mp hget).1

/-- Two records with the same address are one. -/
theorem Indexed.id_unique (h : Indexed c) {id id' : RecordId} {r r' : Record}
    (hr : c.records[id]? = some r) (hr' : c.records[id']? = some r') (hip : r.ip = r'.ip) :
    id = id' := by
  have hget := (h.addresses_iff r.ip id).mpr ⟨r, hr, rfl⟩
  rw [(h.addresses_iff r.ip id').mpr ⟨r', hr', hip.symm⟩] at hget
  exact (Option.some.inj hget).symm

/-- A record is found by its address. -/
theorem Indexed.recordAt? (h : Indexed c) {id : RecordId} {r : Record}
    (hr : c.records[id]? = some r) : c.recordAt? r.ip = some r := by
  have haddress := (h.addresses_iff r.ip id).mpr ⟨r, hr, rfl⟩
  simp [Cache.recordAt?, haddress, hr]

theorem exists_of_recordAt? {ip : Ip} {r : Record} (h : c.recordAt? ip = some r) :
    ∃ id : RecordId, c.records[id]? = some r := by
  obtain ⟨id, -, hr⟩ := Option.bind_eq_some_iff.mp h
  exact ⟨id, hr⟩

/-- A number that names no record stands nowhere in the indexes. -/
theorem Indexed.ne_of_none (h : Indexed c) {id : RecordId} (hid : c.records[id]? = none) :
    (∀ i : Nat, c.order[i]? ≠ some id) ∧ ∀ ip : Ip, c.addresses[ip]? ≠ some id := by
  constructor
  · intro i hget
    obtain ⟨r, hr, -⟩ := (h.order_iff i id).mp hget
    rw [hid] at hr
    cases hr
  · intro ip hget
    obtain ⟨r, hr, -⟩ := (h.addresses_iff ip id).mp hget
    rw [hid] at hr
    cases hr

/-- The cache is empty when no number names a record. -/
theorem Indexed.isEmpty_iff (h : Indexed c) :
    c.isEmpty = true ↔ ∀ id : RecordId, c.records[id]? = none := by
  rw [isEmpty, Array.isEmpty_iff_size_eq_zero]
  constructor
  · intro hsize id
    cases hr : c.records[id]? with
    | none => rfl
    | some r => exact absurd (h.orderIndex_lt hr) (by omega)
  · intro hnone
    by_contra hsize
    -- The first place of the order would name a record.
    have hpos : 0 < c.order.size := by omega
    obtain ⟨r, hr, -⟩ := (h.order_iff 0 c.order[0]).mp (Array.getElem?_eq_getElem hpos)
    rw [hnone] at hr
    cases hr

/-- The next number is free. -/
theorem Indexed.getElem?_nextId (h : Indexed c) : c.records[(⟨c.nextId⟩ : RecordId)]? = none := by
  cases hr : c.records[(⟨c.nextId⟩ : RecordId)]? with
  | none => rfl
  | some r => exact absurd (h.number_lt _ r hr) (Nat.lt_irrefl _)

/-- An endpoint is found exactly where a record has it. -/
theorem Indexed.lookup_eq_some_iff (h : Indexed c) {e : Endpoint} {id : RecordId} {r : Record} :
    c.lookup e = some (id, r) ↔ c.records[id]? = some r ∧ r.endpoint = e.canonical := by
  constructor
  · exact lookup_eq_some
  · rintro ⟨hr, he⟩
    have hip : r.ip = e.ip.canonical := (congrArg Endpoint.ip he).trans (Endpoint.ip_canonical e)
    have haddress := (h.addresses_iff r.ip id).mpr ⟨r, hr, rfl⟩
    rw [hip] at haddress
    simp [lookup, haddress, hr, he]

theorem Indexed.lookup_eq_none_iff (h : Indexed c) {e : Endpoint} :
    c.lookup e = none ↔
      ∀ (id : RecordId) (r : Record), c.records[id]? = some r → r.endpoint ≠ e.canonical := by
  constructor
  · intro hnone id r hr he
    rw [h.lookup_eq_some_iff.mpr ⟨hr, he⟩] at hnone
    cases hnone
  · intro hne
    refine Option.eq_none_iff_forall_ne_some.mpr fun x hx => ?_
    exact hne x.1 x.2 (lookup_eq_some hx).1 (lookup_eq_some hx).2

/-- `Indexed` reads of a record its endpoint, its source and its place in the
sampling order. -/
theorem Indexed.congr (h : Indexed c) {g : RecordId → Record → Record}
    (hrec : ∀ j, d.records[j]? = c.records[j]?.map (g j))
    (hg : ∀ j r, c.records[j]? = some r →
      (g j r).endpoint = r.endpoint ∧ (g j r).source = r.source ∧
        (g j r).orderIndex = r.orderIndex)
    (horder : d.order = c.order) (haddresses : d.addresses = c.addresses)
    (hnext : d.nextId = c.nextId) : Indexed d where
  order_iff i id := by
    rw [horder, h.order_iff, hrec]
    cases hr : c.records[id]? with
    | none => simp
    | some r => simp [(hg id r hr).2.2]
  addresses_iff ip id := by
    rw [haddresses, h.addresses_iff, hrec]
    cases hr : c.records[id]? with
    | none => simp
    | some r =>
        have hip : (g id r).ip = r.ip := congrArg Endpoint.ip (hg id r hr).1
        simp [hip]
  number_lt id r' hr' := by
    rw [hrec, Option.map_eq_some_iff] at hr'
    obtain ⟨r, hr, -⟩ := hr'
    rw [hnext]
    exact h.number_lt id r hr
  canonical id r' hr' := by
    rw [hrec, Option.map_eq_some_iff] at hr'
    obtain ⟨r, hr, rfl⟩ := hr'
    rw [(hg id r hr).1, (hg id r hr).2.1]
    exact h.canonical id r hr

/-- `Placed` reads of a record its endpoint, its table and its references. -/
theorem Placed.congr (h : Placed c) {g : RecordId → Record → Record}
    (hrec : ∀ j, d.records[j]? = c.records[j]?.map (g j))
    (hg : ∀ j r, c.records[j]? = some r →
      (g j r).endpoint = r.endpoint ∧ (g j r).inTried = r.inTried ∧ (g j r).refs = r.refs)
    (hkey : d.key = c.key) (hnew : d.newTable = c.newTable) (htried : d.triedTable = c.triedTable) :
    Placed d where
  tried_iff b p id := by
    rw [htried, h.tried_iff, hrec]
    cases hr : c.records[id]? with
    | none => simp
    | some r => simp [hg id r hr, triedSlot, hkey]
  new_slot b p id hget := by
    rw [hnew] at hget
    obtain ⟨r, hr, htable, hslot⟩ := h.new_slot b p id hget
    refine ⟨g id r, by rw [hrec, hr]; rfl, (hg id r hr).2.1.trans htable, ?_⟩
    rw [(hg id r hr).1, newSlot, hkey]
    exact hslot
  card_held id r' hr' := by
    rw [hrec, Option.map_eq_some_iff] at hr'
    obtain ⟨r, hr, rfl⟩ := hr'
    rw [hnew, h.card_held id r hr, (hg id r hr).2.2]
  refs_le id r' hr' := by
    rw [hrec, Option.map_eq_some_iff] at hr'
    obtain ⟨r, hr, rfl⟩ := hr'
    rw [(hg id r hr).2.2]
    exact h.refs_le id r hr

/-! ### The holders of slots -/

section

variable {rows cols : Nat}

/-- The addresses in the slots, as a filtered list of all slots. -/
theorem slotHolders_eq (c : Cache) (t : SlotTable rows cols RecordId) :
    c.slotHolders t = (List.finRange rows).flatMap fun b =>
      (List.finRange cols).filterMap fun p =>
        (t.get b p).bind fun id => c.records[id]?.map fun r => (b, p, r.ip) := by
  rw [slotHolders, SlotTable.occupied_eq, List.filterMap_flatMap]
  congr 1
  funext b
  rw [List.filterMap_filterMap]
  congr 1
  funext p
  rw [Option.bind_map]
  rfl

theorem mem_slotHolders {t : SlotTable rows cols RecordId} {b : Fin rows} {p : Fin cols}
    {ip : Ip} : (b, p, ip) ∈ c.slotHolders t ↔ ∃ (id : RecordId) (r : Record),
      t.get b p = some id ∧ c.records[id]? = some r ∧ r.ip = ip := by
  simp [slotHolders]

end

/-- A record without references holds no slot of the new table. -/
theorem Placed.held_eq_empty (h : Placed c) {id : RecordId} {r : Record}
    (hr : c.records[id]? = some r) (hrefs : r.refs = 0) : c.newTable.held id = ∅ := by
  rw [← Finset.card_eq_zero, h.card_held id r hr, hrefs]

/-- A record that holds a slot of the new table is not tried, and it belongs there. -/
theorem Placed.of_newTable (h : Placed c) {id : RecordId} {r : Record}
    (hr : c.records[id]? = some r) {b : Fin newBucketCount} {p : Fin bucketSize}
    (hget : c.newTable.get b p = some id) : r.inTried = false ∧ c.newSlot b r.endpoint = p := by
  obtain ⟨r', hr', hslot⟩ := h.new_slot b p id hget
  rw [hr] at hr'
  cases hr'
  exact hslot

/-- A record that holds a slot of the tried table is tried, and it belongs there. -/
theorem Placed.of_triedTable (h : Placed c) {id : RecordId} {r : Record}
    (hr : c.records[id]? = some r) {b : Fin triedBucketCount} {p : Fin bucketSize}
    (hget : c.triedTable.get b p = some id) :
    r.inTried = true ∧ c.triedSlot r.endpoint = (b, p) := by
  obtain ⟨r', hr', hslot⟩ := (h.tried_iff b p id).mp hget
  rw [hr] at hr'
  cases hr'
  exact hslot

/-- A tried record holds no slot of the new table. -/
theorem Placed.held_eq_empty_of_tried (h : Placed c) {id : RecordId} {r : Record}
    (hr : c.records[id]? = some r) (htried : r.inTried = true) : c.newTable.held id = ∅ := by
  rw [SlotTable.held_eq_empty_iff]
  intro b p hget
  have hnew := (h.of_newTable hr hget).1
  rw [htried] at hnew
  cases hnew

/-- A record that is not tried holds no slot of the tried table. -/
theorem Placed.get_ne_of_new (h : Placed c) {id : RecordId} {r : Record}
    (hr : c.records[id]? = some r) (hnew : r.inTried = false) (b : Fin triedBucketCount)
    (p : Fin bucketSize) : c.triedTable.get b p ≠ some id := by
  intro hget
  have htried := (h.of_triedTable hr hget).1
  rw [hnew] at htried
  cases htried

theorem Placed.refs_eq_zero_of_tried (h : Placed c) {id : RecordId} {r : Record}
    (hr : c.records[id]? = some r) (htried : r.inTried = true) : r.refs = 0 := by
  rw [← h.card_held id r hr, h.held_eq_empty_of_tried hr htried, Finset.card_empty]

/-- A record that has references is no loose one, so its number may leave `loose`. -/
theorem Coherent.mono (h : Coherent loose uncounted c) {loose' : Set RecordId}
    (hsub : ∀ id r, c.records[id]? = some r → r.inTried = false → r.refs = 0 → id ∈ loose →
      id ∈ loose') : Coherent loose' uncounted c :=
  { h with
    mem_loose := fun id r hr hnew hrefs =>
      hsub id r hr hnew hrefs (h.mem_loose id r hr hnew hrefs) }

/-- A change that only touches the history of records keeps the invariant. -/
theorem Coherent.congr (h : Coherent loose uncounted c) {g : RecordId → Record → Record}
    (hrec : ∀ j, d.records[j]? = c.records[j]?.map (g j))
    (hg : ∀ j r, c.records[j]? = some r →
      (g j r).endpoint = r.endpoint ∧ (g j r).source = r.source ∧
        (g j r).orderIndex = r.orderIndex ∧ (g j r).inTried = r.inTried ∧ (g j r).refs = r.refs)
    (hrest : d = { c with records := d.records }) : Coherent loose uncounted d := by
  rw [hrest] at hrec ⊢
  refine ⟨h.toIndexed.congr hrec (fun j r hr => ?_) rfl rfl rfl,
    h.toPlaced.congr hrec (fun j r hr => ?_) rfl rfl rfl, ?_, ?_, ?_⟩
  · exact ⟨(hg j r hr).1, (hg j r hr).2.1, (hg j r hr).2.2.1⟩
  · exact ⟨(hg j r hr).1, (hg j r hr).2.2.2.1, (hg j r hr).2.2.2.2⟩
  · intro id r' hr' hnew hrefs
    rw [hrec, Option.map_eq_some_iff] at hr'
    obtain ⟨r, hr, rfl⟩ := hr'
    rw [(hg id r hr).2.2.2.1] at hnew
    rw [(hg id r hr).2.2.2.2] at hrefs
    exact h.mem_loose id r hr hnew hrefs
  · rw [idsIn_congr hrec fun j r hr => (hg j r hr).2.2.2.1]
    exact h.newCount_eq
  · rw [idsIn_congr hrec fun j r hr => (hg j r hr).2.2.2.1]
    exact h.triedCount_eq

/-- A change of the history of one record keeps the invariant. -/
theorem Coherent.modifyHistory (h : Coherent loose uncounted c) {id : RecordId}
    {f : Record → Record} (hf : ∀ r, c.records[id]? = some r →
      (f r).endpoint = r.endpoint ∧ (f r).source = r.source ∧
        (f r).orderIndex = r.orderIndex ∧ (f r).inTried = r.inTried ∧ (f r).refs = r.refs) :
    Coherent loose uncounted (c.modifyRecord id f) := by
  refine h.congr (records_modifyRecord c id f) (fun j r hr => ?_) rfl
  by_cases hj : j = id
  · subst hj
    rw [if_pos rfl]
    exact hf r hr
  · simp [hj]

/-- Between operations nothing is exempt, and the structural rules hold. -/
theorem Coherent.sound (h : Coherent ∅ ∅ c) : Sound c where
  order_iff := h.order_iff
  addresses_iff := h.addresses_iff
  newCount_eq := by rw [h.newCount_eq, Finset.sdiff_empty, card_idsIn_false]
  triedCount_eq := by rw [h.triedCount_eq, card_idsIn_true]
  tried id r hr htried := by
    refine ⟨h.refs_eq_zero_of_tried hr htried, ?_, h.held_eq_empty_of_tried hr htried⟩
    ext ⟨b, p⟩
    rw [SlotTable.mem_held, h.tried_iff, Finset.mem_singleton]
    constructor
    · rintro ⟨r', hr', -, hslot⟩
      rw [hr] at hr'
      cases hr'
      exact hslot.symm
    · intro hslot
      exact ⟨r, hr, htried, hslot.symm⟩
  new id r hr hnew := by
    refine ⟨⟨?_, h.refs_le id r hr⟩, h.card_held id r hr, ?_, ?_⟩
    · -- A record without references would be loose, and none is.
      exact Nat.pos_of_ne_zero fun hrefs =>
        Set.notMem_empty id (h.mem_loose id r hr hnew hrefs)
    · intro b p hget
      exact (h.of_newTable hr hget).2.symm
    · exact SlotTable.held_eq_empty_iff.mpr (h.get_ne_of_new hr hnew)
  newTable_mem b p id hget := by
    obtain ⟨r, hr, -⟩ := h.new_slot b p id hget
    exact (mem_iff_exists_getElem? c.records id).mpr ⟨r, hr⟩
  triedTable_mem b p id hget := by
    obtain ⟨r, hr, -⟩ := (h.tried_iff b p id).mp hget
    exact (mem_iff_exists_getElem? c.records id).mpr ⟨r, hr⟩

theorem idsIn_ofKey (policy : Policy) (key : PlacementKey) (tried : Bool) :
    (ofKey policy key).idsIn tried = ∅ := by
  ext id
  simp [ofKey]

/-- The empty cache follows the rules. -/
theorem coherent_ofKey (policy : Policy) (key : PlacementKey) :
    Coherent ∅ ∅ (ofKey policy key) where
  order_iff := by simp [ofKey]
  addresses_iff := by simp [ofKey]
  number_lt := by simp [ofKey]
  canonical := by simp [ofKey]
  tried_iff := by simp [ofKey]
  new_slot := by simp [ofKey]
  card_held := by simp [ofKey]
  refs_le := by simp [ofKey]
  mem_loose := by simp [ofKey]
  newCount_eq := by rw [idsIn_ofKey]; rfl
  triedCount_eq := by rw [idsIn_ofKey]; rfl

end Cache

end PeerCache
