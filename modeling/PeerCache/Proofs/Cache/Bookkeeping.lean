import Mathlib.Logic.Equiv.Basic
import PeerCache.Proofs.Cache.Sound

/-!
# `PeerCache.Proofs.Cache.Bookkeeping`: adding and removing records

The two steps that change the set of records. A new record goes to the end of
the sampling order and holds no slot (`inserted`). A record is removed by moving
it to the end of the order first: `swapOrder_eq` says what the cache is then, and
`Coherent.delete` that the removal succeeds where the invariant holds.

Exchanging two places of the order is the transposition of the two places, on the
order as well as on the place that each record names.
-/

set_option autoImplicit false

namespace PeerCache

/-- The record at another place of the sampling order. -/
def Record.moved (f : Nat → Nat) (r : Record) : Record := { r with orderIndex := f r.orderIndex }

@[simp] theorem Record.moved_ip (f : Nat → Nat) (r : Record) : (r.moved f).ip = r.ip := rfl

@[simp] theorem Record.moved_orderIndex (f : Nat → Nat) (r : Record) :
    (r.moved f).orderIndex = f r.orderIndex := rfl

@[simp] theorem Record.unranked_comp_moved (f : Nat → Nat) :
    Record.unranked ∘ Record.moved f = Record.unranked := rfl

namespace Cache

variable {c d : Cache} {loose : Set RecordId} {uncounted : Finset RecordId}

/-! ### Adding a record -/

/-- The cache with a record added under the next number. -/
def inserted (c : Cache) (r : Record) : Cache :=
  { c with
    nextId := c.nextId + 1
    addresses := c.addresses.insert r.ip ⟨c.nextId⟩
    records := c.records.insert ⟨c.nextId⟩ r
    order := c.order.push ⟨c.nextId⟩ }

theorem records_inserted (c : Cache) (r : Record) (j : RecordId) :
    (c.inserted r).records[j]? = if j = ⟨c.nextId⟩ then some r else c.records[j]? :=
  getElem?_insert_eq_ite c.records ⟨c.nextId⟩ j r

/-- A record is the one that was added or was there before. -/
theorem getElem?_of_inserted {r s : Record} {j : RecordId}
    (hs : (c.inserted r).records[j]? = some s) :
    j = ⟨c.nextId⟩ ∧ s = r ∨ c.records[j]? = some s := by
  rw [records_inserted] at hs
  split at hs
  · next hj => exact Or.inl ⟨hj, (Option.some.inj hs).symm⟩
  · exact Or.inr hs

/-- What a record must satisfy to be added: it stands at the end of the order,
holds no slot, is in canonical notation, and its address is unknown. -/
structure Newcomer (c : Cache) (r : Record) : Prop where
  orderIndex : r.orderIndex = c.order.size
  refs : r.refs = 0
  inTried : r.inTried = false
  endpoint : r.endpoint.canonical = r.endpoint
  source : r.source.canonical = r.source
  address : c.addresses[r.ip]? = none

theorem Indexed.inserted (h : Indexed c) {r : Record} (hr : c.Newcomer r) :
    Indexed (c.inserted r) where
  order_iff i id := by
    have hfree := h.getElem?_nextId
    rw [records_inserted]
    show (c.order.push ⟨c.nextId⟩)[i]? = some id ↔ _
    rw [Array.getElem?_push]
    by_cases hid : id = ⟨c.nextId⟩
    · subst hid
      rw [if_pos rfl]
      by_cases hi : i = c.order.size
      · simp [hi, hr.orderIndex]
      · have hno := (h.ne_of_none hfree).1 i
        simp [hi, hno, hr.orderIndex, Ne.symm hi]
    · rw [if_neg hid]
      by_cases hi : i = c.order.size
      · subst hi
        rw [if_pos rfl]
        constructor
        · intro he
          exact absurd (Option.some.inj he).symm hid
        · rintro ⟨r', hr', hplace⟩
          exact absurd (h.orderIndex_lt hr') (by omega)
      · rw [if_neg hi, h.order_iff]
  addresses_iff ip id := by
    have hfree := h.getElem?_nextId
    rw [records_inserted]
    show (c.addresses.insert r.ip ⟨c.nextId⟩)[ip]? = some id ↔ _
    rw [Std.ExtHashMap.getElem?_insert]
    by_cases hid : id = ⟨c.nextId⟩
    · subst hid
      rw [if_pos rfl]
      have hno := (h.ne_of_none hfree).2 ip
      by_cases hip : r.ip = ip
      · simp [hip]
      · simp [hip, hno]
    · rw [if_neg hid]
      by_cases hip : r.ip = ip
      · subst hip
        rw [if_pos (beq_self_eq_true r.ip)]
        constructor
        · intro he
          exact absurd (Option.some.inj he).symm hid
        · intro he
          rw [← h.addresses_iff, hr.address] at he
          cases he
      · rw [if_neg (by simpa using hip), h.addresses_iff]
  number_lt id r' hr' := by
    show id.number < c.nextId + 1
    rcases getElem?_of_inserted hr' with ⟨rfl, -⟩ | hr'
    · exact Nat.lt_succ_self _
    · exact Nat.lt_succ_of_lt (h.number_lt id r' hr')
  canonical id r' hr' := by
    rcases getElem?_of_inserted hr' with ⟨-, rfl⟩ | hr'
    · exact ⟨hr.endpoint, hr.source⟩
    · exact h.canonical id r' hr'

/-- A number that names no record occurs in no table. -/
theorem Placed.get_ne_of_none (h : Placed c) {id : RecordId} (hid : c.records[id]? = none) :
    (∀ b p, c.newTable.get b p ≠ some id) ∧ ∀ b p, c.triedTable.get b p ≠ some id := by
  constructor
  · intro b p hget
    obtain ⟨r, hr, -⟩ := h.new_slot b p id hget
    rw [hid] at hr
    cases hr
  · intro b p hget
    obtain ⟨r, hr, -⟩ := (h.tried_iff b p id).mp hget
    rw [hid] at hr
    cases hr

theorem Placed.inserted (h : Placed c) (hfree : c.records[(⟨c.nextId⟩ : RecordId)]? = none)
    {r : Record} (hr : c.Newcomer r) : Placed (c.inserted r) where
  tried_iff b p id := by
    rw [records_inserted]
    show c.triedTable.get b p = some id ↔ _
    by_cases hid : id = ⟨c.nextId⟩
    · subst hid
      simp [(h.get_ne_of_none hfree).2 b p, hr.inTried]
    · rw [if_neg hid]
      exact h.tried_iff b p id
  new_slot b p id hget := by
    have hid : id ≠ ⟨c.nextId⟩ := by
      rintro rfl
      exact (h.get_ne_of_none hfree).1 b p hget
    rw [records_inserted, if_neg hid]
    exact h.new_slot b p id hget
  card_held id r' hr' := by
    show (c.newTable.held id).card = r'.refs
    rcases getElem?_of_inserted hr' with ⟨rfl, rfl⟩ | hr'
    · rw [SlotTable.held_eq_empty_iff.mpr (h.get_ne_of_none hfree).1, hr.refs]
      rfl
    · exact h.card_held id r' hr'
  refs_le id r' hr' := by
    rcases getElem?_of_inserted hr' with ⟨-, rfl⟩ | hr'
    · rw [hr.refs]
      exact Nat.zero_le _
    · exact h.refs_le id r' hr'

theorem idsIn_inserted_false (c : Cache) {r : Record} (hr : r.inTried = false) :
    (c.inserted r).idsIn false = insert ⟨c.nextId⟩ (c.idsIn false) := by
  ext id
  rw [mem_idsIn, records_inserted, Finset.mem_insert, mem_idsIn]
  by_cases hid : id = ⟨c.nextId⟩ <;> simp [hid, hr]

theorem idsIn_inserted_true (h : Indexed c) {r : Record} (hr : r.inTried = false) :
    (c.inserted r).idsIn true = c.idsIn true := by
  ext id
  rw [mem_idsIn, records_inserted, mem_idsIn]
  by_cases hid : id = ⟨c.nextId⟩
  · simp [hid, hr, h.getElem?_nextId]
  · simp [hid]

/-- A record that was just added is not yet counted and holds no slot. -/
theorem Coherent.inserted (h : Coherent loose uncounted c) {r : Record} (hr : c.Newcomer r) :
    Coherent (insert ⟨c.nextId⟩ loose) (insert ⟨c.nextId⟩ uncounted) (c.inserted r) where
  toIndexed := h.toIndexed.inserted hr
  toPlaced := h.toPlaced.inserted h.getElem?_nextId hr
  mem_loose id r' hr' hnew hrefs := by
    rcases getElem?_of_inserted hr' with ⟨hid, -⟩ | hr'
    · exact Or.inl hid
    · exact Or.inr (h.mem_loose id r' hr' hnew hrefs)
  newCount_eq := by
    have hfresh : (⟨c.nextId⟩ : RecordId) ∉ c.idsIn false := by simp [h.getElem?_nextId]
    rw [idsIn_inserted_false c hr.inTried,
      Finset.insert_sdiff_of_mem _ (Finset.mem_insert_self _ _),
      Finset.sdiff_insert_of_notMem hfresh]
    exact h.newCount_eq
  triedCount_eq := by
    rw [idsIn_inserted_true h.toIndexed hr.inTried]
    exact h.triedCount_eq

/-- A new record that was left out of the counter is counted. -/
theorem Coherent.countNew (h : Coherent loose uncounted c) {id : RecordId} {r : Record}
    (hr : c.records[id]? = some r) (hnew : r.inTried = false) (hid : id ∈ uncounted) :
    Coherent loose (uncounted.erase id) { c with newCount := c.newCount + 1 } where
  toIndexed := ⟨h.order_iff, h.addresses_iff, h.number_lt, h.canonical⟩
  toPlaced := ⟨h.tried_iff, h.new_slot, h.card_held, h.refs_le⟩
  mem_loose := h.mem_loose
  newCount_eq := by
    show c.newCount + 1 = (c.idsIn false \ uncounted.erase id).card
    have hmem : id ∈ c.idsIn false := mem_idsIn.mpr ⟨r, hr, hnew⟩
    rw [Finset.sdiff_erase hmem, Finset.card_insert_of_notMem (by simp [hid]), h.newCount_eq]
  triedCount_eq := h.triedCount_eq

/-! ### The sampling order -/

/-- Exchanging two places of the order succeeds. It permutes the order and the
places named by the records alike. -/
theorem swapOrder_eq (h : Indexed c) {i k : Nat} (hi : i < c.order.size) (hk : k < c.order.size) :
    ∃ records order, c.swapOrder i k = .ok { c with records, order } ∧
      order.size = c.order.size ∧ (∀ n, order[n]? = c.order[Equiv.swap i k n]?) ∧
      ∀ j : RecordId, records[j]? = c.records[j]?.map (Record.moved (Equiv.swap i k)) := by
  by_cases hik : i = k
  · subst hik
    refine ⟨c.records, c.order, by simp [swapOrder], rfl, by simp, fun j => ?_⟩
    have hid : Record.moved (Equiv.swap i i) = id := by
      funext r
      simp [Record.moved]
    rw [hid, Option.map_id_fun, id]
  · -- The order is permuted place by place, the records number by number.
    refine ⟨_, _, by rw [swapOrder, if_neg hik, dif_pos ⟨hi, hk⟩], by simp, fun n => ?_,
      fun j => ?_⟩
    · rw [Array.getElem?_swap, Equiv.swap_apply_def]
      by_cases hn : n = i
      · subst hn
        rw [if_neg (Ne.symm hik), if_pos rfl, if_pos rfl, Array.getElem?_eq_getElem hk]
      · by_cases hn' : n = k
        · subst hn'
          rw [if_pos rfl, if_neg hn, if_pos rfl, Array.getElem?_eq_getElem hi]
        · rw [if_neg (Ne.symm hn'), if_neg (Ne.symm hn), if_neg hn, if_neg hn']
    · rw [getElem?_modify_eq_map, getElem?_modify_eq_map, Option.map_map]
      cases hr : c.records[j]? with
      | none => rfl
      | some r =>
          -- The two modified records are the ones that name the places `i` and `k`.
          have hplace : ∀ n (hn : n < c.order.size), j = c.order[n] ↔ r.orderIndex = n := by
            intro n hn
            have hget : c.order[n]? = some c.order[n] := Array.getElem?_eq_getElem hn
            constructor
            · intro hj
              rw [← hj, h.order_iff] at hget
              obtain ⟨r', hr', hplace⟩ := hget
              rw [hr] at hr'
              cases hr'
              exact hplace
            · intro hplace
              rw [(h.order_iff n j).mpr ⟨r, hr, hplace⟩] at hget
              exact Option.some.inj hget
          simp only [Option.map_some, Function.comp_apply, hplace i hi, hplace k hk, Record.moved,
            Equiv.swap_apply_def]
          by_cases hpi : r.orderIndex = i
          · have hpk : r.orderIndex ≠ k := fun hpk => hik (hpi.symm.trans hpk)
            simp [hpi, hik]
          · by_cases hpk : r.orderIndex = k
            · simp [hpk, Ne.symm hik]
            · simp [hpi, hpk]

/-- The indexes after an exchange of two places. -/
theorem Indexed.swap (h : Indexed c) {i k : Nat} {records : Std.ExtTreeMap RecordId Record}
    {order : Array RecordId} (horder : ∀ n, order[n]? = c.order[Equiv.swap i k n]?)
    (hrecords : ∀ j : RecordId, records[j]? = c.records[j]?.map (Record.moved (Equiv.swap i k))) :
    Indexed { c with records, order } where
  order_iff n id := by
    show order[n]? = some id ↔ ∃ r : Record, records[id]? = some r ∧ r.orderIndex = n
    rw [horder, h.order_iff, hrecords]
    cases hr : c.records[id]? with
    | none => simp
    | some r =>
        -- A transposition is its own inverse.
        have hswap : Equiv.swap i k r.orderIndex = n ↔ r.orderIndex = Equiv.swap i k n := by
          rw [← Equiv.symm_swap, Equiv.symm_apply_eq, Equiv.symm_swap]
        simp [hswap]
  addresses_iff ip id := by
    show c.addresses[ip]? = some id ↔ ∃ r : Record, records[id]? = some r ∧ r.ip = ip
    rw [h.addresses_iff, hrecords]
    cases hr : c.records[id]? with
    | none => simp
    | some r => simp
  number_lt id r' hr' := by
    change records[id]? = some r' at hr'
    rw [hrecords, Option.map_eq_some_iff] at hr'
    obtain ⟨r, hr, -⟩ := hr'
    exact h.number_lt id r hr
  canonical id r' hr' := by
    change records[id]? = some r' at hr'
    rw [hrecords, Option.map_eq_some_iff] at hr'
    obtain ⟨r, hr, rfl⟩ := hr'
    exact h.canonical id r hr

/-- An exchange of two places of the order keeps the invariant. -/
theorem Coherent.swapOrder (h : Coherent loose uncounted c) {i k : Nat} (hi : i < c.order.size)
    (hk : k < c.order.size) :
    ∃ records order, c.swapOrder i k = .ok { c with records, order } ∧
      order.size = c.order.size ∧ (∀ n, order[n]? = c.order[Equiv.swap i k n]?) ∧
      (∀ j : RecordId, records[j]? = c.records[j]?.map (Record.moved (Equiv.swap i k))) ∧
      Coherent loose uncounted { c with records, order } := by
  obtain ⟨records, order, heq, hsize, horder, hrecords⟩ := swapOrder_eq h.toIndexed hi hk
  refine ⟨records, order, heq, hsize, horder, hrecords, ?_⟩
  have hplaced : Placed { c with records, order } :=
    h.toPlaced.congr (g := fun _ => Record.moved (Equiv.swap i k)) hrecords
      (fun _ _ _ => ⟨rfl, rfl, rfl⟩) rfl rfl rfl
  have hids : ∀ tried, ({ c with records, order } : Cache).idsIn tried = c.idsIn tried :=
    fun tried => idsIn_congr (g := fun _ => Record.moved (Equiv.swap i k)) hrecords fun _ _ _ => rfl
  refine ⟨h.toIndexed.swap horder hrecords, hplaced, fun id r' hr' hnew hrefs => ?_, ?_, ?_⟩
  · change records[id]? = some r' at hr'
    rw [hrecords, Option.map_eq_some_iff] at hr'
    obtain ⟨r, hr, rfl⟩ := hr'
    exact h.mem_loose id r hr hnew hrefs
  · rw [hids]
    exact h.newCount_eq
  · rw [hids]
    exact h.triedCount_eq

/-! ### Removing a record -/

/-- What removing a record leaves. The other records keep everything but their
places in the sampling order. -/
structure Removed (id : RecordId) (c d : Cache) : Prop where
  policy : d.policy = c.policy
  key : d.key = c.key
  nextId : d.nextId = c.nextId
  newTable : d.newTable = c.newTable
  triedTable : d.triedTable = c.triedTable
  triedCount : d.triedCount = c.triedCount
  gone : d.records[id]? = none
  others : ∃ f, ∀ j : RecordId, j ≠ id → d.records[j]? = c.records[j]?.map (Record.moved f)

theorem Removed.descends {id : RecordId} (h : Removed id c d) : Descends c d := by
  intro j s hs
  by_cases hj : j = id
  · rw [hj, h.gone] at hs
    cases hs
  · obtain ⟨f, hothers⟩ := h.others
    rw [hothers j hj, Option.map_eq_some_iff] at hs
    obtain ⟨r, hr, rfl⟩ := hs
    exact ⟨r, hr, rfl⟩

/-- The other records change at most their places in the sampling order. -/
theorem Removed.unranked_others {id j : RecordId} (h : Removed id c d) (hj : j ≠ id) :
    d.records[j]?.map Record.unranked = c.records[j]?.map Record.unranked := by
  obtain ⟨f, hothers⟩ := h.others
  rw [hothers j hj, Option.map_map, Record.unranked_comp_moved]

/-- The cache without a record that stood at the end of the order. -/
def popped (c : Cache) (id : RecordId) (r : Record) : Cache :=
  { c with
    records := c.records.erase id
    order := c.order.pop
    addresses := c.addresses.erase r.ip
    newCount := c.newCount - 1 }

theorem records_popped (c : Cache) (id : RecordId) (r : Record) (j : RecordId) :
    (c.popped id r).records[j]? = if j = id then none else c.records[j]? :=
  getElem?_erase_eq_ite c.records id j

/-- A record that is left was there before. -/
theorem getElem?_of_popped {id j : RecordId} {r s : Record}
    (hs : (c.popped id r).records[j]? = some s) : c.records[j]? = some s := by
  rw [records_popped] at hs
  split at hs
  · cases hs
  · exact hs

section Popped

variable {id : RecordId} {r : Record}

theorem Indexed.popped (h : Indexed c) (hr : c.records[id]? = some r)
    (hlast : r.orderIndex + 1 = c.order.size) : Indexed (c.popped id r) where
  order_iff n j := by
    rw [records_popped]
    show c.order.pop[n]? = some j ↔ _
    rw [Array.getElem?_pop]
    by_cases hj : j = id
    · subst hj
      have hne : n < c.order.size - 1 → c.order[n]? ≠ some j := fun hn hget => by
        obtain ⟨r', hr', hplace⟩ := (h.order_iff n j).mp hget
        rw [hr] at hr'
        cases hr'
        omega
      by_cases hn : n < c.order.size - 1
      · simp [hn, hne hn]
      · simp [hn]
    · rw [if_neg hj]
      by_cases hn : n < c.order.size - 1
      · rw [if_pos hn, h.order_iff]
      · rw [if_neg hn]
        constructor
        · intro he
          cases he
        · rintro ⟨r', hr', hplace⟩
          -- Only the last place is left, and the removed record stands there.
          have hlt := h.orderIndex_lt hr'
          have hid := (h.order_iff n id).mpr ⟨r, hr, by omega⟩
          rw [(h.order_iff n j).mpr ⟨r', hr', hplace⟩] at hid
          exact absurd (Option.some.inj hid) hj
  addresses_iff ip j := by
    rw [records_popped]
    show (c.addresses.erase r.ip)[ip]? = some j ↔ _
    rw [Std.ExtHashMap.getElem?_erase]
    by_cases hj : j = id
    · subst hj
      have hne : r.ip ≠ ip → c.addresses[ip]? ≠ some j := fun hip hget => by
        obtain ⟨r', hr', hip'⟩ := (h.addresses_iff ip j).mp hget
        rw [hr] at hr'
        cases hr'
        exact hip hip'
      by_cases hip : r.ip = ip
      · simp [hip]
      · simp [hip, hne hip]
    · rw [if_neg hj]
      by_cases hip : r.ip = ip
      · rw [if_pos (by simp [hip])]
        constructor
        · intro he
          cases he
        · rintro ⟨r', hr', hip'⟩
          exact absurd (h.id_unique hr' hr (hip'.trans hip.symm)) hj
      · rw [if_neg (by simpa using hip), h.addresses_iff]
  number_lt j r' hr' := h.number_lt j r' (getElem?_of_popped hr')
  canonical j r' hr' := h.canonical j r' (getElem?_of_popped hr')

theorem Placed.popped (h : Placed c) (hr : c.records[id]? = some r) (hnew : r.inTried = false)
    (hrefs : r.refs = 0) : Placed (c.popped id r) := by
  have hheld := SlotTable.held_eq_empty_iff.mp (h.held_eq_empty hr hrefs)
  refine ⟨fun b p j => ?_, fun b p j hget => ?_,
    fun j r' hr' => h.card_held j r' (getElem?_of_popped hr'),
    fun j r' hr' => h.refs_le j r' (getElem?_of_popped hr')⟩
  · rw [records_popped]
    show c.triedTable.get b p = some j ↔ _
    rw [h.tried_iff]
    by_cases hj : j = id
    · simp [hj, hr, hnew]
    · rw [if_neg hj]
      rfl
  · have hj : j ≠ id := by
      rintro rfl
      exact hheld b p hget
    rw [records_popped, if_neg hj]
    exact h.new_slot b p j hget

theorem idsIn_popped (c : Cache) (id : RecordId) (r : Record) (tried : Bool) :
    (c.popped id r).idsIn tried = (c.idsIn tried).erase id := by
  ext j
  rw [mem_idsIn, records_popped, Finset.mem_erase, mem_idsIn]
  by_cases hj : j = id <;> simp [hj]

/-- Taking a record off that holds no slot and was counted keeps the invariant. -/
theorem Coherent.popped (h : Coherent loose uncounted c) (hr : c.records[id]? = some r)
    (hlast : r.orderIndex + 1 = c.order.size) (hnew : r.inTried = false) (hrefs : r.refs = 0)
    (hid : id ∉ uncounted) : Coherent loose uncounted (c.popped id r) where
  toIndexed := h.toIndexed.popped hr hlast
  toPlaced := h.toPlaced.popped hr hnew hrefs
  mem_loose j r' hr' := h.mem_loose j r' (getElem?_of_popped hr')
  newCount_eq := by
    have hmem : id ∈ c.idsIn false \ uncounted := by simp [hr, hnew, hid]
    rw [idsIn_popped, Finset.erase_sdiff_comm, Finset.card_erase_of_mem hmem, ← h.newCount_eq]
    rfl
  triedCount_eq := by
    rw [idsIn_popped, Finset.erase_eq_of_notMem (by simp [hr, hnew])]
    exact h.triedCount_eq

/-- A counted record keeps the counter of the new table above zero. -/
theorem Coherent.newCount_ne_zero (h : Coherent loose uncounted c) (hr : c.records[id]? = some r)
    (hnew : r.inTried = false) (hid : id ∉ uncounted) : c.newCount ≠ 0 := by
  rw [h.newCount_eq, Finset.card_ne_zero]
  exact ⟨id, by simp [hr, hnew, hid]⟩

/-- Removing a record that holds no slot and was counted succeeds and keeps the
invariant. The other records keep everything but their places in the order. -/
theorem Coherent.delete (h : Coherent loose uncounted c) (hr : c.records[id]? = some r)
    (hnew : r.inTried = false) (hrefs : r.refs = 0) (hid : id ∉ uncounted) :
    ∃ d : Cache, c.delete id = .ok d ∧ Coherent loose uncounted d ∧ Removed id c d := by
  -- The order is not empty, since the record has a place in it.
  have hlt := h.orderIndex_lt hr
  have hlast : c.order.size - 1 < c.order.size := by omega
  obtain ⟨records, order, heq, hsize, horder, hrecords, hcoherent⟩ := h.swapOrder hlt hlast
  refine ⟨({ c with records, order } : Cache).popped id r, ?_, ?_, ?_⟩
  · have hne : c.order.size ≠ 0 := by omega
    have hcount := h.newCount_ne_zero hr hnew hid
    simp [Cache.delete, hr, hnew, hrefs, hne, heq, hcount, Cache.popped, bind, Except.bind]
  · have hrid : records[id]? = some (r.moved (Equiv.swap r.orderIndex (c.order.size - 1))) := by
      rw [hrecords, hr]
      rfl
    refine hcoherent.popped (r := r.moved _) hrid ?_ hnew hrefs hid
    -- After the exchange the record stands at the last place.
    show Equiv.swap r.orderIndex (c.order.size - 1) r.orderIndex + 1 = order.size
    rw [Equiv.swap_apply_left, hsize]
    omega
  · refine ⟨rfl, rfl, rfl, rfl, rfl, rfl, ?_,
      Equiv.swap r.orderIndex (c.order.size - 1), fun j hj => ?_⟩
    · rw [records_popped, if_pos rfl]
    · rw [records_popped, if_neg hj]
      exact hrecords j

end Popped

end Cache

end PeerCache
