import PeerCache.Cache.Dial
import PeerCache.Proofs.Cache.Slots

/-!
# `PeerCache.Proofs.Cache.Promotion`: promotion and demotion

A promotion passes through four states. The record gives up its slots of the new
table and is counted nowhere (`withdrawn`). The record that holds its slot of the
tried table leaves it (`unseated`), so that two records are counted nowhere. That
one goes to its primary slot of the new table, which may remove a third record.
At last the promoted record takes the free slot (`seated`).

The three records are different because a record that counts no slots holds none:
the slot that is cleared for the demoted record cannot belong to either of the two
that are under way. `Coherent.promote` follows the four states and shows that no
step of `Cache.promote` fails.
-/

set_option autoImplicit false

namespace PeerCache

namespace Cache

variable {c d : Cache} {loose : Set RecordId} {uncounted : Finset RecordId}
  {id : RecordId} {r : Record}

/-! ### Leaving the new table -/

@[simp] theorem mem_heldBuckets {e : Endpoint} {b : Fin newBucketCount} :
    b ∈ c.heldBuckets id e ↔ c.newTable.get b (c.newSlot b e) = some id := by
  simp [heldBuckets]

/-- From any bucket on, a search goes through every bucket once. -/
theorem perm_bucketsFrom (offset : Nat) :
    (bucketsFrom offset).Perm (List.finRange newBucketCount) := by
  have hnodup : (bucketsFrom offset).Nodup := by
    refine List.nodup_range.map_on fun n hn m hm hsame => ?_
    have hmod : (n + offset) % 1024 = (m + offset) % 1024 := congrArg Fin.val hsame
    have hlt : n < 1024 := List.mem_range.mp hn
    have hlt' : m < 1024 := List.mem_range.mp hm
    omega
  refine (List.perm_ext_iff_of_nodup hnodup (List.nodup_finRange _)).mpr fun b => ?_
  refine iff_of_true (List.mem_map.mpr ?_) (List.mem_finRange b)
  have hb : b.val < 1024 := b.isLt
  refine ⟨(b.val + (1024 - offset % 1024)) % 1024, List.mem_range.mpr (Nat.mod_lt _ (by decide)),
    Fin.ext ?_⟩
  show ((b.val + (1024 - offset % 1024)) % 1024 + offset) % 1024 = b.val
  omega

/-- Wherever a search begins, it finds the record when some bucket holds it. -/
theorem foundFrom_eq (c : Cache) (offset : Nat) (id : RecordId) (e : Endpoint) :
    c.foundFrom offset id e = !(c.heldBuckets id e).isEmpty := by
  rw [foundFrom, (perm_bucketsFrom offset).any_eq, Bool.eq_iff_iff, List.any_eq_true,
    Bool.not_eq_true', List.isEmpty_eq_false_iff_exists_mem]
  simp

theorem nodup_heldBuckets (c : Cache) (id : RecordId) (e : Endpoint) :
    (c.heldBuckets id e).Nodup :=
  (List.nodup_finRange _).filter _

/-- A record holds one slot in each bucket that the search finds. -/
theorem Placed.length_heldBuckets (h : Placed c) (hr : c.records[id]? = some r) :
    (c.heldBuckets id r.endpoint).length = r.refs := by
  -- The position in a bucket is a matter of the endpoint, so a bucket has one slot at most.
  have himage : (c.heldBuckets id r.endpoint).toFinset.image (fun b => (b, c.newSlot b r.endpoint))
      = c.newTable.held id := by
    ext ⟨b, p⟩
    rw [SlotTable.mem_held, Finset.mem_image]
    constructor
    · rintro ⟨b', hb', he⟩
      cases he
      exact mem_heldBuckets.mp (List.mem_toFinset.mp hb')
    · intro hget
      obtain ⟨-, rfl⟩ := h.of_newTable hr hget
      exact ⟨b, List.mem_toFinset.mpr (mem_heldBuckets.mpr hget), rfl⟩
  rw [← h.card_held id r hr, ← himage, Finset.card_image_of_injective _ fun b b' he => by
    exact (Prod.mk.inj he).1, List.toFinset_card_of_nodup (c.nodup_heldBuckets id r.endpoint)]

/-- A slot is free after the slots of some buckets were freed, or as it was. -/
theorem get_freeNew (c : Cache) (e : Endpoint) (held : List (Fin newBucketCount))
    (b : Fin newBucketCount) (p : Fin bucketSize) :
    (c.freeNew e held).newTable.get b p
      = if b ∈ held ∧ p = c.newSlot b e then none else c.newTable.get b p := by
  show (held.foldl (fun table b => (table.take b (c.newSlot b e)).2) c.newTable).get b p = _
  generalize c.newTable = table
  induction held generalizing table with
  | nil => simp
  | cons b₀ held ih =>
      rw [List.foldl_cons, ih, SlotTable.get_take]
      by_cases hb : b₀ = b
      · subst hb
        by_cases hp : p = c.newSlot b₀ e
        · simp [hp]
        · simp [hp, Ne.symm hp]
      · simp [hb, Ne.symm hb]

/-- The cache with a record taken out of the given buckets of the new table and off
its counter. -/
def withdrawn (c : Cache) (id : RecordId) (e : Endpoint) (held : List (Fin newBucketCount)) :
    Cache :=
  { (c.freeNew e held).modifyRecord id fun r => { r with refs := r.refs - held.length } with
    newCount := c.newCount - 1 }

theorem records_withdrawn (c : Cache) (id j : RecordId) (e : Endpoint)
    (held : List (Fin newBucketCount)) : (c.withdrawn id e held).records[j]? =
      c.records[j]?.map fun r => if j = id then { r with refs := r.refs - held.length } else r :=
  getElem?_modify_eq_map c.records id j _

theorem descends_withdrawn (c : Cache) (id : RecordId) (e : Endpoint)
    (held : List (Fin newBucketCount)) : Descends c (c.withdrawn id e held) :=
  .of_modify (fun j => records_withdrawn c id j e held) fun _ => rfl

section

variable {held : List (Fin newBucketCount)}

/-- Exactly the slots of the record are freed, when the list names the buckets in
which it holds one. -/
theorem Placed.get_withdrawn (h : Placed c) (hr : c.records[id]? = some r)
    (hheld : ∀ b, b ∈ held ↔ c.newTable.get b (c.newSlot b r.endpoint) = some id)
    (b : Fin newBucketCount) (p : Fin bucketSize) :
    (c.withdrawn id r.endpoint held).newTable.get b p
      = if c.newTable.get b p = some id then none else c.newTable.get b p := by
  show (c.freeNew r.endpoint held).newTable.get b p = _
  rw [get_freeNew]
  by_cases hp : c.newTable.get b p = some id
  · obtain ⟨-, rfl⟩ := h.of_newTable hr hp
    rw [if_pos ⟨(hheld b).mpr hp, rfl⟩, if_pos hp]
  · rw [if_neg hp, if_neg]
    rintro ⟨hb, rfl⟩
    exact hp ((hheld b).mp hb)

/-- The record is left without slots, and every other record keeps its own. -/
theorem Placed.held_withdrawn (h : Placed c) (hr : c.records[id]? = some r)
    (hheld : ∀ b, b ∈ held ↔ c.newTable.get b (c.newSlot b r.endpoint) = some id)
    (j : RecordId) : (c.withdrawn id r.endpoint held).newTable.held j
      = if j = id then ∅ else c.newTable.held j := by
  ext ⟨b, p⟩
  rw [SlotTable.mem_held, h.get_withdrawn hr hheld]
  by_cases hj : j = id
  · subst hj
    by_cases hp : c.newTable.get b p = some j <;> simp [hp]
  · by_cases hp : c.newTable.get b p = some id
    · simp [hp, hj, Ne.symm hj]
    · simp [hp, hj]

/-- A record that has given up all its slots holds none and is not counted. The
list must name the buckets in which the record holds a slot, each once. -/
theorem Coherent.withdrawn (h : Coherent loose uncounted c) (hr : c.records[id]? = some r)
    (hnew : r.inTried = false) (hid : id ∉ uncounted)
    (hheld : ∀ b, b ∈ held ↔ c.newTable.get b (c.newSlot b r.endpoint) = some id)
    (hlength : held.length = r.refs) :
    Coherent (insert id loose) (insert id uncounted) (c.withdrawn id r.endpoint held) := by
  have hslots := h.toPlaced.held_withdrawn hr hheld
  refine h.retable (f := fun n => n - held.length)
    (fun j => records_withdrawn c id j r.endpoint held) rfl (fun b p j hj => ?_)
    (fun j hj => by rw [hslots, if_neg hj]) (fun r' hr' => ?_) (fun j hj => Or.inr hj.1) ?_
  · rw [h.toPlaced.get_withdrawn hr hheld] at hj
    split at hj
    · cases hj
    · exact h.new_slot b p j hj
  · rw [hr] at hr'
    cases hr'
    rw [hslots, if_pos rfl, hlength, Nat.sub_self]
    exact ⟨rfl, Nat.zero_le _, fun _ => Or.inl rfl⟩
  · have hmem : id ∈ c.idsIn false \ uncounted := by simp [hr, hnew, hid]
    rw [Finset.sdiff_insert, Finset.card_erase_of_mem hmem, ← h.newCount_eq]
    rfl

end

/-! ### Leaving and entering the tried table -/

/-- The cache with a record taken out of a slot of the tried table and off its
counter. -/
def unseated (c : Cache) (b : Fin triedBucketCount) (p : Fin bucketSize) (id : RecordId) : Cache :=
  { c with
    triedTable := c.triedTable.update b p none
    triedCount := c.triedCount - 1 }.modifyRecord id fun r => { r with inTried := false }

/-- The cache with a record put into a slot of the tried table and counted there. -/
def seated (c : Cache) (b : Fin triedBucketCount) (p : Fin bucketSize) (id : RecordId) : Cache :=
  { c with
    triedTable := c.triedTable.update b p (some id)
    triedCount := c.triedCount + 1 }.modifyRecord id fun r => { r with inTried := true }

theorem records_unseated (c : Cache) (b : Fin triedBucketCount) (p : Fin bucketSize)
    (id j : RecordId) : (c.unseated b p id).records[j]? =
      c.records[j]?.map fun r => if j = id then { r with inTried := false } else r :=
  getElem?_modify_eq_map c.records id j _

theorem records_seated (c : Cache) (b : Fin triedBucketCount) (p : Fin bucketSize)
    (id j : RecordId) : (c.seated b p id).records[j]? =
      c.records[j]?.map fun r => if j = id then { r with inTried := true } else r :=
  getElem?_modify_eq_map c.records id j _

theorem descends_unseated (c : Cache) (b : Fin triedBucketCount) (p : Fin bucketSize)
    (id : RecordId) : Descends c (c.unseated b p id) :=
  .of_modify (records_unseated c b p id) fun _ => rfl

theorem descends_seated (c : Cache) (b : Fin triedBucketCount) (p : Fin bucketSize)
    (id : RecordId) : Descends c (c.seated b p id) :=
  .of_modify (records_seated c b p id) fun _ => rfl

/-- A record without slots of the new table may change its table, when the tried
table names it exactly if it belongs there and every other record as before. -/
theorem Placed.reseat (h : Placed c) (hr : c.records[id]? = some r) (hrefs : r.refs = 0)
    {tried : Bool}
    (hrec : ∀ j, d.records[j]? =
      c.records[j]?.map fun r => if j = id then { r with inTried := tried } else r)
    (hkey : d.key = c.key) (hnewTable : d.newTable = c.newTable)
    (hself : ∀ b p, d.triedTable.get b p = some id ↔
      tried = true ∧ c.triedSlot r.endpoint = (b, p))
    (hothers : ∀ b p j, j ≠ id →
      (d.triedTable.get b p = some j ↔ c.triedTable.get b p = some j)) : Placed d where
  tried_iff b p j := by
    rw [hrec]
    by_cases hj : j = id
    · subst hj
      rw [hself, hr]
      simp [triedSlot, hkey, Record.endpoint]
    · rw [hothers b p j hj, h.tried_iff]
      simp [hj, triedSlot, hkey]
  new_slot b p j hget := by
    rw [hnewTable] at hget
    -- The record holds no slot of the new table, so this is another one.
    have hj : j ≠ id := by
      rintro rfl
      exact SlotTable.held_eq_empty_iff.mp (h.held_eq_empty hr hrefs) b p hget
    obtain ⟨r', hr', hnew, hp⟩ := h.new_slot b p j hget
    refine ⟨r', by rw [hrec, hr']; simp [hj], hnew, ?_⟩
    rw [newSlot, hkey]
    exact hp
  card_held j r' hr' := by
    rw [hrec, Option.map_eq_some_iff] at hr'
    obtain ⟨r₀, hr₀, rfl⟩ := hr'
    rw [hnewTable, h.card_held j r₀ hr₀]
    by_cases hj : j = id <;> simp [hj]
  refs_le j r' hr' := by
    rw [hrec, Option.map_eq_some_iff] at hr'
    obtain ⟨r₀, hr₀, rfl⟩ := hr'
    have hle := h.refs_le j r₀ hr₀
    by_cases hj : j = id <;> simpa [hj] using hle

/-- Such a change keeps the whole invariant, when the counters follow. -/
theorem Coherent.reseat (h : Coherent loose uncounted c) (hr : c.records[id]? = some r)
    (hrefs : r.refs = 0) {tried : Bool} {loose' : Set RecordId} {uncounted' : Finset RecordId}
    (hrec : ∀ j, d.records[j]? =
      c.records[j]?.map fun r => if j = id then { r with inTried := tried } else r)
    (hrest : d = { c with
      records := d.records, triedTable := d.triedTable, triedCount := d.triedCount })
    (hself : ∀ b p, d.triedTable.get b p = some id ↔
      tried = true ∧ c.triedSlot r.endpoint = (b, p))
    (hothers : ∀ b p j, j ≠ id →
      (d.triedTable.get b p = some j ↔ c.triedTable.get b p = some j))
    (hloose : loose \ {id} ⊆ loose') (hfree : tried = false → id ∈ loose')
    (hnewCount : c.newCount = (d.idsIn false \ uncounted').card)
    (htriedCount : d.triedCount = (d.idsIn true).card) : Coherent loose' uncounted' d := by
  have hplaced : Placed d :=
    h.toPlaced.reseat hr hrefs hrec (by rw [hrest]) (by rw [hrest]) hself hothers
  refine ⟨h.toIndexed.congr hrec (fun j r hr => ?_) (by rw [hrest]) (by rw [hrest]) (by rw [hrest]),
    hplaced, fun j r' hr' hnew hrefs' => ?_, by rw [← hnewCount, hrest], htriedCount⟩
  · by_cases hj : j = id <;> simp [hj, Record.endpoint]
  · rw [hrec, Option.map_eq_some_iff] at hr'
    obtain ⟨r₀, hr₀, rfl⟩ := hr'
    by_cases hj : j = id
    · subst hj
      rw [if_pos rfl] at hnew
      exact hfree hnew
    · rw [if_neg hj] at hnew hrefs'
      exact hloose ⟨h.mem_loose j r₀ hr₀ hnew hrefs', hj⟩

/-- The record that held a slot of the tried table leaves it. It holds no slot then
and is not counted. -/
theorem Coherent.unseated (h : Coherent loose uncounted c) {b : Fin triedBucketCount}
    {p : Fin bucketSize} (hget : c.triedTable.get b p = some id) :
    Coherent (insert id loose) (insert id uncounted) (c.unseated b p id) := by
  obtain ⟨r, hr, htried, hslot⟩ := (h.tried_iff b p id).mp hget
  have hrec := records_unseated c b p id
  have hnewIds : (c.unseated b p id).idsIn false = insert id (c.idsIn false) := by
    ext j
    rw [mem_idsIn, hrec, Finset.mem_insert, mem_idsIn]
    by_cases hj : j = id <;> simp [hj, hr]
  have htriedIds : (c.unseated b p id).idsIn true = (c.idsIn true).erase id := by
    ext j
    rw [mem_idsIn, hrec, Finset.mem_erase, mem_idsIn]
    by_cases hj : j = id <;> simp [hj]
  refine h.reseat hr (h.refs_eq_zero_of_tried hr htried) hrec rfl (fun b' p' => ?_)
    (fun b' p' j hj => ?_) (fun j hj => Or.inr hj.1) (fun _ => Or.inl rfl) ?_ ?_
  · show (c.triedTable.update b p none).get b' p' = some id ↔ _
    rw [SlotTable.get_update]
    split
    · simp
    · next hbp =>
      -- The record holds no second slot.
      have hne : c.triedTable.get b' p' ≠ some id := fun hget' => by
        have hslot' := (h.of_triedTable hr hget').2
        rw [hslot] at hslot'
        exact hbp ⟨(Prod.mk.inj hslot').1, (Prod.mk.inj hslot').2⟩
      simp [hne]
  · show (c.triedTable.update b p none).get b' p' = some j ↔ _
    rw [SlotTable.get_update]
    split
    · next hbp =>
      obtain ⟨rfl, rfl⟩ := hbp
      simp [hget, Ne.symm hj]
    · rfl
  · have hnotin : id ∉ c.idsIn false := by simp [hr, htried]
    rw [hnewIds, Finset.insert_sdiff_of_mem _ (Finset.mem_insert_self _ _),
      Finset.sdiff_insert_of_notMem hnotin]
    exact h.newCount_eq
  · have hmem : id ∈ c.idsIn true := by simp [hr, htried]
    rw [htriedIds, Finset.card_erase_of_mem hmem, ← h.triedCount_eq]
    rfl

/-- A record without slots that is not counted may take its slot of the tried table
when the slot is free. -/
theorem Coherent.seated (h : Coherent loose uncounted c) (hr : c.records[id]? = some r)
    (hnew : r.inTried = false) (hrefs : r.refs = 0) (hid : id ∈ uncounted)
    {b : Fin triedBucketCount} {p : Fin bucketSize} (hslot : c.triedSlot r.endpoint = (b, p))
    (hfree : c.triedTable.get b p = none) :
    Coherent (loose \ {id}) (uncounted.erase id) (c.seated b p id) := by
  have hrec := records_seated c b p id
  have hnewIds : (c.seated b p id).idsIn false = (c.idsIn false).erase id := by
    ext j
    rw [mem_idsIn, hrec, Finset.mem_erase, mem_idsIn]
    by_cases hj : j = id <;> simp [hj]
  have htriedIds : (c.seated b p id).idsIn true = insert id (c.idsIn true) := by
    ext j
    rw [mem_idsIn, hrec, Finset.mem_insert, mem_idsIn]
    by_cases hj : j = id <;> simp [hj, hr]
  have hne := h.get_ne_of_new hr hnew
  refine h.reseat hr hrefs hrec rfl (fun b' p' => ?_) (fun b' p' j hj => ?_) subset_rfl nofun ?_ ?_
  · show (c.triedTable.update b p (some id)).get b' p' = some id ↔ _
    rw [SlotTable.get_update, hslot]
    by_cases hbp : b = b' ∧ p = p'
    · simp [hbp]
    · have hbp' : (b, p) ≠ (b', p') := fun he => hbp ⟨(Prod.mk.inj he).1, (Prod.mk.inj he).2⟩
      simp [hbp, hbp', hne b' p']
  · show (c.triedTable.update b p (some id)).get b' p' = some j ↔ _
    rw [SlotTable.get_update]
    split
    · next hbp =>
      obtain ⟨rfl, rfl⟩ := hbp
      simp [hfree, Ne.symm hj]
    · rfl
  · have herase : (c.idsIn false).erase id \ uncounted.erase id = c.idsIn false \ uncounted := by
      ext j
      by_cases hj : j = id <;> simp [hj, hid]
    rw [hnewIds, herase]
    exact h.newCount_eq
  · have hnotin : id ∉ c.idsIn true := by simp [hr, hnew]
    rw [htriedIds, Finset.card_insert_of_notMem hnotin, ← h.triedCount_eq]
    rfl

/-! ### Demotion and promotion -/

/-- The cache with a record put into a slot of the new table, as its only one, and
counted there. -/
def settled (c : Cache) (b : Fin newBucketCount) (p : Fin bucketSize) (id : RecordId) : Cache :=
  { (c.putNew b p id).modifyRecord id fun r => { r with refs := 1 } with
    newCount := c.newCount + 1 }

theorem records_settled (c : Cache) (b : Fin newBucketCount) (p : Fin bucketSize)
    (id j : RecordId) : (c.settled b p id).records[j]? =
      c.records[j]?.map fun r => if j = id then { r with refs := 1 } else r :=
  getElem?_modify_eq_map c.records id j _

theorem descends_settled (c : Cache) (b : Fin newBucketCount) (p : Fin bucketSize)
    (id : RecordId) : Descends c (c.settled b p id) :=
  .of_modify (records_settled c b p id) fun _ => rfl

/-- A record without slots that is not counted may take the free slot that its
endpoint hashes to in a bucket of the new table. -/
theorem Coherent.settled (h : Coherent loose uncounted c) {b : Fin newBucketCount}
    {p : Fin bucketSize} (hfree : c.newTable.get b p = none) (hr : c.records[id]? = some r)
    (hnew : r.inTried = false) (hrefs : r.refs = 0) (hslot : c.newSlot b r.endpoint = p)
    (hid : id ∈ uncounted) :
    Coherent (loose \ {id}) (uncounted.erase id) (c.settled b p id) := by
  have hput : Coherent (loose \ {id}) uncounted
      ((c.putNew b p id).modifyRecord id fun r => { r with refs := 1 }) := by
    refine h.put hfree hr hnew (by rw [hrefs]; decide) hslot (fun j => ?_) rfl
    rw [records_modifyRecord]
    show c.records[j]?.map _ = _
    by_cases hj : j = id
    · subst hj
      simp [hr, hrefs]
    · simp [hj]
  have hr' : ((c.putNew b p id).modifyRecord id fun r => { r with refs := 1 }).records[id]?
      = some { r with refs := 1 } := by
    rw [getElem?_modifyRecord_self]
    show c.records[id]?.map _ = _
    rw [hr]
    rfl
  exact hput.countNew hr' hnew hid

/-- A demotion is the three steps, when the slot in the middle can be cleared. -/
theorem demote_eq (hr : c.records[id]? = some r) {bt : Fin triedBucketCount} {pt : Fin bucketSize}
    {b : Fin newBucketCount} {p : Fin bucketSize}
    (hslot : c.primarySlot r.endpoint r.source = (b, p))
    (hclear : (c.unseated bt pt id).clearNew b p = .ok d) :
    ({ c with
      triedTable := (c.triedTable.take bt pt).2
      triedCount := c.triedCount - 1 } : Cache).demote id
        = .ok (some r.endpoint, d.settled b p id) := by
  unfold Cache.demote
  simp only [hr]
  show (do
    let m ← (c.unseated bt pt id).clearNew (c.primarySlot r.endpoint r.source).1
      (c.primarySlot r.endpoint r.source).2
    return (some r.endpoint, m.settled (c.primarySlot r.endpoint r.source).1
      (c.primarySlot r.endpoint r.source).2 id)) = _
  rw [hslot, hclear]
  rfl

/-- What a demotion leaves and what it changes. The record has left its slot of the
tried table for its primary slot of the new table. Whatever held that slot loses a
reference and is removed with its last one. -/
structure Demoted (b : Fin triedBucketCount) (p : Fin bucketSize) (id : RecordId) (r : Record)
    (c d : Cache) : Prop where
  policy : d.policy = c.policy
  key : d.key = c.key
  triedTable : d.triedTable = c.triedTable.update b p none
  newSlots : ∀ j, d.newTable.held j =
    if j = id then {c.primarySlot r.endpoint r.source}
    else (c.newTable.held j).erase (c.primarySlot r.endpoint r.source)
  record : d.records[id]?.map Record.unranked =
    some { r with inTried := false, refs := 1, orderIndex := 0 }
  holder : ∀ (j : RecordId) (s : Record),
    c.primarySlot r.endpoint r.source ∈ c.newTable.held j → c.records[j]? = some s →
      d.records[j]?.map Record.unranked =
        if s.refs = 1 then none else some { s with refs := s.refs - 1, orderIndex := 0 }
  others : ∀ j : RecordId, j ≠ id → c.primarySlot r.endpoint r.source ∉ c.newTable.held j →
    d.records[j]?.map Record.unranked = c.records[j]?.map Record.unranked

/-- The three steps of a demotion, for a record that holds no slot of the new table. -/
theorem Demoted.of_cleared {bt : Fin triedBucketCount} {pt : Fin bucketSize}
    {b : Fin newBucketCount} {p : Fin bucketSize} {m : Cache} (hr : c.records[id]? = some r)
    (hnone : c.newTable.held id = ∅) (hslot : c.primarySlot r.endpoint r.source = (b, p))
    (hcleared : Cleared b p (c.unseated bt pt id) m) :
    Demoted bt pt id r c (m.settled b p id) where
  policy := hcleared.policy
  key := hcleared.key
  triedTable := hcleared.triedTable
  newSlots j := by
    have htable : (m.settled b p id).newTable
        = (c.newTable.update b p none).update b p (some id) :=
      congrArg (fun t => SlotTable.update t b p (some id)) hcleared.newTable
    rw [htable, SlotTable.update_update, SlotTable.held_update, hslot]
    by_cases hj : j = id
    · subst hj
      rw [if_pos rfl, if_pos rfl, hnone]
      rfl
    · rw [if_neg (fun he => hj (Option.some.inj he).symm), if_neg hj]
  record := by
    have hne : (c.unseated bt pt id).newTable.get b p ≠ some id :=
      SlotTable.held_eq_empty_iff.mp hnone b p
    obtain ⟨f, hmoved⟩ := hcleared.others
    rw [records_settled, hmoved id hne, records_unseated, hr]
    simp [Record.unranked, Record.moved]
  holder j s hmem hs := by
    rw [hslot, SlotTable.mem_held] at hmem
    have hj : j ≠ id := by
      rintro rfl
      exact SlotTable.held_eq_empty_iff.mp hnone b p hmem
    have hsj : (c.unseated bt pt id).records[j]? = some s := by
      rw [records_unseated, hs]
      simp [hj]
    rw [records_settled, hcleared.holder j s hmem hsj]
    by_cases hlast : s.refs = 1
    · simp [hlast]
    · simp [hlast, hj, Record.unranked]
  others j hj hnotin := by
    rw [hslot, SlotTable.mem_held] at hnotin
    have hkept : m.records[j]?.map Record.unranked = c.records[j]?.map Record.unranked := by
      rw [hcleared.unranked_others hnotin, records_unseated]
      simp [hj]
    rw [records_settled, ← hkept]
    simp [hj]

/-- A record of the tried table moves to its primary slot of the new table, and
whatever held that slot loses it. The records that are not counted must hold no
slot of the new table. -/
theorem Coherent.demote (h : Coherent loose uncounted c) {b : Fin triedBucketCount}
    {p : Fin bucketSize} (hget : c.triedTable.get b p = some id)
    (hun : ∀ j ∈ uncounted, ∃ r : Record,
      c.records[j]? = some r ∧ r.inTried = false ∧ r.refs = 0) :
    ∃ (r : Record) (d : Cache), c.records[id]? = some r ∧
      ({ c with
        triedTable := (c.triedTable.take b p).2
        triedCount := c.triedCount - 1 } : Cache).demote id = .ok (some r.endpoint, d) ∧
      Coherent loose uncounted d ∧ Descends c d ∧ Demoted b p id r c d := by
  obtain ⟨r, hr, htried, -⟩ := (h.tried_iff b p id).mp hget
  have hrefs := h.refs_eq_zero_of_tried hr htried
  -- The record is still counted, as a tried one.
  have hid : id ∉ uncounted := fun hmem => by
    obtain ⟨r', hr', hnew, -⟩ := hun id hmem
    rw [hr] at hr'
    cases hr'
    rw [htried] at hnew
    cases hnew
  have hrecord : (c.unseated b p id).records[id]? = some { r with inTried := false } := by
    rw [records_unseated, hr]
    simp
  obtain ⟨b', p', hslot⟩ : ∃ b' p', c.primarySlot r.endpoint r.source = (b', p') := ⟨_, _, rfl⟩
  -- The slot to be cleared belongs to none of the records that are not counted.
  have hothers : ∀ j ∈ insert id uncounted, c.newTable.get b' p' ≠ some j := by
    intro j hj
    rcases Finset.mem_insert.mp hj with rfl | hj
    · exact SlotTable.held_eq_empty_iff.mp (h.held_eq_empty hr hrefs) b' p'
    · obtain ⟨r', hr', -, hrefs'⟩ := hun j hj
      exact SlotTable.held_eq_empty_iff.mp (h.held_eq_empty hr' hrefs') b' p'
  -- The record leaves the tried table, and its slot of the new table is cleared.
  obtain ⟨m, hclear, hm, hcleared⟩ :=
    (h.unseated hget).clearNew b' p' fun j hj hmem => hothers j hmem hj
  obtain ⟨f, hmoved⟩ := hcleared.others
  have hmid : m.records[id]? = some (Record.moved f { r with inTried := false }) := by
    rw [hmoved id (hothers id (Finset.mem_insert_self id uncounted)), hrecord]
    rfl
  have hplace : m.newSlot b' r.endpoint = p' := by
    obtain ⟨rfl, hp⟩ := Prod.mk.inj hslot
    exact (hcleared.newSlot_eq _ r.endpoint).trans hp
  -- It takes that slot and is counted again.
  have hfinal := hm.settled hcleared.get_eq_none hmid rfl hrefs hplace
    (Finset.mem_insert_self id uncounted)
  rw [Finset.erase_insert hid] at hfinal
  refine ⟨r, m.settled b' p' id, hr, demote_eq hr hslot hclear, hfinal.mono fun j _ _ _ _ hj => ?_,
    ?_, .of_cleared hr (h.held_eq_empty hr hrefs) hslot hcleared⟩
  · exact hj.1.resolve_left fun he => hj.2 he
  · exact ((descends_unseated c b p id).trans
      (hcleared.descends (h.unseated hget).toPlaced)).trans (descends_settled m b' p' id)

/-- A promotion goes through the steps, when the record counts no slot once it has
given up those in the buckets. The holder of its slot in the tried table is demoted. -/
theorem promote_eq {e : Endpoint} {held : List (Fin newBucketCount)} {b : Fin triedBucketCount}
    {p : Fin bucketSize} {evicted : Option Endpoint} (hcount : c.newCount ≠ 0)
    (hrefs : ∀ r, (c.withdrawn id e held).records[id]? = some r → r.refs = 0)
    (hslot : c.triedSlot e = (b, p))
    (hdemote : match c.triedTable.get b p with
      | none => evicted = none ∧ d = c.withdrawn id e held
      | some other => c.triedCount ≠ 0 ∧
        ({ c.withdrawn id e held with
          triedTable := (c.triedTable.take b p).2
          triedCount := c.triedCount - 1 } : Cache).demote other = .ok (evicted, d)) :
    c.promote id e held = .ok (evicted, d.seated b p id) := by
  have hemptied : (c.freeNew e held).modifyRecord id
      (fun r => { r with refs := r.refs - held.length })
        = { c.withdrawn id e held with newCount := c.newCount } := rfl
  have htable : (c.withdrawn id e held).triedTable = c.triedTable := rfl
  have htried : (c.withdrawn id e held).triedCount = c.triedCount := rfl
  have hless : (c.withdrawn id e held).newCount = c.newCount - 1 := rfl
  have hplace : ∀ m : Cache, m.key = (c.withdrawn id e held).key → m.triedSlot e = (b, p) :=
    fun m hm => by
      rw [triedSlot, hm]
      exact hslot
  have hrefs' : ((c.withdrawn id e held).records[id]?.map Record.refs).getD 0 = 0 := by
    cases hr : (c.withdrawn id e held).records[id]? with
    | none => rfl
    | some r => exact hrefs r hr
  unfold Cache.promote
  rw [hemptied]
  generalize c.withdrawn id e held = w at *
  simp only [hcount, if_false, hrefs', ne_eq, not_true_eq_false, hplace, SlotTable.take,
    htable, ← hless]
  cases hget : c.triedTable.get b p with
  | none =>
      rw [hget] at hdemote
      obtain ⟨rfl, rfl⟩ := hdemote
      rw [SlotTable.update_none_of_get hget, ← htable]
      rfl
  | some other =>
      rw [hget] at hdemote
      obtain ⟨hne, hdemote⟩ := hdemote
      have hne' : w.triedCount ≠ 0 := htried.trans_ne hne
      simp only [SlotTable.take, ← htried] at hdemote
      simp only [hne', if_false, hdemote]
      rfl

/-- A record keeps its fields and its slots of the new table. Only its place in the
sampling order may be another. -/
structure Keeps (c d : Cache) (id : RecordId) : Prop where
  record : d.records[id]?.map Record.unranked = c.records[id]?.map Record.unranked
  newSlots : d.newTable.held id = c.newTable.held id

/-- What the promotion of the record `id` means for the record that it evicts, which
is `s` under the number `other`, and for the rest. -/
structure Evicted (id other : RecordId) (s : Record) (c d : Cache) : Prop where
  ne : other ≠ id
  /-- The evicted record is a new one again, with one reference. -/
  record : d.records[other]?.map Record.unranked =
    some { s with inTried := false, refs := 1, orderIndex := 0 }
  /-- It holds its primary slot, from its own endpoint and source. -/
  newSlots : d.newTable.held other = {c.primarySlot s.endpoint s.source}
  /-- A third record that held this slot loses that reference, and is removed when it
  was the last one. -/
  holder : ∀ (j : RecordId) (t : Record), j ≠ id →
    c.primarySlot s.endpoint s.source ∈ c.newTable.held j → c.records[j]? = some t →
      j ≠ other ∧ d.newTable.held j
          = (c.newTable.held j).erase (c.primarySlot s.endpoint s.source) ∧
        d.records[j]?.map Record.unranked =
          if t.refs = 1 then none else some { t with refs := t.refs - 1, orderIndex := 0 }
  others : ∀ j : RecordId, j ≠ id → j ≠ other →
    c.primarySlot s.endpoint s.source ∉ c.newTable.held j → Keeps c d j

/-- What the promotion of the record `r`, numbered `id`, leads to. -/
structure Promoted (id : RecordId) (r : Record) (evicted : Option Endpoint) (c d : Cache) :
    Prop where
  policy : d.policy = c.policy
  key : d.key = c.key
  record : d.records[id]?.map Record.unranked =
    some { r with inTried := true, refs := 0, orderIndex := 0 }
  newSlots : d.newTable.held id = ∅
  /-- The record has the slot of the tried table that its endpoint hashes to. The other
  slots of that table stay as they are. -/
  triedTable : d.triedTable =
    c.triedTable.update (c.triedSlot r.endpoint).1 (c.triedSlot r.endpoint).2 (some id)
  /-- When that slot was free, nobody is evicted. -/
  vacant : c.triedTable.get (c.triedSlot r.endpoint).1 (c.triedSlot r.endpoint).2 = none →
    evicted = none ∧ ∀ j, j ≠ id → Keeps c d j
  /-- Otherwise the record that held it is evicted. -/
  taken : ∀ other,
    c.triedTable.get (c.triedSlot r.endpoint).1 (c.triedSlot r.endpoint).2 = some other →
      ∃ s, c.records[other]? = some s ∧ evicted = some s.endpoint ∧ Evicted id other s c d

theorem getElem?_withdrawn_self {held : List (Fin newBucketCount)} (hr : c.records[id]? = some r)
    (hlength : held.length = r.refs) :
    (c.withdrawn id r.endpoint held).records[id]? = some { r with refs := 0 } := by
  rw [records_withdrawn, hr]
  simp [hlength]

theorem unranked_withdrawn {e : Endpoint} {held : List (Fin newBucketCount)} {j : RecordId}
    (hj : j ≠ id) : (c.withdrawn id e held).records[j]?.map Record.unranked
      = c.records[j]?.map Record.unranked := by
  rw [records_withdrawn]
  simp [hj]

theorem unranked_seated {b : Fin triedBucketCount} {p : Fin bucketSize} {j : RecordId}
    (hj : j ≠ id) : (c.seated b p id).records[j]?.map Record.unranked
      = c.records[j]?.map Record.unranked := by
  rw [records_seated]
  simp [hj]

section

variable {held : List (Fin newBucketCount)} {b : Fin triedBucketCount} {p : Fin bucketSize}

/-- A promotion to a free slot of the tried table. -/
theorem Promoted.of_vacant (h : Placed c) (hr : c.records[id]? = some r)
    (hheld : ∀ b, b ∈ held ↔ c.newTable.get b (c.newSlot b r.endpoint) = some id)
    (hlength : held.length = r.refs) (hslot : c.triedSlot r.endpoint = (b, p))
    (hget : c.triedTable.get b p = none) :
    Promoted id r none c ((c.withdrawn id r.endpoint held).seated b p id) where
  policy := rfl
  key := rfl
  record := by
    rw [records_seated, getElem?_withdrawn_self hr hlength]
    simp [Record.unranked]
  newSlots := by
    show (c.withdrawn id r.endpoint held).newTable.held id = ∅
    rw [h.held_withdrawn hr hheld, if_pos rfl]
  triedTable := by
    rw [hslot]
    rfl
  vacant _ := by
    refine ⟨rfl, fun j hj => ⟨?_, ?_⟩⟩
    · rw [unranked_seated hj, unranked_withdrawn hj]
    · show (c.withdrawn id r.endpoint held).newTable.held j = _
      rw [h.held_withdrawn hr hheld, if_neg hj]
  taken other hother := by
    rw [hslot, hget] at hother
    cases hother

/-- A promotion to a slot of the tried table that another record gives up. -/
theorem Promoted.of_demoted (h : Placed c) (hr : c.records[id]? = some r)
    (hheld : ∀ b, b ∈ held ↔ c.newTable.get b (c.newSlot b r.endpoint) = some id)
    (hlength : held.length = r.refs) (hslot : c.triedSlot r.endpoint = (b, p))
    {other : RecordId} {s : Record} (hget : c.triedTable.get b p = some other)
    (hs : c.records[other]? = some s) (hne : other ≠ id)
    (hd : Demoted b p other s (c.withdrawn id r.endpoint held) d) :
    Promoted id r (some s.endpoint) c (d.seated b p id) := by
  have hslots : ∀ j, j ≠ id →
      (c.withdrawn id r.endpoint held).newTable.held j = c.newTable.held j := by
    intro j hj
    rw [h.held_withdrawn hr hheld, if_neg hj]
  have hnone : (c.withdrawn id r.endpoint held).newTable.held id = ∅ := by
    rw [h.held_withdrawn hr hheld, if_pos rfl]
  have hprimary : (c.withdrawn id r.endpoint held).primarySlot s.endpoint s.source
      = c.primarySlot s.endpoint s.source := rfl
  refine ⟨hd.policy, hd.key, ?_, ?_, ?_, ?_, ?_⟩
  · -- The record gave up its slots, so the demotion has not touched it.
    have hkept := hd.others id (Ne.symm hne) (by rw [hnone]; exact Finset.notMem_empty _)
    rw [getElem?_withdrawn_self hr hlength] at hkept
    obtain ⟨r', hr', hsame⟩ := Option.map_eq_some_iff.mp hkept
    have hseated : ({ r' with inTried := true } : Record).unranked
        = { r'.unranked with inTried := true } := rfl
    rw [records_seated, hr', Option.map_some, Option.map_some, if_pos rfl, hseated, hsame]
    rfl
  · show d.newTable.held id = ∅
    rw [hd.newSlots, if_neg (Ne.symm hne), hnone]
    rfl
  · show d.triedTable.update b p (some id) = _
    rw [hd.triedTable, hslot, SlotTable.update_update]
    rfl
  · intro hfree
    rw [hslot, hget] at hfree
    cases hfree
  · intro other' hother
    rw [hslot, hget] at hother
    cases hother
    refine ⟨s, hs, rfl, hne, ?_, ?_, fun j t hj hmem ht => ?_, fun j hj hj' hnotin => ?_⟩
    · rw [unranked_seated hne, hd.record]
    · show d.newTable.held other = _
      rw [hd.newSlots, if_pos rfl, hprimary]
    · -- The third record holds a slot of the new table, and the evicted one held none.
      have hw : (c.withdrawn id r.endpoint held).records[j]? = some t := by
        rw [records_withdrawn, ht]
        simp [hj]
      have hj' : j ≠ other := by
        rintro rfl
        have htried := (h.tried_iff b p j).mp hget
        obtain ⟨t', ht', htried, -⟩ := htried
        rw [h.held_eq_empty_of_tried ht' htried] at hmem
        exact Finset.notMem_empty _ hmem
      refine ⟨hj', ?_, ?_⟩
      · show d.newTable.held j = _
        rw [hd.newSlots, if_neg hj', hslots j hj, hprimary]
      · rw [unranked_seated hj]
        exact hd.holder j t (by rw [hslots j hj]; exact hmem) hw
    · refine ⟨?_, ?_⟩
      · rw [unranked_seated hj, hd.others j hj' (by rw [hslots j hj]; exact hnotin),
          unranked_withdrawn hj]
      · show d.newTable.held j = _
        rw [hd.newSlots, if_neg hj', hslots j hj, hprimary, Finset.erase_eq_of_notMem hnotin]

end

/-- Moving a record of the new table to the tried table succeeds and keeps the
invariant. The list must name the buckets in which the record holds a slot, each
once. -/
theorem Coherent.promote (h : Coherent ∅ ∅ c) (hr : c.records[id]? = some r)
    (hnew : r.inTried = false) {held : List (Fin newBucketCount)}
    (hheld : ∀ b, b ∈ held ↔ c.newTable.get b (c.newSlot b r.endpoint) = some id)
    (hlength : held.length = r.refs) :
    ∃ (evicted : Option Endpoint) (d : Cache),
      c.promote id r.endpoint held = .ok (evicted, d) ∧ Coherent ∅ ∅ d ∧ Descends c d ∧
        Promoted id r evicted c d := by
  -- From here on the record holds no slot and is counted nowhere.
  have hw := h.withdrawn hr hnew (Finset.notMem_empty id) hheld hlength
  have hcount := h.newCount_ne_zero hr hnew (Finset.notMem_empty id)
  have hrw := getElem?_withdrawn_self hr hlength
  have hrefs : ∀ r', (c.withdrawn id r.endpoint held).records[id]? = some r' → r'.refs = 0 := by
    intro r' hr'
    rw [hrw] at hr'
    cases hr'
    rfl
  have hdescends := descends_withdrawn c id r.endpoint held
  obtain ⟨b, p, hslot⟩ : ∃ b p, c.triedSlot r.endpoint = (b, p) := ⟨_, _, rfl⟩
  cases hget : c.triedTable.get b p with
  | none =>
      refine ⟨none, _, promote_eq hcount hrefs hslot (by rw [hget]; exact ⟨rfl, rfl⟩), ?_,
        hdescends.trans (descends_seated _ b p id),
        .of_vacant h.toPlaced hr hheld hlength hslot hget⟩
      have hfinal := hw.seated hrw hnew rfl (Finset.mem_insert_self id ∅) hslot hget
      simpa using hfinal
  | some other =>
      -- The slot is taken. Its holder is counted, so the counter can be lowered.
      have hgetw : (c.withdrawn id r.endpoint held).triedTable.get b p = some other := hget
      obtain ⟨s, hs, hin, -⟩ := (h.tried_iff b p other).mp hget
      have htried : c.triedCount ≠ 0 := by
        rw [h.triedCount_eq, Finset.card_ne_zero]
        exact ⟨other, by simp [hs, hin]⟩
      have hne : other ≠ id := by
        rintro rfl
        rw [hr] at hs
        cases hs
        rw [hnew] at hin
        cases hin
      obtain ⟨s', d, hs', hdemote, hd, hdescends', hdemoted⟩ :=
        hw.demote hgetw fun j hj => by
          obtain rfl : j = id := by simpa using hj
          exact ⟨_, hrw, hnew, rfl⟩
      obtain rfl : s' = s := by
        rw [records_withdrawn, hs] at hs'
        simpa [hne] using hs'.symm
      have hpromoted := Promoted.of_demoted h.toPlaced hr hheld hlength hslot hget hs hne hdemoted
      -- The demotion has not touched the record that is under way.
      have hkept := hdemoted.others id (Ne.symm hne) (by
        rw [h.toPlaced.held_withdrawn hr hheld, if_pos rfl]
        exact Finset.notMem_empty _)
      rw [hrw] at hkept
      obtain ⟨r', hrd, hsame⟩ := Option.map_eq_some_iff.mp hkept
      have hslotd : d.triedSlot r'.endpoint = (b, p) := by
        rw [Record.congr_unranked hsame Record.endpoint fun _ => rfl, triedSlot, hdemoted.key]
        exact hslot
      have hfree : d.triedTable.get b p = none := by
        rw [hdemoted.triedTable, SlotTable.get_update, if_pos ⟨rfl, rfl⟩]
      have hfinal := hd.seated hrd
        ((Record.congr_unranked hsame Record.inTried fun _ => rfl).trans hnew)
        (Record.congr_unranked hsame Record.refs fun _ => rfl) (Finset.mem_insert_self id ∅)
        hslotd hfree
      refine ⟨some s'.endpoint, _,
        promote_eq hcount hrefs hslot (by rw [hget]; exact ⟨htried, hdemote⟩),
        by simpa using hfinal,
        (hdescends.trans hdescends').trans (descends_seated d b p id), hpromoted⟩

end Cache

end PeerCache
