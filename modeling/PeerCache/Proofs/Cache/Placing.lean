import PeerCache.Proofs.Cache.Copy
import PeerCache.Proofs.Cache.FileForm

/-!
# `PeerCache.Proofs.Cache.Placing`: stored records take slots first come, first served

While stored bytes are read no slot is ever given up. So who holds a slot is settled by
the order of the file, and three statements say how.

* `Numbered`: a new record has its place in the file as its number.
* `Seated`: a slot of the tried table is held by the first tried record that hashes to
  it. The later ones are lost.
* `Served`: slots of the new table are offered to records. Whoever holds one was offered
  it, and a record that does not get a slot it is offered comes after the holder, or has
  as many slots as a record may have.

Each step of a load adds one entry to one of the three lists. `Gathered` joins the
statements with the counters, and `StoredCache.LeadsTo.gathered` is the whole run.
-/

set_option autoImplicit false

namespace PeerCache

theorem Record.SameHistory.endpoint {r s : Record} (h : r.SameHistory s) :
    s.endpoint = r.endpoint := by
  rw [h]
  rfl

/-- A number below another one names another record. -/
theorem RecordId.ne_of_lt {i n : Nat} (h : i < n) : (⟨i⟩ : RecordId) ≠ ⟨n⟩ := by
  intro hid
  exact absurd (congrArg RecordId.number hid) (Nat.ne_of_lt h)

/-- Two options that are related stay so under a weaker relation. -/
theorem rel_mono {α β : Type} {R S : α → β → Prop} {x : Option α} {y : Option β}
    (h : Option.Rel R x y) (hRS : ∀ a b, R a b → S a b) : Option.Rel S x y := by
  cases h with
  | some hab => exact .some (hRS _ _ hab)
  | none => exact .none

/-- A stored record does not say where it stands in the sampling order. -/
theorem StoredRecord.sameHistory_toRecord (s : StoredRecord) (n : Nat) :
    (s.toRecord 0).SameHistory (s.toRecord n) := rfl

namespace Cache

variable {c d : Cache} {s : StoredRecord} {new tried : List StoredRecord}
  {offers : List (Fin newBucketCount × Nat)}

/-! ### The steps -/

/-- The cache with a stored new record that holds no slot yet. -/
def added (c : Cache) (s : StoredRecord) : Cache :=
  { c.inserted (s.toRecord c.order.size) with newCount := c.newCount + 1 }

theorem records_added (c : Cache) (s : StoredRecord) (id : RecordId) : (c.added s).records[id]? =
    if id = ⟨c.nextId⟩ then some (s.toRecord c.order.size) else c.records[id]? :=
  records_inserted c (s.toRecord c.order.size) id

/-- What adding a stored new record comes to. -/
theorem eq_of_loadNew {listed : Bool} (h : c.loadNew listed s = .ok d) :
    ¬ c.addresses.contains s.ip ∧ d = if listed then c.added s
      else (c.added s).offerFree ⟨c.nextId⟩ (Placement.newBucket c.key s.endpoint s.source) := by
  unfold Cache.loadNew at h
  rw [insertStored_eq] at h
  split at h
  · cases h
  · next hunknown => cases listed <;> cases h <;> exact ⟨hunknown, rfl⟩

/-- A stored tried record whose slot is taken is lost. -/
theorem loadTried_of_taken (hunknown : ¬ c.addresses.contains s.ip) {b : Fin triedBucketCount}
    {p : Fin bucketSize} (hslot : c.triedSlot s.endpoint = (b, p)) {id : RecordId}
    (htaken : c.triedTable.get b p = some id) (lost : Nat) :
    Cache.loadTried (c, lost) s = .ok (c, lost + 1) := by
  unfold Cache.loadTried
  dsimp only
  rw [if_neg hunknown, hslot]
  dsimp only
  rw [htaken, if_pos Option.isSome_some]

/-- What adding a stored tried record comes to: it takes its slot, or it is lost. -/
theorem eq_of_loadTried {lost lost' : Nat} (h : Cache.loadTried (c, lost) s = .ok (d, lost')) :
    ¬ c.addresses.contains s.ip ∧ ∃ b p, c.triedSlot s.endpoint = (b, p) ∧
      (c.triedTable.get b p = none ∧ lost' = lost ∧
          d = (c.inserted (s.toRecord c.order.size)).seated b p ⟨c.nextId⟩ ∨
        c.triedTable.get b p ≠ none ∧ lost' = lost + 1 ∧ d = c) := by
  have hunknown : ¬ c.addresses.contains s.ip := by
    intro hknown
    unfold Cache.loadTried at h
    dsimp only at h
    rw [if_pos hknown] at h
    cases h
  obtain ⟨b, p, hslot⟩ : ∃ b p, c.triedSlot s.endpoint = (b, p) := ⟨_, _, rfl⟩
  refine ⟨hunknown, b, p, hslot, ?_⟩
  cases hget : c.triedTable.get b p with
  | none =>
      rw [loadTried_of_free hunknown hslot hget] at h
      cases h
      exact Or.inl ⟨rfl, rfl, rfl⟩
  | some id =>
      rw [loadTried_of_taken hunknown hslot hget] at h
      cases h
      exact Or.inr ⟨nofun, rfl, rfl⟩

/-! ### Numbers -/

/-- The new records read so far have their places in the file as numbers. -/
structure Numbered (new : List StoredRecord) (c : Cache) : Prop where
  stored : ∀ (i : Nat) (s : StoredRecord), new[i]? = some s →
    ∃ r : Record, c.records[(⟨i⟩ : RecordId)]? = some r ∧ r.inTried = false ∧
      (s.toRecord 0).SameHistory r
  place_lt : ∀ (id : RecordId) (r : Record), c.records[id]? = some r → r.inTried = false →
    id.number < new.length

theorem numbered_ofKey (policy : Policy) (key : PlacementKey) : Numbered [] (ofKey policy key) where
  stored i s hs := by simp at hs
  place_lt id r hr := by simp [ofKey] at hr

/-- A change of records that keeps table and history of each keeps the numbers. -/
theorem Numbered.of_map (h : Numbered new c) {g : RecordId → Record → Record}
    (hrec : ∀ j, d.records[j]? = c.records[j]?.map (g j))
    (hg : ∀ j r, (g j r).inTried = r.inTried ∧ r.SameHistory (g j r)) : Numbered new d where
  stored i s hs := by
    obtain ⟨r, hr, hnew, hsame⟩ := h.stored i s hs
    refine ⟨g ⟨i⟩ r, by rw [hrec, hr]; rfl, ?_, hsame.trans (hg ⟨i⟩ r).2⟩
    rw [(hg ⟨i⟩ r).1, hnew]
  place_lt id r hr hnew := by
    rw [hrec, Option.map_eq_some_iff] at hr
    obtain ⟨r', hr', rfl⟩ := hr
    rw [(hg id r').1] at hnew
    exact h.place_lt id r' hr' hnew

/-- The next new record takes the next number. -/
theorem Numbered.added (h : Numbered new c) (hnext : c.nextId = new.length) (s : StoredRecord) :
    Numbered (new ++ [s]) (c.added s) where
  stored i t ht := by
    rcases getElem?_concat_eq_some.mp ht with ht | ⟨rfl, rfl⟩
    · obtain ⟨r, hr, hrest⟩ := h.stored i t ht
      have hlt : i < new.length := (List.getElem?_eq_some_iff.mp ht).1
      refine ⟨r, ?_, hrest⟩
      rw [records_added, if_neg (RecordId.ne_of_lt (by omega)), hr]
    · refine ⟨s.toRecord c.order.size, ?_, rfl, s.sameHistory_toRecord _⟩
      rw [records_added, if_pos (by rw [hnext])]
  place_lt id r hr hnew := by
    rw [records_added] at hr
    rw [List.length_append, List.length_singleton]
    split at hr
    · next hid =>
      rw [hid, hnext]
      exact Nat.lt_succ_self _
    · have hlt := h.place_lt id r hr hnew
      omega

/-- A tried record takes a number after those of the new ones. -/
theorem Numbered.seated (h : Numbered new c) (hnext : new.length ≤ c.nextId) (s : StoredRecord)
    (b : Fin triedBucketCount) (p : Fin bucketSize) :
    Numbered new ((c.inserted (s.toRecord c.order.size)).seated b p ⟨c.nextId⟩) where
  stored i t ht := by
    obtain ⟨r, hr, hrest⟩ := h.stored i t ht
    have hlt : i < new.length := (List.getElem?_eq_some_iff.mp ht).1
    have hne : (⟨i⟩ : RecordId) ≠ ⟨c.nextId⟩ := RecordId.ne_of_lt (by omega)
    refine ⟨r, ?_, hrest⟩
    rw [records_seated, records_inserted, if_neg hne, hr, Option.map_some, if_neg hne]
  place_lt id r hr hnew := by
    rw [records_seated, records_inserted, Option.map_eq_some_iff] at hr
    obtain ⟨r', hr', rfl⟩ := hr
    by_cases hid : id = ⟨c.nextId⟩
    · simp [hid] at hnew
    · rw [if_neg hid] at hr' hnew
      exact h.place_lt id r' hr' hnew

/-! ### The tried table -/

/-- Each slot of the tried table is held by the first of the tried records that hash to
it. The endpoint of a later one is not in the cache. -/
structure Seated (tried : List StoredRecord) (c : Cache) : Prop where
  holder : ∀ b p, Option.Rel
    (fun id s => ∃ r : Record, c.records[id]? = some r ∧ (s.toRecord 0).SameHistory r)
    (c.triedTable.get b p) (tried.find? fun s => c.triedSlot s.endpoint = (b, p))
  later_lost : ∀ (j k : Nat) (s t : StoredRecord), j < k → tried[j]? = some s → tried[k]? = some t →
    c.triedSlot s.endpoint = c.triedSlot t.endpoint →
      ∀ (id : RecordId) (r : Record), c.records[id]? = some r → r.endpoint ≠ t.endpoint

/-- The slot of every tried record is taken. -/
theorem Seated.get_ne_none (h : Seated tried c) {b : Fin triedBucketCount} {p : Fin bucketSize}
    (hs : s ∈ tried) (hslot : c.triedSlot s.endpoint = (b, p)) : c.triedTable.get b p ≠ none := by
  intro hnone
  have hholder := h.holder b p
  rw [hnone] at hholder
  cases hfind : tried.find? fun s => c.triedSlot s.endpoint = (b, p) with
  | none =>
      rw [List.find?_eq_none] at hfind
      exact hfind s hs (decide_eq_true hslot)
  | some t =>
      rw [hfind] at hholder
      cases hholder

theorem seated_ofKey (policy : Policy) (key : PlacementKey) : Seated [] (ofKey policy key) where
  holder b p := by
    rw [List.find?_nil]
    show Option.Rel _ ((SlotTable.empty _).get b p) _
    rw [SlotTable.get_empty]
    exact .none
  later_lost j k s t hjk hs := by simp at hs

/-- A change of records that keeps the history of each keeps who holds the slots. -/
theorem Seated.of_map (h : Seated tried c) {g : RecordId → Record → Record}
    (hrec : ∀ j, d.records[j]? = c.records[j]?.map (g j))
    (hg : ∀ (j : RecordId) (r : Record), r.SameHistory (g j r)) (hkey : d.key = c.key)
    (htable : d.triedTable = c.triedTable) : Seated tried d where
  holder b p := by
    have hslot : ∀ e, d.triedSlot e = c.triedSlot e := fun e => by rw [triedSlot, triedSlot, hkey]
    simp only [hslot, htable]
    refine rel_mono (h.holder b p) fun id s hs => ?_
    obtain ⟨r, hr, hsame⟩ := hs
    exact ⟨g id r, by rw [hrec, hr]; rfl, hsame.trans (hg id r)⟩
  later_lost j k s t hjk hs ht hslot id r hr := by
    rw [hrec, Option.map_eq_some_iff] at hr
    obtain ⟨r', hr', rfl⟩ := hr
    rw [triedSlot, triedSlot, hkey] at hslot
    rw [(hg id r').endpoint]
    exact h.later_lost j k s t hjk hs ht hslot id r' hr'

/-- New records come first, when the tried table is still empty. -/
theorem Seated.added (h : Seated [] c) (s : StoredRecord) : Seated [] (c.added s) where
  holder b p := by
    have hholder := h.holder b p
    rw [List.find?_nil] at hholder ⊢
    show Option.Rel _ (c.triedTable.get b p) none
    cases hget : c.triedTable.get b p with
    | none => exact .none
    | some id =>
        rw [hget] at hholder
        cases hholder
  later_lost j k s t hjk hs := by simp at hs

/-- A tried record whose slot is taken is lost, and the cache is the same. -/
theorem Seated.lose (h : Seated tried c) (hc : Indexed c) (hunknown : ¬ c.addresses.contains s.ip)
    {b : Fin triedBucketCount} {p : Fin bucketSize} (hslot : c.triedSlot s.endpoint = (b, p))
    (htaken : c.triedTable.get b p ≠ none) : Seated (tried ++ [s]) c where
  holder b' p' := by
    have hholder := h.holder b' p'
    rw [List.find?_append]
    cases hfind : tried.find? fun s => c.triedSlot s.endpoint = (b', p') with
    | some t =>
        rw [hfind] at hholder
        exact hholder
    | none =>
        -- The slot is free, so it is not the one of the lost record.
        rw [hfind] at hholder
        have hne : ¬ c.triedSlot s.endpoint = (b', p') := by
          intro hslot'
          obtain ⟨rfl, rfl⟩ := Prod.mk.inj (hslot.symm.trans hslot')
          cases hget : c.triedTable.get b p with
          | none => exact htaken hget
          | some id =>
              rw [hget] at hholder
              cases hholder
        rw [List.find?_cons_of_neg (by simpa using hne), List.find?_nil]
        exact hholder
  later_lost j k t u hjk ht hu hsame id r hr := by
    rcases getElem?_concat_eq_some.mp hu with hu' | ⟨rfl, rfl⟩
    · have hlt : k < tried.length := (List.getElem?_eq_some_iff.mp hu').1
      rw [List.getElem?_append_left (by omega)] at ht
      exact h.later_lost j k t u hjk ht hu' hsame id r hr
    · intro he
      have hip : r.ip = s.ip := (congrArg Endpoint.ip he).trans (Endpoint.ip_ofIp _ _)
      refine hunknown ?_
      rw [Std.ExtHashMap.contains_eq_isSome_getElem?, (hc.addresses_iff s.ip id).mpr ⟨r, hr, hip⟩]
      rfl

/-- A tried record takes its slot when the slot is free. -/
theorem Seated.seat (h : Seated tried c) (hc : Indexed c) {b : Fin triedBucketCount}
    {p : Fin bucketSize} (hslot : c.triedSlot s.endpoint = (b, p))
    (hfree : c.triedTable.get b p = none) {r : Record} (hr : (s.toRecord 0).SameHistory r)
    (hrec : ∀ id : RecordId,
      d.records[id]? = if id = ⟨c.nextId⟩ then some r else c.records[id]?)
    (hkey : d.key = c.key) (htable : d.triedTable = c.triedTable.update b p (some ⟨c.nextId⟩)) :
    Seated (tried ++ [s]) d := by
  have hslots : ∀ e, d.triedSlot e = c.triedSlot e := fun e => by rw [triedSlot, triedSlot, hkey]
  -- An earlier record with the slot would have taken it.
  have hother : ∀ t ∈ tried, ¬ c.triedSlot t.endpoint = (b, p) := fun t ht hslot' =>
    h.get_ne_none ht hslot' hfree
  refine ⟨fun b' p' => ?_, fun j k t u hjk ht hu hsame id r' hr' => ?_⟩
  · simp only [hslots, htable]
    rw [SlotTable.get_update, List.find?_append]
    by_cases hbp : b = b' ∧ p = p'
    · obtain ⟨rfl, rfl⟩ := hbp
      have hnone : tried.find? (fun s => c.triedSlot s.endpoint = (b, p)) = none := by
        rw [List.find?_eq_none]
        intro t ht hslot'
        exact hother t ht (of_decide_eq_true hslot')
      have hfirst : [s].find? (fun s => c.triedSlot s.endpoint = (b, p)) = some s := by
        simp [hslot]
      rw [if_pos ⟨rfl, rfl⟩, hnone, hfirst]
      exact .some ⟨r, by rw [hrec, if_pos rfl], hr⟩
    · have hne : ¬ c.triedSlot s.endpoint = (b', p') := by
        intro hslot'
        exact hbp (Prod.mk.inj (hslot.symm.trans hslot'))
      rw [if_neg hbp, List.find?_cons_of_neg (by simpa using hne), List.find?_nil, Option.or_none]
      refine rel_mono (h.holder b' p') fun id t ht => ?_
      obtain ⟨r', hr', hhistory⟩ := ht
      refine ⟨r', ?_, hhistory⟩
      rw [hrec, if_neg, hr']
      rintro rfl
      rw [hc.getElem?_nextId] at hr'
      cases hr'
  · rw [hslots, hslots] at hsame
    rcases getElem?_concat_eq_some.mp hu with hu' | ⟨rfl, rfl⟩
    · have hlt : k < tried.length := (List.getElem?_eq_some_iff.mp hu').1
      rw [List.getElem?_append_left (by omega)] at ht
      rw [hrec] at hr'
      split at hr'
      · cases hr'
        intro he
        have hendpoint : s.endpoint = u.endpoint := hr.endpoint.symm.trans he
        rw [hendpoint] at hslot
        exact hother u (List.mem_of_getElem? hu') hslot
      · exact h.later_lost j k t u hjk ht hu' hsame id r' hr'
    · rw [List.getElem?_append_left hjk] at ht
      exact absurd (hsame.trans hslot) (hother t (List.mem_of_getElem? ht))

/-! ### The new table -/

/-- What offering slots of the new table comes to. An offer names a bucket and a record,
and the slot is the one for the endpoint of the record. -/
structure Served (new : List StoredRecord) (offers : List (Fin newBucketCount × Nat))
    (c : Cache) : Prop where
  /-- Whoever holds a slot was offered it. -/
  offered : ∀ b p id, c.newTable.get b p = some id →
    ∃ n : Nat, offers[n]? = some (b, id.number)
  /-- A slot that was offered is held by the record, or by one that was offered it before,
  unless the record has as many slots as it may have. -/
  taken : ∀ (n : Nat) (b : Fin newBucketCount) (i : Nat) (s : StoredRecord),
    offers[n]? = some (b, i) → new[i]? = some s →
      (∃ k j : Nat, k ≤ n ∧ offers[k]? = some (b, j) ∧
        c.newTable.get b (c.newSlot b s.endpoint) = some ⟨j⟩) ∨
      (c.newTable.held ⟨i⟩).card = maxReferences

theorem served_ofKey (policy : Policy) (key : PlacementKey) :
    Served [] [] (ofKey policy key) where
  offered b p id hget := by simp [ofKey] at hget
  taken n b i s hn := by simp at hn

/-- `Served` reads the new table and the key only. -/
theorem Served.congr (h : Served new offers c) (htable : d.newTable = c.newTable)
    (hkey : d.key = c.key) : Served new offers d where
  offered b p id hget := by
    rw [htable] at hget
    exact h.offered b p id hget
  taken n b i s hn hs := by
    rw [newSlot, htable, hkey]
    exact h.taken n b i s hn hs

/-- A further record changes nothing as long as it has not been offered a slot. -/
theorem Served.append_new (h : Served new offers c) (hlt : ∀ x ∈ offers, x.2 < new.length)
    (s : StoredRecord) : Served (new ++ [s]) offers c where
  offered := h.offered
  taken n b i t hn ht := by
    rw [List.getElem?_append_left (hlt (b, i) (List.mem_of_getElem? hn))] at ht
    exact h.taken n b i t hn ht

/-- An offer that gives nothing: the slot is held by a record that was offered it before,
or the record that is offered it has no room. -/
theorem Served.concat (h : Served new offers c) (b : Fin newBucketCount) (i : Nat)
    (hlast : ∀ s : StoredRecord, new[i]? = some s →
      (∃ k j : Nat, offers[k]? = some (b, j) ∧
        c.newTable.get b (c.newSlot b s.endpoint) = some ⟨j⟩) ∨
      (c.newTable.held ⟨i⟩).card = maxReferences) :
    Served new (offers ++ [(b, i)]) c where
  offered b' p id hget := by
    obtain ⟨n, hn⟩ := h.offered b' p id hget
    exact ⟨n, getElem?_concat_eq_some.mpr (Or.inl hn)⟩
  taken n b' j s hn hs := by
    rcases getElem?_concat_eq_some.mp hn with hn | ⟨rfl, hoffer⟩
    · rcases h.taken n b' j s hn hs with ⟨k, j', hle, hk, hget⟩ | hfull
      · exact Or.inl ⟨k, j', hle, getElem?_concat_eq_some.mpr (Or.inl hk), hget⟩
      · exact Or.inr hfull
    · cases hoffer
      rcases hlast s hs with ⟨k, j', hk, hget⟩ | hfull
      · have hlt : k < offers.length := (List.getElem?_eq_some_iff.mp hk).1
        exact Or.inl ⟨k, j', hlt.le, getElem?_concat_eq_some.mpr (Or.inl hk), hget⟩
      · exact Or.inr hfull

section Offer

variable {b : Fin newBucketCount} {i : Nat} {r : Record}

/-- A record that has room takes the slot that it is offered when it is free. -/
theorem Served.take (h : Served new offers c) (hc : Placed c)
    (hr : c.records[(⟨i⟩ : RecordId)]? = some r)
    (hendpoint : ∀ s, new[i]? = some s → s.endpoint = r.endpoint)
    (hfree : c.newTable.get b (c.newSlot b r.endpoint) = none) (hroom : r.refs < maxReferences) :
    Served new (offers ++ [(b, i)]) (c.addReference b (c.newSlot b r.endpoint) ⟨i⟩) := by
  have hget : ∀ b' p', (c.addReference b (c.newSlot b r.endpoint) ⟨i⟩).newTable.get b' p' =
      if b = b' ∧ c.newSlot b r.endpoint = p' then some ⟨i⟩ else c.newTable.get b' p' :=
    fun b' p' => SlotTable.get_update _ _ _ _ _ _
  refine ⟨fun b' p' id hid => ?_, fun n b' j s hn hs => ?_⟩
  · rw [hget] at hid
    split at hid
    · next hbp =>
      obtain ⟨rfl, -⟩ := hbp
      cases hid
      exact ⟨offers.length, getElem?_concat_eq_some.mpr (Or.inr ⟨rfl, rfl⟩)⟩
    · obtain ⟨n, hn⟩ := h.offered b' p' id hid
      exact ⟨n, getElem?_concat_eq_some.mpr (Or.inl hn)⟩
  · show (∃ k j', _ ∧ _ ∧
        (c.addReference b (c.newSlot b r.endpoint) ⟨i⟩).newTable.get b' (c.newSlot b' s.endpoint)
          = some ⟨j'⟩) ∨ _
    rcases getElem?_concat_eq_some.mp hn with hn | ⟨rfl, hlast⟩
    · rcases h.taken n b' j s hn hs with ⟨k, j', hle, hk, hheld⟩ | hfull
      · -- A slot that was held is not the one that was free.
        refine Or.inl ⟨k, j', hle, getElem?_concat_eq_some.mpr (Or.inl hk), ?_⟩
        rw [hget, if_neg, hheld]
        rintro ⟨rfl, hslot⟩
        rw [hslot, hheld] at hfree
        cases hfree
      · -- A record that has as many slots as it may have is another one.
        refine Or.inr ?_
        have hne : (⟨i⟩ : RecordId) ≠ ⟨j⟩ := by
          rintro he
          have hcard := hc.card_held ⟨i⟩ r hr
          rw [he, hfull] at hcard
          omega
        show ((c.newTable.update b (c.newSlot b r.endpoint) (some ⟨i⟩)).held ⟨j⟩).card = _
        rw [SlotTable.held_update_of_ne, hfull]
        · rw [hfree]
          exact nofun
        · intro he
          exact hne (Option.some.inj he)
    · cases hlast
      refine Or.inl ⟨offers.length, i, Nat.le_refl _,
        getElem?_concat_eq_some.mpr (Or.inr ⟨rfl, rfl⟩), ?_⟩
      rw [hget, hendpoint s hs, if_pos ⟨rfl, rfl⟩]

/-- Otherwise it gets nothing. -/
theorem Served.refuse (h : Served new offers c) (hc : Placed c)
    (hr : c.records[(⟨i⟩ : RecordId)]? = some r)
    (hendpoint : ∀ s, new[i]? = some s → s.endpoint = r.endpoint)
    (hrefused : ¬ (c.newTable.get b (c.newSlot b r.endpoint) = none ∧ r.refs < maxReferences)) :
    Served new (offers ++ [(b, i)]) c := by
  refine h.concat b i fun s hs => ?_
  rw [hendpoint s hs]
  cases hget : c.newTable.get b (c.newSlot b r.endpoint) with
  | some id =>
      -- The holder was offered the slot before.
      obtain ⟨k, hk⟩ := h.offered b _ id hget
      exact Or.inl ⟨k, id.number, hk, rfl⟩
  | none =>
      rw [hget] at hrefused
      have hle := hc.refs_le ⟨i⟩ r hr
      have hge : ¬ r.refs < maxReferences := fun hlt => hrefused ⟨rfl, hlt⟩
      refine Or.inr ?_
      rw [hc.card_held ⟨i⟩ r hr]
      omega

/-- Offering a slot to a new record. -/
theorem Served.offerFree (h : Served new offers c) (hc : Placed c) (hnumbered : Numbered new c)
    (b : Fin newBucketCount) (hi : i < new.length) :
    Served new (offers ++ [(b, i)]) (c.offerFree ⟨i⟩ b) := by
  obtain ⟨r, hr, -, hhistory⟩ := hnumbered.stored i new[i] (List.getElem?_eq_getElem hi)
  have hendpoint : ∀ s, new[i]? = some s → s.endpoint = r.endpoint := by
    intro s hs
    rw [List.getElem?_eq_getElem hi] at hs
    cases hs
    exact hhistory.endpoint.symm
  rw [offerFree_of_some hr]
  split
  · next hok => exact h.take hc hr hendpoint hok.1 hok.2
  · next hrefused => exact h.refuse hc hr hendpoint hrefused

end Offer

/-! ### The whole run -/

/-- The state of a load that has read new and tried records and made offers. -/
structure Gathered (policy : Policy) (total : Nat) (key : PlacementKey)
    (new tried : List StoredRecord) (offers : List (Fin newBucketCount × Nat)) (c : Cache)
    (lost : Nat) : Prop extends Loading policy total c, Numbered new c, Seated tried c,
      Served new offers c where
  key_eq : c.key = key
  nextId_eq : c.nextId = new.length + c.triedCount
  length_new : c.newCount = new.length
  length_tried : c.triedCount + lost = tried.length

variable {policy : Policy} {total : Nat} {key : PlacementKey} {lost : Nat}

theorem gathered_ofKey (policy : Policy) (total : Nat) (key : PlacementKey) :
    Gathered policy total key [] [] [] (ofKey policy key) 0 where
  toLoading := loading_ofKey policy key total
  toNumbered := numbered_ofKey policy key
  toSeated := seated_ofKey policy key
  toServed := served_ofKey policy key
  key_eq := rfl
  nextId_eq := rfl
  length_new := rfl
  length_tried := rfl

/-- The offers that are made while new records are added: none when there are bucket lists,
and the primary slot of each record otherwise. -/
def primaryOffers (key : PlacementKey) (listed : Bool) (new : List StoredRecord) :
    List (Fin newBucketCount × Nat) :=
  if listed then []
  else new.zipIdx.map fun x => (Placement.newBucket key x.1.endpoint x.1.source, x.2)

/-- Offering a slot changes the new table and the references of one record at most. -/
theorem offerFree_cases (c : Cache) (id : RecordId) (b : Fin newBucketCount) :
    c.offerFree id b = c ∨ ∃ p, c.offerFree id b = c.addReference b p id := by
  cases hr : c.records[id]? with
  | none => exact Or.inl (by simp [Cache.offerFree, hr])
  | some r =>
      rw [offerFree_of_some hr]
      split
      · exact Or.inr ⟨_, rfl⟩
      · exact Or.inl rfl

/-- Offering a slot to a new record. -/
theorem Gathered.offerFree (h : Gathered policy total key new tried offers c lost)
    (b : Fin newBucketCount) {i : Nat} (hi : i < new.length) :
    Gathered policy total key new tried (offers ++ [(b, i)]) (c.offerFree ⟨i⟩ b) lost := by
  have hnew : ∀ r, c.records[(⟨i⟩ : RecordId)]? = some r → r.inTried = false := by
    intro r hr
    obtain ⟨r', hr', hnew, -⟩ := h.stored i new[i] (List.getElem?_eq_getElem hi)
    rw [hr] at hr'
    cases hr'
    exact hnew
  have hserved := h.toServed.offerFree h.toPlaced h.toNumbered b hi
  have hloading := (h.toLoading.offerFree hnew b).1
  rcases offerFree_cases c ⟨i⟩ b with heq | ⟨p, heq⟩
  · rw [heq] at hserved ⊢
    exact { h with toServed := hserved }
  · rw [heq] at hserved hloading ⊢
    have hrec := records_addReference c b p ⟨i⟩
    have hkept : ∀ (j : RecordId) (r : Record),
        (if j = ⟨i⟩ then { r with refs := r.refs + 1 } else r).inTried = r.inTried ∧
          r.SameHistory (if j = ⟨i⟩ then { r with refs := r.refs + 1 } else r) := by
      intro j r
      split <;> exact ⟨rfl, rfl⟩
    have hnumbered : Numbered new (c.addReference b p ⟨i⟩) := h.toNumbered.of_map hrec hkept
    have hseated : Seated tried (c.addReference b p ⟨i⟩) :=
      h.toSeated.of_map hrec (fun j r => (hkept j r).2) rfl rfl
    exact ⟨hloading, hnumbered, hseated, hserved, h.key_eq, h.nextId_eq, h.length_new,
      h.length_tried⟩

/-- Following an entry of a bucket list. An entry beyond the new records is skipped. -/
theorem Gathered.loadEntry (h : Gathered policy total key new tried offers c lost)
    (htotal : total = new.length) (b : Fin newBucketCount) (entry : Nat) :
    Gathered policy total key new tried (offers ++ [(b, entry)]) (Cache.loadEntry total b c entry)
      lost := by
  unfold Cache.loadEntry
  split
  · next hlt => exact h.offerFree b (htotal ▸ hlt)
  · next hge =>
    refine { h with toServed := h.toServed.concat b entry fun s hs => ?_ }
    rw [List.getElem?_eq_none (by omega)] at hs
    cases hs

/-- Following the entries of all bucket lists. -/
theorem Gathered.loadEntries (h : Gathered policy total key new tried offers c lost)
    (htotal : total = new.length) (entries : List (Fin newBucketCount × Nat)) :
    Gathered policy total key new tried (offers ++ entries)
      (entries.foldl (fun c x => Cache.loadEntry total x.1 c x.2) c) lost := by
  induction entries generalizing c offers with
  | nil => simpa using h
  | cons x entries ih =>
      have hrest := ih (h.loadEntry htotal x.1 x.2)
      rw [List.append_assoc] at hrest
      exact hrest

theorem primaryOffers_concat (key : PlacementKey) (new : List StoredRecord) (s : StoredRecord) :
    primaryOffers key false (new ++ [s]) = primaryOffers key false new ++
      [(Placement.newBucket key s.endpoint s.source, new.length)] := by
  simp [primaryOffers, List.zipIdx_append]

/-- Adding a stored new record, before any tried one. -/
theorem Gathered.loadNew {listed : Bool}
    (h : Gathered policy total key new [] (primaryOffers key listed new) c lost)
    (hs : s.Canonical) (hstep : c.loadNew listed s = .ok d) :
    Gathered policy total key (new ++ [s]) [] (primaryOffers key listed (new ++ [s])) d lost := by
  obtain ⟨hunknown, rfl⟩ := eq_of_loadNew hstep
  have hempty := h.length_tried
  rw [List.length_nil] at hempty
  have hnext : c.nextId = new.length := by
    have hnext := h.nextId_eq
    omega
  have hlt : ∀ x ∈ primaryOffers key listed new, x.2 < new.length := by
    intro x hx
    cases listed with
    | true => exact absurd hx List.not_mem_nil
    | false =>
        obtain ⟨y, hy, rfl⟩ := List.mem_map.mp hx
        exact List.snd_lt_of_mem_zipIdx hy
  have hadded : c.loadNew true s = .ok (c.added s) := loadNew_of_unknown hunknown
  have hloading := h.toLoading.loadNew hs true
  rw [hadded] at hloading
  have hserved : Served (new ++ [s]) (primaryOffers key listed new) (c.added s) :=
    (h.toServed.append_new hlt s).congr rfl rfl
  have hlength : (new ++ [s]).length = new.length + 1 := List.length_append
  have hgathered : Gathered policy total key (new ++ [s]) [] (primaryOffers key listed new)
      (c.added s) lost := by
    refine ⟨hloading.1, h.toNumbered.added hnext s, h.toSeated.added s, hserved, h.key_eq, ?_, ?_,
      h.length_tried⟩
    · show c.nextId + 1 = _ + c.triedCount
      omega
    · show c.newCount + 1 = _
      rw [h.length_new, hlength]
  cases listed with
  | true => exact hgathered
  | false =>
      -- Without bucket lists the record is offered its primary slot at once.
      have hoffered := hgathered.offerFree (Placement.newBucket key s.endpoint s.source)
        (i := new.length) (by omega)
      rw [primaryOffers_concat, h.key_eq, hnext]
      exact hoffered

/-- Adding a stored tried record, or losing it. -/
theorem Gathered.loadTried {lost' : Nat}
    (h : Gathered policy total key new tried offers c lost) (htotal : total = new.length)
    (hs : s.Canonical) (hstep : Cache.loadTried (c, lost) s = .ok (d, lost')) :
    Gathered policy total key new (tried ++ [s]) offers d lost' := by
  have hnext := h.nextId_eq
  have htried := h.length_tried
  have hlength : (tried ++ [s]).length = tried.length + 1 := List.length_append
  have hloading := h.toLoading.loadTried hs (by omega) lost
  rw [hstep] at hloading
  obtain ⟨hunknown, b, p, hslot, ⟨hfree, rfl, rfl⟩ | ⟨htaken, rfl, rfl⟩⟩ := eq_of_loadTried hstep
  · have hseated : Seated (tried ++ [s])
        ((c.inserted (s.toRecord c.order.size)).seated b p ⟨c.nextId⟩) := by
      refine h.toSeated.seat h.toIndexed hslot hfree
        (r := { s.toRecord c.order.size with inTried := true }) rfl (fun id => ?_) rfl rfl
      rw [records_seated, records_inserted]
      by_cases hid : id = ⟨c.nextId⟩ <;> simp [hid]
    refine ⟨hloading.1, h.toNumbered.seated (by omega) s b p, hseated, h.toServed.congr rfl rfl,
      h.key_eq, ?_, h.length_new, ?_⟩
    · show c.nextId + 1 = new.length + (c.triedCount + 1)
      omega
    · show c.triedCount + 1 + _ = _
      omega
  · exact { h with
      toSeated := h.toSeated.lose h.toIndexed hunknown hslot htaken
      length_tried := by omega }

/-- Adding all new records. -/
theorem Gathered.loadNews {listed : Bool} {l : List StoredRecord}
    (h : Gathered policy total key new [] (primaryOffers key listed new) c lost)
    (hl : ∀ s ∈ l, s.Canonical) (hrun : l.foldlM (Cache.loadNew listed) c = .ok d) :
    Gathered policy total key (new ++ l) [] (primaryOffers key listed (new ++ l)) d lost := by
  induction l generalizing new c with
  | nil =>
      cases hrun
      rwa [List.append_nil]
  | cons s l ih =>
      rw [List.foldlM_cons] at hrun
      cases hstep : c.loadNew listed s with
      | error e =>
          rw [hstep] at hrun
          cases hrun
      | ok m =>
          rw [hstep] at hrun
          have hnext := h.loadNew (hl s List.mem_cons_self) hstep
          have hrest := ih hnext (fun t ht => hl t (List.mem_cons_of_mem s ht)) hrun
          rwa [List.append_assoc] at hrest

/-- Adding all tried records. -/
theorem Gathered.loadTrieds {l : List StoredRecord} {lost' : Nat}
    (h : Gathered policy total key new tried offers c lost) (htotal : total = new.length)
    (hl : ∀ s ∈ l, s.Canonical) (hrun : l.foldlM Cache.loadTried (c, lost) = .ok (d, lost')) :
    Gathered policy total key new (tried ++ l) offers d lost' := by
  induction l generalizing tried c lost with
  | nil =>
      cases hrun
      rwa [List.append_nil]
  | cons s l ih =>
      rw [List.foldlM_cons] at hrun
      cases hstep : Cache.loadTried (c, lost) s with
      | error e =>
          rw [hstep] at hrun
          cases hrun
      | ok x =>
          rw [hstep] at hrun
          have hnext := h.loadTried htotal (hl s List.mem_cons_self) hstep
          have hrest := ih hnext (fun t ht => hl t (List.mem_cons_of_mem s ht)) hrun
          rwa [List.append_assoc] at hrest

end Cache

namespace StoredCache

/-- All offers of a load, in order. -/
def offers (f : StoredCache) : List (Fin newBucketCount × Nat) :=
  if f.Listed then f.entries else Cache.primaryOffers f.key false f.new

/-- A load goes through the whole content. -/
theorem LeadsTo.gathered {f : StoredCache} {policy : Policy} {m : Cache} {lost : Nat}
    (h : f.LeadsTo policy m lost) (hfits : f.Fits) :
    Cache.Gathered policy f.new.length f.key f.new f.tried f.offers m lost := by
  obtain ⟨c, c', hnew, htried, rfl⟩ := h
  have hstart := Cache.gathered_ofKey policy f.new.length f.key
  have hempty : Cache.primaryOffers f.key f.Listed [] = [] := by
    simp [Cache.primaryOffers]
  rw [← hempty] at hstart
  have hnews := hstart.loadNews hfits.new_canonical hnew
  have htrieds := hnews.loadTrieds rfl hfits.tried_canonical htried
  rw [List.nil_append, List.nil_append] at htrieds
  by_cases hlisted : f.Listed
  · rw [offers, if_pos hlisted, if_pos hlisted]
    rw [Cache.primaryOffers, if_pos (decide_eq_true hlisted)] at htrieds
    have hfollowed := htrieds.loadEntries rfl f.entries
    rw [List.nil_append] at hfollowed
    exact hfollowed
  · rw [offers, if_neg hlisted, if_neg hlisted]
    rw [decide_eq_false hlisted] at htrieds
    exact htrieds

end StoredCache

end PeerCache
