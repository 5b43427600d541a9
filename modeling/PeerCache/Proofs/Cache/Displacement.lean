import PeerCache.Proofs.Cache.Runs

/-!
# `PeerCache.Proofs.Cache.Displacement`: what an announcement leaves as it is

An announcement may claim one slot of the new table, which the announced record and
the informant decide (`offeredSlot`). `Spared` says what stays as it is around that
slot, and `Reachable.learn_spares` that every announcement leaves as much.

The point is the record that is displaced. A slot changes hands for one of two
reasons, and by the second one its holder has a further slot and stays. So a record
that is removed gave way by the first one, which is that it was terrible.

The record that is announced is in the cache under its address, with the endpoint
that was announced first. A later announcement may name another port, and the slot
that it claims is still that of the first one.
-/

set_option autoImplicit false

namespace PeerCache

/-- The same record, but for its references and its place in the sampling order. -/
def Record.SameButPlace (r s : Record) : Prop :=
  s = { r with refs := s.refs, orderIndex := s.orderIndex }

namespace Record.SameButPlace

variable {r s t : Record}

theorem trans (hrs : r.SameButPlace s) (hst : s.SameButPlace t) : r.SameButPlace t := by
  rw [SameButPlace] at hrs hst ⊢
  rw [hst, hrs]

theorem of_unranked (h : s.unranked = r.unranked) : r.SameButPlace s := by
  have hs : s = { s.unranked with orderIndex := s.orderIndex } := rfl
  rw [SameButPlace, hs, h]
  rfl

theorem kind (h : r.SameButPlace s) : s.endpoint = r.endpoint ∧ s.inTried = r.inTried := by
  rw [h]
  exact ⟨rfl, rfl⟩

end Record.SameButPlace

namespace Cache

variable {c d : Cache} {id j : RecordId} {r s t : Record} {b : Fin newBucketCount}
  {p : Fin bucketSize} {now : Timestamp}

/-! ### The offer of a slot -/

/-- Freeing a slot costs its holder a reference at most. -/
theorem Cleared.sameButPlace (h : Cleared b p c d) (hs : c.records[j]? = some s)
    (ht : d.records[j]? = some t) : s.SameButPlace t := by
  by_cases hget : c.newTable.get b p = some j
  · rw [h.holder j s hget hs] at ht
    by_cases hlast : s.refs = 1
    · rw [if_pos hlast] at ht
      cases ht
    · rw [if_neg hlast] at ht
      cases ht
      rfl
  · have hsame := h.unranked_others hget
    rw [hs, ht] at hsame
    exact .of_unranked (Option.some.inj hsame)

/-- A record that is removed along with the slot that it gives up holds no other. -/
theorem Cleared.removed (h : Cleared b p c d) (hplaced : Placed c) (hs : c.records[j]? = some s)
    (hgone : d.records[j]? = none) :
    c.newTable.get b p = some j ∧ c.newTable.held j = {(b, p)} ∧ s.inTried = false ∧
      s.refs = 1 := by
  have hget : c.newTable.get b p = some j := by
    by_contra hne
    have hsame := h.unranked_others hne
    rw [hs, hgone] at hsame
    cases hsame
  have hlast : s.refs = 1 := by
    by_contra hmore
    rw [h.holder j s hget hs, if_neg hmore] at hgone
    cases hgone
  refine ⟨hget, ?_, (hplaced.of_newTable hs hget).1, hlast⟩
  have hcard := hplaced.card_held j s hs
  rw [hlast, Finset.card_eq_one] at hcard
  obtain ⟨slot, hslot⟩ := hcard
  have hmem : (b, p) ∈ c.newTable.held j := SlotTable.mem_held.mpr hget
  rw [hslot, Finset.mem_singleton] at hmem
  rw [hslot, hmem]

theorem sameButPlace_addReference (hs : c.records[j]? = some s)
    (ht : (c.addReference b p id).records[j]? = some t) : s.SameButPlace t := by
  rw [records_addReference, hs, Option.map_some] at ht
  cases ht
  by_cases hj : j = id
  · rw [if_pos hj]
    rfl
  · rw [if_neg hj]
    rfl

namespace Offered

variable {created counts : Bool}

theorem key (h : Offered c id r b p created now counts d) : d.key = c.key := by
  cases h with
  | free | held | refused => rfl
  | takenOver _ _ _ hcleared => exact hcleared.key
  | dropped _ _ _ _ hremoved => exact hremoved.key

theorem triedTable (h : Offered c id r b p created now counts d) :
    d.triedTable = c.triedTable := by
  cases h with
  | free | held | refused => rfl
  | takenOver _ _ _ hcleared => exact hcleared.triedTable
  | dropped _ _ _ _ hremoved => exact hremoved.triedTable

/-- No other slot changes hands. -/
theorem get_newTable (h : Offered c id r b p created now counts d) {b' : Fin newBucketCount}
    {p' : Fin bucketSize} (hne : (b', p') ≠ (b, p)) :
    d.newTable.get b' p' = c.newTable.get b' p' := by
  have hother : ¬ (b = b' ∧ p = p') := by
    rintro ⟨rfl, rfl⟩
    exact hne rfl
  cases h with
  | held | refused => rfl
  | dropped _ _ _ _ hremoved => rw [hremoved.newTable]
  | free =>
      show (c.newTable.update b p (some id)).get b' p' = _
      rw [SlotTable.get_update, if_neg hother]
  | takenOver _ _ _ hcleared =>
      show (SlotTable.update _ b p (some id)).get b' p' = _
      rw [hcleared.newTable, SlotTable.get_update, if_neg hother, SlotTable.get_update,
        if_neg hother]

/-- A record that stays changes no more than its references and its place. -/
theorem sameButPlace (h : Offered c id r b p created now counts d) (hs : c.records[j]? = some s)
    (ht : d.records[j]? = some t) : s.SameButPlace t := by
  cases h with
  | free => exact sameButPlace_addReference hs ht
  | held | refused =>
      rw [hs] at ht
      cases ht
      rfl
  | takenOver _ _ _ hcleared =>
      have ht' := ht
      rw [records_addReference, Option.map_eq_some_iff] at ht'
      obtain ⟨m, hm, -⟩ := ht'
      exact (hcleared.sameButPlace hs hm).trans (sameButPlace_addReference hm ht)
  | dropped _ _ _ _ hremoved =>
      have hj : j ≠ id := by
        rintro rfl
        rw [hremoved.gone] at ht
        cases ht
      have hsame := hremoved.unranked_others hj
      rw [hs, ht] at hsame
      exact .of_unranked (Option.some.inj hsame)

/-- A record that is removed is the one that was offered the slot and has none, or it
held the slot and no other and was terrible. -/
theorem removed (h : Offered c id r b p created now counts d) (hplaced : Placed c)
    (hs : c.records[j]? = some s) (hgone : d.records[j]? = none) :
    (j = id ∧ r.refs = 0) ∨ (j ≠ id ∧ c.newTable.held j = {(b, p)} ∧ s.inTried = false ∧
      s.isTerrible now = true) := by
  cases h with
  | free =>
      rw [records_addReference, hs] at hgone
      cases hgone
  | held | refused =>
      rw [hs] at hgone
      cases hgone
  | takenOver hget hne hway hcleared =>
      rw [records_addReference, Option.map_eq_none_iff] at hgone
      obtain ⟨hgetj, hheld, hnew, hlast⟩ := hcleared.removed hplaced hs hgone
      rw [hget] at hgetj
      cases hgetj
      -- With one slot only, the record cannot have given way for having more.
      have hterrible : s.isTerrible now = true := by simpa [givesWay, hs, hlast] using hway
      exact Or.inr ⟨hne, hheld, hnew, hterrible⟩
  | dropped _ _ _ hrefs hremoved =>
      by_cases hj : j = id
      · exact Or.inl ⟨hj, hrefs⟩
      · have hsame := hremoved.unranked_others hj
        rw [hs, hgone] at hsame
        cases hsame

end Offered

/-! ### The announcement -/

/-- The slot that an announcement may claim. An address that is known keeps the
endpoint under which it is known. -/
def offeredSlot (c : Cache) (a : Announcement) (source : Ip) :
    Fin newBucketCount × Fin bucketSize :=
  c.primarySlot (((c.recordAt? a.canonical.ip).map Record.endpoint).getD a.canonical.endpoint)
    source.canonical

/-- What the announcement `a` leaves as it is, when the slot is the one that it may
claim. -/
structure Spared (a : Announcement) (now : Timestamp)
    (slot : Fin newBucketCount × Fin bucketSize) (c d : Cache) : Prop where
  key : d.key = c.key
  triedTable : d.triedTable = c.triedTable
  newTable : ∀ (b : Fin newBucketCount) (p : Fin bucketSize), (b, p) ≠ slot →
    d.newTable.get b p = c.newTable.get b p
  /-- A record of another address changes no more than its references and its place. -/
  others : ∀ (id : RecordId) (r s : Record), c.records[id]? = some r → d.records[id]? = some s →
    r.ip ≠ a.canonical.ip → r.SameButPlace s
  /-- The announced record, too, keeps its endpoint and its table. -/
  announced : ∀ (id : RecordId) (r s : Record), c.records[id]? = some r →
    d.records[id]? = some s → s.endpoint = r.endpoint ∧ s.inTried = r.inTried
  /-- Only a terrible record that held the slot and nothing else is removed. -/
  removed : ∀ (id : RecordId) (r : Record), c.records[id]? = some r → d.records[id]? = none →
    c.newTable.held id = {slot} ∧ r.inTried = false ∧ r.isTerrible now = true

theorem Spared.refl (a : Announcement) (now : Timestamp)
    (slot : Fin newBucketCount × Fin bucketSize) (c : Cache) : Spared a now slot c c where
  key := rfl
  triedTable := rfl
  newTable _ _ _ := rfl
  others id r s hr hs _ := by
    rw [hr] at hs
    cases hs
    rfl
  announced id r s hr hs := by
    rw [hr] at hs
    cases hs
    exact ⟨rfl, rfl⟩
  removed id r hr hgone := by
    rw [hr] at hgone
    cases hgone

variable {a : Announcement} {source : Ip} {penalty : Nat}

theorem offeredSlot_of_known (h : Indexed c) (hr : c.records[id]? = some r)
    (hip : r.ip = a.canonical.ip) :
    c.offeredSlot a source = c.primarySlot r.endpoint source.canonical := by
  rw [offeredSlot, ← hip, h.recordAt? hr]
  rfl

theorem offeredSlot_of_unknown (hunknown : c.addresses[a.canonical.ip]? = none) :
    c.offeredSlot a source = c.primarySlot a.canonical.endpoint source.canonical := by
  have hnone : c.recordAt? a.canonical.ip = none := by
    rw [recordAt?, hunknown]
    rfl
  rw [offeredSlot, hnone]
  rfl

/-- Merging an announcement into a record touches what is claimed about the peer. -/
theorem spared_merged (hr : c.records[id]? = some r) (hip : r.ip = a.canonical.ip)
    (slot : Fin newBucketCount × Fin bucketSize) :
    Spared a now slot c (c.merged id r a penalty now) where
  key := rfl
  triedTable := rfl
  newTable _ _ _ := rfl
  others j s t hs ht hne := by
    have hj : j ≠ id := by
      rintro rfl
      rw [hr] at hs
      cases hs
      exact hne hip
    rw [getElem?_merged_of_ne hj, hs] at ht
    cases ht
    rfl
  announced j s t hs ht := by
    by_cases hj : j = id
    · subst hj
      rw [getElem?_merged_self hr] at ht
      rw [hr] at hs
      cases hs
      cases ht
      exact ⟨rfl, rfl⟩
    · rw [getElem?_merged_of_ne hj, hs] at ht
      cases ht
      exact ⟨rfl, rfl⟩
  removed j s hs hgone := by
    rw [merged, records_modifyRecord, hs] at hgone
    cases hgone

/-- An announcement leaves everything as it is around the slot that it may claim. -/
theorem Learnt.spared {counts : Bool} (h : Learnt c a source penalty now counts d)
    (hc : Coherent ∅ ∅ c) : Spared a now (c.offeredSlot a source) c d := by
  cases h with
  | ignored => exact .refl a now _ c
  | merged hr hip => exact spared_merged hr hip _
  | @offered id old b p _ _ hr hip hnew hslot hoffered =>
      have hmerged : Spared a now (b, p) c (c.merged id old a penalty now) :=
        spared_merged hr hip (b, p)
      have hplaced := (hc.merged hr a penalty now).toPlaced
      rw [offeredSlot_of_known hc.toIndexed hr hip, hslot]
      -- A record that the merge keeps is the one that the offer starts from.
      have hmid : ∀ j s, c.records[j]? = some s →
          ∃ m, (c.merged id old a penalty now).records[j]? = some m ∧ (j ≠ id → m = s) := by
        intro j s hs
        rw [Cache.merged, records_modifyRecord, hs]
        refine ⟨_, rfl, fun hj => if_neg hj⟩
      refine ⟨hoffered.key, hoffered.triedTable, fun b' p' hne => hoffered.get_newTable hne,
        fun j s t hs ht hne => ?_, fun j s t hs ht => ?_, fun j s hs hgone => ?_⟩
      · obtain ⟨m, hm, -⟩ := hmid j s hs
        exact (hmerged.others j s m hs hm hne).trans (hoffered.sameButPlace hm ht)
      · obtain ⟨m, hm, -⟩ := hmid j s hs
        obtain ⟨he, hin⟩ := hmerged.announced j s m hs hm
        obtain ⟨he', hin'⟩ := (hoffered.sameButPlace hm ht).kind
        exact ⟨he'.trans he, hin'.trans hin⟩
      · obtain ⟨m, hm, hsame⟩ := hmid j s hs
        rcases hoffered.removed hplaced hm hgone with ⟨-, hrefs⟩ | ⟨hj, hheld, hkind⟩
        · -- The announced record had a slot before and is not dropped.
          exact absurd hrefs fun hzero => hc.mem_loose id old hr hnew hzero
        · rw [hsame hj] at hkind
          exact ⟨hheld, hkind⟩
  | @created b p _ _ hunknown hslot hoffered =>
      obtain ⟨hm, hrm, -⟩ := hc.created a source penalty hunknown
      rw [offeredSlot_of_unknown hunknown, hslot]
      -- The records from before are there when the offer is made.
      have hmid : ∀ (j : RecordId) (s : Record), c.records[j]? = some s → j ≠ ⟨c.nextId⟩ ∧
          (c.created a source penalty).records[j]? = some s := by
        intro j s hs
        have hj : j ≠ ⟨c.nextId⟩ := by
          rintro rfl
          rw [hc.getElem?_nextId] at hs
          cases hs
        rw [records_created, if_neg hj]
        exact ⟨hj, hs⟩
      refine ⟨hoffered.key, hoffered.triedTable, fun b' p' hne => hoffered.get_newTable hne,
        fun j s t hs ht _ => hoffered.sameButPlace (hmid j s hs).2 ht,
        fun j s t hs ht => (hoffered.sameButPlace (hmid j s hs).2 ht).kind,
        fun j s hs hgone => ?_⟩
      obtain ⟨hj, hs'⟩ := hmid j s hs
      rcases hoffered.removed hm.toPlaced hs' hgone with ⟨he, -⟩ | ⟨-, hheld, hkind⟩
      · exact absurd he hj
      · exact ⟨hheld, hkind⟩

variable {allowed : Operation → Prop} {σ : Type} [RandomSource σ]

/-- Taking in an announcement, whatever is drawn, leaves the tried table as it is and
all slots of the new table but one. Records of other addresses change at most their
references and their places in the sampling order. No record is removed, except
perhaps the one that held the slot, and only if it was not tried, was terrible, and
held nothing else. So no healthy record is removed, and no tried one. -/
theorem Reachable.learn_spares (h : Reachable allowed c) (a : Announcement) (source : Ip)
    (penalty : Nat) (now : Timestamp) (s : σ) :
    ∃ (created : Bool) (d : Cache) (s' : σ),
      c.learn a source penalty now s = .ok ((created, d), s') ∧
      Spared a now (c.offeredSlot a source) c d ∧
      ∀ (id : RecordId) (r : Record), c.records[id]? = some r →
        r.isTerrible now = false ∨ r.inTried = true → id ∈ d.records := by
  obtain ⟨⟨created, d⟩, s', hrun, -, -, hlearnt⟩ := h.coherent.learn a source penalty now s
  have hspared := hlearnt.spared h.coherent
  refine ⟨created, d, s', hrun, hspared, fun id r hr hgood => ?_⟩
  cases hd : d.records[id]? with
  | some t => exact (mem_iff_exists_getElem? d.records id).mpr ⟨t, hd⟩
  | none =>
      obtain ⟨-, hnew, hterrible⟩ := hspared.removed id r hr hd
      rcases hgood with hhealthy | htried
      · rw [hterrible] at hhealthy
        cases hhealthy
      · rw [hnew] at htried
        cases htried

/-- For instance, a second announcement from the same informant does not remove the
record of the first one, which was seen just now. -/
theorem learn_second_spares : ∃ (c : Cache) (s : SplitMix),
    (Operation.learn (.ofEndpoint (.ofIp (.v4 ⟨8, 8, 8, 8⟩) 8333) (.ofSecs 1700000000))
      (.v4 ⟨9, 9, 9, 9⟩) 0 (.ofSecs 1700000000)).perform Rat (ofKey .standard default) ⟨[], 0⟩
        = .ok (c, s) ∧
    ∃ (created : Bool) (d : Cache) (s' : SplitMix),
      c.learn (.ofEndpoint (.ofIp (.v4 ⟨8, 8, 4, 4⟩) 8333) .zero) (.v4 ⟨9, 9, 9, 9⟩) 0
        (.ofSecs 1700000000) s = .ok ((created, d), s') ∧
      Spared (.ofEndpoint (.ofIp (.v4 ⟨8, 8, 4, 4⟩) 8333) .zero) (.ofSecs 1700000000)
        (c.offeredSlot (.ofEndpoint (.ofIp (.v4 ⟨8, 8, 4, 4⟩) 8333) .zero) (.v4 ⟨9, 9, 9, 9⟩)) c d ∧
      (⟨0⟩ : RecordId) ∈ d.records := by
  have hempty : Reachable (fun _ => True) (ofKey .standard default) := .ofKey .standard default
  obtain ⟨c, s, hrun, hc, hr⟩ :=
    hempty.exists_learn_first Rat (.ofEndpoint (.ofIp (.v4 ⟨8, 8, 8, 8⟩) 8333) (.ofSecs 1700000000))
      (.v4 ⟨9, 9, 9, 9⟩) 0 (.ofSecs 1700000000) trivial (by decide) (⟨[], 0⟩ : SplitMix)
  obtain ⟨created, d, s', hlearn, hspared, hstays⟩ :=
    hc.learn_spares (.ofEndpoint (.ofIp (.v4 ⟨8, 8, 4, 4⟩) 8333) .zero) (.v4 ⟨9, 9, 9, 9⟩) 0
      (.ofSecs 1700000000) s
  exact ⟨c, s, hrun, created, d, s', hlearn, hspared, hstays ⟨0⟩ _ hr (Or.inl (by decide))⟩

end Cache

end PeerCache
