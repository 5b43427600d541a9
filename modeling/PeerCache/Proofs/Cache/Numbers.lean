import PeerCache.Proofs.Cache.History

/-!
# `PeerCache.Proofs.Cache.Numbers`: which records an operation adds

An announcement of an unknown address uses up the next number, also when the record that
it adds is dropped again. No other operation uses a number up, and none gives one back
(`nextId_confirm` and the lemmas before it). So a number stands for one record for as long
as the cache is neither loaded nor cleared.

`Change` sums up what an operation does to the numbers of records and to the counter of
the tried table. An announcement adds one record or none, as it reports
(`Learnt.change`). A promotion adds none. It moves one record to the tried table, and one
away from it when it evicts (`Promoted.triedCount_add`).

`kept` collects, along the past of a cache, the numbers of the records that announcements
have added and left stored. `Census.step` follows it through one operation.
-/

set_option autoImplicit false

namespace PeerCache

/-- The first of two steps in a row has succeeded when both have. -/
theorem exists_of_bind_eq_ok {ε α β : Type} {x : Except ε α} {f : α → Except ε β} {b : β}
    (h : x >>= f = .ok b) : ∃ a, x = .ok a ∧ f a = .ok b := by
  cases x with
  | error e => cases h
  | ok a => exact ⟨a, rfl, h⟩

/-- The promotions that an outcome stands for. -/
def Confirmation.promotions : Confirmation → Nat
  | .promoted _ => 1
  | _ => 0

/-- The evictions that an outcome stands for. -/
def Confirmation.evictions : Confirmation → Nat
  | .promoted evicted => if evicted.isSome then 1 else 0
  | _ => 0

namespace Cache

variable {c d : Cache} {id : RecordId} {r : Record} {e : Endpoint}

/-! ### The next number -/

theorem nextId_swapOrder {i j : Nat} (h : c.swapOrder i j = .ok d) : d.nextId = c.nextId := by
  unfold swapOrder at h
  split at h
  · cases h
    rfl
  · split at h
    · cases h
      rfl
    · cases h

theorem nextId_delete (h : c.delete id = .ok d) : d.nextId = c.nextId := by
  unfold delete at h
  split at h
  · cases h
    rfl
  · split at h
    · cases h
    · split at h
      · cases h
      · obtain ⟨m, hswap, h⟩ := exists_of_bind_eq_ok h
        split at h
        · cases h
        · cases h
          have hnext := nextId_swapOrder hswap
          exact hnext

theorem nextId_clearNew {b : Fin newBucketCount} {p : Fin bucketSize}
    (h : c.clearNew b p = .ok d) : d.nextId = c.nextId := by
  unfold clearNew at h
  split at h
  · cases h
    rfl
  · dsimp only at h
    split at h
    · split at h
      · have hnext := nextId_delete h
        exact hnext
      · cases h
        rfl
    · cases h
      rfl

theorem nextId_demote {evicted : Option Endpoint} (h : c.demote id = .ok (evicted, d)) :
    d.nextId = c.nextId := by
  unfold demote at h
  split at h
  · cases h
    rfl
  · obtain ⟨m, hclear, h⟩ := exists_of_bind_eq_ok h
    cases h
    have hnext := nextId_clearNew hclear
    exact hnext

theorem nextId_promote {held : List (Fin newBucketCount)} {evicted : Option Endpoint}
    (h : c.promote id e held = .ok (evicted, d)) : d.nextId = c.nextId := by
  unfold promote at h
  -- The cache without the slots of the record is written out often, so it gets a name.
  obtain ⟨w, hw, hnext⟩ : ∃ w : Cache, (c.freeNew e held).modifyRecord id
      (fun r => { r with refs := r.refs - held.length }) = w ∧ w.nextId = c.nextId := ⟨_, rfl, rfl⟩
  rw [hw] at h
  dsimp only at h
  split at h
  · cases h
  · split at h
    · cases h
    · split at h
      · cases h
        exact hnext
      · split at h
        · cases h
        · obtain ⟨x, hdemote, h⟩ := exists_of_bind_eq_ok h
          cases h
          have hsame := nextId_demote hdemote
          exact hsame.trans hnext

theorem eq_of_audited (h : c.audited = .ok d) : d = c := by
  unfold audited at h
  split at h
  · split at h
    · cases h
      rfl
    · cases h
  · cases h
    rfl

theorem nextId_confirm {σ : Type} [RandomSource σ] {now : Timestamp} {outcome : Confirmation}
    {s s' : σ} (h : c.confirm e now s = .ok ((outcome, d), s')) : d.nextId = c.nextId := by
  unfold confirm at h
  obtain ⟨⟨outcome', m⟩, s₁, hconfirm, h⟩ := Draw.exists_of_run_bind h
  obtain ⟨m', s₂, haudited, h⟩ := Draw.exists_of_run_bind h
  cases h
  obtain rfl := eq_of_audited (Draw.of_run_lift haudited)
  unfold confirmUnaudited at hconfirm
  cases hlookup : c.lookup e with
  | none =>
      rw [hlookup] at hconfirm
      cases hconfirm
      rfl
  | some found =>
      rw [hlookup] at hconfirm
      dsimp only at hconfirm
      split at hconfirm
      · cases hconfirm
        rfl
      · obtain ⟨n, s₃, -, hconfirm⟩ := Draw.exists_of_run_bind hconfirm
        split at hconfirm
        · cases hconfirm
          rfl
        · obtain ⟨⟨evicted, m⟩, s₄, hpromote, hconfirm⟩ := Draw.exists_of_run_bind hconfirm
          cases hconfirm
          have hnext := nextId_promote (Draw.of_run_lift hpromote)
          exact hnext

/-! ### One operation -/

/-- What an operation does to the counts: `fresh` are the numbers of the records that it
has added and left stored. So many records have moved to the tried table, and so many
away from it. -/
structure Change (fresh : Finset RecordId) (promotions evictions : Nat) (c d : Cache) : Prop where
  coherent : Coherent ∅ ∅ d
  ids : d.ids \ c.ids = fresh
  nextId_le : c.nextId ≤ d.nextId
  number : ∀ id ∈ fresh, c.nextId ≤ id.number ∧ id.number < d.nextId
  triedCount : d.triedCount + evictions = c.triedCount + promotions

@[simp] theorem ids_modifyRecord (c : Cache) (id : RecordId) (f : Record → Record) :
    (c.modifyRecord id f).ids = c.ids := by
  ext j
  rw [mem_ids, mem_ids, records_modifyRecord]
  cases c.records[j]? <;> simp

theorem Descends.ids_subset (h : Descends c d) : d.ids ⊆ c.ids := by
  intro id hid
  obtain ⟨s, hs⟩ := mem_ids.mp hid
  obtain ⟨r, hr, -⟩ := h id s hs
  exact mem_ids.mpr ⟨r, hr⟩

/-- An operation that adds no record. -/
theorem Change.of_ids_subset (hd : Coherent ∅ ∅ d) (hids : d.ids ⊆ c.ids)
    (hnext : d.nextId = c.nextId) {promotions evictions : Nat}
    (htried : d.triedCount + evictions = c.triedCount + promotions) :
    Change ∅ promotions evictions c d where
  coherent := hd
  ids := Finset.sdiff_eq_empty_iff_subset.mpr hids
  nextId_le := hnext.ge
  number _ hid := absurd hid (Finset.notMem_empty _)
  triedCount := htried

section Learn

variable {a : Announcement} {source : Ip} {penalty : Nat} {now : Timestamp} {counts created : Bool}
  {b : Fin newBucketCount} {p : Fin bucketSize}

/-- An offer uses up no number and leaves the tried table alone. -/
theorem Offered.nextId_triedCount (h : Offered c id r b p created now counts d) :
    d.nextId = c.nextId ∧ d.triedCount = c.triedCount := by
  cases h with
  | free | held | refused => exact ⟨rfl, rfl⟩
  | takenOver _ _ _ hcleared => exact ⟨hcleared.nextId, hcleared.triedCount⟩
  | dropped _ _ _ _ hremoved => exact ⟨hremoved.nextId, hremoved.triedCount⟩

/-- An offer to a record that was known before reports no creation. -/
theorem Offered.counts_eq_false (h : Offered c id r b p false now counts d) : counts = false := by
  cases h <;> rfl

/-- An offer to a new record reports whether it has left the record stored. -/
theorem Offered.mem_ids_iff (h : Offered c id r b p true now counts d)
    (hr : c.records[id]? = some r) (hrefs : r.refs = 0) : id ∈ d.ids ↔ counts = true := by
  rw [mem_ids]
  cases h with
  | free hget =>
      rw [records_addReference, hr]
      simp
  | held hget => simp [hr]
  | takenOver hget hne hway hcleared =>
      obtain ⟨f, hothers⟩ := hcleared.others
      have hkept := hothers id fun he => hne (Option.some.inj (hget.symm.trans he))
      rw [records_addReference, hkept, hr]
      simp
  | dropped hget hne hstays hzero hremoved => simp [hremoved.gone]
  | refused hget hne hstays hmore => exact absurd hrefs hmore

/-- The offer to a record that was just added. -/
theorem Offered.change_created (hc : Coherent ∅ ∅ c) (hd : Coherent ∅ ∅ d)
    (hunknown : c.addresses[a.canonical.ip]? = none)
    (h : Offered (c.created a source penalty) ⟨c.nextId⟩ (c.newcomer a source penalty) b p true now
      counts d) : Change (if counts then {⟨c.nextId⟩} else ∅) 0 0 c d := by
  obtain ⟨hcreated, hrecord, -⟩ := hc.created a source penalty hunknown
  obtain ⟨hnext, htried⟩ := h.nextId_triedCount
  have hnextId : d.nextId = c.nextId + 1 := hnext
  have hmem := h.mem_ids_iff hrecord rfl
  have hfree : (⟨c.nextId⟩ : RecordId) ∉ c.ids := by
    rw [mem_ids, hc.getElem?_nextId]
    simp
  have hsub : ∀ id ∈ d.ids, id = ⟨c.nextId⟩ ∨ id ∈ c.ids := by
    intro id hid
    obtain ⟨r, hr⟩ := mem_ids.mp ((h.descends hcreated.toPlaced).ids_subset hid)
    rw [records_created] at hr
    by_cases heq : id = ⟨c.nextId⟩
    · exact Or.inl heq
    · rw [if_neg heq] at hr
      exact Or.inr (mem_ids.mpr ⟨r, hr⟩)
  refine ⟨hd, ?_, by omega, fun id hid => ?_, congrArg (· + 0) htried⟩
  · ext id
    rw [Finset.mem_sdiff]
    cases counts with
    | true =>
        rw [if_pos rfl, Finset.mem_singleton]
        constructor
        · intro hid
          exact (hsub id hid.1).resolve_right hid.2
        · rintro rfl
          exact ⟨hmem.mpr rfl, hfree⟩
    | false =>
        rw [if_neg Bool.false_ne_true]
        refine ⟨fun hid => ?_, fun hid => absurd hid (Finset.notMem_empty _)⟩
        obtain rfl := (hsub id hid.1).resolve_right hid.2
        exact absurd (hmem.mp hid.1) Bool.false_ne_true
  · cases counts with
    | true =>
        rw [if_pos rfl, Finset.mem_singleton] at hid
        subst hid
        refine ⟨le_rfl, ?_⟩
        show c.nextId < d.nextId
        omega
    | false => exact absurd hid (Finset.notMem_empty _)

/-- An announcement adds a record when it says so, under the next number. -/
theorem Learnt.change (h : Learnt c a source penalty now counts d) (hc : Coherent ∅ ∅ c)
    (hd : Coherent ∅ ∅ d) : Change (if counts then {⟨c.nextId⟩} else ∅) 0 0 c d := by
  cases h with
  | ignored => exact .of_ids_subset hd Finset.Subset.rfl rfl rfl
  | merged hr hip => exact .of_ids_subset hd (ids_modifyRecord c _ _).subset rfl rfl
  | offered hr hip hnew hslot hoffered =>
      obtain rfl := hoffered.counts_eq_false
      obtain ⟨hnext, htried⟩ := hoffered.nextId_triedCount
      have hids := (hoffered.descends (hc.merged hr a penalty now).toPlaced).ids_subset
      rw [Cache.merged, ids_modifyRecord] at hids
      exact .of_ids_subset hd hids hnext (congrArg (· + 0) htried)
  | created hunknown hslot hoffered => exact hoffered.change_created hc hd hunknown

end Learn

/-- A promotion adds one record to the tried table, and takes one away when it evicts. -/
theorem Promoted.triedCount_add {evicted : Option Endpoint} (h : Promoted id r evicted c d)
    (hc : Coherent ∅ ∅ c) (hd : Coherent ∅ ∅ d) :
    d.triedCount + (if evicted.isSome then 1 else 0) = c.triedCount + 1 := by
  have hevicted : evicted.isSome
      = (c.triedTable.get (c.triedSlot r.endpoint).1 (c.triedSlot r.endpoint).2).isSome := by
    cases hget : c.triedTable.get (c.triedSlot r.endpoint).1 (c.triedSlot r.endpoint).2 with
    | none =>
        rw [(h.vacant hget).1]
        rfl
    | some other =>
        obtain ⟨s, -, heq, -⟩ := h.taken other hget
        rw [heq]
        rfl
  rw [← hc.sound.length_occupied, ← hd.sound.length_occupied, h.triedTable, hevicted]
  exact c.triedTable.length_occupied_update _ _ id

section Operations

variable {σ : Type} [RandomSource σ]

theorem Coherent.learn_change (h : Coherent ∅ ∅ c) (a : Announcement) (source : Ip)
    (penalty : Nat) (now : Timestamp) :
    (c.learn a source penalty now : Draw σ (Bool × Cache)).Ensures fun x =>
      Change (if x.1 then {⟨c.nextId⟩} else ∅) 0 0 c x.2 :=
  (h.learn a source penalty now).mono fun _ hx => hx.2.2.change h hx.1

theorem Coherent.confirm_change (h : Coherent ∅ ∅ c) (e : Endpoint) (now : Timestamp) :
    (c.confirm e now : Draw σ (Confirmation × Cache)).Ensures fun x =>
      Change ∅ x.1.promotions x.1.evictions c x.2 := by
  intro s
  cases hlookup : c.lookup e with
  | none =>
      exact ⟨_, s, h.confirm_unknown hlookup now s, .of_ids_subset h Finset.Subset.rfl rfl rfl⟩
  | some found =>
      obtain ⟨id, r⟩ := found
      have hm := h.reached id now
      cases htried : r.inTried with
      | true =>
          exact ⟨_, s, h.confirm_tried hlookup htried now s,
            .of_ids_subset hm (ids_modifyRecord c id _).subset rfl rfl⟩
      | false =>
          obtain ⟨evicted, d, hrun, hd, hdescends, hpromoted⟩ := h.confirm_new hlookup htried now s
          have hids := hdescends.ids_subset
          rw [ids_modifyRecord] at hids
          exact ⟨_, _, hrun, .of_ids_subset hd hids (nextId_confirm hrun)
            (hpromoted.triedCount_add hm hd)⟩

/-- Rewriting records adds none. -/
theorem Rewritten.change_of_run {f : Record → Record} {run : Checked Cache}
    (h : ∃ d : Cache, run = .ok d ∧ Rewritten e f c d) (hrun : run = .ok d)
    (hd : Coherent ∅ ∅ d) : Change ∅ 0 0 c d := by
  obtain ⟨d', hrun', hrewritten⟩ := h
  rw [hrun] at hrun'
  cases hrun'
  refine .of_ids_subset hd (fun id hid => ?_) (by rw [hrewritten.rest]) (by rw [hrewritten.rest])
  obtain ⟨s, hs⟩ := mem_ids.mp hid
  rw [hrewritten.record, Option.map_eq_some_iff] at hs
  obtain ⟨r, hr, -⟩ := hs
  exact mem_ids.mpr ⟨r, hr⟩

theorem Coherent.noteAttempt_change (h : Coherent ∅ ∅ c) (e : Endpoint) (now : Timestamp) :
    ∃ d : Cache, c.noteAttempt e now = .ok d ∧ Change ∅ 0 0 c d := by
  obtain ⟨d, hrun, hd, -⟩ := h.noteAttempt e now
  exact ⟨d, hrun, Rewritten.change_of_run (h.noteAttempt_rewritten e now) hrun hd⟩

theorem Coherent.noteAlive_change (h : Coherent ∅ ∅ c) (e : Endpoint) (now : Timestamp) :
    ∃ d : Cache, c.noteAlive e now = .ok d ∧ Change ∅ 0 0 c d := by
  obtain ⟨d, hrun, hd, -⟩ := h.noteAlive e now
  exact ⟨d, hrun, Rewritten.change_of_run (h.noteAlive_rewritten e now) hrun hd⟩

theorem Coherent.sample_change (h : Coherent ∅ ∅ c) (now : Timestamp) :
    (c.sample now : Draw σ (List Announcement × Cache)).Ensures fun x => Change ∅ 0 0 c x.2 := by
  refine (h.sample now).mono fun x hx => ?_
  exact .of_ids_subset hx.1 hx.2.descends.ids_subset (by rw [hx.2.rest]) (by rw [hx.2.rest])

end Operations

/-! ### The past of a cache -/

/-- The numbers of the records that an operation has added and left stored. Only an
announcement adds records on its own. -/
def Operation.added : Operation → Cache → Cache → Finset RecordId
  | .learn .., c, d => d.ids \ c.ids
  | _, _, _ => ∅

/-- The numbers of the records that announcements have added and left stored, along the
past of the cache, the latest operation first. -/
def kept : List (Cache × Operation) → Cache → Finset RecordId
  | [], _ => ∅
  | (c, op) :: past, d => op.added c d ∪ kept past c

/-- The numbers that were given out to records along the past. Every stored record has
one of them, and the next number is greater than all. -/
structure Census (past : List (Cache × Operation)) (c : Cache) : Prop where
  coherent : Coherent ∅ ∅ c
  ids_subset : c.ids ⊆ kept past c
  number_lt : ∀ id ∈ kept past c, id.number < c.nextId

variable {past : List (Cache × Operation)} {op : Operation} {fresh : Finset RecordId}
  {promotions evictions : Nat}

theorem Census.step (h : Census past c) (hchange : Change fresh promotions evictions c d)
    (hadded : op.added c d = fresh) : Census ((c, op) :: past) d where
  coherent := hchange.coherent
  ids_subset := by
    intro id hid
    rw [kept, hadded, Finset.mem_union, ← hchange.ids, Finset.mem_sdiff]
    by_cases hold : id ∈ c.ids
    · exact Or.inr (h.ids_subset hold)
    · exact Or.inl ⟨hid, hold⟩
  number_lt := by
    intro id hid
    rw [kept, hadded, Finset.mem_union] at hid
    cases hid with
    | inl hfresh => exact (hchange.number id hfresh).2
    | inr hkept => exact (h.number_lt id hkept).trans_le hchange.nextId_le

/-- The new numbers were not given out before. -/
theorem Census.card_kept_step (h : Census past c) (hchange : Change fresh promotions evictions c d)
    (hadded : op.added c d = fresh) :
    (kept ((c, op) :: past) d).card = fresh.card + (kept past c).card := by
  rw [kept, hadded, Finset.card_union_of_disjoint]
  refine Finset.disjoint_left.mpr fun id hfresh hkept => ?_
  have hge := (hchange.number id hfresh).1
  have hlt := h.number_lt id hkept
  omega

theorem census_ofKey (policy : Policy) (key : PlacementKey) : Census [] (ofKey policy key) where
  coherent := coherent_ofKey policy key
  ids_subset := by
    intro id hid
    obtain ⟨r, hr⟩ := mem_ids.mp hid
    simp [ofKey] at hr
  number_lt _ hid := absurd hid (Finset.notMem_empty _)

end Cache

end PeerCache
