import PeerCache.Proofs.Cache.Sound
import PeerCache.Proofs.Draw

/-!
# `PeerCache.Proofs.Cache.Audit`: a sound cache passes its audit

Each test of the audit is first put as a condition (`auditRecord_eq_ok_iff` and the
lemmas after it). `Sound.audit` then shows that the structural rules give every one
of them. Three of the tests compare sizes and need a listing of what is counted:
the address index has one entry per record, the sampling order one place per
record, and the tried table one slot per tried record.
-/

set_option autoImplicit false

namespace PeerCache

namespace Cache

variable {c : Cache} {id : RecordId} {r : Record}

/-! ### The tests as conditions -/

/-- A list passes a test when every entry does. -/
theorem forM_eq_ok_iff {ε α : Type} {l : List α} {f : α → Except ε Unit} :
    l.forM f = .ok () ↔ ∀ a ∈ l, f a = .ok () := by
  induction l with
  | nil => simp [List.forM, Pure.pure, Except.pure]
  | cons a l ih =>
      rw [List.forall_mem_cons, ← ih]
      show (f a >>= fun _ => l.forM f) = .ok () ↔ _
      cases f a with
      | error e => simp [Bind.bind, Except.bind]
      | ok u => simp [Bind.bind, Except.bind]

section

variable {ε β : Type} {p : Prop} [Decidable p] {e : ε} {b : β}

/-- Tests in a row pass when each does. -/
theorem bind_eq_ok_iff {x : Except ε Unit} {rest : Except ε β} :
    (x >>= fun _ => rest) = .ok b ↔ x = .ok () ∧ rest = .ok b := by
  cases x <;> simp [Bind.bind, Except.bind]

/-- A test that stops under a condition passes where the condition fails and the
rest passes. -/
theorem ite_throw_eq_ok_iff {α : Type} {f : α → Except ε β} {rest : Except ε β} :
    (if p then throw e >>= f else rest) = .ok b ↔ ¬ p ∧ rest = .ok b := by
  by_cases hp : p
  · simp [hp, throw, throwThe, MonadExceptOf.throw, Bind.bind, Except.bind]
  · simp [hp]

/-- A test that stops under a condition, as the last one. -/
theorem ite_throw_pure_eq_ok_iff :
    (if p then throw e else pure () : Except ε Unit) = .ok () ↔ ¬ p := by
  by_cases hp : p <;> simp [hp, throw, throwThe, MonadExceptOf.throw, Pure.pure, Except.pure]

/-- A test that stops unless a condition holds. -/
theorem ite_pure_throw_eq_ok_iff :
    (if p then pure () else throw e : Except ε Unit) = .ok () ↔ p := by
  by_cases hp : p <;> simp [hp, throw, throwThe, MonadExceptOf.throw, Pure.pure, Except.pure]

end

theorem auditRecord_eq_ok_iff : c.auditRecord id r = .ok () ↔
    (if r.inTried then r.refs = 0 else r.refs ≠ 0 ∧ r.refs ≤ maxReferences) ∧
      c.addresses[r.ip]? = some id ∧ c.order[r.orderIndex]? = some id := by
  unfold auditRecord
  cases r.inTried with
  | true => simp only [if_true, ite_throw_eq_ok_iff, ite_throw_pure_eq_ok_iff, not_not]
  | false =>
      simp only [Bool.false_eq_true, if_false, ite_throw_eq_ok_iff, ite_throw_pure_eq_ok_iff,
        not_not, Nat.not_lt, and_assoc]

theorem auditTriedSlot_eq_ok_iff {b : Fin triedBucketCount} {p : Fin bucketSize} :
    c.auditTriedSlot b p id = .ok () ↔
      ∃ r : Record, c.records[id]? = some r ∧ r.inTried = true ∧
        (b, p) = c.triedSlot r.endpoint := by
  unfold auditTriedSlot
  cases hr : c.records[id]? with
  | none => simp
  | some r => simp only [Option.some.injEq, exists_eq_left', ite_pure_throw_eq_ok_iff]

theorem auditNewSlot_eq_ok_iff {b : Fin newBucketCount} {p : Fin bucketSize} :
    c.auditNewSlot b p id = .ok () ↔
      ∃ r : Record, c.records[id]? = some r ∧ r.inTried = false ∧ p = c.newSlot b r.endpoint := by
  unfold auditNewSlot
  cases hr : c.records[id]? with
  | none => simp
  | some r => simp only [Option.some.injEq, exists_eq_left', ite_pure_throw_eq_ok_iff]

theorem auditReferences_eq_ok_iff {held : Std.ExtHashMap RecordId Nat} :
    auditReferences held id r = .ok () ↔ r.inTried = true ∨ held.getD id 0 = r.refs :=
  ite_pure_throw_eq_ok_iff

/-- The tally counts how often a number occurs. -/
theorem getD_tally (ids : List RecordId) (id : RecordId) :
    (tally ids).getD id 0 = ids.count id := by
  have hfold : ∀ counts : Std.ExtHashMap RecordId Nat,
      (ids.foldl (fun counts id => counts.insert id (counts.getD id 0 + 1)) counts).getD id 0
        = counts.getD id 0 + ids.count id := by
    induction ids with
    | nil => simp
    | cons j ids ih =>
        intro counts
        rw [List.foldl_cons, ih, Std.ExtHashMap.getD_insert, List.count_cons]
        by_cases hj : j = id
        · simp [hj]
          omega
        · simp [hj]
  rw [tally, hfold]
  simp

/-- The audit as a list of conditions. -/
theorem audit_eq_ok_iff : c.audit = .ok () ↔
    c.order.size = c.newCount + c.triedCount ∧
    (∀ (id : RecordId) (r : Record), c.records[id]? = some r →
      (if r.inTried then r.refs = 0 else r.refs ≠ 0 ∧ r.refs ≤ maxReferences) ∧
        c.addresses[r.ip]? = some id ∧ c.order[r.orderIndex]? = some id) ∧
    (c.newRecords.length = c.newCount ∧ c.triedRecords.length = c.triedCount ∧
      c.addresses.size = c.records.size) ∧
    (∀ b p id, c.triedTable.get b p = some id →
      ∃ r : Record, c.records[id]? = some r ∧ r.inTried = true ∧ (b, p) = c.triedSlot r.endpoint) ∧
    c.triedTable.occupied.length = c.triedCount ∧
    (∀ b p id, c.newTable.get b p = some id →
      ∃ r : Record, c.records[id]? = some r ∧ r.inTried = false ∧ p = c.newSlot b r.endpoint) ∧
    ∀ (id : RecordId) (r : Record), c.records[id]? = some r →
      r.inTried = true ∨ (c.newTable.held id).card = r.refs := by
  unfold audit
  simp only [ite_throw_eq_ok_iff, bind_eq_ok_iff, forM_eq_ok_iff, auditRecord_eq_ok_iff,
    auditTriedSlot_eq_ok_iff, auditNewSlot_eq_ok_iff, auditReferences_eq_ok_iff, getD_tally,
    SlotTable.count_occupied, ne_eq, not_or, not_not, Prod.forall,
    Std.ExtTreeMap.mem_toList_iff_getElem?_eq_some, SlotTable.mem_occupied,
    List.countP_eq_length_filter]
  rfl

/-! ### The sizes -/

/-- The address index has one entry for each record. -/
theorem Sound.size_addresses (h : Sound c) : c.addresses.size = c.records.size := by
  have hdistinct : (c.records.toList.map fun x => (x.2.ip, x.1)).Pairwise
      fun a b => (a.1 == b.1) = false := by
    rw [List.pairwise_map]
    refine c.records.distinct_keys_toList.imp_of_mem fun {x y} hx hy hne => ?_
    rw [beq_eq_false_iff_ne]
    intro hip
    have hget := (h.addresses_iff x.2.ip x.1).mpr
      ⟨x.2, Std.ExtTreeMap.mem_toList_iff_getElem?_eq_some.mp hx, rfl⟩
    rw [(h.addresses_iff x.2.ip y.1).mpr
      ⟨y.2, Std.ExtTreeMap.mem_toList_iff_getElem?_eq_some.mp hy, hip.symm⟩] at hget
    exact hne (RecordId.compare_eq_iff.mpr (Option.some.inj hget).symm)
  -- The index is the one that a listing of the records gives.
  have hpairs : c.addresses = .ofList (c.records.toList.map fun x => (x.2.ip, x.1)) := by
    refine Std.ExtHashMap.ext_getElem? fun ip => ?_
    cases hget : c.addresses[ip]? with
    | some id =>
        obtain ⟨r, hr, rfl⟩ := (h.addresses_iff ip id).mp hget
        refine (Std.ExtHashMap.getElem?_ofList_of_mem (beq_self_eq_true _) hdistinct ?_).symm
        exact List.mem_map.mpr ⟨(id, r), Std.ExtTreeMap.mem_toList_iff_getElem?_eq_some.mpr hr, rfl⟩
    | none =>
        refine (Std.ExtHashMap.getElem?_ofList_of_contains_eq_false ?_).symm
        rw [Bool.eq_false_iff, ne_eq, List.contains_iff_mem]
        intro hmem
        simp only [List.map_map, List.mem_map, Function.comp_apply, Prod.exists] at hmem
        obtain ⟨id, r, hr, hip⟩ := hmem
        have hsome := (h.addresses_iff ip id).mpr
          ⟨r, Std.ExtTreeMap.mem_toList_iff_getElem?_eq_some.mp hr, hip⟩
        rw [hget] at hsome
        cases hsome
  rw [hpairs, Std.ExtHashMap.size_ofList hdistinct, List.length_map, Std.ExtTreeMap.length_toList]

/-- A record names one place of the sampling order, so no number stands at two. -/
theorem Sound.nodup_order (h : Sound c) : c.order.toList.Nodup := by
  rw [List.nodup_iff_getElem?_ne_getElem?]
  intro i j hij hj heq
  rw [Array.getElem?_toList, Array.getElem?_toList] at heq
  obtain ⟨id, hget⟩ : ∃ id, c.order[j]? = some id := ⟨_, Array.getElem?_eq_getElem hj⟩
  obtain ⟨r, hr, hplace⟩ := (h.order_iff i id).mp (heq.trans hget)
  obtain ⟨r', hr', hplace'⟩ := (h.order_iff j id).mp hget
  rw [hr] at hr'
  cases hr'
  omega

/-- The numbers in the sampling order are those of the records. -/
theorem Sound.mem_order (h : Sound c) : id ∈ c.order.toList ↔ ∃ r, c.records[id]? = some r := by
  rw [List.mem_iff_getElem?]
  simp [h.order_iff]

theorem Sound.perm_order (h : Sound c) :
    c.order.toList.Perm (c.records.toList.map Prod.fst) := by
  rw [List.perm_ext_iff_of_nodup h.nodup_order (nodup_ids c.records)]
  intro id
  simp [h.mem_order, mem_iff_exists_getElem?]

/-- The sampling order has one place for each record. -/
theorem Sound.size_order (h : Sound c) : c.order.size = c.records.size := by
  rw [← Array.length_toList, h.perm_order.length_eq, List.length_map, Std.ExtTreeMap.length_toList]

/-- The tried table has one occupied slot for each tried record. -/
theorem Sound.length_occupied (h : Sound c) : c.triedTable.occupied.length = c.triedCount := by
  -- A tried record holds one slot, any other number none.
  have hcard : ∀ id, (c.triedTable.held id).card = if id ∈ c.idsIn true then 1 else 0 := by
    intro id
    by_cases hid : id ∈ c.idsIn true
    · obtain ⟨r, hr, htried⟩ := mem_idsIn.mp hid
      rw [if_pos hid, (h.tried id r hr htried).2.1, Finset.card_singleton]
    · rw [if_neg hid, Finset.card_eq_zero, SlotTable.held_eq_empty_iff]
      intro b p hget
      obtain ⟨r, hr⟩ := (mem_iff_exists_getElem? c.records id).mp (h.triedTable_mem b p id hget)
      cases htried : r.inTried with
      | true => exact hid (mem_idsIn.mpr ⟨r, hr, htried⟩)
      | false => exact SlotTable.held_eq_empty_iff.mp (h.new id r hr htried).2.2.2 b p hget
  have hnodup : (c.triedTable.occupied.map fun x => x.2.2).Nodup := by
    rw [List.nodup_iff_count_le_one]
    intro id
    rw [SlotTable.count_occupied, hcard]
    split <;> omega
  have hset : (c.triedTable.occupied.map fun x => x.2.2).toFinset = c.idsIn true := by
    ext id
    rw [List.mem_toFinset, ← List.count_pos_iff, SlotTable.count_occupied, hcard]
    split <;> simp [*]
  rw [← List.length_map (f := fun x => x.2.2), ← List.toFinset_card_of_nodup hnodup, hset,
    h.triedCount_eq, card_idsIn_true]

/-- A sound cache passes its audit. -/
theorem Sound.audit (h : Sound c) : c.audit = .ok () := by
  refine audit_eq_ok_iff.mpr ⟨?_, fun id r hr => ⟨?_, ?_, ?_⟩,
    ⟨h.newCount_eq.symm, h.triedCount_eq.symm, h.size_addresses⟩, fun b p id hget => ?_,
    h.length_occupied, fun b p id hget => ?_, fun id r hr => ?_⟩
  · have hsplit := List.length_eq_length_filter_add (l := c.records.toList) fun x => !x.2.inTried
    simp only [Bool.not_not, Std.ExtTreeMap.length_toList] at hsplit
    rw [h.size_order, h.newCount_eq, h.triedCount_eq]
    exact hsplit
  · cases htried : r.inTried with
    | true => simpa using (h.tried id r hr htried).1
    | false =>
        have hrefs := (h.new id r hr htried).1
        simpa using ⟨Nat.one_le_iff_ne_zero.mp hrefs.1, hrefs.2⟩
  · exact (h.addresses_iff r.ip id).mpr ⟨r, hr, rfl⟩
  · exact (h.order_iff r.orderIndex id).mpr ⟨r, hr, rfl⟩
  · obtain ⟨r, hr⟩ := (mem_iff_exists_getElem? c.records id).mp (h.triedTable_mem b p id hget)
    cases htried : r.inTried with
    | true =>
        have hmem := SlotTable.mem_held.mpr hget
        rw [(h.tried id r hr htried).2.1, Finset.mem_singleton] at hmem
        exact ⟨r, hr, htried, hmem⟩
    | false =>
        exact absurd hget (SlotTable.held_eq_empty_iff.mp (h.new id r hr htried).2.2.2 b p)
  · obtain ⟨r, hr⟩ := (mem_iff_exists_getElem? c.records id).mp (h.newTable_mem b p id hget)
    cases htried : r.inTried with
    | true =>
        exact absurd hget (SlotTable.held_eq_empty_iff.mp (h.tried id r hr htried).2.2 b p)
    | false => exact ⟨r, hr, htried, (h.new id r hr htried).2.2.1 b p hget⟩
  · cases htried : r.inTried with
    | true => exact Or.inl rfl
    | false => exact Or.inr (h.new id r hr htried).2.1

/-- Where the rules hold, the closing audit of an operation passes. -/
theorem Coherent.audited (h : Coherent ∅ ∅ c) : c.audited = .ok c := by
  rw [Cache.audited, h.sound.audit]
  split <;> rfl

theorem Coherent.ensures_audited {σ : Type} (h : Coherent ∅ ∅ c) :
    (liftM c.audited : Draw σ Cache).Ensures (· = c) :=
  .lift h.audited rfl

end Cache

end PeerCache
