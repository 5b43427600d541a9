import PeerCache.Proofs.Cache.Placing

/-!
# `PeerCache.Proofs.Cache.Acceptance`: content that is accepted

Once the layout has been read, one thing can still be wrong with the content: an address
may occur twice. The steps that add stored records refuse an address that the cache knows,
and a cache knows the addresses of the records before and no others
(`exists_foldlM_of_nodup`).

So content whose addresses are all different can be placed, whatever its bucket lists say
(`StoredCache.exists_leadsTo`), and its bytes are accepted.
-/

set_option autoImplicit false

namespace PeerCache

namespace Cache

variable {c : Cache} {s : StoredRecord}

/-! ### One step -/

/-- Of the addresses that a record has added, one is new. -/
theorem eq_or_contains_of_inserted {ip : Ip}
    (h : (c.inserted (s.toRecord c.order.size)).addresses.contains ip = true) :
    ip = s.ip ∨ c.addresses.contains ip = true := by
  rw [inserted, StoredRecord.toRecord_ip, Std.ExtHashMap.contains_insert, Bool.or_eq_true,
    beq_iff_eq] at h
  exact h.imp_left Eq.symm

/-- A stored new record with an unknown address is added. -/
theorem exists_loadNew (hunknown : ¬ c.addresses.contains s.ip = true) (listed : Bool) :
    ∃ d : Cache, c.loadNew listed s = .ok d ∧
      ∀ ip, d.addresses.contains ip = true → ip = s.ip ∨ c.addresses.contains ip = true := by
  have hadded : ∀ ip, (c.added s).addresses.contains ip = true →
      ip = s.ip ∨ c.addresses.contains ip = true := fun _ => eq_or_contains_of_inserted
  cases listed with
  | true => exact ⟨c.added s, loadNew_of_unknown hunknown, hadded⟩
  | false =>
      have hrun : c.loadNew false s = .ok ((c.added s).offerFree ⟨c.nextId⟩
          (Placement.newBucket c.key s.endpoint s.source)) := by
        unfold Cache.loadNew
        rw [insertStored_eq, if_neg hunknown]
        rfl
      refine ⟨_, hrun, ?_⟩
      -- An offer does not touch the addresses.
      rcases offerFree_cases (c.added s) ⟨c.nextId⟩
        (Placement.newBucket c.key s.endpoint s.source) with heq | ⟨p, heq⟩
      · rw [heq]
        exact hadded
      · rw [heq]
        exact hadded

/-- A stored tried record with an unknown address is added or lost. -/
theorem exists_loadTried (hunknown : ¬ c.addresses.contains s.ip = true) (lost : Nat) :
    ∃ (d : Cache) (lost' : Nat), Cache.loadTried (c, lost) s = .ok (d, lost') ∧
      ∀ ip, d.addresses.contains ip = true → ip = s.ip ∨ c.addresses.contains ip = true := by
  obtain ⟨b, p, hslot⟩ : ∃ b p, c.triedSlot s.endpoint = (b, p) := ⟨_, _, rfl⟩
  cases hget : c.triedTable.get b p with
  | none =>
      exact ⟨_, _, loadTried_of_free hunknown hslot hget lost,
        fun _ => eq_or_contains_of_inserted⟩
  | some id =>
      exact ⟨_, _, loadTried_of_taken hunknown hslot hget lost, fun _ hip => Or.inr hip⟩

/-! ### All steps -/

/-- Steps that refuse known addresses only go through records with different addresses. -/
theorem exists_foldlM_of_nodup {β : Type} {step : β → StoredRecord → Except StorageError β}
    (known : β → Ip → Prop)
    (hstep : ∀ x s, ¬ known x s.ip → ∃ y, step x s = .ok y ∧
      ∀ ip, known y ip → ip = s.ip ∨ known x ip)
    {l : List StoredRecord} (hnodup : (l.map StoredRecord.ip).Nodup) {x : β}
    (hunknown : ∀ s ∈ l, ¬ known x s.ip) :
    ∃ y, l.foldlM step x = .ok y ∧
      ∀ ip, known y ip → ip ∈ l.map StoredRecord.ip ∨ known x ip := by
  induction l generalizing x with
  | nil => exact ⟨x, rfl, fun ip hip => Or.inr hip⟩
  | cons s l ih =>
      rw [List.map_cons, List.nodup_cons] at hnodup
      obtain ⟨y, hy, hknown⟩ := hstep x s (hunknown s List.mem_cons_self)
      have hrest : ∀ t ∈ l, ¬ known y t.ip := by
        intro t ht hip
        rcases hknown t.ip hip with hsame | hbefore
        · exact hnodup.1 (hsame ▸ List.mem_map_of_mem ht)
        · exact hunknown t (List.mem_cons_of_mem s ht) hbefore
      obtain ⟨z, hz, hall⟩ := ih hnodup.2 hrest
      refine ⟨z, ?_, fun ip hip => ?_⟩
      · rw [List.foldlM_cons, hy]
        exact hz
      · rw [List.map_cons, List.mem_cons]
        rcases hall ip hip with hmem | hy'
        · exact Or.inl (Or.inr hmem)
        · exact (hknown ip hy').imp_left Or.inl

end Cache

namespace StoredCache

/-- Content whose addresses are all different can be placed. -/
theorem exists_leadsTo (f : StoredCache)
    (hnodup : ((f.new ++ f.tried).map StoredRecord.ip).Nodup) (policy : Policy) :
    ∃ (m : Cache) (lost : Nat), f.LeadsTo policy m lost := by
  rw [List.map_append, List.nodup_append] at hnodup
  obtain ⟨hnews, htrieds, hapart⟩ := hnodup
  have hempty : ∀ ip, ¬ (Cache.ofKey policy f.key).addresses.contains ip = true := by
    simp [Cache.ofKey]
  obtain ⟨c, hnew, hc⟩ :=
    Cache.exists_foldlM_of_nodup (fun c : Cache => (c.addresses.contains · = true))
      (fun c s hunknown => Cache.exists_loadNew hunknown f.Listed) hnews fun s _ => hempty s.ip
  have hunknown : ∀ s ∈ f.tried, ¬ c.addresses.contains s.ip = true := by
    intro s hs hip
    have hmem := (hc s.ip hip).resolve_right (hempty s.ip)
    exact hapart _ hmem _ (List.mem_map_of_mem hs) rfl
  have htriedStep : ∀ (x : Cache × Nat) (s : StoredRecord),
      ¬ x.1.addresses.contains s.ip = true → ∃ y, Cache.loadTried x s = .ok y ∧
        ∀ ip, y.1.addresses.contains ip = true → ip = s.ip ∨ x.1.addresses.contains ip = true := by
    intro x s hx
    obtain ⟨d, lost, hrun, hd⟩ := Cache.exists_loadTried hx x.2
    exact ⟨(d, lost), hrun, hd⟩
  obtain ⟨⟨c', lost⟩, htried, -⟩ :=
    Cache.exists_foldlM_of_nodup (fun x : Cache × Nat => (x.1.addresses.contains · = true))
      htriedStep htrieds (x := (c, 0)) hunknown
  exact ⟨_, lost, c, c', hnew, htried, rfl⟩

/-- Then its bytes are read to the end. -/
theorem Fits.exists_run {f : StoredCache} (h : f.Fits)
    (hnodup : ((f.new ++ f.tried).map StoredRecord.ip).Nodup) (policy : Policy) :
    ∃ (m : Cache) (lost : Nat), f.LeadsTo policy m lost ∧
      (Cache.decode policy).run f.toBytes = .ok ((m, lost), []) := by
  obtain ⟨m, lost, hleads⟩ := f.exists_leadsTo hnodup policy
  have hrun := hleads.reads h []
  rw [List.append_nil] at hrun
  exact ⟨m, lost, hleads, hrun⟩

/-! ### Content without tried records -/

/-- Content in the format in use that has only new records, with a list for each bucket. -/
def ofNew (key : PlacementKey) (new : List StoredRecord) (list : Fin newBucketCount → List Nat) :
    StoredCache :=
  ⟨formatVersion, key, new, [], (List.finRange newBucketCount).map list⟩

variable (key : PlacementKey) {new : List StoredRecord} {list : Fin newBucketCount → List Nat}

theorem length_lists_ofNew (new : List StoredRecord) (list : Fin newBucketCount → List Nat) :
    (ofNew key new list).lists.length = newBucketCount := by
  rw [ofNew, List.length_map, List.length_finRange]

theorem listed_ofNew (new : List StoredRecord) (list : Fin newBucketCount → List Nat) :
    (ofNew key new list).Listed := by
  constructor
  · rfl
  · exact length_lists_ofNew key new list

theorem entries_ofNew (new : List StoredRecord) (list : Fin newBucketCount → List Nat) :
    (ofNew key new list).entries
      = (List.finRange newBucketCount).flatMap fun b => (list b).map (b, ·) := by
  unfold entries ofNew
  rw [← List.map_prod_left_eq_zip, entriesOf, List.flatMap_map]

theorem fits_ofNew (hlength : new.length ≤ newBucketCount * bucketSize)
    (hnew : ∀ s ∈ new, s.Canonical) (hlist : ∀ b, FitsList (list b)) :
    (ofNew key new list).Fits where
  version_lt := show formatVersion < Bytes.span 1 by decide
  length_new_le := hlength
  length_tried_le := Nat.zero_le _
  new_canonical := hnew
  tried_canonical := nofun
  length_lists_lt := by
    rw [length_lists_ofNew]
    decide
  lists_fit := by
    rw [ofNew, List.forall_mem_map]
    exact fun b _ => hlist b

end StoredCache

end PeerCache
