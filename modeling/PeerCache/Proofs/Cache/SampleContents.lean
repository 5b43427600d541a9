import PeerCache.Proofs.Cache.Indistinguishable
import PeerCache.Proofs.Cache.Spread

/-!
# `PeerCache.Proofs.Cache.SampleContents`: what a sample holds and what it leaves

The loop that draws a sample shuffles the sampling order in place and stops early, and it
may go on past the wanted number of places to make up for terrible records. The result
does not depend on when it stops: a sample holds as many peers as are wanted, or as there
are records fit to be passed on (`Reachable.sample_contents`). No record gives two of
them, since the order that the loop leaves names each record once and the peers are read
off that order in turn.

The order is all that a sample changes. The comparison does not see it, and neither do
the bytes (`Reordered.encode`).
-/

set_option autoImplicit false

namespace PeerCache

namespace Cache

variable {c d : Cache} {now : Timestamp}

/-! ### The order and the bytes -/

/-- The bytes do not show the sampling order. -/
theorem Reordered.encode (h : Reordered c d) : d.encode = c.encode := by
  have hunranked : ∀ c : Cache,
      ({ c with records := c.records.map fun _ r => r.unranked } : Cache).encode = c.encode :=
    fun c => c.encode_map (fun _ => rfl) fun _ => rfl
  have hrecords : (d.records.map fun _ r => r.unranked) = c.records.map fun _ r => r.unranked := by
    refine Std.ExtTreeMap.ext_getElem? fun id => ?_
    rw [Std.ExtTreeMap.getElem?_map, Std.ExtTreeMap.getElem?_map]
    exact h.record id
  rw [← hunranked d, ← hunranked c, hrecords, h.rest]
  rfl

/-- The order names the same records as before. -/
theorem Reordered.perm_order (h : Reordered c d) (hc : Coherent ∅ ∅ c) (hd : Coherent ∅ ∅ d) :
    d.order.toList.Perm c.order.toList := by
  rw [List.perm_ext_iff_of_nodup hd.sound.nodup_order hc.sound.nodup_order]
  intro id
  have hid := congrArg Option.isSome (h.record id)
  rw [Option.isSome_map, Option.isSome_map, Bool.eq_iff_iff, Option.isSome_iff_exists,
    Option.isSome_iff_exists] at hid
  rw [hd.sound.mem_order, hc.sound.mem_order, hid]

/-! ### The peers -/

/-- The numbers in the order that can be passed on are as many as the records that are
not terrible. -/
theorem Coherent.countP_shared? (h : Coherent ∅ ∅ c) (now : Timestamp) :
    (c.order.toList.countP fun id => (c.shared? now id).isSome)
      = c.records.toList.countP fun x => !x.2.isTerrible now := by
  rw [h.sound.perm_order.countP_eq, List.countP_map]
  refine List.countP_congr fun x hx => ?_
  have hr : c.records[x.1]? = some x.2 := Std.ExtTreeMap.mem_toList_iff_getElem?_eq_some.mp hx
  simp [shared?, hr]

/-- Each result in a filtered list comes from an entry that gives one. -/
theorem forall₂_filterMap {α β : Type} (f : α → Option β) (l : List α) :
    List.Forall₂ (fun a b => f a = some b) (l.filter fun a => (f a).isSome) (l.filterMap f) := by
  induction l with
  | nil => exact .nil
  | cons a l ih =>
      cases ha : f a with
      | none =>
          rw [List.filterMap_cons_none ha, List.filter_cons_of_neg (by simp [ha])]
          exact ih
      | some b =>
          rw [List.filterMap_cons_some ha, List.filter_cons_of_pos (by simp [ha])]
          exact .cons ha ih

/-- The peers belong to different records, none of them terrible. -/
theorem Sampled.exists_ids {n wanted : Nat} {peers : List Announcement}
    (h : Sampled now n wanted c peers d) : ∃ ids : List RecordId, ids.Nodup ∧
      List.Forall₂ (fun id a => ∃ r : Record,
        c.records[id]? = some r ∧ r.isTerrible now = false ∧ r.peer = a) ids peers := by
  obtain ⟨m, hpeers⟩ := h.peers_eq
  have hall := forall₂_filterMap (c.shared? now) ((d.order.toList.drop n).take m)
  rw [← hpeers] at hall
  have hsub : (((d.order.toList.drop n).take m).filter
      fun id => (c.shared? now id).isSome).Sublist d.order.toList :=
    List.filter_sublist.trans ((List.take_sublist _ _).trans (List.drop_sublist _ _))
  exact ⟨_, h.coherent.sound.nodup_order.sublist hsub, hall.imp fun _ _ => shared?_eq_some_iff.mp⟩

/-! ### Reachable caches -/

variable {allowed : Operation → Prop}

/-- A sample always comes about. It holds 23 percent of the number of records, but no more
than 2500 and no more than there are records that are not terrible. The peers are those of
different records, none of them terrible. Afterwards the order names the same records, and
each record the place where it stands. Nothing else has changed, so the cache compares
equal to the one before and has the same bytes. -/
theorem Reachable.sample_contents {σ : Type} [RandomSource σ] (h : Reachable allowed c)
    (now : Timestamp) (s : σ) :
    ∃ (peers : List Announcement) (d : Cache) (s' : σ),
      c.sample now s = .ok ((peers, d), s') ∧
      peers.length = min (min (23 * c.size / 100) 2500)
        (c.records.toList.countP fun x => !x.2.isTerrible now) ∧
      (∃ ids : List RecordId, ids.Nodup ∧
        List.Forall₂ (fun id a => ∃ r : Record,
          c.records[id]? = some r ∧ r.isTerrible now = false ∧ r.peer = a) ids peers) ∧
      Reordered c d ∧ d.order.toList.Perm c.order.toList ∧
      (∀ (i : Nat) (id : RecordId), d.order[i]? = some id ↔
        ∃ r : Record, d.records[id]? = some r ∧ r.orderIndex = i) ∧
      c.sameContents d = true ∧ d.sameContents c = true ∧ d.encode = c.encode := by
  have hc := h.coherent
  obtain ⟨⟨peers, d⟩, s', hrun, hsampled⟩ := hc.sampled now s
  have hd : Coherent ∅ ∅ d := hsampled.coherent
  have hreordered : Reordered c d := hsampled.reordered
  have hrenames := hreordered.renames
  refine ⟨peers, d, s', hrun, ?_, hsampled.exists_ids, hreordered, hreordered.perm_order hc hd,
    hd.order_iff, hrenames.sameContents hc hd, hrenames.symm.sameContents hd hc, hreordered.encode⟩
  -- From place zero on, the loop has gone through the records of the whole order.
  have hlength := hsampled.length_eq
  rw [List.drop_zero, (hreordered.perm_order hc hd).countP_eq, hc.countP_shared?] at hlength
  exact hlength

/-- For instance, a sample from ten peers that are all fit to be passed on gives two. -/
theorem sample_contents_tenPeers : ∃ (c d : Cache) (peers : List Announcement) (s : SplitMix),
    (Operation.load .ascending (StoredCache.spread default StoredRecord.tenPeers).toBytes).perform
      Rat (ofKey .standard default) (⟨[], 0⟩ : SplitMix) = .ok (c, ⟨[], 0⟩) ∧
    c.size = 10 ∧ c.sample (.ofSecs 1700000000) ⟨[], 0⟩ = .ok ((peers, d), s) ∧
    peers.length = 2 ∧
    (∃ ids : List RecordId, ids.Nodup ∧
      List.Forall₂ (fun id a => ∃ r : Record, c.records[id]? = some r ∧
        r.isTerrible (.ofSecs 1700000000) = false ∧ r.peer = a) ids peers) ∧
    c.sameContents d = true ∧ d.encode = c.encode := by
  obtain ⟨c, hrun, hc, hsize, hhealthy⟩ := exists_load_tenPeers
  obtain ⟨peers, d, s, hsample, hlength, hpeers, -, -, -, hsame, -, hencode⟩ :=
    hc.sample_contents (.ofSecs 1700000000) (⟨[], 0⟩ : SplitMix)
  refine ⟨c, d, peers, s, hrun, hsize, hsample, ?_, hpeers, hsame, hencode⟩
  -- Ten records are not terrible, and 23 percent of ten are two.
  have hall : (c.records.toList.countP fun x => !x.2.isTerrible (.ofSecs 1700000000)) = 10 := by
    rw [List.countP_eq_length.mpr, Std.ExtTreeMap.length_toList, ← hc.coherent.sound.size_order]
    · exact hsize
    · intro x hx
      have hr := Std.ExtTreeMap.mem_toList_iff_getElem?_eq_some.mp hx
      rw [hhealthy x.1 x.2 hr]
      rfl
  rw [hlength, hsize, hall]
  rfl

end Cache

end PeerCache
