import PeerCache.Proofs.Cache.Copy
import PeerCache.Proofs.Cache.Runs

/-!
# `PeerCache.Proofs.Cache.TriedGroups`: how far one group gets into the tried table

All endpoints of one group share at most 8 buckets of the tried table, which the
placement key and the group decide (`Placement.triedBuckets`). A tried record holds
one slot of the table, the one that its endpoint hashes to, however it got there: by
a promotion or with the bytes of a load. So it lies in a bucket of its group.

Two tried records hold different slots. Counting the slots of the buckets therefore
counts records, and no more than `8 * 64` records of one group are tried at any time
(`Reachable.tried_of_group`).
-/

set_option autoImplicit false

namespace PeerCache

namespace Placement

/-- The buckets of the tried table that a group of endpoints can reach. -/
@[irreducible] def triedBuckets (key : PlacementKey) (g : Group) : Finset (Fin triedBucketCount) :=
  (Finset.range triedBucketsPerGroup).image (triedBucketOf key g)

theorem card_triedBuckets_le (key : PlacementKey) (g : Group) :
    (triedBuckets key g).card ≤ triedBucketsPerGroup := by
  unfold triedBuckets
  calc
    _ ≤ (Finset.range triedBucketsPerGroup).card := Finset.card_image_le
    _ = triedBucketsPerGroup := Finset.card_range _

theorem triedBucket_mem_triedBuckets (key : PlacementKey) (e : Endpoint) :
    triedBucket key e ∈ triedBuckets key (Group.ofIp e.ip) := by
  obtain ⟨reduced, hlt, heq⟩ := triedBucket_eq key e
  rw [heq, triedBuckets]
  exact Finset.mem_image_of_mem _ (Finset.mem_range.mpr hlt)

end Placement

namespace Cache

variable {c : Cache} {g : Group}

/-- The tried records of a group. -/
def triedOf (c : Cache) (g : Group) : List (RecordId × Record) :=
  c.triedRecords.filter fun x => Group.ofIp x.2.ip = g

theorem mem_triedOf {x : RecordId × Record} :
    x ∈ c.triedOf g ↔
      c.records[x.1]? = some x.2 ∧ x.2.inTried = true ∧ Group.ofIp x.2.ip = g := by
  simp [triedOf, mem_triedRecords, and_assoc]

theorem nodup_triedOf (c : Cache) (g : Group) : (c.triedOf g).Nodup := by
  have hids : (c.triedRecords.map Prod.fst).Nodup :=
    (nodup_ids c.records).sublist (List.filter_sublist.map _)
  exact hids.of_map.filter _

/-- The slot of a tried record lies in a bucket of its group. -/
theorem triedSlot_mem (c : Cache) (r : Record) :
    (c.triedSlot r.endpoint).1 ∈ Placement.triedBuckets c.key (Group.ofIp r.ip) :=
  Placement.triedBucket_mem_triedBuckets c.key r.endpoint

/-- Tried records whose endpoints hash to the same slot are one. -/
theorem Placed.tried_unique (h : Placed c) {x y : RecordId × Record}
    (hx : c.records[x.1]? = some x.2) (hxt : x.2.inTried = true)
    (hy : c.records[y.1]? = some y.2) (hyt : y.2.inTried = true)
    (hslot : c.triedSlot x.2.endpoint = c.triedSlot y.2.endpoint) : x = y := by
  -- Both hold the slot, and a slot has one holder.
  obtain ⟨b, p, hbp⟩ : ∃ b p, c.triedSlot y.2.endpoint = (b, p) := ⟨_, _, rfl⟩
  have hgetx := (h.tried_iff b p x.1).mpr ⟨x.2, hx, hxt, hslot.trans hbp⟩
  have hgety := (h.tried_iff b p y.1).mpr ⟨y.2, hy, hyt, hbp⟩
  rw [hgety] at hgetx
  have hid : x.1 = y.1 := (Option.some.inj hgetx).symm
  rw [hid, hy] at hx
  exact Prod.ext hid (Option.some.inj hx).symm

/-- The tried records of a group are no more than the slots of its buckets. -/
theorem Placed.length_triedOf_le (h : Placed c) (g : Group) :
    (c.triedOf g).length ≤ (Placement.triedBuckets c.key g).card * bucketSize := by
  -- Listing the slots of the records lists each slot at most once.
  have hnodup : ((c.triedOf g).map fun x => c.triedSlot x.2.endpoint).Nodup := by
    refine (c.nodup_triedOf g).map_on ?_
    intro x hx y hy hslot
    rw [mem_triedOf] at hx hy
    exact h.tried_unique hx.1 hx.2.1 hy.1 hy.2.1 hslot
  have hsub : ((c.triedOf g).map fun x => c.triedSlot x.2.endpoint).toFinset ⊆
      Placement.triedBuckets c.key g ×ˢ (Finset.univ : Finset (Fin bucketSize)) := by
    intro slot hmem
    rw [List.mem_toFinset, List.mem_map] at hmem
    obtain ⟨x, hx, hslot⟩ := hmem
    have hbucket := c.triedSlot_mem x.2
    rw [(mem_triedOf.mp hx).2.2, hslot] at hbucket
    exact Finset.mem_product.mpr ⟨hbucket, Finset.mem_univ _⟩
  calc
    (c.triedOf g).length = ((c.triedOf g).map fun x => c.triedSlot x.2.endpoint).toFinset.card := by
      rw [List.toFinset_card_of_nodup hnodup, List.length_map]
    _ ≤ (Placement.triedBuckets c.key g ×ˢ (Finset.univ : Finset (Fin bucketSize))).card :=
      Finset.card_le_card hsub
    _ = (Placement.triedBuckets c.key g).card * bucketSize := by
      rw [Finset.card_product, Finset.card_univ, Fintype.card_fin]

variable {allowed : Operation → Prop}

/-- The endpoints of one group have at most 8 buckets of the tried table, which depend
on the key and the group alone. Whatever operations have led to a cache, every tried
record of the group holds one slot of the table, and that lies in one of the buckets.
So at most 512 records of the group are tried. -/
theorem Reachable.tried_of_group (h : Reachable allowed c) (g : Group) :
    (Placement.triedBuckets c.key g).card ≤ 8 ∧
      (∀ (id : RecordId) (r : Record), c.records[id]? = some r → r.inTried = true →
        Group.ofIp r.ip = g → ∃ b ∈ Placement.triedBuckets c.key g, ∃ p : Fin bucketSize,
          c.triedTable.held id = {(b, p)}) ∧
      (c.triedOf g).length ≤ 512 := by
  have hcard := Placement.card_triedBuckets_le c.key g
  simp only [triedBucketsPerGroup] at hcard
  refine ⟨hcard, ?_, ?_⟩
  · intro id r hr htried hgroup
    obtain ⟨-, hheld, -⟩ := h.coherent.sound.tried id r hr htried
    have hbucket := c.triedSlot_mem r
    rw [hgroup] at hbucket
    exact ⟨_, hbucket, _, hheld⟩
  · have hlength := h.coherent.length_triedOf_le g
    simp only [bucketSize] at hlength
    omega

/-- For instance, a peer that was announced and then reached is tried, in a bucket of its
group. -/
theorem tried_of_group_after_confirm : ∃ (c d : Cache) (s s' : SplitMix) (r : Record),
    (Operation.learn (.ofEndpoint (.ofIp (.v4 ⟨8, 8, 8, 8⟩) 8333) (.ofSecs 1700000000))
      (.v4 ⟨9, 9, 9, 9⟩) 0 (.ofSecs 1700000000)).perform Rat (ofKey .standard default) ⟨[], 0⟩
        = .ok (c, s) ∧
    (Operation.confirm (.ofIp (.v4 ⟨8, 8, 8, 8⟩) 8333) (.ofSecs 1700000000)).perform Rat c s
        = .ok (d, s') ∧
    d.records[(⟨0⟩ : RecordId)]? = some r ∧ r.inTried = true ∧
    (Placement.triedBuckets d.key (.v4 8 8)).card ≤ 8 ∧
    (∃ b ∈ Placement.triedBuckets d.key (.v4 8 8), ∃ p : Fin bucketSize,
      d.triedTable.held ⟨0⟩ = {(b, p)}) ∧
    (d.triedOf (.v4 8 8)).length ≤ 512 := by
  have hempty : Reachable (fun _ => True) (ofKey .standard default) := .ofKey .standard default
  obtain ⟨c, s, hlearn, hc, hr⟩ :=
    hempty.exists_learn_first Rat (.ofEndpoint (.ofIp (.v4 ⟨8, 8, 8, 8⟩) 8333) (.ofSecs 1700000000))
      (.v4 ⟨9, 9, 9, 9⟩) 0 (.ofSecs 1700000000) trivial (by decide) (⟨[], 0⟩ : SplitMix)
  have hlookup : c.lookup (.ofIp (.v4 ⟨8, 8, 8, 8⟩) 8333) = some (⟨0⟩, _) :=
    hc.coherent.lookup_eq_some_iff.mpr ⟨hr, rfl⟩
  obtain ⟨evicted, d, hconfirm, -, -, hpromoted⟩ :=
    hc.coherent.confirm_new hlookup rfl (.ofSecs 1700000000) s
  obtain ⟨r, hrd, hsame⟩ := Option.map_eq_some_iff.mp hpromoted.record
  have hperform : (Operation.confirm (.ofIp (.v4 ⟨8, 8, 8, 8⟩) 8333)
      (.ofSecs 1700000000)).perform Rat c s = .ok (d, _) := Draw.run_map Prod.snd hconfirm
  have hd : Reachable (fun _ => True) d := hc.step (w := Rat) trivial hperform
  have htried : r.inTried = true := congrArg Record.inTried hsame
  have hip : r.ip = .v4 ⟨8, 8, 8, 8⟩ := congrArg Record.ip hsame
  have hgroup : Group.ofIp r.ip = .v4 8 8 := by
    rw [hip]
    decide
  obtain ⟨hcard, hplaced, hlength⟩ := hd.tried_of_group (.v4 8 8)
  exact ⟨c, d, s, _, r, hlearn, hperform, hrd, htried, hcard, hplaced ⟨0⟩ r hrd htried hgroup,
    hlength⟩

end Cache

end PeerCache
