import PeerCache.Proofs.Cache.Displacement

/-!
# `PeerCache.Proofs.Cache.Eclipse`: the reach of one group of informants

Whoever controls the addresses of one network group can announce as much as they
like. They reach at most 64 buckets of the new table, which the placement key and
the group decide (`Placement.sourceBuckets`). All other slots keep their holders, and
the records in them stay, as do all tried records (`run_confined`).

The bound is on the group of the informant, so the record that is announced does not
matter, nor who announced it first. It does not matter either how many announcements
there are, which times they claim, or what is drawn.

One announcement is `Learnt.spared`. The slot that it may claim lies in a bucket of
the group, and a removed record held that slot and no other. A run follows by
induction.
-/

set_option autoImplicit false

namespace PeerCache

namespace Placement

/-- The buckets of the new table that a group of informants can reach. -/
def sourceBuckets (key : PlacementKey) (g : Group) : Finset (Fin newBucketCount) :=
  (Finset.range newBucketsPerSourceGroup).image (newBucketOf key g)

theorem card_sourceBuckets_le (key : PlacementKey) (g : Group) :
    (sourceBuckets key g).card ≤ newBucketsPerSourceGroup := by
  calc
    (sourceBuckets key g).card ≤ (Finset.range newBucketsPerSourceGroup).card :=
      Finset.card_image_le
    _ = newBucketsPerSourceGroup := Finset.card_range _

theorem newBucket_mem_sourceBuckets (key : PlacementKey) (e : Endpoint) (source : Ip) :
    newBucket key e source ∈ sourceBuckets key (Group.ofIp source) := by
  obtain ⟨reduced, hlt, heq⟩ := newBucket_eq key e source
  rw [heq]
  exact Finset.mem_image_of_mem _ (Finset.mem_range.mpr hlt)

end Placement

namespace Cache

variable {c d m : Cache} {buckets : Finset (Fin newBucketCount)} {g : Group}

/-- The operation takes in an announcement by an informant of the group. -/
def Operation.IsLearnFrom (g : Group) : Operation → Prop
  | .learn _ source _ _ => Group.ofIp source = g
  | _ => False

/-- Nothing changed outside some buckets of the new table. -/
structure Confined (buckets : Finset (Fin newBucketCount)) (c d : Cache) : Prop where
  key : d.key = c.key
  triedTable : d.triedTable = c.triedTable
  newTable : ∀ (b : Fin newBucketCount) (p : Fin bucketSize), b ∉ buckets →
    d.newTable.get b p = c.newTable.get b p
  /-- A record that is tried or has a slot elsewhere is still there. -/
  stays : ∀ (id : RecordId) (r : Record), c.records[id]? = some r →
    (r.inTried = true ∨ ∃ b p, b ∉ buckets ∧ c.newTable.get b p = some id) →
      ∃ s : Record, d.records[id]? = some s ∧ s.endpoint = r.endpoint ∧ s.inTried = r.inTried

namespace Confined

theorem refl (buckets : Finset (Fin newBucketCount)) (c : Cache) : Confined buckets c c where
  key := rfl
  triedTable := rfl
  newTable _ _ _ := rfl
  stays _ r hr _ := ⟨r, hr, rfl, rfl⟩

/-- A record that stays through the first part is one that must stay through the
second, since it is still tried or still has the slot elsewhere. -/
theorem trans (hcm : Confined buckets c m) (hmd : Confined buckets m d) :
    Confined buckets c d where
  key := hmd.key.trans hcm.key
  triedTable := hmd.triedTable.trans hcm.triedTable
  newTable b p hb := (hmd.newTable b p hb).trans (hcm.newTable b p hb)
  stays id r hr hsafe := by
    obtain ⟨s, hs, he, hin⟩ := hcm.stays id r hr hsafe
    have hsafe' : s.inTried = true ∨ ∃ b p, b ∉ buckets ∧ m.newTable.get b p = some id := by
      rcases hsafe with htried | ⟨b, p, hb, hget⟩
      · exact Or.inl (hin.trans htried)
      · exact Or.inr ⟨b, p, hb, (hcm.newTable b p hb).trans hget⟩
    obtain ⟨t, ht, he', hin'⟩ := hmd.stays id s hs hsafe'
    exact ⟨t, ht, he'.trans he, hin'.trans hin⟩

end Confined

/-- What is left as it is around one slot is so around its bucket. -/
theorem Spared.confined {a : Announcement} {now : Timestamp}
    {slot : Fin newBucketCount × Fin bucketSize} (h : Spared a now slot c d)
    (hslot : slot.1 ∈ buckets) : Confined buckets c d where
  key := h.key
  triedTable := h.triedTable
  newTable b p hb := by
    refine h.newTable b p ?_
    rintro rfl
    exact hb hslot
  stays id r hr hsafe := by
    cases hd : d.records[id]? with
    | some s =>
        obtain ⟨he, hin⟩ := h.announced id r s hr hd
        exact ⟨s, rfl, he, hin⟩
    | none =>
        -- It would have held the one slot and no other, and would not be tried.
        obtain ⟨hheld, hnew, -⟩ := h.removed id r hr hd
        rcases hsafe with htried | ⟨b, p, hb, hget⟩
        · rw [hnew] at htried
          cases htried
        · have hmem : (b, p) ∈ c.newTable.held id := SlotTable.mem_held.mpr hget
          rw [hheld, Finset.mem_singleton] at hmem
          rw [← hmem] at hslot
          exact absurd hslot hb

/-- The slot that an announcement may claim lies in a bucket of the informant's group. -/
theorem offeredSlot_mem (c : Cache) (a : Announcement) (source : Ip) :
    (c.offeredSlot a source).1 ∈ Placement.sourceBuckets c.key (Group.ofIp source) := by
  rw [← Group.ofIp_canonical source]
  exact Placement.newBucket_mem_sourceBuckets c.key _ source.canonical

variable {σ : Type} [RandomSource σ] {w : Type} [Weight w]

/-- One announcement by an informant of the group stays within the buckets. -/
theorem Operation.confined (h : Coherent ∅ ∅ c) (op : Operation) (hop : op.IsLearnFrom g) :
    (op.perform w c : Draw σ Cache).Ensures fun d =>
      Coherent ∅ ∅ d ∧ Confined (Placement.sourceBuckets c.key g) c d := by
  cases op with
  | learn a source penalty now =>
      have hg : Group.ofIp source = g := hop
      subst hg
      refine (h.learn a source penalty now).map fun x hx => ⟨hx.1, ?_⟩
      exact (hx.2.2.spared h).confined (c.offeredSlot_mem a source)
  | confirm | noteAttempt | noteAlive | choose | sample | clear | load => exact hop.elim

/-- So does every sequence of them. -/
theorem run_confined (h : Coherent ∅ ∅ c) {key : PlacementKey} (hkey : c.key = key)
    (ops : List Operation) (hops : ∀ op ∈ ops, op.IsLearnFrom g) :
    (run w ops c : Draw σ Cache).Ensures (Confined (Placement.sourceBuckets key g) c) := by
  induction ops generalizing c with
  | nil => exact .pure (.refl _ c)
  | cons op ops ih =>
      rw [run, List.foldlM_cons]
      refine .bind (op.confined h (hops op List.mem_cons_self)) fun m hm => ?_
      obtain ⟨hcoherent, hconfined⟩ := hm
      rw [hkey] at hconfined
      have hrest := ih hcoherent (hconfined.key.trans hkey) fun op' hmem =>
        hops op' (List.mem_cons_of_mem op hmem)
      exact hrest.mono fun d hd => hconfined.trans hd

variable {allowed : Operation → Prop}

/-- However many announcements the informants of one group make, they reach at most
64 buckets of the new table, and these depend on the key and the group alone. Every
other slot of the new table and every slot of the tried table keeps its holder, and no
record that is tried or has a slot elsewhere is removed. -/
theorem Reachable.run_confined_to_group (h : Reachable allowed c) (g : Group)
    (ops : List Operation) (hops : ∀ op ∈ ops, op.IsLearnFrom g) (w : Type) [Weight w] (s : σ) :
    (Placement.sourceBuckets c.key g).card ≤ 64 ∧
      ∃ (d : Cache) (s' : σ), run w ops c s = .ok (d, s') ∧
        Confined (Placement.sourceBuckets c.key g) c d := by
  refine ⟨Placement.card_sourceBuckets_le c.key g, ?_⟩
  exact run_confined h.coherent rfl ops hops s

/-- For instance, two informants of one group announce to a cache that has learnt an
endpoint from another group. -/
theorem run_confined_two_informants : ∃ (c : Cache) (s : SplitMix),
    (Operation.learn (.ofEndpoint (.ofIp (.v4 ⟨8, 8, 8, 8⟩) 8333) (.ofSecs 1700000000))
      (.v4 ⟨9, 9, 9, 9⟩) 0 (.ofSecs 1700000000)).perform Rat (ofKey .standard default) ⟨[], 0⟩
        = .ok (c, s) ∧
    (Placement.sourceBuckets c.key (.v4 7 7)).card ≤ 64 ∧
    ∃ (d : Cache) (s' : SplitMix),
      run Rat
        [.learn (.ofEndpoint (.ofIp (.v4 ⟨8, 8, 4, 4⟩) 8333) .zero) (.v4 ⟨7, 7, 7, 7⟩) 0 .zero,
          .learn (.ofEndpoint (.ofIp (.v4 ⟨8, 8, 8, 8⟩) 1) .zero) (.v4 ⟨7, 7, 1, 1⟩) 9 .zero] c s
        = .ok (d, s') ∧ Confined (Placement.sourceBuckets c.key (.v4 7 7)) c d := by
  have hempty : Reachable (fun _ => True) (ofKey .standard default) := .ofKey .standard default
  obtain ⟨c, s, hrun, hc⟩ := hempty.exists_step Rat (.learn _ _ _ _) trivial (⟨[], 0⟩ : SplitMix)
  refine ⟨c, s, hrun, hc.run_confined_to_group (.v4 7 7) _ ?_ Rat s⟩
  intro op hmem
  simp only [List.mem_cons, List.not_mem_nil, or_false] at hmem
  rcases hmem with rfl | rfl
  · show Group.ofIp (.v4 ⟨7, 7, 7, 7⟩) = .v4 7 7
    decide
  · show Group.ofIp (.v4 ⟨7, 7, 1, 1⟩) = .v4 7 7
    decide

end Cache

end PeerCache
