import PeerCache.Proofs.Cache.Displacement
import PeerCache.Proofs.Cache.History

/-!
# `PeerCache.Proofs.Cache.Informants`: one slot per informant group

Every slot that a record holds in the new table was given to it on the word of some
informant that has announced its address since it was added. The bucket depends on the
endpoint of the record, which never changes, and on the group of the informant. So the
informants of one group have a single slot to give, however often they repeat
themselves (`Trace.slots_of_informants`).

There are two ways to a slot. An announcement offers the one of its informant. An
evicted record gets the one of its first informant back, whose address is kept as the
source of the record. `Operation.ensures_grants` says that there is no third one.
-/

set_option autoImplicit false

namespace PeerCache

namespace Placement

/-- The bucket for `e` when an informant of the group announces it. -/
def groupBucket (key : PlacementKey) (e : Endpoint) (g : Group) : Fin newBucketCount :=
  newBucketOf key g (fold (newFirst key (Group.ofIp e.ip) g) % newBucketsPerSourceGroup)

theorem newBucket_eq_groupBucket (key : PlacementKey) (e : Endpoint) (source : Ip) :
    newBucket key e source = groupBucket key e (Group.ofIp source) := rfl

theorem newBucket_source_canonical (key : PlacementKey) (e : Endpoint) (source : Ip) :
    newBucket key e source.canonical = newBucket key e source := by
  rw [newBucket_eq_groupBucket, newBucket_eq_groupBucket, Group.ofIp_canonical]

end Placement

namespace Cache

variable {c d : Cache} {id j : RecordId} {r s : Record} {b : Fin newBucketCount}
  {p : Fin bucketSize}

/-! ### How a record comes by a slot -/

/-- The operation gives a record a slot in bucket `b`: the one of its source, or that of
an informant that announces its address. -/
def Operation.Grants (op : Operation) (key : PlacementKey) (b : Fin newBucketCount) (s : Record) :
    Prop :=
  b = Placement.newBucket key s.endpoint s.source ∨
    ∃ (a : Announcement) (source : Ip) (penalty : Nat) (now : Timestamp),
      op = .learn a source penalty now ∧ a.canonical.ip = s.ip ∧
        b = Placement.newBucket key s.endpoint source

section

variable {a : Announcement} {source : Ip} {penalty : Nat} {now : Timestamp} {counts created : Bool}
  {b' : Fin newBucketCount} {p' : Fin bucketSize}

/-- A slot that is held after an offer was held before, or is the one that was offered. -/
theorem Offered.get_eq_some (h : Offered c id r b p created now counts d)
    (hget : d.newTable.get b' p' = some j) :
    c.newTable.get b' p' = some j ∨ (j = id ∧ b' = b) := by
  by_cases hslot : (b', p') = (b, p)
  · obtain ⟨rfl, rfl⟩ := Prod.mk.inj hslot
    cases h with
    | held | refused => exact Or.inl hget
    | dropped _ _ _ _ hremoved =>
        rw [hremoved.newTable] at hget
        exact Or.inl hget
    | free | takenOver =>
        have hput : (SlotTable.update _ b' p' (some id)).get b' p' = some j := hget
        rw [SlotTable.get_update, if_pos ⟨rfl, rfl⟩] at hput
        exact Or.inr ⟨(Option.some.inj hput).symm, rfl⟩
  · rw [h.get_newTable hslot] at hget
    exact Or.inl hget

/-- An announcement gives out the slot of its informant. -/
theorem Learnt.grants (h : Learnt c a source penalty now counts d)
    (hget : d.newTable.get b p = some j) (hs : d.records[j]? = some s) :
    c.newTable.get b p = some j ∨ (Operation.learn a source penalty now).Grants c.key b s := by
  -- The slot that is offered is that of the announced record and of the informant.
  have hgrants : ∀ {e : Endpoint}, s.endpoint = e → e.ip = a.canonical.ip →
      b = Placement.newBucket c.key e source.canonical →
      (Operation.learn a source penalty now).Grants c.key b s := by
    rintro e rfl hip rfl
    exact Or.inr ⟨a, source, penalty, now, rfl, hip.symm,
      Placement.newBucket_source_canonical c.key s.endpoint source⟩
  cases h with
  | ignored | merged => exact Or.inl hget
  | @offered id old b' p' _ _ hr hip _ hslot hoffered =>
      rcases hoffered.get_eq_some hget with hbefore | ⟨rfl, rfl⟩
      · exact Or.inl hbefore
      · have hkind := (hoffered.sameButPlace (getElem?_merged_self hr a penalty now) hs).kind
        exact Or.inr (hgrants hkind.1 hip (Prod.mk.inj hslot).1.symm)
  | created hunknown hslot hoffered =>
      rcases hoffered.get_eq_some hget with hbefore | ⟨rfl, rfl⟩
      · exact Or.inl hbefore
      · have hnew := records_created c a source penalty ⟨c.nextId⟩
        rw [if_pos rfl] at hnew
        have hkind := (hoffered.sameButPlace hnew hs).kind
        exact Or.inr (hgrants hkind.1 rfl (Prod.mk.inj hslot).1.symm)

end

/-- A promotion gives out the slot that belongs to the source of the evicted record. -/
theorem Promoted.grants {evicted : Option Endpoint} (h : Promoted id r evicted c d)
    (hc : Placed c) (hget : d.newTable.get b p = some j) (hs : d.records[j]? = some s) :
    c.newTable.get b p = some j ∨ b = Placement.newBucket c.key s.endpoint s.source := by
  have hmem : (b, p) ∈ d.newTable.held j := SlotTable.mem_held.mpr hget
  have hj : j ≠ id := by
    rintro rfl
    rw [h.newSlots] at hmem
    exact absurd hmem (Finset.notMem_empty _)
  have hbefore : d.newTable.held j ⊆ c.newTable.held j → c.newTable.get b p = some j :=
    fun hsub => SlotTable.mem_held.mp (hsub hmem)
  cases hseat : c.triedTable.get (c.triedSlot r.endpoint).1 (c.triedSlot r.endpoint).2 with
  | none => exact Or.inl (hbefore ((h.vacant hseat).2 j hj).newSlots.subset)
  | some other =>
      obtain ⟨t, -, -, hrest⟩ := h.taken other hseat
      by_cases hother : j = other
      · subst hother
        -- The evicted record holds one slot, which its endpoint and its source decide.
        rw [hrest.newSlots, Finset.mem_singleton] at hmem
        have hrecord := hrest.record
        rw [hs, Option.map_some] at hrecord
        have hsame := Record.SameHistory.of_unranked (r := { t with inTried := false, refs := 1 })
          (Option.some.inj hrecord)
        rw [hsame]
        exact Or.inr (Prod.mk.inj hmem).1
      · by_cases hslot : c.primarySlot t.endpoint t.source ∈ c.newTable.held j
        · obtain ⟨u, hu, -⟩ := hc.new_slot _ _ _ (SlotTable.mem_held.mp hslot)
          obtain ⟨-, hheld, -⟩ := hrest.holder j u hj hslot hu
          exact Or.inl (hbefore (hheld ▸ Finset.erase_subset _ _))
        · exact Or.inl (hbefore (hrest.others j hj hother hslot).newSlots.subset)

theorem Rewritten.key_newTable {e : Endpoint} {f : Record → Record} (h : Rewritten e f c d) :
    d.key = c.key ∧ d.newTable = c.newTable := by
  rw [h.rest]
  exact ⟨rfl, rfl⟩

variable {σ : Type} [RandomSource σ] {w : Type} [Weight w]

/-- A slot that is held after a live operation was held before, or the operation gives it
to the record. -/
theorem Operation.ensures_grants (h : Coherent ∅ ∅ c) (op : Operation) (hop : op.IsLive) :
    (op.perform w c : Draw σ Cache).Ensures fun d =>
      ∀ (j : RecordId) (b : Fin newBucketCount) (p : Fin bucketSize) (s : Record),
        d.newTable.get b p = some j → d.records[j]? = some s →
          d.key = c.key ∧ (c.newTable.get b p = some j ∨ op.Grants c.key b s) := by
  cases op with
  | learn a source penalty now =>
      refine (h.learn a source penalty now).map fun x hx j b p s hget hs => ?_
      exact ⟨(hx.2.2.spared h).key, hx.2.2.grants hget hs⟩
  | confirm e now =>
      refine (h.confirm_rewritten e now).map fun x hx j b p s hget hs => ?_
      obtain ⟨m, hm, hx⟩ := hx
      obtain ⟨hkey, htable⟩ := hm.key_newTable
      rcases hx with rfl | ⟨id, r, evicted, hcoherent, -, hpromoted⟩
      · exact ⟨hkey, Or.inl (htable ▸ hget)⟩
      · rw [← hkey, ← htable]
        exact ⟨hpromoted.key, (hpromoted.grants hcoherent.toPlaced hget hs).imp_right Or.inl⟩
  | noteAttempt e now =>
      obtain ⟨d, hrun, hd⟩ := h.noteAttempt_rewritten e now
      obtain ⟨hkey, htable⟩ := hd.key_newTable
      exact .lift hrun fun j b p s hget _ => ⟨hkey, Or.inl (htable ▸ hget)⟩
  | noteAlive e now =>
      obtain ⟨d, hrun, hd⟩ := h.noteAlive_rewritten e now
      obtain ⟨hkey, htable⟩ := hd.key_newTable
      exact .lift hrun fun j b p s hget _ => ⟨hkey, Or.inl (htable ▸ hget)⟩
  | choose now =>
      exact (ensures_choose w c now).map fun _ _ j b p s hget _ => ⟨rfl, Or.inl hget⟩
  | sample now =>
      refine (h.sample now).map fun x hx j b p s hget _ => ?_
      rw [hx.2.rest] at hget ⊢
      exact ⟨rfl, Or.inl hget⟩
  | clear =>
      refine (ensures_new c.policy).mono fun d hd j b p s _ hs => ?_
      obtain ⟨key, rfl⟩ := hd
      simp [ofKey] at hs
  | load => exact hop.elim

/-! ### The informants of a record -/

/-- Who announces the address by this operation. -/
def Operation.informant? (ip : Ip) : Operation → Option Ip
  | .learn a source _ _ => if a.canonical.ip = ip then some source else none
  | _ => none

/-- Who has announced the address of a record since the record was added, the latest
first. The past is followed back to the operation that met a cache without the record. -/
def informants (id : RecordId) (ip : Ip) : List (Cache × Operation) → List Ip
  | [] => []
  | (c, op) :: past =>
    (op.informant? ip).toList ++ if id ∈ c.records then informants id ip past else []

section

variable {op : Operation} {past : List (Cache × Operation)} {ip source : Ip}

theorem mem_informants_of_op (c : Cache) (past : List (Cache × Operation))
    (h : op.informant? ip = some source) : source ∈ informants id ip ((c, op) :: past) :=
  List.mem_append_left _ (by rw [h]; exact List.mem_singleton_self source)

theorem mem_informants_of_past (op : Operation) (hr : c.records[id]? = some r)
    (h : source ∈ informants id ip past) : source ∈ informants id ip ((c, op) :: past) := by
  refine List.mem_append_right _ ?_
  rw [if_pos ((mem_iff_exists_getElem? c.records id).mpr ⟨r, hr⟩)]
  exact h

/-- What the informants of a record account for: its source and its slots. -/
structure Informed (past : List (Cache × Operation)) (c : Cache) (id : RecordId) (r : Record) :
    Prop where
  source : ∃ source ∈ informants id r.ip past, source.canonical = r.source
  bucket : ∀ (b : Fin newBucketCount) (p : Fin bucketSize), c.newTable.get b p = some id →
    ∃ source ∈ informants id r.ip past, b = Placement.newBucket c.key r.endpoint source

/-- Where a slot is given out, there is an informant to account for it. -/
theorem exists_informant_of_grants (hgrants : op.Grants c.key b s)
    (hsource : ∃ source ∈ informants id s.ip ((c, op) :: past), source.canonical = s.source) :
    ∃ source ∈ informants id s.ip ((c, op) :: past),
      b = Placement.newBucket c.key s.endpoint source := by
  rcases hgrants with rfl | ⟨a, source, penalty, now, rfl, hip, rfl⟩
  · obtain ⟨source, hmem, heq⟩ := hsource
    exact ⟨source, hmem, by rw [← heq, Placement.newBucket_source_canonical]⟩
  · exact ⟨source, mem_informants_of_op c past (if_pos hip), rfl⟩

/-- An announcement keeps the account by adding its informant, and other operations add
no slot that is not accounted for. -/
theorem Informed.step (hc : Coherent ∅ ∅ c)
    (h : ∀ (id : RecordId) (r : Record), c.records[id]? = some r → Informed past c id r)
    (horigin : Origin op c id s)
    (hgrants : ∀ (b : Fin newBucketCount) (p : Fin bucketSize), d.newTable.get b p = some id →
      d.key = c.key ∧ (c.newTable.get b p = some id ∨ op.Grants c.key b s)) :
    Informed ((c, op) :: past) d id s := by
  cases horigin with
  | @kept r hr hsame =>
      -- The record has kept its endpoint and its source, so its informants still count.
      obtain ⟨he, hip, hs⟩ := Operation.kind_of_sameHistory hsame
      obtain ⟨source, hmem, heq⟩ := (h id r hr).source
      have haccount : ∃ source ∈ informants id s.ip ((c, op) :: past),
          source.canonical = s.source := by
        rw [hip, hs]
        exact ⟨source, mem_informants_of_past op hr hmem, heq⟩
      refine ⟨haccount, fun b p hget => ?_⟩
      obtain ⟨hkey, hbefore | hgranted⟩ := hgrants b p hget
      · obtain ⟨source, hmem, heq⟩ := (h id r hr).bucket b p hbefore
        rw [hip, he, hkey]
        exact ⟨source, mem_informants_of_past op hr hmem, heq⟩
      · rw [hkey]
        exact exists_informant_of_grants hgranted haccount
  | @added a source penalty now hop hnone hsame =>
      -- The announcement that added the record is the first to account for.
      have hip : a.canonical.ip = s.ip := by rw [hsame]; rfl
      have hs : source.canonical = s.source := by rw [hsame]; rfl
      have haccount : ∃ source ∈ informants id s.ip ((c, op) :: past),
          source.canonical = s.source := by
        subst hop
        exact ⟨source, mem_informants_of_op c past (if_pos hip), hs⟩
      refine ⟨haccount, fun b p hget => ?_⟩
      obtain ⟨hkey, hbefore | hgranted⟩ := hgrants b p hget
      · -- Nothing could be held under a number that no record had.
        obtain ⟨r, hr, -⟩ := hc.new_slot b p id hbefore
        rw [hnone] at hr
        cases hr
      · rw [hkey]
        exact exists_informant_of_grants hgranted haccount

end

variable {past : List (Cache × Operation)}

theorem Trace.informed (h : Trace Operation.IsLive past c) (hr : c.records[id]? = some r) :
    Informed past c id r := by
  -- Along the past, for all records at once: a promotion gives a slot to another record.
  induction h generalizing id r with
  | ofKey policy key => simp [Cache.ofKey] at hr
  | step hc hop hrun ih =>
      have hcoherent := hc.reachable.coherent
      have horigin := (Operation.ensures_origin hcoherent _ hop).of_run hrun id r hr
      have hgrants := (Operation.ensures_grants hcoherent _ hop).of_run hrun
      exact .step hcoherent (fun j s hs => ih hs) horigin fun b p hget => hgrants id b p r hget hr

/-- In a cache that was never loaded, every slot that a record holds in the new table is
the one of an informant that has announced the address of the record, under any port,
since the record was added. So the record holds at most one slot for every group that
these informants come from. -/
theorem Trace.slots_of_informants (h : Trace Operation.IsLive past c)
    (hr : c.records[id]? = some r) :
    (∀ (b : Fin newBucketCount) (p : Fin bucketSize), c.newTable.get b p = some id →
      ∃ source ∈ informants id r.ip past, b = Placement.newBucket c.key r.endpoint source ∧
        p = Placement.slot c.key .new b r.endpoint) ∧
    (c.newTable.held id).card ≤ ((informants id r.ip past).map Group.ofIp).toFinset.card := by
  have hslots : ∀ (b : Fin newBucketCount) (p : Fin bucketSize), c.newTable.get b p = some id →
      ∃ source ∈ informants id r.ip past, b = Placement.newBucket c.key r.endpoint source ∧
        p = Placement.slot c.key .new b r.endpoint := by
    intro b p hget
    obtain ⟨source, hmem, hb⟩ := (h.informed hr).bucket b p hget
    obtain ⟨r', hr', -, hp⟩ := h.reachable.coherent.new_slot b p id hget
    rw [hr] at hr'
    cases hr'
    exact ⟨source, hmem, hb, hp.symm⟩
  refine ⟨hslots, ?_⟩
  -- The slot is a function of the group.
  let slotOf : Group → Fin newBucketCount × Fin bucketSize := fun g =>
    let b := Placement.groupBucket c.key r.endpoint g
    (b, Placement.slot c.key .new b r.endpoint)
  have hsub : c.newTable.held id ⊆
      ((informants id r.ip past).map Group.ofIp).toFinset.image slotOf := by
    rintro ⟨b, p⟩ hmem
    obtain ⟨source, hsource, rfl, rfl⟩ := hslots b p (SlotTable.mem_held.mp hmem)
    refine Finset.mem_image.mpr ⟨Group.ofIp source, ?_, rfl⟩
    exact List.mem_toFinset.mpr (List.mem_map_of_mem hsource)
  exact (Finset.card_le_card hsub).trans Finset.card_image_le

/-- For instance, a record that one informant has announced holds one slot at most. -/
theorem slots_of_one_informant : ∃ (c : Cache) (s : SplitMix) (r : Record),
    (Operation.learn (.ofEndpoint (.ofIp (.v4 ⟨8, 8, 8, 8⟩) 8333) (.ofSecs 1700000000))
      (.v4 ⟨9, 9, 9, 9⟩) 0 (.ofSecs 1700000000)).perform Rat (ofKey .standard default) ⟨[], 0⟩
        = .ok (c, s) ∧
    c.records[(⟨0⟩ : RecordId)]? = some r ∧
    (∀ (b : Fin newBucketCount) (p : Fin bucketSize), c.newTable.get b p = some ⟨0⟩ →
      b = Placement.newBucket c.key r.endpoint (.v4 ⟨9, 9, 9, 9⟩)) ∧
    (c.newTable.held ⟨0⟩).card ≤ 1 := by
  have hempty : Reachable (fun _ => True) (ofKey .standard default) := .ofKey .standard default
  obtain ⟨c, s, hrun, hc, hr⟩ :=
    hempty.exists_learn_first Rat (.ofEndpoint (.ofIp (.v4 ⟨8, 8, 8, 8⟩) 8333) (.ofSecs 1700000000))
      (.v4 ⟨9, 9, 9, 9⟩) 0 (.ofSecs 1700000000) trivial (by decide) (⟨[], 0⟩ : SplitMix)
  have htrace : Trace Operation.IsLive _ c :=
    .step (.ofKey .standard default) (show Operation.IsLive (.learn _ _ _ _) from trivial) hrun
  obtain ⟨hslots, hcard⟩ := htrace.slots_of_informants hr
  refine ⟨c, s, _, hrun, hr, fun b p hget => ?_, hcard.trans (List.toFinset_card_le _)⟩
  obtain ⟨source, hmem, hb, -⟩ := hslots b p hget
  rw [hb, List.mem_singleton.mp hmem]

end Cache

end PeerCache
