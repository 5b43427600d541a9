import PeerCache.Proofs.Cache.Newcomer

/-!
# `PeerCache.Proofs.Cache.Repeated`: the same announcement again

An announcement that is made a second time finds one of three things.

1. A record that the first one has stored. It says what the announcement says and holds the
   slot that the announcement is for, so neither the merge nor the offer of that slot changes
   anything (`Learnt.eq_of_stored`). This also holds where the announcement counts as news
   and earns the record the offer of a further slot.
2. A record from before the first one. It is still there (`Learnt.knows`), and no creation is
   reported for a known address.
3. No record. Then the policy or the slot has turned the first one away, and does so again.

`Reachable.learn_twice` puts the three together.
-/

set_option autoImplicit false

namespace PeerCache

namespace Record

/-- Merging the claim that a last-seen time was made from does not move it. -/
theorem mergeSeen_earlier (claim : Timestamp) (penalty : Nat) (now : Timestamp) :
    mergeSeen (claim.earlier penalty) claim penalty now = claim.earlier penalty := by
  unfold mergeSeen
  split <;> rfl

/-- A record that says what an announcement says is not changed by it. -/
theorem merge_eq_self {r : Record} {a : Announcement} {penalty : Nat}
    (hpeer : r.peer = { a with seen := a.seen.earlier penalty }) (now : Timestamp) :
    r.merge a penalty now = r := by
  obtain ⟨peer, source, lastSuccess, lastTry, attempts, inTried, refs, orderIndex⟩ := r
  obtain rfl : peer = { a with seen := a.seen.earlier penalty } := hpeer
  simp [merge, mergeSeen_earlier, Services.union]

theorem SameButPlace.peer {r s : Record} (h : r.SameButPlace s) : s.peer = r.peer := by
  rw [h]

end Record

namespace Cache

variable {c d : Cache} {id : RecordId} {r : Record} {a : Announcement} {source : Ip}
  {penalty : Nat} {now : Timestamp} {b : Fin newBucketCount} {p : Fin bucketSize} {created : Bool}

theorem merged_eq_self (hr : c.records[id]? = some r)
    (hpeer : r.peer = { a.canonical with seen := a.canonical.seen.earlier penalty })
    (now : Timestamp) : c.merged id r a penalty now = c := by
  have hrecords : (c.records.modify id fun _ => r.merge a.canonical penalty now) = c.records := by
    refine Std.ExtTreeMap.ext_getElem? fun j => ?_
    rw [getElem?_modify_eq_map, r.merge_eq_self hpeer]
    by_cases hj : j = id
    · rw [hj, hr, Option.map_some, if_pos rfl]
    · simp [hj]
  rw [merged, modifyRecord, hrecords]

/-- A record that says what an announcement says, and holds the slot that it is for, leaves
nothing for the announcement to do. -/
theorem Learnt.eq_of_stored (h : Learnt c a source penalty now created d) (hc : Indexed c)
    (hr : c.records[id]? = some r)
    (hpeer : r.peer = { a.canonical with seen := a.canonical.seen.earlier penalty })
    (hslot : c.primarySlot a.canonical.endpoint source.canonical = (b, p))
    (hget : c.newTable.get b p = some id) : d = c := by
  have hendpoint : r.endpoint = a.canonical.endpoint := by rw [Record.endpoint, hpeer]
  have hip : r.ip = a.canonical.ip := congrArg Endpoint.ip hendpoint
  -- The record of the address is this one.
  have hsame : ∀ (j : RecordId) (s : Record), c.records[j]? = some s → s.ip = a.canonical.ip →
      j = id ∧ s = r := by
    intro j s hs hips
    obtain rfl := hc.id_unique hs hr (hips.trans hip.symm)
    rw [hr] at hs
    exact ⟨rfl, (Option.some.inj hs).symm⟩
  cases h with
  | ignored => rfl
  | merged hr' hip' =>
      obtain ⟨rfl, rfl⟩ := hsame _ _ hr' hip'
      exact merged_eq_self hr hpeer now
  | offered hr' hip' _ hslot' hoffered =>
      obtain ⟨rfl, rfl⟩ := hsame _ _ hr' hip'
      rw [hendpoint, hslot] at hslot'
      cases hslot'
      rw [merged_eq_self hr hpeer now] at hoffered
      exact (hoffered.of_held hget).2
  | created hunknown =>
      have hknown := (hc.addresses_iff r.ip id).mpr ⟨r, hr, rfl⟩
      rw [hip, hunknown] at hknown
      cases hknown

/-- An announcement does not remove the record of its address. -/
theorem Learnt.knows (h : Learnt c a source penalty now created d) (hc : Coherent ∅ ∅ c)
    (hknown : c.Knows a.canonical.ip) : d.Knows a.canonical.ip := by
  cases h with
  | ignored => exact hknown
  | merged hr hip => exact ⟨_, _, getElem?_merged_self hr a penalty now, hip⟩
  | @offered id old _ _ _ _ hr hip hnew _ hoffered =>
      have hrm := getElem?_merged_self hr a penalty now
      cases hs : d.records[id]? with
      | some s =>
          have hsame := hoffered.sameButPlace hrm hs
          exact ⟨id, s, hs, (congrArg Endpoint.ip hsame.kind.1).trans hip⟩
      | none =>
          -- The record holds a slot, so a refused offer does not remove it.
          rcases hoffered.removed (hc.merged hr a penalty now).toPlaced hrm hs with
            ⟨-, hrefs⟩ | ⟨hne, -⟩
          · exact (hc.mem_loose id old hr hnew hrefs).elim
          · exact absurd rfl hne
  | created hunknown => exact absurd hknown (hc.not_knows_iff.mpr hunknown)

variable {σ : Type} [RandomSource σ]

/-- An announcement of a known address reports no creation and adds no record. -/
theorem Coherent.learn_known (h : Coherent ∅ ∅ c) (hknown : c.Knows a.canonical.ip)
    (source : Ip) (penalty : Nat) (now : Timestamp) (s : σ) :
    ∃ (d : Cache) (s' : σ), c.learn a source penalty now s = .ok ((false, d), s') ∧
      d.size ≤ c.size ∧ Coherent ∅ ∅ d ∧ Learnt c a source penalty now false d := by
  obtain ⟨⟨created, d⟩, s', hrun, hd, -, hlearnt⟩ := h.learn a source penalty now s
  obtain rfl := hlearnt.eq_false_of_known h.toIndexed hknown
  refine ⟨d, s', hrun, ?_, hd, hlearnt⟩
  have hids : d.ids ⊆ c.ids := Finset.sdiff_eq_empty_iff_subset.mp (hlearnt.change h hd).ids
  calc
    d.size = d.ids.card := by rw [card_ids, ← hd.sound.size_order, size]
    _ ≤ c.ids.card := Finset.card_le_card hids
    _ = c.size := by rw [card_ids, ← h.sound.size_order, size]

/-- A newcomer that is stored makes the same announcement idle. -/
theorem Coherent.learn_again (h : Coherent ∅ ∅ c) (hd : Coherent ∅ ∅ d)
    (hunknown : c.addresses[a.canonical.ip]? = none)
    (hslot : c.primarySlot a.canonical.endpoint source.canonical = (b, p))
    (hoffered : Offered (c.created a source penalty) ⟨c.nextId⟩ (c.newcomer a source penalty)
      b p true now true d) (s : σ) :
    ∃ s', d.learn a source penalty now s = .ok ((false, d), s') := by
  obtain ⟨-, hr, -⟩ := h.created a source penalty hunknown
  obtain ⟨hget, t, ht, hsame⟩ := hoffered.exists_stored hr
  have hknown : d.Knows a.canonical.ip := ⟨_, t, ht, congrArg Endpoint.ip hsame.kind.1⟩
  obtain ⟨e, s', hrun, -, -, hlearnt⟩ := hd.learn_known hknown source penalty now s
  have hkey : d.primarySlot a.canonical.endpoint source.canonical = (b, p) := by
    have hkey : d.key = c.key := hoffered.key
    rw [primarySlot, newSlot, hkey]
    exact hslot
  obtain rfl := hlearnt.eq_of_stored hd.toIndexed ht hsame.peer hkey hget
  exact ⟨s', hrun⟩

variable {allowed : Operation → Prop}

/-- An announcement that is made twice in a row changes little the second time, whatever is
drawn. No creation is reported and the cache does not grow. When the first one reported a
creation, the second one changes nothing at all. -/
theorem Reachable.learn_twice (h : Reachable allowed c) (a : Announcement) (source : Ip)
    (penalty : Nat) (now : Timestamp) (s : σ) :
    ∃ (created : Bool) (d : Cache) (s' : σ),
      c.learn a source penalty now s = .ok ((created, d), s') ∧
      ∀ (τ : Type) [RandomSource τ] (t : τ), ∃ (e : Cache) (t' : τ),
        d.learn a source penalty now t = .ok ((false, e), t') ∧ e.size ≤ d.size ∧
          (created = true → e = d) := by
  have hc := h.coherent
  by_cases hadmits : c.policy.admits a.canonical.ip = true
  · by_cases hknown : c.Knows a.canonical.ip
    · -- The record from before is found again.
      obtain ⟨d, s', hrun, -, hd, hlearnt⟩ := hc.learn_known hknown source penalty now s
      refine ⟨false, d, s', hrun, fun τ _ t => ?_⟩
      obtain ⟨e, t', hagain, hsize, -⟩ :=
        hd.learn_known (hlearnt.knows hc hknown) source penalty now t
      exact ⟨e, t', hagain, hsize, nofun⟩
    · have hunknown := hc.not_knows_iff.mp hknown
      obtain ⟨⟨b, p⟩, hslot⟩ : ∃ slot, c.primarySlot a.canonical.endpoint source.canonical = slot :=
        ⟨_, rfl⟩
      by_cases hopen : c.SlotOpen (b, p) now
      · -- The record that was added is found again.
        obtain ⟨d, hrun, hd, hoffered⟩ := hc.learn_open hadmits hunknown hslot hopen penalty s
        refine ⟨true, d, s, hrun, fun τ _ t => ?_⟩
        obtain ⟨t', hagain⟩ := hc.learn_again hd hunknown hslot hoffered t
        exact ⟨d, t', hagain, le_rfl, fun _ => rfl⟩
      · -- The slot turns the newcomer away again.
        obtain ⟨hd, hrun⟩ := hc.learn_closed hadmits hunknown hslot hopen penalty s
        refine ⟨false, _, s, hrun, fun τ _ t => ?_⟩
        obtain ⟨-, hagain⟩ := hd.learn_closed hadmits hunknown hslot hopen penalty t
        exact ⟨_, t, hagain, le_rfl, nofun⟩
  · -- The policy ignores both.
    have hstop := Bool.not_eq_true _ ▸ hadmits
    exact ⟨false, c, s, hc.learn_unadmitted hstop source penalty now s, fun τ _ t =>
      ⟨c, t, hc.learn_unadmitted hstop source penalty now t, le_rfl, nofun⟩⟩

/-- For instance, an empty cache stores what it hears of first, and hearing it again changes
nothing, with a penalty as well. -/
theorem learn_twice_first : ∃ (d : Cache) (s s' : SplitMix),
    (ofKey .standard default).learn (.ofEndpoint (.ofIp (.v4 ⟨8, 8, 8, 8⟩) 8333)
      (.ofSecs 1700000000)) (.v4 ⟨9, 9, 9, 9⟩) 7200 (.ofSecs 1700000000) (⟨[], 0⟩ : SplitMix)
        = .ok ((true, d), s) ∧
    d.learn (.ofEndpoint (.ofIp (.v4 ⟨8, 8, 8, 8⟩) 8333) (.ofSecs 1700000000)) (.v4 ⟨9, 9, 9, 9⟩)
      7200 (.ofSecs 1700000000) s = .ok ((false, d), s') := by
  have hempty : Reachable (fun _ => True) (ofKey .standard default) := .ofKey .standard default
  obtain ⟨created, d, s, hrun, hagain⟩ :=
    hempty.learn_twice (.ofEndpoint (.ofIp (.v4 ⟨8, 8, 8, 8⟩) 8333) (.ofSecs 1700000000))
      (.v4 ⟨9, 9, 9, 9⟩) 7200 (.ofSecs 1700000000) (⟨[], 0⟩ : SplitMix)
  have hcreated : created = true := by
    -- All slots are free.
    obtain ⟨d', hopen, -⟩ := hempty.coherent.learn_open
      (a := .ofEndpoint (.ofIp (.v4 ⟨8, 8, 8, 8⟩) 8333) (.ofSecs 1700000000)) (by decide)
      (by simp [ofKey]) rfl (Or.inl (SlotTable.get_empty _ _)) 7200 (⟨[], 0⟩ : SplitMix)
    rw [hrun] at hopen
    cases hopen
    rfl
  subst hcreated
  obtain ⟨e, s', hsecond, -, hsame⟩ := hagain SplitMix s
  rw [hsame rfl] at hsecond
  exact ⟨d, s, s', hrun, hsecond⟩

end Cache

end PeerCache
